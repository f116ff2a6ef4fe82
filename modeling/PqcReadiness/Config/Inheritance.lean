import PqcReadiness.Config.NginxServers
import PqcReadiness.Lib.Generator

/-!
# Inheritance in nginx

Which group list and which protocols nginx uses for a server, and when `parse_nginx` reports
these: `inherits_iff`.

nginx takes the commands of `ssl_conf_command` from the innermost level that has any, and applies
them in order.  `parse_nginx` merges the commands of all levels and prefers `Curves` to `Groups`.

## Strategy

`walk` reads the settings of every list of directives on top of those around it, so it is a loop
over the lists, each with the levels from the outside in (`visits`), and the settings of a visit
are read from the directives of all its levels in a row (`foldlM_applyDirective`).
-/

namespace PqcReadiness.Config.Nginx

open PqcReadiness.Lib

/-! ## What nginx does -/

/-- Lists of directives, from the outside in. -/
abbrev Levels := List (List NginxDirective)

/-- The arguments of the last directive with this name. -/
def lastArgs (name : Chars) (stmts : List NginxDirective) : Option (List Chars) :=
  (stmts.reverse.find? fun d => d.name = name).map NginxDirective.args

/-- The same on the innermost level that has one. -/
def innermost (name : Chars) (levels : Levels) : Option (List Chars) :=
  levels.reverse.findSome? (lastArgs name)

/-- The commands of a level. -/
def levelCommands (stmts : List NginxDirective) : List (List Chars) :=
  (stmts.filter fun d => d.name = "ssl_conf_command".toList).map NginxDirective.args

/-- The commands that nginx applies: those of the innermost level that has any. -/
def nginxCommands (levels : Levels) : List (List Chars) :=
  ((levels.reverse.find? fun stmts => levelCommands stmts ≠ []).map levelCommands).getD []

/-- A command that sets groups: whether under `Curves`, and the value. -/
def groupCommand : List Chars → Option (Bool × Chars)
  | key :: value :: _ =>
      if lowerAscii key = "curves".toList then some (true, value)
      else if lowerAscii key = "groups".toList then some (false, value)
      else none
  | _ => none

/-- The last command that sets groups. -/
def lastGroupCommand (commands : List (List Chars)) : Option (Bool × Chars) :=
  commands.reverse.findSome? groupCommand

/-- The value of `ssl_ecdh_curve`. -/
def nginxCurve (levels : Levels) : Option Chars :=
  (innermost "ssl_ecdh_curve".toList levels).bind List.head?

/-- The group list that nginx uses, as it is written. -/
def nginxValue (levels : Levels) : Option Chars :=
  ((lastGroupCommand (nginxCommands levels)).map Prod.snd).or (nginxCurve levels)

/-- The groups that nginx uses. -/
def nginxGroups (levels : Levels) : Option (List Chars) := splitGroups (nginxValue levels)

/-- The protocols that nginx uses. -/
def nginxProtocols (levels : Levels) : Option (List Chars) :=
  innermost "ssl_protocols".toList levels

/-! ## Where `parse_nginx` does the same -/

/-- The commands of all levels. -/
def allCommands (levels : Levels) : List (List Chars) := levels.flatMap levelCommands

/-- The value of a command with this key. -/
def valueOf (key : Chars) : List Chars → Option Chars
  | other :: value :: _ => if lowerAscii other = key then some value else none
  | _ => none

/-- The value of the last command with this key. -/
def lastValue (key : Chars) (commands : List (List Chars)) : Option Chars :=
  commands.reverse.findSome? (valueOf key)

/-- No command with less than two arguments stands before one with two. -/
def Orderly (levels : Levels) : Prop :=
  (allCommands levels).Pairwise fun first second => 2 ≤ first.length ∨ second.length < 2

/-- Every command has two arguments. -/
def Complete (levels : Levels) : Prop := ∀ args ∈ allCommands levels, 2 ≤ args.length

/-- Where the commands that nginx applies end with `Groups`, the last `Curves` of any level lists
the same groups.  Where they set no groups, what another level sets is the same as
`ssl_ecdh_curve`. -/
def OwnList (levels : Levels) : Prop :=
  match lastGroupCommand (nginxCommands levels) with
  | some (true, _) => True
  | some (false, value) =>
      ∀ other ∈ lastValue "curves".toList (allCommands levels),
        splitGroups (some other) = splitGroups (some value)
  | none =>
      ∀ other ∈ (lastValue "curves".toList (allCommands levels)).or
          (lastValue "groups".toList (allCommands levels)),
        splitGroups (some other) = splitGroups (nginxCurve levels)

/-! ## Visits -/

/-- A server, without its body. -/
structure ServerBlock where
  file : String
  line : ℕ
  ctx : Chars

/-- A list of directives that `walk` comes to: the levels with it as the innermost one, and the
server, if it is one. -/
structure Visit where
  levels : Levels
  body : List NginxDirective
  server : Option ServerBlock

mutual

/-- The visits in a list of directives. -/
def blockVisits (levels : Levels) (ctx : Chars) : List NginxDirective → List Visit
  | [] => []
  | d :: rest => directiveVisits levels ctx d ++ blockVisits levels ctx rest

/-- The visits in a directive. -/
def directiveVisits (levels : Levels) (ctx : Chars) : NginxDirective → List Visit
  | .simple .. => []
  | .block name _ line file body =>
      if serverContexts.contains name then
        ⟨levels ++ [body], body, none⟩ :: blockVisits (levels ++ [body]) name body
      else if name = "server".toList ∧ serverContexts.contains ctx = true then
        [⟨levels ++ [body], body, some ⟨file, line, ctx⟩⟩]
      else []

end

/-- The visits in a tree. -/
def visits (tree : List NginxDirective) : List Visit :=
  ⟨[tree], tree, none⟩ :: blockVisits [tree] "main".toList tree

/-- The TLS ports of a server. -/
def Visit.ports (chars : CharData) (visit : Visit) : List ℕ :=
  match visit.server with
  | none => []
  | some server =>
      visit.body.filterMap
        (tlsPort chars (legacyOn (innermost "ssl".toList visit.levels)) server.ctx)

/-- The servers with TLS. -/
def tlsServers (chars : CharData) (tree : List NginxDirective) : List Visit :=
  (visits tree).filter fun visit => visit.ports chars ≠ []

/-- Every server with TLS has an endpoint, in order, with the groups and the protocols that nginx
uses. -/
def Inherits (chars : CharData) (tree : List NginxDirective) : Prop :=
  ∃ endpoints, nginxEndpoints chars tree = .ok endpoints ∧
    endpoints.map (fun endpoint => (endpoint.groups, endpoint.protocols)) =
      (tlsServers chars tree).map fun visit =>
        (nginxGroups visit.levels, nginxProtocols visit.levels)

/-! ## Settings -/

/-- The settings of the levels. -/
def levelSettings (levels : Levels) : Except NginxFault NginxSettings :=
  levels.flatten.foldlM applyDirective {}

theorem lastArgs_cons (name : Chars) (d : NginxDirective) (stmts : List NginxDirective) :
    lastArgs name (d :: stmts) =
      (lastArgs name stmts).or (if d.name = name then some d.args else none) := by
  rw [lastArgs, List.reverse_cons, List.find?_append, Option.map_or, lastArgs]
  split <;> simp_all

theorem lastArgs_append (name : Chars) (first second : List NginxDirective) :
    lastArgs name (first ++ second) = (lastArgs name second).or (lastArgs name first) := by
  rw [lastArgs, List.reverse_append, List.find?_append, Option.map_or]
  rfl

theorem innermost_append (name : Chars) (levels : Levels) (stmts : List NginxDirective) :
    innermost name (levels ++ [stmts]) = (lastArgs name stmts).or (innermost name levels) := by
  rw [innermost, List.reverse_append, List.reverse_singleton, List.singleton_append,
    List.findSome?_cons]
  cases lastArgs name stmts <;> rfl

/-- The last directive of all is on the innermost level that has one. -/
theorem lastArgs_flatten (name : Chars) (levels : Levels) :
    lastArgs name levels.flatten = innermost name levels := by
  induction levels using List.reverseRecOn with
  | nil => rfl
  | append_singleton levels stmts ih =>
      rw [List.flatten_append, List.flatten_singleton, lastArgs_append, ih, innermost_append]

/-- What directives make of the settings but for the commands. -/
def plainSettings (stmts : List NginxDirective) (st : NginxSettings) : NginxSettings where
  protocols := (lastArgs "ssl_protocols".toList stmts).or st.protocols
  ciphers := (lastArgs "ssl_ciphers".toList stmts).or st.ciphers
  ecdhCurve := (lastArgs "ssl_ecdh_curve".toList stmts).or st.ecdhCurve
  certificates := st.certificates ++
    (stmts.filter fun d => d.name = "ssl_certificate".toList).flatMap fun d => d.args.take 1
  confCommand := st.confCommand
  ssl := (lastArgs "ssl".toList stmts).or st.ssl

/-- A directive and the settings but for the commands. -/
def plainStep (d : NginxDirective) (st : NginxSettings) : NginxSettings where
  protocols := if d.name = "ssl_protocols".toList then some d.args else st.protocols
  ciphers := if d.name = "ssl_ciphers".toList then some d.args else st.ciphers
  ecdhCurve := if d.name = "ssl_ecdh_curve".toList then some d.args else st.ecdhCurve
  certificates := st.certificates ++
    if d.name = "ssl_certificate".toList then d.args.take 1 else []
  confCommand := st.confCommand
  ssl := if d.name = "ssl".toList then some d.args else st.ssl

theorem plainSettings_cons (d : NginxDirective) (rest : List NginxDirective) (st : NginxSettings) :
    plainSettings (d :: rest) st = plainSettings rest (plainStep d st) := by
  have hlast : ∀ (name : Chars) (old : Option (List Chars)),
      (lastArgs name (d :: rest)).or old =
        (lastArgs name rest).or (if d.name = name then some d.args else old) := by
    intro name old
    rw [lastArgs_cons, Option.or_assoc]
    split <;> rfl
  have hcertificates : ((d :: rest).filter fun d => d.name = "ssl_certificate".toList).flatMap
      (fun d => d.args.take 1) =
        (if d.name = "ssl_certificate".toList then d.args.take 1 else []) ++
          (rest.filter fun d => d.name = "ssl_certificate".toList).flatMap
            fun d => d.args.take 1 := by
    rw [List.filter_cons]
    split
    · next hname =>
        rw [if_pos (of_decide_eq_true hname)]
        rfl
    · next hname =>
        rw [if_neg (of_decide_eq_false (Bool.not_eq_true _ ▸ hname))]
        rfl
  simp only [plainSettings, plainStep, hlast, hcertificates, List.append_assoc]

/-- A directive that is no command. -/
theorem applyDirective_plain {d : NginxDirective} (hcommand : d.name ≠ "ssl_conf_command".toList)
    (st : NginxSettings) : applyDirective st d = .ok (plainStep d st) := by
  rw [applyDirective, if_neg hcommand]
  split
  · next hname =>
      rw [plainStep, hname]
      rfl
  · next hcertificate =>
      have hsame : st.certificates = st.certificates ++
          if d.name = "ssl_certificate".toList then d.args.take 1 else [] := by
        rw [if_neg hcertificate, List.append_nil]
      split
      · next hname =>
          rw [plainStep, ← hsame, hname]
          rfl
      · next hprotocols =>
          split
          · next hname =>
              rw [plainStep, ← hsame, hname]
              rfl
          · next hciphers =>
              split
              · next hname =>
                  rw [plainStep, ← hsame, hname]
                  rfl
              · next hcurve =>
                  split
                  · next hname =>
                      rw [plainStep, ← hsame, hname]
                      rfl
                  · next hssl =>
                      rw [plainStep, ← hsame, if_neg hprotocols, if_neg hciphers, if_neg hcurve,
                        if_neg hssl]

theorem applyDirective_command {d : NginxDirective} (hcommand : d.name = "ssl_conf_command".toList)
    (st : NginxSettings) : applyDirective st d = (st.confCommand.add d.args).map fun commands =>
      { plainStep d st with confCommand := commands } := by
  rw [applyDirective, plainStep, hcommand, if_neg (by decide), if_pos rfl, if_neg (by decide),
    if_neg (by decide), if_neg (by decide), if_neg (by decide), if_neg (by decide),
    List.append_nil]

/-- **Settings are read one kind at a time.** -/
theorem foldlM_applyDirective (stmts : List NginxDirective) (st : NginxSettings) :
    stmts.foldlM applyDirective st =
      ((levelCommands stmts).foldlM ConfCommands.add st.confCommand).map fun commands =>
        { plainSettings stmts st with confCommand := commands } := by
  induction stmts generalizing st with
  | nil =>
      simp only [plainSettings, levelCommands, lastArgs, List.filter_nil, List.flatMap_nil,
        List.append_nil]
      rfl
  | cons d rest ih =>
      rw [List.foldlM_cons, plainSettings_cons]
      by_cases hcommand : d.name = "ssl_conf_command".toList
      · have hcommands : levelCommands (d :: rest) = d.args :: levelCommands rest := by
          rw [levelCommands, List.filter_cons, if_pos (decide_eq_true hcommand)]
          rfl
        rw [applyDirective_command hcommand, hcommands, List.foldlM_cons]
        cases hadd : st.confCommand.add d.args with
        | error fault => rfl
        | ok commands => exact ih { plainStep d st with confCommand := commands }
      · have hcommands : levelCommands (d :: rest) = levelCommands rest := by
          rw [levelCommands, List.filter_cons, if_neg (by rwa [decide_eq_true_eq])]
          rfl
        rw [applyDirective_plain hcommand, ok_bind, ih, hcommands]
        rfl

/-! ## Commands -/

/-- One command with two arguments. -/
def addCommand (map : Dict Chars Chars) (args : List Chars) : Dict Chars Chars :=
  match args with
  | key :: value :: _ => map.update (lowerAscii key) fun _ => value
  | _ => map

theorem add_long {args : List Chars} (hlong : 2 ≤ args.length) (map : Dict Chars Chars) :
    ConfCommands.add (.commands map) args = .ok (.commands (addCommand map args)) := by
  match args with
  | [] => cases hlong
  | [_] => exact absurd hlong (by simp)
  | key :: value :: rest => rfl

theorem add_short {args : List Chars} (hshort : args.length < 2) (old : ConfCommands) :
    old.add args = .ok .short := by
  match args with
  | [] => rfl
  | [_] => rfl
  | _ :: _ :: _ =>
      rw [List.length_cons, List.length_cons] at hshort
      omega

theorem short_add_long {args : List Chars} (hlong : 2 ≤ args.length) :
    ConfCommands.short.add args = .error .valueError := by
  match args with
  | [] => cases hlong
  | [_] => exact absurd hlong (by simp)
  | key :: value :: rest => rfl

/-- Behind a command that is too short, all others must be. -/
theorem foldlM_add_short {commands : List (List Chars)} {last : ConfCommands} :
    commands.foldlM ConfCommands.add .short = .ok last ↔
      (∀ args ∈ commands, args.length < 2) ∧ last = .short := by
  induction commands with
  | nil =>
      constructor
      · intro hlast
        exact ⟨nofun, (Except.ok.inj hlast).symm⟩
      · rintro ⟨_, rfl⟩
        rfl
  | cons args rest ih =>
      rw [List.foldlM_cons, List.forall_mem_cons]
      by_cases hshort : args.length < 2
      · rw [add_short hshort, ok_bind, ih, and_iff_right hshort]
      · rw [short_add_long (by omega), error_bind]
        constructor
        · nofun
        · rintro ⟨⟨hlt, _⟩, _⟩
          exact absurd hlt hshort

theorem foldlM_add_commands {commands : List (List Chars)} {map : Dict Chars Chars}
    {last : ConfCommands} :
    commands.foldlM ConfCommands.add (.commands map) = .ok last ↔
      (commands.Pairwise fun first second => 2 ≤ first.length ∨ second.length < 2) ∧
        last = if ∀ args ∈ commands, 2 ≤ args.length then
          .commands (commands.foldl addCommand map) else .short := by
  induction commands generalizing map with
  | nil =>
      constructor
      · intro hlast
        exact ⟨List.Pairwise.nil, by simpa using (Except.ok.inj hlast).symm⟩
      · rintro ⟨_, rfl⟩
        simp [pure, Except.pure]
  | cons args rest ih =>
      rw [List.foldlM_cons, List.pairwise_cons]
      by_cases hlong : 2 ≤ args.length
      · have hall : (∀ other ∈ args :: rest, 2 ≤ other.length) ↔
            ∀ other ∈ rest, 2 ≤ other.length := by
          rw [List.forall_mem_cons, and_iff_right hlong]
        rw [add_long hlong, ok_bind, ih, if_congr hall rfl rfl]
        have hfirst : ∀ other ∈ rest, 2 ≤ args.length ∨ other.length < 2 :=
          fun _ _ => Or.inl hlong
        rw [and_iff_right hfirst]
        rfl
      · have hnot : ¬ ∀ other ∈ args :: rest, 2 ≤ other.length :=
          fun hall => hlong (hall args List.mem_cons_self)
        rw [add_short (by omega), ok_bind, foldlM_add_short, if_neg hnot]
        have hfirst : (∀ other ∈ rest, 2 ≤ args.length ∨ other.length < 2) ↔
            ∀ other ∈ rest, other.length < 2 := by
          refine forall₂_congr fun other _ => or_iff_right hlong
        rw [hfirst]
        constructor
        · rintro ⟨hshort, hlast⟩
          refine ⟨⟨hshort, ?_⟩, hlast⟩
          exact List.pairwise_of_forall_mem_list fun _ _ other hother =>
            Or.inr (hshort other hother)
        · rintro ⟨⟨hshort, _⟩, hlast⟩
          exact ⟨hshort, hlast⟩

/-- The map has the last value of every key. -/
theorem get?_foldl_addCommand (commands : List (List Chars)) (map : Dict Chars Chars)
    (key : Chars) : (commands.foldl addCommand map).get? key =
      (lastValue key commands).or (map.get? key) := by
  induction commands generalizing map with
  | nil => rfl
  | cons args rest ih =>
      have hlast : lastValue key (args :: rest) = (lastValue key rest).or (valueOf key args) := by
        rw [lastValue, List.reverse_cons, List.findSome?_append, List.findSome?_singleton]
        rfl
      have hmap : (addCommand map args).get? key = (valueOf key args).or (map.get? key) := by
        match args with
        | [] => rfl
        | [_] => rfl
        | other :: value :: _ =>
            rw [addCommand, Dict.get?_update, valueOf]
            by_cases hkey : lowerAscii other = key
            · rw [if_pos hkey.symm, if_pos hkey]
              rfl
            · rw [if_neg (Ne.symm hkey), if_neg hkey]
              rfl
      rw [List.foldl_cons, ih, hlast, hmap, Option.or_assoc]

/-! ## The walk is a loop over the visits -/

section Visits

variable (chars : CharData)

/-- The endpoints of a visit. -/
def visitEndpoints (visit : Visit) : Except NginxFault (List Endpoint) := do
  let st ← levelSettings visit.levels
  match visit.server with
  | none => return []
  | some server => serverEndpoint chars server.file server.line visit.body st server.ctx

/-- The endpoints of some visits, one behind the other. -/
def collect : List Visit → Except NginxFault (List Endpoint)
  | [] => .ok []
  | visit :: rest => do
      let first ← visitEndpoints chars visit
      let more ← collect rest
      return first ++ more

theorem collect_append (first second : List Visit) :
    collect chars (first ++ second) = (do
      let before ← collect chars first
      let after ← collect chars second
      return before ++ after) := by
  induction first with
  | nil =>
      rw [List.nil_append, collect, ok_bind]
      cases collect chars second <;> rfl
  | cons visit rest ih =>
      rw [List.cons_append, collect, collect, ih, bind_assoc]
      congr 1
      funext endpoints
      cases collect chars rest with
      | error fault => rfl
      | ok before =>
          cases collect chars second with
          | error fault => rfl
          | ok after => exact congrArg Except.ok (List.append_assoc ..).symm

/-- A level on top of others. -/
theorem levelSettings_append {levels : Levels} {st : NginxSettings}
    (hlevels : levelSettings levels = .ok st) (body : List NginxDirective) :
    levelSettings (levels ++ [body]) = settingsOf body st := by
  rw [levelSettings, List.flatten_append, List.flatten_singleton, List.foldlM_append]
  rw [levelSettings] at hlevels
  rw [hlevels]
  rfl

mutual

theorem walkBlocks_eq {levels : Levels} {st : NginxSettings}
    (hlevels : levelSettings levels = .ok st) (ctx : Chars) :
    ∀ stmts, walkBlocks chars st ctx stmts = collect chars (blockVisits levels ctx stmts)
  | [] => by rw [walkBlocks, blockVisits, collect]
  | d :: rest => by
      rw [walkBlocks, blockVisits, collect_append, walkBlock_eq hlevels ctx d,
        walkBlocks_eq hlevels ctx rest]

theorem walkBlock_eq {levels : Levels} {st : NginxSettings}
    (hlevels : levelSettings levels = .ok st) (ctx : Chars) :
    ∀ d, walkBlock chars st ctx d = collect chars (directiveVisits levels ctx d)
  | .simple .. => by rw [walkBlock, directiveVisits, collect]
  | .block name _ line file body => by
      rw [walkBlock, directiveVisits]
      split
      · rw [collect, visitEndpoints, levelSettings_append hlevels body]
        cases hinner : settingsOf body st with
        | error fault => rfl
        | ok inner =>
            have hbody : levelSettings (levels ++ [body]) = .ok inner := by
              rw [levelSettings_append hlevels body, hinner]
            rw [ok_bind, ok_bind, walkBlocks_eq hbody name body]
            change _ = (do
              let more ← collect chars (blockVisits (levels ++ [body]) name body)
              return [] ++ more)
            cases collect chars (blockVisits (levels ++ [body]) name body) <;> rfl
      · split
        · rw [collect, collect, visitEndpoints, levelSettings_append hlevels body]
          cases settingsOf body st with
          | error fault => rfl
          | ok inner =>
              rw [ok_bind]
              cases serverEndpoint chars file line body inner ctx with
              | error fault => rfl
              | ok endpoints => exact congrArg Except.ok (List.append_nil _).symm
        · rw [collect]

end

/-- **`walk` is a loop over the visits.** -/
theorem nginxEndpoints_eq (tree : List NginxDirective) :
    nginxEndpoints chars tree = collect chars (visits tree) := by
  rw [nginxEndpoints, walk, visits, collect, visitEndpoints]
  have htree : levelSettings [tree] = settingsOf tree {} := by
    rw [levelSettings, List.flatten_singleton, settingsOf]
  rw [htree]
  cases hst : settingsOf tree {} with
  | error fault => rfl
  | ok st =>
      rw [ok_bind, ok_bind, walkBlocks_eq chars (htree.trans hst)]
      change _ = (do
        let more ← collect chars (blockVisits [tree] "main".toList tree)
        return [] ++ more)
      cases collect chars (blockVisits [tree] "main".toList tree) <;> rfl

end Visits

/-! ## A visit -/

theorem levelCommands_append (first second : List NginxDirective) :
    levelCommands (first ++ second) = levelCommands first ++ levelCommands second := by
  rw [levelCommands, List.filter_append, List.map_append]
  rfl

theorem levelCommands_flatten (levels : Levels) :
    levelCommands levels.flatten = allCommands levels := by
  induction levels with
  | nil => rfl
  | cons stmts rest ih =>
      rw [List.flatten_cons, levelCommands_append, ih]
      rfl

/-- The commands of the levels, in a map if they are complete. -/
def levelConf (levels : Levels) : ConfCommands :=
  if ∀ args ∈ allCommands levels, 2 ≤ args.length then
    .commands ((allCommands levels).foldl addCommand .empty) else .short

/-- The settings of the levels, where they can be read. -/
def effectiveSettings (levels : Levels) : NginxSettings :=
  { plainSettings levels.flatten {} with confCommand := levelConf levels }

theorem effectiveSettings_ssl (levels : Levels) :
    (effectiveSettings levels).ssl = innermost "ssl".toList levels := by
  change (lastArgs "ssl".toList levels.flatten).or none = _
  rw [Option.or_none, lastArgs_flatten]

theorem effectiveSettings_protocols (levels : Levels) :
    (effectiveSettings levels).protocols = nginxProtocols levels := by
  change (lastArgs "ssl_protocols".toList levels.flatten).or none = _
  rw [Option.or_none, lastArgs_flatten, nginxProtocols]

/-- What the settings of the levels are, and when there are any. -/
theorem levelSettings_ok {levels : Levels} {st : NginxSettings} :
    levelSettings levels = .ok st ↔ Orderly levels ∧ st = effectiveSettings levels := by
  rw [levelSettings, foldlM_applyDirective, levelCommands_flatten]
  constructor
  · intro hst
    cases hadd : (allCommands levels).foldlM ConfCommands.add (.commands .empty) with
    | error fault =>
        rw [hadd] at hst
        cases hst
    | ok last =>
        rw [hadd] at hst
        obtain ⟨horderly, rfl⟩ := foldlM_add_commands.mp hadd
        exact ⟨horderly, (Except.ok.inj hst).symm⟩
  · rintro ⟨horderly, rfl⟩
    rw [foldlM_add_commands.mpr ⟨horderly, rfl⟩]
    rfl

/-- The group list that `parse_nginx` reports, as it is written. -/
def reportedValue (levels : Levels) : Option Chars :=
  ((lastValue "curves".toList (allCommands levels)).or
    (lastValue "groups".toList (allCommands levels))).or (nginxCurve levels)

section VisitEndpoints

variable {chars : CharData} {file : String} {line : ℕ} {body : List NginxDirective}
  {st : NginxSettings} {ctx : Chars}

theorem serverEndpoint_short
    (hports : body.filterMap (tlsPort chars (legacyOn st.ssl) ctx) ≠ [])
    (hshort : st.confCommand = .short) :
    serverEndpoint chars file line body st ctx = .error .attributeError := by
  rw [serverEndpoint, if_neg hports, hshort]

theorem serverEndpoint_commands {map : Dict Chars Chars}
    (hports : body.filterMap (tlsPort chars (legacyOn st.ssl) ctx) ≠ [])
    (hcommands : st.confCommand = .commands map) :
    ∃ endpoint, serverEndpoint chars file line body st ctx = .ok [endpoint] ∧
      endpoint.groups = splitGroups (groupsValue st map).1 ∧
      endpoint.protocols = st.protocols := by
  rw [serverEndpoint, if_neg hports, hcommands]
  exact ⟨_, rfl, makeEndpoint_groups rfl, rfl⟩

/-- `groupsValue` on the settings of the levels. -/
theorem groupsValue_eq (levels : Levels) :
    (groupsValue (effectiveSettings levels) ((allCommands levels).foldl addCommand .empty)).1 =
      reportedValue levels := by
  have hget : ∀ key, ((allCommands levels).foldl addCommand .empty).get? key =
      lastValue key (allCommands levels) := by
    intro key
    rw [get?_foldl_addCommand]
    exact Option.or_none
  have hcurve : (lastArgs "ssl_ecdh_curve".toList levels.flatten).or none =
      innermost "ssl_ecdh_curve".toList levels := by
    rw [Option.or_none, lastArgs_flatten]
  rw [groupsValue, hget, hget, reportedValue, nginxCurve, ← hcurve]
  cases lastValue "curves".toList (allCommands levels) with
  | some value => rfl
  | none =>
      cases lastValue "groups".toList (allCommands levels) with
      | some value => rfl
      | none => rfl

/-- The groups and the protocols that are reported of a visit. -/
def reported (chars : CharData) (visit : Visit) :
    List (Option (List Chars) × Option (List Chars)) :=
  if visit.ports chars = [] then []
  else [(splitGroups (reportedValue visit.levels), nginxProtocols visit.levels)]

/-- A visit of which the settings can be read. -/
def Readable (chars : CharData) (visit : Visit) : Prop :=
  Orderly visit.levels ∧ (visit.ports chars ≠ [] → Complete visit.levels)

/-- **What a visit yields, where it does not raise.** -/
theorem visitEndpoints_ok {visit : Visit} (hreadable : Readable chars visit) :
    ∃ endpoints, visitEndpoints chars visit = .ok endpoints ∧
      endpoints.map (fun endpoint => (endpoint.groups, endpoint.protocols)) =
        reported chars visit := by
  obtain ⟨levels, body, server⟩ := visit
  obtain ⟨horderly, hcomplete⟩ := hreadable
  rw [visitEndpoints, levelSettings_ok.mpr ⟨horderly, rfl⟩, ok_bind]
  cases server with
  | none => exact ⟨[], rfl, rfl⟩
  | some server =>
      by_cases hports : Visit.ports chars ⟨levels, body, some server⟩ = []
      · rw [reported, if_pos hports]
        rw [Visit.ports, ← effectiveSettings_ssl] at hports
        exact ⟨[], if_pos hports, rfl⟩
      · rw [reported, if_neg hports, ← groupsValue_eq, ← effectiveSettings_protocols]
        have hconf : (effectiveSettings levels).confCommand =
            .commands ((allCommands levels).foldl addCommand .empty) := if_pos (hcomplete hports)
        rw [Visit.ports, ← effectiveSettings_ssl] at hports
        obtain ⟨endpoint, hendpoint, hgroups, hsame⟩ := serverEndpoint_commands hports hconf
        exact ⟨[endpoint], hendpoint, by rw [List.map_singleton, hgroups, hsame]⟩

theorem readable_of_visitEndpoints {visit : Visit} {endpoints : List Endpoint}
    (hok : visitEndpoints chars visit = .ok endpoints) : Readable chars visit := by
  obtain ⟨levels, body, server⟩ := visit
  obtain ⟨st, hst, hserver⟩ := except_bind_ok.mp hok
  obtain ⟨horderly, rfl⟩ := levelSettings_ok.mp hst
  refine ⟨horderly, fun hports => ?_⟩
  cases server with
  | none => exact absurd rfl hports
  | some server =>
      by_contra hcomplete
      have hshort : (effectiveSettings levels).confCommand = .short := if_neg hcomplete
      rw [Visit.ports, ← effectiveSettings_ssl] at hports
      cases (serverEndpoint_short hports hshort).symm.trans hserver

/-- The visits one behind the other. -/
theorem collect_ok {list : List Visit} (hreadable : ∀ visit ∈ list, Readable chars visit) :
    ∃ endpoints, collect chars list = .ok endpoints ∧
      endpoints.map (fun endpoint => (endpoint.groups, endpoint.protocols)) =
        list.flatMap (reported chars) := by
  induction list with
  | nil => exact ⟨[], rfl, rfl⟩
  | cons visit rest ih =>
      rw [List.forall_mem_cons] at hreadable
      obtain ⟨first, hfirst, hreported⟩ := visitEndpoints_ok hreadable.1
      obtain ⟨more, hmore, hrest⟩ := ih hreadable.2
      refine ⟨first ++ more, ?_, ?_⟩
      · rw [collect, hfirst, ok_bind, hmore]
        rfl
      · rw [List.map_append, hreported, hrest, List.flatMap_cons]

theorem readable_of_collect {list : List Visit} {endpoints : List Endpoint}
    (hok : collect chars list = .ok endpoints) : ∀ visit ∈ list, Readable chars visit := by
  induction list generalizing endpoints with
  | nil => exact nofun
  | cons visit rest ih =>
      obtain ⟨first, hfirst, hrest⟩ := except_bind_ok.mp hok
      obtain ⟨more, hmore, _⟩ := except_bind_ok.mp hrest
      exact List.forall_mem_cons.mpr ⟨readable_of_visitEndpoints hfirst, ih hmore⟩

end VisitEndpoints

/-! ## Which list is reported -/

theorem lastValue_append (key : Chars) (first second : List (List Chars)) :
    lastValue key (first ++ second) = (lastValue key second).or (lastValue key first) := by
  rw [lastValue, List.reverse_append, List.findSome?_append]
  rfl

/-- The commands that nginx applies are the last ones. -/
theorem exists_append_nginxCommands (levels : Levels) :
    ∃ outer, allCommands levels = outer ++ nginxCommands levels := by
  induction levels using List.reverseRecOn with
  | nil => exact ⟨[], rfl⟩
  | append_singleton levels stmts ih =>
      have hall : allCommands (levels ++ [stmts]) = allCommands levels ++ levelCommands stmts := by
        rw [allCommands, List.flatMap_append, List.flatMap_singleton]
        rfl
      rw [hall, nginxCommands, List.reverse_append, List.reverse_singleton,
        List.singleton_append, List.find?_cons]
      by_cases hcommands : levelCommands stmts = []
      · obtain ⟨outer, houter⟩ := ih
        refine ⟨outer, ?_⟩
        rw [hcommands, List.append_nil, houter]
        rfl
      · rw [decide_eq_true hcommands]
        exact ⟨allCommands levels, rfl⟩

/-- The key of a command that sets groups. -/
def groupKey (curves : Bool) : Chars := if curves then "curves".toList else "groups".toList

theorem valueOf_of_groupCommand {args : List Chars} {curves : Bool} {value : Chars}
    (hcommand : groupCommand args = some (curves, value)) :
    valueOf (groupKey curves) args = some value := by
  match args with
  | [] => cases hcommand
  | [_] => cases hcommand
  | key :: written :: _ =>
      rw [groupCommand] at hcommand
      split at hcommand
      · next hkey =>
          cases hcommand
          exact if_pos hkey
      · split at hcommand
        · next hkey =>
            cases hcommand
            exact if_pos hkey
        · cases hcommand

theorem valueOf_of_no_groupCommand {args : List Chars} (hcommand : groupCommand args = none)
    (curves : Bool) : valueOf (groupKey curves) args = none := by
  match args with
  | [] => rfl
  | [_] => rfl
  | key :: written :: _ =>
      rw [groupCommand] at hcommand
      split at hcommand
      · cases hcommand
      · next hcurves =>
          split at hcommand
          · cases hcommand
          · next hgroups =>
              cases curves with
              | true => exact if_neg hcurves
              | false => exact if_neg hgroups

theorem lastGroupCommand_append (commands : List (List Chars)) (args : List Chars) :
    lastGroupCommand (commands ++ [args]) =
      (groupCommand args).or (lastGroupCommand commands) := by
  rw [lastGroupCommand, List.reverse_append, List.findSome?_append, List.reverse_singleton,
    List.findSome?_singleton]
  rfl

/-- The last command that sets groups is the last one with its key. -/
theorem lastValue_of_lastGroupCommand {commands : List (List Chars)} {curves : Bool}
    {value : Chars} (hlast : lastGroupCommand commands = some (curves, value)) :
    lastValue (groupKey curves) commands = some value := by
  induction commands using List.reverseRecOn with
  | nil => cases hlast
  | append_singleton commands args ih =>
      rw [lastGroupCommand_append] at hlast
      rw [lastValue_append, lastValue, List.reverse_singleton, List.findSome?_singleton]
      cases hcommand : groupCommand args with
      | some found =>
          rw [hcommand] at hlast
          cases hlast
          rw [valueOf_of_groupCommand hcommand]
          rfl
      | none =>
          rw [hcommand] at hlast
          rw [valueOf_of_no_groupCommand hcommand]
          exact ih hlast

/-- **When the groups that are reported are those that nginx uses.** -/
theorem splitGroups_reportedValue (levels : Levels) :
    splitGroups (reportedValue levels) = nginxGroups levels ↔ OwnList levels := by
  obtain ⟨outer, houter⟩ := exists_append_nginxCommands levels
  rw [nginxGroups, nginxValue, reportedValue, OwnList]
  cases hlast : lastGroupCommand (nginxCommands levels) with
  | none =>
      cases hreported : (lastValue "curves".toList (allCommands levels)).or
          (lastValue "groups".toList (allCommands levels)) with
      | none => exact iff_of_true rfl nofun
      | some other =>
          constructor
          · intro hsame found hfound
            cases hfound
            exact hsame
          · intro hsame
            exact hsame other rfl
  | some found =>
      obtain ⟨curves, value⟩ := found
      have hvalue : lastValue (groupKey curves) (allCommands levels) = some value := by
        rw [houter, lastValue_append, lastValue_of_lastGroupCommand hlast]
        rfl
      cases curves with
      | true =>
          rw [show lastValue "curves".toList (allCommands levels) = some value from hvalue]
          exact iff_of_true rfl trivial
      | false =>
          rw [show lastValue "groups".toList (allCommands levels) = some value from hvalue]
          cases lastValue "curves".toList (allCommands levels) with
          | none => exact iff_of_true rfl nofun
          | some other =>
              constructor
              · intro hsame found hfound
                cases hfound
                exact hsame
              · intro hsame
                exact hsame other rfl

/-! ## Every server -/

/-- What nginx uses on each server with TLS. -/
def used (chars : CharData) (visit : Visit) :
    List (Option (List Chars) × Option (List Chars)) :=
  if visit.ports chars = [] then []
  else [(nginxGroups visit.levels, nginxProtocols visit.levels)]

theorem tlsServers_map (chars : CharData) (tree : List NginxDirective) :
    (tlsServers chars tree).map (fun visit =>
      (nginxGroups visit.levels, nginxProtocols visit.levels)) =
        (visits tree).flatMap (used chars) := by
  rw [tlsServers]
  induction visits tree with
  | nil => rfl
  | cons visit rest ih =>
      rw [List.filter_cons, List.flatMap_cons, ← ih, used]
      by_cases hports : visit.ports chars = []
      · rw [if_neg (by rwa [decide_eq_true_eq, not_not]), if_pos hports, List.nil_append]
      · rw [if_pos (decide_eq_true hports), if_neg hports]
        rfl

/-- Equal lists of at most one element each, for all visits. -/
theorem flatMap_reported_eq (chars : CharData) (list : List Visit) :
    list.flatMap (reported chars) = list.flatMap (used chars) ↔
      ∀ visit ∈ list, visit.ports chars ≠ [] → OwnList visit.levels := by
  induction list with
  | nil => exact iff_of_true rfl nofun
  | cons visit rest ih =>
      rw [List.flatMap_cons, List.flatMap_cons, List.forall_mem_cons, ← ih, reported, used]
      by_cases hports : visit.ports chars = []
      · rw [if_pos hports, if_pos hports, List.nil_append, List.nil_append]
        exact (and_iff_right fun hserver => absurd hports hserver).symm
      · rw [if_neg hports, if_neg hports, List.singleton_append, List.singleton_append,
          List.cons.injEq, Prod.mk.injEq, splitGroups_reportedValue]
        exact and_congr_left' ⟨fun hown _ => hown.1, fun hown => ⟨hown hports, rfl⟩⟩

/-- **Every server with TLS is reported with the groups and the protocols that nginx uses for it if
and only if commands with too few arguments come last, those of the servers with TLS have enough,
and what other levels say, or `Curves` before `Groups`, does not count.** -/
theorem inherits_iff (chars : CharData) (tree : List NginxDirective) :
    Inherits chars tree ↔
      (∀ visit ∈ visits tree, Orderly visit.levels) ∧
        ∀ visit ∈ tlsServers chars tree, Complete visit.levels ∧ OwnList visit.levels := by
  have htls : ∀ visit, visit ∈ tlsServers chars tree ↔
      visit ∈ visits tree ∧ visit.ports chars ≠ [] := by
    intro visit
    rw [tlsServers, List.mem_filter, decide_eq_true_eq]
  rw [Inherits, nginxEndpoints_eq, tlsServers_map]
  constructor
  · rintro ⟨endpoints, hok, hsame⟩
    have hreadable := readable_of_collect hok
    obtain ⟨others, hothers, hreported⟩ := collect_ok hreadable
    obtain rfl : endpoints = others := Except.ok.inj (hok.symm.trans hothers)
    have hown := (flatMap_reported_eq chars (visits tree)).mp (hreported.symm.trans hsame)
    refine ⟨fun visit hvisit => (hreadable visit hvisit).1, fun visit hvisit => ?_⟩
    obtain ⟨hmem, hports⟩ := (htls visit).mp hvisit
    exact ⟨(hreadable visit hmem).2 hports, hown visit hmem hports⟩
  · rintro ⟨horderly, hservers⟩
    have hreadable : ∀ visit ∈ visits tree, Readable chars visit := fun visit hvisit =>
      ⟨horderly visit hvisit, fun hports => (hservers visit ((htls visit).mpr ⟨hvisit, hports⟩)).1⟩
    obtain ⟨endpoints, hok, hreported⟩ := collect_ok hreadable
    refine ⟨endpoints, hok, hreported.trans ?_⟩
    exact (flatMap_reported_eq chars (visits tree)).mpr fun visit hvisit hports =>
      (hservers visit ((htls visit).mpr ⟨hvisit, hports⟩)).2

/-- **`parse_nginx` reports what nginx uses if and only if the files load, and that holds of the
tree that their includes make.** -/
theorem parseNginx_inherits (chars : CharData) (frames : ℕ) (host : NginxHost) (main : String) :
    (∃ config tree files, parseNginx chars frames host main = .ok config ∧
      loadNginx host (dirname main) frames nginxMaxIncludeDepth main {} = .ok (tree, files) ∧
        config.endpoints.map (fun endpoint => (endpoint.groups, endpoint.protocols)) =
          (tlsServers chars tree).map fun visit =>
            (nginxGroups visit.levels, nginxProtocols visit.levels)) ↔
      ∃ tree files, loadNginx host (dirname main) frames nginxMaxIncludeDepth main {} =
        .ok (tree, files) ∧ Inherits chars tree := by
  constructor
  · rintro ⟨config, tree, files, hparse, hload, hsame⟩
    rw [parseNginx, hload] at hparse
    change (nginxEndpoints chars tree).bind _ = _ at hparse
    cases hendpoints : nginxEndpoints chars tree with
    | error =>
        rw [hendpoints] at hparse
        cases hparse
    | ok endpoints =>
        rw [hendpoints] at hparse
        obtain rfl := Except.ok.inj hparse
        exact ⟨tree, files, hload, endpoints, hendpoints, hsame⟩
  · rintro ⟨tree, files, hload, endpoints, hendpoints, hsame⟩
    refine ⟨⟨files.files, files.unreadable, endpoints⟩, tree, files, ?_, hload, hsame⟩
    rw [parseNginx, hload]
    change (nginxEndpoints chars tree).bind _ = _
    rw [hendpoints]
    rfl

/-- A server with commands of its own that set no groups. -/
def ownCommandsTree : List NginxDirective :=
  [.block "http".toList [] 1 "nginx.conf"
    [.simple "ssl_conf_command".toList ["Groups".toList, "X25519MLKEM768".toList] 2 "nginx.conf",
     .block "server".toList [] 3 "nginx.conf"
      [.simple "listen".toList ["443".toList, "ssl".toList] 4 "nginx.conf",
       .simple "ssl_conf_command".toList ["Options".toList, "KTLS".toList] 5 "nginx.conf"]]]

/-- The groups of the level outside are reported for it. -/
theorem not_inherits_ownCommands :
    ¬ Inherits ⟨id, fun c => c.isAlphanum || c == '_'⟩ ownCommandsTree := by
  rintro ⟨endpoints, hok, hsame⟩
  have hreported : (nginxEndpoints ⟨id, fun c => c.isAlphanum || c == '_'⟩ ownCommandsTree).map
      (List.map Endpoint.groups) = .ok [some ["X25519MLKEM768".toList]] := by
    decide +kernel
  have hused : (tlsServers ⟨id, fun c => c.isAlphanum || c == '_'⟩ ownCommandsTree).map
      (fun visit => (nginxGroups visit.levels, nginxProtocols visit.levels)) = [(none, none)] := by
    decide +kernel
  have hgroups : endpoints.map Endpoint.groups = [some ["X25519MLKEM768".toList]] := by
    rw [hok] at hreported
    exact Except.ok.inj hreported
  have hnone := congrArg (List.map Prod.fst) (hsame.trans hused)
  rw [List.map_map] at hnone
  cases hgroups.symm.trans hnone

end PqcReadiness.Config.Nginx
