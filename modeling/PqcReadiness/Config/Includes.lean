import PqcReadiness.Config.Openssl
import PqcReadiness.Lib.Lines

/-!
# Included files

An include stands for the lines of what it includes: `parse_openssl_cnf` makes of a file and its
includes what it makes of the one text with all of them in line, and it goes into every included
file, and out of it, with the section that is current there in the one text
(`includes_textual`).  The files of a directory are included in lexical order
(`configEntries_sorted`), and the last setting of a key wins (`value_parseOpensslCnf`).

## Strategy

What stands at a path is a list of parts: lines, and paths to load (`parts`).  `load` goes over the
parts (`load_of_unseen`), so one induction on the levels that are left, and one over the parts,
compares it with the lines that the parts stand for (`load_inlined`).  `Loads` follows a run into
the files that it loads.
-/

namespace PqcReadiness.Config

open PqcReadiness.Lib

/-! ## Parts -/

/-- A line, or a path that is loaded. -/
inductive CnfPart where
  | line (raw : Chars)
  | path (path : String)
  deriving DecidableEq

/-- The part that a line of a file is. -/
def linePart (path : String) (raw : Chars) : CnfPart :=
  match cnfLine raw with
  | .include target => .path (resolveInclude path target)
  | _ => .line raw

/-- What stands at a path. -/
def parts (host : CnfHost) (path : String) : List CnfPart :=
  match host.listDir path with
  | .error _ => []
  | .ok (some entries) => (configEntries path entries).map .path
  | .ok none =>
      match host.read path with
      | .ok (some text) => (splitLinesChars text).map (linePart path)
      | _ => []

/-- The lines of a path, with those of what it includes in their places. -/
def inlined (host : CnfHost) : ℕ → String → List Chars
  | 0, _ => []
  | left + 1, path =>
      (parts host path).flatMap fun
        | .line raw => [raw]
        | .path other => inlined host left other

/-- The paths that are reached from a path. -/
def reached (host : CnfHost) : ℕ → String → List String
  | 0, _ => []
  | left + 1, path =>
      path :: (parts host path).flatMap fun
        | .line _ => []
        | .path other => reached host left other

/-- No path is reached at a greater depth. -/
def Within (host : CnfHost) : ℕ → String → Prop
  | 0, _ => False
  | left + 1, path => ∀ other, CnfPart.path other ∈ parts host path → Within host left other

/-- An include tree: it is not too deep, and no path is reached twice. -/
structure IncludeTree (host : CnfHost) (path : String) : Prop where
  within : Within host (opensslMaxIncludeDepth + 1) path
  once : (reached host (opensslMaxIncludeDepth + 1) path).Nodup

/-- Lines as a text. -/
def asText (lines : List Chars) : Chars := lines.flatMap fun line => line ++ ['\n']

/-- A host on which every path is one and the same text. -/
def oneFile (text : Chars) : CnfHost := ⟨fun _ => .ok none, fun _ => .ok (some text)⟩

/-- The sections of a text without includes, and the section that is current at its end. -/
def textMap (text : Chars) : CnfMap := (load (oneFile text) (opensslMaxIncludeDepth + 1) "" {}).map

/-! ## `load`, part by part -/

section Load

variable {host : CnfHost} {left : ℕ} {path : String} {state : CnfState}

/-- What happens before the parts are read. -/
def opened (host : CnfHost) (path : String) (state : CnfState) : CnfState :=
  let state := { state with seen := state.seen ++ [path] }
  match host.listDir path with
  | .error fault => state.blocked path fault
  | .ok (some _) => state
  | .ok none =>
      match host.read path with
      | .error fault => state.blocked path fault
      | .ok none => state.error path
      | .ok (some _) => { state with files := state.files ++ [path] }

/-- What happens with a part. -/
def loadPart (host : CnfHost) (left : ℕ) (state : CnfState) : CnfPart → CnfState
  | .line raw => { state with map := state.map.read (cnfLine raw) }
  | .path path => load host left path state

theorem load_of_seen (hseen : path ∈ state.seen) : load host left path state = state.error path := by
  cases left with
  | zero => rfl
  | succ left => rw [load, if_pos hseen]

theorem load_of_unseen (hseen : path ∉ state.seen) :
    load host (left + 1) path state =
      (parts host path).foldl (loadPart host left) (opened host path state) := by
  rw [load, if_neg hseen, parts, opened]
  cases hlist : host.listDir path with
  | error fault => rfl
  | ok entries =>
      cases entries with
      | some entries =>
          dsimp only
          rw [List.foldl_map]
          rfl
      | none =>
          dsimp only
          cases hread : host.read path with
          | error fault => rfl
          | ok text =>
              cases text with
              | none => rfl
              | some text =>
                  dsimp only
                  rw [List.foldl_map]
                  refine List.foldl_ext _ _ _ fun state raw _ => ?_
                  rw [linePart]
                  cases hline : cnfLine raw with
                  | «include» target => rfl
                  | skipped => simp only [loadPart, hline]
                  | header name => simp only [loadPart, hline]
                  | setting key value => simp only [loadPart, hline]

theorem opened_map : (opened host path state).map = state.map := by
  unfold opened
  split
  · rfl
  · rfl
  · split <;> rfl

theorem opened_seen : (opened host path state).seen = state.seen ++ [path] := by
  unfold opened
  split
  · rfl
  · rfl
  · split <;> rfl

theorem opened_files :
    (opened host path state).files = state.files ∨
      (opened host path state).files = state.files ++ [path] := by
  unfold opened
  split
  · exact Or.inl rfl
  · exact Or.inl rfl
  · split
    · exact Or.inl rfl
    · exact Or.inl rfl
    · exact Or.inr rfl

end Load

/-- A part that is a line is one line, and no include. -/
theorem isLine_of_part {host : CnfHost} {path : String} {raw : Chars}
    (hpart : CnfPart.line raw ∈ parts host path) :
    IsLine raw ∧ ∀ target, cnfLine raw ≠ .include target := by
  rw [parts] at hpart
  split at hpart
  · cases hpart
  · obtain ⟨_, _, heq⟩ := List.mem_map.mp hpart
    cases heq
  · split at hpart
    · obtain ⟨line, hline, heq⟩ := List.mem_map.mp hpart
      rw [linePart] at heq
      split at heq
      · cases heq
      · next hnot =>
          obtain rfl := CnfPart.line.inj heq
          exact ⟨isLine_of_mem_splitLinesChars line hline, fun target => hnot target⟩
    · cases hpart

/-! ## Files are listed once -/

/-- The files are among the paths that were seen, each once. -/
structure CnfState.Listed (state : CnfState) : Prop where
  nodup : state.files.Nodup
  seen : state.files ⊆ state.seen

theorem listed_opened {host : CnfHost} {path : String} {state : CnfState} (hlisted : state.Listed)
    (hseen : path ∉ state.seen) : (opened host path state).Listed := by
  have hmono : state.files ⊆ (opened host path state).seen := by
    rw [opened_seen]
    exact fun file hfile => List.mem_append_left _ (hlisted.seen hfile)
  rcases @opened_files host path state with hsame | hmore
  · exact ⟨hsame ▸ hlisted.nodup, hsame ▸ hmono⟩
  · have hfiles : path ∉ state.files := fun hfile => hseen (hlisted.seen hfile)
    constructor
    · rw [hmore]
      exact hlisted.nodup.append (List.nodup_singleton path)
        (List.disjoint_singleton.mpr hfiles)
    · rw [hmore]
      intro file hfile
      rcases List.mem_append.mp hfile with hfile | hfile
      · exact hmono hfile
      · rw [opened_seen]
        exact List.mem_append_right _ hfile

/-- What every step keeps, `load` keeps. -/
theorem load_keeps {host : CnfHost} {Inv : CnfState → Prop}
    (hopened : ∀ path state, path ∉ state.seen → Inv state → Inv (opened host path state))
    (hline : ∀ raw state, IsLine raw → Inv state →
      Inv { state with map := state.map.read (cnfLine raw) })
    (herror : ∀ path state, Inv state → Inv (state.error path)) (left : ℕ) (path : String)
    {state : CnfState} (hstate : Inv state) : Inv (load host left path state) := by
  induction left generalizing path state with
  | zero => exact herror path state hstate
  | succ left ih =>
      by_cases hseen : path ∈ state.seen
      · rw [load_of_seen hseen]
        exact herror path state hstate
      · have hparts : ∀ part ∈ parts host path, ∀ state, Inv state →
            Inv (loadPart host left state part) := by
          intro part hpart state hstate
          cases part with
          | line raw => exact hline raw state (isLine_of_part hpart).1 hstate
          | path other => exact ih other hstate
        rw [load_of_unseen hseen]
        exact List.foldlRecOn (parts host path) _ (hopened path state hseen hstate)
          fun state hstate part hpart => hparts part hpart state hstate

theorem listed_load (host : CnfHost) (left : ℕ) (path : String) {state : CnfState}
    (hlisted : state.Listed) : (load host left path state).Listed :=
  load_keeps (fun _ _ hseen hlisted => listed_opened hlisted hseen)
    (fun _ _ _ hlisted => ⟨hlisted.nodup, hlisted.seen⟩)
    (fun _ _ hlisted => ⟨hlisted.nodup, hlisted.seen⟩) left path hlisted

/-! ## Included lines -/

/-- One more line. -/
def readRaw (map : CnfMap) (raw : Chars) : CnfMap := map.read (cnfLine raw)

section Inlined

variable {host : CnfHost} {left : ℕ} {path : String} {state : CnfState}

/-- The lines that a part stands for. -/
def partLines (host : CnfHost) (left : ℕ) : CnfPart → List Chars
  | .line raw => [raw]
  | .path other => inlined host left other

/-- The paths that are reached from a part. -/
def partReached (host : CnfHost) (left : ℕ) : CnfPart → List String
  | .line _ => []
  | .path other => reached host left other

theorem inlined_succ : inlined host (left + 1) path =
    (parts host path).flatMap (partLines host left) := by
  rw [inlined]
  refine List.flatMap_congr fun part _ => ?_
  cases part <;> rfl

theorem reached_succ : reached host (left + 1) path =
    path :: (parts host path).flatMap (partReached host left) := by
  rw [reached]
  refine congrArg (path :: ·) (List.flatMap_congr fun part _ => ?_)
  cases part <;> rfl

/-- `load` reads the lines that the path stands for. -/
def LoadsLines (host : CnfHost) (left : ℕ) : Prop :=
  ∀ {path : String} {state : CnfState}, Within host left path → (reached host left path).Nodup →
    (∀ other ∈ reached host left path, other ∉ state.seen) →
    (load host left path state).map = (inlined host left path).foldl readRaw state.map ∧
      (load host left path state).seen = state.seen ++ reached host left path

/-- The parts are read one behind the other. -/
theorem foldl_loadPart (hload : LoadsLines host left) (list : List CnfPart) (state : CnfState)
    (hwithin : ∀ other, CnfPart.path other ∈ list → Within host left other)
    (honce : (list.flatMap (partReached host left)).Nodup)
    (hnew : ∀ other ∈ list.flatMap (partReached host left), other ∉ state.seen) :
    (list.foldl (loadPart host left) state).map =
        (list.flatMap (partLines host left)).foldl readRaw state.map ∧
      (list.foldl (loadPart host left) state).seen =
        state.seen ++ list.flatMap (partReached host left) := by
  induction list generalizing state with
  | nil => exact ⟨rfl, (List.append_nil _).symm⟩
  | cons part rest ih =>
      rw [List.flatMap_cons] at honce hnew
      have hpart : (loadPart host left state part).map =
            (partLines host left part).foldl readRaw state.map ∧
          (loadPart host left state part).seen = state.seen ++ partReached host left part := by
        cases part with
        | line raw => exact ⟨rfl, (List.append_nil _).symm⟩
        | path other =>
            exact hload (hwithin other List.mem_cons_self) (List.nodup_append'.mp honce).1
              fun x hx => hnew x (List.mem_append_left _ hx)
      have hrest := ih (loadPart host left state part)
        (fun other hother => hwithin other (List.mem_cons_of_mem part hother))
        (List.nodup_append'.mp honce).2.1 (by
          intro other hother
          rw [hpart.2, List.mem_append, not_or]
          refine ⟨hnew other (List.mem_append_right _ hother), fun hfirst => ?_⟩
          exact (List.nodup_append'.mp honce).2.2 hfirst hother)
      rw [List.foldl_cons, hrest.1, hrest.2, hpart.1, hpart.2, List.flatMap_cons, List.flatMap_cons,
        List.foldl_append, List.append_assoc]
      exact ⟨rfl, rfl⟩

/-- **A path is loaded as the lines that it stands for.** -/
theorem load_inlined (host : CnfHost) (left : ℕ) : LoadsLines host left := by
  induction left with
  | zero => exact fun hwithin => hwithin.elim
  | succ left ih =>
      intro path state hwithin honce hnew
      rw [reached_succ] at honce hnew
      obtain ⟨hpath, honce⟩ := List.nodup_cons.mp honce
      obtain ⟨hunseen, hnew⟩ := List.forall_mem_cons.mp hnew
      have hparts := foldl_loadPart ih (parts host path) (opened host path state) hwithin honce (by
        intro other hother
        rw [opened_seen, List.mem_append, List.mem_singleton, not_or]
        refine ⟨hnew other hother, ?_⟩
        rintro rfl
        exact hpath hother)
      rw [opened_map, opened_seen, List.append_assoc] at hparts
      rw [load_of_unseen hunseen, inlined_succ, reached_succ]
      exact hparts

end Inlined

/-! ## The one text -/

theorem inlined_line (host : CnfHost) (left : ℕ) (path : String) :
    ∀ raw ∈ inlined host left path, IsLine raw ∧ ∀ target, cnfLine raw ≠ .include target := by
  induction left generalizing path with
  | zero => nofun
  | succ left ih =>
      intro raw hraw
      rw [inlined_succ] at hraw
      obtain ⟨part, hpart, hraw⟩ := List.mem_flatMap.mp hraw
      cases part with
      | path other => exact ih other raw hraw
      | line other =>
          obtain rfl := List.mem_singleton.mp hraw
          exact isLine_of_part hpart

/-- A text without includes is read line by line. -/
theorem load_asText {lines : List Chars} (left : ℕ) (path : String)
    (hlines : ∀ raw ∈ lines, IsLine raw ∧ ∀ target, cnfLine raw ≠ .include target) :
    (load (oneFile (asText lines)) (left + 1) path {}).map = lines.foldl readRaw {} := by
  have hunseen : path ∉ ({} : CnfState).seen := List.not_mem_nil
  have hsplit : splitLinesChars (asText lines) = lines :=
    splitLinesChars_flatMap .lf fun raw hraw => (hlines raw hraw).1
  have hparts : parts (oneFile (asText lines)) path = lines.map .line := by
    show (splitLinesChars (asText lines)).map (linePart path) = _
    rw [hsplit]
    refine List.map_congr_left fun raw hraw => ?_
    rw [linePart]
    split
    · next target htarget => exact absurd htarget ((hlines raw hraw).2 target)
    · rfl
  rw [load_of_unseen hunseen, hparts, List.foldl_map]
  have hfold : ∀ state : CnfState,
      (lines.foldl (fun state raw => loadPart (oneFile (asText lines)) left state (.line raw))
        state).map = lines.foldl readRaw state.map := by
    generalize hleft : oneFile (asText lines) = single
    clear hparts hsplit hleft hlines
    induction lines with
    | nil => exact fun _ => rfl
    | cons raw rest ih => exact fun state => ih (loadPart single left state (.line raw))
  rw [hfold, opened_map]

/-! ## Order -/

/-- The files of a directory are included in lexical order. -/
theorem configEntries_sorted (path : String) (entries : List String) :
    (configEntries path entries).Pairwise (· ≤ ·) := by
  have hnames := (pairwise_sortedBy id entries).filter fun name =>
    endsWith ".cnf" name || endsWith ".conf" name
  exact List.pairwise_map.mpr (hnames.imp fun hle => append_le_append hle _)

/-- It does not matter in which order they are listed. -/
theorem configEntries_perm {first second : List String} (hperm : first.Perm second)
    (path : String) : configEntries path first = configEntries path second := by
  rw [configEntries, configEntries, sortedBy_id_eq_of_perm hperm]

/-- The settings among lines, each with the section that is current there. -/
def placedSettings : Chars → List Chars → List (Chars × Chars × Chars)
  | _, [] => []
  | current, raw :: rest =>
      match cnfLine raw with
      | .header name => placedSettings name rest
      | .setting key value => (current, key, value) :: placedSettings current rest
      | .skipped | .include _ => placedSettings current rest

/-- The value that a setting has for a key of a section. -/
def valueFor (name key : Chars) (setting : Chars × Chars × Chars) : Option Chars :=
  if setting.1 = name ∧ setting.2.1 = key then some setting.2.2 else none

/-- The value of a key in a section. -/
def CnfMap.value (map : CnfMap) (name key : Chars) : Option Chars :=
  (map.sections.get? name).bind fun section' => section'.get? key

section Value

variable {name key : Chars}

theorem value_header (map : CnfMap) (other : Chars) :
    (map.read (.header other)).value name key = map.value name key := by
  rw [CnfMap.read, CnfMap.value, CnfMap.value]
  dsimp only
  rw [Dict.get?_update]
  split
  · next hsame =>
      subst hsame
      cases map.sections.get? name <;> rfl
  · rfl

theorem value_setting (map : CnfMap) (other value : Chars) :
    (map.read (.setting other value)).value name key =
      (valueFor name key (map.current, other, value)).or (map.value name key) := by
  rw [CnfMap.read, CnfMap.value, CnfMap.value, valueFor]
  dsimp only
  rw [Dict.get?_update]
  -- Only the current section changes, and in it only the one key.
  by_cases hname : name = map.current
  · subst hname
    rw [if_pos rfl, Option.bind_some, Dict.get?_update]
    by_cases hkey : key = other
    · subst hkey
      rw [if_pos rfl, if_pos ⟨rfl, rfl⟩]
      rfl
    · rw [if_neg hkey, if_neg fun hboth => hkey hboth.2.symm, Option.none_or]
      cases map.sections.get? map.current <;> rfl
  · rw [if_neg hname, if_neg fun hboth => hname hboth.1.symm, Option.none_or]

/-- The last setting of a key in a section wins. -/
theorem value_foldl_readRaw (lines : List Chars) (map : CnfMap) :
    (lines.foldl readRaw map).value name key =
      ((placedSettings map.current lines).filterMap (valueFor name key)).getLast?.or
        (map.value name key) := by
  induction lines generalizing map with
  | nil => rfl
  | cons raw rest ih =>
      rw [List.foldl_cons, ih, readRaw, placedSettings]
      cases hline : cnfLine raw with
      | skipped => rfl
      | «include» target => rfl
      | header other =>
          rw [value_header]
          rfl
      | setting other value =>
          rw [value_setting, ← Option.or_assoc, List.filterMap_cons]
          show (((placedSettings map.current rest).filterMap (valueFor name key)).getLast?.or
            (valueFor name key (map.current, other, value))).or _ = _
          cases valueFor name key (map.current, other, value) with
          | none => rw [Option.or_none]
          | some last =>
              rw [List.getLast?_cons]
              cases ((placedSettings map.current rest).filterMap (valueFor name key)).getLast? <;>
                rfl

/-- **In an include tree the last setting wins**, whichever files the settings stand in. -/
theorem value_parseOpensslCnf {host : CnfHost} {path : String} (tree : IncludeTree host path) :
    ((parseOpensslCnf host path).sections.get? name).bind (fun section' => section'.get? key) =
      ((placedSettings "default".toList (inlined host (opensslMaxIncludeDepth + 1) path)).filterMap
        (valueFor name key)).getLast? := by
  have hnew : ∀ other ∈ reached host (opensslMaxIncludeDepth + 1) path,
      other ∉ ({} : CnfState).seen := fun _ _ => List.not_mem_nil
  have hvalue := @value_foldl_readRaw name key (inlined host (opensslMaxIncludeDepth + 1) path)
    ({} : CnfState).map
  rw [← (load_inlined host _ tree.within tree.once hnew).1] at hvalue
  exact hvalue.trans Option.or_none

end Value

/-! ## Runs -/

/-- In a run of `load`, some path is loaded in some state. -/
inductive Loads (host : CnfHost) : ℕ → String → CnfState → ℕ → String → CnfState → Prop
  | here {left : ℕ} {path : String} {state : CnfState} : Loads host left path state left path state
  | part {left inner : ℕ} {path other last : String} {state final : CnfState}
      {before after : List CnfPart} (hunseen : path ∉ state.seen)
      (hparts : parts host path = before ++ .path other :: after)
      (hrest : Loads host left other (before.foldl (loadPart host left) (opened host path state))
        inner last final) : Loads host (left + 1) path state inner last final

/-- What is read before a path that a run loads stands before its lines. -/
theorem loads_inlined {host : CnfHost} {left inner : ℕ} {path last : String}
    {state final : CnfState} (hloads : Loads host left path state inner last final)
    (hwithin : Within host left path) (honce : (reached host left path).Nodup)
    (hnew : ∀ other ∈ reached host left path, other ∉ state.seen) :
    ∃ before after, inlined host left path = before ++ inlined host inner last ++ after ∧
      final.map = before.foldl readRaw state.map ∧
      (load host inner last final).map =
        (before ++ inlined host inner last).foldl readRaw state.map := by
  induction hloads with
  | here =>
      refine ⟨[], [], ?_, rfl, ?_⟩
      · rw [List.append_nil, List.nil_append]
      · exact (load_inlined _ _ hwithin honce hnew).1
  | @part left inner path other last state final before after hunseen hparts hrest ih =>
      rw [reached_succ, hparts, List.flatMap_append, List.flatMap_cons] at honce hnew
      obtain ⟨hpath, honce⟩ := List.nodup_cons.mp honce
      obtain ⟨_, hnew⟩ := List.forall_mem_cons.mp hnew
      obtain ⟨hbeforeOnce, hafterOnce, hdisjoint⟩ := List.nodup_append'.mp honce
      have hopened : ∀ x ∈ before.flatMap (partReached host left) ++
          (reached host left other ++ after.flatMap (partReached host left)),
          x ∉ (opened host path state).seen := by
        intro x hx
        rw [opened_seen, List.mem_append, List.mem_singleton, not_or]
        refine ⟨hnew x hx, ?_⟩
        rintro rfl
        exact hpath hx
      have hinside : ∀ x, CnfPart.path x ∈ before ++ .path other :: after → Within host left x := by
        rw [← hparts]
        exact hwithin
      obtain ⟨hmap, hseen⟩ := foldl_loadPart (load_inlined host left) before
        (opened host path state) (fun x hx => hinside x (List.mem_append_left _ hx)) hbeforeOnce
        fun x hx => hopened x (List.mem_append_left _ hx)
      have hother : Within host left other :=
        hinside other (List.mem_append_right _ List.mem_cons_self)
      obtain ⟨first, last', hlines, hfinal, hload⟩ := ih hother (List.nodup_append'.mp hafterOnce).1
        (by
          intro x hx
          rw [hseen, List.mem_append, not_or]
          refine ⟨hopened x (List.mem_append_right _ (List.mem_append_left _ hx)), fun hfirst => ?_⟩
          exact hdisjoint hfirst (List.mem_append_left _ hx))
      rw [hmap, opened_map, ← List.foldl_append] at hfinal hload
      refine ⟨before.flatMap (partLines host left) ++ first,
        last' ++ after.flatMap (partLines host left), ?_, hfinal, ?_⟩
      · rw [inlined_succ, hparts, List.flatMap_append, List.flatMap_cons, partLines, hlines]
        simp only [List.append_assoc]
      · rw [List.append_assoc]
        exact hload

/-- **Includes are textual, and every file is listed once.** -/
theorem includes_textual (host : CnfHost) (path : String) :
    (IncludeTree host path →
      (parseOpensslCnf host path).sections =
          (parseOpensslCnf (oneFile (asText (inlined host (opensslMaxIncludeDepth + 1) path)))
            path).sections ∧
        ∀ (left : ℕ) (file : String) (state : CnfState),
          Loads host (opensslMaxIncludeDepth + 1) path {} left file state →
          ∃ before after, inlined host (opensslMaxIncludeDepth + 1) path =
              before ++ inlined host left file ++ after ∧
            state.map = textMap (asText before) ∧
            (load host left file state).map = textMap (asText (before ++ inlined host left file))) ∧
      (parseOpensslCnf host path).files.Nodup := by
  have hlines := inlined_line host (opensslMaxIncludeDepth + 1) path
  have hnew : ∀ other ∈ reached host (opensslMaxIncludeDepth + 1) path,
      other ∉ ({} : CnfState).seen := fun _ _ => List.not_mem_nil
  refine ⟨fun tree => ⟨?_, ?_⟩, (listed_load host _ path ⟨List.nodup_nil, List.nil_subset _⟩).nodup⟩
  · have hload := (load_inlined host _ tree.within tree.once hnew).1
    exact congrArg CnfMap.sections (hload.trans (load_asText _ path hlines).symm)
  · intro left file state hloads
    obtain ⟨before, after, hinlined, hstate, hload⟩ :=
      loads_inlined hloads tree.within tree.once hnew
    rw [hinlined] at hlines
    have hboth := fun raw hraw => hlines raw (List.mem_append_left after hraw)
    refine ⟨before, after, hinlined, hstate.trans ?_, hload.trans ?_⟩
    · exact (load_asText _ "" fun raw hraw => hboth raw (List.mem_append_left _ hraw)).symm
    · exact (load_asText _ "" hboth).symm

/-! A file that includes a directory with two files in it, which are listed out of order; the first
opens another section. -/

/-- The host of the example. -/
def directoryHost : CnfHost where
  listDir path := .ok (if path = "/d" then some ["b.conf", "README", "a.cnf"] else none)
  read path := .ok
    (if path = "/m" then some "[s]\nk = u\n.include = d\nk = x".toList
    else if path = "/d/a.cnf" then some "k = v\n[t]".toList
    else if path = "/d/b.conf" then some "k = w\n[s]".toList
    else none)

theorem includes_textual_directory :
    (parseOpensslCnf directoryHost "/m").sections =
      (parseOpensslCnf (oneFile "[s]\nk = u\nk = v\n[t]\nk = w\n[s]\nk = x\n".toList)
        "/m").sections := by
  have hmain : parts directoryHost "/m" =
      [.line "[s]".toList, .line "k = u".toList, .path "/d", .line "k = x".toList] := by
    decide +kernel
  have hdir : parts directoryHost "/d" = [.path "/d/a.cnf", .path "/d/b.conf"] := by
    decide +kernel
  have hfirst : parts directoryHost "/d/a.cnf" = [.line "k = v".toList, .line "[t]".toList] := by
    decide +kernel
  have hsecond : parts directoryHost "/d/b.conf" = [.line "k = w".toList, .line "[s]".toList] := by
    decide +kernel
  have htree : IncludeTree directoryHost "/m" := by
    constructor
    · intro dir hdirectory
      obtain rfl : dir = "/d" := by simpa [hmain] using hdirectory
      intro file hfiles
      rw [hdir] at hfiles
      have hnone : ∀ other, CnfPart.path other ∉ parts directoryHost file := by
        intro other
        have hfile : file = "/d/a.cnf" ∨ file = "/d/b.conf" := by simpa using hfiles
        rcases hfile with rfl | rfl
        · simp [hfirst]
        · simp [hsecond]
      exact fun other hother => absurd hother (hnone other)
    · simp [opensslMaxIncludeDepth, reached_succ, partReached, hmain, hdir, hfirst, hsecond]
  have hlines : inlined directoryHost (opensslMaxIncludeDepth + 1) "/m" =
      ["[s]".toList, "k = u".toList, "k = v".toList, "[t]".toList, "k = w".toList, "[s]".toList,
        "k = x".toList] := by
    simp [opensslMaxIncludeDepth, inlined_succ, partLines, hmain, hdir, hfirst, hsecond]
  have hsame := ((includes_textual directoryHost "/m").1 htree).1
  rw [hlines] at hsame
  exact hsame

end PqcReadiness.Config
