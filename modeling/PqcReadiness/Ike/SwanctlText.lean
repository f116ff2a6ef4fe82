import PqcReadiness.Ike.Swanctl
import PqcReadiness.Lib.Lines

/-!
# `swanctl.conf` as one file

`SettingsFiles.inlined` is one file that has the text of all others in the place of each `include`.
Parsed on its own it gives the proposals with the names that all sections around them make
(`parseSwanctlConf_inlined`), and the files give the same exactly if every proposal can be parsed
and the sections of its own file alone name the connection and the child of each
(`parseSwanctlConf_inlined_iff`).
-/

namespace PqcReadiness.Ike

open PqcReadiness.Lib

/-! ## One file -/

/-- What an entry says of a proposal, but for the file that it stands in. -/
def ConfiguredProposal.named (entry : ConfiguredProposal) :
    ParsedProposal × Option String × Option String × Kind :=
  (entry.toParsedProposal, entry.connection, entry.child, entry.kind)

@[simp] theorem named_configured (stack : List String) (kind : Kind) (source : String)
    (parsed : ParsedProposal) : (configured stack kind source parsed).named =
      (parsed, connectionOf stack, childOf stack, kind) := rfl

/-- What a run has, but for the files. -/
def SwanctlState.view (state : SwanctlState) :
    List String × List (ParsedProposal × Option String × Option String × Kind) :=
  (state.stack, state.out.map ConfiguredProposal.named)

section OneFile

variable (lower : String → String) (files : SettingsFiles)

/-- The text of a file with that of the files that it includes. -/
def inlinedText (left : ℕ) (path : String) : String :=
  String.ofList ((expandedLines files left path).flatMap fun line => line.2.toList ++ ['\n'])

/-- That text in the place of the file. -/
def SettingsFiles.inlined (left : ℕ) (path : String) : SettingsFiles :=
  { files with readText := fun _ => some (inlinedText files left path) }

variable {lower files}

/-- No line of the whole text includes anything, and each is a line. -/
theorem mem_expandedLines {left : ℕ} {path : String} {line : String × String}
    (hline : line ∈ expandedLines files left path) :
    IsLine line.2.toList ∧ ∀ pattern, readSettingsLine line.2 ≠ .includes pattern := by
  -- A line of a file, or one of what it includes.
  have hexpanded : ∀ {below : String → List (String × String)} {path : String},
      (∀ file, ∀ line ∈ below file,
        IsLine line.2.toList ∧ ∀ pattern, readSettingsLine line.2 ≠ .includes pattern) →
      ∀ line ∈ (files.lines path).flatMap (expandedLine files below path),
        IsLine line.2.toList ∧ ∀ pattern, readSettingsLine line.2 ≠ .includes pattern := by
    intro below path hbelow line hline
    obtain ⟨raw, hraw, hmem⟩ := List.mem_flatMap.mp hline
    have hisLine : IsLine raw.toList := by
      rw [SettingsFiles.lines] at hraw
      cases htext : files.readText path with
      | none =>
          rw [htext] at hraw
          exact absurd hraw List.not_mem_nil
      | some text =>
          rw [htext, Option.map_some, Option.getD_some, splitLines] at hraw
          obtain ⟨chars, hchars, rfl⟩ := List.mem_map.mp hraw
          rw [String.toList_ofList]
          exact isLine_of_mem_splitLinesChars chars hchars
    rw [expandedLine] at hmem
    split at hmem
    · obtain ⟨file, -, hfile⟩ := List.mem_flatMap.mp hmem
      exact hbelow file line hfile
    · next hread =>
        rw [List.mem_singleton.mp hmem]
        exact ⟨hisLine, hread⟩
  induction left generalizing path line with
  | zero =>
      rw [expandedLines] at hline
      exact hexpanded (fun _ _ hmem => absurd hmem List.not_mem_nil) line hline
  | succ left ih =>
      rw [expandedLines] at hline
      exact hexpanded (fun _ _ hmem => ih hmem) line hline

/-- The lines of the one file are those of the whole text. -/
theorem lines_inlined (left : ℕ) (path other : String) :
    (files.inlined left path).lines other = (expandedLines files left path).map Prod.snd := by
  have hlines : ∀ chars ∈ (expandedLines files left path).map fun line => line.2.toList,
      IsLine chars := by
    intro chars hchars
    obtain ⟨line, hline, rfl⟩ := List.mem_map.mp hchars
    exact (mem_expandedLines hline).1
  have hsplit := splitLinesChars_flatMap .lf hlines
  rw [List.flatMap_map] at hsplit
  show ((some (inlinedText files left path)).map splitLines).getD [] = _
  rw [Option.map_some, Option.getD_some, splitLines, inlinedText, String.toList_ofList]
  rw [show (expandedLines files left path).flatMap (fun line => line.2.toList ++ ['\n']) =
    (expandedLines files left path).flatMap fun line => line.2.toList ++ LineEnd.lf.chars from rfl,
    hsplit, List.map_map]
  exact List.map_congr_left fun line _ => String.ofList_toList

/-- A line that includes nothing does the same in every file. -/
theorem view_swanctlTurn {below other : String → Option (List ConfiguredProposal)}
    {files' : SettingsFiles} {path path' raw : String} {state state' : SwanctlState}
    (hread : ∀ pattern, readSettingsLine raw ≠ .includes pattern)
    (hview : state.view = state'.view) :
    (swanctlTurn lower files below path state raw).map SwanctlState.view =
      (swanctlTurn lower files' other path' state' raw).map SwanctlState.view := by
  obtain ⟨hstack, hout⟩ := Prod.mk.inj hview
  rw [swanctlTurn, swanctlTurn]
  cases hline : readSettingsLine raw with
  | includes pattern => exact absurd hline (hread pattern)
  | nothing closes =>
      dsimp only
      rw [Option.map_some, Option.map_some, SwanctlState.view, SwanctlState.view, hstack, hout]
  | opens closes name =>
      dsimp only
      rw [Option.map_some, Option.map_some, SwanctlState.view, SwanctlState.view, hstack, hout]
  | setting closes kind value =>
      dsimp only
      rw [Option.map_map, Option.map_map, hstack]
      apply Option.map_congr
      intro found _
      simp only [Function.comp_def, SwanctlState.view, List.map_append, hout, List.map_map,
        named_configured]

/-- The loop over such lines does. -/
theorem view_foldlM {below : String → Option (List ConfiguredProposal)} {files' : SettingsFiles}
    {path : String} {lines : List (String × String)} {state state' : SwanctlState}
    (hread : ∀ line ∈ lines, ∀ pattern, readSettingsLine line.2 ≠ .includes pattern)
    (hview : state.view = state'.view) :
    ((lines.map Prod.snd).foldlM (swanctlTurn lower files' below path) state').map
        SwanctlState.view =
      (lines.foldlM (textualTurn lower files) state).map SwanctlState.view := by
  induction lines generalizing state state' with
  | nil => exact congrArg some hview.symm
  | cons line rest ih =>
      rw [List.forall_mem_cons] at hread
      have hturn := @view_swanctlTurn lower files (fun _ => some []) below files' line.1 path
        line.2 state state' hread.1 hview
      rw [List.map_cons, List.foldlM_cons, List.foldlM_cons, textualTurn]
      cases hone : swanctlTurn lower files (fun _ => some []) line.1 state line.2 with
      | none =>
          rw [hone, Option.map_none] at hturn
          rw [Option.map_eq_none_iff.mp hturn.symm]
          rfl
      | some next =>
          rw [hone, Option.map_some] at hturn
          obtain ⟨next', hnext', hsame⟩ := Option.map_eq_some_iff.mp hturn.symm
          rw [hnext']
          exact ih hread.2 hsame.symm

/-- The one file gives what the text says. -/
theorem parseSwanctlConf_inlined (left rest : ℕ) (path : String) :
    (parseSwanctlConf lower (files.inlined left path) rest path).map
        (List.map ConfiguredProposal.named) =
      (textualProposals lower files left path).map (List.map ConfiguredProposal.named) := by
  have hread : ∀ line ∈ expandedLines files left path, ∀ pattern,
      readSettingsLine line.2 ≠ .includes pattern := fun line hline => (mem_expandedLines hline).2
  have hloop : ∀ below : String → Option (List ConfiguredProposal),
      ((((files.inlined left path).lines path).foldlM
          (swanctlTurn lower (files.inlined left path) below path) {}).map SwanctlState.out).map
            (List.map ConfiguredProposal.named) =
        (textualProposals lower files left path).map (List.map ConfiguredProposal.named) := by
    intro below
    have hview := @view_foldlM lower files below (files.inlined left path) path
      (expandedLines files left path) {} {} hread rfl
    have hsnd := congrArg (Option.map Prod.snd) hview
    rw [Option.map_map, Option.map_map] at hsnd
    rw [lines_inlined, textualProposals, Option.map_map, Option.map_map]
    exact hsnd
  cases rest with
  | zero => exact hloop _
  | succ rest => exact hloop _

/-! ## Names -/

/-- The setting has a proposal. -/
def Placed.Proposes (setting : Placed) : Prop := ∃ prop ∈ split ',' setting.value, strip prop ≠ ""

/-- The sections of its own file name the connection and the child of each proposal as all sections
around it do. -/
def NamesKept (placed : List Placed) : Prop :=
  ∀ setting ∈ placed, setting.Proposes →
    connectionOf setting.own = connectionOf setting.whole ∧
      childOf setting.own = childOf setting.whole

theorem parsedValues_ne_nil_iff {setting : Placed} {parsed : List ParsedProposal}
    (hparsed : parsedValues lower setting.value = some parsed) :
    parsed ≠ [] ↔ setting.Proposes := by
  have hproposes : setting.Proposes ↔
      (split ',' setting.value).filter (fun prop => strip prop ≠ "") ≠ [] := by
    rw [Placed.Proposes, ne_eq, List.filter_eq_nil_iff]
    simp
  rw [hproposes]
  rw [parsedValues] at hparsed
  cases hprops : (split ',' setting.value).filter fun prop => strip prop ≠ "" with
  | nil =>
      rw [hprops, List.mapM_nil] at hparsed
      cases hparsed
      exact iff_of_false (not_not_intro rfl) (not_not_intro rfl)
  | cons prop rest =>
      rw [hprops, List.mapM_cons] at hparsed
      cases hone : parseIkeProposal lower prop with
      | none => rw [hone] at hparsed; cases hparsed
      | some one =>
          cases hmore : rest.mapM (parseIkeProposal lower) with
          | none => rw [hone, hmore] at hparsed; cases hparsed
          | some more =>
              rw [hone, hmore] at hparsed
              cases hparsed
              exact iff_of_true (List.cons_ne_nil _ _) (List.cons_ne_nil _ _)

/-- All proposals can be parsed iff those of each setting can. -/
theorem placedProposals_ne_none_iff (placed : List Placed) :
    placedProposals lower placed ≠ none ↔
      ∀ setting ∈ placed, parsedValues lower setting.value ≠ none := by
  induction placed with
  | nil => exact iff_of_true (Option.some_ne_none _) (List.forall_mem_nil _)
  | cons setting rest ih =>
      rw [List.forall_mem_cons, ← ih, placedProposals]
      cases parsedValues lower setting.value with
      | none => exact iff_of_false (fun hsome => hsome rfl) fun hboth => hboth.1 rfl
      | some parsed =>
          rw [Option.bind_some, ne_eq, Option.map_eq_none_iff]
          exact ⟨fun hrest => ⟨Option.some_ne_none _, hrest⟩, fun hboth => hboth.2⟩

/-- The settings of the proposals are those that have one. -/
theorem mem_placedProposals_iff {placed : List Placed} {found : List (Placed × ParsedProposal)}
    (hfound : placedProposals lower placed = some found) (setting : Placed) :
    setting ∈ found.map Prod.fst ↔ setting ∈ placed ∧ setting.Proposes := by
  induction placed generalizing found with
  | nil =>
      cases hfound
      exact iff_of_false List.not_mem_nil fun hmem => List.not_mem_nil hmem.1
  | cons first rest ih =>
      rw [placedProposals, Option.bind_eq_some_iff] at hfound
      obtain ⟨parsed, hparsed, hfound⟩ := hfound
      obtain ⟨later, hlater, rfl⟩ := Option.map_eq_some_iff.mp hfound
      have hfirst : setting ∈ (parsed.map (Prod.mk first)).map Prod.fst ↔
          setting = first ∧ first.Proposes := by
        rw [← parsedValues_ne_nil_iff hparsed, List.map_map]
        cases parsed with
        | nil => simp
        | cons one more => simp [Function.comp_def]
      rw [List.map_append, List.mem_append, ih hlater, hfirst, List.mem_cons, or_and_right]
      refine or_congr_left ?_
      exact and_congr_right fun hsame => by rw [hsame]

/-- **The files give the proposals of the one file, with the connections and the children there,
exactly if each proposal can be parsed and the sections of its own file name it as all sections
around it do.** -/
theorem parseSwanctlConf_inlined_iff {left : ℕ} {path : String}
    (hbalanced : IncludesBalanced files left path) :
    (∃ found, (parseSwanctlConf lower files left path).map (List.map ConfiguredProposal.named) =
        some found ∧
      (parseSwanctlConf lower (files.inlined left path) left path).map
        (List.map ConfiguredProposal.named) = some found) ↔
      (∀ setting ∈ placedSettings files left [] path, parsedValues lower setting.value ≠ none) ∧
        NamesKept (placedSettings files left [] path) := by
  rw [parseSwanctlConf_inlined, parseSwanctlConf_eq left [] path, textualProposals_eq hbalanced,
    ← placedProposals_ne_none_iff, entries, entries, Option.map_map, Option.map_map]
  cases hplaced : placedProposals lower (placedSettings files left [] path) with
  | none =>
      refine iff_of_false ?_ fun hboth => hboth.1 rfl
      rintro ⟨found, hfound, -⟩
      cases hfound
  | some pieces =>
      -- A proposal keeps its names exactly if its place does.
      have hpiece : ∀ piece : Placed × ParsedProposal,
          (Placed.entry Placed.own piece).named = (Placed.entry Placed.whole piece).named ↔
            connectionOf piece.1.own = connectionOf piece.1.whole ∧
              childOf piece.1.own = childOf piece.1.whole := by
        intro piece
        rw [Placed.entry, Placed.entry, named_configured, named_configured]
        simp
      have hnames : NamesKept (placedSettings files left [] path) ↔
          ∀ piece ∈ pieces, connectionOf piece.1.own = connectionOf piece.1.whole ∧
            childOf piece.1.own = childOf piece.1.whole := by
        rw [NamesKept]
        constructor
        · intro hkept piece hmem
          obtain ⟨hsetting, hproposes⟩ :=
            (mem_placedProposals_iff hplaced piece.1).mp (List.mem_map_of_mem hmem)
          exact hkept piece.1 hsetting hproposes
        · intro hpieces setting hsetting hproposes
          obtain ⟨piece, hmem, rfl⟩ :=
            List.mem_map.mp ((mem_placedProposals_iff hplaced setting).mpr ⟨hsetting, hproposes⟩)
          exact hpieces piece hmem
      rw [hnames, and_iff_right (Option.some_ne_none _)]
      simp only [Option.map_some, Function.comp_apply, List.map_map]
      constructor
      · rintro ⟨found, hown, hwhole⟩ piece hmem
        have hsame := Option.some.inj (hown.trans hwhole.symm)
        exact (hpiece piece).mp (List.map_inj_left.mp hsame piece hmem)
      · intro hpieces
        refine ⟨_, rfl, congrArg some (List.map_congr_left fun piece hmem => ?_)⟩
        exact ((hpiece piece).mpr (hpieces piece hmem)).symm

end OneFile

/-- A `swanctl.conf` that includes its connections outside of all sections. -/
def branchFiles : SettingsFiles where
  readText path :=
    if path = "swanctl.conf" then some "include gw.conf\n"
    else if path = "gw.conf" then
      some "connections \x7b\ngw \x7b\nproposals = aes256-sha384-x25519\n\x7d\n\x7d\n"
    else none
  expandInclude pattern _ := [pattern]
  stripPrefix := id

theorem branch_inlined : ∃ found,
    (parseSwanctlConf id branchFiles 8 "swanctl.conf").map (List.map ConfiguredProposal.named) =
      some found ∧
    (parseSwanctlConf id (branchFiles.inlined 8 "swanctl.conf") 8 "swanctl.conf").map
      (List.map ConfiguredProposal.named) = some found := by
  have hmain : (branchFiles.lines "swanctl.conf").flatMap
      (branchFiles.includedBy "swanctl.conf") = ["gw.conf"] := by decide +kernel
  have hbranch : (branchFiles.lines "gw.conf").flatMap
      (branchFiles.includedBy "gw.conf") = [] := by decide +kernel
  have hbalanced : IncludesBalanced branchFiles 8 "swanctl.conf" := by
    intro raw hraw file hfile
    have hmem : file ∈ ["gw.conf"] := hmain ▸ List.mem_flatMap.mpr ⟨raw, hraw, hfile⟩
    rw [List.mem_singleton.mp hmem]
    refine ⟨⟨by decide +kernel, by decide +kernel⟩, ?_⟩
    intro raw hraw file hfile
    have hmem : file ∈ [] := hbranch ▸ List.mem_flatMap.mpr ⟨raw, hraw, hfile⟩
    exact absurd hmem List.not_mem_nil
  apply (parseSwanctlConf_inlined_iff hbalanced).mpr
  constructor
  · simp only [← Option.isSome_iff_ne_none]
    decide +kernel
  · unfold NamesKept Placed.Proposes
    decide +kernel

/-- Read in its own file, the proposal of the gateway has no connection. -/
theorem gateway_inlined_differs :
    (parseSwanctlConf id gatewayFiles 8 "swanctl.conf").map
        (List.map ConfiguredProposal.named) ≠
      (parseSwanctlConf id (gatewayFiles.inlined 8 "swanctl.conf") 8 "swanctl.conf").map
        (List.map ConfiguredProposal.named) := by
  intro hsame
  have hconnections := congrArg (Option.map (List.map fun named => named.2.1)) hsame
  have hown : ((parseSwanctlConf id gatewayFiles 8 "swanctl.conf").map
      (List.map ConfiguredProposal.named)).map (List.map fun named => named.2.1) =
        some [none] := by decide +kernel
  have hwhole : ((parseSwanctlConf id (gatewayFiles.inlined 8 "swanctl.conf") 8
      "swanctl.conf").map (List.map ConfiguredProposal.named)).map
        (List.map fun named => named.2.1) = some [some "gw"] := by decide +kernel
  rw [hown, hwhole] at hconnections
  cases hconnections

end PqcReadiness.Ike
