import PqcReadiness.Ike.Negotiation

/-!
# Includes in `swanctl.conf`

To strongSwan an `include` stands for the text of the files that it names, wherever it stands.
`parse_swanctl_conf` reads each of them on its own, with no sections open.  Where the files have
balanced braces, the two find the same proposals (`parseSwanctlConf_parsed`), and the same names
for them exactly if no section that is open around an `include` would change the names of a
proposal behind it (`parseSwanctlConf_textual_iff`).  Files that are included outside of all
sections are read as the text (`parseSwanctlConf_outside`).
-/

namespace PqcReadiness.Ike

open PqcReadiness.Lib

/-! ## Lines -/

/-- What a line of a settings file does; the sections that it closes come first. -/
inductive SettingsLine where
  | includes (pattern : String)
  | nothing (closes : ℕ)
  | opens (closes : ℕ) (name : String)
  | setting (closes : ℕ) (kind : Kind) (value : String)

/-- The braces in front of a line and what follows them; `left` bounds how many there are. -/
def closings : ℕ → List Char → ℕ × List Char
  | left + 1, '}' :: rest =>
      let behind := closings left (stripChars rest)
      (behind.1 + 1, behind.2)
  | _, line => (0, line)

/-- The kind of the proposals of a setting. -/
def settingKind (key : String) : Option Kind :=
  if key = "proposals" then some .ike
  else if key = "esp_proposals" ∨ key = "ah_proposals" then some .child
  else none

/-- What the loop of `parse_swanctl_conf` makes of a line. -/
def readSettingsLine (raw : String) : SettingsLine :=
  let line := stripChars (beforeChar '#' raw).toList
  if "include ".toList.isPrefixOf line then .includes (String.ofList (line.drop 8))
  else
    let (closes, line) := closings line.length line
    if line.getLast? = some '{' then .opens closes (String.ofList (stripChars line.dropLast))
    else if '=' ∈ line then
      let key := stripChars (line.takeWhile (· ≠ '='))
      match settingKind (String.ofList key) with
      | some kind => .setting closes kind (String.ofList ((line.dropWhile (· ≠ '=')).drop 1))
      | none => .nothing closes
    else .nothing closes

/-- The sections that are open after so many are closed. -/
def closeSections (closes : ℕ) (stack : List String) : List String :=
  stack.take (stack.length - closes)

/-- The sections that are open after a line. -/
def SettingsLine.after (stack : List String) : SettingsLine → List String
  | includes _ => stack
  | nothing closes => closeSections closes stack
  | opens closes name => closeSections closes stack ++ [name]
  | setting closes _ _ => closeSections closes stack

/-- The sections of a file that are open after a line of it. -/
def afterLine (own : List String) (raw : String) : List String := (readSettingsLine raw).after own

/-! ## Proposals -/

/-- An entry of the result. -/
structure ConfiguredProposal extends ParsedProposal where
  connection : Option String
  child : Option String
  kind : Kind
  source : String

/-- `conn`. -/
def connectionOf (stack : List String) : Option String :=
  if stack[0]? = some "connections" then stack[1]? else none

/-- `child`. -/
def childOf (stack : List String) : Option String :=
  if stack[2]? = some "children" then stack[3]? else none

/-- The entry of a proposal. -/
def configured (stack : List String) (kind : Kind) (source : String) (parsed : ParsedProposal) :
    ConfiguredProposal :=
  { parsed with
    connection := connectionOf stack, child := childOf stack, kind := kind, source := source }

section Parser

-- `lower` stands for `str.lower`.
variable (lower : String → String)

/-- The proposals of a value; `none` where one of them cannot be parsed. -/
def parsedValues (value : String) : Option (List ParsedProposal) :=
  ((split ',' value).filter fun prop => strip prop ≠ "").mapM (parseIkeProposal lower)

/-- The settings files of a host. -/
structure SettingsFiles where
  /-- `_read_text`. -/
  readText : String → Option String
  /-- `_expand_include`: the pattern and the file that it stands in. -/
  expandInclude : String → String → List String
  /-- `_strip_prefix`. -/
  stripPrefix : String → String

/-- The loop: the open sections and the entries. -/
structure SwanctlState where
  stack : List String := []
  out : List ConfiguredProposal := []

variable (files : SettingsFiles)

/-- The lines of a file, none if it cannot be read. -/
def SettingsFiles.lines (path : String) : List String :=
  ((files.readText path).map splitLines).getD []

/-- One line; `below` parses an included file. -/
def swanctlTurn (below : String → Option (List ConfiguredProposal)) (path : String)
    (state : SwanctlState) (raw : String) : Option SwanctlState :=
  match readSettingsLine raw with
  | .includes pattern =>
      -- The call does not pass `stack` on.
      ((files.expandInclude pattern path).mapM below).map fun found =>
        { state with out := state.out ++ found.flatten }
  | .setting closes kind value =>
      let stack := closeSections closes state.stack
      (parsedValues lower value).map fun found =>
        ⟨stack, state.out ++ found.map (configured stack kind (files.stripPrefix path))⟩
  | line => some { state with stack := line.after state.stack }

/-- `parse_swanctl_conf`, with so many levels of includes left; `none` where it raises. -/
def parseSwanctlConf : ℕ → String → Option (List ConfiguredProposal)
  | 0, path =>
      ((files.lines path).foldlM (swanctlTurn lower files (fun _ => some []) path) {}).map
        SwanctlState.out
  | left + 1, path =>
      ((files.lines path).foldlM (swanctlTurn lower files (parseSwanctlConf left) path) {}).map
        SwanctlState.out

/-- What a line stands for in the whole text; `below` is the text of an included file. -/
def expandedLine (below : String → List (String × String)) (path raw : String) :
    List (String × String) :=
  match readSettingsLine raw with
  | .includes pattern => (files.expandInclude pattern path).flatMap below
  | _ => [(path, raw)]

/-- The lines of a file with those of the files that it includes, each with the file that it
stands in. -/
def expandedLines : ℕ → String → List (String × String)
  | 0, path => (files.lines path).flatMap (expandedLine files (fun _ => []) path)
  | left + 1, path => (files.lines path).flatMap (expandedLine files (expandedLines left) path)

/-- A line of the whole text, in which nothing is left to include. -/
def textualTurn (state : SwanctlState) (line : String × String) : Option SwanctlState :=
  swanctlTurn lower files (fun _ => some []) line.1 state line.2

/-- What the settings say: the loop over the lines of all files. -/
def textualProposals (left : ℕ) (path : String) : Option (List ConfiguredProposal) :=
  ((expandedLines files left path).foldlM (textualTurn lower files) {}).map SwanctlState.out

/-! ## Where proposals stand -/

/-- A setting: the sections around its file, and those of the file around it. -/
structure Placed where
  outer : List String
  own : List String
  kind : Kind
  value : String
  source : String

/-- All sections around a setting. -/
def Placed.whole (placed : Placed) : List String := placed.outer ++ placed.own

/-- The settings of a line, with so many sections of its file open before it. -/
def placedLine (below : List String → String → List Placed) (path : String)
    (outer own : List String) (raw : String) : List Placed :=
  match readSettingsLine raw with
  | .includes pattern => (files.expandInclude pattern path).flatMap (below (outer ++ own))
  | .setting closes kind value =>
      [⟨outer, closeSections closes own, kind, value, files.stripPrefix path⟩]
  | _ => []

/-- The settings of the lines of a file. -/
def placedLines (below : List String → String → List Placed) (path : String)
    (outer : List String) : List String → List String → List Placed
  | _, [] => []
  | own, raw :: rest =>
      placedLine files below path outer own raw ++
        placedLines below path outer (afterLine own raw) rest

/-- The settings of a file and of those that it includes. -/
def placedSettings : ℕ → List String → String → List Placed
  | 0, outer, path => placedLines files (fun _ _ => []) path outer [] (files.lines path)
  | left + 1, outer, path =>
      placedLines files (placedSettings left) path outer [] (files.lines path)

/-- The proposals of settings, each with the setting. -/
def placedProposals : List Placed → Option (List (Placed × ParsedProposal))
  | [] => some []
  | setting :: rest =>
      (parsedValues lower setting.value).bind fun parsed =>
        (placedProposals rest).map (parsed.map (Prod.mk setting) ++ ·)

/-- The entry of a proposal, with some of the sections around it. -/
def Placed.entry (stack : Placed → List String) (found : Placed × ParsedProposal) :
    ConfiguredProposal :=
  configured (stack found.1) found.1.kind found.1.source found.2

/-- The entries of settings, each with some of the sections around it. -/
def entries (stack : Placed → List String) (placed : List Placed) :
    Option (List ConfiguredProposal) :=
  (placedProposals lower placed).map (List.map (Placed.entry stack))

variable {lower files} {stack : Placed → List String}

theorem entries_nil : entries lower stack [] = some [] := rfl

theorem entries_cons (setting : Placed) (rest : List Placed) :
    entries lower stack (setting :: rest) =
      (parsedValues lower setting.value).bind fun parsed =>
        (entries lower stack rest).map
          (parsed.map (configured (stack setting) setting.kind setting.source) ++ ·) := by
  rw [entries, entries, placedProposals]
  cases parsedValues lower setting.value with
  | none => rfl
  | some parsed =>
      cases placedProposals lower rest with
      | none => rfl
      | some found =>
          simp only [Option.bind_some, Option.map_some, List.map_append, List.map_map]
          rfl

theorem entries_append (front back : List Placed) :
    entries lower stack (front ++ back) =
      (entries lower stack front).bind fun found =>
        (entries lower stack back).map (found ++ ·) := by
  induction front with
  | nil =>
      rw [List.nil_append, entries_nil, Option.bind_some]
      cases entries lower stack back with
      | none => rfl
      | some found => rfl
  | cons setting front ih =>
      rw [List.cons_append, entries_cons, entries_cons, ih]
      cases parsedValues lower setting.value with
      | none => rfl
      | some parsed =>
          cases entries lower stack front with
          | none => rfl
          | some found =>
              simp only [Option.bind_some, Option.map_some, Option.map_map, List.append_assoc,
                Function.comp_def]

theorem entries_flatMap (placed : String → List Placed) (paths : List String) :
    entries lower stack (paths.flatMap placed) =
      (paths.mapM fun path => entries lower stack (placed path)).map List.flatten := by
  induction paths with
  | nil => rfl
  | cons path paths ih =>
      rw [List.flatMap_cons, entries_append, ih, List.mapM_cons]
      cases entries lower stack (placed path) with
      | none => rfl
      | some found =>
          cases paths.mapM fun path => entries lower stack (placed path) with
          | none => rfl
          | some later => rfl

theorem entries_singleton (setting : Placed) :
    entries lower stack [setting] = (parsedValues lower setting.value).map
      (List.map (configured (stack setting) setting.kind setting.source)) := by
  rw [entries_cons, entries_nil]
  cases parsedValues lower setting.value with
  | none => rfl
  | some parsed => simp

/-- One piece of a run after another. -/
theorem bind_entries {front back : List Placed} {between behind : List String}
    {out : List ConfiguredProposal} {next : SwanctlState → Option SwanctlState}
    (hnext : ∀ out, next ⟨between, out⟩ =
      (entries lower stack back).map fun found => ⟨behind, out ++ found⟩) :
    ((entries lower stack front).map fun found =>
        SwanctlState.mk between (out ++ found)).bind next =
      (entries lower stack (front ++ back)).map fun found => ⟨behind, out ++ found⟩ := by
  rw [entries_append]
  cases entries lower stack front with
  | none => rfl
  | some found =>
      rw [Option.map_some, Option.bind_some, hnext, Option.bind_some, Option.map_map]
      simp only [Function.comp_def, List.append_assoc]

/-! ## The loop of the code -/

theorem swanctlTurn_eq {below : String → Option (List ConfiguredProposal)}
    {placed : List String → String → List Placed} {path : String}
    (hbelow : ∀ outer file, below file = entries lower Placed.own (placed outer file))
    (outer own : List String) (out : List ConfiguredProposal) (raw : String) :
    swanctlTurn lower files below path ⟨own, out⟩ raw =
      (entries lower Placed.own (placedLine files placed path outer own raw)).map
        fun found => ⟨afterLine own raw, out ++ found⟩ := by
  rw [swanctlTurn, placedLine, afterLine]
  cases readSettingsLine raw with
  | includes pattern =>
      have hfiles :
          (fun file => entries lower Placed.own (placed (outer ++ own) file)) = below :=
        funext fun file => (hbelow _ file).symm
      simp only [entries_flatMap, hfiles, Option.map_map]
      rfl
  | nothing closes => simp only [entries_nil, Option.map_some, List.append_nil]
  | opens closes name => simp only [entries_nil, Option.map_some, List.append_nil]
  | setting closes kind value =>
      simp only [entries_singleton, Option.map_map]
      rfl

/-- The loop over the lines of a file, with so many of its sections open. -/
theorem foldlM_swanctlTurn {below : String → Option (List ConfiguredProposal)}
    {placed : List String → String → List Placed} {path : String}
    (hbelow : ∀ outer file, below file = entries lower Placed.own (placed outer file))
    (outer lines own : List String) (out : List ConfiguredProposal) :
    lines.foldlM (swanctlTurn lower files below path) ⟨own, out⟩ =
      (entries lower Placed.own (placedLines files placed path outer own lines)).map
        fun found => ⟨lines.foldl afterLine own, out ++ found⟩ := by
  induction lines generalizing own out with
  | nil => simp [placedLines, entries_nil]
  | cons raw rest ih =>
      rw [List.foldlM_cons, swanctlTurn_eq hbelow outer, placedLines, List.foldl_cons]
      exact bind_entries fun out => ih (afterLine own raw) out

/-- The code names a proposal by the sections of its own file. -/
theorem parseSwanctlConf_eq (left : ℕ) (outer : List String) (path : String) :
    parseSwanctlConf lower files left path =
      entries lower Placed.own (placedSettings files left outer path) := by
  induction left generalizing outer path with
  | zero =>
      have hloop := @foldlM_swanctlTurn lower files (fun _ => some []) (fun _ _ => []) path
        (fun _ _ => rfl) outer (files.lines path) [] []
      rw [parseSwanctlConf, placedSettings, hloop, Option.map_map]
      exact Option.map_id'
  | succ left ih =>
      have hloop := @foldlM_swanctlTurn lower files (parseSwanctlConf lower files left)
        (placedSettings files left) path ih outer (files.lines path) [] []
      rw [parseSwanctlConf, placedSettings, hloop, Option.map_map]
      exact Option.map_id'

/-! ## The text -/

/-- How many sections a line closes. -/
def SettingsLine.closes : SettingsLine → ℕ
  | includes _ => 0
  | nothing closes | opens closes _ | setting closes _ _ => closes

/-- The lines close none but the sections that they open, and those that are open before them. -/
def Within : List String → List String → Prop
  | _, [] => True
  | own, raw :: rest => (readSettingsLine raw).closes ≤ own.length ∧ Within (afterLine own raw) rest

instance decidableWithin : ∀ own lines, Decidable (Within own lines)
  | _, [] => .isTrue trivial
  | own, raw :: rest =>
      @instDecidableAnd _ _ (Nat.decLe _ _) (decidableWithin (afterLine own raw) rest)

/-- The braces of the lines are balanced. -/
structure Balanced (lines : List String) : Prop where
  within : Within [] lines
  closed : lines.foldl afterLine [] = []

variable (files) in
/-- The files that a line includes. -/
def SettingsFiles.includedBy (path raw : String) : List String :=
  match readSettingsLine raw with
  | .includes pattern => files.expandInclude pattern path
  | _ => []

variable (files) in
/-- The files that a file includes, so many levels deep, are balanced. -/
def IncludesBalanced : ℕ → String → Prop
  | 0, _ => True
  | left + 1, path =>
      ∀ raw ∈ files.lines path, ∀ file ∈ files.includedBy path raw,
        Balanced (files.lines file) ∧ IncludesBalanced left file

theorem closeSections_append {closes : ℕ} {outer own : List String}
    (hwithin : outer = [] ∨ closes ≤ own.length) :
    closeSections closes (outer ++ own) = outer ++ closeSections closes own := by
  cases hwithin with
  | inl houter => rw [houter, List.nil_append, List.nil_append]
  | inr hcloses =>
      rw [closeSections, List.length_append, Nat.add_sub_assoc hcloses,
        List.take_length_add_append, closeSections]

theorem SettingsLine.after_append {line : SettingsLine} {outer own : List String}
    (hwithin : outer = [] ∨ line.closes ≤ own.length) :
    line.after (outer ++ own) = outer ++ line.after own := by
  cases line with
  | includes pattern => rfl
  | nothing closes => exact closeSections_append hwithin
  | opens closes name =>
      have hclose : closeSections closes (outer ++ own) = outer ++ closeSections closes own :=
        closeSections_append hwithin
      rw [after, hclose, List.append_assoc, after]
  | setting closes kind value => exact closeSections_append hwithin

variable (lower files) in
/-- In the text a file leaves the open sections as they are, and its entries have all of them. -/
def Pasted (text : List (String × String)) (placed : List String → List Placed) : Prop :=
  ∀ outer out, text.foldlM (textualTurn lower files) ⟨outer, out⟩ =
    (entries lower Placed.whole (placed outer)).map fun found => ⟨outer, out ++ found⟩

theorem Pasted.flatMap {text : String → List (String × String)}
    {placed : List String → String → List Placed} {paths : List String}
    (hpasted : ∀ path ∈ paths, Pasted lower files (text path) (placed · path)) :
    Pasted lower files (paths.flatMap text) fun outer => paths.flatMap (placed outer) := by
  induction paths with
  | nil =>
      intro outer out
      simp [entries_nil]
  | cons path paths ih =>
      intro outer out
      rw [List.forall_mem_cons] at hpasted
      rw [List.flatMap_cons, List.foldlM_append, hpasted.1 outer out]
      exact bind_entries fun out => ih hpasted.2 outer out

/-- The text of a line, inside the sections around the file. -/
theorem foldlM_expandedLine {below : String → List (String × String)}
    {placed : List String → String → List Placed} {path raw : String} {outer own : List String}
    (hbelow : ∀ file ∈ files.includedBy path raw, Pasted lower files (below file) (placed · file))
    (hline : outer = [] ∨ (readSettingsLine raw).closes ≤ own.length)
    (out : List ConfiguredProposal) :
    (expandedLine files below path raw).foldlM (textualTurn lower files) ⟨outer ++ own, out⟩ =
      (entries lower Placed.whole (placedLine files placed path outer own raw)).map
        fun found => ⟨outer ++ afterLine own raw, out ++ found⟩ := by
  rw [expandedLine, placedLine, afterLine]
  rw [SettingsFiles.includedBy] at hbelow
  cases hread : readSettingsLine raw with
  | includes pattern =>
      rw [hread] at hbelow
      exact Pasted.flatMap hbelow (outer ++ own) out
  | nothing closes =>
      rw [hread] at hline
      simp only [List.foldlM_cons, List.foldlM_nil, bind_pure, textualTurn, swanctlTurn, hread,
        SettingsLine.after_append hline, entries_nil, Option.map_some, List.append_nil]
  | opens closes name =>
      rw [hread] at hline
      simp only [List.foldlM_cons, List.foldlM_nil, bind_pure, textualTurn, swanctlTurn, hread,
        SettingsLine.after_append hline, entries_nil, Option.map_some, List.append_nil]
  | setting closes kind value =>
      rw [hread] at hline
      have hclose : closeSections closes (outer ++ own) = outer ++ closeSections closes own :=
        closeSections_append hline
      simp only [List.foldlM_cons, List.foldlM_nil, bind_pure, textualTurn, swanctlTurn, hread,
        hclose, entries_singleton, Option.map_map]
      rfl

/-- The loop over the text of the lines of a file, inside the sections around the file. -/
theorem foldlM_flatMap_expandedLine {below : String → List (String × String)}
    {placed : List String → String → List Placed} {path : String} {outer lines : List String}
    (hbelow : ∀ raw ∈ lines, ∀ file ∈ files.includedBy path raw,
      Pasted lower files (below file) (placed · file))
    (own : List String) (out : List ConfiguredProposal)
    (hwithin : outer = [] ∨ Within own lines) :
    (lines.flatMap (expandedLine files below path)).foldlM (textualTurn lower files)
        ⟨outer ++ own, out⟩ =
      (entries lower Placed.whole (placedLines files placed path outer own lines)).map
        fun found => ⟨outer ++ lines.foldl afterLine own, out ++ found⟩ := by
  induction lines generalizing own out with
  | nil => simp [placedLines, entries_nil]
  | cons raw rest ih =>
      rw [List.forall_mem_cons] at hbelow
      rw [List.flatMap_cons, List.foldlM_append,
        foldlM_expandedLine hbelow.1 (hwithin.imp_right And.left) out, placedLines,
        List.foldl_cons]
      -- A file without sections around it may close what it has not opened.
      exact bind_entries fun out =>
        ih hbelow.2 (afterLine own raw) out (hwithin.imp_right And.right)

/-- The loop over the text of a file. -/
theorem foldlM_expandedLines {left : ℕ} {path : String}
    (hbalanced : IncludesBalanced files left path)
    (outer : List String) (out : List ConfiguredProposal)
    (hwithin : outer = [] ∨ Within [] (files.lines path)) :
    (expandedLines files left path).foldlM (textualTurn lower files) ⟨outer, out⟩ =
      (entries lower Placed.whole (placedSettings files left outer path)).map
        fun found => ⟨outer ++ (files.lines path).foldl afterLine [], out ++ found⟩ := by
  induction left generalizing path outer out with
  | zero =>
      rw [expandedLines, placedSettings]
      have hloop := @foldlM_flatMap_expandedLine lower files (fun _ => []) (fun _ _ => []) path
        outer (files.lines path) (fun raw _ file _ outer out => by simp [entries_nil])
        [] out hwithin
      rwa [List.append_nil] at hloop
  | succ left ih =>
      rw [expandedLines, placedSettings]
      have hloop := @foldlM_flatMap_expandedLine lower files (expandedLines files left)
        (placedSettings files left) path outer (files.lines path) ?_ [] out hwithin
      · rwa [List.append_nil] at hloop
      · -- An included file ends with the sections that were open before it.
        intro raw hraw file hfile outer out
        obtain ⟨hfile, hincludes⟩ := hbalanced raw hraw file hfile
        rw [ih hincludes outer out (.inr hfile.within), hfile.closed, List.append_nil]

/-- The text names a proposal by all sections around it. -/
theorem textualProposals_eq {left : ℕ} {path : String}
    (hbalanced : IncludesBalanced files left path) :
    textualProposals lower files left path =
      entries lower Placed.whole (placedSettings files left [] path) := by
  rw [textualProposals]
  have hloop := @foldlM_expandedLines lower files left path hbalanced [] [] (.inl rfl)
  rw [hloop, Option.map_map]
  simp [Function.comp_def]

/-! ## The two readings -/

/-- With balanced files no proposal is lost or found twice, wherever the files are included. -/
theorem parseSwanctlConf_parsed {left : ℕ} {path : String}
    (hbalanced : IncludesBalanced files left path) :
    (parseSwanctlConf lower files left path).map
        (List.map fun entry => (entry.toParsedProposal, entry.kind, entry.source)) =
      (textualProposals lower files left path).map
        (List.map fun entry => (entry.toParsedProposal, entry.kind, entry.source)) := by
  rw [parseSwanctlConf_eq left [] path, textualProposals_eq hbalanced, entries, entries,
    Option.map_map, Option.map_map]
  congr 1
  funext found
  simp [Placed.entry, configured, Function.comp_def]

theorem entries_own_eq_iff (placed : List Placed) :
    entries lower Placed.own placed = entries lower Placed.whole placed ↔
      ∀ found, placedProposals lower placed = some found →
        ∀ piece ∈ found, connectionOf piece.1.own = connectionOf piece.1.whole ∧
          childOf piece.1.own = childOf piece.1.whole := by
  have hentry : ∀ piece : Placed × ParsedProposal,
      Placed.entry Placed.own piece = Placed.entry Placed.whole piece ↔
        connectionOf piece.1.own = connectionOf piece.1.whole ∧
          childOf piece.1.own = childOf piece.1.whole := by
    intro piece
    simp [Placed.entry, configured]
  rw [entries, entries]
  cases placedProposals lower placed with
  | none => simp
  | some found =>
      simp only [Option.map_some, Option.some_inj, List.map_inj_left, hentry, forall_eq']

/-- With balanced files the code reads the text, exactly if the sections of the file of a proposal
give it the names that all sections around it do. -/
theorem parseSwanctlConf_textual_iff {left : ℕ} {path : String}
    (hbalanced : IncludesBalanced files left path) :
    parseSwanctlConf lower files left path = textualProposals lower files left path ↔
      ∀ found, placedProposals lower (placedSettings files left [] path) = some found →
        ∀ piece ∈ found, connectionOf piece.1.own = connectionOf piece.1.whole ∧
          childOf piece.1.own = childOf piece.1.whole := by
  rw [parseSwanctlConf_eq left [] path, textualProposals_eq hbalanced]
  exact entries_own_eq_iff (placedSettings files left [] path)

/-! ### A connection in a file of its own -/

/-- A `swanctl.conf` with its connections in other files. -/
def gatewayFiles : SettingsFiles where
  readText path :=
    if path = "swanctl.conf" then some "connections \x7b\ninclude gw.conf\n\x7d\n"
    else if path = "gw.conf" then some "gw \x7b\nproposals = aes256-sha384-x25519\n\x7d\n"
    else none
  expandInclude pattern _ := [pattern]
  stripPrefix := id

/-- The code reads the proposals of the file without the connection that they belong to. -/
theorem parseSwanctlConf_gateway :
    parseSwanctlConf id gatewayFiles 8 "swanctl.conf" ≠
      textualProposals id gatewayFiles 8 "swanctl.conf" := by
  have hmain : (gatewayFiles.lines "swanctl.conf").flatMap
      (gatewayFiles.includedBy "swanctl.conf") = ["gw.conf"] := by decide +kernel
  have hgateway : (gatewayFiles.lines "gw.conf").flatMap
      (gatewayFiles.includedBy "gw.conf") = [] := by decide +kernel
  have hbalanced : IncludesBalanced gatewayFiles 8 "swanctl.conf" := by
    intro raw hraw file hfile
    have hmem : file ∈ ["gw.conf"] := hmain ▸ List.mem_flatMap.mpr ⟨raw, hraw, hfile⟩
    rw [List.mem_singleton.mp hmem]
    refine ⟨⟨by decide +kernel, by decide +kernel⟩, ?_⟩
    intro raw hraw file hfile
    have hmem : file ∈ [] := hgateway ▸ List.mem_flatMap.mpr ⟨raw, hraw, hfile⟩
    exact absurd hmem List.not_mem_nil
  have hfound : ((placedProposals id (placedSettings gatewayFiles 8 [] "swanctl.conf")).map
      fun found => found.map fun piece =>
        (connectionOf piece.1.own, connectionOf piece.1.whole)) = some [(none, some "gw")] := by
    decide +kernel
  rw [Ne, parseSwanctlConf_textual_iff hbalanced]
  intro hnames
  obtain ⟨found, hfound, hpieces⟩ := Option.map_eq_some_iff.mp hfound
  obtain ⟨piece, rfl, hpiece⟩ := List.map_eq_singleton_iff.mp hpieces
  obtain ⟨hown, hwhole⟩ := Prod.mk.inj hpiece
  have hconnection := (hnames [piece] hfound piece List.mem_cons_self).1
  rw [hown, hwhole] at hconnection
  exact absurd hconnection (by simp)

/-! ### Includes outside of all sections -/

variable (files) in
/-- The lines include files only where no section is open. -/
def IncludesOutside (path : String) : List String → List String → Prop
  | _, [] => True
  | own, raw :: rest =>
      (files.includedBy path raw ≠ [] → own = []) ∧ IncludesOutside path (afterLine own raw) rest

variable (files) in
/-- A file and those that it includes, so many levels deep, include files only outside of all
sections. -/
def AllOutside : ℕ → String → Prop
  | 0, path => IncludesOutside files path [] (files.lines path)
  | left + 1, path =>
      IncludesOutside files path [] (files.lines path) ∧
        ∀ raw ∈ files.lines path, ∀ file ∈ files.includedBy path raw, AllOutside left file

theorem outer_of_mem_placedLine {placed : List String → String → List Placed}
    {path raw : String} {own : List String}
    (hplaced : ∀ file ∈ files.includedBy path raw, ∀ setting ∈ placed [] file,
      setting.outer = [])
    (hopen : files.includedBy path raw ≠ [] → own = []) {setting : Placed}
    (hsetting : setting ∈ placedLine files placed path [] own raw) : setting.outer = [] := by
  rw [placedLine] at hsetting
  rw [SettingsFiles.includedBy] at hplaced hopen
  cases hread : readSettingsLine raw with
  | includes pattern =>
      rw [hread] at hsetting hopen hplaced
      obtain ⟨file, hfile, hmem⟩ := List.mem_flatMap.mp hsetting
      have hown : own = [] := hopen (List.ne_nil_of_mem hfile)
      rw [hown] at hmem
      exact hplaced file hfile setting hmem
  | nothing closes =>
      rw [hread] at hsetting
      exact absurd hsetting List.not_mem_nil
  | opens closes name =>
      rw [hread] at hsetting
      exact absurd hsetting List.not_mem_nil
  | setting closes kind value =>
      rw [hread] at hsetting
      rw [List.mem_singleton.mp hsetting]

theorem outer_of_mem_placedLines {placed : List String → String → List Placed} {path : String}
    {lines : List String}
    (hplaced : ∀ raw ∈ lines, ∀ file ∈ files.includedBy path raw, ∀ setting ∈ placed [] file,
      setting.outer = [])
    {own : List String} (houtside : IncludesOutside files path own lines) {setting : Placed}
    (hsetting : setting ∈ placedLines files placed path [] own lines) : setting.outer = [] := by
  induction lines generalizing own with
  | nil => exact absurd hsetting List.not_mem_nil
  | cons raw rest ih =>
      obtain ⟨hopen, houtside⟩ := houtside
      rw [List.forall_mem_cons] at hplaced
      rw [placedLines] at hsetting
      cases List.mem_append.mp hsetting with
      | inl hmem => exact outer_of_mem_placedLine hplaced.1 hopen hmem
      | inr hmem => exact ih hplaced.2 houtside hmem

theorem outer_of_mem_placedSettings {left : ℕ} {path : String}
    (houtside : AllOutside files left path) {setting : Placed}
    (hsetting : setting ∈ placedSettings files left [] path) : setting.outer = [] := by
  induction left generalizing path setting with
  | zero =>
      rw [placedSettings] at hsetting
      rw [AllOutside] at houtside
      exact outer_of_mem_placedLines (fun _ _ _ _ _ hmem => absurd hmem List.not_mem_nil)
        houtside hsetting
  | succ left ih =>
      rw [placedSettings] at hsetting
      rw [AllOutside] at houtside
      refine outer_of_mem_placedLines ?_ houtside.1 hsetting
      intro raw hraw file hfile setting hmem
      exact ih (houtside.2 raw hraw file hfile) hmem

theorem mem_of_placedProposals {placed : List Placed} {found : List (Placed × ParsedProposal)}
    (hfound : placedProposals lower placed = some found) {piece : Placed × ParsedProposal}
    (hpiece : piece ∈ found) : piece.1 ∈ placed := by
  induction placed generalizing found with
  | nil =>
      rw [placedProposals, Option.some_inj] at hfound
      exact absurd (hfound ▸ hpiece) List.not_mem_nil
  | cons setting rest ih =>
      rw [placedProposals, Option.bind_eq_some_iff] at hfound
      obtain ⟨parsed, -, hfound⟩ := hfound
      obtain ⟨later, hlater, rfl⟩ := Option.map_eq_some_iff.mp hfound
      cases List.mem_append.mp hpiece with
      | inl hmem =>
          obtain ⟨proposal, -, rfl⟩ := List.mem_map.mp hmem
          exact List.mem_cons_self
      | inr hmem => exact List.mem_cons_of_mem _ (ih hlater hmem)

/-- Where files are included only outside of all sections, the code reads the text. -/
theorem parseSwanctlConf_outside {left : ℕ} {path : String}
    (hbalanced : IncludesBalanced files left path) (houtside : AllOutside files left path) :
    parseSwanctlConf lower files left path = textualProposals lower files left path := by
  rw [parseSwanctlConf_eq left [] path, textualProposals_eq hbalanced, entries_own_eq_iff]
  intro found hfound piece hpiece
  have houter : piece.1.outer = [] :=
    outer_of_mem_placedSettings houtside (mem_of_placedProposals hfound hpiece)
  rw [Placed.whole, houter, List.nil_append]
  exact ⟨rfl, rfl⟩

end Parser

end PqcReadiness.Ike
