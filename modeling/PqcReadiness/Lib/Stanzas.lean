import PqcReadiness.Lib.Lines
import PqcReadiness.Lib.Matching

/-!
# Texts in stanzas

A text is split at the matches of a separator (`splitMatches`).  A separator is one between
stanzas (`StanzaBreak`) if it matches an empty line between two stanzas, and nowhere inside one.
Which lines a stanza may have is up to the separator: one that takes any blank line for a
separator leaves no line of a stanza blank.

The rule for users is `filterMap_splitMatches`: what is read of a text is what is read of its
stanzas, one by one.  Inside a stanza `filterMap_splitLines` says the same of the lines.
-/

namespace PqcReadiness.Lib

/-! ## Splitting at matches -/

/-- The pieces between the matches of a separator, of which `found` gives the length where one
begins; `skip` characters are left of the last one. -/
def splitMatches (found : List Char → Option ℕ) : ℕ → List Char → List (List Char)
  | _, [] => [[]]
  | skip + 1, _ :: rest => splitMatches found skip rest
  | 0, c :: rest =>
      match found (c :: rest) with
      | some length => [] :: splitMatches found (length - 1) rest
      | none => (splitMatches found 0 rest).modifyHead (c :: ·)

section Split

variable {found : List Char → Option ℕ}

theorem splitMatches_of_none {c : Char} {rest : List Char} (hnone : found (c :: rest) = none) :
    splitMatches found 0 (c :: rest) = (splitMatches found 0 rest).modifyHead (c :: ·) := by
  rw [splitMatches, hnone]

/-- Where a separator begins. -/
theorem splitMatches_of_some {sep rest : List Char} (hne : sep ≠ [])
    (hsome : found (sep ++ rest) = some sep.length) :
    splitMatches found 0 (sep ++ rest) = [] :: splitMatches found 0 rest := by
  have hskip : ∀ sep : List Char, splitMatches found sep.length (sep ++ rest) =
      splitMatches found 0 rest := by
    intro sep
    induction sep with
    | nil => rfl
    | cons c sep ih => exact ih
  cases sep with
  | nil => exact absurd rfl hne
  | cons c sep =>
      rw [List.cons_append] at hsome ⊢
      rw [splitMatches, hsome]
      exact congrArg ([] :: ·) (hskip sep)

end Split

/-! ## Stanzas -/

/-- A separator between stanzas with such lines. -/
structure StanzaBreak (found : List Char → Option ℕ) (Line : List Char → Prop) : Prop where
  char : ∀ c rest, c ≠ '\n' → found (c :: rest) = none
  line : ∀ line rest, '\n' ∉ line → Line line → found ('\n' :: line ++ rest) = none
  last : found ['\n'] = none
  between : ∀ rest : List Char, (∀ c ∈ rest.head?, isSpace c = false) →
    found ('\n' :: '\n' :: rest) = some 2

/-- The lines of a stanza, of which the first begins with no white space. -/
structure IsStanza (Line : List Char → Prop) (lines : List (List Char)) : Prop where
  ne_nil : lines ≠ []
  unbroken : ∀ line ∈ lines, '\n' ∉ line
  line : ∀ line ∈ lines, Line line
  head : ∀ line ∈ lines.head?, ∃ c rest, line = c :: rest ∧ isSpace c = false

/-- What may stand behind the last stanza. -/
def stanzaEndings : List (List Char) := [[], ['\n'], ['\n', '\n']]

/-- Some stanzas, one empty line between them. -/
def stanzasText (stanzas : List (List (List Char))) (ending : List Char) : List Char :=
  ['\n', '\n'].intercalate (stanzas.map (['\n'].intercalate ·)) ++ ending

section Stanzas

variable {found : List Char → Option ℕ} {Line : List Char → Prop}

theorem splitMatches_line (hbreak : StanzaBreak found Line) {line : List Char}
    (hline : '\n' ∉ line) (rest : List Char) :
    splitMatches found 0 (line ++ rest) = (splitMatches found 0 rest).modifyHead (line ++ ·) := by
  induction line with
  | nil => exact (congrFun List.modifyHead_id _).symm
  | cons c line ih =>
      obtain ⟨hc, hline⟩ := not_or.mp (List.mem_cons.not.mp hline)
      rw [List.cons_append, splitMatches_of_none (hbreak.char c _ (Ne.symm hc)), ih hline,
        List.modifyHead_modifyHead]
      rfl

/-- No separator begins inside a stanza. -/
theorem splitMatches_stanza (hbreak : StanzaBreak found Line) {lines : List (List Char)}
    (hlines : ∀ line ∈ lines, '\n' ∉ line ∧ Line line) (rest : List Char) :
    splitMatches found 0 (['\n'].intercalate lines ++ rest) =
      (splitMatches found 0 rest).modifyHead (['\n'].intercalate lines ++ ·) := by
  induction lines with
  | nil => exact (congrFun List.modifyHead_id _).symm
  | cons line lines ih =>
      obtain ⟨⟨hline, -⟩, hrest⟩ := List.forall_mem_cons.mp hlines
      cases lines with
      | nil =>
          rw [List.intercalate_singleton]
          exact splitMatches_line hbreak hline rest
      | cons next lines =>
          have hnext : found ('\n' :: (['\n'].intercalate (next :: lines) ++ rest)) = none := by
            have hstart : ∃ more, ['\n'].intercalate (next :: lines) = next ++ more := by
              cases lines with
              | nil => exact ⟨[], by simp⟩
              | cons other lines =>
                  exact ⟨_, by rw [List.intercalate_cons_cons, List.append_assoc]⟩
            obtain ⟨more, hmore⟩ := hstart
            rw [hmore, List.append_assoc]
            obtain ⟨hline, hnext⟩ := hrest next List.mem_cons_self
            exact hbreak.line next _ hline hnext
          rw [List.intercalate_cons_cons, List.append_assoc, List.append_assoc,
            splitMatches_line hbreak hline, List.singleton_append, splitMatches_of_none hnext,
            ih hrest, List.modifyHead_modifyHead, List.modifyHead_modifyHead]
          congr 1
          funext piece
          simp

/-- Between two stanzas the text is split. -/
theorem splitMatches_between (hbreak : StanzaBreak found Line) {lines : List (List Char)}
    (hlines : IsStanza Line lines) {rest : List Char}
    (hrest : ∀ c ∈ rest.head?, isSpace c = false) :
    splitMatches found 0 (['\n'].intercalate lines ++ '\n' :: '\n' :: rest) =
      ['\n'].intercalate lines :: splitMatches found 0 rest := by
  have hsep : splitMatches found 0 (['\n', '\n'] ++ rest) = [] :: splitMatches found 0 rest :=
    splitMatches_of_some (List.cons_ne_nil _ _) (hbreak.between rest hrest)
  rw [splitMatches_stanza hbreak fun line hline =>
    ⟨hlines.unbroken line hline, hlines.line line hline⟩]
  change (splitMatches found 0 (['\n', '\n'] ++ rest)).modifyHead _ = _
  rw [hsep]
  simp

theorem head_stanzasText {stanzas : List (List (List Char))} {lines : List (List Char)}
    (hlines : IsStanza Line lines) (ending : List Char) :
    ∀ c ∈ (stanzasText (lines :: stanzas) ending).head?, isSpace c = false := by
  obtain ⟨line, more, rfl⟩ := List.exists_cons_of_ne_nil hlines.ne_nil
  obtain ⟨c, rest, rfl, hc⟩ := hlines.head line rfl
  have hstart : ∃ after, stanzasText (((c :: rest) :: more) :: stanzas) ending = c :: after := by
    rw [stanzasText, List.map_cons]
    cases more <;> cases stanzas <;>
      simp [List.intercalate_cons_cons, List.intercalate_singleton]
  obtain ⟨after, hafter⟩ := hstart
  rw [hafter]
  intro d hd
  obtain rfl := Option.some.inj hd
  exact hc

/-- **What is read of a text is what is read of its stanzas.** -/
theorem filterMap_splitMatches {β : Type*} (hbreak : StanzaBreak found Line)
    {read : List Char → Option β} (hnil : read [] = none)
    (hnewline : ∀ text, read (text ++ ['\n']) = read text) {stanzas : List (List (List Char))}
    (hstanzas : ∀ lines ∈ stanzas, IsStanza Line lines) {ending : List Char}
    (hending : ending ∈ stanzaEndings) :
    (splitMatches found 0 (stanzasText stanzas ending)).filterMap read =
      (stanzas.map (['\n'].intercalate ·)).filterMap read := by
  have hnewlines : splitMatches found 0 ['\n'] = [['\n']] := by
    rw [splitMatches_of_none hbreak.last]
    rfl
  have hnewlines' : splitMatches found 0 ['\n', '\n'] = [[], []] :=
    @splitMatches_of_some found ['\n', '\n'] [] (List.cons_ne_nil _ _)
      (hbreak.between [] (by simp))
  have hread : read ['\n'] = none := (hnewline []).trans hnil
  have hempty : splitMatches found 0 [] = [[]] := rfl
  simp only [stanzaEndings, List.mem_cons, List.not_mem_nil, or_false] at hending
  induction stanzas with
  | nil =>
      rw [stanzasText, List.map_nil, List.intercalate_nil, List.nil_append]
      rcases hending with rfl | rfl | rfl
      · simp [hempty, hnil]
      · simp [hnewlines, hread]
      · simp [hnewlines', hnil]
  | cons lines stanzas ih =>
      obtain ⟨hlines, hrest⟩ := List.forall_mem_cons.mp hstanzas
      cases stanzas with
      | nil =>
          have hstanza : ∀ line ∈ lines, '\n' ∉ line ∧ Line line := fun line hline =>
            ⟨hlines.unbroken line hline, hlines.line line hline⟩
          rw [stanzasText, List.map_singleton, List.intercalate_singleton]
          rcases hending with rfl | rfl | rfl
          · rw [splitMatches_stanza hbreak hstanza, hempty]
            simp
          · rw [splitMatches_stanza hbreak hstanza, hnewlines]
            change [['\n'].intercalate lines ++ ['\n']].filterMap read = _
            rw [List.filterMap_cons, List.filterMap_cons, hnewline]
          · rw [splitMatches_between hbreak hlines (by simp), hempty]
            simp [hnil, List.filterMap_cons]
      | cons next stanzas =>
          have htext : stanzasText (lines :: next :: stanzas) ending =
              ['\n'].intercalate lines ++ '\n' :: '\n' :: stanzasText (next :: stanzas) ending := by
            rw [stanzasText, List.map_cons, List.map_cons, List.intercalate_cons_cons]
            simp [stanzasText]
          rw [htext, splitMatches_between hbreak hlines
            (head_stanzasText (hrest next List.mem_cons_self) ending), List.map_cons,
            List.filterMap_cons, List.filterMap_cons, ih hrest]

end Stanzas

/-! ## Lines of a stanza -/

section Lines

variable {β : Type*} {f : List Char → Option β}

theorem filterMap_splitLines_append (hnil : f [] = none) (text rest : List Char) :
    (splitLinesChars (text ++ '\n' :: rest)).filterMap f =
      (splitLinesChars text).filterMap f ++ (splitLinesChars rest).filterMap f := by
  obtain ⟨lines, hlines, -, hsplit⟩ := splitLinesChars_append_newline text rest
  rw [hsplit, List.filterMap_append]
  rcases hlines with rfl | rfl
  · rfl
  · rw [List.filterMap_append, List.filterMap_cons, hnil, List.filterMap_nil, List.append_nil]

/-- What is read of a stanza is what is read of its lines. -/
theorem filterMap_splitLines (hnil : f [] = none) (lines : List (List Char)) :
    (splitLinesChars (['\n'].intercalate lines)).filterMap f =
      lines.flatMap fun line => (splitLinesChars line).filterMap f := by
  induction lines with
  | nil => rfl
  | cons line lines ih =>
      cases lines with
      | nil => rw [List.intercalate_singleton, List.flatMap_singleton]
      | cons next lines =>
          rw [List.intercalate_cons_cons, List.append_assoc, List.singleton_append,
            filterMap_splitLines_append hnil, ih]
          rfl

end Lines

end PqcReadiness.Lib
