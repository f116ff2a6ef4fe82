import Mathlib.Data.List.TakeWhile
import PqcReadiness.Lib.Markers
import PqcReadiness.Lib.Matching

/-!
# Texts of lines

Lines without line breaks that are put together with line ends come apart again
(`splitLinesChars_intercalate`), also after the line ends around them are stripped.  A marker
without line breaks that occurs in a text of lines occurs in one of them
(`infix_of_infix_lines`).
-/

namespace PqcReadiness.Lib

/-- The end of a line. -/
inductive LineEnd where
  | lf
  | crlf
  deriving DecidableEq

/-- Its characters. -/
def LineEnd.chars : LineEnd → List Char
  | .lf => ['\n']
  | .crlf => ['\r', '\n']

/-- A line has no line breaks. -/
def IsLine (line : List Char) : Prop := ∀ c ∈ line, isLineBreak c = false

section Split

variable {line rest : List Char}

theorem splitLinesChars_cons_of_line {c : Char} (hc : isLineBreak c = false) :
    splitLinesChars (c :: rest) =
      match splitLinesChars rest with
      | [] => [[c]]
      | line :: lines => (c :: line) :: lines := by
  have hcr : c ≠ '\r' := by
    rintro rfl
    cases hc
  rw [splitLinesChars, if_neg (by simp [hc])]
  all_goals first | rfl | exact fun _ hcrlf _ => hcr hcrlf

/-- The first line of a text. -/
theorem splitLinesChars_append (ending : LineEnd) (hline : IsLine line) :
    splitLinesChars (line ++ (ending.chars ++ rest)) = line :: splitLinesChars rest := by
  induction line with
  | nil =>
      cases ending with
      | lf => rfl
      | crlf => rfl
  | cons c line ih =>
      rw [List.cons_append, splitLinesChars_cons_of_line (hline c List.mem_cons_self),
        ih fun x hx => hline x (List.mem_cons_of_mem c hx)]

/-- Lines with an end each. -/
theorem splitLinesChars_flatMap (ending : LineEnd) {lines : List (List Char)}
    (hlines : ∀ line ∈ lines, IsLine line) :
    splitLinesChars (lines.flatMap fun line => line ++ ending.chars) = lines := by
  induction lines with
  | nil => rfl
  | cons line rest ih =>
      rw [List.flatMap_cons, List.append_assoc,
        splitLinesChars_append ending (hlines line List.mem_cons_self),
        ih fun x hx => hlines x (List.mem_cons_of_mem line hx)]

theorem isLine_of_mem_splitLinesChars {text : List Char} :
    ∀ line ∈ splitLinesChars text, IsLine line := by
  have hnil : IsLine [] := nofun
  fun_induction splitLinesChars text with
  | case1 => nofun
  | case2 rest ih => exact List.forall_mem_cons.mpr ⟨hnil, ih⟩
  | case3 c rest _ _ ih => exact List.forall_mem_cons.mpr ⟨hnil, ih⟩
  | case4 c rest _ hbreak hlines ih =>
      have hc : IsLine [c] := by simpa [IsLine] using hbreak
      exact List.forall_mem_cons.mpr ⟨hc, nofun⟩
  | case5 c rest _ hbreak line lines hlines ih =>
      rw [hlines] at ih
      obtain ⟨hline, hrest⟩ := List.forall_mem_cons.mp ih
      refine List.forall_mem_cons.mpr ⟨List.forall_mem_cons.mpr ⟨?_, hline⟩, hrest⟩
      simpa using hbreak

theorem splitLinesChars_eq_nil_iff {text : List Char} : splitLinesChars text = [] ↔ text = [] := by
  constructor
  · intro hnil
    fun_induction splitLinesChars text with
    | case1 => rfl
    | case2 => cases hnil
    | case3 => cases hnil
    | case4 => cases hnil
    | case5 => cases hnil
  · rintro rfl
    rfl

/-- The first line stands at the start. -/
theorem prefix_of_splitLinesChars {text : List Char} :
    ∀ line ∈ (splitLinesChars text).head?, line <+: text := by
  fun_induction splitLinesChars text with
  | case1 => nofun
  | case2 => simp
  | case3 => simp
  | case4 c rest _ _ hlines ih => simp
  | case5 c rest _ _ line lines hlines ih =>
      rw [hlines] at ih
      intro line' hline
      obtain rfl : c :: line = line' := Option.some.inj hline
      exact List.cons_prefix_cons.mpr ⟨rfl, ih line rfl⟩

/-- More of the first line. -/
theorem splitLinesChars_line_append (hline : IsLine line) (hne : line ≠ []) :
    splitLinesChars (line ++ rest) =
      match splitLinesChars rest with
      | [] => [line]
      | first :: lines => (line ++ first) :: lines := by
  induction line with
  | nil => exact absurd rfl hne
  | cons c line ih =>
      rw [List.cons_append, splitLinesChars_cons_of_line (hline c List.mem_cons_self)]
      cases line with
      | nil => rfl
      | cons d line =>
          rw [ih (fun x hx => hline x (List.mem_cons_of_mem c hx)) (List.cons_ne_nil d line)]
          cases splitLinesChars rest <;> rfl

/-- What stands before the first break is the first line. -/
theorem head_splitLinesChars {text : List Char} (hne : text ≠ []) :
    (splitLinesChars text).head? = some (text.takeWhile fun c => !isLineBreak c) := by
  fun_induction splitLinesChars text with
  | case1 => exact absurd rfl hne
  | case2 rest => rfl
  | case3 c rest _ hbreak =>
      rw [List.takeWhile_cons_of_neg (by simp [hbreak])]
      rfl
  | case4 c rest _ hbreak hlines =>
      obtain rfl := splitLinesChars_eq_nil_iff.mp hlines
      rw [List.takeWhile_cons_of_pos (by simpa using hbreak)]
      rfl
  | case5 c rest _ hbreak line lines hlines ih =>
      have hrest : rest ≠ [] := by
        rintro rfl
        cases hlines
      have hline := ih hrest
      rw [hlines, List.head?_cons] at hline
      rw [List.takeWhile_cons_of_pos (by simpa using hbreak), List.head?_cons,
        Option.some.inj hline]

theorem mem_of_mem_splitLinesChars {text piece : List Char} {c : Char}
    (hpiece : piece ∈ splitLinesChars text) (hc : c ∈ piece) : c ∈ text := by
  fun_induction splitLinesChars text generalizing piece with
  | case1 => cases hpiece
  | case2 rest ih =>
      rcases List.mem_cons.mp hpiece with rfl | hpiece
      · cases hc
      · exact List.mem_cons_of_mem _ (List.mem_cons_of_mem _ (ih hpiece hc))
  | case3 d rest _ _ ih =>
      rcases List.mem_cons.mp hpiece with rfl | hpiece
      · cases hc
      · exact List.mem_cons_of_mem _ (ih hpiece hc)
  | case4 d rest _ _ hlines ih =>
      rw [List.mem_singleton.mp hpiece] at hc
      rw [List.mem_singleton.mp hc]
      exact List.mem_cons_self
  | case5 d rest _ _ line lines hlines ih =>
      rw [hlines] at ih
      rcases List.mem_cons.mp hpiece with rfl | hpiece
      · rcases List.mem_cons.mp hc with rfl | hc
        · exact List.mem_cons_self
        · exact List.mem_cons_of_mem _ (ih List.mem_cons_self hc)
      · exact List.mem_cons_of_mem _ (ih (List.mem_cons_of_mem _ hpiece) hc)

/-- The other lines stand behind the first break. -/
theorem mem_of_mem_tail_splitLinesChars {text piece : List Char} {c : Char}
    (hpiece : piece ∈ (splitLinesChars text).tail) (hc : c ∈ piece) :
    c ∈ text.dropWhile fun c => !isLineBreak c := by
  fun_induction splitLinesChars text with
  | case1 => cases hpiece
  | case2 rest ih =>
      have hmem := mem_of_mem_splitLinesChars hpiece hc
      exact List.mem_cons_of_mem _ (List.mem_cons_of_mem _ hmem)
  | case3 d rest _ hbreak ih =>
      rw [List.dropWhile_cons_of_neg (by simp [hbreak])]
      exact List.mem_cons_of_mem _ (mem_of_mem_splitLinesChars hpiece hc)
  | case4 d rest _ _ hlines ih => cases hpiece
  | case5 d rest _ hbreak line lines hlines ih =>
      rw [List.dropWhile_cons_of_pos (by simpa using hbreak)]
      rw [hlines] at ih
      exact ih hpiece

/-- A text behind the start of a line. -/
theorem splitLinesChars_line (hline : IsLine line) (hne : line ≠ []) :
    splitLinesChars (line ++ rest) =
      (line ++ rest.takeWhile fun c => !isLineBreak c) :: (splitLinesChars rest).tail := by
  rw [splitLinesChars_line_append hline hne]
  cases hrest : splitLinesChars rest with
  | nil =>
      obtain rfl := splitLinesChars_eq_nil_iff.mp hrest
      simp
  | cons first lines =>
      have hne' : rest ≠ [] := by
        rintro rfl
        cases hrest
      have hfirst := head_splitLinesChars hne'
      rw [hrest, List.head?_cons] at hfirst
      rw [Option.some.inj hfirst]
      rfl

/-- A line break that is not the first half of one. -/
theorem splitLinesChars_break {c : Char} (hc : isLineBreak c = true)
    (hcrlf : c = '\r' → rest.head? ≠ some '\n') :
    splitLinesChars (c :: rest) = [] :: splitLinesChars rest := by
  rw [splitLinesChars, if_pos hc]
  rintro rest' rfl rfl
  exact hcrlf rfl rfl

/-- A newline ends the line before it, or is the second half of a break, or is a line of its own. -/
theorem splitLinesChars_append_newline (text rest : List Char) :
    ∃ lines, (lines = splitLinesChars text ∨ lines = splitLinesChars text ++ [[]]) ∧ lines ≠ [] ∧
      splitLinesChars (text ++ '\n' :: rest) = lines ++ splitLinesChars rest := by
  fun_induction splitLinesChars text with
  | case1 => exact ⟨[[]], .inr rfl, nofun, rfl⟩
  | case2 text ih =>
      obtain ⟨lines, hlines, hne, hsplit⟩ := ih
      refine ⟨[] :: lines, ?_, nofun, congrArg ([] :: ·) hsplit⟩
      rcases hlines with rfl | rfl
      · exact .inl rfl
      · exact .inr rfl
  | case3 c text hcrlf hbreak ih =>
      by_cases hcr : c = '\r' ∧ text = []
      · obtain ⟨rfl, rfl⟩ := hcr
        exact ⟨[[]], .inl rfl, nofun, rfl⟩
      · obtain ⟨lines, hlines, hne, hsplit⟩ := ih
        refine ⟨[] :: lines, ?_, nofun, ?_⟩
        · rcases hlines with rfl | rfl
          · exact .inl rfl
          · exact .inr rfl
        · rw [List.cons_append, splitLinesChars_break hbreak, hsplit, List.cons_append]
          intro hc hhead
          subst hc
          cases text with
          | nil => exact hcr ⟨rfl, rfl⟩
          | cons d text =>
              obtain rfl : d = '\n' := Option.some.inj hhead
              exact hcrlf text rfl rfl
  | case4 c text hcrlf hbreak hnil ih =>
      obtain rfl := splitLinesChars_eq_nil_iff.mp hnil
      refine ⟨[[c]], .inl rfl, nofun, ?_⟩
      rw [List.cons_append, splitLinesChars_cons_of_line (by simpa using hbreak)]
      rfl
  | case5 c text hcrlf hbreak line lines hlines ih =>
      obtain ⟨more, hmore, hne, hsplit⟩ := ih
      rw [hlines] at hmore
      have hcons : splitLinesChars (c :: text ++ '\n' :: rest) =
          match splitLinesChars (text ++ '\n' :: rest) with
          | [] => [[c]]
          | line :: lines => (c :: line) :: lines :=
        splitLinesChars_cons_of_line (by simpa using hbreak)
      rw [hcons, hsplit]
      rcases hmore with rfl | rfl
      · exact ⟨(c :: line) :: lines, .inl rfl, nofun, rfl⟩
      · exact ⟨(c :: line) :: (lines ++ [[]]), .inr rfl, nofun, rfl⟩

/-- Lines of which the last is not empty. -/
theorem splitLinesChars_intercalate (ending : LineEnd) {lines : List (List Char)}
    (hlines : ∀ line ∈ lines, IsLine line) (hlast : ∀ line ∈ lines.getLast?, line ≠ []) :
    splitLinesChars (ending.chars.intercalate lines) = lines := by
  induction lines with
  | nil => rfl
  | cons line rest ih =>
      have hline := hlines line List.mem_cons_self
      cases rest with
      | nil =>
          rw [List.intercalate_singleton]
          exact splitLinesChars_single hline (hlast line rfl)
      | cons other rest =>
          rw [List.intercalate_cons_cons, List.append_assoc, splitLinesChars_append ending hline,
            ih (fun x hx => hlines x (List.mem_cons_of_mem line hx)) hlast]

end Split

/-! ## Line ends around a text -/

/-- A character of a line end. -/
def isNewline (c : Char) : Bool := c == '\r' || c == '\n'

/-- `text.strip("\r\n")`. -/
def stripNewlines (text : List Char) : List Char :=
  ((text.dropWhile isNewline).reverse.dropWhile isNewline).reverse

theorem LineEnd.isNewline (ending : LineEnd) : ∀ c ∈ ending.chars, Lib.isNewline c = true := by
  cases ending <;> decide

theorem dropWhile_append_of {α : Type*} {p : α → Bool} {ends rest : List α}
    (hends : ∀ x ∈ ends, p x = true) (hrest : ∀ x ∈ rest.head?, p x = false) :
    (ends ++ rest).dropWhile p = rest := by
  induction ends with
  | nil =>
      cases rest with
      | nil => rfl
      | cons x rest => exact List.dropWhile_cons_of_neg (by simp [hrest x rfl])
  | cons x ends ih =>
      rw [List.cons_append, List.dropWhile_cons_of_pos (hends x List.mem_cons_self)]
      exact ih fun y hy => hends y (List.mem_cons_of_mem x hy)

/-- Line ends are stripped, and what stands between them is left. -/
theorem stripNewlines_append {before text after : List Char}
    (hbefore : ∀ c ∈ before, isNewline c = true) (hafter : ∀ c ∈ after, isNewline c = true)
    (hfirst : ∀ c ∈ text.head?, isNewline c = false)
    (hlast : ∀ c ∈ text.getLast?, isNewline c = false) :
    stripNewlines (before ++ text ++ after) = text := by
  cases text with
  | nil =>
      have hall : ∀ c ∈ before ++ [] ++ after, isNewline c = true := by
        intro c hc
        rw [List.append_nil] at hc
        exact (List.mem_append.mp hc).elim (hbefore c) (hafter c)
      have hnil := List.dropWhile_eq_nil_iff.mpr hall
      rw [stripNewlines, hnil]
      rfl
  | cons c rest =>
      have hreverse : ∀ d ∈ (c :: rest).reverse.head?, isNewline d = false := by
        rw [List.head?_reverse]
        exact hlast
      have hstart : ∀ d ∈ (c :: rest ++ after).head?, isNewline d = false := hfirst
      rw [stripNewlines, List.append_assoc, dropWhile_append_of hbefore hstart, List.reverse_append,
        dropWhile_append_of (fun d hd => hafter d (List.mem_reverse.mp hd)) hreverse,
        List.reverse_reverse]

theorem isNewline_of_line {line : List Char} (hline : IsLine line) :
    ∀ c ∈ line, isNewline c = false := by
  intro c hc
  have hbreak := hline c hc
  by_contra hnewline
  rw [Bool.not_eq_false, isNewline, Bool.or_eq_true, beq_iff_eq, beq_iff_eq] at hnewline
  rcases hnewline with rfl | rfl <;> cases hbreak

theorem intercalate_append {sep : List Char} {first second : List (List Char)}
    (hfirst : first ≠ []) (hsecond : second ≠ []) :
    sep.intercalate (first ++ second) =
      sep.intercalate first ++ (sep ++ sep.intercalate second) := by
  induction first with
  | nil => exact absurd rfl hfirst
  | cons line first ih =>
      cases first with
      | nil =>
          rw [List.singleton_append, List.intercalate_cons_of_ne_nil hsecond,
            List.intercalate_singleton, List.append_assoc]
      | cons other first =>
          rw [List.cons_append, List.intercalate_cons_of_ne_nil (by simp), ih nofun,
            List.intercalate_cons_cons]
          simp only [List.append_assoc]

theorem intercalate_concat (sep : List Char) (init : List (List Char)) (last : List Char) :
    sep.intercalate (init ++ [last]) = (init.flatMap fun line => line ++ sep) ++ last := by
  induction init with
  | nil => exact List.intercalate_singleton
  | cons line rest ih =>
      rw [List.cons_append, List.intercalate_cons_of_ne_nil (by simp), ih, List.flatMap_cons]
      simp only [List.append_assoc]

/-- Lines with an end each. -/
theorem flatMap_lines (sep : List Char) {lines : List (List Char)} (hne : lines ≠ []) :
    (lines.flatMap fun line => line ++ sep) = sep.intercalate lines ++ sep := by
  obtain ⟨init, last, rfl⟩ := (List.eq_nil_or_concat lines).resolve_left hne
  rw [List.concat_eq_append, intercalate_concat, List.flatMap_append, List.flatMap_singleton,
    List.append_assoc]

/-- The lines of a text that starts and ends with a line that is not empty, with line ends around
it. -/
theorem splitLinesChars_strip (ending : LineEnd) {before after : List Char}
    {lines : List (List Char)} (hbefore : ∀ c ∈ before, isNewline c = true)
    (hafter : ∀ c ∈ after, isNewline c = true) (hlines : ∀ line ∈ lines, IsLine line)
    (hfirst : ∀ line ∈ lines.head?, line ≠ []) (hlast : ∀ line ∈ lines.getLast?, line ≠ []) :
    splitLinesChars (stripNewlines (before ++ ending.chars.intercalate lines ++ after)) =
      lines := by
  have hends : (∀ c ∈ (ending.chars.intercalate lines).head?, isNewline c = false) ∧
      ∀ c ∈ (ending.chars.intercalate lines).getLast?, isNewline c = false := by
    constructor
    · intro c hc
      cases lines with
      | nil => cases hc
      | cons line rest =>
          obtain ⟨d, more, rfl⟩ := List.exists_cons_of_ne_nil (hfirst line rfl)
          rw [List.intercalate_cons_cons_left] at hc
          obtain rfl := Option.some.inj hc
          exact isNewline_of_line (hlines _ List.mem_cons_self) _ List.mem_cons_self
    · intro c hc
      rcases List.eq_nil_or_concat lines with rfl | ⟨init, last, rfl⟩
      · cases hc
      · rw [List.concat_eq_append] at hlines hlast hc
        have hne : last ≠ [] := hlast last (by simp)
        rw [intercalate_concat, List.getLast?_append_of_ne_nil _ hne] at hc
        exact isNewline_of_line (hlines last (by simp)) c (List.mem_of_getLast? hc)
  rw [stripNewlines_append hbefore hafter hends.1 hends.2,
    splitLinesChars_intercalate ending hlines hlast]

/-! ## Markers in lines -/

/-- A marker in a text of lines is in one of the lines. -/
theorem infix_of_infix_lines {marker : List Char} (ending : LineEnd) (hne : marker ≠ [])
    (hmarker : ∀ c ∈ marker, isNewline c = false) {lines : List (List Char)}
    (hoccurs : marker <:+: lines.flatMap fun line => line ++ ending.chars) :
    ∃ line ∈ lines, marker <:+: line := by
  have hcr : '\r' ∉ marker := fun hmem => absurd (hmarker _ hmem) (by decide)
  have hlf : '\n' ∉ marker := fun hmem => absurd (hmarker _ hmem) (by decide)
  induction lines with
  | nil => exact absurd (List.infix_nil.mp hoccurs) hne
  | cons line rest ih =>
      have hrest : marker <:+: line ∨
          marker <:+: rest.flatMap fun line => line ++ ending.chars := by
        rw [List.flatMap_cons, List.append_assoc] at hoccurs
        cases ending with
        | lf => exact infix_append_cons hlf hoccurs
        | crlf =>
            rcases infix_append_cons hcr hoccurs with h | h
            · exact Or.inl h
            · rcases @infix_append_cons _ _ [] _ _ hlf h with h | h
              · exact absurd (List.infix_nil.mp h) hne
              · exact Or.inr h
      rcases hrest with h | h
      · exact ⟨line, List.mem_cons_self, h⟩
      · obtain ⟨other, hother, hin⟩ := ih h
        exact ⟨other, List.mem_cons_of_mem line hother, hin⟩

end PqcReadiness.Lib
