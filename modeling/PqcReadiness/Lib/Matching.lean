import Mathlib.Data.List.TakeWhile
import PqcReadiness.Lib.Markers
import PqcReadiness.Lib.Text

/-!
# Matching and splitting

What the derivatives of a regular expression compute: sequences and alternatives match as one
expects (`accepts_seq`, `accepts_alt`), and `search` finds the expression somewhere in the text
(`searchChars_iff`).  `startsNever` is a test for expressions that match no text with a given
first character.

The second part is about words and the separators between them.
-/

namespace PqcReadiness.Lib

theorem splitWhere_ne_nil (ends : Char → Bool) (text : List Char) : splitWhere ends text ≠ [] := by
  cases text with
  | nil => exact List.cons_ne_nil _ _
  | cons c rest =>
      rw [splitWhere]
      split
      · exact List.cons_ne_nil _ _
      · split <;> exact List.cons_ne_nil _ _

namespace Regex

variable {r first second : Regex} {s : List Char}

theorem accepts_alt : (alt first second).accepts s = (first.accepts s || second.accepts s) := by
  induction s generalizing first second with
  | nil => rfl
  | cons c rest ih =>
      rw [accepts, accepts, accepts, ← ih]
      rfl

theorem accepts_fail : fail.accepts s = false := by
  induction s with
  | nil => rfl
  | cons c rest ih => exact ih

theorem accepts_seq : (seq first second).accepts s = true ↔
    ∃ before after, s = before ++ after ∧ first.accepts before = true ∧
      second.accepts after = true := by
  induction s generalizing first with
  | nil =>
      constructor
      · intro haccepts
        exact ⟨[], [], rfl, Bool.and_eq_true_iff.mp haccepts⟩
      · rintro ⟨before, after, hsplit, hfirst, hsecond⟩
        obtain ⟨rfl, rfl⟩ := List.append_eq_nil_iff.mp hsplit.symm
        exact Bool.and_eq_true_iff.mpr ⟨hfirst, hsecond⟩
  | cons c rest ih =>
      -- Either the first part takes the character, or it is empty.
      have hstep : (seq first second).accepts (c :: rest) = true ↔
          (seq (first.deriv c) second).accepts rest = true ∨
            first.nullable = true ∧ (second.deriv c).accepts rest = true := by
        rw [accepts, deriv]
        by_cases hnullable : first.nullable = true
        · rw [if_pos hnullable, accepts_alt, Bool.or_eq_true]
          simp [hnullable]
        · rw [if_neg hnullable]
          simp [hnullable]
      rw [hstep, ih]
      constructor
      · rintro (⟨before, after, rfl, hfirst, hsecond⟩ | ⟨hnullable, hsecond⟩)
        · exact ⟨c :: before, after, rfl, hfirst, hsecond⟩
        · exact ⟨[], c :: rest, rfl, hnullable, hsecond⟩
      · rintro ⟨before, after, hsplit, hfirst, hsecond⟩
        cases before with
        | nil =>
            obtain rfl : c :: rest = after := hsplit
            exact Or.inr ⟨hfirst, hsecond⟩
        | cons b before =>
            obtain ⟨rfl, rfl⟩ := List.cons.inj hsplit
            exact Or.inl ⟨before, after, rfl, hfirst, hsecond⟩

theorem accepts_done : done.accepts s = true ↔ s = [] := by
  cases s with
  | nil => exact ⟨fun _ => rfl, fun _ => rfl⟩
  | cons c rest =>
      have hfail : done.accepts (c :: rest) = fail.accepts rest := rfl
      rw [hfail, accepts_fail]
      simp

theorem accepts_star_any (s : List Char) : (star (one fun _ => true)).accepts s = true := by
  induction s with
  | nil => rfl
  | cons c rest ih => exact accepts_seq.mpr ⟨[], rest, rfl, rfl, ih⟩

theorem accepts_one {accept : Char → Bool} :
    (one accept).accepts s = true ↔ ∃ c, s = [c] ∧ accept c = true := by
  cases s with
  | nil => simp [accepts, nullable]
  | cons c rest =>
      rw [accepts, deriv]
      split
      · next hc => simp [accepts_done, hc]
      · next hc =>
          rw [accepts_fail]
          simp only [Bool.false_eq_true, List.cons.injEq, false_iff, not_exists]
          rintro d ⟨⟨rfl, -⟩, hd⟩
          exact hc hd

theorem accepts_text {t : String} : (text t).accepts s = true ↔ s = t.toList := by
  have hchars : ∀ chars s : List Char,
      (seqs (chars.map fun c => one (· == c))).accepts s = true ↔ s = chars := by
    intro chars
    induction chars with
    | nil => exact fun s => accepts_done
    | cons c chars ih =>
        intro s
        rw [List.map_cons, seqs, accepts_seq]
        constructor
        · rintro ⟨before, after, rfl, hbefore, hafter⟩
          obtain ⟨d, rfl, hd⟩ := accepts_one.mp hbefore
          rw [(ih after).mp hafter, beq_iff_eq.mp hd]
          rfl
        · rintro rfl
          exact ⟨[c], chars, rfl, accepts_one.mpr ⟨c, rfl, beq_self_eq_true c⟩, (ih chars).mpr rfl⟩
  exact hchars t.toList s

theorem accepts_alts {rs : List Regex} :
    (alts rs).accepts s = true ↔ ∃ r ∈ rs, r.accepts s = true := by
  induction rs with
  | nil => simp [alts, accepts_fail]
  | cons r rs ih => rw [alts, accepts_alt, Bool.or_eq_true, ih, List.exists_mem_cons_iff]

/-- `re.search` on characters. -/
def searchChars (r : Regex) (s : List Char) : Bool :=
  (seq (star (one fun _ => true)) (seq r (star (one fun _ => true)))).accepts s

/-- **A search finds the expression somewhere in the text.** -/
theorem searchChars_iff : r.searchChars s = true ↔
    ∃ before found after, s = before ++ found ++ after ∧ r.accepts found = true := by
  rw [searchChars, accepts_seq]
  constructor
  · rintro ⟨before, rest, rfl, -, hrest⟩
    obtain ⟨found, after, rfl, hfound, -⟩ := accepts_seq.mp hrest
    exact ⟨before, found, after, (List.append_assoc _ _ _).symm, hfound⟩
  · rintro ⟨before, found, after, rfl, hfound⟩
    exact ⟨before, found ++ after, List.append_assoc _ _ _, accepts_star_any before,
      accepts_seq.mpr ⟨found, after, rfl, hfound, accepts_star_any after⟩⟩

/-- What is found in a part of a text is found in the text. -/
theorem searchChars_part {part : List Char} (before after : List Char)
    (hpart : r.searchChars part = true) : r.searchChars (before ++ part ++ after) = true := by
  obtain ⟨first, found, last, rfl, hfound⟩ := searchChars_iff.mp hpart
  exact searchChars_iff.mpr ⟨before ++ first, found, last ++ after, by simp, hfound⟩

/-- The expression matches nothing, and can be seen not to. -/
def dead : Regex → Bool
  | fail => true
  | seq first _ => first.dead
  | alt first second => first.dead && second.dead
  | _ => false

theorem nullable_of_dead (hdead : r.dead = true) : r.nullable = false := by
  induction r with
  | fail => rfl
  | done => cases hdead
  | one accept => cases hdead
  | seq first second ihFirst _ => exact Bool.and_eq_false_iff.mpr (Or.inl (ihFirst hdead))
  | alt first second ihFirst ihSecond =>
      obtain ⟨hfirst, hsecond⟩ := Bool.and_eq_true_iff.mp hdead
      rw [nullable, ihFirst hfirst, ihSecond hsecond]
      rfl
  | star body _ => cases hdead

theorem dead_deriv (c : Char) (hdead : r.dead = true) : (r.deriv c).dead = true := by
  induction r with
  | fail => rfl
  | done => cases hdead
  | one accept => cases hdead
  | seq first second ihFirst _ =>
      have hfirst : first.dead = true := hdead
      rw [deriv, nullable_of_dead hfirst]
      exact ihFirst hfirst
  | alt first second ihFirst ihSecond =>
      obtain ⟨hfirst, hsecond⟩ := Bool.and_eq_true_iff.mp hdead
      exact Bool.and_eq_true_iff.mpr ⟨ihFirst hfirst, ihSecond hsecond⟩
  | star body _ => cases hdead

theorem accepts_of_dead (hdead : r.dead = true) : r.accepts s = false := by
  induction s generalizing r with
  | nil => exact nullable_of_dead hdead
  | cons c rest ih => exact ih (dead_deriv c hdead)

/-- No match has this first character. -/
def startsNever (c : Char) (r : Regex) : Bool := !r.nullable && (r.deriv c).dead

/-- Such a character makes no difference in front of a text. -/
theorem searchChars_cons {c : Char} (hnever : r.startsNever c = true) :
    r.searchChars (c :: s) = r.searchChars s := by
  obtain ⟨hnullable, hdead⟩ := Bool.and_eq_true_iff.mp hnever
  rw [Bool.eq_iff_iff, searchChars_iff, searchChars_iff]
  constructor
  · rintro ⟨before, found, after, hsplit, hfound⟩
    cases before with
    | nil =>
        cases found with
        | nil =>
            rw [accepts] at hfound
            rw [hfound] at hnullable
            cases hnullable
        | cons b found =>
            obtain ⟨rfl, -⟩ := List.cons.inj hsplit
            rw [accepts, accepts_of_dead hdead] at hfound
            cases hfound
    | cons b before =>
        obtain ⟨-, rfl⟩ := List.cons.inj hsplit
        exact ⟨before, found, after, rfl, hfound⟩
  · rintro ⟨before, found, after, rfl, hfound⟩
    exact ⟨c :: before, found, after, rfl, hfound⟩

/-- No match has this character. -/
def avoids (c : Char) : Regex → Bool
  | fail => true
  | done => true
  | one accept => !accept c
  | seq first second => first.avoids c && second.avoids c
  | alt first second => first.avoids c && second.avoids c
  | star body => body.avoids c

theorem dead_deriv_of_avoids {c : Char} (havoids : r.avoids c = true) :
    (r.deriv c).dead = true := by
  induction r with
  | fail => rfl
  | done => rfl
  | one accept =>
      have haccept : accept c = false := by simpa [avoids] using havoids
      rw [deriv, haccept]
      rfl
  | seq first second ihFirst ihSecond =>
      obtain ⟨hfirst, hsecond⟩ := Bool.and_eq_true_iff.mp havoids
      rw [deriv]
      split
      · exact Bool.and_eq_true_iff.mpr ⟨ihFirst hfirst, ihSecond hsecond⟩
      · exact ihFirst hfirst
  | alt first second ihFirst ihSecond =>
      obtain ⟨hfirst, hsecond⟩ := Bool.and_eq_true_iff.mp havoids
      exact Bool.and_eq_true_iff.mpr ⟨ihFirst hfirst, ihSecond hsecond⟩
  | star body ih => exact ih havoids

theorem avoids_deriv {c : Char} (d : Char) (havoids : r.avoids c = true) :
    (r.deriv d).avoids c = true := by
  induction r with
  | fail => rfl
  | done => rfl
  | one accept =>
      rw [deriv]
      split <;> rfl
  | seq first second ihFirst ihSecond =>
      obtain ⟨hfirst, hsecond⟩ := Bool.and_eq_true_iff.mp havoids
      have hboth : (seq (first.deriv d) second).avoids c = true :=
        Bool.and_eq_true_iff.mpr ⟨ihFirst hfirst, hsecond⟩
      rw [deriv]
      split
      · exact Bool.and_eq_true_iff.mpr ⟨hboth, ihSecond hsecond⟩
      · exact hboth
  | alt first second ihFirst ihSecond =>
      obtain ⟨hfirst, hsecond⟩ := Bool.and_eq_true_iff.mp havoids
      exact Bool.and_eq_true_iff.mpr ⟨ihFirst hfirst, ihSecond hsecond⟩
  | star body ih => exact Bool.and_eq_true_iff.mpr ⟨ih havoids, havoids⟩

theorem notMem_of_accepts {c : Char} (havoids : r.avoids c = true) (haccepts : r.accepts s = true) :
    c ∉ s := by
  induction s generalizing r with
  | nil => exact List.not_mem_nil
  | cons d rest ih =>
      rw [List.mem_cons, not_or]
      refine ⟨?_, ih (avoids_deriv d havoids) haccepts⟩
      rintro rfl
      rw [accepts, accepts_of_dead (dead_deriv_of_avoids havoids)] at haccepts
      cases haccepts

/-- A search goes over such a character nowhere. -/
theorem searchChars_append_cons {c : Char} {before after : List Char}
    (havoids : r.avoids c = true) :
    r.searchChars (before ++ c :: after) = (r.searchChars before || r.searchChars after) := by
  have hoccurs : ∀ {text : List Char}, r.searchChars text = true ↔
      ∃ found, found <:+: text ∧ r.accepts found = true := by
    intro text
    rw [searchChars_iff]
    constructor
    · rintro ⟨first, found, last, rfl, hfound⟩
      exact ⟨found, ⟨first, last, rfl⟩, hfound⟩
    · rintro ⟨found, ⟨first, last, rfl⟩, hfound⟩
      exact ⟨first, found, last, rfl, hfound⟩
  rw [Bool.eq_iff_iff, Bool.or_eq_true, hoccurs, hoccurs, hoccurs]
  constructor
  · rintro ⟨found, hin, hfound⟩
    exact (infix_append_cons (notMem_of_accepts havoids hfound) hin).imp
      (fun h => ⟨found, h, hfound⟩) fun h => ⟨found, h, hfound⟩
  · rintro (⟨found, hin, hfound⟩ | ⟨found, hin, hfound⟩)
    · exact ⟨found, hin.trans (List.prefix_append _ _).isInfix, hfound⟩
    · exact ⟨found, hin.trans ⟨before ++ [c], [], by simp⟩, hfound⟩

/-- The expression matches some text, and no text with one of these characters. -/
structure Ignores (r : Regex) (p : Char → Bool) : Prop where
  nullable : r.nullable = false
  avoids : ∀ c, p c = true → r.avoids c = true

section Ignores

variable {p : Char → Bool}

theorem searchChars_nil : r.searchChars [] = r.nullable := by
  rw [searchChars, accepts, Regex.nullable, Regex.nullable, Regex.nullable]
  simp

theorem Ignores.dropWhile (hignores : r.Ignores p) (text : List Char) :
    r.searchChars (text.dropWhile p) = r.searchChars text := by
  induction text with
  | nil => rfl
  | cons c rest ih =>
      rw [List.dropWhile_cons]
      split
      · next hc =>
          have hwhole := @searchChars_append_cons r c [] rest (hignores.avoids c hc)
          rw [searchChars_nil, hignores.nullable, Bool.false_or] at hwhole
          rw [ih]
          exact hwhole.symm
      · rfl

theorem Ignores.rdropWhile (hignores : r.Ignores p) (text : List Char) :
    r.searchChars (text.reverse.dropWhile p).reverse = r.searchChars text := by
  induction text using List.reverseRecOn with
  | nil => rfl
  | append_singleton rest c ih =>
      rw [List.reverse_append, List.reverse_singleton, List.singleton_append, List.dropWhile_cons]
      split
      · next hc =>
          rw [ih, searchChars_append_cons (hignores.avoids c hc), searchChars_nil,
            hignores.nullable, Bool.or_false]
      · rw [List.reverse_cons, List.reverse_reverse]

theorem Ignores.stripChars (hignores : r.Ignores isSpace) (text : List Char) :
    r.searchChars (Lib.stripChars text) = r.searchChars text := by
  rw [Lib.stripChars, hignores.rdropWhile, hignores.dropWhile]

/-- A search finds the expression in one of the words. -/
theorem Ignores.splitWhere (hignores : r.Ignores p) (text : List Char) :
    r.searchChars text = true ↔ ∃ word ∈ Lib.splitWhere p text, r.searchChars word = true := by
  have hsplit : ∀ word : List Char, r.searchChars (word ++ text) = true ↔
      ∃ found ∈ (Lib.splitWhere p text).modifyHead (word ++ ·), r.searchChars found = true := by
    induction text with
    | nil => intro word; simp [Lib.splitWhere]
    | cons c rest ih =>
        intro word
        rw [Lib.splitWhere]
        split
        · next hc =>
            have hrest := ih []
            simp only [List.nil_append] at hrest
            rw [searchChars_append_cons (hignores.avoids c hc), Bool.or_eq_true, hrest]
            cases hwords : Lib.splitWhere p rest <;> simp
        · have hrest := ih (word ++ [c])
          rw [List.append_assoc, List.singleton_append] at hrest
          obtain ⟨first, more, hwords⟩ := List.exists_cons_of_ne_nil (splitWhere_ne_nil p rest)
          rw [hrest, hwords]
          simp
  have hnone := hsplit []
  rw [List.nil_append] at hnone
  rw [hnone]
  cases Lib.splitWhere p text <;> simp

end Ignores

end Regex

/-! ## Words -/

section Words

variable {ends : Char → Bool} {word rest : List Char}

theorem splitWhere_word (hword : ∀ c ∈ word, ends c = false) : splitWhere ends word = [word] := by
  induction word with
  | nil => rfl
  | cons c word ih =>
      have hc := hword c List.mem_cons_self
      rw [splitWhere, ih fun other hother => hword other (List.mem_cons_of_mem c hother), hc]
      rfl

theorem splitWhere_append {c : Char} (hword : ∀ c ∈ word, ends c = false) (hc : ends c = true) :
    splitWhere ends (word ++ c :: rest) = word :: splitWhere ends rest := by
  induction word with
  | nil => rw [List.nil_append, splitWhere, if_pos hc]
  | cons b word ih =>
      have hb := hword b List.mem_cons_self
      rw [List.cons_append, splitWhere,
        ih fun other hother => hword other (List.mem_cons_of_mem b hother), hb]
      rfl

/-- The characters of the words are those of the text that end no word. -/
theorem mem_splitWhere_iff {text : List Char} {c : Char} :
    (∃ word ∈ splitWhere ends text, c ∈ word) ↔ c ∈ text ∧ ends c = false := by
  induction text with
  | nil => simp [splitWhere]
  | cons d rest ih =>
      obtain ⟨first, more, hwords⟩ := List.exists_cons_of_ne_nil (splitWhere_ne_nil ends rest)
      rw [hwords] at ih
      rw [splitWhere, hwords]
      simp only [List.mem_cons, exists_eq_or_imp] at ih ⊢
      by_cases hd : ends d = true
      · rw [if_pos hd]
        simp only [List.mem_cons, exists_eq_or_imp, List.not_mem_nil, false_or, ih]
        constructor
        · rintro ⟨hmem, hc⟩
          exact ⟨Or.inr hmem, hc⟩
        · rintro ⟨rfl | hmem, hc⟩
          · rw [hd] at hc
            cases hc
          · exact ⟨hmem, hc⟩
      · rw [if_neg hd]
        simp only [List.mem_cons, exists_eq_or_imp, or_assoc, ih]
        constructor
        · rintro (rfl | ⟨hmem, hc⟩)
          · exact ⟨Or.inl rfl, Bool.not_eq_true _ ▸ hd⟩
          · exact ⟨Or.inr hmem, hc⟩
        · rintro ⟨rfl | hmem, hc⟩
          · exact Or.inl rfl
          · exact Or.inr ⟨hmem, hc⟩

/-- A text without words. -/
theorem filter_splitWhere_eq_nil_iff {text : List Char} :
    (splitWhere ends text).filter (· ≠ []) = [] ↔ ∀ c ∈ text, ends c = true := by
  rw [List.filter_eq_nil_iff]
  constructor
  · intro hnone c hc
    by_contra hword
    obtain ⟨word, hmem, hin⟩ := mem_splitWhere_iff.mpr ⟨hc, Bool.not_eq_true _ ▸ hword⟩
    exact hnone word hmem (by simpa using List.ne_nil_of_mem hin)
  · intro hall word hword
    cases word with
    | nil => simp
    | cons c word =>
        obtain ⟨hmem, hends⟩ := mem_splitWhere_iff.mp ⟨_, hword, List.mem_cons_self⟩
        rw [hall c hmem] at hends
        cases hends

theorem words_eq_nil_iff {text : String} :
    words text = [] ↔ ∀ c ∈ text.toList, isSpace c = true := by
  rw [words, List.map_eq_nil_iff, filter_splitWhere_eq_nil_iff]

theorem stripChars_eq_nil_iff {text : List Char} :
    stripChars text = [] ↔ ∀ c ∈ text, isSpace c = true := by
  rw [stripChars, List.reverse_eq_nil_iff]
  constructor
  · intro hnil
    have hdrop : ∀ c ∈ text.dropWhile isSpace, isSpace c = true :=
      fun c hc => List.dropWhile_eq_nil_iff.mp hnil c (List.mem_reverse.mpr hc)
    by_contra hall
    have hne : text.dropWhile isSpace ≠ [] := fun h => hall (List.dropWhile_eq_nil_iff.mp h)
    have hhead := List.head_dropWhile_not isSpace hne
    rw [hdrop _ (List.head_mem hne)] at hhead
    cases hhead
  · intro hall
    rw [List.dropWhile_eq_nil_iff.mpr hall]
    rfl

/-- A text that has been stripped does not begin with white space. -/
theorem isSpace_of_stripChars {text rest : List Char} {c : Char}
    (hstrip : stripChars text = c :: rest) : isSpace c = false := by
  have hback : ∃ more, text.dropWhile isSpace = c :: more := by
    have happend : stripChars text ++
        ((text.dropWhile isSpace).reverse.takeWhile isSpace).reverse = text.dropWhile isSpace := by
      rw [stripChars, ← List.reverse_append, List.takeWhile_append_dropWhile, List.reverse_reverse]
    rw [hstrip] at happend
    exact ⟨_, happend.symm⟩
  obtain ⟨more, hmore⟩ := hback
  have hne : text.dropWhile isSpace ≠ [] := hmore ▸ List.cons_ne_nil _ _
  have hhead := List.head_dropWhile_not isSpace hne
  simpa only [hmore, List.head_cons] using hhead

/-- A text between white space. -/
theorem eq_stripChars (text : List Char) : ∃ left right, text = left ++ stripChars text ++ right ∧
    (∀ c ∈ left, isSpace c = true) ∧ ∀ c ∈ right, isSpace c = true := by
  refine ⟨text.takeWhile isSpace,
    ((text.dropWhile isSpace).reverse.takeWhile isSpace).reverse, ?_, ?_, ?_⟩
  · have hright : stripChars text ++ ((text.dropWhile isSpace).reverse.takeWhile isSpace).reverse =
        text.dropWhile isSpace := by
      rw [stripChars, ← List.reverse_append, List.takeWhile_append_dropWhile, List.reverse_reverse]
    rw [List.append_assoc, hright, List.takeWhile_append_dropWhile]
  · exact fun c hc => List.mem_takeWhile_imp hc
  · exact fun c hc => List.mem_takeWhile_imp (List.mem_reverse.mp hc)

theorem stripChars_append_space {text blank : List Char} (hblank : ∀ c ∈ blank, isSpace c = true) :
    stripChars (text ++ blank) = stripChars text := by
  have hdrop : ∀ front : List Char, ((front ++ blank).reverse.dropWhile isSpace) =
      front.reverse.dropWhile isSpace := by
    intro front
    have hall : blank.reverse.dropWhile isSpace = [] :=
      List.dropWhile_eq_nil_iff.mpr fun c hc => hblank c (List.mem_reverse.mp hc)
    rw [List.reverse_append, List.dropWhile_append, hall]
    rfl
  rw [stripChars, stripChars, List.dropWhile_append]
  split
  · next hnil =>
      rw [List.isEmpty_iff.mp hnil, List.dropWhile_eq_nil_iff.mpr hblank]
  · rw [hdrop]

/-- What is stripped is white space. -/
theorem filter_stripChars (text : List Char) :
    (stripChars text).filter (fun c => !isSpace c) = text.filter fun c => !isSpace c := by
  obtain ⟨left, right, heq, hleft, hright⟩ := eq_stripChars text
  have hnil : ∀ blank : List Char, (∀ c ∈ blank, isSpace c = true) →
      blank.filter (fun c => !isSpace c) = [] := fun blank hblank =>
    List.filter_eq_nil_iff.mpr fun c hc => by simp [hblank c hc]
  conv_rhs => rw [heq]
  rw [List.filter_append, List.filter_append, hnil left hleft, hnil right hright, List.nil_append,
    List.append_nil]

/-- Nothing is stripped from a text without whitespace at its ends. -/
theorem stripChars_of_noSpace (hword : ∀ c ∈ word, isSpace c = false) : stripChars word = word := by
  have hdrop : ∀ text : List Char, (∀ c ∈ text, isSpace c = false) →
      text.dropWhile isSpace = text := by
    intro text htext
    cases text with
    | nil => rfl
    | cons c rest => rw [List.dropWhile_cons, htext c List.mem_cons_self]; rfl
  rw [stripChars, hdrop word hword, hdrop word.reverse fun c hc => hword c (List.mem_reverse.mp hc),
    List.reverse_reverse]

theorem isSpace_of_isLineBreak {c : Char} (hc : isLineBreak c = true) : isSpace c = true := by
  simp only [isLineBreak, isSpace, Bool.or_eq_true, Bool.and_eq_true, decide_eq_true_eq,
    beq_iff_eq] at hc ⊢
  omega

/-- A text without line breaks is one line. -/
theorem splitLinesChars_single (hword : ∀ c ∈ word, isLineBreak c = false) (hne : word ≠ []) :
    splitLinesChars word = [word] := by
  induction word with
  | nil => exact absurd rfl hne
  | cons c word ih =>
      have hc := hword c List.mem_cons_self
      have hcr : c ≠ '\r' := by
        rintro rfl
        cases hc
      rw [splitLinesChars.eq_def]
      split
      · next heq => cases heq
      · next heq => exact absurd (List.cons.inj heq).1 hcr
      · next other rest heq =>
          obtain ⟨rfl, rfl⟩ := List.cons.inj heq
          rw [if_neg (by rw [hc]; exact Bool.false_ne_true)]
          cases word with
          | nil => rfl
          | cons b word =>
              rw [ih (fun other hother => hword other (List.mem_cons_of_mem c hother))
                (List.cons_ne_nil b word)]

end Words

end PqcReadiness.Lib
