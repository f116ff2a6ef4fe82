import Mathlib.Data.List.Infix

/-!
# Text between markers

`cut marker text` is what stands before and behind the first occurrence of a marker; a text has
none exactly if the marker is no infix of it (`cut_eq_none_iff`).  A marker is found where it
stands if the text before it has none and does not end inside one (`cut_append`).
-/

namespace PqcReadiness.Lib

variable {α : Type*} [DecidableEq α]

/-- What stands before and behind the first occurrence. -/
def cut (marker : List α) : List α → Option (List α × List α)
  | [] => if marker = [] then some ([], []) else none
  | x :: rest =>
      if marker.isPrefixOf (x :: rest) then some ([], (x :: rest).drop marker.length)
      else (cut marker rest).map fun parts => (x :: parts.1, parts.2)

variable {marker text before after : List α}

theorem cut_eq_none_iff : cut marker text = none ↔ ¬ marker <:+: text := by
  induction text with
  | nil =>
      rw [cut, List.infix_nil]
      split <;> simp_all
  | cons x rest ih =>
      rw [cut, List.infix_cons_iff, not_or]
      split
      · next hstarts => simp [List.isPrefixOf_iff_prefix.mp hstarts]
      · next hstarts =>
          rw [Option.map_eq_none_iff, ih]
          simp [show ¬ marker <+: x :: rest from fun h => hstarts (List.isPrefixOf_iff_prefix.mpr h)]

theorem eq_of_cut (hcut : cut marker text = some (before, after)) :
    text = before ++ (marker ++ after) := by
  induction text generalizing before with
  | nil =>
      rw [cut] at hcut
      split at hcut
      · next hempty =>
          obtain ⟨rfl, rfl⟩ := Prod.mk.inj (Option.some.inj hcut)
          rw [hempty]
          rfl
      · cases hcut
  | cons x rest ih =>
      rw [cut] at hcut
      split at hcut
      · next hstarts =>
          obtain ⟨rfl, rfl⟩ := Prod.mk.inj (Option.some.inj hcut)
          obtain ⟨tail, htail⟩ := List.isPrefixOf_iff_prefix.mp hstarts
          rw [← htail, List.drop_left, List.nil_append]
      · obtain ⟨⟨first, second⟩, hrest, hparts⟩ := Option.map_eq_some_iff.mp hcut
        obtain ⟨rfl, rfl⟩ := Prod.mk.inj hparts
        rw [ih hrest]
        rfl

/-- What stands behind the marker is shorter than the text. -/
theorem length_of_cut (hmarker : marker ≠ []) (hcut : cut marker text = some (before, after)) :
    after.length < text.length := by
  have hpositive := List.length_pos_iff.mpr hmarker
  rw [eq_of_cut hcut, List.length_append, List.length_append]
  omega

/-- The marker is found where it stands. -/
theorem cut_append (after : List α) (hmarker : marker ≠ []) (hbefore : ¬ marker <:+: before)
    (hlast : ∀ x ∈ before.getLast?, x ∉ marker) :
    cut marker (before ++ (marker ++ after)) = some (before, after) := by
  induction before with
  | nil =>
      obtain ⟨x, rest, rfl⟩ := List.exists_cons_of_ne_nil hmarker
      have hstarts : (x :: rest).isPrefixOf (x :: rest ++ after) = true :=
        List.isPrefixOf_iff_prefix.mpr (List.prefix_append _ _)
      rw [List.nil_append, List.cons_append, cut, ← List.cons_append, if_pos hstarts, List.drop_left]
  | cons x rest ih =>
      have hnot : ¬ marker.isPrefixOf (x :: (rest ++ (marker ++ after))) = true := by
        intro hstarts
        have hstarts := List.isPrefixOf_iff_prefix.mp hstarts
        rw [← List.cons_append] at hstarts
        -- The marker ends inside the text before it, or the text before it ends inside the marker.
        rcases List.prefix_or_prefix_of_prefix hstarts (List.prefix_append (x :: rest) _) with h | h
        · exact hbefore h.isInfix
        · have hmem : (x :: rest).getLast (List.cons_ne_nil x rest) ∈ marker :=
            h.subset (List.getLast_mem _)
          exact hlast _ (List.getLast?_eq_some_getLast _) hmem
      have hrest : ¬ marker <:+: rest := fun h => hbefore (List.infix_cons h)
      have hlastRest : ∀ y ∈ rest.getLast?, y ∉ marker := by
        intro y hy
        refine hlast y ?_
        cases rest with
        | nil => cases hy
        | cons other rest => rwa [List.getLast?_cons_cons]
      rw [List.cons_append, cut, if_neg hnot, ih hrest hlastRest]
      rfl

/-- What was found is found with more behind it. -/
theorem cut_append_of_some (rest : List α) (hcut : cut marker text = some (before, after)) :
    cut marker (text ++ rest) = some (before, after ++ rest) := by
  induction text generalizing before with
  | nil =>
      rw [cut] at hcut
      split at hcut
      · next hempty =>
          obtain ⟨rfl, rfl⟩ := Prod.mk.inj (Option.some.inj hcut)
          rw [hempty]
          cases rest <;> simp [cut]
      · cases hcut
  | cons x text ih =>
      rw [cut] at hcut
      rw [List.cons_append, cut]
      split at hcut
      · next hstarts =>
          obtain ⟨rfl, rfl⟩ := Prod.mk.inj (Option.some.inj hcut)
          have hstart := List.isPrefixOf_iff_prefix.mp hstarts
          have hstarts' : marker.isPrefixOf (x :: (text ++ rest)) = true :=
            List.isPrefixOf_iff_prefix.mpr (hstart.trans (List.prefix_append (x :: text) rest))
          rw [if_pos hstarts', ← List.cons_append, List.drop_append_of_le_length hstart.length_le]
      · next hstarts =>
          obtain ⟨⟨first, second⟩, hrest, hparts⟩ := Option.map_eq_some_iff.mp hcut
          obtain ⟨rfl, rfl⟩ := Prod.mk.inj hparts
          have hlength : marker.length ≤ (x :: text).length := by
            rw [eq_of_cut hrest]
            simp only [List.length_cons, List.length_append]
            omega
          rw [if_neg ?_, ih hrest]
          · rfl
          · intro hstarts'
            have hstart := List.isPrefixOf_iff_prefix.mp hstarts'
            rw [← List.cons_append] at hstart
            exact hstarts (List.isPrefixOf_iff_prefix.mpr
              (List.prefix_of_prefix_length_le hstart (List.prefix_append _ _) hlength))

/-- A text without one of its characters does not have the marker. -/
theorem not_infix_of_notMem {β : Type*} {marker text : List β} {x : β} (hx : x ∈ marker)
    (htext : x ∉ text) : ¬ marker <:+: text :=
  fun hoccurs => htext (hoccurs.subset hx)

/-- A marker does not reach over a character that it does not have. -/
theorem infix_append_cons {β : Type*} {marker first second : List β} {c : β}
    (hc : c ∉ marker) (hoccurs : marker <:+: first ++ c :: second) :
    marker <:+: first ∨ marker <:+: second := by
  induction first with
  | nil =>
      rcases List.infix_cons_iff.mp hoccurs with hstarts | hrest
      · cases marker with
        | nil => exact Or.inl List.nil_infix
        | cons x marker =>
            obtain ⟨rfl, _⟩ := List.cons_prefix_cons.mp hstarts
            exact absurd List.mem_cons_self hc
      · exact Or.inr hrest
  | cons d first ih =>
      rw [List.cons_append] at hoccurs
      rcases List.infix_cons_iff.mp hoccurs with hstarts | hrest
      · have hwhole : d :: (first ++ c :: second) = (d :: first ++ [c]) ++ second := by simp
        rw [hwhole] at hstarts
        rcases List.prefix_or_prefix_of_prefix hstarts (List.prefix_append _ second) with h | h
        · rcases List.prefix_concat_iff.mp h with heq | h
          · exact absurd (heq ▸ List.mem_append_right _ (List.mem_singleton.mpr rfl)) hc
          · exact Or.inl h.isInfix
        · exact absurd (h.subset (List.mem_append_right _ (List.mem_singleton.mpr rfl))) hc
      · rcases ih hrest with h | h
        · exact Or.inl (List.infix_cons h)
        · exact Or.inr h

end PqcReadiness.Lib
