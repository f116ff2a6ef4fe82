import Mathlib.Data.List.Basic

/-!
# Latches

A latch is a bit that some elements of a list set and others reset, in the order of the list.  It
is on in the end exactly if an element sets it and no later one resets it (`latch_iff`), and a
latch that is reset more often is on less often (`latch_mono`).
-/

namespace PqcReadiness.Lib

variable {α : Type*}

/-- The bit after an element. -/
def latchTurn (sets resets : α → Bool) (on : Bool) (x : α) : Bool := sets x || (on && !resets x)

/-- The bit after a list. -/
def latch (sets resets : α → Bool) (on : Bool) (xs : List α) : Bool :=
  xs.foldl (latchTurn sets resets) on

section Latch

variable {sets resets : α → Bool} {on : Bool} {xs : List α}

theorem latch_cons (x : α) (xs : List α) :
    latch sets resets on (x :: xs) = latch sets resets (latchTurn sets resets on x) xs := rfl

/-- On in the end: on from the beginning or set, and not reset after that. -/
theorem latch_iff_or : latch sets resets on xs = true ↔
    (on = true ∧ ∀ x ∈ xs, resets x = false) ∨
      ∃ before x after, xs = before ++ x :: after ∧ sets x = true ∧
        ∀ y ∈ after, resets y = false := by
  induction xs generalizing on with
  | nil => simp [latch]
  | cons x rest ih =>
      have hturn : latchTurn sets resets on x = true ↔
          sets x = true ∨ on = true ∧ resets x = false := by
        simp [latchTurn]
      rw [latch_cons, ih, hturn]
      constructor
      · rintro (⟨hset | ⟨hon, hx⟩, hrest⟩ | ⟨before, y, after, rfl, hset, hafter⟩)
        · exact Or.inr ⟨[], x, rest, rfl, hset, hrest⟩
        · exact Or.inl ⟨hon, List.forall_mem_cons.mpr ⟨hx, hrest⟩⟩
        · exact Or.inr ⟨x :: before, y, after, rfl, hset, hafter⟩
      · rintro (⟨hon, hall⟩ | ⟨before, y, after, hsplit, hset, hafter⟩)
        · obtain ⟨hx, hrest⟩ := List.forall_mem_cons.mp hall
          exact Or.inl ⟨Or.inr ⟨hon, hx⟩, hrest⟩
        · cases before with
          | nil =>
              obtain ⟨rfl, rfl⟩ := List.cons.inj hsplit
              exact Or.inl ⟨Or.inl hset, hafter⟩
          | cons z before =>
              obtain ⟨-, rfl⟩ := List.cons.inj hsplit
              exact Or.inr ⟨before, y, after, rfl, hset, hafter⟩

/-- **A latch that starts off is on if an element sets it that no later one resets.** -/
theorem latch_iff : latch sets resets false xs = true ↔
    ∃ before x after, xs = before ++ x :: after ∧ sets x = true ∧ ∀ y ∈ after, resets y = false := by
  rw [latch_iff_or]
  simp

theorem latch_mono {more : α → Bool} (hmore : ∀ x, resets x = true → more x = true)
    (hlatch : latch sets more false xs = true) : latch sets resets false xs = true := by
  obtain ⟨before, x, after, hsplit, hset, hafter⟩ := latch_iff.mp hlatch
  refine latch_iff.mpr ⟨before, x, after, hsplit, hset, fun y hy => ?_⟩
  by_contra hreset
  rw [Bool.not_eq_false] at hreset
  have hfalse := hafter y hy
  rw [hmore y hreset] at hfalse
  cases hfalse

end Latch

end PqcReadiness.Lib
