import Mathlib.Order.WellFounded
import Mathlib.Data.Finset.Range
import Mathlib.Data.Finset.Card

/-!
# Loops

A `Loop` is the body of a `while` loop together with the reason it ends: `turn`
either continues in a new state or leaves with a result, and every state it
continues in is below the one it came from.  `Loop.result` is what the loop leaves
with.  `Loop.runFor` runs the body a bounded number of times and computes on
closed inputs; the two agree (`result_eq_of_runFor`), and some bound is always
enough (`exists_runFor`).

`Loop.induct` is the rule for a property of states: it may be assumed of the next
state, if there is one.  `Loop.result_keeps` is the rule for an invariant of the states.

`forEach` is a `for` loop whose body may end it.  `forEach_keeps` is the rule for an
invariant of the state, `forEach_related` the rule for two loops over one list that run
side by side until their states part for good.
-/

namespace PqcReadiness.Lib

variable {σ ρ : Type*}

/-- The body of a loop that ends. -/
structure Loop (σ ρ : Type*) where
  turn : σ → σ ⊕ ρ
  below : σ → σ → Prop
  wellFounded : WellFounded below
  decreases : ∀ {state next : σ}, turn state = .inl next → below next state

namespace Loop

/-- What the loop leaves with. -/
def result (loop : Loop σ ρ) (state : σ) : ρ :=
  match _hturn : loop.turn state with
  | .inl next => loop.result next
  | .inr answer => answer
termination_by loop.wellFounded.wrap state
decreasing_by exact loop.decreases _hturn

/-- At most `turns` turns of the loop. -/
def runFor (loop : Loop σ ρ) : ℕ → σ → Option ρ
  | 0, _ => none
  | turns + 1, state =>
      match loop.turn state with
      | .inl next => loop.runFor turns next
      | .inr answer => some answer

variable (loop : Loop σ ρ)

theorem result_of_continues {loop : Loop σ ρ} {state next : σ}
    (hturn : loop.turn state = .inl next) : loop.result state = loop.result next := by
  rw [result]
  split
  · next other hother =>
      rw [hturn] at hother
      cases hother
      rfl
  · next answer hanswer =>
      rw [hturn] at hanswer
      cases hanswer

theorem result_of_leaves {loop : Loop σ ρ} {state : σ} {answer : ρ}
    (hturn : loop.turn state = .inr answer) : loop.result state = answer := by
  rw [result]
  split
  · next other hother =>
      rw [hturn] at hother
      cases hother
  · next other hother =>
      rw [hturn] at hother
      cases hother
      rfl

/-- Induction over the turns of the loop. -/
theorem induct {motive : σ → Prop}
    (hstep : ∀ state, (∀ next, loop.turn state = .inl next → motive next) → motive state)
    (state : σ) : motive state :=
  loop.wellFounded.induction state fun state ih =>
    hstep state fun next hturn => ih next (loop.decreases hturn)

/-- What every turn keeps, and what leaving makes of it, holds of the result. -/
theorem result_keeps {loop : Loop σ ρ} (inv : σ → Prop) (post : ρ → Prop)
    (hturn : ∀ state next, loop.turn state = .inl next → inv state → inv next)
    (hleave : ∀ state answer, loop.turn state = .inr answer → inv state → post answer)
    {state : σ} (hstate : inv state) : post (loop.result state) := by
  induction state using loop.induct with
  | hstep state ih =>
      cases hnext : loop.turn state with
      | inl next =>
          rw [result_of_continues hnext]
          exact ih next hnext (hturn state next hnext hstate)
      | inr answer =>
          rw [result_of_leaves hnext]
          exact hleave state answer hnext hstate

/-- The loop ends. -/
theorem exists_runFor (state : σ) : ∃ turns, loop.runFor turns state = some (loop.result state) := by
  induction state using loop.induct with
  | hstep state ih =>
      cases hturn : loop.turn state with
      | inl next =>
          obtain ⟨turns, hrun⟩ := ih next hturn
          exact ⟨turns + 1, by rw [runFor, hturn, result_of_continues hturn]; exact hrun⟩
      | inr answer => exact ⟨1, by rw [runFor, hturn, result_of_leaves hturn]⟩

/-- A bounded run that gets through has the loop's result. -/
theorem result_eq_of_runFor {turns : ℕ} {state : σ} {answer : ρ}
    (hrun : loop.runFor turns state = some answer) : loop.result state = answer := by
  induction turns generalizing state with
  | zero => cases hrun
  | succ turns ih =>
      rw [runFor] at hrun
      cases hturn : loop.turn state with
      | inl next =>
          rw [hturn] at hrun
          rw [result_of_continues hturn]
          exact ih hrun
      | inr other =>
          rw [hturn] at hrun
          rw [result_of_leaves hturn]
          exact Option.some.inj hrun

end Loop

/-! ## Loops that mark what they have seen -/

/-- How many numbers below a bound are not yet seen. -/
def unseen (bound : ℕ) (seen : List ℕ) : ℕ := (Finset.range bound \ seen.toFinset).card

/-- A loop that refuses to see a number twice ends. -/
theorem unseen_append_lt {bound x : ℕ} {seen : List ℕ} (hbound : x < bound) (hnew : x ∉ seen) :
    unseen bound (seen ++ [x]) < unseen bound seen := by
  apply Finset.card_lt_card
  refine ⟨?_, ?_⟩
  · intro y hy
    simp only [Finset.mem_sdiff, List.mem_toFinset, List.mem_append] at hy ⊢
    exact ⟨hy.1, fun hseen => hy.2 (Or.inl hseen)⟩
  · intro hsub
    have hx : x ∈ Finset.range bound \ (seen ++ [x]).toFinset :=
      hsub (by simp [hbound, hnew])
    simp at hx

/-! ## Loops over a list -/

section ForEach

variable {α : Type*}

/-- `for x in xs:` with a body that says whether the loop goes on. -/
def forEach (body : α → σ → σ × Bool) : List α → σ → σ × Bool
  | [], state => (state, true)
  | x :: rest, state =>
      let next := body x state
      if next.2 then forEach body rest next.1 else next

@[simp] theorem forEach_nil (body : α → σ → σ × Bool) (state : σ) :
    forEach body [] state = (state, true) := rfl

theorem forEach_cons (body : α → σ → σ × Bool) (x : α) (rest : List α) (state : σ) :
    forEach body (x :: rest) state =
      if (body x state).2 then forEach body rest (body x state).1 else body x state := rfl

/-- What every turn keeps, the loop keeps. -/
theorem forEach_keeps {body : α → σ → σ × Bool} (inv : σ → Prop)
    (hbody : ∀ x state, inv state → inv (body x state).1) (xs : List α) {state : σ}
    (hstate : inv state) : inv (forEach body xs state).1 := by
  induction xs generalizing state with
  | nil => exact hstate
  | cons x rest ih =>
      rw [forEach_cons]
      split
      · exact ih (hbody x state hstate)
      · exact hbody x state hstate

/-- Two loops over one list.  From related states, a turn leads to related states and both
go on or both end, unless the states part; parted states stay parted. -/
theorem forEach_related {τ : Type*} {body : α → σ → σ × Bool} {other : α → τ → τ × Bool}
    {related : σ → τ → Prop} {parted : σ → τ → Prop}
    (hturn : ∀ x state twin, related state twin →
      (related (body x state).1 (other x twin).1 ∧ (body x state).2 = (other x twin).2) ∨
        parted (body x state).1 (other x twin).1)
    (hleft : ∀ x state twin, parted state twin → parted (body x state).1 twin)
    (hright : ∀ x state twin, parted state twin → parted state (other x twin).1)
    (xs : List α) {state : σ} {twin : τ} (hstate : related state twin) :
    (related (forEach body xs state).1 (forEach other xs twin).1 ∧
        (forEach body xs state).2 = (forEach other xs twin).2) ∨
      parted (forEach body xs state).1 (forEach other xs twin).1 := by
  induction xs generalizing state twin with
  | nil => exact Or.inl ⟨hstate, rfl⟩
  | cons x rest ih =>
      rw [forEach_cons, forEach_cons]
      rcases hturn x state twin hstate with ⟨hrelated, hflag⟩ | hparted
      · by_cases hgo : (body x state).2
        · rw [if_pos hgo, if_pos (hflag ▸ hgo)]
          exact ih hrelated
        · rw [if_neg hgo, if_neg (hflag ▸ hgo)]
          exact Or.inl ⟨hrelated, hflag⟩
      · -- Whatever either loop still does, the states stay parted.
        refine Or.inr ?_
        have hbody : parted
            (if (body x state).2 then forEach body rest (body x state).1 else body x state).1
            (other x twin).1 := by
          split
          · exact forEach_keeps (fun current => parted current (other x twin).1)
              (fun y current => hleft y current _) rest hparted
          · exact hparted
        generalize (if (body x state).2 then forEach body rest (body x state).1
          else body x state).1 = left at hbody ⊢
        split
        · exact forEach_keeps (parted left) (fun y current => hright y left current) rest hbody
        · exact hbody

end ForEach

end PqcReadiness.Lib
