import Mathlib.Data.Nat.Init
import PqcReadiness.Lib.Generator

/-!
# A program and its lenient counterpart

A program converts things (text, numbers) and raises where one does not convert.  Its lenient
counterpart goes on there in another way, and logs every conversion that it comes to.

`Follows` compares the two: they are the same as long as everything converts, and at the first
conversion that fails, the program stops.  The relation goes through `do` blocks and loops, so
that each function of a program needs one lemma, and in the end it says exactly when the
program gets through (`Follows.failsOnly_iff`, `Follows.returns_iff`).
-/

namespace PqcReadiness.Lib

variable {ε α ρ τ σ : Type}

/-- A run goes like the lenient one, as long as everything converts.  `Permitted` are the faults
that both can end with, `Stop` those of a conversion that fails. -/
structure Follows (Converts : α → Prop) (Permitted Stop : ε → Prop) (run model : Gen ε α ρ) :
    Prop where
  failures : FailsOnly Permitted model.ended
  same : (∀ conversion ∈ model.log, Converts conversion) → run = model
  stops : (∃ conversion ∈ model.log, ¬ Converts conversion) →
    ∃ fault, run.ended = .error fault ∧ Stop fault

namespace Follows

variable {Converts : α → Prop} {Permitted Stop : ε → Prop}

/-- A statement that converts nothing. -/
theorem lift {x : Except ε ρ} (hx : FailsOnly Permitted x) :
    Follows Converts Permitted Stop (liftM x : Gen ε α ρ) (liftM x) := by
  refine ⟨hx, fun _ => rfl, ?_⟩
  intro ⟨conversion, hmem, _⟩
  cases hmem

theorem pure (value : ρ) :
    Follows Converts Permitted Stop (Pure.pure value : Gen ε α ρ) (Pure.pure value) :=
  lift (x := .ok value) (FailsOnly.ok value)

theorem bind {run model : Gen ε α ρ} {f g : ρ → Gen ε α τ}
    (hfirst : Follows Converts Permitted Stop run model)
    (hnext : ∀ value, model.ended = .ok value →
      Follows Converts Permitted Stop (f value) (g value)) :
    Follows Converts Permitted Stop (run >>= f) (model >>= g) := by
  refine ⟨Gen.failsOnly_bind hfirst.failures fun value hvalue => (hnext value hvalue).failures,
    ?_, ?_⟩
  · intro hconverts
    have hsame := hfirst.same fun conversion hmem =>
      hconverts conversion (Gen.mem_bind_log.mpr (Or.inl hmem))
    rw [hsame]
    cases hended : model.ended with
    | ok value =>
        have hrest := (hnext value hended).same fun conversion hmem =>
          hconverts conversion (Gen.mem_bind_log.mpr (Or.inr ⟨value, hended, hmem⟩))
        rw [Gen.bind_of_ok hended, Gen.bind_of_ok hended, hrest]
    | error fault => rw [Gen.bind_of_error hended, Gen.bind_of_error hended]
  · intro ⟨conversion, hmem, hfails⟩
    by_cases hconverts : ∀ other ∈ model.log, Converts other
    · -- The failure is in the second part, which the run comes to as well.
      have hsame := hfirst.same hconverts
      rcases Gen.mem_bind_log.mp hmem with hmem | ⟨value, hended, hmem⟩
      · exact absurd (hconverts conversion hmem) hfails
      · rw [hsame, Gen.bind_of_ok hended]
        exact (hnext value hended).stops ⟨conversion, hmem, hfails⟩
    · push Not at hconverts
      obtain ⟨fault, hfault, hstop⟩ := hfirst.stops hconverts
      rw [Gen.bind_of_error hfault]
      exact ⟨fault, rfl, hstop⟩

/-- `for x in xs:` with a state. -/
theorem foldlM {turn model : σ → τ → Gen ε α σ} (xs : List τ)
    (hturn : ∀ x ∈ xs, ∀ state, Follows Converts Permitted Stop (turn state x) (model state x))
    (state : σ) :
    Follows Converts Permitted Stop (xs.foldlM turn state) (xs.foldlM model state) := by
  induction xs generalizing state with
  | nil => exact Follows.pure state
  | cons x rest ih =>
      rw [List.foldlM_cons, List.foldlM_cons]
      refine (hturn x List.mem_cons_self state).bind fun next _ => ?_
      exact ih (fun y hy => hturn y (List.mem_cons_of_mem x hy)) next

/-- `for x in gen:` with a state. -/
theorem forEach {β : Type} {gen : Gen ε β Unit} {turn model : σ → β → Gen ε α σ}
    (hgen : FailsOnly Permitted gen.ended)
    (hturn : ∀ x ∈ gen.log, ∀ state,
      Follows Converts Permitted Stop (turn state x) (model state x)) (state : σ) :
    Follows Converts Permitted Stop (gen.forEach turn state) (gen.forEach model state) :=
  (Follows.foldlM gen.log hturn state).bind fun final _ =>
    (Follows.lift hgen).bind fun _ _ => Follows.pure final

/-- A loop that goes through positions. -/
theorem scan {scan model : Scan ε α σ} {stop : ℕ}
    (hbody : ∀ pos state,
      Follows Converts Permitted Stop (scan.body pos state) (model.body pos state))
    (pos : ℕ) (state : σ) :
    Follows Converts Permitted Stop (scan.run stop pos state) (model.run stop pos state) := by
  induction hleft : stop - pos using Nat.strong_induction_on generalizing pos state with
  | _ left ih =>
      by_cases hpos : pos < stop
      · rw [Scan.run_of_lt hpos, Scan.run_of_lt hpos]
        refine (hbody pos state).bind fun next hnext => ?_
        have hadvances := model.advances hnext
        exact ih (stop - next.1) (by omega) next.1 next.2 rfl
      · rw [Scan.run_of_ge hpos, Scan.run_of_ge hpos]
        exact Follows.pure state

/-- What a run that follows returns is what the lenient run returns. -/
theorem model_ended {run model : Gen ε α ρ} {value : ρ}
    (hfollows : Follows Converts Permitted Stop run model) (hended : run.ended = .ok value) :
    model.ended = .ok value := by
  by_cases hconverts : ∀ conversion ∈ model.log, Converts conversion
  · rw [← hfollows.same hconverts, hended]
  · push Not at hconverts
    obtain ⟨fault, hfault, _⟩ := hfollows.stops hconverts
    rw [hended] at hfault
    cases hfault

/-- A run that follows ends with the permitted faults only, exactly if everything converts. -/
theorem failsOnly_iff {run model : Gen ε α ρ}
    (hfollows : Follows Converts Permitted Stop run model)
    (hstop : ∀ fault, Stop fault → ¬ Permitted fault) :
    FailsOnly Permitted run.ended ↔ ∀ conversion ∈ model.log, Converts conversion := by
  constructor
  · intro honly
    by_contra hnot
    push Not at hnot
    obtain ⟨fault, hfault, hstops⟩ := hfollows.stops hnot
    exact hstop fault hstops (honly fault hfault)
  · intro hconverts
    rw [hfollows.same hconverts]
    exact hfollows.failures

end Follows

end PqcReadiness.Lib
