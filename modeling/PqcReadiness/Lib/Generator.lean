import Mathlib.Data.List.Basic
import Mathlib.Data.Nat.Init

/-!
# Exceptions and generators

A function that may raise returns an `Except`.  A generator that has run is a `Gen`:
the list of what it yielded, and how it ended, by returning or by raising.  What was
yielded before an exception is not lost.  `Gen` is a monad, so that the body of a
generator is a `do` block.

`FailsOnly P` says that a computation raises nothing but exceptions with `P`, and goes
through a `do` block statement by statement (`FailsOnly.bind`, `FailsOnly.foldlM`).

`Turns` is a `while` loop whose body yields, together with the measure that makes it
end; `Turns.induct` is its induction rule.  `Scan` is the loop along a buffer, which ends
because every turn moves its position forward.
-/

namespace PqcReadiness.Lib

variable {ε α ρ σ τ : Type}

/-! ## Exceptions -/

/-- Every exception of the computation has `P`. -/
def FailsOnly (P : ε → Prop) (x : Except ε ρ) : Prop := ∀ fault, x = .error fault → P fault

namespace FailsOnly

variable {P : ε → Prop}

@[simp] theorem ok (value : ρ) : FailsOnly P (.ok value : Except ε ρ) := by
  intro fault hfault
  cases hfault

@[simp] theorem error {fault : ε} : FailsOnly P (.error fault : Except ε ρ) ↔ P fault := by
  constructor
  · intro h
    exact h fault rfl
  · intro hfault other hother
    cases hother
    exact hfault

theorem bind {x : Except ε ρ} {f : ρ → Except ε τ} (hx : FailsOnly P x)
    (hf : ∀ value, x = .ok value → FailsOnly P (f value)) : FailsOnly P (x >>= f) := by
  cases x with
  | error fault => exact error.mpr (hx fault rfl)
  | ok value => exact hf value rfl

theorem foldlM {f : σ → α → Except ε σ} (inv : σ → Prop) (xs : List α)
    (hturn : ∀ x ∈ xs, ∀ state, inv state →
      FailsOnly P (f state x) ∧ ∀ next, f state x = .ok next → inv next)
    {state : σ} (hstate : inv state) : FailsOnly P (xs.foldlM f state) := by
  induction xs generalizing state with
  | nil => exact ok state
  | cons x rest ih =>
      rw [List.foldlM_cons]
      obtain ⟨hfails, hnext⟩ := hturn x (by simp) state hstate
      refine hfails.bind fun next hok => ?_
      exact ih (fun y hy => hturn y (by simp [hy])) (hnext next hok)

end FailsOnly

/-- `if condition: raise fault`. -/
def raiseIf (condition : Prop) [Decidable condition] (fault : ε) : Except ε Unit :=
  if condition then .error fault else .ok ()

section RaiseIf

variable {condition : Prop} [Decidable condition] {fault : ε} {P : ε → Prop}

@[simp] theorem raiseIf_ok : raiseIf condition fault = .ok () ↔ ¬ condition := by
  by_cases hcondition : condition <;> simp [raiseIf, hcondition]

theorem raiseIf_of_not (hcondition : ¬ condition) : raiseIf condition fault = .ok () :=
  if_neg hcondition

theorem raiseIf_of (hcondition : condition) : raiseIf condition fault = .error fault :=
  if_pos hcondition

theorem raiseIf_bind (f : Unit → Except ε ρ) :
    (raiseIf condition fault >>= f) = if condition then .error fault else f () := by
  unfold raiseIf
  split <;> rfl

theorem failsOnly_raiseIf (hfault : P fault) : FailsOnly P (raiseIf condition fault) := by
  unfold raiseIf
  split
  · exact FailsOnly.error.mpr hfault
  · exact FailsOnly.ok ()

end RaiseIf

theorem ok_bind (value : ρ) (f : ρ → Except ε τ) : (Except.ok value >>= f) = f value := rfl

theorem error_bind (fault : ε) (f : ρ → Except ε τ) :
    (Except.error fault >>= f) = .error fault := rfl

theorem bind_pure_map (x : Except ε ρ) (f : ρ → τ) :
    (x >>= fun value => pure (f value)) = x.map f := by
  cases x <;> rfl

/-- Take a computation apart. -/
theorem except_bind_ok {x : Except ε ρ} {f : ρ → Except ε τ} {answer : τ} :
    (x >>= f) = .ok answer ↔ ∃ value, x = .ok value ∧ f value = .ok answer := by
  cases x with
  | error fault =>
      constructor
      · intro h
        cases h
      · intro ⟨value, hvalue, _⟩
        cases hvalue
  | ok value =>
      constructor
      · intro h
        exact ⟨value, rfl, h⟩
      · intro ⟨other, hother, h⟩
        cases hother
        exact h

/-! ## Generators -/

/-- A generator that has run. -/
structure Gen (ε α ρ : Type) where
  log : List α
  ended : Except ε ρ

namespace Gen

/-- `yield value`. -/
def yield (value : α) : Gen ε α Unit := ⟨[value], .ok ()⟩

instance : Monad (Gen ε α) where
  pure value := ⟨[], .ok value⟩
  bind gen f :=
    match gen.ended with
    | .ok value => ⟨gen.log ++ (f value).log, (f value).ended⟩
    | .error fault => ⟨gen.log, .error fault⟩

instance : MonadLift (Except ε) (Gen ε α) where
  monadLift x := ⟨[], x⟩

instance : MonadExceptOf ε (Gen ε α) where
  throw fault := ⟨[], .error fault⟩
  tryCatch gen handler :=
    match gen.ended with
    | .ok _ => gen
    | .error fault => ⟨gen.log ++ (handler fault).log, (handler fault).ended⟩

@[simp] theorem pure_log (value : ρ) : (pure value : Gen ε α ρ).log = [] := rfl

@[simp] theorem pure_ended (value : ρ) : (pure value : Gen ε α ρ).ended = .ok value := rfl

@[simp] theorem throw_log (fault : ε) : (throw fault : Gen ε α ρ).log = [] := rfl

@[simp] theorem throw_ended (fault : ε) : (throw fault : Gen ε α ρ).ended = .error fault := rfl

@[simp] theorem lift_log (x : Except ε ρ) : (liftM x : Gen ε α ρ).log = [] := rfl

@[simp] theorem lift_ended (x : Except ε ρ) : (liftM x : Gen ε α ρ).ended = x := rfl

@[simp] theorem yield_log (value : α) : (yield value : Gen ε α Unit).log = [value] := rfl

@[simp] theorem yield_ended (value : α) : (yield value : Gen ε α Unit).ended = .ok () := rfl

theorem bind_of_ok {gen : Gen ε α ρ} {f : ρ → Gen ε α τ} {value : ρ}
    (hended : gen.ended = .ok value) :
    (gen >>= f) = ⟨gen.log ++ (f value).log, (f value).ended⟩ := by
  show (match gen.ended with | .ok value => _ | .error fault => _) = _
  rw [hended]

theorem bind_of_error {gen : Gen ε α ρ} {f : ρ → Gen ε α τ} {fault : ε}
    (hended : gen.ended = .error fault) : (gen >>= f) = ⟨gen.log, .error fault⟩ := by
  show (match gen.ended with | .ok value => _ | .error fault => _) = _
  rw [hended]

theorem bind_pure_self (gen : Gen ε α ρ) : (gen >>= pure) = gen := by
  cases hended : gen.ended with
  | ok value => rw [bind_of_ok hended, pure_log, pure_ended, List.append_nil, ← hended]
  | error fault => rw [bind_of_error hended, ← hended]

/-- A computation that is known, and what is made of its value. -/
theorem bind_eq {gen : Gen ε α ρ} {f : ρ → Gen ε α τ} {value : ρ} {answer : τ}
    {first second : List α} (hgen : gen = ⟨first, .ok value⟩) (hf : f value = ⟨second, .ok answer⟩) :
    (gen >>= f) = ⟨first ++ second, .ok answer⟩ := by
  rw [bind_of_ok (congrArg Gen.ended hgen), hgen, hf]

theorem bind_pure_eq {gen : Gen ε α ρ} {f : ρ → τ} {value : ρ} {log : List α}
    (hgen : gen = ⟨log, .ok value⟩) :
    (gen >>= fun value => pure (f value)) = ⟨log, .ok (f value)⟩ := by
  rw [bind_eq hgen (f := fun value => pure (f value)) rfl, List.append_nil]

/-- A statement that yields nothing and returns. -/
theorem lift_bind_ok {x : Except ε ρ} {f : ρ → Gen ε α τ} {value : ρ} (hx : x = .ok value) :
    ((liftM x : Gen ε α ρ) >>= f) = f value := by
  have hended : (liftM x : Gen ε α ρ).ended = .ok value := hx
  rw [bind_of_ok hended]
  simp

theorem lift_bind_error {x : Except ε ρ} {f : ρ → Gen ε α τ} {fault : ε}
    (hx : x = .error fault) : ((liftM x : Gen ε α ρ) >>= f) = ⟨[], .error fault⟩ :=
  bind_of_error hx

theorem bind_ended_ok {gen : Gen ε α ρ} {f : ρ → Gen ε α τ} {answer : τ} :
    (gen >>= f).ended = .ok answer ↔ ∃ value, gen.ended = .ok value ∧ (f value).ended = .ok answer := by
  cases hended : gen.ended with
  | ok value =>
      rw [bind_of_ok hended]
      simp
  | error fault =>
      rw [bind_of_error hended]
      simp

theorem mem_bind_log {gen : Gen ε α ρ} {f : ρ → Gen ε α τ} {entry : α} :
    entry ∈ (gen >>= f).log ↔
      entry ∈ gen.log ∨ ∃ value, gen.ended = .ok value ∧ entry ∈ (f value).log := by
  cases hended : gen.ended with
  | ok value =>
      rw [bind_of_ok hended]
      simp
  | error fault =>
      rw [bind_of_error hended]
      simp

/-! `for x in xs:` -/

theorem forM_cons_of_ok {turn : σ → Gen ε α Unit} {x : σ} {rest : List σ} {log : List α}
    (hturn : turn x = ⟨log, .ok ()⟩) :
    (x :: rest).forM turn = ⟨log ++ (rest.forM turn).log, (rest.forM turn).ended⟩ := by
  have hended : (turn x).ended = .ok () := by rw [hturn]
  have hrun : (x :: rest).forM turn = (turn x >>= fun _ => rest.forM turn) := rfl
  rw [hrun, bind_of_ok hended, hturn]

theorem forM_cons_of_error {turn : σ → Gen ε α Unit} {x : σ} {rest : List σ} {log : List α}
    {fault : ε} (hturn : turn x = ⟨log, .error fault⟩) :
    (x :: rest).forM turn = ⟨log, .error fault⟩ := by
  have hended : (turn x).ended = .error fault := by rw [hturn]
  have hrun : (x :: rest).forM turn = (turn x >>= fun _ => rest.forM turn) := rfl
  rw [hrun, bind_of_error hended, hturn]

variable {P : ε → Prop}

theorem failsOnly_bind {gen : Gen ε α ρ} {f : ρ → Gen ε α τ} (hgen : FailsOnly P gen.ended)
    (hf : ∀ value, gen.ended = .ok value → FailsOnly P (f value).ended) :
    FailsOnly P (gen >>= f).ended := by
  cases hended : gen.ended with
  | ok value =>
      rw [bind_of_ok hended]
      exact hf value hended
  | error fault =>
      rw [bind_of_error hended]
      exact FailsOnly.error.mpr (hgen fault hended)

theorem failsOnly_forM {turn : σ → Gen ε α Unit} (xs : List σ)
    (hturn : ∀ x ∈ xs, FailsOnly P (turn x).ended) : FailsOnly P (xs.forM turn).ended := by
  induction xs with
  | nil => exact FailsOnly.ok ()
  | cons x rest ih =>
      refine failsOnly_bind (hturn x List.mem_cons_self) fun _ _ => ?_
      exact ih fun y hy => hturn y (List.mem_cons_of_mem x hy)

theorem failsOnly_foldlM {turn : σ → τ → Gen ε α σ} (xs : List τ)
    (hturn : ∀ x ∈ xs, ∀ state, FailsOnly P (turn state x).ended) (state : σ) :
    FailsOnly P (xs.foldlM turn state).ended := by
  induction xs generalizing state with
  | nil => exact FailsOnly.ok state
  | cons x rest ih =>
      rw [List.foldlM_cons]
      refine failsOnly_bind (hturn x List.mem_cons_self state) fun next _ => ?_
      exact ih (fun y hy => hturn y (List.mem_cons_of_mem x hy)) next

/-- `for x in gen:` with a state: what the generator raises comes after what was done with all
that it yielded. -/
def forEach {β : Type} (gen : Gen ε β Unit) (turn : σ → β → Gen ε α σ) (state : σ) : Gen ε α σ := do
  let final ← gen.log.foldlM turn state
  (liftM gen.ended : Gen ε α Unit)
  return final

theorem forEach_of_ok {β : Type} {gen : Gen ε β Unit} (turn : σ → β → Gen ε α σ) (state : σ)
    (hended : gen.ended = .ok ()) : gen.forEach turn state = gen.log.foldlM turn state := by
  have hlift : ∀ final : σ, ((liftM gen.ended : Gen ε α Unit) >>= fun _ => pure final) =
      (⟨[], .ok final⟩ : Gen ε α σ) := fun final => lift_bind_ok hended
  rw [forEach]
  simp only [hlift]
  cases hfold : (gen.log.foldlM turn state).ended with
  | ok final =>
      rw [bind_of_ok hfold, List.append_nil, ← hfold]
  | error fault =>
      rw [bind_of_error hfold, ← hfold]

/-- Everything that is yielded has `Q`. -/
def Logs (Q : α → Prop) (gen : Gen ε α ρ) : Prop := ∀ entry ∈ gen.log, Q entry

section Logs

variable {Q : α → Prop}

theorem Logs.lift (x : Except ε ρ) : Logs Q (liftM x : Gen ε α ρ) := nofun

theorem Logs.pure (value : ρ) : Logs Q (Pure.pure value : Gen ε α ρ) := nofun

theorem Logs.yield {entry : α} (hentry : Q entry) : Logs Q (Gen.yield entry : Gen ε α Unit) := by
  intro other hother
  rwa [List.mem_singleton.mp hother]

theorem Logs.bind {gen : Gen ε α ρ} {f : ρ → Gen ε α τ} (hgen : Logs Q gen)
    (hf : ∀ value, gen.ended = .ok value → Logs Q (f value)) : Logs Q (gen >>= f) := by
  intro entry hentry
  rcases mem_bind_log.mp hentry with hfirst | ⟨value, hended, hrest⟩
  · exact hgen entry hfirst
  · exact hf value hended entry hrest

theorem Logs.foldlM {turn : σ → τ → Gen ε α σ} (xs : List τ)
    (hturn : ∀ x ∈ xs, ∀ state, Logs Q (turn state x)) (state : σ) :
    Logs Q (xs.foldlM turn state) := by
  induction xs generalizing state with
  | nil => exact Logs.pure state
  | cons x rest ih =>
      rw [List.foldlM_cons]
      refine (hturn x List.mem_cons_self state).bind fun next _ => ?_
      exact ih (fun y hy => hturn y (List.mem_cons_of_mem x hy)) next

theorem Logs.forEach {β : Type} {gen : Gen ε β Unit} {turn : σ → β → Gen ε α σ}
    (hturn : ∀ x ∈ gen.log, ∀ state, Logs Q (turn state x)) (state : σ) :
    Logs Q (gen.forEach turn state) :=
  (Logs.foldlM gen.log hturn state).bind fun final _ =>
    (Logs.lift gen.ended).bind fun _ _ => Logs.pure final

end Logs

/-- What holds of the state and the elements that have been seen. -/
theorem foldlM_keeps {turn : σ → τ → Gen ε α σ} {Inv : σ → List τ → Prop}
    (hturn : ∀ state seen x next, Inv state seen → (turn state x).ended = .ok next →
      Inv next (seen ++ [x]))
    {xs seen : List τ} {state final : σ} (hstart : Inv state seen)
    (hrun : (xs.foldlM turn state).ended = .ok final) : Inv final (seen ++ xs) := by
  induction xs generalizing state seen with
  | nil =>
      obtain rfl := Except.ok.inj hrun
      rw [List.append_nil]
      exact hstart
  | cons x rest ih =>
      rw [List.foldlM_cons] at hrun
      obtain ⟨next, hnext, hrun⟩ := bind_ended_ok.mp hrun
      have hrest := ih (hturn state seen x next hstart hnext) hrun
      rw [List.append_assoc] at hrest
      exact hrest

/-- A loop whose turns all return, and append to a list. -/
theorem foldlM_append {turn : τ → Gen ε α (Option ρ)} {answer : τ → Option ρ} (xs : List τ)
    (hturn : ∀ x ∈ xs, (turn x).ended = .ok (answer x)) (out : List ρ) :
    xs.foldlM (fun out x => do
      let found ← turn x
      return out ++ found.toList) out =
      ⟨xs.flatMap fun x => (turn x).log, .ok (out ++ xs.filterMap answer)⟩ := by
  induction xs generalizing out with
  | nil =>
      rw [List.filterMap_nil, List.append_nil]
      rfl
  | cons x rest ih =>
      have hfirst := hturn x List.mem_cons_self
      have hrest := ih (fun y hy => hturn y (List.mem_cons_of_mem x hy)) (out ++ (answer x).toList)
      rw [List.foldlM_cons, bind_of_ok hfirst, bind_of_ok rfl, hrest, List.flatMap_cons]
      cases hanswer : answer x with
      | none => simp [hanswer]
      | some value => simp [hanswer]

theorem mem_forM_log {turn : σ → Gen ε α Unit} {xs : List σ} {entry : α}
    (hentry : entry ∈ (xs.forM turn).log) : ∃ x ∈ xs, entry ∈ (turn x).log := by
  induction xs with
  | nil => cases hentry
  | cons x rest ih =>
      rcases mem_bind_log.mp hentry with hfirst | ⟨_, _, hrest⟩
      · exact ⟨x, List.mem_cons_self, hfirst⟩
      · obtain ⟨y, hy, hmem⟩ := ih hrest
        exact ⟨y, List.mem_cons_of_mem x hy, hmem⟩

end Gen

/-! ## `while` loops in a generator -/

/-- A `while` loop whose body yields: a turn goes on in a new state or leaves the loop. -/
structure Turns (σ ε α ρ : Type) where
  turn : σ → Gen ε α (σ ⊕ ρ)
  measure : σ → ℕ
  decreases : ∀ {state next : σ},
    (turn state).ended = .ok (.inl next) → measure next < measure state

namespace Turns

/-- The loop as a generator. -/
def run (loop : Turns σ ε α ρ) (state : σ) : Gen ε α ρ :=
  match _hended : (loop.turn state).ended with
  | .ok (.inl next) => ⟨(loop.turn state).log ++ (loop.run next).log, (loop.run next).ended⟩
  | .ok (.inr answer) => ⟨(loop.turn state).log, .ok answer⟩
  | .error fault => ⟨(loop.turn state).log, .error fault⟩
termination_by loop.measure state
decreasing_by all_goals exact loop.decreases _hended

variable {loop : Turns σ ε α ρ} {state : σ}

theorem run_of_continues {next : σ} (hended : (loop.turn state).ended = .ok (.inl next)) :
    loop.run state =
      ⟨(loop.turn state).log ++ (loop.run next).log, (loop.run next).ended⟩ := by
  rw [run]
  split
  · next other hother =>
      rw [hended] at hother
      cases hother
      rfl
  · next other hother =>
      rw [hended] at hother
      cases hother
  · next other hother =>
      rw [hended] at hother
      cases hother

theorem run_of_leaves {answer : ρ} (hended : (loop.turn state).ended = .ok (.inr answer)) :
    loop.run state = ⟨(loop.turn state).log, .ok answer⟩ := by
  rw [run]
  split
  · next other hother =>
      rw [hended] at hother
      cases hother
  · next other hother =>
      rw [hended] at hother
      cases hother
      rfl
  · next other hother =>
      rw [hended] at hother
      cases hother

theorem run_of_error {fault : ε} (hended : (loop.turn state).ended = .error fault) :
    loop.run state = ⟨(loop.turn state).log, .error fault⟩ := by
  rw [run]
  split
  · next other hother =>
      rw [hended] at hother
      cases hother
  · next other hother =>
      rw [hended] at hother
      cases hother
  · next other hother =>
      rw [hended] at hother
      cases hother
      rfl

/-- Induction over the turns of the loop. -/
theorem induct {motive : σ → Prop}
    (hstep : ∀ state, (∀ next, (loop.turn state).ended = .ok (.inl next) → motive next) →
      motive state) (state : σ) : motive state :=
  (InvImage.wf loop.measure Nat.lt_wfRel.wf).induction state fun state ih =>
    hstep state fun next hended => ih next (loop.decreases hended)

end Turns

/-- The body of `while pos < stop:`, which moves the position forward. -/
structure Scan (ε α σ : Type) where
  body : ℕ → σ → Gen ε α (ℕ × σ)
  advances : ∀ {pos next : ℕ} {state after : σ},
    (body pos state).ended = .ok (next, after) → pos < next

namespace Scan

/-- One turn of the loop. -/
def turn (scan : Scan ε α σ) (stop : ℕ) (at_ : ℕ × σ) : Gen ε α ((ℕ × σ) ⊕ σ) :=
  if at_.1 < stop then do
    let next ← scan.body at_.1 at_.2
    return .inl next
  else return .inr at_.2

theorem turn_of_lt {scan : Scan ε α σ} {stop pos : ℕ} {state : σ} (hpos : pos < stop) :
    scan.turn stop (pos, state) = (scan.body pos state >>= fun next => pure (.inl next)) :=
  if_pos hpos

theorem turn_of_ge {scan : Scan ε α σ} {stop pos : ℕ} {state : σ} (hpos : ¬ pos < stop) :
    scan.turn stop (pos, state) = ⟨[], .ok (.inr state)⟩ := if_neg hpos

/-- The loop; the position comes closer to its bound. -/
def turns (scan : Scan ε α σ) (stop : ℕ) : Turns (ℕ × σ) ε α σ where
  turn := scan.turn stop
  measure at_ := stop - at_.1
  decreases := by
    intro state next hended
    by_cases hpos : state.1 < stop
    · rw [turn_of_lt hpos] at hended
      obtain ⟨value, hvalue, hnext⟩ := Gen.bind_ended_ok.mp hended
      obtain rfl := Sum.inl.inj (Except.ok.inj hnext)
      have hadvances := scan.advances hvalue
      omega
    · rw [turn_of_ge hpos] at hended
      cases hended

/-- `while pos < stop:`. -/
def run (scan : Scan ε α σ) (stop pos : ℕ) (state : σ) : Gen ε α σ :=
  (scan.turns stop).run (pos, state)

theorem run_of_ge {scan : Scan ε α σ} {stop pos : ℕ} {state : σ} (hpos : ¬ pos < stop) :
    scan.run stop pos state = pure state := by
  have hturn : (scan.turns stop).turn (pos, state) = ⟨[], .ok (.inr state)⟩ := turn_of_ge hpos
  rw [run, Turns.run_of_leaves (congrArg Gen.ended hturn), hturn]
  rfl

/-- One turn of the loop, and the rest of it. -/
theorem run_of_lt {scan : Scan ε α σ} {stop pos : ℕ} {state : σ} (hpos : pos < stop) :
    scan.run stop pos state =
      (scan.body pos state >>= fun next => scan.run stop next.1 next.2) := by
  have hturn : (scan.turns stop).turn (pos, state) =
      (scan.body pos state >>= fun next => pure (.inl next)) := turn_of_lt hpos
  cases hbody : (scan.body pos state).ended with
  | ok next =>
      rw [Gen.bind_of_ok hbody, Gen.pure_log, List.append_nil, Gen.pure_ended] at hturn
      rw [run, Turns.run_of_continues (congrArg Gen.ended hturn), hturn, Gen.bind_of_ok hbody]
      rfl
  | error fault =>
      rw [Gen.bind_of_error hbody] at hturn
      rw [run, Turns.run_of_error (congrArg Gen.ended hturn), hturn, Gen.bind_of_error hbody]

/-- What every turn yields, the loop yields. -/
theorem logs_run {Q : α → Prop} {scan : Scan ε α σ} {stop : ℕ}
    (hbody : ∀ pos state, Gen.Logs Q (scan.body pos state)) (pos : ℕ) (state : σ) :
    Gen.Logs Q (scan.run stop pos state) := by
  induction hleft : stop - pos using Nat.strong_induction_on generalizing pos state with
  | _ left ih =>
      by_cases hpos : pos < stop
      · rw [run_of_lt hpos]
        refine (hbody pos state).bind fun next hnext => ?_
        have hadvances := scan.advances hnext
        exact ih (stop - next.1) (by omega) next.1 next.2 rfl
      · rw [run_of_ge hpos]
        exact Gen.Logs.pure state

/-- Turns inside the bound that raise nothing else make a loop that raises nothing else. -/
theorem failsOnly_run {P : ε → Prop} {scan : Scan ε α σ} {stop : ℕ}
    (hbody : ∀ pos state, pos < stop → FailsOnly P (scan.body pos state).ended) (pos : ℕ)
    (state : σ) : FailsOnly P (scan.run stop pos state).ended := by
  induction hleft : stop - pos using Nat.strong_induction_on generalizing pos state with
  | _ left ih =>
      by_cases hpos : pos < stop
      · rw [run_of_lt hpos]
        refine Gen.failsOnly_bind (hbody pos state hpos) fun next hnext => ?_
        have hadvances := scan.advances hnext
        exact ih (stop - next.1) (by omega) next.1 next.2 rfl
      · rw [run_of_ge hpos]
        exact FailsOnly.ok state

end Scan

end PqcReadiness.Lib
