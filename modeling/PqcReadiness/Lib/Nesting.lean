import Mathlib.Data.List.Infix

/-!
# Nested blocks

A reader that calls itself at every opening bracket, and goes on behind what that call has read.
Every call needs a frame of the interpreter: with `frames` of them left, brackets may stand
`frames` deep inside each other, and one more ends the run with a `RecursionError`.

An invariant of the state goes through a call token by token (`readBlock_keeps`), and one that
speaks of the frames goes through all the calls (`readBlock_nested`).
-/

namespace PqcReadiness.Lib

/-- The calls inside each other are more than the interpreter allows. -/
structure RecursionError where
  deriving DecidableEq

/-- What a token is to the blocks. -/
inductive Bracket where
  | opens
  | closes
  | plain
  deriving DecidableEq

/-- A reader: its tokens, what it has so far, and what a block is read as. -/
structure BlockReader (τ σ ρ : Type) where
  bracket : τ → Bracket
  start : σ
  token : σ → τ → σ
  block : σ → ρ → σ
  finish : σ → ρ

namespace BlockReader

variable {τ σ ρ : Type} (reader : BlockReader τ σ ρ)

/-- What a call reads, and the tokens that are left. -/
def read (frames : ℕ) (tokens : List τ) (state : σ) :
    Except RecursionError {left : ρ × List τ // left.2.length ≤ tokens.length} :=
  match tokens with
  | [] => .ok ⟨(reader.finish state, []), le_rfl⟩
  | t :: rest =>
      match reader.bracket t with
      | .opens =>
          match frames with
          | 0 => .error ⟨⟩
          | frames + 1 => do
              let child ← read frames rest reader.start
              have hchild : child.1.2.length < (t :: rest).length := Nat.lt_succ_of_le child.2
              let after ← read (frames + 1) child.1.2 (reader.block state child.1.1)
              return ⟨after.1, after.2.trans hchild.le⟩
      | .closes => .ok ⟨(reader.finish state, rest), Nat.le_succ _⟩
      | .plain => do
          let after ← read frames rest (reader.token state t)
          return ⟨after.1, Nat.le_succ_of_le after.2⟩
termination_by tokens.length
decreasing_by
  · exact Nat.lt_succ_self _
  · exact hchild
  · exact Nat.lt_succ_self _

/-- The same without the bound on what is left. -/
def readBlock (frames : ℕ) (tokens : List τ) (state : σ) : Except RecursionError (ρ × List τ) :=
  (reader.read frames tokens state).map Subtype.val

variable {reader} {frames : ℕ} {t : τ} {tokens rest left : List τ} {state : σ} {result : ρ}

/-! ## Token by token -/

theorem readBlock_nil : reader.readBlock frames [] state = .ok (reader.finish state, []) := by
  rw [readBlock, read]
  rfl

theorem readBlock_closes (ht : reader.bracket t = .closes) :
    reader.readBlock frames (t :: rest) state = .ok (reader.finish state, rest) := by
  rw [readBlock, read.eq_def]
  simp only [ht]
  rfl

theorem readBlock_plain (ht : reader.bracket t = .plain) :
    reader.readBlock frames (t :: rest) state =
      reader.readBlock frames rest (reader.token state t) := by
  rw [readBlock, readBlock, read.eq_def]
  simp only [ht]
  cases reader.read frames rest (reader.token state t) <;> rfl

theorem readBlock_opens_zero (ht : reader.bracket t = .opens) :
    reader.readBlock 0 (t :: rest) state = .error ⟨⟩ := by
  rw [readBlock, read.eq_def]
  simp only [ht]
  rfl

theorem readBlock_opens_succ (ht : reader.bracket t = .opens) :
    reader.readBlock (frames + 1) (t :: rest) state =
      (reader.readBlock frames rest reader.start).bind fun child =>
        reader.readBlock (frames + 1) child.2 (reader.block state child.1) := by
  rw [readBlock, readBlock, read.eq_def]
  simp only [ht]
  cases reader.read frames rest reader.start with
  | error => rfl
  | ok child =>
      show Except.map Subtype.val (Except.bind (reader.read (frames + 1) child.1.2 _) _) =
        reader.readBlock (frames + 1) child.1.2 _
      rw [readBlock]
      cases reader.read (frames + 1) child.1.2 (reader.block state child.1.1) <;> rfl

/-- A block that was read had a frame, and its call came back. -/
theorem readBlock_opens_ok (ht : reader.bracket t = .opens)
    (hread : reader.readBlock frames (t :: rest) state = .ok (result, left)) :
    ∃ fewer child, frames = fewer + 1 ∧ reader.readBlock fewer rest reader.start = .ok child ∧
      reader.readBlock frames child.2 (reader.block state child.1) = .ok (result, left) := by
  cases frames with
  | zero =>
      rw [readBlock_opens_zero ht] at hread
      cases hread
  | succ fewer =>
      rw [readBlock_opens_succ ht] at hread
      cases hchild : reader.readBlock fewer rest reader.start with
      | error =>
          rw [hchild] at hread
          cases hread
      | ok child =>
          rw [hchild] at hread
          exact ⟨fewer, child, rfl, hchild, hread⟩

/-- What is left is an end of the tokens. -/
theorem suffix_of_readBlock (hread : reader.readBlock frames tokens state = .ok (result, left)) :
    left <:+ tokens := by
  induction hlength : tokens.length using Nat.strong_induction_on
    generalizing frames tokens state result left with
  | _ n ih =>
      cases tokens with
      | nil =>
          rw [readBlock_nil] at hread
          cases hread
          exact List.suffix_refl []
      | cons t rest =>
          have hrest : rest <:+ t :: rest := List.suffix_cons t rest
          rw [List.length_cons] at hlength
          cases ht : reader.bracket t with
          | opens =>
              obtain ⟨fewer, child, rfl, hchild, hafter⟩ := readBlock_opens_ok ht hread
              have hinner := ih rest.length (by omega) hchild rfl
              have hle := hinner.length_le
              have houter := ih child.2.length (by omega) hafter rfl
              exact (houter.trans hinner).trans hrest
          | closes =>
              rw [readBlock_closes ht] at hread
              cases hread
              exact hrest
          | plain =>
              rw [readBlock_plain ht] at hread
              exact (ih rest.length (by omega) hread rfl).trans hrest

/-! ## Invariants -/

/-- What every token and every block keeps of the state holds at the end of the call. -/
theorem readBlock_keeps {P : σ → Prop}
    (htoken : ∀ state, ∀ t ∈ tokens, reader.bracket t = .plain → P state →
      P (reader.token state t))
    (hblock : ∀ state fewer inner child, frames = fewer + 1 → inner <:+ tokens →
      reader.readBlock fewer inner reader.start = .ok child → P state →
        P (reader.block state child.1))
    (hstate : P state) (hread : reader.readBlock frames tokens state = .ok (result, left)) :
    ∃ last, P last ∧ reader.finish last = result := by
  -- By the number of tokens: a block inside leaves fewer of them.
  induction hlength : tokens.length using Nat.strong_induction_on
    generalizing tokens state with
  | _ n ih =>
      cases tokens with
      | nil =>
          rw [readBlock_nil] at hread
          cases hread
          exact ⟨state, hstate, rfl⟩
      | cons t rest =>
          rw [List.length_cons] at hlength
          -- What holds for these tokens holds for an end of them.
          have hlater : ∀ {later : List τ} {state : σ}, later <:+ rest → P state →
              reader.readBlock frames later state = .ok (result, left) →
                ∃ last, P last ∧ reader.finish last = result := by
            intro later state hlater hstate hread
            have hle := hlater.length_le
            have hwhole : later <:+ t :: rest := hlater.trans (List.suffix_cons t rest)
            apply ih later.length (by omega) _ _ hstate hread rfl
            · intro state u hu
              exact htoken state u (hwhole.subset hu)
            · intro state fewer inner child hframes hinner
              exact hblock state fewer inner child hframes (hinner.trans hwhole)
          cases ht : reader.bracket t with
          | opens =>
              obtain ⟨fewer, child, hframes, hchild, hafter⟩ := readBlock_opens_ok ht hread
              have hinner := suffix_of_readBlock hchild
              exact hlater hinner (hblock state fewer rest child hframes
                (List.suffix_cons t rest) hchild hstate) hafter
          | closes =>
              rw [readBlock_closes ht] at hread
              cases hread
              exact ⟨state, hstate, rfl⟩
          | plain =>
              rw [readBlock_plain ht] at hread
              exact hlater (List.suffix_refl rest)
                (htoken state t List.mem_cons_self ht hstate) hread

/-- An invariant that speaks of the frames: a block is read with one frame less. -/
theorem readBlock_nested {P : ℕ → σ → Prop} {Q : ℕ → ρ → Prop}
    (hstart : ∀ frames, P frames reader.start)
    (htoken : ∀ frames state t, reader.bracket t = .plain → P frames state →
      P frames (reader.token state t))
    (hblock : ∀ frames state child, P (frames + 1) state → Q frames child →
      P (frames + 1) (reader.block state child))
    (hfinish : ∀ frames state, P frames state → Q frames (reader.finish state))
    (hstate : P frames state) (hread : reader.readBlock frames tokens state = .ok (result, left)) :
    Q frames result := by
  induction frames generalizing tokens state result left with
  | zero =>
      obtain ⟨last, hlast, rfl⟩ := readBlock_keeps (fun state t _ => htoken 0 state t)
        (fun _ fewer _ _ hframes => by cases hframes) hstate hread
      exact hfinish 0 last hlast
  | succ frames ih =>
      obtain ⟨last, hlast, rfl⟩ := readBlock_keeps (fun state t _ => htoken (frames + 1) state t)
        (fun state fewer inner child hframes _ hchild hstate => by
          obtain rfl := Nat.succ.inj hframes
          exact hblock frames state child.1 hstate (ih (hstart frames) hchild)) hstate hread
      exact hfinish (frames + 1) last hlast

end BlockReader

end PqcReadiness.Lib
