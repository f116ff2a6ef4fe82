import Mathlib.Data.List.Basic
import Mathlib.Data.Nat.Notation

/-!
# Percent encoding

Every byte of the UTF-8 text that is not kept becomes `%` and two digits.  Where the bytes that are
kept are ASCII without `%`, the encoding is injective (`percentEncode_injective`), and its characters
are those that are kept, `%` and the digits (`mem_percentEncode`).
-/

namespace PqcReadiness.Lib

/-- A digit of base 16, with capital letters. -/
def hexUpper (n : ℕ) : Char := if n < 10 then Char.ofNat (48 + n) else Char.ofNat (55 + n)

/-- One byte. -/
def percentByte (keep : UInt8 → Bool) (b : UInt8) : List Char :=
  if keep b then [Char.ofNat b.toNat]
  else ['%', hexUpper (b.toNat / 16), hexUpper (b.toNat % 16)]

/-- `urllib.parse.quote`, where `keep` says which bytes stay. -/
def percentEncode (keep : UInt8 → Bool) (s : String) : String :=
  String.ofList (s.toByteArray.data.toList.flatMap (percentByte keep))

/-- What is kept is ASCII, and not `%`. -/
def KeepsAscii (keep : UInt8 → Bool) : Prop := ∀ b, keep b = true → b.toNat < 128 ∧ b.toNat ≠ 37

section Encoding

variable {keep : UInt8 → Bool}

theorem hexUpper_injective {m n : ℕ} (hm : m < 16) (hn : n < 16)
    (hsame : hexUpper m = hexUpper n) : m = n := by
  have hall : ∀ m < 16, ∀ n < 16, hexUpper m = hexUpper n → m = n := by decide
  exact hall m hm n hn hsame

theorem ofNat_injective_of_ascii {m n : ℕ} (hm : m < 128) (hn : n < 128)
    (hsame : Char.ofNat m = Char.ofNat n) : m = n := by
  have htoNat : ∀ n < 128, (Char.ofNat n).toNat = n := by decide +kernel
  rw [← htoNat m hm, ← htoNat n hn, hsame]

/-- The first byte can be read back, and what follows it. -/
theorem percentByte_append (hkeep : KeepsAscii keep) {b c : UInt8} {xs ys : List Char}
    (hsame : percentByte keep b ++ xs = percentByte keep c ++ ys) : b = c ∧ xs = ys := by
  have hpercent : ∀ b, keep b = true → Char.ofNat b.toNat ≠ '%' := by
    intro b hb hchar
    obtain ⟨hlt, hne⟩ := hkeep b hb
    exact hne (ofNat_injective_of_ascii hlt (by decide) hchar)
  unfold percentByte at hsame
  by_cases hb : keep b = true
  · by_cases hc : keep c = true
    · rw [if_pos hb, if_pos hc] at hsame
      obtain ⟨hhead, htail⟩ := List.cons.inj hsame
      have hnat := ofNat_injective_of_ascii (hkeep b hb).1 (hkeep c hc).1 hhead
      exact ⟨UInt8.toNat_inj.mp hnat, htail⟩
    · rw [if_pos hb, if_neg hc] at hsame
      exact absurd (List.cons.inj hsame).1 (hpercent b hb)
  · by_cases hc : keep c = true
    · rw [if_neg hb, if_pos hc] at hsame
      exact absurd (List.cons.inj hsame).1.symm (hpercent c hc)
    · rw [if_neg hb, if_neg hc] at hsame
      obtain ⟨-, hrest⟩ := List.cons.inj hsame
      obtain ⟨hhigh, hrest⟩ := List.cons.inj hrest
      obtain ⟨hlow, htail⟩ := List.cons.inj hrest
      have hltb := UInt8.toNat_lt b
      have hltc := UInt8.toNat_lt c
      have hdiv := hexUpper_injective (by omega) (by omega) hhigh
      have hmod := hexUpper_injective (Nat.mod_lt _ (by decide)) (Nat.mod_lt _ (by decide)) hlow
      exact ⟨UInt8.toNat_inj.mp (by omega), htail⟩

theorem flatMap_percentByte_injective (hkeep : KeepsAscii keep) {bs cs : List UInt8}
    (hsame : bs.flatMap (percentByte keep) = cs.flatMap (percentByte keep)) : bs = cs := by
  have hne : ∀ b, percentByte keep b ≠ [] := by
    intro b
    unfold percentByte
    split <;> exact List.cons_ne_nil _ _
  induction bs generalizing cs with
  | nil =>
      cases cs with
      | nil => rfl
      | cons c cs =>
          rw [List.flatMap_nil, List.flatMap_cons] at hsame
          exact absurd (List.append_eq_nil_iff.mp hsame.symm).1 (hne c)
  | cons b bs ih =>
      cases cs with
      | nil =>
          rw [List.flatMap_nil, List.flatMap_cons] at hsame
          exact absurd (List.append_eq_nil_iff.mp hsame).1 (hne b)
      | cons c cs =>
          rw [List.flatMap_cons, List.flatMap_cons] at hsame
          obtain ⟨rfl, hrest⟩ := percentByte_append hkeep hsame
          rw [ih hrest]

theorem percentEncode_injective (hkeep : KeepsAscii keep) :
    Function.Injective (percentEncode keep) := by
  intro s t hsame
  have hbytes := flatMap_percentByte_injective hkeep (String.ofList_inj.mp hsame)
  rw [← String.toByteArray_inj]
  exact ByteArray.ext (Array.toList_inj.mp hbytes)

theorem mem_percentEncode {s : String} {c : Char} (hc : c ∈ (percentEncode keep s).toList) :
    (∃ b, keep b = true ∧ c = Char.ofNat b.toNat) ∨ c = '%' ∨ ∃ n < 16, c = hexUpper n := by
  rw [percentEncode, String.toList_ofList] at hc
  obtain ⟨b, -, hb⟩ := List.mem_flatMap.mp hc
  unfold percentByte at hb
  split at hb
  · next hkeep => exact Or.inl ⟨b, hkeep, List.mem_singleton.mp hb⟩
  · have hlt := UInt8.toNat_lt b
    rcases List.mem_cons.mp hb with rfl | hb
    · exact Or.inr (Or.inl rfl)
    · rcases List.mem_pair.mp hb with rfl | rfl
      · exact Or.inr (Or.inr ⟨_, by omega, rfl⟩)
      · exact Or.inr (Or.inr ⟨_, Nat.mod_lt _ (by decide), rfl⟩)

end Encoding

example : percentEncode (fun b => 97 ≤ b.toNat && b.toNat ≤ 122) "a b+" = "a%20b%2B" := by
  decide +kernel

end PqcReadiness.Lib
