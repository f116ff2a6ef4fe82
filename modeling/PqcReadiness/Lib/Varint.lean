import PqcReadiness.Lib.Bytes

/-!
# Numbers in base 128

A `uvarint` is a number as groups of seven bits, the lowest first, with the high bit set on every
byte but the last.  A reader that adds up the groups as it goes (`readGroups`) is described by what
it does with the encoding of a number behind which anything may stand (`readGroups_uvarint`).
-/

namespace PqcReadiness.Lib

open Bytes

/-- The bytes of a number. -/
def uvarint (n : ℕ) : Bytes :=
  if n < 128 then [UInt8.ofNat n] else UInt8.ofNat (n % 128 + 128) :: uvarint (n / 128)
termination_by n
decreasing_by omega

theorem uvarint_of_lt {n : ℕ} (hn : n < 128) : uvarint n = [UInt8.ofNat n] := by
  rw [uvarint, if_pos hn]

theorem uvarint_of_le {n : ℕ} (hn : 128 ≤ n) :
    uvarint n = UInt8.ofNat (n % 128 + 128) :: uvarint (n / 128) := by
  rw [uvarint, if_neg (by omega)]

/-- The groups of seven bits up to the last byte, no more than a number of them: the number, and how
many bytes it took. -/
def readGroups : ℕ → Bytes → Option (ℕ × ℕ)
  | 0, _ => none
  | _ + 1, [] => none
  | groups + 1, byte :: rest =>
      if byte.toNat < 128 then some (byte.toNat, 1)
      else (readGroups groups rest).map fun read => (byte.toNat - 128 + 128 * read.1, read.2 + 1)

theorem readGroups_of_lt {groups n : ℕ} (hn : n < 128) (rest : Bytes) :
    readGroups (groups + 1) (uvarint n ++ rest) = some (n, (uvarint n).length) := by
  have hbyte : (UInt8.ofNat n).toNat = n := by
    rw [UInt8.toNat_ofNat']
    omega
  rw [uvarint_of_lt hn, List.singleton_append, readGroups, hbyte, if_pos hn]
  rfl

theorem readGroups_of_le {groups n : ℕ} (hn : 128 ≤ n) (rest : Bytes) :
    readGroups (groups + 1) (uvarint n ++ rest) =
      (readGroups groups (uvarint (n / 128) ++ rest)).map fun read =>
        (n % 128 + 128 * read.1, read.2 + 1) := by
  have hbyte : (UInt8.ofNat (n % 128 + 128)).toNat = n % 128 + 128 := by
    rw [UInt8.toNat_ofNat']
    omega
  rw [uvarint_of_le hn, List.cons_append, readGroups, hbyte, if_neg (by omega),
    Nat.add_sub_cancel]

/-- The reader gives back a number that the groups are enough for, and refuses any other. -/
theorem readGroups_uvarint (groups n : ℕ) (rest : Bytes) :
    readGroups (groups + 1) (uvarint n ++ rest) =
      if n < 128 ^ (groups + 1) then some (n, (uvarint n).length) else none := by
  induction groups generalizing n with
  | zero =>
      rw [zero_add, pow_one]
      by_cases hn : n < 128
      · rw [readGroups_of_lt hn, if_pos hn]
      · rw [readGroups_of_le (by omega), if_neg hn, readGroups, Option.map_none]
  | succ groups ih =>
      have hfits : n / 128 < 128 ^ (groups + 1) ↔ n < 128 ^ (groups + 1 + 1) := by
        rw [Nat.div_lt_iff_lt_mul (by decide), ← pow_succ]
      by_cases hn : n < 128
      · have hlt : n < 128 ^ (groups + 1 + 1) :=
          Nat.lt_of_lt_of_le hn (Nat.le_self_pow (Nat.succ_ne_zero _) 128)
        rw [readGroups_of_lt hn, if_pos hlt]
      · rw [readGroups_of_le (by omega), ih]
        by_cases hlt : n < 128 ^ (groups + 1 + 1)
        · rw [if_pos (hfits.mpr hlt), if_pos hlt, Option.map_some,
            uvarint_of_le (show 128 ≤ n by omega), List.length_cons]
          congr 2
          exact Nat.mod_add_div n 128
        · rw [if_neg (fun h => hlt (hfits.mp h)), if_neg hlt, Option.map_none]

end PqcReadiness.Lib
