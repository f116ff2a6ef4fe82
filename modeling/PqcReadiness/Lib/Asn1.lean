import Mathlib.Data.Nat.Size
import PqcReadiness.Lib.Bytes

/-!
# Distinguished encoding

The encoding of elements with a one-byte tag and a definite length of minimal form, of object
identifiers and of numbers.

`StandsAt` says that bytes stand at a position of a buffer, `Encloses` that they fill what is
between two positions.  An encoding is a sequence of parts, and `StandsAt.left` and
`StandsAt.right` take it apart, so that a reader that works with positions in one buffer can be
followed from part to part.
-/

namespace PqcReadiness.Lib

open Bytes

/-! ## Positions -/

/-- The bytes stand at this position of the buffer. -/
def StandsAt (buf : Bytes) (pos : ℕ) (part : Bytes) : Prop :=
  ∃ before after, buf = before ++ part ++ after ∧ pos = before.length

section StandsAt

variable {buf first second part : Bytes} {pos : ℕ}

theorem standsAt_self (buf : Bytes) : StandsAt buf 0 buf := ⟨[], [], by simp, rfl⟩

theorem StandsAt.left (hstands : StandsAt buf pos (first ++ second)) : StandsAt buf pos first := by
  obtain ⟨before, after, rfl, rfl⟩ := hstands
  exact ⟨before, second ++ after, by simp, rfl⟩

theorem StandsAt.right (hstands : StandsAt buf pos (first ++ second)) :
    StandsAt buf (pos + first.length) second := by
  obtain ⟨before, after, rfl, rfl⟩ := hstands
  exact ⟨before ++ first, after, by simp, by simp⟩

theorem StandsAt.tail {byte : UInt8} {rest : Bytes} (hstands : StandsAt buf pos (byte :: rest)) :
    StandsAt buf (pos + 1) rest :=
  StandsAt.right (show StandsAt buf pos ([byte] ++ rest) from hstands)

theorem StandsAt.slice (hstands : StandsAt buf pos part) :
    slice buf pos (pos + part.length) = part := by
  obtain ⟨before, after, rfl, rfl⟩ := hstands
  exact slice_append_middle before part after

theorem StandsAt.getElem? {byte : UInt8} {rest : Bytes}
    (hstands : StandsAt buf pos (byte :: rest)) : buf[pos]? = some byte := by
  obtain ⟨before, after, rfl, rfl⟩ := hstands
  simp

theorem StandsAt.le (hstands : StandsAt buf pos part) : pos + part.length ≤ buf.length := by
  obtain ⟨before, after, rfl, rfl⟩ := hstands
  simp

end StandsAt

/-- The bytes fill the buffer between the two positions, and their number has four bytes. -/
structure Encloses (buf : Bytes) (start stop : ℕ) (content : Bytes) : Prop where
  stands : StandsAt buf start content
  stop_eq : stop = start + content.length
  small : content.length < 2 ^ 32

/-- The bytes fill the buffer between the two positions. -/
structure Fills (buf : Bytes) (start stop : ℕ) (content : Bytes) : Prop where
  stands : StandsAt buf start content
  stop_eq : stop = start + content.length

theorem Fills.slice {buf content : Bytes} {start stop : ℕ} (hfills : Fills buf start stop content) :
    Bytes.slice buf start stop = content := by
  rw [hfills.stop_eq]
  exact hfills.stands.slice

theorem Encloses.le {buf content : Bytes} {start stop : ℕ}
    (hencloses : Encloses buf start stop content) : start ≤ stop := by
  rw [hencloses.stop_eq]
  exact Nat.le_add_right _ _

theorem Encloses.slice {buf content : Bytes} {start stop : ℕ}
    (hencloses : Encloses buf start stop content) : Bytes.slice buf start stop = content := by
  rw [hencloses.stop_eq]
  exact hencloses.stands.slice

theorem Encloses.eq_of_nil {buf : Bytes} {start stop : ℕ} (hencloses : Encloses buf start stop []) :
    stop = start := hencloses.stop_eq

theorem Encloses.lt_of_cons {buf rest : Bytes} {byte : UInt8} {start stop : ℕ}
    (hencloses : Encloses buf start stop (byte :: rest)) : start < stop := by
  have hstop := hencloses.stop_eq
  rw [List.length_cons] at hstop
  omega

namespace Asn1

/-! ## Elements -/

/-- The number of bytes of a number. -/
def byteWidth (n : ℕ) : ℕ := (Nat.size n + 7) / 8

/-- The length octets. -/
def lengthBytes (n : ℕ) : Bytes :=
  if n < 0x80 then [UInt8.ofNat n]
  else UInt8.ofNat (0x80 + byteWidth n) :: ofNat .big (byteWidth n) n

/-- The tag and the length of an element. -/
def header (tag : UInt8) (content : Bytes) : Bytes := tag :: lengthBytes content.length

/-- An element. -/
def element (tag : UInt8) (content : Bytes) : Bytes := header tag content ++ content

theorem lt_pow_byteWidth (n : ℕ) : n < 256 ^ byteWidth n := by
  have hsize : n < 2 ^ Nat.size n := Nat.lt_size_self n
  have hbits : Nat.size n ≤ 8 * byteWidth n := by
    unfold byteWidth
    omega
  calc n < 2 ^ Nat.size n := hsize
    _ ≤ 2 ^ (8 * byteWidth n) := Nat.pow_le_pow_right (by decide) hbits
    _ = 256 ^ byteWidth n := Nat.pow_mul 2 8 (byteWidth n)

theorem byteWidth_pos {n : ℕ} (hn : 0x80 ≤ n) : 0 < byteWidth n := by
  have hsize : 0 < Nat.size n := Nat.size_pos.mpr (by omega)
  unfold byteWidth
  omega

theorem byteWidth_le {n width : ℕ} (hn : n < 256 ^ width) : byteWidth n ≤ width := by
  have hsize : Nat.size n ≤ 8 * width := by
    rw [Nat.size_le, Nat.pow_mul]
    exact hn
  unfold byteWidth
  omega

theorem header_length_pos (tag : UInt8) (content : Bytes) : 2 ≤ (header tag content).length := by
  unfold header lengthBytes
  split <;> simp

@[simp] theorem length_element (tag : UInt8) (content : Bytes) :
    (element tag content).length = (header tag content).length + content.length :=
  List.length_append

theorem element_ne_nil (tag : UInt8) (content : Bytes) : element tag content ≠ [] :=
  List.cons_ne_nil _ _

theorem length_element_le {content : Bytes} (tag : UInt8) (hsmall : content.length < 2 ^ 32) :
    (element tag content).length ≤ content.length + 6 := by
  have hwide : byteWidth content.length ≤ 4 := byteWidth_le (by simpa using hsmall)
  rw [length_element]
  unfold header lengthBytes
  split <;> simp only [List.length_cons, List.length_nil, length_ofNat] <;> omega

/-! ## Object identifiers -/

/-- The groups of seven bits of a number, each with the bit that another one follows. -/
def leadingGroups (n : ℕ) : Bytes :=
  if n = 0 then [] else leadingGroups (n / 128) ++ [UInt8.ofNat (0x80 + n % 128)]
termination_by n
decreasing_by exact Nat.div_lt_self (Nat.pos_of_ne_zero ‹_›) (by decide)

/-- An arc. -/
def base128 (arc : ℕ) : Bytes := leadingGroups (arc / 128) ++ [UInt8.ofNat (arc % 128)]

theorem length_leadingGroups_le {n : ℕ} (groups : ℕ) (hn : n < 128 ^ groups) :
    (leadingGroups n).length ≤ groups := by
  induction groups generalizing n with
  | zero =>
      obtain rfl : n = 0 := Nat.lt_one_iff.mp hn
      rw [leadingGroups, if_pos rfl, List.length_nil]
  | succ groups ih =>
      rw [leadingGroups]
      split
      · exact Nat.zero_le _
      · have hquotient : n / 128 < 128 ^ groups :=
          Nat.div_lt_of_lt_mul (by rwa [Nat.pow_succ, Nat.mul_comm] at hn)
        rw [List.length_append, List.length_singleton]
        exact Nat.succ_le_succ (ih hquotient)

theorem length_base128_le {arc : ℕ} (groups : ℕ) (harc : arc < 128 ^ groups * 128) :
    (base128 arc).length ≤ groups + 1 := by
  have hleading : (leadingGroups (arc / 128)).length ≤ groups :=
    length_leadingGroups_le groups (Nat.div_lt_of_lt_mul (by rwa [Nat.mul_comm] at harc))
  rw [base128, List.length_append, List.length_singleton]
  exact Nat.succ_le_succ hleading

/-- An object identifier whose first two arcs fit into one byte. -/
structure Oid where
  top : ℕ
  second : ℕ
  rest : List ℕ
  top_le : top ≤ 2
  second_lt : top < 2 → second < 40
  oneByte : 40 * top + second < 0x80

/-- All arcs. -/
def Oid.arcs (oid : Oid) : List ℕ := oid.top :: oid.second :: oid.rest

/-- The contents of the element. -/
def Oid.content (oid : Oid) : Bytes :=
  UInt8.ofNat (40 * oid.top + oid.second) :: oid.rest.flatMap base128

/-- The last byte has no continuation bit. -/
theorem Oid.content_last (oid : Oid) : (oid.content.getLastD 0).toNat < 0x80 := by
  have hfirst := oid.oneByte
  rcases List.eq_nil_or_concat oid.rest with hrest | ⟨init, arc, hrest⟩
  · rw [content, hrest]
    simp only [List.flatMap_nil, List.getLastD_cons, List.getLastD_nil, UInt8.toNat_ofNat']
    omega
  · have hlast : oid.content = (UInt8.ofNat (40 * oid.top + oid.second) :: init.flatMap base128 ++
        leadingGroups (arc / 128)) ++ [UInt8.ofNat (arc % 128)] := by
      rw [content, hrest]
      simp [base128]
    rw [hlast]
    simp only [List.getLastD_eq_getLast?, List.getLast?_append, List.getLast?_singleton,
      Option.some_or, Option.getD_some, UInt8.toNat_ofNat']
    omega

/-- A number that is not zero starts with a group that another one follows. -/
theorem leadingGroups_head {n : ℕ} (hn : n ≠ 0) :
    ∃ byte rest, leadingGroups n = byte :: rest ∧ 0x80 ≤ byte.toNat := by
  induction n using Nat.strong_induction_on with
  | _ n ih =>
      rw [leadingGroups, if_neg hn]
      by_cases hlast : n / 128 = 0
      · have hgroup : (UInt8.ofNat (0x80 + n % 128)).toNat = 0x80 + n % 128 := by
          rw [UInt8.toNat_ofNat']
          omega
        rw [hlast, leadingGroups, if_pos rfl, List.nil_append]
        exact ⟨_, [], rfl, by omega⟩
      · obtain ⟨byte, rest, hbyte, hhigh⟩ :=
          ih (n / 128) (Nat.div_lt_self (Nat.pos_of_ne_zero hn) (by decide)) hlast
        rw [hbyte, List.cons_append]
        exact ⟨byte, _, rfl, hhigh⟩

/-- Any object identifier. -/
structure ObjectId where
  top : ℕ
  second : ℕ
  rest : List ℕ
  top_le : top ≤ 2
  second_lt : top < 2 → second < 40

namespace ObjectId

/-- All arcs. -/
def arcs (oid : ObjectId) : List ℕ := oid.top :: oid.second :: oid.rest

/-- The contents of the element. -/
def content (oid : ObjectId) : Bytes :=
  base128 (40 * oid.top + oid.second) ++ oid.rest.flatMap base128

/-- Unless the first two arcs fit into one byte, the first byte says that another one follows. -/
theorem content_head (oid : ObjectId) (hwide : 0x80 ≤ 40 * oid.top + oid.second) :
    ∃ byte rest, oid.content = byte :: rest ∧ 0x80 ≤ byte.toNat := by
  obtain ⟨byte, rest, hbyte, hhigh⟩ :=
    leadingGroups_head (n := (40 * oid.top + oid.second) / 128) (by omega)
  rw [content, base128, hbyte, List.append_assoc, List.cons_append]
  exact ⟨byte, _, rfl, hhigh⟩

/-- The object identifier with its first two arcs in one byte. -/
def narrow (oid : ObjectId) (honeByte : 40 * oid.top + oid.second < 0x80) : Oid :=
  ⟨oid.top, oid.second, oid.rest, oid.top_le, oid.second_lt, honeByte⟩

theorem content_narrow (oid : ObjectId) (honeByte : 40 * oid.top + oid.second < 0x80) :
    (oid.narrow honeByte).content = oid.content := by
  have hzero : (40 * oid.top + oid.second) / 128 = 0 := Nat.div_eq_of_lt honeByte
  rw [content, base128, hzero, leadingGroups, if_pos rfl, Nat.mod_eq_of_lt honeByte]
  rfl

end ObjectId

/-! ## Numbers -/

/-- The contents of a positive INTEGER, with room for the sign. -/
def integer (n : ℕ) : Bytes := ofNat .big (Nat.size n / 8 + 1) n

theorem toNat_integer (n : ℕ) : toNat .big (integer n) = n := by
  apply toNat_ofNat
  calc n < 2 ^ Nat.size n := Nat.lt_size_self n
    _ ≤ 2 ^ (8 * (Nat.size n / 8 + 1)) := Nat.pow_le_pow_right (by decide) (by omega)
    _ = 256 ^ (Nat.size n / 8 + 1) := Nat.pow_mul 2 8 _

end Asn1

end PqcReadiness.Lib
