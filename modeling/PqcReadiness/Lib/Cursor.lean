import Mathlib.Tactic.Positivity
import Mathlib.Tactic.Zify
import PqcReadiness.Lib.Bytes
import PqcReadiness.Lib.Generator

/-!
# Reading at an offset

`At data off bytes` says that these bytes stand at an offset.  What is written one behind the other
stands one behind the other (`at_append`), so a reader that moves along a buffer is followed through
the encoding piece by piece.

`Agree` is for the converse: what a reader makes of a part of a buffer is the same for every buffer
that agrees there.  `ReadsOnly` says of a reader which part that is, and goes through a `do` block
statement by statement.
-/

namespace PqcReadiness.Lib.Bytes

variable {data first second bytes : Bytes} {off start stop : ℕ}

/-- The bytes stand at this offset. -/
def At (data : Bytes) (off : ℕ) (bytes : Bytes) : Prop := bytes <+: data.drop off

theorem at_append : At data off (first ++ second) ↔
    At data off first ∧ At data (off + first.length) second := by
  constructor
  · rintro ⟨rest, hrest⟩
    rw [List.append_assoc] at hrest
    refine ⟨⟨second ++ rest, hrest⟩, rest, ?_⟩
    rw [← List.drop_drop, ← hrest, List.drop_left]
  · rintro ⟨⟨rest, hrest⟩, after, hafter⟩
    rw [← List.drop_drop, ← hrest, List.drop_left] at hafter
    exact ⟨after, by rw [List.append_assoc, hafter, hrest]⟩

theorem at_zero (data : Bytes) : At data 0 data := ⟨[], List.append_nil data⟩

/-- What is not empty stands inside the buffer. -/
theorem At.le (hat : At data off bytes) (hbytes : bytes ≠ []) :
    off + bytes.length ≤ data.length := by
  have hlength := hat.length_le
  have hpos := List.length_pos_iff.mpr hbytes
  rw [List.length_drop] at hlength
  omega

theorem slice_of_at (hat : At data off bytes) : slice data off (off + bytes.length) = bytes := by
  obtain ⟨rest, hrest⟩ := hat
  rw [slice, ← hrest, Nat.add_sub_cancel_left, List.take_left]

/-- A number that stands at an offset. -/
theorem field_of_at {order : ByteOrder} {width n : ℕ} (hat : At data off (ofNat order width n))
    (hn : n < 256 ^ width) : field order width data off = n := by
  have hslice := slice_of_at hat
  rw [length_ofNat] at hslice
  rw [field, hslice, toNat_ofNat hn]

/-- A number that begins with another. -/
theorem le_field_of_at {high low n : ℕ} (hat : At data off (ofNat .big high n))
    (hn : n < 256 ^ high) (hinside : off + high + low ≤ data.length) :
    n * 256 ^ low ≤ field .big (high + low) data off := by
  have hsplit : slice data off (off + (high + low)) =
      slice data off (off + high) ++ slice data (off + high) (off + high + low) := by
    rw [slice, slice, slice, Nat.add_sub_cancel_left, Nat.add_sub_cancel_left,
      Nat.add_sub_cancel_left, List.take_add, List.drop_drop]
  have hfirst : toNat .big (slice data off (off + high)) = n := field_of_at hat hn
  rw [field, hsplit, toNat_big_append, hfirst, length_slice_of_le hinside, Nat.add_sub_cancel_left]
  exact Nat.le_add_right _ _

/-- Bytes behind their number. -/
def counted (order : ByteOrder) (width : ℕ) (bytes : Bytes) : Bytes :=
  ofNat order width bytes.length ++ bytes

@[simp] theorem length_counted (order : ByteOrder) (width : ℕ) (bytes : Bytes) :
    (counted order width bytes).length = width + bytes.length := by
  rw [counted, List.length_append, length_ofNat]

/-- The number of counted bytes, and where they are. -/
theorem counted_of_at {order : ByteOrder} {width : ℕ}
    (hat : At data off (counted order width bytes)) (hbytes : bytes.length < 256 ^ width) :
    field order width data off = bytes.length ∧ At data (off + width) bytes := by
  obtain ⟨hnumber, hcontents⟩ := at_append.mp hat
  rw [length_ofNat] at hcontents
  exact ⟨field_of_at hnumber hbytes, hcontents⟩

/-- Counted bytes are inside the buffer. -/
theorem At.counted_le {order : ByteOrder} {width : ℕ}
    (hat : At data off (counted order width bytes)) (hwidth : 0 < width) :
    off + width + bytes.length ≤ data.length := by
  have hne : counted order width bytes ≠ [] := by
    rw [← List.length_pos_iff, length_counted]
    omega
  have hle := hat.le hne
  rw [length_counted] at hle
  omega

/-! ## Signed numbers -/

/-- A number in two's complement. -/
def signed (width n : ℕ) : ℤ := if 2 * n < 256 ^ width then n else n - 256 ^ width

/-- Its bits, as a number that is not negative. -/
def unsigned (width : ℕ) (n : ℤ) : ℕ := (n % 256 ^ width).toNat

theorem unsigned_lt (width : ℕ) (n : ℤ) : unsigned width n < 256 ^ width := by
  have hpos : (0 : ℤ) < 256 ^ width := by positivity
  have hlt := Int.emod_lt_of_pos n hpos
  have hnonneg := Int.emod_nonneg n hpos.ne'
  rw [unsigned]
  zify
  rwa [Int.toNat_of_nonneg hnonneg]

theorem signed_unsigned {width : ℕ} {n : ℤ} (hlow : -256 ^ width ≤ 2 * n)
    (hhigh : 2 * n < 256 ^ width) : signed width (unsigned width n) = n := by
  have hpos : (0 : ℤ) < 256 ^ width := by positivity
  have hnonneg := Int.emod_nonneg n hpos.ne'
  have hcast : (unsigned width n : ℤ) = n % 256 ^ width := Int.toNat_of_nonneg hnonneg
  rw [signed]
  rcases le_or_gt 0 n with hn | hn
  · have hmod : n % 256 ^ width = n := Int.emod_eq_of_lt hn (by omega)
    rw [if_pos (by zify; rw [hcast, hmod]; exact hhigh), hcast, hmod]
  · have hmod : n % 256 ^ width = n + 256 ^ width := by
      rw [← Int.add_emod_right, Int.emod_eq_of_lt (by omega) (by omega)]
    rw [if_neg (by zify; rw [hcast, hmod]; omega), hcast, hmod]
    omega

/-! ## Buffers that agree -/

/-- Two buffers with the same bytes in a range. -/
def Agree (one other : Bytes) (start stop : ℕ) : Prop :=
  slice one start stop = slice other start stop

variable {one other : Bytes}

theorem agree_of_getElem? (hsame : ∀ i, start ≤ i → i < stop → one[i]? = other[i]?) :
    Agree one other start stop := by
  refine List.ext_getElem? fun i => ?_
  rw [slice, slice, List.getElem?_take, List.getElem?_take]
  split
  · rw [List.getElem?_drop, List.getElem?_drop]
    exact hsame _ (by omega) (by omega)
  · rfl

theorem Agree.slice {low high : ℕ} (hagree : Agree one other low high) (hlow : low ≤ start)
    (hhigh : stop ≤ high) : Bytes.slice one start stop = Bytes.slice other start stop := by
  rcases Nat.le_total stop start with hle | hle
  · rw [Bytes.slice, Bytes.slice, Nat.sub_eq_zero_of_le hle, List.take_zero, List.take_zero]
  · obtain ⟨first, rfl⟩ := Nat.exists_eq_add_of_le hlow
    obtain ⟨last, rfl⟩ := Nat.exists_eq_add_of_le (hlow.trans hle)
    have hinside : last ≤ high - low := by omega
    calc Bytes.slice one (low + first) (low + last)
        = Bytes.slice (Bytes.slice one low high) first last := (slice_slice hinside).symm
      _ = Bytes.slice (Bytes.slice other low high) first last := by rw [hagree]
      _ = Bytes.slice other (low + first) (low + last) := slice_slice hinside

theorem Agree.field {low high width : ℕ} (hagree : Agree one other low high) (order : ByteOrder)
    (hlow : low ≤ off) (hhigh : off + width ≤ high) :
    Bytes.field order width one off = Bytes.field order width other off := by
  rw [Bytes.field, Bytes.field, hagree.slice hlow hhigh]

theorem Agree.mono {low high : ℕ} (hagree : Agree one other low high) (hlow : low ≤ start)
    (hhigh : stop ≤ high) : Agree one other start stop := hagree.slice hlow hhigh

/-- A reader that reads only from `start` on, and only to `last`, or to `limit` if it raises. -/
structure ReadsOnly {ε α : Type} (read : Bytes → Except ε α) (start limit : ℕ) (last : α → ℕ) :
    Prop where
  bounds : ∀ data value, read data = .ok value → start ≤ last value ∧ last value ≤ limit
  agrees : ∀ one other, one.length = other.length →
    (∀ value, read one = .ok value → Agree one other start (last value)) →
    (∀ fault, read one = .error fault → Agree one other start limit) → read other = read one

namespace ReadsOnly

variable {ε α β : Type} {limit : ℕ}

theorem ok {value : α} {last : α → ℕ} (hstart : start ≤ last value) (hlimit : last value ≤ limit) :
    ReadsOnly (fun _ => .ok value : Bytes → Except ε α) start limit last where
  bounds := by
    rintro data other hok
    cases hok
    exact ⟨hstart, hlimit⟩
  agrees _ _ _ _ _ := rfl

theorem error (fault : ε) (last : α → ℕ) :
    ReadsOnly (fun _ => .error fault : Bytes → Except ε α) start limit last where
  bounds := nofun
  agrees _ _ _ _ _ := rfl

/-- A reader that begins further on. -/
theorem weaken {read : Bytes → Except ε α} {last : α → ℕ} {low : ℕ}
    (hread : ReadsOnly read start limit last) (hlow : low ≤ start) :
    ReadsOnly read low limit last where
  bounds := by
    intro data value hok
    obtain ⟨hstart, hlimit⟩ := hread.bounds data value hok
    exact ⟨hlow.trans hstart, hlimit⟩
  agrees one other hlength hok herror :=
    hread.agrees one other hlength (fun value hvalue => (hok value hvalue).mono hlow le_rfl)
      fun fault hfault => (herror fault hfault).mono hlow le_rfl

/-- A reader of a slice. -/
theorem slice (make : Bytes → α) {last : α → ℕ} {first stop : ℕ} (hstart : start ≤ first)
    (hstop : start ≤ stop) (hlimit : stop ≤ limit) (hlast : ∀ bytes, last (make bytes) = stop) :
    ReadsOnly (fun data => .ok (make (Bytes.slice data first stop)) : Bytes → Except ε α) start
      limit last where
  bounds := by
    rintro data value hok
    cases hok
    rw [hlast]
    exact ⟨hstop, hlimit⟩
  agrees := by
    intro one other _ hagree _
    have hsame := hagree _ rfl
    rw [hlast] at hsame
    rw [hsame.slice hstart le_rfl]

/-- A reader behind a check. -/
theorem guard {condition : Prop} [Decidable condition] {fault : ε} {next : Bytes → Except ε α}
    {last : α → ℕ} (hnext : ¬ condition → ReadsOnly next start limit last) :
    ReadsOnly (fun data => raiseIf condition fault >>= fun _ => next data) start limit last := by
  by_cases hcondition : condition
  · rw [raiseIf_of hcondition]
    exact error fault last
  · rw [raiseIf_of_not hcondition]
    exact hnext hcondition

theorem bind {read : Bytes → Except ε α} {next : α → Bytes → Except ε β} {middle : α → ℕ}
    {last : β → ℕ} (hread : ReadsOnly read start limit middle)
    (hnext : ∀ value, start ≤ middle value → middle value ≤ limit →
      ReadsOnly (next value) (middle value) limit last) :
    ReadsOnly (fun data => read data >>= fun value => next value data) start limit last where
  bounds data answer hok := by
    obtain ⟨value, hvalue, hanswer⟩ := except_bind_ok.mp hok
    obtain ⟨hstart, hlimit⟩ := hread.bounds data value hvalue
    obtain ⟨hmiddle, hlast⟩ := (hnext value hstart hlimit).bounds data answer hanswer
    exact ⟨hstart.trans hmiddle, hlast⟩
  agrees one other hlength hok herror := by
    cases hone : read one with
    | error fault =>
        have hother := hread.agrees one other hlength
          (fun value hvalue => by rw [hone] at hvalue; cases hvalue)
          (fun _ _ => herror fault (by rw [hone]; rfl))
        rw [hother, hone]
        rfl
    | ok value =>
        obtain ⟨hstart, hlimit⟩ := hread.bounds one value hone
        have hrest := hnext value hstart hlimit
        have hagree : Agree one other start (middle value) := by
          cases hnextone : next value one with
          | error fault =>
              exact (herror fault (by rw [hone]; exact hnextone)).mono le_rfl hlimit
          | ok answer =>
              exact (hok answer (by rw [hone]; exact hnextone)).mono le_rfl
                (hrest.bounds one answer hnextone).1
        have hother := hread.agrees one other hlength
          (fun other' hvalue => by
            rw [hone] at hvalue
            cases hvalue
            exact hagree)
          (fun fault hfault => by rw [hone] at hfault; cases hfault)
        rw [hother, hone]
        exact hrest.agrees one other hlength
          (fun answer hanswer => (hok answer (by rw [hone]; exact hanswer)).mono hstart le_rfl)
          (fun fault hfault => (herror fault (by rw [hone]; exact hfault)).mono hstart le_rfl)

end ReadsOnly

end PqcReadiness.Lib.Bytes
