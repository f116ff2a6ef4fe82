import Mathlib.Data.List.Basic
import Mathlib.Tactic.Ring

/-!
# Byte strings

Byte strings as lists of bytes, slices of them, and unsigned numbers in either byte
order.  `toNat` and `ofNat` are `int.from_bytes` and `int.to_bytes`; `ofNat` is
inverted by `toNat` on the numbers that fit (`toNat_ofNat`).

`unpack` takes the bytes of a fixed-size record out of a buffer, and has no answer if
the buffer is too short for it.
-/

namespace PqcReadiness.Lib

/-- A byte string. -/
abbrev Bytes := List UInt8

/-- The byte order of a number. -/
inductive ByteOrder where
  | little
  | big
  deriving DecidableEq

namespace Bytes

/-- `data[start:stop]`, for indices that are not negative. -/
def slice (data : Bytes) (start stop : ℕ) : Bytes := (data.drop start).take (stop - start)

@[simp] theorem length_slice (data : Bytes) (start stop : ℕ) :
    (slice data start stop).length = min (stop - start) (data.length - start) := by
  simp [slice]

theorem length_slice_of_le {data : Bytes} {start stop : ℕ} (hstop : stop ≤ data.length) :
    (slice data start stop).length = stop - start := by
  rw [length_slice]
  omega

theorem slice_all (data : Bytes) : slice data 0 data.length = data := by
  simp [slice]

/-- Slices in a row. -/
theorem slice_append_slice {data : Bytes} {start middle stop : ℕ} (hmiddle : start ≤ middle)
    (hstop : middle ≤ stop) :
    slice data start middle ++ slice data middle stop = slice data start stop := by
  obtain ⟨first, rfl⟩ := Nat.exists_eq_add_of_le hmiddle
  obtain ⟨second, rfl⟩ := Nat.exists_eq_add_of_le hstop
  rw [slice, slice, slice, Nat.add_sub_cancel_left, Nat.add_sub_cancel_left, Nat.add_assoc,
    Nat.add_sub_cancel_left, List.take_add, List.drop_drop]

theorem slice_append_drop {data : Bytes} {start stop : ℕ} (hstop : start ≤ stop) :
    slice data start stop ++ data.drop stop = data.drop start := by
  obtain ⟨width, rfl⟩ := Nat.exists_eq_add_of_le hstop
  rw [slice, Nat.add_sub_cancel_left, ← List.drop_drop, List.take_append_drop]

/-- A slice of a slice. -/
theorem slice_slice {data : Bytes} {start stop first last : ℕ} (hlast : last ≤ stop - start) :
    slice (slice data start stop) first last = slice data (start + first) (start + last) := by
  simp only [slice, List.drop_take, List.drop_drop, List.take_take]
  congr 1
  omega

theorem slice_append_middle (before middle after : Bytes) :
    slice (before ++ middle ++ after) before.length (before.length + middle.length) = middle := by
  rw [slice, List.append_assoc, List.drop_left, Nat.add_sub_cancel_left, List.take_left]

/-- A part of a slice whose contents are known. -/
theorem slice_of_append (before middle after : Bytes) {data : Bytes} {start stop first last : ℕ}
    (hslice : slice data start stop = before ++ middle ++ after)
    (hfirst : first = start + before.length) (hlast : last = first + middle.length) :
    slice data first last = middle := by
  have hlength : before.length + middle.length ≤ stop - start := by
    have hsum := congrArg List.length hslice
    rw [length_slice, List.length_append, List.length_append] at hsum
    omega
  rw [hlast, hfirst, Nat.add_assoc, ← slice_slice hlength, hslice, slice_append_middle]

/-- The number that the bytes write, lowest byte first. -/
def littleNat (data : Bytes) : ℕ := data.foldr (fun byte rest => byte.toNat + 256 * rest) 0

/-- The lowest bytes of a number, lowest byte first. -/
def littleBytes : ℕ → ℕ → Bytes
  | 0, _ => []
  | width + 1, n => UInt8.ofNat n :: littleBytes width (n / 256)

/-- `int.from_bytes(data, order)`. -/
def toNat : ByteOrder → Bytes → ℕ
  | .little, data => littleNat data
  | .big, data => littleNat data.reverse

/-- `n.to_bytes(width, order)`, for a number that fits. -/
def ofNat (order : ByteOrder) (width n : ℕ) : Bytes :=
  match order with
  | .little => littleBytes width n
  | .big => (littleBytes width n).reverse

@[simp] theorem littleNat_nil : littleNat [] = 0 := rfl

@[simp] theorem littleNat_cons (byte : UInt8) (rest : Bytes) :
    littleNat (byte :: rest) = byte.toNat + 256 * littleNat rest := rfl

theorem littleNat_lt (data : Bytes) : littleNat data < 256 ^ data.length := by
  induction data with
  | nil => simp
  | cons byte rest ih =>
      have hbyte : byte.toNat < 256 := byte.toNat_lt
      rw [littleNat_cons, List.length_cons, Nat.pow_succ]
      omega

theorem toNat_lt (order : ByteOrder) (data : Bytes) : toNat order data < 256 ^ data.length := by
  cases order with
  | little => exact littleNat_lt data
  | big =>
      have hlt := littleNat_lt data.reverse
      rwa [List.length_reverse] at hlt

@[simp] theorem length_littleBytes (width n : ℕ) : (littleBytes width n).length = width := by
  induction width generalizing n with
  | zero => rfl
  | succ width ih => rw [littleBytes, List.length_cons, ih]

@[simp] theorem length_ofNat (order : ByteOrder) (width n : ℕ) :
    (ofNat order width n).length = width := by
  cases order <;> simp [ofNat]

theorem littleNat_littleBytes {width n : ℕ} (hn : n < 256 ^ width) :
    littleNat (littleBytes width n) = n := by
  induction width generalizing n with
  | zero =>
      rw [Nat.pow_zero] at hn
      rw [littleBytes, littleNat_nil]
      omega
  | succ width ih =>
      have hhigh : n / 256 < 256 ^ width := by
        rw [Nat.pow_succ] at hn
        exact Nat.div_lt_of_lt_mul (by omega)
      rw [littleBytes, littleNat_cons, ih hhigh, UInt8.toNat_ofNat']
      omega

theorem littleBytes_littleNat (data : Bytes) : littleBytes data.length (littleNat data) = data := by
  induction data with
  | nil => rfl
  | cons byte rest ih =>
      have hlow : UInt8.ofNat (byte.toNat + 256 * littleNat rest) = byte := by
        rw [← UInt8.toNat_inj, UInt8.toNat_ofNat']
        have hbyte : byte.toNat < 256 := byte.toNat_lt
        omega
      have hhigh : (byte.toNat + 256 * littleNat rest) / 256 = littleNat rest := by
        have hbyte : byte.toNat < 256 := byte.toNat_lt
        omega
      rw [List.length_cons, littleBytes, littleNat_cons, hlow, hhigh, ih]

/-- Writing a number that was read. -/
theorem ofNat_toNat (order : ByteOrder) (data : Bytes) :
    ofNat order data.length (toNat order data) = data := by
  cases order with
  | little => exact littleBytes_littleNat data
  | big =>
      have hback := littleBytes_littleNat data.reverse
      rw [List.length_reverse] at hback
      rw [ofNat, toNat, hback, List.reverse_reverse]

/-- Reading a number that was written. -/
theorem toNat_ofNat {order : ByteOrder} {width n : ℕ} (hn : n < 256 ^ width) :
    toNat order (ofNat order width n) = n := by
  cases order with
  | little => exact littleNat_littleBytes hn
  | big =>
      rw [toNat, ofNat, List.reverse_reverse]
      exact littleNat_littleBytes hn

theorem littleNat_append (first second : Bytes) :
    littleNat (first ++ second) = littleNat first + 256 ^ first.length * littleNat second := by
  induction first with
  | nil => simp
  | cons byte rest ih =>
      rw [List.cons_append, littleNat_cons, littleNat_cons, ih, List.length_cons]
      ring

/-- The high part of a number stands first. -/
theorem toNat_big_append (first second : Bytes) :
    toNat .big (first ++ second) = toNat .big first * 256 ^ second.length + toNat .big second := by
  rw [toNat, toNat, toNat, List.reverse_append, littleNat_append, List.length_reverse]
  ring

theorem littleBytes_add (low high n : ℕ) :
    littleBytes (low + high) n = littleBytes low n ++ littleBytes high (n / 256 ^ low) := by
  induction low generalizing n with
  | zero => simp [littleBytes]
  | succ low ih =>
      rw [Nat.add_right_comm, littleBytes, littleBytes, ih, List.cons_append,
        Nat.div_div_eq_div_mul, Nat.pow_succ']

theorem ofNat_big_add (high low n : ℕ) :
    ofNat .big (high + low) n = ofNat .big high (n / 256 ^ low) ++ ofNat .big low n := by
  rw [ofNat, ofNat, ofNat, Nat.add_comm, littleBytes_add, List.reverse_append]

/-- The `width` bytes at an offset, as a number. -/
def field (order : ByteOrder) (width : ℕ) (data : Bytes) (off : ℕ) : ℕ :=
  toNat order (slice data off (off + width))

theorem field_slice {data : Bytes} {order : ByteOrder} {width start stop first : ℕ}
    (hinside : first + width ≤ stop - start) :
    field order width (slice data start stop) first = field order width data (start + first) := by
  rw [field, field, slice_slice hinside, Nat.add_assoc]

theorem field_lt (order : ByteOrder) (width : ℕ) (data : Bytes) (off : ℕ) :
    field order width data off < 256 ^ width := by
  refine lt_of_lt_of_le (toNat_lt _ _) (Nat.pow_le_pow_right (by omega) ?_)
  rw [length_slice]
  omega

/-- A number that stands in a slice whose contents are known. -/
theorem field_of_append (before after : Bytes) {order : ByteOrder} {width n : ℕ} {data : Bytes}
    {start stop off : ℕ} (hslice : slice data start stop = before ++ ofNat order width n ++ after)
    (hoff : off = start + before.length) (hn : n < 256 ^ width) :
    field order width data off = n := by
  have hbytes : slice data off (off + width) = ofNat order width n :=
    slice_of_append before _ after hslice hoff (by rw [length_ofNat])
  rw [field, hbytes, toNat_ofNat hn]

/-- A record of `size` bytes at an offset. -/
def unpack (size : ℕ) (data : Bytes) (off : ℕ) : Option Bytes :=
  if off + size ≤ data.length then some (slice data off (off + size)) else none

theorem unpack_of_le {size off : ℕ} {data : Bytes} (hsize : off + size ≤ data.length) :
    unpack size data off = some (slice data off (off + size)) := if_pos hsize

theorem unpack_of_lt {size off : ℕ} {data : Bytes} (hsize : data.length < off + size) :
    unpack size data off = none := if_neg (by omega)

end Bytes

/-- `range(start, stop, step)`. -/
def rangeStep (start stop step : ℕ) : List ℕ :=
  (List.range ((stop - start + step - 1) / step)).map (start + step * ·)

theorem mem_rangeStep {start stop step n : ℕ} (hn : n ∈ rangeStep start stop step) :
    start ≤ n ∧ n < stop := by
  obtain ⟨index, hindex, rfl⟩ := List.mem_map.mp hn
  rw [List.mem_range] at hindex
  have hmul : step * ((stop - start + step - 1) / step) ≤ stop - start + step - 1 :=
    Nat.mul_div_le _ _
  have hstep : step * (index + 1) ≤ step * ((stop - start + step - 1) / step) :=
    Nat.mul_le_mul_left _ hindex
  rcases Nat.eq_zero_or_pos step with rfl | hpos
  · simp at hindex
  · rw [Nat.mul_add, Nat.mul_one] at hstep
    omega

/-- The offsets of what is as long as a step, and ends in front of a bound. -/
theorem rangeStep_fits {start stop step : ℕ} (hstart : start ≤ stop) (hstep : 0 < step) :
    rangeStep start (stop + 1 - step) step =
      (List.range ((stop - start) / step)).map (start + step * ·) := by
  have hcount : (stop + 1 - step - start + step - 1) / step = (stop - start) / step := by
    rcases Nat.lt_or_ge (stop - start) step with hlt | hge
    · rw [Nat.div_eq_of_lt hlt, Nat.div_eq_of_lt (by omega)]
    · congr 1
      omega
  rw [rangeStep, hcount]

end PqcReadiness.Lib
