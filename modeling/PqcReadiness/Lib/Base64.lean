import Mathlib.Data.List.Basic
import PqcReadiness.Lib.Bytes

/-!
# Base 64

`base64.b64decode(text, validate=True)` and the encoding that it inverts.  The decoder takes one
character at a time; what it raises is the text of the exception.

Three bytes are four characters, so that a text comes apart at every fourth character
(`drop_encode`), and a text whose pieces start there has no padding at the start of a piece.
-/

namespace PqcReadiness.Lib.Base64

/-! ## Decoding -/

/-- The value of a digit. -/
def digitValue (c : Char) : Option ℕ :=
  if 'A' ≤ c ∧ c ≤ 'Z' then some (c.toNat - 65)
  else if 'a' ≤ c ∧ c ≤ 'z' then some (c.toNat - 71)
  else if '0' ≤ c ∧ c ≤ '9' then some (c.toNat + 4)
  else if c = '+' then some 62
  else if c = '/' then some 63
  else none

/-- How a text that ends inside a group fails. -/
def endOfText (quad written : ℕ) : Except String Bytes :=
  if quad = 0 then .ok []
  else if quad = 1 then
    .error ("Invalid base64-encoded string: number of data characters (" ++
      toString (written / 3 * 4 + 1) ++ ") cannot be 1 more than a multiple of 4")
  else .error "Incorrect padding"

/-- Decode from the position in a group of four digits on: the bits that are left over, the
padding that counts, whether there was padding, and how many bytes were written. -/
def decodeFrom (quad left pads : ℕ) (padding : Bool) (written : ℕ) :
    List Char → Except String Bytes
  | [] => endOfText quad written
  | c :: rest =>
      if c = '=' then
        if 2 ≤ quad ∧ 4 ≤ quad + (pads + 1) then
          if rest ≠ [] then .error "Excess data after padding" else .ok []
        else decodeFrom quad left (if 2 ≤ quad then pads + 1 else pads) true written rest
      else
        match digitValue c with
        | none => .error "Only base64 data is allowed"
        | some digit =>
            if padding then .error "Discontinuous padding not allowed"
            else
              match quad with
              | 0 => decodeFrom 1 digit 0 false written rest
              | 1 => (decodeFrom 2 (digit % 16) 0 false (written + 1) rest).map
                  (UInt8.ofNat (left * 4 + digit / 16) :: ·)
              | 2 => (decodeFrom 3 (digit % 4) 0 false (written + 1) rest).map
                  (UInt8.ofNat (left * 16 + digit / 4) :: ·)
              | _ => (decodeFrom 0 0 0 false (written + 1) rest).map
                  (UInt8.ofNat (left * 64 + digit) :: ·)

/-- `base64.b64decode(text, validate=True)`. -/
def decode (text : List Char) : Except String Bytes :=
  if text.any fun c => 128 ≤ c.toNat then
    .error "string argument should contain only ASCII characters"
  else if text.head? = some '=' then .error "Leading padding not allowed"
  else decodeFrom 0 0 0 false 0 text

/-- What is decoded has no more than so many bytes. -/
def AtMost (n : ℕ) (decoded : Except String Bytes) : Prop :=
  ∀ data, decoded = .ok data → data.length ≤ n

theorem AtMost.error (n : ℕ) (message : String) : AtMost n (.error message) := nofun

theorem AtMost.nil (n : ℕ) : AtMost n (.ok []) := by
  rintro data ⟨⟩
  exact Nat.zero_le n

theorem AtMost.succ {n : ℕ} {decoded : Except String Bytes} (hatMost : AtMost n decoded) :
    AtMost (n + 1) decoded :=
  fun data hdata => (hatMost data hdata).trans (Nat.le_succ n)

theorem AtMost.cons {n : ℕ} {decoded : Except String Bytes} (hatMost : AtMost n decoded)
    (byte : UInt8) : AtMost (n + 1) (decoded.map (byte :: ·)) := by
  intro data hdata
  cases decoded with
  | error message => cases hdata
  | ok rest =>
      obtain rfl := Except.ok.inj hdata
      exact Nat.succ_le_succ (hatMost rest rfl)

theorem decodeFrom_atMost (text : List Char) (quad left pads written : ℕ) (padding : Bool) :
    AtMost text.length (decodeFrom quad left pads padding written text) := by
  induction text generalizing quad left pads padding written with
  | nil =>
      rw [decodeFrom, endOfText]
      split
      · exact AtMost.nil _
      · split <;> exact AtMost.error _ _
  | cons c rest ih =>
      rw [decodeFrom, List.length_cons]
      split
      · split
        · split
          · exact AtMost.error _ _
          · exact AtMost.nil _
        · exact (ih _ _ _ _ _).succ
      · split
        · exact AtMost.error _ _
        · split
          · exact AtMost.error _ _
          · split
            · exact (ih _ _ _ _ _).succ
            · exact (ih _ _ _ _ _).cons _
            · exact (ih _ _ _ _ _).cons _
            · exact (ih _ _ _ _ _).cons _

/-- Decoding makes no text longer. -/
theorem decode_atMost (text : List Char) : AtMost text.length (decode text) := by
  unfold decode
  split
  · exact AtMost.error _ _
  · split
    · exact AtMost.error _ _
    · exact decodeFrom_atMost text 0 0 0 0 false

/-- What is decoded has digits and padding only. -/
theorem decodeFrom_chars {text : List Char} {quad left pads written : ℕ} {padding : Bool}
    {data : Bytes} (hdecode : decodeFrom quad left pads padding written text = .ok data) :
    ∀ c ∈ text, (digitValue c).isSome ∨ c = '=' := by
  have hmap : ∀ {x : Except String Bytes} {byte : UInt8} {data : Bytes},
      x.map (byte :: ·) = .ok data → ∃ rest, x = .ok rest := by
    intro x byte data hx
    cases x with
    | error message => cases hx
    | ok rest => exact ⟨rest, rfl⟩
  induction text generalizing quad left pads written padding data with
  | nil => nofun
  | cons c rest ih =>
      suffices hcons : ((digitValue c).isSome ∨ c = '=') ∧
          ∀ d ∈ rest, (digitValue d).isSome ∨ d = '=' from List.forall_mem_cons.mpr hcons
      rw [decodeFrom] at hdecode
      split at hdecode
      · next hpad =>
          refine ⟨Or.inr hpad, ?_⟩
          split at hdecode
          · split at hdecode
            · cases hdecode
            · next hend =>
                rw [not_not.mp hend]
                nofun
          · exact ih hdecode
      · split at hdecode
        · cases hdecode
        · next digit hdigit =>
            refine ⟨Or.inl (Option.isSome_iff_exists.mpr ⟨digit, hdigit⟩), ?_⟩
            split at hdecode
            · cases hdecode
            · split at hdecode
              · exact ih hdecode
              · exact ih (hmap hdecode).choose_spec
              · exact ih (hmap hdecode).choose_spec
              · exact ih (hmap hdecode).choose_spec

theorem decode_chars {text : List Char} {data : Bytes} (hdecode : decode text = .ok data) :
    ∀ c ∈ text, (digitValue c).isSome ∨ c = '=' := by
  unfold decode at hdecode
  split at hdecode
  · cases hdecode
  · split at hdecode
    · cases hdecode
    · exact decodeFrom_chars hdecode

/-! ## Encoding -/

/-- The digits. -/
def alphabet : List Char :=
  "ABCDEFGHIJKLMNOPQRSTUVWXYZabcdefghijklmnopqrstuvwxyz0123456789+/".toList

/-- A digit. -/
def digit (n : ℕ) : Char := alphabet.getD n 'A'

/-- `base64.b64encode(data)`, as text. -/
def encode : Bytes → List Char
  | [] => []
  | [first] => [digit (first.toNat / 4), digit (first.toNat % 4 * 16), '=', '=']
  | [first, second] =>
      [digit (first.toNat / 4), digit (first.toNat % 4 * 16 + second.toNat / 16),
        digit (second.toNat % 16 * 4), '=']
  | first :: second :: third :: rest =>
      digit (first.toNat / 4) :: digit (first.toNat % 4 * 16 + second.toNat / 16) ::
        digit (second.toNat % 16 * 4 + third.toNat / 64) :: digit (third.toNat % 64) :: encode rest

theorem digitValue_digit : ∀ n < 64, digitValue (digit n) = some n := by decide +kernel

/-- A digit is an ASCII character other than the padding and the separators of lines. -/
structure IsDigit (c : Char) : Prop where
  ascii : c.toNat < 128
  value : (digitValue c).isSome
  ne_pad : c ≠ '='

theorem isDigit_digit {n : ℕ} (hn : n < 64) : IsDigit (digit n) := by
  have hascii : ∀ m < 64, (digit m).toNat < 128 := by decide +kernel
  have hpad : ∀ m < 64, digit m ≠ '=' := by decide +kernel
  refine ⟨hascii n hn, ?_, hpad n hn⟩
  rw [digitValue_digit n hn]
  rfl

section Steps

variable {left n written : ℕ} {rest : List Char}

theorem decodeFrom_first (hn : n < 64) :
    decodeFrom 0 left 0 false written (digit n :: rest) = decodeFrom 1 n 0 false written rest := by
  rw [decodeFrom, if_neg (isDigit_digit hn).ne_pad, digitValue_digit n hn]
  rfl

theorem decodeFrom_second (hn : n < 64) :
    decodeFrom 1 left 0 false written (digit n :: rest) =
      (decodeFrom 2 (n % 16) 0 false (written + 1) rest).map (UInt8.ofNat (left * 4 + n / 16) :: ·) := by
  rw [decodeFrom, if_neg (isDigit_digit hn).ne_pad, digitValue_digit n hn]
  rfl

theorem decodeFrom_third (hn : n < 64) :
    decodeFrom 2 left 0 false written (digit n :: rest) =
      (decodeFrom 3 (n % 4) 0 false (written + 1) rest).map (UInt8.ofNat (left * 16 + n / 4) :: ·) := by
  rw [decodeFrom, if_neg (isDigit_digit hn).ne_pad, digitValue_digit n hn]
  rfl

theorem decodeFrom_fourth (hn : n < 64) :
    decodeFrom 3 left 0 false written (digit n :: rest) =
      (decodeFrom 0 0 0 false (written + 1) rest).map (UInt8.ofNat (left * 64 + n) :: ·) := by
  rw [decodeFrom, if_neg (isDigit_digit hn).ne_pad, digitValue_digit n hn]
  rfl

end Steps

theorem decodeFrom_encode (data : Bytes) (written : ℕ) :
    decodeFrom 0 0 0 false written (encode data) = .ok data := by
  have hbyte : ∀ (byte : UInt8) {n : ℕ}, n = byte.toNat → UInt8.ofNat n = byte := by
    rintro byte n rfl
    exact UInt8.ofNat_toNat
  induction data using encode.induct generalizing written with
  | case1 => rfl
  | case2 first =>
      have hfirst := first.toNat_lt
      rw [encode, decodeFrom_first (by omega), decodeFrom_second (by omega),
        hbyte first (by omega)]
      rfl
  | case3 first second =>
      have hfirst := first.toNat_lt
      have hsecond := second.toNat_lt
      rw [encode, decodeFrom_first (by omega), decodeFrom_second (by omega),
        decodeFrom_third (by omega), hbyte first (by omega), hbyte second (by omega)]
      rfl
  | case4 first second third rest ih =>
      have hfirst := first.toNat_lt
      have hsecond := second.toNat_lt
      have hthird := third.toNat_lt
      rw [encode, decodeFrom_first (by omega), decodeFrom_second (by omega),
        decodeFrom_third (by omega), decodeFrom_fourth (by omega), ih, hbyte first (by omega),
        hbyte second (by omega), hbyte third (by omega)]
      rfl

/-- The characters of an encoding. -/
theorem mem_encode {data : Bytes} : ∀ c ∈ encode data, IsDigit c ∨ c = '=' := by
  have hdigit : ∀ n < 64, IsDigit (digit n) ∨ digit n = '=' := fun n hn => .inl (isDigit_digit hn)
  induction data using encode.induct with
  | case1 => nofun
  | case2 first =>
      have hfirst := first.toNat_lt
      simp only [encode, List.forall_mem_cons, List.not_mem_nil, or_true, forall_const,
        IsEmpty.forall_iff, and_true]
      exact ⟨hdigit _ (by omega), hdigit _ (by omega)⟩
  | case3 first second =>
      have hfirst := first.toNat_lt
      have hsecond := second.toNat_lt
      simp only [encode, List.forall_mem_cons, List.not_mem_nil, or_true, forall_const,
        IsEmpty.forall_iff, and_true]
      exact ⟨hdigit _ (by omega), hdigit _ (by omega), hdigit _ (by omega)⟩
  | case4 first second third rest ih =>
      have hfirst := first.toNat_lt
      have hsecond := second.toNat_lt
      have hthird := third.toNat_lt
      simp only [encode, List.forall_mem_cons]
      exact ⟨hdigit _ (by omega), hdigit _ (by omega), hdigit _ (by omega), hdigit _ (by omega), ih⟩

/-- The first character of an encoding is a digit. -/
theorem encode_head {data : Bytes} (hne : data ≠ []) :
    ∃ c rest, encode data = c :: rest ∧ IsDigit c := by
  cases data using encode.induct with
  | case1 => exact absurd rfl hne
  | case2 first =>
      have hfirst := first.toNat_lt
      exact ⟨_, _, rfl, isDigit_digit (by omega)⟩
  | case3 first second =>
      have hfirst := first.toNat_lt
      exact ⟨_, _, rfl, isDigit_digit (by omega)⟩
  | case4 first second third rest =>
      have hfirst := first.toNat_lt
      exact ⟨_, _, rfl, isDigit_digit (by omega)⟩

/-- **Decoding gives back what was encoded.** -/
theorem decode_encode (data : Bytes) : decode (encode data) = .ok data := by
  have hascii : ¬ (encode data).any (fun c => 128 ≤ c.toNat) = true := by
    rw [List.any_eq_true]
    rintro ⟨c, hc, hlarge⟩
    have hlarge := of_decide_eq_true hlarge
    rcases mem_encode c hc with hdigit | rfl
    · exact absurd hdigit.ascii (by omega)
    · exact absurd hlarge (by decide)
  have hhead : ¬ (encode data).head? = some '=' := by
    intro hpad
    have hne : data ≠ [] := by
      rintro rfl
      cases hpad
    obtain ⟨c, rest, hencode, hdigit⟩ := encode_head hne
    rw [hencode] at hpad
    exact hdigit.ne_pad (Option.some.inj hpad)
  rw [decode, if_neg hascii, if_neg hhead, decodeFrom_encode]

/-- Every fourth character starts a group. -/
theorem drop_encode (groups : ℕ) (data : Bytes) :
    (encode data).drop (4 * groups) = encode (data.drop (3 * groups)) := by
  induction groups generalizing data with
  | zero => rfl
  | succ groups ih =>
      rw [Nat.mul_succ, Nat.mul_succ, Nat.add_comm, Nat.add_comm (3 * groups), ← List.drop_drop,
        ← List.drop_drop, ← ih]
      refine congrArg (List.drop (4 * groups)) ?_
      cases data using encode.induct <;> rfl

end PqcReadiness.Lib.Base64
