import PqcReadiness.Lib.Codec

/-!
# UTF-16 and UTF-32 and back

The big-endian encodings with two and four bytes a unit, and that the decoders give back the text
that was encoded.
-/

namespace PqcReadiness.Lib

/-- A number below 2¹⁶ in two bytes. -/
def twoBytes (n : ℕ) : Bytes := [UInt8.ofNat (n / 256), UInt8.ofNat (n % 256)]

/-- The UTF-16 units of a character, big-endian. -/
def encodeCharUtf16be (c : Char) : Bytes :=
  if c.toNat < 0x10000 then twoBytes c.toNat
  else
    twoBytes (0xD800 + (c.toNat - 0x10000) / 0x400) ++
      twoBytes (0xDC00 + (c.toNat - 0x10000) % 0x400)

/-- `text.encode("utf-16-be")`. -/
def encodeUtf16be (text : List Char) : Bytes := text.flatMap encodeCharUtf16be

/-- `text.encode("utf-32-be")`. -/
def encodeUtf32be (text : List Char) : Bytes :=
  text.flatMap fun c => twoBytes (c.toNat / 0x10000) ++ twoBytes (c.toNat % 0x10000)

/-- `text.encode("ascii")` and `text.encode("latin-1")` of a text that the encoding has. -/
def encodeNarrow (text : List Char) : Bytes := text.map fun c => UInt8.ofNat c.toNat

theorem toNat_highByte {n : ℕ} (hn : n < 0x10000) : (UInt8.ofNat (n / 256)).toNat = n / 256 := by
  rw [UInt8.toNat_ofNat']
  omega

theorem toNat_lowByte (n : ℕ) : (UInt8.ofNat (n % 256)).toNat = n % 256 := by
  rw [UInt8.toNat_ofNat']
  omega

/-- A character is not a surrogate, and not above U+10FFFF. -/
theorem char_valid (c : Char) :
    c.toNat < 0xD800 ∨ 0xDFFF < c.toNat ∧ c.toNat < 0x110000 := c.valid

theorem replaceUtf16be_unit {n : ℕ} (hn : n < 0x10000) (hnot : n < 0xD800 ∨ 0xE000 ≤ n)
    (rest : Bytes) : replaceUtf16be (twoBytes n ++ rest) = Char.ofNat n :: replaceUtf16be rest := by
  have hunit : n / 256 * 256 + n % 256 = n := Nat.div_add_mod' n 256
  rw [twoBytes, List.cons_append, List.singleton_append, replaceUtf16be.eq_def]
  dsimp only
  rw [toNat_highByte hn, toNat_lowByte, hunit, if_neg (by omega), if_neg (by omega)]

theorem replaceUtf16be_pair {high low : ℕ} (hhigh : 0xD800 ≤ high ∧ high < 0xDC00)
    (hlow : 0xDC00 ≤ low ∧ low < 0xE000) (rest : Bytes) :
    replaceUtf16be (twoBytes high ++ (twoBytes low ++ rest)) =
      Char.ofNat (0x10000 + (high - 0xD800) * 0x400 + (low - 0xDC00)) :: replaceUtf16be rest := by
  have hhighUnit : high / 256 * 256 + high % 256 = high := Nat.div_add_mod' high 256
  have hlowUnit : low / 256 * 256 + low % 256 = low := Nat.div_add_mod' low 256
  rw [twoBytes, twoBytes, List.cons_append, List.singleton_append, List.cons_append,
    List.singleton_append, replaceUtf16be.eq_def]
  dsimp only
  rw [toNat_highByte (by omega), toNat_lowByte, hhighUnit, if_pos hhigh, toNat_highByte (by omega),
    toNat_lowByte, hlowUnit, if_pos hlow]

theorem replaceUtf16be_encode (text : List Char) : replaceUtf16be (encodeUtf16be text) = text := by
  induction text with
  | nil => rfl
  | cons c rest ih =>
      have hencode : encodeUtf16be (c :: rest) = encodeCharUtf16be c ++ encodeUtf16be rest :=
        List.flatMap_cons
      have hvalid := char_valid c
      rw [hencode, encodeCharUtf16be]
      split
      · rw [replaceUtf16be_unit (by omega) (by omega), Char.ofNat_toNat, ih]
      · have hpoint : 0x10000 + (0xD800 + (c.toNat - 0x10000) / 0x400 - 0xD800) * 0x400 +
            (0xDC00 + (c.toNat - 0x10000) % 0x400 - 0xDC00) = c.toNat := by omega
        rw [List.append_assoc, replaceUtf16be_pair (by omega) (by omega), hpoint, Char.ofNat_toNat,
          ih]

theorem two_halves (n : ℕ) :
    (n / 0x10000 * 256 + n % 0x10000 / 256) * 256 + n % 0x10000 % 256 = n := by omega

theorem replaceUtf32be_encode (text : List Char) : replaceUtf32be (encodeUtf32be text) = text := by
  induction text with
  | nil => rfl
  | cons c rest ih =>
      have hvalid := char_valid c
      have hhigh : c.toNat / 0x10000 / 256 * 256 + c.toNat / 0x10000 % 256 = c.toNat / 0x10000 :=
        Nat.div_add_mod' _ 256
      have hchar : c.toNat.isValidChar := c.valid
      rw [encodeUtf32be, List.flatMap_cons, ← encodeUtf32be, twoBytes, twoBytes]
      simp only [List.cons_append, List.nil_append]
      rw [replaceUtf32be, toNat_highByte (by omega), toNat_lowByte, toNat_highByte (by omega),
        toNat_lowByte, hhigh, ih,
        two_halves, if_pos hchar, Char.ofNat_toNat]

theorem replaceLatin1_encode {text : List Char} (htext : ∀ c ∈ text, c.toNat < 0x100) :
    replaceLatin1 (encodeNarrow text) = text := by
  rw [replaceLatin1, encodeNarrow, List.map_map]
  refine (List.map_congr_left fun c hc => ?_).trans (List.map_id text)
  have hbyte : (UInt8.ofNat c.toNat).toNat = c.toNat := by
    have hsmall := htext c hc
    rw [UInt8.toNat_ofNat']
    omega
  simp only [Function.comp_apply, hbyte, Char.ofNat_toNat, id]

end PqcReadiness.Lib
