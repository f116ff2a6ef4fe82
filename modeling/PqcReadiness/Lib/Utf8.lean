import PqcReadiness.Lib.Codec

/-!
# UTF-8 and back

The decoder with `errors="replace"` gives back the text that was encoded
(`replaceUtf8_encode`).  The encoding of a character is a first byte that says how many follow,
and those that follow: one lemma for each of the four lengths takes the machine through it.
-/

namespace PqcReadiness.Lib

/-- `text.encode("utf-8")`. -/
def encodeUtf8 (text : List Char) : Bytes := text.flatMap String.utf8EncodeChar

section Machine

variable {state next : Utf8State} {byte : UInt8} {char : Option Char} {rest : Bytes}

theorem replaceUtf8From_cons (hnext : utf8Next state byte.toNat = some (char, next)) :
    replaceUtf8From state (byte :: rest) = char.toList ++ replaceUtf8From next rest := by
  rw [replaceUtf8From.eq_def]
  dsimp only
  rw [hnext]

/-- A byte that continues a character, before the last one. -/
theorem replaceUtf8From_middle {bits missing low high n : ℕ} (hn : n < 64)
    (hrange : low ≤ n + 0x80 ∧ n + 0x80 ≤ high) :
    replaceUtf8From (.inside bits (missing + 2) low high) (UInt8.ofNat (n + 0x80) :: rest) =
      replaceUtf8From (.inside (bits * 64 + n) (missing + 1) 0x80 0xBF) rest := by
  have hbyte : (UInt8.ofNat (n + 0x80)).toNat = n + 0x80 := by
    rw [UInt8.toNat_ofNat']
    omega
  have hnext : utf8Next (.inside bits (missing + 2) low high) (UInt8.ofNat (n + 0x80)).toNat =
      some (none, .inside (bits * 64 + n) (missing + 1) 0x80 0xBF) := by
    rw [hbyte, utf8Next, if_pos hrange]
    simp
  rw [replaceUtf8From_cons hnext]
  rfl

/-- The last byte of a character. -/
theorem replaceUtf8From_last {bits low high n : ℕ} (hn : n < 64)
    (hrange : low ≤ n + 0x80 ∧ n + 0x80 ≤ high) :
    replaceUtf8From (.inside bits 1 low high) (UInt8.ofNat (n + 0x80) :: rest) =
      Char.ofNat (bits * 64 + n) :: replaceUtf8From .start rest := by
  have hbyte : (UInt8.ofNat (n + 0x80)).toNat = n + 0x80 := by
    rw [UInt8.toNat_ofNat']
    omega
  have hnext : utf8Next (.inside bits 1 low high) (UInt8.ofNat (n + 0x80)).toNat =
      some (some (Char.ofNat (bits * 64 + n)), .start) := by
    rw [hbyte, utf8Next, if_pos hrange]
    simp
  rw [replaceUtf8From_cons hnext]
  rfl

/-- The first byte of a character that has more than one. -/
theorem replaceUtf8From_first {n bits missing low high : ℕ} (hn : n < 256)
    (hfirst : utf8First n = some (none, .inside bits missing low high)) :
    replaceUtf8From .start (UInt8.ofNat n :: rest) =
      replaceUtf8From (.inside bits missing low high) rest := by
  have hbyte : (UInt8.ofNat n).toNat = n := by
    rw [UInt8.toNat_ofNat']
    omega
  have hnext : utf8Next .start (UInt8.ofNat n).toNat =
      some (none, .inside bits missing low high) := by
    rw [hbyte]
    exact hfirst
  rw [replaceUtf8From_cons hnext]
  rfl

end Machine

/-! ## First bytes -/

theorem utf8First_two {n : ℕ} (hlow : 2 ≤ n) (hhigh : n < 32) :
    utf8First (n + 0xC0) = some (none, .inside n 1 0x80 0xBF) := by
  unfold utf8First
  rw [if_neg (by omega), if_neg (by omega), if_pos (by omega), Nat.add_sub_cancel]

/-- With the range of the second byte: no short forms, and no surrogates. -/
theorem utf8First_three {n second : ℕ} (hn : n < 16) (hshort : n = 0 → 0x20 ≤ second)
    (hsurrogate : n = 0xD → second < 0x20) (hsecond : second < 64) :
    ∃ low high, utf8First (n + 0xE0) = some (none, .inside n 2 low high) ∧
      low ≤ second + 0x80 ∧ second + 0x80 ≤ high := by
  unfold utf8First
  rw [if_neg (by omega), if_neg (by omega), if_neg (by omega)]
  by_cases hzero : n = 0
  · have hle := hshort hzero
    rw [if_pos (by omega), hzero]
    exact ⟨0xA0, 0xBF, rfl, by omega, by omega⟩
  · rw [if_neg (by omega)]
    by_cases hd : n = 0xD
    · have hlt := hsurrogate hd
      rw [if_pos (by omega), hd]
      exact ⟨0x80, 0x9F, rfl, by omega, by omega⟩
    · rw [if_neg (by omega), if_pos (by omega), Nat.add_sub_cancel]
      exact ⟨0x80, 0xBF, rfl, by omega, by omega⟩

/-- With the range of the second byte: no short forms, and nothing above U+10FFFF. -/
theorem utf8First_four {n second : ℕ} (hn : n < 5) (hshort : n = 0 → 0x10 ≤ second)
    (hlarge : n = 4 → second < 0x10) (hsecond : second < 64) :
    ∃ low high, utf8First (n + 0xF0) = some (none, .inside n 3 low high) ∧
      low ≤ second + 0x80 ∧ second + 0x80 ≤ high := by
  unfold utf8First
  rw [if_neg (by omega), if_neg (by omega), if_neg (by omega), if_neg (by omega),
    if_neg (by omega), if_neg (by omega)]
  by_cases hzero : n = 0
  · have hle := hshort hzero
    rw [if_pos (by omega), hzero]
    exact ⟨0x90, 0xBF, rfl, by omega, by omega⟩
  · rw [if_neg (by omega)]
    by_cases hfour : n = 4
    · have hlt := hlarge hfour
      rw [if_neg (by omega), if_pos (by omega), hfour]
      exact ⟨0x80, 0x8F, rfl, by omega, by omega⟩
    · rw [if_pos (by omega), Nat.add_sub_cancel]
      exact ⟨0x80, 0xBF, rfl, by omega, by omega⟩

/-! ## Characters and texts -/

theorem replaceUtf8From_encodeChar (c : Char) (rest : Bytes) :
    replaceUtf8From .start (String.utf8EncodeChar c ++ rest) =
      c :: replaceUtf8From .start rest := by
  have hchar : ∀ n, n = c.val.toNat → Char.ofNat n = c := by
    rintro n rfl
    exact Char.ofNat_toNat c
  have hvalid : c.val.toNat < 0xD800 ∨ 0xDFFF < c.val.toNat ∧ c.val.toNat < 0x110000 := c.valid
  unfold String.utf8EncodeChar
  generalize hv : c.val.toNat = v at hchar hvalid ⊢
  dsimp only
  split
  · next hone =>
      have hbyte : (UInt8.ofNat v).toNat = v := by
        rw [UInt8.toNat_ofNat']
        omega
      have hnext : utf8Next .start (UInt8.ofNat v).toNat = some (some (Char.ofNat v), .start) := by
        rw [hbyte]
        exact if_pos (by omega)
      rw [List.singleton_append, replaceUtf8From_cons hnext, hchar v rfl]
      rfl
  · split
    · rw [Nat.mod_eq_of_lt (show v / 64 < 0x20 by omega)]
      simp only [List.cons_append, List.nil_append]
      rw [replaceUtf8From_first (by omega) (utf8First_two (by omega) (by omega)),
        replaceUtf8From_last (by omega) (by omega), hchar _ (by omega)]
    · split
      · obtain ⟨low, high, hfirst, hrange⟩ := @utf8First_three (v / 4096) (v / 64 % 64)
          (by omega) (by omega) (by omega) (by omega)
        rw [Nat.mod_eq_of_lt (show v / 4096 < 0x10 by omega)]
        simp only [List.cons_append, List.nil_append]
        rw [replaceUtf8From_first (by omega) hfirst,
          @replaceUtf8From_middle _ _ 0 _ _ _ (by omega) hrange,
          replaceUtf8From_last (by omega) (by omega), hchar _ (by omega)]
      · obtain ⟨low, high, hfirst, hrange⟩ := @utf8First_four (v / 262144) (v / 4096 % 64)
          (by omega) (by omega) (by omega) (by omega)
        rw [Nat.mod_eq_of_lt (show v / 262144 < 0x08 by omega)]
        simp only [List.cons_append, List.nil_append]
        rw [replaceUtf8From_first (by omega) hfirst,
          @replaceUtf8From_middle _ _ 1 _ _ _ (by omega) hrange,
          @replaceUtf8From_middle _ _ 0 _ _ _ (by omega) (by omega),
          replaceUtf8From_last (by omega) (by omega), hchar _ (by omega)]

/-- **Decoding gives back what was encoded.** -/
theorem replaceUtf8_encode (text : List Char) :
    replaceUtf8From .start (encodeUtf8 text) = text := by
  induction text with
  | nil => rfl
  | cons c rest ih =>
      have hencode : encodeUtf8 (c :: rest) = String.utf8EncodeChar c ++ encodeUtf8 rest :=
        List.flatMap_cons
      rw [hencode, replaceUtf8From_encodeChar, ih]

/-- A character other than NUL has no zero byte. -/
theorem replaceUtf8_encode_append (text : List Char) (rest : Bytes) :
    replaceUtf8From .start (encodeUtf8 text ++ rest) = text ++ replaceUtf8From .start rest := by
  induction text with
  | nil => rfl
  | cons c text ih =>
      have hencode : encodeUtf8 (c :: text) = String.utf8EncodeChar c ++ encodeUtf8 text :=
        List.flatMap_cons
      rw [hencode, List.append_assoc, replaceUtf8From_encodeChar, ih, List.cons_append]

/-! ## Pieces -/

/-- The next byte of a character is one of those that continue one. -/
def Utf8State.Continues : Utf8State → Prop
  | .start => True
  | .inside _ _ low high => 0x80 ≤ low ∧ high ≤ 0xBF

theorem continues_of_utf8First {byte : ℕ} {char : Option Char} {next : Utf8State}
    (hfirst : utf8First byte = some (char, next)) : next.Continues := by
  simp only [utf8First] at hfirst
  split_ifs at hfirst <;> cases hfirst <;> simp [Utf8State.Continues]

theorem continues_of_utf8Next {state next : Utf8State} {byte : ℕ} {char : Option Char}
    (hnext : utf8Next state byte = some (char, next)) : next.Continues := by
  cases state with
  | start => exact continues_of_utf8First hnext
  | inside bits missing low high =>
      simp only [utf8Next] at hnext
      split_ifs at hnext <;> cases hnext <;> simp [Utf8State.Continues]

/-- A text of bytes that starts no later than a character does. -/
def StartsAfresh (data : Bytes) : Prop := ∀ byte ∈ data.head?, byte.toNat < 0x80 ∨ 0xBF < byte.toNat

/-- Where a character starts anew, the decoder does. -/
theorem replaceUtf8From_append {state : Utf8State} (hstate : state.Continues) (data : Bytes)
    {rest : Bytes} (hrest : StartsAfresh rest) :
    replaceUtf8From state (data ++ rest) =
      replaceUtf8From state data ++ replaceUtf8From .start rest := by
  induction data generalizing state with
  | nil =>
      cases state with
      | start => rfl
      | inside bits missing low high =>
          have hnil : replaceUtf8From (.inside bits missing low high) [] = [replacementChar] := by
            rw [replaceUtf8From, if_neg Utf8State.noConfusion]
          rw [List.nil_append, hnil]
          cases rest with
          | nil => rw [hnil, replaceUtf8From, if_pos rfl, List.append_nil]
          | cons byte rest =>
              have hbyte := hrest byte rfl
              have hout : utf8Next (.inside bits missing low high) byte.toNat = none := by
                rw [utf8Next, if_neg]
                obtain ⟨hlow, hhigh⟩ := hstate
                omega
              have hfirst : utf8Next .start byte.toNat = utf8First byte.toNat := rfl
              rw [replaceUtf8From.eq_def, replaceUtf8From.eq_def .start]
              dsimp only
              rw [hout, hfirst]
              cases utf8First byte.toNat <;> rfl
  | cons byte data ih =>
      rw [List.cons_append, replaceUtf8From.eq_def, replaceUtf8From.eq_def state (byte :: data)]
      dsimp only
      cases hnext : utf8Next state byte.toNat with
      | some read =>
          obtain ⟨char, next⟩ := read
          dsimp only
          rw [ih (continues_of_utf8Next hnext), List.append_assoc]
      | none =>
          cases state with
          | start =>
              have hafter := ih (show Utf8State.start.Continues from trivial)
              dsimp only
              rw [hafter, List.cons_append]
          | inside bits missing low high =>
              cases hfirst : utf8First byte.toNat with
              | none =>
                  have hafter := ih (show Utf8State.start.Continues from trivial)
                  dsimp only
                  rw [hafter, List.cons_append, List.cons_append]
              | some read =>
                  obtain ⟨char, next⟩ := read
                  dsimp only
                  rw [ih (continues_of_utf8First hfirst), List.cons_append, List.append_assoc]

theorem startsAfresh_encodeUtf8 (text : List Char) : StartsAfresh (encodeUtf8 text) := by
  cases text with
  | nil =>
      intro byte hbyte
      cases hbyte
  | cons c text =>
      have hencode : encodeUtf8 (c :: text) = String.utf8EncodeChar c ++ encodeUtf8 text :=
        List.flatMap_cons
      rw [hencode]
      intro byte hbyte
      have hvalid : c.val.toNat < 0x110000 := by
        have hchar := c.valid
        rcases hchar with hlow | hhigh
        · exact Nat.lt_trans hlow (by decide)
        · exact hhigh.2
      unfold String.utf8EncodeChar at hbyte
      generalize c.val.toNat = v at hbyte hvalid
      dsimp only at hbyte
      split at hbyte
      · obtain rfl := Option.some.inj hbyte
        left
        rw [UInt8.toNat_ofNat']
        omega
      · right
        split at hbyte
        · obtain rfl := Option.some.inj hbyte
          rw [UInt8.toNat_ofNat']
          omega
        · split at hbyte
          · obtain rfl := Option.some.inj hbyte
            rw [UInt8.toNat_ofNat']
            omega
          · obtain rfl := Option.some.inj hbyte
            rw [UInt8.toNat_ofNat']
            omega

theorem zero_notMem_encodeChar {c : Char} (hc : c ≠ '\x00') :
    (0 : UInt8) ∉ String.utf8EncodeChar c := by
  have hpos : c.val.toNat ≠ 0 := by
    intro hzero
    exact hc (Char.ext (UInt32.toNat_inj.mp hzero))
  have hnonzero : ∀ n, 0 < n → n < 256 → (0 : UInt8) ≠ UInt8.ofNat n := by
    intro n hlow hhigh heq
    have hnat := congrArg UInt8.toNat heq
    rw [UInt8.toNat_ofNat', Nat.mod_eq_of_lt hhigh] at hnat
    exact absurd hnat (Nat.ne_of_lt hlow)
  have hvalid : c.val.toNat < 0xD800 ∨ 0xDFFF < c.val.toNat ∧ c.val.toNat < 0x110000 := c.valid
  unfold String.utf8EncodeChar
  generalize c.val.toNat = v at hpos hvalid ⊢
  dsimp only
  split
  · simp only [List.mem_cons, List.not_mem_nil, or_false]
    exact hnonzero _ (by omega) (by omega)
  · split
    · simp only [List.mem_cons, List.not_mem_nil, or_false, not_or]
      exact ⟨hnonzero _ (by omega) (by omega), hnonzero _ (by omega) (by omega)⟩
    · split
      · simp only [List.mem_cons, List.not_mem_nil, or_false, not_or]
        exact ⟨hnonzero _ (by omega) (by omega), hnonzero _ (by omega) (by omega),
          hnonzero _ (by omega) (by omega)⟩
      · simp only [List.mem_cons, List.not_mem_nil, or_false, not_or]
        exact ⟨hnonzero _ (by omega) (by omega), hnonzero _ (by omega) (by omega),
          hnonzero _ (by omega) (by omega), hnonzero _ (by omega) (by omega)⟩

theorem zero_notMem_encodeUtf8 {text : List Char} (htext : '\x00' ∉ text) :
    (0 : UInt8) ∉ encodeUtf8 text := by
  intro hmem
  obtain ⟨c, hc, hbyte⟩ := List.mem_flatMap.mp hmem
  have hne : c ≠ '\x00' := by
    rintro rfl
    exact htext hc
  exact zero_notMem_encodeChar hne hbyte

end PqcReadiness.Lib
