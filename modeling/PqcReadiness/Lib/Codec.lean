import PqcReadiness.Lib.Bytes

/-!
# Text encodings

`bytes.decode` for the encodings that the program uses.  UTF-8 is a machine that takes one
byte at a time (`utf8Next`); a strict decoder stops where the machine does, and a decoder
with `errors="replace"` writes one replacement character for each maximal piece that no
well-formed text continues.  The other decoders are used with `errors="replace"` only.
-/

namespace PqcReadiness.Lib

/-- U+FFFD. -/
def replacementChar : Char := '\uFFFD'

/-! ## UTF-8 -/

/-- Between two characters, or inside one: the bits so far, how many bytes are missing, and
the range of the next one. -/
inductive Utf8State where
  | start
  | inside (bits missing low high : ℕ)
  deriving DecidableEq

/-- The state after the first byte of a character. -/
def utf8First (byte : ℕ) : Option (Option Char × Utf8State) :=
  if byte < 0x80 then some (some (Char.ofNat byte), .start)
  else if byte < 0xC2 then none
  else if byte < 0xE0 then some (none, .inside (byte - 0xC0) 1 0x80 0xBF)
  else if byte = 0xE0 then some (none, .inside 0 2 0xA0 0xBF)
  else if byte = 0xED then some (none, .inside 0xD 2 0x80 0x9F)
  else if byte < 0xF0 then some (none, .inside (byte - 0xE0) 2 0x80 0xBF)
  else if byte = 0xF0 then some (none, .inside 0 3 0x90 0xBF)
  else if byte < 0xF4 then some (none, .inside (byte - 0xF0) 3 0x80 0xBF)
  else if byte = 0xF4 then some (none, .inside 4 3 0x80 0x8F)
  else none

/-- One byte: the character that it completes, and the next state. -/
def utf8Next (state : Utf8State) (byte : ℕ) : Option (Option Char × Utf8State) :=
  match state with
  | .start => utf8First byte
  | .inside bits missing low high =>
      if low ≤ byte ∧ byte ≤ high then
        let next := bits * 64 + (byte - 0x80)
        if missing = 1 then some (some (Char.ofNat next), .start)
        else some (none, .inside next (missing - 1) 0x80 0xBF)
      else none

/-- `data.decode("utf-8")` from a state on; none is `UnicodeDecodeError`. -/
def decodeUtf8From (state : Utf8State) : Bytes → Option (List Char)
  | [] => if state = .start then some [] else none
  | byte :: rest =>
      match utf8Next state byte.toNat with
      | none => none
      | some (char, next) => (decodeUtf8From next rest).map (char.toList ++ ·)

/-- `data.decode("utf-8")`. -/
def decodeUtf8 (data : Bytes) : Option String :=
  (decodeUtf8From .start data).map String.ofList

/-- `data.decode("utf-8", "replace")` from a state on. -/
def replaceUtf8From (state : Utf8State) : Bytes → List Char
  | [] => if state = .start then [] else [replacementChar]
  | byte :: rest =>
      match utf8Next state byte.toNat with
      | some (char, next) => char.toList ++ replaceUtf8From next rest
      | none =>
          -- A byte that does not continue a character may start one.
          match state, utf8First byte.toNat with
          | .inside .., some (char, next) =>
              replacementChar :: (char.toList ++ replaceUtf8From next rest)
          | .inside .., none => replacementChar :: replacementChar :: replaceUtf8From .start rest
          | .start, _ => replacementChar :: replaceUtf8From .start rest

/-! ## The other encodings -/

/-- `text.encode("ascii")`, and the literal `b"..."`. -/
def encodeAscii (text : String) : Bytes := text.toList.map fun c => UInt8.ofNat c.toNat

/-- `data.decode("ascii", "replace")`. -/
def replaceAscii (data : Bytes) : List Char :=
  data.map fun byte => if byte.toNat < 0x80 then Char.ofNat byte.toNat else replacementChar

/-- `data.decode("latin-1", "replace")`. -/
def replaceLatin1 (data : Bytes) : List Char := data.map fun byte => Char.ofNat byte.toNat

/-- `data.decode("utf-16-be", "replace")`. -/
def replaceUtf16be : Bytes → List Char
  | [] => []
  | [_] => [replacementChar]
  | high :: low :: rest =>
      let unit := high.toNat * 256 + low.toNat
      if 0xD800 ≤ unit ∧ unit < 0xDC00 then
        match rest with
        | high' :: low' :: rest' =>
            let next := high'.toNat * 256 + low'.toNat
            if 0xDC00 ≤ next ∧ next < 0xE000 then
              Char.ofNat (0x10000 + (unit - 0xD800) * 0x400 + (next - 0xDC00)) ::
                replaceUtf16be rest'
            else replacementChar :: replaceUtf16be (high' :: low' :: rest')
        | _ => [replacementChar]
      else if 0xDC00 ≤ unit ∧ unit < 0xE000 then replacementChar :: replaceUtf16be rest
      else Char.ofNat unit :: replaceUtf16be rest

/-- `data.decode("utf-32-be", "replace")`. -/
def replaceUtf32be : Bytes → List Char
  | [] => []
  | first :: second :: third :: fourth :: rest =>
      let point := ((first.toNat * 256 + second.toNat) * 256 + third.toNat) * 256 + fourth.toNat
      (if point.isValidChar then Char.ofNat point else replacementChar) :: replaceUtf32be rest
  | _ => [replacementChar]

end PqcReadiness.Lib
