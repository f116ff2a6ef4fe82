import PqcReadiness.Lib.Text

/-!
# Numbers, times and quoted text

`int(text)`, `datetime.strptime(text, "%Y%m%d%H%M%S")`, `datetime.isoformat` and `repr(text)`.

The pattern of `strptime` is a sequence of fields, each with alternatives in order of
preference, and the first way to match all of them counts; what it leaves over makes the
conversion fail.
-/

namespace PqcReadiness.Lib

/-! ## Integers -/

/-- The number of decimal digits up to which integers and text are converted. -/
def intMaxStrDigits : ℕ := 4300

/-- `int` refuses a text: a `ValueError`. -/
structure ValueError where
  deriving DecidableEq

/-- `int(digits)` of a text of decimal digits. -/
def intOfDigits (digits : List Char) : Except ValueError ℕ :=
  if intMaxStrDigits < digits.length then .error ⟨⟩ else .ok (decimal digits)

/-- `int` reads texts of digits that are not too long. -/
theorem mapM_intOfDigits {runs : List (List Char)}
    (hruns : ∀ run ∈ runs, run.length ≤ intMaxStrDigits) :
    runs.mapM intOfDigits = .ok (runs.map decimal) := by
  induction runs with
  | nil => rfl
  | cons run runs ih =>
      obtain ⟨hrun, hothers⟩ := List.forall_mem_cons.mp hruns
      rw [List.mapM_cons, intOfDigits, if_neg hrun.not_gt, ih hothers]
      rfl

/-- A text of digits that is too long raises. -/
theorem mapM_intOfDigits_error {runs : List (List Char)}
    (hruns : ¬ ∀ run ∈ runs, run.length ≤ intMaxStrDigits) :
    runs.mapM intOfDigits = .error ⟨⟩ := by
  induction runs with
  | nil => exact absurd (List.forall_mem_nil _) hruns
  | cons run runs ih =>
      rw [List.mapM_cons, intOfDigits]
      by_cases hlong : intMaxStrDigits < run.length
      · rw [if_pos hlong]
        rfl
      · have hothers : ¬ ∀ run ∈ runs, run.length ≤ intMaxStrDigits := fun hothers =>
          hruns (List.forall_mem_cons.mpr ⟨not_lt.mp hlong, hothers⟩)
        rw [if_neg hlong, ih hothers]
        rfl

/-- `isspace` of C. -/
def isAsciiSpace (c : Char) : Bool := c = ' ' || ('\t' ≤ c && c ≤ '\r')

/-- An ASCII digit. -/
def isAsciiDigit (c : Char) : Bool := '0' ≤ c && c ≤ '9'

/-- The value of an ASCII digit. -/
def asciiDigitValue (c : Char) : ℕ := c.toNat - 48

/-- Digits after a digit; single underscores may stand between digits. -/
def moreDigits : List Char → Option (List ℕ)
  | [] => some []
  | '_' :: c :: rest => if isAsciiDigit c then (moreDigits rest).map (asciiDigitValue c :: ·) else none
  | c :: rest => if isAsciiDigit c then (moreDigits rest).map (asciiDigitValue c :: ·) else none

/-- A number without sign. -/
def unsignedOfChars : List Char → Option ℕ
  | [] => none
  | c :: rest =>
      if isAsciiDigit c then
        match moreDigits rest with
        | none => none
        | some digits =>
            if intMaxStrDigits ≤ digits.length then none
            else some ((asciiDigitValue c :: digits).foldl (fun n digit => n * 10 + digit) 0)
      else none

/-- Text that is not ASCII is made so first: spaces, decimal digits and the rest. -/
def asciiForInt (s : List Char) : List Char :=
  if s.all (·.toNat < 128) then s
  else s.map fun c =>
    if c.toNat < 128 then c
    else if isSpace c then ' '
    else match digitValue c with
      | some digit => Char.ofNat (48 + digit)
      | none => '?'

/-- `int(text)`; none is `ValueError`. -/
def intOfChars (s : List Char) : Option ℤ :=
  let text := ((asciiForInt s).dropWhile isAsciiSpace).reverse.dropWhile isAsciiSpace |>.reverse
  match text with
  | '+' :: rest => (unsignedOfChars rest).map Int.ofNat
  | '-' :: rest => (unsignedOfChars rest).map fun n => - Int.ofNat n
  | rest => (unsignedOfChars rest).map Int.ofNat

/-- A digit of base 16. -/
def hexDigit (c : Char) : Option ℕ := if isHex c then some (hexValue c) else none

/-- Base 16 digits after a digit; single underscores may stand between digits. -/
def moreHexDigits : List Char → Option (List ℕ)
  | [] => some []
  | '_' :: c :: rest => do
      let digit ← hexDigit c
      let digits ← moreHexDigits rest
      return digit :: digits
  | c :: rest => do
      let digit ← hexDigit c
      let digits ← moreHexDigits rest
      return digit :: digits

/-- Base 16 digits, of which there is one at least. -/
def someHexDigits : List Char → Option ℕ
  | [] => none
  | c :: rest => do
      let digit ← hexDigit c
      let digits ← moreHexDigits rest
      return (digit :: digits).foldl (fun n digit => n * 16 + digit) 0

/-- A base 16 number without sign, which may start with `0x`. -/
def unsignedOfHex : List Char → Option ℕ
  | '0' :: 'x' :: '_' :: rest => someHexDigits rest
  | '0' :: 'X' :: '_' :: rest => someHexDigits rest
  | '0' :: 'x' :: rest => someHexDigits rest
  | '0' :: 'X' :: rest => someHexDigits rest
  | rest => someHexDigits rest

/-- `int(text, 16)`; none is `ValueError`. -/
def intOfHex (s : List Char) : Option ℤ :=
  let text := ((asciiForInt s).dropWhile isAsciiSpace).reverse.dropWhile isAsciiSpace |>.reverse
  match text with
  | '+' :: rest => (unsignedOfHex rest).map Int.ofNat
  | '-' :: rest => (unsignedOfHex rest).map fun n => - Int.ofNat n
  | rest => (unsignedOfHex rest).map Int.ofNat

/-! ## Times -/

/-- A date and a time of day. -/
structure BrokenDownTime where
  year : ℕ
  month : ℕ
  day : ℕ
  hour : ℕ
  minute : ℕ
  second : ℕ

/-- The number of days of a month. -/
def daysInMonth (year month : ℕ) : ℕ :=
  if month = 2 then
    if year % 4 = 0 ∧ (year % 100 ≠ 0 ∨ year % 400 = 0) then 29 else 28
  else if month = 4 ∨ month = 6 ∨ month = 9 ∨ month = 11 then 30
  else 31

/-- What the constructor of `datetime` accepts of what the pattern can match. -/
def BrokenDownTime.valid (time : BrokenDownTime) : Bool :=
  1 ≤ time.year && time.day ≤ daysInMonth time.year time.month && time.second ≤ 59

/-- A character class of one range. -/
def among (low high c : Char) : Bool := low ≤ c && c ≤ high

/-- The ways to match one field, each with its value and what follows. -/
def fieldMatches (alternatives : List (List (Char → Bool))) (s : List Char) :
    List (ℕ × List Char) :=
  alternatives.filterMap fun shape =>
    let chars := s.take shape.length
    if chars.length = shape.length ∧ (shape.zip chars).all (fun pair => pair.1 pair.2) then
      some (chars.foldl (fun n c => n * 10 + (digitValue c).getD 0) 0, s.drop shape.length)
    else none

/-- `%Y`. -/
def yearField : List (List (Char → Bool)) := [[isDigit, isDigit, isDigit, isDigit]]

/-- `%m`. -/
def monthField : List (List (Char → Bool)) :=
  [[among '1' '1', among '0' '2'], [among '0' '0', among '1' '9'], [among '1' '9']]

/-- `%d`. -/
def dayField : List (List (Char → Bool)) :=
  [[among '3' '3', among '0' '1'], [among '1' '2', isDigit], [among '0' '0', among '1' '9'],
    [among '1' '9'], [among ' ' ' ', among '1' '9']]

/-- `%H`. -/
def hourField : List (List (Char → Bool)) :=
  [[among '2' '2', among '0' '3'], [among '0' '1', isDigit], [isDigit]]

/-- `%M`. -/
def minuteField : List (List (Char → Bool)) := [[among '0' '5', isDigit], [isDigit]]

/-- `%S`. -/
def secondField : List (List (Char → Bool)) :=
  [[among '6' '6', among '0' '1'], [among '0' '5', isDigit], [isDigit]]

/-- The ways to match the whole pattern at the start of a text. -/
def brokenDownTimes (s : List Char) : List (BrokenDownTime × List Char) :=
  (fieldMatches yearField s).flatMap fun (year, s) =>
  (fieldMatches monthField s).flatMap fun (month, s) =>
  (fieldMatches dayField s).flatMap fun (day, s) =>
  (fieldMatches hourField s).flatMap fun (hour, s) =>
  (fieldMatches minuteField s).flatMap fun (minute, s) =>
  (fieldMatches secondField s).map fun (second, s) =>
    (⟨year, month, day, hour, minute, second⟩, s)

/-- `datetime.strptime(text, "%Y%m%d%H%M%S")`; none is `ValueError`. -/
def strptime (s : List Char) : Option BrokenDownTime :=
  match brokenDownTimes s with
  | (time, []) :: _ => if time.valid then some time else none
  | _ => none

/-- A number in at least `width` digits. -/
def zeroPadded (width n : ℕ) : String :=
  let digits := toString n
  String.ofList (List.replicate (width - digits.length) '0') ++ digits

/-- `time.replace(tzinfo=timezone.utc).isoformat()`. -/
def BrokenDownTime.isoformat (time : BrokenDownTime) : String :=
  zeroPadded 4 time.year ++ "-" ++ zeroPadded 2 time.month ++ "-" ++ zeroPadded 2 time.day ++
    "T" ++ zeroPadded 2 time.hour ++ ":" ++ zeroPadded 2 time.minute ++ ":" ++
    zeroPadded 2 time.second ++ "+00:00"

/-! ## Quoted text -/

/-- The digits of a byte in base 16. -/
def hexByte (byte : ℕ) : String :=
  let digit := fun n => String.singleton (Nat.digitChar n)
  digit (byte / 16) ++ digit (byte % 16)

/-- `repr(text)`, of text whose characters beyond ASCII are printable. -/
def reprText (s : List Char) : String :=
  let quote := if '\'' ∈ s ∧ '"' ∉ s then '"' else '\''
  let escape := fun c : Char =>
    if c = quote ∨ c = '\\' then "\\" ++ String.singleton c
    else if c = '\n' then "\\n"
    else if c = '\r' then "\\r"
    else if c = '\t' then "\\t"
    else if c.toNat < 32 ∨ c.toNat = 127 then "\\x" ++ hexByte c.toNat
    else String.singleton c
  String.singleton quote ++ String.join (s.map escape) ++ String.singleton quote

end PqcReadiness.Lib
