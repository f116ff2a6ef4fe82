import Mathlib.Data.List.Basic
import Mathlib.Data.Rat.Defs
import PqcReadiness.Lib.Dict

/-!
# Text, JSON values and regular expressions

The string operations of a scripting language, on Lean's `String`: a text is a
sequence of Unicode scalar values, and every operation is defined on the
underlying character list, so that it computes and can be unfolded.

Whitespace and decimal digits follow the Unicode tables (`str.strip` and `\s`
agree on the first, `\d` and `int` on the second).  Case mapping and the word
class `\w` need the full character database; they are fields of `CharData`, and
nothing in the library depends on what they contain.

`Json` is the type of parsed JSON documents.  An object keeps its members in
document order; reading a member takes the first with that key.

`Regex` is matched by derivatives.  `beforeNewline` is what a final `$` makes of
a test for the whole text: it also accepts one newline after the text.
-/

namespace PqcReadiness.Lib

/-- What is said of the characters of a text is decided along the text, not over all characters. -/
instance (priority := high) decidableForallMem {α : Type*} (p : α → Prop) [DecidablePred p]
    (xs : List α) : Decidable (∀ x ∈ xs, p x) :=
  List.decidableBAll p xs

instance (priority := high) decidableExistsMem {α : Type*} (p : α → Prop) [DecidablePred p]
    (xs : List α) : Decidable (∃ x ∈ xs, p x) :=
  List.decidableBEx p xs

instance (priority := high) decidableExistsMemOption {α : Type*} (p : α → Prop) [DecidablePred p]
    (x : Option α) : Decidable (∃ y ∈ x, p y) :=
  Option.decidableExistsMem x

instance (priority := high) decidableForallMemOption {α : Type*} (p : α → Prop) [DecidablePred p]
    (x : Option α) : Decidable (∀ y ∈ x, p y) :=
  Option.decidableForallMem x

/-- Texts are compared by their characters. -/
instance lawfulBEqChars : LawfulBEq (List Char) := inferInstance

/-! ## Characters -/

/-- Whitespace as `str.isspace`, `str.strip` and `\s` have it. -/
def isSpace (c : Char) : Bool :=
  let n := c.toNat
  (9 ≤ n && n ≤ 13) || (28 ≤ n && n ≤ 32) || n == 0x85 || n == 0xA0 || n == 0x1680 ||
    (0x2000 ≤ n && n ≤ 0x200A) || n == 0x2028 || n == 0x2029 || n == 0x202F || n == 0x205F ||
    n == 0x3000

/-- The zeros of the decimal digit blocks (general category `Nd`); each block
is ten consecutive code points. -/
def decimalZeros : List Nat :=
  [0x30, 0x660, 0x6F0, 0x7C0, 0x966, 0x9E6, 0xA66, 0xAE6, 0xB66, 0xBE6, 0xC66, 0xCE6, 0xD66,
    0xDE6, 0xE50, 0xED0, 0xF20, 0x1040, 0x1090, 0x17E0, 0x1810, 0x1946, 0x19D0, 0x1A80, 0x1A90,
    0x1B50, 0x1BB0, 0x1C40, 0x1C50, 0xA620, 0xA8D0, 0xA900, 0xA9D0, 0xA9F0, 0xAA50, 0xABF0,
    0xFF10, 0x104A0, 0x10D30, 0x11066, 0x110F0, 0x11136, 0x111D0, 0x112F0, 0x11450, 0x114D0,
    0x11650, 0x116C0, 0x11730, 0x118E0, 0x11950, 0x11C50, 0x11D50, 0x11DA0, 0x11F50, 0x16A60,
    0x16AC0, 0x16B50, 0x1D7CE, 0x1D7D8, 0x1D7E2, 0x1D7EC, 0x1D7F6, 0x1E140, 0x1E2F0, 0x1E4F0,
    0x1E950, 0x1FBF0]

/-- The value of a decimal digit of any script. -/
def digitValue (c : Char) : Option Nat :=
  (decimalZeros.find? fun base => base ≤ c.toNat && c.toNat < base + 10).map (c.toNat - ·)

/-- `\d`. -/
def isDigit (c : Char) : Bool := (digitValue c).isSome

/-- An ASCII letter or digit of base 16. -/
def isHex (c : Char) : Bool :=
  ('0' ≤ c && c ≤ '9') || ('a' ≤ c && c ≤ 'f') || ('A' ≤ c && c ≤ 'F')

/-- The value of a base 16 digit. -/
def hexValue (c : Char) : Nat :=
  if '0' ≤ c && c ≤ '9' then c.toNat - 48
  else if 'a' ≤ c && c ≤ 'f' then c.toNat - 87
  else c.toNat - 55

/-- The parts of the character database that differ between releases. -/
structure CharData where
  /-- `str.lower`. -/
  lower : String → String
  /-- `\w`. -/
  isWord : Char → Bool

/-! ## Strings -/

section Strings

/-- `s.strip()`, on characters. -/
def stripChars (s : List Char) : List Char :=
  ((s.dropWhile isSpace).reverse.dropWhile isSpace).reverse

/-- `s.strip()`. -/
def strip (s : String) : String := String.ofList (stripChars s.toList)

/-- `s.rstrip(c)` for one character. -/
def rstripChar (c : Char) (s : String) : String :=
  String.ofList (s.toList.reverse.dropWhile (· == c)).reverse

/-- `s.startswith(first)`. -/
def startsWith (first s : String) : Bool := first.toList.isPrefixOf s.toList

/-- `s.endswith(last)`. -/
def endsWith (last s : String) : Bool := last.toList.isSuffixOf s.toList

/-- `s.removeprefix(first)`. -/
def dropFirst (first s : String) : String :=
  if startsWith first s then String.ofList (s.toList.drop first.toList.length) else s

/-- `s.removesuffix(last)`. -/
def dropLast (last s : String) : String :=
  if endsWith last s then String.ofList (s.toList.take (s.toList.length - last.toList.length))
  else s

/-- Split a character list at every `sep`. -/
def splitChars (sep : Char) : List Char → List (List Char)
  | [] => [[]]
  | c :: rest =>
      if c = sep then [] :: splitChars sep rest
      else
        match splitChars sep rest with
        | [] => [[c]]
        | word :: words => (c :: word) :: words

/-- `s.split(sep)` for a one-character separator. -/
def split (sep : Char) (s : String) : List String := (splitChars sep s.toList).map String.ofList

/-- Split a character list at every character that ends a word. -/
def splitWhere (ends : Char → Bool) : List Char → List (List Char)
  | [] => [[]]
  | c :: rest =>
      if ends c then [] :: splitWhere ends rest
      else
        match splitWhere ends rest with
        | [] => [[c]]
        | word :: words => (c :: word) :: words

/-- `s.split()`: the words between runs of whitespace. -/
def words (s : String) : List String :=
  ((splitWhere isSpace s.toList).filter (· ≠ [])).map String.ofList

/-- `s.split(None, n)`, on characters: at most `n` words and the rest, from its first word on. -/
def fields : ℕ → List Char → List (List Char)
  | 0, s => ([s.dropWhile isSpace]).filter (· ≠ [])
  | n + 1, s =>
      match s.dropWhile isSpace with
      | [] => []
      | c :: rest =>
          (c :: rest.takeWhile fun c => !isSpace c) :: fields n (rest.dropWhile fun c => !isSpace c)

/-- The characters at which `str.splitlines` ends a line. -/
def isLineBreak (c : Char) : Bool :=
  let n := c.toNat
  (10 ≤ n && n ≤ 13) || (28 ≤ n && n ≤ 30) || n == 0x85 || n == 0x2028 || n == 0x2029

/-- `s.splitlines()`, on characters: `\r\n` is one break, and a final break starts no
line. -/
def splitLinesChars : List Char → List (List Char)
  | [] => []
  | '\r' :: '\n' :: rest => [] :: splitLinesChars rest
  | c :: rest =>
      if isLineBreak c then [] :: splitLinesChars rest
      else
        match splitLinesChars rest with
        | [] => [[c]]
        | line :: lines => (c :: line) :: lines

/-- `s.splitlines()`. -/
def splitLines (s : String) : List String := (splitLinesChars s.toList).map String.ofList

/-- The line ends of a text file as `open` gives them. -/
def universalNewlines : List Char → List Char
  | [] => []
  | '\r' :: '\n' :: rest => '\n' :: universalNewlines rest
  | '\r' :: rest => '\n' :: universalNewlines rest
  | c :: rest => c :: universalNewlines rest

/-- `s.split(sep, n)` for a one-character separator. -/
def splitAtMost (sep : Char) : ℕ → List Char → List (List Char)
  | 0, s => [s]
  | n + 1, s =>
      match s.dropWhile (· ≠ sep) with
      | [] => [s]
      | _ :: rest => s.takeWhile (· ≠ sep) :: splitAtMost sep n rest

/-- `s.replace(old, new)`, on characters; of an occurrence that was replaced, `skip` characters
are left. -/
def replaceChars (old new : List Char) : ℕ → List Char → List Char
  | _, [] => []
  | skip + 1, _ :: rest => replaceChars old new skip rest
  | 0, c :: rest =>
      if old.isPrefixOf (c :: rest) then new ++ replaceChars old new (old.length - 1) rest
      else c :: replaceChars old new 0 rest

/-- `s.replace(old, new)`. -/
def replaceText (old new s : String) : String :=
  String.ofList (replaceChars old.toList new.toList 0 s.toList)

/-- `s.split(sep, 1)[0]` for a one-character separator. -/
def beforeChar (sep : Char) (s : String) : String :=
  String.ofList (s.toList.takeWhile (· != sep))

/-- The characters before the first occurrence of `sub`. -/
def beforeChars (sub : List Char) : List Char → List Char
  | [] => []
  | c :: rest => if sub.isPrefixOf (c :: rest) then [] else c :: beforeChars sub rest

/-- `s.split(sub, 1)[0]`. -/
def beforeSub (sub s : String) : String := String.ofList (beforeChars sub.toList s.toList)

/-- `s.rsplit(sep, 1)[-1]` for a one-character separator. -/
def afterLastChar (sep : Char) (s : String) : String :=
  String.ofList (s.toList.reverse.takeWhile (· != sep)).reverse

/-- `sub in s`, on characters. -/
def containsChars (sub : List Char) : List Char → Bool
  | [] => sub.isEmpty
  | c :: rest => sub.isPrefixOf (c :: rest) || containsChars sub rest

/-- `sub in s`. -/
def containsSub (sub s : String) : Bool := containsChars sub.toList s.toList

/-- `re.findall(r"\d+", s)`: the maximal runs of digits, in order. -/
def digitRuns : List Char → List (List Char)
  | [] => []
  | c :: rest =>
      if isDigit c then
        match rest with
        | [] => [[c]]
        | next :: _ =>
            if isDigit next then
              match digitRuns rest with
              | [] => [[c]]
              | run :: runs => (c :: run) :: runs
            else [c] :: digitRuns rest
      else digitRuns rest

/-- `int(s)` of a text of decimal digits. -/
def decimal (digits : List Char) : Nat :=
  digits.foldl (fun value c => 10 * value + (digitValue c).getD 0) 0

/-- `int(s, 16)` of a text of base 16 digits. -/
def hexadecimal (digits : List Char) : Nat :=
  digits.foldl (fun value c => 16 * value + hexValue c) 0

/-- What `$` makes of a test for the whole text: the text passes, or the text
before one final newline does. -/
def beforeNewline (accept : String → Bool) (s : String) : Bool :=
  accept s || (endsWith "\n" s && accept (dropLast "\n" s))

/-- `", ".join(texts)` for any separator. -/
def join (sep : String) : List String → String
  | [] => ""
  | [text] => text
  | text :: rest => text ++ sep ++ join sep rest

theorem toString_injective {m n : ℕ} (hsame : toString m = toString n) : m = n := by
  rw [Nat.toString_eq_ofList_toDigits, Nat.toString_eq_ofList_toDigits, String.ofList_inj] at hsame
  calc
    m = Nat.ofDigitChars 10 (Nat.toDigits 10 m) 0 := Nat.ofDigitChars_ten_toDigits.symm
    _ = Nat.ofDigitChars 10 (Nat.toDigits 10 n) 0 := by rw [hsame]
    _ = n := Nat.ofDigitChars_ten_toDigits

theorem isDigit_of_mem_toString {c : Char} {n : ℕ} (hc : c ∈ (toString n).toList) :
    c.isDigit = true := by
  rw [Nat.toString_eq_ofList_toDigits, String.toList_ofList] at hc
  exact Nat.isDigit_of_mem_toDigits (by decide) (by decide) hc

theorem toList_join (sep : String) (texts : List String) :
    (join sep texts).toList = sep.toList.intercalate (texts.map String.toList) := by
  induction texts with
  | nil => rfl
  | cons text rest ih =>
      cases rest with
      | nil => rw [join, List.map_singleton, List.intercalate_singleton]
      | cons other rest =>
          have hjoin : join sep (text :: other :: rest) = text ++ sep ++ join sep (other :: rest) :=
            rfl
          rw [hjoin, String.toList_append, String.toList_append, ih]
          simp only [List.map_cons, List.intercalate_cons_cons]

theorem join_ne_empty {sep first : String} (hfirst : first ≠ "") (rest : List String) :
    join sep (first :: rest) ≠ "" := by
  cases rest with
  | nil => exact hfirst
  | cons second rest =>
      intro hjoin
      have hlength := congrArg String.length hjoin
      simp only [join, String.length_append, String.length_empty] at hlength
      exact hfirst (String.length_eq_zero_iff.mp (by omega))

end Strings

/-! ## JSON -/

/-- A parsed JSON document.  Integers and numbers with a fraction or exponent
are different types to the reader (`int` and `float`). -/
inductive Json where
  | null
  | bool (value : Bool)
  | int (value : ℤ)
  | float (value : ℚ)
  | str (value : String)
  | arr (items : List Json)
  | obj (members : List (String × Json))

namespace Json

instance : Inhabited Json := ⟨null⟩

/-- `members.get(key)`: `null` when the key is absent. -/
def get (members : List (String × Json)) (key : String) : Json := (find key members).getD null

/-- The truth value of a document, as `bool(value)`. -/
def truthy : Json → Bool
  | null => false
  | bool value => value
  | int value => value != 0
  | float value => value != 0
  | str value => value != ""
  | arr items => !items.isEmpty
  | obj members => !members.isEmpty

/-- `value if isinstance(value, bool) else None`. -/
def asBool : Json → Option Bool
  | bool value => some value
  | _ => none

/-- `value if isinstance(value, str) else None`. -/
def asStr : Json → Option String
  | str value => some value
  | _ => none

/-- `value is None`. -/
def isNull : Json → Bool
  | null => true
  | _ => false

/-- Equality with an integer, which holds across the numeric types. -/
def eqNat (n : ℕ) : Json → Bool
  | bool value => (if value then 1 else 0) == n
  | int value => value == n
  | float value => value == n
  | _ => false

end Json

/-! ## Regular expressions -/

/-- A regular expression over characters. -/
inductive Regex where
  | fail
  | done
  | one (accept : Char → Bool)
  | seq (first second : Regex)
  | alt (first second : Regex)
  | star (body : Regex)

namespace Regex

/-- Does the expression accept the empty text? -/
def nullable : Regex → Bool
  | fail => false
  | done => true
  | one _ => false
  | seq first second => first.nullable && second.nullable
  | alt first second => first.nullable || second.nullable
  | star _ => true

/-- What is left to match after reading `c`. -/
def deriv (c : Char) : Regex → Regex
  | fail => fail
  | done => fail
  | one accept => if accept c then done else fail
  | seq first second =>
      if first.nullable then alt (seq (first.deriv c) second) (second.deriv c)
      else seq (first.deriv c) second
  | alt first second => alt (first.deriv c) (second.deriv c)
  | star body => seq (body.deriv c) (star body)

/-- Does the expression match the whole text? -/
def accepts (r : Regex) : List Char → Bool
  | [] => r.nullable
  | c :: rest => (r.deriv c).accepts rest

/-- `re.fullmatch`. -/
def fullMatch (r : Regex) (s : String) : Bool := r.accepts s.toList

/-- `re.match` of a pattern that ends in `$`. -/
def matchLine (r : Regex) (s : String) : Bool := beforeNewline r.fullMatch s

/-- `re.search` of a pattern without anchors. -/
def search (r : Regex) (s : String) : Bool :=
  (seq (star (one fun _ => true)) (seq r (star (one fun _ => true)))).accepts s.toList

/-- A sequence of expressions. -/
def seqs : List Regex → Regex
  | [] => done
  | r :: rest => seq r (seqs rest)

/-- An alternative of expressions. -/
def alts : List Regex → Regex
  | [] => fail
  | r :: rest => alt r (alts rest)

/-- A literal text. -/
def text (s : String) : Regex := seqs (s.toList.map fun c => one (· == c))

/-- Does `c` match the lower-case letter or other character `letter` under
`re.IGNORECASE`? -/
def foldsTo (letter c : Char) : Bool :=
  c.toLower == letter.toLower || (letter.toLower == 'i' && (c.toNat == 0x130 || c.toNat == 0x131)) ||
    (letter.toLower == 'k' && c.toNat == 0x212A) || (letter.toLower == 's' && c.toNat == 0x17F)

/-- A literal text under `re.IGNORECASE`. -/
def itext (s : String) : Regex := seqs (s.toList.map fun c => one (foldsTo c))

/-- `r?`. -/
def opt (r : Regex) : Regex := alt done r

/-- `r+`. -/
def plus (r : Regex) : Regex := seq r (star r)

/-- `\d+`. -/
def digits : Regex := plus (one isDigit)

end Regex

end PqcReadiness.Lib
