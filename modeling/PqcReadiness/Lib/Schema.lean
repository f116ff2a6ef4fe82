import PqcReadiness.Lib.Text

/-!
# JSON Schema

The assertion keywords of JSON Schema (draft 2020-12) as tests on documents.  A
keyword that is about one type of document accepts every document of another
type, and a schema is the conjunction of its keywords (`allOf`).

Text patterns and formats are given as tests on the whole text: an ECMA pattern
`^...$` has no special rule for a final newline.
-/

namespace PqcReadiness.Lib

/-- A schema is a test on documents. -/
abbrev Schema := Json → Bool

namespace Schema

/-- The types that `type` can name. -/
inductive Kind where
  | string
  | integer
  | array
  | object
  deriving DecidableEq

/-- `type`.  A number with a zero fraction is an integer, however it is written. -/
def type : Kind → Schema
  | .string, .str _ => true
  | .integer, .int _ => true
  | .integer, .float value => value.isInt
  | .array, .arr _ => true
  | .object, .obj _ => true
  | _, _ => false

/-- `enum`, of texts. -/
def enum (texts : List String) : Schema
  | .str value => texts.contains value
  | _ => false

/-- `minLength`. -/
def minLength (n : ℕ) : Schema
  | .str value => n ≤ value.toList.length
  | _ => true

/-- `pattern` and `format`. -/
def pattern (accept : String → Bool) : Schema
  | .str value => accept value
  | _ => true

/-- `minimum`. -/
def minimum (bound : ℤ) : Schema
  | .int value => bound ≤ value
  | .float value => (bound : ℚ) ≤ value
  | _ => true

/-- `maximum`. -/
def maximum (bound : ℤ) : Schema
  | .int value => value ≤ bound
  | .float value => value ≤ (bound : ℚ)
  | _ => true

/-- `items`. -/
def items (schema : Schema) : Schema
  | .arr values => values.all schema
  | _ => true

/-- `required`. -/
def required (keys : List String) : Schema
  | .obj members => keys.all fun key => (find key members).isSome
  | _ => true

/-- `properties`. -/
def properties (table : List (String × Schema)) : Schema
  | .obj members => table.all fun entry => (find entry.1 members).all entry.2
  | _ => true

/-- `additionalProperties: false` beside `properties` with these keys and
`patternProperties` for names that start with `first`. -/
def closed (keys : List String) (first : String) : Schema
  | .obj members => members.all fun entry => keys.contains entry.1 || startsWith first entry.1
  | _ => true

/-- `allOf`, also the conjunction of the keywords of one schema. -/
def allOf (schemas : List Schema) : Schema := fun value => schemas.all fun schema => schema value

/-- `anyOf`. -/
def anyOf (schemas : List Schema) : Schema := fun value => schemas.any fun schema => schema value

end Schema

end PqcReadiness.Lib
