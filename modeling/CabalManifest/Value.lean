import CabalManifest.Decimal.Limit
import CabalManifest.Decimal.Shortest
import CabalManifest.Entries
import CabalManifest.Text.Quoted

/-!
# Document values

What a document holds once it has been read: scalars, arrays, and objects whose keys are texts in
the order they were written. Everything after reading works on this one type.
-/

namespace CabalManifest

/-- A value without parts. -/
inductive Scalar where
  | null
  | bool (b : Bool)
  | int (n : Int)
  | float (x : Float)
  | text (s : String)

/-- A document value. -/
inductive Value where
  | scalar (s : Scalar)
  | array (items : List Value)
  | object (entries : List (String × Value))

namespace Value

@[match_pattern] abbrev null : Value := .scalar .null

@[match_pattern] abbrev bool (b : Bool) : Value := .scalar (.bool b)

@[match_pattern] abbrev int (n : Int) : Value := .scalar (.int n)

@[match_pattern] abbrev float (x : Float) : Value := .scalar (.float x)

@[match_pattern] abbrev text (s : String) : Value := .scalar (.text s)

instance : Inhabited Value := ⟨null⟩

end Value

/-! ### Shapes -/

/-- The shape of a value, as messages name it. -/
inductive Shape where
  | null
  | boolean
  | number
  | string
  | array
  | object
  deriving DecidableEq, Repr

/-- The name of a shape. -/
def Shape.name : Shape → String
  | null => "Null"
  | boolean => "Boolean"
  | number => "Number"
  | string => "String"
  | array => "Array"
  | object => "Object"

/-- The shape of a scalar. -/
def Scalar.shape : Scalar → Shape
  | null => .null
  | bool _ => .boolean
  | int _ | float _ => .number
  | text _ => .string

/-- The shape of a value. -/
def Value.shape : Value → Shape
  | scalar s => s.shape
  | array _ => .array
  | object _ => .object

/-- Whether a value is a number; a boolean is not. -/
def Value.isNumber (v : Value) : Bool := v.shape == .number

/-- Whether a key is private to whoever wrote it: nobody reads it, and nobody warns about it. -/
def isPrivate (key : String) : Bool := key.toList.head? == some '_'

/-! ### The text of a scalar -/

/-- A scalar as plain text: booleans in lower case, floats by their shortest decimal. -/
def Scalar.plain : Scalar → String
  | null => "None"
  | bool b => if b then "true" else "false"
  | int n => toString n
  | float x => Decimal.text x
  | text s => s

/-- Whether a scalar has a text; a long integer has none. -/
def Scalar.isWritable : Scalar → Bool
  | int n => Decimal.isWritable n
  | _ => true

/-! ### Values inside messages -/

/-- A scalar as a message quotes it. -/
def Scalar.quoted : Scalar → String
  | null => "None"
  | bool b => if b then "True" else "False"
  | int n => toString n
  | float x => Decimal.text x
  | text s => Text.quote s

mutual

/-- A value as a message quotes it: arrays in brackets, objects in braces. -/
def Value.quoted : Value → String
  | .scalar s => s.quoted
  | .array items => "[" ++ ", ".intercalate (quotedItems items) ++ "]"
  | .object entries => "\x7b" ++ ", ".intercalate (quotedEntries entries) ++ "\x7d"

/-- The quoted items of an array. -/
def Value.quotedItems : List Value → List String
  | [] => []
  | item :: items => item.quoted :: quotedItems items

/-- The quoted entries of an object. -/
def Value.quotedEntries : List (String × Value) → List String
  | [] => []
  | (key, value) :: entries => (Text.quote key ++ ": " ++ value.quoted) :: quotedEntries entries

end

mutual

/-- Whether every scalar of a value has a text. -/
def Value.isWritable : Value → Bool
  | .scalar s => s.isWritable
  | .array items => writableItems items
  | .object entries => writableEntries entries

/-- Whether every scalar of the items of an array has a text. -/
def Value.writableItems : List Value → Bool
  | [] => true
  | item :: items => item.isWritable && writableItems items

/-- Whether every scalar of the entries of an object has a text. -/
def Value.writableEntries : List (String × Value) → Bool
  | [] => true
  | (_, value) :: entries => value.isWritable && writableEntries entries

end

end CabalManifest
