/-
# Atomic values

What a literal denotes and what atomization yields: texts, untyped texts,
64-bit integers, doubles and truth values.  A node atomizes to an untyped text,
which takes the type of what it is compared with.
-/

import IndexedXml.Double.Numeral
import IndexedXml.Double.Shortest

namespace IndexedXml

/-- An atomic value; integers are those of 64 bits with sign. -/
inductive AtomicValue where
  | string (value : String)
  | untyped (value : String)
  | integer (value : Int)
  | double (value : Double)
  | boolean (value : Bool)
  deriving DecidableEq

namespace AtomicValue

/-- The name of the type of a value. -/
def typeName : AtomicValue → String
  | string _ => "xs:string"
  | untyped _ => "xs:untypedAtomic"
  | integer _ => "xs:integer"
  | double _ => "xs:double"
  | boolean _ => "xs:boolean"

/-- An integer or a double. -/
def isNumeric : AtomicValue → Bool
  | integer _ | double _ => true
  | _ => false

/-- A text, typed or not. -/
def isStringLike : AtomicValue → Bool
  | string _ | untyped _ => true
  | _ => false

/-- The value as a double: a number as the nearest one, a text as the one it
denotes, if any. -/
def toDouble? : AtomicValue → Option Double
  | integer i => some (Double.ofInt i)
  | double d => some d
  | string s | untyped s => Double.parse? s
  | boolean _ => none

/-- The value as a text. -/
def stringValue : AtomicValue → String
  | string s | untyped s => s
  | integer i => toString i
  | double d => d.text
  | boolean b => if b then "true" else "false"

/-- The value as it is displayed: a typed text is quoted, with the quotes in it
doubled, and all else is shown as its text. -/
def text : AtomicValue → String
  | string s => "\"" ++ Text.doubled '"' s ++ "\""
  | value => value.stringValue

end AtomicValue
end IndexedXml
