/-
# Types and keys of range indexes

A range index orders the nodes of one name by keys of one type.  The key of a
stored node is derived from its text, the key of a lookup from a value of a
query; both fail when text or value does not suit the type.  Integer and double
indexes share their keys, which are doubles.
-/

import IndexedXml.Value.Atomic
import IndexedXml.Value.Comparison

namespace IndexedXml

/-- A key of a range index. -/
inductive IndexKey where
  | text (value : String)
  | number (value : Double)
  deriving DecidableEq

namespace IndexKey

/-- The order of two keys: none between a text and a number, nor when a number
is none. -/
def compare? : IndexKey → IndexKey → Option Ordering
  | text a, text b => some (compare a b)
  | number a, number b => a.compare? b
  | _, _ => none

/-- The key when it is a text. -/
def text? : IndexKey → Option String
  | text s => some s
  | number _ => none

end IndexKey

/-- The declared type of a range index. -/
inductive IndexType where
  | string
  | integer
  | double
  deriving DecidableEq

namespace IndexType

/-- The name of a type. -/
def name : IndexType → String
  | string => "xs:string"
  | integer => "xs:integer"
  | double => "xs:double"

/-- All types. -/
def all : List IndexType := [string, integer, double]

/-- The type of a name. -/
def ofName? (s : String) : Option IndexType :=
  all.find? fun type => type.name == s

/-- Whether the keys are numbers. -/
def isNumeric : IndexType → Bool
  | string => false
  | _ => true

/-- The key of a stored node with the given text. -/
def keyOfText? (type : IndexType) (s : String) : Option IndexKey :=
  match type with
  | string => some (.text s)
  | integer => (Text.integer? s).map fun i => .number (Double.ofInt i)
  | double => (Double.parse? s).map .number

/-- The key of a lookup for the given value: texts for texts, numbers for numbers. -/
def keyOfValue? (type : IndexType) (value : AtomicValue) : Option IndexKey :=
  match type, value with
  | string, .string s | string, .untyped s => some (.text s)
  | integer, .integer i | double, .integer i => some (.number (Double.ofInt i))
  | integer, .double d | double, .double d => some (.number d)
  | _, _ => none

end IndexType

/-- What a range index is asked for: keys in a relation to the given one, or
texts that begin with it. -/
inductive RangeOp where
  | compare (op : ComparisonOp)
  | startsWith
  deriving DecidableEq

namespace RangeOp

/-- The displayed operator. -/
def text : RangeOp → String
  | compare op => op.symbol
  | startsWith => "starts-with"

/-- Whether a stored key answers a lookup for `key`. -/
def hits (op : RangeOp) (entry key : IndexKey) : Bool :=
  match op with
  | compare op => op.holdsPartial (entry.compare? key)
  | startsWith =>
    match entry.text?, key.text? with
    | some entry, some key => Text.startsWith entry key
    | _, _ => false

end RangeOp
end IndexedXml
