/-
# JSON values

A JSON text read into a value.  Numbers are kept as they are written, since
nothing here computes with them.  A text whose escapes leave half of a surrogate
pair denotes no sequence of characters: it is well-formed JSON all the same, and
its value is `none`.
-/

namespace IndexedXml

/-- A JSON value. -/
inductive Json where
  | null
  | bool (value : Bool)
  /-- A number as it is written. -/
  | number (digits : String)
  /-- A text, absent when its escapes do not make one. -/
  | string (value : Option String)
  | array (items : List Json)
  /-- The members in the order in which they are written. -/
  | object (members : List (Option String × Json))

namespace Json

/-- A JSON text. -/
def text (s : String) : Json := string (some s)

/-- A natural number. -/
def nat (n : Nat) : Json := number (toString n)

/-- A text, or null. -/
def optional (s : Option String) : Json := (s.map text).getD null

/-- An object with the given members. -/
def record (members : List (String × Json)) : Json :=
  object (members.map fun (name, value) => (some name, value))

end Json
end IndexedXml
