/-
# Built-in functions

The functions that a query can call, their names and the numbers of arguments
that they take.  A call of another name, or with another number of arguments, is
refused before anything is evaluated.
-/

import IndexedXml.Query.Error

namespace IndexedXml

/-- A built-in function. -/
inductive Builtin where
  /-- The documents of a collection, or of all of them. -/
  | collection
  /-- The number of items. -/
  | count
  /-- Whether there are items. -/
  | existence
  /-- Whether there are none. -/
  | empty
  /-- The opposite of a truth value. -/
  | not
  /-- The text of an item. -/
  | string
  /-- Whether a text occurs in another. -/
  | contains
  /-- Whether a text begins with another. -/
  | startsWith
  /-- The true truth value. -/
  | true
  /-- The false truth value. -/
  | false
  deriving DecidableEq

namespace Builtin

/-- The name of a function. -/
def name : Builtin → String
  | collection => "collection"
  | count => "count"
  | existence => "exists"
  | empty => "empty"
  | not => "not"
  | string => "string"
  | contains => "contains"
  | startsWith => "starts-with"
  | true => "true"
  | false => "false"

/-- All functions. -/
def all : List Builtin :=
  [collection, count, existence, empty, not, string, contains, startsWith, true, false]

/-- The function of a name. -/
def ofName? (s : String) : Option Builtin := all.find? fun f => f.name == s

/-- **Every function is found under its name.** -/
theorem ofName?_name (f : Builtin) : ofName? f.name = some f := by
  cases f <;> decide +kernel

/-- The numbers of arguments that a function takes. -/
def arities : Builtin → List Nat
  | collection | string => [0, 1]
  | count | existence | empty | not => [1]
  | contains | startsWith => [2]
  | true | false => [0]

/-- Whether every result is a truth value. -/
def isPredicate : Builtin → Bool
  | existence | empty | not | contains | startsWith | true | false => Bool.true
  | collection | count | string => Bool.false

/-- The function that a call means, provided that it takes that many arguments. -/
def ofCall (name : String) (arity : Nat) : Except QueryError Builtin :=
  match ofName? name with
  | none => .error (.unknownFunction name)
  | some f => if f.arities.elem arity then .ok f else .error (.wrongArity name arity)

end Builtin
end IndexedXml
