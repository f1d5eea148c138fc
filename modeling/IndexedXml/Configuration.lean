/-
# Configurations

The settings of a database: what to do when the collections of a query do not
all have an index, whether optimization that nobody asked for is on, whether
queries are given it at all, and the indexes of collections.

A configuration is read from JSON.  Every setting has a default; a setting that
is given twice, or has a value of another kind, makes the text no configuration,
and settings with unknown names are passed over.  Settings may also be given as
an array in their fixed order, and a policy or a type as an object whose only
member is named for it and is null.
-/

import IndexedXml.Collection.Basic
import IndexedXml.Json.Reader

namespace IndexedXml

/-- What to do about collections that lack an index which others declare. -/
inductive IndexPolicy where
  /-- Use no index. -/
  | never
  /-- Use no index either. -/
  | strict
  /-- Use the first index found. -/
  | always
  deriving DecidableEq

namespace IndexPolicy

/-- The name of a policy. -/
def name : IndexPolicy → String
  | never => "never"
  | strict => "strict"
  | always => "always"

/-- The policy of a name. -/
def ofName? (s : String) : Option IndexPolicy :=
  [never, strict, always].find? fun policy => policy.name == s

end IndexPolicy

/-- The settings of one collection. -/
structure CollectionSettings where
  /-- The address as it is written. -/
  uri : String
  /-- The declarations of its range indexes. -/
  indexes : List RangeIndexSpec
  deriving DecidableEq

/-- The settings of a database. -/
structure Configuration where
  /-- What to do about missing indexes. -/
  enforceIndexUse : IndexPolicy
  /-- Whether optimization is on where a query does not ask for it. -/
  optimizationsEnabled : Bool
  /-- Whether queries are given optimization where an index could help. -/
  autoOptimize : Bool
  /-- The settings of collections. -/
  collections : List CollectionSettings
  deriving DecidableEq

namespace Configuration

/-- The configuration that leaves every setting at its default. -/
def standard : Configuration := ⟨.never, true, false, []⟩

/-- A text. -/
def text? : Json → Option String
  | .string s => s
  | _ => none

/-- A truth value. -/
def bool? : Json → Option Bool
  | .bool b => some b
  | _ => none

/-- The name of a choice: a text, or the only member of an object when it is null. -/
def choice? : Json → Option String
  | .string s => s
  | .object [(name, .null)] => name
  | _ => none

/-- A list whose items can all be read. -/
def list? {α : Type} (read : Json → Option α) : Json → Option (List α)
  | .array items => items.mapM read
  | _ => none

/-- The members of an object by name, provided that every name is a text. -/
def named? (members : List (Option String × Json)) : Option (List (String × Json)) :=
  members.mapM fun (name, value) => name.map (·, value)

/-- The value of a setting in an object; `none` when it is given twice, or cannot
be read, or is missing without a default. -/
def setting? {α : Type} (members : List (String × Json)) (name : String) (standard : Option α)
    (read : Json → Option α) : Option α :=
  match members.filter fun member => member.1 == name with
  | [] => standard
  | [(_, value)] => read value
  | _ => none

/-- The value of a setting in an array, where it has a fixed place. -/
def place? {α : Type} (items : List Json) (index : Nat) (standard : Option α)
    (read : Json → Option α) : Option α :=
  match items[index]? with
  | none => standard
  | some value => read value

/-- The settings of an object, or those of an array of at most `size` items.  `build`
is given a reader that takes the place, the name and the default of a setting. -/
def settings? {α : Type} (size : Nat)
    (build : ({β : Type} → Nat → String → Option β → (Json → Option β) → Option β) → Option α) :
    Json → Option α
  | .object members => do
    let members ← named? members
    build fun _ name standard read => setting? members name standard read
  | .array items =>
    if items.length ≤ size then build fun index _ standard read => place? items index standard read
    else none
  | _ => none

/-- The declaration of a range index. -/
def spec? : Json → Option RangeIndexSpec :=
  settings? 2 fun get => do
    let name ← get 0 "name" none fun value => do IndexedName.parse? (← text? value)
    let indexType ← get 1 "type" none fun value => do IndexType.ofName? (← choice? value)
    pure ⟨name, indexType⟩

/-- The settings of a collection. -/
def collection? : Json → Option CollectionSettings :=
  settings? 2 fun get => do
    let uri ← get 0 "uri" none text?
    let indexes ← get 1 "range_indexes" (some []) (list? spec?)
    pure ⟨uri, indexes⟩

/-- The configuration that a JSON value stands for. -/
def ofJson? : Json → Option Configuration :=
  settings? 4 fun get => do
    let policy ← get 0 "enforce_index_use" (some standard.enforceIndexUse)
      fun value => do IndexPolicy.ofName? (← choice? value)
    let enabled ← get 1 "optimizations_enabled" (some standard.optimizationsEnabled) bool?
    let auto ← get 2 "auto_optimize" (some standard.autoOptimize) bool?
    let collections ← get 3 "collections" (some standard.collections) (list? collection?)
    pure ⟨policy, enabled, auto, collections⟩

/-- **The configuration that a text stands for.** -/
def parse? (s : String) : Option Configuration := do
  ofJson? (← Json.parse? s)

end Configuration
end IndexedXml
