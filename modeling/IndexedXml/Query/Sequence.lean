/-
# Sequences

What an expression evaluates to: a node set, or a list of items that may be nodes
and values.  A sequence that consists of nodes may be of either form, and the form
matters, since only node sets are watched for changes and looked up in indexes.

A node set that is kept under a name or given to a query carries a *handle*.  Two
sets with one handle are the same set handed over twice, which says more than that
they have the same members.
-/

import IndexedXml.Node.Set
import IndexedXml.Query.Error
import IndexedXml.Value.Atomic

namespace IndexedXml

/-- An item of a sequence. -/
inductive Item where
  /-- A node. -/
  | node (n : Node)
  /-- A value. -/
  | atomic (value : AtomicValue)
  deriving DecidableEq

/-- The displayed item. -/
def Item.text : Item → String
  | node n => n.text
  | atomic value => value.text

/-- A node set as it is handed over. -/
structure SharedSet where
  /-- The set. -/
  set : NodeSet
  /-- The handle under which it is kept, if it is. -/
  handle : Option Nat
  deriving DecidableEq

/-- The value of an expression. -/
inductive Sequence where
  /-- A node set. -/
  | nodes (shared : SharedSet)
  /-- A list of items. -/
  | items (list : List Item)
  deriving DecidableEq

namespace Sequence

/-- The sequence without items. -/
def empty : Sequence := items []

/-- The sequence of the nodes of a set that is kept nowhere. -/
def ofSet (set : NodeSet) : Sequence := nodes ⟨set, none⟩

/-- The sequence of one value. -/
def ofValue (value : AtomicValue) : Sequence := items [.atomic value]

/-- The sequence of one truth value. -/
def ofBool (b : Bool) : Sequence := ofValue (.boolean b)

/-- The node set, when the sequence is one. -/
def set? : Sequence → Option NodeSet
  | nodes shared => some shared.set
  | items _ => none

/-- The items in order. -/
def toItems : Sequence → List Item
  | nodes shared => shared.set.nodes.map .node
  | items list => list

/-- The number of items. -/
def size : Sequence → Nat
  | nodes shared => shared.set.size
  | items list => list.length

/-- Whether there are no items. -/
def isEmpty (s : Sequence) : Bool := s.size == 0

/-- Whether the sequence is a node set that a store has handed out. -/
def isPersistent (s : Sequence) : Bool := (s.set?.map NodeSet.persistent).getD false

/-- The node of an item. -/
def nodeOf : Item → Except QueryError Node
  | .node n => .ok n
  | .atomic value => .error (.notANode value.typeName)

/-- The sequence as a node set; a list of nodes becomes a transient one. -/
def toShared : Sequence → Except QueryError SharedSet
  | nodes shared => .ok shared
  | items list => do
    let nodes ← list.mapM nodeOf
    pure ⟨.ofList nodes false, none⟩

/-- The items of both sequences.  A sequence without items leaves the other as it is. -/
def append (a b : Sequence) : Sequence :=
  if a.isEmpty then b
  else if b.isEmpty then a
  else items (a.toItems ++ b.toItems)

/-- The single item of a sequence. -/
def exactlyOne (s : Sequence) (purpose : String) : Except QueryError Item :=
  match s.toItems with
  | [item] => .ok item
  | list => .error (.notExactlyOne purpose list.length)

/-- The documents that the nodes of the sequence refer to. -/
def documents : Sequence → DocumentSet
  | nodes shared => shared.set.documents
  | items list => .ofList <| list.filterMap fun
    | .node n => some n.doc
    | .atomic _ => none

/-! ### Truth -/

/-- The truth of a single value. -/
def valueTruth : AtomicValue → Bool
  | .boolean b => b
  | .string s | .untyped s => !s.isEmpty
  | .integer i => i != 0
  | .double d => !d.isZero && !d.isNan

/-- **The truth of a sequence:** no items are false, nodes are true, and a single value
is as true as itself. -/
def truth : Sequence → Except QueryError Bool
  | nodes shared => .ok (!shared.set.isEmpty)
  | items [] => .ok false
  | items (.node _ :: _) => .ok true
  | items [.atomic value] => .ok (valueTruth value)
  | items _ => .error .noTruthValue

/-- The number that a sequence is, when it is a single number and no node set. -/
def number? : Sequence → Option Double
  | items [.atomic value] => if value.isNumeric then value.toDouble? else none
  | _ => none

/-- Whether a predicate with this outcome selects the item at the given position:
a number selects the item at that position, and anything else by its truth. -/
def selects (outcome : Sequence) (position : Nat) : Except QueryError Bool :=
  match outcome.number? with
  | some d => .ok (d.compare? (Double.ofNat position) == some .eq)
  | none => outcome.truth

end Sequence
end IndexedXml
