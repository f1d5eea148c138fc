/-
# Index probes

How a condition of a query can be answered from a range index: the name whose
index is asked, the operator and the key, and how the nodes that the index finds
are reached from the context node.

A probe that goes through one step tells exactly which context nodes its hits
qualify; its `relation` says how.  One that goes through several steps only
tells where hits are.
-/

import IndexedXml.Axis
import IndexedXml.Collection.IndexKey
import IndexedXml.Name.IndexedName

namespace IndexedXml

/-- The number of an expression.  Expressions are numbered from one on; zero stands
for none. -/
abbrev ExprId := Nat

/-- The number that is no expression's. -/
def ExprId.none : ExprId := 0

/-- The displayed number. -/
def ExprId.text (id : ExprId) : String := "#" ++ toString id

/-- How a hit relates to the context node that it qualifies. -/
inductive Relation where
  /-- They are one node. -/
  | identity
  /-- The hit is a child or an attribute of the context node. -/
  | parentChild
  /-- The hit is below the context node, or with `includeSelf` the node itself. -/
  | ancestor (includeSelf : Bool)
  deriving DecidableEq

/-- A way to answer a condition from a range index. -/
structure IndexProbe where
  /-- The nodes that the index holds. -/
  name : IndexedName
  /-- The axis that leads from the context node toward them. -/
  axis : Axis
  /-- Whether a hit is the context node itself. -/
  onSelf : Bool
  /-- Whether a hit is a child or an attribute of the context node. -/
  onChild : Bool
  /-- The relation of the stored keys to the given one. -/
  op : RangeOp
  /-- The value whose key is given. -/
  key : AtomicValue
  /-- How hits qualify context nodes, when that is exactly known. -/
  relation : Option Relation
  deriving DecidableEq

namespace IndexProbe

/-- The displayed probe. -/
def text (p : IndexProbe) : String :=
  p.axis.name ++ "::" ++ p.name.text ++ " " ++ p.op.text ++ " " ++ p.key.text

end IndexProbe
end IndexedXml
