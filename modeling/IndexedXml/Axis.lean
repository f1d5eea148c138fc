/-
# Axes

The directions in which a step leaves a node.  `descendantAttr` leads to
the attributes of a node and of its descendants; no query can spell it, and
`//@name` is what becomes of it.
-/

namespace IndexedXml

/-- A direction of a step. -/
inductive Axis where
  | child
  | descendant
  | descendantOrSelf
  | self
  | attr
  | descendantAttr
  | parent
  | ancestor
  | ancestorOrSelf
  | followingSibling
  | precedingSibling
  deriving DecidableEq

namespace Axis

/-- The axes against document order, on which positions count backwards. -/
def isReverse : Axis → Bool
  | parent | ancestor | ancestorOrSelf | precedingSibling => true
  | _ => false

/-- The axes whose principal nodes are attributes. -/
def isAttributeAxis : Axis → Bool
  | attr | descendantAttr => true
  | _ => false

/-- The name of an axis. -/
def name : Axis → String
  | child => "child"
  | descendant => "descendant"
  | descendantOrSelf => "descendant-or-self"
  | self => "self"
  | attr => "attribute"
  | descendantAttr => "descendant-attribute"
  | parent => "parent"
  | ancestor => "ancestor"
  | ancestorOrSelf => "ancestor-or-self"
  | followingSibling => "following-sibling"
  | precedingSibling => "preceding-sibling"

/-- All axes. -/
def all : List Axis :=
  [child, descendant, descendantOrSelf, self, attr, descendantAttr, parent, ancestor,
    ancestorOrSelf, followingSibling, precedingSibling]

/-- The axis of a name. -/
def ofName? (s : String) : Option Axis :=
  all.find? fun axis => axis.name == s

/-- **Every axis is found under its name.** -/
theorem ofName?_name (axis : Axis) : ofName? axis.name = some axis := by
  cases axis <;> decide +kernel

end Axis
end IndexedXml
