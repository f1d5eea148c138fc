/-
# Sets of nodes

A node set lists its members in document order, each once.  It is *persistent*
when a store handed it out; such a set is watched for changes of the store,
while a transient one is only a value.

The selections relate two sets by ancestry.  They walk the ordered lists: what
lies below a node follows it directly in document order, so that whether a set
has something below a node shows in the first members that are not before it.
-/

import IndexedXml.Node.Id

namespace IndexedXml

/-- Puts a value into an ascending list, unless it is there already. -/
def insertAscending {α : Type} [LT α] [DecidableLT α] [DecidableEq α] (a : α) : List α → List α
  | [] => [a]
  | b :: rest =>
    if a < b then a :: b :: rest
    else if a = b then b :: rest
    else b :: insertAscending a rest

/-- The members of a list in ascending order, each once. -/
def ascending {α : Type} [LT α] [DecidableLT α] [DecidableEq α] (values : List α) : List α :=
  values.foldr insertAscending []

/-- A set of documents. -/
structure DocumentSet where
  /-- The documents in ascending order. -/
  docs : List DocId
  deriving DecidableEq

namespace DocumentSet

/-- The set of the given documents. -/
def ofList (docs : List DocId) : DocumentSet := ⟨ascending docs⟩

/-- Whether the document is in the set. -/
def contains (s : DocumentSet) (doc : DocId) : Bool := s.docs.elem doc

/-- The number of documents. -/
def size (s : DocumentSet) : Nat := s.docs.length

end DocumentSet

/-- Which side of a relation between two node sets is kept. -/
inductive NarrowMode where
  /-- Keep the upper nodes that have a lower one. -/
  | ancestor
  /-- Keep the lower nodes that have an upper one. -/
  | descendant
  deriving DecidableEq

/-- A set of nodes in document order. -/
structure NodeSet where
  /-- The members in document order. -/
  nodes : List Node
  /-- Whether a store handed the set out. -/
  persistent : Bool
  deriving DecidableEq

namespace NodeSet

/-- The set without members, which is transient. -/
def empty : NodeSet := ⟨[], false⟩

/-- The set of the given nodes. -/
def ofList (nodes : List Node) (persistent : Bool) : NodeSet := ⟨ascending nodes, persistent⟩

/-- The number of members. -/
def size (s : NodeSet) : Nat := s.nodes.length

/-- Whether there are no members. -/
def isEmpty (s : NodeSet) : Bool := s.nodes.isEmpty

/-- Whether the node is a member. -/
def contains (s : NodeSet) (n : Node) : Bool := s.nodes.elem n

/-- The documents of the members. -/
def documents (s : NodeSet) : DocumentSet := .ofList (s.nodes.map Node.doc)

/-- The set with only the members that satisfy `p`. -/
def filter (s : NodeSet) (p : Node → Bool) : NodeSet := ⟨s.nodes.filter p, s.persistent⟩

/-- The members whose document the other set refers to. -/
def filterDocuments (s other : NodeSet) : NodeSet :=
  let docs := other.documents
  s.filter fun n => docs.contains n.doc

/-- The members of either set; persistent when one of them is. -/
def union (s other : NodeSet) : NodeSet :=
  ⟨s.nodes.foldr insertAscending other.nodes, s.persistent || other.persistent⟩

/-- The members that the other set has too. -/
def intersect (s other : NodeSet) : NodeSet :=
  s.filter fun n => other.contains n

/-- Whether some member lies below `a`, or with `includeSelf` is `a`. -/
def hasBelow (s : NodeSet) (includeSelf : Bool) (a : Node) : Bool :=
  match s.nodes.dropWhile (· < a) with
  | [] => false
  | first :: rest =>
    if first = a then
      includeSelf || match rest with
        | [] => false
        | next :: _ => next.isDescendantOf a
    else first.isDescendantOf a

/-- Whether some member is one level below `a`. -/
def hasChild (s : NodeSet) (a : Node) : Bool :=
  ((s.nodes.dropWhile fun n => n < a || n == a).takeWhile (·.isDescendantOf a)).any (·.isChildOf a)

/-- **Narrowing by ancestry.**  `s` holds the lower nodes and `upper` the upper
ones; with `includeSelf` a node counts as below itself. -/
def selectAncestorDescendant (s upper : NodeSet) (mode : NarrowMode) (includeSelf : Bool) : NodeSet :=
  match mode with
  | .ancestor => upper.filter (s.hasBelow includeSelf)
  | .descendant =>
    s.filter fun n => (includeSelf && upper.contains n) || n.ancestors.any upper.contains

/-- **Narrowing by parenthood.**  `s` holds the children and `upper` the parents. -/
def selectParentChild (s upper : NodeSet) (mode : NarrowMode) : NodeSet :=
  match mode with
  | .ancestor => upper.filter s.hasChild
  | .descendant => s.filter fun n => (n.parent?.map upper.contains).getD false

end NodeSet
end IndexedXml
