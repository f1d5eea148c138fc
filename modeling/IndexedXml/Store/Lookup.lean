/-
# Lookups in the indexes

The lookups that need no walk through a document.  Three go by name: all
elements or attributes of a name, those above a selection and those below a
context; the fourth goes by key.  Each looks only into given documents, and each
fails while lookups are switched off.

A lookup that answers is counted, one that fails is not.
-/

import IndexedXml.Store.Basic

namespace IndexedXml

/-- The kinds of lookup. -/
inductive LookupKind where
  | ancestors
  | descendants
  | elements
  | range
  deriving DecidableEq

/-- How many lookups of each kind have been answered. -/
structure LookupCounts where
  /-- Lookups above a selection. -/
  ancestors : Nat
  /-- Lookups below a context. -/
  descendants : Nat
  /-- Lookups of all nodes of a name. -/
  elements : Nat
  /-- Lookups by key. -/
  ranges : Nat
  deriving DecidableEq

namespace LookupCounts

/-- No lookups. -/
def zero : LookupCounts := ⟨0, 0, 0, 0⟩

/-- One lookup more. -/
def count (c : LookupCounts) : LookupKind → LookupCounts
  | .ancestors => { c with ancestors := c.ancestors + 1 }
  | .descendants => { c with descendants := c.descendants + 1 }
  | .elements => { c with elements := c.elements + 1 }
  | .range => { c with ranges := c.ranges + 1 }

/-- The displayed counts. -/
def text (c : LookupCounts) : String :=
  "ancestor queries: " ++ toString c.ancestors ++
    ", descendant queries: " ++ toString c.descendants ++
    ", element scans: " ++ toString c.elements ++
    ", range lookups: " ++ toString c.ranges

end LookupCounts

/-- A lookup by key. -/
structure RangeQuery where
  /-- The nodes looked for. -/
  name : IndexedName
  /-- The relation of their keys to the given one. -/
  op : RangeOp
  /-- The value whose key is given. -/
  key : AtomicValue
  /-- The documents to look into. -/
  docs : DocumentSet
  /-- When given, only these nodes and what is below them. -/
  context : Option NodeSet

namespace Store

/-- Goes on unless lookups are switched off. -/
def unlessInterrupted {α : Type} (s : Store) (answer : Except StoreError α) : Except StoreError α :=
  if s.interrupted then .error .interrupted else answer

/-- The nodes of a name in a document, in document order. -/
def namedIn (s : Store) (name : IndexedName) (doc : DocId) : List NodeId :=
  (((s.document? doc).bind (·.named? name))).getD []

/-- **All elements or attributes of a name.** -/
def findElements (s : Store) (name : IndexedName) (docs : DocumentSet) : Except StoreError NodeSet :=
  s.unlessInterrupted <|
    .ok (s.persistent (docs.docs.flatMap fun doc => (s.namedIn name doc).map (⟨doc, ·⟩)))

/-- The identifiers above `id` that an axis leads to; none for other axes. -/
def upward? (axis : Axis) (id : NodeId) : Option (List NodeId) :=
  match axis with
  | .self => some [id]
  | .parent => some id.parent?.toList
  | .ancestor => some id.ancestors
  | .ancestorOrSelf => some (id :: id.ancestors)
  | _ => none

/-- The nodes of a name that an upward axis leads to from one node. -/
def namedAbove (s : Store) (name : IndexedName) (axis : Axis) (n : Node) : List Node :=
  match s.document? n.doc with
  | none => []
  | some d =>
    (((upward? axis n.id).getD []).filter fun id =>
      ((d.node? id).map (·.hasName name)).getD false).map (⟨n.doc, ·⟩)

/-- **The nodes of a name above a selection,** on the axes self, parent, ancestor
and ancestor-or-self. -/
def findAncestors (s : Store) (name : IndexedName) (axis : Axis) (docs : DocumentSet)
    (selection : NodeSet) : Except StoreError NodeSet :=
  s.unlessInterrupted <|
    match upward? axis NodeId.document with
    | none => .error (.unsupportedAxis axis)
    | some _ =>
      .ok (s.persistent
        ((selection.nodes.filter fun n => docs.contains n.doc).flatMap (s.namedAbove name axis)))

/-- Whether lookups below a context follow the axis. -/
def isDownward : Axis → Bool
  | .child | .attr | .descendant | .descendantOrSelf | .descendantAttr => true
  | _ => false

/-- The members of `rest` that directly follow `id` and are below it, or one level
below it on the axes to children and attributes. -/
def reached (axis : Axis) (id : NodeId) (rest : List NodeId) : List NodeId :=
  let direct := axis == Axis.child || axis == Axis.attr
  (rest.takeWhile fun n => n.isDescendantOf id).filter fun n => !direct || n.isChildOf id

/-- **The members of an ascending list of identifiers that a downward axis leads
to from `id`.**  What is below a node follows it directly in document order. -/
def below (axis : Axis) (id : NodeId) (ids : List NodeId) : List NodeId :=
  match ids.dropWhile (· < id) with
  | [] => []
  | first :: rest =>
    if first = id then
      (if axis = Axis.descendantOrSelf then [id] else []) ++ reached axis id rest
    else reached axis id (first :: rest)

/-- **The nodes of a name below a context,** on the axes child, attribute,
descendant, descendant-or-self and descendant-attribute. -/
def findDescendants (s : Store) (name : IndexedName) (axis : Axis) (docs : DocumentSet)
    (context : NodeSet) : Except StoreError NodeSet :=
  s.unlessInterrupted <|
    if isDownward axis then
      .ok (s.persistent
        ((context.nodes.filter fun n => docs.contains n.doc).flatMap fun n =>
          (below axis n.id (s.namedIn name n.doc)).map (⟨n.doc, ·⟩)))
    else .error (.unsupportedAxis axis)

/-- Whether a node is one of the context nodes or below one of them. -/
def isWithin (context : Option NodeSet) (n : Node) : Bool :=
  match context with
  | none => true
  | some set => set.contains n || n.ancestors.any set.contains

/-- The nodes of one document that a lookup by key finds.  The document
contributes when its collection declares an index on the name whose type the
key suits. -/
def hitsIn (s : Store) (q : RangeQuery) (doc : DocId) : List Node :=
  let found : Option (List Node) := do
    let d ← s.document? doc
    let type ← (s.collection? d.collection).bind (·.rangeIndex? q.name)
    let key ← type.keyOfValue? q.key
    let entries ← d.ranges.find? q.name
    pure ((entries.filter fun entry => q.op.hits entry.2 key).map fun entry => ⟨doc, entry.1⟩)
  (found.getD []).filter (isWithin q.context)

/-- **The nodes with a key in the given relation.** -/
def findByValue (s : Store) (q : RangeQuery) : Except StoreError NodeSet :=
  s.unlessInterrupted <| .ok (s.persistent (q.docs.docs.flatMap (s.hitsIn q)))

end Store
end IndexedXml
