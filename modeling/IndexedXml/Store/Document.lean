/-
# Stored documents

A stored document is a table of its nodes in document order, and two indexes on
it.  The name index lists, for every name, the elements or attributes that bear
it; the range entries list, for every name with a declared index, those of them
whose text has a key, together with the key.

The table is laid out from the tree of the document: attributes first, then the
content, each numbered from one on below its element.
-/

import IndexedXml.Collection.Basic
import IndexedXml.Node.Set
import IndexedXml.Xml.Tree

namespace IndexedXml

/-- What the table says of one node. -/
structure StoredNode where
  /-- The kind. -/
  kind : NodeKind
  /-- The name of an element or an attribute. -/
  name : Option QName
  /-- The text of an attribute or a text node. -/
  value : Option String
  /-- The elements and texts in it. -/
  children : List NodeId
  /-- The attributes. -/
  attributes : List NodeId
  deriving DecidableEq

namespace StoredNode

/-- A node with a text and nothing in it. -/
def leaf (kind : NodeKind) (name : Option QName) (value : String) : StoredNode :=
  ⟨kind, name, some value, [], []⟩

/-- Whether a node is an element or an attribute of the given name. -/
def hasName (n : StoredNode) (name : IndexedName) : Bool :=
  let kind := match name.nameType with
    | .element => NodeKind.element
    | .attr => NodeKind.attr
  n.kind == kind && (n.name.map name.qname.same).getD false

end StoredNode

/-- A list of values under indexed names. -/
abbrev NameTable (α : Type) := List (IndexedName × α)

namespace NameTable

variable {α : Type}

/-- The value under a name. -/
def find? (t : NameTable α) (name : IndexedName) : Option α :=
  (List.find? (fun entry => entry.1.same name) t).map Prod.snd

/-- Puts a value under a name, in place of the one that is there. -/
def put (t : NameTable α) (name : IndexedName) (value : α) : NameTable α :=
  match t with
  | [] => [(name, value)]
  | entry :: rest =>
    if entry.1.same name then (entry.1, value) :: rest else entry :: put rest name value

end NameTable

/-- A stored document. -/
structure Document where
  /-- The name within its collection. -/
  name : String
  /-- The address of its collection. -/
  collection : String
  /-- The nodes in document order. -/
  nodes : List (NodeId × StoredNode)
  /-- The nodes of every name in document order. -/
  names : NameTable (List NodeId)
  /-- The keys of the nodes of every indexed name in document order. -/
  ranges : NameTable (List (NodeId × IndexKey))

namespace Document

/-- The identifiers of `count` nodes below `id`, numbered from `first + 1` on. -/
def ordinals (id : NodeId) (first count : Nat) : List NodeId :=
  (List.range count).map fun n => id.child (first + n + 1)

/-- The table entries of attributes. -/
def attributeNodes (id : NodeId) (attributes : List Attribute) : List (NodeId × StoredNode) :=
  (ordinals id 0 attributes.length).zip
    (attributes.map fun a => .leaf .attr (some a.name) a.value)

mutual

/-- The table entries of a piece of content, in document order. -/
def treeNodes (id : NodeId) : Tree → List (NodeId × StoredNode)
  | .text value => [(id, .leaf .text none value)]
  | .element name attributes content =>
    (id, ⟨.element, some name, none, ordinals id attributes.length content.length,
      ordinals id 0 attributes.length⟩) ::
      (attributeNodes id attributes ++ contentNodes id (attributes.length + 1) content)

/-- The table entries of content whose first piece has the given number. -/
def contentNodes (id : NodeId) (ordinal : Nat) : List Tree → List (NodeId × StoredNode)
  | [] => []
  | piece :: rest => treeNodes (id.child ordinal) piece ++ contentNodes id (ordinal + 1) rest

end

/-- The identifier of the root element. -/
def rootId : NodeId := NodeId.document.child 1

/-- The table of a document with the given root element. -/
def nodesOf (root : Element) : List (NodeId × StoredNode) :=
  (NodeId.document, ⟨.document, none, none, [rootId], []⟩) :: treeNodes rootId root.toTree

/-- The name under which a node is indexed. -/
def indexedName? (n : StoredNode) : Option IndexedName :=
  match n.kind, n.name with
  | .element, some name => some ⟨.element, name⟩
  | .attr, some name => some ⟨.attr, name⟩
  | _, _ => none

/-- Enters a node into a name index, after those of its name. -/
def enter (names : NameTable (List NodeId)) (entry : NodeId × StoredNode) : NameTable (List NodeId) :=
  match indexedName? entry.2 with
  | some name => names.put name ((names.find? name).getD [] ++ [entry.1])
  | none => names

/-- A document that is not yet indexed by value. -/
def ofElement (name collection : String) (root : Element) : Document :=
  let nodes := nodesOf root
  ⟨name, collection, nodes, nodes.foldl enter [], []⟩

/-- The entry of a node. -/
def node? (d : Document) (id : NodeId) : Option StoredNode :=
  (d.nodes.find? fun entry => entry.1 == id).map Prod.snd

/-- The text of an element or of the document: the texts below it, in document
order.  What is below a node follows it in the table. -/
def textBelow (d : Document) (id : NodeId) : String :=
  String.join
    (((d.nodes.dropWhile fun entry => !(id < entry.1)).takeWhile fun entry =>
        entry.1.isDescendantOf id).filterMap fun entry =>
      if entry.2.kind = .text then entry.2.value else none)

/-- The text of a node, empty when there is no such node. -/
def stringValue (d : Document) (id : NodeId) : String :=
  match d.node? id with
  | none => ""
  | some n => n.value.getD (d.textBelow id)

/-- The nodes of a name in document order. -/
def named? (d : Document) (name : IndexedName) : Option (List NodeId) := d.names.find? name

/-- The range entries for one declaration: the nodes of its name whose text has a
key, and the key. -/
def entriesFor (d : Document) (type : IndexType) (ids : List NodeId) : List (NodeId × IndexKey) :=
  ids.filterMap fun id => (type.keyOfText? (d.stringValue id)).map (id, ·)

/-- **The document indexed by value.**  Of several declarations for one name the
last one counts; a name that the document does not have leaves no entry. -/
def reindex (d : Document) (specs : List RangeIndexSpec) : Document :=
  { d with
    ranges := specs.foldl
      (fun ranges spec =>
        match d.named? spec.name with
        | some ids => ranges.put spec.name (d.entriesFor spec.indexType ids)
        | none => ranges)
      [] }

/-- The collection and the name, joined by a slash. -/
def path (d : Document) : String := d.collection ++ "/" ++ d.name

end Document
end IndexedXml
