/-
# Nodes and their identifiers

A stored document is numbered: the document node has the empty identifier, its
root element is `1`, and what belongs to a node extends its identifier by one
level.  Attributes are numbered before children, so that the lexicographic order
of identifiers is document order and a node's ancestors are the proper prefixes
of its identifier.

A `Node` is a document together with an identifier.  Its `path` puts the two
into one list of numbers, in which both rules stay true across documents: nodes
are ordered by their paths, and a node's ancestors in its own document are the
proper prefixes of its path that are not empty.
-/

namespace IndexedXml

/-- The number of a stored document. -/
abbrev DocId := Nat

/-- The text of a document number. -/
def DocId.text (doc : DocId) : String := "doc#" ++ toString doc

/-- The identifier of a node within its document. -/
structure NodeId where
  /-- The numbers from the root element down to the node. -/
  levels : List Nat
  deriving DecidableEq

namespace NodeId

/-- The identifier of the document node. -/
def document : NodeId := ⟨[]⟩

/-- The identifier of what belongs to a node at the given position. -/
def child (a : NodeId) (ordinal : Nat) : NodeId := ⟨a.levels ++ [ordinal]⟩

/-- The identifier of the parent; the document node has none. -/
def parent? (a : NodeId) : Option NodeId :=
  if a.levels.isEmpty then none else some ⟨a.levels.dropLast⟩

/-- Whether this is the document node. -/
def isDocument (a : NodeId) : Bool := a.levels.isEmpty

/-- The number of levels below the document node. -/
def level (a : NodeId) : Nat := a.levels.length

/-- Whether `a` is below `b`. -/
def isDescendantOf (a b : NodeId) : Bool :=
  b.levels.length < a.levels.length && b.levels.isPrefixOf a.levels

/-- Whether `a` is one level below `b`. -/
def isChildOf (a b : NodeId) : Bool :=
  a.levels.length == b.levels.length + 1 && b.levels.isPrefixOf a.levels

/-- The ancestors, from the parent up to the document node. -/
def ancestors (a : NodeId) : List NodeId :=
  (List.range a.levels.length).reverse.map fun n => ⟨a.levels.take n⟩

instance : LT NodeId := ⟨fun a b => a.levels < b.levels⟩

instance : DecidableLT NodeId := fun a b => inferInstanceAs (Decidable (a.levels < b.levels))

/-- Document order. -/
def order (a b : NodeId) : Ordering :=
  if a < b then .lt else if a = b then .eq else .gt

/-- The levels joined by points, and a slash for the document node. -/
def text (a : NodeId) : String :=
  if a.levels.isEmpty then "/" else ".".intercalate (a.levels.map toString)

end NodeId

/-- The kind of a stored node. -/
inductive NodeKind where
  | document
  | element
  | attr
  | text
  deriving DecidableEq

/-- The name of a kind of node. -/
def NodeKind.name : NodeKind → String
  | document => "document"
  | element => "element"
  | attr => "attribute"
  | text => "text"

/-- A reference to a node of a stored document. -/
structure Node where
  /-- The document. -/
  doc : DocId
  /-- The identifier within the document. -/
  id : NodeId
  deriving DecidableEq

namespace Node

/-- The document node of a document. -/
def document (doc : DocId) : Node := ⟨doc, NodeId.document⟩

/-- The number of the document and then the levels of the identifier. -/
def path (n : Node) : List Nat := n.doc :: n.id.levels

/-- The parent of a node; a document node has none. -/
def parent? (n : Node) : Option Node := n.id.parent?.map (⟨n.doc, ·⟩)

/-- Whether `a` is below `b`, in the same document. -/
def isDescendantOf (a b : Node) : Bool := a.doc == b.doc && a.id.isDescendantOf b.id

/-- Whether `a` is one level below `b`, in the same document. -/
def isChildOf (a b : Node) : Bool := a.doc == b.doc && a.id.isChildOf b.id

/-- The ancestors, from the parent up to the document node. -/
def ancestors (n : Node) : List Node := n.id.ancestors.map (⟨n.doc, ·⟩)

instance : LT Node := ⟨fun a b => a.path < b.path⟩

instance : DecidableLT Node := fun a b => inferInstanceAs (Decidable (a.path < b.path))

/-- The displayed reference. -/
def text (n : Node) : String := DocId.text n.doc ++ ":" ++ n.id.text

end Node
end IndexedXml
