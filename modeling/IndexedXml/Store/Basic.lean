/-
# The store

A store holds collections and documents.  A document lies in one collection
under a name; its path, the address of the collection joined to the name by a
slash, leads to it, and a document stored under a path that is in use takes the
place of the one there.  Document numbers are never given twice.

The *generation* counts the changes: storing or removing a document and
configuring a collection each advance it, while creating a collection does not.
Persistent node sets are watched through it.
-/

import IndexedXml.Configuration
import IndexedXml.Store.Document
import IndexedXml.Store.Error

namespace IndexedXml

/-- A database in memory. -/
structure Store where
  /-- The collections, each address once. -/
  collections : List Collection
  /-- The documents under their numbers, ascending. -/
  documents : List (DocId × Document)
  /-- The numbers of the documents under their paths. -/
  paths : List (String × DocId)
  /-- The number of the next document. -/
  nextDoc : DocId
  /-- The number of changes so far. -/
  generation : Nat
  /-- The settings. -/
  configuration : Configuration
  /-- Whether lookups are switched off. -/
  interrupted : Bool

namespace Store

/-- A store without collections and documents. -/
def empty : Store := ⟨[], [], [], 0, 0, .standard, false⟩

/-! ### Looking up -/

/-- The collection with the given address. -/
def collection? (s : Store) (uri : String) : Option Collection :=
  s.collections.find? fun c => c.uri == uri

/-- The document with the given number. -/
def document? (s : Store) (doc : DocId) : Option Document :=
  (s.documents.find? fun entry => entry.1 == doc).map Prod.snd

/-- The number of the document under a path. -/
def pathDoc? (s : Store) (path : String) : Option DocId :=
  (s.paths.find? fun entry => entry.1 == path).map Prod.snd

/-- The document with the given number, or the reason that there is none. -/
def document (s : Store) (doc : DocId) : Except StoreError Document :=
  match s.document? doc with
  | some d => .ok d
  | none => .error (.documentNotFound (DocId.text doc))

/-- The table entry of a node, or the reason that there is none. -/
def node (s : Store) (n : Node) : Except StoreError StoredNode := do
  let d ← s.document n.doc
  match d.node? n.id with
  | some entry => pure entry
  | none => throw (.nodeNotFound n.doc n.id)

/-- The set of the given nodes as this store hands it out. -/
def persistent (_ : Store) (nodes : List Node) : NodeSet := .ofList nodes true

/-- What a node set is watched by: the generation when it is persistent. -/
def stateOf (s : Store) (set : NodeSet) : Nat := if set.persistent then s.generation else 0

/-- Whether a node set has changed since its state was taken. -/
def hasChanged (s : Store) (set : NodeSet) (previous : Nat) : Bool := s.stateOf set != previous

/-! ### Changing -/

/-- Replaces the collection of that address, or adds it. -/
def putCollection (s : Store) (c : Collection) : Store :=
  { s with collections := s.collections.filter (fun old => old.uri != c.uri) ++ [c] }

/-- The collection of a normalized address, created without indexes if need be. -/
def ensureCollection (s : Store) (uri : String) : Collection × Store :=
  match s.collection? uri with
  | some c => (c, s)
  | none => let c : Collection := ⟨uri, []⟩; (c, s.putCollection c)

/-- The collection of an address, created without indexes if need be. -/
def createCollection (s : Store) (uri : String) : Collection × Store :=
  s.ensureCollection (normalizeUri uri)

/-- Counts a change. -/
def bump (s : Store) : Store := { s with generation := s.generation + 1 }

/-- **Gives a collection its indexes,** and its documents the entries of these. -/
def configureCollection (s : Store) (uri : String) (indexes : List RangeIndexSpec) : Store :=
  let uri := normalizeUri uri
  let s := s.putCollection ⟨uri, indexes⟩
  bump
    { s with
      documents := s.documents.map fun (doc, d) =>
        (doc, if d.collection == uri then d.reindex indexes else d) }

/-- Applies the settings of each collection, then keeps the configuration. -/
def setConfiguration (s : Store) (configuration : Configuration) : Store :=
  let s := configuration.collections.foldl (fun s c => s.configureCollection c.uri c.indexes) s
  { s with configuration }

/-- A store with the given configuration and nothing else. -/
def ofConfiguration (configuration : Configuration) : Store := empty.setConfiguration configuration

/-- Takes away the document under a path, without counting a change. -/
def dropPath (s : Store) (path : String) : Store :=
  match s.pathDoc? path with
  | none => s
  | some doc =>
    { s with
      documents := s.documents.filter fun entry => entry.1 != doc
      paths := s.paths.filter fun entry => entry.1 != path }

/-- **Stores a document** and gives its number. -/
def storeDocument (s : Store) (uri name : String) (root : Element) : DocId × Store :=
  let uri := normalizeUri uri
  let (collection, s) := s.ensureCollection uri
  let d := (Document.ofElement name uri root).reindex collection.indexes
  let s := s.dropPath d.path
  let doc := s.nextDoc
  (doc, bump
    { s with
      documents := s.documents ++ [(doc, d)]
      paths := s.paths ++ [(d.path, doc)]
      nextDoc := doc + 1 })

/-- Stores the document of a text. -/
def storeXml (s : Store) (uri name xml : String) : Except StoreError (DocId × Store) :=
  match Xml.parse xml with
  | .ok root => .ok (s.storeDocument uri name root)
  | .error cause => .error (.malformedXml name cause)

/-- **Removes a document.** -/
def removeDocument (s : Store) (uri name : String) : Except StoreError Store :=
  let path := normalizeUri uri ++ "/" ++ name
  match s.pathDoc? path with
  | some _ => .ok (s.dropPath path).bump
  | none => .error (.documentNotFound path)

/-- Switches lookups off or on. -/
def interrupt (s : Store) (on : Bool) : Store := { s with interrupted := on }

/-! ### Reading nodes -/

/-- The document node of the document under a path. -/
def documentNode (s : Store) (path : String) : Except StoreError Node :=
  match s.pathDoc? path with
  | some doc => .ok (.document doc)
  | none => .error (.documentNotFound path)

/-- The kind of a node. -/
def nodeKind (s : Store) (n : Node) : Except StoreError NodeKind :=
  (s.node n).map StoredNode.kind

/-- The name of a node. -/
def nodeName (s : Store) (n : Node) : Except StoreError (Option QName) :=
  (s.node n).map StoredNode.name

/-- The text of a node: its own, or the texts below it joined. -/
def stringValue (s : Store) (n : Node) : Except StoreError String := do
  let d ← s.document n.doc
  let _ ← s.node n
  pure (d.stringValue n.id)

/-- The elements and texts in a node. -/
def children (s : Store) (n : Node) : Except StoreError (List Node) :=
  (s.node n).map fun entry => entry.children.map (⟨n.doc, ·⟩)

/-- The attributes of a node. -/
def attributes (s : Store) (n : Node) : Except StoreError (List Node) :=
  (s.node n).map fun entry => entry.attributes.map (⟨n.doc, ·⟩)

/-- The path of a document. -/
def documentUri (s : Store) (doc : DocId) : Except StoreError String :=
  (s.document doc).map Document.path

/-- The collection of a document. -/
def collectionOf (s : Store) (doc : DocId) : Except StoreError Collection := do
  let d ← s.document doc
  match s.collection? d.collection with
  | some c => pure c
  | none => throw (.collectionNotFound d.collection)

/-- Whether a document of the collection `collection` is found under the address `uri`. -/
def isUnder (uri collection : String) : Bool :=
  uri == "/db" || collection == uri || isBelowUri collection uri

/-- **The documents of a collection and of those below it.**  Every document is
below `/db`, which is always known. -/
def documentsUnder (s : Store) (uri : String) : Except StoreError NodeSet :=
  let uri := normalizeUri uri
  let known := uri == "/db" || s.collections.any fun c => isUnder uri c.uri
  if known then
    .ok (s.persistent
      ((s.documents.filter fun entry => isUnder uri entry.2.collection).map fun entry =>
        .document entry.1))
  else .error (.collectionNotFound uri)

/-- All documents. -/
def allDocuments (s : Store) : NodeSet :=
  s.persistent (s.documents.map fun entry => .document entry.1)

end Store
end IndexedXml
