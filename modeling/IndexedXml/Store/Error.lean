/-
# Failures of a store

What a store can refuse, each with what it is about, and the words it is
reported in.
-/

import IndexedXml.Axis
import IndexedXml.Node.Id
import IndexedXml.Xml.Document

namespace IndexedXml

/-- Why a store refuses. -/
inductive StoreError where
  /-- No collection has the address or lies below it. -/
  | collectionNotFound (uri : String)
  /-- There is no such document, given by its number or its path. -/
  | documentNotFound (reference : String)
  /-- The document has no node of that identifier. -/
  | nodeNotFound (doc : DocId) (id : NodeId)
  /-- The text of a document cannot be loaded. -/
  | malformedXml (document : String) (cause : Xml.Malformation)
  /-- A lookup does not follow the axis. -/
  | unsupportedAxis (axis : Axis)
  /-- Lookups are switched off. -/
  | interrupted
  /-- A file or a directory cannot be read. -/
  | unreadable (path : String)
  /-- A text is no configuration. -/
  | invalidConfiguration
  deriving DecidableEq

namespace StoreError

/-- The report of a failure. -/
def message : StoreError → String
  | collectionNotFound uri => "collection not found: " ++ uri
  | documentNotFound reference => "document not found: " ++ reference
  | nodeNotFound doc id => "unknown node " ++ id.text ++ " in " ++ DocId.text doc
  | malformedXml document cause => "malformed XML in " ++ document ++ ": " ++ cause.message
  | unsupportedAxis axis => "axis " ++ axis.name ++ " is not supported by this index query"
  | interrupted => "index probe interrupted"
  | unreadable path => "cannot read " ++ path
  | invalidConfiguration => "invalid configuration"

end StoreError
end IndexedXml
