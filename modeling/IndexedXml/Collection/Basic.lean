/-
# Collections

A collection has an address and the declarations of its range indexes.  A name
may be declared more than once; the first declaration is the one that counts
when the type of an index is asked for.
-/

import IndexedXml.Collection.IndexKey
import IndexedXml.Collection.Uri
import IndexedXml.Name.IndexedName

namespace IndexedXml

/-- The declaration of a range index. -/
structure RangeIndexSpec where
  /-- The nodes that are indexed. -/
  name : IndexedName
  /-- The type of the keys. -/
  indexType : IndexType
  deriving DecidableEq

/-- The declarations with one more, which takes the place of those for its name. -/
def declareIndex (specs : List RangeIndexSpec) (spec : RangeIndexSpec) : List RangeIndexSpec :=
  specs.filter (fun old => !old.name.same spec.name) ++ [spec]

/-- A collection of documents. -/
structure Collection where
  /-- The normalized address. -/
  uri : String
  /-- The declarations of its range indexes. -/
  indexes : List RangeIndexSpec
  deriving DecidableEq

namespace Collection

/-- Whether the collection belongs to the database itself. -/
def isSystem (c : Collection) : Bool := isSystemUri c.uri

/-- The type of the range index on a name, as first declared. -/
def rangeIndex? (c : Collection) (name : IndexedName) : Option IndexType :=
  (c.indexes.find? fun spec => spec.name.same name).map RangeIndexSpec.indexType

end Collection
end IndexedXml
