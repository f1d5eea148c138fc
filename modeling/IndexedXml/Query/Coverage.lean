/-
# Coverage by indexes

Whether the collections behind a sequence all declare an index for a probe, and all
with one type.  Collections of the database itself do not count.  A collection
without the index, or with one of another type, leaves the sequence uncovered; under
the policy `always` the first index found decides the type, and the nodes from
collections that have just that index are covered.
-/

import IndexedXml.Query.Discovery
import IndexedXml.Query.Navigation
import IndexedXml.Query.Sequence
import IndexedXml.Store.Lookup

namespace IndexedXml
namespace Store

/-- The collections with each address once. -/
def distinctCollections (collections : List Collection) : List Collection :=
  collections.foldl
    (fun seen c => if seen.any fun other => other.uri == c.uri then seen else seen ++ [c]) []

/-- The collections that the nodes of a sequence come from, in the order of the
documents. -/
def collectionsOf (s : Store) (sequence : Sequence) : Except StoreError (List Collection) := do
  let collections ← sequence.documents.docs.mapM s.collectionOf
  pure (distinctCollections collections)

end Store

/-- The type of the index on a name that collections have in common.  `settled` is the
type that the collections before these have in common. -/
def commonIndexType (always : Bool) (name : IndexedName) (settled : Option IndexType) :
    List Collection → Option IndexType
  | [] => settled
  | c :: rest =>
    if c.isSystem then commonIndexType always name settled rest
    else
      match c.rangeIndex? name, settled with
      | none, _ => if always then commonIndexType always name settled rest else none
      | some found, none =>
        if always then some found else commonIndexType always name (some found) rest
      | some found, some type =>
        if found = type then commonIndexType always name settled rest else none

namespace Store

/-- **The type of the index on a name for a sequence,** if there is one. -/
def indexTypeFor (s : Store) (sequence : Sequence) (name : IndexedName) :
    Except StoreError (Option IndexType) := do
  let collections ← s.collectionsOf sequence
  pure (commonIndexType (s.configuration.enforceIndexUse == .always) name none collections)

/-- Whether the documents of a collection have an index of the given type on a name. -/
def declares (name : IndexedName) (type : IndexType) (c : Collection) : Bool :=
  !c.isSystem && c.rangeIndex? name == some type

end Store

namespace IndexProbe

/-- Whether the key of the probe suits an index. -/
def fits (p : IndexProbe) (type : IndexType) : Bool :=
  match p.op with
  | .startsWith => type == .string
  | .compare _ => (type.keyOfValue? p.key).isSome

/-- The members of a set whose documents have an index of the given type. -/
def coveredBy (p : IndexProbe) (s : Store) (set : NodeSet) (type : IndexType) :
    Except StoreError NodeSet := do
  let docs := set.documents
  let covered ← filterPassing
    (fun doc => do pure (Store.declares p.name type (← s.collectionOf doc))) docs.docs
  pure (if covered.length = docs.size then set else set.filter fun n => covered.elem n.doc)

/-- **The part of a sequence that the probe can answer for.**  A list of items has
none, and there is none when no index suits. -/
def coveredSubset (p : IndexProbe) (s : Store) : Option Sequence → Except StoreError (Option NodeSet)
  | some (.nodes shared) => do
    match ← s.indexTypeFor (.nodes shared) p.name with
    | none => pure none
    | some type =>
      if p.fits type then some <$> p.coveredBy s shared.set type else pure none
  | _ => .ok none

/-- Whether the probe can answer for a whole sequence. -/
def coversAll (p : IndexProbe) (s : Store) (sequence : Option Sequence) :
    Except StoreError Bool := do
  match ← p.coveredSubset s sequence with
  | none => pure false
  | some covered => pure (sequence.map Sequence.size == some covered.size)

/-- The lookup of the probe in the documents of a set.  With `within` only the
members of the set and what is below them are looked up. -/
def rangeQuery (p : IndexProbe) (context : NodeSet) (within : Bool) : RangeQuery :=
  ⟨p.name, p.op, p.key, context.documents, if within then some context else none⟩

end IndexProbe

/-- **Whether each of some conditions can be answered for a whole sequence.**  Without
conditions there is nothing to answer. -/
def verdict (s : Store) (working : Option Sequence) : List Optimizable → Except StoreError Bool
  | [] => .ok false
  | [o] => o.probe.coversAll s working
  | o :: rest => do
    if ← o.probe.coversAll s working then verdict s working rest else pure false

end IndexedXml
