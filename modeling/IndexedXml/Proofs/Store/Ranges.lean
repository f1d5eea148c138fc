/-
# What a lookup by key answers

A collection that declares an index on a name gives every node of that name whose text
has a key just that key, so that a lookup finds the nodes with a fitting key and no
others (`Store.Hits`).  That is so when the declarations for the name are of one type, as
when it is declared once: of several, a lookup takes its type from the first and the keys
are those of the last (`Collection.keyType?`).
-/

import IndexedXml.Proofs.Store.Lookup

namespace IndexedXml

/-- No name is declared twice. -/
def DeclareOnce (indexes : List RangeIndexSpec) : Prop :=
  indexes.Pairwise fun a b => a.name.same b.name = false

instance (indexes : List RangeIndexSpec) : Decidable (DeclareOnce indexes) :=
  inferInstanceAs (Decidable (List.Pairwise _ _))

/-- **Every name has one declaration at most,** and that for texts or doubles.  The keys
of an index on integers leave out texts that a comparison takes as doubles. -/
structure Collection.IsPlain (c : Collection) : Prop where
  distinct : c.indexes.Pairwise fun a b => a.name.same b.name = false
  notInteger : ∀ spec ∈ c.indexes, spec.indexType ≠ .integer

instance (c : Collection) : Decidable c.IsPlain :=
  decidable_of_iff (c.indexes.Pairwise (fun a b => a.name.same b.name = false) ∧
    ∀ spec ∈ c.indexes, spec.indexType ≠ .integer) ⟨fun h => ⟨h.1, h.2⟩, fun h => ⟨h.1, h.2⟩⟩

/-- The type of the keys under a name: that of the last declaration for it. -/
def Collection.keyType? (c : Collection) (name : IndexedName) : Option IndexType :=
  (c.indexes.reverse.find? fun spec => spec.name.same name).map RangeIndexSpec.indexType

/-- What is declared once is declared first and last. -/
theorem DeclareOnce.find?_reverse {indexes : List RangeIndexSpec} (h : DeclareOnce indexes)
    (name : IndexedName) :
    (indexes.reverse.find? fun spec => spec.name.same name) =
      indexes.find? fun spec => spec.name.same name := by
  induction indexes with
  | nil => rfl
  | cons spec rest ih =>
    obtain ⟨hspec, hrest⟩ := List.pairwise_cons.1 h
    rw [List.reverse_cons, List.find?_append, ih hrest]
    by_cases hname : spec.name.same name = true
    · have hlater : rest.find? (fun spec => spec.name.same name) = none := by
        rw [List.find?_eq_none]
        intro later hlater hsame
        have := hspec later hlater
        rw [IndexedName.same_congr hname, IndexedName.same_comm] at this
        exact absurd hsame (by simp [this])
      simp [hlater, hname]
    · simp [hname]

/-- For a name that is declared once the type is the declared one. -/
theorem DeclareOnce.keyType?_eq {c : Collection} (h : DeclareOnce c.indexes) (name : IndexedName) :
    c.keyType? name = c.rangeIndex? name :=
  congrArg (Option.map RangeIndexSpec.indexType) (h.find?_reverse name)

/-- There is a type for the keys under a name just when the name is declared. -/
theorem Collection.isSome_keyType? (c : Collection) (name : IndexedName) :
    (c.keyType? name).isSome = (c.rangeIndex? name).isSome := by
  unfold keyType? rangeIndex?
  rw [Option.isSome_map, Option.isSome_map, Bool.eq_iff_iff, List.find?_isSome, List.find?_isSome]
  simp only [List.mem_reverse]

namespace Store

variable {s : Store}

/-- Every collection has plain declarations. -/
def IsPlain (s : Store) : Prop := ∀ c ∈ s.collections, c.IsPlain

instance (s : Store) : Decidable s.IsPlain :=
  inferInstanceAs (Decidable (∀ c ∈ s.collections, c.IsPlain))

/-- No collection declares a name twice. -/
def DeclaresOnce (s : Store) : Prop := ∀ c ∈ s.collections, DeclareOnce c.indexes

theorem IsPlain.declaresOnce (h : s.IsPlain) : s.DeclaresOnce := fun c hc => (h c hc).distinct

/-- The collection of a document, whose declaration for a name is looked for. -/
def declared? (s : Store) (doc : DocId) (name : IndexedName) : Option IndexType := do
  let d ← s.document? doc
  let c ← s.collection? d.collection
  c.rangeIndex? name

/-- **The node answers a lookup by key:** it bears the name, and its text has a key in the
relation to the given one, both in the declared type. -/
def Hits (s : Store) (name : IndexedName) (op : RangeOp) (key : AtomicValue) (n : Node) : Prop :=
  s.Bears n name ∧ ∃ type text stored asked, s.declared? n.doc name = some type ∧
    s.stringValue n = .ok text ∧ type.keyOfText? text = some stored ∧
      type.keyOfValue? key = some asked ∧ op.hits stored asked = true

theorem declared?_eq_some_iff {doc : DocId} {name : IndexedName} {type : IndexType} :
    s.declared? doc name = some type ↔ ∃ d c, s.document? doc = some d ∧
      s.collection? d.collection = some c ∧ c.rangeIndex? name = some type := by
  unfold declared?
  simp only [Option.bind_eq_bind, Option.bind_eq_some_iff]
  constructor
  · rintro ⟨d, hd, c, hc, htype⟩; exact ⟨d, c, hd, hc, htype⟩
  · rintro ⟨d, c, hd, hc, htype⟩; exact ⟨d, hd, c, hc, htype⟩

/-- The text of a node of the store is what its document says. -/
theorem stringValue_eq_ok {n : Node} (hn : s.Has n) {d : Document}
    (hd : s.document? n.doc = some d) : s.stringValue n = .ok (d.stringValue n.id) := by
  obtain ⟨e, he⟩ := hn
  unfold stringValue document
  rw [hd, he]
  rfl

theorem exists_stringValue {n : Node} (hn : s.Has n) : ∃ text, s.stringValue n = .ok text := by
  obtain ⟨d, hd⟩ := hn.document?
  exact ⟨_, stringValue_eq_ok hn hd⟩

/-- **The declarations of a document's collection for a name are settled:** the first and the
last are of one type, or there are none. -/
def Settles (s : Store) (doc : DocId) (name : IndexedName) : Prop :=
  ∀ d c, s.document? doc = some d → s.collection? d.collection = some c →
    c.keyType? name = c.rangeIndex? name

theorem DeclaresOnce.settles (h : s.DeclaresOnce) (doc : DocId) (name : IndexedName) :
    s.Settles doc name :=
  fun _ c _ hc => DeclareOnce.keyType?_eq (h c (mem_of_collection? hc)) name

/-- **The entries of a document under a name** are those that the last declaration makes of its
nodes of the name. -/
theorem IsIndexed.find?_ranges (h : s.IsIndexed) {doc : DocId} {d : Document} {c : Collection}
    (hd : s.document? doc = some d) (hc : s.collection? d.collection = some c)
    (name : IndexedName) :
    d.ranges.find? name =
      (c.keyType? name).bind fun type => (d.named? name).map (d.entriesFor type) := by
  obtain ⟨root, c', hc', heq⟩ := h _ (mem_documents_of_document? hd)
  obtain rfl : c' = c := Option.some.inj (hc'.symm.trans hc)
  change d = _ at heq
  unfold Collection.keyType?
  rw [Option.bind_map]
  -- Indexing by value changes neither names nor texts.
  conv_lhs => rw [heq, Document.find?_ranges_reindex]
  conv_rhs => rw [heq]
  rfl

/-- The entries under a name are the nodes of that name, each with the key that the last
declared type gives to its text. -/
theorem IsIndexed.mem_ranges (h : s.IsIndexed) {doc : DocId} {d : Document}
    {c : Collection} {name : IndexedName} {type : IndexType} (hd : s.document? doc = some d)
    (hc : s.collection? d.collection = some c) (htype : c.keyType? name = some type)
    (entry : NodeId × IndexKey) :
    entry ∈ (d.ranges.find? name).getD [] ↔ s.Bears ⟨doc, entry.1⟩ name ∧
      type.keyOfText? (d.stringValue entry.1) = some entry.2 := by
  rw [← h.mem_namedIn, namedIn, hd, Option.bind_some, h.find?_ranges hd hc, htype, Option.bind_some]
  cases d.named? name with
  | none => simp
  | some ids =>
    rcases entry with ⟨id, key⟩
    simp only [Option.map_some, Option.getD_some, Document.entriesFor, List.mem_filterMap,
      Option.map_eq_some_iff, Prod.mk.injEq]
    constructor
    · rintro ⟨id', hid, key', hkey, rfl, rfl⟩; exact ⟨hid, hkey⟩
    · rintro ⟨hid, hkey⟩; exact ⟨id, hid, key, hkey, rfl, rfl⟩

/-- Being within a context is being at or below one of its nodes. -/
theorem isWithin_iff {context : NodeSet} {n : Node} :
    isWithin (some context) n = true ↔ ∃ a ∈ context, n.Within a := by
  simp only [isWithin, Bool.or_eq_true, NodeSet.contains_eq_true, List.any_eq_true,
    Node.mem_ancestors]
  constructor
  · rintro (hn | ⟨a, hbelow, ha⟩)
    · exact ⟨n, hn, .inl rfl⟩
    · exact ⟨a, ha, .inr hbelow⟩
  · rintro ⟨a, ha, rfl | hbelow⟩
    · exact .inl ha
    · exact .inr ⟨a, hbelow, ha⟩

/-- What stands in a list that may be missing. -/
theorem mem_getD_nil {α : Type} {found : Option (List α)} {a : α} :
    a ∈ found.getD [] ↔ ∃ l, found = some l ∧ a ∈ l := by
  cases found <;> simp

/-- What is found in a document is in that document. -/
theorem doc_eq_of_mem_hitsIn {q : RangeQuery} {doc : DocId} {n : Node} (h : n ∈ s.hitsIn q doc) :
    n.doc = doc := by
  obtain ⟨l, hl, hn⟩ := mem_getD_nil.1 (List.mem_filter.1 h).1
  simp only [Option.bind_eq_bind, Option.bind_eq_some_iff, Option.pure_def, Option.some.injEq] at hl
  obtain ⟨d, _, type, _, asked, _, entries, _, rfl⟩ := hl
  obtain ⟨entry, _, rfl⟩ := List.mem_map.1 hn
  rfl

/-- In one document a lookup by key finds the nodes that answer it. -/
theorem IsIndexed.mem_hitsIn (h : s.IsIndexed) {q : RangeQuery} {doc : DocId}
    (hsettles : s.Settles doc q.name) {n : Node} :
    n ∈ s.hitsIn q doc ↔
      n.doc = doc ∧ isWithin q.context n = true ∧ s.Hits q.name q.op q.key n := by
  unfold hitsIn
  rw [List.mem_filter, mem_getD_nil]
  simp only [Option.bind_eq_bind, Option.bind_eq_some_iff, Option.pure_def, Option.some.injEq]
  constructor
  · rintro ⟨⟨l, ⟨d, hd, type, ⟨c, hc, htype⟩, asked, hasked, entries, hentries, rfl⟩, hn⟩, hwithin⟩
    obtain ⟨entry, hentry, rfl⟩ := List.mem_map.1 hn
    rw [List.mem_filter] at hentry
    have hmem := (h.mem_ranges hd hc ((hsettles d c hd hc).trans htype) entry).1
      (by rw [hentries]; exact hentry.1)
    exact ⟨rfl, hwithin, hmem.1, type, _, entry.2, asked,
      declared?_eq_some_iff.2 ⟨d, c, hd, hc, htype⟩, stringValue_eq_ok hmem.1.has hd, hmem.2,
      hasked, hentry.2⟩
  · rintro ⟨rfl, hwithin, hbears, type, text, stored, asked, hdeclared, htext, hstored, hasked,
      hhits⟩
    obtain ⟨d, c, hd, hc, htype⟩ := declared?_eq_some_iff.1 hdeclared
    rw [stringValue_eq_ok hbears.has hd] at htext
    obtain rfl := Except.ok.inj htext
    have hmem := (h.mem_ranges hd hc ((hsettles d c hd hc).trans htype) (n.id, stored)).2
      ⟨hbears, hstored⟩
    cases hentries : d.ranges.find? q.name with
    | none =>
      rw [hentries] at hmem
      cases hmem
    | some entries =>
      rw [hentries] at hmem
      refine ⟨⟨_, ⟨d, hd, type, ⟨c, hc, htype⟩, asked, hasked, entries, hentries, rfl⟩, ?_⟩, hwithin⟩
      exact List.mem_map.2 ⟨(n.id, stored), List.mem_filter.2 ⟨hmem, hhits⟩, rfl⟩

/-- A lookup by key finds what is found in each of its documents. -/
theorem exists_findByValue (hprobes : s.interrupted = false) (q : RangeQuery) :
    ∃ found, s.findByValue q = .ok (s.persistent found) ∧
      ∀ n, n ∈ found ↔ n.doc ∈ q.docs.docs ∧ n ∈ s.hitsIn q n.doc := by
  unfold findByValue unlessInterrupted
  rw [if_neg (by simp [hprobes])]
  refine ⟨_, rfl, fun n => ?_⟩
  rw [List.mem_flatMap]
  constructor
  · rintro ⟨doc, hdoc, hn⟩
    obtain rfl := doc_eq_of_mem_hitsIn hn
    exact ⟨hdoc, hn⟩
  · rintro ⟨hdoc, hn⟩
    exact ⟨n.doc, hdoc, hn⟩

/-- **A lookup by key finds the nodes that answer it,** in the given documents and within the
given context, where the declarations for the name are settled. -/
theorem IsIndexed.findByValue_of_settles (h : s.IsIndexed) (hprobes : s.interrupted = false)
    {q : RangeQuery} (hsettles : ∀ doc ∈ q.docs.docs, s.Settles doc q.name) :
    ∃ found, s.findByValue q = .ok (s.persistent found) ∧ ∀ n, n ∈ found ↔
      n.doc ∈ q.docs.docs ∧ isWithin q.context n = true ∧ s.Hits q.name q.op q.key n := by
  obtain ⟨found, hfound, hmem⟩ := exists_findByValue hprobes q
  refine ⟨found, hfound, fun n => (hmem n).trans (and_congr_right fun hdoc => ?_)⟩
  rw [h.mem_hitsIn (hsettles _ hdoc)]
  exact and_iff_right rfl

/-- In a store without repeated declarations every lookup by key does so. -/
theorem IsIndexed.findByValue_eq_ok (h : s.IsIndexed) (honce : s.DeclaresOnce)
    (hprobes : s.interrupted = false) (q : RangeQuery) :
    ∃ found, s.findByValue q = .ok (s.persistent found) ∧ ∀ n, n ∈ found ↔
      n.doc ∈ q.docs.docs ∧ isWithin q.context n = true ∧ s.Hits q.name q.op q.key n :=
  h.findByValue_of_settles hprobes fun doc _ => honce.settles doc q.name

/-- What a lookup by key can find, the store has. -/
theorem Hits.has {name : IndexedName} {op : RangeOp} {key : AtomicValue} {n : Node}
    (h : s.Hits name op key n) : s.Has n :=
  h.1.has

end Store
end IndexedXml
