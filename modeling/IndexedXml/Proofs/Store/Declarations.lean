/-
# Declared types and stored keys

Two readers go through the declarations of a collection.  Asked for the type of the index on
a name, the collection reports that of the first declaration for it; when a document is
indexed, the last one leaves its keys.  At every point of every run both agree on whether
there are entries for a name at all, and on their keys as far as the first and the last
declaration are of one type (`Store.keepsKeys_run`).  A configuration may declare a name as
texts and then as doubles, and then the keys are not of the type that is reported
(`Store.not_keepsReported_titleTwice`).
-/

import IndexedXml.Proofs.Store.Ranges
import IndexedXml.Proofs.Store.Runs

namespace IndexedXml

namespace Document

/-- The name index has a list under a name only when it has something to list. -/
theorem ne_nil_of_foldl_enter {nodes : NodeTable} {names : NameTable (List NodeId)}
    {name : IndexedName} (hnames : ∀ ids, names.find? name = some ids → ids ≠ []) {ids : List NodeId}
    (h : (nodes.foldl enter names).find? name = some ids) : ids ≠ [] := by
  induction nodes generalizing names with
  | nil => exact hnames ids h
  | cons e rest ih =>
    refine ih (fun ids hids => ?_) h
    unfold enter at hids
    cases hown : indexedName? e.2 with
    | none =>
      rw [hown] at hids
      exact hnames ids hids
    | some own =>
      rw [hown] at hids
      dsimp only at hids
      rw [NameTable.find?_put] at hids
      split_ifs at hids with hsame
      · obtain rfl := Option.some.inj hids
        exact List.append_ne_nil_of_right_ne_nil _ (List.cons_ne_nil _ _)
      · exact hnames ids hids

end Document

namespace Store

variable {s : Store}

/-- The name index of a document has a name just when some node bears it. -/
theorem IsIndexed.isSome_named?_iff (h : s.IsIndexed) {doc : DocId} {d : Document}
    (hd : s.document? doc = some d) {name : IndexedName} :
    (d.named? name).isSome = true ↔ ∃ id, s.Bears ⟨doc, id⟩ name := by
  have hmem : ∀ id, id ∈ (d.named? name).getD [] ↔ s.Bears ⟨doc, id⟩ name := by
    intro id
    rw [← h.mem_namedIn, namedIn, hd, Option.bind_some]
  simp only [← hmem]
  cases hnamed : d.named? name with
  | none => simp
  | some ids =>
    obtain ⟨root, c, _, heq⟩ := h _ (mem_documents_of_document? hd)
    have hne : ids ≠ [] := by
      rw [show d = _ from heq] at hnamed
      exact Document.ne_nil_of_foldl_enter (fun _ hids => absurd hids (by simp [NameTable.find?])) hnamed
    simpa using List.exists_mem_of_ne_nil ids hne

/-- **What a document keeps under a name,** given its collection. -/
structure KeepsKeys (s : Store) (doc : DocId) (d : Document) (c : Collection)
    (name : IndexedName) : Prop where
  /-- There are entries just when a type is reported and the document has nodes of the name. -/
  present : (d.ranges.find? name).isSome = true ↔
    (c.rangeIndex? name).isSome = true ∧ ∃ id, s.Bears ⟨doc, id⟩ name
  /-- They are the nodes of the name whose text has a key of the type that is declared last,
  each with that key. -/
  keyed : ∀ type, c.keyType? name = some type → ∀ id key,
    (id, key) ∈ (d.ranges.find? name).getD [] ↔ s.Bears ⟨doc, id⟩ name ∧
      ∃ text, s.stringValue ⟨doc, id⟩ = .ok text ∧ type.keyOfText? text = some key
  /-- Every key is that of the reported type, where this is the type that is declared last. -/
  reported : c.keyType? name = c.rangeIndex? name → ∀ id key,
    (id, key) ∈ (d.ranges.find? name).getD [] →
      ∃ type text, c.rangeIndex? name = some type ∧ s.stringValue ⟨doc, id⟩ = .ok text ∧
        type.keyOfText? text = some key

/-- **The entries of a document are those of the last declarations.** -/
theorem IsIndexed.keepsKeys (h : s.IsIndexed) {doc : DocId} {d : Document} {c : Collection}
    (hd : s.document? doc = some d) (hc : s.collection? d.collection = some c)
    (name : IndexedName) : s.KeepsKeys doc d c name := by
  have hkeyed : ∀ type, c.keyType? name = some type → ∀ id key,
      (id, key) ∈ (d.ranges.find? name).getD [] ↔ s.Bears ⟨doc, id⟩ name ∧
        ∃ text, s.stringValue ⟨doc, id⟩ = .ok text ∧ type.keyOfText? text = some key := by
    intro type htype id key
    rw [h.mem_ranges hd hc htype]
    refine and_congr_right fun hbears => ?_
    simp [stringValue_eq_ok hbears.has hd]
  have hpresent : (d.ranges.find? name).isSome = true ↔
      (c.rangeIndex? name).isSome = true ∧ ∃ id, s.Bears ⟨doc, id⟩ name := by
    rw [← h.isSome_named?_iff hd, ← Collection.isSome_keyType?, h.find?_ranges hd hc]
    cases c.keyType? name <;> simp
  refine ⟨hpresent, hkeyed, fun hagree id key hmem => ?_⟩
  have hsome : (c.rangeIndex? name).isSome = true := by
    refine (hpresent.1 ?_).1
    cases hentries : d.ranges.find? name with
    | none =>
      rw [hentries] at hmem
      cases hmem
    | some _ => rfl
  obtain ⟨type, htype⟩ := Option.isSome_iff_exists.1 hsome
  obtain ⟨_, text, htext, hkey⟩ := (hkeyed type (hagree.trans htype) id key).1 hmem
  exact ⟨type, text, htype, htext, hkey⟩

/-- **Declared types and stored keys along a run.**  At every point of every run each document
has a collection, and for every name it keeps entries just when the collection reports a type
for the name and the document has nodes of it.  The entries have the keys of the type that is
declared last, so that every stored key is the one that the reported type derives from the
text of the node wherever the first and the last declaration are of one type. -/
theorem keepsKeys_run (changes : List Change) :
    ∀ doc d, (empty.run changes).document? doc = some d →
      ∃ c, (empty.run changes).collectionOf doc = .ok c ∧
        ∀ name, (empty.run changes).KeepsKeys doc d c name := by
  intro doc d hd
  have hindexed := (reachable_run changes).isIndexed
  obtain ⟨c, hc, hcollection⟩ := hindexed.exists_collection hd
  exact ⟨c, hcollection, hindexed.keepsKeys hd hc⟩

/-- The name of titles. -/
def titleName : IndexedName := ⟨.element, .simple "title"⟩

/-- The name of years. -/
def yearName : IndexedName := ⟨.element, .simple "year"⟩

/-- Titles are declared as texts and then as integers, and years as integers once, when a document is
there. -/
def settledLate : List Change :=
  [.storeXml "/db" "a.xml" "<book><title>1984</title><title>Dune</title><year>1949</year></book>",
    .configureCollection "/db" [⟨titleName, .string⟩, ⟨yearName, .integer⟩, ⟨titleName, .integer⟩]]

/-- The one title that is a number is kept, with a number for its key, though texts are reported.
The year has the key of the type that is reported. -/
theorem keepsKeys_run_settledLate :
    ∃ d c, (empty.run settledLate).document? 0 = some d ∧
      (empty.run settledLate).collectionOf 0 = .ok c ∧
      ((empty.run settledLate).KeepsKeys 0 d c titleName ∧
        c.keyType? titleName = some .integer ∧ c.rangeIndex? titleName = some .string ∧
          d.ranges.find? titleName = some [(⟨[1, 1]⟩, .number (Double.ofInt 1984))]) ∧
      (empty.run settledLate).KeepsKeys 0 d c yearName ∧
        c.keyType? yearName = some .integer ∧ c.rangeIndex? yearName = some .integer ∧
          d.ranges.find? yearName = some [(⟨[1, 3]⟩, .number (Double.ofInt 1949))] ∧
            ∃ type text, c.rangeIndex? yearName = some type ∧
              (empty.run settledLate).stringValue ⟨0, ⟨[1, 3]⟩⟩ = .ok text ∧
                type.keyOfText? text = some (.number (Double.ofInt 1949)) := by
  have hranges : ((empty.run settledLate).document? 0).map (fun d =>
      (d.ranges.find? titleName, d.ranges.find? yearName)) =
        some (some [(⟨[1, 1]⟩, .number (Double.ofInt 1984))],
          some [(⟨[1, 3]⟩, .number (Double.ofInt 1949))]) := by
    decide +kernel
  have htypes : ((empty.run settledLate).collectionOf 0).map (fun c =>
      ((c.keyType? titleName, c.rangeIndex? titleName), c.keyType? yearName, c.rangeIndex? yearName)) =
        .ok ((some .integer, some .string), some .integer, some .integer) := by
    decide +kernel
  obtain ⟨d, hd, hranges⟩ := Option.map_eq_some_iff.1 hranges
  obtain ⟨htitles, hyears⟩ := Prod.mk.inj hranges
  obtain ⟨c, hc, hkeeps⟩ := keepsKeys_run settledLate 0 d hd
  rw [hc] at htypes
  obtain ⟨htwice, honce⟩ := Prod.mk.inj (Except.ok.inj htypes)
  obtain ⟨hlast, hfirst⟩ := Prod.mk.inj htwice
  obtain ⟨hstored, hreported⟩ := Prod.mk.inj honce
  have hkey := (hkeeps yearName).reported (hstored.trans hreported.symm) ⟨[1, 3]⟩
    (.number (Double.ofInt 1949)) (hyears ▸ List.mem_singleton_self _)
  exact ⟨d, c, hd, hc, ⟨hkeeps titleName, hlast, hfirst, htitles⟩, hkeeps yearName, hstored, hreported,
    hyears, hkey⟩

/-- A configuration that declares the titles of books as texts and then as doubles. -/
def titleTwice : String :=
  "\x7b\"collections\": [\x7b\"uri\": \"/db/books\", \"range_indexes\": [" ++
    "\x7b\"name\": \"title\", \"type\": \"xs:string\"\x7d, " ++
      "\x7b\"name\": \"title\", \"type\": \"xs:double\"\x7d]\x7d]\x7d"

/-- A document of books under a configuration. -/
def titledUnder (configuration : Configuration) : Store :=
  empty.run [.setConfiguration configuration,
    .storeXml "/db/books" "a.xml" "<book><title>1984</title></book>"]

/-- **Of a name that is declared as texts and then as doubles** texts are reported and numbers
are stored: the key of the title `1984` is no text. -/
theorem not_keepsReported_titleTwice :
    ∃ configuration, Configuration.parse? titleTwice = some configuration ∧
      ∃ d c, (titledUnder configuration).document? 0 = some d ∧
        (titledUnder configuration).collectionOf 0 = .ok c ∧
          ¬ ∀ id key, (id, key) ∈ (d.ranges.find? titleName).getD [] →
            ∃ type text, c.rangeIndex? titleName = some type ∧
              (titledUnder configuration).stringValue ⟨0, id⟩ = .ok text ∧
                type.keyOfText? text = some key := by
  let configuration : Configuration := ⟨.never, true, false,
    [⟨"/db/books", [⟨titleName, .string⟩, ⟨titleName, .double⟩]⟩]⟩
  have hparse : Configuration.parse? titleTwice = some configuration := by decide +kernel
  have hranges : ((titledUnder configuration).document? 0).map (fun d =>
      (d.ranges.find? titleName).getD []) = some [(⟨[1, 1]⟩, .number (Double.ofInt 1984))] := by
    decide +kernel
  have htype : ((titledUnder configuration).collectionOf 0).map (·.rangeIndex? titleName) =
      .ok (some .string) := by
    decide +kernel
  obtain ⟨d, hd, hranges⟩ := Option.map_eq_some_iff.1 hranges
  obtain ⟨c, hc, htype⟩ := map_eq_ok.1 htype
  refine ⟨configuration, hparse, d, c, hd, hc, fun h => ?_⟩
  obtain ⟨type, text, hreported, _, hkey⟩ := h ⟨[1, 1]⟩ (.number (Double.ofInt 1984))
    (hranges ▸ List.mem_singleton_self _)
  obtain rfl : IndexType.string = type := Option.some.inj (htype.symm.trans hreported)
  cases Option.some.inj hkey

end Store
end IndexedXml
