/-
# The tables of a store

The documents of a store stand in one table under their numbers, and the numbers in another
under the paths of the documents.  Apart from what documents are indexed by, every change is
a write into the two: the document under a path is dropped, and perhaps another one entered
under the same path with the next number (`Store.tables_perform`).

The tables are *in step* when numbers ascend and were all given out, no path occurs twice,
and a path leads to just the document that has it (`Tables.InStep`).  They are so in every
reachable store.
-/

import IndexedXml.Proofs.Store.Generation
import IndexedXml.Proofs.Store.Nodes

namespace IndexedXml

namespace Document

/-- The document without what it is indexed by. -/
def unindexed (d : Document) : Document := { d with ranges := [] }

/-- Under which pair a document is stored: its collection and its name. -/
def key (d : Document) : String × String := (d.collection, d.name)

@[simp] theorem unindexed_reindex (d : Document) (specs : List RangeIndexSpec) :
    (d.reindex specs).unindexed = d.unindexed := rfl

@[simp] theorem path_unindexed (d : Document) : d.unindexed.path = d.path := rfl

end Document

/-- The path of a collection and a name. -/
def pathOf (key : String × String) : String := key.1 ++ "/" ++ key.2

theorem pathOf_mk (collection name : String) :
    pathOf (collection, name) = collection ++ "/" ++ name := rfl

theorem Document.path_eq (d : Document) : d.path = pathOf d.key := rfl

/-- The documents of a store without their indexes, and the ways to them. -/
structure Tables where
  /-- The documents under their numbers. -/
  documents : List (DocId × Document)
  /-- The numbers under the paths. -/
  paths : List (String × DocId)
  /-- The next number. -/
  nextDoc : DocId

namespace Tables

/-- The tables without the document under a path. -/
def drop (t : Tables) (path : String) : Tables :=
  { t with
    documents := t.documents.filter fun entry => entry.2.path != path
    paths := t.paths.filter fun entry => entry.1 != path }

/-- The tables with one more document, under the next number. -/
def enter (t : Tables) (d : Document) : Tables :=
  ⟨t.documents ++ [(t.nextDoc, d)], t.paths ++ [(d.path, t.nextDoc)], t.nextDoc + 1⟩

/-- What is written under a pair of a collection and a name: a tree, or nothing. -/
abbrev Write := (String × String) × Option Element

/-- The tables after a write. -/
def write (t : Tables) : Write → Tables
  | (key, none) => t.drop (pathOf key)
  | (key, some root) => (t.drop (pathOf key)).enter (.ofElement key.2 key.1 root)

theorem write_none (t : Tables) (key : String × String) :
    t.write (key, none) = t.drop (pathOf key) := rfl

/-- **Documents and paths are in step.** -/
structure InStep (t : Tables) : Prop where
  /-- Numbers ascend. -/
  ascending : (t.documents.map Prod.fst).Pairwise (· < ·)
  /-- They have been given out before. -/
  fresh : ∀ doc d, (doc, d) ∈ t.documents → doc < t.nextDoc
  /-- No path occurs twice. -/
  distinct : (t.paths.map Prod.fst).Nodup
  /-- A path leads to the document that has it. -/
  linked : ∀ path doc, (path, doc) ∈ t.paths ↔ ∃ d, (doc, d) ∈ t.documents ∧ d.path = path

theorem inStep_empty : (⟨[], [], 0⟩ : Tables).InStep :=
  ⟨.nil, nofun, .nil, by simp⟩

theorem mem_documents_drop {t : Tables} {path : String} {doc : DocId} {d : Document} :
    (doc, d) ∈ (t.drop path).documents ↔ (doc, d) ∈ t.documents ∧ d.path ≠ path := by
  simp [drop]

theorem mem_documents_enter {t : Tables} {d e : Document} {doc : DocId} :
    (doc, e) ∈ (t.enter d).documents ↔ (doc, e) ∈ t.documents ∨ doc = t.nextDoc ∧ e = d := by
  simp [enter]

namespace InStep

variable {t : Tables}

/-- A number has one document. -/
theorem document_unique (h : t.InStep) {doc : DocId} {d d' : Document}
    (hd : (doc, d) ∈ t.documents) (hd' : (doc, d') ∈ t.documents) : d = d' := by
  have hnodup : (t.documents.map Prod.fst).Nodup := h.ascending.imp fun hlt => Nat.ne_of_lt hlt
  exact (Prod.mk.inj (List.inj_on_of_nodup_map hnodup hd hd' rfl)).2

/-- A path has one number. -/
theorem number_unique (h : t.InStep) {path : String} {doc doc' : DocId}
    (hdoc : (path, doc) ∈ t.paths) (hdoc' : (path, doc') ∈ t.paths) : doc = doc' :=
  (Prod.mk.inj (List.inj_on_of_nodup_map h.distinct hdoc hdoc' rfl)).2

theorem drop (h : t.InStep) (path : String) : (t.drop path).InStep where
  ascending := h.ascending.sublist (List.filter_sublist.map _)
  fresh doc d hd := h.fresh doc d (mem_documents_drop.1 hd).1
  distinct := h.distinct.sublist (List.filter_sublist.map _)
  linked other doc := by
    have hmem : (other, doc) ∈ (t.drop path).paths ↔ (other, doc) ∈ t.paths ∧ other ≠ path := by
      simp [Tables.drop]
    rw [hmem, h.linked]
    simp only [mem_documents_drop]
    constructor
    · rintro ⟨⟨d, hd, rfl⟩, hne⟩
      exact ⟨d, ⟨hd, hne⟩, rfl⟩
    · rintro ⟨d, ⟨hd, hne⟩, rfl⟩
      exact ⟨⟨d, hd, rfl⟩, hne⟩

/-- A document can be entered under a path that is not in use. -/
theorem enter (h : t.InStep) {d : Document} (hd : ∀ doc e, (doc, e) ∈ t.documents → e.path ≠ d.path) :
    (t.enter d).InStep where
  ascending := by
    rw [Tables.enter, List.map_append, List.pairwise_append]
    refine ⟨h.ascending, List.pairwise_singleton _ _, fun doc hdoc new hnew => ?_⟩
    obtain ⟨⟨doc, e⟩, he, rfl⟩ := List.mem_map.1 hdoc
    obtain rfl := List.mem_singleton.1 hnew
    exact h.fresh doc e he
  fresh doc e he := by
    rcases mem_documents_enter.1 he with hold | ⟨rfl, _⟩
    · exact Nat.lt_succ_of_lt (h.fresh doc e hold)
    · exact Nat.lt_succ_self _
  distinct := by
    rw [Tables.enter, List.map_append, List.nodup_append]
    refine ⟨h.distinct, List.nodup_singleton _, fun path hpath new hnew => ?_⟩
    obtain ⟨⟨path, doc⟩, hentry, rfl⟩ := List.mem_map.1 hpath
    obtain rfl := List.mem_singleton.1 hnew
    obtain ⟨e, he, rfl⟩ := (h.linked path doc).1 hentry
    exact hd doc e he
  linked path doc := by
    have hmem : (path, doc) ∈ (t.enter d).paths ↔
        (path, doc) ∈ t.paths ∨ path = d.path ∧ doc = t.nextDoc := by
      simp [Tables.enter]
    rw [hmem, h.linked]
    simp only [mem_documents_enter]
    constructor
    · rintro (⟨e, he, rfl⟩ | ⟨rfl, rfl⟩)
      · exact ⟨e, .inl he, rfl⟩
      · exact ⟨d, .inr ⟨rfl, rfl⟩, rfl⟩
    · rintro ⟨e, he | ⟨rfl, rfl⟩, rfl⟩
      · exact .inl ⟨e, he, rfl⟩
      · exact .inr ⟨rfl, rfl⟩

/-- **A write keeps the tables in step.** -/
theorem write (h : t.InStep) : ∀ w : Write, (t.write w).InStep
  | (_, none) => h.drop _
  | (_, some _) => (h.drop _).enter fun _ _ he => (mem_documents_drop.1 he).2

/-- Nothing is dropped under a path that is not in use. -/
theorem drop_of_unused (h : t.InStep) {path : String} (hpath : ∀ doc, (path, doc) ∉ t.paths) :
    t.drop path = t := by
  have hdocuments : t.documents.filter (fun entry => entry.2.path != path) = t.documents := by
    refine List.filter_eq_self.2 fun entry hentry => bne_iff_ne.2 fun heq => ?_
    exact hpath entry.1 ((h.linked path entry.1).2 ⟨entry.2, hentry, heq⟩)
  have hpaths : t.paths.filter (fun entry => entry.1 != path) = t.paths := by
    refine List.filter_eq_self.2 fun entry hentry => bne_iff_ne.2 fun heq => ?_
    exact hpath entry.2 (heq ▸ hentry)
  rw [Tables.drop, hdocuments, hpaths]

/-- A document is dropped with its path when it is dropped by its number. -/
theorem filter_number (h : t.InStep) {path : String} {doc : DocId} (hdoc : (path, doc) ∈ t.paths) :
    t.documents.filter (fun entry => entry.1 != doc) =
      t.documents.filter fun entry => entry.2.path != path := by
  refine List.filter_congr fun entry hentry => ?_
  have hiff : entry.1 = doc ↔ entry.2.path = path := by
    constructor
    · rintro rfl
      obtain ⟨d, hd, rfl⟩ := (h.linked path entry.1).1 hdoc
      rw [h.document_unique hentry hd]
    · intro heq
      exact h.number_unique ((h.linked path entry.1).2 ⟨entry.2, hentry, heq⟩) hdoc
  rw [Bool.eq_iff_iff, bne_iff_ne, bne_iff_ne, ne_eq, ne_eq, hiff]

end InStep
end Tables

namespace Store

variable {s : Store}

/-- The tables of a store. -/
def tables (s : Store) : Tables :=
  ⟨s.documents.map fun entry => (entry.1, entry.2.unindexed), s.paths, s.nextDoc⟩

/-- **What a change writes,** if anything. -/
def Change.write? : Change → Option Tables.Write
  | .storeDocument uri name root => some ((normalizeUri uri, name), some root)
  | .storeXml uri name xml =>
    match Xml.parse xml with
    | .ok root => some ((normalizeUri uri, name), some root)
    | .error _ => none
  | .removeDocument uri name => some ((normalizeUri uri, name), none)
  | _ => none

/-! ### What changes do to the tables -/

theorem tables_ensureCollection (s : Store) (uri : String) :
    (s.ensureCollection uri).2.tables = s.tables := by
  unfold ensureCollection
  cases s.collection? uri <;> rfl

theorem tables_configureCollection (s : Store) (uri : String) (indexes : List RangeIndexSpec) :
    (s.configureCollection uri indexes).tables = s.tables := by
  have hsame : ∀ d : Document,
      (if d.collection == normalizeUri uri then d.reindex indexes else d).unindexed = d.unindexed := by
    intro d
    split_ifs <;> rfl
  change Tables.mk ((s.documents.map _).map _) _ _ = _
  rw [List.map_map]
  simp only [Function.comp_def, hsame]
  rfl

theorem tables_setConfiguration (s : Store) (configuration : Configuration) :
    (s.setConfiguration configuration).tables = s.tables := by
  have hfold : ∀ (settings : List CollectionSettings) (s : Store),
      (settings.foldl (fun s c => s.configureCollection c.uri c.indexes) s).tables = s.tables := by
    intro settings
    induction settings with
    | nil => exact fun _ => rfl
    | cons c rest ih => exact fun s => (ih _).trans (tables_configureCollection s c.uri c.indexes)
  exact hfold configuration.collections s

/-- A path that is found is in the table, and one that is not found is not. -/
theorem pathDoc?_eq_none_iff {path : String} :
    s.pathDoc? path = none ↔ ∀ doc, (path, doc) ∉ s.paths := by
  unfold pathDoc?
  rw [Option.map_eq_none_iff, List.find?_eq_none]
  constructor
  · intro h doc hmem
    exact h _ hmem (beq_self_eq_true path)
  · rintro h ⟨other, doc⟩ hmem heq
    exact h doc (beq_iff_eq.1 heq ▸ hmem)

theorem mem_paths_of_pathDoc? {path : String} {doc : DocId} (h : s.pathDoc? path = some doc) :
    (path, doc) ∈ s.paths := by
  unfold pathDoc? at h
  obtain ⟨⟨other, doc⟩, hfind, rfl⟩ := Option.map_eq_some_iff.1 h
  obtain rfl : other = path := by simpa using List.find?_some hfind
  exact List.mem_of_find?_eq_some hfind

theorem tables_dropPath (h : s.tables.InStep) (path : String) :
    (s.dropPath path).tables = s.tables.drop path := by
  unfold dropPath
  cases hdoc : s.pathDoc? path with
  | none => exact (h.drop_of_unused (pathDoc?_eq_none_iff.1 hdoc)).symm
  | some doc =>
    have hfilter := h.filter_number (mem_paths_of_pathDoc? hdoc)
    change Tables.mk _ _ _ = Tables.mk _ _ _
    rw [← hfilter]
    simp only [tables, List.filter_map]
    rfl

/-- Entering a document with its path enters it into the tables. -/
theorem tables_enter (t : Store) (d : Document) :
    (bump { t with
      documents := t.documents ++ [(t.nextDoc, d)]
      paths := t.paths ++ [(d.path, t.nextDoc)]
      nextDoc := t.nextDoc + 1 }).tables = t.tables.enter d.unindexed := by
  simp [tables, bump, Tables.enter]

theorem tables_storeDocument (h : s.tables.InStep) (uri name : String) (root : Element) :
    (s.storeDocument uri name root).2.tables =
      s.tables.write ((normalizeUri uri, name), some root) := by
  unfold storeDocument
  generalize normalizeUri uri = uri
  have hin : (s.ensureCollection uri).2.tables.InStep := by rwa [tables_ensureCollection]
  rw [tables_enter, tables_dropPath hin, tables_ensureCollection]
  rfl

/-- **A change is a write into the tables,** or leaves them as they are. -/
theorem tables_perform (h : s.tables.InStep) (change : Change) :
    (s.perform change).tables = (change.write?.map s.tables.write).getD s.tables := by
  cases change with
  | storeDocument uri name root => exact tables_storeDocument h uri name root
  | storeXml uri name xml =>
    cases hparse : Xml.parse xml with
    | error _ =>
      rw [perform_storeXml_of_error s uri name hparse]
      simp only [Change.write?, hparse, Option.map_none, Option.getD_none]
    | ok root =>
      rw [perform_storeXml s uri name hparse]
      simp only [Change.write?, hparse, Option.map_some, Option.getD_some]
      exact tables_storeDocument h uri name root
  | removeDocument uri name =>
    simp only [Change.write?, Option.map_some, Option.getD_some, Tables.write_none, pathOf_mk]
    cases hdoc : s.pathDoc? (normalizeUri uri ++ "/" ++ name) with
    | none =>
      rw [perform_removeDocument_of_none hdoc, h.drop_of_unused (pathDoc?_eq_none_iff.1 hdoc)]
    | some _ =>
      rw [perform_removeDocument hdoc]
      exact tables_dropPath h _
  | configureCollection uri indexes => exact tables_configureCollection s uri indexes
  | setConfiguration configuration => exact tables_setConfiguration s configuration
  | createCollection uri => exact tables_ensureCollection s _
  | interrupt on => rfl

/-- **Every change keeps the tables in step.** -/
theorem inStep_perform (h : s.tables.InStep) (change : Change) :
    (s.perform change).tables.InStep := by
  rw [tables_perform h]
  cases change.write? with
  | none => exact h
  | some w => exact h.write w

/-- **The tables of a reachable store are in step.** -/
theorem Reachable.inStep (h : s.Reachable) : s.tables.InStep := by
  induction h with
  | empty => exact Tables.inStep_empty
  | perform _ change ih => exact inStep_perform ih change

/-! ### Reading the tables -/

theorem pathDoc?_eq_some_iff (h : s.tables.InStep) {path : String} {doc : DocId} :
    s.pathDoc? path = some doc ↔ (path, doc) ∈ s.paths := by
  refine ⟨mem_paths_of_pathDoc?, fun hmem => ?_⟩
  cases hfound : s.pathDoc? path with
  | none => exact absurd hmem (pathDoc?_eq_none_iff.1 hfound doc)
  | some other => rw [h.number_unique (mem_paths_of_pathDoc? hfound) hmem]

theorem numbers_tables : s.tables.documents.map Prod.fst = s.documents.map Prod.fst := by
  rw [tables, List.map_map]
  rfl

/-- A document is found under its number, and no other is. -/
theorem document?_eq_some_iff (h : s.tables.InStep) {doc : DocId} {d : Document} :
    s.document? doc = some d ↔ (doc, d) ∈ s.documents := by
  refine ⟨mem_documents_of_document?, fun hmem => ?_⟩
  have hnodup : (s.documents.map Prod.fst).Nodup :=
    (numbers_tables ▸ h.ascending).imp fun hlt => Nat.ne_of_lt hlt
  cases hfound : s.document? doc with
  | none =>
    have hnone := List.find?_eq_none.1 (Option.map_eq_none_iff.1 hfound) _ hmem
    exact absurd (beq_self_eq_true doc) hnone
  | some e =>
    have hpair := List.inj_on_of_nodup_map hnodup (mem_documents_of_document? hfound) hmem rfl
    rw [(Prod.mk.inj hpair).2]

theorem mem_documents_tables {doc : DocId} {d : Document} :
    (doc, d) ∈ s.tables.documents ↔ ∃ e, (doc, e) ∈ s.documents ∧ e.unindexed = d := by
  simp [tables]

end Store
end IndexedXml
