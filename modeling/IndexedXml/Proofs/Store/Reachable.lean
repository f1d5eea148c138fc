/-
# The stores that changes lead to

The changes a program can make to a store, one after the other and starting from the
empty store, lead to the *reachable* stores.  A change that is refused leaves the store
as it was.

One invariant carries all that later modules need: every document is the layout of some
tree, indexed by the declarations that its collection has now (`Store.IsIndexed`).  Each
change keeps it (`Store.IsIndexed.perform`), and so it holds of every reachable store.
-/

import IndexedXml.Proofs.Store.Layout
import IndexedXml.Store.Basic

namespace IndexedXml
namespace Store

/-- A change of a store. -/
inductive Change where
  | storeDocument (uri name : String) (root : Element)
  | storeXml (uri name xml : String)
  | removeDocument (uri name : String)
  | configureCollection (uri : String) (indexes : List RangeIndexSpec)
  | setConfiguration (configuration : Configuration)
  | createCollection (uri : String)
  | interrupt (on : Bool)

/-- The store after a change; one that is refused leaves it as it was. -/
def perform (s : Store) : Change → Store
  | .storeDocument uri name root => (s.storeDocument uri name root).2
  | .storeXml uri name xml =>
    match s.storeXml uri name xml with
    | .ok (_, s) => s
    | .error _ => s
  | .removeDocument uri name =>
    match s.removeDocument uri name with
    | .ok s => s
    | .error _ => s
  | .configureCollection uri indexes => s.configureCollection uri indexes
  | .setConfiguration configuration => s.setConfiguration configuration
  | .createCollection uri => (s.createCollection uri).2
  | .interrupt on => s.interrupt on

/-- The stores that changes of the empty store lead to. -/
inductive Reachable : Store → Prop where
  | empty : Reachable Store.empty
  | perform {s : Store} (h : Reachable s) (change : Change) : Reachable (s.perform change)

/-- **Every document is the layout of a tree, indexed as its collection declares.** -/
def IsIndexed (s : Store) : Prop :=
  ∀ entry ∈ s.documents, ∃ root c, s.collection? entry.2.collection = some c ∧
    entry.2 = (Document.ofElement entry.2.name entry.2.collection root).reindex c.indexes

/-! ### Collections -/

theorem mem_of_collection? {s : Store} {uri : String} {c : Collection}
    (h : s.collection? uri = some c) : c ∈ s.collections :=
  List.mem_of_find?_eq_some h

/-- Which collection is found depends on the collections alone. -/
theorem collection?_congr {s t : Store} (h : s.collections = t.collections) (uri : String) :
    s.collection? uri = t.collection? uri := by
  unfold collection?
  rw [h]

/-- A collection that is put is found, and the others are left. -/
theorem collection?_putCollection (s : Store) (c : Collection) (uri : String) :
    (s.putCollection c).collection? uri = if c.uri = uri then some c else s.collection? uri := by
  unfold putCollection collection?
  rw [List.find?_append, List.find?_filter]
  by_cases h : c.uri = uri
  · have hnone : s.collections.find? (fun old => (old.uri != c.uri) = true ∧ (old.uri == uri) = true)
        = none := by
      rw [List.find?_eq_none]
      intro old _ hold
      rw [decide_eq_true_eq, bne_iff_ne, beq_iff_eq, h] at hold
      exact hold.1 hold.2
    rw [hnone, Option.none_or, if_pos h]
    simp [h]
  · have hsame : (fun old : Collection => decide ((old.uri != c.uri) = true ∧ (old.uri == uri) = true)) =
        fun old => old.uri == uri := by
      funext old
      by_cases hold : old.uri = uri
      · simp [hold, Ne.symm h]
      · simp [hold]
    rw [hsame, if_neg h]
    simp [h]

/-- Ensuring that there is a collection finds it. -/
theorem collection?_ensureCollection (s : Store) (uri : String) :
    (s.ensureCollection uri).2.collection? uri = some (s.ensureCollection uri).1 := by
  unfold ensureCollection
  cases h : s.collection? uri with
  | some c => exact h
  | none => simp [collection?_putCollection]

/-- Ensuring that there is a collection changes no other. -/
theorem collection?_ensureCollection_of_some {s : Store} {other : String} {c : Collection}
    (h : s.collection? other = some c) (uri : String) :
    (s.ensureCollection uri).2.collection? other = some c := by
  unfold ensureCollection
  cases huri : s.collection? uri with
  | some _ => exact h
  | none =>
    rw [collection?_putCollection, if_neg]
    · exact h
    · rintro rfl
      rw [huri] at h
      cases h

theorem documents_ensureCollection (s : Store) (uri : String) :
    (s.ensureCollection uri).2.documents = s.documents := by
  unfold ensureCollection
  cases s.collection? uri <;> rfl

/-! ### The invariant -/

theorem isIndexed_empty : Store.empty.IsIndexed := fun _ h => absurd h List.not_mem_nil

/-- The invariant looks only at documents, and at the collections that they are in. -/
theorem IsIndexed.mono {s t : Store} (h : s.IsIndexed) (hdocs : ∀ e ∈ t.documents, e ∈ s.documents)
    (hcollections : ∀ uri c, s.collection? uri = some c → t.collection? uri = some c) :
    t.IsIndexed := by
  intro entry hentry
  obtain ⟨root, c, hc, heq⟩ := h entry (hdocs entry hentry)
  exact ⟨root, c, hcollections _ _ hc, heq⟩

/-- The invariant does not look at what else a store holds. -/
theorem IsIndexed.congr {s t : Store} (h : s.IsIndexed) (hdocs : t.documents = s.documents)
    (hcollections : t.collections = s.collections) : t.IsIndexed :=
  h.mono (fun _ he => hdocs ▸ he) fun uri _ hc => (collection?_congr hcollections uri).trans hc

theorem IsIndexed.ensureCollection {s : Store} (h : s.IsIndexed) (uri : String) :
    (s.ensureCollection uri).2.IsIndexed :=
  h.mono (fun e he => by rwa [documents_ensureCollection] at he)
    fun _ _ hc => collection?_ensureCollection_of_some hc uri

/-- **New declarations reach every document of the collection.** -/
theorem IsIndexed.configureCollection {s : Store} (h : s.IsIndexed) (uri : String)
    (indexes : List RangeIndexSpec) : (s.configureCollection uri indexes).IsIndexed := by
  unfold Store.configureCollection
  dsimp only
  generalize normalizeUri uri = uri
  intro entry hentry
  obtain ⟨⟨doc, d⟩, hd, rfl⟩ := List.mem_map.1 hentry
  obtain ⟨root, c, hc, heq⟩ := h (doc, d) hd
  change d = (Document.ofElement d.name d.collection root).reindex c.indexes at heq
  dsimp only
  by_cases huri : d.collection = uri
  · rw [if_pos (beq_iff_eq.2 huri)]
    refine ⟨root, ⟨uri, indexes⟩, ?_, ?_⟩
    · exact (collection?_congr rfl _).trans
        ((collection?_putCollection s _ _).trans (if_pos huri.symm))
    · -- Indexing anew forgets how the document was indexed before.
      change d.reindex indexes = (Document.ofElement d.name d.collection root).reindex indexes
      conv_lhs => rw [heq]
      rfl
  · rw [if_neg (beq_iff_eq.not.2 huri)]
    refine ⟨root, c, ?_, heq⟩
    exact (collection?_congr rfl _).trans
      ((collection?_putCollection s _ _).trans ((if_neg (Ne.symm huri)).trans hc))

theorem IsIndexed.setConfiguration {s : Store} (h : s.IsIndexed) (configuration : Configuration) :
    (s.setConfiguration configuration).IsIndexed := by
  have hfold : ∀ (settings : List CollectionSettings) (s : Store), s.IsIndexed →
      (settings.foldl (fun s c => s.configureCollection c.uri c.indexes) s).IsIndexed := by
    intro settings
    induction settings with
    | nil => exact fun _ h => h
    | cons c rest ih => exact fun s h => ih _ (h.configureCollection c.uri c.indexes)
  exact IsIndexed.congr (hfold configuration.collections s h) rfl rfl

theorem documents_dropPath (s : Store) (path : String) :
    ∀ e ∈ (s.dropPath path).documents, e ∈ s.documents := by
  intro e he
  unfold dropPath at he
  cases h : s.pathDoc? path with
  | none => rwa [h] at he
  | some doc =>
    rw [h] at he
    exact List.mem_of_mem_filter he

theorem collection?_dropPath (s : Store) (path uri : String) :
    (s.dropPath path).collection? uri = s.collection? uri := by
  unfold dropPath
  cases s.pathDoc? path <;> rfl

theorem IsIndexed.dropPath {s : Store} (h : s.IsIndexed) (path : String) :
    (s.dropPath path).IsIndexed :=
  h.mono (documents_dropPath s path) fun uri _ hc => (collection?_dropPath s path uri).trans hc

/-- **A new document is indexed as its collection declares.** -/
theorem IsIndexed.storeDocument {s : Store} (h : s.IsIndexed) (uri name : String)
    (root : Element) : (s.storeDocument uri name root).2.IsIndexed := by
  have hfound := collection?_ensureCollection s (normalizeUri uri)
  have hensured := h.ensureCollection (normalizeUri uri)
  rcases hpair : s.ensureCollection (normalizeUri uri) with ⟨collection, t⟩
  rw [hpair] at hfound hensured
  simp only [Store.storeDocument, hpair]
  generalize normalizeUri uri = uri at hfound ⊢
  generalize hstored : (Document.ofElement name uri root).reindex collection.indexes = stored
  have hbefore := hensured.dropPath stored.path
  intro entry hentry
  rcases List.mem_append.1 hentry with hold | hnew
  · exact hbefore entry hold
  · rw [List.mem_singleton] at hnew
    subst hnew hstored
    exact ⟨root, collection, (collection?_dropPath t _ _).trans hfound, rfl⟩

/-- **Every change keeps the invariant.** -/
theorem IsIndexed.perform {s : Store} (h : s.IsIndexed) (change : Change) :
    (s.perform change).IsIndexed := by
  cases change with
  | storeDocument uri name root => exact h.storeDocument uri name root
  | storeXml uri name xml =>
    change (match s.storeXml uri name xml with
      | .ok (_, s) => s
      | .error _ => s).IsIndexed
    unfold storeXml
    cases Xml.parse xml with
    | error _ => exact h
    | ok root => exact h.storeDocument uri name root
  | removeDocument uri name =>
    change (match s.removeDocument uri name with
      | .ok s => s
      | .error _ => s).IsIndexed
    unfold removeDocument
    dsimp only
    cases s.pathDoc? (normalizeUri uri ++ "/" ++ name) with
    | none => exact h
    | some doc => exact (h.dropPath _).congr rfl rfl
  | configureCollection uri indexes => exact h.configureCollection uri indexes
  | setConfiguration configuration => exact h.setConfiguration configuration
  | createCollection uri => exact h.ensureCollection (normalizeUri uri)
  | interrupt on => exact h.congr rfl rfl

/-- **The invariant holds of every reachable store.** -/
theorem Reachable.isIndexed {s : Store} (h : s.Reachable) : s.IsIndexed := by
  induction h with
  | empty => exact isIndexed_empty
  | perform _ change ih => exact ih.perform change

end Store
end IndexedXml
