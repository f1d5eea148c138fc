/-
# What the generation tells

Everything a store answers comes from its documents and from the collections that these
are in, so that a store which retains both answers as before
(`Store.Retains.answersAs`).  Since the generation never goes back and stands still only
while both are retained, equal generations at two points of a run mean equal answers
(`Store.answersAs_of_generation_eq`).
-/

import IndexedXml.Proofs.Store.Generation
import IndexedXml.Proofs.Store.Nodes
import IndexedXml.Proofs.Store.Runs
import IndexedXml.Store.Lookup

namespace IndexedXml
namespace Store

variable {s t : Store}

/-- **One store answers as another does:** it has the same documents, says the same of every
node and of every document, and finds the same in every lookup, unless lookups are switched
off. -/
structure AnswersAs (t s : Store) : Prop where
  allDocuments : t.allDocuments = s.allDocuments
  nodeKind : ∀ n, t.nodeKind n = s.nodeKind n
  nodeName : ∀ n, t.nodeName n = s.nodeName n
  stringValue : ∀ n, t.stringValue n = s.stringValue n
  children : ∀ n, t.children n = s.children n
  attributes : ∀ n, t.attributes n = s.attributes n
  documentUri : ∀ doc, t.documentUri doc = s.documentUri doc
  collectionOf : ∀ doc, t.collectionOf doc = s.collectionOf doc
  findElements : t.interrupted = false → s.interrupted = false →
    ∀ name docs, t.findElements name docs = s.findElements name docs
  findAncestors : t.interrupted = false → s.interrupted = false → ∀ name axis docs selection,
    t.findAncestors name axis docs selection = s.findAncestors name axis docs selection
  findDescendants : t.interrupted = false → s.interrupted = false → ∀ name axis docs context,
    t.findDescendants name axis docs context = s.findDescendants name axis docs context
  findByValue : t.interrupted = false → s.interrupted = false →
    ∀ q, t.findByValue q = s.findByValue q

theorem AnswersAs.symm (h : t.AnswersAs s) : s.AnswersAs t where
  allDocuments := h.allDocuments.symm
  nodeKind n := (h.nodeKind n).symm
  nodeName n := (h.nodeName n).symm
  stringValue n := (h.stringValue n).symm
  children n := (h.children n).symm
  attributes n := (h.attributes n).symm
  documentUri doc := (h.documentUri doc).symm
  collectionOf doc := (h.collectionOf doc).symm
  findElements hs ht name docs := (h.findElements ht hs name docs).symm
  findAncestors hs ht name axis docs selection :=
    (h.findAncestors ht hs name axis docs selection).symm
  findDescendants hs ht name axis docs context :=
    (h.findDescendants ht hs name axis docs context).symm
  findByValue hs ht q := (h.findByValue ht hs q).symm

/-! ### Reading -/

theorem Retains.document? (h : t.Retains s) (doc : DocId) : t.document? doc = s.document? doc := by
  unfold Store.document?
  rw [h.documents]

theorem Retains.document (h : t.Retains s) (doc : DocId) : t.document doc = s.document doc := by
  unfold Store.document
  rw [h.document?]

theorem Retains.node (h : t.Retains s) (n : Node) : t.node n = s.node n := by
  unfold Store.node
  rw [h.document]

/-- The collection of a document that is there was there already. -/
theorem Retains.collection?_of_document (h : t.Retains s) (hs : s.IsIndexed) {doc : DocId}
    {d : Document} (hd : s.document? doc = some d) :
    t.collection? d.collection = s.collection? d.collection := by
  obtain ⟨_, c, hc, _⟩ := hs _ (mem_documents_of_document? hd)
  exact (h.collection _ _ hc).trans hc.symm

theorem Retains.collectionOf_eq (h : t.Retains s) (hs : s.IsIndexed) (doc : DocId) :
    t.collectionOf doc = s.collectionOf doc := by
  unfold Store.collectionOf
  rw [h.document]
  unfold Store.document
  cases hd : s.document? doc with
  | none => rfl
  | some d =>
    simp only [ok_bind]
    rw [h.collection?_of_document hs hd]

/-! ### Looking up -/

theorem Retains.namedIn (h : t.Retains s) (name : IndexedName) (doc : DocId) :
    t.namedIn name doc = s.namedIn name doc := by
  unfold Store.namedIn
  rw [h.document?]

theorem Retains.namedAbove (h : t.Retains s) (name : IndexedName) (axis : Axis) (n : Node) :
    t.namedAbove name axis n = s.namedAbove name axis n := by
  unfold Store.namedAbove
  rw [h.document?]

theorem Retains.hitsIn (h : t.Retains s) (hs : s.IsIndexed) (q : RangeQuery) (doc : DocId) :
    t.hitsIn q doc = s.hitsIn q doc := by
  unfold Store.hitsIn
  rw [h.document?]
  cases hd : s.document? doc with
  | none => rfl
  | some d =>
    simp only [Option.bind_eq_bind, Option.bind_some]
    rw [h.collection?_of_document hs hd]

/-- **A store that retains what another had answers as that did.** -/
theorem Retains.answersAs (h : t.Retains s) (hs : s.IsIndexed) : t.AnswersAs s where
  allDocuments := by
    unfold Store.allDocuments
    rw [h.documents]
    rfl
  nodeKind n := congrArg (Except.map StoredNode.kind) (h.node n)
  nodeName n := congrArg (Except.map StoredNode.name) (h.node n)
  stringValue n := by
    unfold Store.stringValue
    rw [h.document, h.node]
  children n := by
    unfold Store.children
    rw [h.node]
  attributes n := by
    unfold Store.attributes
    rw [h.node]
  documentUri doc := congrArg (Except.map Document.path) (h.document doc)
  collectionOf := h.collectionOf_eq hs
  findElements ht hs' name docs := by
    unfold Store.findElements unlessInterrupted
    simp only [ht, hs', h.namedIn]
    rfl
  findAncestors ht hs' name axis docs selection := by
    have habove : t.namedAbove name axis = s.namedAbove name axis := funext (h.namedAbove name axis)
    unfold Store.findAncestors unlessInterrupted
    rw [ht, hs', habove]
    rfl
  findDescendants ht hs' name axis docs context := by
    unfold Store.findDescendants unlessInterrupted
    simp only [ht, hs', h.namedIn]
    rfl
  findByValue ht hs' q := by
    have hhits : t.hitsIn q = s.hitsIn q := funext (h.hitsIn hs q)
    unfold Store.findByValue unlessInterrupted
    rw [ht, hs', hhits]
    rfl

/-! ### Runs -/

/-- **Along a run the generation never goes back,** and what lookups and readings depend on
changes only together with it. -/
theorem Reachable.generation_run (h : s.Reachable) (changes : List Change) :
    s.generation ≤ (s.run changes).generation ∧
      ((s.run changes).generation = s.generation → (s.run changes).Retains s) := by
  refine h.related_run
    (R := fun t s => s.generation ≤ t.generation ∧ (t.generation = s.generation → t.Retains s))
    (fun s => ⟨le_rfl, fun _ => .refl s⟩) (fun hts hut => ⟨hts.1.trans hut.1, fun heq => ?_⟩)
    (fun {s} _ change => ⟨s.generation_le_perform change, fun heq => ?_⟩) changes
  · -- A generation in between two equal ones is equal to both.
    have := hts.1
    have := hut.1
    exact (hts.2 (by omega)).trans (hut.2 (by omega))
  · rcases s.perform_generation change with hlt | ⟨_, hretains⟩
    · omega
    · exact hretains

/-- **The generation detects every change that could be noticed.**  At any two points of a run
with the same generation the store has the same documents and gives the same answers about
every node, every document and its collection, and to every lookup. -/
theorem answersAs_of_generation_eq (changes : List Change) (i j : Nat)
    (h : (empty.run (changes.take i)).generation = (empty.run (changes.take j)).generation) :
    (empty.run (changes.take i)).AnswersAs (empty.run (changes.take j)) := by
  have hforward : ∀ {i j : Nat}, i ≤ j →
      (empty.run (changes.take i)).generation = (empty.run (changes.take j)).generation →
      (empty.run (changes.take j)).AnswersAs (empty.run (changes.take i)) := by
    intro i j hij heq
    have hs := reachable_run (changes.take i)
    have hretains := (hs.generation_run ((changes.take j).drop i)).2
    rw [← run_take _ _ hij] at hretains
    exact (hretains heq.symm).answersAs hs.isIndexed
  rcases Nat.le_total i j with hij | hji
  · exact (hforward hij h).symm
  · exact hforward hji h.symm

/-- A document is stored in an indexed collection; then come a new collection, a text that is
no document, a removal of nothing and other settings. -/
def quietEnding : List Change :=
  [.configureCollection "/db/books" [⟨⟨.element, .simple "title"⟩, .string⟩],
    .storeXml "/db/books" "a.xml" "<book><title>Dune</title></book>",
    .createCollection "/db/films", .storeXml "/db/books" "a.xml" "<book>",
    .removeDocument "/db/books" "b.xml", .setConfiguration .standard]

/-- What is refused or leaves documents and indexes alone does not show in any answer. -/
theorem answersAs_of_generation_eq_quietEnding :
    (empty.run (quietEnding.take 6)).generation = 2 ∧
      (empty.run (quietEnding.take 2)).generation = 2 ∧
      (empty.run (quietEnding.take 6)).AnswersAs (empty.run (quietEnding.take 2)) := by
  have hend : (empty.run (quietEnding.take 6)).generation = 2 := by
    decide +kernel
  have hmiddle : (empty.run (quietEnding.take 2)).generation = 2 := by
    decide +kernel
  exact ⟨hend, hmiddle, answersAs_of_generation_eq quietEnding 6 2 (hend.trans hmiddle.symm)⟩

end Store
end IndexedXml
