/-
# What becomes of a node

A number that was given to a document is not given to another, and a stored document is not
changed but for what it is indexed by: later it is there as it was, or it is gone
(`Tables.Outlives`).  So a node that can be read reads the same at every later point of a run,
or its document is not found (`Store.describes_or_lacks_later`).
-/

import IndexedXml.Proofs.Store.Runs
import IndexedXml.Proofs.Store.Tables

namespace IndexedXml

namespace Tables

/-- **One table outlives another:** under the numbers that were given out it has what the
other has, or nothing. -/
structure Outlives (u t : Tables) : Prop where
  nextDoc : t.nextDoc ≤ u.nextDoc
  documents : ∀ doc d, doc < t.nextDoc → (doc, d) ∈ u.documents → (doc, d) ∈ t.documents

theorem Outlives.refl (t : Tables) : t.Outlives t := ⟨le_rfl, fun _ _ _ h => h⟩

theorem Outlives.trans {t u v : Tables} (htu : u.Outlives t) (huv : v.Outlives u) :
    v.Outlives t where
  nextDoc := htu.nextDoc.trans huv.nextDoc
  documents doc d hlt hd :=
    htu.documents doc d hlt (huv.documents doc d (hlt.trans_le htu.nextDoc) hd)

/-- **A write leaves alone what is under other numbers.** -/
theorem outlives_write (t : Tables) : ∀ w : Write, (t.write w).Outlives t
  | (_, none) => ⟨le_rfl, fun _ _ _ hd => (mem_documents_drop.1 hd).1⟩
  | (_, some _) => by
    refine ⟨Nat.le_succ _, fun doc d hlt hd => ?_⟩
    rcases mem_documents_enter.1 hd with hold | ⟨rfl, _⟩
    · exact (mem_documents_drop.1 hold).1
    · exact absurd hlt (Nat.lt_irrefl _)

end Tables

namespace Store

variable {s t : Store}

theorem Reachable.outlives_perform (h : s.Reachable) (change : Change) :
    (s.perform change).tables.Outlives s.tables := by
  rw [tables_perform h.inStep]
  cases change.write? with
  | none => exact .refl _
  | some w => exact s.tables.outlives_write w

theorem Reachable.outlives_run (h : s.Reachable) (changes : List Change) :
    (s.run changes).tables.Outlives s.tables :=
  h.related_run (R := fun t s => t.tables.Outlives s.tables) (fun s => .refl s.tables)
    (fun hts hut => hts.trans hut) (fun hs change => hs.outlives_perform change) changes

/-! ### Reading a node -/

/-- What there is to read of a node. -/
structure Account where
  kind : NodeKind
  name : Option QName
  text : String
  children : List Node
  attributes : List Node
  uri : String

/-- Every reading of the node gives what the account says. -/
structure Describes (s : Store) (n : Node) (a : Account) : Prop where
  kind : s.nodeKind n = .ok a.kind
  name : s.nodeName n = .ok a.name
  text : s.stringValue n = .ok a.text
  children : s.children n = .ok a.children
  attributes : s.attributes n = .ok a.attributes
  uri : s.documentUri n.doc = .ok a.uri

/-- Every reading of the node fails since its document is not found. -/
structure Lacks (s : Store) (n : Node) : Prop where
  kind : s.nodeKind n = .error (.documentNotFound (DocId.text n.doc))
  name : s.nodeName n = .error (.documentNotFound (DocId.text n.doc))
  text : s.stringValue n = .error (.documentNotFound (DocId.text n.doc))
  children : s.children n = .error (.documentNotFound (DocId.text n.doc))
  attributes : s.attributes n = .error (.documentNotFound (DocId.text n.doc))
  uri : s.documentUri n.doc = .error (.documentNotFound (DocId.text n.doc))

/-- The account of a node with the given entry in a document. -/
def accountOf (d : Document) (n : Node) (e : StoredNode) : Account where
  kind := e.kind
  name := e.name
  text := d.stringValue n.id
  children := e.children.map (⟨n.doc, ·⟩)
  attributes := e.attributes.map (⟨n.doc, ·⟩)
  uri := d.path

/-- A node is described by its entry. -/
theorem describes_accountOf {n : Node} {d : Document} {e : StoredNode}
    (hd : s.document? n.doc = some d) (he : d.node? n.id = some e) :
    s.Describes n (accountOf d n e) := by
  have hdocument : s.document n.doc = .ok d := by
    rw [document, hd]
  have hnode : s.node n = .ok e := by
    rw [node, hdocument, ok_bind, he]
    rfl
  constructor
  · rw [nodeKind, hnode]
    rfl
  · rw [nodeName, hnode]
    rfl
  · rw [stringValue, hdocument, ok_bind, hnode]
    rfl
  · rw [Store.children, hnode]
    rfl
  · rw [Store.attributes, hnode]
    rfl
  · rw [documentUri, hdocument]
    rfl

/-- Without its document a node cannot be read. -/
theorem lacks_of_document? {n : Node} (hd : s.document? n.doc = none) : s.Lacks n := by
  have hdocument : s.document n.doc = .error (.documentNotFound (DocId.text n.doc)) := by
    rw [document, hd]
  have hnode : s.node n = .error (.documentNotFound (DocId.text n.doc)) := by
    rw [node, hdocument]
    rfl
  constructor
  · rw [nodeKind, hnode]
    rfl
  · rw [nodeName, hnode]
    rfl
  · rw [stringValue, hdocument]
    rfl
  · rw [Store.children, hnode]
    rfl
  · rw [Store.attributes, hnode]
    rfl
  · rw [documentUri, hdocument]
    rfl

/-- An account says nothing of what a document is indexed by. -/
theorem accountOf_unindexed (d : Document) (n : Node) (e : StoredNode) :
    accountOf d.unindexed n e = accountOf d n e := rfl

/-- **A node never comes to mean another.**  Whatever happens to a store after a point at which
it has the node, at every later point the node reads the same in every respect, or every
reading of it fails since its document is not found. -/
theorem describes_or_lacks_later (changes : List Change) {i j : Nat} (hij : i ≤ j) {n : Node}
    (hn : (empty.run (changes.take i)).Has n) :
    ∃ a, (empty.run (changes.take i)).Describes n a ∧
      ((empty.run (changes.take j)).Describes n a ∨ (empty.run (changes.take j)).Lacks n) := by
  have hs := reachable_run (changes.take i)
  have houtlives := hs.outlives_run ((changes.take j).drop i)
  rw [← run_take _ _ hij] at houtlives
  generalize empty.run (changes.take i) = s at hn hs houtlives ⊢
  generalize empty.run (changes.take j) = t at houtlives ⊢
  obtain ⟨e, hnode⟩ := hn
  obtain ⟨d, hd, hentry⟩ := hs.isIndexed.node_eq_ok_iff.1 hnode
  have he : d.node? n.id = some e := (hs.isIndexed.isLaidOut hd).node?_eq_some_iff.2 hentry
  refine ⟨accountOf d n e, describes_accountOf hd he, ?_⟩
  cases hlater : t.document? n.doc with
  | none => exact .inr (lacks_of_document? hlater)
  | some d' =>
    have hmem : (n.doc, d.unindexed) ∈ s.tables.documents :=
      mem_documents_tables.2 ⟨d, mem_documents_of_document? hd, rfl⟩
    have hmem' : (n.doc, d'.unindexed) ∈ t.tables.documents :=
      mem_documents_tables.2 ⟨d', mem_documents_of_document? hlater, rfl⟩
    have hsame : d'.unindexed = d.unindexed :=
      hs.inStep.document_unique
        (houtlives.documents _ _ (hs.inStep.fresh _ _ hmem) hmem') hmem
    have he' : d'.node? n.id = some e :=
      (congrArg (·.node? n.id) hsame).trans he
    rw [← accountOf_unindexed, ← hsame, accountOf_unindexed]
    exact .inl (describes_accountOf hlater he')

/-- A document is stored, its collection is configured, and then it is replaced, removed and
stored again. -/
def sameNameAgain : List Change :=
  [.storeXml "/db" "a.xml" "<a>1</a>",
    .configureCollection "/db" [⟨⟨.element, .simple "a"⟩, .string⟩],
    .storeXml "/db" "a.xml" "<a>2</a>", .removeDocument "/db" "a.xml",
    .storeXml "/db" "a.xml" "<a>1</a>"]

/-- The root element of the first document is there at first. -/
theorem describes_or_lacks_later_sameNameAgain :
    1 ≤ 5 ∧ (empty.run (sameNameAgain.take 1)).Has ⟨0, Document.rootId⟩ ∧
      ∃ a, (empty.run (sameNameAgain.take 1)).Describes ⟨0, Document.rootId⟩ a ∧
        ((empty.run (sameNameAgain.take 5)).Describes ⟨0, Document.rootId⟩ a ∨
          (empty.run (sameNameAgain.take 5)).Lacks ⟨0, Document.rootId⟩) := by
  have hhas : (empty.run (sameNameAgain.take 1)).Has ⟨0, Document.rootId⟩ :=
    ⟨⟨.element, some (.simple "a"), none, [Document.rootId.child 1], []⟩, by decide +kernel⟩
  exact ⟨by decide, hhas, describes_or_lacks_later sameNameAgain (by decide) hhas⟩

end Store
end IndexedXml
