/-
# The nodes of a store

Which nodes a store has, which names they bear, and how they hang together: the parent
and the ancestors of a node that is there are there too, and on the way down from a node
to one below it all nodes are there, none of them an attribute but perhaps the last.
-/

import IndexedXml.Proofs.Results
import IndexedXml.Proofs.Store.Reachable

namespace IndexedXml

namespace NodeId

/-- What is below a node and a child of another is below or at that other. -/
theorem within_of_isChildOf_of_isDescendantOf {a b c : NodeId} (hchild : a.isChildOf b = true)
    (hbelow : a.isDescendantOf c = true) : b.Within c := by
  obtain ⟨x, rfl⟩ := isChildOf_iff.1 hchild
  rw [isDescendantOf_iff] at hbelow
  rw [within_iff]
  refine List.prefix_of_prefix_length_le hbelow.1 (List.prefix_append _ _) ?_
  have hlen := hbelow.2
  simp only [child, List.length_append, List.length_singleton] at hlen
  omega

theorem level_lt_of_isDescendantOf {a b : NodeId} (h : a.isDescendantOf b = true) :
    b.level < a.level :=
  (isDescendantOf_iff.1 h).2

end NodeId

namespace Node

theorem within_of_isChildOf_of_isDescendantOf {a b c : Node} (hchild : a.isChildOf b = true)
    (hbelow : a.isDescendantOf c = true) : b.Within c := by
  rcases a with ⟨doc, a⟩; rcases b with ⟨doc', b⟩; rcases c with ⟨doc'', c⟩
  simp only [isChildOf, isDescendantOf, Bool.and_eq_true, beq_iff_eq] at hchild hbelow
  obtain ⟨rfl, hchild⟩ := hchild
  obtain ⟨rfl, hbelow⟩ := hbelow
  rcases NodeId.within_of_isChildOf_of_isDescendantOf hchild hbelow with rfl | h
  · exact .inl rfl
  · exact .inr (by simp [isDescendantOf, h])

/-- The number of levels below the document node. -/
def level (n : Node) : Nat := n.id.level

theorem level_lt_of_isDescendantOf {a b : Node} (h : a.isDescendantOf b = true) :
    b.level < a.level := by
  simp only [isDescendantOf, Bool.and_eq_true] at h
  exact NodeId.level_lt_of_isDescendantOf h.2

theorem level_of_isChildOf {a b : Node} (h : a.isChildOf b = true) : a.level = b.level + 1 := by
  obtain ⟨x, rfl⟩ := isChildOf_iff.1 h
  simp [level, NodeId.level, NodeId.child]

end Node

/-! ### Documents -/

/-- An entry is found under its identifier, and nothing else is. -/
theorem Document.IsLaidOut.node?_eq_some_iff {d : Document} (h : d.IsLaidOut) {id : NodeId}
    {n : StoredNode} : d.node? id = some n ↔ (id, n) ∈ d.nodes := by
  have hunique : ∀ {nodes : NodeTable}, (nodes.map Prod.fst).Pairwise (· < ·) →
      ((nodes.find? fun entry => entry.1 == id).map Prod.snd = some n ↔ (id, n) ∈ nodes) := by
    intro nodes hpair
    induction nodes with
    | nil => simp
    | cons e rest ih =>
      obtain ⟨he, hrest⟩ := List.pairwise_cons.1 hpair
      by_cases heq : e.1 = id
      · have hnot : (id, n) ∉ rest := fun hmem =>
          irrefl_of (· < ·) id (heq ▸ he id (List.mem_map_of_mem hmem))
        rcases e with ⟨own, m⟩
        obtain rfl : own = id := heq
        simp [hnot, eq_comm]
      · have hne : (id, n) ≠ e := fun h => heq (h ▸ rfl)
        simp [heq, hne, ← ih hrest]
  exact hunique h.ascending

namespace Store

theorem mem_documents_of_document? {s : Store} {doc : DocId} {d : Document}
    (h : s.document? doc = some d) : (doc, d) ∈ s.documents := by
  unfold document? at h
  obtain ⟨⟨found, d⟩, hfind, rfl⟩ := Option.map_eq_some_iff.1 h
  obtain rfl : found = doc := by simpa using List.find?_some hfind
  exact List.mem_of_find?_eq_some hfind

theorem IsIndexed.isLaidOut {s : Store} (h : s.IsIndexed) {doc : DocId} {d : Document}
    (hd : s.document? doc = some d) : d.IsLaidOut := by
  obtain ⟨root, c, _, heq⟩ := h _ (mem_documents_of_document? hd)
  change d = _ at heq
  rw [heq]
  exact Document.isLaidOut_reindex (Document.isLaidOut_ofElement _ _ _) _

/-- The collection of a document is there. -/
theorem IsIndexed.exists_collection {s : Store} (h : s.IsIndexed) {doc : DocId} {d : Document}
    (hd : s.document? doc = some d) :
    ∃ c, s.collection? d.collection = some c ∧ s.collectionOf doc = .ok c := by
  obtain ⟨_, c, hc, _⟩ := h _ (mem_documents_of_document? hd)
  refine ⟨c, hc, ?_⟩
  rw [collectionOf, document, hd, ok_bind, hc]
  rfl

/-- Reading a node is finding its document and its entry there. -/
theorem IsIndexed.node_eq_ok_iff {s : Store} (h : s.IsIndexed) {n : Node} {e : StoredNode} :
    s.node n = .ok e ↔ ∃ d, s.document? n.doc = some d ∧ (n.id, e) ∈ d.nodes := by
  unfold node document
  cases hd : s.document? n.doc with
  | none => simp [bind, Except.bind]
  | some d =>
    simp only [ok_bind, Option.some.injEq, exists_eq_left', ← (h.isLaidOut hd).node?_eq_some_iff]
    cases d.node? n.id <;> simp [pure, Except.pure, throw, throwThe, MonadExceptOf.throw]

/-- The store has the node. -/
def Has (s : Store) (n : Node) : Prop := ∃ e, s.node n = .ok e

instance (s : Store) (n : Node) : Decidable (s.Has n) :=
  match h : s.node n with
  | .ok e => .isTrue ⟨e, h⟩
  | .error _ => .isFalse fun ⟨_, he⟩ => nomatch h.symm.trans he

/-- The store has the node, and it is of the given kind. -/
def HasKind (s : Store) (n : Node) (kind : NodeKind) : Prop :=
  ∃ e, s.node n = .ok e ∧ e.kind = kind

/-- The store has the node, which is an element or an attribute of the given name. -/
def Bears (s : Store) (n : Node) (name : IndexedName) : Prop :=
  ∃ e, s.node n = .ok e ∧ e.hasName name = true

/-- The store has the node, and it is no attribute. -/
def HasContent (s : Store) (n : Node) : Prop := s.Has n ∧ ¬ s.HasKind n .attr

theorem HasKind.has {s : Store} {n : Node} {kind : NodeKind} (h : s.HasKind n kind) : s.Has n :=
  let ⟨e, he, _⟩ := h
  ⟨e, he⟩

theorem Bears.has {s : Store} {n : Node} {name : IndexedName} (h : s.Bears n name) : s.Has n :=
  let ⟨e, he, _⟩ := h
  ⟨e, he⟩

variable {s : Store}

/-- A node that is there has a document that is there. -/
theorem Has.document? {n : Node} (h : s.Has n) : ∃ d, s.document? n.doc = some d := by
  obtain ⟨e, he⟩ := h
  unfold node document at he
  cases hd : s.document? n.doc with
  | none => simp [hd, bind, Except.bind] at he
  | some d => exact ⟨d, rfl⟩

theorem hasContent_iff {n : Node} :
    s.HasContent n ↔ ∃ e, s.node n = .ok e ∧ e.kind ≠ .attr := by
  constructor
  · rintro ⟨⟨e, he⟩, hkind⟩
    exact ⟨e, he, fun hattr => hkind ⟨e, he, hattr⟩⟩
  · rintro ⟨e, he, hkind⟩
    exact ⟨⟨e, he⟩, fun ⟨e', he', hattr⟩ => hkind (Except.ok.inj (he.symm.trans he') ▸ hattr)⟩

/-- What is linked to an entry of a document leads to nodes of the store. -/
theorem IsIndexed.mem_linked_iff (h : s.IsIndexed) {n : Node} {d : Document}
    (hd : s.document? n.doc = some d) {links : List NodeId} {P : StoredNode → Prop}
    (hlinks : ∀ c, c ∈ links ↔ ∃ k, (c, k) ∈ d.nodes ∧ c.isChildOf n.id = true ∧ P k) (m : Node) :
    m ∈ links.map (⟨n.doc, ·⟩) ↔ m.isChildOf n = true ∧ ∃ k, s.node m = .ok k ∧ P k := by
  rw [List.mem_map]
  constructor
  · rintro ⟨c, hc, rfl⟩
    obtain ⟨k, hk, hchild, hP⟩ := (hlinks c).1 hc
    exact ⟨by simpa [Node.isChildOf] using hchild, k, h.node_eq_ok_iff.2 ⟨d, hd, hk⟩, hP⟩
  · rintro ⟨hchild, k, hk, hP⟩
    obtain ⟨d', hd', hk'⟩ := h.node_eq_ok_iff.1 hk
    rcases m with ⟨doc, id⟩
    simp only [Node.isChildOf, Bool.and_eq_true, beq_iff_eq] at hchild
    obtain ⟨rfl, hchild⟩ := hchild
    obtain rfl : d' = d := Option.some.inj (hd'.symm.trans hd)
    exact ⟨id, (hlinks id).2 ⟨k, hk', hchild, hP⟩, rfl⟩

/-- **The links of a node lead to the nodes below it.** -/
theorem IsIndexed.children_eq_ok (h : s.IsIndexed) {n : Node} (hn : s.Has n) :
    ∃ l, s.children n = .ok l ∧ ∀ m, m ∈ l ↔ m.isChildOf n = true ∧ s.HasContent m := by
  obtain ⟨e, he⟩ := hn
  obtain ⟨d, hd, hmem⟩ := h.node_eq_ok_iff.1 he
  refine ⟨_, by rw [children, he]; rfl, fun m => ?_⟩
  rw [hasContent_iff]
  exact h.mem_linked_iff hd ((h.isLaidOut hd).links _ hmem).children m

theorem IsIndexed.attributes_eq_ok (h : s.IsIndexed) {n : Node} (hn : s.Has n) :
    ∃ l, s.attributes n = .ok l ∧ ∀ m, m ∈ l ↔ m.isChildOf n = true ∧ s.HasKind m .attr := by
  obtain ⟨e, he⟩ := hn
  obtain ⟨d, hd, hmem⟩ := h.node_eq_ok_iff.1 he
  refine ⟨_, by rw [attributes, he]; rfl, fun m => ?_⟩
  exact h.mem_linked_iff hd ((h.isLaidOut hd).links _ hmem).attributes m

/-- Every node that is there is the document or has its parent there. -/
theorem IsIndexed.exists_parent (h : s.IsIndexed) {n : Node} (hn : s.Has n) :
    n.id = NodeId.document ∨ ∃ p, n.isChildOf p = true ∧ s.HasContent p := by
  obtain ⟨e, he⟩ := hn
  obtain ⟨d, hd, hmem⟩ := h.node_eq_ok_iff.1 he
  refine ((h.isLaidOut hd).parent _ hmem).imp id ?_
  rintro ⟨⟨pid, pe⟩, hp, hchild⟩
  have hnode : s.node ⟨n.doc, pid⟩ = .ok pe := h.node_eq_ok_iff.2 ⟨d, hd, hp⟩
  refine ⟨⟨n.doc, pid⟩, by simpa [Node.isChildOf] using hchild, ⟨pe, hnode⟩, ?_⟩
  -- An attribute has nothing below it.
  rintro ⟨k, hk, hattr⟩
  obtain rfl : pe = k := Except.ok.inj (hnode.symm.trans hk)
  obtain ⟨hchildren, hattributes⟩ := (h.isLaidOut hd).leaf _ hp hattr
  have hlinks := (h.isLaidOut hd).links _ hp
  by_cases hkind : e.kind = .attr
  · have := (hlinks.attributes n.id).2 ⟨e, hmem, hchild, hkind⟩
    rw [hattributes] at this
    cases this
  · have := (hlinks.children n.id).2 ⟨e, hmem, hchild, hkind⟩
    rw [hchildren] at this
    cases this

/-- The parent of a node that is there is there. -/
theorem IsIndexed.has_parent (h : s.IsIndexed) {n p : Node} (hn : s.Has n)
    (hp : n.isChildOf p = true) : s.HasContent p := by
  rcases h.exists_parent hn with hdoc | ⟨p', hp', hcontent⟩
  · rcases n with ⟨doc, id⟩
    obtain rfl : id = NodeId.document := hdoc
    simp [Node.isChildOf, NodeId.not_isChildOf_document] at hp
  · have hparent := (Node.parent?_eq_some_iff.2 hp').symm.trans (Node.parent?_eq_some_iff.2 hp)
    exact Option.some.inj hparent ▸ hcontent

/-- **On the way down to a node there is a child to begin with,** and it is an attribute
only when it is the node itself. -/
theorem IsIndexed.exists_child_within (h : s.IsIndexed) {n : Node} :
    ∀ {m : Node}, s.Has m → m.isDescendantOf n = true →
      ∃ c, c.isChildOf n = true ∧ m.Within c ∧ s.Has c ∧ (c = m ∨ s.HasContent c) := by
  intro m hm hbelow
  -- Induction on the level of `m`, whose parent is `n` or a node below it.
  induction hlevel : m.level using Nat.strong_induction_on generalizing m with
  | _ level ih =>
    rcases h.exists_parent hm with hdoc | ⟨p, hp, hcontent⟩
    · have := Node.level_lt_of_isDescendantOf hbelow
      rw [Node.level, Node.level, hdoc] at this
      exact absurd this (by simp [NodeId.level, NodeId.document])
    · rcases Node.within_of_isChildOf_of_isDescendantOf hp hbelow with rfl | hpn
      · exact ⟨m, hp, Node.Within.refl m, hm, .inl rfl⟩
      · have hlt : p.level < level := hlevel ▸ by rw [Node.level_of_isChildOf hp]; omega
        obtain ⟨c, hc, hwithin, hhas, hkind⟩ := ih p.level hlt hcontent.1 hpn rfl
        refine ⟨c, hc, (Node.within_of_isChildOf hp).trans hwithin, hhas, .inr ?_⟩
        rcases hkind with rfl | hkind
        · exact hcontent
        · exact hkind

/-- **The ancestors of a node that is there are there.** -/
theorem IsIndexed.has_ancestor (h : s.IsIndexed) {n a : Node} (hn : s.Has n)
    (ha : n.isDescendantOf a = true) : s.HasContent a := by
  induction hlevel : n.level using Nat.strong_induction_on generalizing n with
  | _ level ih =>
    rcases h.exists_parent hn with hdoc | ⟨p, hp, hcontent⟩
    · have := Node.level_lt_of_isDescendantOf ha
      rw [Node.level, Node.level, hdoc] at this
      exact absurd this (by simp [NodeId.level, NodeId.document])
    · rcases Node.within_of_isChildOf_of_isDescendantOf hp ha with rfl | hpa
      · exact hcontent
      · exact ih p.level (hlevel ▸ by rw [Node.level_of_isChildOf hp]; omega) hcontent.1 hpa rfl

/-- The document node of a node that is there is there. -/
theorem IsIndexed.has_document (h : s.IsIndexed) {n : Node} (hn : s.Has n) :
    s.Has (.document n.doc) := by
  obtain ⟨d, hd⟩ := hn.document?
  obtain ⟨e, he, _⟩ := (h.isLaidOut hd).document
  exact ⟨e, h.node_eq_ok_iff.2 ⟨d, hd, he⟩⟩

/-- Every document has a document node. -/
theorem IsIndexed.has_documentNode (h : s.IsIndexed) {doc : DocId}
    {d : Document} (hd : (doc, d) ∈ s.documents) : s.Has (.document doc) := by
  have hsome : (s.documents.find? fun entry => entry.1 == doc).isSome = true :=
    List.find?_isSome.2 ⟨(doc, d), hd, by simp⟩
  obtain ⟨entry, hentry⟩ := Option.isSome_iff_exists.1 hsome
  have hfound : s.document? doc = some entry.2 := by
    unfold document?
    rw [hentry]
    rfl
  obtain ⟨e, he, _⟩ := (h.isLaidOut hfound).document
  exact ⟨e, h.node_eq_ok_iff.2 ⟨entry.2, hfound, he⟩⟩

/-- A document has more nodes than any of its nodes has levels. -/
theorem IsIndexed.level_lt (h : s.IsIndexed) {n : Node} (hn : s.Has n) {d : Document}
    (hd : s.document? n.doc = some d) : n.level < d.nodes.length := by
  have hids : ∀ id ∈ n.id :: n.id.ancestors, id ∈ d.nodes.map Prod.fst := by
    intro id hid
    have hhas : s.Has ⟨n.doc, id⟩ := by
      rcases List.mem_cons.1 hid with rfl | hid
      · exact hn
      · have hbelow : n.isDescendantOf ⟨n.doc, id⟩ = true := by
          simpa [Node.isDescendantOf] using NodeId.mem_ancestors.1 hid
        exact (h.has_ancestor hn hbelow).1
    obtain ⟨e, he⟩ := hhas
    obtain ⟨d', hd', hmem⟩ := h.node_eq_ok_iff.1 he
    obtain rfl : d' = d := Option.some.inj (hd'.symm.trans hd)
    exact List.mem_map_of_mem hmem
  have hnodup : (n.id :: n.id.ancestors).Nodup := by
    refine List.nodup_cons.2 ⟨fun hself => ?_, ?_⟩
    · exact irrefl_of (· < ·) n.id (NodeId.lt_of_isDescendantOf (NodeId.mem_ancestors.1 hself))
    · refine List.Nodup.map_on ?_ (List.nodup_reverse.2 List.nodup_range)
      intro i hi j hj heq
      rw [List.mem_reverse, List.mem_range] at hi hj
      have := congrArg (List.length ∘ NodeId.levels) heq
      simp only [Function.comp_apply, List.length_take] at this
      omega
  have hlen := (List.subperm_of_subset hnodup hids).length_le
  have hcount : n.id.ancestors.length = n.level := by
    unfold NodeId.ancestors Node.level NodeId.level
    rw [List.length_map, List.length_reverse, List.length_range]
  rw [List.length_cons, hcount, List.length_map] at hlen
  exact hlen

end Store
end IndexedXml
