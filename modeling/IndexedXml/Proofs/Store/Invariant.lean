/-
# What holds of every store

The invariant of the representation (`Store.IsWellKept`): paths and documents lead to each
other, numbers are below the next one, the collection of a document is there, and inside each
document parents and links fit together and the name index is sorted and complete
(`Document.IsWellLinked`).  It holds at the end of every run (`Store.isWellKept_run`).
-/

import IndexedXml.Proofs.Store.Runs
import IndexedXml.Proofs.Store.Tables

namespace IndexedXml

namespace Document

/-! ### The order of links -/

/-- The numbers of attributes come before those of the content. -/
theorem pairwise_ordinals_append (id : NodeId) (attributes content : Nat) :
    (ordinals id 0 attributes ++ ordinals id attributes content).Pairwise (· < ·) := by
  refine List.pairwise_append.2
    ⟨pairwise_ordinals _ _ _, pairwise_ordinals _ _ _, fun a ha b hb => ?_⟩
  obtain ⟨i, _, hi, rfl⟩ := mem_ordinals.1 ha
  obtain ⟨j, hj, _, rfl⟩ := mem_ordinals.1 hb
  exact NodeId.lt_of_within_child (show i < j by omega) (.inl rfl) (.inl rfl)

mutual

/-- **Links ascend,** attributes first, through a piece of content. -/
theorem pairwise_links_treeNodes {e : NodeId × StoredNode} :
    ∀ {id : NodeId} {t : Tree}, e ∈ treeNodes id t →
      (e.2.attributes ++ e.2.children).Pairwise (· < ·)
  | id, .text value, h => by
    rw [treeNodes, List.mem_singleton] at h
    rw [h]
    exact .nil
  | id, .element name attributes content, h => by
    rcases mem_treeNodes_element.1 h with rfl | h | h
    · exact pairwise_ordinals_append id attributes.length content.length
    · obtain ⟨_, name, value, hleaf⟩ := mem_attributeNodes h
      rw [hleaf]
      exact .nil
    · exact pairwise_links_contentNodes h

/-- Links ascend, attributes first, through content. -/
theorem pairwise_links_contentNodes {e : NodeId × StoredNode} :
    ∀ {id : NodeId} {ordinal : Nat} {content : List Tree}, e ∈ contentNodes id ordinal content →
      (e.2.attributes ++ e.2.children).Pairwise (· < ·)
  | id, ordinal, [], h => by
    rw [contentNodes] at h
    cases h
  | id, ordinal, piece :: rest, h => by
    rw [contentNodes, List.mem_append] at h
    rcases h with h | h
    · exact pairwise_links_treeNodes h
    · exact pairwise_links_contentNodes h

end

theorem pairwise_links_nodesOf (root : Element) {e : NodeId × StoredNode}
    (h : e ∈ nodesOf root) : (e.2.attributes ++ e.2.children).Pairwise (· < ·) := by
  rcases List.mem_cons.1 h with rfl | h
  · exact List.pairwise_singleton _ _
  · exact pairwise_links_treeNodes h

/-! ### Documents -/

/-- **What holds inside a document,** as it is read: each node but the document node has a
parent and is listed there once, lists ascend with attributes first and hold nothing else, and
the name index lists the nodes of a name, ascending. -/
structure IsWellLinked (d : Document) : Prop where
  parent : ∀ id e, d.node? id = some e → id ≠ NodeId.document →
    ∃ p above, id.parent? = some p ∧ d.node? p = some above ∧
      (above.attributes ++ above.children).count id = 1
  ordered : ∀ id e, d.node? id = some e → (e.attributes ++ e.children).Pairwise (· < ·)
  listed : ∀ id e, d.node? id = some e → ∀ c ∈ e.attributes ++ e.children,
    c.parent? = some id ∧ ∃ n, d.node? c = some n ∧ (c ∈ e.attributes ↔ n.kind = .attr)
  named : ∀ name, ((d.named? name).getD []).Pairwise (· < ·) ∧
    ∀ id, id ∈ (d.named? name).getD [] ↔ ∃ e, d.node? id = some e ∧ e.hasName name = true

/-- **A laid out document whose links ascend is linked well.** -/
theorem IsLaidOut.isWellLinked {d : Document} (h : d.IsLaidOut)
    (hlinks : ∀ e ∈ d.nodes, (e.2.attributes ++ e.2.children).Pairwise (· < ·)) :
    d.IsWellLinked where
  parent id e he hne := by
    have hmem := h.node?_eq_some_iff.1 he
    obtain ⟨p, hp, hchild⟩ := (h.parent _ hmem).resolve_left hne
    refine ⟨p.1, p.2, NodeId.parent?_eq_some_iff.2 hchild, h.node?_eq_some_iff.2 hp, ?_⟩
    have hnodup : (p.2.attributes ++ p.2.children).Nodup :=
      (hlinks p hp).imp fun {a b} (hlt : a < b) (heq : a = b) =>
        irrefl_of (· < ·) b (heq ▸ hlt)
    refine List.count_eq_one_of_mem hnodup (List.mem_append.2 ?_)
    by_cases hkind : e.kind = .attr
    · exact .inl (((h.links p hp).attributes id).2 ⟨e, hmem, hchild, hkind⟩)
    · exact .inr (((h.links p hp).children id).2 ⟨e, hmem, hchild, hkind⟩)
  ordered id e he := hlinks _ (h.node?_eq_some_iff.1 he)
  listed id e he c hc := by
    have hlink := h.links _ (h.node?_eq_some_iff.1 he)
    rcases List.mem_append.1 hc with hattr | hcontent
    · obtain ⟨n, hn, hchild, hkind⟩ := (hlink.attributes c).1 hattr
      exact ⟨NodeId.parent?_eq_some_iff.2 hchild, n, h.node?_eq_some_iff.2 hn, by simp [hattr, hkind]⟩
    · obtain ⟨n, hn, hchild, hkind⟩ := (hlink.children c).1 hcontent
      refine ⟨NodeId.parent?_eq_some_iff.2 hchild, n, h.node?_eq_some_iff.2 hn, ?_⟩
      refine iff_of_false (fun hattr => ?_) hkind
      obtain ⟨m, hm, _, hattr⟩ := (hlink.attributes c).1 hattr
      have heq := (h.node?_eq_some_iff.2 hm).symm.trans (h.node?_eq_some_iff.2 hn)
      exact hkind (Option.some.inj heq ▸ hattr)
  named name := by
    rw [h.named name]
    refine ⟨h.ascending.sublist (List.filter_sublist.map _), fun id => ?_⟩
    simp [h.node?_eq_some_iff]

end Document

namespace Store

variable {s : Store}

/-! ### Stores -/

/-- **What holds of a store.** -/
structure IsWellKept (s : Store) : Prop where
  paths : ∀ path doc, s.pathDoc? path = some doc ↔ ∃ d, s.document? doc = some d ∧ d.path = path
  fresh : ∀ doc d, s.document? doc = some d → doc < s.nextDoc
  collection : ∀ doc d, s.document? doc = some d →
    ∃ c, s.collection? d.collection = some c ∧ s.collectionOf doc = .ok c
  registered : ∀ doc uri, s.collectionOf doc ≠ .error (.collectionNotFound uri)
  linked : ∀ doc d, s.document? doc = some d → d.IsWellLinked

theorem IsIndexed.isWellLinked (h : s.IsIndexed) {doc : DocId} {d : Document}
    (hd : s.document? doc = some d) : d.IsWellLinked := by
  refine (h.isLaidOut hd).isWellLinked fun e he => ?_
  obtain ⟨root, c, _, heq⟩ := h _ (mem_documents_of_document? hd)
  change d = _ at heq
  rw [heq] at he
  exact Document.pairwise_links_nodesOf root he

/-- **The invariant follows** from documents being indexed and tables being in step. -/
theorem IsIndexed.isWellKept (h : s.IsIndexed) (hin : s.tables.InStep) : s.IsWellKept where
  paths path doc := by
    refine ((pathDoc?_eq_some_iff hin).trans (hin.linked path doc)).trans ?_
    simp only [mem_documents_tables, document?_eq_some_iff hin]
    constructor
    · rintro ⟨_, ⟨d, hd, rfl⟩, rfl⟩
      exact ⟨d, hd, rfl⟩
    · rintro ⟨d, hd, rfl⟩
      exact ⟨d.unindexed, ⟨d, hd, rfl⟩, rfl⟩
  fresh doc d hd :=
    hin.fresh doc d.unindexed (mem_documents_tables.2 ⟨d, mem_documents_of_document? hd, rfl⟩)
  collection _ _ hd := h.exists_collection hd
  registered doc uri herror := by
    cases hd : s.document? doc with
    | none =>
      rw [collectionOf, document, hd] at herror
      cases herror
    | some d =>
      obtain ⟨c, _, hc⟩ := h.exists_collection hd
      rw [hc] at herror
      cases herror
  linked _ _ hd := h.isWellLinked hd

/-- **Every store that changes of the empty one lead to is well kept:** paths lead to just the
documents that have them, numbers are below the next one, collections of documents are there,
and inside documents parents, links and names are in order. -/
theorem isWellKept_run (changes : List Change) : (empty.run changes).IsWellKept :=
  (reachable_run changes).isIndexed.isWellKept (reachable_run changes).inStep

end Store
end IndexedXml
