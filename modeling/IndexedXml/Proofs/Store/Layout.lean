/-
# How documents are laid out

The table of a document is made from its tree by one walk (`Document.nodesOf`).  This
module says what the walk leaves behind without mentioning the tree again: identifiers
ascend, the links of a node list just what stands below it in the table, attributes are
leaves, every node but the document has its parent in the table, and the name index
lists the nodes of a name in order.

`Document.IsLaidOut` holds these facts together; all that later modules know about the
inside of a document they know from it.
-/

import IndexedXml.Proofs.Node.Members
import IndexedXml.Store.Document

namespace IndexedXml

/-- A table of nodes. -/
abbrev NodeTable := List (NodeId × StoredNode)

/-- **The links of an entry are what the table has below it:** attributes on the one
side, elements and texts on the other. -/
structure LinksIn (table : NodeTable) (entry : NodeId × StoredNode) : Prop where
  children : ∀ c, c ∈ entry.2.children ↔
    ∃ n, (c, n) ∈ table ∧ c.isChildOf entry.1 = true ∧ n.kind ≠ .attr
  attributes : ∀ c, c ∈ entry.2.attributes ↔
    ∃ n, (c, n) ∈ table ∧ c.isChildOf entry.1 = true ∧ n.kind = .attr

/-- A larger table has nothing more below an entry when its new entries are elsewhere. -/
theorem LinksIn.mono {table larger : NodeTable} {entry : NodeId × StoredNode}
    (h : LinksIn table entry) (hsub : ∀ e ∈ table, e ∈ larger)
    (hnew : ∀ e ∈ larger, e.1.isChildOf entry.1 = true → e ∈ table) : LinksIn larger entry where
  children c := by
    rw [h.children]
    refine exists_congr fun n => ⟨fun ⟨hn, hc⟩ => ⟨hsub _ hn, hc⟩, fun ⟨hn, hc⟩ => ?_⟩
    exact ⟨hnew _ hn hc.1, hc⟩
  attributes c := by
    rw [h.attributes]
    refine exists_congr fun n => ⟨fun ⟨hn, hc⟩ => ⟨hsub _ hn, hc⟩, fun ⟨hn, hc⟩ => ?_⟩
    exact ⟨hnew _ hn hc.1, hc⟩

namespace Document

/-! ### Where entries stand -/

theorem mem_ordinals {id c : NodeId} {first count : Nat} :
    c ∈ ordinals id first count ↔ ∃ j, first < j ∧ j ≤ first + count ∧ c = id.child j := by
  simp only [ordinals, List.mem_map, List.mem_range]
  constructor
  · rintro ⟨n, hn, rfl⟩
    exact ⟨first + n + 1, by omega, by omega, rfl⟩
  · rintro ⟨j, hfirst, hlast, rfl⟩
    exact ⟨j - first - 1, by omega, by rw [show first + (j - first - 1) + 1 = j by omega]⟩

theorem ids_attributeNodes (id : NodeId) (attributes : List Attribute) :
    (attributeNodes id attributes).map Prod.fst = ordinals id 0 attributes.length := by
  rw [attributeNodes, List.map_fst_zip]
  simp [ordinals]

/-- An attribute entry is a leaf under a number of its own. -/
theorem mem_attributeNodes {id : NodeId} {attributes : List Attribute}
    {entry : NodeId × StoredNode} (h : entry ∈ attributeNodes id attributes) :
    (∃ j, 0 < j ∧ j ≤ attributes.length ∧ entry.1 = id.child j) ∧
      ∃ name value, entry.2 = .leaf .attr (some name) value := by
  constructor
  · have hid : entry.1 ∈ (attributeNodes id attributes).map Prod.fst :=
      List.mem_map_of_mem h
    rw [ids_attributeNodes, mem_ordinals] at hid
    simpa using hid
  · obtain ⟨a, _, ha⟩ := List.mem_map.1 (List.of_mem_zip h).2
    exact ⟨a.name, a.value, ha.symm⟩

mutual

/-- The entries of a piece of content are its own and those below it. -/
theorem within_of_mem_treeNodes {entry : NodeId × StoredNode} :
    ∀ {id : NodeId} {t : Tree}, entry ∈ treeNodes id t → entry.1.Within id
  | id, .text value, h => by
    rw [treeNodes, List.mem_singleton] at h
    exact .inl (h ▸ rfl)
  | id, .element name attributes content, h => by
    rw [treeNodes, List.mem_cons, List.mem_append] at h
    rcases h with rfl | h | h
    · exact .inl rfl
    · obtain ⟨⟨j, _, _, hj⟩, _⟩ := mem_attributeNodes h
      exact hj ▸ NodeId.within_of_isChildOf (NodeId.isChildOf_child id j)
    · obtain ⟨j, _, hj⟩ := within_of_mem_contentNodes h
      exact hj.trans (NodeId.within_of_isChildOf (NodeId.isChildOf_child id j))

/-- The entries of content are below its pieces, which are numbered from `ordinal` on. -/
theorem within_of_mem_contentNodes {entry : NodeId × StoredNode} :
    ∀ {id : NodeId} {ordinal : Nat} {content : List Tree},
      entry ∈ contentNodes id ordinal content →
        ∃ j, ordinal ≤ j ∧ entry.1.Within (id.child j)
  | id, ordinal, [], h => by
    rw [contentNodes] at h
    cases h
  | id, ordinal, piece :: rest, h => by
    rw [contentNodes, List.mem_append] at h
    rcases h with h | h
    · exact ⟨ordinal, le_rfl, within_of_mem_treeNodes h⟩
    · obtain ⟨j, hle, hj⟩ := within_of_mem_contentNodes h
      exact ⟨j, by omega, hj⟩

end

theorem exists_mem_treeNodes (id : NodeId) (t : Tree) : ∃ n, (id, n) ∈ treeNodes id t := by
  cases t with
  | text value => exact ⟨_, by rw [treeNodes]; exact List.mem_cons_self⟩
  | element name attributes content => exact ⟨_, by rw [treeNodes]; exact List.mem_cons_self⟩

/-- The entry of a piece of content is no attribute. -/
theorem kind_ne_attr_of_mem_treeNodes {id : NodeId} {n : StoredNode} {t : Tree}
    (h : (id, n) ∈ treeNodes id t) : n.kind ≠ .attr := by
  cases t with
  | text value =>
    rw [treeNodes, List.mem_singleton, Prod.mk.injEq] at h
    simp [h.2, StoredNode.leaf]
  | element name attributes content =>
    rw [treeNodes, List.mem_cons, List.mem_append] at h
    rcases h with h | h | h
    · simp [(Prod.mk.inj h).2]
    · obtain ⟨⟨j, _, _, hj⟩, _⟩ := mem_attributeNodes h
      exact absurd (.inl hj) (NodeId.not_within_child id j)
    · obtain ⟨j, _, hj⟩ := within_of_mem_contentNodes h
      exact absurd hj (NodeId.not_within_child id j)

theorem kind_ne_attr_of_mem_contentNodes {id c : NodeId} {n : StoredNode} {ordinal : Nat}
    {content : List Tree} (h : (c, n) ∈ contentNodes id ordinal content)
    (hc : c.isChildOf id = true) : n.kind ≠ .attr := by
  induction content generalizing ordinal with
  | nil =>
    rw [contentNodes] at h
    cases h
  | cons piece rest ih =>
    rw [contentNodes, List.mem_append] at h
    rcases h with h | h
    · obtain ⟨j, rfl⟩ := NodeId.isChildOf_iff.1 hc
      obtain rfl : j = ordinal := NodeId.Within.ordinal_eq (.inl rfl) (within_of_mem_treeNodes h)
      exact kind_ne_attr_of_mem_treeNodes h
    · exact ih h

/-- Content has one entry under each of its numbers, and no others directly below the
node it belongs to. -/
theorem exists_mem_contentNodes_iff {id c : NodeId} {ordinal : Nat} {content : List Tree} :
    (∃ n, (c, n) ∈ contentNodes id ordinal content ∧ c.isChildOf id = true) ↔
      ∃ j, ordinal ≤ j ∧ j < ordinal + content.length ∧ c = id.child j := by
  induction content generalizing ordinal with
  | nil =>
    simp only [contentNodes, List.not_mem_nil, false_and, exists_false, List.length_nil, false_iff]
    rintro ⟨j, hle, hlt, _⟩
    omega
  | cons piece rest ih =>
    simp only [contentNodes, List.mem_append, List.length_cons]
    constructor
    · rintro ⟨n, hn | hn, hc⟩
      · obtain ⟨j, rfl⟩ := NodeId.isChildOf_iff.1 hc
        obtain rfl : j = ordinal := NodeId.Within.ordinal_eq (.inl rfl) (within_of_mem_treeNodes hn)
        exact ⟨j, by omega, by omega, rfl⟩
      · obtain ⟨j, hle, hlt, rfl⟩ := ih.1 ⟨n, hn, hc⟩
        exact ⟨j, by omega, by omega, rfl⟩
    · rintro ⟨j, hle, hlt, rfl⟩
      rcases hle.eq_or_lt with rfl | hle
      · obtain ⟨n, hn⟩ := exists_mem_treeNodes (id.child ordinal) piece
        exact ⟨n, .inl hn, NodeId.isChildOf_child _ _⟩
      · obtain ⟨n, hn, hc⟩ := (@ih (ordinal + 1)).2 ⟨j, by omega, by omega, rfl⟩
        exact ⟨n, .inr hn, hc⟩

theorem mem_treeNodes_element {id : NodeId} {name : QName} {attributes : List Attribute}
    {content : List Tree} {e : NodeId × StoredNode} :
    e ∈ treeNodes id (.element name attributes content) ↔
      e = (id, ⟨.element, some name, none, ordinals id attributes.length content.length,
        ordinals id 0 attributes.length⟩) ∨
      e ∈ attributeNodes id attributes ∨
      e ∈ contentNodes id (attributes.length + 1) content := by
  rw [treeNodes, List.mem_cons, List.mem_append]

/-- An entry of an element within one of its first numbers is that of an attribute. -/
theorem mem_attributeNodes_of_within {id : NodeId} {name : QName} {attributes : List Attribute}
    {content : List Tree} {e : NodeId × StoredNode} {j : Nat}
    (h : e ∈ treeNodes id (.element name attributes content)) (hj : e.1.Within (id.child j))
    (hle : j ≤ attributes.length) : e ∈ attributeNodes id attributes := by
  rcases mem_treeNodes_element.1 h with rfl | h | h
  · exact absurd hj (NodeId.not_within_child id j)
  · exact h
  · obtain ⟨i, hi, hwithin⟩ := within_of_mem_contentNodes h
    have := hwithin.ordinal_eq hj
    omega

/-- An entry of an element within one of its later numbers is one of its content. -/
theorem mem_contentNodes_of_within {id : NodeId} {name : QName} {attributes : List Attribute}
    {content : List Tree} {e : NodeId × StoredNode} {j : Nat}
    (h : e ∈ treeNodes id (.element name attributes content)) (hj : e.1.Within (id.child j))
    (hlt : attributes.length < j) : e ∈ contentNodes id (attributes.length + 1) content := by
  rcases mem_treeNodes_element.1 h with rfl | h | h
  · exact absurd hj (NodeId.not_within_child id j)
  · obtain ⟨⟨i, _, hi, heq⟩, _⟩ := mem_attributeNodes h
    have := NodeId.Within.ordinal_eq (.inl heq) hj
    omega
  · exact h

/-! ### Links -/

/-- The entries of attributes have no links and nothing below them. -/
theorem linksIn_attributeNodes {id : NodeId} {attributes : List Attribute} {table : NodeTable}
    {entry : NodeId × StoredNode} (h : entry ∈ attributeNodes id attributes)
    (hbelow : ∀ e ∈ table, e.1.isChildOf entry.1 = false) : LinksIn table entry := by
  obtain ⟨_, name, value, hleaf⟩ := mem_attributeNodes h
  have hnone : ∀ c, ¬ ∃ n, (c, n) ∈ table ∧ c.isChildOf entry.1 = true := by
    rintro c ⟨n, hn, hc⟩
    exact absurd hc (by simp [hbelow _ hn])
  constructor
  · intro c
    simp only [hleaf, StoredNode.leaf, List.not_mem_nil, false_iff]
    exact fun ⟨n, hn, hc, _⟩ => hnone c ⟨n, hn, hc⟩
  · intro c
    simp only [hleaf, StoredNode.leaf, List.not_mem_nil, false_iff]
    exact fun ⟨n, hn, hc, _⟩ => hnone c ⟨n, hn, hc⟩

/-- A child of what is within a numbered child is within it as well. -/
theorem within_child_of_isChildOf {a b id : NodeId} {j : Nat} (hab : a.isChildOf b = true)
    (hb : b.Within (id.child j)) : a.Within (id.child j) :=
  (NodeId.within_of_isChildOf hab).trans hb

/-- The links of the element itself. -/
theorem linksIn_element {id : NodeId} {name : QName} {attributes : List Attribute}
    {content : List Tree} :
    LinksIn (treeNodes id (.element name attributes content))
      (id, ⟨.element, some name, none, ordinals id attributes.length content.length,
        ordinals id 0 attributes.length⟩) where
  children c := by
    rw [mem_ordinals]
    constructor
    · rintro ⟨j, hlt, hle, rfl⟩
      obtain ⟨n, hn, hc⟩ : ∃ n, (id.child j, n) ∈ contentNodes id (attributes.length + 1) content ∧
          (id.child j).isChildOf id = true :=
        exists_mem_contentNodes_iff.2 ⟨j, hlt, by omega, rfl⟩
      exact ⟨n, mem_treeNodes_element.2 (.inr (.inr hn)), hc,
        kind_ne_attr_of_mem_contentNodes hn hc⟩
    · rintro ⟨n, hn, hc, hkind⟩
      rcases mem_treeNodes_element.1 hn with heq | hn | hn
      · exact absurd (Prod.mk.inj heq).1 (NodeId.ne_of_isChildOf hc)
      · obtain ⟨_, name, value, hleaf⟩ := mem_attributeNodes hn
        exact absurd (congrArg StoredNode.kind hleaf) hkind
      · obtain ⟨j, hlt, hle, rfl⟩ := exists_mem_contentNodes_iff.1 ⟨n, hn, hc⟩
        exact ⟨j, hlt, by omega, rfl⟩
  attributes c := by
    rw [mem_ordinals]
    constructor
    · rintro ⟨j, hlt, hle, rfl⟩
      have hmem : id.child j ∈ (attributeNodes id attributes).map Prod.fst := by
        rw [ids_attributeNodes, mem_ordinals]
        exact ⟨j, hlt, hle, rfl⟩
      obtain ⟨⟨_, n⟩, hn, rfl⟩ := List.mem_map.1 hmem
      obtain ⟨_, name, value, rfl⟩ := mem_attributeNodes hn
      exact ⟨_, mem_treeNodes_element.2 (.inr (.inl hn)), NodeId.isChildOf_child id j, rfl⟩
    · rintro ⟨n, hn, hc, hkind⟩
      rcases mem_treeNodes_element.1 hn with heq | hn | hn
      · exact absurd (Prod.mk.inj heq).1 (NodeId.ne_of_isChildOf hc)
      · obtain ⟨⟨j, hlt, hle, rfl⟩, _⟩ := mem_attributeNodes hn
        exact ⟨j, hlt, by omega, rfl⟩
      · exact absurd hkind (kind_ne_attr_of_mem_contentNodes hn hc)

mutual

/-- **The links of a piece of content are right.** -/
theorem linksIn_treeNodes {entry : NodeId × StoredNode} :
    ∀ {id : NodeId} {t : Tree}, entry ∈ treeNodes id t → LinksIn (treeNodes id t) entry
  | id, .text value, h => by
    rw [treeNodes, List.mem_singleton] at h
    subst h
    have hnone : ∀ c n, (c, n) ∈ treeNodes id (.text value) → c.isChildOf id ≠ true := by
      intro c n hn hc
      rw [treeNodes, List.mem_singleton, Prod.mk.injEq] at hn
      exact NodeId.ne_of_isChildOf hc hn.1
    constructor
    · intro c
      simp only [StoredNode.leaf, List.not_mem_nil, false_iff]
      exact fun ⟨n, hn, hc, _⟩ => hnone c n hn hc
    · intro c
      simp only [StoredNode.leaf, List.not_mem_nil, false_iff]
      exact fun ⟨n, hn, hc, _⟩ => hnone c n hn hc
  | id, .element name attributes content, h => by
    rcases mem_treeNodes_element.1 h with rfl | hattr | hcontent
    · exact linksIn_element
    · refine linksIn_attributeNodes hattr fun e he => Bool.eq_false_iff.2 fun hc => ?_
      obtain ⟨⟨j, _, hle, heq⟩, _⟩ := mem_attributeNodes hattr
      have hwithin : e.1.Within (id.child j) := heq ▸ NodeId.within_of_isChildOf hc
      obtain ⟨⟨i, _, _, hi⟩, _⟩ :=
        mem_attributeNodes (mem_attributeNodes_of_within he hwithin hle)
      obtain rfl : i = j := NodeId.Within.ordinal_eq (.inl hi) hwithin
      exact NodeId.ne_of_isChildOf hc (hi.trans heq.symm)
    · refine (linksIn_contentNodes hcontent).mono
        (fun e he => mem_treeNodes_element.2 (.inr (.inr he))) fun e he hc => ?_
      obtain ⟨j, hle, hj⟩ := within_of_mem_contentNodes hcontent
      exact mem_contentNodes_of_within he (within_child_of_isChildOf hc hj) (by omega)

/-- The links of content are right. -/
theorem linksIn_contentNodes {entry : NodeId × StoredNode} :
    ∀ {id : NodeId} {ordinal : Nat} {content : List Tree},
      entry ∈ contentNodes id ordinal content → LinksIn (contentNodes id ordinal content) entry
  | id, ordinal, [], h => by
    rw [contentNodes] at h
    cases h
  | id, ordinal, piece :: rest, h => by
    rw [contentNodes, List.mem_append] at h
    rcases h with h | h
    · refine (linksIn_treeNodes h).mono ?_ ?_
      · intro e he
        rw [contentNodes]
        exact List.mem_append_left _ he
      · intro e he hc
        rw [contentNodes, List.mem_append] at he
        refine he.resolve_right fun he => ?_
        obtain ⟨j, hle, hj⟩ := within_of_mem_contentNodes he
        have := hj.ordinal_eq (within_child_of_isChildOf hc (within_of_mem_treeNodes h))
        omega
    · refine (linksIn_contentNodes h).mono ?_ ?_
      · intro e he
        rw [contentNodes]
        exact List.mem_append_right _ he
      · intro e he hc
        rw [contentNodes, List.mem_append] at he
        refine he.resolve_left fun he => ?_
        obtain ⟨j, hle, hj⟩ := within_of_mem_contentNodes h
        have := (within_of_mem_treeNodes he).ordinal_eq (within_child_of_isChildOf hc hj)
        omega

end

/-! ### Order, parents and leaves -/

theorem pairwise_ordinals (id : NodeId) (first count : Nat) :
    (ordinals id first count).Pairwise (· < ·) := by
  rw [ordinals, List.pairwise_map]
  refine List.Pairwise.imp (fun {i j} hij => ?_) List.pairwise_lt_range
  exact NodeId.lt_of_within_child (show first + i + 1 < first + j + 1 by omega) (.inl rfl) (.inl rfl)

mutual

/-- **Identifiers ascend** through a piece of content. -/
theorem pairwise_treeNodes :
    ∀ (id : NodeId) (t : Tree), ((treeNodes id t).map Prod.fst).Pairwise (· < ·)
  | id, .text value => by simp [treeNodes]
  | id, .element name attributes content => by
    rw [treeNodes, List.map_cons, List.map_append, List.pairwise_cons, List.pairwise_append,
      ids_attributeNodes]
    refine ⟨fun a ha => ?_, pairwise_ordinals _ _ _, pairwise_contentNodes _ _ _, fun a ha b hb => ?_⟩
    · rcases List.mem_append.1 ha with ha | ha
      · obtain ⟨j, _, _, rfl⟩ := mem_ordinals.1 ha
        exact NodeId.lt_of_isDescendantOf (NodeId.isDescendantOf_of_within_child (.inl rfl))
      · obtain ⟨e, he, rfl⟩ := List.mem_map.1 ha
        obtain ⟨j, _, hj⟩ := within_of_mem_contentNodes he
        exact NodeId.lt_of_isDescendantOf (NodeId.isDescendantOf_of_within_child hj)
    · obtain ⟨i, _, hi, rfl⟩ := mem_ordinals.1 ha
      obtain ⟨e, he, rfl⟩ := List.mem_map.1 hb
      obtain ⟨j, hj, hwithin⟩ := within_of_mem_contentNodes he
      exact NodeId.lt_of_within_child (show i < j by omega) (.inl rfl) hwithin

/-- Identifiers ascend through content. -/
theorem pairwise_contentNodes :
    ∀ (id : NodeId) (ordinal : Nat) (content : List Tree),
      ((contentNodes id ordinal content).map Prod.fst).Pairwise (· < ·)
  | id, ordinal, [] => by simp [contentNodes]
  | id, ordinal, piece :: rest => by
    rw [contentNodes, List.map_append, List.pairwise_append]
    refine ⟨pairwise_treeNodes _ _, pairwise_contentNodes _ _ _, fun a ha b hb => ?_⟩
    obtain ⟨e, he, rfl⟩ := List.mem_map.1 ha
    obtain ⟨f, hf, rfl⟩ := List.mem_map.1 hb
    obtain ⟨j, hj, hwithin⟩ := within_of_mem_contentNodes hf
    exact NodeId.lt_of_within_child (show ordinal < j by omega) (within_of_mem_treeNodes he) hwithin

end

mutual

/-- Every entry of a piece of content but its own has its parent there. -/
theorem exists_parent_treeNodes {e : NodeId × StoredNode} :
    ∀ {id : NodeId} {t : Tree}, e ∈ treeNodes id t →
      e.1 = id ∨ ∃ p ∈ treeNodes id t, e.1.isChildOf p.1 = true
  | id, .text value, h => by
    rw [treeNodes, List.mem_singleton] at h
    exact .inl (h ▸ rfl)
  | id, .element name attributes content, h => by
    rcases mem_treeNodes_element.1 h with rfl | h | h
    · exact .inl rfl
    · obtain ⟨⟨j, _, _, hj⟩, _⟩ := mem_attributeNodes h
      exact .inr ⟨_, mem_treeNodes_element.2 (.inl rfl), hj ▸ NodeId.isChildOf_child id j⟩
    · rcases exists_parent_contentNodes h with hc | ⟨p, hp, hc⟩
      · exact .inr ⟨_, mem_treeNodes_element.2 (.inl rfl), hc⟩
      · exact .inr ⟨p, mem_treeNodes_element.2 (.inr (.inr hp)), hc⟩

/-- Every entry of content that is not directly below the node it belongs to has its
parent there. -/
theorem exists_parent_contentNodes {e : NodeId × StoredNode} :
    ∀ {id : NodeId} {ordinal : Nat} {content : List Tree}, e ∈ contentNodes id ordinal content →
      e.1.isChildOf id = true ∨ ∃ p ∈ contentNodes id ordinal content, e.1.isChildOf p.1 = true
  | id, ordinal, [], h => by
    rw [contentNodes] at h
    cases h
  | id, ordinal, piece :: rest, h => by
    rw [contentNodes, List.mem_append] at h
    simp only [contentNodes, List.mem_append]
    rcases h with h | h
    · rcases exists_parent_treeNodes h with heq | ⟨p, hp, hc⟩
      · exact .inl (heq ▸ NodeId.isChildOf_child id ordinal)
      · exact .inr ⟨p, .inl hp, hc⟩
    · rcases exists_parent_contentNodes h with hc | ⟨p, hp, hc⟩
      · exact .inl hc
      · exact .inr ⟨p, .inr hp, hc⟩

end

/-- What an entry below the document can be: a leaf, or an element. -/
def IsLeafOrElement (n : StoredNode) : Prop :=
  (n.children = [] ∧ n.attributes = [] ∧ n.kind ≠ .document) ∨ n.kind = .element

mutual

theorem isLeafOrElement_treeNodes {e : NodeId × StoredNode} :
    ∀ {id : NodeId} {t : Tree}, e ∈ treeNodes id t → IsLeafOrElement e.2
  | id, .text value, h => by
    rw [treeNodes, List.mem_singleton] at h
    exact .inl (by simp [h, StoredNode.leaf])
  | id, .element name attributes content, h => by
    rcases mem_treeNodes_element.1 h with rfl | h | h
    · exact .inr rfl
    · obtain ⟨_, name, value, hleaf⟩ := mem_attributeNodes h
      exact .inl (by simp [hleaf, StoredNode.leaf])
    · exact isLeafOrElement_contentNodes h

theorem isLeafOrElement_contentNodes {e : NodeId × StoredNode} :
    ∀ {id : NodeId} {ordinal : Nat} {content : List Tree}, e ∈ contentNodes id ordinal content →
      IsLeafOrElement e.2
  | id, ordinal, [], h => by
    rw [contentNodes] at h
    cases h
  | id, ordinal, piece :: rest, h => by
    rw [contentNodes, List.mem_append] at h
    rcases h with h | h
    · exact isLeafOrElement_treeNodes h
    · exact isLeafOrElement_contentNodes h

end

end Document

/-! ### Tables under names -/

namespace IndexedName

theorem same_comm (a b : IndexedName) : a.same b = b.same a := by
  rw [Bool.eq_iff_iff, same_iff, same_iff, eq_comm, @eq_comm _ a.qname.identity]

/-- Names that are the same are the same as the same names. -/
theorem same_congr {a b : IndexedName} (h : a.same b = true) (c : IndexedName) :
    a.same c = b.same c := by
  rw [same_iff] at h
  rw [Bool.eq_iff_iff, same_iff, same_iff, h.1, h.2]

theorem same_congr_right {a b : IndexedName} (h : a.same b = true) (c : IndexedName) :
    c.same a = c.same b := by
  rw [same_comm, same_congr h, same_comm]

end IndexedName

namespace NameTable

variable {α : Type}

theorem find?_congr (t : NameTable α) {a b : IndexedName} (h : a.same b = true) :
    t.find? a = t.find? b := by
  simp only [find?, IndexedName.same_congr_right h]

/-- **What is put is found under every name that is the same, and all else is left.** -/
theorem find?_put (t : NameTable α) (name other : IndexedName) (value : α) :
    (t.put name value).find? other =
      if name.same other then some value else NameTable.find? t other := by
  induction t with
  | nil =>
    by_cases h : name.same other = true
    · simp [put, find?, h]
    · simp [put, find?, h]
  | cons entry rest ih =>
    rw [put]
    by_cases hentry : entry.1.same name = true
    · rw [if_pos hentry]
      have hsame := IndexedName.same_congr hentry other
      by_cases h : name.same other = true
      · simp [find?, hsame, h]
      · simp [find?, hsame, h]
    · rw [if_neg hentry]
      by_cases hother : entry.1.same other = true
      · have h : name.same other = false := by
          rw [IndexedName.same_comm, ← IndexedName.same_congr hother]
          simpa using hentry
        simp [find?, hother, h]
      · simp only [find?, List.find?_cons, hother] at ih ⊢
        exact ih

end NameTable

namespace Document

/-- A node bears a name when the name index lists it under a name that is the same. -/
theorem hasName_iff {n : StoredNode} {name : IndexedName} :
    n.hasName name = true ↔ ∃ own, indexedName? n = some own ∧ own.same name = true := by
  rcases n with ⟨kind, own, _, _, _⟩
  rcases name with ⟨type, q⟩
  have hswap : ∀ p : QName, q.same p = true ↔ p.identity = q.identity :=
    fun p => QName.same_iff.trans eq_comm
  cases kind <;> cases own <;> cases type <;>
    simp [StoredNode.hasName, indexedName?, IndexedName.same_iff, hswap]

/-- Entering nodes appends, under every name, those that bear it. -/
theorem find?_foldl_enter (nodes : NodeTable) (names : NameTable (List NodeId))
    (name : IndexedName) :
    ((nodes.foldl enter names).find? name).getD [] =
      (names.find? name).getD [] ++ (nodes.filter fun e => e.2.hasName name).map Prod.fst := by
  induction nodes generalizing names with
  | nil => simp
  | cons e rest ih =>
    rw [List.foldl_cons, ih]
    by_cases hname : e.2.hasName name = true
    · obtain ⟨own, hown, hsame⟩ := hasName_iff.1 hname
      rw [enter, hown]
      simp [NameTable.find?_put, hsame, hname, NameTable.find?_congr names hsame]
    · have hfilter : (e :: rest).filter (fun e => e.2.hasName name) =
          rest.filter fun e => e.2.hasName name := List.filter_cons_of_neg hname
      rw [hfilter, enter]
      cases hown : indexedName? e.2 with
      | none => rfl
      | some own =>
        have hsame : own.same name = false :=
          Bool.eq_false_iff.2 fun hsame => hname (hasName_iff.2 ⟨own, hown, hsame⟩)
        simp [NameTable.find?_put, hsame]

/-! ### The whole document -/

/-- **What holds of the inside of a stored document.** -/
structure IsLaidOut (d : Document) : Prop where
  /-- The identifiers ascend. -/
  ascending : (d.nodes.map Prod.fst).Pairwise (· < ·)
  /-- The links are what the table has below a node. -/
  links : ∀ e ∈ d.nodes, LinksIn d.nodes e
  /-- Every node but the document has its parent in the table. -/
  parent : ∀ e ∈ d.nodes, e.1 = NodeId.document ∨ ∃ p ∈ d.nodes, e.1.isChildOf p.1 = true
  /-- Attributes are leaves. -/
  leaf : ∀ e ∈ d.nodes, e.2.kind = .attr → e.2.children = [] ∧ e.2.attributes = []
  /-- The document is in the table. -/
  document : ∃ n, (NodeId.document, n) ∈ d.nodes ∧ n.kind = .document
  /-- The name index lists the nodes of a name. -/
  named : ∀ name, (d.named? name).getD [] = (d.nodes.filter fun e => e.2.hasName name).map Prod.fst

theorem isDescendantOf_document {a : NodeId} {root : Element}
    (h : a ∈ (treeNodes rootId root.toTree).map Prod.fst) :
    a.isDescendantOf NodeId.document = true := by
  obtain ⟨e, he, rfl⟩ := List.mem_map.1 h
  exact NodeId.isDescendantOf_of_within_child (within_of_mem_treeNodes he)

/-- The links of the document lead to the root element. -/
theorem linksIn_document (root : Element) :
    LinksIn (nodesOf root)
      (NodeId.document, ⟨.document, none, none, [rootId], []⟩) := by
  have hbelow : ∀ c n, (c, n) ∈ nodesOf root → c.isChildOf NodeId.document = true →
      c = rootId ∧ n.kind ≠ .attr := by
    intro c n hn hc
    rcases List.mem_cons.1 hn with heq | hn
    · exact absurd (Prod.mk.inj heq).1 (NodeId.ne_of_isChildOf hc)
    · obtain ⟨j, rfl⟩ := NodeId.isChildOf_iff.1 hc
      obtain rfl : j = 1 := NodeId.Within.ordinal_eq (.inl rfl) (within_of_mem_treeNodes hn)
      exact ⟨rfl, kind_ne_attr_of_mem_treeNodes hn⟩
  constructor
  · intro c
    rw [List.mem_singleton]
    constructor
    · rintro rfl
      obtain ⟨n, hn⟩ := exists_mem_treeNodes rootId root.toTree
      exact ⟨n, List.mem_cons_of_mem _ hn, NodeId.isChildOf_child _ _,
        kind_ne_attr_of_mem_treeNodes hn⟩
    · rintro ⟨n, hn, hc, _⟩
      exact (hbelow c n hn hc).1
  · intro c
    simp only [List.not_mem_nil, false_iff]
    rintro ⟨n, hn, hc, hkind⟩
    exact (hbelow c n hn hc).2 hkind

/-- **The walk through a tree leaves a document laid out.** -/
theorem isLaidOut_ofElement (name collection : String) (root : Element) :
    (ofElement name collection root).IsLaidOut where
  ascending := by
    change ((nodesOf root).map Prod.fst).Pairwise (· < ·)
    rw [nodesOf, List.map_cons, List.pairwise_cons]
    exact ⟨fun a ha => NodeId.lt_of_isDescendantOf (isDescendantOf_document ha),
      pairwise_treeNodes _ _⟩
  links := by
    intro e he
    change LinksIn (nodesOf root) e
    change e ∈ nodesOf root at he
    rcases List.mem_cons.1 he with rfl | he
    · exact linksIn_document root
    · refine (linksIn_treeNodes he).mono (fun f hf => List.mem_cons_of_mem _ hf) fun f hf hc => ?_
      refine (List.mem_cons.1 hf).resolve_left fun heq => ?_
      rw [heq, NodeId.not_isChildOf_document] at hc
      cases hc
  parent := by
    intro e he
    rcases List.mem_cons.1 he with rfl | he
    · exact .inl rfl
    · refine .inr ?_
      rcases exists_parent_treeNodes he with heq | ⟨p, hp, hc⟩
      · refine ⟨_, List.mem_cons_self, ?_⟩
        rw [heq]
        exact NodeId.isChildOf_child _ _
      · exact ⟨p, List.mem_cons_of_mem _ hp, hc⟩
  leaf := by
    intro e he hkind
    rcases List.mem_cons.1 he with rfl | he
    · cases hkind
    · rcases isLeafOrElement_treeNodes he with ⟨hc, ha, _⟩ | helement
      · exact ⟨hc, ha⟩
      · rw [helement] at hkind
        cases hkind
  document := ⟨_, List.mem_cons_self, rfl⟩
  named := by
    intro name
    exact find?_foldl_enter (nodesOf root) [] name

/-- Indexing by value changes nothing else. -/
theorem isLaidOut_reindex {d : Document} (h : d.IsLaidOut) (specs : List RangeIndexSpec) :
    (d.reindex specs).IsLaidOut :=
  ⟨h.ascending, h.links, h.parent, h.leaf, h.document, h.named⟩

/-! ### Indexing by value -/

theorem named?_congr (d : Document) {a b : IndexedName} (h : a.same b = true) :
    d.named? a = d.named? b :=
  NameTable.find?_congr d.names h

/-- The entries that declarations leave under a name, on top of those that were there. -/
theorem find?_foldl_reindex (d : Document) (specs : List RangeIndexSpec)
    (ranges : NameTable (List (NodeId × IndexKey))) (name : IndexedName) :
    (specs.foldl
        (fun ranges spec =>
          match d.named? spec.name with
          | some ids => ranges.put spec.name (d.entriesFor spec.indexType ids)
          | none => ranges)
        ranges).find? name =
      ((specs.reverse.find? fun spec => spec.name.same name).bind fun spec =>
        (d.named? name).map (d.entriesFor spec.indexType)).or (ranges.find? name) := by
  induction specs generalizing ranges with
  | nil => simp
  | cons spec rest ih =>
    rw [List.foldl_cons, ih, List.reverse_cons, List.find?_append]
    cases hlater : rest.reverse.find? fun spec => spec.name.same name with
    | some later =>
      -- A later declaration decides, unless the document does not have the name.
      cases hnamed : d.named? name with
      | some ids => simp
      | none =>
        by_cases hname : spec.name.same name = true
        · simp [named?_congr d hname, hnamed]
        · cases d.named? spec.name <;> simp [NameTable.find?_put, hname]
    | none =>
      by_cases hname : spec.name.same name = true
      · rw [named?_congr d hname]
        cases d.named? name <;> simp [NameTable.find?_put, hname]
      · cases d.named? spec.name <;> simp [NameTable.find?_put, hname]

/-- **What declarations leave under a name:** the entries of the type that the last one for it
declares. -/
theorem find?_ranges_reindex (d : Document) (specs : List RangeIndexSpec) (name : IndexedName) :
    (d.reindex specs).ranges.find? name =
      (specs.reverse.find? fun spec => spec.name.same name).bind fun spec =>
        (d.named? name).map (d.entriesFor spec.indexType) :=
  (find?_foldl_reindex d specs [] name).trans Option.or_none

end Document
end IndexedXml
