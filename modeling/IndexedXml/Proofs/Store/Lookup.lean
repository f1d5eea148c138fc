/-
# What the indexes answer

Each lookup by name is described by its members, told from the identifiers
(`Store.LiesOn`), whether or not there is anything under those of the context.  From nodes
that are there the lookups find just what navigation with a name test finds
(`Store.IsIndexed.navigate_name_eq_ok`), so that a step may go either way.
-/

import IndexedXml.Proofs.Query.Navigation
import IndexedXml.Store.Lookup

namespace IndexedXml

theorem Axis.nameType_of_isAttributeAxis {axis : Axis} (h : axis.isAttributeAxis = true) :
    axis.nameType = .attr := by
  rw [Axis.nameType, if_pos h]

theorem Axis.nameType_of_not_isAttributeAxis {axis : Axis} (h : axis.isAttributeAxis = false) :
    axis.nameType = .element := by
  rw [Axis.nameType, if_neg (by simp [h])]

/-- **Where an axis leads to by the identifiers alone,** whether or not a node is there.
Attributes stand where children do. -/
def Axis.Reaches (axis : Axis) (n m : Node) : Prop :=
  match axis with
  | .child | .attr => m.isChildOf n = true
  | .descendant | .descendantAttr => m.isDescendantOf n = true
  | .descendantOrSelf => m = n ∨ m.isDescendantOf n = true
  | .self => m = n
  | .parent => n.isChildOf m = true
  | .ancestor => n.isDescendantOf m = true
  | .ancestorOrSelf => m = n ∨ n.isDescendantOf m = true
  | .followingSibling | .precedingSibling => False

/-- No axis leads out of a document. -/
theorem Axis.Reaches.doc_eq {axis : Axis} {n m : Node} (h : axis.Reaches n m) : n.doc = m.doc := by
  cases axis with
  | child | attr => exact (Node.isChildOf_iff_id.1 h).1.symm
  | descendant | descendantAttr => exact (Node.isDescendantOf_iff_id.1 h).1.symm
  | descendantOrSelf =>
    rcases h with rfl | h
    · rfl
    · exact (Node.isDescendantOf_iff_id.1 h).1.symm
  | self => exact congrArg Node.doc h.symm
  | parent => exact (Node.isChildOf_iff_id.1 h).1
  | ancestor => exact (Node.isDescendantOf_iff_id.1 h).1
  | ancestorOrSelf =>
    rcases h with rfl | h
    · rfl
    · exact (Node.isDescendantOf_iff_id.1 h).1
  | followingSibling | precedingSibling => cases h

namespace Store

variable {s : Store}

/-! ### Names -/

/-- What bears the name of an attribute is an attribute. -/
theorem Bears.hasKind_attr {n : Node} {q : QName} (h : s.Bears n ⟨.attr, q⟩) :
    s.HasKind n .attr := by
  obtain ⟨e, he, hname⟩ := h
  unfold StoredNode.hasName at hname
  rw [Bool.and_eq_true, beq_iff_eq] at hname
  exact ⟨e, he, hname.1⟩

/-- What bears the name of an element is an element. -/
theorem Bears.hasKind_element {n : Node} {q : QName} (h : s.Bears n ⟨.element, q⟩) :
    s.HasKind n .element := by
  obtain ⟨e, he, hname⟩ := h
  unfold StoredNode.hasName at hname
  rw [Bool.and_eq_true, beq_iff_eq] at hname
  exact ⟨e, he, hname.1⟩

theorem HasKind.hasContent {n : Node} {kind : NodeKind} (h : s.HasKind n kind)
    (hkind : kind ≠ .attr) : s.HasContent n := by
  obtain ⟨e, he, rfl⟩ := h
  refine ⟨⟨e, he⟩, fun ⟨k, hk, hattr⟩ => hkind ?_⟩
  rw [← hattr, Except.ok.inj (he.symm.trans hk)]

theorem Bears.hasContent {n : Node} {q : QName} (h : s.Bears n ⟨.element, q⟩) :
    s.HasContent n :=
  h.hasKind_element.hasContent (by decide)

/-- The name index lists the nodes that bear a name. -/
theorem IsIndexed.mem_namedIn (h : s.IsIndexed) {name : IndexedName} {doc : DocId} {id : NodeId} :
    id ∈ s.namedIn name doc ↔ s.Bears ⟨doc, id⟩ name := by
  unfold namedIn Bears
  simp only [h.node_eq_ok_iff]
  cases hd : s.document? doc with
  | none => simp
  | some d =>
    simp only [Option.bind_some, (h.isLaidOut hd).named, List.mem_map, List.mem_filter,
      Option.some.injEq, exists_eq_left']
    constructor
    · rintro ⟨⟨_, e⟩, ⟨he, hname⟩, rfl⟩; exact ⟨e, he, hname⟩
    · rintro ⟨e, he, hname⟩; exact ⟨(id, e), ⟨he, hname⟩, rfl⟩

theorem IsIndexed.pairwise_namedIn (h : s.IsIndexed) (name : IndexedName) (doc : DocId) :
    (s.namedIn name doc).Pairwise (· < ·) := by
  unfold namedIn
  cases hd : s.document? doc with
  | none => exact List.Pairwise.nil
  | some d =>
    rw [Option.bind_some, (h.isLaidOut hd).named]
    exact (h.isLaidOut hd).ascending.sublist (List.filter_sublist.map Prod.fst)

/-! ### Lookups below a context -/

/-- How an identifier is reached from one above it along a downward axis. -/
def IsReached (axis : Axis) (id x : NodeId) : Prop :=
  if axis = .child ∨ axis = .attr then x.isChildOf id = true
  else (axis = .descendantOrSelf ∧ x = id) ∨ x.isDescendantOf id = true

theorem isDescendantOf_of_isReached {axis : Axis} {id x : NodeId} (h : IsReached axis id x)
    (hne : x ≠ id) : x.isDescendantOf id = true := by
  unfold IsReached at h
  split_ifs at h
  · exact NodeId.isDescendantOf_of_isChildOf h
  · exact h.resolve_left fun hself => hne hself.2

theorem mem_reached {axis : Axis} {id x : NodeId} {rest : List NodeId}
    (hord : rest.Pairwise (· < ·)) (hafter : ∀ y ∈ rest, id < y) :
    x ∈ reached axis id rest ↔ x ∈ rest ∧ IsReached axis id x := by
  unfold reached
  rw [List.mem_filter, mem_takeWhile_of_downward hord, and_assoc]
  · refine and_congr_right fun hx => ?_
    have hne : x ≠ id := fun heq => irrefl_of (· < ·) id (heq ▸ hafter x hx)
    unfold IsReached
    by_cases hdirect : axis = .child ∨ axis = .attr
    · have htest : (axis == .child || axis == .attr) = true := by simpa using hdirect
      rw [if_pos hdirect, htest, Bool.not_true, Bool.false_or]
      exact and_iff_right_of_imp NodeId.isDescendantOf_of_isChildOf
    · have htest : (axis == .child || axis == .attr) = false := by simpa using hdirect
      rw [if_neg hdirect, htest, Bool.not_false, Bool.true_or]
      simp [hne]
  · intro b hb c _ hbc hc
    exact NodeId.isDescendantOf_of_between hc (hafter b hb) hbc

/-- **The first identifiers from `id` on show all that are reached from it.** -/
theorem mem_below {axis : Axis} {id x : NodeId} {ids : List NodeId}
    (hord : ids.Pairwise (· < ·)) :
    x ∈ below axis id ids ↔ x ∈ ids ∧ IsReached axis id x := by
  have hmem : ∀ y, y ∈ ids.dropWhile (· < id) ↔ y ∈ ids ∧ ¬ y < id := fun y => mem_dropWhile_lt hord
  have hrest : (ids.dropWhile (· < id)).Pairwise (· < ·) :=
    hord.sublist (List.dropWhile_sublist _)
  have hnot : x ∈ ids → IsReached axis id x → x ∈ ids.dropWhile (· < id) := by
    intro hx hreached
    refine (hmem x).2 ⟨hx, fun hlt => ?_⟩
    have hne : x ≠ id := fun heq => irrefl_of (· < ·) id (heq ▸ hlt)
    have hgt := NodeId.lt_of_isDescendantOf (isDescendantOf_of_isReached hreached hne)
    exact irrefl_of (· < ·) id (trans_of (· < ·) hgt hlt)
  unfold below
  cases hdrop : ids.dropWhile (· < id) with
  | nil =>
    rw [hdrop] at hnot
    simp only [List.not_mem_nil, false_iff]
    rintro ⟨hx, hreached⟩
    cases hnot hx hreached
  | cons first rest =>
    rw [hdrop] at hnot hrest hmem
    obtain ⟨hfirst, hlater⟩ := List.pairwise_cons.1 hrest
    have hids : ∀ y ∈ first :: rest, y ∈ ids := fun y hy => ((hmem y).1 hy).1
    dsimp only
    by_cases heq : first = id
    · subst heq
      rw [if_pos rfl, List.mem_append, mem_reached hlater hfirst]
      constructor
      · rintro (hself | ⟨hx, hreached⟩)
        · by_cases haxis : axis = .descendantOrSelf
          · rw [if_pos haxis, List.mem_singleton] at hself
            subst hself haxis
            exact ⟨hids _ List.mem_cons_self, by simp [IsReached]⟩
          · rw [if_neg haxis] at hself
            cases hself
        · exact ⟨hids x (List.mem_cons_of_mem _ hx), hreached⟩
      · rintro ⟨hx, hreached⟩
        rcases List.mem_cons.1 (hnot hx hreached) with rfl | hmemrest
        · refine .inl ?_
          unfold IsReached at hreached
          split_ifs at hreached with hdirect
          · exact absurd rfl (NodeId.ne_of_isChildOf hreached)
          · rcases hreached with ⟨haxis, _⟩ | hself
            · rw [if_pos haxis]; exact List.mem_cons_self
            · exact absurd (NodeId.lt_of_isDescendantOf hself) (irrefl_of (· < ·) x)
        · exact .inr ⟨hmemrest, hreached⟩
    · have hafter : ∀ y ∈ first :: rest, id < y := by
        have hlt : id < first := by
          rcases NodeId.lt_or_eq_or_gt id first with hlt | rfl | hgt
          · exact hlt
          · exact absurd rfl heq
          · exact absurd hgt ((hmem first).1 List.mem_cons_self).2
        intro y hy
        rcases List.mem_cons.1 hy with rfl | hy
        · exact hlt
        · exact trans_of (· < ·) hlt (hfirst y hy)
      rw [if_neg heq, mem_reached hrest hafter]
      constructor
      · rintro ⟨hx, hreached⟩
        exact ⟨hids x hx, hreached⟩
      · rintro ⟨hx, hreached⟩
        exact ⟨hnot hx hreached, hreached⟩

/-- A node on a downward axis is reached in its document. -/
theorem reaches_iff_isReached {axis : Axis} (haxis : isDownward axis = true) {n m : Node} :
    axis.Reaches n m ↔ n.doc = m.doc ∧ IsReached axis n.id m.id := by
  have hchild : m.isChildOf n = true ↔ n.doc = m.doc ∧ m.id.isChildOf n.id = true :=
    Node.isChildOf_iff_id.trans (and_congr_left' eq_comm)
  have hbelow : m.isDescendantOf n = true ↔ n.doc = m.doc ∧ m.id.isDescendantOf n.id = true :=
    Node.isDescendantOf_iff_id.trans (and_congr_left' eq_comm)
  cases axis with
  | child | attr => simp [Axis.Reaches, IsReached, hchild]
  | descendant | descendantAttr => simp [Axis.Reaches, IsReached, hbelow]
  | descendantOrSelf =>
    rcases m with ⟨doc, id⟩; rcases n with ⟨doc', id'⟩
    simp only [Axis.Reaches, IsReached, hbelow, Node.mk.injEq]
    grind
  | _ => cases haxis

/-- What bears a name that suits an axis stands there when it is reached. -/
theorem Bears.leads_iff {axis : Axis} {q : QName} {n m : Node}
    (hm : s.Bears m ⟨axis.nameType, q⟩) : s.Leads axis n m ↔ axis.Reaches n m := by
  cases axis with
  | child | descendant | descendantOrSelf => simp [Leads, Axis.Reaches, hm.hasContent]
  | attr | descendantAttr => simp [Leads, Axis.Reaches, hm.hasKind_attr]
  | _ => rfl

/-- **The node is what a lookup by name looks for:** it bears the name, it is in one of the
documents, and the axis leads to it from a node of the context. -/
def LiesOn (s : Store) (name : IndexedName) (axis : Axis) (docs : DocumentSet)
    (context : NodeSet) (m : Node) : Prop :=
  s.Bears m name ∧ docs.contains m.doc = true ∧ ∃ n ∈ context, axis.Reaches n m

/-- **A lookup below a context finds the nodes of the name to which the axis leads.** -/
theorem IsIndexed.findDescendants_eq_ok (h : s.IsIndexed) (hprobes : s.interrupted = false)
    {axis : Axis} (haxis : isDownward axis = true) (name : IndexedName) (docs : DocumentSet)
    (context : NodeSet) :
    ∃ found, s.findDescendants name axis docs context = .ok (s.persistent found) ∧
      ∀ m, m ∈ found ↔ s.LiesOn name axis docs context m := by
  unfold findDescendants unlessInterrupted
  rw [if_neg (by simp [hprobes]), if_pos haxis]
  refine ⟨_, rfl, fun m => ?_⟩
  simp only [List.mem_flatMap, List.mem_filter, List.mem_map,
    mem_below (h.pairwise_namedIn _ _), h.mem_namedIn, LiesOn, reaches_iff_isReached haxis]
  constructor
  · rintro ⟨n, ⟨hn, hdoc⟩, id, ⟨hbears, hreached⟩, rfl⟩
    exact ⟨hbears, hdoc, n, hn, rfl, hreached⟩
  · rintro ⟨hbears, hdoc, n, hn, heq, hreached⟩
    rcases m with ⟨doc, id⟩
    obtain rfl : n.doc = doc := heq
    exact ⟨n, ⟨hn, hdoc⟩, id, ⟨hbears, hreached⟩, rfl⟩

/-! ### Lookups above a selection -/

/-- Where lookups above a selection go, told from identifiers. -/
theorem mem_upward? {axis : Axis} {n m : Node}
    (haxis : axis ∈ [Axis.self, .parent, .ancestor, .ancestorOrSelf]) :
    (∃ id ∈ (upward? axis n.id).getD [], (⟨n.doc, id⟩ : Node) = m) ↔ axis.Reaches n m := by
  have hnode : ∀ ids : List NodeId, (∃ id ∈ ids, (⟨n.doc, id⟩ : Node) = m) ↔
      n.doc = m.doc ∧ m.id ∈ ids := by
    rcases m with ⟨doc, id⟩
    intro ids
    constructor
    · rintro ⟨id', hid, heq⟩
      obtain ⟨rfl, rfl⟩ := Node.mk.inj heq
      exact ⟨rfl, hid⟩
    · rintro ⟨rfl, hid⟩; exact ⟨id, hid, rfl⟩
  have hself : n.doc = m.doc ∧ m.id = n.id ↔ m = n := by
    rcases m with ⟨doc, id⟩; rcases n with ⟨doc', id'⟩
    rw [Node.mk.injEq]
    exact and_congr_left' eq_comm
  rw [hnode]
  simp only [List.mem_cons, List.not_mem_nil, or_false] at haxis
  rcases haxis with rfl | rfl | rfl | rfl
  · rw [upward?, Option.getD_some, List.mem_singleton, hself, Axis.Reaches]
  · rw [upward?, Option.getD_some, Option.mem_toList, NodeId.parent?_eq_some_iff, Axis.Reaches,
      Node.isChildOf_iff_id]
  · rw [upward?, Option.getD_some, NodeId.mem_ancestors, Axis.Reaches, Node.isDescendantOf_iff_id]
  · rw [upward?, Option.getD_some, List.mem_cons, NodeId.mem_ancestors, Axis.Reaches, and_or_left,
      hself, Node.isDescendantOf_iff_id]

/-- Upwards nothing but the identifiers tells where an axis leads. -/
theorem leads_iff_reaches {axis : Axis}
    (haxis : axis ∈ [Axis.self, .parent, .ancestor, .ancestorOrSelf]) {n m : Node} :
    s.Leads axis n m ↔ axis.Reaches n m := by
  simp only [List.mem_cons, List.not_mem_nil, or_false] at haxis
  rcases haxis with rfl | rfl | rfl | rfl <;> rfl

/-- What is looked up above one node: the nodes of the name to which the axis leads. -/
theorem IsIndexed.mem_namedAbove (h : s.IsIndexed) {axis : Axis}
    (haxis : axis ∈ [Axis.self, .parent, .ancestor, .ancestorOrSelf]) {name : IndexedName}
    {n m : Node} : m ∈ s.namedAbove name axis n ↔ axis.Reaches n m ∧ s.Bears m name := by
  unfold namedAbove
  cases hd : s.document? n.doc with
  | none =>
    simp only [List.not_mem_nil, false_iff]
    rintro ⟨hreaches, hbears⟩
    obtain ⟨d, hd'⟩ := hbears.has.document?
    rw [← hreaches.doc_eq, hd] at hd'
    cases hd'
  | some d =>
    have hbears : ∀ id, ((d.node? id).map (·.hasName name)).getD false = true ↔
        s.Bears ⟨n.doc, id⟩ name := by
      intro id
      unfold Bears
      simp only [h.node_eq_ok_iff, hd, Option.some.injEq, exists_eq_left',
        ← (h.isLaidOut hd).node?_eq_some_iff]
      cases d.node? id <;> simp
    simp only [List.mem_map, List.mem_filter, hbears]
    rw [← mem_upward? haxis]
    constructor
    · rintro ⟨id, ⟨hid, hb⟩, rfl⟩; exact ⟨⟨id, hid, rfl⟩, hb⟩
    · rintro ⟨⟨id, hid, rfl⟩, hb⟩; exact ⟨id, ⟨hid, hb⟩, rfl⟩

/-- **A lookup above a selection finds the nodes of the name to which the axis leads.** -/
theorem IsIndexed.findAncestors_eq_ok (h : s.IsIndexed) (hprobes : s.interrupted = false)
    {axis : Axis} (haxis : axis ∈ [Axis.self, .parent, .ancestor, .ancestorOrSelf])
    (name : IndexedName) (docs : DocumentSet) (selection : NodeSet) :
    ∃ found, s.findAncestors name axis docs selection = .ok (s.persistent found) ∧
      ∀ m, m ∈ found ↔ s.LiesOn name axis docs selection m := by
  have hupward : ∃ ids, upward? axis NodeId.document = some ids := by
    simp only [List.mem_cons, List.not_mem_nil, or_false] at haxis
    rcases haxis with rfl | rfl | rfl | rfl <;> exact ⟨_, rfl⟩
  obtain ⟨ids, hids⟩ := hupward
  unfold findAncestors unlessInterrupted
  rw [if_neg (by simp [hprobes]), hids]
  refine ⟨_, rfl, fun m => ?_⟩
  simp only [List.mem_flatMap, List.mem_filter, h.mem_namedAbove haxis, LiesOn]
  constructor
  · rintro ⟨n, ⟨hn, hdoc⟩, hreaches, hbears⟩
    exact ⟨hbears, hreaches.doc_eq ▸ hdoc, n, hn, hreaches⟩
  · rintro ⟨hbears, hdoc, n, hn, hreaches⟩
    exact ⟨n, ⟨hn, hreaches.doc_eq ▸ hdoc⟩, hreaches, hbears⟩

/-! ### Lookups and navigation -/

/-- When the documents are those of the context, nothing is left out for its document. -/
theorem liesOn_iff_of_covers {name : IndexedName} {axis : Axis} {docs : DocumentSet}
    {context : NodeSet} (hdocs : ∀ n ∈ context, docs.contains n.doc = true) {m : Node} :
    s.LiesOn name axis docs context m ↔ s.Bears m name ∧ ∃ n ∈ context, axis.Reaches n m := by
  refine and_congr_right fun _ => and_iff_right_of_imp ?_
  rintro ⟨n, hn, hreaches⟩
  exact hreaches.doc_eq ▸ hdocs n hn

/-- **A name test finds by navigation what a lookup by name looks for,** when the documents
hold the context. -/
theorem IsIndexed.navigate_name_eq_ok (h : s.IsIndexed) {axis : Axis}
    (haxis : axis.isStraight = true) (q : QName) {docs : DocumentSet} {context : NodeSet}
    (hcontext : ∀ n ∈ context, s.Has n) (hdocs : ∀ n ∈ context, docs.contains n.doc = true)
    {found : List Node} (hmem : ∀ m, m ∈ found ↔ s.LiesOn ⟨axis.nameType, q⟩ axis docs context m) :
    s.navigate axis (.name q) context = .ok (s.persistent found) := by
  obtain ⟨walked, hwalked, hwalkedmem⟩ := h.navigate_eq_ok haxis (.name q) hcontext
  rw [hwalked]
  refine congrArg Except.ok (NodeSet.ofList_congr true fun m => ?_)
  rw [hwalkedmem, hmem, liesOn_iff_of_covers hdocs]
  constructor
  · rintro ⟨n, hn, hleads, hpasses⟩
    have hbears := (passes_name_iff (h.has_of_leads (hcontext n hn) hleads)).1 hpasses
    exact ⟨hbears, n, hn, hbears.leads_iff.1 hleads⟩
  · rintro ⟨hbears, n, hn, hreaches⟩
    exact ⟨n, hn, hbears.leads_iff.2 hreaches, (passes_name_iff hbears.has).2 hbears⟩

theorem isStraight_of_isDownward {axis : Axis} (h : isDownward axis = true) :
    axis.isStraight = true := by
  cases axis <;> first | rfl | cases h

/-- **A step down goes through the name index or through the tree alike.** -/
theorem IsIndexed.findDescendants_eq_navigate (h : s.IsIndexed) (hprobes : s.interrupted = false)
    {axis : Axis} (haxis : isDownward axis = true) (q : QName) {docs : DocumentSet}
    {context : NodeSet} (hcontext : ∀ n ∈ context, s.Has n)
    (hdocs : ∀ n ∈ context, docs.contains n.doc = true) :
    s.findDescendants ⟨axis.nameType, q⟩ axis docs context =
      s.navigate axis (.name q) context := by
  obtain ⟨found, hfound, hmem⟩ := h.findDescendants_eq_ok hprobes haxis _ docs context
  rw [hfound, h.navigate_name_eq_ok (isStraight_of_isDownward haxis) q hcontext hdocs hmem]

/-- **A step up goes through the name index or through the tree alike.** -/
theorem IsIndexed.findAncestors_eq_navigate (h : s.IsIndexed) (hprobes : s.interrupted = false)
    {axis : Axis} (haxis : axis ∈ [Axis.self, .parent, .ancestor, .ancestorOrSelf]) (q : QName)
    {docs : DocumentSet} {context : NodeSet} (hcontext : ∀ n ∈ context, s.Has n)
    (hdocs : ∀ n ∈ context, docs.contains n.doc = true) :
    s.findAncestors ⟨.element, q⟩ axis docs context = s.navigate axis (.name q) context := by
  have htype : axis.isStraight = true ∧ axis.nameType = .element := by
    simp only [List.mem_cons, List.not_mem_nil, or_false] at haxis
    rcases haxis with rfl | rfl | rfl | rfl <;> exact ⟨rfl, rfl⟩
  obtain ⟨found, hfound, hmem⟩ := h.findAncestors_eq_ok hprobes haxis ⟨.element, q⟩ docs context
  rw [hfound, h.navigate_name_eq_ok htype.1 q hcontext hdocs (by rwa [htype.2])]

end Store
end IndexedXml
