/-
# What navigation finds

Navigation walks through the links of a document.  For the axes that go straight up or
down it finds just the nodes that identifiers and kinds say are there (`Store.Leads`),
and it never fails at a node that the store has.

On every axis navigation stays among the nodes of the store (`Store.IsIndexed.has_of_navigate`).
-/

import IndexedXml.Proofs.Store.Nodes
import IndexedXml.Query.Target

namespace IndexedXml

/-- The axes on which identifiers tell what stands where. -/
def Axis.isStraight : Axis → Bool
  | followingSibling | precedingSibling => false
  | _ => true

namespace Store

variable {s : Store}

/-! ### What navigation looks at -/

theorem contentBelow_congr {s t : Store} (h : s.documents = t.documents) (depth : Nat) :
    s.contentBelow depth = t.contentBelow depth := by
  induction depth with
  | zero => rfl
  | succ depth ih =>
    funext n
    unfold contentBelow children node document document?
    rw [ih, h]

theorem attributesBelow_congr {s t : Store} (h : s.documents = t.documents) (depth : Nat) :
    s.attributesBelow depth = t.attributesBelow depth := by
  induction depth with
  | zero => rfl
  | succ depth ih =>
    funext n
    unfold attributesBelow attributes children node document document?
    rw [ih, h]

/-- **Navigation looks at nothing but the documents.** -/
theorem navigate_congr {s t : Store} (h : s.documents = t.documents) : s.navigate = t.navigate := by
  have hnode : s.node = t.node := by
    funext n
    unfold node document document?
    rw [h]
  have hbound : s.depthBound = t.depthBound := by
    funext n
    unfold depthBound document?
    rw [h]
  have halong : s.along = t.along := by
    funext axis n
    unfold along siblings children attributes nodeKind
    rw [hnode, hbound, contentBelow_congr h, attributesBelow_congr h]
  have hpasses : s.passes = t.passes := by
    funext axis test n
    unfold passes nodeKind nodeName
    rw [hnode]
  funext axis test context
  unfold navigate
  rw [halong, hpasses]
  rfl

/-- **Where an axis leads to,** told from identifiers and kinds. -/
def Leads (s : Store) (axis : Axis) (n m : Node) : Prop :=
  match axis with
  | .child => m.isChildOf n = true ∧ s.HasContent m
  | .attr => m.isChildOf n = true ∧ s.HasKind m .attr
  | .descendant => m.isDescendantOf n = true ∧ s.HasContent m
  | .descendantOrSelf => m = n ∨ m.isDescendantOf n = true ∧ s.HasContent m
  | .descendantAttr => m.isDescendantOf n = true ∧ s.HasKind m .attr
  | .self => m = n
  | .parent => n.isChildOf m = true
  | .ancestor => n.isDescendantOf m = true
  | .ancestorOrSelf => m = n ∨ n.isDescendantOf m = true
  | .followingSibling | .precedingSibling => False

/-- What lies below a node is below or at one of its children, and the other way round. -/
theorem IsIndexed.below_iff (h : s.IsIndexed) {n m : Node} (hm : s.Has m) :
    m.isDescendantOf n = true ↔
      m.isChildOf n = true ∨
        ∃ c, (c.isChildOf n = true ∧ s.HasContent c) ∧ m.isDescendantOf c = true := by
  constructor
  · intro hbelow
    obtain ⟨c, hc, hwithin, _, hkind⟩ := h.exists_child_within hm hbelow
    rcases hwithin with rfl | hwithin
    · exact .inl hc
    · rcases hkind with rfl | hkind
      · exact absurd (Node.lt_of_isDescendantOf hwithin) (Node.lt_irrefl c)
      · exact .inr ⟨c, ⟨hc, hkind⟩, hwithin⟩
  · rintro (hc | ⟨c, ⟨hc, _⟩, hwithin⟩)
    · exact Node.isDescendantOf_of_isChildOf hc
    · exact Node.isDescendantOf_trans hwithin (Node.isDescendantOf_of_isChildOf hc)

/-- One level deeper below a node are its children, and what is below its content at that depth. -/
theorem IsIndexed.below_succ_iff (h : s.IsIndexed) {n m : Node} (hm : s.Has m) (depth : Nat) :
    m.isDescendantOf n = true ∧ m.level ≤ n.level + (depth + 1) ↔
      m.isChildOf n = true ∨ ∃ c, (c.isChildOf n = true ∧ s.HasContent c) ∧
        m.isDescendantOf c = true ∧ m.level ≤ c.level + depth := by
  constructor
  · rintro ⟨hbelow, hlevel⟩
    rcases (h.below_iff hm).1 hbelow with hchild | ⟨c, hc, hwithin⟩
    · exact .inl hchild
    · have := Node.level_of_isChildOf hc.1
      exact .inr ⟨c, hc, hwithin, by omega⟩
  · rintro (hchild | ⟨c, hc, hwithin, hlevel⟩)
    · have := Node.level_of_isChildOf hchild
      exact ⟨(h.below_iff hm).2 (.inl hchild), by omega⟩
    · have := Node.level_of_isChildOf hc.1
      exact ⟨(h.below_iff hm).2 (.inr ⟨c, hc, hwithin⟩), by omega⟩

/-- No level deeper there is nothing below a node. -/
theorem not_below_zero {n m : Node} (hbelow : m.isDescendantOf n = true) :
    ¬ m.level ≤ n.level + 0 := by
  have := Node.level_lt_of_isDescendantOf hbelow
  omega

/-- **The walk through the content below a node** finds all of it, down to its depth. -/
theorem IsIndexed.contentBelow_eq_ok (h : s.IsIndexed) (depth : Nat) {n : Node} (hn : s.Has n) :
    ∃ l, s.contentBelow depth n = .ok l ∧ ∀ m, m ∈ l ↔
      (m.isDescendantOf n = true ∧ s.HasContent m) ∧ m.level ≤ n.level + depth := by
  induction depth generalizing n with
  | zero =>
    exact ⟨[], rfl, fun m => iff_of_false List.not_mem_nil fun hm => not_below_zero hm.1.1 hm.2⟩
  | succ depth ih =>
    obtain ⟨children, hchildren, hmem⟩ := h.children_eq_ok hn
    have hwalk : ∀ c ∈ children, ∃ l,
        (do let rest ← s.contentBelow depth c; pure (c :: rest)) = .ok l ∧
          ∀ m, m ∈ l ↔ m = c ∨
            (m.isDescendantOf c = true ∧ s.HasContent m) ∧ m.level ≤ c.level + depth := by
      intro c hc
      obtain ⟨rest, hrest, hrestmem⟩ := ih ((hmem c).1 hc).2.1
      exact ⟨c :: rest, by rw [hrest]; rfl, fun m => by rw [List.mem_cons, hrestmem]⟩
    obtain ⟨all, hall, hallmem⟩ := mapM_flatten_eq_ok hwalk
    refine ⟨all.flatten, by rw [contentBelow, hchildren, ok_bind, hall]; rfl, fun m => ?_⟩
    rw [hallmem]
    constructor
    · rintro ⟨c, hc, rfl | ⟨⟨hbelow, hm⟩, hlevel⟩⟩
      · obtain ⟨hchild, hm⟩ := (hmem m).1 hc
        obtain ⟨hbelow, hlevel⟩ := (h.below_succ_iff hm.1 depth).2 (.inl hchild)
        exact ⟨⟨hbelow, hm⟩, hlevel⟩
      · obtain ⟨hbelow, hlevel⟩ :=
          (h.below_succ_iff hm.1 depth).2 (.inr ⟨c, (hmem c).1 hc, hbelow, hlevel⟩)
        exact ⟨⟨hbelow, hm⟩, hlevel⟩
    · rintro ⟨⟨hbelow, hm⟩, hlevel⟩
      rcases (h.below_succ_iff hm.1 depth).1 ⟨hbelow, hlevel⟩ with hchild | ⟨c, hc, hwithin, hlevel⟩
      · exact ⟨m, (hmem m).2 ⟨hchild, hm⟩, .inl rfl⟩
      · exact ⟨c, (hmem c).2 hc, .inr ⟨⟨hwithin, hm⟩, hlevel⟩⟩

/-- **The walk through the attributes below a node** finds all of them, down to its depth. -/
theorem IsIndexed.attributesBelow_eq_ok (h : s.IsIndexed) (depth : Nat) {n : Node}
    (hn : s.Has n) :
    ∃ l, s.attributesBelow depth n = .ok l ∧ ∀ m, m ∈ l ↔
      (m.isDescendantOf n = true ∧ s.HasKind m .attr) ∧ m.level ≤ n.level + depth := by
  induction depth generalizing n with
  | zero =>
    exact ⟨[], rfl, fun m => iff_of_false List.not_mem_nil fun hm => not_below_zero hm.1.1 hm.2⟩
  | succ depth ih =>
    obtain ⟨own, hown, hownmem⟩ := h.attributes_eq_ok hn
    obtain ⟨children, hchildren, hmem⟩ := h.children_eq_ok hn
    obtain ⟨all, hall, hallmem⟩ :=
      mapM_flatten_eq_ok fun c hc => ih ((hmem c).1 hc).2.1
    refine ⟨own ++ all.flatten,
      by rw [attributesBelow, hown, ok_bind, hchildren, ok_bind, hall]; rfl, fun m => ?_⟩
    rw [List.mem_append, hownmem, hallmem]
    constructor
    · rintro (⟨hchild, hm⟩ | ⟨c, hc, ⟨hbelow, hm⟩, hlevel⟩)
      · obtain ⟨hbelow, hlevel⟩ := (h.below_succ_iff hm.has depth).2 (.inl hchild)
        exact ⟨⟨hbelow, hm⟩, hlevel⟩
      · obtain ⟨hbelow, hlevel⟩ :=
          (h.below_succ_iff hm.has depth).2 (.inr ⟨c, (hmem c).1 hc, hbelow, hlevel⟩)
        exact ⟨⟨hbelow, hm⟩, hlevel⟩
    · rintro ⟨⟨hbelow, hm⟩, hlevel⟩
      rcases (h.below_succ_iff hm.has depth).1 ⟨hbelow, hlevel⟩ with hchild | ⟨c, hc, hwithin, hlevel⟩
      · exact .inl ⟨hchild, hm⟩
      · exact .inr ⟨c, (hmem c).2 hc, ⟨hwithin, hm⟩, hlevel⟩

/-- No node is deeper than the bound on walks. -/
theorem IsIndexed.level_le_depthBound (h : s.IsIndexed) {n m : Node} (hm : s.Has m)
    (hdoc : m.doc = n.doc) : m.level ≤ n.level + s.depthBound n := by
  obtain ⟨d, hd⟩ := hm.document?
  have hlt := h.level_lt hm hd
  rw [hdoc] at hd
  simp only [depthBound, hd, Option.map_some, Option.getD_some]
  omega

/-- **Navigation along a straight axis finds where it leads.** -/
theorem IsIndexed.along_eq_ok (h : s.IsIndexed) {axis : Axis} (haxis : axis.isStraight = true)
    {n : Node} (hn : s.Has n) :
    ∃ l, s.along axis n = .ok l ∧ ∀ m, m ∈ l ↔ s.Leads axis n m := by
  obtain ⟨below, hbelow, hbelowmem⟩ := h.contentBelow_eq_ok (s.depthBound n) hn
  have hdeep : ∀ m, m ∈ below ↔ m.isDescendantOf n = true ∧ s.HasContent m := fun m =>
    (hbelowmem m).trans <| and_iff_left_of_imp fun hm =>
      h.level_le_depthBound hm.2.1 (Node.doc_eq_of_isDescendantOf hm.1)
  cases axis with
  | child => exact h.children_eq_ok hn
  | attr => exact h.attributes_eq_ok hn
  | descendant => exact ⟨below, hbelow, hdeep⟩
  | descendantOrSelf =>
    exact ⟨n :: below, by rw [along, hbelow]; rfl, fun m => by rw [List.mem_cons, hdeep, Leads]⟩
  | descendantAttr =>
    obtain ⟨l, hl, hmem⟩ := h.attributesBelow_eq_ok (s.depthBound n) hn
    refine ⟨l, hl, fun m => (hmem m).trans <| and_iff_left_of_imp fun hm => ?_⟩
    exact h.level_le_depthBound hm.2.has (Node.doc_eq_of_isDescendantOf hm.1)
  | self => exact ⟨[n], rfl, fun m => by rw [List.mem_singleton, Leads]⟩
  | parent =>
    refine ⟨_, rfl, fun m => ?_⟩
    rw [Option.mem_toList, Node.parent?_eq_some_iff, Leads]
  | ancestor => exact ⟨_, rfl, fun m => by rw [Node.mem_ancestors, Leads]⟩
  | ancestorOrSelf => exact ⟨_, rfl, fun m => by rw [List.mem_cons, Node.mem_ancestors, Leads]⟩
  | followingSibling => cases haxis
  | precedingSibling => cases haxis

/-- Where an axis leads to, the store has a node. -/
theorem IsIndexed.has_of_leads (h : s.IsIndexed) {axis : Axis} {n m : Node} (hn : s.Has n)
    (hm : s.Leads axis n m) : s.Has m := by
  cases axis with
  | child => exact hm.2.1
  | attr => exact hm.2.has
  | descendant => exact hm.2.1
  | descendantOrSelf =>
    rcases hm with rfl | hm
    · exact hn
    · exact hm.2.1
  | descendantAttr => exact hm.2.has
  | self => exact hm ▸ hn
  | parent => exact (h.has_parent hn hm).1
  | ancestor => exact (h.has_ancestor hn hm).1
  | ancestorOrSelf =>
    rcases hm with rfl | hm
    · exact hn
    · exact (h.has_ancestor hn hm).1
  | followingSibling => cases hm
  | precedingSibling => cases hm

/-- **The nodes on the same level have a common parent,** and they are content. -/
theorem IsIndexed.exists_parent_of_siblings (h : s.IsIndexed) {n m : Node} {test : Node → Bool}
    {l : List Node} (hn : s.Has n) (hl : s.siblings n test = .ok l) (hm : m ∈ l) :
    ∃ p, n.isChildOf p = true ∧ m.isChildOf p = true ∧ s.HasContent m := by
  unfold siblings at hl
  cases hparent : n.parent? with
  | none =>
    rw [hparent] at hl
    obtain rfl : [] = l := Except.ok.inj hl
    cases hm
  | some p =>
    rw [hparent] at hl
    obtain ⟨kind, _, hl⟩ := bind_eq_ok.1 hl
    by_cases hkind : kind = .attr
    · rw [if_pos hkind] at hl
      obtain rfl : [] = l := Except.ok.inj hl
      cases hm
    · rw [if_neg hkind] at hl
      obtain ⟨level, hlevel, hl⟩ := bind_eq_ok.1 hl
      obtain rfl : level.filter test = l := Except.ok.inj hl
      have hchild := Node.parent?_eq_some_iff.1 hparent
      obtain ⟨children, hchildren, hmem⟩ := h.children_eq_ok (h.has_parent hn hchild).1
      obtain rfl : children = level := Except.ok.inj (hchildren.symm.trans hlevel)
      exact ⟨p, hchild, (hmem m).1 (List.mem_of_mem_filter hm)⟩

/-- The nodes on the same level are nodes of the store. -/
theorem IsIndexed.has_of_siblings (h : s.IsIndexed) {n m : Node} {test : Node → Bool}
    {l : List Node} (hn : s.Has n) (hl : s.siblings n test = .ok l) (hm : m ∈ l) : s.Has m := by
  obtain ⟨p, -, -, hcontent⟩ := h.exists_parent_of_siblings hn hl hm
  exact hcontent.1

/-- Navigation from a node of the store stays in the store. -/
theorem IsIndexed.has_of_along (h : s.IsIndexed) {axis : Axis} {n m : Node} {l : List Node}
    (hn : s.Has n) (hl : s.along axis n = .ok l) (hm : m ∈ l) : s.Has m := by
  by_cases haxis : axis.isStraight = true
  · obtain ⟨l', hl', hmem⟩ := h.along_eq_ok haxis hn
    obtain rfl : l' = l := Except.ok.inj (hl'.symm.trans hl)
    exact h.has_of_leads hn ((hmem m).1 hm)
  · cases axis with
    | followingSibling => exact h.has_of_siblings hn hl hm
    | precedingSibling => exact h.has_of_siblings hn hl hm
    | _ => exact absurd rfl haxis

/-! ### Tests -/

/-- **A name test is passed by the nodes that bear the name.** -/
theorem passes_name (axis : Axis) (q : QName) {n : Node} (hn : s.Has n) :
    ∃ b, s.passes axis (.name q) n = .ok b ∧ (b = true ↔ s.Bears n ⟨axis.nameType, q⟩) := by
  obtain ⟨e, he⟩ := hn
  have hkind : s.nodeKind n = .ok e.kind := by rw [nodeKind, he]; rfl
  have hname : s.nodeName n = .ok e.name := by rw [nodeName, he]; rfl
  have hbears : s.Bears n ⟨axis.nameType, q⟩ ↔ e.hasName ⟨axis.nameType, q⟩ = true :=
    ⟨fun ⟨e', he', h⟩ => Except.ok.inj (he'.symm.trans he) ▸ h, fun h => ⟨e, he, h⟩⟩
  have hprincipal : e.hasName ⟨axis.nameType, q⟩ = true ↔
      e.kind = principalKind axis ∧ (e.name.map q.same).getD false = true := by
    unfold StoredNode.hasName Axis.nameType principalKind
    cases axis.isAttributeAxis <;> simp
  rw [hbears, hprincipal]
  unfold passes
  simp only [hkind, hname, ok_bind]
  by_cases hk : e.kind = principalKind axis
  · exact ⟨_, by rw [if_pos hk]; rfl, by simp [hk]⟩
  · exact ⟨false, by rw [if_neg hk]; rfl, by simp [hk]⟩

/-- Every test has an outcome at a node of the store. -/
theorem exists_passes (axis : Axis) (test : NodeTest) {n : Node} (hn : s.Has n) :
    ∃ b, s.passes axis test n = .ok b := by
  have hkind : ∃ k, s.nodeKind n = .ok k := by
    obtain ⟨e, he⟩ := hn
    exact ⟨e.kind, by rw [nodeKind, he]; rfl⟩
  obtain ⟨k, hk⟩ := hkind
  cases test with
  | name q =>
    obtain ⟨b, hb, _⟩ := passes_name axis q hn
    exact ⟨b, hb⟩
  | wildcard => exact ⟨_, by rw [passes, hk]; rfl⟩
  | anyNode => exact ⟨true, rfl⟩
  | text => exact ⟨_, by rw [passes, hk]; rfl⟩

/-- The node passes the test of a step on an axis. -/
def Passes (s : Store) (axis : Axis) (test : NodeTest) (n : Node) : Prop :=
  s.passes axis test n = .ok true

theorem passes_name_iff {axis : Axis} {q : QName} {n : Node} (hn : s.Has n) :
    s.Passes axis (.name q) n ↔ s.Bears n ⟨axis.nameType, q⟩ := by
  obtain ⟨b, hb, hiff⟩ := passes_name axis q hn
  rw [Passes, hb, ← hiff, Except.ok.injEq]

/-- Filtering by a test keeps the nodes that pass it. -/
theorem filterPassing_passes (axis : Axis) (test : NodeTest) {l : List Node}
    (h : ∀ n ∈ l, s.Has n) :
    ∃ kept, filterPassing (s.passes axis test) l = .ok kept ∧
      ∀ m, m ∈ kept ↔ m ∈ l ∧ s.Passes axis test m := by
  have hok : ∀ n ∈ l, s.passes axis test n =
      .ok ((s.passes axis test n).toOption.getD false) := by
    intro n hn
    obtain ⟨b, hb⟩ := exists_passes axis test (h n hn)
    rw [hb]
    rfl
  refine ⟨_, filterPassing_eq_ok hok, fun m => ?_⟩
  rw [List.mem_filter]
  refine and_congr_right fun hm => ?_
  obtain ⟨b, hb⟩ := exists_passes axis test (h m hm)
  rw [Passes, hb, Except.ok.injEq]
  rfl

/-! ### Steps -/

/-- **Navigation finds the nodes that an axis leads to and that pass the test.** -/
theorem IsIndexed.navigate_eq_ok (h : s.IsIndexed) {axis : Axis} (haxis : axis.isStraight = true)
    (test : NodeTest) {context : NodeSet} (hcontext : ∀ n ∈ context, s.Has n) :
    ∃ found, s.navigate axis test context = .ok (s.persistent found) ∧
      ∀ m, m ∈ found ↔ ∃ n ∈ context, s.Leads axis n m ∧ s.Passes axis test m := by
  have hnode : ∀ n ∈ context.nodes, ∃ kept,
      (do let candidates ← s.along axis n; filterPassing (s.passes axis test) candidates) =
        .ok kept ∧ ∀ m, m ∈ kept ↔ s.Leads axis n m ∧ s.Passes axis test m := by
    intro n hn
    obtain ⟨l, hl, hmem⟩ := h.along_eq_ok haxis (hcontext n hn)
    obtain ⟨kept, hkept, hkeptmem⟩ := filterPassing_passes axis test
      fun m hm => h.has_of_leads (hcontext n hn) ((hmem m).1 hm)
    exact ⟨kept, by rw [hl, ok_bind, hkept], fun m => by rw [hkeptmem, hmem]⟩
  obtain ⟨all, hall, hmem⟩ := mapM_flatten_eq_ok hnode
  exact ⟨all.flatten, by rw [navigate, hall]; rfl, hmem⟩

/-- What navigation from nodes of the store finds is in the store and passes the test. -/
theorem IsIndexed.has_of_navigate (h : s.IsIndexed) {axis : Axis} {test : NodeTest}
    {context found : NodeSet} (hcontext : ∀ n ∈ context, s.Has n)
    (hfound : s.navigate axis test context = .ok found) {m : Node} (hm : m ∈ found) :
    s.Has m ∧ s.Passes axis test m := by
  unfold navigate at hfound
  obtain ⟨all, hall, hset⟩ := bind_eq_ok.1 hfound
  obtain rfl : s.persistent all.flatten = found := Except.ok.inj hset
  rw [persistent, NodeSet.mem_ofList] at hm
  obtain ⟨n, hn, kept, hkept, hmk⟩ := mem_flatten_of_mapM hall hm
  obtain ⟨l, hl, hkept⟩ := bind_eq_ok.1 hkept
  obtain ⟨hml, hpass⟩ := mem_of_filterPassing hkept hmk
  exact ⟨h.has_of_along (hcontext n hn) hl hml, hpass⟩

end Store
end IndexedXml
