/-
# Predicates by index and by item

Where an index answers a predicate for a set, it selects what the condition selects item by
item, provided that the condition has an outcome at each item (`Expr.follows_applyByIndex`).
An index that reads the name of an attribute where navigation looks for an element is left
out (`Store.Misread`).
-/

import IndexedXml.Proofs.Query.Shapes

namespace IndexedXml

open Evaluation Setting

variable {s : Store} {σ : Setting}

/-! ### Selecting item by item -/

/-- A selection is a filter when the outcome at an item says by its truth whether the item is
selected. -/
theorem selectItems_eq_filter {evaluate : Focus → Evaluation Sequence}
    (hreads : ∀ focus, σ.Reads (evaluate focus)) {persistent reverse : Bool} {truth : Item → Bool}
    {items : List Item}
    (htruth : ∀ item ∈ items, ∀ v, σ.outcome (evaluate (itemFocus persistent item)) = .ok v →
      v.number? = none ∧ ∀ b, v.truth = .ok b → b = truth item) :
    ∀ {position kept}, σ.outcome (selectItems evaluate persistent reverse position items) = .ok kept →
      kept = items.filter truth := by
  induction items with
  | nil =>
    intro position kept h
    exact (Except.ok.inj h).symm
  | cons item rest ih =>
    intro position kept h
    rw [outcome_selectItems_cons hreads] at h
    obtain ⟨v, hv, h⟩ := bind_eq_ok.1 h
    obtain ⟨b, hb, h⟩ := bind_eq_ok.1 h
    obtain ⟨later, hlater, h⟩ := bind_eq_ok.1 h
    obtain rfl : (if b = true then item :: later else later) = kept := Except.ok.inj h
    obtain ⟨hnumber, hb'⟩ := htruth item List.mem_cons_self v hv
    unfold Sequence.selects at hb
    rw [hnumber] at hb
    rw [ih (fun item hitem => htruth item (List.mem_cons_of_mem _ hitem)) hlater, hb' b hb,
      List.filter_cons]

/-- The node that an item is, if it is one. -/
def Item.node? : Item → Option Node
  | .node n => some n
  | .atomic _ => none

theorem mem_filterMap_node? {items : List Item} {n : Node} :
    n ∈ items.filterMap Item.node? ↔ .node n ∈ items := by
  rw [List.mem_filterMap]
  constructor
  · rintro ⟨_ | _, hitem, heq⟩
    · obtain rfl := Option.some.inj heq
      exact hitem
    · cases heq
  · exact fun hn => ⟨.node n, hn, rfl⟩

theorem withItems_nodes (shared : SharedSet) (kept : List Item) :
    withItems (.nodes shared) kept =
      .ofSet (.ofList (kept.filterMap Item.node?) shared.set.persistent) := by
  have hnode : (fun item : Item => match item with
      | .node n => some n
      | .atomic _ => none) = Item.node? := by
    funext item
    cases item <;> rfl
  rw [← hnode]
  rfl

/-- What is kept of the items of an ordered set is a part of the set. -/
theorem withItems_filter {shared : SharedSet} (h : shared.set.IsOrdered) {keep : Node → Bool}
    {truth : Item → Bool} (htruth : ∀ n ∈ shared.set, truth (.node n) = keep n) :
    withItems (.nodes shared) ((shared.set.nodes.map .node).filter truth) =
      .ofSet (shared.set.filter keep) := by
  have hall : ∀ l : List Node, (∀ n ∈ l, truth (.node n) = keep n) →
      ((l.map Item.node).filter truth).filterMap Item.node? = l.filter keep := by
    intro l hl
    induction l with
    | nil => rfl
    | cons n rest ih =>
      have hn := hl n List.mem_cons_self
      have hrest := ih fun n hn => hl n (List.mem_cons_of_mem _ hn)
      rw [List.map_cons, List.filter_cons, List.filter_cons, hn]
      cases keep n with
      | true =>
        rw [if_pos rfl, if_pos rfl, List.filterMap_cons, hrest]
        rfl
      | false => rw [if_neg Bool.false_ne_true, if_neg Bool.false_ne_true, hrest]
  rw [withItems_nodes, hall _ htruth]
  exact congrArg Sequence.ofSet (h.filter keep).ofList_nodes

/-- **A condition with a truth value at every member of a set selects by it,** item by item. -/
theorem applyByItem_eq_of_truth {evaluate : Focus → Evaluation Sequence}
    (hreads : ∀ focus, σ.Reads (evaluate focus)) {shared : SharedSet} (hordered : shared.set.IsOrdered)
    {keep : Node → Bool} (htruth : ∀ n ∈ shared.set, ∀ v,
      σ.outcome (evaluate (itemFocus shared.set.persistent (.node n))) = .ok v →
        ∃ b, v = .ofBool b ∧ (b = true ↔ keep n = true))
    {reverse : Bool} {result : Sequence}
    (h : σ.outcome (applyByItem evaluate reverse (.nodes shared)) = .ok result) :
    result = .ofSet (shared.set.filter keep) := by
  rw [outcome_applyByItem hreads] at h
  obtain ⟨kept, hkept, rfl⟩ := map_eq_ok.1 h
  have hitems : ∀ item ∈ (Sequence.nodes shared).toItems, ∀ v,
      σ.outcome (evaluate (itemFocus (Sequence.nodes shared).isPersistent item)) = .ok v →
      v.number? = none ∧ ∀ b, v.truth = .ok b → b = (item.node?.map keep).getD false := by
    intro item hitem v hv
    obtain ⟨n, hn, rfl⟩ := List.mem_map.1 hitem
    obtain ⟨b, rfl, hb⟩ := htruth n hn v hv
    refine ⟨rfl, fun b' hb' => ?_⟩
    obtain rfl : b = b' := Except.ok.inj hb'
    exact Bool.eq_iff_iff.2 hb
  rw [selectItems_eq_filter hreads hitems hkept]
  exact withItems_filter hordered fun _ _ => rfl

/-- What is kept of a sequence in the store is in the store. -/
theorem isIn_withItems {like : Sequence} (hlike : like.IsIn s) {kept : List Item}
    (hkept : ∀ item ∈ kept, item ∈ like.toItems) :
    (withItems like kept).IsIn s ∧ ∀ n, .node n ∈ (withItems like kept).toItems → .node n ∈ kept := by
  cases like with
  | items list => exact ⟨fun n hn => hlike n (hkept _ hn), fun n hn => hn⟩
  | nodes shared =>
    rw [withItems_nodes]
    refine ⟨NodeSet.isIn_ofList _ fun n hn => ?_, fun n hn => ?_⟩
    · exact hlike.has (hkept _ (mem_filterMap_node?.1 hn))
    · obtain ⟨m, hm, heq⟩ := List.mem_map.1 hn
      obtain rfl := Item.node.inj heq
      exact mem_filterMap_node?.1 (NodeSet.mem_ofList.1 hm)

/-- A part of a sequence that is in the store. -/
def Sequence.IsPartOf (s : Store) (whole part : Sequence) : Prop :=
  part.IsIn s ∧ ∀ n, .node n ∈ part.toItems → .node n ∈ whole.toItems

/-- **Selecting item by item follows** when evaluation follows. -/
theorem follows_applyByItem {evaluate evaluate' : Focus → Evaluation Sequence}
    (hreads : ∀ focus, σ.Reads (evaluate focus)) (hreads' : ∀ focus, σ.Reads (evaluate' focus))
    (heval : ∀ focus, focus.IsIn s →
      Follows (·.IsIn s) (σ.outcome (evaluate focus)) (σ.outcome (evaluate' focus)))
    (reverse : Bool) {value : Sequence} (hvalue : value.IsIn s) :
    Follows (value.IsPartOf s) (σ.outcome (applyByItem evaluate reverse value))
      (σ.outcome (applyByItem evaluate' reverse value)) := by
  have hselect : ∀ (items : List Item) (position : Nat), (∀ n, .node n ∈ items → s.Has n) →
      Follows (fun kept => ∀ item ∈ kept, item ∈ items)
        (σ.outcome (selectItems evaluate value.isPersistent reverse position items))
        (σ.outcome (selectItems evaluate' value.isPersistent reverse position items)) := by
    intro items
    induction items with
    | nil => exact fun _ _ => .ok fun _ h => h
    | cons item rest ih =>
      intro position hitems
      rw [outcome_selectItems_cons hreads, outcome_selectItems_cons hreads']
      have hfocus : (itemFocus value.isPersistent item).IsIn s :=
        isIn_itemFocus fun n hn => hitems n (hn ▸ List.mem_cons_self)
      refine Follows.bind (heval _ hfocus) fun outcome _ => ?_
      refine Follows.bind (P := fun _ => True) (.refl fun _ _ => trivial) fun selected _ => ?_
      refine Follows.bind (ih _ fun n hn => hitems n (List.mem_cons_of_mem _ hn)) fun kept hkept => ?_
      refine .ok fun kept' hkept' => ?_
      cases selected with
      | true =>
        rcases List.mem_cons.1 hkept' with rfl | hkept'
        · exact List.mem_cons_self
        · exact List.mem_cons_of_mem _ (hkept _ hkept')
      | false => exact List.mem_cons_of_mem _ (hkept _ hkept')
  rw [outcome_applyByItem hreads, outcome_applyByItem hreads']
  intro result hresult
  obtain ⟨kept, hkept, rfl⟩ := map_eq_ok.1 hresult
  obtain ⟨hkept', hsub⟩ := hselect value.toItems _ (fun n hn => hvalue.has hn) kept hkept
  rw [hkept']
  obtain ⟨hin, hnodes⟩ := isIn_withItems hvalue hsub
  exact ⟨rfl, hin, fun n hn => hsub _ (hnodes n hn)⟩

/-! ### Selecting by index -/

/-- **An index answers a condition by the name of an attribute** where navigation, going by the
same name, looks for an element: the condition stands in the predicates of a step to
attributes and asks for the name of the node itself, and some attribute is found. -/
def Store.Misread (s : Store) (head : StepHead) (p : Predicate) : Prop :=
  head.axis.isAttributeAxis = true ∧ p.mode = .boolean ∧ p.expr.namesSelf = true ∧
    ∃ id probe n c, p.expr.probe? = some (id, probe) ∧ probe.relation = some .identity ∧
      s.Hits probe.name probe.op probe.key n ∧ s.collectionOf n.doc = .ok c ∧
        probe.covers [c] = true

/-- What covers several collections covers each of them. -/
theorem IndexProbe.covers_single {p : IndexProbe} {cs : List Collection} (h : p.covers cs = true)
    {c : Collection} (hc : c ∈ cs) : p.covers [c] = true := by
  obtain ⟨_, type, hfits, hall⟩ := covers_iff.1 h
  refine covers_iff.2 ⟨List.cons_ne_nil _ _, type, hfits, fun c' hc' => ?_⟩
  obtain rfl := List.mem_singleton.1 hc'
  exact hall c' hc

/-- A straight axis stays in the document. -/
theorem Store.Leads.doc_eq {axis : Axis} {n m : Node} (h : s.Leads axis n m) : m.doc = n.doc := by
  cases axis with
  | child => exact (Node.within_of_isChildOf h.1).doc_eq
  | attr => exact (Node.within_of_isChildOf h.1).doc_eq
  | descendant => exact Node.doc_eq_of_isDescendantOf h.1
  | descendantOrSelf =>
    rcases h with rfl | h
    · rfl
    · exact Node.doc_eq_of_isDescendantOf h.1
  | descendantAttr => exact Node.doc_eq_of_isDescendantOf h.1
  | self => rw [h]
  | parent => exact (Node.within_of_isChildOf h).doc_eq.symm
  | ancestor => exact (Node.doc_eq_of_isDescendantOf h).symm
  | ancestorOrSelf =>
    rcases h with rfl | h
    · rfl
    · exact (Node.doc_eq_of_isDescendantOf h).symm
  | followingSibling => cases h
  | precedingSibling => cases h

theorem Store.LeadsAlong.doc_eq {heads : List StepHead} :
    ∀ {n m : Node}, s.LeadsAlong heads n m → m.doc = n.doc := by
  induction heads with
  | nil =>
    rintro n m rfl
    rfl
  | cons head rest ih =>
    rintro n m ⟨x, ⟨hleads, _⟩, hrest⟩
    exact (ih hrest).trans hleads.doc_eq

theorem Store.LeadsAlong.has (hs : s.IsIndexed) {heads : List StepHead} :
    ∀ {n m : Node}, s.Has n → s.LeadsAlong heads n m → s.Has m := by
  induction heads with
  | nil =>
    rintro n m hn rfl
    exact hn
  | cons head rest ih =>
    rintro n m hn ⟨x, ⟨hleads, _⟩, hrest⟩
    exact ih (hs.has_of_leads hn hleads) hrest

namespace Expr

variable {outer : Option OuterStep} {e : Expr} {p : IndexProbe}

/-- What an index must not find for the name of an attribute. -/
def ReadsRight (s : Store) (outer : Option OuterStep) (e : Expr) (p : IndexProbe) : Prop :=
  ∀ step, outer = some step → step.axis.isAttributeAxis = true → e.namesSelf = true →
    p.relation = some .identity → ∀ n c, s.Hits p.name p.op p.key n →
      s.collectionOf n.doc = .ok c → p.covers [c] = false

/-- The nodes bear the name that the outer step asks for. -/
def SuitsOuter (s : Store) (outer : Option OuterStep) (n : Node) : Prop :=
  ∀ step name, outer = some step → step.name = some name → s.Bears n ⟨step.axis.nameType, name⟩

/-- **At a node where a condition has an outcome, it is what the index says:** whether a hit
stands to the node in the relation of the probe. -/
theorem outcome_condition_iff (hs : s.IsReliable) (hσ : σ.IsBare) (hfree : e.IsPragmaFree)
    (hp : e.probed? outer = some p) (hkey : p.op = .startsWith → p.key ≠ .string "")
    (hread : e.ReadsRight s outer p) {relation : Relation} (hrelation : p.relation = some relation)
    {n : Node} (hn : s.Has n) (houter : SuitsOuter s outer n) {c : Collection}
    (hc : s.collectionOf n.doc = .ok c) (hcovers : p.covers [c] = true) {focus : Focus}
    {context : SharedSet} (hcontext : contextSet s focus = .ok context)
    (hmem : ∀ m, m ∈ context.set ↔ m = n) {v : Sequence}
    (hv : σ.outcome (e.evaluate s focus) = .ok v) :
    ∃ b, v = .ofBool b ∧
      (b = true ↔ ∃ m, relation.Relates n m ∧ s.Hits p.name p.op p.key m) := by
  obtain ⟨path, hasks⟩ := exists_asks hp
  obtain ⟨reached, b, hreached, rfl, hb⟩ := outcome_condition hasks hfree hkey hv
  obtain ⟨target, htarget, hprobe⟩ := hasks.target
  have hname : p.name = target.name := by rw [hprobe]; rfl
  have hrel : target.relation = some relation := by rw [← hrelation, hprobe]; rfl
  obtain ⟨heads, hheads, hne, hstraight, hiff⟩ := Target.exists_leadsAlong_iff htarget hrel
    hs.indexed hn (fun hid => Target.bears_of_identity htarget (hid ▸ hrel) houter)
    (Q := s.Answers p.name p.op p.key) (fun hself step hstep hattr hid hhit => by
      have hcovers' := hread step hstep hattr (hasks.namesSelf_iff.trans hself) (hid ▸ hrelation) n c
        (Store.hits_iff.2 (hname ▸ hhit)) hc
      rw [hcovers] at hcovers'
      cases hcovers')
  obtain ⟨_, v, hv, hconsists⟩ := outcome_simple (σ := σ) hσ hs.answering hheads hne hstraight hcontext
    fun m hm => (hmem m).1 hm ▸ hn
  obtain rfl : v = reached := Except.ok.inj (hv.symm.trans hreached)
  have hconsists := hconsists.congr (Q := s.LeadsAlong heads n) fun m => by
    simp only [hmem, exists_eq_left]
  have hsuits : p.SuitsAll s (s.LeadsAlong heads n) := by
    intro m hm
    rw [hm.doc_eq]
    have hsingle : [n.doc].mapM s.collectionOf = .ok [c] := by
      rw [List.mapM_cons, hc]
      rfl
    exact IndexProbe.suits_of_covers hs.plain hsingle hcovers (List.mem_singleton_self _)
  refine ⟨b, rfl, ?_⟩
  rw [hb _ hconsists (fun m hm => hm.has hs.indexed hn) hsuits, hiff]
  simp only [Store.hits_iff, hname]

/-- **An index selects what a condition selects item by item,** where the condition has an
outcome at each item. -/
theorem applyByItem_eq_filter (hs : s.IsReliable) (hσ : σ.IsBare) (hfree : e.IsPragmaFree)
    (hp : e.probed? outer = some p) (hkey : p.op = .startsWith → p.key ≠ .string "")
    (hread : e.ReadsRight s outer p) {relation : Relation} (hrelation : p.relation = some relation)
    {shared : SharedSet} (hshared : shared.set.IsIn s)
    (houter : ∀ n ∈ shared.set, SuitsOuter s outer n) {cs : List Collection}
    (hcs : shared.set.documents.docs.mapM s.collectionOf = .ok cs) (hcovers : p.covers cs = true)
    {keep : Node → Bool} (hkeep : ∀ n ∈ shared.set,
      keep n = true ↔ ∃ m, relation.Relates n m ∧ s.Hits p.name p.op p.key m)
    {reverse : Bool} {result : Sequence}
    (h : σ.outcome (applyByItem (e.evaluate s) reverse (.nodes shared)) = .ok result) :
    result = .ofSet (shared.set.filter keep) := by
  refine applyByItem_eq_of_truth (reads_evaluate hfree) hshared.1 (fun n hn v hv => ?_) h
  obtain ⟨c, hmem, hc⟩ := exists_of_mapM hcs (NodeSet.mem_documents.2 ⟨n, hn, rfl⟩)
  have hcontext : contextSet s (itemFocus shared.set.persistent (.node n)) =
      .ok ⟨s.persistent [n], none⟩ := rfl
  obtain ⟨b, rfl, hb⟩ := outcome_condition_iff hs hσ hfree hp hkey hread hrelation
    (hshared.2 n hn) (houter n hn) hc (IndexProbe.covers_single hcovers hmem) hcontext
    (fun m => NodeSet.mem_ofList.trans List.mem_singleton) hv
  exact ⟨b, rfl, hb.trans (hkeep n hn).symm⟩

variable {tree index : Expr} {mode : PredicateMode}

/-- **Applying a predicate by index follows applying it item by item,** when evaluation by
index follows evaluation without. -/
theorem follows_applyPredicate (hs : s.IsReliable) (hσ : σ.IsBare) (htree : tree.IsPragmaFree)
    (hindex : index.IsPragmaFree) (hprobe : tree.probe? = none)
    (hprobed : ∀ id p, index.probe? = some (id, p) → tree.probed? outer = some p ∧
      (p.op = .startsWith → p.key ≠ .string "") ∧ (mode = .boolean → tree.ReadsRight s outer p))
    (heval : ∀ focus, focus.IsIn s → Follows (·.IsIn s) (σ.outcome (tree.evaluate s focus))
      (σ.outcome (index.evaluate s focus)))
    {value : Sequence} (hvalue : value.IsIn s)
    (houter : ∀ n, .node n ∈ value.toItems → SuitsOuter s outer n) (reverse : Bool) :
    Follows (value.IsPartOf s)
      (σ.outcome (applyPredicate s mode tree.probe? (tree.evaluate s) reverse value))
      (σ.outcome (applyPredicate s mode index.probe? (index.evaluate s) reverse value)) := by
  have hitem := follows_applyByItem (reads_evaluate htree) (reads_evaluate hindex) heval reverse hvalue
  have hnone : byIndex s mode none value = .ok none := by cases mode <;> rfl
  rw [outcome_applyPredicate (reads_evaluate htree), outcome_applyPredicate (reads_evaluate hindex),
    hprobe, hnone, ok_bind]
  -- The index answers for a set in boolean mode only, and then it may leave it to the items.
  by_cases hleft : byIndex s mode index.probe? value = .ok none
  · rw [hleft, ok_bind]
    exact hitem
  · cases mode with
    | positional => exact absurd rfl hleft
    | boolean =>
      rcases hfound : index.probe? with _ | ⟨id, p⟩
      · rw [hfound] at hleft
        exact absurd rfl hleft
      · rw [hfound] at hleft
        obtain ⟨hp, hkey, hread⟩ := hprobed id p hfound
        cases value with
        | items list => exact absurd rfl hleft
        | nodes shared =>
          change ¬ p.answer s shared.set = .ok none at hleft
          obtain ⟨cs, hcs⟩ := hs.indexed.exists_collections hvalue.2
          cases hcovers : p.covers cs with
          | false => exact absurd (IndexProbe.answer_eq_none hcs hcovers) hleft
          | true =>
            rcases hrelation : p.relation with _ | relation
            · refine absurd ?_ hleft
              unfold IndexProbe.answer
              rw [hrelation]
            · obtain ⟨keep, hanswer, hkeep⟩ := IndexProbe.answer_eq_ok hs hrelation hcs hcovers
              intro result hresult
              obtain rfl := applyByItem_eq_filter hs hσ htree hp hkey (hread rfl) hrelation hvalue
                (fun n hn => houter n (List.mem_map_of_mem hn)) hcs hcovers hkeep hresult
              refine ⟨?_, hvalue.filter keep, fun n hn => ?_⟩
              · change (p.answer s shared.set >>= _) = _
                rw [hanswer]
                rfl
              · obtain ⟨m, hm, heq⟩ := List.mem_map.1 hn
                obtain rfl := Item.node.inj heq
                exact List.mem_map_of_mem (List.mem_of_mem_filter hm)

end Expr
end IndexedXml
