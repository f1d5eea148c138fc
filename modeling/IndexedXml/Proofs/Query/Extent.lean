/-
# Where the nodes of a value lie

Some expressions lead only to nodes at or below those that they start from, and some only to
nodes of the same documents.  Which ones do is told from their axes (`Expr.staysIn`), and it
holds of every node of their values (`Expr.leadsWithin_of_staysIn`).  An item that predicates have
left in a value has been accepted by each of them, by a hit or by the value of the predicate for
the item (`Expr.accepts_of_applyPredicates`).
-/

import IndexedXml.Proofs.Query.Pointwise

namespace IndexedXml

open Evaluation Setting

variable {s : Store} {σ : Setting}

/-! ### Extents -/

/-- **How far an expression goes** from the nodes that it starts from. -/
inductive Extent where
  /-- To what is at or below them. -/
  | below
  /-- To all of their documents. -/
  | document
  deriving DecidableEq

namespace Extent

variable {extent : Extent} {n m : Node}

/-- Whether steps along an axis stay in the extent. -/
def admits : Extent → Axis → Bool
  | below, axis => Expr.optimizableAxes.elem axis
  | document, _ => true

/-- **The nodes within the extent of a node.** -/
def Spans : Extent → Node → Node → Prop
  | below, n, m => m.Within n
  | document, n, m => m.doc = n.doc

theorem Spans.doc_eq (h : extent.Spans n m) : m.doc = n.doc := by
  cases extent with
  | below => exact Node.Within.doc_eq h
  | document => exact h

/-- What is below a node is within every extent of it. -/
theorem spans_of_within (h : m.Within n) : extent.Spans n m := by
  cases extent with
  | below => exact h
  | document => exact h.doc_eq

theorem Spans.trans {a : Node} (h : extent.Spans n m) (h' : extent.Spans m a) : extent.Spans n a := by
  cases extent with
  | below => exact Node.Within.trans h' h
  | document => exact Eq.trans h' h

end Extent

/-- Siblings are in the same document. -/
theorem Store.IsIndexed.doc_eq_of_siblings (hs : s.IsIndexed) {n m : Node} {test : Node → Bool}
    {l : List Node} (hn : s.Has n) (hl : s.siblings n test = .ok l) (hm : m ∈ l) :
    m.doc = n.doc := by
  obtain ⟨p, hchild, hsibling, -⟩ := hs.exists_parent_of_siblings hn hl hm
  exact (Node.within_of_isChildOf hsibling).doc_eq.trans (Node.within_of_isChildOf hchild).doc_eq.symm

/-- **An axis that an extent admits stays in it.** -/
theorem Extent.spans_of_along {extent : Extent} (hs : s.IsIndexed) {axis : Axis}
    (haxis : extent.admits axis = true) {n m : Node} {l : List Node} (hn : s.Has n)
    (hl : s.along axis n = .ok l) (hm : m ∈ l) : extent.Spans n m := by
  have hleads : axis.isStraight = true → s.Leads axis n m := by
    intro hstraight
    obtain ⟨l', hl', hmem⟩ := hs.along_eq_ok hstraight hn
    obtain rfl : l' = l := Except.ok.inj (hl'.symm.trans hl)
    exact (hmem m).1 hm
  cases extent with
  | below =>
    have hmem := List.elem_iff.1 haxis
    exact (hleads (Axis.isStraight_of_mem hmem)).within hmem
  | document =>
    by_cases hstraight : axis.isStraight = true
    · exact (hleads hstraight).doc_eq
    · cases axis with
      | followingSibling => exact hs.doc_eq_of_siblings hn hl hm
      | precedingSibling => exact hs.doc_eq_of_siblings hn hl hm
      | _ => exact absurd rfl hstraight

/-! ### What predicates accept -/

namespace Expr

/-- **A predicate accepts an item:** a hit stands in the relation of its probe to the node, or its
value for the item selects it at some position. -/
inductive Accepts (s : Store) (σ : Setting) (e : Expr) : Item → Prop
  | byIndex {id : ExprId} {p : IndexProbe} {relation : Relation} {n m : Node}
      (hprobe : e.probe? = some (id, p)) (hrelation : p.relation = some relation)
      (hrelates : relation.Relates n m) (hhits : s.Hits p.name p.op p.key m) : Accepts s σ e (.node n)
  | byItem {persistent : Bool} {item : Item} {v : Sequence} {position : Nat}
      (hv : σ.outcome (e.evaluate s (itemFocus persistent item)) = .ok v)
      (hselects : v.selects position = .ok true) : Accepts s σ e item

theorem byIndex_eq_some {mode : PredicateMode} {probe : Option (ExprId × IndexProbe)}
    {v : Sequence} {kept : NodeSet} (h : byIndex s mode probe v = .ok (some kept)) :
    ∃ id p shared, probe = some (id, p) ∧ v = .nodes shared ∧
      p.answer s shared.set = .ok (some kept) := by
  unfold byIndex at h
  split at h
  · exact ⟨_, _, _, rfl, rfl, h⟩
  · cases h

/-- **What a probe selects of a set** is a part of it, the nodes that hits qualify. -/
theorem answer_eq_some (hs : s.IsReliable) {p : IndexProbe} {set kept : NodeSet}
    (hset : ∀ n ∈ set, s.Has n) (h : p.answer s set = .ok (some kept)) :
    ∃ relation keep, p.relation = some relation ∧ kept = set.filter keep ∧
      ∀ n ∈ set, keep n = true ↔ ∃ m, relation.Relates n m ∧ s.Hits p.name p.op p.key m := by
  obtain ⟨cs, hcs⟩ := hs.indexed.exists_collections hset
  cases hrelation : p.relation with
  | none =>
    unfold IndexProbe.answer at h
    rw [hrelation] at h
    cases h
  | some relation =>
    cases hcovers : p.covers cs with
    | false => cases (IndexProbe.answer_eq_none hcs hcovers).symm.trans h
    | true =>
      obtain ⟨keep, hanswer, hkeep⟩ := IndexProbe.answer_eq_ok hs hrelation hcs hcovers
      exact ⟨relation, keep, rfl, (Option.some.inj (Except.ok.inj (hanswer.symm.trans h))).symm, hkeep⟩

/-- What is selected item by item has been selected at some position. -/
theorem selects_of_mem_selectItems {evaluate : Focus → Evaluation Sequence}
    (hreads : ∀ focus, σ.Reads (evaluate focus)) {persistent reverse : Bool} {items : List Item} :
    ∀ {position kept}, σ.outcome (selectItems evaluate persistent reverse position items) = .ok kept →
      ∀ item ∈ kept, item ∈ items ∧ ∃ v position,
        σ.outcome (evaluate (itemFocus persistent item)) = .ok v ∧ v.selects position = .ok true := by
  induction items with
  | nil =>
    intro position kept h item hitem
    obtain rfl : [] = kept := Except.ok.inj h
    cases hitem
  | cons first rest ih =>
    intro position kept h item hitem
    rw [outcome_selectItems_cons hreads] at h
    obtain ⟨v, hv, h⟩ := bind_eq_ok.1 h
    obtain ⟨b, hb, h⟩ := bind_eq_ok.1 h
    obtain ⟨later, hlater, h⟩ := bind_eq_ok.1 h
    obtain rfl := Except.ok.inj h
    have hrest : item ∈ later → item ∈ first :: rest ∧ ∃ v position,
        σ.outcome (evaluate (itemFocus persistent item)) = .ok v ∧ v.selects position = .ok true :=
      fun hitem => ⟨List.mem_cons_of_mem _ (ih hlater item hitem).1, (ih hlater item hitem).2⟩
    cases b with
    | false => exact hrest hitem
    | true =>
      rcases List.mem_cons.1 hitem with rfl | hitem
      · exact ⟨List.mem_cons_self, v, position, hv, hb⟩
      · exact hrest hitem

theorem mem_toItems_withItems {like : Sequence} {kept : List Item} {item : Item}
    (h : item ∈ (withItems like kept).toItems) : item ∈ kept := by
  cases like with
  | items list => exact h
  | nodes shared =>
    rw [withItems_nodes] at h
    obtain ⟨n, hn, rfl⟩ := List.mem_map.1 h
    exact mem_filterMap_node?.1 (NodeSet.mem_ofList.1 hn)

/-- **What a predicate leaves, it accepts.** -/
theorem accepts_of_applyPredicate (hs : s.IsReliable) {e : Expr} (hfree : e.IsPragmaFree)
    {mode : PredicateMode} {reverse : Bool} {v w : Sequence}
    (hv : ∀ n, .node n ∈ v.toItems → s.Has n)
    (h : σ.outcome (applyPredicate s mode e.probe? (e.evaluate s) reverse v) = .ok w) :
    ∀ item ∈ w.toItems, item ∈ v.toItems ∧ e.Accepts s σ item := by
  have hreads : ∀ focus, σ.Reads (e.evaluate s focus) := reads_evaluate hfree
  rw [outcome_applyPredicate hreads] at h
  obtain ⟨answer, hanswer, h⟩ := bind_eq_ok.1 h
  intro item hitem
  cases answer with
  | some kept =>
    obtain rfl : Sequence.ofSet kept = w := Except.ok.inj h
    obtain ⟨n, hn, rfl⟩ := List.mem_map.1 hitem
    obtain ⟨id, probe, shared, hprobe, rfl, hselected⟩ := byIndex_eq_some hanswer
    obtain ⟨relation, keep, hrelation, rfl, hkeep⟩ := answer_eq_some hs
      (fun n hn => hv n (List.mem_map_of_mem hn)) hselected
    obtain ⟨hmem, htrue⟩ := NodeSet.mem_filter.1 hn
    obtain ⟨m, hrelates, hhits⟩ := (hkeep n hmem).1 htrue
    exact ⟨List.mem_map_of_mem hmem, .byIndex hprobe hrelation hrelates hhits⟩
  | none =>
    rw [outcome_applyByItem hreads] at h
    obtain ⟨kept, hkept, rfl⟩ := map_eq_ok.1 h
    obtain ⟨hmem, value, position, hvalue, hselects⟩ :=
      selects_of_mem_selectItems hreads hkept item (mem_toItems_withItems hitem)
    exact ⟨hmem, .byItem hvalue hselects⟩

/-- **What predicates leave, each of them accepts.** -/
theorem accepts_of_applyPredicates (hs : s.IsReliable) {ps : List Predicate} {reverse : Bool} :
    ∀ {v w : Sequence}, (∀ p ∈ ps, p.expr.IsPragmaFree) →
      (∀ n, .node n ∈ v.toItems → s.Has n) →
        σ.outcome (applyPredicates s ps reverse v) = .ok w →
          ∀ item ∈ w.toItems, item ∈ v.toItems ∧ ∀ p ∈ ps, p.expr.Accepts s σ item := by
  induction ps with
  | nil =>
    intro v w _ _ h item hitem
    rw [outcome_applyPredicates_nil] at h
    exact ⟨Except.ok.inj h ▸ hitem, fun p hp => absurd hp List.not_mem_nil⟩
  | cons p rest ih =>
    intro v w hfree hv h item hitem
    rw [outcome_applyPredicates_cons hfree] at h
    obtain ⟨first, hfirst, h⟩ := bind_eq_ok.1 h
    have haccepts := accepts_of_applyPredicate hs (hfree p List.mem_cons_self) hv hfirst
    obtain ⟨hmem, hrest⟩ := ih (fun p hp => hfree p (List.mem_cons_of_mem _ hp))
      (fun n hn => hv n (haccepts _ hn).1) h item hitem
    exact ⟨(haccepts item hmem).1, List.forall_mem_cons.2 ⟨(haccepts item hmem).2, hrest⟩⟩

/-! ### Steps -/

end Expr

namespace Setting

variable {head : StepHead} {applyAll : Sequence → Except QueryError Sequence} {persistent : Bool}
  {nodes : List Node}

/-- What a step leads to from one node of its context. -/
def forNode (σ : Setting) (s : Store) (head : StepHead)
    (applyAll : Sequence → Except QueryError Sequence) (persistent : Bool) (n : Node) :
    Except QueryError NodeSet := do
  let selected ← σ.outcome (selectAxis s head (.ofList [n] persistent))
  let kept ← applyAll (.ofSet selected)
  let kept ← kept.toShared
  pure kept.set

theorem forNode_eq_ok {n : Node} {own : NodeSet} :
    σ.forNode s head applyAll persistent n = .ok own ↔ ∃ selected kept shared,
      σ.outcome (selectAxis s head (.ofList [n] persistent)) = .ok selected ∧
        applyAll (.ofSet selected) = .ok kept ∧ kept.toShared = .ok shared ∧ shared.set = own := by
  unfold forNode
  simp only [bind_eq_ok]
  constructor
  · rintro ⟨selected, hselected, kept, hkept, shared, hshared, hown⟩
    exact ⟨selected, kept, shared, hselected, hkept, hshared, Except.ok.inj hown⟩
  · rintro ⟨selected, kept, shared, hselected, hkept, hshared, rfl⟩
    exact ⟨selected, hselected, kept, hkept, shared, hshared, rfl⟩

theorem byNode_eq_foldlM :
    σ.byNode s head applyAll persistent nodes = nodes.foldlM
      (fun result n => (σ.forNode s head applyAll persistent n).map result.union) .empty := by
  unfold byNode
  refine congrArg (fun f => List.foldlM f NodeSet.empty nodes) ?_
  funext result n
  unfold forNode
  cases σ.outcome (selectAxis s head (.ofList [n] persistent)) with
  | error cause => rfl
  | ok selected =>
    rw [ok_bind, ok_bind]
    cases applyAll (.ofSet selected) with
    | error cause => rfl
    | ok kept =>
      rw [ok_bind, ok_bind]
      cases kept.toShared <;> rfl

/-- **A step counting positions leads where it leads from its context nodes** one by one. -/
theorem mem_byNode {found : NodeSet}
    (h : σ.byNode s head applyAll persistent nodes = .ok found) :
    (∀ n ∈ nodes, ∃ own, σ.forNode s head applyAll persistent n = .ok own) ∧
      ∀ m, m ∈ found ↔ ∃ n ∈ nodes, ∃ own,
        σ.forNode s head applyAll persistent n = .ok own ∧ m ∈ own := by
  have hfold : ∀ (nodes : List Node) (start found : NodeSet),
      nodes.foldlM (fun result n => (σ.forNode s head applyAll persistent n).map result.union)
        start = .ok found →
      (∀ n ∈ nodes, ∃ own, σ.forNode s head applyAll persistent n = .ok own) ∧
        ∀ m, m ∈ found ↔ m ∈ start ∨ ∃ n ∈ nodes, ∃ own,
          σ.forNode s head applyAll persistent n = .ok own ∧ m ∈ own := by
    intro nodes
    induction nodes with
    | nil =>
      intro start found h
      obtain rfl := Except.ok.inj h
      exact ⟨fun n hn => absurd hn List.not_mem_nil, fun m => by simp⟩
    | cons n rest ih =>
      intro start found h
      rw [List.foldlM_cons] at h
      obtain ⟨next, hnext, h⟩ := bind_eq_ok.1 h
      obtain ⟨own, hown, rfl⟩ := map_eq_ok.1 hnext
      obtain ⟨hall, hmem⟩ := ih _ _ h
      refine ⟨List.forall_mem_cons.2 ⟨⟨own, hown⟩, hall⟩, fun m => ?_⟩
      simp only [hmem, NodeSet.mem_union, or_assoc, List.mem_cons, exists_eq_or_imp, hown,
        Except.ok.injEq, exists_eq_left']
  rw [byNode_eq_foldlM] at h
  obtain ⟨hall, hmem⟩ := hfold nodes .empty found h
  exact ⟨hall, fun m => (hmem m).trans (or_iff_right NodeSet.not_mem_empty)⟩

end Setting

theorem Sequence.mem_toItems_of_toShared {v : Sequence} {shared : SharedSet}
    (h : v.toShared = .ok shared) {m : Node} (hm : m ∈ shared.set) : .node m ∈ v.toItems := by
  cases v with
  | nodes own =>
    obtain rfl : own = shared := Except.ok.inj h
    exact List.mem_map_of_mem hm
  | items list =>
    obtain ⟨nodes, hnodes, hset⟩ := bind_eq_ok.1 h
    obtain rfl : (⟨.ofList nodes false, none⟩ : SharedSet) = shared := Except.ok.inj hset
    obtain ⟨item, hitem, hnode⟩ := (mem_of_mapM hnodes).1 (NodeSet.mem_ofList.1 hm)
    obtain rfl := nodeOf_eq_ok.1 hnode
    exact hitem

namespace Expr

/-- **A node that a step has selected:** one that its axis leads to, that passes its test and that
each of its predicates accepts. -/
structure SelectedBy (s : Store) (σ : Setting) (head : StepHead) (ps : List Predicate)
    (context : NodeSet) (m : Node) : Prop where
  has : s.Has m
  along : ∃ n ∈ context, ∃ l, s.along head.axis n = .ok l ∧ m ∈ l
  passes : s.Passes head.axis head.test m
  accepted : ∀ p ∈ ps, p.expr.Accepts s σ (.node m)

theorem SelectedBy.mono {head : StepHead} {ps : List Predicate} {context context' : NodeSet} {m : Node}
    (h : SelectedBy s σ head ps context m) (hsub : ∀ n ∈ context, n ∈ context') :
    SelectedBy s σ head ps context' m :=
  let ⟨n, hn, hled⟩ := h.along
  ⟨h.has, ⟨n, hsub n hn, hled⟩, h.passes, h.accepted⟩

theorem exists_along_of_navigate {axis : Axis} {test : NodeTest} {context found : NodeSet}
    (h : s.navigate axis test context = .ok found) {m : Node} (hm : m ∈ found) :
    ∃ n ∈ context, ∃ l, s.along axis n = .ok l ∧ m ∈ l := by
  obtain ⟨all, hall, hset⟩ := bind_eq_ok.1 h
  obtain rfl : s.persistent all.flatten = found := Except.ok.inj hset
  obtain ⟨n, hn, kept, hkept, hmem⟩ := mem_flatten_of_mapM hall (NodeSet.mem_ofList.1 hm)
  obtain ⟨l, hl, hkept⟩ := bind_eq_ok.1 hkept
  exact ⟨n, hn, l, hl, (mem_of_filterPassing hkept hmem).1⟩

variable {head : StepHead} {ps : List Predicate}

theorem selectedBy_of_applyPredicates (hs : s.IsReliable) (hσ : σ.IsBare)
    (hfree : ∀ p ∈ ps, p.expr.IsPragmaFree) {context selected : NodeSet}
    (hcontext : ∀ n ∈ context, s.Has n)
    (hselected : σ.outcome (selectAxis s head context) = .ok selected) {reverse : Bool}
    {v : Sequence} (hv : σ.outcome (applyPredicates s ps reverse (.ofSet selected)) = .ok v) :
    ∀ item ∈ v.toItems, ∃ m, item = .node m ∧ SelectedBy s σ head ps context m := by
  have hin := isIn_of_selectAxis hσ hs.answering hcontext hselected
  rw [outcome_selectAxis_eq_navigate hσ hs.answering head hcontext, mapError_eq_ok] at hselected
  intro item hitem
  obtain ⟨hmem, haccepted⟩ := accepts_of_applyPredicates hs hfree
    (fun n hn => Sequence.IsIn.has (v := .ofSet selected) hin.1 hn) hv item hitem
  obtain ⟨m, hm, rfl⟩ := List.mem_map.1 hmem
  exact ⟨m, rfl, hin.1.2 m hm, exists_along_of_navigate hselected hm, hin.2 m hm, haccepted⟩

/-- **Every item of the value of a step is a node that the step has selected.** -/
theorem selectedBy_of_outcome (hs : s.IsReliable) (hσ : σ.IsBare)
    (hfree : (step head ps).IsPragmaFree) {focus : Focus} {context : SharedSet}
    (hcontext : contextSet s focus = .ok context) (hhas : ∀ n ∈ context.set, s.Has n)
    {v : Sequence} (hv : σ.outcome ((step head ps).evaluate s focus) = .ok v) :
    ∀ item ∈ v.toItems, ∃ m, item = .node m ∧ SelectedBy s σ head ps context.set m := by
  have hpreds := isPragmaFree_step.1 hfree
  rw [outcome_step hfree, hcontext, ok_bind] at hv
  split_ifs at hv
  · obtain ⟨found, hfound, hv⟩ := bind_eq_ok.1 hv
    obtain rfl := Except.ok.inj hv
    intro item hitem
    obtain ⟨m, hm, rfl⟩ := List.mem_map.1 hitem
    obtain ⟨n, hn, own, hown, hm⟩ := ((mem_byNode hfound).2 m).1 hm
    obtain ⟨selected, kept, shared, hselected, hkept, hshared, rfl⟩ := forNode_eq_ok.1 hown
    have hsingle : ∀ x ∈ NodeSet.ofList [n] context.set.persistent, x ∈ context.set := fun x hx =>
      List.mem_singleton.1 (NodeSet.mem_ofList.1 hx) ▸ hn
    obtain ⟨_, heq, hselected⟩ := selectedBy_of_applyPredicates hs hσ hpreds
      (fun x hx => hhas x (hsingle x hx)) hselected hkept (.node m)
        (Sequence.mem_toItems_of_toShared hshared hm)
    obtain rfl := Item.node.inj heq
    exact ⟨m, rfl, hselected.mono hsingle⟩
  · obtain ⟨selected, hselected, hv⟩ := bind_eq_ok.1 hv
    exact selectedBy_of_applyPredicates hs hσ hpreds hhas hselected hv

/-! ### Expressions that stay in an extent -/

mutual

/-- **Whether an expression leads only to nodes** that are within an extent of those it starts
from. -/
def staysIn (extent : Extent) : Expr → Bool
  | path _ steps => allStayIn extent steps
  | step head _ => extent.admits head.axis
  | root => extent == .document
  | filter _ base _ => base.staysIn extent
  | sequence items => allStayIn extent items
  | _ => false

/-- Whether all of the expressions do. -/
def allStayIn (extent : Extent) : List Expr → Bool
  | [] => true
  | e :: rest => e.staysIn extent && allStayIn extent rest

end

theorem allStayIn_iff {extent : Extent} {es : List Expr} :
    allStayIn extent es = true ↔ ∀ e ∈ es, e.staysIn extent = true := by
  induction es with
  | nil => simp [allStayIn]
  | cons e rest ih => rw [allStayIn, Bool.and_eq_true, ih, List.forall_mem_cons]

end Expr

/-- **A sequence lies within an extent of some nodes:** it consists of nodes of the store, each
within the extent of one of them. -/
def Sequence.LiesIn (v : Sequence) (s : Store) (extent : Extent) (set : NodeSet) : Prop :=
  ∀ item ∈ v.toItems, ∃ m, item = .node m ∧ s.Has m ∧ ∃ n ∈ set, extent.Spans n m

namespace Sequence

variable {extent : Extent} {set : NodeSet} {v : Sequence}

theorem isEmpty_iff_toItems : v.isEmpty = true ↔ v.toItems = [] := by
  have hsize : v.size = v.toItems.length := by
    cases v with
    | nodes shared => exact (List.length_map Item.node).symm
    | items list => rfl
  unfold Sequence.isEmpty
  rw [hsize, beq_iff_eq, List.length_eq_zero_iff]

theorem liesIn_of_isEmpty (h : v.isEmpty = true) : v.LiesIn s extent set := by
  intro item hitem
  rw [isEmpty_iff_toItems.1 h] at hitem
  cases hitem

/-- The nodes of a value are nodes of the store. -/
theorem LiesIn.has (h : v.LiesIn s extent set) {m : Node} (hm : .node m ∈ v.toItems) :
    s.Has m ∧ ∃ n ∈ set, extent.Spans n m := by
  obtain ⟨_, heq, hm⟩ := h _ hm
  exact Item.node.inj heq ▸ hm

/-- **From one extent to the next.** -/
theorem LiesIn.trans {v' : Sequence} (h : v.LiesIn s extent set) {shared : SharedSet}
    (hshared : v.toShared = .ok shared) (h' : v'.LiesIn s extent shared.set) :
    v'.LiesIn s extent set := by
  intro item hitem
  obtain ⟨m, rfl, hm, x, hx, hspans⟩ := h' item hitem
  obtain ⟨_, n, hn, hspans'⟩ := h.has (mem_toItems_of_toShared hshared hx)
  exact ⟨m, rfl, hm, n, hn, hspans'.trans hspans⟩

theorem mem_toItems_append {a b : Sequence} {item : Item} (h : item ∈ (a.append b).toItems) :
    item ∈ a.toItems ∨ item ∈ b.toItems := by
  unfold append at h
  split_ifs at h
  · exact .inr h
  · exact .inl h
  · exact List.mem_append.1 h

theorem mem_toItems_foldl_append {values : List Sequence} {item : Item} :
    ∀ {v : Sequence}, item ∈ (values.foldl append v).toItems →
      item ∈ v.toItems ∨ ∃ w ∈ values, item ∈ w.toItems := by
  induction values with
  | nil => exact fun h => .inl h
  | cons w rest ih =>
    intro v h
    rcases ih h with h | ⟨w', hw', h⟩
    · rcases mem_toItems_append h with h | h
      · exact .inl h
      · exact .inr ⟨w, List.mem_cons_self, h⟩
    · exact .inr ⟨w', List.mem_cons_of_mem _ hw', h⟩

end Sequence

namespace Expr

variable {extent : Extent} {head : StepHead} {ps : List Predicate}

/-- The values of an expression lie within an extent of its context nodes. -/
def LeadsWithin (s : Store) (σ : Setting) (extent : Extent) (e : Expr) : Prop :=
  ∀ focus context v, contextSet s focus = .ok context → (∀ n ∈ context.set, s.Has n) →
    σ.outcome (e.evaluate s focus) = .ok v → v.LiesIn s extent context.set

theorem leadsWithin_step (hs : s.IsReliable) (hσ : σ.IsBare) (hfree : (step head ps).IsPragmaFree)
    (h : extent.admits head.axis = true) : (step head ps).LeadsWithin s σ extent := by
  intro focus context v hcontext hhas hv item hitem
  obtain ⟨m, rfl, hselected⟩ := selectedBy_of_outcome hs hσ hfree hcontext hhas hv item hitem
  obtain ⟨n, hn, l, hl, hm⟩ := hselected.along
  exact ⟨m, rfl, hselected.has, n, hn, Extent.spans_of_along hs.indexed h (hhas n hn) hl hm⟩

theorem leadsWithin_root (hs : s.IsReliable) : root.LeadsWithin s σ .document := by
  intro focus context v hcontext hhas hv item hitem
  rw [outcome_root, hcontext, ok_bind] at hv
  obtain rfl := Except.ok.inj hv
  obtain ⟨m, hm, rfl⟩ := List.mem_map.1 hitem
  obtain ⟨n, hn, rfl⟩ := List.mem_map.1 (NodeSet.mem_ofList.1 hm)
  exact ⟨_, rfl, hs.indexed.has_document (hhas n hn), n, hn, rfl⟩

/-- **Further steps stay in an extent** when each of them does. -/
theorem liesIn_of_evaluateSteps {es : List Expr} (hfree : ∀ e ∈ es, e.IsPragmaFree)
    (hes : ∀ e ∈ es, e.LeadsWithin s σ extent) {set : NodeSet} :
    ∀ {v w : Sequence}, v.LiesIn s extent set → σ.outcome (evaluateSteps s es v) = .ok w →
      w.LiesIn s extent set := by
  induction es with
  | nil =>
    intro v w hv hw
    rw [outcome_evaluateSteps_nil] at hw
    exact Except.ok.inj hw ▸ hv
  | cons e rest ih =>
    intro v w hv hw
    rw [outcome_evaluateSteps_cons hfree] at hw
    split_ifs at hw
    · exact Except.ok.inj hw ▸ Sequence.liesIn_of_isEmpty rfl
    · obtain ⟨shared, hshared, hw⟩ := bind_eq_ok.1 hw
      obtain ⟨next, hnext, hw⟩ := bind_eq_ok.1 hw
      have hstep := hes e List.mem_cons_self (.on (.nodes shared)) shared next rfl
        (fun n hn => (hv.has (Sequence.mem_toItems_of_toShared hshared hn)).1) hnext
      exact ih (fun e he => hfree e (List.mem_cons_of_mem _ he))
        (fun e he => hes e (List.mem_cons_of_mem _ he)) (hv.trans hshared hstep) hw

theorem liesIn_of_evaluateAll {es : List Expr} (hfree : ∀ e ∈ es, e.IsPragmaFree)
    (hes : ∀ e ∈ es, e.LeadsWithin s σ extent) {focus : Focus} {context : SharedSet}
    (hcontext : contextSet s focus = .ok context) (hhas : ∀ n ∈ context.set, s.Has n) :
    ∀ {values : List Sequence}, σ.outcome (evaluateAll s es focus) = .ok values →
      ∀ v ∈ values, v.LiesIn s extent context.set := by
  induction es with
  | nil =>
    intro values h v hv
    rw [outcome_evaluateAll_nil] at h
    obtain rfl := Except.ok.inj h
    cases hv
  | cons e rest ih =>
    intro values h v hv
    rw [outcome_evaluateAll_cons hfree] at h
    obtain ⟨first, hfirst, h⟩ := bind_eq_ok.1 h
    obtain ⟨later, hlater, h⟩ := bind_eq_ok.1 h
    obtain rfl := Except.ok.inj h
    rcases List.mem_cons.1 hv with rfl | hv
    · exact hes e List.mem_cons_self focus context v hcontext hhas hfirst
    · exact ih (fun e he => hfree e (List.mem_cons_of_mem _ he))
        (fun e he => hes e (List.mem_cons_of_mem _ he)) hlater v hv

/-- **Expressions that stay in an extent lead to nodes within it.** -/
theorem leadsWithin_of_staysIn (hs : s.IsReliable) (hσ : σ.IsBare) (e : Expr) :
    e.staysIn extent = true → e.IsPragmaFree → e.LeadsWithin s σ extent := by
  induction e using Expr.induct with
  | path id steps ih =>
    intro h hfree
    have hsteps : ∀ e ∈ steps, e.IsPragmaFree ∧ e.LeadsWithin s σ extent := fun e he =>
      ⟨hfree.mono (parts_subset_path he),
        ih e he (allStayIn_iff.1 h e he) (hfree.mono (parts_subset_path he))⟩
    intro focus context v hcontext hhas hv
    cases steps with
    | nil =>
      rw [outcome_path_nil] at hv
      exact Except.ok.inj hv ▸ Sequence.liesIn_of_isEmpty rfl
    | cons first rest =>
      rw [outcome_path_cons hfree] at hv
      obtain ⟨next, hnext, hv⟩ := bind_eq_ok.1 hv
      exact liesIn_of_evaluateSteps (fun e he => (hsteps e (List.mem_cons_of_mem _ he)).1)
        (fun e he => (hsteps e (List.mem_cons_of_mem _ he)).2)
        ((hsteps first List.mem_cons_self).2 focus context next hcontext hhas hnext) hv
  | step head ps =>
    exact fun h hfree => leadsWithin_step hs hσ hfree h
  | root =>
    intro h _
    obtain rfl : extent = .document := beq_iff_eq.1 h
    exact leadsWithin_root hs
  | filter id base ps hbase _ =>
    intro h hfree focus context v hcontext hhas hv
    rw [outcome_filter hfree] at hv
    obtain ⟨value, hvalue, hv⟩ := bind_eq_ok.1 hv
    have hlies := hbase h (isPragmaFree_filter.1 hfree).1 focus context value hcontext hhas hvalue
    exact fun item hitem => hlies item (accepts_of_applyPredicates hs (isPragmaFree_filter.1 hfree).2
      (fun n hn => (hlies.has hn).1) hv item hitem).1
  | sequence items ih =>
    intro h hfree focus context v hcontext hhas hv
    have hitems : ∀ e ∈ items, e.IsPragmaFree := fun e he => hfree.mono (parts_subset_sequence he)
    rw [outcome_sequence hfree] at hv
    obtain ⟨values, hvalues, hv⟩ := bind_eq_ok.1 hv
    obtain rfl := Except.ok.inj hv
    intro item hitem
    rcases Sequence.mem_toItems_foldl_append hitem with hitem | ⟨w, hw, hitem⟩
    · cases hitem
    · exact liesIn_of_evaluateAll hitems
        (fun e he => ih e he (allStayIn_iff.1 h e he) (hitems e he)) hcontext hhas hvalues w hw item
          hitem
  | _ =>
    intro h
    cases h

end Expr
end IndexedXml
