/-
# Steps after a double slash

A double slash stands for a step to the node and its descendants.  In front of a step to children
or to attributes whose predicates do not select by position it is not compiled to a step of its own:
the step goes to descendants, or to their attributes, directly.

Below a node stands just what is a child of the node or of something below it, since what is above
a node of a store is no attribute (`Store.IsIndexed.exists_leads_iff`).  So both ways find one set,
through the tree, through the name index and among prepared candidates, and the predicates have the
same outcome for it, although they have been analyzed for steps along different axes
(`Expr.evaluate_lowerStep`).

They part where nothing is looked for.  After an empty value a path does not evaluate its next
step, and so the pair answers without a lookup where the single step makes one, which fails while
lookups are switched off.
-/

import IndexedXml.Proofs.Query.Division
import IndexedXml.Proofs.Query.NarrowedContext
import IndexedXml.Proofs.Query.Reach
import IndexedXml.Proofs.Query.Traversal
import IndexedXml.Proofs.Query.Turning
import IndexedXml.Proofs.Query.UseChecks

namespace IndexedXml

open Evaluation

variable {s : Store} {axis wide : Axis}

/-- **The axes that a double slash is turned with.** -/
theorem Axis.throughDescendants?_eq_some :
    axis.throughDescendants? false = some wide ↔
      axis = .child ∧ wide = .descendant ∨ axis = .attr ∧ wide = .descendantAttr := by
  cases axis <;> simp [throughDescendants?, eq_comm]

/-! ### Where the axes lead -/

namespace Store

/-- **What is below a node has its parent there or at the node itself,** and no attribute is a
parent. -/
theorem IsIndexed.below_iff_parent (h : s.IsIndexed) {n m : Node} (hm : s.Has m) :
    m.isDescendantOf n = true ↔ ∃ k, s.Leads .descendantOrSelf n k ∧ m.isChildOf k = true := by
  constructor
  · intro hbelow
    rcases h.exists_parent hm with hdoc | ⟨p, hp, hcontent⟩
    · have hlevel := Node.level_lt_of_isDescendantOf hbelow
      rw [Node.level, Node.level, hdoc] at hlevel
      exact absurd hlevel (by simp [NodeId.level, NodeId.document])
    · rcases Node.within_of_isChildOf_of_isDescendantOf hp hbelow with rfl | hwithin
      · exact ⟨_, .inl rfl, hp⟩
      · exact ⟨p, .inr ⟨hwithin, hcontent⟩, hp⟩
  · rintro ⟨k, rfl | ⟨hwithin, -⟩, hchild⟩
    · exact Node.isDescendantOf_of_isChildOf hchild
    · exact Node.isDescendantOf_trans (Node.isDescendantOf_of_isChildOf hchild) hwithin

/-- **The axis to descendants leads where the one to children does** from the node and its
descendants, and the one to their attributes where the one to attributes does. -/
theorem IsIndexed.exists_leads_iff (h : s.IsIndexed)
    (hthrough : axis.throughDescendants? false = some wide) {n m : Node} :
    s.Leads wide n m ↔ ∃ k, s.Leads .descendantOrSelf n k ∧ s.Leads axis k m := by
  have hkind : ∀ {kind : Prop}, (kind → s.Has m) → (m.isDescendantOf n = true ∧ kind ↔
      ∃ k, s.Leads .descendantOrSelf n k ∧ m.isChildOf k = true ∧ kind) := by
    intro kind hhas
    constructor
    · rintro ⟨hbelow, hm⟩
      obtain ⟨k, hk, hchild⟩ := (h.below_iff_parent (hhas hm)).1 hbelow
      exact ⟨k, hk, hchild, hm⟩
    · rintro ⟨k, hk, hchild, hm⟩
      exact ⟨(h.below_iff_parent (hhas hm)).2 ⟨k, hk, hchild⟩, hm⟩
  rcases Axis.throughDescendants?_eq_some.1 hthrough with ⟨rfl, rfl⟩ | ⟨rfl, rfl⟩
  · exact hkind fun hm => hm.1
  · exact hkind fun hm => hm.has

/-- The step in between finds the nodes and all that is below them. -/
theorem IsIndexed.navigate_descendantOrSelf (h : s.IsIndexed) {context : NodeSet}
    (hcontext : ∀ n ∈ context, s.Has n) :
    ∃ lead, s.navigate .descendantOrSelf .anyNode context = .ok lead ∧ (∀ n ∈ lead, s.Has n) ∧
      ∀ m, m ∈ lead ↔ ∃ n ∈ context, s.Leads .descendantOrSelf n m := by
  have hstraight : Axis.descendantOrSelf.isStraight = true := rfl
  obtain ⟨found, hfound, hmem⟩ := h.navigate_eq_ok hstraight .anyNode hcontext
  have hlead : ∀ m, m ∈ s.persistent found ↔ ∃ n ∈ context, s.Leads .descendantOrSelf n m :=
    fun m => NodeSet.mem_ofList.trans ((hmem m).trans
      (exists_congr fun n => and_congr_right fun _ => and_iff_left rfl))
  refine ⟨_, hfound, fun m hm => ?_, hlead⟩
  obtain ⟨n, hn, hleads⟩ := (hlead m).1 hm
  exact h.has_of_leads (hcontext n hn) hleads

variable {context lead : NodeSet}

/-- **Navigation goes through the step in between or not alike.** -/
theorem IsIndexed.navigate_through (h : s.IsIndexed)
    (hthrough : axis.throughDescendants? false = some wide) (test : NodeTest)
    (hcontext : ∀ n ∈ context, s.Has n) (hhas : ∀ n ∈ lead, s.Has n)
    (hlead : ∀ m, m ∈ lead ↔ ∃ n ∈ context, s.Leads .descendantOrSelf n m) :
    s.navigate wide test context = s.navigate axis test lead := by
  have hstraight : axis.isStraight = true ∧ wide.isStraight = true := by
    rcases Axis.throughDescendants?_eq_some.1 hthrough with ⟨rfl, rfl⟩ | ⟨rfl, rfl⟩ <;>
      exact ⟨rfl, rfl⟩
  have hpasses : s.Passes wide test = s.Passes axis test := by
    rcases Axis.throughDescendants?_eq_some.1 hthrough with ⟨rfl, rfl⟩ | ⟨rfl, rfl⟩ <;> rfl
  obtain ⟨direct, hdirect, hmem⟩ := h.navigate_eq_ok hstraight.2 test hcontext
  obtain ⟨found, hfound, hmem'⟩ := h.navigate_eq_ok hstraight.1 test hhas
  rw [hdirect, hfound]
  refine congrArg Except.ok (NodeSet.ofList_congr true fun m => ?_)
  rw [hmem, hmem', hpasses]
  constructor
  · rintro ⟨n, hn, hleads, hm⟩
    obtain ⟨k, hk, hkm⟩ := (h.exists_leads_iff hthrough).1 hleads
    exact ⟨k, (hlead k).2 ⟨n, hn, hk⟩, hkm, hm⟩
  · rintro ⟨k, hk, hkm, hm⟩
    obtain ⟨n, hn, hnk⟩ := (hlead k).1 hk
    exact ⟨n, hn, (h.exists_leads_iff hthrough).2 ⟨k, hnk, hkm⟩, hm⟩

/-- **The name index is asked through the step in between or not alike.** -/
theorem IsIndexed.findDescendants_through (h : s.IsIndexed)
    (hthrough : axis.throughDescendants? false = some wide) (q : QName)
    (hcontext : ∀ n ∈ context, s.Has n) (hhas : ∀ n ∈ lead, s.Has n)
    (hlead : ∀ m, m ∈ lead ↔ ∃ n ∈ context, s.Leads .descendantOrSelf n m) :
    s.findDescendants ⟨axis.nameType, q⟩ wide context.documents context =
      s.findDescendants ⟨axis.nameType, q⟩ axis lead.documents lead := by
  have hdownward : isDownward axis = true ∧ isDownward wide = true ∧
      wide.nameType = axis.nameType := by
    rcases Axis.throughDescendants?_eq_some.1 hthrough with ⟨rfl, rfl⟩ | ⟨rfl, rfl⟩ <;>
      exact ⟨rfl, rfl, rfl⟩
  have hdocs : ∀ {set : NodeSet}, ∀ n ∈ set, set.documents.contains n.doc = true := fun n hn =>
    List.elem_iff.2 (NodeSet.mem_documents.2 ⟨n, hn, rfl⟩)
  cases hprobes : s.interrupted with
  | true => simp only [findDescendants, unlessInterrupted, hprobes, if_true]
  | false =>
    have hdirect := h.findDescendants_eq_navigate hprobes hdownward.2.1 q hcontext hdocs
    rw [hdownward.2.2] at hdirect
    rw [hdirect, h.findDescendants_eq_navigate hprobes hdownward.1 q hhas hdocs]
    exact h.navigate_through hthrough (.name q) hcontext hhas hlead

/-- **Prepared candidates are related through the step in between or not alike.** -/
theorem IsIndexed.relatePrepared?_through (h : s.IsIndexed)
    (hthrough : axis.throughDescendants? false = some wide) {prepared : NodeSet}
    (hprepared : prepared.IsIn s)
    (hlead : ∀ m, m ∈ lead ↔ ∃ n ∈ context, s.Leads .descendantOrSelf n m) :
    relatePrepared? wide prepared context = relatePrepared? axis prepared lead := by
  have hselect : prepared.selectAncestorDescendant context .descendant false =
      prepared.selectParentChild lead .descendant := by
    refine (hprepared.1.filter _).ext (hprepared.1.filter _) rfl fun m => ?_
    refine NodeSet.mem_selectDescendant.trans (Iff.trans ?_ NodeSet.mem_selectChild.symm)
    refine and_congr_right fun hm => ?_
    constructor
    · rintro ⟨n, hn, hbelow⟩
      obtain ⟨k, hk, hchild⟩ := (h.below_iff_parent (hprepared.2 m hm)).1
        (hbelow.resolve_right fun hself => Bool.false_ne_true hself.1)
      exact ⟨k, (hlead k).2 ⟨n, hn, hk⟩, hchild⟩
    · rintro ⟨k, hk, hchild⟩
      obtain ⟨n, hn, hnk⟩ := (hlead k).1 hk
      exact ⟨n, hn, .inl ((h.below_iff_parent (hprepared.2 m hm)).2 ⟨k, hnk, hchild⟩)⟩
  rcases Axis.throughDescendants?_eq_some.1 hthrough with ⟨rfl, rfl⟩ | ⟨rfl, rfl⟩ <;>
    exact congrArg some hselect

end Store

/-! ### Steps -/

/-- The setting that a run is in. -/
def Run.setting (r : Run) : Setting := ⟨r.context.bindings, r.context.preloaded⟩

theorem Run.holds_setting {r r' : Run} (h : r.context = r'.context) : r.setting.Holds r' :=
  ⟨congrArg QueryContext.bindings h.symm,
    fun _ => congrArg (fun c : QueryContext => c.preloaded.get? _) h.symm⟩

namespace Evaluation

open Setting


variable {σ : Setting} {context lead : NodeSet} {head : StepHead} {r r' : Run}

theorem unprepared_through (h : s.IsIndexed)
    (hthrough : head.axis.throughDescendants? false = some wide)
    (hcontext : ∀ n ∈ context, s.Has n) (hhas : ∀ n ∈ lead, s.Has n)
    (hlead : ∀ m, m ∈ lead ↔ ∃ n ∈ context, s.Leads .descendantOrSelf n m) :
    unprepared s { head with axis := wide } context = unprepared s head lead := by
  have hnavigate : s.navigate wide head.test context = s.navigate head.axis head.test lead :=
    h.navigate_through hthrough head.test hcontext hhas hlead
  have hname := fun q => h.findDescendants_through hthrough q hcontext hhas hlead
  rcases head with ⟨id, axis, test, treeTraversal⟩
  have hdownward : ∀ q, nameLookup? s ⟨id, wide, .name q, false⟩ context = some (.descendants,
        s.findDescendants ⟨axis.nameType, q⟩ wide context.documents context) ∧
      nameLookup? s ⟨id, axis, .name q, false⟩ lead = some (.descendants,
        s.findDescendants ⟨axis.nameType, q⟩ axis lead.documents lead) := by
    rcases Axis.throughDescendants?_eq_some.1 hthrough with ⟨rfl, rfl⟩ | ⟨rfl, rfl⟩ <;>
      exact fun _ => ⟨rfl, rfl⟩
  cases test with
  | name q =>
    cases treeTraversal with
    | true => exact hnavigate
    | false =>
      unfold unprepared
      rw [(hdownward q).1, (hdownward q).2]
      exact hname q
  | wildcard | anyNode | text => exact hnavigate

/-- **A step finds one set through the step in between or not,** wherever it takes it from. -/
theorem outcome_selectAxis_through (h : s.IsIndexed)
    (hthrough : head.axis.throughDescendants? false = some wide)
    (hprepared : ∀ set, σ.prepared.get? head.id = some set → set.IsIn s)
    (hcontext : ∀ n ∈ context, s.Has n) (hhas : ∀ n ∈ lead, s.Has n)
    (hlead : ∀ m, m ∈ lead ↔ ∃ n ∈ context, s.Leads .descendantOrSelf n m) :
    σ.outcome (selectAxis s { head with axis := wide } context) =
      σ.outcome (selectAxis s head lead) := by
  have hrelate : (σ.prepared.get? head.id).bind (relatePrepared? wide · context) =
      (σ.prepared.get? head.id).bind (relatePrepared? head.axis · lead) := by
    cases hset : σ.prepared.get? head.id with
    | none => rfl
    | some set => exact h.relatePrepared?_through hthrough (hprepared set hset) hlead
  rw [outcome_selectAxis, outcome_selectAxis, unprepared_through h hthrough hcontext hhas hlead]
  dsimp only
  rw [hrelate]

/-- With candidates, a step selects among these. -/
theorem result_selectAxis_of_prepared {set found : NodeSet}
    (hset : r.context.preloaded.get? head.id = some set)
    (hfound : relatePrepared? head.axis set context = some found) :
    (selectAxis s head context).result r = .ok found := by
  have hrelate : (r.setting.prepared.get? head.id).bind (relatePrepared? head.axis · context) =
      some found := by
    rw [Run.setting, hset, Option.bind_some, hfound]
  rw [(reads_selectAxis s _ _ r (Run.holds_setting rfl)).1, outcome_selectAxis, hrelate]

/-- Without candidates, a step looks for nodes. -/
theorem result_selectAxis_of_unprepared (hnone : r.context.preloaded.get? head.id = none) :
    (selectAxis s head context).result r = (unprepared s head context).mapError .store := by
  have hrelate : (r.setting.prepared.get? head.id).bind (relatePrepared? head.axis · context) =
      none := by
    rw [Run.setting, hnone, Option.bind_none]
  rw [(reads_selectAxis s _ _ r (Run.holds_setting rfl)).1, outcome_selectAxis, hrelate]

/-- A step changes nothing but the counts. -/
theorem context_after_selectAxis (s : Store) (head : StepHead) (context : NodeSet) (r : Run) :
    ((selectAxis s head context).after r).context = r.context := by
  have hlookup : ∀ (kind : LookupKind) (answer : Except StoreError NodeSet),
      ((lookup kind answer).after r).context = r.context := by
    intro kind answer
    cases answer <;> rfl
  have hcontext : queryContext.result r = .ok r.context := rfl
  rw [selectAxis, after_bind, hcontext]
  dsimp only
  split
  · rfl
  · unfold selectUnprepared
    split
    · exact hlookup _ _
    · rfl

end Evaluation

/-! ### Predicates -/

/-- The context in which what optimizers have found out is turned. -/
def QueryContext.turned (c : QueryContext) : QueryContext :=
  { c with optimizers := c.optimizers.mapValues (.refit .turned) }

namespace Expr

variable {r r' : Run}

/-- Predicates that are turned mirror the predicates. -/
theorem mirrors_applyPredicates (L : Ledger .turned) (s : Store) (ps : List Predicate)
    (asked : ExprId → Prop) (reverse : Bool) (value : Sequence) :
    Mirrors (Parallel .turned L (fun _ => True) asked) (Parallel .turned L (fun _ => True) asked)
      (fun _ => True) (applyPredicates s ps reverse value)
      (applyPredicates s (refitPredicates .turned ps) reverse value) := by
  refine related_applyPredicates (s := s) (a := s.interrupted) (b := s.interrupted)
    (Mirrors.chains (Parallel .turned L fun _ => True) fun _ => True) ?_ ?_ reverse value asked
  · exact fun p _ sequence _ => mirrors_applyByIndex s p.mode p.expr sequence
  · exact fun p _ focus asked =>
      p.expr.mirrors_evaluate L (.inl rfl) s (fun _ _ _ => trivial) asked focus

/-- **Predicates that are the same once turned have the same outcome** in one context. -/
theorem result_applyPredicates_turned {ps ps' : List Predicate}
    (hps : refitPredicates .turned ps = refitPredicates .turned ps')
    (hr : r.context = r'.context) (reverse : Bool) (value : Sequence) :
    (applyPredicates s ps reverse value).result r =
      (applyPredicates s ps' reverse value).result r' := by
  have hparallel : ∀ r : Run, Parallel .turned (.agreeing rfl) (fun _ => True) (fun _ => False)
      r.context r.context.turned := fun r =>
    ⟨rfl, fun _ _ => rfl, fun id => Table.get?_mapValues _ _ _, fun _ h => h.elim⟩
  have hmirrors := fun ps =>
    mirrors_applyPredicates (.agreeing rfl) s ps (fun _ => False) reverse value
  let turned : Run := ⟨r.context.turned, .zero⟩
  have hleft : (applyPredicates s ps reverse value).result r =
      (applyPredicates s (refitPredicates .turned ps) reverse value).result turned :=
    (hmirrors ps).result_eq (hparallel r)
  have hright : (applyPredicates s ps' reverse value).result r' =
      (applyPredicates s (refitPredicates .turned ps') reverse value).result turned :=
    (hmirrors ps').result_eq (hr ▸ hparallel r)
  rw [hleft, hright, hps]

/-- No index answers for an empty set. -/
theorem byIndex_empty (s : Store) (mode : PredicateMode) (probe : Option (ExprId × IndexProbe))
    (persistent : Bool) : Setting.byIndex s mode probe (.ofSet ⟨[], persistent⟩) = .ok none := by
  cases mode with
  | positional => rfl
  | boolean =>
    rcases probe with _ | ⟨id, p⟩
    · rfl
    · change p.answer s ⟨[], persistent⟩ = .ok none
      cases hrelation : p.relation with
      | none =>
        rw [IndexProbe.answer, hrelation]
      | some relation =>
        refine IndexProbe.answer_of_not_covers hrelation ?_
        have hnodes := p.coversAll_nodes s ⟨⟨[], persistent⟩, none⟩
        refine hnodes.trans (congrArg Except.ok ?_)
        exact Bool.eq_false_iff.2 fun h => (IndexProbe.covers_iff.1 h).1 rfl

/-- Predicates leave an empty set empty, whatever they ask. -/
theorem result_applyPredicates_empty (s : Store) (ps : List Predicate) (reverse persistent : Bool) :
    ∀ r, (applyPredicates s ps reverse (.ofSet ⟨[], persistent⟩)).result r =
      .ok (.ofSet ⟨[], persistent⟩) := by
  induction ps with
  | nil => exact fun _ => rfl
  | cons p rest ih =>
    intro r
    have hindex : (applyByIndex s p.mode p.expr.probe? (.ofSet ⟨[], persistent⟩)).result r =
        .ok none := by
      rw [(Setting.reads_applyByIndex s _ _ _ r (Run.holds_setting rfl)).1,
        Setting.outcome_applyByIndex, byIndex_empty]
    have hkept : (applyPredicate s p.mode p.expr.probe? (p.expr.evaluate s) reverse
        (.ofSet ⟨[], persistent⟩)).result r = .ok (.ofSet ⟨[], persistent⟩) := by
      rw [applyPredicate, result_bind, hindex]
      rfl
    rw [applyPredicates, result_bind, hkept]
    exact ih _

/-! ### Expressions -/

variable {head : StepHead} {ps ps' : List Predicate} {focus : Focus} {context : SharedSet}

/-- The outcome of a step whose predicates do not select by position. -/
theorem result_evaluate_step (hboolean : hasPositional ps = false)
    (hcontext : contextSet s focus = .ok context) (r : Run) :
    ((step head ps).evaluate s focus).result r =
      (selectAxis s head context.set).result r >>= fun selected =>
        (applyPredicates s ps false (.ofSet selected)).result
          ((selectAxis s head context.set).after r) := by
  rw [evaluate, evaluateStep, result_bind, result_orFail, hcontext, hboolean, ok_bind,
    if_neg Bool.false_ne_true, result_bind]
  rfl

/-- **A step has the same outcome through the step in between or not,** from contexts that are the
same. -/
theorem result_evaluate_through (h : s.IsIndexed)
    (hthrough : head.axis.throughDescendants? false = some wide)
    (hboolean : hasPositional ps = false) (hboolean' : hasPositional ps' = false)
    (hps : refitPredicates .turned ps = refitPredicates .turned ps') {lead : NodeSet}
    (hfocus : contextSet s focus = .ok context) (hcontext : ∀ n ∈ context.set, s.Has n)
    (hhas : ∀ n ∈ lead, s.Has n)
    (hlead : ∀ m, m ∈ lead ↔ ∃ n ∈ context.set, s.Leads .descendantOrSelf n m)
    (hprepared : ∀ set, r.context.preloaded.get? head.id = some set → set.IsIn s)
    (hr : r.context = r'.context) :
    ((step { head with axis := wide } ps).evaluate s focus).result r =
      ((step head ps').evaluate s (.on (.ofSet lead))).result r' := by
  have hon : contextSet s (.on (.ofSet lead)) = .ok ⟨lead, none⟩ := rfl
  have hselect : (selectAxis s { head with axis := wide } context.set).result r =
      (selectAxis s head lead).result r' := by
    rw [(Setting.reads_selectAxis s _ _ r (Run.holds_setting rfl)).1,
      (Setting.reads_selectAxis s _ _ r' (Run.holds_setting hr)).1,
      outcome_selectAxis_through h hthrough hprepared hcontext hhas hlead]
  rw [result_evaluate_step hboolean hfocus, result_evaluate_step hboolean' hon, hselect]
  refine bind_congr fun selected => result_applyPredicates_turned hps ?_ false _
  rw [context_after_selectAxis, context_after_selectAxis, hr]

theorem isEmpty_ofSet (set : NodeSet) : (Sequence.ofSet set).isEmpty = set.isEmpty := by
  rcases set with ⟨_ | ⟨n, rest⟩, persistent⟩ <;> rfl

/-- A step without predicates changes nothing but the counts. -/
theorem context_after_bare (s : Store) (head : StepHead) (focus : Focus) (r : Run) :
    (((step head []).evaluate s focus).after r).context = r.context := by
  rw [evaluate, evaluateStep, after_bind, result_orFail, after_orFail]
  cases contextSet s focus with
  | error e => rfl
  | ok context =>
    have hpure : ∀ v r, (applyPredicates s [] false v).after r = r := fun _ _ => rfl
    have hselect := context_after_selectAxis s head context.set r
    have hboolean : hasPositional [] = false := rfl
    dsimp only
    rw [hboolean, if_neg Bool.false_ne_true, after_bind]
    cases (selectAxis s head context.set).result r with
    | error e => exact hselect
    | ok selected =>
      dsimp only
      rw [hpure]
      exact hselect

/-- **The step in between is followed by the second one** unless there is nothing to start from. -/
theorem result_evaluate_pair (h : s.IsIndexed) {first : ExprId} (treeTraversal : Bool)
    (hfocus : contextSet s focus = .ok context) (hcontext : ∀ n ∈ context.set, s.Has n)
    (hfirst : r.context.preloaded.get? first = none) (second : Expr) :
    ∃ lead r', (∀ n ∈ lead, s.Has n) ∧
      (∀ m, m ∈ lead ↔ ∃ n ∈ context.set, s.Leads .descendantOrSelf n m) ∧
      r.context = r'.context ∧
      (evaluatePath s [step ⟨first, .descendantOrSelf, .anyNode, treeTraversal⟩ [], second]
        focus).result r =
          if lead.isEmpty then .ok .empty
          else (second.evaluate s (.on (.ofSet lead))).result r' := by
  obtain ⟨lead, hnavigate, hhas, hlead⟩ := h.navigate_descendantOrSelf hcontext
  let head : StepHead := ⟨first, .descendantOrSelf, .anyNode, treeTraversal⟩
  let r' := ((step head []).evaluate s focus).after r
  have hselect : (selectAxis s head context.set).result r = .ok lead := by
    have hunprepared : Setting.unprepared s head context.set = .ok lead := by
      rw [← hnavigate]
      cases treeTraversal <;> rfl
    rw [result_selectAxis_of_unprepared hfirst, hunprepared]
    rfl
  have hvalue : ((step head []).evaluate s focus).result r = .ok (.ofSet lead) := by
    rw [result_evaluate_step rfl hfocus, hselect]
    rfl
  refine ⟨lead, r', hhas, hlead, (context_after_bare s head focus r).symm, ?_⟩
  rw [evaluatePath, result_bind, hvalue, ok_bind, evaluateSteps, isEmpty_ofSet]
  split_ifs
  · rfl
  · have hshared : (Sequence.ofSet lead).toShared = .ok ⟨lead, none⟩ := rfl
    rw [result_bind, result_orFail, hshared, ok_bind, result_bind]
    exact bind_pure _

/-! ### Nothing to look for -/

/-- **A step cannot look up what it needs:** it asks the name index, no candidates are prepared for
it, and lookups are switched off. -/
structure CannotLookUp (s : Store) (head : StepHead) (r : Run) : Prop where
  interrupted : s.interrupted = true
  named : ∃ q, head.test = .name q
  indexed : head.treeTraversal = false
  unprepared : r.context.preloaded.get? head.id = none

/-- Among candidates nothing is found from no nodes. -/
theorem relatePrepared?_empty (hthrough : axis.throughDescendants? false = some wide)
    (prepared : NodeSet) (kind : Bool) :
    relatePrepared? wide prepared ⟨[], kind⟩ = some ⟨[], prepared.persistent⟩ := by
  have hselect : prepared.selectAncestorDescendant ⟨[], kind⟩ .descendant false =
      ⟨[], prepared.persistent⟩ := by
    simp [NodeSet.selectAncestorDescendant, NodeSet.filter, NodeSet.contains]
  rcases Axis.throughDescendants?_eq_some.1 hthrough with ⟨-, rfl⟩ | ⟨-, rfl⟩ <;>
    exact congrArg some hselect

/-- Without candidates a step finds nothing from no nodes: with a lookup if it asks the name index,
and else with none. -/
theorem unprepared_empty (hthrough : axis.throughDescendants? false = some wide) (id : ExprId)
    (test : NodeTest) (treeTraversal kind : Bool) :
    ((∃ q, test = .name q) ∧ treeTraversal = false →
      Setting.unprepared s ⟨id, wide, test, treeTraversal⟩ ⟨[], kind⟩ =
        s.unlessInterrupted (.ok ⟨[], true⟩)) ∧
    (¬ ((∃ q, test = .name q) ∧ treeTraversal = false) →
      Setting.unprepared s ⟨id, wide, test, treeTraversal⟩ ⟨[], kind⟩ = .ok ⟨[], true⟩) := by
  constructor
  · rintro ⟨⟨q, rfl⟩, rfl⟩
    rcases Axis.throughDescendants?_eq_some.1 hthrough with ⟨-, rfl⟩ | ⟨-, rfl⟩ <;> rfl
  · intro hnot
    cases test with
    | name q =>
      cases treeTraversal with
      | true => rfl
      | false => exact absurd ⟨⟨q, rfl⟩, rfl⟩ hnot
    | wildcard | anyNode | text => rfl

/-- From no nodes a step finds none, if it can look them up. -/
theorem result_selectAxis_of_isEmpty (hthrough : axis.throughDescendants? false = some wide)
    (haxis : head.axis = wide) {set : NodeSet} (hset : set.isEmpty = true) (r : Run) :
    (CannotLookUp s head r → (selectAxis s head set).result r = .error (.store .interrupted)) ∧
    (¬ CannotLookUp s head r →
      ∃ persistent, (selectAxis s head set).result r = .ok ⟨[], persistent⟩) := by
  rcases head with ⟨id, own, test, treeTraversal⟩
  rcases set with ⟨nodes, kind⟩
  obtain rfl : own = wide := haxis
  obtain rfl : nodes = [] := List.isEmpty_iff.1 hset
  cases hprepared : r.context.preloaded.get? id with
  | some prepared =>
    have hfound := relatePrepared?_empty hthrough prepared kind
    refine ⟨fun hfails => ?_, fun _ => ⟨_, result_selectAxis_of_prepared hprepared hfound⟩⟩
    have hnone := hfails.unprepared
    rw [hprepared] at hnone
    cases hnone
  | none =>
    rw [result_selectAxis_of_unprepared hprepared]
    obtain ⟨hasks, hnavigates⟩ := unprepared_empty (s := s) hthrough id test treeTraversal kind
    by_cases hlookup : (∃ q, test = .name q) ∧ treeTraversal = false
    · rw [hasks hlookup, Store.unlessInterrupted]
      split_ifs with hswitch
      · exact ⟨fun _ => rfl, fun h => absurd ⟨hswitch, hlookup.1, hlookup.2, hprepared⟩ h⟩
      · exact ⟨fun hfails => absurd hfails.interrupted hswitch, fun _ => ⟨true, rfl⟩⟩
    · rw [hnavigates hlookup]
      exact ⟨fun hfails => absurd ⟨hfails.named, hfails.indexed⟩ hlookup, fun _ => ⟨true, rfl⟩⟩

end Expr

/-- A focus on nodes of a store. -/
theorem Focus.IsIn.on {v : Sequence} (h : v.IsIn s) : (Focus.on v).IsIn s :=
  ⟨fun _ hown => Option.some.inj hown ▸ h, fun _ hitem => nomatch hitem⟩

/-- The focus is on a set without nodes. -/
def Focus.IsOnNothing (s : Store) (focus : Focus) : Prop :=
  ∃ context, contextSet s focus = .ok context ∧ context.set.isEmpty = true

theorem Focus.isOnNothing_iff {focus : Focus} {context : SharedSet}
    (hset : contextSet s focus = .ok context) :
    focus.IsOnNothing s ↔ context.set.isEmpty = true := by
  constructor
  · rintro ⟨own, hown, hnone⟩
    obtain rfl := Except.ok.inj (hset.symm.trans hown)
    exact hnone
  · exact fun hnone => ⟨context, hset, hnone⟩

theorem Focus.not_isOnNothing_of_error {focus : Focus} {e : QueryError}
    (hset : contextSet s focus = .error e) : ¬ focus.IsOnNothing s := by
  rintro ⟨context, hcontext, -⟩
  rw [hset] at hcontext
  cases hcontext

namespace Expr

variable {head : StepHead} {ps ps' : List Predicate} {focus : Focus} {r : Run}

/-- **A step and the pair that it stands for:** they have the same outcome from some nodes.  From
none, the pair has the empty value, and the step finds nothing or cannot look it up. -/
theorem evaluate_pair_or_step (head : StepHead) (h : s.IsIndexed) (first : ExprId)
    (treeTraversal : Bool)
    (hthrough : head.axis.throughDescendants? false = some wide)
    (hboolean : hasPositional ps = false) (hboolean' : hasPositional ps' = false)
    (hps : refitPredicates .turned ps = refitPredicates .turned ps') (hfocus : focus.IsIn s)
    (hfirst : r.context.preloaded.get? first = none)
    (hprepared : ∀ set, r.context.preloaded.get? head.id = some set → set.IsIn s) :
    (¬ focus.IsOnNothing s →
      ((step { head with axis := wide } ps).evaluate s focus).result r =
        (evaluatePath s [step ⟨first, .descendantOrSelf, .anyNode, treeTraversal⟩ [], step head ps']
          focus).result r) ∧
    (focus.IsOnNothing s →
      (evaluatePath s [step ⟨first, .descendantOrSelf, .anyNode, treeTraversal⟩ [], step head ps']
          focus).result r = .ok .empty ∧
      (CannotLookUp s head r →
        ((step { head with axis := wide } ps).evaluate s focus).result r =
          .error (.store .interrupted)) ∧
      (¬ CannotLookUp s head r →
        ∃ persistent, ((step { head with axis := wide } ps).evaluate s focus).result r =
          .ok (.ofSet ⟨[], persistent⟩))) := by
  cases hset : contextSet s focus with
  | error e =>
    have hfails : ∀ head ps (r : Run), ((step head ps).evaluate s focus).result r = .error e := by
      intro head ps r
      rw [evaluate, evaluateStep, result_bind, result_orFail, hset]
      rfl
    refine ⟨fun _ => ?_, fun hnone => absurd hnone (Focus.not_isOnNothing_of_error hset)⟩
    rw [evaluatePath, result_bind, hfails, hfails]
    rfl
  | ok context =>
    have hcontext := (hfocus.contextSet hset).2
    obtain ⟨lead, r', hhas, hlead, hr, hpair⟩ :=
      result_evaluate_pair (r := r) h treeTraversal hset hcontext hfirst (step head ps')
    -- The step in between finds the nodes themselves at least.
    have hnothing : focus.IsOnNothing s ↔ lead.isEmpty = true := by
      rw [Focus.isOnNothing_iff hset, NodeSet.isEmpty_iff, NodeSet.isEmpty_iff]
      refine ⟨fun hnone m hm => ?_, fun hnone n hn => hnone n ((hlead n).2 ⟨n, hn, .inl rfl⟩)⟩
      obtain ⟨n, hn, -⟩ := (hlead m).1 hm
      exact hnone n hn
    rw [hpair]
    refine ⟨fun hsome => ?_, fun hnone => ?_⟩
    · rw [if_neg (mt hnothing.2 hsome)]
      exact result_evaluate_through h hthrough hboolean hboolean' hps hset hcontext hhas hlead
        hprepared hr
    · have hempty := (Focus.isOnNothing_iff hset).1 hnone
      obtain ⟨hfails, hfinds⟩ := result_selectAxis_of_isEmpty (s := s) hthrough
        (show ({ head with axis := wide } : StepHead).axis = wide from rfl) hempty r
      rw [if_pos (hnothing.1 hnone), result_evaluate_step hboolean hset]
      refine ⟨rfl, fun hcannot => ?_, fun hcan => ?_⟩
      · rw [hfails ⟨hcannot.interrupted, hcannot.named, hcannot.indexed, hcannot.unprepared⟩]
        rfl
      · obtain ⟨persistent, hfound⟩ := hfinds fun hcannot =>
          hcan ⟨hcannot.interrupted, hcannot.named, hcannot.indexed, hcannot.unprepared⟩
        rw [hfound, ok_bind]
        exact ⟨persistent, result_applyPredicates_empty s ps false persistent _⟩

/-- The step in between and the one after it, which a double slash and a step stand for. -/
def pairAfterSlash (first own : ExprId) (axis : Axis) (test : NodeTest) (ps : List Predicate) :
    List Expr :=
  [step ⟨first, .descendantOrSelf, .anyNode, false⟩ [], step ⟨own, axis, test, false⟩ ps]

/-- A value that a path goes on from has nodes. -/
theorem isEmpty_toShared {v : Sequence} (hv : ¬ v.isEmpty = true) {shared : SharedSet}
    (hshared : v.toShared = .ok shared) : shared.set.isEmpty = false := by
  cases v with
  | nodes own =>
    obtain rfl : own = shared := Except.ok.inj hshared
    exact Bool.eq_false_iff.2 ((isEmpty_ofSet own.set).symm ▸ hv)
  | items list =>
    obtain ⟨nodes, hnodes, hset⟩ := bind_eq_ok.1 hshared
    obtain rfl : (⟨.ofList nodes false, none⟩ : SharedSet) = shared := Except.ok.inj hset
    rcases list with _ | ⟨item, rest⟩
    · exact absurd rfl hv
    · obtain ⟨n, hn, -⟩ := exists_of_mapM hnodes List.mem_cons_self
      exact NodeSet.isEmpty_eq_false_iff.2 ⟨n, NodeSet.mem_ofList.2 hn⟩

/-- **One step is compiled** after a double slash. -/
theorem run_lowerStep_through (hthrough : axis.throughDescendants? false = some wide)
    (test : NodeTest) (hboolean : hasPositional ps = false) (n : ExprId) :
    (lowerStep true axis test ps).run n = .ok ([step ⟨n + 1, wide, test, false⟩ ps], n + 1) := by
  rw [lowerStep, hboolean, hthrough]
  rfl

/-- **The predicates are analyzed for steps along two axes,** and turned they are the same. -/
theorem refitPredicates_analyze_through (hthrough : axis.throughDescendants? false = some wide)
    {σ σ' : Surroundings} (htree : σ.treeTraversal = σ'.treeTraversal) (id : ExprId)
    (test : NodeTest) (ps : List Predicate) :
    refitPredicates .turned (analyzePredicates (σ.ofStep ⟨id, wide, test, false⟩) ps) =
      refitPredicates .turned (analyzePredicates (σ'.ofStep ⟨id, axis, test, false⟩) ps) := by
  refine refitPredicates_analyze fun p _ => p.expr.refit_analyze (Surroundings.turn_eq_iff.2 ?_)
  refine ⟨rfl, htree, ?_⟩
  rcases Axis.throughDescendants?_eq_some.1 hthrough with ⟨rfl, rfl⟩ | ⟨rfl, rfl⟩ <;> rfl

/-- **An analyzed step and the analyzed pair that it stands for,** as `evaluate_pair_or_step` says
of a step and a pair.  The surroundings differ in nothing but the step that is before. -/
theorem evaluate_analyzed_pair_or_step (h : s.IsIndexed) (first own : ExprId) (test : NodeTest)
    (hthrough : axis.throughDescendants? false = some wide) (hboolean : hasPositional ps = false)
    (σ σ' σ'' : Surroundings) (htree : σ'.treeTraversal = σ.treeTraversal)
    (htree' : σ''.treeTraversal = σ.treeTraversal) (hfocus : focus.IsIn s)
    (hfirst : r.context.preloaded.get? first = none)
    (hprepared : ∀ set, r.context.preloaded.get? own = some set → set.IsIn s) :
    (¬ focus.IsOnNothing s →
      (((step ⟨own, wide, test, false⟩ ps).analyze σ).evaluate s focus).result r =
        (evaluatePath s [(step ⟨first, .descendantOrSelf, .anyNode, false⟩ []).analyze σ',
          (step ⟨own, axis, test, false⟩ ps).analyze σ''] focus).result r) ∧
    (focus.IsOnNothing s →
      (evaluatePath s [(step ⟨first, .descendantOrSelf, .anyNode, false⟩ []).analyze σ',
          (step ⟨own, axis, test, false⟩ ps).analyze σ''] focus).result r = .ok .empty ∧
      (CannotLookUp s ⟨own, axis, test, σ.treeTraversal⟩ r →
        (((step ⟨own, wide, test, false⟩ ps).analyze σ).evaluate s focus).result r =
          .error (.store .interrupted)) ∧
      (¬ CannotLookUp s ⟨own, axis, test, σ.treeTraversal⟩ r →
        ∃ persistent, (((step ⟨own, wide, test, false⟩ ps).analyze σ).evaluate s focus).result r =
          .ok (.ofSet ⟨[], persistent⟩))) := by
  rw [analyze, analyze, analyze, analyzePredicates, htree, htree']
  exact evaluate_pair_or_step ⟨own, axis, test, σ.treeTraversal⟩ h first σ.treeTraversal hthrough
    ((hasPositional_analyze _ ps).trans hboolean) ((hasPositional_analyze _ ps).trans hboolean)
    (refitPredicates_analyze_through hthrough htree'.symm own test ps) hfocus hfirst hprepared

/-- **Turning a step after a double slash preserves what it means.**  A step to children or to
attributes whose predicates are all marked Boolean becomes one step after a double slash.  From any
nodes of a store, whatever stands around it, that step has the outcome, items or error, of the two
steps that it stands for.  It may be the first step of a path or a further one; only as the first
step, from no nodes at all and when it needs a lookup while lookups are switched off, does it fail
where the pair has the empty value. -/
theorem evaluate_lowerStep (hs : s.Reachable) (haxis : axis = .child ∨ axis = .attr)
    (test : NodeTest) (hboolean : ∀ p ∈ ps, p.mode = .boolean) {n m : ExprId} {steps : List Expr}
    (hsteps : (lowerStep true axis test ps).run n = .ok (steps, m)) (first around : ExprId)
    (σ : Surroundings) (hfirst : r.context.preloaded.get? first = none)
    (hprepared : ∀ set, r.context.preloaded.get? m = some set → set.IsIn s) :
    ∃ one, steps = [one] ∧
      (∀ focus, focus.IsIn s →
        ((focus.IsOnNothing s ∧ CannotLookUp s ⟨m, axis, test, σ.treeTraversal⟩ r →
          ((one.analyze σ).evaluate s focus).result r = .error (.store .interrupted) ∧
          (((path around (pairAfterSlash first m axis test ps)).analyze σ).evaluate s focus).result
            r = .ok .empty) ∧
        (¬ (focus.IsOnNothing s ∧ CannotLookUp s ⟨m, axis, test, σ.treeTraversal⟩ r) →
          (((one.analyze σ).evaluate s focus).result r).map Sequence.toItems =
            ((((path around (pairAfterSlash first m axis test ps)).analyze σ).evaluate s
              focus).result r).map Sequence.toItems))) ∧
      ∀ v : Sequence, v.IsIn s →
        (evaluateSteps s (analyzeAll σ [one]) v).result r =
          (evaluateSteps s (analyzeAll σ (pairAfterSlash first m axis test ps)) v).result r := by
  have h := hs.isIndexed
  obtain ⟨wide, hthrough⟩ : ∃ wide, axis.throughDescendants? false = some wide := by
    rcases haxis with rfl | rfl
    · exact ⟨.descendant, rfl⟩
    · exact ⟨.descendantAttr, rfl⟩
  have hpositional : hasPositional ps = false := by
    refine List.any_eq_false.2 fun p hp => ?_
    rw [hboolean p hp]
    exact Bool.false_ne_true
  have hlowered := run_lowerStep_through hthrough test hpositional n
  obtain ⟨rfl, rfl⟩ := Prod.mk.inj (Except.ok.inj (hlowered.symm.trans hsteps))
  refine ⟨_, rfl, fun focus hfocus => ?_, fun v hv => ?_⟩
  · obtain ⟨hsome, hnone⟩ := evaluate_analyzed_pair_or_step h first _ test hthrough hpositional
      σ σ σ.withoutOuter rfl rfl hfocus hfirst hprepared
    rw [pairAfterSlash, analyze, analyzeSteps, analyzeAll, analyzeAll, evaluate]
    refine ⟨fun hcorner => ?_, fun hcorner => ?_⟩
    · obtain ⟨hpair, hfails, -⟩ := hnone hcorner.1
      exact ⟨hfails hcorner.2, hpair⟩
    · by_cases hnothing : focus.IsOnNothing s
      · obtain ⟨hpair, -, hfinds⟩ := hnone hnothing
        obtain ⟨persistent, hfound⟩ := hfinds fun hcannot => hcorner ⟨hnothing, hcannot⟩
        rw [hfound]
        exact (congrArg (Except.map Sequence.toItems) hpair).symm
      · exact congrArg _ (hsome hnothing)
  · -- A further step is evaluated only if there are nodes before it.
    rw [pairAfterSlash, analyzeAll, analyzeAll, analyzeAll, analyzeAll, evaluateSteps,
      evaluateSteps]
    split_ifs with hv'
    · rfl
    · rw [result_bind, result_bind, result_orFail]
      cases hshared : v.toShared with
      | error e => rfl
      | ok shared =>
        have hnodes : ¬ (Focus.on (.nodes shared)).IsOnNothing s := by
          rw [Focus.isOnNothing_iff rfl, isEmpty_toShared hv' hshared]
          exact Bool.false_ne_true
        have hfocus : (Focus.on (.nodes shared)).IsIn s := .on (hv.toShared hshared)
        rw [ok_bind, ok_bind, result_bind]
        exact (bind_pure _).trans ((evaluate_analyzed_pair_or_step h first _ test hthrough
          hpositional σ σ σ rfl rfl hfocus hfirst hprepared).1 hnodes)

/-- The books with a title are the same through the step in between and without it. -/
theorem evaluate_lowerStep_books : ∃ one,
    (lowerStep true .child (.name ⟨none, "book", none⟩) [predicateHaving 1 0 "title" "Dune"]).run 3 =
      .ok ([one], 4) ∧
    (((one.analyze .top).evaluate booksStore (.on (.nodes libraries))).result
      ⟨.ofBindings [], .zero⟩).map Sequence.toItems = .ok [.node ⟨1, ⟨[1, 1]⟩⟩] ∧
    ((((path 6 (pairAfterSlash 5 4 .child (.name ⟨none, "book", none⟩)
      [predicateHaving 1 0 "title" "Dune"])).analyze .top).evaluate booksStore
        (.on (.nodes libraries))).result ⟨.ofBindings [], .zero⟩).map Sequence.toItems =
          .ok [.node ⟨1, ⟨[1, 1]⟩⟩] := by
  let ps := [predicateHaving 1 0 "title" "Dune"]
  let one : Expr := step ⟨4, .descendant, .name ⟨none, "book", none⟩, false⟩ ps
  have hon : (Focus.on (.nodes libraries)).IsIn booksStore := .on isIn_libraries
  have hlowered : (lowerStep true .child (.name ⟨none, "book", none⟩) ps).run 3 = .ok ([one], 4) :=
    rfl
  have hmodes : ∀ p ∈ ps, p.mode = .boolean := List.forall_mem_singleton.2 rfl
  obtain ⟨own, hown, hvalues, -⟩ := evaluate_lowerStep (r := ⟨.ofBindings [], .zero⟩)
    reachable_booksStore (.inl rfl) _ hmodes hlowered 5 6 .top rfl (fun _ hset => nomatch hset)
  obtain rfl : one = own := (List.cons.inj hown).1
  have hfound : (((one.analyze .top).evaluate booksStore (.on (.nodes libraries))).result
      ⟨.ofBindings [], .zero⟩).map Sequence.toItems = .ok [.node ⟨1, ⟨[1, 1]⟩⟩] := by
    decide +kernel
  refine ⟨one, hlowered, hfound, ?_⟩
  rw [← (hvalues _ hon).2 fun hcorner => Bool.false_ne_true hcorner.2.interrupted]
  exact hfound

/-- A store without documents in which lookups are switched off. -/
def interruptedStore : Store := Store.empty.perform (.interrupt true)

/-- **From no nodes the pair makes no lookup:** while lookups are switched off, the step fails and
the pair has the empty value. -/
theorem not_evaluate_lowerStep_nowhere : ∃ one,
    interruptedStore.Reachable ∧ (Focus.on (.ofSet .empty)).IsIn interruptedStore ∧
    (lowerStep true .child (.name ⟨none, "book", none⟩) []).run 0 = .ok ([one], 1) ∧
    ((one.analyze .top).evaluate interruptedStore (.on (.ofSet .empty))).result
      ⟨.ofBindings [], .zero⟩ = .error (.store .interrupted) ∧
    (((path 3 (pairAfterSlash 2 1 .child (.name ⟨none, "book", none⟩) [])).analyze .top).evaluate
      interruptedStore (.on (.ofSet .empty))).result ⟨.ofBindings [], .zero⟩ = .ok .empty := by
  exact ⟨step ⟨1, .descendant, .name ⟨none, "book", none⟩, false⟩ [], .perform .empty _,
    .on NodeSet.isIn_empty, rfl, rfl, rfl⟩

end Expr

end IndexedXml
