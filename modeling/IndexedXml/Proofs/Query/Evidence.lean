/-
# Evidence for what a path selects

Where a location path leads from a node to another, each condition in its predicates has a hit
at or below the first node (`Expr.IsTraced`): a node that qualifies for a condition does so by
a hit of its probe, and a node that qualifies for a path does so by what the path leads to.
So whoever looks for the nodes that a path starts from can look above the hits.
-/

import IndexedXml.Proofs.Query.Pointwise

namespace IndexedXml

open Evaluation Setting

variable {s : Store} {σ : Setting} {docs : DocId → Prop}

/-! ### Truth values -/

/-- A computation gives only truth values. -/
def Evaluation.IsTruth (m : Evaluation Sequence) : Prop :=
  ∀ r v, m.result r = .ok v → ∃ b, v = .ofBool b

namespace Evaluation

theorem isTruth_pure (b : Bool) : IsTruth (pure (.ofBool b)) := by
  intro r v h
  exact ⟨b, (Except.ok.inj h).symm⟩

theorem isTruth_bind {α : Type} {m : Evaluation α} {f : α → Evaluation Sequence}
    (h : ∀ a, IsTruth (f a)) : IsTruth (m >>= f) := by
  intro r v hv
  rw [result_bind] at hv
  obtain ⟨a, _, hv⟩ := bind_eq_ok.1 hv
  exact h a _ v hv

theorem isTruth_error (e : QueryError) : IsTruth (orFail (.error e)) := by
  intro r v h
  cases h

/-- A function of which every result is a truth value gives only those. -/
theorem isTruth_apply (focus : Focus) {function : Builtin} (h : function.isPredicate = true)
    (args : List Sequence) : IsTruth (function.apply s focus args) := by
  unfold Builtin.apply
  split
  · cases h
  · cases h
  · cases h
  · exact isTruth_pure _
  · exact isTruth_pure _
  · exact isTruth_bind fun _ => isTruth_pure _
  · cases h
  · cases h
  · exact isTruth_bind fun _ => isTruth_bind fun _ => isTruth_pure _
  · exact isTruth_bind fun _ => isTruth_bind fun _ => isTruth_pure _
  · exact isTruth_pure _
  · exact isTruth_pure _
  · exact isTruth_error _

theorem isTruth_compareSequences (op : ComparisonOp) (left right : Sequence) :
    IsTruth (compareSequences s op left right) :=
  isTruth_bind fun _ => isTruth_bind fun _ => isTruth_bind fun _ => isTruth_pure _

end Evaluation

namespace Expr

variable {e : Expr} {n m : Node}

/-- **A condition is no number.** -/
theorem number?_of_isPlainCondition (h : e.isPlainCondition = true)
    (hvalue : e.isBooleanValued = true) {focus : Focus} {v : Sequence}
    (hv : σ.outcome (e.evaluate s focus) = .ok v) : v.number? = none := by
  have htruth : ∀ {m : Evaluation Sequence}, IsTruth m → m.result σ.start = .ok v →
      v.number? = none := by
    intro m hm hv
    obtain ⟨b, rfl⟩ := hm _ v hv
    rfl
  cases e with
  | comparison id op left right access =>
    refine htruth ?_ hv
    rw [evaluate]
    exact isTruth_bind fun _ => isTruth_bind fun _ => isTruth_compareSequences _ _ _
  | call id function args access =>
    refine htruth ?_ hv
    rw [evaluate]
    exact isTruth_bind fun _ => isTruth_apply focus hvalue _
  | and left right =>
    refine htruth ?_ hv
    rw [evaluate]
    refine isTruth_bind fun _ => isTruth_bind fun b => ?_
    cases b
    · exact isTruth_pure _
    · exact isTruth_bind fun _ => isTruth_bind fun _ => isTruth_pure _
  | or left right =>
    refine htruth ?_ hv
    rw [evaluate]
    refine isTruth_bind fun _ => isTruth_bind fun b => ?_
    cases b
    · exact isTruth_bind fun _ => isTruth_bind fun _ => isTruth_pure _
    · exact isTruth_pure _
  | root =>
    rw [outcome_root] at hv
    obtain ⟨_, _, hv⟩ := bind_eq_ok.1 hv
    rw [← Except.ok.inj hv]
    rfl
  | literal value =>
    rw [outcome_literal] at hv
    rw [← Except.ok.inj hv]
    exact if_neg (Bool.eq_false_iff.1 (Bool.not_eq_true' _ ▸ hvalue))
  | _ => cases h

/-! ### Hits -/

theorem Asks.mem_sides {outer : Option OuterStep} {path : Expr} {p : IndexProbe}
    (h : Asks outer path e p) : path ∈ e.sides := by
  cases h with
  | right | start => exact List.mem_cons_self
  | left => exact List.mem_cons_of_mem _ List.mem_cons_self

/-- The focus on a node of a set that the store has handed out. -/
theorem contextSet_itemFocus (n : Node) :
    contextSet s (itemFocus true (.node n)) = .ok ⟨s.persistent [n], none⟩ := rfl

theorem mem_persistent_single : m ∈ s.persistent [n] ↔ m = n :=
  NodeSet.mem_ofList.trans List.mem_singleton

theorem isGiven_single (hn : s.Has n) (hdoc : docs n.doc) : (s.persistent [n]).IsGiven s docs :=
  NodeSet.isGiven_persistent fun _ hm => List.mem_singleton.1 hm ▸ ⟨hn, hdoc⟩

/-- **A condition on several steps is true of a node only by a hit below it.** -/
theorem hitsBelow_of_true (hs : s.IsReliable) (hσ : σ.IsBare) (hfree : e.IsPragmaFree)
    {outer : Option OuterStep} {p : IndexProbe} (hprobed : e.probed? outer = some p)
    (hrelation : p.relation = none) (hdown : e.sides.all goesDown = true)
    (hkey : p.op = .startsWith → p.key ≠ .string "") (hcovers : p.CoversDocs s docs)
    (hn : s.Has n) (hdoc : docs n.doc) {v : Sequence}
    (hv : σ.outcome (e.evaluate s (itemFocus true (.node n))) = .ok v)
    (htrue : v.truth = .ok true) : p.HitsBelow s n := by
  obtain ⟨path, hasks⟩ := exists_asks hprobed
  obtain ⟨target, htarget, hp⟩ := hasks.target
  obtain ⟨heads, last, q, hheads, hlast, htest, hname⟩ :=
    Target.of?_of_relation_none htarget (by rw [hp] at hrelation; exact hrelation)
  have haxes : ∀ head ∈ heads, head.axis ∈ optimizableAxes := by
    have hgoes := List.all_eq_true.1 hdown path hasks.mem_sides
    unfold goesDown at hgoes
    rw [hheads, Option.all_some, List.all_eq_true] at hgoes
    exact fun head hhead => List.elem_iff.1 (hgoes head hhead)
  have hne : heads ≠ [] := by
    rintro rfl
    cases hlast
  have hsingle : ∀ x ∈ s.persistent [n], s.Has x := fun x hx => mem_persistent_single.1 hx ▸ hn
  obtain ⟨_, reached, hreached, hconsists⟩ := outcome_simple (σ := σ) hσ hs.answering hheads hne
    (fun head hhead => Axis.isStraight_of_mem (haxes head hhead)) (contextSet_itemFocus n) hsingle
  obtain ⟨reached', b, hreached', rfl, hiff⟩ := outcome_condition hasks hfree hkey hv
  obtain rfl := Except.ok.inj (hreached.symm.trans hreached')
  obtain rfl : b = true := Except.ok.inj htrue
  have hfrom : ∀ m, (∃ x ∈ s.persistent [n], s.LeadsAlong heads x m) → s.LeadsAlong heads n m := by
    rintro m ⟨x, hx, halong⟩
    exact mem_persistent_single.1 hx ▸ halong
  obtain ⟨m, hm, hanswers⟩ := (hiff _ hconsists
    (fun m hm => (hfrom m hm).has hs.indexed hn)
    fun m hm => (hfrom m hm).doc_eq ▸ hcovers.suits hs hn hdoc).1 rfl
  have halong := hfrom m hm
  have hpasses := halong.passes hlast
  rw [htest] at hpasses
  have hbears : s.Bears m p.name := by
    rw [show p.name = ⟨last.axis.nameType, q⟩ by rw [hp]; exact hname]
    exact (Store.passes_name_iff (halong.has hs.indexed hn)).1 hpasses
  exact ⟨m, Store.hits_iff.2 ⟨hbears, hanswers⟩, halong.within haxes⟩

section Congr

variable {focus focus' : Focus}

/-- What is made of the set of the context nodes only. -/
theorem contextSet_bind_congr
    (h : (contextSet s focus).map SharedSet.set = (contextSet s focus').map SharedSet.set)
    (f : NodeSet → Except QueryError Sequence) :
    (contextSet s focus >>= fun context => f context.set) =
      contextSet s focus' >>= fun context => f context.set := by
  have hmap : ∀ x : Except QueryError SharedSet,
      (x >>= fun context => f context.set) = x.map SharedSet.set >>= f := by
    intro x
    cases x <;> rfl
  rw [hmap, hmap, h]

theorem outcome_root_congr
    (h : (contextSet s focus).map SharedSet.set = (contextSet s focus').map SharedSet.set) :
    σ.outcome (root.evaluate s focus) = σ.outcome (root.evaluate s focus') := by
  rw [outcome_root, outcome_root]
  exact contextSet_bind_congr h fun set => pure (.ofSet
    (.ofList (set.nodes.map fun n => .document n.doc) set.persistent))

theorem outcome_step_congr {head : StepHead} {ps : List Predicate}
    (hfree : (step head ps).IsPragmaFree)
    (h : (contextSet s focus).map SharedSet.set = (contextSet s focus').map SharedSet.set) :
    σ.outcome ((step head ps).evaluate s focus) = σ.outcome ((step head ps).evaluate s focus') := by
  rw [outcome_step hfree, outcome_step hfree]
  exact contextSet_bind_congr h fun set => if hasPositional ps then do
      let found ← σ.byNode s head
        (fun v => σ.outcome (applyPredicates s ps head.axis.isReverse v)) set.persistent set.nodes
      pure (.ofSet found)
    else do
      let selected ← σ.outcome (selectAxis s head set)
      σ.outcome (applyPredicates s ps false (.ofSet selected))

theorem outcome_path_congr {id : ExprId} {first : Expr} {rest : List Expr}
    (hfree : (path id (first :: rest)).IsPragmaFree)
    (h : σ.outcome (first.evaluate s focus) = σ.outcome (first.evaluate s focus')) :
    σ.outcome ((path id (first :: rest)).evaluate s focus) =
      σ.outcome ((path id (first :: rest)).evaluate s focus') := by
  rw [outcome_path_cons hfree, outcome_path_cons hfree, h]

/-- **The value of a location path depends on the context nodes only.** -/
theorem outcome_congr_contextSet (h : e.isLocationPath = true) (hfree : e.IsPragmaFree)
    (hfocus : (contextSet s focus).map SharedSet.set = (contextSet s focus').map SharedSet.set) :
    σ.outcome (e.evaluate s focus) = σ.outcome (e.evaluate s focus') := by
  rcases isLocationPath_iff.1 h with rfl | hdescending | ⟨id, steps, rfl, _⟩
  · exact outcome_root_congr hfocus
  · cases e with
    | step head ps => exact outcome_step_congr hfree hfocus
    | path id steps =>
      obtain ⟨hne, hsteps⟩ := isDescending_path.1 hdescending
      cases steps with
      | nil => exact absurd rfl hne
      | cons first rest =>
        obtain ⟨head, ps, rfl⟩ := isStep_iff.1 (hsteps first List.mem_cons_self).1
        exact outcome_path_congr hfree
          (outcome_step_congr (hfree.mono (parts_subset_path List.mem_cons_self)) hfocus)
    | _ => cases hdescending
  · exact outcome_path_congr hfree (outcome_root_congr hfocus)

end Congr

/-! ### Tracing a path -/

/-- **A path is traced by its conditions:** it selects from each node on its own, and from a node
it leads to nodes at or below that only where each of its conditions has a hit there. -/
structure IsTraced (s : Store) (σ : Setting) (docs : DocId → Prop) (e : Expr) : Prop where
  selects : e.SelectsEach s σ docs
  hits : ∀ n m, s.Has n → docs n.doc → e.Reaches s σ n m →
    m.Within n ∧ ∀ o ∈ e.conditions, o.probe.HitsBelow s n

/-- A path has no probe of its own. -/
theorem probe?_of_isDescending (h : e.isDescending = true) : e.probe? = none := by
  cases e with
  | path | step => rfl
  | _ => cases h

/-- The value of a path for a node lists what the path leads to. -/
theorem IsTraced.lists (h : e.IsTraced s σ docs) (hdescending : e.isDescending = true)
    (hfree : e.IsPragmaFree) (hn : s.Has n) (hdoc : docs n.doc) {v : Sequence}
    (hv : σ.outcome (e.evaluate s (itemFocus true (.node n))) = .ok v) :
    v.Lists (e.Reaches s σ n) := by
  have hcongr := outcome_congr_contextSet (σ := σ) (s := s)
    (isLocationPath_iff.2 (.inr (.inl hdescending))) hfree
    (congrArg (Except.map SharedSet.set)
      ((contextSet_itemFocus n).trans (contextSet_on (s.persistent [n])).symm))
  refine (h.selects.lists (isGiven_single hn hdoc) (hcongr.symm.trans hv)).congr fun m => ?_
  constructor
  · rintro ⟨x, hx, hreaches⟩
    exact mem_persistent_single.1 hx ▸ hreaches
  · exact fun hreaches => ⟨n, mem_persistent_single.2 rfl, hreaches⟩

variable {p : Predicate}

/-- The probe of a predicate at a step along a descending axis is one of its conditions. -/
theorem exists_condition (hp : p.expr.isPlainCondition = true) {head : StepHead}
    (haxis : head.axis ∈ optimizableAxes) {id : ExprId} {probe : IndexProbe}
    (hprobe : p.expr.probe? = some (id, probe))
    (hprobed : p.expr.probed? (some ⟨head.test.name?, head.axis⟩) = some probe) :
    p.expr.sides.all goesDown = true ∧ (probe.op = .startsWith → probe.key ≠ .string "") ∧
      p.expr.optimizable? = some ⟨id, probe, p.expr.text⟩ := by
  have hdown : p.expr.probesDown = true := by
    cases hexpr : p.expr <;> rw [hexpr] at hp hprobed <;> first | exact hp | cases hprobed
  unfold probesDown at hdown
  rw [hprobe, Bool.and_eq_true] at hdown
  obtain ⟨hdown, hkey⟩ := hdown
  refine ⟨hdown, fun hop hempty => ?_, ?_⟩
  · rw [hop, hempty] at hkey
    cases hkey
  · obtain ⟨path, hasks⟩ := exists_asks hprobed
    obtain ⟨target, htarget, heq⟩ := hasks.target
    have hmem : probe.axis ∈ optimizableAxes := by
      rw [heq]
      refine Target.axis_mem_of_goesDown htarget (List.all_eq_true.1 hdown path hasks.mem_sides) ?_
      rintro step ⟨⟩
      exact haxis
    unfold optimizable?
    rw [hprobe]
    exact if_pos (List.elem_iff.2 hmem)

/-- **Predicates at a step of such a path are decided node by node.** -/
theorem isDecided_of_isCondition (hp : IsCondition p) {head : StepHead}
    (haxis : head.axis ∈ optimizableAxes) (hfree : p.expr.IsPragmaFree)
    (hanalyzed : ∀ id probe, p.expr.probe? = some (id, probe) →
      p.expr.probed? (some ⟨head.test.name?, head.axis⟩) = some probe)
    (hcovers : ∀ o ∈ p.expr.conditions, o.probe.CoversDocs s docs)
    (htraced : p.expr.isDescending = true → p.expr.IsTraced s σ docs) :
    p.expr.IsDecided s σ docs := by
  refine ⟨hfree, fun id probe hprobe _ => ?_, fun n hn hdoc v hv => ?_⟩
  · rcases hp.shape with hplain | hdescending
    · obtain ⟨_, _, ho⟩ := exists_condition hplain haxis hprobe (hanalyzed id probe hprobe)
      refine hcovers ⟨id, probe, p.expr.text⟩ ?_
      rw [(conditions_of_isPlainCondition hplain).1, ho]
      exact List.mem_singleton_self _
    · cases (probe?_of_isDescending hdescending).symm.trans hprobe
  · rcases hp.shape with hplain | hdescending
    · exact number?_of_isPlainCondition hplain hp.value hv
    · exact ((htraced hdescending).lists hdescending hfree hn hdoc hv).number?

/-- **A node qualifies for a predicate only by hits below it.** -/
theorem hitsBelow_of_qualifies (hs : s.IsReliable) (hσ : σ.IsBare) (hp : IsCondition p)
    {head : StepHead} (haxis : head.axis ∈ optimizableAxes) (hfree : p.expr.IsPragmaFree)
    (hanalyzed : ∀ id probe, p.expr.probe? = some (id, probe) →
      p.expr.probed? (some ⟨head.test.name?, head.axis⟩) = some probe)
    (hcovers : ∀ o ∈ p.expr.conditions, o.probe.CoversDocs s docs)
    (htraced : p.expr.isDescending = true → p.expr.IsTraced s σ docs) (hn : s.Has n)
    (hdoc : docs n.doc) (h : p.expr.Qualifies s σ n) :
    ∀ o ∈ p.expr.conditions, o.probe.HitsBelow s n := by
  intro o ho
  rcases hp.shape with hplain | hdescending
  · have hcover := hcovers o ho
    rw [(conditions_of_isPlainCondition hplain).1, Option.mem_toList] at ho
    have hprobe := probe?_of_optimizable? ho
    have hprobed := hanalyzed _ _ hprobe
    obtain ⟨hdown, hkey, _⟩ := exists_condition hplain haxis hprobe hprobed
    rcases h with ⟨hprobe', _, hrelates, hhits⟩ | ⟨hnone, hv, htrue⟩
    · obtain ⟨_, rfl⟩ := Prod.mk.inj (Option.some.inj (hprobe.symm.trans hprobe'))
      exact ⟨_, hhits, hrelates.within⟩
    · exact hitsBelow_of_true hs hσ hfree hprobed (hnone _ _ hprobe) hdown hkey hcover hn hdoc hv
        htrue
  · rcases h with ⟨hprobe, _, _, _⟩ | ⟨_, hv, htrue⟩
    · cases (probe?_of_isDescending hdescending).symm.trans hprobe
    · obtain ⟨b, hb, hiff⟩ := ((htraced hdescending).lists hdescending hfree hn hdoc hv).truth
      obtain rfl := Except.ok.inj (hb.symm.trans htrue)
      obtain ⟨m, hreaches⟩ := hiff.1 rfl
      exact ((htraced hdescending).hits n m hn hdoc hreaches).2 o ho

/-- **All predicates of such a step are decided node by node.** -/
theorem areDecided {head : StepHead} {ps : List Predicate}
    (h : (step head ps).isDescending = true) (hfree : (step head ps).IsPragmaFree)
    (hanalyzed : (step head ps).IsAnalyzed)
    (hcovers : ∀ o ∈ (step head ps).conditions, o.probe.CoversDocs s docs)
    (htraced : ∀ p ∈ ps, p.expr.isDescending = true → p.expr.IsTraced s σ docs) :
    ∀ p ∈ ps, p.mode = .boolean ∧ p.expr.IsDecided s σ docs := by
  obtain ⟨haxis, hps⟩ := isDescending_step.1 h
  refine fun p hp => ⟨(hps p hp).mode, ?_⟩
  exact isDecided_of_isCondition (hps p hp) haxis (hfree.mono (parts_subset_step hp))
    (hanalyzed head ps (self_mem_parts _) p hp)
    (fun o ho => hcovers o (conditions_subset_step hp ho)) (htraced p hp)

/-- **Where a step leads, each of its conditions has a hit** at or below. -/
theorem hitsBelow_of_takes (hs : s.IsReliable) (hσ : σ.IsBare) {head : StepHead}
    {ps : List Predicate} (h : (step head ps).isDescending = true)
    (hfree : (step head ps).IsPragmaFree) (hanalyzed : (step head ps).IsAnalyzed)
    (hcovers : ∀ o ∈ (step head ps).conditions, o.probe.CoversDocs s docs)
    (htraced : ∀ p ∈ ps, p.expr.isDescending = true → p.expr.IsTraced s σ docs) (hn : s.Has n)
    (hdoc : docs n.doc) (htakes : (step head ps).Takes s σ n m) :
    ∀ o ∈ (step head ps).conditions, o.probe.HitsBelow s m := by
  obtain ⟨haxis, hps⟩ := isDescending_step.1 h
  obtain ⟨hm, hmdoc⟩ := htakes.has hs.indexed hn
  intro o ho
  rw [conditions_step] at ho
  obtain ⟨p, hp, ho⟩ := List.mem_flatMap.1 ho
  exact hitsBelow_of_qualifies hs hσ (hps p hp) haxis (hfree.mono (parts_subset_step hp))
    (hanalyzed head ps (self_mem_parts _) p hp)
    (fun o ho => hcovers o (conditions_subset_step hp ho)) (htraced p hp) hm (hmdoc ▸ hdoc)
    (htakes.2 p hp) o ho

/-- **Along steps that are traced** each condition has a hit below the first node. -/
theorem hits_of_takesAlong (hs : s.IsIndexed) {es : List Expr}
    (hes : ∀ e ∈ es, e.isStep = true ∧ e.IsTraced s σ docs) :
    ∀ n m, s.Has n → docs n.doc → TakesAlong s σ es n m →
      m.Within n ∧ ∀ o ∈ es.flatMap conditions, o.probe.HitsBelow s n := by
  induction es with
  | nil =>
    rintro n m _ _ rfl
    exact ⟨.refl m, fun o ho => absurd ho List.not_mem_nil⟩
  | cons e rest ih =>
    rintro n m hn hdoc ⟨x, htakes, halong⟩
    obtain ⟨hstep, htraced⟩ := hes e List.mem_cons_self
    obtain ⟨head, ps, rfl⟩ := isStep_iff.1 hstep
    obtain ⟨hx, hxdoc⟩ := htakes.has hs hn
    obtain ⟨hwithin, hhits⟩ := htraced.hits n x hn hdoc htakes
    obtain ⟨hwithin', hhits'⟩ := ih (fun e he => hes e (List.mem_cons_of_mem _ he)) x m hx
      (hxdoc ▸ hdoc) halong
    refine ⟨hwithin'.trans hwithin, fun o ho => ?_⟩
    rcases List.mem_append.1 (List.flatMap_cons ▸ ho) with ho | ho
    · exact hhits o ho
    · exact (hhits' o ho).mono hwithin

theorem narrows_of_isStep (hstep : e.isStep = true) (h : e.SelectsEach s σ docs) :
    Narrows s docs (e.Takes s σ) fun set => σ.outcome (e.evaluate s (.on (.ofSet set))) := by
  obtain ⟨head, ps, rfl⟩ := isStep_iff.1 hstep
  exact h

/-- **Location paths along descending axes are traced by their conditions,** in documents that
the indexes cover. -/
theorem isTraced (hs : s.IsReliable) (hσ : σ.IsBare) (e : Expr) :
    e.isDescending = true → e.IsPragmaFree → e.IsAnalyzed →
      (∀ o ∈ e.conditions, o.probe.CoversDocs s docs) → e.IsTraced s σ docs := by
  -- Both facts go through one induction: a path in a predicate is decided node by node because
  -- it selects from each node on its own, and it is evidence because it is traced.
  induction e using Expr.induct with
  | path id steps ih =>
    intro h hfree hanalyzed hcovers
    obtain ⟨hne, hsteps⟩ := isDescending_path.1 h
    have htraced : ∀ e ∈ steps, e.isStep = true ∧ e.IsTraced s σ docs := fun e he =>
      ⟨(hsteps e he).1, ih e he (hsteps e he).2 (hfree.mono (parts_subset_path he))
        (hanalyzed.mono (parts_subset_path he)) fun o ho => hcovers o (conditions_subset_path he ho)⟩
    refine ⟨selectsEach_path hs.indexed hne fun e he => ⟨hfree.mono (parts_subset_path he),
      narrows_of_isStep (htraced e he).1 (htraced e he).2.selects⟩, fun n m hn hdoc hreaches => ?_⟩
    rw [conditions_path]
    exact hits_of_takesAlong hs.indexed htraced n m hn hdoc hreaches
  | step head ps ih =>
    intro h hfree hanalyzed hcovers
    obtain ⟨haxis, _⟩ := isDescending_step.1 h
    have htraced : ∀ p ∈ ps, p.expr.isDescending = true → p.expr.IsTraced s σ docs := by
      exact fun p hp hdescending => ih p hp hdescending (hfree.mono (parts_subset_step hp))
        (hanalyzed.mono (parts_subset_step hp)) fun o ho => hcovers o (conditions_subset_step hp ho)
    refine ⟨selectsEach_step hs hσ haxis (areDecided h hfree hanalyzed hcovers htraced),
      fun n m hn hdoc htakes => ?_⟩
    have hwithin := htakes.1.1.within haxis
    exact ⟨hwithin, fun o ho => (hitsBelow_of_takes hs hσ h hfree hanalyzed hcovers htraced hn hdoc
      htakes o ho).mono hwithin⟩
  | _ =>
    intro h
    cases h

end Expr
end IndexedXml
