/-
# Evidence for what is reached

The optimizer records a condition wherever it finds one, but only some of these conditions are
reached from the nodes that an expression starts from without leaving an extent
(`Expr.Reached`).  Where such an expression has a value that affirms something, each condition
that is reached has a hit within that extent of one of these nodes
(`Expr.exists_hit_of_affirms`).
-/

import IndexedXml.Proofs.Query.Extent
import IndexedXml.Proofs.Query.Optimized

namespace IndexedXml

open Evaluation Setting

variable {s : Store} {σ : Setting} {docs : DocId → Prop}

/-! ### Values that affirm -/

/-- **A value affirms something:** it has items, and is not just the truth value false. -/
def Sequence.Affirms (v : Sequence) : Prop := v.toItems ≠ [] ∧ v ≠ .ofBool false

namespace Sequence

variable {v : Sequence}

/-- What selects an item affirms something. -/
theorem affirms_of_selects {position : Nat} (h : v.selects position = .ok true) : v.Affirms := by
  constructor
  · intro hnil
    have hfalse : v.selects position = .ok false := by
      cases v with
      | nodes shared =>
        have hempty : shared.set.nodes = [] := List.map_eq_nil_iff.1 hnil
        change Except.ok (!shared.set.nodes.isEmpty) = _
        rw [hempty]
        rfl
      | items list =>
        obtain rfl : list = [] := hnil
        rfl
    cases hfalse.symm.trans h
  · rintro rfl
    cases h

/-- Nodes affirm something. -/
theorem affirms_of_node {n : Node} (h : .node n ∈ v.toItems) : v.Affirms := by
  refine ⟨List.ne_nil_of_mem h, ?_⟩
  rintro rfl
  cases List.mem_singleton.1 h

theorem not_affirms_empty : ¬ Sequence.empty.Affirms := fun h => h.1 rfl

/-- What a path goes on from affirms something. -/
theorem affirms_of_toShared {shared : SharedSet} (hv : ¬ v.isEmpty = true)
    (h : v.toShared = .ok shared) : v.Affirms := by
  obtain ⟨item, hitem⟩ := List.exists_mem_of_ne_nil _ (mt isEmpty_iff_toItems.2 hv)
  cases item with
  | node n => exact affirms_of_node hitem
  | atomic value =>
    cases v with
    | nodes shared =>
      obtain ⟨_, _, heq⟩ := List.mem_map.1 hitem
      cases heq
    | items list =>
      obtain ⟨nodes, hnodes, _⟩ := bind_eq_ok.1 h
      obtain ⟨_, _, hnode⟩ := exists_of_mapM hnodes hitem
      cases hnode

end Sequence

/-! ### Analyzed expressions -/

namespace Expr

/-- **An expression has been analyzed** where it stands in the predicates of an outer step, or of
none. -/
def IsAnalyzedAt (outer : Option OuterStep) (e : Expr) : Prop :=
  ∃ (written : Expr) (around : Surroundings), around.outer = outer ∧ e = written.analyze around

namespace IsAnalyzedAt

variable {outer : Option OuterStep} {e : Expr} {id : ExprId}

theorem probed? (h : e.IsAnalyzedAt outer) {p : IndexProbe} (hprobe : e.probe? = some (id, p)) :
    e.probed? outer = some p := by
  obtain ⟨written, around, rfl, rfl⟩ := h
  have hsame := probe?_analyze around written
  rw [hprobe] at hsame
  split_ifs at hsame with htree
  · cases hsame
  · exact (probed?_analyze _ _ _).trans hsame.symm

/-- The predicates of a step stand in the predicates of that step. -/
theorem of_step {head : StepHead} {ps : List Predicate} (h : (step head ps).IsAnalyzedAt outer)
    {p : Predicate} (hp : p ∈ ps) : p.expr.IsAnalyzedAt (some ⟨head.test.name?, head.axis⟩) := by
  obtain ⟨written, around, -, heq⟩ := h
  cases written with
  | step own predicates =>
    obtain ⟨rfl, rfl⟩ := step.inj heq
    rw [analyzePredicates_eq_map] at hp
    obtain ⟨q, _, rfl⟩ := List.mem_map.1 hp
    exact ⟨q.expr, around.ofStep own, rfl, rfl⟩
  | _ => cases heq

theorem of_filter {base : Expr} {ps : List Predicate} (h : (filter id base ps).IsAnalyzedAt outer) :
    base.IsAnalyzedAt outer ∧ ∀ p ∈ ps, p.expr.IsAnalyzedAt none := by
  obtain ⟨written, around, houter, heq⟩ := h
  cases written with
  | filter own inner predicates =>
    obtain ⟨rfl, rfl, rfl⟩ := filter.inj heq
    refine ⟨⟨inner, around, houter, rfl⟩, fun p hp => ?_⟩
    rw [analyzePredicates_eq_map] at hp
    obtain ⟨q, _, rfl⟩ := List.mem_map.1 hp
    exact ⟨q.expr, around.ofFilter id, rfl, rfl⟩
  | _ => cases heq

theorem of_path {first : Expr} {rest : List Expr} (h : (path id (first :: rest)).IsAnalyzedAt outer) :
    first.IsAnalyzedAt outer ∧ ∀ id, (path id rest).IsAnalyzedAt none := by
  obtain ⟨written, around, houter, heq⟩ := h
  cases written with
  | path own steps =>
    cases steps with
    | nil => cases heq
    | cons e es =>
      obtain ⟨rfl, hsteps⟩ := path.inj heq
      obtain ⟨rfl, rfl⟩ := List.cons.inj hsteps
      refine ⟨⟨e, around, houter, rfl⟩, fun id => ⟨path id es, around.withoutOuter, rfl, ?_⟩⟩
      cases es <;> rfl
  | _ => cases heq

theorem of_filter_append {base : Expr} {ps qs : List Predicate}
    (h : (filter id base (ps ++ qs)).IsAnalyzedAt outer) : (filter id base ps).IsAnalyzedAt outer := by
  obtain ⟨written, around, houter, heq⟩ := h
  cases written with
  | filter own inner predicates =>
    obtain ⟨rfl, rfl, hpredicates⟩ := filter.inj heq
    rw [analyzePredicates_eq_map, eq_comm, List.map_eq_append_iff] at hpredicates
    obtain ⟨first, _, rfl, rfl, rfl⟩ := hpredicates
    refine ⟨filter id inner first, around, houter, ?_⟩
    rw [analyze, analyzePredicates_eq_map]
  | _ => cases heq

theorem of_path_append {first : Expr} {es rest : List Expr}
    (h : (path id (first :: (es ++ rest))).IsAnalyzedAt outer) :
    (path id (first :: es)).IsAnalyzedAt outer := by
  obtain ⟨written, around, houter, heq⟩ := h
  cases written with
  | path own steps =>
    cases steps with
    | nil => cases heq
    | cons e later =>
      obtain ⟨rfl, hsteps⟩ := path.inj heq
      obtain ⟨rfl, hlater⟩ := List.cons.inj hsteps
      rw [analyzeAll_eq_map, eq_comm, List.map_eq_append_iff] at hlater
      obtain ⟨own, _, rfl, rfl, rfl⟩ := hlater
      refine ⟨path id (e :: own), around, houter, ?_⟩
      rw [analyze, analyzeSteps, analyzeAll_eq_map]
  | _ => cases heq

end IsAnalyzedAt

/-! ### Conditions that are reached -/

/-- **A condition is reached in an expression** without leaving an extent of the nodes that the
expression starts from: by the operand of the condition, and by all that leads to the item whose
predicate it is.  The text that `starts-with` looks for is not the empty one. -/
inductive Reached (extent : Extent) (o : Optimizable) : Expr → Prop
  | condition {e : Expr} (hfound : e.optimizable? = some o)
      (hsides : ∀ side ∈ e.sides, side.staysIn extent = true ∨ ∃ value, side = literal value)
      (hkey : o.probe.op = .startsWith → o.probe.key ≠ .string "") : Reached extent o e
  | step {head : StepHead} {ps : List Predicate} {p : Predicate}
      (haxis : extent.admits head.axis = true) (hp : p ∈ ps) (h : Reached extent o p.expr) :
      Reached extent o (step head ps)
  | filter {id : ExprId} {base : Expr} {ps : List Predicate} {p : Predicate}
      (hbase : base.staysIn extent = true) (hp : p ∈ ps) (h : Reached extent o p.expr) :
      Reached extent o (filter id base ps)
  | first {id : ExprId} {e : Expr} {rest : List Expr} (h : Reached extent o e) :
      Reached extent o (path id (e :: rest))
  | later {id : ExprId} {e : Expr} {rest : List Expr} (he : e.staysIn extent = true)
      (h : Reached extent o (path id rest)) : Reached extent o (path id (e :: rest))

/-- Only comparisons and calls have a probe. -/
theorem Reached.probe_eq {extent : Extent} {o : Optimizable} {e : Expr} (h : Reached extent o e)
    {id : ExprId} {p : IndexProbe} (hprobe : e.probe? = some (id, p)) : p = o.probe := by
  cases h with
  | condition hfound =>
    exact (Prod.mk.inj (Option.some.inj (hprobe.symm.trans (probe?_of_optimizable? hfound)))).2
  | _ => cases hprobe

/-- What stays below stays in the document. -/
theorem staysIn_document (e : Expr) : e.staysIn .below = true → e.staysIn .document = true := by
  induction e using Expr.induct with
  | path id steps ih => exact fun h => allStayIn_iff.2 fun e he => ih e he (allStayIn_iff.1 h e he)
  | sequence items ih => exact fun h => allStayIn_iff.2 fun e he => ih e he (allStayIn_iff.1 h e he)
  | filter id base ps ih => exact ih
  | step | root => exact fun _ => rfl
  | _ => exact fun h => absurd h Bool.false_ne_true

/-- What is reached below is reached in the document. -/
theorem Reached.document {o : Optimizable} {e : Expr} (h : Reached .below o e) :
    Reached .document o e := by
  induction h with
  | condition hfound hsides hkey =>
    exact .condition hfound (fun side hside => (hsides side hside).imp_left (staysIn_document side)) hkey
  | step _ hp _ ih => exact .step rfl hp ih
  | filter hbase hp _ ih => exact .filter (staysIn_document _ hbase) hp ih
  | first _ ih => exact .first ih
  | later he _ ih => exact .later (staysIn_document _ he) ih

theorem conditions_filter {id : ExprId} {base : Expr} {ps : List Predicate} :
    (filter id base ps).conditions = ps.flatMap fun p => p.expr.conditions :=
  map_fst_predicateOptimizables (fun p _ => map_fst_optimizables p.expr) none 0

/-- A condition is the only one in itself. -/
theorem conditions_of_optimizable? {e : Expr} {o : Optimizable} (h : e.optimizable? = some o) :
    e.conditions = [o] := by
  have hself : e.conditions = e.optimizable?.toList := by
    cases e with
    | comparison => exact map_fst_found none _
    | call => exact map_fst_found none _
    | _ => cases h
  rw [hself, h]
  rfl

/-- What is reached is recorded. -/
theorem Reached.mem_conditions {extent : Extent} {o : Optimizable} {e : Expr}
    (h : Reached extent o e) : o ∈ e.conditions := by
  induction h with
  | condition hfound =>
    rw [conditions_of_optimizable? hfound]
    exact List.mem_singleton_self _
  | step _ hp _ ih => exact conditions_subset_step hp ih
  | filter _ hp _ ih =>
    rw [conditions_filter]
    exact List.mem_flatMap.2 ⟨_, hp, ih⟩
  | first _ ih => exact conditions_subset_path List.mem_cons_self ih
  | later _ _ ih =>
    rw [conditions_path] at ih ⊢
    exact List.mem_append_right _ ih

/-! ### Evidence -/

end Expr

/-- **A hit of a probe lies within an extent of a node.** -/
def IndexProbe.HitsIn (p : IndexProbe) (s : Store) (extent : Extent) (n : Node) : Prop :=
  ∃ m, s.Hits p.name p.op p.key m ∧ extent.Spans n m

theorem IndexProbe.HitsIn.mono {p : IndexProbe} {extent : Extent} {n a : Node}
    (h : p.HitsIn s extent n) (hspans : extent.Spans a n) : p.HitsIn s extent a := by
  obtain ⟨m, hm, hn⟩ := h
  exact ⟨m, hm, hspans.trans hn⟩

/-- **A hit of a probe qualifies a node**, as far as the relation of the probe tells. -/
def IndexProbe.Qualifies (p : IndexProbe) (s : Store) (n m : Node) : Prop :=
  s.Hits p.name p.op p.key m ∧ ∀ relation, p.relation = some relation → relation.Relates n m

namespace Expr

variable {extent : Extent} {o : Optimizable} {outer : Option OuterStep} {e : Expr}

theorem isPragmaFree_simpleSteps (heads : List StepHead) :
    ∀ e ∈ heads.map (Expr.step · []), e.IsPragmaFree := by
  intro e he
  obtain ⟨head, _, rfl⟩ := List.mem_map.1 he
  exact isPragmaFree_simpleStep head

/-- What the last of some steps without predicates leads to passes its test. -/
theorem passes_of_simpleSteps (hs : s.IsReliable) (hσ : σ.IsBare) {last : StepHead}
    {heads : List StepHead} :
    ∀ {head focus context w}, (head :: heads).getLast? = some last →
      contextSet s focus = .ok context → (∀ n ∈ context.set, s.Has n) →
        (σ.outcome ((Expr.step head []).evaluate s focus) >>= fun v =>
          σ.outcome (evaluateSteps s (heads.map (Expr.step · [])) v)) = .ok w →
            ∀ m, .node m ∈ w.toItems → s.Passes last.axis last.test m := by
  induction heads with
  | nil =>
    intro head focus context w hlast hcontext hhas hw m hm
    obtain rfl := Option.some.inj hlast
    obtain ⟨next, hnext, hw⟩ := bind_eq_ok.1 hw
    obtain rfl := Except.ok.inj ((outcome_evaluateSteps_nil _).symm.trans hw)
    obtain ⟨_, heq, hm⟩ := selectedBy_of_outcome hs hσ (isPragmaFree_simpleStep head) hcontext hhas
      hnext _ hm
    exact Item.node.inj heq ▸ hm.passes
  | cons second rest ih =>
    intro head focus context w hlast hcontext hhas hw m hm
    obtain ⟨next, hnext, hw⟩ := bind_eq_ok.1 hw
    have hselected := selectedBy_of_outcome hs hσ (isPragmaFree_simpleStep head) hcontext hhas hnext
    rw [List.map_cons, outcome_evaluateSteps_cons (isPragmaFree_simpleSteps (second :: rest))] at hw
    split_ifs at hw
    · obtain rfl := Except.ok.inj hw
      cases hm
    · obtain ⟨shared, hshared, hw⟩ := bind_eq_ok.1 hw
      have hcontext : contextSet s (.on (.nodes shared)) = .ok shared := rfl
      refine ih (List.getLast?_cons_cons ▸ hlast) hcontext (fun n hn => ?_) hw m hm
      obtain ⟨_, heq, hn⟩ := hselected _ (Sequence.mem_toItems_of_toShared hshared hn)
      exact Item.node.inj heq ▸ hn.has

/-- **What a path without predicates leads to passes the test of its last step.** -/
theorem passes_of_simple (hs : s.IsReliable) (hσ : σ.IsBare) {heads : List StepHead}
    (hheads : Target.simpleSteps? e = some heads) {last : StepHead}
    (hlast : heads.getLast? = some last) {focus : Focus} {context : SharedSet}
    (hcontext : contextSet s focus = .ok context) (hhas : ∀ n ∈ context.set, s.Has n)
    {v : Sequence} (hv : σ.outcome (e.evaluate s focus) = .ok v) :
    ∀ m, .node m ∈ v.toItems → s.Passes last.axis last.test m := by
  rcases simpleSteps?_eq_some hheads with ⟨id, rfl⟩ | ⟨head, rfl, rfl⟩
  · cases heads with
    | nil => cases hlast
    | cons head rest =>
      rw [List.map_cons, outcome_path_cons
        (isPragmaFree_path.2 (isPragmaFree_simpleSteps (head :: rest)))] at hv
      exact passes_of_simpleSteps hs hσ hlast hcontext hhas hv
  · have hw : (σ.outcome ((Expr.step head []).evaluate s focus) >>= fun v =>
        σ.outcome (evaluateSteps s ([].map (Expr.step · [])) v)) = .ok v := by
      rw [hv, ok_bind]
      exact outcome_evaluateSteps_nil v
    exact passes_of_simpleSteps hs hσ hlast hcontext hhas hw

/-- A sequence that lies within an extent consists of nodes. -/
theorem consists_of_liesIn {v : Sequence} {set : NodeSet}
    (h : v.LiesIn s extent set) : v.Consists fun m => .node m ∈ v.toItems := by
  refine ⟨v.toItems.filterMap Item.node?, ?_, fun m => mem_filterMap_node?⟩
  have hall : ∀ items : List Item, (∀ item ∈ items, ∃ m, item = .node m) →
      items = (items.filterMap Item.node?).map .node := by
    intro items
    induction items with
    | nil => exact fun _ => rfl
    | cons item rest ih =>
      intro hitems
      obtain ⟨m, rfl⟩ := hitems item List.mem_cons_self
      exact congrArg (Item.node m :: ·) (ih fun item hitem => hitems item (List.mem_cons_of_mem _ hitem))
  exact hall v.toItems fun item hitem => let ⟨m, hm, _⟩ := h item hitem; ⟨m, hm⟩

/-- **Nodes to start from:** the store has them, in the given documents, and they bear the name that
the outer step asks for. -/
structure StandsAt (s : Store) (docs : DocId → Prop) (outer : Option OuterStep) (set : NodeSet) :
    Prop where
  has : ∀ n ∈ set, s.Has n
  docs : ∀ n ∈ set, docs n.doc
  suits : ∀ n ∈ set, SuitsOuter s outer n

theorem StandsAt.single {n : Node} (hhas : s.Has n) (hdoc : docs n.doc)
    (hsuits : SuitsOuter s outer n) : StandsAt s docs outer (s.persistent [n]) := by
  have hsingle : ∀ x ∈ s.persistent [n], x = n := fun _ hx => mem_persistent_single.1 hx
  exact ⟨fun x hx => hsingle x hx ▸ hhas, fun x hx => hsingle x hx ▸ hdoc,
    fun x hx => hsingle x hx ▸ hsuits⟩

theorem isPragmaFree_of_mem_sides (hfree : e.IsPragmaFree) {side : Expr} (hside : side ∈ e.sides) :
    side.IsPragmaFree := by
  cases e with
  | comparison id op left right access =>
    obtain ⟨hleft, hright⟩ := isPragmaFree_comparison.1 hfree
    rcases List.mem_cons.1 hside with rfl | hside
    · exact hleft
    · exact List.mem_singleton.1 hside ▸ hright
  | call id function args access => exact hfree.mono (parts_subset_call hside)
  | _ => cases hside

/-- **A node whose text answers a condition bears the name that is looked up.** -/
theorem bears_of_reached (hs : s.IsReliable) (hσ : σ.IsBare) {target : Target}
    (htarget : Target.of? e outer = some target) {focus : Focus} {context : SharedSet}
    (hcontext : contextSet s focus = .ok context) (hset : StandsAt s docs outer context.set)
    {v : Sequence} (hv : σ.outcome (e.evaluate s focus) = .ok v) {m : Node} (hhas : s.Has m)
    (hm : .node m ∈ v.toItems) : s.Bears m target.name := by
  have hlast : ∀ heads last q, Target.simpleSteps? e = some heads → heads.getLast? = some last →
      last.test = .name q → s.Bears m ⟨last.axis.nameType, q⟩ := by
    intro heads last q hheads hlast htest
    have hpasses := passes_of_simple hs hσ hheads hlast hcontext hset.has hv m hm
    rw [htest] at hpasses
    exact (Store.passes_name_iff hhas).1 hpasses
  rcases Target.of?_cases htarget with ⟨head, step, name, hheads, haxis, rfl, hname, _, rfl⟩ |
    ⟨head, q, hheads, htest, rfl⟩ | ⟨first, second, rest, last, q, hheads, hgetLast, htest, rfl⟩
  -- A path that stays on its node is looked up under the name that the outer step asks for.
  · have hstraight : ∀ own ∈ [head], own.axis.isStraight = true := fun own hown => by
      rw [List.mem_singleton.1 hown, haxis]
      rfl
    obtain ⟨_, reached, hreached, hconsists⟩ := outcome_simple hσ hs.answering hheads (List.cons_ne_nil _ _)
      hstraight hcontext hset.has
    obtain rfl := Except.ok.inj (hreached.symm.trans hv)
    obtain ⟨n, hn, x, ⟨hleads, _⟩, rfl⟩ := hconsists.mem.1 hm
    rw [haxis] at hleads
    obtain rfl : m = n := hleads
    exact hset.suits m hn step name rfl hname
  · exact hlast _ head q hheads rfl htest
  · exact hlast _ last q hheads hgetLast htest

/-- **What a single step leads to stands in its relation** to a node that it starts from. -/
theorem exists_relates_of_reached (hs : s.IsReliable) (hσ : σ.IsBare) {target : Target}
    {relation : Relation} (htarget : Target.of? e outer = some target)
    (hrelation : target.relation = some relation) {focus : Focus} {context : SharedSet}
    (hcontext : contextSet s focus = .ok context) (hhas : ∀ n ∈ context.set, s.Has n)
    {v : Sequence} (hv : σ.outcome (e.evaluate s focus) = .ok v) {m : Node}
    (hm : .node m ∈ v.toItems) (hbears : s.Bears m target.name) :
    ∃ n ∈ context.set, relation.Relates n m := by
  obtain ⟨head, hheads, hcase⟩ := Target.of?_of_relation htarget hrelation
  have hstraight : ∀ own ∈ [head], own.axis.isStraight = true := by
    intro own hown
    obtain rfl := List.mem_singleton.1 hown
    rcases hcase with ⟨_, _, _, hon⟩ | ⟨haxis, _⟩
    · exact Target.isStraight_of_relationOn hon
    · rw [haxis]
      rfl
  obtain ⟨_, reached, hreached, hconsists⟩ := outcome_simple hσ hs.answering hheads (List.cons_ne_nil _ _)
    hstraight hcontext hhas
  obtain rfl := Except.ok.inj (hreached.symm.trans hv)
  obtain ⟨n, hn, x, ⟨hleads, _⟩, rfl⟩ := hconsists.mem.1 hm
  refine ⟨n, hn, ?_⟩
  rcases hcase with ⟨q, _, hname, hon⟩ | ⟨haxis, rfl, _⟩
  · exact (Target.leads_iff_relates hon (hname ▸ hbears)).1 hleads
  · rw [haxis] at hleads
    exact hleads

/-- **A condition that is true has a hit** that qualifies a node that it starts from and is within
its extent. -/
theorem exists_hit_of_condition (hs : s.IsReliable) (hσ : σ.IsBare) (hfree : e.IsPragmaFree)
    (hanalyzed : e.IsAnalyzedAt outer) (hfound : e.optimizable? = some o)
    (hsides : ∀ side ∈ e.sides, side.staysIn extent = true ∨ ∃ value, side = literal value)
    (hkey : o.probe.op = .startsWith → o.probe.key ≠ .string "")
    (hcovers : o.probe.CoversDocs s docs) {focus : Focus} {context : SharedSet}
    (hcontext : contextSet s focus = .ok context) (hset : StandsAt s docs outer context.set)
    {v : Sequence} (hv : σ.outcome (e.evaluate s focus) = .ok v) (haffirms : v.Affirms) :
    ∃ n ∈ context.set, ∃ m, o.probe.Qualifies s n m ∧ extent.Spans n m := by
  obtain ⟨path, hasks⟩ := exists_asks (hanalyzed.probed? (probe?_of_optimizable? hfound))
  obtain ⟨target, htarget, hprobe⟩ := hasks.target
  obtain ⟨reached, b, hreached, rfl, hiff⟩ := outcome_condition hasks hfree hkey hv
  have hpath : path.staysIn extent = true := by
    refine (hsides path hasks.mem_sides).resolve_right ?_
    rintro ⟨value, rfl⟩
    cases htarget
  have hlies : reached.LiesIn s extent context.set := leadsWithin_of_staysIn hs hσ path hpath
    (isPragmaFree_of_mem_sides hfree hasks.mem_sides) focus context reached hcontext hset.has hreached
  have htrue : b = true := by
    cases b with
    | true => rfl
    | false => exact absurd rfl haffirms.2
  obtain ⟨m, hm, hanswers⟩ := (hiff _ (consists_of_liesIn hlies) (fun m hm => (hlies.has hm).1)
    fun m hm => by
      obtain ⟨hmem, n, hn, hspans⟩ := hlies.has hm
      exact hcovers.suits hs hmem (hspans.doc_eq ▸ hset.docs n hn)).1 htrue
  obtain ⟨hhas, n, hn, hspans⟩ := hlies.has hm
  have hname : o.probe.name = target.name := by rw [hprobe]; rfl
  have hbears := bears_of_reached hs hσ htarget hcontext hset hreached hhas hm
  have hhits : s.Hits o.probe.name o.probe.op o.probe.key m :=
    Store.hits_iff.2 ⟨hname ▸ hbears, hanswers⟩
  cases hrelation : o.probe.relation with
  | none =>
    refine ⟨n, hn, m, ⟨hhits, fun relation hsome => ?_⟩, hspans⟩
    cases hrelation.symm.trans hsome
  | some relation =>
    have htargetRelation : target.relation = some relation := by
      rw [← hrelation, hprobe]
      rfl
    obtain ⟨x, hx, hrelates⟩ := exists_relates_of_reached hs hσ htarget htargetRelation hcontext
      hset.has hreached hm hbears
    refine ⟨x, hx, m, ⟨hhits, fun relation' hsome => ?_⟩, Extent.spans_of_within hrelates.within⟩
    obtain rfl := Option.some.inj (hrelation.symm.trans hsome)
    exact hrelates

/-- **An item that a predicate accepts is evidence** for each condition reached in it. -/
theorem exists_hit_of_accepts {p : Predicate} {m : Node} (hreached : Reached extent o p.expr)
    (hhas : s.Has m) (hdoc : docs m.doc) (hsuits : SuitsOuter s outer m)
    (hvalue : ∀ focus context v, contextSet s focus = .ok context →
      StandsAt s docs outer context.set → σ.outcome (p.expr.evaluate s focus) = .ok v → v.Affirms →
        ∃ n ∈ context.set, o.probe.HitsIn s extent n)
    (h : p.expr.Accepts s σ (.node m)) : o.probe.HitsIn s extent m := by
  cases h with
  | byIndex hprobe hrelation hrelates hhits =>
    obtain rfl := hreached.probe_eq hprobe
    exact ⟨_, hhits, Extent.spans_of_within hrelates.within⟩
  | @byItem persistent _ v position hv hselects =>
    obtain ⟨n, hn, hhits⟩ := hvalue (itemFocus persistent (.node m)) ⟨s.persistent [m], none⟩ v rfl
      (.single hhas hdoc hsuits) hv (Sequence.affirms_of_selects hselects)
    obtain rfl := (mem_persistent_single (s := s)).1 hn
    exact hhits

theorem suitsOuter_none (n : Node) : SuitsOuter s none n := fun _ _ h => nomatch h

/-- **A value that affirms something is evidence:** each condition that is reached has a hit within
the extent of a node that the expression starts from. -/
theorem exists_hit_of_affirms (hs : s.IsReliable) (hσ : σ.IsBare) (hreached : Reached extent o e)
    (hcovers : o.probe.CoversDocs s docs) :
    ∀ {outer focus context v}, e.IsPragmaFree → e.IsAnalyzedAt outer →
      contextSet s focus = .ok context → StandsAt s docs outer context.set →
        σ.outcome (e.evaluate s focus) = .ok v → v.Affirms →
          ∃ n ∈ context.set, o.probe.HitsIn s extent n := by
  -- The induction follows the way to the condition; only the nodes to start from change on it.
  induction hreached with
  | condition hfound hsides hkey =>
    intro outer focus context v hfree hanalyzed hcontext hset hv haffirms
    obtain ⟨n, hn, m, hqualifies, hspans⟩ := exists_hit_of_condition hs hσ hfree hanalyzed hfound
      hsides hkey hcovers hcontext hset hv haffirms
    exact ⟨n, hn, m, hqualifies.1, hspans⟩
  | @step head ps p haxis hp h ih =>
    intro outer focus context v hfree hanalyzed hcontext hset hv haffirms
    obtain ⟨item, hitem⟩ := List.exists_mem_of_ne_nil _ haffirms.1
    obtain ⟨m, rfl, hm⟩ := selectedBy_of_outcome hs hσ hfree hcontext hset.has hv item hitem
    obtain ⟨n, hn, l, hl, hmem⟩ := hm.along
    have hspans := Extent.spans_of_along hs.indexed haxis (hset.has n hn) hl hmem
    refine ⟨n, hn, IndexProbe.HitsIn.mono ?_ hspans⟩
    exact exists_hit_of_accepts h hm.has (hspans.doc_eq ▸ hset.docs n hn)
      (suitsOuter_of_passes hm.has hm.passes)
      (fun focus context v => ih (hfree.mono (parts_subset_step hp)) (hanalyzed.of_step hp))
      (hm.accepted p hp)
  | @filter id base ps p hbase hp h ih =>
    intro outer focus context v hfree hanalyzed hcontext hset hv haffirms
    obtain ⟨hfreeBase, hfreePs⟩ := isPragmaFree_filter.1 hfree
    rw [outcome_filter hfree] at hv
    obtain ⟨value, hvalue, hv⟩ := bind_eq_ok.1 hv
    have hlies := leadsWithin_of_staysIn hs hσ base hbase hfreeBase focus context value hcontext
      hset.has hvalue
    obtain ⟨item, hitem⟩ := List.exists_mem_of_ne_nil _ haffirms.1
    obtain ⟨hmem, haccepted⟩ := accepts_of_applyPredicates hs hfreePs (fun n hn => (hlies.has hn).1)
      hv item hitem
    obtain ⟨m, rfl, hm, n, hn, hspans⟩ := hlies item hmem
    refine ⟨n, hn, IndexProbe.HitsIn.mono ?_ hspans⟩
    exact exists_hit_of_accepts h hm (hspans.doc_eq ▸ hset.docs n hn) (suitsOuter_none m)
      (fun focus context v => ih (hfreePs p hp) (hanalyzed.of_filter.2 p hp)) (haccepted p hp)
  | @first id e rest h ih =>
    intro outer focus context v hfree hanalyzed hcontext hset hv haffirms
    have hsteps := isPragmaFree_path.1 hfree
    rw [outcome_path_cons hfree] at hv
    obtain ⟨value, hvalue, hv⟩ := bind_eq_ok.1 hv
    refine ih (hsteps e List.mem_cons_self) hanalyzed.of_path.1 hcontext hset hvalue ?_
    cases rest with
    | nil =>
      rw [outcome_evaluateSteps_nil] at hv
      exact Except.ok.inj hv ▸ haffirms
    | cons second later =>
      rw [outcome_evaluateSteps_cons fun e he => hsteps e (List.mem_cons_of_mem _ he)] at hv
      split_ifs at hv with hempty
      · exact absurd (Except.ok.inj hv ▸ haffirms) Sequence.not_affirms_empty
      · obtain ⟨shared, hshared, _⟩ := bind_eq_ok.1 hv
        exact Sequence.affirms_of_toShared hempty hshared
  | @later id e rest he h ih =>
    intro outer focus context v hfree hanalyzed hcontext hset hv haffirms
    have hsteps := isPragmaFree_path.1 hfree
    rw [outcome_path_cons hfree] at hv
    obtain ⟨value, hvalue, hv⟩ := bind_eq_ok.1 hv
    have hlies := leadsWithin_of_staysIn hs hσ e he (hsteps e List.mem_cons_self) focus context value
      hcontext hset.has hvalue
    cases rest with
    | nil => cases h.mem_conditions
    | cons second later =>
      have hlater := fun e he => hsteps e (List.mem_cons_of_mem _ he)
      rw [outcome_evaluateSteps_cons hlater] at hv
      split_ifs at hv with hempty
      · exact absurd (Except.ok.inj hv ▸ haffirms) Sequence.not_affirms_empty
      · obtain ⟨shared, hshared, hv⟩ := bind_eq_ok.1 hv
        have hlies := fun x (hx : x ∈ shared.set) =>
          hlies.has (Sequence.mem_toItems_of_toShared hshared hx)
        have hcontext : contextSet s (.on (.nodes shared)) = .ok shared := rfl
        have hset : StandsAt s docs none shared.set := by
          refine ⟨fun x hx => (hlies x hx).1, fun x hx => ?_, fun x _ => suitsOuter_none x⟩
          obtain ⟨_, n, hn, hspans⟩ := hlies x hx
          exact hspans.doc_eq ▸ hset.docs n hn
        obtain ⟨x, hx, hhits⟩ := ih (isPragmaFree_path.2 hlater) (hanalyzed.of_path.2 id) hcontext hset
          ((outcome_path_cons (isPragmaFree_path.2 hlater) _).trans hv) haffirms
        obtain ⟨_, n, hn, hspans⟩ := hlies x hx
        exact ⟨n, hn, hhits.mono hspans⟩

end Expr
end IndexedXml
