/-
# Positions among candidates

Candidates prepared for the first step of a path lack the nodes without a hit of some condition.
A predicate before the first position does not accept such a node anyway when the condition is its
own, so a position counts the same nodes.  A condition that comes later, in a predicate after the
position or in a further step, takes away nodes that the position counts
(`Expr.not_evaluate_optimize_of_positions_first`).  Where no condition comes after a position, the
pragma `optimize` leaves the items as they are (`Expr.evaluate_optimize_of_positions`).
-/

import Mathlib.Data.List.TakeWhile
import IndexedXml.Proofs.Query.Contributions
import IndexedXml.Proofs.Query.NarrowedContext

namespace IndexedXml

open Evaluation Setting

variable {s : Store} {σ : Setting} {docs : DocId → Prop} {extent : Extent}

namespace Expr

variable {e : Expr} {o : Optimizable} {head : StepHead} {ps : List Predicate} {rest : List Expr}
  {q : QName}

/-! ### Predicates before a position -/

/-- The predicates before the first one that may select by position. -/
def beforePosition (ps : List Predicate) : List Predicate := ps.takeWhile (·.mode == .boolean)

/-- The first predicate that may select by position, with those after it. -/
def fromPosition (ps : List Predicate) : List Predicate := ps.dropWhile (·.mode == .boolean)

theorem beforePosition_append (ps : List Predicate) : beforePosition ps ++ fromPosition ps = ps :=
  List.takeWhile_append_dropWhile

theorem mem_of_mem_beforePosition {p : Predicate} (h : p ∈ beforePosition ps) : p ∈ ps :=
  beforePosition_append ps ▸ List.mem_append_left _ h

theorem mem_of_mem_fromPosition {p : Predicate} (h : p ∈ fromPosition ps) : p ∈ ps :=
  beforePosition_append ps ▸ List.mem_append_right _ h

theorem mem_beforePosition_or_mem_fromPosition {p : Predicate} (h : p ∈ ps) :
    p ∈ beforePosition ps ∨ p ∈ fromPosition ps :=
  List.mem_append.1 (by rwa [beforePosition_append])

/-- Without positions all predicates come before one. -/
theorem beforePosition_eq_self (h : hasPositional ps = false) : beforePosition ps = ps := by
  refine List.takeWhile_eq_self_iff.2 fun p hp => ?_
  have hmode := List.any_eq_false.1 h p hp
  cases hp' : p.mode with
  | boolean => rfl
  | positional =>
    rw [hp'] at hmode
    exact absurd rfl hmode

/-- **No condition comes after a position** that the first step of a path counts. -/
def PositionsLast (ps : List Predicate) (rest : List Expr) : Prop :=
  hasPositional ps = true →
    (∀ p ∈ fromPosition ps, p.expr.conditions = []) ∧ ∀ e ∈ rest, e.conditions = []

/-- **The conditions of a path look down:** each is reached from the nodes of the first step without
leaving what is at or below them. -/
structure LooksDown (ps : List Predicate) (rest : List Expr) : Prop where
  predicates : ∀ p ∈ ps, ∀ o ∈ p.expr.conditions, Reached .below o p.expr
  further : ∀ id, ∀ o ∈ (path id rest).conditions, Reached .below o (path id rest)

/-! ### What discovery finds -/

theorem BeginsWith.firstStep? (h : BeginsWith e head ps rest) : e.firstStep? = some (head, ps) := by
  cases h <;> rfl

/-- Conditions are owned from outside, or by a step among the parts. -/
theorem owner_eq_or_exists_step {id : ExprId} {place : Nat} (e : Expr) :
    ∀ owner, (o, some (id, place)) ∈ e.optimizables owner →
      owner = some (id, place) ∨ ∃ head ps, .expr (.step head ps) ∈ e.parts ∧ head.id = id := by
  induction e using Expr.induct with
  | path own steps ih =>
    intro owner h
    obtain ⟨e, he, h⟩ := mem_optimizablesOf h
    rcases ih e he owner h with howner | ⟨head, ps, hpart, hid⟩
    · exact .inl howner
    · exact .inr ⟨head, ps, parts_subset_path he hpart, hid⟩
  | step own ps ih =>
    intro owner h
    obtain ⟨p, hp, _, h⟩ := mem_predicateOptimizables h
    rcases ih p hp _ h with howner | ⟨head, ps', hpart, hid⟩
    · exact .inr ⟨own, ps, self_mem_parts _, (Prod.mk.inj (Option.some.inj howner)).1⟩
    · exact .inr ⟨head, ps', parts_subset_step hp hpart, hid⟩
  | filter own base ps _ ih =>
    intro owner h
    obtain ⟨p, hp, _, h⟩ := mem_predicateOptimizables h
    rcases ih p hp _ h with howner | ⟨head, ps', hpart, hid⟩
    · cases howner
    · exact .inr ⟨head, ps', parts_subset_filter hp hpart, hid⟩
  | comparison | call =>
    intro owner h
    obtain ⟨_, _, heq⟩ := List.mem_map.1 h
    exact .inl (Prod.mk.inj heq).2
  | _ => exact fun owner h => absurd h List.not_mem_nil

/-- **The first condition that a step owns is one of its predicates,** if they have no other. -/
theorem BeginsWith.exists_predicate (hbegins : BeginsWith e head ps rest) (hnumbers : e.numbers.Nodup)
    (hown : ∀ p ∈ ps, p.expr.optimizable? ≠ none ∨ p.expr.conditions = []) {place : Nat}
    (hfirst : (e.optimizables none).head? = some (o, some (head.id, place))) :
    ∃ p ∈ ps, p.expr.optimizable? = some o := by
  have hmem : (o, some (head.id, place)) ∈
      (Expr.step head ps).optimizables none ++ optimizablesOf none rest := by
    have hfound := List.mem_of_mem_head? hfirst
    cases hbegins with
    | step => exact List.mem_append_left _ hfound
    | path => exact hfound
    | rooted => exact hfound
  rcases List.mem_append.1 hmem with hmem | hmem
  · obtain ⟨p, hp, place', hfound⟩ := mem_predicateOptimizables hmem
    have hcondition : o ∈ p.expr.conditions := by
      rw [← map_fst_optimizables p.expr (some (head.id, place'))]
      exact List.mem_map_of_mem hfound
    rcases hown p hp with hsome | hnone
    · obtain ⟨o', ho'⟩ := Option.ne_none_iff_exists'.1 hsome
      rw [conditions_of_optimizable? ho'] at hcondition
      exact ⟨p, hp, List.mem_singleton.1 hcondition ▸ ho'⟩
    · rw [hnone] at hcondition
      cases hcondition
  · obtain ⟨e', he', hfound⟩ := mem_optimizablesOf hmem
    rcases owner_eq_or_exists_step e' none hfound with howner | ⟨head', ps', hpart, hid⟩
    · cases howner
    · exact absurd hid ((hbegins.lacks hnumbers).2 e' he' head' ps' hpart)

/-! ### A step with candidates -/

variable {set part candidates : NodeSet} {conditions : List Optimizable} {v : Sequence}

/-- **The candidates for a step keep what matters:** the nodes that pass its test, that some of
its predicates accept and that have a hit of every further condition. -/
structure KeepsAccepted (s : Store) (σ : Setting) (docs : DocId → Prop) (head : StepHead)
    (ps : List Predicate) (q : QName) (conditions : List Optimizable) (candidates : NodeSet) :
    Prop where
  given : candidates.IsGiven s docs
  bears : ∀ n ∈ candidates, s.Bears n ⟨head.axis.nameType, q⟩
  keeps : ∀ m, s.Has m → docs m.doc → s.Passes head.axis head.test m →
    (∀ p ∈ ps, p.expr.Accepts s σ (.node m)) → (∀ o ∈ conditions, o.probe.HitsIn s .below m) →
      m ∈ candidates

/-- **A value leaves another of it:** both come to sets, and the second keeps the nodes of the
first that have a hit of every further condition.  Of no nodes it leaves none. -/
def Leaves (s : Store) (docs : DocId → Prop) (conditions : List Optimizable) (part : NodeSet)
    (v v' : Sequence) : Prop :=
  ∃ all found : NodeSet, v.Same (.ofSet all) ∧ v'.Same (.ofSet found) ∧ all.IsGiven s docs ∧
    found.IsGiven s docs ∧ all.KeepsHits found s .below conditions ∧
      ((∀ n, n ∉ part) → ∀ m, m ∉ found)

/-- **A step whose predicates stand** leaves with candidates what matters. -/
theorem leaves_step_standing (hs : s.IsReliable) (hσ : σ.IsBare) (haxis : head.axis ∈ optimizableAxes)
    (htest : head.test = .name q) (hfree : (step head ps).IsPragmaFree)
    (hlacks : ∀ p ∈ ps, p.expr.Lacks head.id) (hstanding : areStanding ps = true)
    (hcovered : AreCovered s docs ps) (hset : set.IsGiven s docs) (hpart : Keeps set part candidates)
    (hkeeps : KeepsAccepted s σ docs head ps q conditions candidates)
    (hv : σ.outcome ((step head ps).evaluate s (.on (.ofSet set))) = .ok v) :
    ∃ v', (σ.preparing head.id candidates).outcome ((step head ps).evaluate s (.on (.ofSet part))) =
      .ok v' ∧ Leaves s docs conditions part v v' := by
  have hpsFree := isPragmaFree_step.1 hfree
  have hps := areDecided_of_areStanding (σ := σ) hstanding hpsFree hcovered
  have hpositional := hasPositional_of_areStanding hstanding
  rw [outcome_step_nonpositional hfree hpositional] at hv
  obtain ⟨found, hfound, hgiven, hmem⟩ := outcome_selectAxis_part hs hσ haxis hset
  obtain ⟨found', hfound', hgiven', hmem'⟩ := outcome_selectAxis_preparing (σ := σ) haxis htest
    hkeeps.given hkeeps.bears part
  have hsub : ∀ m ∈ found', m ∈ found := by
    intro m hm
    obtain ⟨_, n, hn, hled⟩ := (hmem' m).1 hm
    exact (hmem m).2 ⟨n, hpart.sub n hn, hled⟩
  rw [hfound, ok_bind] at hv
  obtain ⟨all, hall, hallGiven, hallMem⟩ := outcome_applyPredicates_part hs hps hgiven hgiven
    (fun _ hm => hm) hv
  obtain ⟨kept, hkept, hkeptGiven, hkeptMem⟩ := outcome_applyPredicates_part hs hps hgiven hgiven'
    hsub hv
  have haccepted := accepts_of_applyPredicates hs hpsFree
    (fun m hm => hgiven.isIn.2 m ((Sequence.collects_ofSet hgiven).mem.1 hm)) hv
  obtain rfl := Except.ok.inj (hall.symm.trans hv)
  refine ⟨.ofSet kept, ?_, all, kept, .refl _, .refl _, hallGiven, hkeptGiven, ⟨fun m hm => ?_,
    fun m hm hhits => ?_⟩, fun hnone m hm => ?_⟩
  · rw [outcome_step_nonpositional hfree hpositional, hfound', ok_bind,
      outcome_applyPredicates_preparing fun p hp => ⟨hpsFree p hp, hlacks p hp⟩]
    exact hkept
  · obtain ⟨hm, hqualifies⟩ := (hkeptMem m).1 hm
    exact (hallMem m).2 ⟨hsub m hm, hqualifies⟩
  · obtain ⟨hm', hqualifies⟩ := (hallMem m).1 hm
    obtain ⟨n, hn, hleads, hpasses⟩ := (hmem m).1 hm'
    have hcandidate := hkeeps.keeps m (hallGiven.isIn.2 m hm) (hallGiven.docs m hm) hpasses
      (haccepted _ ((Sequence.collects_ofSet hallGiven).mem.2 hm)).2 hhits
    refine (hkeptMem m).2 ⟨(hmem' m).2 ⟨hcandidate, n, ?_, hleads, hpasses⟩, hqualifies⟩
    exact hpart.keeps n hn ⟨m, hcandidate, hleads.doc_eq⟩
  · obtain ⟨_, n, hn, _⟩ := (hmem' m).1 ((hkeptMem m).1 hm).1
    exact hnone n hn

/-- Along an axis with candidates positions count forwards. -/
theorem isReverse_of_mem {axis : Axis} (h : axis ∈ optimizableAxes) : axis.isReverse = false := by
  cases axis with
  | parent | ancestor | ancestorOrSelf | precedingSibling => exact absurd h (by decide)
  | _ => rfl

theorem outcome_applyPredicates_position (hfree : ∀ p ∈ ps, p.expr.IsPragmaFree) (v : Sequence) :
    σ.outcome (applyPredicates s ps false v) =
      σ.outcome (applyPredicates s (beforePosition ps) false v) >>= fun kept =>
        σ.outcome (applyPredicates s (fromPosition ps) false kept) := by
  have happend := outcome_applyPredicates_append (s := s) (σ := σ) (v := v) false
    fun p hp => hfree p (beforePosition_append ps ▸ hp)
  rwa [beforePosition_append] at happend

/-- **From one node a step that counts positions has with candidates what it has without,** when it
keeps all that the predicates before the position accept.  From a node without candidates in its
document it has nothing. -/
theorem forNode_preparing (hs : s.IsReliable) (hσ : σ.IsBare) (haxis : head.axis ∈ optimizableAxes)
    (htest : head.test = .name q) (hfree : (step head ps).IsPragmaFree)
    (hlacks : ∀ p ∈ ps, p.expr.Lacks head.id) (hstanding : areStanding (beforePosition ps) = true)
    (hcovered : AreCovered s docs (beforePosition ps)) (hset : set.IsGiven s docs)
    (hpart : Keeps set part candidates)
    (hkeeps : KeepsAccepted s σ docs head (beforePosition ps) q [] candidates) {n : Node}
    (hn : n ∈ set) {own : NodeSet}
    (hown : σ.forNode s head (fun v => σ.outcome (applyPredicates s ps head.axis.isReverse v)) true n =
      .ok own) :
    own.IsGiven s docs ∧
      (n ∈ part → (σ.preparing head.id candidates).forNode s head (fun v =>
        (σ.preparing head.id candidates).outcome (applyPredicates s ps head.axis.isReverse v)) true n =
          .ok own) ∧
      (n ∉ part → ∀ m, m ∉ own) := by
  have hpsFree := isPragmaFree_step.1 hfree
  have hbeforeFree : ∀ p ∈ beforePosition ps, p.expr.IsPragmaFree := fun p hp =>
    hpsFree p (mem_of_mem_beforePosition hp)
  have hfromFree : ∀ p ∈ fromPosition ps, p.expr.IsPragmaFree := fun p hp =>
    hpsFree p (mem_of_mem_fromPosition hp)
  have hps := areDecided_of_areStanding (σ := σ) hstanding hbeforeFree hcovered
  rw [isReverse_of_mem haxis] at hown ⊢
  obtain ⟨found, kept, shared, hfound, hkept, hshared, rfl⟩ := forNode_eq_ok.1 hown
  have hsingle : (NodeSet.ofList [n] true).IsGiven s docs :=
    isGiven_single (hset.isIn.2 n hn) (hset.docs n hn)
  obtain ⟨_, hfound', hgiven, hmem⟩ := outcome_selectAxis_part hs hσ haxis hsingle
  obtain rfl := Except.ok.inj (hfound'.symm.trans hfound)
  obtain ⟨own, rfl, hownGiven⟩ := isGiven_of_applyPredicates hs hpsFree hgiven hkept
  obtain rfl := Except.ok.inj hshared
  rw [outcome_applyPredicates_position hpsFree] at hkept
  obtain ⟨first, hfirst, hlater⟩ := bind_eq_ok.1 hkept
  obtain ⟨all, hall, hallGiven, hallMem⟩ := outcome_applyPredicates_part hs hps hgiven hgiven
    (fun _ hm => hm) hfirst
  have haccepted := accepts_of_applyPredicates hs hbeforeFree
    (fun m hm => hgiven.isIn.2 m ((Sequence.collects_ofSet hgiven).mem.1 hm)) hfirst
  obtain rfl := Except.ok.inj (hall.symm.trans hfirst)
  have hcandidate : ∀ m ∈ all, m ∈ candidates ∧ m.doc = n.doc := by
    intro m hm
    obtain ⟨x, hx, hleads, hpasses⟩ := (hmem m).1 ((hallMem m).1 hm).1
    obtain rfl := (mem_persistent_single (s := s)).1 hx
    exact ⟨hkeeps.keeps m (hallGiven.isIn.2 m hm) (hallGiven.docs m hm) hpasses
      (haccepted _ ((Sequence.collects_ofSet hallGiven).mem.2 hm)).2 fun o ho => absurd ho
        List.not_mem_nil, hleads.doc_eq⟩
  refine ⟨hownGiven, fun hnPart => ?_, fun hnPart m hm => ?_⟩
  · obtain ⟨found', hfound', hgiven', hmem'⟩ := outcome_selectAxis_preparing (σ := σ) haxis htest
      hkeeps.given hkeeps.bears (.ofList [n] true)
    obtain ⟨kept, hkept, hkeptGiven, hkeptMem⟩ := outcome_applyPredicates_part hs hps hgiven hgiven'
      (fun m hm => (hmem m).2 ((hmem' m).1 hm).2) hfirst
    have hsame : kept = all := by
      refine hkeptGiven.isIn.1.ext hallGiven.isIn.1
        (hkeptGiven.persistent.trans hallGiven.persistent.symm) fun m => ?_
      rw [hkeptMem, hallMem, hmem', hmem]
      refine ⟨fun h => ⟨h.1.2, h.2⟩, fun h => ⟨⟨(hcandidate m ?_).1, h.1⟩, h.2⟩⟩
      exact (hallMem m).2 ⟨(hmem m).2 h.1, h.2⟩
    refine forNode_eq_ok.2 ⟨found', .ofSet own, _, hfound', ?_, rfl, rfl⟩
    rw [outcome_applyPredicates_preparing fun p hp => ⟨hpsFree p hp, hlacks p hp⟩,
      outcome_applyPredicates_position hpsFree, hkept, ok_bind, hsame, hlater]
  · have hnone : (Sequence.ofSet all).toItems = [] :=
      congrArg (List.map Item.node) (List.eq_nil_iff_forall_not_mem.2 fun m hm =>
        hnPart (hpart.keeps n hn ⟨m, hcandidate m hm⟩))
    have hnil := toItems_of_applyPredicates hfromFree hnone hlater
    exact List.not_mem_nil (hnil ▸ (Sequence.collects_ofSet hownGiven).mem.2 hm)

/-- **A step that counts positions** has with candidates what it has without. -/
theorem leaves_step_positional (hs : s.IsReliable) (hσ : σ.IsBare) (haxis : head.axis ∈ optimizableAxes)
    (htest : head.test = .name q) (hfree : (step head ps).IsPragmaFree)
    (hlacks : ∀ p ∈ ps, p.expr.Lacks head.id) (hpositional : hasPositional ps = true)
    (hstanding : areStanding (beforePosition ps) = true)
    (hcovered : AreCovered s docs (beforePosition ps)) (hset : set.IsGiven s docs)
    (hpartGiven : part.IsGiven s docs) (hpart : Keeps set part candidates)
    (hkeeps : KeepsAccepted s σ docs head (beforePosition ps) q [] candidates)
    (hv : σ.outcome ((step head ps).evaluate s (.on (.ofSet set))) = .ok v) :
    ∃ v', (σ.preparing head.id candidates).outcome ((step head ps).evaluate s (.on (.ofSet part))) =
      .ok v' ∧ Leaves s docs [] part v v' := by
  rw [outcome_step_positional hfree hpositional, hset.persistent] at hv
  obtain ⟨found, hfound, rfl⟩ := map_eq_ok.1 hv
  let τ := σ.preparing head.id candidates
  let applyAll : Setting → Sequence → Except QueryError Sequence := fun σ v =>
    σ.outcome (applyPredicates s ps head.axis.isReverse v)
  have hnode : ∀ n ∈ set, ∃ own, σ.forNode s head (applyAll σ) true n = .ok own ∧
      own.IsGiven s docs ∧ (n ∈ part → τ.forNode s head (applyAll τ) true n = .ok own) ∧
        (n ∉ part → ∀ m, m ∉ own) := by
    intro n hn
    obtain ⟨own, hown⟩ := (mem_byNode hfound).1 n hn
    exact ⟨own, hown, forNode_preparing hs hσ haxis htest hfree hlacks hstanding hcovered hset hpart
      hkeeps hn hown⟩
  have hdirect : ∀ n ∈ set.nodes, ∃ own, σ.forNode s head (applyAll σ) true n = .ok own ∧
      own.IsGiven s docs := fun n hn =>
    let ⟨own, hown, hgiven, _⟩ := hnode n hn
    ⟨own, hown, hgiven⟩
  have hprepared : ∀ n ∈ part.nodes, ∃ own, τ.forNode s head (applyAll τ) true n = .ok own ∧
      own.IsGiven s docs := fun n hn =>
    let ⟨own, _, hgiven, hown, _⟩ := hnode n (hpart.sub n hn)
    ⟨own, hown hn, hgiven⟩
  obtain ⟨found', hfound', hcollects'⟩ := exists_byNode hprepared
  obtain ⟨_, hfound'', hcollects⟩ := exists_byNode hdirect
  obtain rfl := Except.ok.inj (hfound''.symm.trans hfound)
  obtain ⟨all, hall, hallGiven, hallMem⟩ := hcollects.exists_same
  obtain ⟨kept, hkept, hkeptGiven, hkeptMem⟩ := hcollects'.exists_same
  refine ⟨.ofSet found', ?_, all, kept, hall, hkept, hallGiven, hkeptGiven, ⟨fun m hm => ?_,
    fun m hm _ => ?_⟩, fun hnone m hm => ?_⟩
  · rw [outcome_step_positional hfree hpositional, hpartGiven.persistent, hfound']
    rfl
  · obtain ⟨n, hn, own, hown, hmem⟩ := (hkeptMem m).1 hm
    obtain ⟨own', hown', _, hsame, _⟩ := hnode n (hpart.sub n hn)
    obtain rfl := Except.ok.inj ((hsame hn).symm.trans hown)
    exact (hallMem m).2 ⟨n, hpart.sub n hn, own', hown', hmem⟩
  · obtain ⟨n, hn, own, hown, hmem⟩ := (hallMem m).1 hm
    obtain ⟨own', hown', _, hsame, hnothing⟩ := hnode n hn
    obtain rfl := Except.ok.inj (hown'.symm.trans hown)
    by_cases hnPart : n ∈ part
    · exact (hkeptMem m).2 ⟨n, hnPart, own', hsame hnPart, hmem⟩
    · exact absurd hmem (hnothing hnPart m)
  · obtain ⟨n, hn, _⟩ := (hkeptMem m).1 hm
    exact hnone n hn

/-- No candidates are prepared along the other axes. -/
theorem outcome_selectAxis_unprepared (haxis : head.axis ∉ optimizableAxes) (context : NodeSet) :
    (σ.preparing head.id candidates).outcome (selectAxis s head context) =
      σ.outcome (selectAxis s head context) := by
  have hnone : ∀ prepared, relatePrepared? head.axis prepared context = none := by
    intro prepared
    cases haxis' : head.axis with
    | parent | ancestor | ancestorOrSelf | followingSibling | precedingSibling => rfl
    | _ =>
      rw [haxis'] at haxis
      exact absurd (by decide) haxis
  have hbind : ∀ prepared : Option NodeSet,
      prepared.bind (relatePrepared? head.axis · context) = none := fun prepared =>
    Option.bind_eq_none_iff.2 fun x _ => hnone x
  rw [outcome_selectAxis, outcome_selectAxis, hbind, hbind]

/-- **A step along another axis** does not look at candidates, and leaves what matters of what it
leads to. -/
theorem leaves_step_unprepared (hs : s.IsReliable) (hσ : σ.IsBare) (haxis : head.axis ∉ optimizableAxes)
    (hfree : (step head ps).IsPragmaFree) (hlacks : ∀ p ∈ ps, p.expr.Lacks head.id)
    (hadditive : (step head ps).IsAdditive s σ docs) (hset : set.IsGiven s docs)
    (hpartGiven : part.IsGiven s docs) (hpart : Keeps set part candidates)
    (hkeeps : KeepsAccepted s σ docs head (beforePosition ps) q conditions candidates)
    (hv : σ.outcome ((step head ps).evaluate s (.on (.ofSet set))) = .ok v) :
    ∃ v', (σ.preparing head.id candidates).outcome ((step head ps).evaluate s (.on (.ofSet part))) =
      .ok v' ∧ Leaves s docs conditions part v v' := by
  have hsame : (σ.preparing head.id candidates).outcome
      ((step head ps).evaluate s (.on (.ofSet part))) =
        σ.outcome ((step head ps).evaluate s (.on (.ofSet part))) := by
    have hps : ∀ p ∈ ps, p.expr.IsPragmaFree ∧ p.expr.Lacks head.id := fun p hp =>
      ⟨isPragmaFree_step.1 hfree p hp, hlacks p hp⟩
    rw [outcome_step hfree, outcome_step hfree]
    simp only [byNode, outcome_selectAxis_unprepared haxis, outcome_applyPredicates_preparing hps]
  obtain ⟨R, hR⟩ := hadditive
  obtain ⟨v', hv', hcollects'⟩ := hR set v hset hv part hpartGiven hpart.sub
  obtain ⟨all, hall, hallGiven, hallMem⟩ := (hR.collects hset hv).exists_same
  obtain ⟨kept, hkept, hkeptGiven, hkeptMem⟩ := hcollects'.exists_same
  refine ⟨v', hsame.trans hv', all, kept, hall, hkept, hallGiven, hkeptGiven, ⟨fun m hm => ?_,
    fun m hm hhits => ?_⟩, fun hnone m hm => ?_⟩
  · obtain ⟨n, hn, hled⟩ := (hkeptMem m).1 hm
    exact (hallMem m).2 ⟨n, hpart.sub n hn, hled⟩
  · -- The node from which the step leads here is in a document with a candidate.
    obtain ⟨n, hn, hled⟩ := (hallMem m).1 hm
    obtain ⟨own, hown, hcollects⟩ := hR.exists_single hset hv hn
    obtain ⟨_, heq, hselected⟩ := selectedBy_of_outcome hs hσ hfree (contextSet_on (s.persistent [n]))
      (fun x hx => (mem_persistent_single (s := s)).1 hx ▸ hset.isIn.2 n hn) hown (.node m)
      (hcollects.mem.2 hled)
    obtain rfl := Item.node.inj heq
    obtain ⟨x, hx, l, hl, hmem⟩ := hselected.along
    obtain rfl := (mem_persistent_single (s := s)).1 hx
    have hspans : Extent.document.Spans x m :=
      Extent.spans_of_along hs.indexed rfl (hset.isIn.2 x hn) hl hmem
    have hcandidate := hkeeps.keeps m (hallGiven.isIn.2 m hm) (hallGiven.docs m hm) hselected.passes
      (fun p hp => hselected.accepted p (mem_of_mem_beforePosition hp)) hhits
    exact (hkeptMem m).2 ⟨x, hpart.keeps x hn ⟨m, hcandidate, hspans.doc_eq⟩, hled⟩
  · obtain ⟨n, hn, _⟩ := (hkeptMem m).1 hm
    exact hnone n hn

/-- **The first step leaves what matters,** when no condition comes after a position. -/
theorem leaves_step (hs : s.IsReliable) (hσ : σ.IsBare) (htest : head.test = .name q)
    (hfree : (step head ps).IsPragmaFree) (hlacks : ∀ p ∈ ps, p.expr.Lacks head.id)
    (hstanding : areStanding (beforePosition ps) = true) (hcovered : AreCovered s docs ps)
    (hlast : hasPositional ps = true → conditions = []) (hset : set.IsGiven s docs)
    (hpartGiven : part.IsGiven s docs) (hpart : Keeps set part candidates)
    (hkeeps : KeepsAccepted s σ docs head (beforePosition ps) q conditions candidates)
    (hv : σ.outcome ((step head ps).evaluate s (.on (.ofSet set))) = .ok v) :
    ∃ v', (σ.preparing head.id candidates).outcome ((step head ps).evaluate s (.on (.ofSet part))) =
      .ok v' ∧ Leaves s docs conditions part v v' := by
  by_cases hpositional : hasPositional ps = true
  · obtain rfl := hlast hpositional
    by_cases haxis : head.axis ∈ optimizableAxes
    · exact leaves_step_positional hs hσ haxis htest hfree hlacks hpositional hstanding
        (fun p hp => hcovered p (mem_of_mem_beforePosition hp)) hset hpartGiven hpart hkeeps hv
    · exact leaves_step_unprepared hs hσ haxis hfree hlacks
        (isAdditive_positional hs hσ hfree hpositional) hset hpartGiven hpart hkeeps hv
  · have hbefore := beforePosition_eq_self (Bool.eq_false_iff.2 hpositional)
    by_cases haxis : head.axis ∈ optimizableAxes
    · rw [hbefore] at hstanding hkeeps
      exact leaves_step_standing hs hσ haxis htest hfree hlacks hstanding hcovered hset hpart hkeeps hv
    · rw [hbefore] at hstanding
      exact leaves_step_unprepared hs hσ haxis hfree hlacks
        (isAdditive_step hs hσ hfree hstanding hcovered) hset hpartGiven hpart hkeeps hv

/-! ### A path with candidates -/

/-- **Local further steps withstand narrowing** by their conditions. -/
theorem withstands_further (hs : s.IsReliable) (hσ : σ.IsBare) (hfree : ∀ e ∈ rest, e.IsPragmaFree)
    (hlocal : areLocal rest = true) (hanalyzed : ∀ id, (path id rest).IsAnalyzedAt none)
    (hcovered : AreCovered s docs (wholePredicatesOf rest))
    (hcovers : ∀ o ∈ rest.flatMap Expr.conditions, o.probe.CoversDocs s docs)
    (hreached : ∀ id, ∀ o ∈ (path id rest).conditions, Reached .below o (path id rest)) :
    Withstands s docs .below (rest.flatMap Expr.conditions) fun set =>
      σ.outcome (evaluateSteps s rest (.ofSet set)) := by
  cases rest with
  | nil =>
    refine ⟨fun set v hset hv part hpart hkeeps => ?_, fun set v _ hv hnone => ?_⟩
    · have hsame : part = set := hpart.isIn.1.ext hset.isIn.1
        (hpart.persistent.trans hset.persistent.symm) fun n =>
          ⟨hkeeps.sub n, fun hn => hkeeps.keeps n hn fun o ho => absurd ho List.not_mem_nil⟩
      exact ⟨v, hsame ▸ hv, .refl v⟩
    · rw [outcome_evaluateSteps_nil] at hv
      obtain rfl := Except.ok.inj hv
      exact congrArg (List.map Item.node) (List.eq_nil_iff_forall_not_mem.2 hnone)
  | cons e later =>
    rw [← conditions_path .none] at hcovers ⊢
    exact withstands_evaluateSteps hfree (withstands_of_isNarrowing hs hσ
      (.ofLocal hlocal (hreached .none)) (isPragmaFree_path.2 hfree) (hanalyzed .none) hcovered hcovers)

/-- **The first step with candidates and the further steps keep the items** that they lead to: for a
part they have the items that they have without candidates for all, and none for no nodes. -/
def KeepsItems (s : Store) (σ : Setting) (head : StepHead) (ps : List Predicate) (rest : List Expr)
    (candidates set part : NodeSet) : Prop :=
  ∀ w, (σ.outcome ((step head ps).evaluate s (.on (.ofSet set))) >>= fun v =>
      σ.outcome (evaluateSteps s rest v)) = .ok w →
    ∃ w', ((σ.preparing head.id candidates).outcome
        ((step head ps).evaluate s (.on (.ofSet part))) >>= fun v =>
          (σ.preparing head.id candidates).outcome (evaluateSteps s rest v)) = .ok w' ∧
      w.Same w' ∧ ((∀ n, n ∉ part) → w'.toItems = [])

/-- **Where the first step leaves what matters,** and the further steps withstand that, the items
are kept. -/
theorem keepsItems_of_leaves (hfree : ∀ e ∈ rest, e.IsPragmaFree)
    (hlacks : ∀ e ∈ rest, e.Lacks head.id)
    (hstep : ∀ v, σ.outcome ((step head ps).evaluate s (.on (.ofSet set))) = .ok v →
      ∃ v', (σ.preparing head.id candidates).outcome ((step head ps).evaluate s (.on (.ofSet part))) =
        .ok v' ∧ Leaves s docs conditions part v v')
    (hrest : Withstands s docs .below conditions fun set =>
      σ.outcome (evaluateSteps s rest (.ofSet set))) :
    KeepsItems s σ head ps rest candidates set part := by
  intro w hw
  obtain ⟨v, hv, hw⟩ := bind_eq_ok.1 hw
  obtain ⟨v', hv', all, found, hall, hfound, hallGiven, hfoundGiven, hkeeps, hnothing⟩ := hstep v hv
  obtain ⟨_, hw, hsame⟩ := outcome_evaluateSteps_same hfree hall hw
  obtain ⟨left, hleft, hsame'⟩ := hrest.same all _ hallGiven hw found hfoundGiven hkeeps
  obtain ⟨w', hw', hsame''⟩ := outcome_evaluateSteps_same hfree hfound.symm hleft
  refine ⟨w', bind_eq_ok.2 ⟨v', hv', ?_⟩, (hsame.trans hsame').trans hsame'', fun hnone => ?_⟩
  · rw [outcome_evaluateSteps_preparing fun e he => ⟨hfree e he, hlacks e he⟩, hw']
  · rw [← hsame''.toItems_eq]
    exact hrest.empty found left hfoundGiven hleft (hnothing hnone)

/-- The same goes for the steps after the root. -/
theorem KeepsItems.evaluateSteps (h : KeepsItems s σ head ps rest candidates set part)
    (hfree : ∀ e ∈ Expr.step head ps :: rest, e.IsPragmaFree) (hsub : ∀ n ∈ part, n ∈ set)
    {w : Sequence}
    (hw : σ.outcome (evaluateSteps s (Expr.step head ps :: rest) (.ofSet set)) = .ok w) :
    ∃ w', (σ.preparing head.id candidates).outcome
        (Expr.evaluateSteps s (Expr.step head ps :: rest) (.ofSet part)) = .ok w' ∧ w.Same w' := by
  have hnowhere : ∀ {τ : Setting} {X : NodeSet}, (∀ n, n ∉ X) →
      τ.outcome (Expr.evaluateSteps s (Expr.step head ps :: rest) (.ofSet X)) = .ok .empty := by
    intro τ X hnone
    rw [outcome_evaluateSteps_cons hfree, Sequence.isEmpty_ofSet, if_pos (NodeSet.isEmpty_iff.2 hnone)]
  by_cases hsomewhere : ∃ n, n ∈ set
  · obtain ⟨n, hn⟩ := hsomewhere
    rw [outcome_evaluateSteps_ofSet hfree hn] at hw
    obtain ⟨w', hw', hsame, hnothing⟩ := h w hw
    by_cases hpart : ∃ m, m ∈ part
    · obtain ⟨m, hm⟩ := hpart
      exact ⟨w', (outcome_evaluateSteps_ofSet hfree hm).trans hw', hsame⟩
    · have hnone := not_exists.1 hpart
      exact ⟨.empty, hnowhere hnone, .inr ⟨hsame.toItems_eq.trans (hnothing hnone), rfl⟩⟩
  · have hnone := not_exists.1 hsomewhere
    rw [hnowhere hnone] at hw
    exact ⟨.empty, hnowhere fun n hn => hnone n (hsub n hn), .inl (Except.ok.inj hw).symm⟩

/-- **A path whose first step has candidates** has the same items for the documents of these. -/
theorem BeginsWith.outcome_leaving (hbegins : BeginsWith e head ps rest) (hs : s.IsReliable)
    (hfree : e.IsPragmaFree) (hset : set.IsGiven s docs) (hpartGiven : part.IsGiven s docs)
    (hpart : Keeps set part candidates)
    (hsteps : ∀ set part : NodeSet, set.IsGiven s docs → part.IsGiven s docs →
      Keeps set part candidates → KeepsItems s σ head ps rest candidates set part) {w : Sequence}
    (hw : σ.outcome (e.evaluate s (.on (.ofSet set))) = .ok w) :
    ∃ w', (σ.preparing head.id candidates).outcome (e.evaluate s (.on (.ofSet part))) = .ok w' ∧
      w.Same w' := by
  cases hbegins with
  | step =>
    have hnil : ∀ {τ : Setting} {x : Except QueryError Sequence},
        (x >>= fun v => τ.outcome (evaluateSteps s [] v)) = x := by
      intro τ x
      simp only [outcome_evaluateSteps_nil]
      exact bind_pure x
    obtain ⟨w', hw', hsame, -⟩ := hsteps set part hset hpartGiven hpart w (hnil.trans hw)
    exact ⟨w', hnil.symm.trans hw', hsame⟩
  | path =>
    obtain ⟨w', hw', hsame, -⟩ := hsteps set part hset hpartGiven hpart w
      ((outcome_path_cons hfree _).symm.trans hw)
    exact ⟨w', (outcome_path_cons hfree _).trans hw', hsame⟩
  | rooted =>
    rw [outcome_path_cons hfree, outcome_root_on, ok_bind] at hw ⊢
    exact (hsteps _ _ (hset.documents hs.indexed) (hpartGiven.documents hs.indexed)
      hpart.documents).evaluateSteps
        (fun e he => isPragmaFree_path.1 hfree e (List.mem_cons_of_mem _ he)) hpart.documents.sub hw

/-! ### The rounds -/

/-- **The rounds keep what the first step accepts** before a position, in the documents of what is
narrowed. -/
theorem exists_keepsAccepted (hs : s.IsReliable) (hσ : σ.IsBare) {working : NodeSet}
    (hbegins : BeginsWith e head ps rest) (hfree : e.IsPragmaFree) (hanalyzed : e.IsAnalyzedAt none)
    (hnumbers : e.numbers.Nodup) (htest : head.test = .name q)
    (hown : ∀ p ∈ ps, p.expr.optimizable? ≠ none ∨ p.expr.conditions = [])
    (hdown : ∀ p ∈ ps, ∀ o ∈ p.expr.conditions, Reached .below o p.expr)
    (hlast : PositionsLast ps rest)
    (hcovers : ∀ o ∈ e.conditions, o.probe.CoversDocs s (InDocuments working))
    {place : Nat} (hfirst : (e.optimizables none).head? = some (o, some (head.id, place))) :
    ∃ rounds, σ.outcome (Narrowing.rounds s (some ⟨head.id, ⟨head.axis.nameType, q⟩⟩) working
        e.conditions) = .ok rounds ∧
      KeepsAccepted s σ (InDocuments working) head (beforePosition ps) q
        (rest.flatMap Expr.conditions) (Narrowing.candidates rounds) := by
  obtain ⟨later, hconditions⟩ : ∃ later, e.conditions = o :: later := by
    cases hfound : e.optimizables none with
    | nil =>
      rw [hfound] at hfirst
      cases hfirst
    | cons found more =>
      rw [hfound] at hfirst
      obtain rfl := Option.some.inj hfirst
      exact ⟨more.map Prod.fst, congrArg (List.map Prod.fst) hfound⟩
  have hdocs : ∀ n ∈ working, InDocuments working n.doc := fun n hn => ⟨n, hn, rfl⟩
  obtain ⟨rounds, hrounds, hgiven, hbears, hkeeps⟩ := Narrowing.outcome_rounds_step (σ := σ) hs hdocs
    ⟨head.id, ⟨head.axis.nameType, q⟩⟩ o later
  refine ⟨rounds, hconditions ▸ hrounds, hgiven, hbears, ?_⟩
  intro m hhas hdoc hpasses haccepted hfurther
  have hstepFree : (Expr.step head ps).IsPragmaFree := hfree.mono hbegins.parts.1
  have hstep := (hbegins.isAnalyzedAt hanalyzed).1
  have hsuits := suitsOuter_of_passes hhas hpasses
  -- A predicate with a condition comes before a position, so it accepts the node.
  have hbefore : ∀ p ∈ ps, ∀ o ∈ p.expr.conditions, p.expr.Accepts s σ (.node m) := by
    intro p hp o ho
    refine haccepted p ?_
    by_cases hpositional : hasPositional ps = true
    · rcases mem_beforePosition_or_mem_fromPosition hp with hmem | hmem
      · exact hmem
      · rw [(hlast hpositional).1 p hmem] at ho
        cases ho
    · rw [beforePosition_eq_self (Bool.eq_false_iff.2 hpositional)]
      exact hp
  have hhits : ∀ o ∈ e.conditions, o.probe.HitsBelow s m := by
    intro o ho
    have hcovered := hcovers o ho
    rw [hbegins.conditions, conditions_step] at ho
    rcases List.mem_append.1 ho with ho | ho
    · obtain ⟨p, hp, ho⟩ := List.mem_flatMap.1 ho
      exact exists_hit_of_accepts (hdown p hp o ho) hhas hdoc hsuits
        (fun _ _ _ => exists_hit_of_affirms hs hσ (hdown p hp o ho) hcovered
          (hstepFree.mono (parts_subset_step hp)) (hstep.of_step hp)) (hbefore p hp o ho)
    · exact hfurther o ho
  obtain ⟨p, hp, hfound⟩ := hbegins.exists_predicate hnumbers hown hfirst
  have ho : o ∈ p.expr.conditions := conditions_of_optimizable? hfound ▸ List.mem_singleton_self o
  obtain ⟨hit, hhit, hupward⟩ := exists_hit_upward_of_accepts hs hσ
    (hstepFree.mono (parts_subset_step hp)) (hstep.of_step hp) hfound (hdown p hp o ho)
    (hcovers o (hconditions ▸ List.mem_cons_self)) hhas hdoc hsuits (hbefore p hp o ho)
  have hnamed : s.Bears m ⟨head.axis.nameType, q⟩ :=
    (Store.passes_name_iff hhas).1 (htest ▸ hpasses)
  exact hkeeps m hit hnamed hdoc hhit hupward fun o' ho' =>
    hhits o' (hconditions ▸ List.mem_cons_of_mem _ ho')

/-! ### The pragma -/

/-- The conditions of a path that look down are reached in their documents. -/
theorem LooksDown.reached (h : LooksDown ps rest) (hbegins : BeginsWith e head ps rest) :
    ∀ o ∈ e.conditions, Reached .document o e := by
  have hstep : ∀ o ∈ (Expr.step head ps).conditions, Reached .document o (.step head ps) := by
    intro o ho
    rw [conditions_step] at ho
    obtain ⟨p, hp, ho⟩ := List.mem_flatMap.1 ho
    exact .step rfl hp (h.predicates p hp o ho).document
  have hrest : ∀ id, ∀ o ∈ rest.flatMap Expr.conditions, Reached .document o (.path id rest) :=
    fun id o ho => (h.further id o (conditions_path id rest ▸ ho)).document
  intro o ho
  rw [hbegins.conditions] at ho
  cases hbegins with
  | step =>
    rw [List.flatMap_nil, List.append_nil] at ho
    exact hstep o ho
  | path id =>
    exact (List.mem_append.1 ho).elim (fun ho => .first (hstep o ho)) fun ho => .later rfl (hrest id o ho)
  | rooted id =>
    exact .later rfl ((List.mem_append.1 ho).elim (fun ho => .first (hstep o ho)) fun ho =>
      .later rfl (hrest id o ho))

theorem BeginsWith.isLocal (hbegins : BeginsWith e head ps rest)
    (hstanding : areStanding (beforePosition ps) = true) (hlocal : areLocal rest = true) :
    e.isLocal = true := by
  have hstep : (Expr.step head ps).isLocal = true := by
    by_cases hpositional : hasPositional ps = true
    · exact Bool.or_eq_true_iff.2 (.inl hpositional)
    · rw [beforePosition_eq_self (Bool.eq_false_iff.2 hpositional)] at hstanding
      exact Bool.or_eq_true_iff.2 (.inr hstanding)
  have hsteps : areLocal (Expr.step head ps :: rest) = true := Bool.and_eq_true_iff.2 ⟨hstep, hlocal⟩
  cases hbegins with
  | step => exact hstep
  | path => exact hsteps
  | rooted => exact hsteps

theorem BeginsWith.wholePredicates_subset (hbegins : BeginsWith e head ps rest) :
    e.wholePredicates ⊆ ps ++ wholePredicatesOf rest := by
  have hstep : (Expr.step head ps).wholePredicates ⊆ ps := by
    rw [wholePredicates]
    split_ifs
    · exact List.nil_subset _
    · exact fun _ hp => hp
  have hsteps : wholePredicatesOf (Expr.step head ps :: rest) ⊆ ps ++ wholePredicatesOf rest :=
    List.append_subset.2 ⟨fun p hp => List.mem_append_left _ (hstep hp), List.subset_append_right _ _⟩
  cases hbegins with
  | step => exact fun p hp => List.mem_append_left _ (hstep hp)
  | path => exact hsteps
  | rooted => exact hsteps

variable {body : Expr} {shared : SharedSet} {id : ExprId} {p : Pragma} {explicit : Bool}
  {contextId : ExprId} {r : Run} {focus : Focus}

/-- **Narrowing with a context step** leaves the items as they are, when no condition comes after a
position: also when something else is narrowed, in whose documents the context is. -/
theorem outcome_prepared_of_positions (hs : s.IsReliable) (hσ : σ.IsBare)
    (hbegins : BeginsWith body head ps rest) (hfree : body.IsPragmaFree)
    (hanalyzed : body.IsAnalyzedAt none) (hnumbers : body.numbers.Nodup)
    (hown : ∀ p ∈ ps, p.expr.optimizable? ≠ none ∨ p.expr.conditions = [])
    (hdown : ∀ p ∈ ps, ∀ o ∈ p.expr.conditions, Reached .below o p.expr)
    (hlast : PositionsLast ps rest) (hstanding : areStanding (beforePosition ps) = true)
    {working context : NodeSet} (hcovered : AreCovered s (InDocuments working) ps)
    (hrest : Withstands s (InDocuments working) .below (rest.flatMap Expr.conditions) fun set =>
      σ.outcome (evaluateSteps s rest (.ofSet set)))
    (hcovers : ∀ o ∈ body.conditions, o.probe.CoversDocs s (InDocuments working))
    (hne : body.conditions ≠ []) {step : ContextStep} (hstep : body.contextStep? = some step)
    (hcontext : context.IsGiven s (InDocuments working)) {v : Sequence}
    (hv : σ.outcome (body.evaluate s (.on (.ofSet context))) = .ok v) :
    ∃ rounds, σ.outcome (Narrowing.rounds s (some step) working body.conditions) = .ok rounds ∧
      ∃ v', (σ.preparing step.id (Narrowing.candidates rounds)).outcome
          (body.evaluate s (.on (.ofSet (context.filterDocuments (Narrowing.candidates rounds))))) =
        .ok v' ∧ v'.toItems = v.toItems := by
  obtain ⟨_, _, q, hfirstStep, htest, rfl, howner⟩ := contextStep?_eq_some hstep
  obtain ⟨rfl, rfl⟩ := Prod.mk.inj (Option.some.inj (hbegins.firstStep?.symm.trans hfirstStep))
  obtain ⟨⟨o, owner⟩, hfirst⟩ := exists_head_optimizables hne
  obtain ⟨place, rfl⟩ := howner o owner hfirst
  obtain ⟨rounds, hrounds, hkeeps⟩ := exists_keepsAccepted hs hσ hbegins hfree hanalyzed hnumbers htest
    hown hdown hlast hcovers hfirst
  have hstepFree : (Expr.step head ps).IsPragmaFree := hfree.mono hbegins.parts.1
  have hrestFree : ∀ e ∈ rest, e.IsPragmaFree := fun e he => hfree.mono (hbegins.parts.2 e he)
  obtain ⟨hlacks, hrestLacks⟩ := hbegins.lacks hnumbers
  have hpart : Keeps context (context.filterDocuments (Narrowing.candidates rounds))
      (Narrowing.candidates rounds) :=
    ⟨fun n hn => (NodeSet.mem_filterDocuments.1 hn).1,
      fun n hn hdoc => NodeSet.mem_filterDocuments.2 ⟨hn, hdoc⟩⟩
  have hpositions : hasPositional ps = true → rest.flatMap Expr.conditions = [] := fun hpositional =>
    List.flatMap_eq_nil_iff.2 (hlast hpositional).2
  obtain ⟨v', hv', hsame⟩ := hbegins.outcome_leaving hs hfree hcontext (hcontext.filter _) hpart
    (fun _ _ hset hpartGiven hpart => keepsItems_of_leaves hrestFree hrestLacks (fun v =>
      leaves_step hs hσ htest hstepFree hlacks hstanding hcovered hpositions hset hpartGiven hpart
        hkeeps) hrest) hv
  exact ⟨rounds, hrounds, v', hv', hsame.toItems_eq.symm⟩

/-- The value of a path that begins with a step depends on the context nodes only. -/
theorem BeginsWith.outcome_congr (hbegins : BeginsWith e head ps rest) (hfree : e.IsPragmaFree)
    {focus focus' : Focus}
    (h : (contextSet s focus).map SharedSet.set = (contextSet s focus').map SharedSet.set) :
    σ.outcome (e.evaluate s focus) = σ.outcome (e.evaluate s focus') := by
  cases hbegins with
  | step => exact outcome_step_congr hfree h
  | path =>
    exact outcome_path_congr hfree
      (outcome_step_congr (hfree.mono (parts_subset_path List.mem_cons_self)) h)
  | rooted => exact outcome_path_congr hfree (outcome_root_congr h)

/-- **Local further steps, and steps without conditions after them,** withstand narrowing by their
conditions. -/
theorem BeginsWith.withstands_steps {further : List Expr}
    (hbegins : BeginsWith e head ps (rest ++ further)) (hs : s.IsReliable) (hσ : σ.IsBare)
    (hfree : e.IsPragmaFree) (hanalyzed : e.IsAnalyzedAt none) (hlocal : areLocal rest = true)
    (hfurther : ∀ e ∈ further, e.conditions = [])
    (hcovered : AreCovered s docs (wholePredicatesOf rest))
    (hcovers : ∀ o ∈ e.conditions, o.probe.CoversDocs s docs)
    (hreached : ∀ id, ∀ o ∈ (Expr.path id rest).conditions, Reached .below o (.path id rest)) :
    Withstands s docs .below ((rest ++ further).flatMap Expr.conditions) fun set =>
      σ.outcome (evaluateSteps s (rest ++ further) (.ofSet set)) := by
  have hstepsFree : ∀ e ∈ rest ++ further, e.IsPragmaFree := fun e he =>
    hfree.mono (hbegins.parts.2 e he)
  have hfurtherFree : ∀ e ∈ further, e.IsPragmaFree := fun e he =>
    hstepsFree e (List.mem_append_right _ he)
  have hconditions : (rest ++ further).flatMap Expr.conditions = rest.flatMap Expr.conditions := by
    rw [List.flatMap_append, List.flatMap_eq_nil_iff.2 hfurther, List.append_nil]
  have hrestAnalyzed : ∀ id, (Expr.path id rest).IsAnalyzedAt none := by
    intro id
    cases rest with
    | nil => exact ⟨Expr.path id [], .top, rfl, rfl⟩
    | cons e es => exact ((hbegins.isAnalyzedAt hanalyzed).2 id).of_path_append
  have hrestCovers : ∀ o ∈ rest.flatMap Expr.conditions, o.probe.CoversDocs s docs := fun o ho =>
    hcovers o (hbegins.conditions ▸ List.mem_append_right _ (hconditions ▸ ho))
  have hlocalSteps := withstands_further hs hσ (fun e he => hstepsFree e (List.mem_append_left _ he))
    hlocal hrestAnalyzed hcovered hrestCovers hreached
  rw [hconditions]
  simp only [outcome_evaluateSteps_append hstepsFree]
  exact hlocalSteps.bind (outcome_evaluateSteps_same hfurtherFree) (toItems_of_evaluateSteps hfurtherFree)

/-- **Candidates are prepared in place of those for the context:** where its documents are among those
of what is narrowed, and no condition comes after a position, the items are those for the context. -/
theorem result_optimize_of_positions (hs : s.IsReliable) (hσ : σ.IsBare)
    (hp : p.kind = .optimize explicit true contextId) (hfree : body.IsPragmaFree)
    (hanalyzed : body.IsAnalyzedAt none) (hnumbers : body.numbers.Nodup) (hr : σ.Holds r)
    (hfresh : r.context.optimizer? p.id = none) {working context : SharedSet}
    (hopinion : opinionOn s σ.bindings (.discover body) (Optimizer.contextOf s focus) =
      .ok (some context, some (.nodes working), true))
    (hverdict : verdict s (some (.nodes working)) body.conditions = .ok true)
    (hcontext : Optimizer.contextOf s focus = some (.nodes context)) (hin : context.set.IsIn s)
    (hpersistent : context.set.persistent = true) {further : List Expr} {prepared : ContextStep}
    (hstep : body.contextStep? = some prepared) (hbegins : BeginsWith body head ps (rest ++ further))
    (hown : ∀ p ∈ ps, p.expr.optimizable? ≠ none ∨ p.expr.conditions = [])
    (hstanding : areStanding (beforePosition ps) = true) (hlocal : areLocal rest = true)
    (hfurther : ∀ e ∈ further, e.conditions = []) (hdown : LooksDown ps rest)
    (hlast : PositionsLast ps (rest ++ further))
    (hdocuments : ∀ n ∈ context.set, InDocuments working.set n.doc)
    (hcovered : ∀ p ∈ ps ++ wholePredicatesOf rest, ∀ id probe, p.expr.probe? = some (id, probe) →
      probe.relation ≠ none → probe.coversAll s (some (.nodes working)) = .ok true) {v : Sequence}
    (hv : σ.outcome (body.evaluate s ⟨Optimizer.contextOf s focus, focus.item⟩) = .ok v) :
    ∃ v', ((extension id [p] body).evaluate s focus).result r = .ok v' ∧ v'.toItems = v.toItems := by
  obtain ⟨hne, hcovers⟩ := coversAll_of_verdict hverdict
  have hgiven : context.set.IsGiven s (InDocuments working.set) := ⟨hin, hpersistent, hdocuments⟩
  have hcovers : ∀ o ∈ body.conditions, o.probe.CoversDocs s (InDocuments working.set) :=
    fun o ho => IndexProbe.coversDocs_of_coversAll (hcovers o ho)
  have hcovered : AreCovered s (InDocuments working.set) (ps ++ wholePredicatesOf rest) :=
    fun p hp id probe hprobe hrelation =>
      IndexProbe.coversDocs_of_coversAll (hcovered p hp id probe hprobe hrelation)
  have hsteps := hbegins.withstands_steps hs hσ hfree hanalyzed hlocal hfurther
    (fun p hp => hcovered p (List.mem_append_right _ hp)) hcovers hdown.further
  rw [hbegins.outcome_congr hfree (Optimizer.contextSet_contextOf hcontext)] at hv
  obtain ⟨rounds, hrounds, v', hv', hitems⟩ := outcome_prepared_of_positions hs hσ hbegins hfree
    hanalyzed hnumbers hown hdown.predicates hlast hstanding
    (fun p hp => hcovered p (List.mem_append_left _ hp)) hsteps hcovers hne hstep hgiven hv
  exact ⟨v', (result_optimize_step hp hfree hr hfresh hopinion hstep hrounds).trans hv', hitems⟩

/-- **Narrowing shifts no position that comes after the conditions.**  For every path that begins
with a step to a name whose predicates are conditions or have none: when the conditions look down,
and none comes after a position where candidates are prepared for the step, then whenever the path
has a value under the pragma `optimize` with `enable=no`, it has the same items in the same order
under the pragma `optimize`, for every set of documents, also one that is not narrowed since the
store has not handed it out. -/
theorem evaluate_optimize_of_positions {config : Configuration} {surface : Surface} {direct : Expr}
    {pragmas : List Pragma} {m m' : ExprId}
    (hdirect : (ofSurface config (.pragma [.optimize false] (some surface))).run .none =
      .ok (direct, m))
    (hoptimized : (ofSurface config (.pragma [.optimize true] (some surface))).run .none =
      .ok (extension id pragmas body, m'))
    (hfree : body.IsPragmaFree) (hvariable : body.contextVariable? = none)
    (hbegins : BeginsWith body head ps rest)
    (hown : ∀ p ∈ ps, p.expr.optimizable? ≠ none ∨ p.expr.conditions = [])
    (hstanding : areStanding (beforePosition ps) = true) (hlocal : areLocal rest = true)
    (hdown : LooksDown ps rest) (hlast : body.contextStep? ≠ none → PositionsLast ps rest)
    (hs : s.Reachable) (hplain : s.IsPlain) (hprobes : s.interrupted = false)
    (bindings : List (String × Sequence)) (hin : shared.set.IsIn s)
    (hdocument : ∀ n ∈ shared.set, n = .document n.doc)
    (hcovered : ∀ p ∈ ps ++ wholePredicatesOf rest, ∀ id probe, p.expr.probe? = some (id, probe) →
      probe.relation ≠ none → probe.coversAll s (some (.nodes shared)) = .ok true) {v : Sequence}
    (hv : (direct.evaluate s (.on (.nodes shared))).result ⟨.ofBindings bindings, .zero⟩ = .ok v) :
    ∃ v', ((extension id pragmas body).evaluate s (.on (.nodes shared))).result
        ⟨.ofBindings bindings, .zero⟩ = .ok v' ∧ v'.toItems = v.toItems := by
  obtain ⟨lowered, rfl, hnumbers, rfl, rfl, rfl⟩ := exists_body_of_optimize hdirect hoptimized
  let σ : Setting := ⟨bindings, []⟩
  have hholds : σ.Holds ⟨.ofBindings bindings, .zero⟩ := ⟨rfl, fun _ => rfl⟩
  have hσ : σ.IsBare := fun _ => rfl
  have hreliable : s.IsReliable := ⟨hs.isIndexed, hplain, hprobes⟩
  have hkind : ((Pragma.optimize true).analyze .none).kind = .optimize true true .none := rfl
  have hanalyzed : (lowered.analyze .top).IsAnalyzedAt none := ⟨lowered, .top, rfl, rfl⟩
  rw [result_optimize_disabled rfl hfree hholds rfl] at hv
  by_cases hpersistent : shared.set.persistent = true
  case neg => exact ⟨v, .trans (result_optimize_of_unjudged hkind hfree hholds rfl hpersistent) hv, rfl⟩
  obtain ⟨b, hverdict, -⟩ := verdict_eq_ok hs.isIndexed hin.2 (lowered.analyze .top).conditions
  have hopinion : opinionOn s bindings (.discover (lowered.analyze .top))
      (Optimizer.contextOf s (.on (.nodes shared))) = .ok (some shared, some (.nodes shared), b) :=
    Optimizer.opinionOn_nodes hvariable hpersistent hverdict
  cases b with
  | false => exact ⟨v, (result_optimize_fallback rfl hfree hholds rfl hopinion).trans hv, rfl⟩
  | true =>
    cases hstep : (lowered.analyze .top).contextStep? with
    | none =>
      obtain ⟨rounds, v', -, -, hv', hitems⟩ := result_optimize_of_isNarrowing hreliable hσ hkind hfree
        hanalyzed hholds rfl hopinion rfl hin hpersistent hstep
        (.ofLocal (hbegins.isLocal hstanding hlocal) (hdown.reached hbegins)) (fun _ => hdocument) hin
        hpersistent (.refl _ _ _ _) hverdict
        (fun p hp => hcovered p (hbegins.wholePredicates_subset hp)) hv
      exact ⟨v', hv', hitems⟩
    | some step =>
      have hpositions := hlast (by rw [hstep]; exact Option.some_ne_none _)
      rw [← List.append_nil rest] at hbegins hpositions
      exact result_optimize_of_positions hreliable hσ hkind hfree hanalyzed hnumbers hholds rfl
        hopinion hverdict rfl hin hpersistent hstep hbegins hown hstanding hlocal
        (List.forall_mem_nil _) hdown hpositions (fun n hn => ⟨n, hn, rfl⟩) hcovered hv

end Expr

/-! ### Books of a year -/

/-- A store with books and their years, and indexes on titles and years. -/
def yearsStore : Store :=
  (Store.empty.perform (.configureCollection "/db"
    [⟨⟨.element, ⟨none, "title", none⟩⟩, .string⟩, ⟨⟨.element, ⟨none, "year", none⟩⟩, .string⟩])).perform
    (.storeXml "/db" "l.xml" ("<library><book><title>Solaris</title><year>1961</year></book>" ++
      "<book><title>Dune</title><year>1965</year></book>" ++
      "<book><title>Momo</title><year>1965</year></book></library>"))

theorem reachable_yearsStore : yearsStore.Reachable := .perform (.perform .empty _) _

theorem isPlain_yearsStore : yearsStore.IsPlain := by
  decide +kernel

/-- The document of the library, as it is given. -/
def library : SharedSet := ⟨⟨[.document 0], true⟩, none⟩

theorem isIn_library : library.set.IsIn yearsStore := by
  decide +kernel

namespace Expr

/-- The query for those books that predicates accept one after another, and where to go from them. -/
def booksThen (predicates : List Surface) (steps : List SurfaceStep) : Surface :=
  .path none (.axis false .descendant (.name "book") predicates :: steps)

section Having

variable {id context : ExprId} {name text : String} {p : Predicate}

/-- A condition on a child, and then a predicate without conditions. -/
theorem own_having (hp : p.expr.conditions = []) :
    ∀ p' ∈ [predicateHaving id context name text, p],
      p'.expr.optimizable? ≠ none ∨ p'.expr.conditions = [] :=
  List.forall_mem_cons.2 ⟨.inl (Option.ne_none_iff_exists'.2 ⟨_, rfl⟩), List.forall_mem_singleton.2 (.inr hp)⟩

theorem looksDown_having (hp : p.expr.conditions = []) (hrest : ∀ e ∈ rest, e.conditions = []) :
    LooksDown [predicateHaving id context name text, p] rest where
  predicates := List.forall_mem_cons.2 ⟨reached_predicateHaving, List.forall_mem_singleton.2 fun o ho =>
    absurd (hp ▸ ho) List.not_mem_nil⟩
  further id o ho := by
    rw [conditions_path, List.flatMap_eq_nil_iff.2 hrest] at ho
    cases ho

theorem positionsLast_having (hp : p.expr.conditions = []) (hrest : ∀ e ∈ rest, e.conditions = []) :
    PositionsLast [predicateHaving id context name text, p] rest := by
  refine fun _ => ⟨fun p' hp' => ?_, hrest⟩
  have hmem : p' ∈ fromPosition [p] := hp'
  exact List.mem_singleton.1 (mem_of_mem_fromPosition hmem) ▸ hp

theorem coversAll_having {given : Option Sequence} (hp : p.expr.probe? = none)
    (h : (probeHaving name text).coversAll s given = .ok true) :
    ∀ p' ∈ [predicateHaving id context name text, p], ∀ id probe, p'.expr.probe? = some (id, probe) →
      probe.relation ≠ none → probe.coversAll s given = .ok true :=
  List.forall_mem_cons.2 ⟨coversAll_predicateHaving h, List.forall_mem_singleton.2 fun _ _ hprobe =>
    nomatch hp.symm.trans hprobe⟩

end Having

/-- The title of the second book of a year is the same with candidates. -/
theorem evaluate_optimize_of_positions_second : ∃ direct pragmas body m m' v v',
    (ofSurface .standard (.pragma [.optimize false] (some (booksThen
      [having "year" "1965", .literal (.integer 2)] [.axis false .child (.name "title") []])))).run .none =
        .ok (direct, m) ∧
    (ofSurface .standard (.pragma [.optimize true] (some (booksThen
      [having "year" "1965", .literal (.integer 2)] [.axis false .child (.name "title") []])))).run .none =
        .ok (extension 1 pragmas body, m') ∧
    body.contextStep?.isSome = true ∧
    (direct.evaluate yearsStore (.on (.nodes library))).result ⟨.ofBindings [], .zero⟩ = .ok v ∧
    ((extension 1 pragmas body).evaluate yearsStore (.on (.nodes library))).result
      ⟨.ofBindings [], .zero⟩ = .ok v' ∧
    v'.toItems = v.toItems ∧ v.toItems = [.node ⟨0, ⟨[1, 3, 1]⟩⟩] := by
  let head : StepHead := ⟨7, .descendant, .name ⟨none, "book", none⟩, false⟩
  let year := predicateHaving 3 7 "year" "1965"
  let second : Predicate := ⟨6, literal (.integer 2), .positional⟩
  let title : Expr := step ⟨8, .child, .name ⟨none, "title", none⟩, false⟩ []
  let body : Expr := path 9 [step head [year, second], title]
  have hdirect : ((ofSurface .standard (.pragma [.optimize false] (some (booksThen
      [having "year" "1965", .literal (.integer 2)] [.axis false .child (.name "title") []])))).run
        .none).map (fun compiled => ((compiled.1.evaluate yearsStore (.on (.nodes library))).result
          ⟨.ofBindings [], .zero⟩).map Sequence.toItems) = .ok (.ok [.node ⟨0, ⟨[1, 3, 1]⟩⟩]) := by
    decide +kernel
  have hoptimized : (ofSurface .standard (.pragma [.optimize true] (some (booksThen
      [having "year" "1965", .literal (.integer 2)] [.axis false .child (.name "title") []])))).run .none =
        .ok (extension 1 [(Pragma.optimize true).analyze .none] body, 9) := rfl
  have htitle : ∀ e ∈ [title], e.conditions = [] := List.forall_mem_singleton.2 rfl
  obtain ⟨⟨direct, m⟩, hdirect, hfound⟩ := map_eq_ok.1 hdirect
  obtain ⟨v, hv, hitems⟩ := map_eq_ok.1 hfound
  obtain ⟨v', hv', hsame⟩ := evaluate_optimize_of_positions hdirect hoptimized
    (plain_of_parts (by decide +kernel)).1 rfl (.path 9 head [year, second] [title]) (own_having rfl)
    rfl rfl (looksDown_having rfl htitle) (fun _ => positionsLast_having rfl htitle)
    reachable_yearsStore isPlain_yearsStore (by decide +kernel) [] isIn_library
    (fun n hn => List.mem_singleton.1 hn ▸ rfl) (coversAll_having rfl (by decide +kernel)) hv
  exact ⟨direct, _, body, m, 9, v, v', hdirect, hoptimized, rfl, hv, hv', hsame, hitems⟩

/-- **A condition after a position shifts it:** the first book of the year does not have the title,
but the first candidate has it. -/
theorem not_evaluate_optimize_of_positions_first : ∃ direct pragmas body head ps m m',
    (ofSurface .standard (.pragma [.optimize false] (some (booksThen
      [having "year" "1965", .literal (.integer 1), having "title" "Momo"] [])))).run .none =
        .ok (direct, m) ∧
    (ofSurface .standard (.pragma [.optimize true] (some (booksThen
      [having "year" "1965", .literal (.integer 1), having "title" "Momo"] [])))).run .none =
        .ok (extension 1 pragmas body, m') ∧
    BeginsWith body head ps [] ∧ head.test = .name ⟨none, "book", none⟩ ∧
    (∀ p ∈ ps, p.expr.optimizable? ≠ none ∨ p.expr.conditions = []) ∧ LooksDown ps [] ∧
    verdict yearsStore (some (.nodes library)) body.conditions = .ok true ∧
    ((direct.evaluate yearsStore (.on (.nodes library))).result
      ⟨.ofBindings [], .zero⟩).map Sequence.toItems = .ok [] ∧
    (((extension 1 pragmas body).evaluate yearsStore (.on (.nodes library))).result
      ⟨.ofBindings [], .zero⟩).map Sequence.toItems = .ok [.node ⟨0, ⟨[1, 3]⟩⟩] := by
  let head : StepHead := ⟨10, .descendant, .name ⟨none, "book", none⟩, false⟩
  let year := predicateHaving 3 10 "year" "1965"
  let first : Predicate := ⟨6, literal (.integer 1), .positional⟩
  let title := predicateHaving 7 10 "title" "Momo"
  let body : Expr := step head [year, first, title]
  have hdirect : ((ofSurface .standard (.pragma [.optimize false] (some (booksThen
      [having "year" "1965", .literal (.integer 1), having "title" "Momo"] [])))).run .none).map
        (fun compiled => ((compiled.1.evaluate yearsStore (.on (.nodes library))).result
          ⟨.ofBindings [], .zero⟩).map Sequence.toItems) = .ok (.ok []) := by
    decide +kernel
  obtain ⟨⟨direct, m⟩, hdirect, hfound⟩ := map_eq_ok.1 hdirect
  have hoptimized : (ofSurface .standard (.pragma [.optimize true] (some (booksThen
      [having "year" "1965", .literal (.integer 1), having "title" "Momo"] [])))).run .none =
        .ok (extension 1 [(Pragma.optimize true).analyze .none] body, 10) := rfl
  have hown : ∀ p ∈ [year, first, title], p.expr.optimizable? ≠ none ∨ p.expr.conditions = [] :=
    List.forall_mem_cons.2 ⟨.inl (Option.ne_none_iff_exists'.2 ⟨_, rfl⟩), List.forall_mem_cons.2
      ⟨.inr rfl, List.forall_mem_singleton.2 (.inl (Option.ne_none_iff_exists'.2 ⟨_, rfl⟩))⟩⟩
  have hdown : LooksDown [year, first, title] [] :=
    ⟨List.forall_mem_cons.2 ⟨reached_predicateHaving, List.forall_mem_cons.2
      ⟨fun o ho => (nomatch ho), List.forall_mem_singleton.2 reached_predicateHaving⟩⟩,
        fun id o ho => nomatch ho⟩
  exact ⟨direct, _, body, head, [year, first, title], m, 10, hdirect, hoptimized, .step _ _, rfl, hown,
    hdown, by decide +kernel, hfound, by decide +kernel⟩

end Expr
end IndexedXml
