/-
# Narrowed paths have the same value

When the indexes cover the context, a location path along descending axes has the same value
for what narrowing leaves as for the whole context: each node that contributes has a hit of
every condition below it, and so no round drops it (`Expr.outcome_narrowed`,
`Expr.outcome_prepared`).
-/

import IndexedXml.Proofs.Query.Prepared
import IndexedXml.Proofs.Query.Rounds

namespace IndexedXml

open Evaluation Setting

variable {s : Store} {σ : Setting} {docs : DocId → Prop}

/-! ### Verdicts -/

/-- **A positive verdict** is one on some conditions, each of which indexes answer. -/
theorem coversAll_of_verdict {working : Option Sequence} {optimizables : List Optimizable}
    (h : verdict s working optimizables = .ok true) :
    optimizables ≠ [] ∧ ∀ o ∈ optimizables, o.probe.coversAll s working = .ok true := by
  induction optimizables with
  | nil => cases h
  | cons o rest ih =>
    refine ⟨List.cons_ne_nil _ _, ?_⟩
    cases rest with
    | nil => exact List.forall_mem_singleton.2 h
    | cons second rest =>
      obtain ⟨covered, hcovered, h⟩ := bind_eq_ok.1 h
      cases covered with
      | true => exact List.forall_mem_cons.2 ⟨hcovered, (ih h).2⟩
      | false => cases h

/-- **A verdict on nodes of the store,** and what it says when it is positive. -/
theorem verdict_eq_ok (hs : s.IsIndexed) {shared : SharedSet} (hshared : ∀ n ∈ shared.set, s.Has n)
    (optimizables : List Optimizable) :
    ∃ b, verdict s (some (.nodes shared)) optimizables = .ok b ∧ (b = true → optimizables ≠ [] ∧
      ∀ o ∈ optimizables, o.probe.coversAll s (some (.nodes shared)) = .ok true) := by
  obtain ⟨cs, hcs⟩ := hs.exists_collections hshared
  have hcovers : ∀ o : Optimizable,
      o.probe.coversAll s (some (.nodes shared)) = .ok (o.probe.covers cs) := by
    intro o
    rw [IndexProbe.coversAll_nodes, hcs]
    rfl
  suffices h : ∃ b, verdict s (some (.nodes shared)) optimizables = .ok b by
    obtain ⟨b, hb⟩ := h
    exact ⟨b, hb, fun hpositive => coversAll_of_verdict (hpositive ▸ hb)⟩
  induction optimizables with
  | nil => exact ⟨false, rfl⟩
  | cons o rest ih =>
    cases rest with
    | nil => exact ⟨_, hcovers o⟩
    | cons second rest =>
      have hstep : verdict s (some (.nodes shared)) (o :: second :: rest) = (do
          if ← o.probe.coversAll s (some (.nodes shared)) then
            verdict s (some (.nodes shared)) (second :: rest)
          else pure false) := rfl
      rw [hstep, hcovers]
      cases o.probe.covers cs with
      | true => exact ih
      | false => exact ⟨false, rfl⟩

namespace Expr

/-! ### Whole paths -/

variable {e : Expr}

/-- **What the optimizer relies on in a location path:** its predicates have been analyzed for
their steps, no two of its parts have one number, and indexes cover the given documents for each
of its conditions. -/
structure IsNarrowable (s : Store) (docs : DocId → Prop) (e : Expr) : Prop where
  path : e.isLocationPath = true
  pragmaFree : e.IsPragmaFree
  analyzed : e.IsAnalyzed
  numbers : e.numbers.Nodup
  covers : ∀ o ∈ e.conditions, o.probe.CoversDocs s docs

/-- A relative path in such a path is traced when its conditions are among those of the path. -/
theorem IsNarrowable.isTraced (h : e.IsNarrowable s docs) (hs : s.IsReliable) (hσ : σ.IsBare)
    {e' : Expr} (hdescending : e'.isDescending = true) (hparts : e'.parts ⊆ e.parts)
    (hconditions : e'.conditions ⊆ e.conditions) : e'.IsTraced s σ docs :=
  Expr.isTraced hs hσ e' hdescending (h.pragmaFree.mono hparts) (h.analyzed.mono hparts)
    fun o ho => h.covers o (hconditions ho)

/-- **A location path selects from each node on its own,** and leads from a node only where each
of its conditions has a hit below the node; from the root it leads from document nodes. -/
theorem isTraced_of_isLocationPath (hs : s.IsReliable) (hσ : σ.IsBare)
    (h : e.IsNarrowable s docs) :
    e.SelectsEach s σ docs ∧ ∀ n m, s.Has n → docs n.doc →
      (e.startsAtRoot = true → n = .document n.doc) → e.Reaches s σ n m →
        ∀ o ∈ e.conditions, o.probe.HitsBelow s n := by
  rcases isLocationPath_iff.1 h.path with rfl | hdescending | ⟨id, steps, rfl, hsteps⟩
  · exact ⟨selectsEach_root, fun _ _ _ _ _ _ o ho => absurd ho List.not_mem_nil⟩
  · have htraced := h.isTraced hs hσ hdescending (List.Subset.refl _) (List.Subset.refl _)
    exact ⟨htraced.selects, fun n m hn hdoc _ hreaches => (htraced.hits n m hn hdoc hreaches).2⟩
  · have htraced : ∀ e ∈ steps, e.isStep = true ∧ e.IsTraced s σ docs := fun e he =>
      ⟨(hsteps e he).1, h.isTraced hs hσ (hsteps e he).2
        (parts_subset_path (List.mem_cons_of_mem _ he))
        (conditions_subset_path (List.mem_cons_of_mem _ he))⟩
    refine ⟨selectsEach_path hs.indexed (List.cons_ne_nil _ _) fun e he => ?_, ?_⟩
    · refine ⟨h.pragmaFree.mono (parts_subset_path he), ?_⟩
      rcases List.mem_cons.1 he with rfl | he
      · exact selectsEach_root
      · exact narrows_of_isStep (htraced e he).1 (htraced e he).2.selects
    · rintro n m hn hdoc hroot ⟨x, hx, halong⟩
      obtain rfl : x = n := Eq.trans hx (hroot rfl).symm
      rw [conditions_path, List.flatMap_cons, conditions_root, List.nil_append]
      exact (hits_of_takesAlong hs.indexed htraced x m hn hdoc halong).2

/-- The documents of a set. -/
def InDocuments (set : NodeSet) (doc : DocId) : Prop := ∃ n ∈ set, n.doc = doc

theorem isGiven_of_isIn {set : NodeSet} (hin : set.IsIn s) (hpersistent : set.persistent = true) :
    set.IsGiven s (InDocuments set) :=
  ⟨hin, hpersistent, fun n hn => ⟨n, hn, rfl⟩⟩

/-- **Narrowing without a context step** leaves the value as it is. -/
theorem outcome_narrowed (hs : s.IsReliable) (hσ : σ.IsBare) (h : e.IsNarrowable s docs)
    {context : NodeSet} (hcontext : context.IsGiven s docs)
    (hroot : e.startsAtRoot = true → ∀ n ∈ context, n = .document n.doc)
    (hne : e.conditions ≠ []) {value : Sequence}
    (hvalue : σ.outcome (e.evaluate s (.on (.ofSet context))) = .ok value) :
    ∃ rounds, σ.outcome (Narrowing.rounds s none context e.conditions) = .ok rounds ∧
      ∃ value', σ.outcome (e.evaluate s (.on (.ofSet (Narrowing.candidates rounds)))) = .ok value' ∧
        value'.toItems = value.toItems := by
  obtain ⟨hselects, hhits⟩ := isTraced_of_isLocationPath hs hσ h
  obtain ⟨rounds, hrounds, hgiven, hsub, hkeeps⟩ := Narrowing.outcome_rounds_context (σ := σ) hs
    hcontext hne
  obtain ⟨value', hvalue', hlists'⟩ := hselects context value hcontext hvalue _ hgiven hsub
  refine ⟨rounds, hrounds, value', hvalue',
    hlists'.toItems_eq ((hselects.lists hcontext hvalue).congr fun m => ?_)⟩
  constructor
  · rintro ⟨n, hn, hreaches⟩
    refine ⟨n, hkeeps n hn ?_, hreaches⟩
    exact hhits n m (hcontext.isIn.2 n hn) (hcontext.docs n hn) (fun hstart => hroot hstart n hn)
      hreaches
  · rintro ⟨n, hn, hreaches⟩
    exact ⟨n, hsub n hn, hreaches⟩

/-! ### The first step -/

/-- **A path begins with a step,** perhaps from the root. -/
inductive BeginsWith : Expr → StepHead → List Predicate → List Expr → Prop
  | step (head : StepHead) (ps : List Predicate) : BeginsWith (step head ps) head ps []
  | path (id : ExprId) (head : StepHead) (ps : List Predicate) (rest : List Expr) :
      BeginsWith (path id (step head ps :: rest)) head ps rest
  | rooted (id : ExprId) (head : StepHead) (ps : List Predicate) (rest : List Expr) :
      BeginsWith (path id (root :: step head ps :: rest)) head ps rest

variable {head : StepHead} {ps : List Predicate} {rest : List Expr}

/-- A location path begins with its first step, and goes on with steps. -/
theorem beginsWith_of_firstStep? (h : e.isLocationPath = true)
    (hfirst : e.firstStep? = some (head, ps)) :
    ∃ rest, BeginsWith e head ps rest ∧ (step head ps).isDescending = true ∧
      ∀ e' ∈ rest, e'.isStep = true ∧ e'.isDescending = true := by
  rcases isLocationPath_iff.1 h with rfl | hdescending | ⟨id, steps, rfl, hsteps⟩
  · cases hfirst
  · cases e with
    | step own predicates =>
      obtain ⟨rfl, rfl⟩ := Prod.mk.inj (Option.some.inj hfirst)
      exact ⟨[], .step _ _, hdescending, fun _ h => absurd h List.not_mem_nil⟩
    | path id steps =>
      obtain ⟨hne, hsteps⟩ := isDescending_path.1 hdescending
      cases steps with
      | nil => exact absurd rfl hne
      | cons first rest =>
        obtain ⟨⟨hkind, hfirstDown⟩, hrest⟩ := List.forall_mem_cons.1 hsteps
        obtain ⟨own, predicates, rfl⟩ := isStep_iff.1 hkind
        obtain ⟨rfl, rfl⟩ := Prod.mk.inj (Option.some.inj hfirst)
        exact ⟨rest, .path _ _ _ _, hfirstDown, hrest⟩
    | _ => cases hdescending
  · cases steps with
    | nil => cases hfirst
    | cons first rest =>
      obtain ⟨⟨hkind, hfirstDown⟩, hrest⟩ := List.forall_mem_cons.1 hsteps
      obtain ⟨own, predicates, rfl⟩ := isStep_iff.1 hkind
      obtain ⟨rfl, rfl⟩ := Prod.mk.inj (Option.some.inj hfirst)
      exact ⟨rest, .rooted _ _ _ _, hfirstDown, hrest⟩

namespace BeginsWith

theorem conditions (h : BeginsWith e head ps rest) :
    e.conditions = (Expr.step head ps).conditions ++ rest.flatMap Expr.conditions := by
  cases h with
  | step => exact (List.append_nil _).symm
  | path => rw [conditions_path, List.flatMap_cons]
  | rooted => rw [conditions_path, List.flatMap_cons, List.flatMap_cons, conditions_root,
      List.nil_append]

theorem conditions_subset (h : BeginsWith e head ps rest) :
    (Expr.step head ps).conditions ⊆ e.conditions ∧
      ∀ e' ∈ rest, e'.conditions ⊆ e.conditions := by
  rw [h.conditions]
  exact ⟨List.subset_append_left _ _, fun e' he' o ho =>
    List.mem_append_right _ (List.mem_flatMap.2 ⟨e', he', ho⟩)⟩

theorem parts (h : BeginsWith e head ps rest) :
    (Expr.step head ps).parts ⊆ e.parts ∧ ∀ e' ∈ rest, e'.parts ⊆ e.parts := by
  cases h with
  | step => exact ⟨fun _ h => h, fun _ h => absurd h List.not_mem_nil⟩
  | path => exact ⟨parts_subset_path List.mem_cons_self,
      fun e' he' => parts_subset_path (List.mem_cons_of_mem _ he')⟩
  | rooted => exact ⟨parts_subset_path (List.mem_cons_of_mem _ List.mem_cons_self),
      fun e' he' => parts_subset_path (List.mem_cons_of_mem _ (List.mem_cons_of_mem _ he'))⟩

/-- The numbers of the first step and of the further ones are different. -/
theorem nodup (h : BeginsWith e head ps rest) (hnumbers : e.numbers.Nodup) :
    (head.id :: (predicateNumbers ps ++ numbersOf rest)).Nodup := by
  cases h with
  | step => simpa using hnumbers
  | path =>
    rw [numbers_path, numbersOf_cons, numbers_step] at hnumbers
    exact (List.nodup_cons.1 hnumbers).2
  | rooted =>
    rw [numbers_path, numbersOf_cons, numbersOf_cons, numbers_step, numbers_root] at hnumbers
    exact (List.nodup_cons.1 hnumbers).2

end BeginsWith

/-- A number that is none of an expression's belongs to none of its steps. -/
theorem lacks_of_not_mem {step : ExprId} (h : step ∉ e.numbers) : e.Lacks step := by
  rintro head ps hpart rfl
  exact h (List.mem_flatMap.2 ⟨_, hpart, List.mem_singleton_self _⟩)

theorem BeginsWith.lacks (h : BeginsWith e head ps rest) (hnumbers : e.numbers.Nodup) :
    (∀ p ∈ ps, p.expr.Lacks head.id) ∧ ∀ e' ∈ rest, e'.Lacks head.id := by
  have hnot := (List.nodup_cons.1 (h.nodup hnumbers)).1
  refine ⟨fun p hp => lacks_of_not_mem fun hi => hnot ?_,
    fun e' he' => lacks_of_not_mem fun hi => hnot ?_⟩
  · exact List.mem_append_left _ (mem_predicateNumbers hp hi)
  · exact List.mem_append_right _ (mem_numbersOf he' hi)

/-! ### The context step -/

/-- Owners along a location path. -/
theorem exists_owner_of_isLocationPath (h : e.isLocationPath = true) {o : Optimizable}
    {id : ExprId} {place : Nat} (hfound : (o, some (id, place)) ∈ e.optimizables none) :
    ∃ head ps, .expr (.step head ps) ∈ e.parts ∧ head.id = id ∧
      ∃ p ∈ ps, p.expr.optimizable? = some o := by
  rcases isLocationPath_iff.1 h with rfl | hdescending | ⟨own, steps, rfl, hsteps⟩
  · cases hfound
  · exact exists_owner e none hdescending hfound
  · obtain ⟨e', he', hfound⟩ := mem_optimizablesOf hfound
    rcases List.mem_cons.1 he' with rfl | hmem
    · cases hfound
    · obtain ⟨head, ps, hpart, howner⟩ := exists_owner e' none (hsteps e' hmem).2 hfound
      exact ⟨head, ps, parts_subset_path he' hpart, howner⟩

/-- **The step that candidates are prepared for** is the first one, by the name that it asks for,
and it owns the first condition. -/
theorem contextStep?_eq_some {step : ContextStep} (h : e.contextStep? = some step) :
    ∃ head ps q, e.firstStep? = some (head, ps) ∧ head.test = .name q ∧
      step = ⟨head.id, ⟨head.axis.nameType, q⟩⟩ ∧
        ∀ o owner, (e.optimizables none).head? = some (o, owner) →
          ∃ place, owner = some (head.id, place) := by
  unfold contextStep? at h
  obtain ⟨⟨head, ps⟩, hfirst, h⟩ := Option.bind_eq_some_iff.1 h
  obtain ⟨own, hown, h⟩ := Option.bind_eq_some_iff.1 h
  obtain ⟨q, hq, rfl⟩ := Option.map_eq_some_iff.1 hown
  refine ⟨head, ps, q, hfirst, NodeTest.name?_eq_some.1 hq, ?_⟩
  cases hhead : (e.optimizables none).head? with
  | none =>
    rw [hhead] at h
    exact ⟨(Option.some.inj h).symm, fun _ _ h => by cases h⟩
  | some found =>
    obtain ⟨o, owner⟩ := found
    rw [hhead] at h
    dsimp only at h
    split_ifs at h with hsuits
    refine ⟨(Option.some.inj h).symm, ?_⟩
    rintro _ _ ⟨⟩
    unfold suits at hsuits
    split at hsuits
    · rename_i id place
      rw [Bool.and_eq_true, beq_iff_eq] at hsuits
      exact ⟨place, by rw [hsuits.1]⟩
    · cases hsuits

/-- Where there are conditions, one is found first. -/
theorem exists_head_optimizables (hne : e.conditions ≠ []) :
    ∃ found, (e.optimizables none).head? = some found :=
  Option.ne_none_iff_exists'.1 fun hnone => hne
    (congrArg (List.map Prod.fst) (List.head?_eq_none_iff.1 hnone))

/-- The first condition stands in a predicate of the first step. -/
theorem exists_predicate (h : e.isLocationPath = true) (hnumbers : e.numbers.Nodup)
    (hbegins : BeginsWith e head ps rest) {o : Optimizable} {place : Nat}
    (hfound : (e.optimizables none).head? = some (o, some (head.id, place))) :
    ∃ p ∈ ps, p.expr.optimizable? = some o := by
  obtain ⟨head', ps', hpart, hid, howner⟩ :=
    exists_owner_of_isLocationPath h (List.mem_of_mem_head? hfound)
  obtain ⟨rfl, rfl⟩ := step_unique hnumbers hpart (hbegins.parts.1 (self_mem_parts _)) hid
  exact howner

/-- **A hit of the first condition leads up to the node that it qualifies.** -/
theorem exists_hit_upward {p : Predicate} {o : Optimizable} {n : Node}
    (ho : p.expr.optimizable? = some o) {outer : OuterStep}
    (hanalyzed : ∀ id probe, p.expr.probe? = some (id, probe) →
      p.expr.probed? (some outer) = some probe)
    (hqualifies : p.expr.Qualifies s σ n) (hhits : o.probe.HitsBelow s n) :
    ∃ m, s.Hits o.probe.name o.probe.op o.probe.key m ∧ s.Leads o.probe.upwardAxis m n := by
  have hprobe := probe?_of_optimizable? ho
  obtain ⟨path, hasks⟩ := exists_asks (hanalyzed _ _ hprobe)
  obtain ⟨target, htarget, heq⟩ := hasks.target
  have hup : ∀ {m}, (∀ relation, o.probe.relation = some relation → relation.Relates n m) →
      m.Within n → s.Leads o.probe.upwardAxis m n := by
    intro m hrelates hwithin
    have hleads := Target.leads_upward (s := s) htarget o.probe.op o.probe.key (n := n) (m := m)
      (fun relation hrelation => hrelates relation (by rw [heq]; exact hrelation)) hwithin
    rwa [← heq] at hleads
  rcases hqualifies with ⟨hprobe', hrelation, hrelates, hits⟩ | ⟨hnone, _, _⟩
  · obtain ⟨_, rfl⟩ := Prod.mk.inj (Option.some.inj (hprobe.symm.trans hprobe'))
    refine ⟨_, hits, hup (fun relation' hrelation' => ?_) hrelates.within⟩
    obtain rfl := Option.some.inj (hrelation.symm.trans hrelation')
    exact hrelates
  · obtain ⟨m, hits, hwithin⟩ := hhits
    exact ⟨m, hits, hup (fun relation hrelation => by cases (hnone _ _ hprobe).symm.trans hrelation)
      hwithin⟩

/-! ### Preparing the first step -/

section Preparing

variable {q : QName} {context : NodeSet}

/-- The paths in the predicates of the first step are traced. -/
theorem IsNarrowable.isTraced_predicate (h : e.IsNarrowable s docs) (hs : s.IsReliable)
    (hσ : σ.IsBare) (hbegins : BeginsWith e head ps rest) :
    ∀ p ∈ ps, p.expr.isDescending = true → p.expr.IsTraced s σ docs := fun _ hp hdescending =>
  h.isTraced hs hσ hdescending (List.Subset.trans (parts_subset_step hp) hbegins.parts.1)
    (List.Subset.trans (conditions_subset_step hp) hbegins.conditions_subset.1)

/-- The further steps are traced. -/
theorem IsNarrowable.isTraced_further (h : e.IsNarrowable s docs) (hs : s.IsReliable)
    (hσ : σ.IsBare) (hbegins : BeginsWith e head ps rest)
    (hrest : ∀ e' ∈ rest, e'.isStep = true ∧ e'.isDescending = true) :
    ∀ e' ∈ rest, e'.isStep = true ∧ e'.IsTraced s σ docs := fun e' he' =>
  ⟨(hrest e' he').1, h.isTraced hs hσ (hrest e' he').2 (hbegins.parts.2 e' he')
    (hbegins.conditions_subset.2 e' he')⟩

/-- Candidates can be prepared for the first step of a location path. -/
theorem IsNarrowable.isPreparable (h : e.IsNarrowable s docs) (hs : s.IsReliable) (hσ : σ.IsBare)
    (hbegins : BeginsWith e head ps rest) (hstep : (step head ps).isDescending = true)
    (hrest : ∀ e' ∈ rest, e'.isStep = true ∧ e'.isDescending = true)
    (htest : head.test = .name q) : IsPreparable s σ docs head ps rest q := by
  obtain ⟨haxis, _⟩ := isDescending_step.1 hstep
  obtain ⟨hparts, hpartsRest⟩ := hbegins.parts
  obtain ⟨hlacks, hlacksRest⟩ := hbegins.lacks h.numbers
  refine ⟨haxis, htest, ?_, hlacks, fun e' he' => ⟨?_, ?_, ?_⟩⟩
  · exact areDecided hstep (h.pragmaFree.mono hparts) (h.analyzed.mono hparts)
      (fun o ho => h.covers o (hbegins.conditions_subset.1 ho))
      (h.isTraced_predicate hs hσ hbegins)
  · exact h.pragmaFree.mono (hpartsRest e' he')
  · exact hlacksRest e' he'
  · obtain ⟨hkind, htraced⟩ := h.isTraced_further hs hσ hbegins hrest e' he'
    exact narrows_of_isStep hkind htraced.selects

/-- **Where a path goes on from its first step, every condition has a hit below,** and a hit of the
first condition leads up there. -/
theorem IsNarrowable.hits_of_takes (h : e.IsNarrowable s docs) (hs : s.IsReliable) (hσ : σ.IsBare)
    (hbegins : BeginsWith e head ps rest) (hstep : (step head ps).isDescending = true)
    (hrest : ∀ e' ∈ rest, e'.isStep = true ∧ e'.isDescending = true) {o : Optimizable}
    {place : Nat} (hfirst : (e.optimizables none).head? = some (o, some (head.id, place)))
    {n x m : Node} (hn : s.Has n) (hdoc : docs n.doc) (htakes : (step head ps).Takes s σ n x)
    (halong : TakesAlong s σ rest x m) :
    (∀ o ∈ e.conditions, o.probe.HitsBelow s x) ∧
      ∃ y, s.Hits o.probe.name o.probe.op o.probe.key y ∧ s.Leads o.probe.upwardAxis y x := by
  obtain ⟨hparts, _⟩ := hbegins.parts
  obtain ⟨hx, hxdoc⟩ := htakes.has hs.indexed hn
  have hstepHits := hitsBelow_of_takes hs hσ hstep (h.pragmaFree.mono hparts)
    (h.analyzed.mono hparts) (fun o ho => h.covers o (hbegins.conditions_subset.1 ho))
    (h.isTraced_predicate hs hσ hbegins) hn hdoc htakes
  have hfurther := (hits_of_takesAlong hs.indexed (h.isTraced_further hs hσ hbegins hrest) x m hx
    (hxdoc ▸ hdoc) halong).2
  obtain ⟨p, hp, ho⟩ := exists_predicate h.path h.numbers hbegins hfirst
  have hmem : o ∈ (step head ps).conditions := by
    refine conditions_subset_step hp ?_
    rcases ((isDescending_step.1 hstep).2 p hp).shape with hplain | hdescending
    · rw [(conditions_of_isPlainCondition hplain).1, ho]
      exact List.mem_singleton_self _
    · cases (probe?_of_isDescending hdescending).symm.trans (probe?_of_optimizable? ho)
  refine ⟨fun o' ho' => ?_, exists_hit_upward ho
    (h.analyzed head ps (hparts (self_mem_parts _)) p hp) (htakes.2 p hp) (hstepHits o hmem)⟩
  rw [hbegins.conditions] at ho'
  exact (List.mem_append.1 ho').elim (hstepHits o') (hfurther o')

/-- **The candidates of narrowing with a context step** are prepared for that step. -/
theorem IsNarrowable.arePrepared (h : e.IsNarrowable s (InDocuments context)) (hs : s.IsReliable)
    (hσ : σ.IsBare) (hbegins : BeginsWith e head ps rest)
    (hstep : (step head ps).isDescending = true)
    (hrest : ∀ e' ∈ rest, e'.isStep = true ∧ e'.isDescending = true)
    (htest : head.test = .name q) (hcontext : context.IsGiven s (InDocuments context))
    {o : Optimizable} {place : Nat}
    (hfirst : (e.optimizables none).head? = some (o, some (head.id, place))) :
    ∃ rounds, σ.outcome (Narrowing.rounds s (some ⟨head.id, ⟨head.axis.nameType, q⟩⟩) context
        e.conditions) = .ok rounds ∧
      ArePrepared s σ (InDocuments context) head ps rest q (Narrowing.candidates rounds) := by
  obtain ⟨later, hlater⟩ := List.head?_eq_some_iff.1 hfirst
  have hconditions : e.conditions = o :: later.map Prod.fst := congrArg (List.map Prod.fst) hlater
  obtain ⟨rounds, hrounds, hgiven, hbears, hkeeps⟩ := Narrowing.outcome_rounds_step (σ := σ) hs
    hcontext.docs ⟨head.id, ⟨head.axis.nameType, q⟩⟩ o (later.map Prod.fst)
  refine ⟨rounds, hconditions ▸ hrounds, hgiven, hbears, fun n x m hn hdoc htakes halong => ?_⟩
  -- The first round takes the node from a hit of its own condition, the later ones keep it.
  obtain ⟨hx, hxdoc⟩ := htakes.has hs.indexed hn
  obtain ⟨hhits, y, hy, hleads⟩ := h.hits_of_takes hs hσ hbegins hstep hrest hfirst hn hdoc htakes
    halong
  have hpasses := htakes.1.2
  rw [htest] at hpasses
  refine hkeeps x y ((Store.passes_name_iff hx).1 hpasses) (hxdoc ▸ hdoc) hy hleads fun o' ho' => ?_
  exact hhits o' (hconditions ▸ List.mem_cons_of_mem _ ho')

end Preparing

/-! ### Narrowing with a context step -/

variable {set part candidates : NodeSet} {q : QName}

/-- The documents of a part that has all its nodes in the documents of the candidates. -/
theorem Keeps.documents (hpart : Keeps set part candidates) :
    Keeps (.ofList (set.nodes.map fun n => .document n.doc) set.persistent)
      (.ofList (part.nodes.map fun n => .document n.doc) part.persistent) candidates := by
  constructor
  · intro d hd
    obtain ⟨n, hn, rfl⟩ := List.mem_map.1 (NodeSet.mem_ofList.1 hd)
    exact NodeSet.mem_ofList.2 (List.mem_map_of_mem (hpart.sub n hn))
  · rintro d hd ⟨m, hm, hdoc⟩
    obtain ⟨n, hn, rfl⟩ := List.mem_map.1 (NodeSet.mem_ofList.1 hd)
    exact NodeSet.mem_ofList.2 (List.mem_map_of_mem (hpart.keeps n hn ⟨m, hm, hdoc⟩))

/-- **A path with candidates for its first step** leads where it leads without. -/
theorem BeginsWith.outcome_preparing (hbegins : BeginsWith e head ps rest) (hs : s.IsReliable)
    (hσ : σ.IsBare) (hfree : e.IsPragmaFree) (hsteps : IsPreparable s σ docs head ps rest q)
    (hprepared : ArePrepared s σ docs head ps rest q candidates) (hset : set.IsGiven s docs)
    (hpart : Keeps set part candidates) {value : Sequence}
    (hvalue : σ.outcome (e.evaluate s (.on (.ofSet set))) = .ok value) :
    ∃ value', (σ.preparing head.id candidates).outcome (e.evaluate s (.on (.ofSet part))) =
        .ok value' ∧ value'.Lists fun m => ∃ n ∈ set, e.Reaches s σ n m := by
  cases hbegins with
  | step =>
    have hnil : ∀ {σ' : Setting} {x : Except QueryError Sequence},
        (x >>= fun v => σ'.outcome (evaluateSteps s [] v)) = x := by
      intro σ' x
      cases x with
      | error cause => rfl
      | ok v => exact outcome_evaluateSteps_nil (σ := σ') (s := s) v
    obtain ⟨value', hvalue', hlists⟩ := outcome_steps_preparing hs hσ hsteps hprepared hset hpart
      (hnil.trans hvalue)
    refine ⟨value', hnil.symm.trans hvalue', hlists.congr fun m => exists_congr fun n =>
      and_congr_right fun _ => ⟨?_, fun htakes => ⟨m, htakes, rfl⟩⟩⟩
    rintro ⟨x, htakes, rfl⟩
    exact htakes
  | path =>
    obtain ⟨value', hvalue', hlists⟩ := outcome_steps_preparing hs hσ hsteps hprepared hset hpart
      ((outcome_path_cons hfree _).symm.trans hvalue)
    exact ⟨value', (outcome_path_cons hfree _).trans hvalue', hlists⟩
  | rooted =>
    rw [outcome_path_cons hfree, outcome_root_on, ok_bind] at hvalue
    obtain ⟨value', hvalue', hlists⟩ := outcome_evaluateSteps_first hs hσ hsteps hprepared
      (hset.documents hs.indexed) hpart.documents hvalue
    refine ⟨value', ?_, hlists.congr fun m => ?_⟩
    · rw [outcome_path_cons hfree, outcome_root_on, ok_bind]
      exact hvalue'
    · constructor
      · rintro ⟨d, hd, halong⟩
        obtain ⟨n, hn, rfl⟩ := List.mem_map.1 (NodeSet.mem_ofList.1 hd)
        exact ⟨n, hn, _, rfl, halong⟩
      · rintro ⟨n, hn, d, rfl, halong⟩
        exact ⟨_, NodeSet.mem_ofList.2 (List.mem_map_of_mem hn), halong⟩

/-- **Narrowing with a context step** leaves the value as it is. -/
theorem outcome_prepared (hs : s.IsReliable) (hσ : σ.IsBare) {context : NodeSet}
    (h : e.IsNarrowable s (InDocuments context))
    (hcontext : context.IsGiven s (InDocuments context)) (hne : e.conditions ≠ [])
    {step : ContextStep} (hstep : e.contextStep? = some step) {value : Sequence}
    (hvalue : σ.outcome (e.evaluate s (.on (.ofSet context))) = .ok value) :
    ∃ rounds, σ.outcome (Narrowing.rounds s (some step) context e.conditions) = .ok rounds ∧
      ∃ value', (σ.preparing step.id (Narrowing.candidates rounds)).outcome
          (e.evaluate s (.on (.ofSet (context.filterDocuments (Narrowing.candidates rounds))))) =
        .ok value' ∧ value'.toItems = value.toItems := by
  obtain ⟨head, ps, q, hfirst, htest, rfl, howner⟩ := contextStep?_eq_some hstep
  obtain ⟨rest, hbegins, hdescending, hrest⟩ := beginsWith_of_firstStep? h.path hfirst
  obtain ⟨⟨o, owner⟩, hhead⟩ := exists_head_optimizables hne
  obtain ⟨place, rfl⟩ := howner o owner hhead
  obtain ⟨rounds, hrounds, hprepared⟩ := h.arePrepared hs hσ hbegins hdescending hrest htest hcontext
    hhead
  have hkeeps : Keeps context (context.filterDocuments (Narrowing.candidates rounds))
      (Narrowing.candidates rounds) :=
    ⟨fun n hn => (NodeSet.mem_filterDocuments.1 hn).1,
      fun n hn hdoc => NodeSet.mem_filterDocuments.2 ⟨hn, hdoc⟩⟩
  obtain ⟨value', hvalue', hlists⟩ := hbegins.outcome_preparing hs hσ h.pragmaFree
    (h.isPreparable hs hσ hbegins hdescending hrest htest) hprepared hcontext hkeeps hvalue
  exact ⟨rounds, hrounds, value', hvalue',
    hlists.toItems_eq ((isTraced_of_isLocationPath hs hσ h).1.lists hcontext hvalue)⟩

end Expr
end IndexedXml
