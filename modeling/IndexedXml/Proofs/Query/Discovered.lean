/-
# What the optimizer finds along a path

The optimizer looks for conditions in the predicates of a location path and in theirs.  Along
the axes that lead down from a node, and with predicates that hold of a node wherever it
stands (`Expr.isDescending`), each condition found lies in the predicate of a step of the path
(`Expr.exists_owner`) or of a path in such a predicate, and from its hits the way up leads to
what they qualify (`Target.leads_upward`).
-/

import IndexedXml.Proofs.Query.Numbering
import IndexedXml.Proofs.Query.Traversal

namespace IndexedXml
namespace Expr

/-! ### Conditions -/

/-- **The conditions of an expression that an index can answer.** -/
def conditions (e : Expr) : List Optimizable := (e.optimizables none).map Prod.fst

/-- A condition that is found is answered by its probe. -/
theorem probe?_of_optimizable? {e : Expr} {o : Optimizable} (h : e.optimizable? = some o) :
    e.probe? = some (o.id, o.probe) := by
  unfold optimizable? at h
  obtain ⟨⟨id, probe⟩, hprobe, h⟩ := Option.bind_eq_some_iff.1 h
  dsimp only at h
  split_ifs at h
  obtain rfl := Option.some.inj h
  exact hprobe

theorem map_fst_found (owner : Owner) (e : Expr) :
    (e.found owner).map Prod.fst = e.optimizable?.toList := by
  unfold found
  rw [List.map_map]
  exact List.map_id _

theorem map_fst_optimizablesOf {es : List Expr}
    (h : ∀ e ∈ es, ∀ owner, (e.optimizables owner).map Prod.fst = e.conditions) (owner : Owner) :
    (optimizablesOf owner es).map Prod.fst = es.flatMap conditions := by
  induction es with
  | nil => rfl
  | cons e rest ih =>
    rw [optimizablesOf, List.map_append, List.flatMap_cons, h e List.mem_cons_self,
      ih fun e he => h e (List.mem_cons_of_mem _ he)]

theorem map_fst_predicateOptimizables {ps : List Predicate}
    (h : ∀ p ∈ ps, ∀ owner, (p.expr.optimizables owner).map Prod.fst = p.expr.conditions)
    (step : Option ExprId) :
    ∀ place, (predicateOptimizables step place ps).map Prod.fst =
      ps.flatMap fun p => p.expr.conditions := by
  induction ps with
  | nil => exact fun _ => rfl
  | cons p rest ih =>
    intro place
    rw [predicateOptimizables, List.map_append, List.flatMap_cons, h p List.mem_cons_self,
      ih fun p hp => h p (List.mem_cons_of_mem _ hp)]

/-- Which conditions are found does not depend on their owner. -/
theorem map_fst_optimizables (e : Expr) :
    ∀ owner, (e.optimizables owner).map Prod.fst = e.conditions := by
  induction e using Expr.induct with
  | path id steps ih =>
    exact fun owner => (map_fst_optimizablesOf ih owner).trans (map_fst_optimizablesOf ih none).symm
  | step head ps ih => exact fun _ => rfl
  | filter id base ps _ ih => exact fun _ => rfl
  | comparison id op left right access _ _ =>
    exact fun owner => (map_fst_found owner _).trans (map_fst_found none _).symm
  | call id function args access _ =>
    exact fun owner => (map_fst_found owner _).trans (map_fst_found none _).symm
  | _ => exact fun _ => rfl

theorem conditions_path (id : ExprId) (steps : List Expr) :
    (path id steps).conditions = steps.flatMap conditions :=
  map_fst_optimizablesOf (fun e _ => map_fst_optimizables e) none

theorem conditions_step (head : StepHead) (ps : List Predicate) :
    (step head ps).conditions = ps.flatMap fun p => p.expr.conditions :=
  map_fst_predicateOptimizables (fun p _ => map_fst_optimizables p.expr) (some head.id) 0

theorem conditions_root : root.conditions = [] := rfl

theorem conditions_subset_path {id : ExprId} {steps : List Expr} {e : Expr} (he : e ∈ steps) :
    e.conditions ⊆ (path id steps).conditions := by
  intro o ho
  rw [conditions_path]
  exact List.mem_flatMap.2 ⟨e, he, ho⟩

theorem conditions_subset_step {head : StepHead} {ps : List Predicate} {p : Predicate}
    (hp : p ∈ ps) :
    p.expr.conditions ⊆ (step head ps).conditions := by
  intro o ho
  rw [conditions_step]
  exact List.mem_flatMap.2 ⟨p, hp, ho⟩

/-! ### Paths along descending axes -/

/-- Whether a path without predicates goes along descending axes; other expressions go
nowhere. -/
def goesDown (e : Expr) : Bool :=
  (Target.simpleSteps? e).all fun heads => heads.all fun head => optimizableAxes.elem head.axis

/-- What a condition is about. -/
def sides : Expr → List Expr
  | comparison _ _ left right _ => [left, right]
  | call _ _ args _ => args
  | _ => []

/-- Whether the probe of a condition, if it has one, goes along descending axes and does not
ask for what starts with the empty text. -/
def probesDown (e : Expr) : Bool :=
  match e.probe? with
  | none => true
  | some (_, probe) =>
    e.sides.all goesDown && !(probe.op == .startsWith && probe.key == .string "")

/-- Whether the expression is a condition of which the optimizer sees nothing but the probe. -/
def isPlainCondition (e : Expr) : Bool :=
  match e with
  | comparison _ _ _ _ _ | call _ _ _ _ => e.probesDown
  | and _ _ | or _ _ | root | literal _ => true
  | _ => false

/-- Whether the expression is a step. -/
def isStep : Expr → Bool
  | step _ _ => true
  | _ => false

mutual

/-- **Whether the expression is a relative location path along descending axes,** with
predicates that are conditions or again such paths.  A predicate is true or false of a node,
and so neither a position nor a number. -/
def isDescending : Expr → Bool
  | path _ steps => !steps.isEmpty && areSteps steps
  | step head predicates => optimizableAxes.elem head.axis && areConditions predicates
  | _ => false

/-- Whether the expressions are such steps. -/
def areSteps : List Expr → Bool
  | [] => true
  | e :: rest => e.isStep && e.isDescending && areSteps rest

/-- Whether the predicates are conditions or such paths.  A compiled predicate has Boolean mode
just when its expression is Boolean valued (`predicateMode`). -/
def areConditions : List Predicate → Bool
  | [] => true
  | ⟨_, e, mode⟩ :: rest =>
    mode == .boolean && e.isBooleanValued && (e.isPlainCondition || e.isDescending) &&
      areConditions rest

end

/-- **Whether the expression is a location path along descending axes,** relative or from the
root. -/
def isLocationPath : Expr → Bool
  | root => true
  | path _ (root :: steps) => areSteps steps
  | e => e.isDescending

/-- Whether the expression starts from the root. -/
def startsAtRoot : Expr → Bool
  | root => true
  | path _ steps => isRooted steps
  | _ => false

theorem isStep_iff {e : Expr} : e.isStep = true ↔ ∃ head ps, e = step head ps := by
  cases e with
  | step head ps => exact iff_of_true rfl ⟨head, ps, rfl⟩
  | _ =>
    refine iff_of_false Bool.false_ne_true ?_
    rintro ⟨head, ps, h⟩
    cases h

/-- **A predicate on such a path:** it is applied wherever the item stands. -/
structure IsCondition (p : Predicate) : Prop where
  mode : p.mode = .boolean
  value : p.expr.isBooleanValued = true
  shape : p.expr.isPlainCondition = true ∨ p.expr.isDescending = true

theorem areSteps_iff {es : List Expr} :
    areSteps es = true ↔ ∀ e ∈ es, e.isStep = true ∧ e.isDescending = true := by
  induction es with
  | nil => simp [areSteps]
  | cons e rest ih => simp only [areSteps, Bool.and_eq_true, ih, List.forall_mem_cons]

theorem areConditions_iff {ps : List Predicate} :
    areConditions ps = true ↔ ∀ p ∈ ps, IsCondition p := by
  induction ps with
  | nil => simp [areConditions]
  | cons p rest ih =>
    simp only [areConditions, Bool.and_eq_true, ih, List.forall_mem_cons, beq_iff_eq,
      Bool.or_eq_true]
    refine and_congr_left fun _ => ⟨?_, fun h => ⟨⟨h.mode, h.value⟩, h.shape⟩⟩
    rintro ⟨⟨hmode, hvalue⟩, hshape⟩
    exact ⟨hmode, hvalue, hshape⟩

theorem isDescending_path {id : ExprId} {steps : List Expr} :
    (path id steps).isDescending = true ↔
      steps ≠ [] ∧ ∀ e ∈ steps, e.isStep = true ∧ e.isDescending = true := by
  rw [isDescending, Bool.and_eq_true, areSteps_iff, Bool.not_eq_true', List.isEmpty_eq_false_iff]

theorem isDescending_step {head : StepHead} {ps : List Predicate} :
    (step head ps).isDescending = true ↔
      head.axis ∈ optimizableAxes ∧ ∀ p ∈ ps, IsCondition p := by
  rw [isDescending, Bool.and_eq_true, areConditions_iff, List.elem_iff]

/-- **The forms of a location path.** -/
theorem isLocationPath_iff {e : Expr} : e.isLocationPath = true ↔
    e = root ∨ e.isDescending = true ∨ ∃ id steps, e = path id (root :: steps) ∧
      ∀ e' ∈ steps, e'.isStep = true ∧ e'.isDescending = true := by
  constructor
  · intro h
    unfold isLocationPath at h
    split at h
    · exact .inl rfl
    · exact .inr (.inr ⟨_, _, rfl, areSteps_iff.1 h⟩)
    · exact .inr (.inl h)
  · rintro (rfl | h | ⟨id, steps, rfl, h⟩)
    · rfl
    · cases e with
      | path id steps =>
        obtain ⟨hne, hsteps⟩ := isDescending_path.1 h
        cases steps with
        | nil => exact absurd rfl hne
        | cons first rest =>
          obtain ⟨own, ps, rfl⟩ := isStep_iff.1 (hsteps first List.mem_cons_self).1
          exact h
      | step own ps => exact h
      | _ => cases h
    · exact areSteps_iff.2 h

/-- What is not a path has no conditions but itself. -/
theorem conditions_of_isPlainCondition {e : Expr} (h : e.isPlainCondition = true) :
    e.conditions = e.optimizable?.toList ∧
      ∀ owner, e.optimizables owner = e.found owner := by
  cases e with
  | comparison id op left right access => exact ⟨map_fst_found none _, fun _ => rfl⟩
  | call id function args access => exact ⟨map_fst_found none _, fun _ => rfl⟩
  | and left right => exact ⟨rfl, fun _ => rfl⟩
  | or left right => exact ⟨rfl, fun _ => rfl⟩
  | root => exact ⟨rfl, fun _ => rfl⟩
  | literal value => exact ⟨rfl, fun _ => rfl⟩
  | _ => cases h

theorem variableOf?_eq_none {es : List Expr} (h : ∀ e ∈ es, e.contextVariable? = none) :
    variableOf? es = none := by
  induction es with
  | nil => rfl
  | cons e rest ih =>
    rw [variableOf?, h e List.mem_cons_self, ih fun e he => h e (List.mem_cons_of_mem _ he)]
    rfl

theorem predicateVariable?_eq_none {ps : List Predicate}
    (h : ∀ p ∈ ps, p.expr.contextVariable? = none) : predicateVariable? ps = none := by
  induction ps with
  | nil => rfl
  | cons p rest ih =>
    rw [predicateVariable?, h p List.mem_cons_self, ih fun p hp => h p (List.mem_cons_of_mem _ hp)]
    rfl

/-- **Along such a path the context is narrowed,** never the value of a variable. -/
theorem contextVariable?_of_isDescending (e : Expr) (h : e.isDescending = true) :
    e.contextVariable? = none := by
  induction e using Expr.induct with
  | path id steps ih =>
    exact variableOf?_eq_none fun e he => ih e he ((isDescending_path.1 h).2 e he).2
  | step head ps ih =>
    refine predicateVariable?_eq_none fun p hp => ?_
    rcases ((isDescending_step.1 h).2 p hp).shape with hplain | hdescending
    · cases hexpr : p.expr <;> rw [hexpr] at hplain <;> first | rfl | cases hplain
    · exact ih p hp hdescending
  | _ => cases h

theorem contextVariable?_of_isLocationPath {e : Expr} (h : e.isLocationPath = true) :
    e.contextVariable? = none := by
  rcases isLocationPath_iff.1 h with rfl | hdescending | ⟨id, steps, rfl, hsteps⟩
  · rfl
  · exact contextVariable?_of_isDescending e hdescending
  · refine variableOf?_eq_none fun e he => ?_
    rcases List.mem_cons.1 he with rfl | he
    · rfl
    · exact contextVariable?_of_isDescending e (hsteps e he).2

/-! ### Owners -/

theorem mem_optimizablesOf {es : List Expr} {owner : Owner} {found : Optimizable × Owner}
    (h : found ∈ optimizablesOf owner es) : ∃ e ∈ es, found ∈ e.optimizables owner := by
  induction es with
  | nil => cases h
  | cons e rest ih =>
    rcases List.mem_append.1 h with h | h
    · exact ⟨e, List.mem_cons_self, h⟩
    · obtain ⟨e', he', hfound⟩ := ih h
      exact ⟨e', List.mem_cons_of_mem _ he', hfound⟩

theorem mem_predicateOptimizables {ps : List Predicate} {own : Option ExprId}
    {found : Optimizable × Owner} :
    ∀ {place}, found ∈ predicateOptimizables own place ps →
      ∃ p ∈ ps, ∃ place, found ∈ p.expr.optimizables (own.map (·, place)) := by
  induction ps with
  | nil => exact fun h => absurd h List.not_mem_nil
  | cons p rest ih =>
    intro place h
    rcases List.mem_append.1 h with h | h
    · exact ⟨p, List.mem_cons_self, place, h⟩
    · obtain ⟨q, hq, hfound⟩ := ih h
      exact ⟨q, List.mem_cons_of_mem _ hq, hfound⟩

/-- **The owner of a condition is the step in whose predicate it stands,** and the condition is
all of the predicate. -/
theorem exists_owner {o : Optimizable} {id : ExprId} {place : Nat} (e : Expr) :
    ∀ owner, e.isDescending = true → (o, some (id, place)) ∈ e.optimizables owner →
      ∃ head ps, .expr (.step head ps) ∈ e.parts ∧ head.id = id ∧
        ∃ p ∈ ps, p.expr.optimizable? = some o := by
  induction e using Expr.induct with
  | path own steps ih =>
    intro owner h hfound
    obtain ⟨e, he, hfound⟩ := mem_optimizablesOf hfound
    obtain ⟨head, ps, hpart, howner⟩ := ih e he owner ((isDescending_path.1 h).2 e he).2 hfound
    exact ⟨head, ps, parts_subset_path he hpart, howner⟩
  | step own ps ih =>
    intro owner h hfound
    obtain ⟨p, hp, _, hmem⟩ := mem_predicateOptimizables hfound
    rcases ((isDescending_step.1 h).2 p hp).shape with hplain | hdescending
    · rw [(conditions_of_isPlainCondition hplain).2, found, List.mem_map] at hmem
      obtain ⟨_, hmem, heq⟩ := hmem
      obtain ⟨rfl, hid⟩ := Prod.mk.inj heq
      exact ⟨own, ps, self_mem_parts _, (Prod.mk.inj (Option.some.inj hid)).1, p, hp,
        Option.mem_toList.1 hmem⟩
    · obtain ⟨head, ps', hpart, howner⟩ := ih p hp _ hdescending hmem
      exact ⟨head, ps', parts_subset_step hp hpart, howner⟩
  | _ =>
    intro _ h
    cases h

/-! ### Analyzed expressions -/

/-- The predicates have been analyzed as those of the step. -/
def AnalyzedFor (head : StepHead) (ps : List Predicate) : Prop :=
  ∀ p ∈ ps, ∀ id probe, p.expr.probe? = some (id, probe) →
    p.expr.probed? (some ⟨head.test.name?, head.axis⟩) = some probe

/-- **Every predicate has been analyzed for the step that it stands at.** -/
def IsAnalyzed (e : Expr) : Prop :=
  ∀ head ps, .expr (.step head ps) ∈ e.parts → AnalyzedFor head ps

theorem IsAnalyzed.mono {e e' : Expr} (h : e.IsAnalyzed) (hparts : e'.parts ⊆ e.parts) :
    e'.IsAnalyzed := fun head ps hmem => h head ps (hparts hmem)

theorem isAnalyzed_of_parts {e : Expr} {inside : List Part} (hparts : e.parts = .expr e :: inside)
    (hself : e.isStep = false)
    (hinside : ∀ head ps, .expr (.step head ps) ∈ inside → AnalyzedFor head ps) :
    e.IsAnalyzed := by
  intro head ps hmem
  rw [hparts] at hmem
  rcases List.mem_cons.1 hmem with heq | hmem
  · rw [← Part.expr.inj heq] at hself
    cases hself
  · exact hinside head ps hmem

theorem analyzedFor_of_mem_append {l l' : List Part}
    (h : ∀ head ps, .expr (.step head ps) ∈ l → AnalyzedFor head ps)
    (h' : ∀ head ps, .expr (.step head ps) ∈ l' → AnalyzedFor head ps) :
    ∀ head ps, .expr (.step head ps) ∈ l ++ l' → AnalyzedFor head ps := fun head ps hmem =>
  (List.mem_append.1 hmem).elim (h head ps) (h' head ps)

variable {es : List Expr} {predicates : List Predicate}

theorem analyzedFor_of_mem_partsOf (h : ∀ e ∈ es, ∀ around, (e.analyze around).IsAnalyzed)
    (around : Surroundings) :
    ∀ head ps, .expr (.step head ps) ∈ partsOf (analyzeAll around es) → AnalyzedFor head ps := by
  intro head ps hmem
  obtain ⟨e', he', hmem⟩ := mem_partsOf.1 hmem
  rw [analyzeAll_eq_map] at he'
  obtain ⟨e, he, rfl⟩ := List.mem_map.1 he'
  exact h e he around head ps hmem

theorem analyzedFor_of_mem_predicateParts
    (h : ∀ p ∈ predicates, ∀ around, (p.expr.analyze around).IsAnalyzed) (around : Surroundings) :
    ∀ head ps, .expr (.step head ps) ∈ predicateParts (analyzePredicates around predicates) →
      AnalyzedFor head ps := by
  intro head ps hmem
  obtain ⟨p', hp', hmem⟩ := mem_predicateParts.1 hmem
  rw [analyzePredicates_eq_map] at hp'
  obtain ⟨p, hp, rfl⟩ := List.mem_map.1 hp'
  rcases hmem with heq | hmem
  · cases heq
  · exact h p hp around head ps hmem

theorem analyzedFor_analyzePredicates (head : StepHead) (around : Surroundings) :
    AnalyzedFor head (analyzePredicates (around.ofStep head) predicates) := by
  intro p hp id probe hprobe
  rw [analyzePredicates_eq_map] at hp
  obtain ⟨p, _, rfl⟩ := List.mem_map.1 hp
  have hsame := probe?_analyze (around.ofStep head) p.expr
  rw [show (p.expr.analyze (around.ofStep head)).probe? = some (id, probe) from hprobe] at hsame
  split_ifs at hsame with htree
  · cases hsame
  · exact (probed?_analyze _ _ _).trans hsame.symm

/-- **Analysis analyzes every predicate for its step.** -/
theorem isAnalyzed_analyze (e : Expr) : ∀ around, (e.analyze around).IsAnalyzed := by
  induction e using Expr.induct with
  | path id steps ih =>
    intro around
    refine isAnalyzed_of_parts rfl rfl ?_
    cases steps with
    | nil => exact fun _ _ h => absurd h List.not_mem_nil
    | cons first rest =>
      exact analyzedFor_of_mem_append (ih first List.mem_cons_self around)
        (analyzedFor_of_mem_partsOf (fun e he => ih e (List.mem_cons_of_mem _ he)) _)
  | step own predicates ih =>
    intro around head ps hmem
    rcases List.mem_cons.1 hmem with heq | hmem
    · obtain ⟨rfl, rfl⟩ := step.inj (Part.expr.inj heq)
      exact analyzedFor_analyzePredicates own around
    · exact analyzedFor_of_mem_predicateParts ih _ head ps hmem
  | root => exact fun _ => isAnalyzed_of_parts rfl rfl fun _ _ h => absurd h List.not_mem_nil
  | filter id base predicates hbase ih =>
    exact fun around => isAnalyzed_of_parts rfl rfl (analyzedFor_of_mem_append (hbase around)
      (analyzedFor_of_mem_predicateParts ih _))
  | comparison id op left right access hleft hright =>
    exact fun around => isAnalyzed_of_parts rfl rfl
      (analyzedFor_of_mem_append (hleft around) (hright around))
  | call id function args access ih =>
    exact fun around => isAnalyzed_of_parts rfl rfl (analyzedFor_of_mem_partsOf ih around)
  | var name => exact fun _ => isAnalyzed_of_parts rfl rfl fun _ _ h => absurd h List.not_mem_nil
  | literal value =>
    exact fun _ => isAnalyzed_of_parts rfl rfl fun _ _ h => absurd h List.not_mem_nil
  | and left right hleft hright =>
    exact fun around => isAnalyzed_of_parts rfl rfl
      (analyzedFor_of_mem_append (hleft around) (hright around))
  | or left right hleft hright =>
    exact fun around => isAnalyzed_of_parts rfl rfl
      (analyzedFor_of_mem_append (hleft around) (hright around))
  | sequence items ih =>
    exact fun around => isAnalyzed_of_parts rfl rfl (analyzedFor_of_mem_partsOf ih around)
  | extension id pragmas body ih =>
    exact fun around => isAnalyzed_of_parts rfl rfl (ih _)

end Expr

/-! ### Where descending axes lead -/

namespace Axis

variable {axis : Axis}

theorem isStraight_of_mem (h : axis ∈ Expr.optimizableAxes) : axis.isStraight = true := by
  cases axis <;> first | rfl | exact absurd h (by decide)

end Axis

namespace Store

variable {s : Store} {n m : Node}

/-- **A descending axis leads to what is at or below a node.** -/
theorem Leads.within {axis : Axis} (haxis : axis ∈ Expr.optimizableAxes)
    (h : s.Leads axis n m) : m.Within n := by
  cases axis with
  | child | attr => exact Node.within_of_isChildOf h.1
  | descendant | descendantAttr => exact .inr h.1
  | descendantOrSelf =>
    rcases h with rfl | h
    · exact .refl m
    · exact .inr h.1
  | self => exact .inl h
  | _ => exact absurd haxis (by decide)

theorem LeadsAlong.within {heads : List StepHead}
    (h : ∀ head ∈ heads, head.axis ∈ Expr.optimizableAxes) :
    ∀ {n : Node}, s.LeadsAlong heads n m → m.Within n := by
  induction heads with
  | nil =>
    rintro n rfl
    exact .refl m
  | cons head rest ih =>
    rintro n ⟨x, ⟨hleads, _⟩, hrest⟩
    exact (ih (fun head hhead => h head (List.mem_cons_of_mem _ hhead)) hrest).trans
      (hleads.within (h head List.mem_cons_self))

/-- What steps lead to passes the test of the last one. -/
theorem LeadsAlong.passes {heads : List StepHead} {last : StepHead} :
    ∀ {n : Node}, s.LeadsAlong heads n m → heads.getLast? = some last →
      s.Passes last.axis last.test m := by
  induction heads with
  | nil =>
    intro n _ hlast
    cases hlast
  | cons head rest ih =>
    rintro n ⟨x, ⟨_, hpasses⟩, hrest⟩ hlast
    cases rest with
    | nil =>
      obtain rfl : m = x := hrest
      obtain rfl := Option.some.inj hlast
      exact hpasses
    | cons second rest => exact ih hrest (by rwa [List.getLast?_cons_cons] at hlast)

end Store

/-! ### Where the hits of a descending probe are -/

namespace Target

variable {path : Expr} {outer : Option OuterStep} {target : Target}

theorem axis_mem_of_goesDown (h : Target.of? path outer = some target)
    (hdown : path.goesDown = true)
    (houter : ∀ step, outer = some step → step.axis ∈ Expr.optimizableAxes) :
    target.axis ∈ Expr.optimizableAxes := by
  have hall : ∀ heads, simpleSteps? path = some heads →
      ∀ head ∈ heads, head.axis ∈ Expr.optimizableAxes := by
    intro heads hheads head hhead
    unfold Expr.goesDown at hdown
    rw [hheads, Option.all_some, List.all_eq_true] at hdown
    exact List.elem_iff.1 (hdown head hhead)
  rcases of?_cases h with ⟨_, step, _, _, _, rfl, _, _, rfl⟩ | ⟨head, _, hheads, _, rfl⟩ |
    ⟨first, second, rest, _, _, hheads, _, _, rfl⟩
  · exact houter step rfl
  · exact hall _ hheads head List.mem_cons_self
  · dsimp only
    split_ifs
    · exact hall _ hheads second (List.mem_cons_of_mem _ List.mem_cons_self)
    · exact hall _ hheads first List.mem_cons_self

/-- **What a path leads to when hits do not tell which nodes they qualify:** what has the name
of its last step. -/
theorem of?_of_relation_none (h : Target.of? path outer = some target)
    (hrelation : target.relation = none) :
    ∃ heads last q, simpleSteps? path = some heads ∧ heads.getLast? = some last ∧
      last.test = .name q ∧ target.name = ⟨last.axis.nameType, q⟩ := by
  rcases of?_cases h with ⟨_, _, _, _, _, _, _, _, rfl⟩ | ⟨head, q, hheads, htest, rfl⟩ |
    ⟨first, second, rest, last, q, hheads, hlast, htest, rfl⟩
  · cases hrelation
  · exact ⟨_, head, q, hheads, rfl, htest, rfl⟩
  · exact ⟨_, last, q, hheads, hlast, htest, rfl⟩

/-- **From a hit the upward axis of a probe leads to what the hit qualifies.** -/
theorem leads_upward {s : Store} (h : Target.of? path outer = some target) (op : RangeOp)
    (key : AtomicValue) {n m : Node}
    (hrelates : ∀ relation, target.relation = some relation → relation.Relates n m)
    (hwithin : m.Within n) : s.Leads (target.probe op key).upwardAxis m n := by
  have hup : s.Leads .ancestorOrSelf m n := hwithin.imp Eq.symm id
  rcases of?_cases h with ⟨_, _, _, _, _, _, _, _, rfl⟩ | ⟨⟨_, axis, _, _⟩, _, _, _, rfl⟩ |
    ⟨_, _, _, _, _, _, _, _, rfl⟩
  · exact (hrelates _ rfl).symm
  · cases axis with
    | child | attr => exact hrelates .parentChild rfl
    | _ => exact hup
  · exact hup

end Target
end IndexedXml
