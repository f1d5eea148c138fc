/-
# What analysis looks at

Analysis reads the probe of a condition off the axes and the tests of its path and off its
literal.  It changes none of these, and neither does moving numbers up; so the probe is the
same before and after (`Expr.probed?_analyze`, `Expr.probed?_renumber`), and a condition
that is analyzed has just that probe, unless indexes are not to be used
(`Expr.probe?_analyze`).
-/

import IndexedXml.Proofs.Query.Conditions
import IndexedXml.Proofs.Query.Renumbering

namespace IndexedXml

open IndexedXml.Expr

/-- **A change of expressions that an index does not notice:** it keeps literals, and the axes
and the tests of steps. -/
structure KeepsShape (f : Expr → Expr) : Prop where
  literal : ∀ e, IndexProbe.literalKey? (f e) = IndexProbe.literalKey? e
  steps : ∃ g : StepHead → StepHead, (∀ head, (g head).axis = head.axis ∧ (g head).test = head.test) ∧
    ∀ e, Target.simpleSteps? (f e) = (Target.simpleSteps? e).map (List.map g)

namespace KeepsShape

variable {f : Expr → Expr}

/-- A path without predicates leads to the same target. -/
theorem target (h : KeepsShape f) (e : Expr) (outer : Option OuterStep) :
    Target.of? (f e) outer = Target.of? e outer := by
  obtain ⟨g, hg, hsteps⟩ := h.steps
  have hlast : ∀ (head : StepHead) (rest : List StepHead),
      ((head :: rest).map g).getLast (by simp) = g ((head :: rest).getLast (by simp)) := by
    intro head rest
    rw [List.getLast_map]
  unfold Target.of?
  rw [hsteps]
  rcases Target.simpleSteps? e with _ | ⟨_ | ⟨first, _ | ⟨second, rest⟩⟩⟩
  · rfl
  · rfl
  · change (if (g first).axis = .self then Target.ofSelf (g first).test outer
      else Target.ofStep (g first)) = if first.axis = .self then Target.ofSelf first.test outer
      else Target.ofStep first
    unfold Target.ofStep
    rw [(hg first).1, (hg first).2]
  · change Target.ofSteps (g first) (g second) (rest.map g) = Target.ofSteps first second rest
    have hlast' : (g second :: rest.map g).getLast (List.cons_ne_nil _ _) =
        g ((second :: rest).getLast (List.cons_ne_nil _ _)) := hlast second rest
    unfold Target.ofSteps
    simp only [hlast', (hg _).1, (hg _).2]

theorem isSelfName (h : KeepsShape f) (e : Expr) : (f e).isSelfName = e.isSelfName := by
  obtain ⟨g, hg, hsteps⟩ := h.steps
  unfold Expr.isSelfName
  rw [hsteps]
  rcases Target.simpleSteps? e with _ | ⟨_ | ⟨first, _ | ⟨second, rest⟩⟩⟩
  · rfl
  · rfl
  · simp only [Option.map_some, List.map_cons, List.map_nil, (hg first).1, (hg first).2]
  · rfl

theorem ofSides (h : KeepsShape f) (op : ComparisonOp) (path literal : Expr)
    (outer : Option OuterStep) :
    IndexProbe.ofSides op (f path) (f literal) outer = IndexProbe.ofSides op path literal outer := by
  unfold IndexProbe.ofSides
  rw [h.target, h.literal]

theorem ofComparison (h : KeepsShape f) (op : ComparisonOp) (left right : Expr)
    (outer : Option OuterStep) :
    IndexProbe.ofComparison op (f left) (f right) outer =
      IndexProbe.ofComparison op left right outer := by
  unfold IndexProbe.ofComparison
  rw [h.ofSides, h.ofSides]

theorem ofCall (h : KeepsShape f) (function : Builtin) (args : List Expr)
    (outer : Option OuterStep) :
    IndexProbe.ofCall function (args.map f) outer = IndexProbe.ofCall function args outer := by
  have hstring : ∀ e start, f e = .literal (.string start) ↔ e = .literal (.string start) := by
    have hkey : ∀ e start, e = Expr.literal (.string start) ↔
        IndexProbe.literalKey? e = some (.string start) := by
      intro e start
      refine ⟨fun he => by rw [he]; rfl, IndexProbe.literalKey?_eq_some⟩
    intro e start
    rw [hkey, hkey, h.literal]
  have hsome : ∀ p, IndexProbe.ofCall function (args.map f) outer = some p ↔
      IndexProbe.ofCall function args outer = some p := by
    intro p
    constructor
    · intro hp
      obtain ⟨path, start, target, rfl, hargs, htarget, rfl⟩ := IndexProbe.ofCall_eq_some hp
      rcases args with _ | ⟨a, _ | ⟨b, _ | ⟨c, rest⟩⟩⟩
      · cases hargs
      · cases hargs
      · obtain ⟨rfl, hb⟩ := List.cons.inj hargs
        obtain rfl := (hstring b start).1 (List.cons.inj hb).1
        rw [h.target] at htarget
        rw [IndexProbe.ofCall, htarget]
        rfl
      · simp at hargs
    · intro hp
      obtain ⟨path, start, target, rfl, rfl, htarget, rfl⟩ := IndexProbe.ofCall_eq_some hp
      rw [List.map_cons, List.map_cons, List.map_nil, (hstring _ start).2 rfl, IndexProbe.ofCall,
        h.target, htarget]
      rfl
  exact Option.ext hsome

end KeepsShape

namespace Expr

/-! ### Moving numbers up -/

theorem simpleStep?_renumber (k : Nat) (e : Expr) :
    Target.simpleStep? (e.renumber k) =
      (Target.simpleStep? e).map fun head => { head with id := head.id + k } := by
  cases e with
  | step head predicates => cases predicates <;> rfl
  | _ => rfl

theorem keepsShape_renumber (k : Nat) : KeepsShape (renumber k) where
  literal e := by cases e <;> rfl
  steps := by
    refine ⟨fun head => { head with id := head.id + k }, fun _ => ⟨rfl, rfl⟩, fun e => ?_⟩
    cases e with
    | path id steps =>
      rw [renumber, Target.simpleSteps?, Target.simpleSteps?]
      induction steps with
      | nil => rfl
      | cons first rest ih =>
        rw [renumberAll, List.mapM_cons, List.mapM_cons, ih, simpleStep?_renumber]
        cases Target.simpleStep? first with
        | none => rfl
        | some head => cases rest.mapM Target.simpleStep? <;> rfl
    | step head predicates => cases predicates <;> rfl
    | _ => rfl

theorem probed?_renumber (k : Nat) (outer : Option OuterStep) (e : Expr) :
    (e.renumber k).probed? outer = e.probed? outer := by
  cases e with
  | comparison id op left right access => exact (keepsShape_renumber k).ofComparison op left right outer
  | call id function args access =>
    rw [renumber, renumberAll_eq_map]
    exact (keepsShape_renumber k).ofCall function args outer
  | _ => rfl

theorem namesSelf_renumber (k : Nat) (e : Expr) : (e.renumber k).namesSelf = e.namesSelf := by
  have hshape := keepsShape_renumber k
  cases e with
  | comparison id op left right access =>
    rw [renumber, namesSelf, namesSelf, hshape.isSelfName, hshape.isSelfName]
  | call id function args access =>
    rw [renumber, renumberAll_eq_map, namesSelf, namesSelf, List.any_map]
    exact congrArg (args.any ·) (funext hshape.isSelfName)
  | _ => rfl

/-! ### Analysis -/

theorem simpleStep?_analyze (surroundings : Surroundings) (e : Expr) :
    Target.simpleStep? (e.analyze surroundings) =
      (Target.simpleStep? e).map fun head =>
        { head with treeTraversal := surroundings.treeTraversal } := by
  cases e with
  | step head predicates => cases predicates <;> rfl
  | _ => rfl

theorem keepsShape_analyze (surroundings : Surroundings) : KeepsShape (analyze surroundings) where
  literal e := by cases e <;> rfl
  steps := by
    refine ⟨fun head => { head with treeTraversal := surroundings.treeTraversal },
      fun _ => ⟨rfl, rfl⟩, fun e => ?_⟩
    have hlater : ∀ (es : List Expr) (around : Surroundings),
        around.treeTraversal = surroundings.treeTraversal →
        (analyzeAll around es).mapM Target.simpleStep? = (es.mapM Target.simpleStep?).map
          (List.map fun head => { head with treeTraversal := surroundings.treeTraversal }) := by
      intro es around heq
      induction es with
      | nil => rfl
      | cons first rest ih =>
        rw [analyzeAll, List.mapM_cons, List.mapM_cons, ih, simpleStep?_analyze, heq]
        cases Target.simpleStep? first with
        | none => rfl
        | some head => cases rest.mapM Target.simpleStep? <;> rfl
    cases e with
    | path id steps =>
      rw [analyze, Target.simpleSteps?, Target.simpleSteps?]
      cases steps with
      | nil => rfl
      | cons first rest =>
        rw [analyzeSteps, List.mapM_cons, List.mapM_cons, simpleStep?_analyze,
          hlater rest surroundings.withoutOuter rfl]
        cases Target.simpleStep? first with
        | none => rfl
        | some head => cases rest.mapM Target.simpleStep? <;> rfl
    | step head predicates => cases predicates <;> rfl
    | _ => rfl

theorem probed?_analyze (surroundings : Surroundings) (outer : Option OuterStep) (e : Expr) :
    (e.analyze surroundings).probed? outer = e.probed? outer := by
  cases e with
  | comparison id op left right access =>
    exact (keepsShape_analyze surroundings).ofComparison op left right outer
  | call id function args access =>
    rw [analyze, analyzeAll_eq_map]
    exact (keepsShape_analyze surroundings).ofCall function args outer
  | _ => rfl

theorem namesSelf_analyze (surroundings : Surroundings) (e : Expr) :
    (e.analyze surroundings).namesSelf = e.namesSelf := by
  have hshape := keepsShape_analyze surroundings
  cases e with
  | comparison id op left right access =>
    rw [analyze, namesSelf, namesSelf, hshape.isSelfName, hshape.isSelfName]
  | call id function args access =>
    rw [analyze, analyzeAll_eq_map, namesSelf, namesSelf, List.any_map]
    exact congrArg (args.any ·) (funext hshape.isSelfName)
  | _ => rfl

/-- **The probe that analysis gives to a condition,** unless indexes are not to be used. -/
theorem probe?_analyze (surroundings : Surroundings) (e : Expr) :
    (e.analyze surroundings).probe?.map Prod.snd =
      if surroundings.treeTraversal then none else e.probed? surroundings.outer := by
  have hprobe : ∀ (id : ExprId) (probe : Option IndexProbe),
      (do let probe ← (surroundings.access probe).usable?; pure (id, probe) :
        Option (ExprId × IndexProbe)).map Prod.snd =
        if surroundings.treeTraversal then none else probe := by
    intro id probe
    unfold Surroundings.access Access.usable?
    dsimp only
    split_ifs
    · rfl
    · cases probe <;> rfl
  rw [← probed?_analyze surroundings]
  cases e with
  | comparison id op left right access => exact hprobe _ _
  | call id function args access => exact hprobe _ _
  | _ =>
    change none = _
    split_ifs <;> rfl

end Expr
end IndexedXml
