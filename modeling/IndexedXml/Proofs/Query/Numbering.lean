/-
# Numbers of parts

Compiling gives numbers out in ascending order, so no two parts of a query have the same
one (`CompiledQuery.nodup_numbers`).  A number therefore leads back to a part: pragmas with
one number are one pragma, of one expression (`Expr.pragma_unique`), and so are steps
(`Expr.step_unique`).
-/

import IndexedXml.Proofs.Query.Structure
import IndexedXml.Proofs.Results
import IndexedXml.Query.Compiled
import Mathlib.Data.List.Flatten
import Mathlib.Data.List.Nodup
import Mathlib.Data.List.Pairwise

namespace IndexedXml

/-- The numbers that a part has itself. -/
def Expr.Part.numbers : Expr.Part → List ExprId
  | .expr (.path id _) | .expr (.filter id _ _) | .expr (.comparison id _ _ _ _)
  | .expr (.call id _ _ _) => [id]
  | .expr (.step head _) => [head.id]
  | .expr (.extension id pragmas _) => id :: pragmas.map Pragma.id
  | .predicate p => [p.id]
  | _ => []

namespace Expr

/-- The numbers of an expression and of its parts. -/
def numbers (e : Expr) : List ExprId := e.parts.flatMap Part.numbers

/-- The numbers of several expressions. -/
def numbersOf (es : List Expr) : List ExprId := (partsOf es).flatMap Part.numbers

/-- The numbers of predicates. -/
def predicateNumbers (ps : List Predicate) : List ExprId := (predicateParts ps).flatMap Part.numbers

@[simp] theorem numbersOf_nil : numbersOf [] = [] := rfl

@[simp] theorem numbersOf_cons (e : Expr) (es : List Expr) :
    numbersOf (e :: es) = e.numbers ++ numbersOf es := List.flatMap_append

@[simp] theorem numbersOf_append (es es' : List Expr) :
    numbersOf (es ++ es') = numbersOf es ++ numbersOf es' := by
  induction es with
  | nil => rfl
  | cons e rest ih => rw [List.cons_append, numbersOf_cons, numbersOf_cons, ih, List.append_assoc]

@[simp] theorem predicateNumbers_nil : predicateNumbers [] = [] := rfl

@[simp] theorem predicateNumbers_cons (p : Predicate) (ps : List Predicate) :
    predicateNumbers (p :: ps) = p.id :: (p.expr.numbers ++ predicateNumbers ps) :=
  congrArg (p.id :: ·) List.flatMap_append

@[simp] theorem numbers_path (id : ExprId) (steps : List Expr) :
    (path id steps).numbers = id :: numbersOf steps := rfl

@[simp] theorem numbers_step (head : StepHead) (ps : List Predicate) :
    (step head ps).numbers = head.id :: predicateNumbers ps := rfl

@[simp] theorem numbers_root : root.numbers = [] := rfl

@[simp] theorem numbers_filter (id : ExprId) (base : Expr) (ps : List Predicate) :
    (filter id base ps).numbers = id :: (base.numbers ++ predicateNumbers ps) :=
  congrArg (id :: ·) List.flatMap_append

@[simp] theorem numbers_comparison (id : ExprId) (op : ComparisonOp) (left right : Expr)
    (access : Access) :
    (comparison id op left right access).numbers = id :: (left.numbers ++ right.numbers) :=
  congrArg (id :: ·) List.flatMap_append

@[simp] theorem numbers_call (id : ExprId) (function : Builtin) (args : List Expr)
    (access : Access) : (call id function args access).numbers = id :: numbersOf args := rfl

@[simp] theorem numbers_variable (name : String) : (Expr.variable name).numbers = [] := rfl

@[simp] theorem numbers_literal (value : AtomicValue) : (literal value).numbers = [] := rfl

@[simp] theorem numbers_and (left right : Expr) :
    (and left right).numbers = left.numbers ++ right.numbers := List.flatMap_append

@[simp] theorem numbers_or (left right : Expr) :
    (or left right).numbers = left.numbers ++ right.numbers := List.flatMap_append

@[simp] theorem numbers_sequence (items : List Expr) :
    (sequence items).numbers = numbersOf items := rfl

@[simp] theorem numbers_extension (id : ExprId) (pragmas : List Pragma) (body : Expr) :
    (extension id pragmas body).numbers = id :: (pragmas.map Pragma.id ++ body.numbers) := rfl

end Expr

/-! ### Numbers given out -/

/-- **The numbers given out** between one count and a later one, each once. -/
structure Given (n : Nat) (l : List Nat) (m : Nat) : Prop where
  le : n ≤ m
  nodup : l.Nodup
  bounds : ∀ i ∈ l, n < i ∧ i ≤ m

namespace Given

variable {n k m : Nat} {l l' : List Nat}

theorem nil (n : Nat) : Given n [] n := ⟨Nat.le_refl n, List.nodup_nil, fun _ h => nomatch h⟩

theorem single (n : Nat) : Given n [n + 1] (n + 1) := by
  refine ⟨Nat.le_succ n, List.nodup_singleton _, fun i hi => ?_⟩
  rw [List.mem_singleton] at hi
  omega

/-- What is given out later is different. -/
theorem append (h : Given n l k) (h' : Given k l' m) : Given n (l ++ l') m := by
  refine ⟨Nat.le_trans h.le h'.le, ?_, fun i hi => ?_⟩
  · refine List.nodup_append.2 ⟨h.nodup, h'.nodup, fun i hi j hj hij => ?_⟩
    have hle := (h.bounds i hi).2
    have hlt := (h'.bounds j hj).1
    omega
  · have hle := h.le
    have hle' := h'.le
    rcases List.mem_append.1 hi with hi | hi
    · have := h.bounds i hi
      omega
    · have := h'.bounds i hi
      omega

theorem perm (h : Given n l m) (hperm : l'.Perm l) : Given n l' m :=
  ⟨h.le, hperm.nodup_iff.2 h.nodup, fun i hi => h.bounds i (hperm.mem_iff.1 hi)⟩

theorem sublist (h : Given n l m) (hsub : l'.Sublist l) : Given n l' m :=
  ⟨h.le, h.nodup.sublist hsub, fun i hi => h.bounds i (hsub.subset hi)⟩

/-- A number given out before others. -/
theorem cons (h : Given (n + 1) l m) : Given n ((n + 1) :: l) m := (single n).append h

/-- A number given out after others, but listed before them. -/
theorem snoc (h : Given n l m) : Given n ((m + 1) :: l) (m + 1) :=
  (h.append (single m)).perm (List.perm_append_singleton (m + 1) l).symm

end Given

/-- A computation gives out the numbers of what comes out of it. -/
def Gives {α : Type} (x : Numbering α) (numbers : α → List Nat) : Prop :=
  ∀ n a m, x.run n = .ok (a, m) → Given n (numbers a) m

/-- A composition that gives out numbers succeeds when both of its parts do. -/
theorem run_bind_eq_ok {α β : Type} {x : Numbering α} {f : α → Numbering β} {n m : ExprId}
    {b : β} :
    (x >>= f).run n = .ok (b, m) ↔ ∃ a k, x.run n = .ok (a, k) ∧ (f a).run k = .ok (b, m) := by
  rw [StateT.run_bind, bind_eq_ok]
  constructor
  · rintro ⟨⟨a, k⟩, hx, hf⟩; exact ⟨a, k, hx, hf⟩
  · rintro ⟨a, k, hx, hf⟩; exact ⟨(a, k), hx, hf⟩

theorem run_pure_eq_ok {α : Type} {a b : α} {n m : ExprId} :
    (pure a : Numbering α).run n = .ok (b, m) ↔ a = b ∧ n = m := by
  change Except.ok (a, n) = Except.ok (b, m) ↔ _
  simp

theorem run_fresh_eq_ok {i n m : ExprId} :
    ExprId.fresh.run n = .ok (i, m) ↔ n + 1 = i ∧ n + 1 = m := by
  change Except.ok (n + 1, n + 1) = Except.ok (i, m) ↔ _
  simp

/-- What does not depend on the count leaves it. -/
theorem run_lift_eq_ok {α : Type} {x : Except QueryError α} {a : α} {n m : ExprId} :
    (liftM x : Numbering α).run n = .ok (a, m) ↔ x = .ok a ∧ n = m := by
  cases x with
  | error e => simp [liftM, monadLift, MonadLift.monadLift, StateT.lift, StateT.run, bind,
      Except.bind]
  | ok b => simp [liftM, monadLift, MonadLift.monadLift, StateT.lift, StateT.run, bind,
      Except.bind, pure, Except.pure]

/-! ### Lowering -/

open IndexedXml.Expr

theorem Pragma.id_of_create {id : ExprId} {name : QName} {contents : String}
    {config : Configuration} {explicit : Bool} {p : Pragma}
    (h : Pragma.create id name contents config explicit = .ok (some p)) : p.id = id := by
  unfold Pragma.create at h
  obtain ⟨kind, _, h⟩ := bind_eq_ok.1 h
  cases kind with
  | none => cases h
  | some kind =>
    obtain rfl := Option.some.inj (Except.ok.inj h)
    rfl

theorem gives_ofDecls (config : Configuration) (decls : List PragmaDecl) :
    Gives (Pragma.ofDecls config decls) (List.map Pragma.id) := by
  induction decls with
  | nil =>
    intro n pragmas m h
    rw [Pragma.ofDecls, run_pure_eq_ok] at h
    obtain ⟨rfl, rfl⟩ := h
    exact .nil n
  | cons decl rest ih =>
    intro n pragmas m h
    rw [Pragma.ofDecls] at h
    obtain ⟨id, k, hid, h⟩ := run_bind_eq_ok.1 h
    obtain ⟨rfl, rfl⟩ := run_fresh_eq_ok.1 hid
    obtain ⟨pragma, k, hpragma, h⟩ := run_bind_eq_ok.1 h
    obtain ⟨hcreate, rfl⟩ := run_lift_eq_ok.1 hpragma
    obtain ⟨later, k, hlater, h⟩ := run_bind_eq_ok.1 h
    obtain ⟨rfl, rfl⟩ := run_pure_eq_ok.1 h
    have hlater := ih _ _ _ hlater
    cases pragma with
    | none => exact hlater.cons.sublist (List.sublist_cons_self _ _)
    | some p =>
      change Given n (p.id :: later.map Pragma.id) _
      rw [Pragma.id_of_create hcreate]
      exact hlater.cons

theorem gives_lowerAll {config : Configuration} {es : List Surface}
    (hes : ∀ e ∈ es, Gives (e.lower config) numbers) :
    Gives (lowerAll config es) numbersOf := by
  induction es with
  | nil =>
    intro n xs m h
    rw [lowerAll, run_pure_eq_ok] at h
    obtain ⟨rfl, rfl⟩ := h
    exact .nil n
  | cons e rest ih =>
    intro n xs m h
    rw [lowerAll] at h
    obtain ⟨x, k, hx, h⟩ := run_bind_eq_ok.1 h
    obtain ⟨later, k', hlater, h⟩ := run_bind_eq_ok.1 h
    obtain ⟨rfl, rfl⟩ := run_pure_eq_ok.1 h
    rw [numbersOf_cons]
    exact (hes e List.mem_cons_self _ _ _ hx).append
      (ih (fun e he => hes e (List.mem_cons_of_mem _ he)) _ _ _ hlater)

theorem gives_lowerPredicates {config : Configuration} {es : List Surface}
    (hes : ∀ e ∈ es, Gives (e.lower config) numbers) :
    Gives (lowerPredicates config es) predicateNumbers := by
  induction es with
  | nil =>
    intro n ps m h
    rw [lowerPredicates, run_pure_eq_ok] at h
    obtain ⟨rfl, rfl⟩ := h
    exact .nil n
  | cons e rest ih =>
    intro n ps m h
    rw [lowerPredicates] at h
    obtain ⟨id, k, hid, h⟩ := run_bind_eq_ok.1 h
    obtain ⟨rfl, rfl⟩ := run_fresh_eq_ok.1 hid
    obtain ⟨x, k, hx, h⟩ := run_bind_eq_ok.1 h
    obtain ⟨later, k', hlater, h⟩ := run_bind_eq_ok.1 h
    obtain ⟨rfl, rfl⟩ := run_pure_eq_ok.1 h
    rw [predicateNumbers_cons]
    exact ((hes e List.mem_cons_self _ _ _ hx).append
      (ih (fun e he => hes e (List.mem_cons_of_mem _ he)) _ _ _ hlater)).cons

/-- The steps that a step becomes hold its predicates, and have numbers given out after
those. -/
theorem given_lowerStep {descendant : Bool} {axis : Axis} {test : NodeTest}
    {predicates : List Predicate} {k n m : ExprId} {steps : List Expr}
    (h : (Expr.lowerStep descendant axis test predicates).run k = .ok (steps, m))
    (hpredicates : Given n (predicateNumbers predicates) k) : Given n (numbersOf steps) m := by
  have hdirect : ∀ {axis : Axis} {k m n : ExprId} {x : Expr},
      (do let id ← ExprId.fresh
          pure (.step ⟨id, axis, test, false⟩ predicates) : Numbering Expr).run k = .ok (x, m) →
      Given n (predicateNumbers predicates) k → Given n x.numbers m := by
    intro axis k m n x h hpredicates
    obtain ⟨id, k', hid, h⟩ := run_bind_eq_ok.1 h
    obtain ⟨rfl, rfl⟩ := run_fresh_eq_ok.1 hid
    obtain ⟨rfl, rfl⟩ := run_pure_eq_ok.1 h
    rw [numbers_step]
    exact hpredicates.snoc
  have hsingle : ∀ {axis : Axis},
      (do let x ← (do let id ← ExprId.fresh
                      pure (.step ⟨id, axis, test, false⟩ predicates) : Numbering Expr)
          pure [x] : Numbering (List Expr)).run k = .ok (steps, m) → Given n (numbersOf steps) m := by
    intro axis h
    obtain ⟨x, k', hx, h⟩ := run_bind_eq_ok.1 h
    obtain ⟨rfl, rfl⟩ := run_pure_eq_ok.1 h
    rw [numbersOf_cons, numbersOf_nil, List.append_nil]
    exact hdirect hx hpredicates
  unfold Expr.lowerStep at h
  dsimp only at h
  cases descendant with
  | false => exact hsingle h
  | true =>
    rw [if_pos rfl] at h
    cases hthrough : axis.throughDescendants? (hasPositional predicates) with
    | some axis =>
      rw [hthrough] at h
      exact hsingle h
    | none =>
      rw [hthrough] at h
      obtain ⟨first, k', hfirst, h⟩ := run_bind_eq_ok.1 h
      unfold Expr.toDescendants at hfirst
      obtain ⟨id, k'', hid, hfirst⟩ := run_bind_eq_ok.1 hfirst
      obtain ⟨rfl, rfl⟩ := run_fresh_eq_ok.1 hid
      obtain ⟨rfl, rfl⟩ := run_pure_eq_ok.1 hfirst
      obtain ⟨x, k', hx, h⟩ := run_bind_eq_ok.1 h
      obtain ⟨rfl, rfl⟩ := run_pure_eq_ok.1 h
      obtain ⟨id, k'', hid, hx⟩ := run_bind_eq_ok.1 hx
      obtain ⟨rfl, rfl⟩ := run_fresh_eq_ok.1 hid
      obtain ⟨rfl, rfl⟩ := run_pure_eq_ok.1 hx
      refine (hpredicates.append ((Given.single k).append (Given.single (k + 1)))).perm ?_
      simp only [numbersOf_cons, numbersOf_nil, numbers_step, predicateNumbers_nil,
        List.append_nil, List.singleton_append]
      exact @List.perm_append_comm _ [k + 1, k + 1 + 1] _

/-- The path through steps has a number after theirs, or none of its own. -/
theorem given_ofSteps {steps : List Expr} {n k m : ExprId} {e : Expr}
    (h : (Expr.ofSteps steps).run k = .ok (e, m)) (hsteps : Given n (numbersOf steps) k) :
    Given n e.numbers m := by
  have hpath : ∀ {steps : List Expr},
      (do let id ← ExprId.fresh; pure (.path id steps) : Numbering Expr).run k = .ok (e, m) →
      Given n (numbersOf steps) k → Given n e.numbers m := by
    intro steps h hsteps
    obtain ⟨id, k', hid, h⟩ := run_bind_eq_ok.1 h
    obtain ⟨rfl, rfl⟩ := run_fresh_eq_ok.1 hid
    obtain ⟨rfl, rfl⟩ := run_pure_eq_ok.1 h
    rw [numbers_path]
    exact hsteps.snoc
  rcases steps with _ | ⟨first, _ | ⟨second, rest⟩⟩
  · exact hpath h hsteps
  · obtain ⟨rfl, rfl⟩ := run_pure_eq_ok.1 h
    rwa [numbersOf_cons, numbersOf_nil, List.append_nil] at hsteps
  · exact hpath h hsteps

/-- The step that a double slash puts before a step that starts from something else. -/
def leadingSteps (descendant : Bool) : Numbering (List Expr) :=
  if descendant then (do let first ← Expr.toDescendants; pure [first]) else pure []

/-- The expression below pragmas; none is the empty sequence. -/
def Surface.lowerBody (config : Configuration) : Option Surface → Numbering Expr
  | some body => body.lower config
  | none => pure (.sequence [])

theorem lowerSteps_filter (config : Configuration) (descendant : Bool) (primary : Surface)
    (predicates : List Surface) (rest : List SurfaceStep) :
    lowerSteps config (.filter descendant primary predicates :: rest) = (do
      let lead ← leadingSteps descendant
      let id ← ExprId.fresh
      let base ← primary.lower config
      let predicates ← lowerPredicates config predicates
      let rest ← lowerSteps config rest
      pure (lead ++ (if predicates.isEmpty then base else .filter id base predicates) :: rest)) := by
  rw [lowerSteps]
  cases descendant <;> rfl

theorem Surface.lower_pragma (config : Configuration) (decls : List PragmaDecl)
    (body : Option Surface) :
    (Surface.pragma decls body).lower config = (do
      let id ← ExprId.fresh
      let pragmas ← Pragma.ofDecls config decls
      let body ← Surface.lowerBody config body
      pure (if pragmas.isEmpty then body else .extension id pragmas body)) := by
  rw [lower]
  cases body <;> rfl

theorem gives_leadingSteps (descendant : Bool) : Gives (leadingSteps descendant) numbersOf := by
  intro n steps m h
  unfold leadingSteps at h
  cases descendant with
  | false =>
    obtain ⟨rfl, rfl⟩ := run_pure_eq_ok.1 h
    exact .nil n
  | true =>
    rw [if_pos rfl] at h
    obtain ⟨x, k, hx, h⟩ := run_bind_eq_ok.1 h
    obtain ⟨rfl, rfl⟩ := run_pure_eq_ok.1 h
    unfold Expr.toDescendants at hx
    obtain ⟨id, k', hid, hx⟩ := run_bind_eq_ok.1 hx
    obtain ⟨rfl, rfl⟩ := run_fresh_eq_ok.1 hid
    obtain ⟨rfl, rfl⟩ := run_pure_eq_ok.1 hx
    simpa using Given.single n

theorem gives_lowerSteps {config : Configuration} {steps : List SurfaceStep}
    (hsteps : ∀ step ∈ steps, ∀ e ∈ step.inside, Gives (e.lower config) numbers) :
    Gives (lowerSteps config steps) numbersOf := by
  induction steps with
  | nil =>
    intro n xs m h
    rw [lowerSteps, run_pure_eq_ok] at h
    obtain ⟨rfl, rfl⟩ := h
    exact .nil n
  | cons step rest ih =>
    intro n xs m h
    have hfirst := hsteps step List.mem_cons_self
    have hrest := ih fun step hstep => hsteps step (List.mem_cons_of_mem _ hstep)
    cases step with
    | axis descendant axis test predicates =>
      rw [lowerSteps] at h
      obtain ⟨ps, k, hps, h⟩ := run_bind_eq_ok.1 h
      obtain ⟨own, k', hown, h⟩ := run_bind_eq_ok.1 h
      obtain ⟨later, k'', hlater, h⟩ := run_bind_eq_ok.1 h
      obtain ⟨rfl, rfl⟩ := run_pure_eq_ok.1 h
      rw [numbersOf_append]
      exact (given_lowerStep hown (gives_lowerPredicates hfirst _ _ _ hps)).append (hrest _ _ _ hlater)
    | filter descendant primary predicates =>
      obtain ⟨hprimary, hpredicates⟩ := List.forall_mem_cons.1 hfirst
      rw [lowerSteps_filter] at h
      obtain ⟨lead, k₁, hlead, h⟩ := run_bind_eq_ok.1 h
      obtain ⟨id, k₂, hid, h⟩ := run_bind_eq_ok.1 h
      obtain ⟨rfl, rfl⟩ := run_fresh_eq_ok.1 hid
      obtain ⟨base, k₃, hbase, h⟩ := run_bind_eq_ok.1 h
      obtain ⟨ps, k₄, hps, h⟩ := run_bind_eq_ok.1 h
      obtain ⟨later, k₅, hlater, h⟩ := run_bind_eq_ok.1 h
      obtain ⟨rfl, rfl⟩ := run_pure_eq_ok.1 h
      have hstep : Given k₁
          (if ps.isEmpty then base else .filter (k₁ + 1) base ps).numbers k₄ := by
        have hall := ((hprimary _ _ _ hbase).append (gives_lowerPredicates hpredicates _ _ _ hps)).cons
        cases ps with
        | nil => exact hall.sublist (by simp)
        | cons p ps => simpa using hall
      rw [numbersOf_append, numbersOf_cons]
      exact (gives_leadingSteps _ _ _ _ hlead).append (hstep.append (hrest _ _ _ hlater))

/-- **Lowering gives out numbers in ascending order,** each once. -/
theorem Surface.gives_lower (config : Configuration) (surface : Surface) :
    Gives (surface.lower config) numbers := by
  induction surface using Surface.induct with
  | path start steps ih =>
    intro n e m h
    rw [lower] at h
    obtain ⟨lowered, k, hlowered, h⟩ := run_bind_eq_ok.1 h
    refine given_ofSteps h ?_
    have hsteps := gives_lowerSteps ih _ _ _ hlowered
    cases start <;> simpa using hsteps
  | comparison op left right hleft hright =>
    intro n e m h
    rw [lower] at h
    obtain ⟨id, k, hid, h⟩ := run_bind_eq_ok.1 h
    obtain ⟨rfl, rfl⟩ := run_fresh_eq_ok.1 hid
    obtain ⟨l, k, hl, h⟩ := run_bind_eq_ok.1 h
    obtain ⟨r, k', hr, h⟩ := run_bind_eq_ok.1 h
    obtain ⟨rfl, rfl⟩ := run_pure_eq_ok.1 h
    rw [numbers_comparison]
    exact ((hleft _ _ _ hl).append (hright _ _ _ hr)).cons
  | and left right hleft hright =>
    intro n e m h
    rw [lower] at h
    obtain ⟨l, k, hl, h⟩ := run_bind_eq_ok.1 h
    obtain ⟨r, k', hr, h⟩ := run_bind_eq_ok.1 h
    obtain ⟨rfl, rfl⟩ := run_pure_eq_ok.1 h
    rw [numbers_and]
    exact (hleft _ _ _ hl).append (hright _ _ _ hr)
  | or left right hleft hright =>
    intro n e m h
    rw [lower] at h
    obtain ⟨l, k, hl, h⟩ := run_bind_eq_ok.1 h
    obtain ⟨r, k', hr, h⟩ := run_bind_eq_ok.1 h
    obtain ⟨rfl, rfl⟩ := run_pure_eq_ok.1 h
    rw [numbers_or]
    exact (hleft _ _ _ hl).append (hright _ _ _ hr)
  | sequence items ih =>
    intro n e m h
    rw [lower] at h
    obtain ⟨xs, k, hxs, h⟩ := run_bind_eq_ok.1 h
    obtain ⟨rfl, rfl⟩ := run_pure_eq_ok.1 h
    rw [numbers_sequence]
    exact gives_lowerAll ih _ _ _ hxs
  | literal value =>
    intro n e m h
    rw [lower, run_pure_eq_ok] at h
    obtain ⟨rfl, rfl⟩ := h
    rw [numbers_literal]
    exact .nil n
  | var name =>
    intro n e m h
    rw [lower, run_pure_eq_ok] at h
    obtain ⟨rfl, rfl⟩ := h
    rw [numbers_variable]
    exact .nil n
  | call name args ih =>
    intro n e m h
    rw [lower] at h
    obtain ⟨function, k, hfunction, h⟩ := run_bind_eq_ok.1 h
    obtain ⟨_, rfl⟩ := run_lift_eq_ok.1 hfunction
    obtain ⟨id, k, hid, h⟩ := run_bind_eq_ok.1 h
    obtain ⟨rfl, rfl⟩ := run_fresh_eq_ok.1 hid
    obtain ⟨xs, k, hxs, h⟩ := run_bind_eq_ok.1 h
    obtain ⟨rfl, rfl⟩ := run_pure_eq_ok.1 h
    rw [numbers_call]
    exact (gives_lowerAll ih _ _ _ hxs).cons
  | pragma decls body ih =>
    intro n e m h
    rw [lower_pragma] at h
    obtain ⟨id, k₁, hid, h⟩ := run_bind_eq_ok.1 h
    obtain ⟨rfl, rfl⟩ := run_fresh_eq_ok.1 hid
    obtain ⟨pragmas, k₂, hpragmas, h⟩ := run_bind_eq_ok.1 h
    obtain ⟨x, k₃, hx, h⟩ := run_bind_eq_ok.1 h
    obtain ⟨rfl, rfl⟩ := run_pure_eq_ok.1 h
    have hbody : Given k₂ x.numbers k₃ := by
      cases body with
      | none =>
        obtain ⟨rfl, rfl⟩ := run_pure_eq_ok.1 hx
        exact .nil k₂
      | some body => exact ih body rfl _ _ _ hx
    have hall := ((gives_ofDecls config decls _ _ _ hpragmas).append hbody).cons
    cases pragmas with
    | nil => exact hall.sublist (by simp)
    | cons p ps => simpa using hall

/-! ### Added pragmas -/

/-- A path is left as it is or gets a pragma, which takes two numbers. -/
theorem eq_or_extension_of_optimizePath {config : Configuration} {e x : Expr} {n m : ExprId}
    (h : (e.optimizePath config).run n = .ok (x, m)) :
    (x = e ∧ Given n [] m) ∨
      ∃ p, x = extension (n + 1) [p] e ∧ p.id = n + 1 + 1 ∧ m = n + 1 + 1 := by
  have hsame : (pure e : Numbering Expr).run n = .ok (x, m) → x = e ∧ Given n [] m := by
    intro h
    obtain ⟨rfl, rfl⟩ := run_pure_eq_ok.1 h
    exact ⟨rfl, .nil n⟩
  cases e with
  | path _ _ | step _ _ | filter _ _ _ =>
    rw [optimizePath] at h
    split_ifs at h
    · obtain ⟨id, k, hid, h⟩ := run_bind_eq_ok.1 h
      obtain ⟨rfl, rfl⟩ := run_fresh_eq_ok.1 hid
      obtain ⟨pragmaId, k, hid, h⟩ := run_bind_eq_ok.1 h
      obtain ⟨rfl, rfl⟩ := run_fresh_eq_ok.1 hid
      obtain ⟨created, k, hcreated, h⟩ := run_bind_eq_ok.1 h
      obtain ⟨hcreate, rfl⟩ := run_lift_eq_ok.1 hcreated
      cases created with
      | none =>
        obtain ⟨rfl, rfl⟩ := run_pure_eq_ok.1 h
        exact .inl ⟨rfl, ((Given.single n).append (Given.single (n + 1))).sublist (List.nil_sublist _)⟩
      | some p =>
        obtain ⟨rfl, rfl⟩ := run_pure_eq_ok.1 h
        exact .inr ⟨p, rfl, Pragma.id_of_create hcreate, rfl⟩
    · exact .inl (hsame h)
  | _ => exact .inl (hsame h)

/-- A pragma that is added takes two numbers after all others. -/
theorem numbers_optimizePath {config : Configuration} {e x : Expr} {n m : ExprId}
    (h : (e.optimizePath config).run n = .ok (x, m)) :
    ∃ own, x.numbers.Perm (e.numbers ++ own) ∧ Given n own m := by
  rcases eq_or_extension_of_optimizePath h with ⟨rfl, hgiven⟩ | ⟨p, rfl, hid, rfl⟩
  · exact ⟨[], by simp, hgiven⟩
  · refine ⟨[n + 1, n + 1 + 1], ?_, (Given.single n).append (Given.single (n + 1))⟩
    rw [numbers_extension, List.map_singleton, hid]
    exact @List.perm_append_comm _ [n + 1, n + 1 + 1] _

theorem numbers_autoOptimizeAll {config : Configuration} {es : List Expr}
    (hes : ∀ e ∈ es, ∀ {n m x}, (e.autoOptimize config).run n = .ok (x, m) →
      ∃ own, x.numbers.Perm (e.numbers ++ own) ∧ Given n own m) :
    ∀ {n m xs}, (autoOptimizeAll config es).run n = .ok (xs, m) →
      ∃ own, (numbersOf xs).Perm (numbersOf es ++ own) ∧ Given n own m := by
  induction es with
  | nil =>
    intro n m xs h
    rw [autoOptimizeAll, run_pure_eq_ok] at h
    obtain ⟨rfl, rfl⟩ := h
    exact ⟨[], by simp, .nil n⟩
  | cons e rest ih =>
    intro n m xs h
    rw [autoOptimizeAll] at h
    obtain ⟨x, k, hx, h⟩ := run_bind_eq_ok.1 h
    obtain ⟨later, k', hlater, h⟩ := run_bind_eq_ok.1 h
    obtain ⟨rfl, rfl⟩ := run_pure_eq_ok.1 h
    obtain ⟨own, hperm, hown⟩ := hes e List.mem_cons_self hx
    obtain ⟨own', hperm', hown'⟩ := ih (fun e he => hes e (List.mem_cons_of_mem _ he)) hlater
    refine ⟨own ++ own', ?_, hown.append hown'⟩
    rw [numbersOf_cons, numbersOf_cons]
    have hboth := hperm.append hperm'
    rw [List.append_assoc] at hboth ⊢
    refine hboth.trans (List.Perm.append_left _ ?_)
    rw [← List.append_assoc, ← List.append_assoc]
    exact List.perm_append_comm.append_right _

/-- Added pragmas take numbers after all others. -/
theorem numbers_autoOptimize {config : Configuration} (e : Expr) {x : Expr} {n m : ExprId}
    (h : (e.autoOptimize config).run n = .ok (x, m)) :
    ∃ own, x.numbers.Perm (e.numbers ++ own) ∧ Given n own m := by
  induction e using Expr.induct generalizing x n m with
  | sequence items ih =>
    rw [autoOptimize] at h
    obtain ⟨xs, k, hxs, h⟩ := run_bind_eq_ok.1 h
    obtain ⟨rfl, rfl⟩ := run_pure_eq_ok.1 h
    rw [numbers_sequence, numbers_sequence]
    exact numbers_autoOptimizeAll (fun e he _ _ _ h => ih e he h) hxs
  | _ =>
    rw [autoOptimize] at h
    · exact numbers_optimizePath h
    · exact fun _ h => nomatch h

/-! ### Analysis -/

theorem numbersOf_analyzeAll {es : List Expr}
    (hes : ∀ e ∈ es, ∀ surroundings, (e.analyze surroundings).numbers = e.numbers)
    (surroundings : Surroundings) : numbersOf (analyzeAll surroundings es) = numbersOf es := by
  induction es with
  | nil => rw [analyzeAll]
  | cons e rest ih =>
    rw [analyzeAll, numbersOf_cons, numbersOf_cons, hes e List.mem_cons_self,
      ih fun e he => hes e (List.mem_cons_of_mem _ he)]

theorem predicateNumbers_analyzePredicates {ps : List Predicate}
    (hps : ∀ p ∈ ps, ∀ surroundings, (p.expr.analyze surroundings).numbers = p.expr.numbers)
    (surroundings : Surroundings) :
    predicateNumbers (analyzePredicates surroundings ps) = predicateNumbers ps := by
  induction ps with
  | nil => rw [analyzePredicates]
  | cons p rest ih =>
    rcases p with ⟨id, e, mode⟩
    have he : ∀ surroundings, (e.analyze surroundings).numbers = e.numbers :=
      hps ⟨id, e, mode⟩ List.mem_cons_self
    rw [analyzePredicates, predicateNumbers_cons, predicateNumbers_cons, he,
      ih fun p hp => hps p (List.mem_cons_of_mem _ hp)]

/-- **Analysis leaves all numbers as they are.** -/
theorem Expr.numbers_analyze (e : Expr) (surroundings : Surroundings) :
    (e.analyze surroundings).numbers = e.numbers := by
  induction e using Expr.induct generalizing surroundings with
  | path id steps ih =>
    rw [analyze, numbers_path, numbers_path]
    cases steps with
    | nil => rw [analyzeSteps]
    | cons first rest =>
      rw [analyzeSteps, numbersOf_cons, numbersOf_cons, ih first List.mem_cons_self,
        numbersOf_analyzeAll fun e he => ih e (List.mem_cons_of_mem _ he)]
  | step head predicates ih =>
    rw [analyze, numbers_step, numbers_step, predicateNumbers_analyzePredicates ih]
  | root => rw [analyze]
  | filter id base predicates hbase ih =>
    rw [analyze, numbers_filter, numbers_filter, hbase, predicateNumbers_analyzePredicates ih]
  | comparison id op left right access hleft hright =>
    rw [analyze, numbers_comparison, numbers_comparison, hleft, hright]
  | call id function args access ih =>
    rw [analyze, numbers_call, numbers_call, numbersOf_analyzeAll ih]
  | var name => rw [analyze]
  | literal value => rw [analyze]
  | and left right hleft hright => rw [analyze, numbers_and, numbers_and, hleft, hright]
  | or left right hleft hright => rw [analyze, numbers_or, numbers_or, hleft, hright]
  | sequence items ih =>
    rw [analyze, numbers_sequence, numbers_sequence, numbersOf_analyzeAll ih]
  | extension id pragmas body ih =>
    rw [analyze, numbers_extension, numbers_extension, ih, List.map_map]
    rfl

/-! ### Compiled queries -/

/-- **Compiling gives out the numbers of an expression,** and those of added pragmas last. -/
theorem Expr.given_ofSurface {config : Configuration} {surface : Surface} {n m : ExprId}
    {e : Expr} (h : (Expr.ofSurface config surface).run n = .ok (e, m)) : Given n e.numbers m := by
  unfold Expr.ofSurface at h
  obtain ⟨lowered, k, hlowered, h⟩ := run_bind_eq_ok.1 h
  have hgiven := surface.gives_lower config _ _ _ hlowered
  by_cases hauto : config.autoOptimize = true
  · rw [if_pos hauto] at h
    obtain ⟨optimized, k', hoptimized, h⟩ := run_bind_eq_ok.1 h
    obtain ⟨rfl, rfl⟩ := run_pure_eq_ok.1 h
    obtain ⟨own, hperm, hown⟩ := numbers_autoOptimize lowered hoptimized
    rw [numbers_analyze]
    exact (hgiven.append hown).perm hperm
  · rw [if_neg hauto] at h
    obtain ⟨rfl, rfl⟩ := run_pure_eq_ok.1 h
    rw [numbers_analyze]
    exact hgiven

/-- The parts of an expression that is compiled have different numbers. -/
theorem Expr.nodup_numbers_ofSurface {config : Configuration} {surface : Surface} {n m : ExprId}
    {e : Expr} (h : (Expr.ofSurface config surface).run n = .ok (e, m)) : e.numbers.Nodup :=
  (Expr.given_ofSurface h).nodup

/-- What compiling starts from: a query that is written, numbered from one on. -/
theorem CompiledQuery.exists_ofSurface_of_compile {source : String} {config : Configuration}
    {q : CompiledQuery} (h : CompiledQuery.compile source config = .ok q) :
    ∃ surface last, Surface.parse source = .ok surface ∧
      (Expr.ofSurface config surface).run .none = .ok (q.root, last) := by
  unfold CompiledQuery.compile at h
  obtain ⟨surface, hparse, h⟩ := bind_eq_ok.1 h
  obtain ⟨⟨e, last⟩, he, h⟩ := bind_eq_ok.1 h
  obtain rfl := Except.ok.inj h
  exact ⟨surface, last, hparse, he⟩

/-- **The parts of a compiled query have different numbers.** -/
theorem CompiledQuery.nodup_numbers {source : String} {config : Configuration} {q : CompiledQuery}
    (h : CompiledQuery.compile source config = .ok q) : q.root.numbers.Nodup := by
  obtain ⟨_, _, -, he⟩ := exists_ofSurface_of_compile h
  exact Expr.nodup_numbers_ofSurface he

/-! ### Parts by their numbers -/

namespace Expr

/-- What several lists have between them, each thing once, is in one of the lists only. -/
theorem eq_of_mem_flatMap {α β : Type} {f : α → List β} {l : List α} (h : (l.flatMap f).Nodup)
    {a a' : α} (ha : a ∈ l) (ha' : a' ∈ l) {b : β} (hb : b ∈ f a) (hb' : b ∈ f a') : a = a' := by
  by_contra hne
  have hsymm : Std.Symm (Function.onFun List.Disjoint f) := ⟨fun _ _ h _ hi hi' => h hi' hi⟩
  exact (List.nodup_flatMap.1 h).2.forall ha ha' hne hb hb'

/-- A number that two parts have is that of one part. -/
theorem part_unique {e : Expr} (h : e.numbers.Nodup) {part part' : Part} (hpart : part ∈ e.parts)
    (hpart' : part' ∈ e.parts) {i : ExprId} (hi : i ∈ part.numbers) (hi' : i ∈ part'.numbers) :
    part = part' :=
  eq_of_mem_flatMap h hpart hpart' hi hi'

/-- A number in two of several expressions is in one of them. -/
theorem unique_of_mem_numbersOf {es : List Expr} (h : (numbersOf es).Nodup) {e e' : Expr}
    (he : e ∈ es) (he' : e' ∈ es) {i : ExprId} (hi : i ∈ e.numbers) (hi' : i ∈ e'.numbers) :
    e = e' := by
  have hnumbers : ∀ es, numbersOf es = es.flatMap numbers := by
    intro es
    induction es with
    | nil => rfl
    | cons e rest ih => rw [numbersOf_cons, ih, List.flatMap_cons]
  rw [hnumbers] at h
  exact eq_of_mem_flatMap h he he' hi hi'

/-- A number in two of several predicates is in one of them. -/
theorem unique_of_mem_predicateNumbers {ps : List Predicate} (h : (predicateNumbers ps).Nodup)
    {p p' : Predicate} (hp : p ∈ ps) (hp' : p' ∈ ps) {i : ExprId} (hi : i ∈ p.expr.numbers)
    (hi' : i ∈ p'.expr.numbers) : p = p' := by
  have hnumbers : ∀ ps, predicateNumbers ps = ps.flatMap fun p => p.id :: p.expr.numbers := by
    intro ps
    induction ps with
    | nil => rfl
    | cons p rest ih => rw [predicateNumbers_cons, ih, List.flatMap_cons, List.cons_append]
  rw [hnumbers] at h
  exact eq_of_mem_flatMap h hp hp' (List.mem_cons_of_mem _ hi) (List.mem_cons_of_mem _ hi')

/-- The numbers of parts are among those of the whole. -/
theorem numbers_subset {e e' : Expr} (h : e'.parts ⊆ e.parts) : e'.numbers ⊆ e.numbers := by
  intro i hi
  obtain ⟨part, hpart, hi⟩ := List.mem_flatMap.1 hi
  exact List.mem_flatMap.2 ⟨part, h hpart, hi⟩

/-- The number of a pragma is among those of the expression. -/
theorem pragma_id_mem_numbers {e : Expr} {p : Pragma} (hp : p ∈ e.pragmas) : p.id ∈ e.numbers := by
  obtain ⟨id, pragmas, body, hpart, hp⟩ := mem_pragmas.1 hp
  exact List.mem_flatMap.2 ⟨_, hpart, List.mem_cons_of_mem _ (List.mem_map_of_mem hp)⟩

theorem mem_numbersOf {es : List Expr} {e : Expr} (he : e ∈ es) {i : ExprId} (hi : i ∈ e.numbers) :
    i ∈ numbersOf es :=
  ((sublist_partsOf he).flatMap _).subset hi

theorem mem_predicateNumbers {ps : List Predicate} {p : Predicate} (hp : p ∈ ps) {i : ExprId}
    (hi : i ∈ p.expr.numbers) : i ∈ predicateNumbers ps :=
  ((sublist_predicateParts hp).flatMap _).subset hi

theorem nodup_of_mem_numbersOf {es : List Expr} (h : (numbersOf es).Nodup) {e : Expr}
    (he : e ∈ es) : e.numbers.Nodup :=
  h.sublist ((sublist_partsOf he).flatMap _)

theorem nodup_of_mem_predicateNumbers {ps : List Predicate} (h : (predicateNumbers ps).Nodup)
    {p : Predicate} (hp : p ∈ ps) : p.expr.numbers.Nodup :=
  h.sublist ((sublist_predicateParts hp).flatMap _)

/-- The parts of a part have different numbers when those of the whole do. -/
theorem nodup_numbers_of_mem {e e' : Expr} (h : e.numbers.Nodup) (hpart : .expr e' ∈ e.parts) :
    e'.numbers.Nodup :=
  h.sublist ((parts_sublist_of_mem e hpart).flatMap _)

/-- **Pragmas with one number are one pragma,** of one expression. -/
theorem pragma_unique {e : Expr} (h : e.numbers.Nodup) {id id' : ExprId}
    {pragmas pragmas' : List Pragma} {body body' : Expr}
    (hpart : .expr (.extension id pragmas body) ∈ e.parts)
    (hpart' : .expr (.extension id' pragmas' body') ∈ e.parts) {p p' : Pragma}
    (hp : p ∈ pragmas) (hp' : p' ∈ pragmas') (hid : p.id = p'.id) : p = p' ∧ body = body' := by
  have hmem : ∀ {id pragmas body} {p : Pragma}, p ∈ pragmas →
      p.id ∈ Part.numbers (.expr (.extension id pragmas body)) := fun hp =>
    List.mem_cons_of_mem _ (List.mem_map_of_mem hp)
  have hsame := part_unique h hpart hpart' (hmem hp) (hid ▸ hmem hp')
  injection hsame with hsame
  injection hsame with _ hpragmas hbody
  subst hpragmas
  have hnodup : (Part.numbers (.expr (.extension id pragmas body))).Nodup :=
    (List.nodup_flatMap.1 h).1 _ hpart
  exact ⟨List.inj_on_of_nodup_map (List.nodup_cons.1 hnodup).2 hp hp' hid, hbody⟩

/-- **Steps with one number are one step.** -/
theorem step_unique {e : Expr} (h : e.numbers.Nodup) {head head' : StepHead}
    {predicates predicates' : List Predicate} (hpart : .expr (.step head predicates) ∈ e.parts)
    (hpart' : .expr (.step head' predicates') ∈ e.parts) (hid : head.id = head'.id) :
    head = head' ∧ predicates = predicates' := by
  have hsame := part_unique h hpart hpart' (List.mem_singleton.2 rfl)
    (hid ▸ List.mem_singleton.2 rfl)
  injection hsame with hsame
  injection hsame with hhead hpredicates
  exact ⟨hhead, hpredicates⟩

end Expr
end IndexedXml
