/-
# Going through expressions

Compiled expressions hold lists of expressions and of predicates.  `Expr.induct` is
induction over them in which a list stands for all of its members, so that a property is
stated for expressions alone, `Expr.induct_parts` is induction over the lists of their parts,
and `Expr.induct_extensions` goes from what stands below pragmas to what they stand in.
`Surface.induct` is the same as the first for queries as they are written, and
`Surface.Everywhere` says of a property that all that is in a query has it.
-/

import IndexedXml.Query.Expr
import IndexedXml.Query.Surface

namespace IndexedXml

/-- What is in a step of a written query. -/
def SurfaceStep.inside : SurfaceStep → List Surface
  | .axis _ _ _ predicates => predicates
  | .filter _ primary predicates => primary :: predicates

/-- **Induction over written queries.** -/
@[elab_as_elim]
theorem Surface.induct {motive : Surface → Prop}
    (path : ∀ start steps, (∀ step ∈ steps, ∀ e ∈ step.inside, motive e) →
      motive (.path start steps))
    (comparison : ∀ op left right, motive left → motive right → motive (.comparison op left right))
    (and : ∀ left right, motive left → motive right → motive (.and left right))
    (or : ∀ left right, motive left → motive right → motive (.or left right))
    (sequence : ∀ items, (∀ e ∈ items, motive e) → motive (.sequence items))
    (literal : ∀ value, motive (.literal value))
    (var : ∀ name, motive (.variable name))
    (call : ∀ name args, (∀ e ∈ args, motive e) → motive (.call name args))
    (pragma : ∀ decls body, (∀ e ∈ body, motive e) → motive (.pragma decls body))
    (e : Surface) : motive e := by
  refine @Surface.rec motive (fun step => ∀ e ∈ step.inside, motive e)
    (fun steps => ∀ step ∈ steps, ∀ e ∈ step.inside, motive e) (fun es => ∀ e ∈ es, motive e)
    (fun body => ∀ e ∈ body, motive e) path comparison and or sequence literal var call pragma
    ?_ ?_ ?_ ?_ ?_ ?_ ?_ ?_ e
  · exact fun _ _ _ _ h => h
  · exact fun _ _ _ hprimary hpredicates => List.forall_mem_cons.2 ⟨hprimary, hpredicates⟩
  · exact fun _ h => nomatch h
  · exact fun _ _ hfirst hrest => List.forall_mem_cons.2 ⟨hfirst, hrest⟩
  · exact fun _ h => nomatch h
  · exact fun _ _ hfirst hrest => List.forall_mem_cons.2 ⟨hfirst, hrest⟩
  · exact fun _ h => nomatch h
  · rintro e he _ ⟨⟩
    exact he

/-! ### What is in a written query -/

/-- The expressions directly in a query. -/
def Surface.inside : Surface → List Surface
  | .path _ steps => steps.flatMap SurfaceStep.inside
  | .comparison _ left right | .and left right | .or left right => [left, right]
  | .sequence items => items
  | .literal _ | .variable _ => []
  | .call _ args => args
  | .pragma _ body => body.toList

/-- Induction over written queries in which nothing matters but what is in them. -/
@[elab_as_elim]
theorem Surface.induct_inside {motive : Surface → Prop}
    (h : ∀ e, (∀ part ∈ e.inside, motive part) → motive e) (e : Surface) : motive e := by
  induction e using Surface.induct with
  | path start steps ih =>
    refine h _ fun part hpart => ?_
    obtain ⟨s, hs, hinside⟩ := List.mem_flatMap.1 hpart
    exact ih s hs part hinside
  | comparison op left right hleft hright =>
    exact h _ (List.forall_mem_cons.2 ⟨hleft, List.forall_mem_singleton.2 hright⟩)
  | and left right hleft hright | or left right hleft hright =>
    exact h _ (List.forall_mem_cons.2 ⟨hleft, List.forall_mem_singleton.2 hright⟩)
  | sequence items ih => exact h _ ih
  | literal value => exact h _ fun _ hpart => absurd hpart List.not_mem_nil
  | var name => exact h _ fun _ hpart => absurd hpart List.not_mem_nil
  | call name args ih => exact h _ ih
  | pragma decls body ih => exact h _ fun part hpart => ih part (Option.mem_toList.1 hpart)

mutual

/-- A query and all that is in it, however deep. -/
def Surface.parts : Surface → List Surface
  | .path start steps => .path start steps :: Surface.partsOfSteps steps
  | .comparison op left right => .comparison op left right :: (left.parts ++ right.parts)
  | .and left right => .and left right :: (left.parts ++ right.parts)
  | .or left right => .or left right :: (left.parts ++ right.parts)
  | .sequence items => .sequence items :: Surface.partsOf items
  | .literal v => [.literal v]
  | .variable n => [.variable n]
  | .call n args => .call n args :: Surface.partsOf args
  | .pragma decls none => [.pragma decls none]
  | .pragma decls (some body) => .pragma decls (some body) :: body.parts

/-- The parts of several queries. -/
def Surface.partsOf : List Surface → List Surface
  | [] => []
  | e :: rest => e.parts ++ Surface.partsOf rest

/-- The parts of what is in several steps. -/
def Surface.partsOfSteps : List SurfaceStep → List Surface
  | [] => []
  | .axis _ _ _ conditions :: rest => Surface.partsOf conditions ++ Surface.partsOfSteps rest
  | .filter _ primary conditions :: rest =>
    primary.parts ++ Surface.partsOf conditions ++ Surface.partsOfSteps rest

end

theorem Surface.partsOf_eq_flatMap (items : List Surface) :
    Surface.partsOf items = items.flatMap Surface.parts := by
  induction items with
  | nil => rfl
  | cons e rest ih => rw [Surface.partsOf, ih, List.flatMap_cons]

theorem Surface.partsOfSteps_eq_flatMap (steps : List SurfaceStep) :
    Surface.partsOfSteps steps = (steps.flatMap SurfaceStep.inside).flatMap Surface.parts := by
  induction steps with
  | nil => rfl
  | cons s rest ih =>
    cases s <;> simp [Surface.partsOfSteps, ih, Surface.partsOf_eq_flatMap, SurfaceStep.inside]

theorem Surface.parts_eq (e : Surface) : e.parts = e :: e.inside.flatMap Surface.parts := by
  cases e with
  | path start steps => rw [Surface.parts, Surface.partsOfSteps_eq_flatMap, Surface.inside]
  | comparison op left right | and left right | or left right =>
    simp [Surface.parts, Surface.inside]
  | sequence items | call n items => rw [Surface.parts, Surface.partsOf_eq_flatMap, Surface.inside]
  | literal v | «variable» n => rfl
  | pragma decls body => cases body <;> simp [Surface.parts, Surface.inside]

/-- **A property of a query and of all that is in it.** -/
def Surface.Everywhere (p : Surface → Prop) (e : Surface) : Prop := ∀ part ∈ e.parts, p part

instance (p : Surface → Prop) [DecidablePred p] (e : Surface) : Decidable (e.Everywhere p) :=
  inferInstanceAs (Decidable (∀ part ∈ e.parts, p part))

theorem Surface.everywhere_iff {p : Surface → Prop} {e : Surface} :
    e.Everywhere p ↔ p e ∧ ∀ part ∈ e.inside, part.Everywhere p := by
  rw [Surface.Everywhere, Surface.parts_eq, List.forall_mem_cons]
  refine and_congr_right fun _ => ⟨fun h part hpart q hq => ?_, fun h q hq => ?_⟩
  · exact h q (List.mem_flatMap.2 ⟨part, hpart, hq⟩)
  · obtain ⟨part, hpart, hq⟩ := List.mem_flatMap.1 hq
    exact h part hpart q hq

theorem Surface.Everywhere.intro {p : Surface → Prop} {e : Surface} (self : p e)
    (inside : ∀ part ∈ e.inside, part.Everywhere p) : e.Everywhere p :=
  Surface.everywhere_iff.2 ⟨self, inside⟩

/-! ### Compiled expressions -/

/-- **Induction over compiled expressions.** -/
@[elab_as_elim]
theorem Expr.induct {motive : Expr → Prop}
    (path : ∀ id steps, (∀ e ∈ steps, motive e) → motive (.path id steps))
    (step : ∀ head predicates, (∀ p ∈ predicates, motive p.expr) → motive (.step head predicates))
    (root : motive .root)
    (filter : ∀ id base predicates, motive base → (∀ p ∈ predicates, motive p.expr) →
      motive (.filter id base predicates))
    (comparison : ∀ id op left right access, motive left → motive right →
      motive (.comparison id op left right access))
    (call : ∀ id function args access, (∀ e ∈ args, motive e) →
      motive (.call id function args access))
    (var : ∀ name, motive (.variable name))
    (literal : ∀ value, motive (.literal value))
    (and : ∀ left right, motive left → motive right → motive (.and left right))
    (or : ∀ left right, motive left → motive right → motive (.or left right))
    (sequence : ∀ items, (∀ e ∈ items, motive e) → motive (.sequence items))
    (extension : ∀ id pragmas body, motive body → motive (.extension id pragmas body))
    (e : Expr) : motive e := by
  refine @Expr.rec motive (fun es => ∀ e ∈ es, motive e) (fun ps => ∀ p ∈ ps, motive p.expr)
    (fun p => motive p.expr) path step root filter comparison call var literal and or sequence
    extension ?_ ?_ ?_ ?_ ?_ e
  · intro e he
    cases he
  · intro first rest hfirst hrest e he
    rcases List.mem_cons.1 he with rfl | he
    · exact hfirst
    · exact hrest e he
  · intro p hp
    cases hp
  · intro first rest hfirst hrest p hp
    rcases List.mem_cons.1 hp with rfl | hp
    · exact hfirst
    · exact hrest p hp
  · intro id e mode he
    exact he

namespace Expr

/-- The parts of several expressions are those of each. -/
theorem mem_partsOf {part : Part} {es : List Expr} :
    part ∈ partsOf es ↔ ∃ e ∈ es, part ∈ e.parts := by
  induction es with
  | nil => simp [partsOf]
  | cons e rest ih => simp [partsOf, ih]

/-- The parts of predicates are the predicates and the parts of each. -/
theorem mem_predicateParts {part : Part} {ps : List Predicate} :
    part ∈ predicateParts ps ↔ ∃ p ∈ ps, part = .predicate p ∨ part ∈ p.expr.parts := by
  induction ps with
  | nil => simp [predicateParts]
  | cons p rest ih => simp [predicateParts, ih, or_assoc]

theorem self_mem_parts (e : Expr) : .expr e ∈ e.parts := by
  unfold parts
  exact List.mem_cons_self

/-! ### What is in an expression -/

theorem parts_subset_path {id : ExprId} {steps : List Expr} {e : Expr} (he : e ∈ steps) :
    e.parts ⊆ (path id steps).parts :=
  fun _ h => List.mem_cons_of_mem _ (mem_partsOf.2 ⟨e, he, h⟩)

theorem parts_subset_step {head : StepHead} {predicates : List Predicate} {p : Predicate}
    (hp : p ∈ predicates) : p.expr.parts ⊆ (step head predicates).parts :=
  fun _ h => List.mem_cons_of_mem _ (mem_predicateParts.2 ⟨p, hp, .inr h⟩)

theorem parts_subset_base (id : ExprId) (base : Expr) (predicates : List Predicate) :
    base.parts ⊆ (filter id base predicates).parts :=
  fun _ h => List.mem_cons_of_mem _ (List.mem_append_left _ h)

theorem parts_subset_filter {id : ExprId} {base : Expr} {predicates : List Predicate}
    {p : Predicate} (hp : p ∈ predicates) : p.expr.parts ⊆ (filter id base predicates).parts :=
  fun _ h => List.mem_cons_of_mem _
    (List.mem_append_right _ (mem_predicateParts.2 ⟨p, hp, .inr h⟩))

theorem parts_subset_call {id : ExprId} {function : Builtin} {args : List Expr} {access : Access}
    {e : Expr} (he : e ∈ args) : e.parts ⊆ (call id function args access).parts :=
  fun _ h => List.mem_cons_of_mem _ (mem_partsOf.2 ⟨e, he, h⟩)

theorem parts_subset_sequence {items : List Expr} {e : Expr} (he : e ∈ items) :
    e.parts ⊆ (sequence items).parts :=
  fun _ h => List.mem_cons_of_mem _ (mem_partsOf.2 ⟨e, he, h⟩)

/-- The parts of an expression with two sides. -/
theorem parts_subset_sides {left right whole : Expr}
    (h : whole.parts = .expr whole :: (left.parts ++ right.parts)) :
    left.parts ⊆ whole.parts ∧ right.parts ⊆ whole.parts := by
  rw [h]
  exact ⟨fun _ h => List.mem_cons_of_mem _ (List.mem_append_left _ h),
    fun _ h => List.mem_cons_of_mem _ (List.mem_append_right _ h)⟩

theorem parts_subset_extension (id : ExprId) (pragmas : List Pragma) (body : Expr) :
    body.parts ⊆ (extension id pragmas body).parts :=
  fun _ h => List.mem_cons_of_mem _ h

/-- The pragmas of an expression are those of the extensions among its parts. -/
theorem mem_pragmas {e : Expr} {p : Pragma} :
    p ∈ e.pragmas ↔
      ∃ id pragmas body, .expr (.extension id pragmas body) ∈ e.parts ∧ p ∈ pragmas := by
  unfold pragmas
  rw [List.mem_flatMap]
  constructor
  · rintro ⟨part, hpart, hp⟩
    split at hp
    · exact ⟨_, _, _, hpart, hp⟩
    · cases hp
  · rintro ⟨id, ps, body, hpart, hp⟩
    exact ⟨_, hpart, hp⟩

theorem sublist_partsOf {es : List Expr} {e : Expr} (he : e ∈ es) :
    e.parts.Sublist (partsOf es) := by
  induction es with
  | nil => exact absurd he List.not_mem_nil
  | cons first rest ih =>
    rcases List.mem_cons.1 he with rfl | he
    · exact List.sublist_append_left _ _
    · exact (ih he).trans (List.sublist_append_right _ _)

theorem sublist_predicateParts {ps : List Predicate} {p : Predicate} (hp : p ∈ ps) :
    p.expr.parts.Sublist (predicateParts ps) := by
  induction ps with
  | nil => exact absurd hp List.not_mem_nil
  | cons first rest ih =>
    rcases List.mem_cons.1 hp with rfl | hp
    · exact (List.sublist_append_left _ _).cons _
    · exact ((ih hp).trans (List.sublist_append_right _ _)).cons _

/-- **Induction over lists of parts:** what passes from two lists to one after the other, and from what is
inside to an expression or a predicate with it, holds of the parts of every expression. -/
theorem induct_parts {motive : List Part → Prop} (nil : motive [])
    (append : ∀ l l', motive l → motive l' → motive (l ++ l'))
    (expr : ∀ e inside, e.parts = .expr e :: inside → motive inside → motive (.expr e :: inside))
    (predicate : ∀ p, motive p.expr.parts → motive (.predicate p :: p.expr.parts)) (e : Expr) :
    motive e.parts := by
  have hlist : ∀ {es : List Expr}, (∀ e ∈ es, motive e.parts) → motive (partsOf es) := by
    intro es ih
    induction es with
    | nil => exact nil
    | cons e rest hrest =>
      exact append _ _ (ih e List.mem_cons_self) (hrest fun e he => ih e (List.mem_cons_of_mem _ he))
  have hpredicates : ∀ {ps : List Predicate}, (∀ p ∈ ps, motive p.expr.parts) →
      motive (predicateParts ps) := by
    intro ps ih
    induction ps with
    | nil => exact nil
    | cons p rest hrest =>
      exact append _ _ (predicate p (ih p List.mem_cons_self))
        (hrest fun p hp => ih p (List.mem_cons_of_mem _ hp))
  induction e using Expr.induct with
  | path id steps ih => exact expr _ _ rfl (hlist ih)
  | step head predicates ih => exact expr _ _ rfl (hpredicates ih)
  | filter id base predicates hbase ih => exact expr _ _ rfl (append _ _ hbase (hpredicates ih))
  | comparison id op left right access hleft hright =>
    exact expr _ _ rfl (append _ _ hleft hright)
  | call id function args access ih => exact expr _ _ rfl (hlist ih)
  | and left right hleft hright | or left right hleft hright =>
    exact expr _ _ rfl (append _ _ hleft hright)
  | sequence items ih => exact expr _ _ rfl (hlist ih)
  | extension id pragmas body ih => exact expr _ _ rfl ih
  | root | var name | literal value => exact expr _ _ rfl nil

/-- **The parts of a part stand among the parts of the whole,** in their order. -/
theorem parts_sublist_of_mem {e' : Expr} (e : Expr) :
    .expr e' ∈ e.parts → e'.parts.Sublist e.parts := by
  refine induct_parts (motive := fun l => .expr e' ∈ l → e'.parts.Sublist l)
    ?nil ?append ?expr ?predicate e
  case nil => exact fun h => absurd h List.not_mem_nil
  case append =>
    intro l l' hl hl' h
    rcases List.mem_append.1 h with h | h
    · exact (hl h).trans (List.sublist_append_left _ _)
    · exact (hl' h).trans (List.sublist_append_right _ _)
  case expr =>
    intro e inside hparts hinside h
    rcases List.mem_cons.1 h with heq | h
    · obtain rfl := Part.expr.inj heq
      exact hparts ▸ List.Sublist.refl _
    · exact (hinside h).cons _
  case predicate =>
    exact fun p hp h => (hp ((List.mem_cons.1 h).resolve_left Part.noConfusion)).cons _

/-- **The parts of a part are parts of the whole.** -/
theorem parts_subset_of_mem {e' : Expr} (e : Expr) (h : .expr e' ∈ e.parts) :
    e'.parts ⊆ e.parts :=
  (parts_sublist_of_mem e h).subset

/-- **Induction over what stands below pragmas:** what holds of an expression as soon as it holds
below its pragmas holds of every expression. -/
theorem induct_extensions {motive : Expr → Prop}
    (h : ∀ e, (∀ id pragmas body, .expr (.extension id pragmas body) ∈ e.parts → motive body) →
      motive e) (e : Expr) : motive e := by
  refine h e fun id pragmas body hpart => ?_
  have hlength : body.parts.length < e.parts.length :=
    Nat.lt_of_lt_of_le (Nat.lt_succ_self _) (parts_sublist_of_mem e hpart).length_le
  exact induct_extensions h body
termination_by e.parts.length

/-! ### Expressions without pragmas -/

/-- **No pragma stands in the expression.** -/
def IsPragmaFree (e : Expr) : Prop := ∀ id pragmas body, .expr (.extension id pragmas body) ∉ e.parts

theorem IsPragmaFree.mono {e e' : Expr} (h : e.IsPragmaFree) (hparts : e'.parts ⊆ e.parts) :
    e'.IsPragmaFree :=
  fun id pragmas body hmem => h id pragmas body (hparts hmem)

/-- Whether a pragma stands in an expression is decided by what is in it. -/
theorem isPragmaFree_of_parts {e : Expr} {inside : List Part} (hparts : e.parts = .expr e :: inside)
    (hself : ∀ id pragmas body, e ≠ .extension id pragmas body) :
    e.IsPragmaFree ↔ ∀ id pragmas body, .expr (.extension id pragmas body) ∉ inside := by
  unfold IsPragmaFree
  rw [hparts]
  refine forall_congr' fun id => forall_congr' fun pragmas => forall_congr' fun body => ?_
  rw [List.mem_cons, not_or, and_iff_right]
  exact fun h => hself id pragmas body (Part.expr.inj h).symm

theorem isPragmaFree_partsOf {es : List Expr} :
    (∀ id pragmas body, Part.expr (.extension id pragmas body) ∉ partsOf es) ↔
      ∀ e ∈ es, e.IsPragmaFree := by
  simp only [mem_partsOf, not_exists, not_and, IsPragmaFree]
  exact ⟨fun h e he id pragmas body => h id pragmas body e he,
    fun h id pragmas body e he => h e he id pragmas body⟩

theorem isPragmaFree_predicateParts {ps : List Predicate} :
    (∀ id pragmas body, Part.expr (.extension id pragmas body) ∉ predicateParts ps) ↔
      ∀ p ∈ ps, p.expr.IsPragmaFree := by
  simp only [mem_predicateParts, not_exists, not_and, IsPragmaFree, reduceCtorEq, false_or]
  exact ⟨fun h p hp id pragmas body => h id pragmas body p hp,
    fun h id pragmas body p hp => h p hp id pragmas body⟩

theorem isPragmaFree_append {l l' : List Part} :
    (∀ id pragmas body, Part.expr (.extension id pragmas body) ∉ l ++ l') ↔
      (∀ id pragmas body, Part.expr (.extension id pragmas body) ∉ l) ∧
        ∀ id pragmas body, Part.expr (.extension id pragmas body) ∉ l' := by
  simp only [List.mem_append, not_or, forall_and]

@[simp] theorem isPragmaFree_path {id : ExprId} {steps : List Expr} :
    (path id steps).IsPragmaFree ↔ ∀ e ∈ steps, e.IsPragmaFree :=
  (isPragmaFree_of_parts rfl (by simp)).trans isPragmaFree_partsOf

@[simp] theorem isPragmaFree_step {head : StepHead} {predicates : List Predicate} :
    (step head predicates).IsPragmaFree ↔ ∀ p ∈ predicates, p.expr.IsPragmaFree :=
  (isPragmaFree_of_parts rfl (by simp)).trans isPragmaFree_predicateParts

@[simp] theorem isPragmaFree_root : root.IsPragmaFree :=
  (isPragmaFree_of_parts rfl (by simp)).2 fun _ _ _ => List.not_mem_nil

@[simp] theorem isPragmaFree_filter {id : ExprId} {base : Expr} {predicates : List Predicate} :
    (filter id base predicates).IsPragmaFree ↔
      base.IsPragmaFree ∧ ∀ p ∈ predicates, p.expr.IsPragmaFree :=
  (isPragmaFree_of_parts rfl (by simp)).trans
    (isPragmaFree_append.trans (and_congr_right fun _ => isPragmaFree_predicateParts))

/-- An expression with two sides. -/
theorem isPragmaFree_sides {left right whole : Expr}
    (h : whole.parts = .expr whole :: (left.parts ++ right.parts))
    (hself : ∀ id pragmas body, whole ≠ .extension id pragmas body) :
    whole.IsPragmaFree ↔ left.IsPragmaFree ∧ right.IsPragmaFree :=
  (isPragmaFree_of_parts h hself).trans isPragmaFree_append

@[simp] theorem isPragmaFree_comparison {id : ExprId} {op : ComparisonOp} {left right : Expr}
    {access : Access} : (comparison id op left right access).IsPragmaFree ↔
      left.IsPragmaFree ∧ right.IsPragmaFree :=
  isPragmaFree_sides rfl (by simp)

@[simp] theorem isPragmaFree_and {left right : Expr} :
    (and left right).IsPragmaFree ↔ left.IsPragmaFree ∧ right.IsPragmaFree :=
  isPragmaFree_sides rfl (by simp)

@[simp] theorem isPragmaFree_or {left right : Expr} :
    (or left right).IsPragmaFree ↔ left.IsPragmaFree ∧ right.IsPragmaFree :=
  isPragmaFree_sides rfl (by simp)

@[simp] theorem isPragmaFree_call {id : ExprId} {function : Builtin} {args : List Expr}
    {access : Access} : (call id function args access).IsPragmaFree ↔ ∀ e ∈ args, e.IsPragmaFree :=
  (isPragmaFree_of_parts rfl (by simp)).trans isPragmaFree_partsOf

@[simp] theorem isPragmaFree_variable {name : String} : (Expr.variable name).IsPragmaFree :=
  (isPragmaFree_of_parts rfl (by simp)).2 fun _ _ _ => List.not_mem_nil

@[simp] theorem isPragmaFree_literal {value : AtomicValue} : (literal value).IsPragmaFree :=
  (isPragmaFree_of_parts rfl (by simp)).2 fun _ _ _ => List.not_mem_nil

@[simp] theorem isPragmaFree_sequence {items : List Expr} :
    (sequence items).IsPragmaFree ↔ ∀ e ∈ items, e.IsPragmaFree :=
  (isPragmaFree_of_parts rfl (by simp)).trans isPragmaFree_partsOf

theorem not_isPragmaFree_extension {id : ExprId} {pragmas : List Pragma} {body : Expr} :
    ¬ (extension id pragmas body).IsPragmaFree :=
  fun h => h id pragmas body (self_mem_parts _)

end Expr
end IndexedXml
