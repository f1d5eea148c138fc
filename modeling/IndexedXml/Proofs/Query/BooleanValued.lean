/-
# Expressions taken for Boolean

By its form the compiler takes an expression for one whose value is a truth value or consists of
nodes (`Expr.isBooleanValued`).  A path passes for one whatever it ends in, and its last step may
be any expression, a number for instance.  Where it ends in nothing that has numbers
(`Expr.EndsWithoutNumbers`), the compiler is right: no value of the expression has numbers
(`Expr.yields_isNumberless`), whatever pragmas are in it and whatever run it is evaluated on.
-/

import IndexedXml.Proofs.Query.Confinement
import IndexedXml.Proofs.Query.Kept
import IndexedXml.Proofs.Query.Numberless

namespace IndexedXml

open Evaluation

variable {s : Store} {bindings : List (String × Sequence)}

/-! ### Numbers by the form -/

/-- Whether an item is a number. -/
def Item.isNumber : Item → Bool
  | node _ => false
  | atomic value => value.isNumeric

namespace Expr

mutual

/-- **Whether a value of the expression may have numbers,** as far as its form and the values of
the variables tell. -/
def mayHaveNumbers (bindings : List (String × Sequence)) : Expr → Bool
  | path _ steps => endsInNumbers bindings steps
  | filter _ base _ => base.mayHaveNumbers bindings
  | call _ function _ _ => function == .count
  | .variable name =>
    match valueIn bindings name with
    | .ok v => v.toItems.any Item.isNumber
    | .error _ => false
  | literal value => value.isNumeric
  | sequence items => someMayHaveNumbers bindings items
  | extension _ _ body => body.mayHaveNumbers bindings
  | step _ _ | root | comparison _ _ _ _ _ | and _ _ | or _ _ => false

/-- Whether a value of the last expression may. -/
def endsInNumbers (bindings : List (String × Sequence)) : List Expr → Bool
  | [] => false
  | [e] => e.mayHaveNumbers bindings
  | _ :: rest => endsInNumbers bindings rest

/-- Whether a value of one of the expressions may. -/
def someMayHaveNumbers (bindings : List (String × Sequence)) : List Expr → Bool
  | [] => false
  | e :: rest => e.mayHaveNumbers bindings || someMayHaveNumbers bindings rest

end

/-- The steps of the path that an expression takes its items from, if there is one. -/
def steps? : Expr → Option (List Expr)
  | path _ steps => some steps
  | filter _ base _ => base.steps?
  | extension _ _ body => body.steps?
  | _ => none

/-- **If an expression is a path, it does not end in numbers.** -/
def EndsWithoutNumbers (bindings : List (String × Sequence)) (e : Expr) : Prop :=
  ∀ steps last, e.steps? = some steps → steps.getLast? = some last →
    last.mayHaveNumbers bindings = false

theorem endsInNumbers_eq_false {steps : List Expr}
    (h : ∀ last, steps.getLast? = some last → last.mayHaveNumbers bindings = false) :
    endsInNumbers bindings steps = false := by
  induction steps with
  | nil => rfl
  | cons e rest ih =>
    cases rest with
    | nil => exact h e rfl
    | cons next later => exact ih fun last hlast => h last (by rw [List.getLast?_cons_cons, hlast])

theorem mayHaveNumbers_of_mem {items : List Expr} (h : someMayHaveNumbers bindings items = false)
    {e : Expr} (he : e ∈ items) : e.mayHaveNumbers bindings = false := by
  induction items with
  | nil => cases he
  | cons first rest ih =>
    obtain ⟨hfirst, hrest⟩ := Bool.or_eq_false_iff.1 h
    rcases List.mem_cons.1 he with rfl | he
    · exact hfirst
    · exact ih hrest he

/-- **What the compiler takes for Boolean has no numbers by its form,** unless it is a path that
ends in some. -/
theorem mayHaveNumbers_eq_false (e : Expr) :
    e.isBooleanValued = true → e.EndsWithoutNumbers bindings → e.mayHaveNumbers bindings = false := by
  induction e using Expr.induct with
  | path id steps _ =>
    exact fun _ hends => endsInNumbers_eq_false fun last hlast => hends steps last rfl hlast
  | filter id base predicates hbase _ => exact fun hvalue hends => hbase hvalue hends
  | extension id pragmas body ih => exact fun hvalue hends => ih hvalue hends
  | call id function args access _ =>
    intro hvalue _
    cases function with
    | collection | count | string => cases hvalue
    | _ => rfl
  | literal value => exact fun hvalue _ => (Bool.not_eq_true' _).mp hvalue
  | var name => exact fun hvalue => absurd hvalue Bool.false_ne_true
  | sequence items _ => exact fun hvalue => absurd hvalue Bool.false_ne_true
  | _ => exact fun _ _ => rfl

end Expr

/-! ### Values -/

theorem Sequence.IsNumberless.append {a b : Sequence} (ha : a.IsNumberless) (hb : b.IsNumberless) :
    (a.append b).IsNumberless := by
  unfold Sequence.append
  split_ifs
  · exact hb
  · exact ha
  · exact fun value hvalue => (List.mem_append.1 hvalue).elim (ha value) (hb value)

theorem Sequence.isNumberless_of_any {v : Sequence} (h : v.toItems.any Item.isNumber = false) :
    v.IsNumberless := by
  intro value hvalue
  rw [List.any_eq_false] at h
  exact Bool.eq_false_iff.2 (h _ hvalue)

/-! Where nothing is asked of nodes or failures, every computation stays among them. -/

theorem Meets.any {α ε : Type} {P : α → Prop} (hP : ∀ a, P a) (x : Except ε α) :
    Meets P (fun _ => True) x := by
  cases x with
  | error e => exact .error trivial
  | ok a => exact .ok (hP a)

theorem Store.encloses_any (s : Store) : s.Encloses (fun _ => True) fun _ => True where
  navigate _ _ _ _ := .any (fun _ _ _ => trivial) _
  descendants _ _ _ _ _ := .any (fun _ _ _ => trivial) _
  ancestors _ _ _ _ _ := .any (fun _ _ _ => trivial) _
  byValue _ := .any (fun _ _ _ => trivial) _
  ofDocument _ _ := trivial
  documentOf _ _ := trivial
  collectionOf _ _ := .any (fun _ => trivial) _
  stringValue _ _ := .any (fun _ => trivial) _
  collectionNotFound _ := trivial

theorem Sequence.all_any (v : Sequence) : v.All fun _ => True := fun _ _ => trivial

theorem Focus.all_any (focus : Focus) : focus.All fun _ => True :=
  ⟨fun v _ => v.all_any, fun _ _ => trivial⟩

namespace Evaluation

/-- A computation whose values have a property, on runs with given values of variables. -/
def Yields {α : Type} (bindings : List (String × Sequence)) (P : α → Prop) (m : Evaluation α) :
    Prop :=
  Stays (fun _ => True) bindings (fun _ => True) P m

theorem yields_orFail {α : Type} (x : Except QueryError α) :
    Yields bindings (fun _ => True) (orFail x) :=
  Keeps.orFail ((Meets.any (fun _ => trivial) x).mono (fun _ h => h) fun _ _ _ _ => trivial)

theorem yields_textArgument (function : Builtin) (v : Sequence) :
    Yields bindings (fun _ => True) (function.textArgument s v) :=
  stays_textArgument s.encloses_any function v.all_any

theorem yields_evaluate (e : Expr) (focus : Focus) :
    Yields bindings (fun _ => True) (e.evaluate s focus) :=
  (e.stays_evaluate s.encloses_any (fun entry _ => entry.2.all_any) focus focus.all_any).mono
    fun _ _ => trivial

/-- What predicates keep has no numbers if there are none in what they are applied to. -/
theorem yields_applyPredicates (predicates : List Predicate) (reverse : Bool) {v : Sequence}
    (hv : v.IsNumberless) :
    Yields bindings Sequence.IsNumberless (Expr.applyPredicates s predicates reverse v) :=
  (Expr.stays_applyPredicates s.encloses_any
    (fun p _ => p.expr.stays_evaluate s.encloses_any fun entry _ => entry.2.all_any) reverse v
    v.all_any).mono fun _ hw => hv.mono hw

theorem yields_truth (b : Bool) : Yields bindings Sequence.IsNumberless (pure (.ofBool b)) :=
  Keeps.pure (Sequence.isNumberless_ofValue rfl)

theorem yields_text (text : String) :
    Yields bindings Sequence.IsNumberless (pure (.ofValue (.string text))) :=
  Keeps.pure (Sequence.isNumberless_ofValue rfl)

theorem yields_evaluateStep (head : StepHead) (positional : Bool) (predicates : List Predicate)
    (focus : Focus) :
    Yields bindings Sequence.IsNumberless
      (evaluateStep s head positional (Expr.applyPredicates s predicates) focus) := by
  refine Keeps.bind (yields_orFail _) fun context _ => ?_
  split_ifs
  · refine Keeps.bind (Keeps.foldlM (Q := fun _ => True) trivial fun result _ n _ => ?_)
      fun set _ => Keeps.pure (Sequence.isNumberless_nodes _)
    refine Keeps.bind (stays_selectAxis s.encloses_any head fun _ _ => trivial) fun selected _ => ?_
    refine Keeps.bind (yields_applyPredicates predicates _ (Sequence.isNumberless_nodes _))
      fun kept _ => ?_
    exact Keeps.bind (yields_orFail _) fun _ _ => Keeps.pure trivial
  · refine Keeps.bind (stays_selectAxis s.encloses_any head fun _ _ => trivial) fun selected _ => ?_
    exact yields_applyPredicates predicates false (Sequence.isNumberless_nodes _)

theorem yields_compareSequences (op : ComparisonOp) (left right : Sequence) :
    Yields bindings Sequence.IsNumberless (compareSequences s op left right) := by
  refine Keeps.bind (stays_ofStore (meets_atomize s.encloses_any left.all_any)) fun left _ => ?_
  refine Keeps.bind (stays_ofStore (meets_atomize s.encloses_any right.all_any)) fun right _ => ?_
  exact Keeps.bind (yields_orFail _) fun b _ => yields_truth b

/-- Only counting gives a number. -/
theorem yields_apply {function : Builtin} (hfunction : (function == .count) = false) (focus : Focus)
    (args : List Sequence) :
    Yields bindings Sequence.IsNumberless (function.apply s focus args) := by
  unfold Builtin.apply
  split
  case h_1 => exact Keeps.pure (Sequence.isNumberless_nodes _)
  case h_2 uri =>
    refine Keeps.bind (yields_textArgument _ uri) fun uri _ => ?_
    refine Keeps.bind (stays_ofStore (meets_documentsUnder s.encloses_any uri)) fun documents _ => ?_
    exact Keeps.pure (Sequence.isNumberless_nodes _)
  case h_3 => cases hfunction
  case h_4 | h_5 | h_11 | h_12 => exact yields_truth _
  case h_6 items => exact Keeps.bind (yields_orFail _) fun _ _ => yields_truth _
  case h_7 =>
    refine Keeps.bind (yields_orFail _) fun items _ => ?_
    exact Keeps.bind (yields_textArgument _ items) fun text _ => yields_text text
  case h_8 items => exact Keeps.bind (yields_textArgument _ items) fun text _ => yields_text text
  case h_9 whole part | h_10 whole part =>
    refine Keeps.bind (yields_textArgument _ whole) fun _ _ => ?_
    exact Keeps.bind (yields_textArgument _ part) fun _ _ => yields_truth _
  case h_13 => exact Keeps.orFail (.error fun _ _ => trivial)

theorem yields_value {name : String}
    (h : (Expr.variable name).mayHaveNumbers bindings = false) :
    Yields bindings Sequence.IsNumberless (do orFail ((← queryContext).value name)) := by
  refine Keeps.queryContext_bind fun r hr => Keeps.orFail ?_
  rw [value_eq_valueIn, hr.bindings]
  rw [Expr.mayHaveNumbers] at h
  cases hvalue : valueIn bindings name with
  | error e => exact .error fun _ _ => trivial
  | ok v =>
    rw [hvalue] at h
    exact .ok (Sequence.isNumberless_of_any h)

end Evaluation

/-! ### Expressions -/

namespace Expr

/-- No value of an expression has numbers. -/
def YieldsNoNumbers (s : Store) (bindings : List (String × Sequence)) (e : Expr) : Prop :=
  ∀ focus, Yields bindings Sequence.IsNumberless (e.evaluate s focus)

/-- Only the last of some further steps tells whether there are numbers. -/
theorem yields_evaluateSteps {steps : List Expr}
    (hsteps : ∀ e ∈ steps, e.mayHaveNumbers bindings = false → e.YieldsNoNumbers s bindings)
    (hends : endsInNumbers bindings steps = false) :
    ∀ v : Sequence, (steps = [] → v.IsNumberless) →
      Yields bindings Sequence.IsNumberless (evaluateSteps s steps v) := by
  induction steps with
  | nil => exact fun v hv => Keeps.pure (hv rfl)
  | cons e rest ih =>
    intro v _
    have hvalue : ∀ focus, Yields bindings (fun w => rest = [] → w.IsNumberless)
        (e.evaluate s focus) := by
      intro focus
      cases rest with
      | nil => exact (hsteps e List.mem_cons_self hends focus).mono fun _ h _ => h
      | cons => exact (yields_evaluate e focus).mono nofun
    have hlater : endsInNumbers bindings rest = false := by
      cases rest with
      | nil => rfl
      | cons => exact hends
    unfold evaluateSteps
    split_ifs
    · exact Keeps.pure Sequence.isNumberless_empty
    · refine Keeps.bind (yields_orFail _) fun context _ => Keeps.bind (hvalue _) fun w hw => ?_
      exact ih (fun e he => hsteps e (List.mem_cons_of_mem _ he)) hlater w hw

theorem yields_evaluateAll {items : List Expr} (hitems : ∀ e ∈ items, e.YieldsNoNumbers s bindings)
    (focus : Focus) :
    Yields bindings (fun values => ∀ v ∈ values, v.IsNumberless) (evaluateAll s items focus) := by
  induction items with
  | nil => exact Keeps.pure fun _ hv => nomatch hv
  | cons e rest ih =>
    refine Keeps.bind (hitems e List.mem_cons_self focus) fun value hvalue => ?_
    refine Keeps.bind (ih fun e he => hitems e (List.mem_cons_of_mem _ he)) fun values hvalues => ?_
    exact Keeps.pure (List.forall_mem_cons.2 ⟨hvalue, hvalues⟩)

/-- **What has no numbers by its form has none in its values,** on any run with these variables. -/
theorem yields_isNumberless (s : Store) (e : Expr) :
    e.mayHaveNumbers bindings = false → e.YieldsNoNumbers s bindings := by
  induction e using Expr.induct with
  | path id steps ih =>
    intro h focus
    cases steps with
    | nil => exact Keeps.pure Sequence.isNumberless_empty
    | cons first rest =>
      have hsteps : ∀ e ∈ rest, e.mayHaveNumbers bindings = false → e.YieldsNoNumbers s bindings :=
        fun e he => ih e (List.mem_cons_of_mem _ he)
      cases rest with
      | nil =>
        exact Keeps.bind (ih first List.mem_cons_self h focus)
          fun v hv => yields_evaluateSteps hsteps rfl v fun _ => hv
      | cons =>
        exact Keeps.bind (yields_evaluate first focus)
          fun v _ => yields_evaluateSteps hsteps h v nofun
  | step head predicates _ => exact fun _ => yields_evaluateStep head _ predicates
  | root =>
    exact fun _ _ => Keeps.bind (yields_orFail _) fun _ _ =>
      Keeps.pure (Sequence.isNumberless_nodes _)
  | filter id base predicates hbase _ =>
    exact fun h focus => Keeps.bind (hbase h focus) fun v hv =>
      yields_applyPredicates predicates false hv
  | comparison id op left right access _ _ =>
    exact fun _ focus => Keeps.bind (yields_evaluate left focus) fun l _ =>
      Keeps.bind (yields_evaluate right focus) fun r _ => yields_compareSequences op l r
  | call id function args access _ =>
    intro h focus
    have hargs : Yields bindings (fun _ => True) (evaluateAll s args focus) :=
      (stays_evaluateAll (fun e _ => e.stays_evaluate s.encloses_any fun entry _ =>
        entry.2.all_any) focus.all_any).mono fun _ _ => trivial
    exact Keeps.bind hargs fun values _ => yields_apply h focus values
  | var name => exact fun h _ => yields_value h
  | literal value => exact fun h _ => Keeps.pure (Sequence.isNumberless_ofValue h)
  | and left right _ _ =>
    intro _ focus
    refine Keeps.bind (yields_evaluate left focus) fun l _ => Keeps.bind (yields_orFail _) fun b _ => ?_
    split_ifs
    · exact Keeps.bind (yields_evaluate right focus) fun r _ =>
        Keeps.bind (yields_orFail _) fun b _ => yields_truth b
    · exact yields_truth false
  | or left right _ _ =>
    intro _ focus
    refine Keeps.bind (yields_evaluate left focus) fun l _ => Keeps.bind (yields_orFail _) fun b _ => ?_
    split_ifs
    · exact yields_truth true
    · exact Keeps.bind (yields_evaluate right focus) fun r _ =>
        Keeps.bind (yields_orFail _) fun b _ => yields_truth b
  | sequence items ih =>
    intro h focus
    have hitems := yields_evaluateAll
      (fun e he => ih e he (mayHaveNumbers_of_mem h he)) (s := s) focus
    refine Keeps.bind hitems fun values hvalues => Keeps.pure ?_
    have hfold : ∀ v : Sequence, v.IsNumberless → (values.foldl Sequence.append v).IsNumberless := by
      induction values with
      | nil => exact fun v hv => hv
      | cons value rest hrest =>
        exact fun v hv => hrest (fun v hv => hvalues v (List.mem_cons_of_mem _ hv)) _
          (hv.append (hvalues value List.mem_cons_self))
    exact hfold .empty Sequence.isNumberless_empty
  | extension id pragmas body ih =>
    exact fun h focus => stays_evaluateExtension s.encloses_any (fun entry _ => entry.2.all_any)
      pragmas body (fun focus _ => ih h focus) focus.all_any

/-- **An expression taken for Boolean is no number,** provided that it does not end in numbers:
whatever store, focus and run it has a value for, that has no numbers among its items. -/
theorem isNumberless_of_isBooleanValued {e : Expr} (hvalue : e.isBooleanValued = true)
    (hends : e.EndsWithoutNumbers bindings) {focus : Focus} {r : Run}
    (hr : r.context.bindings = bindings) {v : Sequence}
    (hv : (e.evaluate s focus).result r = .ok v) : v.IsNumberless := by
  have hyields := yields_isNumberless s e (mayHaveNumbers_eq_false e hvalue hends) focus
  have hmeets := (hyields r ⟨hr, fun _ _ _ _ _ => trivial⟩).2
  rw [hv] at hmeets
  exact hmeets.value

end Expr
end IndexedXml
