/-
# Predicates in Boolean mode

A predicate that the compiler marks Boolean is asked about items without counting positions, and
may be applied to a whole set at once.  That is right for a predicate that is no number, and the
mark says so, but for paths that end in numbers: those are marked, too, and select by position.

For the others it is shown here in every state that evaluation can find itself in when it comes to
the predicate (`Run.ReadyFor`): the predicate has one truth value for an item at every position, and
it keeps of a set what it keeps of the parts of the set
(`CompiledQuery.boolean_mode_ignores_positions`).
-/

import IndexedXml.Proofs.Query.BooleanValued
import IndexedXml.Proofs.Query.Division
import IndexedXml.Proofs.Query.Marking
import IndexedXml.Proofs.Query.NarrowedContext
import IndexedXml.Proofs.Query.UseChecks

namespace IndexedXml

open Evaluation Setting

variable {whole e : Expr} {s : Store} {sets : Nat → NodeSet} {bindings : List (String × Sequence)}
  {focus : Focus} {r r' : Run}

/-! ### Ready runs -/

/-- **A run that evaluation may come to an expression with:** it has the variables, what it keeps
is valid, and no candidates are prepared for the steps of the expression. -/
structure Run.ReadyFor (whole : Expr) (s : Store) (sets : Nat → NodeSet)
    (bindings : List (String × Sequence)) (e : Expr) (r : Run) : Prop where
  bindings : r.context.bindings = bindings
  valid : r.context.Valid whole s sets
  unprepared : ∀ head predicates, .expr (.step head predicates) ∈ e.parts →
    r.context.preloaded.get? head.id = none

/-- A new run. -/
def Run.fresh (bindings : List (String × Sequence)) : Run := ⟨.ofBindings bindings, .zero⟩

theorem Run.readyFor_fresh : (Run.fresh bindings).ReadyFor whole s sets bindings e :=
  ⟨rfl, (fun _ _ _ _ _ h => nomatch h), fun _ _ _ => rfl⟩

/-- **A part of an expression ends alike** from runs that answer alike. -/
theorem Expr.alike_part (hwhole : whole.numbers.Nodup)
    (hbindings : ∀ entry ∈ bindings, entry.2.Agrees sets) (hpart : .expr e ∈ whole.parts)
    (scope : Scope) (hfocus : focus.Has (Sequence.Agrees sets)) :
    Alike (RunsAlike False whole s sets bindings scope) (Sequence.Agrees sets) (e.evaluate s focus)
      (e.evaluate s focus) := by
  rw [← evaluateBy_optimizer]
  refine alike_evaluateBy (steady_runsAlike hbindings) s _ _ e ⟨fun _ _ _ => trivial, ?_⟩ scope focus
    hfocus
  exact fun id pragmas body hmem hbody scope focus hfocus => alike_evaluateExtensionBy hwhole
    (alike_optimize hwhole hbindings) (parts_subset_of_mem whole hpart hmem) hbody hfocus

/-- A run without candidates for any step. -/
def Run.withoutCandidates (r : Run) : Run := { r with context := { r.context with preloaded := [] } }

/-- Candidates for other steps than its own do not matter to an expression. -/
theorem Expr.result_withoutCandidates
    (hunprepared : ∀ head predicates, .expr (.step head predicates) ∈ e.parts →
      r.context.preloaded.get? head.id = none) :
    (e.evaluate s focus).result r = (e.evaluate s focus).result r.withoutCandidates :=
  e.result_evaluate_congr rfl rfl hunprepared

namespace Run.ReadyFor

/-- **On a ready run an expression has the outcome that it has on a new one.** -/
theorem result_eq (h : r.ReadyFor whole s sets bindings e) (hwhole : whole.numbers.Nodup)
    (hbindings : ∀ entry ∈ bindings, entry.2.Agrees sets) (hpart : .expr e ∈ whole.parts)
    (hfocus : focus.Has (Sequence.Agrees sets)) :
    (e.evaluate s focus).result r = (e.evaluate s focus).result (.fresh bindings) := by
  rw [Expr.result_withoutCandidates h.unprepared]
  have hstart : RunsAlike False whole s sets bindings CompiledQuery.outermost r.withoutCandidates
      (.fresh bindings) :=
    ⟨CompiledQuery.answerAlike_ofBindings h.bindings h.valid fun _ => rfl, False.elim⟩
  exact (Expr.alike_part hwhole hbindings hpart _ hfocus _ _ hstart).1

/-- **Evaluation leaves a ready run ready,** however it ends. -/
theorem after (h : r.ReadyFor whole s sets bindings e) (hwhole : whole.numbers.Nodup)
    (hbindings : ∀ entry ∈ bindings, entry.2.Agrees sets) (hpart : .expr e ∈ whole.parts)
    (hfocus : focus.Has (Sequence.Agrees sets)) :
    ((e.evaluate s focus).after r).ReadyFor whole s sets bindings e ∧
      ∀ v, (e.evaluate s focus).result r = .ok v → v.Agrees sets := by
  -- Candidates stay among those that have been prepared before.
  let scope : Scope :=
    ⟨fun _ => False, fun id => r.context.preloaded.get? id ≠ none, fun _ => False⟩
  have hsound : Sound whole s sets bindings scope r.context :=
    ⟨h.bindings, h.valid, fun _ h => h.elim⟩
  have hstart : RunsAlike False whole s sets bindings scope r r :=
    ⟨⟨hsound, hsound, fun _ => rfl, fun _ hne => hne, fun _ h => h.elim⟩, False.elim⟩
  obtain ⟨-, hafter, hvalue⟩ := Expr.alike_part hwhole hbindings hpart _ hfocus _ _ hstart
  refine ⟨⟨hafter.alike.left.bindings, hafter.alike.left.valid, fun head ps hmem => ?_⟩, hvalue⟩
  by_contra hne
  exact hafter.alike.prepared head.id hne (h.unprepared head ps hmem)

end Run.ReadyFor

/-! ### Applying a predicate -/

/-- The outcome of an expression on a new run. -/
def Expr.freshly (s : Store) (bindings : List (String × Sequence)) (e : Expr) (focus : Focus) :
    Except QueryError Sequence :=
  (e.evaluate s focus).result (.fresh bindings)

/-- A ready run beside one that has the variables. -/
structure ReadyBeside (whole : Expr) (s : Store) (sets : Nat → NodeSet)
    (bindings : List (String × Sequence)) (e : Expr) (r r' : Run) : Prop where
  ready : r.ReadyFor whole s sets bindings e
  bindings : r'.context.bindings = bindings

theorem steady_readyBeside (hbindings : ∀ entry ∈ bindings, entry.2.Agrees sets) :
    Steady (fun _ => False) (ReadyBeside whole s sets bindings e) (Sequence.Agrees sets) where
  count _ _ _ h := ⟨⟨h.ready.bindings, h.ready.valid, h.ready.unprepared⟩, h.bindings⟩
  note id r r' h := by
    have hsound : ∀ r : Run, r.ReadyFor whole s sets bindings e →
        Sound whole s sets bindings CompiledQuery.outermost (r.context.noteIndexUse id) :=
      fun r h => Sound.noteIndexUse ⟨h.bindings, h.valid, fun _ => False.elim⟩ id
    refine ⟨⟨(hsound r h.ready).bindings, (hsound r h.ready).valid, ?_⟩,
      (r'.context.bindings_noteIndexUse id).trans h.bindings⟩
    rw [QueryContext.preloaded_noteIndexUse]
    exact h.ready.unprepared
  value r r' h name := by
    rw [value_eq_valueIn, value_eq_valueIn, h.ready.bindings, h.bindings]
    exact ⟨rfl, fun _ hv => agrees_of_valueIn hbindings hv⟩
  prepared _ _ _ _ h := h.elim
  set := Sequence.agrees_ofSet sets
  items := Sequence.agrees_items sets

/-- **Applied on a ready run, a condition keeps what its values on new runs say,** and leaves a run
that is ready. -/
theorem result_applyPredicate (hwhole : whole.numbers.Nodup)
    (hbindings : ∀ entry ∈ bindings, entry.2.Agrees sets) (hpart : .expr e ∈ whole.parts)
    (probe : Option (ExprId × IndexProbe)) (reverse : Bool) (set : NodeSet)
    (h : r.ReadyFor whole s sets bindings e) :
    (applyPredicate s .boolean probe (e.evaluate s) reverse (.ofSet set)).result r =
        keptOf ⟨bindings, []⟩ s probe (e.freshly s bindings) reverse set ∧
      ((applyPredicate s .boolean probe (e.evaluate s) reverse (.ofSet set)).after r).ReadyFor
        whole s sets bindings e := by
  have hvalues : ∀ focus, focus.Has (Sequence.Agrees sets) →
      Alike (ReadyBeside whole s sets bindings e) (Sequence.Agrees sets) (e.evaluate s focus)
        (orFail (e.freshly s bindings focus)) := by
    intro focus hfocus r r' hr
    obtain ⟨hafter, hvalue⟩ := hr.ready.after hwhole hbindings hpart hfocus
    exact ⟨hr.ready.result_eq hwhole hbindings hpart hfocus, ⟨hafter, hr.bindings⟩, hvalue⟩
  obtain ⟨hresult, hafter, -⟩ := alike_applyPredicate (steady_readyBeside hbindings) s .boolean probe
    hvalues reverse (.ofSet set) r (Setting.start ⟨bindings, []⟩) ⟨h, rfl⟩
  exact ⟨hresult, hafter.ready⟩

/-- **What is done one after the other,** each with an outcome that is known as long as runs have a
property, has these outcomes. -/
theorem result_mapM {α β : Type} {I : Run → Prop} {f : α → Evaluation β}
    {x : α → Except QueryError β} {l : List α}
    (hf : ∀ a ∈ l, ∀ r, I r → (f a).result r = x a ∧ I ((f a).after r)) :
    ∀ r, I r → (l.mapM f).result r = l.mapM x := by
  induction l with
  | nil => exact fun _ _ => rfl
  | cons a rest ih =>
    intro r hr
    obtain ⟨hresult, hafter⟩ := hf a List.mem_cons_self r hr
    rw [List.mapM_cons, List.mapM_cons, result_bind, hresult]
    refine bind_congr fun b => ?_
    rw [result_bind, ih (fun a ha => hf a (List.mem_cons_of_mem _ ha)) _ hafter]
    exact bind_congr fun bs => rfl

namespace Expr

/-- The expression of a predicate is where the predicate is. -/
theorem expr_of_predicate {p : Predicate} (e : Expr) :
    .predicate p ∈ e.parts → .expr p.expr ∈ e.parts := by
  refine induct_parts (motive := fun l => .predicate p ∈ l → .expr p.expr ∈ l)
    ?nil ?append ?expr ?predicate e
  case nil => exact fun h => absurd h List.not_mem_nil
  case append =>
    exact fun l l' hl hl' h => List.mem_append.2 ((List.mem_append.1 h).imp hl hl')
  case expr =>
    exact fun e inside _ hinside h =>
      List.mem_cons_of_mem _ (hinside ((List.mem_cons.1 h).resolve_left Part.noConfusion))
  case predicate =>
    intro q hq h
    rcases List.mem_cons.1 h with heq | h
    · obtain rfl := Part.predicate.inj heq
      exact List.mem_cons_of_mem _ (self_mem_parts _)
    · exact List.mem_cons_of_mem _ (hq h)

end Expr

/-! ### The mark -/

/-- The predicate that a part is, if it is one. -/
def Expr.Part.predicate? : Expr.Part → Option Predicate
  | expr _ => none
  | predicate p => some p

/-- A predicate applied to a set. -/
def Predicate.keep (s : Store) (p : Predicate) (reverse : Bool) (set : NodeSet) :
    Evaluation Sequence :=
  applyPredicate s p.mode p.expr.probe? (p.expr.evaluate s) reverse (.ofSet set)

/-- A predicate applied to a set item by item. -/
def Predicate.keepByItem (s : Store) (p : Predicate) (reverse : Bool) (set : NodeSet) :
    Evaluation Sequence :=
  applyPredicate s p.mode none (p.expr.evaluate s) reverse (.ofSet set)

/-- **The index of a predicate serves parts of a set** when what it answers for a part it answers
for the whole, too, or keeps of the part what is kept item by item. -/
def Predicate.ServesParts (s : Store) (p : Predicate) (reverse : Bool) (whole : NodeSet)
    (parts : List NodeSet) (r : Run) : Prop :=
  ∀ id probe, p.expr.probe? = some (id, probe) → ∀ part ∈ parts,
    probe.coversAll s (some (.ofSet part)) = .ok true →
      probe.coversAll s (some (.ofSet whole)) = .ok true ∨
        (p.keep s reverse part).result r = (p.keepByItem s reverse part).result r

namespace CompiledQuery

variable {source : String} {config : Configuration} {q : CompiledQuery}

/-- **Boolean mode ignores positions.**  What the compiler takes for Boolean and does not end in
numbers has no numbers in its value, whatever store, focus and variables it is evaluated for.
So a predicate that is marked Boolean and does not end in numbers accepts an item at every position
or at none, and it keeps the same items of a whole set and of the parts of the set one after the
other, as long as its index serves the parts. -/
theorem boolean_mode_ignores_positions (hq : compile source config = .ok q)
    (bindings : List (String × Sequence)) :
    (∀ e : Expr, e.isBooleanValued = true → e.EndsWithoutNumbers bindings → ∀ s focus (r : Run) v,
      r.context.bindings = bindings → (e.evaluate s focus).result r = .ok v →
        v.IsNumberless ∧ v.number? = none) ∧
    ∀ p, .predicate p ∈ q.root.parts → p.mode = .boolean → p.expr.EndsWithoutNumbers bindings →
      ∀ s sets, (∀ entry ∈ bindings, entry.2.Agrees sets) → ∀ r r' : Run,
        r.ReadyFor q.root s sets bindings p.expr → r'.ReadyFor q.root s sets bindings p.expr →
          (∀ focus, focus.Has (Sequence.Agrees sets) → ∀ i j,
            ((p.expr.evaluate s focus).result r >>= fun v => v.selects i) =
              ((p.expr.evaluate s focus).result r' >>= fun v => v.selects j)) ∧
          ∀ (whole : NodeSet) parts, whole.IsDividedInto parts → ∀ reverse reverse',
            p.ServesParts s reverse' whole parts r' →
              NodeSet.SameKept ((p.keep s reverse whole).result r)
                ((parts.mapM (p.keep s reverse')).result r') := by
  have hnumberless : ∀ e : Expr, e.isBooleanValued = true → e.EndsWithoutNumbers bindings →
      ∀ s focus (r : Run) v, r.context.bindings = bindings →
        (e.evaluate s focus).result r = .ok v → v.IsNumberless ∧ v.number? = none := by
    intro e hvalue hends s focus r v hr hv
    have h := Expr.isNumberless_of_isBooleanValued hvalue hends hr hv
    exact ⟨h, h.number?⟩
  refine ⟨hnumberless, fun p hp hmode hends s sets hbindings r r' hr hr' => ?_⟩
  have hpart := Expr.expr_of_predicate q.root hp
  have hvalue : p.expr.isBooleanValued = true := by
    have hmarked := isMarked hq p hp
    rw [hmode, Expr.predicateMode] at hmarked
    by_contra hne
    rw [if_neg hne] at hmarked
    cases hmarked
  refine ⟨fun focus hfocus i j => ?_, fun whole parts hdivided reverse reverse' hserves => ?_⟩
  · rw [hr.result_eq (nodup_numbers hq) hbindings hpart hfocus,
      hr'.result_eq (nodup_numbers hq) hbindings hpart hfocus]
    cases hv : (p.expr.evaluate s focus).result (.fresh bindings) with
    | error e =>
      change (.error e : Except QueryError Bool) = .error e
      rfl
    | ok v =>
      have hselects : ∀ n, v.selects n = v.truth := fun n => by
        rw [Sequence.selects, (hnumberless p.expr hvalue hends s focus _ v rfl hv).2]
      rw [ok_bind, ok_bind, hselects, hselects]
  · have hkept := fun probe reverse set r => result_applyPredicate (r := r) (s := s)
      (nodup_numbers hq) hbindings hpart probe reverse set
    have hparts : ((parts.mapM (p.keep s reverse')).result r') =
        parts.mapM (keptOf ⟨bindings, []⟩ s p.expr.probe? (p.expr.freshly s bindings) reverse') := by
      refine result_mapM (fun part _ r hr => ?_) r' hr'
      rw [Predicate.keep, hmode]
      exact hkept _ _ _ r hr
    rw [hparts, Predicate.keep, hmode, (hkept _ _ _ r hr).1]
    refine sameKept_keptOf (fun focus v hv => ?_) hdivided reverse reverse'
      fun id probe hprobe part hpart hcovers => (hserves id probe hprobe part hpart hcovers).imp_right
        fun hsame => ?_
    · exact (hnumberless p.expr hvalue hends s focus (.fresh bindings) v rfl hv).2
    · rw [Predicate.keep, Predicate.keepByItem, hmode, (hkept _ _ _ r' hr').1,
        (hkept _ _ _ r' hr').1] at hsame
      exact hsame

/-! ### Two books -/

/-- The books of both documents. -/
def bothBooks : NodeSet := ⟨[⟨0, ⟨[1, 1]⟩⟩, ⟨1, ⟨[1, 1]⟩⟩], true⟩

/-- Each of the books on its own. -/
def eachBook : List NodeSet := [⟨[⟨0, ⟨[1, 1]⟩⟩], true⟩, ⟨[⟨1, ⟨[1, 1]⟩⟩], true⟩]

theorem isDividedInto_eachBook : bothBooks.IsDividedInto eachBook where
  mem_iff n := by
    have hmem : ∀ set : NodeSet, n ∈ set ↔ n ∈ set.nodes := fun _ => Iff.rfl
    simp [hmem, bothBooks, eachBook]
  kind := by decide

/-- The predicates in a query. -/
def predicates (q : CompiledQuery) : List Predicate :=
  q.root.parts.filterMap Expr.Part.predicate?

/-- A predicate that passes a test, among those of a query. -/
theorem exists_predicate {test : Predicate → Bool}
    (h : ((compile source config).toOption.any fun q => q.predicates.any test) = true) :
    ∃ q p, compile source config = .ok q ∧ .predicate p ∈ q.root.parts ∧ test p = true := by
  cases hq : compile source config with
  | error e =>
    rw [hq] at h
    cases h
  | ok q =>
    rw [hq] at h
    obtain ⟨p, hp, htest⟩ := List.any_eq_true.1 h
    obtain ⟨part, hpart, hsome⟩ := List.mem_filterMap.1 hp
    refine ⟨q, p, rfl, ?_, htest⟩
    cases part with
    | expr e => cases hsome
    | predicate own =>
      obtain rfl := Option.some.inj hsome
      exact hpart

/-- A condition on the title keeps the same of both books at once and of one after the other. -/
theorem boolean_mode_ignores_positions_titled : ∃ q p,
    compile "//book[title = 'Dune'][1]" .standard = .ok q ∧ .predicate p ∈ q.root.parts ∧
      p.mode = .boolean ∧
      (∀ focus, focus.Has (Sequence.Agrees fun _ => bothBooks) → ∀ i j,
        ((p.expr.evaluate booksStore focus).result (.fresh []) >>= fun v => v.selects i) =
          ((p.expr.evaluate booksStore focus).result (.fresh []) >>= fun v => v.selects j)) ∧
      NodeSet.SameKept ((p.keep booksStore false bothBooks).result (.fresh []))
        ((eachBook.mapM (p.keep booksStore false)).result (.fresh [])) := by
  have htest : ((compile "//book[title = 'Dune'][1]" .standard).toOption.any fun q =>
      q.predicates.any fun p => p.mode == .boolean && p.expr.steps?.isNone &&
        p.expr.probe?.all fun found => decide
          (found.2.coversAll booksStore (some (.ofSet bothBooks)) = .ok true)) = true := by
    decide +kernel
  obtain ⟨q, p, hq, hp, h⟩ := exists_predicate htest
  simp only [Bool.and_eq_true, beq_iff_eq, Option.isNone_iff_eq_none] at h
  obtain ⟨⟨hmode, hsteps⟩, hcovers⟩ := h
  have hends : p.expr.EndsWithoutNumbers [] := by
    intro steps last hsome
    rw [hsteps] at hsome
    cases hsome
  obtain ⟨hselects, hkept⟩ := (boolean_mode_ignores_positions hq []).2 p hp hmode hends booksStore
    (fun _ => bothBooks) (fun _ h => absurd h List.not_mem_nil) (.fresh []) (.fresh [])
    Run.readyFor_fresh Run.readyFor_fresh
  refine ⟨q, p, hq, hp, hmode, hselects, hkept _ _ isDividedInto_eachBook false false ?_⟩
  intro id probe hprobe _ _ _
  rw [hprobe] at hcovers
  exact .inl (of_decide_eq_true hcovers)

/-- **A path that ends in a number is marked Boolean, too:** the predicate `./1` has the number one
for its value, accepts an item in the first place only, and keeps the first of both books at once,
but each of the books on its own. -/
theorem not_boolean_mode_ignores_positions_path : ∃ q p,
    compile "//book[./1]" .standard = .ok q ∧ .predicate p ∈ q.root.parts ∧
      p.mode = .boolean ∧ p.expr.isBooleanValued = true ∧
      ((p.expr.evaluate booksStore (.on (.ofSet bothBooks))).result (.fresh [])).map
        Sequence.toItems = .ok [.atomic (.integer 1)] ∧
      ((p.expr.evaluate booksStore (.on (.ofSet bothBooks))).result (.fresh []) >>=
        fun v => v.selects 1) = .ok true ∧
      ((p.expr.evaluate booksStore (.on (.ofSet bothBooks))).result (.fresh []) >>=
        fun v => v.selects 2) = .ok false ∧
      ((p.keep booksStore false bothBooks).result (.fresh [])).map Sequence.toItems =
        .ok [.node ⟨0, ⟨[1, 1]⟩⟩] ∧
      ((eachBook.mapM (p.keep booksStore false)).result (.fresh [])).map
        (List.map Sequence.toItems) = .ok [[.node ⟨0, ⟨[1, 1]⟩⟩], [.node ⟨1, ⟨[1, 1]⟩⟩]] := by
  obtain ⟨q, p, hq, hp, h⟩ := exists_predicate
    (show ((compile "//book[./1]" .standard).toOption.any fun q =>
      q.predicates.any fun p => decide (p.mode = .boolean ∧ p.expr.isBooleanValued = true ∧
      ((p.expr.evaluate booksStore (.on (.ofSet bothBooks))).result (.fresh [])).map
        Sequence.toItems = .ok [.atomic (.integer 1)] ∧
      ((p.expr.evaluate booksStore (.on (.ofSet bothBooks))).result (.fresh []) >>=
        fun v => v.selects 1) = .ok true ∧
      ((p.expr.evaluate booksStore (.on (.ofSet bothBooks))).result (.fresh []) >>=
        fun v => v.selects 2) = .ok false ∧
      ((p.keep booksStore false bothBooks).result (.fresh [])).map Sequence.toItems =
        .ok [.node ⟨0, ⟨[1, 1]⟩⟩] ∧
      ((eachBook.mapM (p.keep booksStore false)).result (.fresh [])).map
        (List.map Sequence.toItems) =
          .ok [[.node ⟨0, ⟨[1, 1]⟩⟩], [.node ⟨1, ⟨[1, 1]⟩⟩]])) = true by decide +kernel)
  exact ⟨q, p, hq, hp, of_decide_eq_true h⟩

end CompiledQuery
end IndexedXml
