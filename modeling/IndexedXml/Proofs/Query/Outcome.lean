/-
# Outcomes of expressions without pragmas

An expression without pragmas reads the variables and the candidates prepared for steps and
leaves both as they are.  So it has an outcome in a `Setting` that gives these
(`Setting.outcome`), whatever run it is evaluated on (`Expr.reads_evaluate`), and the
outcome of an expression is made of the outcomes of what is in it.  There is one equation
for each kind of expression, each kind of step and each way of applying a predicate.
-/

import IndexedXml.Proofs.Query.Agreement
import IndexedXml.Proofs.Query.Coverage

namespace IndexedXml

open Evaluation

/-- The answer of a probe for a set, if it can answer for all of it. -/
def IndexProbe.answer (p : IndexProbe) (s : Store) (candidates : NodeSet) :
    Except QueryError (Option NodeSet) :=
  match p.relation with
  | none => .ok none
  | some relation => do
    let covered ← (p.coversAll s (some (.ofSet candidates))).mapError .store
    if covered then
      let hits ← (s.findByValue (p.rangeQuery candidates true)).mapError .store
      pure (some (IndexProbe.qualified relation candidates hits))
    else pure none

/-- **What evaluation without pragmas depends on.** -/
structure Setting where
  /-- The values of variables. -/
  bindings : List (String × Sequence)
  /-- The candidates prepared for steps. -/
  prepared : Table NodeSet

namespace Setting

variable {α β : Type}

/-- A run is in a setting when it gives the same values and the same candidates. -/
structure Holds (σ : Setting) (r : Run) : Prop where
  bindings : r.context.bindings = σ.bindings
  prepared : ∀ id, r.context.preloaded.get? id = σ.prepared.get? id

/-- A new run in a setting. -/
def start (σ : Setting) : Run := ⟨⟨σ.bindings, [], [], σ.prepared, []⟩, .zero⟩

/-- **The outcome of a computation in a setting.** -/
def outcome (σ : Setting) (m : Evaluation α) : Except QueryError α := m.result σ.start

/-- A computation reads a setting: it has its outcome on every run in the setting, and
leaves the run in the setting. -/
def Reads (σ : Setting) (m : Evaluation α) : Prop :=
  ∀ r, σ.Holds r → m.result r = σ.outcome m ∧ σ.Holds (m.after r)

/-- Two runs in one setting. -/
def Both (σ : Setting) (r r' : Run) : Prop := σ.Holds r ∧ σ.Holds r'

variable {σ : Setting}

theorem holds_start (σ : Setting) : σ.Holds σ.start := ⟨rfl, fun _ => rfl⟩

/-- Evaluation stays in a setting. -/
theorem steady_both (σ : Setting) : Steady (fun _ => True) σ.Both (fun _ => True) where
  count _ _ _ h := ⟨⟨h.1.bindings, h.1.prepared⟩, ⟨h.2.bindings, h.2.prepared⟩⟩
  note id r r' h := by
    have hnote : ∀ r, σ.Holds r → σ.Holds { r with context := r.context.noteIndexUse id } := by
      intro r h
      unfold QueryContext.noteIndexUse
      split_ifs
      · exact h
      · exact ⟨h.bindings, h.prepared⟩
    exact ⟨hnote r h.1, hnote r' h.2⟩
  value r r' h name := by
    refine ⟨?_, fun _ _ => trivial⟩
    unfold QueryContext.value
    rw [h.1.bindings, h.2.bindings]
  prepared r r' h id _ := (h.1.prepared id).trans (h.2.prepared id).symm
  set _ := trivial
  items _ := trivial

theorem reads_of_alike {m : Evaluation α} {Q : α → Prop} (h : Alike σ.Both Q m m) : σ.Reads m := by
  intro r hr
  obtain ⟨hresult, hafter, _⟩ := h r σ.start ⟨hr, σ.holds_start⟩
  exact ⟨hresult, hafter.1⟩

theorem alike_of_reads {m : Evaluation α} (h : σ.Reads m) : Alike σ.Both (fun _ => True) m m := by
  intro r r' hr
  obtain ⟨hresult, hafter⟩ := h r hr.1
  obtain ⟨hresult', hafter'⟩ := h r' hr.2
  exact ⟨hresult.trans hresult'.symm, ⟨hafter, hafter'⟩, fun _ _ => trivial⟩

/-! ### Outcomes of compositions -/

@[simp] theorem outcome_pure (a : α) : σ.outcome (pure a : Evaluation α) = .ok a := rfl

@[simp] theorem outcome_orFail (x : Except QueryError α) : σ.outcome (orFail x) = x := rfl

@[simp] theorem outcome_ofStore (x : Except StoreError α) :
    σ.outcome (ofStore x) = x.mapError .store := rfl

/-- **The outcome of a composition** is that of its parts, since the first leaves the setting. -/
theorem outcome_bind {m : Evaluation α} {f : α → Evaluation β} (hm : σ.Reads m)
    (hf : ∀ a, σ.Reads (f a)) :
    σ.outcome (m >>= f) = σ.outcome m >>= fun a => σ.outcome (f a) := by
  unfold outcome
  rw [result_bind]
  cases m.result σ.start with
  | error e => rfl
  | ok a => exact (hf a _ (hm _ σ.holds_start).2).1

theorem outcome_orFail_bind (x : Except QueryError α) (f : α → Evaluation β) :
    σ.outcome (orFail x >>= f) = x >>= fun a => σ.outcome (f a) := by
  unfold outcome
  rw [result_bind]
  rfl

theorem outcome_ofStore_bind (x : Except StoreError α) (f : α → Evaluation β) :
    σ.outcome (ofStore x >>= f) = x.mapError .store >>= fun a => σ.outcome (f a) :=
  outcome_orFail_bind _ f

theorem reads_pure (a : α) : σ.Reads (pure a : Evaluation α) := fun _ h => ⟨rfl, h⟩

theorem reads_orFail (x : Except QueryError α) : σ.Reads (orFail x) := fun _ h => ⟨rfl, h⟩

theorem reads_bind {m : Evaluation α} {f : α → Evaluation β} (hm : σ.Reads m)
    (hf : ∀ a, σ.Reads (f a)) : σ.Reads (m >>= f) :=
  reads_of_alike (Alike.bind (alike_of_reads hm) fun a _ => alike_of_reads (hf a))

theorem reads_lookup (kind : LookupKind) (answer : Except StoreError NodeSet) :
    σ.Reads (lookup kind answer) :=
  reads_of_alike (Alike.lookup (σ.steady_both.count kind))

theorem outcome_lookup (kind : LookupKind) (answer : Except StoreError NodeSet) :
    σ.outcome (lookup kind answer) = answer.mapError .store := by
  unfold outcome lookup
  rw [result_bind]
  cases answer <;> rfl

/-! ### Steps -/

variable (s : Store)

theorem reads_selectAxis (head : StepHead) (context : NodeSet) :
    σ.Reads (selectAxis s head context) :=
  reads_of_alike (alike_selectAxis σ.steady_both s trivial context)

/-- What the name index, or else navigation, gives for a step. -/
def unprepared (s : Store) (head : StepHead) (context : NodeSet) : Except StoreError NodeSet :=
  match nameLookup? s head context with
  | some (_, answer) => answer
  | none => s.navigate head.axis head.test context

/-- **The nodes of a step:** those that the axis leads to among prepared candidates, or
else those that the name index or navigation gives. -/
theorem outcome_selectAxis (head : StepHead) (context : NodeSet) :
    σ.outcome (selectAxis s head context) =
      match (σ.prepared.get? head.id).bind (relatePrepared? head.axis · context) with
      | some related => .ok related
      | none => (unprepared s head context).mapError .store := by
  change σ.outcome (match (σ.start.context.preloaded.get? head.id).bind
      (relatePrepared? head.axis · context) with
    | some related => pure related
    | none => selectUnprepared s head context) = _
  change σ.outcome (match (σ.prepared.get? head.id).bind (relatePrepared? head.axis · context) with
    | some related => pure related
    | none => selectUnprepared s head context) = _
  cases (σ.prepared.get? head.id).bind (relatePrepared? head.axis · context) with
  | some related => rfl
  | none =>
    dsimp only
    unfold selectUnprepared unprepared
    cases nameLookup? s head context with
    | some answer => exact outcome_lookup _ _
    | none => rfl

/-- The outcome of the predicates of a step for one node after the other. -/
def byNode (σ : Setting) (s : Store) (head : StepHead)
    (applyAll : Sequence → Except QueryError Sequence) (persistent : Bool) (nodes : List Node) :
    Except QueryError NodeSet :=
  nodes.foldlM
    (fun result n => do
      let selected ← σ.outcome (selectAxis s head (.ofList [n] persistent))
      let kept ← applyAll (.ofSet selected)
      let kept ← kept.toShared
      pure (result.union kept.set))
    .empty

variable {s}

theorem outcome_foldlM {f : β → α → Evaluation β} (hf : ∀ b a, σ.Reads (f b a)) (l : List α) :
    ∀ b, σ.outcome (l.foldlM f b) = l.foldlM (fun b a => σ.outcome (f b a)) b := by
  induction l with
  | nil => exact fun _ => rfl
  | cons a rest ih =>
    intro b
    have hrest : ∀ b, σ.Reads (rest.foldlM f b) := fun b =>
      reads_of_alike (Q := fun _ => True)
        (Alike.foldlM trivial fun b _ a _ => alike_of_reads (hf b a))
    rw [List.foldlM_cons, List.foldlM_cons, outcome_bind (hf b a) hrest]
    exact bind_congr fun b => ih b

theorem outcome_stepByNode {head : StepHead} {applyAll : Sequence → Evaluation Sequence}
    (hall : ∀ v, σ.Reads (applyAll v)) (persistent : Bool) (nodes : List Node) :
    σ.outcome (stepByNode s head applyAll persistent nodes) =
      σ.byNode s head (fun v => σ.outcome (applyAll v)) persistent nodes := by
  unfold stepByNode byNode
  rw [outcome_foldlM fun result n => reads_bind (reads_selectAxis s head _) fun selected =>
    reads_bind (hall _) fun kept => reads_bind (reads_orFail _) fun _ => reads_pure _]
  refine congrArg (fun f => List.foldlM f NodeSet.empty nodes) ?_
  funext result n
  rw [outcome_bind (reads_selectAxis s head _) fun selected =>
    reads_bind (hall _) fun kept => reads_bind (reads_orFail _) fun _ => reads_pure _]
  refine bind_congr fun selected => ?_
  rw [outcome_bind (hall _) fun kept => reads_bind (reads_orFail _) fun _ => reads_pure _]
  exact bind_congr fun kept => outcome_orFail_bind _ _

/-- **The outcome of a step.** -/
theorem outcome_evaluateStep {head : StepHead} {positional : Bool}
    {applyAll : Bool → Sequence → Evaluation Sequence}
    (hall : ∀ reverse v, σ.Reads (applyAll reverse v)) (focus : Focus) :
    σ.outcome (evaluateStep s head positional applyAll focus) = (do
      let context ← contextSet s focus
      if positional then
        let set ← σ.byNode s head (fun v => σ.outcome (applyAll head.axis.isReverse v))
          context.set.persistent context.set.nodes
        pure (.ofSet set)
      else
        let selected ← σ.outcome (selectAxis s head context.set)
        σ.outcome (applyAll false (.ofSet selected))) := by
  have hnodes : ∀ persistent nodes,
      σ.Reads (stepByNode s head (applyAll head.axis.isReverse) persistent nodes) := by
    intro persistent nodes
    refine reads_of_alike (Q := fun _ => True) (Alike.foldlM trivial fun result _ n _ => ?_)
    exact alike_of_reads (reads_bind (reads_selectAxis s head _) fun selected =>
      reads_bind (hall _ _) fun kept => reads_bind (reads_orFail _) fun _ => reads_pure _)
  unfold evaluateStep
  rw [outcome_orFail_bind]
  refine bind_congr fun context => ?_
  cases positional with
  | true =>
    rw [if_pos rfl, if_pos rfl, outcome_bind (hnodes _ _) fun _ => reads_pure _,
      outcome_stepByNode (hall _)]
    rfl
  | false =>
    rw [if_neg Bool.false_ne_true, if_neg Bool.false_ne_true,
      outcome_bind (reads_selectAxis s head _) fun _ => hall _ _]

/-! ### Predicates -/

variable (s) in
theorem reads_select (probe : IndexProbe) (candidates : NodeSet) :
    σ.Reads (probe.select s candidates) :=
  reads_of_alike (alike_select σ.steady_both s probe candidates)

theorem outcome_select (probe : IndexProbe) (candidates : NodeSet) :
    σ.outcome (probe.select s candidates) = probe.answer s candidates := by
  rw [IndexProbe.select_eq]
  unfold IndexProbe.answer
  cases probe.relation with
  | none => rfl
  | some relation =>
    dsimp only
    rw [outcome_ofStore_bind]
    refine bind_congr fun covered => ?_
    cases covered with
    | false => rfl
    | true =>
      rw [if_pos rfl, if_pos rfl, outcome_bind (reads_lookup _ _) fun _ => reads_pure _,
        outcome_lookup]
      rfl

theorem reads_noteIndexUse (id : ExprId) : σ.Reads (update (·.noteIndexUse id)) :=
  reads_of_alike (Alike.update (σ.steady_both.note id))

/-- **What an index selects of a sequence,** when it answers for all of it. -/
def byIndex (s : Store) (mode : PredicateMode) (probe : Option (ExprId × IndexProbe))
    (sequence : Sequence) : Except QueryError (Option NodeSet) :=
  match mode, probe, sequence with
  | .boolean, some (_, probe), .nodes shared => probe.answer s shared.set
  | _, _, _ => .ok none

variable (s) in
theorem reads_applyByIndex (mode : PredicateMode) (probe : Option (ExprId × IndexProbe))
    (sequence : Sequence) : σ.Reads (applyByIndex s mode probe sequence) := by
  unfold applyByIndex
  split
  · refine reads_bind (reads_select s _ _) fun kept => ?_
    cases kept with
    | none => exact reads_pure _
    | some kept => exact reads_bind (reads_noteIndexUse _) fun _ => reads_pure _
  · exact reads_pure _

theorem outcome_applyByIndex (mode : PredicateMode) (probe : Option (ExprId × IndexProbe))
    (sequence : Sequence) :
    σ.outcome (applyByIndex s mode probe sequence) = byIndex s mode probe sequence := by
  cases mode with
  | positional => rfl
  | boolean =>
    rcases probe with _ | ⟨id, probe⟩
    · rfl
    · cases sequence with
      | items list => rfl
      | nodes shared =>
        have hnoted : ∀ kept : Option NodeSet, σ.Reads (match kept with
            | some kept => do update (·.noteIndexUse id); pure (some kept)
            | none => pure none : Evaluation (Option NodeSet)) := by
          intro kept
          cases kept with
          | none => exact reads_pure _
          | some kept => exact reads_bind (reads_noteIndexUse _) fun _ => reads_pure _
        refine (outcome_bind (reads_select s _ _) hnoted).trans ?_
        rw [outcome_select]
        refine (bind_congr fun kept => ?_).trans (bind_pure _)
        cases kept with
        | none => rfl
        | some kept => exact outcome_bind (reads_noteIndexUse _) fun _ => reads_pure _

variable {evaluate : Focus → Evaluation Sequence}

theorem reads_selectItems (heval : ∀ focus, σ.Reads (evaluate focus)) (persistent reverse : Bool)
    (items : List Item) :
    ∀ position, σ.Reads (selectItems evaluate persistent reverse position items) := by
  induction items with
  | nil => exact fun _ => reads_pure _
  | cons item rest ih =>
    exact fun _ => reads_bind (heval _) fun outcome => reads_bind (reads_orFail _) fun selected =>
      reads_bind (ih _) fun _ => reads_pure _

/-- **The items that a predicate selects,** one after the other. -/
theorem outcome_selectItems_cons (heval : ∀ focus, σ.Reads (evaluate focus))
    (persistent reverse : Bool) (position : Nat) (item : Item) (rest : List Item) :
    σ.outcome (selectItems evaluate persistent reverse position (item :: rest)) = (do
      let outcome ← σ.outcome (evaluate (itemFocus persistent item))
      let selected ← outcome.selects position
      let kept ← σ.outcome (selectItems evaluate persistent reverse
        (if reverse then position - 1 else position + 1) rest)
      pure (if selected then item :: kept else kept)) := by
  have hrest := reads_selectItems heval persistent reverse rest
  refine (outcome_bind (heval _) fun outcome => reads_bind (reads_orFail _) fun selected =>
    reads_bind (hrest _) fun _ => reads_pure _).trans ?_
  refine bind_congr fun outcome => ?_
  rw [outcome_orFail_bind]
  refine bind_congr fun selected => ?_
  rw [outcome_bind (hrest _) fun _ => reads_pure _]
  rfl

theorem reads_applyByItem (heval : ∀ focus, σ.Reads (evaluate focus)) (reverse : Bool)
    (sequence : Sequence) : σ.Reads (applyByItem evaluate reverse sequence) :=
  reads_bind (reads_selectItems heval _ _ _ _) fun _ => reads_pure _

theorem outcome_applyByItem (heval : ∀ focus, σ.Reads (evaluate focus)) (reverse : Bool)
    (sequence : Sequence) :
    σ.outcome (applyByItem evaluate reverse sequence) =
      (σ.outcome (selectItems evaluate sequence.isPersistent reverse
        (if reverse then sequence.toItems.length else 1) sequence.toItems)).map
          (withItems sequence) := by
  unfold applyByItem
  dsimp only
  rw [outcome_bind (reads_selectItems heval _ _ _ _) fun _ => reads_pure _]
  cases σ.outcome (selectItems evaluate sequence.isPersistent reverse
    (if reverse then sequence.toItems.length else 1) sequence.toItems) <;> rfl

theorem reads_applyPredicate (heval : ∀ focus, σ.Reads (evaluate focus)) (mode : PredicateMode)
    (probe : Option (ExprId × IndexProbe)) (reverse : Bool) (sequence : Sequence) :
    σ.Reads (applyPredicate s mode probe evaluate reverse sequence) :=
  reads_of_alike (alike_applyPredicate σ.steady_both s mode probe
    (fun focus _ => alike_of_reads (heval focus)) reverse sequence)

/-- **The outcome of a predicate:** what an index selects, if it answers, and else what is
selected of the items. -/
theorem outcome_applyPredicate (heval : ∀ focus, σ.Reads (evaluate focus)) (mode : PredicateMode)
    (probe : Option (ExprId × IndexProbe)) (reverse : Bool) (sequence : Sequence) :
    σ.outcome (applyPredicate s mode probe evaluate reverse sequence) = (do
      match ← byIndex s mode probe sequence with
      | some kept => pure (.ofSet kept)
      | none => σ.outcome (applyByItem evaluate reverse sequence)) := by
  have hitems : ∀ kept : Option NodeSet, σ.Reads (match kept with
      | some kept => pure (.ofSet kept)
      | none => applyByItem evaluate reverse sequence) := by
    intro kept
    cases kept with
    | some kept => exact reads_pure _
    | none => exact reads_applyByItem heval reverse sequence
  refine (outcome_bind (reads_applyByIndex s mode probe sequence) hitems).trans ?_
  rw [outcome_applyByIndex]
  refine bind_congr fun kept => ?_
  cases kept <;> rfl

end Setting

/-! ### Expressions -/

namespace Expr

open Setting

variable {σ : Setting} {s : Store}

/-- **Evaluation without pragmas reads the setting only.** -/
theorem reads_evaluate {e : Expr} (h : e.IsPragmaFree) (focus : Focus) :
    σ.Reads (e.evaluate s focus) :=
  reads_of_alike (alike_evaluate (ι := Unit) (fun _ => σ.steady_both) s e
    (fun _ _ _ => trivial) (fun id pragmas body hmem => absurd hmem (h id pragmas body)) () focus
    fun _ _ => trivial)

theorem reads_evaluateSteps {es : List Expr} (h : ∀ e ∈ es, e.IsPragmaFree) (value : Sequence) :
    σ.Reads (evaluateSteps s es value) :=
  reads_of_alike (alike_evaluateSteps σ.steady_both
    (fun e he focus _ => (alike_of_reads (reads_evaluate (h e he) focus))) value trivial)

theorem reads_applyPredicates {ps : List Predicate} (h : ∀ p ∈ ps, p.expr.IsPragmaFree)
    (reverse : Bool) (value : Sequence) : σ.Reads (applyPredicates s ps reverse value) :=
  reads_of_alike (alike_applyPredicates σ.steady_both
    (fun p hp focus _ => alike_of_reads (reads_evaluate (h p hp) focus)) reverse value trivial)

theorem reads_evaluateAll {es : List Expr} (h : ∀ e ∈ es, e.IsPragmaFree) (focus : Focus) :
    σ.Reads (evaluateAll s es focus) :=
  reads_of_alike ((alike_evaluateAll (Q := fun _ => True)
    fun e he => alike_of_reads (reads_evaluate (h e he) focus)).mono fun _ _ => trivial)

/-! ### Paths -/

theorem outcome_path_nil (id : ExprId) (focus : Focus) :
    σ.outcome ((path id []).evaluate s focus) = .ok .empty := by
  rw [evaluate, evaluatePath, outcome_pure]

/-- **The outcome of a path.** -/
theorem outcome_path_cons {id : ExprId} {first : Expr} {rest : List Expr}
    (h : (path id (first :: rest)).IsPragmaFree) (focus : Focus) :
    σ.outcome ((path id (first :: rest)).evaluate s focus) =
      σ.outcome (first.evaluate s focus) >>= fun value => σ.outcome (evaluateSteps s rest value) := by
  have hall : ∀ e ∈ first :: rest, e.IsPragmaFree := fun e he => h.mono (parts_subset_path he)
  rw [evaluate, evaluatePath]
  exact outcome_bind (reads_evaluate (hall first List.mem_cons_self) focus) fun value =>
    reads_evaluateSteps (fun e he => hall e (List.mem_cons_of_mem _ he)) value

theorem outcome_evaluateSteps_nil (value : Sequence) :
    σ.outcome (evaluateSteps s [] value) = .ok value := by
  rw [evaluateSteps, outcome_pure]

theorem outcome_evaluateSteps_cons {e : Expr} {rest : List Expr}
    (h : ∀ e' ∈ e :: rest, e'.IsPragmaFree) (value : Sequence) :
    σ.outcome (evaluateSteps s (e :: rest) value) =
      if value.isEmpty then .ok .empty
      else (do
        let context ← value.toShared
        let value ← σ.outcome (e.evaluate s (.on (.nodes context)))
        σ.outcome (evaluateSteps s rest value)) := by
  rw [evaluateSteps]
  split_ifs
  · rfl
  · rw [outcome_orFail_bind]
    refine bind_congr fun context => ?_
    exact outcome_bind (reads_evaluate (h e List.mem_cons_self) _) fun value =>
      reads_evaluateSteps (fun e he => h e (List.mem_cons_of_mem _ he)) value

/-! ### Steps, filters and predicates -/

theorem outcome_applyPredicates_nil (reverse : Bool) (value : Sequence) :
    σ.outcome (applyPredicates s [] reverse value) = .ok value := by
  rw [applyPredicates, outcome_pure]

theorem outcome_applyPredicates_cons {p : Predicate} {rest : List Predicate}
    (h : ∀ p' ∈ p :: rest, p'.expr.IsPragmaFree) (reverse : Bool) (value : Sequence) :
    σ.outcome (applyPredicates s (p :: rest) reverse value) =
      σ.outcome (applyPredicate s p.mode p.expr.probe? (p.expr.evaluate s) reverse value) >>=
        fun kept => σ.outcome (applyPredicates s rest reverse kept) := by
  rw [applyPredicates]
  exact outcome_bind (reads_applyPredicate (reads_evaluate (h p List.mem_cons_self)) _ _ _ _)
    fun kept => reads_applyPredicates (fun p hp => h p (List.mem_cons_of_mem _ hp)) reverse kept

/-- **The outcome of a step with its predicates.** -/
theorem outcome_step {head : StepHead} {predicates : List Predicate}
    (h : (step head predicates).IsPragmaFree) (focus : Focus) :
    σ.outcome ((step head predicates).evaluate s focus) = (do
      let context ← contextSet s focus
      if hasPositional predicates then
        let set ← σ.byNode s head
          (fun v => σ.outcome (applyPredicates s predicates head.axis.isReverse v))
          context.set.persistent context.set.nodes
        pure (.ofSet set)
      else
        let selected ← σ.outcome (selectAxis s head context.set)
        σ.outcome (applyPredicates s predicates false (.ofSet selected))) := by
  rw [evaluate]
  exact outcome_evaluateStep (fun reverse v =>
    reads_applyPredicates (fun p hp => h.mono (parts_subset_step hp)) reverse v) focus

theorem outcome_filter {id : ExprId} {base : Expr} {predicates : List Predicate}
    (h : (filter id base predicates).IsPragmaFree) (focus : Focus) :
    σ.outcome ((filter id base predicates).evaluate s focus) =
      σ.outcome (base.evaluate s focus) >>= fun value =>
        σ.outcome (applyPredicates s predicates false value) := by
  rw [evaluate]
  exact outcome_bind (reads_evaluate (h.mono (parts_subset_base _ _ _)) focus) fun value =>
    reads_applyPredicates (fun p hp => h.mono (parts_subset_filter hp)) false value

/-! ### Other expressions -/

theorem outcome_root (focus : Focus) :
    σ.outcome (root.evaluate s focus) = (do
      let context ← contextSet s focus
      pure (.ofSet (.ofList (context.set.nodes.map fun n => .document n.doc)
        context.set.persistent))) := by
  rw [evaluate, evaluateRoot, outcome_orFail_bind]
  rfl

theorem outcome_compareSequences (op : ComparisonOp) (left right : Sequence) :
    σ.outcome (compareSequences s op left right) = (do
      let left ← (s.atomize left).mapError .store
      let right ← (s.atomize right).mapError .store
      let b ← AtomicValue.someRelated op left right
      pure (.ofBool b)) := by
  unfold compareSequences
  rw [outcome_ofStore_bind]
  refine bind_congr fun left => ?_
  rw [outcome_ofStore_bind]
  exact bind_congr fun right => outcome_orFail_bind _ _

theorem outcome_comparison {id : ExprId} {op : ComparisonOp} {left right : Expr} {access : Access}
    (h : (comparison id op left right access).IsPragmaFree) (focus : Focus) :
    σ.outcome ((comparison id op left right access).evaluate s focus) = (do
      let left ← σ.outcome (left.evaluate s focus)
      let right ← σ.outcome (right.evaluate s focus)
      σ.outcome (compareSequences s op left right)) := by
  obtain ⟨hl, hr⟩ := @parts_subset_sides left right (comparison id op left right access) rfl
  have hcompare : ∀ l r, σ.Reads (compareSequences s op l r) := fun l r =>
    reads_of_alike (alike_compareSequences σ.steady_both s op l r)
  rw [evaluate, outcome_bind (reads_evaluate (h.mono hl) focus) fun l =>
    reads_bind (reads_evaluate (h.mono hr) focus) fun r => hcompare l r]
  exact bind_congr fun l => outcome_bind (reads_evaluate (h.mono hr) focus) fun r => hcompare l r

theorem outcome_call {id : ExprId} {function : Builtin} {args : List Expr} {access : Access}
    (h : (call id function args access).IsPragmaFree) (focus : Focus) :
    σ.outcome ((call id function args access).evaluate s focus) =
      σ.outcome (evaluateAll s args focus) >>= fun args =>
        σ.outcome (function.apply s focus args) := by
  rw [evaluate]
  exact outcome_bind (reads_evaluateAll (fun e he => h.mono (parts_subset_call he)) focus)
    fun args => reads_of_alike (alike_apply σ.steady_both s focus function args)

theorem outcome_evaluateAll_nil (focus : Focus) :
    σ.outcome (evaluateAll s [] focus) = .ok [] := by
  rw [evaluateAll, outcome_pure]

theorem outcome_evaluateAll_cons {e : Expr} {rest : List Expr}
    (h : ∀ e' ∈ e :: rest, e'.IsPragmaFree) (focus : Focus) :
    σ.outcome (evaluateAll s (e :: rest) focus) = (do
      let value ← σ.outcome (e.evaluate s focus)
      let values ← σ.outcome (evaluateAll s rest focus)
      pure (value :: values)) := by
  have hrest : σ.Reads (evaluateAll s rest focus) :=
    reads_evaluateAll (fun e he => h e (List.mem_cons_of_mem _ he)) focus
  rw [evaluateAll, outcome_bind (reads_evaluate (h e List.mem_cons_self) focus) fun _ =>
    reads_bind hrest fun _ => reads_pure _]
  exact bind_congr fun value => outcome_bind hrest fun _ => reads_pure _

theorem outcome_variable (name : String) (focus : Focus) :
    σ.outcome ((Expr.variable name).evaluate s focus) = σ.start.context.value name := by
  rw [evaluate]
  rfl

theorem outcome_literal (value : AtomicValue) (focus : Focus) :
    σ.outcome ((literal value).evaluate s focus) = .ok (.ofValue value) := by
  rw [evaluate, outcome_pure]

theorem reads_rightTruth {right : Expr} (h : right.IsPragmaFree) (focus : Focus) :
    σ.Reads (do
      let right ← right.evaluate s focus
      pure (.ofBool (← orFail right.truth)) : Evaluation Sequence) :=
  reads_bind (reads_evaluate h focus) fun _ => reads_bind (reads_orFail _) fun _ => reads_pure _

/-- What the right side of a boolean operator gives, when it is asked. -/
theorem outcome_rightTruth {right : Expr} (h : right.IsPragmaFree) (focus : Focus) :
    σ.outcome (do
      let right ← right.evaluate s focus
      pure (.ofBool (← orFail right.truth)) : Evaluation Sequence) = (do
      let right ← σ.outcome (right.evaluate s focus)
      let b ← right.truth
      pure (.ofBool b)) := by
  rw [outcome_bind (reads_evaluate h focus) fun r => reads_bind (reads_orFail _) fun _ => reads_pure _]
  exact bind_congr fun r => outcome_orFail_bind _ _

theorem outcome_and {left right : Expr} (h : (and left right).IsPragmaFree) (focus : Focus) :
    σ.outcome ((and left right).evaluate s focus) = (do
      let left ← σ.outcome (left.evaluate s focus)
      let b ← left.truth
      if b then
        let right ← σ.outcome (right.evaluate s focus)
        let b ← right.truth
        pure (.ofBool b)
      else pure (.ofBool false)) := by
  obtain ⟨hl, hr⟩ := @parts_subset_sides left right (and left right) rfl
  rw [evaluate, outcome_bind (reads_evaluate (h.mono hl) focus) fun l => ?_]
  · refine bind_congr fun l => ?_
    rw [outcome_orFail_bind]
    refine bind_congr fun b => ?_
    cases b with
    | true => exact outcome_rightTruth (h.mono hr) focus
    | false => rfl
  · refine reads_bind (reads_orFail _) fun b => ?_
    cases b with
    | true => exact reads_rightTruth (h.mono hr) focus
    | false => exact reads_pure _

theorem outcome_or {left right : Expr} (h : (or left right).IsPragmaFree) (focus : Focus) :
    σ.outcome ((or left right).evaluate s focus) = (do
      let left ← σ.outcome (left.evaluate s focus)
      let b ← left.truth
      if b then pure (.ofBool true)
      else
        let right ← σ.outcome (right.evaluate s focus)
        let b ← right.truth
        pure (.ofBool b)) := by
  obtain ⟨hl, hr⟩ := @parts_subset_sides left right (or left right) rfl
  rw [evaluate, outcome_bind (reads_evaluate (h.mono hl) focus) fun l => ?_]
  · refine bind_congr fun l => ?_
    rw [outcome_orFail_bind]
    refine bind_congr fun b => ?_
    cases b with
    | true => rfl
    | false => exact outcome_rightTruth (h.mono hr) focus
  · refine reads_bind (reads_orFail _) fun b => ?_
    cases b with
    | true => exact reads_pure _
    | false => exact reads_rightTruth (h.mono hr) focus

theorem outcome_sequence {items : List Expr} (h : (sequence items).IsPragmaFree) (focus : Focus) :
    σ.outcome ((sequence items).evaluate s focus) =
      σ.outcome (evaluateAll s items focus) >>= fun values =>
        .ok (values.foldl Sequence.append .empty) := by
  rw [evaluate]
  exact outcome_bind (reads_evaluateAll (fun e he => h.mono (parts_subset_sequence he)) focus)
    fun _ => reads_pure _

end Expr
end IndexedXml
