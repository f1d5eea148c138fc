/-
# Auditing kept verdicts

A verdict that is kept spares the optimizer computing it anew.  The audit computes it all the
same: whenever a judgement takes the verdict from the last time, it asks every condition about
what is to be narrowed now, and unless the answer is again to optimize, it does something else
altogether (`Optimizer.audited`).  Evaluation under audit is evaluation, whatever that
something else is, so that no such moment comes (`CompiledQuery.history_audited`).

This is so while evaluations, changes of the store, resets and declarations of variables
follow one another, as long as no variable on whose value a verdict is kept gets another value
without a reset before the next evaluation.  A verdict is kept for a context, and where the
value of a variable is narrowed in its place, nothing tells the optimizer that the value is
not the one the verdict was on (`CompiledQuery.unconfirmed_hit_of_declare`).
-/

import IndexedXml.Proofs.Query.Answers

namespace IndexedXml

open Evaluation

/-! ### The audit -/

namespace Optimizer

/-- **Whether a judgement stands up to computing its verdict anew.**  Only one that takes a
verdict from the last time could fail to. -/
def Judgement.isConfirmed (s : Store) (optimizables : List Optimizable) (j : Judgement) : Bool :=
  !j.cacheHit || match verdict s j.working optimizables with
    | .ok optimize => optimize
    | .error _ => false

/-- **The optimizer under audit.**  A judgement that is not confirmed is left to another
strategy. -/
def audited (s : Store) (otherwise : Strategy) : Strategy := fun id body focus => do
  match (← queryContext).optimizer? id with
  | none => evaluate s id body focus
  | some state =>
    let j ← judge s state (contextOf s focus)
    if j.isConfirmed s state.optimizables then evaluate s id body focus
    else otherwise id body focus

end Optimizer

variable {whole : Expr} {s : Store} {sets : Nat → NodeSet} {bindings : List (String × Sequence)}
  {found state : OptimizeState} {c : QueryContext} {p : Pragma} {enabled : Bool} {body : Expr}
  {scope : Scope} {exact : Prop} {r : Run}

/-- **What is kept validly is confirmed.** -/
theorem isConfirmed_of_judge (hstate : state.Valid s sets bindings found)
    (hr : r.context.bindings = bindings) {context : Option Sequence}
    (hcontext : ∀ v, context = some v → v.Agrees sets) {j : Optimizer.Judgement}
    (hj : (Optimizer.judge s state context).result r = .ok j) :
    j.isConfirmed s state.optimizables = true := by
  unfold Optimizer.Judgement.isConfirmed
  cases hhit : j.cacheHit with
  | false => rfl
  | true =>
    have hoptimize :=
      optimize_of_cacheHit (fun cached h => (hstate.cache cached h).positive) hj hhit
    have hopinion := result_judge hstate hr hcontext
    rw [hj] at hopinion
    rcases opinionOn_eq_ok hopinion.symm with ⟨_, _, _, hverdict⟩ | ⟨_, _, hnot⟩
    · rw [hstate.optimizables, hverdict, hoptimize]
      rfl
    · rw [hoptimize] at hnot
      cases hnot

namespace Optimizer

/-- Going on from what is only found out about a run. -/
theorem run_bind_of_after_eq {α β : Type} {m : Evaluation α} (hafter : m.after r = r)
    (f : α → Evaluation β) :
    (m >>= f).run r = match m.result r with
      | .ok a => (f a).run r
      | .error e => (.error e, r) := by
  refine Prod.ext (?_ : (m >>= f).result r = _) (?_ : (m >>= f).after r = _)
  · rw [result_bind, hafter]
    cases m.result r <;> rfl
  · rw [after_bind, hafter]
    cases m.result r <;> rfl

/-- **An audit changes nothing in a sound context.** -/
theorem run_audited (otherwise : Strategy)
    (hsound : Sound whole s sets bindings scope r.context) (hp : p.Optimizes whole enabled body)
    (evaluate : Focus → Evaluation Sequence) {focus : Focus}
    (hfocus : focus.Has (Sequence.Agrees sets)) :
    (audited s otherwise p.id evaluate focus).run r =
      (Optimizer.evaluate s p.id evaluate focus).run r := by
  have haudited : (audited s otherwise p.id evaluate focus).run r =
      ((match r.context.optimizer? p.id with
        | none => Optimizer.evaluate s p.id evaluate focus
        | some state => judge s state (contextOf s focus) >>= fun j =>
          if j.isConfirmed s state.optimizables then Optimizer.evaluate s p.id evaluate focus
          else otherwise p.id evaluate focus : Evaluation Sequence)).run r := rfl
  rw [haudited]
  cases hstate : r.context.optimizer? p.id with
  | none => rfl
  | some state =>
    dsimp only
    rw [run_bind_of_after_eq (after_judge s state _ r)]
    cases hj : (judge s state (contextOf s focus)).result r with
    | ok j =>
      dsimp only
      rw [if_pos (isConfirmed_of_judge (hsound.valid_state hp hstate) hsound.bindings
        (agrees_contextOf hfocus) hj)]
    | error e =>
      -- Where there is no judgement there is none without the audit either.
      have hevaluate : (Optimizer.evaluate s p.id evaluate focus).run r =
          ((match r.context.optimizer? p.id with
            | none => evaluate focus
            | some state => judge s state (contextOf s focus) >>= fun j =>
              update (·.updateOptimizer p.id (countJudgement j)) >>= fun _ =>
                if j.optimize then narrow s p.id state evaluate j
                else fallBack p.id evaluate focus (contextOf s focus) j :
            Evaluation Sequence)).run r := rfl
      rw [hevaluate, hstate]
      dsimp only
      rw [run_bind_of_after_eq (after_judge s state _ r), hj]

/-- **The audit and the optimizer end alike.** -/
theorem alike_audited (hwhole : whole.numbers.Nodup)
    (hbindings : ∀ entry ∈ bindings, entry.2.Agrees sets) (otherwise : Strategy) :
    StrategiesAlike exact whole s sets bindings (audited s otherwise) (Optimizer.evaluate s) := by
  intro p enabled body hp scope hactive evaluate evaluate' hbody focus hfocus r r' hr
  have hrun := run_audited otherwise hr.alike.left hp evaluate hfocus
  have halike := alike_optimize hwhole hbindings p enabled body hp scope hactive evaluate
    evaluate' hbody focus hfocus r r' hr
  unfold result after at halike ⊢
  rwa [hrun]

end Optimizer

/-! ### Variables that get other values -/

/-- **A declaration that upsets a verdict:** one is kept on the value of the variable, and the
new value is another one. -/
def QueryContext.Upsets (c : QueryContext) (name : String) (value : Sequence) : Prop :=
  ∃ id state, c.optimizer? id = some state ∧ state.contextVariable = some name ∧
    state.cache ≠ none ∧ c.value name ≠ .ok value

theorem value_declare (c : QueryContext) (name : String) (value : Sequence) (other : String) :
    (c.declare name value).value other = if other = name then .ok value else c.value other := by
  unfold QueryContext.value QueryContext.declare
  by_cases h : other = name
  · simp [h]
  · have hfind : (c.bindings.filter fun entry => entry.1 != name).find?
        (fun entry => entry.1 == other) = c.bindings.find? fun entry => entry.1 == other := by
      rw [List.find?_filter]
      congr 1
      funext entry
      by_cases hentry : entry.1 = other
      · simp [hentry, h]
      · simp [hentry]
    have hname : (name == other) = false := beq_eq_false_iff_ne.2 (Ne.symm h)
    rw [if_neg h]
    dsimp only
    rw [List.find?_cons, hname]
    dsimp only
    rw [hfind]

/-- **A declaration that upsets no verdict leaves everything valid.** -/
theorem QueryContext.Valid.declare (h : c.Valid whole s sets) {name : String} {value : Sequence}
    (hupsets : ¬c.Upsets name value) : (c.declare name value).Valid whole s sets := by
  intro p enabled body hp state hstate
  have hvalid := h p enabled body hp state hstate
  refine ⟨hvalid.optimizables, hvalid.contextStep, hvalid.contextVariable,
    fun cached hcached => ?_⟩
  have hkept := hvalid.cache cached hcached
  refine ⟨hkept.positive, hkept.same, hkept.persistent, hkept.state_le,
    fun hgeneration working hworking => ?_⟩
  refine hkept.verdict hgeneration working ?_
  rw [← hworking]
  unfold workingIn
  cases hvariable : (Pragma.found enabled body).contextVariable with
  | none => rfl
  | some other =>
    dsimp only
    rw [← value_eq_valueIn, ← value_eq_valueIn, value_declare]
    split_ifs with hother
    · -- The verdict that is kept is on the value that the variable has already.
      have hsame : c.value name = .ok value := by
        by_contra hne
        exact hupsets ⟨p.id, state, hstate, by rw [hvalid.contextVariable, hvariable, hother],
          by rw [hcached]; exact Option.some_ne_none _, hne⟩
      rw [hother, hsame]
    · rfl

theorem not_upsets_reset (c : QueryContext) (name : String) (value : Sequence) :
    ¬c.reset.Upsets name value := by
  rintro ⟨id, state, hstate, -, hcache, -⟩
  have hget : (c.optimizers.mapValues OptimizeState.reset).get? id = some state := hstate
  rw [Table.get?_mapValues, Option.map_eq_some_iff] at hget
  obtain ⟨old, -, rfl⟩ := hget
  exact hcache rfl

/-! ### Histories -/

/-- What happens to a store and a query context, the variables included. -/
inductive Occurrence where
  /-- What leaves the variables as they are. -/
  | event (event : Event)
  /-- A variable gets a value. -/
  | declare (name : String) (value : Sequence)

/-- **The outcomes of the evaluations, and the runs that they leave,** while occurrences follow
one another in one query context. -/
def history (evaluate : Store → Focus → Evaluation Sequence) (s : Store) (run : Run) :
    List Occurrence → List (Except QueryError Sequence × Run)
  | [] => []
  | .event (.evaluate focus) :: rest =>
    (evaluate s focus).run run :: history evaluate s ((evaluate s focus).after run) rest
  | .event (.change change) :: rest => history evaluate (s.perform change) run rest
  | .event .reset :: rest =>
    history evaluate s { run with context := run.context.reset } rest
  | .declare name value :: rest =>
    history evaluate s { run with context := run.context.declare name value } rest

namespace CompiledQuery

/-- **No evaluation follows a declaration that upsets a verdict,** unless there is a reset in
between.  `upset` is whether there has been such a declaration and no reset since. -/
def IsCareful (q : CompiledQuery) (s : Store) (run : Run) (upset : Prop) : List Occurrence → Prop
  | [] => True
  | .event (.evaluate focus) :: rest =>
    ¬upset ∧ q.IsCareful s ((q.evaluate s focus).after run) False rest
  | .event (.change change) :: rest => q.IsCareful (s.perform change) run upset rest
  | .event .reset :: rest => q.IsCareful s { run with context := run.context.reset } False rest
  | .declare name value :: rest =>
    q.IsCareful s { run with context := run.context.declare name value }
      (upset ∨ run.context.Upsets name value) rest

/-- **What a context keeps in between:** everything is valid, but for verdicts that have been
upset. -/
structure IsKept (q : CompiledQuery) (s : Store) (sets : Nat → NodeSet) (upset : Prop)
    (c : QueryContext) : Prop where
  bindings : ∀ entry ∈ c.bindings, entry.2.Agrees sets
  reset : c.reset.Valid q.root s sets
  valid : ¬upset → c.Valid q.root s sets
  preloaded : ∀ id, c.preloaded.get? id = none

variable {q : CompiledQuery} {upset : Prop} {run : Run}

/-- **One evaluation:** the audit changes nothing, and what is kept afterwards is valid. -/
theorem IsKept.evaluate (hq : q.root.numbers.Nodup) (h : q.IsKept s sets upset run.context)
    (hupset : ¬upset) (otherwise : Strategy) {focus : Focus}
    (hfocus : focus.Has (Sequence.Agrees sets)) :
    (q.root.evaluateBy s (Optimizer.audited s otherwise) focus).run run =
        (q.evaluate s focus).run run ∧
      q.IsKept s sets False ((q.evaluate s focus).after run).context := by
  have hsound : Sound q.root s sets run.context.bindings outermost run.context :=
    ⟨rfl, h.valid hupset, fun _ h => h.elim⟩
  have hstart : RunsAlike True q.root s sets run.context.bindings outermost run run :=
    ⟨⟨hsound, hsound, fun _ => rfl, fun id hne => absurd (h.preloaded id) hne,
      fun _ h => h.elim⟩, fun _ => rfl⟩
  have halike := evaluateBy_alike hq h.bindings
    (Optimizer.alike_audited hq h.bindings otherwise) hfocus run run hstart
  rw [Expr.evaluateBy_optimizer] at halike
  obtain ⟨hresult, ⟨hafter, hsame⟩, -⟩ := halike
  refine ⟨Prod.ext hresult (hsame trivial), ?_, hafter.right.valid.reset,
    fun _ => hafter.right.valid, fun id => ?_⟩
  · rw [show ((q.evaluate s focus).after run).context.bindings = run.context.bindings from
      hafter.right.bindings]
    exact h.bindings
  · by_contra hne
    exact hafter.prepared id ((hafter.preloaded id).trans_ne hne)

theorem IsKept.perform (h : q.IsKept s sets upset c) (change : Store.Change) :
    q.IsKept (s.perform change) sets upset c :=
  ⟨h.bindings, h.reset.perform change, fun hupset => (h.valid hupset).perform change, h.preloaded⟩

/-- A reset leaves only what is valid. -/
theorem IsKept.afterReset (h : q.IsKept s sets upset c) : q.IsKept s sets False c.reset :=
  ⟨h.bindings, h.reset.reset, fun _ => h.reset, fun _ => rfl⟩

theorem IsKept.declare (h : q.IsKept s sets upset c) (name : String) {value : Sequence}
    (hvalue : value.Agrees sets) :
    q.IsKept s sets (upset ∨ c.Upsets name value) (c.declare name value) := by
  refine ⟨List.forall_mem_cons.2 ⟨hvalue, fun entry hentry =>
    h.bindings entry (List.mem_of_mem_filter hentry)⟩, ?_, fun hupset => ?_, h.preloaded⟩
  · exact h.reset.declare (not_upsets_reset c name value)
  · obtain ⟨hbefore, hnow⟩ := not_or.1 hupset
    exact (h.valid hbefore).declare hnow

theorem history_audited_of_isKept (hq : q.root.numbers.Nodup) (otherwise : Store → Strategy)
    {occurrences : List Occurrence}
    (hfoci : ∀ focus, .event (.evaluate focus) ∈ occurrences → focus.Has (Sequence.Agrees sets))
    (hvalues : ∀ name value, .declare name value ∈ occurrences → value.Agrees sets) :
    ∀ (s : Store) (run : Run) (upset : Prop), q.IsKept s sets upset run.context →
      q.IsCareful s run upset occurrences →
      history (fun s => q.root.evaluateBy s (Optimizer.audited s (otherwise s))) s run occurrences =
        history q.evaluate s run occurrences := by
  induction occurrences with
  | nil => exact fun _ _ _ _ _ => rfl
  | cons occurrence rest ih =>
    intro s run upset hkept hcareful
    have hrest := ih (fun focus h => hfoci focus (List.mem_cons_of_mem _ h))
      fun name value h => hvalues name value (List.mem_cons_of_mem _ h)
    cases occurrence with
    | event event =>
      cases event with
      | evaluate focus =>
        obtain ⟨hupset, hcareful⟩ := hcareful
        obtain ⟨hrun, hafter⟩ := hkept.evaluate hq hupset (otherwise s)
          (hfoci focus List.mem_cons_self)
        have hleft : (q.root.evaluateBy s (Optimizer.audited s (otherwise s)) focus).after run =
            (q.evaluate s focus).after run := congrArg Prod.snd hrun
        rw [history, history, hrun, hleft, hrest _ _ _ hafter hcareful]
      | change change => exact hrest _ _ _ (hkept.perform change) hcareful
      | reset => exact hrest _ _ _ hkept.afterReset hcareful
    | declare name value =>
      exact hrest _ _ _ (hkept.declare name (hvalues name value List.mem_cons_self)) hcareful

/-- **A verdict is reused only where it would be computed again.**  Evaluations of a compiled
query, changes of the store, resets and declarations of variables may follow one another in
any order in which no evaluation follows a declaration that upsets a verdict, unless there is
a reset in between.  Then every evaluation ends exactly as it does under an audit that leaves
each reused verdict that is not confirmed to another strategy, whatever that strategy is. -/
theorem history_audited {source : String} {config : Configuration} {q : CompiledQuery}
    (hq : compile source config = .ok q) (otherwise : Store → Strategy) (sets : Nat → NodeSet)
    (occurrences : List Occurrence)
    (hfoci : ∀ focus, .event (.evaluate focus) ∈ occurrences → focus.Has (Sequence.Agrees sets))
    (hvalues : ∀ name value, .declare name value ∈ occurrences → value.Agrees sets) (s : Store)
    (hcareful : q.IsCareful s ⟨.empty, .zero⟩ False occurrences) :
    history (fun s => q.root.evaluateBy s (Optimizer.audited s (otherwise s))) s ⟨.empty, .zero⟩
        occurrences =
      history q.evaluate s ⟨.empty, .zero⟩ occurrences :=
  history_audited_of_isKept (nodup_numbers hq) otherwise hfoci hvalues s _ False
    ⟨fun _ h => absurd h List.not_mem_nil, fun _ _ _ _ _ h => (nomatch h),
      fun _ _ _ _ _ _ h => (nomatch h), fun _ => rfl⟩ hcareful

end CompiledQuery

/-! ### Books and notes -/

/-- A store with a book in a collection that has an index on titles, and a note in one that has
none. -/
def notesStore : Store :=
  ((Store.empty.perform (.configureCollection "/db/books"
    [⟨⟨.element, ⟨none, "title", none⟩⟩, .string⟩])).perform
    (.storeXml "/db/books" "a.xml" "<book><title>Dune</title></book>")).perform
    (.storeXml "/db/notes" "b.xml" "<note><title>Dune</title></note>")

/-- What some handles stand for: the document of the book, the book and the note. -/
def notesByHandle : Nat → NodeSet
  | 0 => ⟨[.document 0], true⟩
  | 1 => ⟨[⟨0, ⟨[1]⟩⟩], true⟩
  | _ => ⟨[⟨1, ⟨[1]⟩⟩], true⟩

/-- What is kept under a handle. -/
def notesUnder (handle : Nat) : Sequence := .nodes ⟨notesByHandle handle, some handle⟩

theorem agrees_notesUnder (handle : Nat) : (notesUnder handle).Agrees notesByHandle := by
  rintro _ ⟨⟩ _ ⟨⟩
  rfl

/-- The query for the books with a title if what is kept in a variable has it, too. -/
def titledBooks : String :=
  "(# exist:optimize #) \x7b //book[title = 'Dune'][$x[title = 'Dune']] \x7d"

namespace CompiledQuery

/-- A variable gets another value after a verdict on the first one, but then there is a reset. -/
theorem history_audited_of_reset : ∃ q, compile titledBooks .standard = .ok q ∧
    history (fun s => q.root.evaluateBy s (Optimizer.audited s fun _ _ _ =>
        orFail (.error .noContextItem))) notesStore ⟨.empty, .zero⟩
          [.declare "x" (notesUnder 1), .event (.evaluate (.on (notesUnder 0))),
            .event (.evaluate (.on (notesUnder 0))), .declare "x" (notesUnder 2), .event .reset,
            .event (.evaluate (.on (notesUnder 0)))] =
      history q.evaluate notesStore ⟨.empty, .zero⟩
          [.declare "x" (notesUnder 1), .event (.evaluate (.on (notesUnder 0))),
            .event (.evaluate (.on (notesUnder 0))), .declare "x" (notesUnder 2), .event .reset,
            .event (.evaluate (.on (notesUnder 0)))] := by
  have hcompiles : (compile titledBooks .standard).toBool = true := by
    decide +kernel
  cases hq : compile titledBooks .standard with
  | error e =>
    rw [hq] at hcompiles
    cases hcompiles
  | ok q =>
    refine ⟨q, rfl, history_audited hq (fun _ _ _ _ => orFail (.error .noContextItem)) notesByHandle
      _ ?_ ?_ notesStore ⟨?_, id, id, trivial⟩⟩
    · intro focus h v hv
      simp only [List.mem_cons, reduceCtorEq, false_or, Occurrence.event.injEq,
        Event.evaluate.injEq, List.not_mem_nil, or_false, or_self] at h
      subst h
      obtain rfl := Option.some.inj hv
      exact agrees_notesUnder 0
    · intro name value h
      simp only [List.mem_cons, reduceCtorEq, false_or, Occurrence.declare.injEq,
        List.not_mem_nil, or_false] at h
      rcases h with ⟨-, rfl⟩ | ⟨-, rfl⟩
      · exact agrees_notesUnder 1
      · exact agrees_notesUnder 2
    · rintro (h | ⟨id, state, h, -⟩)
      · exact h
      · cases h

/-- **A verdict on a variable outlives its value.**  The second evaluation, for the same
context, takes the verdict from the first, which was on the book.  Computed anew it says not to
optimize, since there is no index on the titles of notes; and what is narrowed in vain loses the
book, which evaluation in a new context finds. -/
theorem unconfirmed_hit_of_declare : ∃ q, compile titledBooks .standard = .ok q ∧
    ∃ first outcome second state,
      first = (q.evaluate notesStore (.on (notesUnder 0))).after
        ⟨QueryContext.empty.declare "x" (notesUnder 1), .zero⟩ ∧
      (outcome, second) = (q.evaluate notesStore (.on (notesUnder 0))).run
        ⟨first.context.declare "x" (notesUnder 2), first.counts⟩ ∧
      second.context.optimizer? 2 = some state ∧ state.stats.cacheHits = 1 ∧
      verdict notesStore (some (notesUnder 2)) state.optimizables = .ok false ∧
      outcome.map Sequence.toItems = .ok [] ∧
      ((q.evaluate notesStore (.on (notesUnder 0))).result
        ⟨QueryContext.empty.declare "x" (notesUnder 2), .zero⟩).map Sequence.toItems =
          .ok [.node ⟨0, ⟨[1]⟩⟩] := by
  have hcounted : (compile titledBooks .standard).map
      (fun q =>
        let first := (q.evaluate notesStore (.on (notesUnder 0))).after
          ⟨QueryContext.empty.declare "x" (notesUnder 1), .zero⟩
        let again := (q.evaluate notesStore (.on (notesUnder 0))).run
          ⟨first.context.declare "x" (notesUnder 2), first.counts⟩
        ((again.2.context.optimizer? 2).map fun state =>
            (state.stats.cacheHits, verdict notesStore (some (notesUnder 2)) state.optimizables),
          again.1.map Sequence.toItems,
          ((q.evaluate notesStore (.on (notesUnder 0))).result
            ⟨QueryContext.empty.declare "x" (notesUnder 2), .zero⟩).map Sequence.toItems)) =
      .ok (some (1, .ok false), .ok [], .ok [.node ⟨0, ⟨[1]⟩⟩]) := by
    decide +kernel
  obtain ⟨q, hq, hstate⟩ := map_eq_ok.1 hcounted
  obtain ⟨hoptimizer, houtcomes⟩ := Prod.mk.inj hstate
  obtain ⟨houtcome, hafresh⟩ := Prod.mk.inj houtcomes
  obtain ⟨state, hoptimizer, hsays⟩ := Option.map_eq_some_iff.1 hoptimizer
  obtain ⟨hhits, hverdict⟩ := Prod.mk.inj hsays
  exact ⟨q, hq, _, _, _, state, rfl, rfl, hoptimizer, hhits, hverdict, houtcome, hafresh⟩

end CompiledQuery
end IndexedXml
