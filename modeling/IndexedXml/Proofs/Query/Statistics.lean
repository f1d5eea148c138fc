/-
# Statistics of optimizers

An optimizer counts its evaluations, what came of them and where verdicts came from, and keeps the
rounds of its last narrowing.  Counting happens at several points of an evaluation, and a failure
may come between any two of them.  The counts add up all the same: what is kept for a pragma
changes as a whole, by a judgement without more when narrowing fails, and otherwise by a judgement
and either a fallback or a narrowing (`Optimizer.Accounts`).  So what is kept adds up in every
context that has been used for a query (`CompiledQuery.statistics_add_up`).

Whether an evaluation failed within a round of narrowing is told by handing the failure over: it
has not, if it makes no difference what else is done there (`CompiledQuery.NarrowsThrough`).
-/

import IndexedXml.Proofs.Query.Candidates
import IndexedXml.Proofs.Query.Handling

namespace IndexedXml

open Evaluation

/-! ### The optimizer round by round -/

/-- Where the rounds of narrowing come from, for the number of a pragma, what is kept for it, and a
judgement. -/
abbrev Narrower := ExprId → OptimizeState → Optimizer.Judgement → Evaluation (List NarrowingRound)

namespace Optimizer

/-- The rounds in which the optimizer narrows. -/
def roundsOf (s : Store) : Narrower := fun _ state j => do
  let context ← orFail (j.working.getD .empty).toShared
  Narrowing.rounds s state.contextStep context.set state.optimizables

/-- Evaluates for what rounds of narrowing leave. -/
def evaluateNarrowed (s : Store) (id : ExprId) (state : OptimizeState)
    (body : Focus → Evaluation Sequence) (j : Judgement) (rounds : List NarrowingRound) :
    Evaluation Sequence := do
  update (·.updateOptimizer id (countNarrowing s j.given rounds))
  let candidates := Narrowing.candidates rounds
  match state.contextStep with
  | none => body (.on (.ofSet candidates))
  | some step =>
    let narrowed := j.given.map fun o => .ofSet (o.set.filterDocuments candidates)
    preloading step.id candidates (body ⟨narrowed, none⟩)

/-- **The optimizer with rounds of narrowing from elsewhere.** -/
def evaluateThrough (rounds : Narrower) (s : Store) : Strategy := fun id body focus => do
  match (← queryContext).optimizer? id with
  | none => body focus
  | some state =>
    let context := contextOf s focus
    let j ← judge s state context
    update (·.updateOptimizer id (countJudgement j))
    if j.optimize then do
      let rounds ← rounds id state j
      evaluateNarrowed s id state body j rounds
    else fallBack id body focus context j

theorem evaluateThrough_roundsOf (s : Store) : evaluateThrough (roundsOf s) s = evaluate s := by
  funext id body focus
  refine bind_congr fun c => ?_
  cases c.optimizer? id with
  | none => rfl
  | some state =>
    refine bind_congr fun j => bind_congr fun _ => ?_
    split_ifs
    · exact bind_assoc _ _ _
    · rfl

/-- **Where narrowing fails for a pragma,** it is left to another way to find rounds. -/
def recoveringAt (id : ExprId) (otherwise : Evaluation (List NarrowingRound)) (s : Store) :
    Narrower := fun id' state j =>
  if id' = id then tryCatch (roundsOf s id' state j) fun _ => otherwise else roundsOf s id' state j

end Optimizer

/-! ### Rounds of narrowing -/

namespace Narrowing

/-- **Later candidates are among earlier ones,** and rounds belong to conditions in order. -/
structure Descends (optimizables : List Optimizable) (rounds : List NarrowingRound) : Prop where
  ids : rounds.map NarrowingRound.id = optimizables.map Optimizable.id
  chain : rounds.Pairwise fun earlier later => ∀ n ∈ later.ancestors, n ∈ earlier.ancestors

variable {s : Store} {r : Run}

theorem id_of_round {step : Option ContextStep} {within : Bool} {o : Optimizable}
    {context : NodeSet} {first : NarrowingRound}
    (h : (round s step within o context).result r = .ok first) : first.id = o.id := by
  unfold round at h
  rw [result_bind] at h
  obtain ⟨selection, -, h⟩ := bind_eq_ok.1 h
  rw [result_bind] at h
  obtain ⟨ancestors, -, h⟩ := bind_eq_ok.1 h
  exact congrArg NarrowingRound.id (Except.ok.inj h).symm

/-- Without a context step the candidates of a round are among those before it. -/
theorem ancestors_subset_of_round {within : Bool} {o : Optimizable} {context : NodeSet}
    {first : NarrowingRound} (h : (round s none within o context).result r = .ok first) :
    ∀ n ∈ first.ancestors, n ∈ context := by
  unfold round at h
  rw [result_bind] at h
  obtain ⟨selection, -, h⟩ := bind_eq_ok.1 h
  rw [result_bind] at h
  obtain ⟨ancestors, habove, h⟩ := bind_eq_ok.1 h
  obtain rfl := Except.ok.inj h
  unfold candidatesAbove at habove
  split_ifs at habove with hempty
  · obtain rfl := Except.ok.inj habove
    exact fun n hn => absurd hn (NodeSet.isEmpty_iff.1 hempty n)
  · obtain rfl := Except.ok.inj habove
    exact fun n hn => (NodeSet.mem_filter.1 hn).1

/-- What a round and the rounds after it have found. -/
theorem exists_of_first {within : Bool} {step : Option ContextStep} {o : Optimizable}
    {rest : List Optimizable} {context : NodeSet} {r : Run} {rounds : List NarrowingRound}
    (h : (do
      let first ← round s step within o context
      let later ← laterRounds s first.ancestors rest
      pure (first :: later) : Evaluation (List NarrowingRound)).result r = .ok rounds) :
    ∃ first later r', (round s step within o context).result r = .ok first ∧
      (laterRounds s first.ancestors rest).result r' = .ok later ∧ rounds = first :: later := by
  rw [result_bind] at h
  obtain ⟨first, hfirst, h⟩ := bind_eq_ok.1 h
  rw [result_bind] at h
  obtain ⟨later, hlater, h⟩ := bind_eq_ok.1 h
  exact ⟨first, later, _, hfirst, hlater, (Except.ok.inj h).symm⟩

/-- A round comes before those that start from its candidates. -/
theorem Descends.cons {o : Optimizable} {rest : List Optimizable} {first : NarrowingRound}
    {later : List NarrowingRound} (h : Descends rest later) (hid : first.id = o.id)
    (hwithin : ∀ round ∈ later, ∀ n ∈ round.ancestors, n ∈ first.ancestors) :
    Descends (o :: rest) (first :: later) where
  ids := by rw [List.map_cons, List.map_cons, hid, h.ids]
  chain := List.pairwise_cons.2 ⟨hwithin, h.chain⟩

theorem descends_laterRounds (optimizables : List Optimizable) :
    ∀ {context : NodeSet} {r : Run} {rounds : List NarrowingRound},
      (laterRounds s context optimizables).result r = .ok rounds →
        Descends optimizables rounds ∧ ∀ later ∈ rounds, ∀ n ∈ later.ancestors, n ∈ context := by
  induction optimizables with
  | nil =>
    intro context r rounds h
    obtain rfl := Except.ok.inj h
    exact ⟨⟨rfl, .nil⟩, fun _ h => nomatch h⟩
  | cons o rest ih =>
    intro context r rounds h
    obtain ⟨first, later, _, hfirst, hlater, rfl⟩ := exists_of_first h
    obtain ⟨hdescends, hwithin⟩ := ih hlater
    have hsub := ancestors_subset_of_round hfirst
    exact ⟨hdescends.cons (id_of_round hfirst) hwithin, List.forall_mem_cons.2
      ⟨hsub, fun round hround n hn => hsub n (hwithin round hround n hn)⟩⟩

/-- **The rounds of narrowing descend.** -/
theorem descends_rounds {step : Option ContextStep} {context : NodeSet}
    {optimizables : List Optimizable} {rounds : List NarrowingRound}
    (h : (Narrowing.rounds s step context optimizables).result r = .ok rounds) :
    Descends optimizables rounds := by
  cases optimizables with
  | nil =>
    obtain rfl := Except.ok.inj h
    exact ⟨rfl, .nil⟩
  | cons o rest =>
    obtain ⟨first, later, _, hfirst, hlater, rfl⟩ := exists_of_first h
    obtain ⟨hdescends, hwithin⟩ := descends_laterRounds rest hlater
    exact hdescends.cons (id_of_round hfirst) hwithin

theorem descends_roundsOf {id : ExprId} {state : OptimizeState} {j : Optimizer.Judgement}
    {rounds : List NarrowingRound}
    (h : (Optimizer.roundsOf s id state j).result r = .ok rounds) :
    Descends state.optimizables rounds := by
  unfold Optimizer.roundsOf at h
  rw [result_bind] at h
  obtain ⟨context, -, h⟩ := bind_eq_ok.1 h
  exact descends_rounds h

theorem Descends.length_eq {optimizables : List Optimizable} {rounds : List NarrowingRound}
    (h : Descends optimizables rounds) : rounds.length = optimizables.length := by
  rw [← List.length_map (f := NarrowingRound.id), h.ids, List.length_map]

end Narrowing

/-! ### What is kept for a pragma -/

/-- **What an optimizer keeps adds up,** given what it has found out in the first place. -/
structure OptimizeState.AddsUp (state found : OptimizeState) : Prop where
  optimizables : state.optimizables = found.optimizables
  /-- Only positive verdicts are kept. -/
  positive : ∀ cached, state.cache = some cached → cached.optimize = true
  /-- No evaluation is both optimized and not. -/
  outcomes : state.stats.optimized + state.stats.fallbacks ≤ state.stats.evaluations
  /-- No verdict is both kept from the last time and computed. -/
  verdicts : state.stats.cacheHits + state.stats.verdicts ≤ state.stats.evaluations
  /-- A verdict that is kept is no reason to fall back. -/
  hits : state.stats.cacheHits + state.stats.fallbacks ≤ state.stats.evaluations
  /-- Narrowing looks each condition up once. -/
  preSelections : state.stats.preSelections = state.stats.optimized * found.optimizables.length
  /-- The rounds that are kept are those of a narrowing. -/
  trace : 0 < state.stats.optimized → Narrowing.Descends found.optimizables state.trace

/-- Every evaluation is either optimized or not. -/
def OptimizeState.IsBalanced (state : OptimizeState) : Prop :=
  state.stats.optimized + state.stats.fallbacks = state.stats.evaluations

section

variable {state found : OptimizeState} {s : Store} {context : Option Sequence} {r : Run}
  {j : Optimizer.Judgement}

theorem addsUp_found (enabled : Bool) (body : Expr) :
    (Pragma.found enabled body).AddsUp (Pragma.found enabled body) := by
  cases enabled <;>
    exact ⟨rfl, fun _ h => (nomatch h), Nat.le_refl 0, Nat.le_refl 0, Nat.le_refl 0,
      (Nat.zero_mul _).symm, fun h => absurd h (Nat.lt_irrefl 0)⟩

theorem isBalanced_found (enabled : Bool) (body : Expr) :
    (Pragma.found enabled body).IsBalanced := by
  cases enabled <;> rfl

theorem OptimizeState.AddsUp.reset (h : state.AddsUp found) : state.reset.AddsUp found :=
  { h with positive := fun _ h => nomatch h }

/-- A verdict is kept from the last time or computed, or there is none. -/
theorem toNat_add_le_of_judge (hj : (Optimizer.judge s state context).result r = .ok j) :
    j.cacheHit.toNat + j.computed.toNat ≤ 1 := by
  rcases eq_of_judge hj with rfl | ⟨working, optimize, ⟨-, rfl⟩ | ⟨-, rfl⟩⟩
  · exact Nat.zero_le 1
  · exact Nat.le_refl 1
  · exact Nat.le_refl 1

/-- A judgement alone, as when narrowing fails. -/
theorem OptimizeState.AddsUp.countJudgement (h : state.AddsUp found)
    (hj : (Optimizer.judge s state context).result r = .ok j) :
    (Optimizer.countJudgement j state).AddsUp found := by
  have hjudged := toNat_add_le_of_judge hj
  have houtcomes := h.outcomes
  have hverdicts := h.verdicts
  have hhits := h.hits
  refine ⟨h.optimizables, h.positive, ?_, ?_, ?_, h.preSelections, h.trace⟩ <;>
  · dsimp only [Optimizer.countJudgement]
    omega

/-- A judgement and a fallback. -/
theorem OptimizeState.AddsUp.countFallback (h : state.AddsUp found)
    (hj : (Optimizer.judge s state context).result r = .ok j) (hnot : j.optimize = false) :
    (Optimizer.countFallback (Optimizer.countJudgement j state)).AddsUp found := by
  have hjudged := toNat_add_le_of_judge hj
  have hmiss : j.cacheHit = false := by
    cases hhit : j.cacheHit with
    | false => rfl
    | true => exact absurd (optimize_of_cacheHit h.positive hj hhit) (hnot ▸ Bool.false_ne_true)
  have houtcomes := h.outcomes
  have hverdicts := h.verdicts
  have hhits := h.hits
  refine ⟨h.optimizables, h.positive, ?_, ?_, ?_, h.preSelections, h.trace⟩ <;>
  · dsimp only [Optimizer.countFallback, Optimizer.countJudgement]
    rw [hmiss] at *
    simp only [Bool.toNat_false] at *
    omega

/-- A judgement and a narrowing. -/
theorem OptimizeState.AddsUp.countNarrowing (h : state.AddsUp found)
    (hj : (Optimizer.judge s state context).result r = .ok j) {rounds : List NarrowingRound}
    (hrounds : Narrowing.Descends state.optimizables rounds) :
    (Optimizer.countNarrowing s j.given rounds (Optimizer.countJudgement j state)).AddsUp
      found := by
  have hjudged := h.countJudgement hj
  have houtcomes := h.outcomes
  have hpreSelections := h.preSelections
  rw [h.optimizables] at hrounds
  refine ⟨h.optimizables, ?_, ?_, hjudged.verdicts, hjudged.hits, ?_, fun _ => hrounds⟩
  · rintro cached hcached
    obtain ⟨shared, -, rfl⟩ := Option.map_eq_some_iff.1 hcached
    rfl
  · dsimp only [Optimizer.countNarrowing, Optimizer.countJudgement]
    omega
  · dsimp only [Optimizer.countNarrowing, Optimizer.countJudgement]
    rw [hpreSelections, hrounds.length_eq, Nat.add_mul, Nat.one_mul]

end

/-! ### Counting -/

/-- Something is so of what is kept for a pragma, if anything is. -/
def QueryContext.Tells (id : ExprId) (V : OptimizeState → Prop) (c : QueryContext) : Prop :=
  ∀ state, c.optimizer? id = some state → V state

/-- What is kept under a number is changed, and nothing that is kept under another one. -/
def QueryContext.Books (id : ExprId) (f : OptimizeState → OptimizeState) (c c' : QueryContext) :
    Prop :=
  ∀ other, c'.optimizer? other =
    if other = id then (c.optimizer? other).map f else c.optimizer? other

section

variable {id pragma : ExprId} {V : OptimizeState → Prop} {c c' c'' : QueryContext}
  {f g : OptimizeState → OptimizeState}

theorem QueryContext.Books.congr (h : c.Books id f c') (heq : c''.optimizers = c'.optimizers) :
    c.Books id f c'' := by
  intro other
  rw [← h other]
  exact congrArg (·.get? other) heq

theorem QueryContext.Books.trans (h : c.Books id f c') (h' : c'.Books id g c'') :
    c.Books id (fun state => g (f state)) c'' := by
  intro other
  rw [h' other, h other]
  split_ifs
  · exact Option.map_map _ _ _
  · rfl

theorem QueryContext.Books.tells (h : c.Books id f c')
    (hV : id = pragma → ∀ state, c.optimizer? pragma = some state → V state → V (f state)) :
    c.Tells pragma V → c'.Tells pragma V := by
  intro hc state hstate
  rw [h pragma] at hstate
  split_ifs at hstate with heq
  · obtain ⟨old, hold, rfl⟩ := Option.map_eq_some_iff.1 hstate
    exact hV heq.symm old hold (hc old hold)
  · exact hc state hstate

theorem QueryContext.Tells.congr (h : c.Tells id V) (heq : c'.optimizers = c.optimizers) :
    c'.Tells id V := fun state hstate =>
  h state ((congrArg (·.get? id) heq).symm.trans hstate)

/-- What a context tells it still tells. -/
abbrev QueryContext.KeepsTelling (id : ExprId) (V : OptimizeState → Prop) (c c' : QueryContext) :
    Prop :=
  c.Tells id V → c'.Tells id V

theorem allows_keepsTelling (id : ExprId) (V : OptimizeState → Prop) :
    Allows (QueryContext.KeepsTelling id V) where
  refl _ h := h
  trans h h' hc := h' (h hc)
  note c _ h := h.congr (QueryContext.optimizers_noteIndexUse c _)

theorem allows_sameOptimizers :
    Allows fun c c' : QueryContext => c'.optimizers = c.optimizers where
  refl _ := rfl
  trans h h' := h'.trans h
  note c id := QueryContext.optimizers_noteIndexUse c id

end

namespace Optimizer

/-- **What is kept for a pragma changes as a whole:** by a judgement when narrowing fails, and
otherwise by a judgement and a fallback or a narrowing. -/
structure Accounts (rounds : Narrower) (s : Store) (pragma : ExprId) (V : OptimizeState → Prop) :
    Prop where
  failed : ∀ {state context r j r' e}, V state → (judge s state context).result r = .ok j →
    (rounds pragma state j).result r' = .error e → V (countJudgement j state)
  fellBack : ∀ {state context r j}, V state → (judge s state context).result r = .ok j →
    j.optimize = false → V (countFallback (countJudgement j state))
  narrowed : ∀ {state context r j r' found}, V state → (judge s state context).result r = .ok j →
    (rounds pragma state j).result r' = .ok found →
      V (countNarrowing s j.given found (countJudgement j state))

variable {rounds : Narrower} {s : Store} {pragma : ExprId} {V : OptimizeState → Prop}

/-- Below a narrowing. -/
theorem moves_evaluateNarrowed {body : Focus → Evaluation Sequence}
    (hbody : ∀ focus, Moves (QueryContext.KeepsTelling pragma V) (body focus)) (id : ExprId)
    (state : OptimizeState) (j : Judgement) (found : List NarrowingRound) (r : Run) :
    QueryContext.KeepsTelling pragma V
      (r.context.updateOptimizer id (countNarrowing s j.given found))
      ((evaluateNarrowed s id state body j found).after r).context := by
  let counted : Run :=
    { r with context := r.context.updateOptimizer id (countNarrowing s j.given found) }
  change QueryContext.KeepsTelling pragma V counted.context
    (Evaluation.after (match state.contextStep with
      | none => body (.on (.ofSet (Narrowing.candidates found)))
      | some step => preloading step.id (Narrowing.candidates found)
        (body ⟨j.given.map fun o => .ofSet (o.set.filterDocuments (Narrowing.candidates found)),
          none⟩)) counted).context
  cases state.contextStep with
  | none => exact hbody _ counted
  | some step =>
    exact (allows_keepsTelling pragma V).moves_preloading (fun _ hc => hc) (fun _ hc => hc)
      (hbody _) counted

/-- **The optimizer keeps an account.**  What is so of what is kept for a pragma remains so, if
what is below the optimizer keeps to that. -/
theorem moves_evaluateThrough (h : Accounts rounds s pragma V)
    (hrounds : ∀ id state j, Moves (fun c c' => c'.optimizers = c.optimizers) (rounds id state j))
    {body : Focus → Evaluation Sequence}
    (hbody : ∀ focus, Moves (QueryContext.KeepsTelling pragma V) (body focus)) (id : ExprId)
    (focus : Focus) :
    Moves (QueryContext.KeepsTelling pragma V) (evaluateThrough rounds s id body focus) := by
  intro r
  have hcases : (evaluateThrough rounds s id body focus).after r =
      ((match r.context.optimizer? id with
        | none => body focus
        | some state => judge s state (contextOf s focus) >>= fun j =>
          update (·.updateOptimizer id (countJudgement j)) >>= fun _ =>
            if j.optimize then rounds id state j >>= evaluateNarrowed s id state body j
            else fallBack id body focus (contextOf s focus) j : Evaluation Sequence)).after r := rfl
  rw [hcases]
  cases hstate : r.context.optimizer? id with
  | none => exact hbody focus r
  | some state =>
    dsimp only
    rw [after_bind, after_judge]
    cases hj : (judge s state (contextOf s focus)).result r with
    | error e => exact fun hc => hc
    | ok j =>
      have hown : ∀ {f : OptimizeState → OptimizeState}, (id = pragma → V state → V (f state)) →
          id = pragma → ∀ own, r.context.optimizer? pragma = some own → V own → V (f own) := by
        rintro f hf rfl own hown hV
        obtain rfl := Option.some.inj (hown.symm.trans hstate)
        exact hf rfl hV
      let judged : Run := { r with context := r.context.updateOptimizer id (countJudgement j) }
      have hjudged : r.context.Books id (countJudgement j) judged.context :=
        optimizer?_updateOptimizer _ _ _
      change QueryContext.KeepsTelling pragma V r.context
        (Evaluation.after (if j.optimize then
            rounds id state j >>= evaluateNarrowed s id state body j
          else fallBack id body focus (contextOf s focus) j) judged).context
      cases hoptimize : j.optimize with
      | false =>
        rw [if_neg Bool.false_ne_true]
        have hbooks := hjudged.trans (optimizer?_updateOptimizer judged.context id countFallback)
        refine fun hc => hbody _
          { judged with context := judged.context.updateOptimizer id countFallback }
          (hbooks.tells (hown ?_) hc)
        exact fun _ hV => h.fellBack hV hj hoptimize
      | true =>
        rw [if_pos rfl, after_bind]
        have hnarrowing := hjudged.congr (hrounds id state j judged)
        cases hfound : (rounds id state j).result judged with
        | error e =>
          refine hnarrowing.tells (hown ?_)
          rintro rfl hV
          exact h.failed hV hj hfound
        | ok found =>
          have hbooks := hnarrowing.trans (optimizer?_updateOptimizer
            ((rounds id state j).after judged).context id (countNarrowing s j.given found))
          refine fun hc =>
            moves_evaluateNarrowed hbody id state j found _ (hbooks.tells (hown ?_) hc)
          rintro rfl hV
          exact h.narrowed hV hj hfound

end Optimizer

/-! ### Evaluations -/

section

variable {rounds : Narrower} {s : Store} {whole : Expr} {p : Pragma} {enabled : Bool} {body : Expr}
  {V : OptimizeState → Prop}

/-- A pragma is activated with what it finds out. -/
theorem moves_activate (hwhole : whole.numbers.Nodup) (hp : p.Optimizes whole enabled body)
    (hV : V (Pragma.found enabled body)) {p' : Pragma} {body' : Expr}
    (hp' : ∀ explicit enabled contextId, p'.kind = .optimize explicit enabled contextId →
      p'.Optimizes whole enabled body') :
    Moves (QueryContext.KeepsTelling p.id V) (activate body' p') := by
  have hallows := allows_keepsTelling p.id V
  have henter : Moves (QueryContext.KeepsTelling p.id V) (update (·.enter p'.id .activated)) :=
    .update fun _ hc => hc
  cases hkind : p'.kind with
  | optimize explicit enabled' contextId =>
    rw [activate_optimize hkind]
    refine hallows.moves_bind (.update fun c hc => ?_) fun _ => henter
    unfold activated
    cases hstate : c.optimizer? p'.id with
    | some state => exact hc
    | none =>
      intro state hset
      have hget : (c.optimizers.put p'.id (Pragma.found enabled' body')).get? p.id = some state :=
        hset
      rw [Table.get?_put] at hget
      split_ifs at hget with hid
      · obtain ⟨rfl, rfl⟩ := hp.unique hwhole (hp' _ _ _ hkind) hid
        exact Option.some.inj hget ▸ hV
      · exact hc state hget
  | noIndex =>
    rw [activate_noIndex hkind]
    exact henter
  | forceIndexUse =>
    rw [activate_forceIndexUse hkind]
    exact hallows.moves_bind (.update fun _ hc => hc) fun _ => henter

/-- **An evaluation keeps an account,** however it ends. -/
theorem moves_evaluateBy (hwhole : whole.numbers.Nodup) (hp : p.Optimizes whole enabled body)
    (hV : V (Pragma.found enabled body)) (h : Optimizer.Accounts rounds s p.id V)
    (hrounds : ∀ id state j, Moves (fun c c' => c'.optimizers = c.optimizers) (rounds id state j))
    (focus : Focus) :
    Moves (QueryContext.KeepsTelling p.id V)
      (whole.evaluateBy s (Optimizer.evaluateThrough rounds s) focus) := by
  refine (allows_keepsTelling p.id V).moves_evaluateBy whole (fun _ _ _ hc => hc) ?_
    (fun id evaluate hevaluate => Optimizer.moves_evaluateThrough h hrounds hevaluate id) focus
  exact fun id ps inner hpart p' hp' => moves_activate hwhole hp hV
    fun explicit enabled contextId hkind => ⟨⟨id, ps, hpart, hp'⟩, explicit, contextId, hkind⟩

end

/-! ### What is counted -/

namespace Optimizer

variable {s : Store} {id : ExprId} {found : OptimizeState}

theorem moves_roundsOf {R : QueryContext → QueryContext → Prop} (h : Allows R) (id : ExprId)
    (state : OptimizeState) (j : Judgement) : Moves R (roundsOf s id state j) :=
  h.moves_bind (fun r => h.refl r.context) fun _ => h.moves_rounds s _ _ _

/-- **What the optimizer keeps adds up.** -/
theorem accounts_addsUp : Accounts (roundsOf s) s id (OptimizeState.AddsUp · found) where
  failed hV hj _ := hV.countJudgement hj
  fellBack hV hj hnot := hV.countFallback hj hnot
  narrowed hV hj hfound := hV.countNarrowing hj (Narrowing.descends_roundsOf hfound)

variable {otherwise : Evaluation (List NarrowingRound)}

theorem run_tryCatch {α : Type} (m : Evaluation α) (handle : QueryError → Evaluation α) (r : Run) :
    (tryCatch m handle).run r = match m.result r with
      | .ok a => (.ok a, m.after r)
      | .error e => (handle e).run (m.after r) := by
  unfold result after
  simp only [tryCatch, tryCatchThe, MonadExceptOf.tryCatch, ExceptT.tryCatch, ExceptT.run,
    ExceptT.mk, bind, StateT.bind]
  rcases m r with ⟨x, r'⟩
  cases x <;> rfl

variable (id otherwise) in
/-- Narrowing that does not fail is left to nothing else. -/
theorem run_recoveringAt_of_ok {id' : ExprId} {state : OptimizeState} {j : Judgement} {r : Run}
    {rounds : List NarrowingRound} (h : (roundsOf s id' state j).result r = .ok rounds) :
    (recoveringAt id otherwise s id' state j).run r = (roundsOf s id' state j).run r := by
  unfold recoveringAt
  split_ifs
  · rw [run_tryCatch, h]
    exact Prod.ext h.symm rfl
  · rfl

variable (s id) in
/-- Narrowing for which there is something else does not fail. -/
theorem result_recoveringAt (state : OptimizeState) (j : Judgement) (r : Run) :
    ∃ rounds, (recoveringAt id (pure []) s id state j).result r = .ok rounds := by
  have hrun : (recoveringAt id (pure []) s id state j).run r =
      (tryCatch (roundsOf s id state j) fun _ => pure []).run r := by
    unfold recoveringAt
    rw [if_pos rfl]
  rw [run_tryCatch] at hrun
  cases hrounds : (roundsOf s id state j).result r with
  | ok rounds =>
    rw [hrounds] at hrun
    exact ⟨rounds, congrArg Prod.fst hrun⟩
  | error e =>
    rw [hrounds] at hrun
    exact ⟨[], congrArg Prod.fst hrun⟩

theorem moves_recoveringAt {R : QueryContext → QueryContext → Prop} (h : Allows R)
    (hotherwise : Moves R otherwise) (id' : ExprId) (state : OptimizeState) (j : Judgement) :
    Moves R (recoveringAt id otherwise s id' state j) := by
  have hrounds := moves_roundsOf (s := s) h id' state j
  unfold recoveringAt
  split_ifs
  · intro r
    rw [after, run_tryCatch]
    cases (roundsOf s id' state j).result r with
    | ok rounds => exact hrounds r
    | error e => exact h.trans (hrounds r) (hotherwise _)
  · exact hrounds

/-- **Where narrowing does not fail, the counts are balanced.** -/
theorem accounts_isBalanced :
    Accounts (recoveringAt id (pure []) s) s id OptimizeState.IsBalanced where
  failed {state _ _ j r' _} _ _ hfailed := by
    obtain ⟨rounds, hrounds⟩ := result_recoveringAt s id state j r'
    cases hrounds.symm.trans hfailed
  fellBack {state _ _ _} hV _ _ := by
    unfold OptimizeState.IsBalanced at hV ⊢
    dsimp only [countFallback, countJudgement]
    omega
  narrowed {state _ _ _ _ _} hV _ _ := by
    unfold OptimizeState.IsBalanced at hV ⊢
    dsimp only [countNarrowing, countJudgement]
    omega

end Optimizer

/-! ### Evaluations that narrow through -/

/-- The second computation runs as the first one does, unless the first one fails. -/
def Evaluation.RunsUnlessFailing {α : Type} (m m' : Evaluation α) : Prop :=
  ∀ r, (∃ e, m.result r = .error e) ∨ m'.result r = m.result r ∧ m'.after r = m.after r

namespace Evaluation.RunsUnlessFailing

variable {α β : Type}

theorem refl (m : Evaluation α) : RunsUnlessFailing m m := fun _ => .inr ⟨rfl, rfl⟩

theorem bind {m m' : Evaluation α} {f f' : α → Evaluation β} (hm : RunsUnlessFailing m m')
    (hf : ∀ a, RunsUnlessFailing (f a) (f' a)) : RunsUnlessFailing (m >>= f) (m' >>= f') := by
  intro r
  rw [result_bind, result_bind, after_bind, after_bind]
  cases ha : m.result r with
  | error e => exact .inl ⟨e, rfl⟩
  | ok a =>
    rcases hm r with ⟨e, he⟩ | ⟨hresult, hafter⟩
    · cases ha.symm.trans he
    · rw [hresult, hafter, ha]
      exact hf a (m.after r)

theorem composes : Composes fun _ m m' => RunsUnlessFailing m m' where
  pure a := refl (pure a)
  orFail x := refl (orFail x)
  queryContext := refl queryContext
  bind := bind

theorem preloading {step : ExprId} {candidates : NodeSet} {m m' : Evaluation α}
    (h : RunsUnlessFailing m m') :
    RunsUnlessFailing (preloading step candidates m) (preloading step candidates m') := by
  intro r
  refine (h { r with context := r.context.preload step candidates }).imp_right fun hrun =>
    ⟨hrun.1, ?_⟩
  exact congrArg (fun run => { run with context := run.context.unload step }) hrun.2

end Evaluation.RunsUnlessFailing

section

variable {s : Store} {id : ExprId} {otherwise : Evaluation (List NarrowingRound)}
  {body body' : Focus → Evaluation Sequence}

open RunsUnlessFailing (composes)

theorem runsUnlessFailing_roundsOf (id' : ExprId) (state : OptimizeState)
    (j : Optimizer.Judgement) :
    RunsUnlessFailing (Optimizer.roundsOf s id' state j)
      (Optimizer.recoveringAt id otherwise s id' state j) := by
  intro r
  cases hrounds : (Optimizer.roundsOf s id' state j).result r with
  | error e => exact .inl ⟨e, rfl⟩
  | ok rounds =>
    have hrun := Optimizer.run_recoveringAt_of_ok id otherwise hrounds
    exact .inr ⟨(congrArg Prod.fst hrun).trans hrounds, congrArg Prod.snd hrun⟩

/-- With something else where narrowing fails, the optimizer is the same unless it fails. -/
theorem runsUnlessFailing_evaluateThrough
    (hbody : ∀ focus, RunsUnlessFailing (body focus) (body' focus)) (id' : ExprId) (focus : Focus) :
    RunsUnlessFailing (Optimizer.evaluateThrough (Optimizer.roundsOf s) s id' body focus)
      (Optimizer.evaluateThrough (Optimizer.recoveringAt id otherwise s) s id' body' focus) := by
  refine composes.bind composes.queryContext fun c => ?_
  cases c.optimizer? id' with
  | none => exact hbody focus
  | some state =>
    refine composes.bind (.refl _) fun j => composes.bind (.refl _) fun _ => ?_
    split_ifs
    · refine composes.bind (runsUnlessFailing_roundsOf id' state j) fun rounds => ?_
      refine composes.bind (.refl _) fun _ => ?_
      dsimp only
      cases state.contextStep with
      | none => exact hbody _
      | some step => exact .preloading (hbody _)
    · exact composes.bind (.refl _) fun _ => hbody _

variable (s id otherwise) in
theorem runsUnlessFailing_evaluateBy (e : Expr) (focus : Focus) :
    RunsUnlessFailing (e.evaluate s focus)
      (e.evaluateBy s (Optimizer.evaluateThrough (Optimizer.recoveringAt id otherwise s) s)
        focus) := by
  rw [← Expr.evaluateBy_optimizer, ← Optimizer.evaluateThrough_roundsOf]
  exact Expr.related_evaluateBy _ _ composes e (fun _ _ => .refl _) (fun _ _ _ => .refl _)
    (fun _ _ => .refl _) (fun _ _ _ _ _ _ => .refl _)
    (fun id _ _ hbody => runsUnlessFailing_evaluateThrough hbody id) focus

end

namespace CompiledQuery

/-- **An evaluation does not fail within a round of narrowing** for a pragma: it makes no difference
what else is done where one fails. -/
def NarrowsThrough (q : CompiledQuery) (pragma : ExprId) (o : Occasion) : Prop :=
  ∀ otherwise : Evaluation (List NarrowingRound),
    (q.root.evaluateBy o.store
        (Optimizer.evaluateThrough (Optimizer.recoveringAt pragma otherwise o.store) o.store)
        o.focus).run o.run =
      (q.evaluate o.store o.focus).run o.run

/-- An evaluation that does not fail does not fail within a round of narrowing. -/
theorem narrowsThrough_of_ok {q : CompiledQuery} {o : Occasion} {value : Sequence}
    (h : (q.evaluate o.store o.focus).result o.run = .ok value) (pragma : ExprId) :
    q.NarrowsThrough pragma o := by
  intro otherwise
  rcases runsUnlessFailing_evaluateBy o.store pragma otherwise q.root o.focus o.run with
    ⟨e, he⟩ | ⟨hresult, hafter⟩
  · cases h.symm.trans he
  · exact Prod.ext hresult hafter

variable {source : String} {config : Configuration} {q : CompiledQuery} {past : List Occasion}
  {c : QueryContext} {p : Pragma} {enabled : Bool} {body : Expr}

/-- **What is so of what is kept for a pragma,** in every context that has been used for a query. -/
theorem tells_of_hasSeen {V : OptimizeState → Prop} (hc : c.HasSeen q past)
    (hreset : ∀ state, V state → V state.reset)
    (hevaluate : ∀ o ∈ past, o.run.context.Tells p.id V →
      ((q.evaluate o.store o.focus).after o.run).context.Tells p.id V) :
    c.Tells p.id V := by
  induction hc with
  | new => exact fun _ h => nomatch h
  | declare name value _ ih => exact (ih hevaluate).congr rfl
  | reset _ ih =>
    intro state hstate
    have hget : (Table.mapValues _ OptimizeState.reset).get? p.id = some state := hstate
    rw [Table.get?_mapValues, Option.map_eq_some_iff] at hget
    obtain ⟨old, hold, rfl⟩ := hget
    exact hreset old (ih hevaluate old hold)
  | evaluate s focus counts _ ih =>
    obtain ⟨hlast, hearlier⟩ := List.forall_mem_cons.1 hevaluate
    exact hlast (ih hearlier)

/-- **What optimizers count adds up.**  A query context has been used for a compiled query only: for
any number of evaluations, on whatever stores and however they ended, declarations of variables and
resets.  What it keeps for a pragma `optimize` adds up, and if none of the evaluations failed within
a round of narrowing for the pragma, each that got as far as a verdict has been either optimized or
not. -/
theorem statistics_add_up (hq : compile source config = .ok q) (hc : c.HasSeen q past)
    (hp : p.Optimizes q.root enabled body) {state : OptimizeState}
    (hstate : c.optimizer? p.id = some state) :
    state.AddsUp (Pragma.found enabled body) ∧
      ((∀ o ∈ past, q.NarrowsThrough p.id o) →
        state.stats.optimized + state.stats.fallbacks = state.stats.evaluations) := by
  have hwhole := nodup_numbers hq
  constructor
  · refine tells_of_hasSeen hc (V := (OptimizeState.AddsUp · (Pragma.found enabled body)))
      (fun _ h => h.reset) (fun o _ => ?_) state hstate
    have hmoves := moves_evaluateBy (V := (OptimizeState.AddsUp · (Pragma.found enabled body)))
      hwhole hp (addsUp_found enabled body) (Optimizer.accounts_addsUp (s := o.store))
      (Optimizer.moves_roundsOf allows_sameOptimizers) o.focus
    rw [Optimizer.evaluateThrough_roundsOf, Expr.evaluateBy_optimizer] at hmoves
    exact hmoves o.run
  · intro hthrough
    refine tells_of_hasSeen hc (V := OptimizeState.IsBalanced) (fun _ h => h) (fun o ho => ?_)
      state hstate
    have hmoves := moves_evaluateBy hwhole hp (isBalanced_found enabled body)
      (Optimizer.accounts_isBalanced (s := o.store))
      (Optimizer.moves_recoveringAt allows_sameOptimizers fun _ => rfl) o.focus
    have hrun := congrArg Prod.snd (hthrough o ho (pure []))
    exact fun htells => (congrArg (fun run : Run => run.context.Tells p.id OptimizeState.IsBalanced)
      hrun).mp (hmoves o.run htells)

end CompiledQuery

/-! ### Books, again and again -/

/-- The query for the books with a title and an author, optimized. -/
def titledAndWrittenBooks : String :=
  "(# exist:optimize #) \x7b //book[title = 'Dune'][author = 'Herbert'] \x7d"

/-- The document of the book, in a list that no store has handed out. -/
def authorsList : Sequence := .items [.node (.document 0)]

namespace CompiledQuery

/-- What an evaluation of a query leaves behind that asks for books. -/
def afterBooks (q : CompiledQuery) (given : Sequence) (c : QueryContext) : QueryContext :=
  ((q.evaluate authorsStore (.on given)).after ⟨c, .zero⟩).context

/-- The query is evaluated twice for the same set and, after a reset, once for a list. -/
def afterBooksThrice (q : CompiledQuery) : QueryContext :=
  q.afterBooks authorsList
    (q.afterBooks (.nodes authorsLibrary) (q.afterBooks (.nodes authorsLibrary) .empty)).reset

/-- The verdict is computed the first time and kept for the second one, and there is none on a
list.  Two conditions are narrowed by each time. -/
theorem statistics_add_up_afterBooksThrice : ∃ (q : CompiledQuery) (p : Pragma) (body : Expr)
    (past : List Occasion) (state : OptimizeState),
    compile titledAndWrittenBooks .standard = .ok q ∧ q.afterBooksThrice.HasSeen q past ∧
      p.Optimizes q.root true body ∧ q.afterBooksThrice.optimizer? p.id = some state ∧
      (∀ o ∈ past, q.NarrowsThrough p.id o) ∧ state.stats = ⟨3, 2, 1, 1, 1, 4⟩ ∧
      state.AddsUp (Pragma.found true body) ∧
      state.stats.optimized + state.stats.fallbacks = state.stats.evaluations := by
  have hcounted : (compile titledAndWrittenBooks .standard).map (fun q =>
      let once := q.afterBooks (.nodes authorsLibrary) .empty
      let twice := q.afterBooks (.nodes authorsLibrary) once
      (q.root.pragmas.map fun p => (p.id, p.kind),
        (q.afterBooksThrice.optimizer? 2).map OptimizeState.stats,
        ((q.evaluate authorsStore (.on (.nodes authorsLibrary))).result ⟨.empty, .zero⟩).toBool,
        ((q.evaluate authorsStore (.on (.nodes authorsLibrary))).result ⟨once, .zero⟩).toBool,
        ((q.evaluate authorsStore (.on authorsList)).result ⟨twice.reset, .zero⟩).toBool)) =
      .ok ([(2, .optimize true true .none)], some ⟨3, 2, 1, 1, 1, 4⟩, true, true, true) := by
    decide +kernel
  obtain ⟨q, hq, hcounted⟩ := map_eq_ok.1 hcounted
  simp only [Prod.mk.injEq] at hcounted
  obtain ⟨hpragmas, hstats, hfirst, hsecond, hthird⟩ := hcounted
  obtain ⟨p, hp, hkind⟩ := List.mem_map.1 (hpragmas ▸ List.mem_singleton.2 rfl)
  obtain ⟨hid, hkind⟩ := Prod.mk.inj hkind
  obtain ⟨id, ps, body, hpart, hp⟩ := Expr.mem_pragmas.1 hp
  obtain ⟨state, hstate, hstats⟩ := Option.map_eq_some_iff.1 hstats
  rw [← hid] at hstate
  have hoptimizes : p.Optimizes q.root true body := ⟨⟨id, ps, hpart, hp⟩, true, .none, hkind⟩
  have hseen := (((QueryContext.HasSeen.new (q := q)).evaluate authorsStore
    (.on (.nodes authorsLibrary)) .zero).evaluate authorsStore (.on (.nodes authorsLibrary))
      .zero).reset.evaluate authorsStore (.on authorsList) .zero
  have hthrough : ∀ o : Occasion, ((q.evaluate o.store o.focus).result o.run).toBool = true →
      q.NarrowsThrough p.id o := by
    intro o ho
    obtain ⟨value, hvalue⟩ := toBool_eq_true.1 ho
    exact narrowsThrough_of_ok hvalue p.id
  have hpast := List.forall_mem_cons.2 ⟨hthrough ⟨_, _, _⟩ hthird, List.forall_mem_cons.2
    ⟨hthrough ⟨_, _, _⟩ hsecond, List.forall_mem_singleton.2 (hthrough ⟨_, _, _⟩ hfirst)⟩⟩
  obtain ⟨hadds, hbalanced⟩ := statistics_add_up hq hseen hoptimizes hstate
  exact ⟨q, p, body, _, state, hq, hseen, hoptimizes, hstate, hpast, hstats, hadds, hbalanced hpast⟩

end CompiledQuery
end IndexedXml
