/-
# Answers in a query context that is used again

A query context keeps verdicts, what optimizers have found out, candidates for steps, uses
of indexes and phases.  None of that shows in an answer.  However evaluations of a query,
changes of the store and resets follow one another, every evaluation answers as it would in
a new context with the same variables (`CompiledQuery.answers_eq_answersAfresh`).

Two contexts answer alike when what they keep is valid and they agree on candidates, and on
the uses of indexes that will be asked for (`AnswerAlike`).  Which uses those are depends on
the pragmas around an expression, so that the relation comes with a `Scope`.
-/

import IndexedXml.Proofs.Query.Agreement
import IndexedXml.Proofs.Query.Kept

namespace IndexedXml

open Evaluation

variable {whole : Expr} {s : Store} {sets : Nat → NodeSet} {bindings : List (String × Sequence)}
  {found state : OptimizeState} {c c' : QueryContext} {p : Pragma} {enabled : Bool} {body : Expr}
  {exact : Prop}

/-! ### Contexts that answer alike -/

/-- What two contexts have to agree on at some place of an evaluation. -/
structure Scope where
  /-- The conditions whose use of an index will be asked for. -/
  checked : ExprId → Prop
  /-- The steps that candidates may be prepared for. -/
  prepared : ExprId → Prop
  /-- The optimizers that have been activated. -/
  active : ExprId → Prop

/-- **A context that evaluation can start from:** it has the variables, and what it keeps
is valid. -/
structure Sound (whole : Expr) (s : Store) (sets : Nat → NodeSet)
    (bindings : List (String × Sequence)) (scope : Scope) (c : QueryContext) : Prop where
  bindings : c.bindings = bindings
  valid : c.Valid whole s sets
  active : ∀ id, scope.active id → c.optimizer? id ≠ none

/-- **Two contexts that answer alike:** both can be started from, and they agree on the
candidates prepared and on the uses of indexes that will be asked for. -/
structure AnswerAlike (whole : Expr) (s : Store) (sets : Nat → NodeSet)
    (bindings : List (String × Sequence)) (scope : Scope) (c c' : QueryContext) : Prop where
  left : Sound whole s sets bindings scope c
  right : Sound whole s sets bindings scope c'
  preloaded : ∀ id, c.preloaded.get? id = c'.preloaded.get? id
  prepared : ∀ id, c.preloaded.get? id ≠ none → scope.prepared id
  checked : ∀ id, scope.checked id → c.hasUsedIndex id = c'.hasUsedIndex id

/-- **Runs whose contexts answer alike.**  The counts do not matter, unless the runs are to
be exactly the same. -/
structure RunsAlike (exact : Prop) (whole : Expr) (s : Store) (sets : Nat → NodeSet)
    (bindings : List (String × Sequence)) (scope : Scope) (r r' : Run) : Prop where
  alike : AnswerAlike whole s sets bindings scope r.context r'.context
  same : exact → r = r'

variable {scope : Scope}

/-- Changes of the contexts on both sides, the same one where the runs are the same. -/
theorem alike_update {f f' : QueryContext → QueryContext} (hsame : exact → f = f')
    (halike : ∀ c c', AnswerAlike whole s sets bindings scope c c' →
      AnswerAlike whole s sets bindings scope (f c) (f' c')) :
    Alike (RunsAlike exact whole s sets bindings scope) (fun _ => True) (update f) (update f') :=
  .update fun _ _ h => ⟨halike _ _ h.alike, fun hexact => by rw [h.same hexact, hsame hexact]⟩

theorem Sound.noteIndexUse (h : Sound whole s sets bindings scope c) (id : ExprId) :
    Sound whole s sets bindings scope (c.noteIndexUse id) := by
  unfold QueryContext.noteIndexUse
  split_ifs
  · exact h
  · exact ⟨h.bindings, h.valid, h.active⟩

theorem AnswerAlike.noteIndexUse (h : AnswerAlike whole s sets bindings scope c c')
    (id : ExprId) :
    AnswerAlike whole s sets bindings scope (c.noteIndexUse id) (c'.noteIndexUse id) := by
  refine ⟨h.left.noteIndexUse id, h.right.noteIndexUse id, ?_, ?_, fun other hother => ?_⟩
  · rw [QueryContext.preloaded_noteIndexUse, QueryContext.preloaded_noteIndexUse]
    exact h.preloaded
  · rw [QueryContext.preloaded_noteIndexUse]
    exact h.prepared
  · rw [hasUsedIndex_noteIndexUse, hasUsedIndex_noteIndexUse, h.checked other hother]

/-- **Evaluation keeps contexts alike,** as long as the variables agree with the handles. -/
theorem steady_runsAlike (hbindings : ∀ entry ∈ bindings, entry.2.Agrees sets) (scope : Scope) :
    Steady (fun _ => True) (RunsAlike exact whole s sets bindings scope) (Sequence.Agrees sets) where
  count _ _ _ h := ⟨h.alike, fun hexact => by rw [h.same hexact]⟩
  note id _ _ h := ⟨h.alike.noteIndexUse id, fun hexact => by rw [h.same hexact]⟩
  value r r' h name := by
    rw [value_eq_valueIn, value_eq_valueIn, h.alike.left.bindings, h.alike.right.bindings]
    exact ⟨rfl, fun _ hv => agrees_of_valueIn hbindings hv⟩
  prepared _ _ h id _ := h.alike.preloaded id
  set := Sequence.agrees_ofSet sets
  items := Sequence.agrees_items sets

/-! ### Optimizing -/

theorem AnswerAlike.updateOptimizer (hwhole : whole.numbers.Nodup)
    (hp : p.Optimizes whole enabled body) {f f' : OptimizeState → OptimizeState}
    (hf : ∀ state, state.Valid s sets bindings (Pragma.found enabled body) →
      (f state).Valid s sets bindings (Pragma.found enabled body))
    (hf' : ∀ state, state.Valid s sets bindings (Pragma.found enabled body) →
      (f' state).Valid s sets bindings (Pragma.found enabled body))
    (h : AnswerAlike whole s sets bindings scope c c') :
    AnswerAlike whole s sets bindings scope (c.updateOptimizer p.id f)
      (c'.updateOptimizer p.id f') := by
  have hsound : ∀ {c : QueryContext} {f : OptimizeState → OptimizeState},
      (∀ state, state.Valid s sets bindings (Pragma.found enabled body) →
        (f state).Valid s sets bindings (Pragma.found enabled body)) →
      Sound whole s sets bindings scope c →
      Sound whole s sets bindings scope (c.updateOptimizer p.id f) := by
    intro c f hf h
    refine ⟨(c.bindings_updateOptimizer _ f).trans h.bindings, ?_, fun other hother => ?_⟩
    · exact h.valid.updateOptimizer hwhole hp (by rw [h.bindings]; exact hf)
    · exact optimizer?_updateOptimizer_ne_none (h.active other hother)
  refine ⟨hsound hf h.left, hsound hf' h.right, ?_, ?_, ?_⟩
  · rw [QueryContext.preloaded_updateOptimizer, QueryContext.preloaded_updateOptimizer]
    exact h.preloaded
  · rw [QueryContext.preloaded_updateOptimizer]
    exact h.prepared
  · unfold QueryContext.hasUsedIndex
    rw [QueryContext.usedIndexes_updateOptimizer, QueryContext.usedIndexes_updateOptimizer]
    exact h.checked

/-- The scope in which candidates may be prepared for one more step. -/
def Scope.prepare (scope : Scope) (step : ExprId) : Scope :=
  { scope with prepared := fun id => id = step ∨ scope.prepared id }

/-- Candidates prepared on both sides are dropped on both sides. -/
theorem alike_preloading {Q : Sequence → Prop} (step : ExprId) (candidates : NodeSet)
    {m m' : Evaluation Sequence}
    (hm : Alike (RunsAlike exact whole s sets bindings (scope.prepare step)) Q m m') :
    Alike (RunsAlike exact whole s sets bindings scope) Q (preloading step candidates m)
      (preloading step candidates m') := by
  refine Alike.preloading (fun r r' hr => ?_) (fun r r' hr => ?_) hm
  · have h := hr.alike
    refine ⟨⟨⟨h.left.bindings, h.left.valid, h.left.active⟩,
      ⟨h.right.bindings, h.right.valid, h.right.active⟩, fun id => ?_, fun id => ?_, h.checked⟩,
      fun hexact => by rw [hr.same hexact]⟩
    · change (r.context.preloaded.put step candidates).get? id =
        (r'.context.preloaded.put step candidates).get? id
      rw [Table.get?_put, Table.get?_put, h.preloaded]
    · change (r.context.preloaded.put step candidates).get? id ≠ none → _
      rw [Table.get?_put]
      split_ifs with hid
      · exact fun _ => .inl hid
      · exact fun hne => .inr (h.prepared id hne)
  · have h := hr.alike
    refine ⟨⟨⟨h.left.bindings, h.left.valid, h.left.active⟩,
      ⟨h.right.bindings, h.right.valid, h.right.active⟩, fun id => ?_, fun id => ?_, h.checked⟩,
      fun hexact => by rw [hr.same hexact]⟩
    · change (r.context.preloaded.erase step).get? id = (r'.context.preloaded.erase step).get? id
      rw [Table.get?_erase, Table.get?_erase, h.preloaded]
    · change (r.context.preloaded.erase step).get? id ≠ none → _
      rw [Table.get?_erase]
      split_ifs with hid
      · exact fun hne => absurd rfl hne
      · exact fun hne => (h.prepared id hne).resolve_left hid

/-- Two evaluations of a body end alike in every scope. -/
def BodyAlike (exact : Prop) (whole : Expr) (s : Store) (sets : Nat → NodeSet)
    (bindings : List (String × Sequence)) (body body' : Focus → Evaluation Sequence) : Prop :=
  ∀ scope focus, focus.Has (Sequence.Agrees sets) →
    Alike (RunsAlike exact whole s sets bindings scope) (Sequence.Agrees sets) (body focus)
      (body' focus)

theorem alike_narrow (hwhole : whole.numbers.Nodup)
    (hbindings : ∀ entry ∈ bindings, entry.2.Agrees sets)
    (hp : p.Optimizes whole enabled body) {evaluate evaluate' : Focus → Evaluation Sequence}
    (hbody : BodyAlike exact whole s sets bindings evaluate evaluate') {state' : OptimizeState}
    (hstate : state.Valid s sets bindings (Pragma.found enabled body))
    (hstate' : state'.Valid s sets bindings (Pragma.found enabled body))
    {context : Option Sequence} (hcontext : ∀ v, context = some v → v.Agrees sets)
    {j j' : Optimizer.Judgement} (hopinion : j.opinion = j'.opinion) (hoptimize : j.optimize = true)
    (hj : opinionOn s bindings (Pragma.found enabled body) context = .ok j.opinion) :
    Alike (RunsAlike exact whole s sets bindings scope) (Sequence.Agrees sets)
      (Optimizer.narrow s p.id state evaluate j) (Optimizer.narrow s p.id state' evaluate' j') := by
  have hsteady := @steady_runsAlike whole s sets bindings exact hbindings
  obtain ⟨hgiven, hrest⟩ := Prod.mk.inj hopinion
  obtain ⟨hworking, -⟩ := Prod.mk.inj hrest
  have hkept : ∀ shared, j.given = some shared →
      CachedVerdict.Valid s sets bindings (Pragma.found enabled body)
        ⟨shared, s.stateOf shared.set, true⟩ := by
    intro shared hshared
    have hpositive : opinionOn s bindings (Pragma.found enabled body) context =
        .ok (j.given, j.working, true) := by
      rw [hj, ← hoptimize]
      rfl
    exact valid_of_opinionOn hcontext hpositive hshared
  unfold Optimizer.narrow
  rw [hstate.contextStep, hstate.optimizables, hstate'.contextStep, hstate'.optimizables,
    ← hgiven, ← hworking]
  refine Alike.bind (.orFail_any _) fun shared _ => ?_
  refine Alike.bind (alike_rounds (hsteady scope) s _ _ _) fun rounds _ => ?_
  have hcount : ∀ state : OptimizeState,
      state.Valid s sets bindings (Pragma.found enabled body) →
      (Optimizer.countNarrowing s j.given rounds state).Valid s sets bindings
        (Pragma.found enabled body) := by
    intro state hstate
    refine ⟨hstate.optimizables, hstate.contextStep, hstate.contextVariable, fun cached hcached => ?_⟩
    obtain ⟨shared, hshared, rfl⟩ := Option.map_eq_some_iff.1 hcached
    exact hkept shared hshared
  refine Alike.bind (alike_update (fun _ => rfl) fun c c' h =>
    h.updateOptimizer hwhole hp hcount hcount) fun _ _ => ?_
  cases (Pragma.found enabled body).contextStep with
  | none =>
    refine hbody scope _ ?_
    rintro v ⟨⟩
    exact Sequence.agrees_ofSet sets _
  | some step =>
    refine alike_preloading step.id _ (hbody _ _ ?_)
    intro v hv
    obtain ⟨o, _, rfl⟩ := Option.map_eq_some_iff.1 hv
    exact Sequence.agrees_ofSet sets _

theorem agrees_contextOf {focus : Focus} (hfocus : focus.Has (Sequence.Agrees sets)) :
    ∀ v, Optimizer.contextOf s focus = some v → v.Agrees sets := by
  rcases focus with ⟨context, item⟩
  rcases item with _ | ⟨n⟩ | ⟨value⟩
  · exact hfocus
  · rintro v ⟨⟩
    exact Sequence.agrees_ofSet sets _
  · rintro v ⟨⟩
    exact Sequence.agrees_items sets _

/-- What is narrowed agrees with the handles, too. -/
theorem agrees_of_opinionOn (hbindings : ∀ entry ∈ bindings, entry.2.Agrees sets)
    {context : Option Sequence} (hcontext : ∀ v, context = some v → v.Agrees sets)
    {given : Option SharedSet} {working : Option Sequence} {optimize : Bool}
    (h : opinionOn s bindings found context = .ok (given, working, optimize)) :
    ∀ v, ((given.map .nodes).or working).or context = some v → v.Agrees sets := by
  intro v hv
  rcases opinionOn_eq_ok h with ⟨_, rfl, hworking, _⟩ | ⟨rfl, rfl, _⟩
  · rw [Option.or_eq_some_iff, Option.or_eq_some_iff] at hv
    rcases hv with (hv | ⟨_, rfl⟩) | ⟨_, hv⟩
    · obtain ⟨shared, hshared, rfl⟩ := Option.map_eq_some_iff.1 hv
      exact hcontext _ (eq_of_bind_sharedOf? hshared)
    · unfold workingIn at hworking
      cases hvariable : found.contextVariable with
      | none =>
        rw [hvariable] at hworking
        exact hcontext v (Except.ok.inj hworking)
      | some name =>
        rw [hvariable] at hworking
        obtain ⟨w, hw, hsome⟩ := map_eq_ok.1 hworking
        obtain rfl := Option.some.inj hsome
        exact agrees_of_valueIn hbindings hw
    · exact hcontext v hv
  · exact hcontext v hv

/-- What a sound context keeps for an optimizer is valid. -/
theorem Sound.valid_state (h : Sound whole s sets bindings scope c)
    (hp : p.Optimizes whole enabled body) (hstate : c.optimizer? p.id = some state) :
    state.Valid s sets bindings (Pragma.found enabled body) := by
  have hvalid := h.valid p enabled body hp state hstate
  rwa [h.bindings] at hvalid

/-- Two strategies end alike for the pragmas of an expression and bodies that end alike. -/
def StrategiesAlike (exact : Prop) (whole : Expr) (s : Store) (sets : Nat → NodeSet)
    (bindings : List (String × Sequence)) (strategy strategy' : Strategy) : Prop :=
  ∀ p enabled body, Pragma.Optimizes whole p enabled body → ∀ scope : Scope, scope.active p.id →
    ∀ evaluate evaluate', BodyAlike exact whole s sets bindings evaluate evaluate' →
      ∀ focus, focus.Has (Sequence.Agrees sets) →
        Alike (RunsAlike exact whole s sets bindings scope) (Sequence.Agrees sets)
          (strategy p.id evaluate focus) (strategy' p.id evaluate' focus)

/-- **Optimizing ends alike,** whether the verdict is computed or kept. -/
theorem alike_optimize (hwhole : whole.numbers.Nodup)
    (hbindings : ∀ entry ∈ bindings, entry.2.Agrees sets) :
    StrategiesAlike exact whole s sets bindings (Optimizer.evaluate s) (Optimizer.evaluate s) := by
  intro p enabled body hp scope hactive evaluate evaluate' hbody focus hfocus
  have hcontext := agrees_contextOf (s := s) hfocus
  unfold Optimizer.evaluate
  refine Alike.queryContext_bind fun r r' hr => ?_
  obtain ⟨state, hstate⟩ := Option.ne_none_iff_exists'.1 (hr.alike.left.active p.id hactive)
  obtain ⟨state', hstate'⟩ := Option.ne_none_iff_exists'.1 (hr.alike.right.active p.id hactive)
  rw [hstate, hstate']
  have hvalid := hr.alike.left.valid_state hp hstate
  have hvalid' := hr.alike.right.valid_state hp hstate'
  have hsame : exact → state = state' := by
    intro hexact
    rw [hr.same hexact, hstate'] at hstate
    exact (Option.some.inj hstate).symm
  clear hr hstate hstate' r r'
  -- The judgements may differ in where they come from, but not in what they say.
  refine Alike.read_bind (after_judge s state _) (after_judge s state' _) fun r r' hr => ?_
  have hresult := result_judge hvalid hr.alike.left.bindings hcontext
  refine (of_map_eq_map (hresult.trans
    (result_judge hvalid' hr.alike.right.bindings hcontext).symm)).imp_left ?_
  rintro ⟨j, j', hj, hj', hopinion⟩
  refine ⟨j, j', hj, hj', ?_⟩
  have hjudgement : exact → j = j' := by
    intro hexact
    rw [hr.same hexact, hsame hexact, hj'] at hj
    exact (Except.ok.inj hj).symm
  rw [hj] at hresult
  have hsays : opinionOn s bindings (Pragma.found enabled body) (Optimizer.contextOf s focus) =
      .ok j.opinion := hresult.symm
  obtain ⟨hgiven, hrest⟩ := Prod.mk.inj hopinion
  obtain ⟨hworking, hoptimize⟩ := Prod.mk.inj hrest
  have hcount : ∀ (count : OptimizeState → OptimizeState),
      (∀ state, (count state).optimizables = state.optimizables ∧
        (count state).contextStep = state.contextStep ∧
        (count state).contextVariable = state.contextVariable ∧
        (count state).cache = state.cache) →
      ∀ state, state.Valid s sets bindings (Pragma.found enabled body) →
        (count state).Valid s sets bindings (Pragma.found enabled body) := by
    intro count hcount state hstate
    obtain ⟨hoptimizables, hstep, hvariable, hcache⟩ := hcount state
    exact ⟨hoptimizables.trans hstate.optimizables, hstep.trans hstate.contextStep,
      hvariable.trans hstate.contextVariable, fun cached h => hstate.cache cached (hcache ▸ h)⟩
  refine Alike.bind (alike_update (fun hexact => by rw [hjudgement hexact]) fun c c' h =>
    h.updateOptimizer hwhole hp (hcount _ fun _ => ⟨rfl, rfl, rfl, rfl⟩)
      (hcount _ fun _ => ⟨rfl, rfl, rfl, rfl⟩)) fun _ _ => ?_
  rw [← hoptimize]
  by_cases hnarrow : j.optimize = true
  · rw [if_pos hnarrow, if_pos hnarrow]
    exact alike_narrow hwhole hbindings hp hbody hvalid hvalid' hcontext hopinion hnarrow hsays
  · rw [if_neg hnarrow, if_neg hnarrow]
    unfold Optimizer.fallBack
    rw [← hgiven, ← hworking]
    refine Alike.bind (alike_update (fun _ => rfl) fun c c' h =>
      h.updateOptimizer hwhole hp (hcount _ fun _ => ⟨rfl, rfl, rfl, rfl⟩)
        (hcount _ fun _ => ⟨rfl, rfl, rfl, rfl⟩)) fun _ _ => ?_
    exact hbody scope _ (agrees_of_opinionOn hbindings hcontext hsays)

/-! ### Pragmas -/

/-- The scope in which the uses of more conditions will be asked for. -/
def Scope.check (scope : Scope) (ids : List ExprId) : Scope :=
  { scope with checked := fun id => id ∈ ids ∨ scope.checked id }

/-- The scope in which one more optimizer has been activated. -/
def Scope.activate (scope : Scope) (pragma : ExprId) : Scope :=
  { scope with active := fun id => id = pragma ∨ scope.active id }

/-- Scopes that ask for more. -/
structure Scope.Extends (wide narrow : Scope) : Prop where
  checked : ∀ id, narrow.checked id → wide.checked id
  prepared : wide.prepared = narrow.prepared
  active : ∀ id, narrow.active id → wide.active id

theorem Scope.Extends.refl (scope : Scope) : scope.Extends scope :=
  ⟨fun _ h => h, rfl, fun _ h => h⟩

theorem Scope.Extends.trans {a b c : Scope} (h : a.Extends b) (h' : b.Extends c) : a.Extends c :=
  ⟨fun id hid => h.checked id (h'.checked id hid), h.prepared.trans h'.prepared,
    fun id hid => h.active id (h'.active id hid)⟩

theorem AnswerAlike.forget {wide narrow : Scope} (h : wide.Extends narrow)
    (hc : AnswerAlike whole s sets bindings wide c c') :
    AnswerAlike whole s sets bindings narrow c c' :=
  ⟨⟨hc.left.bindings, hc.left.valid, fun id hid => hc.left.active id (h.active id hid)⟩,
    ⟨hc.right.bindings, hc.right.valid, fun id hid => hc.right.active id (h.active id hid)⟩,
    hc.preloaded, fun id hid => h.prepared ▸ hc.prepared id hid,
    fun id hid => hc.checked id (h.checked id hid)⟩

theorem RunsAlike.forget {wide narrow : Scope} (h : wide.Extends narrow) {r r' : Run}
    (hr : RunsAlike exact whole s sets bindings wide r r') :
    RunsAlike exact whole s sets bindings narrow r r' :=
  ⟨hr.alike.forget h, hr.same⟩

/-- What is in force once a pragma has been activated. -/
structure Scope.InForce (scope : Scope) (body : Expr) (p : Pragma) : Prop where
  optimizer : ∀ explicit enabled contextId, p.kind = .optimize explicit enabled contextId →
    scope.active p.id
  reporters : p.kind = .forceIndexUse → ∀ id ∈ body.reporters, scope.checked id

theorem Scope.InForce.mono {wide narrow : Scope} (h : wide.Extends narrow)
    (hp : narrow.InForce body p) : wide.InForce body p :=
  ⟨fun explicit enabled contextId hkind =>
      h.active _ (hp.optimizer explicit enabled contextId hkind),
    fun hkind id hid => h.checked _ (hp.reporters hkind id hid)⟩

theorem AnswerAlike.enter (h : AnswerAlike whole s sets bindings scope c c') (id : ExprId)
    (phase : Phase) :
    AnswerAlike whole s sets bindings scope (c.enter id phase) (c'.enter id phase) :=
  ⟨⟨h.left.bindings, h.left.valid, h.left.active⟩,
    ⟨h.right.bindings, h.right.valid, h.right.active⟩, h.preloaded, h.prepared, h.checked⟩

theorem alike_enter (id : ExprId) (phase : Phase) :
    Alike (RunsAlike exact whole s sets bindings scope) (fun _ => True)
      (update (·.enter id phase)) (update (·.enter id phase)) :=
  alike_update (fun _ => rfl) fun _ _ h => h.enter id phase

/-- Forgetting uses of indexes makes contexts agree on them. -/
theorem AnswerAlike.forgetIndexUse (h : AnswerAlike whole s sets bindings scope c c')
    (ids : List ExprId) :
    AnswerAlike whole s sets bindings (scope.check ids) (c.forgetIndexUse ids)
      (c'.forgetIndexUse ids) := by
  refine ⟨⟨h.left.bindings, h.left.valid, h.left.active⟩,
    ⟨h.right.bindings, h.right.valid, h.right.active⟩, h.preloaded, h.prepared, fun id hid => ?_⟩
  rw [hasUsedIndex_forgetIndexUse, hasUsedIndex_forgetIndexUse]
  rcases hid with hid | hid
  · simp [hid]
  · rw [h.checked id hid]

/-- The optimizer of a pragma as it is once the pragma has been activated. -/
def activated (c : QueryContext) (p : Pragma) (enabled : Bool) (body : Expr) : QueryContext :=
  match c.optimizer? p.id with
  | some _ => c
  | none => c.setOptimizer p.id (Pragma.found enabled body)

theorem valid_found (enabled : Bool) (body : Expr) :
    (Pragma.found enabled body).Valid s sets bindings (Pragma.found enabled body) := by
  refine ⟨rfl, rfl, rfl, fun cached hcached => ?_⟩
  cases enabled <;> cases hcached

/-- Activating an optimizer on both sides makes sure that both have it. -/
theorem AnswerAlike.activated (hwhole : whole.numbers.Nodup) (hp : p.Optimizes whole enabled body)
    (h : AnswerAlike whole s sets bindings scope c c') :
    AnswerAlike whole s sets bindings (scope.activate p.id) (activated c p enabled body)
      (activated c' p enabled body) := by
  have hsound : ∀ {c : QueryContext}, Sound whole s sets bindings scope c →
      Sound whole s sets bindings (scope.activate p.id) (IndexedXml.activated c p enabled body) := by
    intro c h
    unfold IndexedXml.activated
    cases hstate : c.optimizer? p.id with
    | some state =>
      refine ⟨h.bindings, h.valid, fun id hid => ?_⟩
      rcases hid with rfl | hid
      · rw [hstate]
        exact Option.some_ne_none _
      · exact h.active id hid
    | none =>
      refine ⟨h.bindings, h.valid.setOptimizer hwhole hp (valid_found enabled body), fun id hid => ?_⟩
      change (c.optimizers.put p.id _).get? id ≠ none
      rw [Table.get?_put]
      split_ifs with heq
      · exact Option.some_ne_none _
      · exact h.active id (hid.resolve_left heq)
  have hrest : ∀ c : QueryContext,
      (IndexedXml.activated c p enabled body).preloaded = c.preloaded ∧
        (IndexedXml.activated c p enabled body).usedIndexes = c.usedIndexes := by
    intro c
    unfold IndexedXml.activated
    cases c.optimizer? p.id <;> exact ⟨rfl, rfl⟩
  refine ⟨hsound h.left, hsound h.right, ?_, ?_, ?_⟩
  · rw [(hrest c).1, (hrest c').1]
    exact h.preloaded
  · rw [(hrest c).1]
    exact h.prepared
  · unfold QueryContext.hasUsedIndex
    rw [(hrest c).2, (hrest c').2]
    exact h.checked

theorem activate_optimize {explicit : Bool} {contextId : ExprId}
    (h : p.kind = .optimize explicit enabled contextId) :
    activate body p = (update (activated · p enabled body) >>= fun _ =>
      update (·.enter p.id .activated)) := by
  unfold activate
  rw [h]
  rfl

theorem activate_noIndex (h : p.kind = .noIndex) :
    activate body p = update (·.enter p.id .activated) := by
  unfold activate
  rw [h]

theorem activate_forceIndexUse (h : p.kind = .forceIndexUse) :
    activate body p = (update (·.forgetIndexUse body.reporters) >>= fun _ =>
      update (·.enter p.id .activated)) := by
  unfold activate
  rw [h]

/-- **What happens after activation ends alike** when it does in every scope in which the
pragmas are in force. -/
theorem alike_activations (hwhole : whole.numbers.Nodup) {ps : List Pragma}
    (hps : ∀ p ∈ ps, ∀ explicit enabled contextId, p.kind = .optimize explicit enabled contextId →
      p.Optimizes whole enabled body)
    {Q : Sequence → Prop} {m m' : Evaluation Sequence} :
    ∀ scope, (∀ wide, wide.Extends scope → (∀ p ∈ ps, wide.InForce body p) →
        Alike (RunsAlike exact whole s sets bindings wide) Q m m') →
      Alike (RunsAlike exact whole s sets bindings scope) Q (ps.forM (activate body) >>= fun _ => m)
        (ps.forM (activate body) >>= fun _ => m') := by
  induction ps with
  | nil => exact fun scope hm => hm scope (.refl scope) fun _ h => nomatch h
  | cons p rest ih =>
    intro scope hm
    have hrest : ∀ wide, wide.Extends scope → wide.InForce body p →
        Alike (RunsAlike exact whole s sets bindings wide) Q
          (update (·.enter p.id .activated) >>= fun _ => rest.forM (activate body) >>= fun _ => m)
          (update (·.enter p.id .activated) >>= fun _ => rest.forM (activate body) >>= fun _ => m') := by
      intro wide hwide hp
      refine Alike.bind (alike_enter _ _) fun _ _ => ?_
      refine ih (fun p hp => hps p (List.mem_cons_of_mem _ hp)) wide fun wider hwider hall => ?_
      exact hm wider (hwider.trans hwide) (List.forall_mem_cons.2 ⟨hp.mono hwider, hall⟩)
    have hcons : (p :: rest).forM (activate body) =
        (activate body p >>= fun _ => rest.forM (activate body)) := rfl
    rw [hcons, bind_assoc, bind_assoc]
    cases hkind : p.kind with
    | optimize explicit enabled contextId =>
      have hp := hps p List.mem_cons_self explicit enabled contextId hkind
      have hextends : (scope.activate p.id).Extends scope :=
        ⟨fun _ h => h, rfl, fun _ h => .inr h⟩
      rw [activate_optimize hkind, bind_assoc, bind_assoc]
      refine Alike.update_bind (S := RunsAlike exact whole s sets bindings (scope.activate p.id))
        (fun r r' h => ⟨h.alike.activated hwhole hp, fun hexact => by rw [h.same hexact]⟩)
        (fun _ _ h => h.forget hextends)
        (hrest _ hextends ⟨fun _ _ _ _ => .inl rfl, fun h => ?_⟩)
      rw [hkind] at h
      cases h
    | noIndex =>
      rw [activate_noIndex hkind]
      refine hrest scope (.refl scope) ⟨fun _ _ _ h => ?_, fun h => ?_⟩
      · rw [hkind] at h
        cases h
      · rw [hkind] at h
        cases h
    | forceIndexUse =>
      have hextends : (scope.check body.reporters).Extends scope :=
        ⟨fun _ h => .inr h, rfl, fun _ h => h⟩
      rw [activate_forceIndexUse hkind, bind_assoc, bind_assoc]
      refine Alike.update_bind
        (S := RunsAlike exact whole s sets bindings (scope.check body.reporters))
        (fun r r' h => ⟨h.alike.forgetIndexUse _, fun hexact => by rw [h.same hexact]⟩)
        (fun _ _ h => h.forget hextends)
        (hrest _ hextends ⟨fun _ _ _ h => ?_, fun _ id hid => .inl hid⟩)
      rw [hkind] at h
      cases h

/-- Deactivation asks for uses of indexes, and both contexts have the same to tell. -/
theorem alike_deactivate (hp : scope.InForce body p) :
    Alike (RunsAlike exact whole s sets bindings scope) (fun _ => True) (deactivate body p)
      (deactivate body p) := by
  unfold deactivate
  refine Alike.bind (alike_enter _ _) fun _ _ => ?_
  cases hkind : p.kind with
  | optimize explicit enabled contextId => exact .pure trivial
  | noIndex => exact .pure trivial
  | forceIndexUse =>
    refine Alike.queryContext_bind fun r r' hr => ?_
    have hall : body.reporters.all r.context.hasUsedIndex =
        body.reporters.all r'.context.hasUsedIndex := by
      rw [Bool.eq_iff_iff, List.all_eq_true, List.all_eq_true]
      exact forall₂_congr fun id hid => by rw [hr.alike.checked id (hp.reporters hkind id hid)]
    unfold allUseIndexes
    rw [hall]
    split_ifs
    · exact .pure trivial
    · exact .orFail_any _

/-- **Expressions with pragmas end alike** when their bodies and the strategies do. -/
theorem alike_evaluateExtensionBy (hwhole : whole.numbers.Nodup) {strategy strategy' : Strategy}
    (hstrategies : StrategiesAlike exact whole s sets bindings strategy strategy')
    {id : ExprId} {pragmas : List Pragma}
    (hpart : .expr (.extension id pragmas body) ∈ whole.parts)
    {evaluate evaluate' : Focus → Evaluation Sequence}
    (hbody : BodyAlike exact whole s sets bindings evaluate evaluate') {focus : Focus}
    (hfocus : focus.Has (Sequence.Agrees sets)) :
    Alike (RunsAlike exact whole s sets bindings scope) (Sequence.Agrees sets)
      (evaluateExtensionBy strategy pragmas body evaluate focus)
      (evaluateExtensionBy strategy' pragmas body evaluate' focus) := by
  have hpragmas : ∀ p ∈ pragmas, ∀ explicit enabled contextId,
      p.kind = .optimize explicit enabled contextId → p.Optimizes whole enabled body :=
    fun p hp explicit enabled contextId hkind =>
      ⟨⟨id, pragmas, hpart, hp⟩, explicit, contextId, hkind⟩
  refine alike_activations hwhole hpragmas scope fun wide _ hforce => ?_
  have hstrategy : ∀ p ∈ pragmas, ∀ explicit enabled contextId,
      p.kind = .optimize explicit enabled contextId →
        Alike (RunsAlike exact whole s sets bindings wide) (Sequence.Agrees sets)
          (strategy p.id evaluate focus) (strategy' p.id evaluate' focus) :=
    fun p hp explicit enabled contextId hkind =>
      hstrategies p enabled body (hpragmas p hp explicit enabled contextId hkind) wide
        ((hforce p hp).optimizer explicit enabled contextId hkind) evaluate evaluate' hbody focus
        hfocus
  refine Alike.bind (alike_evaluatePragmasBy alike_enter (hbody wide focus hfocus) hstrategy)
    fun value hvalue => ?_
  exact Alike.bind (.forM fun p hp => alike_deactivate (hforce p hp)) fun _ _ => .pure hvalue

/-! ### Runs -/

/-- What happens to a store and a query context. -/
inductive Event where
  /-- The query is evaluated. -/
  | evaluate (focus : Focus)
  /-- The store is changed. -/
  | change (change : Store.Change)
  /-- What belongs to runs is dropped. -/
  | reset

/-- A new query context with variables. -/
def QueryContext.ofBindings (bindings : List (String × Sequence)) : QueryContext :=
  { QueryContext.empty with bindings }

namespace CompiledQuery

/-- **The answers to a query** while events follow one another in one query context. -/
def answers (q : CompiledQuery) (s : Store) (run : Run) :
    List Event → List (Except QueryError Sequence)
  | [] => []
  | .evaluate focus :: rest =>
    (q.evaluate s focus).result run :: q.answers s ((q.evaluate s focus).after run) rest
  | .change change :: rest => q.answers (s.perform change) run rest
  | .reset :: rest => q.answers s { run with context := run.context.reset } rest

/-- The answers when every evaluation has a new query context. -/
def answersAfresh (q : CompiledQuery) (bindings : List (String × Sequence)) (s : Store) :
    List Event → List (Except QueryError Sequence)
  | [] => []
  | .evaluate focus :: rest =>
    (q.evaluate s focus).result ⟨.ofBindings bindings, .zero⟩ :: q.answersAfresh bindings s rest
  | .change change :: rest => q.answersAfresh bindings (s.perform change) rest
  | .reset :: rest => q.answersAfresh bindings s rest

/-- Where nothing is asked for yet. -/
def outermost : Scope := ⟨fun _ => False, fun _ => False, fun _ => False⟩

/-- A context that has no candidates and keeps only what is valid answers like a new one. -/
theorem answerAlike_ofBindings (hbindings : c.bindings = bindings) (hvalid : c.Valid whole s sets)
    (hpreloaded : ∀ id, c.preloaded.get? id = none) :
    AnswerAlike whole s sets bindings outermost c (.ofBindings bindings) := by
  refine ⟨⟨hbindings, hvalid, fun _ h => h.elim⟩, ⟨rfl, ?_, fun _ h => h.elim⟩, hpreloaded,
    fun id hne => absurd (hpreloaded id) hne, fun _ h => h.elim⟩
  exact fun _ _ _ _ _ h => nomatch h

/-- **A query ends alike with strategies that do.** -/
theorem evaluateBy_alike {q : CompiledQuery} (hq : q.root.numbers.Nodup)
    (hbindings : ∀ entry ∈ bindings, entry.2.Agrees sets) {strategy strategy' : Strategy}
    (hstrategies : StrategiesAlike exact q.root s sets bindings strategy strategy')
    {focus : Focus} (hfocus : focus.Has (Sequence.Agrees sets)) :
    Alike (RunsAlike exact q.root s sets bindings outermost) (Sequence.Agrees sets)
      (q.root.evaluateBy s strategy focus) (q.root.evaluateBy s strategy' focus) := by
  refine Expr.alike_evaluateBy (steady_runsAlike hbindings) s strategy strategy' q.root
    ⟨fun _ _ _ => trivial, ?_⟩ outermost focus hfocus
  intro id pragmas body hpart hbody scope focus hfocus
  exact alike_evaluateExtensionBy hq hstrategies hpart hbody hfocus

/-- **Whatever a context keeps, evaluation answers as in a new one,** and leaves the
context valid and without candidates. -/
theorem evaluate_alike {q : CompiledQuery} (hq : q.root.numbers.Nodup)
    (hbindings : ∀ entry ∈ bindings, entry.2.Agrees sets) {focus : Focus}
    (hfocus : focus.Has (Sequence.Agrees sets)) :
    Alike (RunsAlike exact q.root s sets bindings outermost) (Sequence.Agrees sets)
      (q.evaluate s focus) (q.evaluate s focus) := by
  unfold evaluate
  rw [← Expr.evaluateBy_optimizer]
  exact evaluateBy_alike hq hbindings (alike_optimize hq hbindings) hfocus

theorem answers_eq_of_valid {q : CompiledQuery} (hq : q.root.numbers.Nodup)
    (hbindings : ∀ entry ∈ bindings, entry.2.Agrees sets) {events : List Event}
    (hevents : ∀ focus, .evaluate focus ∈ events → focus.Has (Sequence.Agrees sets)) :
    ∀ (s : Store) (run : Run), run.context.bindings = bindings →
      run.context.Valid q.root s sets → (∀ id, run.context.preloaded.get? id = none) →
      q.answers s run events = q.answersAfresh bindings s events := by
  induction events with
  | nil => exact fun _ _ _ _ _ => rfl
  | cons event rest ih =>
    intro s run hcontext hvalid hpreloaded
    have hrest := ih fun focus h => hevents focus (List.mem_cons_of_mem _ h)
    cases event with
    | evaluate focus =>
      have hstart : RunsAlike False q.root s sets bindings outermost run
          ⟨.ofBindings bindings, .zero⟩ :=
        ⟨answerAlike_ofBindings hcontext hvalid hpreloaded, False.elim⟩
      obtain ⟨hresult, ⟨hafter, _⟩, _⟩ :=
        evaluate_alike hq hbindings (hevents focus List.mem_cons_self) _ _ hstart
      rw [answers, answersAfresh, hresult, hrest _ _ hafter.left.bindings hafter.left.valid]
      intro id
      by_contra hne
      exact hafter.prepared id hne
    | change change => exact hrest _ _ hcontext (hvalid.perform change) hpreloaded
    | reset => exact hrest _ _ hcontext hvalid.reset fun _ => rfl

/-- **What a query context keeps never changes an answer.**  While evaluations of a compiled
query, changes of the store and resets follow one another in any order, every evaluation has
the outcome, value or error, that it would have at that moment in a new query context with
the same variables. -/
theorem answers_eq_answersAfresh {source : String} {config : Configuration} {q : CompiledQuery}
    (hq : compile source config = .ok q) (sets : Nat → NodeSet)
    (bindings : List (String × Sequence)) (hbindings : ∀ entry ∈ bindings, entry.2.Agrees sets)
    (events : List Event)
    (hevents : ∀ focus, .evaluate focus ∈ events → focus.Has (Sequence.Agrees sets)) (s : Store) :
    q.answers s ⟨.ofBindings bindings, .zero⟩ events = q.answersAfresh bindings s events :=
  answers_eq_of_valid (nodup_numbers hq) hbindings hevents _ _ rfl
    (fun _ _ _ _ _ h => nomatch h) fun _ => rfl

end CompiledQuery

/-! ### A book whose index is dropped -/

/-- A store with a book and an index on titles. -/
def bookStore : Store :=
  (Store.empty.perform (.configureCollection "/db"
    [⟨⟨.element, ⟨none, "title", none⟩⟩, .string⟩])).perform
    (.storeXml "/db" "a.xml" "<book><title>Dune</title></book>")

/-- The document of the book, as it is given. -/
def bookSet : NodeSet := ⟨[.document 0], true⟩

/-- What is given, kept under a handle. -/
def onBook : Focus := .on (.nodes ⟨bookSet, some 0⟩)

/-- The query for the books of a title, with the pragma `optimize`. -/
def booksTitled : String := "(# exist:optimize #) \x7b //book[title = 'Dune'] \x7d"

/-- The query is evaluated twice for what is given, then without the index and after a reset. -/
def droppingIndex : List Event :=
  [.evaluate onBook, .evaluate onBook, .change (.configureCollection "/db" []), .evaluate onBook,
    .reset, .evaluate onBook]

theorem agrees_onBook : onBook.Has (Sequence.Agrees fun _ => bookSet) := by
  rintro _ ⟨⟩ _ ⟨⟩ _ ⟨⟩
  rfl

namespace CompiledQuery

/-- The second evaluation takes its verdict from the first.  At the third the index is gone, and the
kept verdict, which would lose the book, is not used. -/
theorem answers_eq_answersAfresh_of_shared_set : ∃ q, compile booksTitled .standard = .ok q ∧
    ∃ first second state,
      first = (q.evaluate bookStore onBook).after ⟨.ofBindings [], .zero⟩ ∧
      second = (q.evaluate bookStore onBook).after first ∧
      second.context.optimizer? 2 = some state ∧ state.stats.cacheHits = 1 ∧
      verdict bookStore onBook.context state.optimizables = .ok true ∧
      verdict (bookStore.perform (.configureCollection "/db" [])) onBook.context
        state.optimizables = .ok false ∧
      q.answers bookStore ⟨.ofBindings [], .zero⟩ droppingIndex =
        q.answersAfresh [] bookStore droppingIndex ∧
      (q.answers bookStore ⟨.ofBindings [], .zero⟩ droppingIndex).map (Except.map Sequence.toItems) =
        List.replicate 4 (.ok [.node ⟨0, ⟨[1]⟩⟩]) := by
  have hcounted : (compile booksTitled .standard).map
      (fun q =>
        let first := (q.evaluate bookStore onBook).after ⟨.ofBindings [], .zero⟩
        let second := (q.evaluate bookStore onBook).after first
        (second.context.optimizer? 2).map fun state =>
          (state.stats.cacheHits, verdict bookStore onBook.context state.optimizables,
            verdict (bookStore.perform (.configureCollection "/db" [])) onBook.context
              state.optimizables)) = .ok (some (1, .ok true, .ok false)) := by
    decide +kernel
  have hitems : (compile booksTitled .standard).map (fun q =>
      (q.answers bookStore ⟨.ofBindings [], .zero⟩ droppingIndex).map (Except.map Sequence.toItems)) =
        .ok (List.replicate 4 (.ok [.node ⟨0, ⟨[1]⟩⟩])) := by
    decide +kernel
  obtain ⟨q, hq, hstate⟩ := map_eq_ok.1 hcounted
  obtain ⟨state, hoptimizer, hsays⟩ := Option.map_eq_some_iff.1 hstate
  obtain ⟨hhits, hverdicts⟩ := Prod.mk.inj hsays
  obtain ⟨hindexed, hdropped⟩ := Prod.mk.inj hverdicts
  rw [hq] at hitems
  have hevents : ∀ focus, .evaluate focus ∈ droppingIndex →
      focus.Has (Sequence.Agrees fun _ => bookSet) := by
    intro focus h
    obtain rfl : focus = onBook := by simpa [droppingIndex] using h
    exact agrees_onBook
  have hafresh := answers_eq_answersAfresh hq (fun _ => bookSet) [] (List.forall_mem_nil _)
    droppingIndex hevents bookStore
  exact ⟨q, hq, _, _, state, rfl, rfl, hoptimizer, hhits, hindexed, hdropped, hafresh,
    Except.ok.inj hitems⟩

end CompiledQuery
end IndexedXml
