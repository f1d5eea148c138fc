/-
# What a query context keeps

A query context outlives evaluations, and what optimizers have found out stays in it:
above all the verdict on a context.  The one thing that could go wrong is a kept verdict.
It is taken for a set with the same handle, and so for the same set, and only while the
generation is that of the time when it was computed; then everything it depends on is as
it was (`CachedVerdict.Valid`).

Whatever happens to the store leaves what is kept valid (`QueryContext.Valid.perform`), and
a judgement that uses it says what a new one would say (`result_judge`).
-/

import IndexedXml.Proofs.Query.Coverage
import IndexedXml.Proofs.Query.Numbering
import IndexedXml.Proofs.Query.Runs
import IndexedXml.Proofs.Store.Generation
import IndexedXml.Query.Evaluation
import Mathlib.Tactic.SplitIfs

namespace IndexedXml

open Evaluation

/-! ### Verdicts over time -/

/-- A set stays covered while collections and documents stay. -/
theorem IndexProbe.coversAll_of_retains {s t : Store} (h : t.Retains s) {p : IndexProbe}
    {sequence : Option Sequence} (hcovers : p.coversAll s sequence = .ok true) :
    p.coversAll t sequence = .ok true := by
  rcases sequence with _ | ⟨shared⟩ | list
  · cases hcovers
  · obtain ⟨cs, hcs, hall⟩ := coversAll_eq_true_iff.1 hcovers
    exact coversAll_eq_true_iff.2
      ⟨cs, mapM_eq_ok_of_forall hcs fun _ _ _ hc => h.collectionOf hc, hall⟩
  · cases hcovers

theorem verdict_of_retains {s t : Store} (h : t.Retains s) {working : Option Sequence}
    {optimizables : List Optimizable} (hverdict : verdict s working optimizables = .ok true) :
    verdict t working optimizables = .ok true := by
  induction optimizables with
  | nil => cases hverdict
  | cons o rest ih =>
    cases rest with
    | nil => exact IndexProbe.coversAll_of_retains h hverdict
    | cons next later =>
      unfold verdict at hverdict ⊢
      obtain ⟨b, hb, hrest⟩ := bind_eq_ok.1 hverdict
      cases b with
      | false => cases hrest
      | true =>
        rw [IndexProbe.coversAll_of_retains h hb]
        exact ih hrest

/-! ### What is kept -/

/-- **A handle stands for one set:** the sequence has the set that its handle stands for. -/
def Sequence.Agrees (sets : Nat → NodeSet) (v : Sequence) : Prop :=
  ∀ shared, v = .nodes shared → ∀ handle, shared.handle = some handle → sets handle = shared.set

theorem Sequence.agrees_ofSet (sets : Nat → NodeSet) (set : NodeSet) :
    (Sequence.ofSet set).Agrees sets := by
  rintro _ ⟨⟩ handle h
  cases h

theorem Sequence.agrees_items (sets : Nat → NodeSet) (list : List Item) :
    (Sequence.items list).Agrees sets := by
  rintro _ ⟨⟩

/-- The value of a variable among bindings. -/
def valueIn (bindings : List (String × Sequence)) (name : String) : Except QueryError Sequence :=
  match bindings.find? fun entry => entry.1 == name with
  | some (_, value) => .ok value
  | none => .error (.undeclaredVariable name)

theorem value_eq_valueIn (c : QueryContext) (name : String) :
    c.value name = valueIn c.bindings name := rfl

theorem agrees_of_valueIn {sets : Nat → NodeSet} {bindings : List (String × Sequence)}
    (hbindings : ∀ entry ∈ bindings, entry.2.Agrees sets) {name : String} {v : Sequence}
    (h : valueIn bindings name = .ok v) : v.Agrees sets := by
  unfold valueIn at h
  cases hfind : bindings.find? fun entry => entry.1 == name with
  | none =>
    rw [hfind] at h
    cases h
  | some entry =>
    rw [hfind] at h
    obtain rfl := Except.ok.inj h
    exact hbindings entry (List.mem_of_find?_eq_some hfind)

/-- What is narrowed in place of a context, given the variables. -/
def workingIn (bindings : List (String × Sequence)) (found : OptimizeState)
    (context : Option Sequence) : Except QueryError (Option Sequence) :=
  match found.contextVariable with
  | none => .ok context
  | some name => (valueIn bindings name).map some

/-- **A kept verdict is valid** when it is positive, belongs to the set of its handle, and
is what would be computed as long as the generation is the one of its time. -/
structure CachedVerdict.Valid (s : Store) (sets : Nat → NodeSet)
    (bindings : List (String × Sequence)) (found : OptimizeState) (cached : CachedVerdict) :
    Prop where
  positive : cached.optimize = true
  same : (Sequence.nodes cached.context).Agrees sets
  persistent : cached.context.set.persistent = true
  state_le : cached.state ≤ s.generation
  verdict : cached.state = s.generation →
    ∀ working, workingIn bindings found (some (.nodes cached.context)) = .ok working →
      verdict s working found.optimizables = .ok true

/-- What an optimizer finds out in the first place. -/
def Pragma.found (enabled : Bool) (body : Expr) : OptimizeState :=
  if enabled then .discover body else .empty

/-- **What an optimizer has found out is valid** when it is what can be found out, and the
verdict that is kept is valid. -/
structure OptimizeState.Valid (s : Store) (sets : Nat → NodeSet)
    (bindings : List (String × Sequence)) (state found : OptimizeState) : Prop where
  optimizables : state.optimizables = found.optimizables
  contextStep : state.contextStep = found.contextStep
  contextVariable : state.contextVariable = found.contextVariable
  cache : ∀ cached, state.cache = some cached → cached.Valid s sets bindings found

/-- A pragma somewhere in an expression optimizes a body. -/
structure Pragma.Optimizes (whole : Expr) (p : Pragma) (enabled : Bool) (body : Expr) : Prop where
  part : ∃ id pragmas, .expr (.extension id pragmas body) ∈ whole.parts ∧ p ∈ pragmas
  kind : ∃ explicit contextId, p.kind = .optimize explicit enabled contextId

/-- A number says what is optimized. -/
theorem Pragma.Optimizes.unique {whole body body' : Expr} (hwhole : whole.numbers.Nodup)
    {p p' : Pragma} {enabled enabled' : Bool} (h : p.Optimizes whole enabled body)
    (h' : p'.Optimizes whole enabled' body') (hid : p.id = p'.id) :
    enabled = enabled' ∧ body = body' := by
  obtain ⟨⟨id, pragmas, hpart, hp⟩, _, _, hkind⟩ := h
  obtain ⟨⟨id', pragmas', hpart', hp'⟩, _, _, hkind'⟩ := h'
  obtain ⟨rfl, hbody⟩ := Expr.pragma_unique hwhole hpart hpart' hp hp' hid
  rw [hkind] at hkind'
  cases hkind'
  exact ⟨rfl, hbody⟩

/-- What is optimized has different numbers. -/
theorem Pragma.Optimizes.nodup_numbers {whole body : Expr} (hwhole : whole.numbers.Nodup)
    {p : Pragma} {enabled : Bool} (h : p.Optimizes whole enabled body) : body.numbers.Nodup := by
  obtain ⟨⟨id, pragmas, hpart, -⟩, -⟩ := h
  have hnumbers := Expr.nodup_numbers_of_mem hwhole hpart
  rw [Expr.numbers_extension, List.nodup_cons, List.nodup_append] at hnumbers
  exact hnumbers.2.2.1

/-- **What a context keeps for a query is valid** when that is so of every optimizer. -/
def QueryContext.Valid (whole : Expr) (s : Store) (sets : Nat → NodeSet) (c : QueryContext) : Prop :=
  ∀ p enabled body, Pragma.Optimizes whole p enabled body → ∀ state, c.optimizer? p.id = some state →
    state.Valid s sets c.bindings (Pragma.found enabled body)

/-! ### Changes of the store -/

variable {whole : Expr} {s : Store} {sets : Nat → NodeSet} {bindings : List (String × Sequence)}
  {found state : OptimizeState} {c : QueryContext} {p : Pragma} {enabled : Bool} {body : Expr}

theorem CachedVerdict.Valid.perform {cached : CachedVerdict}
    (h : cached.Valid s sets bindings found) (change : Store.Change) :
    cached.Valid (s.perform change) sets bindings found := by
  have hle := h.state_le
  refine ⟨h.positive, h.same, h.persistent, hle.trans (s.generation_le_perform change), ?_⟩
  intro hstate working hworking
  rcases s.perform_generation change with hlt | ⟨heq, hretains⟩
  · omega
  · exact verdict_of_retains hretains (h.verdict (hstate.trans heq) working hworking)

theorem OptimizeState.Valid.perform (h : state.Valid s sets bindings found)
    (change : Store.Change) : state.Valid (s.perform change) sets bindings found :=
  ⟨h.optimizables, h.contextStep, h.contextVariable, fun cached hcached =>
    (h.cache cached hcached).perform change⟩

/-- **A change of the store leaves everything valid.** -/
theorem QueryContext.Valid.perform (h : c.Valid whole s sets) (change : Store.Change) :
    c.Valid whole (s.perform change) sets :=
  fun p enabled body hp state hstate => (h p enabled body hp state hstate).perform change

/-! ### Changes of the context -/

/-- Something is so of what is kept for every optimizer of a query, given what the optimizer finds
out in the first place. -/
def QueryContext.ForOptimizers (whole : Expr) (V : OptimizeState → OptimizeState → Prop)
    (c : QueryContext) : Prop :=
  ∀ p enabled body, Pragma.Optimizes whole p enabled body → ∀ state, c.optimizer? p.id = some state →
    V state (Pragma.found enabled body)

namespace QueryContext

variable {V : OptimizeState → OptimizeState → Prop}

/-- **What is kept for a pragma is kept for no other pragma,** since none has its number. -/
theorem ForOptimizers.setOptimizer (hwhole : whole.numbers.Nodup) (h : c.ForOptimizers whole V)
    (hp : p.Optimizes whole enabled body) (hstate : V state (Pragma.found enabled body)) :
    (c.setOptimizer p.id state).ForOptimizers whole V := by
  intro p' enabled' body' hp' state' hstate'
  have hget : (c.optimizers.put p.id state).get? p'.id = some state' := hstate'
  rw [Table.get?_put] at hget
  by_cases hid : p'.id = p.id
  · obtain ⟨rfl, rfl⟩ := hp'.unique hwhole hp hid
    rw [if_pos hid] at hget
    obtain rfl := Option.some.inj hget
    exact hstate
  · rw [if_neg hid] at hget
    exact h p' enabled' body' hp' state' hget

theorem ForOptimizers.updateOptimizer (hwhole : whole.numbers.Nodup) (h : c.ForOptimizers whole V)
    (hp : p.Optimizes whole enabled body) {f : OptimizeState → OptimizeState}
    (hf : ∀ state, V state (Pragma.found enabled body) → V (f state) (Pragma.found enabled body)) :
    (c.updateOptimizer p.id f).ForOptimizers whole V := by
  unfold QueryContext.updateOptimizer
  cases hstate : c.optimizer? p.id with
  | none => exact h
  | some state => exact h.setOptimizer hwhole hp (hf state (h p enabled body hp state hstate))

theorem ForOptimizers.reset (h : c.ForOptimizers whole V)
    (hV : ∀ state found, V state found → V state.reset found) : c.reset.ForOptimizers whole V := by
  intro p enabled body hp state hstate
  have hget : (c.optimizers.mapValues OptimizeState.reset).get? p.id = some state := hstate
  rw [Table.get?_mapValues, Option.map_eq_some_iff] at hget
  obtain ⟨old, hold, rfl⟩ := hget
  exact hV old _ (h p enabled body hp old hold)

/-- Keeping something valid for a pragma leaves everything valid. -/
theorem Valid.setOptimizer (hwhole : whole.numbers.Nodup) (h : c.Valid whole s sets)
    (hp : p.Optimizes whole enabled body)
    (hstate : state.Valid s sets c.bindings (Pragma.found enabled body)) :
    (c.setOptimizer p.id state).Valid whole s sets :=
  have hall : c.ForOptimizers whole (OptimizeState.Valid s sets c.bindings) := h
  hall.setOptimizer hwhole hp hstate

/-- Changing what is kept for a pragma in a valid way leaves everything valid. -/
theorem Valid.updateOptimizer (hwhole : whole.numbers.Nodup) (h : c.Valid whole s sets)
    (hp : p.Optimizes whole enabled body) {f : OptimizeState → OptimizeState}
    (hf : ∀ state, state.Valid s sets c.bindings (Pragma.found enabled body) →
      (f state).Valid s sets c.bindings (Pragma.found enabled body)) :
    (c.updateOptimizer p.id f).Valid whole s sets := by
  have hall : c.ForOptimizers whole (OptimizeState.Valid s sets c.bindings) := h
  unfold QueryContext.Valid
  rw [QueryContext.bindings_updateOptimizer]
  exact hall.updateOptimizer hwhole hp hf

/-- A reset leaves everything valid, since it drops verdicts. -/
theorem Valid.reset (h : c.Valid whole s sets) : c.reset.Valid whole s sets :=
  have hall : c.ForOptimizers whole (OptimizeState.Valid s sets c.bindings) := h
  hall.reset fun _ _ hvalid => ⟨hvalid.optimizables, hvalid.contextStep, hvalid.contextVariable,
    fun cached (hcached : none = some cached) => nomatch hcached⟩

end QueryContext

/-- **Changing what is kept for one number changes nothing else.** -/
theorem optimizer?_updateOptimizer (c : QueryContext) (id : ExprId)
    (f : OptimizeState → OptimizeState) (other : ExprId) :
    (c.updateOptimizer id f).optimizer? other =
      if other = id then (c.optimizer? other).map f else c.optimizer? other := by
  unfold QueryContext.updateOptimizer
  cases hstate : c.optimizer? id with
  | none =>
    dsimp only
    split_ifs with hid
    · rw [hid, hstate]
      rfl
    · rfl
  | some state =>
    change (c.optimizers.put id (f state)).get? other = _
    rw [Table.get?_put]
    split_ifs with hid
    · rw [hid, hstate]
      rfl
    · rfl

theorem optimizer?_updateOptimizer_ne_none {f : OptimizeState → OptimizeState} {id other : ExprId}
    (h : c.optimizer? other ≠ none) : (c.updateOptimizer id f).optimizer? other ≠ none := by
  rw [optimizer?_updateOptimizer]
  split_ifs
  · exact fun hnone => h (Option.map_eq_none_iff.1 hnone)
  · exact h

theorem hasUsedIndex_noteIndexUse (c : QueryContext) (id other : ExprId) :
    (c.noteIndexUse id).hasUsedIndex other = (other == id || c.hasUsedIndex other) := by
  unfold QueryContext.noteIndexUse
  split_ifs with hused
  · by_cases hother : other = id
    · simp [hother, hused]
    · simp [hother]
  · simp [QueryContext.hasUsedIndex, Bool.beq_eq_decide_eq]

theorem hasUsedIndex_forgetIndexUse (c : QueryContext) (ids : List ExprId) (id : ExprId) :
    (c.forgetIndexUse ids).hasUsedIndex id = (c.hasUsedIndex id && !ids.elem id) := by
  simp only [QueryContext.forgetIndexUse, QueryContext.hasUsedIndex, List.elem_eq_mem]
  rw [Bool.eq_iff_iff]
  simp

/-! ### Judging a context -/

/-- What a judgement says, whether it is computed or kept: the set that is given, what is
narrowed, and whether to narrow it. -/
def Optimizer.Judgement.opinion (j : Optimizer.Judgement) :
    Option SharedSet × Option Sequence × Bool :=
  (j.given, j.working, j.optimize)

/-- The opinion on a context, without anything kept. -/
def opinionOn (s : Store) (bindings : List (String × Sequence)) (found : OptimizeState)
    (context : Option Sequence) : Except QueryError (Option SharedSet × Option Sequence × Bool) :=
  if (context.map Sequence.isPersistent).getD true then do
    let working ← workingIn bindings found context
    let optimize ← (verdict s working found.optimizables).mapError .store
    pure (context.bind Optimizer.sharedOf?, working, optimize)
  else pure Optimizer.Judgement.unjudged.opinion

theorem after_workingSequence (state : OptimizeState) (context : Option Sequence) (r : Run) :
    (Optimizer.workingSequence state context).after r = r := by
  unfold Optimizer.workingSequence
  cases state.contextVariable with
  | none => rfl
  | some name =>
    change (orFail (r.context.value name) >>= fun value => pure (some value)).after r = r
    rw [after_bind, result_orFail, after_orFail]
    cases r.context.value name <;> rfl

theorem result_workingSequence (hstate : state.Valid s sets bindings found) {r : Run}
    (hr : r.context.bindings = bindings) (context : Option Sequence) :
    (Optimizer.workingSequence state context).result r = workingIn bindings found context := by
  unfold Optimizer.workingSequence workingIn
  rw [hstate.contextVariable]
  cases found.contextVariable with
  | none => rfl
  | some name =>
    change (orFail (r.context.value name) >>= fun value => pure (some value)).result r =
      (valueIn bindings name).map some
    rw [result_bind, result_orFail, after_orFail, value_eq_valueIn, hr]
    cases valueIn bindings name <;> rfl

/-- **A kept verdict is the one that would be computed.** -/
theorem verdict_of_cached? (hstate : state.Valid s sets bindings found)
    {context : Option Sequence} (hcontext : ∀ v, context = some v → v.Agrees sets) {b : Bool}
    (hcached : Optimizer.cached? s state (context.bind Optimizer.sharedOf?) = some b)
    {working : Option Sequence} (hworking : workingIn bindings found context = .ok working) :
    verdict s working found.optimizables = .ok b := by
  unfold Optimizer.cached? at hcached
  rw [Option.bind_eq_bind, Option.bind_eq_some_iff] at hcached
  obtain ⟨cached, hcache, hcached⟩ := hcached
  rw [Option.bind_eq_bind, Option.bind_eq_some_iff] at hcached
  obtain ⟨current, hcurrent, hcached⟩ := hcached
  have hvalid := hstate.cache cached hcache
  by_cases hhit : (Optimizer.isSameSet cached.context current &&
      !s.hasChanged current.set cached.state) = true
  · rw [if_pos hhit] at hcached
    obtain rfl := Option.some.inj hcached
    obtain ⟨hsame, hchanged⟩ := (Bool.and_eq_true _ _).mp hhit
    obtain ⟨hsome, hhandle⟩ := (Bool.and_eq_true _ _).mp hsame
    rw [beq_iff_eq] at hhandle
    obtain ⟨handle, hcachedhandle⟩ := Option.isSome_iff_exists.1 hsome
    -- The context is a node set, and it is the one that was judged.
    obtain ⟨v, rfl, hv⟩ := Option.bind_eq_some_iff.1 hcurrent
    cases v with
    | items list => cases hv
    | nodes shared =>
      obtain rfl : shared = current := Option.some.inj hv
      have hset : cached.context = shared := by
        have hleft := hvalid.same _ rfl handle hcachedhandle
        have hright := hcontext _ rfl shared rfl handle (hhandle ▸ hcachedhandle)
        rcases hc : cached.context with ⟨set, handle'⟩
        rcases shared with ⟨set', handle''⟩
        rw [hc] at hleft hhandle
        exact congrArg₂ SharedSet.mk (hleft.symm.trans hright) hhandle
      have hstateOf : cached.state = s.generation := by
        unfold Store.hasChanged Store.stateOf at hchanged
        rw [← hset, hvalid.persistent, if_pos rfl, Bool.not_eq_true', bne_eq_false_iff_eq] at hchanged
        exact hchanged.symm
      rw [hvalid.positive]
      exact hvalid.verdict hstateOf working (hset ▸ hworking)
  · rw [if_neg hhit] at hcached
    cases hcached

/-- **Judging gives the opinion that is given without anything kept.** -/
theorem result_judge (hstate : state.Valid s sets bindings found) {r : Run}
    (hr : r.context.bindings = bindings) {context : Option Sequence}
    (hcontext : ∀ v, context = some v → v.Agrees sets) :
    ((Optimizer.judge s state context).result r).map Optimizer.Judgement.opinion =
      opinionOn s bindings found context := by
  unfold Optimizer.judge opinionOn
  by_cases hpersistent : (context.map Sequence.isPersistent).getD true = true
  · rw [if_pos hpersistent, if_pos hpersistent]
    dsimp only
    rw [result_bind, result_workingSequence hstate hr, after_workingSequence]
    cases hworking : workingIn bindings found context with
    | error e => rfl
    | ok working =>
      rw [ok_bind, ok_bind, hstate.optimizables]
      cases hcached : Optimizer.cached? s state (context.bind Optimizer.sharedOf?) with
      | some b =>
        rw [verdict_of_cached? hstate hcontext hcached hworking]
        rfl
      | none =>
        dsimp only
        cases verdict s working found.optimizables <;> rfl
  · rw [if_neg hpersistent, if_neg hpersistent]
    rfl

/-- Without anything kept judging gives the opinion of course. -/
theorem result_judge_of_uncached (hcache : state.cache = none) {r : Run}
    (hr : r.context.bindings = bindings) (context : Option Sequence) :
    ((Optimizer.judge s state context).result r).map Optimizer.Judgement.opinion =
      opinionOn s bindings state context := by
  -- Nothing is kept under a handle, so that every handle may stand for the context.
  let sets : Nat → NodeSet := fun _ => ((context.bind Sequence.set?).getD .empty)
  have hvalid : state.Valid s sets bindings state :=
    ⟨rfl, rfl, rfl, fun cached h => nomatch hcache.symm.trans h⟩
  refine result_judge hvalid hr fun v hv shared hshared handle _ => ?_
  subst hv hshared
  rfl

/-- Judging leaves the run as it is. -/
theorem after_judge (s : Store) (state : OptimizeState) (context : Option Sequence) (r : Run) :
    (Optimizer.judge s state context).after r = r := by
  unfold Optimizer.judge
  by_cases hpersistent : (context.map Sequence.isPersistent).getD true = true
  · rw [if_pos hpersistent]
    dsimp only
    rw [after_bind, after_workingSequence]
    cases (Optimizer.workingSequence state context).result r with
    | error e => rfl
    | ok working =>
      dsimp only
      cases Optimizer.cached? s state (context.bind Optimizer.sharedOf?) with
      | some b => rfl
      | none =>
        rw [after_bind]
        cases verdict s working state.optimizables <;> rfl
  · rw [if_neg hpersistent]
    rfl

/-- **Where a judgement comes from:** the context is not judged, or the verdict is kept, or it is
computed. -/
theorem eq_of_judge {context : Option Sequence} {r : Run} {j : Optimizer.Judgement}
    (hj : (Optimizer.judge s state context).result r = .ok j) :
    j = .unjudged ∨ ∃ working optimize,
      (Optimizer.cached? s state (context.bind Optimizer.sharedOf?) = some optimize ∧
        j = ⟨context.bind Optimizer.sharedOf?, working, optimize, true, false⟩) ∨
      (verdict s working state.optimizables = .ok optimize ∧
        j = ⟨context.bind Optimizer.sharedOf?, working, optimize, false, true⟩) := by
  unfold Optimizer.judge at hj
  by_cases hpersistent : (context.map Sequence.isPersistent).getD true = true
  · rw [if_pos hpersistent] at hj
    dsimp only at hj
    rw [result_bind] at hj
    obtain ⟨working, -, hj⟩ := bind_eq_ok.1 hj
    cases hcached : Optimizer.cached? s state (context.bind Optimizer.sharedOf?) with
    | some optimize =>
      rw [hcached] at hj
      exact .inr ⟨working, optimize, .inl ⟨rfl, (Except.ok.inj hj).symm⟩⟩
    | none =>
      rw [hcached] at hj
      dsimp only at hj
      rw [result_bind] at hj
      obtain ⟨optimize, hverdict, hj⟩ := bind_eq_ok.1 hj
      exact .inr ⟨working, optimize, .inr ⟨mapError_eq_ok.1 hverdict, (Except.ok.inj hj).symm⟩⟩
  · rw [if_neg hpersistent] at hj
    exact .inl (Except.ok.inj hj).symm

/-- Where only positive verdicts are kept, only positive ones are taken. -/
theorem optimize_of_cached?
    (hpositive : ∀ cached, state.cache = some cached → cached.optimize = true)
    {given : Option SharedSet} {optimize : Bool}
    (h : Optimizer.cached? s state given = some optimize) : optimize = true := by
  unfold Optimizer.cached? at h
  rw [Option.bind_eq_bind, Option.bind_eq_some_iff] at h
  obtain ⟨cached, hcache, h⟩ := h
  rw [Option.bind_eq_bind, Option.bind_eq_some_iff] at h
  obtain ⟨current, -, h⟩ := h
  split_ifs at h
  exact (Option.some.inj h).symm.trans (hpositive cached hcache)

/-- A judgement that takes a verdict from the last time takes a positive one. -/
theorem optimize_of_cacheHit
    (hpositive : ∀ cached, state.cache = some cached → cached.optimize = true)
    {context : Option Sequence} {r : Run} {j : Optimizer.Judgement}
    (hj : (Optimizer.judge s state context).result r = .ok j) (hhit : j.cacheHit = true) :
    j.optimize = true := by
  rcases eq_of_judge hj with rfl | ⟨working, optimize, ⟨hcached, rfl⟩ | ⟨-, rfl⟩⟩
  · cases hhit
  · exact optimize_of_cached? hpositive hcached
  · cases hhit

/-- What an opinion comes from. -/
theorem opinionOn_eq_ok {context : Option Sequence} {given : Option SharedSet}
    {working : Option Sequence} {optimize : Bool}
    (h : opinionOn s bindings found context = .ok (given, working, optimize)) :
    ((context.map Sequence.isPersistent).getD true = true ∧
      given = context.bind Optimizer.sharedOf? ∧ workingIn bindings found context = .ok working ∧
        verdict s working found.optimizables = .ok optimize) ∨
      given = none ∧ working = none ∧ optimize = false := by
  unfold opinionOn at h
  by_cases hpersistent : (context.map Sequence.isPersistent).getD true = true
  · rw [if_pos hpersistent] at h
    obtain ⟨w, hw, h⟩ := bind_eq_ok.1 h
    obtain ⟨b, hb, h⟩ := bind_eq_ok.1 h
    cases h
    exact .inl ⟨hpersistent, rfl, hw, mapError_eq_ok.1 hb⟩
  · rw [if_neg hpersistent] at h
    cases h
    exact .inr ⟨rfl, rfl, rfl⟩

/-- The set that is given is the context. -/
theorem eq_of_bind_sharedOf? {context : Option Sequence} {shared : SharedSet}
    (h : context.bind Optimizer.sharedOf? = some shared) : context = some (.nodes shared) := by
  obtain ⟨v, rfl, hv⟩ := Option.bind_eq_some_iff.1 h
  cases v with
  | items list => cases hv
  | nodes own =>
    obtain rfl : own = shared := Option.some.inj hv
    rfl

/-- **A verdict that has just been given may be kept.** -/
theorem valid_of_opinionOn {context : Option Sequence}
    (hcontext : ∀ v, context = some v → v.Agrees sets) {given : Option SharedSet}
    {working : Option Sequence} (hopinion : opinionOn s bindings found context =
      .ok (given, working, true)) {shared : SharedSet} (hshared : given = some shared) :
    CachedVerdict.Valid s sets bindings found ⟨shared, s.stateOf shared.set, true⟩ := by
  rcases opinionOn_eq_ok hopinion with ⟨hpersistent, rfl, hworking, hverdict⟩ | ⟨_, _, h⟩
  · obtain rfl := eq_of_bind_sharedOf? hshared
    have hstateOf : s.stateOf shared.set = s.generation := by
      unfold Store.stateOf
      exact if_pos hpersistent
    refine ⟨rfl, hcontext _ rfl, hpersistent, Nat.le_of_eq hstateOf, fun _ w hw => ?_⟩
    obtain rfl := Except.ok.inj (hworking.symm.trans hw)
    exact hverdict
  · cases h

end IndexedXml
