/-
# Below the pragma `no-index`

Analysis hands the pragma `no-index` on to everything below it, so that no step, comparison or
call there may use an index (`Expr.keepsToTree_of_noIndex`), and an optimizer there finds nothing
to optimize (`Expr.KeepsToTree.conditions_eq_nil`).  Evaluation then looks nothing up, whatever
other pragmas stand beside this one or below it: no lookup is counted, no use of an index is
noted, and it makes no difference whether lookups are switched off
(`CompiledQuery.evaluate_below_noIndex`).
-/

import IndexedXml.Proofs.Query.Discovered
import IndexedXml.Proofs.Query.Kept
import IndexedXml.Proofs.Query.Related
import IndexedXml.Proofs.Query.Surroundings

namespace IndexedXml

/-! ### Analysis -/

theorem Pragma.isNoIndex_analyze (contextId : ExprId) (p : Pragma) :
    (p.analyze contextId).isNoIndex = p.isNoIndex := by
  rcases p with ⟨id, name, contents, _ | _ | _, analyzed⟩ <;> rfl

namespace Expr

/-- Whether a part may not use an index, if it is one that could. -/
def Part.keepsToTree : Part → Bool
  | .expr (.step head _) => head.treeTraversal
  | .expr (.comparison _ _ _ _ access) | .expr (.call _ _ _ access) => access.treeTraversal
  | _ => true

/-- **Nothing in the expression may use an index.** -/
def KeepsToTree (e : Expr) : Prop := ∀ part ∈ e.parts, part.keepsToTree = true

/-- An expression has been analyzed, with tree traversal if `tree` says so. -/
def IsAnalyzedWithin (tree : Bool) (e : Expr) : Prop :=
  ∃ (inner : Expr) (own : Surroundings), e = inner.analyze own ∧
    (tree = true → own.treeTraversal = true)

/-- **Analysis hands tree traversal on to everything below.** -/
theorem isAnalyzedWithin_of_mem {e' : Expr} (e : Expr) (around : Surroundings)
    (h : .expr e' ∈ (e.analyze around).parts) : IsAnalyzedWithin around.treeTraversal e' :=
  exists_analyze_of_mem (P := fun own => around.treeTraversal = true → own.treeTraversal = true) e
    ⟨fun _ hown => hown, fun _ _ hown h => Bool.or_eq_true_iff.2 (.inl (hown h)),
      fun _ _ _ _ hown => hown, fun _ _ _ _ _ hown => hown⟩ around id h

theorem keepsToTree_analyze {around : Surroundings} (h : around.treeTraversal = true) (e : Expr) :
    (e.analyze around).KeepsToTree := by
  intro part hpart
  cases part with
  | predicate p => rfl
  | expr e' =>
    obtain ⟨inner, own, rfl, htree⟩ := isAnalyzedWithin_of_mem e around hpart
    cases inner with
    | step | comparison | call => exact htree h
    | _ => rfl

/-- **Nothing below the pragma `no-index` may use an index,** wherever the pragma stands and
whatever pragmas stand beside it. -/
theorem keepsToTree_of_noIndex {e body : Expr} {around : Surroundings} {id : ExprId}
    {pragmas : List Pragma} (hpart : .expr (.extension id pragmas body) ∈ (e.analyze around).parts)
    (hnoIndex : pragmas.any Pragma.isNoIndex = true) : body.KeepsToTree := by
  obtain ⟨inner, own, heq, -⟩ := isAnalyzedWithin_of_mem e around hpart
  cases inner with
  | extension id' pragmas' inner =>
    obtain ⟨-, rfl, rfl⟩ := extension.inj heq
    refine keepsToTree_analyze (Bool.or_eq_true_iff.2 (.inr ?_)) inner
    rwa [List.any_map, funext fun p => show (Pragma.isNoIndex ∘ Pragma.analyze own.contextId) p = _ from
      Pragma.isNoIndex_analyze own.contextId p] at hnoIndex
  | _ => cases heq

/-! ### What keeps to tree traversal -/

theorem KeepsToTree.mono {e e' : Expr} (h : e.KeepsToTree) (hparts : e'.parts ⊆ e.parts) :
    e'.KeepsToTree := fun part hpart => h part (hparts hpart)

/-- What keeps to tree traversal is not answered from an index. -/
theorem KeepsToTree.probe?_eq_none {e : Expr} (h : e.KeepsToTree) : e.probe? = none := by
  have hself := h _ (self_mem_parts e)
  cases e with
  | comparison id op left right access | call id function args access =>
    have hunusable : access.usable? = none := if_pos hself
    rw [probe?, access?]
    simp [hunusable]
  | _ => rfl

/-- **What keeps to tree traversal offers nothing to optimize.** -/
theorem KeepsToTree.conditions_eq_nil {e : Expr} (h : e.KeepsToTree) : e.conditions = [] := by
  have hcondition : ∀ {e : Expr}, e.KeepsToTree → e.optimizable? = none := by
    intro e h
    rw [optimizable?, h.probe?_eq_none]
    rfl
  induction e using Expr.induct with
  | path id steps ih =>
    rw [conditions_path]
    exact List.flatMap_eq_nil_iff.2 fun e he => ih e he (h.mono (parts_subset_path he))
  | step head predicates ih =>
    rw [conditions_step]
    exact List.flatMap_eq_nil_iff.2 fun p hp => ih p hp (h.mono (parts_subset_step hp))
  | filter id base predicates _ ih =>
    refine (map_fst_predicateOptimizables (fun p _ => map_fst_optimizables p.expr) none 0).trans ?_
    exact List.flatMap_eq_nil_iff.2 fun p hp => ih p hp (h.mono (parts_subset_filter hp))
  | comparison id op left right access _ _ =>
    refine (map_fst_found none _).trans ?_
    rw [hcondition h]
    rfl
  | call id function args access _ =>
    refine (map_fst_found none _).trans ?_
    rw [hcondition h]
    rfl
  | _ => rfl

end Expr

/-! ### Computations that look nothing up -/

/-- **The optimizers in an expression have found nothing to optimize,** as far as the context
knows them. -/
def FindsNothing (whole : Expr) (c : QueryContext) : Prop :=
  ∀ p enabled body, Pragma.Optimizes whole p enabled body → ∀ state, c.optimizer? p.id = some state →
    state.optimizables = []

namespace FindsNothing

variable {whole : Expr} {c : QueryContext}

theorem setOptimizer (h : FindsNothing whole c) {id : ExprId} {state : OptimizeState}
    (hstate : state.optimizables = []) : FindsNothing whole (c.setOptimizer id state) := by
  intro p enabled body hp own hown
  have hget : (c.optimizers.put id state).get? p.id = some own := hown
  rw [Table.get?_put] at hget
  split_ifs at hget
  · obtain rfl := Option.some.inj hget
    exact hstate
  · exact h p enabled body hp own hget

theorem updateOptimizer (h : FindsNothing whole c) {p : Pragma} {enabled : Bool} {body : Expr}
    (hp : p.Optimizes whole enabled body) {f : OptimizeState → OptimizeState}
    (hf : ∀ state, (f state).optimizables = state.optimizables) :
    FindsNothing whole (c.updateOptimizer p.id f) := by
  unfold QueryContext.updateOptimizer
  cases hstate : c.optimizer? p.id with
  | none => exact h
  | some state => exact h.setOptimizer ((hf state).trans (h p enabled body hp state hstate))

end FindsNothing

/-- A change of an optimizer is no use of an index. -/
theorem hasUsedIndex_updateOptimizer (c : QueryContext) (id : ExprId)
    (f : OptimizeState → OptimizeState) (other : ExprId) :
    (c.updateOptimizer id f).hasUsedIndex other = c.hasUsedIndex other := by
  unfold QueryContext.hasUsedIndex
  rw [QueryContext.usedIndexes_updateOptimizer]

namespace Evaluation

variable {α β : Type} {whole : Expr}

/-- **What is left after a computation that looks nothing up:** no lookup has been counted, no
use of an index noted, and nothing found to optimize. -/
structure Spares (whole : Expr) (before after : Run) : Prop where
  counts : after.counts = before.counts
  uses : ∀ id, after.context.hasUsedIndex id = true → before.context.hasUsedIndex id = true
  finds : FindsNothing whole after.context

theorem Spares.trans {r₁ r₂ r₃ : Run} (h : Spares whole r₁ r₂) (h' : Spares whole r₂ r₃) :
    Spares whole r₁ r₃ :=
  ⟨h'.counts.trans h.counts, fun id hid => h.uses id (h'.uses id hid), h'.finds⟩

/-- **Two computations look nothing up and are the same,** as long as nothing is found to
optimize. -/
def LooksNothingUp (whole : Expr) (α : Type) (m m' : Evaluation α) : Prop :=
  ∀ r, FindsNothing whole r.context →
    m.result r = m'.result r ∧ m.after r = m'.after r ∧ Spares whole r (m.after r)

namespace LooksNothingUp

theorem composes (whole : Expr) : Composes (LooksNothingUp whole) where
  pure _ _ hr := ⟨rfl, rfl, rfl, fun _ h => h, hr⟩
  orFail _ _ hr := ⟨rfl, rfl, rfl, fun _ h => h, hr⟩
  queryContext _ hr := ⟨rfl, rfl, rfl, fun _ h => h, hr⟩
  bind := by
    intro α β m m' f f' hm hf r hr
    obtain ⟨hresult, hafter, hspares⟩ := hm r hr
    rw [result_bind, result_bind, after_bind, after_bind, ← hresult, ← hafter]
    cases m.result r with
    | error e => exact ⟨rfl, rfl, hspares⟩
    | ok a =>
      obtain ⟨hresult, hafter, hmore⟩ := hf a (m.after r) hspares.finds
      exact ⟨hresult, hafter, hspares.trans hmore⟩

/-- What is read of the context is known to hold nothing to optimize. -/
theorem queryContext_bind {f f' : QueryContext → Evaluation β}
    (h : ∀ c, FindsNothing whole c → LooksNothingUp whole β (f c) (f' c)) :
    LooksNothingUp whole β (queryContext >>= f) (queryContext >>= f') :=
  fun r hr => h r.context hr r hr

theorem update {f : QueryContext → QueryContext}
    (huses : ∀ c id, (f c).hasUsedIndex id = true → c.hasUsedIndex id = true)
    (hfinds : ∀ c, FindsNothing whole c → FindsNothing whole (f c)) :
    LooksNothingUp whole Unit (Evaluation.update f) (Evaluation.update f) :=
  fun r hr => ⟨rfl, rfl, rfl, huses r.context, hfinds r.context hr⟩

theorem preloading (step : ExprId) (candidates : NodeSet) {m m' : Evaluation α}
    (hm : LooksNothingUp whole α m m') :
    LooksNothingUp whole α (preloading step candidates m) (preloading step candidates m') := by
  intro r hr
  obtain ⟨hresult, hafter, hspares⟩ := hm { r with context := r.context.preload step candidates } hr
  refine ⟨hresult, ?_, hspares.counts, hspares.uses, hspares.finds⟩
  exact congrArg (fun after : Run => { after with context := after.context.unload step }) hafter

end LooksNothingUp

variable (s : Store) (a b : Bool)

open LooksNothingUp (composes)

theorem looksNothingUp_enter (id : ExprId) (phase : Phase) :
    LooksNothingUp whole Unit (update (·.enter id phase)) (update (·.enter id phase)) :=
  .update (fun _ _ h => h) fun _ h => h

/-! ### Steps and predicates -/

theorem looksNothingUp_selectAxis {head : StepHead} (htree : head.treeTraversal = true)
    (context : NodeSet) :
    LooksNothingUp whole NodeSet (selectAxis (s.interrupt a) head context)
      (selectAxis (s.interrupt b) head context) := by
  have hlookup : ∀ s, nameLookup? s head context = none := by
    intro s
    unfold nameLookup?
    rw [htree]
    split
    · next h => cases h
    · rfl
  refine (composes whole).bind (composes whole).queryContext fun c => ?_
  dsimp only
  split
  · exact (composes whole).pure _
  · unfold selectUnprepared
    rw [hlookup, hlookup, Store.navigate_congr (s := s.interrupt a) (t := s.interrupt b) rfl]
    exact (composes whole).ofStore _

/-! ### Pragmas -/

variable {p : Pragma} {enabled : Bool} {inner : Expr}

theorem looksNothingUp_updateOptimizer (hp : p.Optimizes whole enabled inner)
    {f : OptimizeState → OptimizeState} (hf : ∀ state, (f state).optimizables = state.optimizables) :
    LooksNothingUp whole Unit (update (·.updateOptimizer p.id f))
      (update (·.updateOptimizer p.id f)) :=
  .update (fun c id h => (hasUsedIndex_updateOptimizer c p.id f id).symm.trans h)
    fun _ h => h.updateOptimizer hp hf

/-- **With nothing to optimize, narrowing looks nothing up.** -/
theorem looksNothingUp_narrow (hp : p.Optimizes whole enabled inner) {state : OptimizeState}
    (hstate : state.optimizables = []) {body body' : Focus → Evaluation Sequence}
    (hbody : ∀ focus, LooksNothingUp whole Sequence (body focus) (body' focus))
    (j : Optimizer.Judgement) :
    LooksNothingUp whole Sequence (Optimizer.narrow (s.interrupt a) p.id state body j)
      (Optimizer.narrow (s.interrupt b) p.id state body' j) := by
  unfold Optimizer.narrow
  rw [hstate]
  refine (composes whole).bind ((composes whole).orFail _) fun context => ?_
  refine (composes whole).bind ((composes whole).pure _) fun rounds => ?_
  refine (composes whole).bind (looksNothingUp_updateOptimizer hp fun _ => rfl) fun _ => ?_
  dsimp only
  split
  · exact hbody _
  · exact .preloading _ _ (hbody _)

theorem looksNothingUp_optimize (hp : p.Optimizes whole enabled inner)
    {body body' : Focus → Evaluation Sequence}
    (hbody : ∀ focus, LooksNothingUp whole Sequence (body focus) (body' focus)) (focus : Focus) :
    LooksNothingUp whole Sequence (Optimizer.evaluate (s.interrupt a) p.id body focus)
      (Optimizer.evaluate (s.interrupt b) p.id body' focus) := by
  refine .queryContext_bind fun c hc => ?_
  split
  · exact hbody focus
  · next state hstate =>
    refine (composes whole).bind (related_judge s a b (composes whole) _ _) fun j => ?_
    refine (composes whole).bind (looksNothingUp_updateOptimizer hp fun _ => rfl) fun _ => ?_
    split_ifs
    · exact looksNothingUp_narrow s a b hp (hc p enabled inner hp state hstate) hbody j
    · exact (composes whole).bind (looksNothingUp_updateOptimizer hp fun _ => rfl) fun _ => hbody _

/-- An optimizer of what keeps to tree traversal finds nothing to optimize. -/
theorem looksNothingUp_activate (htree : inner.KeepsToTree) (p : Pragma) :
    LooksNothingUp whole Unit (activate inner p) (activate inner p) := by
  have hfound : ∀ enabled, (Pragma.found enabled inner).optimizables = [] := by
    rintro (_ | _)
    · rfl
    · exact htree.conditions_eq_nil
  unfold activate
  split
  · next explicit enabled context hkind =>
    refine (composes whole).bind (.update (fun c id h => ?_) fun c hc => ?_) fun _ =>
      looksNothingUp_enter _ _
    · split at h <;> exact h
    · split
      · exact hc
      · exact hc.setOptimizer (hfound enabled)
  · exact looksNothingUp_enter _ _
  · refine (composes whole).bind (.update (fun c id h => ?_) fun c hc => hc) fun _ =>
      looksNothingUp_enter _ _
    rw [hasUsedIndex_forgetIndexUse, Bool.and_eq_true] at h
    exact h.1

end Evaluation

/-! ### Expressions -/

open Evaluation

namespace Expr

variable {s : Store} {a b : Bool} {whole : Expr}

theorem looksNothingUp_extension {id : ExprId} {pragmas : List Pragma} {body : Expr}
    (hpart : .expr (.extension id pragmas body) ∈ whole.parts) (htree : body.KeepsToTree)
    (hbody : Related (LooksNothingUp whole) s a b body) :
    Related (LooksNothingUp whole) s a b (.extension id pragmas body) := by
  intro focus
  rw [evaluate, evaluate]
  refine related_evaluateExtension s a b (LooksNothingUp.composes whole) looksNothingUp_enter
    (fun p _ => looksNothingUp_activate htree p) hbody ?_ focus
  intro p hp explicit enabled context hkind
  exact looksNothingUp_optimize s a b ⟨⟨id, pragmas, hpart, hp⟩, explicit, context, hkind⟩ hbody

/-- **What keeps to tree traversal looks nothing up.** -/
theorem KeepsToTree.looksNothingUp {e : Expr} (h : e.KeepsToTree) (hparts : e.parts ⊆ whole.parts) :
    Related (LooksNothingUp whole) s a b e := by
  refine related_evaluate (LooksNothingUp.composes whole) e ⟨?_, ?_, ?_⟩
  · exact fun head ps hmem context => looksNothingUp_selectAxis s a b (h _ hmem) context
  · intro e' hmem mode sequence
    have hunprobed : ∀ s, applyByIndex s mode none sequence = pure none := by
      intro s
      cases mode <;> rfl
    rw [(h.mono (parts_subset_of_mem e hmem)).probe?_eq_none, hunprobed, hunprobed]
    exact (LooksNothingUp.composes whole).pure _
  · intro id pragmas body hmem
    have hbody : body.parts ⊆ e.parts := fun _ hpart =>
      parts_subset_of_mem e hmem (parts_subset_extension id pragmas body hpart)
    exact looksNothingUp_extension (hparts hmem) (h.mono hbody)

/-- What is optimized below the expression keeps to tree traversal too. -/
theorem KeepsToTree.of_optimizes {e inner : Expr} (h : e.KeepsToTree) {p : Pragma} {enabled : Bool}
    (hp : p.Optimizes e enabled inner) : inner.KeepsToTree := by
  obtain ⟨⟨id, pragmas, hpart, -⟩, -⟩ := hp
  exact h.mono fun _ h => parts_subset_of_mem e hpart (parts_subset_extension id pragmas inner h)

/-- **An expression uses no index.**  Whatever the store, the focus and the run, as long as the
query context knows of the optimizers in the expression only what they find out: no lookup is
counted, no use of an index is noted, and the evaluation ends in the same way whether or not
lookups are switched off. -/
def UsesNoIndex (e : Expr) : Prop :=
  ∀ (s : Store) (focus : Focus) (run : Run),
    (∀ p enabled inner, Pragma.Optimizes e p enabled inner → ∀ state,
      run.context.optimizer? p.id = some state →
        state.optimizables = (Pragma.found enabled inner).optimizables) →
    ((e.evaluate s focus).run run).2.counts = run.counts ∧
    (∀ id, ((e.evaluate s focus).run run).2.context.hasUsedIndex id = true →
      run.context.hasUsedIndex id = true) ∧
    ∀ off, (e.evaluate (s.interrupt off) focus).run run = (e.evaluate s focus).run run

theorem KeepsToTree.usesNoIndex {e : Expr} (h : e.KeepsToTree) : e.UsesNoIndex := by
  intro s focus run hrun
  have hfinds : FindsNothing e run.context := by
    intro p enabled inner hp state hstate
    rw [hrun p enabled inner hp state hstate]
    cases enabled with
    | false => rfl
    | true => exact (h.of_optimizes hp).conditions_eq_nil
  -- Switching lookups to what they are switched to already leaves the store as it is.
  have hlooks : ∀ off, (e.evaluate (s.interrupt off) focus).run run =
        (e.evaluate (s.interrupt s.interrupted) focus).run run ∧
      Spares e run ((e.evaluate (s.interrupt off) focus).run run).2 := by
    intro off
    obtain ⟨hresult, hafter, hspares⟩ :=
      h.looksNothingUp (fun _ h => h) focus run hfinds (a := off) (b := s.interrupted)
    exact ⟨Prod.ext hresult hafter, hspares⟩
  have hspares := (hlooks s.interrupted).2
  exact ⟨hspares.counts, hspares.uses, fun off => (hlooks off).1⟩

/-- An extension keeps to tree traversal when what is in it does. -/
theorem KeepsToTree.extension {id : ExprId} {pragmas : List Pragma} {body : Expr}
    (h : body.KeepsToTree) : (Expr.extension id pragmas body).KeepsToTree := fun part hpart =>
  (List.mem_cons.1 hpart).elim (fun heq => heq ▸ rfl) (h part)

end Expr

/-! ### Compiled queries -/

/-- Whether a query is written with the pragma `no-index`, alone or beside others. -/
def Surface.isBelowNoIndex : Surface → Bool
  | .pragma decls (some _) =>
    decls.any fun decl => decide (Pragma.resolveName decl.name = Pragma.exist "no-index")
  | _ => false

/-- A declared pragma `no-index` is among the pragmas that the declarations stand for. -/
theorem Pragma.any_isNoIndex_ofDecls {config : Configuration} {decls : List PragmaDecl}
    {decl : PragmaDecl} (hdecl : decl ∈ decls) (hname : resolveName decl.name = exist "no-index") :
    ∀ {n pragmas m}, (ofDecls config decls).run n = .ok (pragmas, m) →
      pragmas.any isNoIndex = true := by
  induction decls with
  | nil => cases hdecl
  | cons first rest ih =>
    intro n pragmas m h
    rw [ofDecls] at h
    obtain ⟨id, k₁, -, h⟩ := run_bind_eq_ok.1 h
    obtain ⟨created, k₂, hcreated, h⟩ := run_bind_eq_ok.1 h
    obtain ⟨later, k₃, hlater, h⟩ := run_bind_eq_ok.1 h
    obtain ⟨rfl, rfl⟩ := run_pure_eq_ok.1 h
    rw [List.any_append, Bool.or_eq_true]
    rcases List.mem_cons.1 hdecl with rfl | hdecl
    · have hknown : create id (resolveName decl.name) decl.contents config true =
          .ok (some ⟨id, exist "no-index", Text.trim decl.contents, .noIndex, false⟩) := by
        rw [hname]
        rfl
      obtain ⟨hcreated, -⟩ := run_lift_eq_ok.1 hcreated
      obtain rfl := Except.ok.inj (hknown.symm.trans hcreated)
      exact .inl rfl
    · exact .inr (ih hdecl hlater)

namespace CompiledQuery

variable {source : String} {config : Configuration} {q : CompiledQuery}

/-- A query that is written with the pragma `no-index` is compiled to an expression with it. -/
theorem exists_extension_of_noIndex (hq : compile source config = .ok q) {surface : Surface}
    (hsource : Surface.parse source = .ok surface) (hnoIndex : surface.isBelowNoIndex = true) :
    ∃ id pragmas body, q.root = .extension id pragmas body ∧
      pragmas.any Pragma.isNoIndex = true := by
  obtain ⟨decls, inner, rfl⟩ : ∃ decls inner, surface = .pragma decls (some inner) := by
    cases surface with
    | pragma decls inner =>
      cases inner with
      | none => cases hnoIndex
      | some inner => exact ⟨decls, inner, rfl⟩
    | _ => cases hnoIndex
  obtain ⟨decl, hdecl, hname⟩ := List.any_eq_true.1 hnoIndex
  unfold compile at hq
  rw [hsource, ok_bind] at hq
  obtain ⟨⟨analyzed, m⟩, hanalyzed, hq⟩ := bind_eq_ok.1 hq
  obtain rfl := Except.ok.inj hq
  unfold Expr.ofSurface at hanalyzed
  obtain ⟨lowered, k, hlowered, hanalyzed⟩ := run_bind_eq_ok.1 hanalyzed
  rw [Surface.lower_pragma] at hlowered
  obtain ⟨id, k₁, -, hlowered⟩ := run_bind_eq_ok.1 hlowered
  obtain ⟨pragmas, k₂, hpragmas, hlowered⟩ := run_bind_eq_ok.1 hlowered
  obtain ⟨body, k₃, -, hlowered⟩ := run_bind_eq_ok.1 hlowered
  have hany := Pragma.any_isNoIndex_ofDecls hdecl (of_decide_eq_true hname) hpragmas
  have hne : pragmas.isEmpty = false := by
    cases pragmas with
    | nil => cases hany
    | cons p rest => rfl
  rw [hne, if_neg Bool.false_ne_true] at hlowered
  obtain ⟨rfl, -⟩ := run_pure_eq_ok.1 hlowered
  refine ⟨id, pragmas.map (Pragma.analyze .none), body.analyze (Surroundings.top.below pragmas),
    ?_, ?_⟩
  · split_ifs at hanalyzed
    · obtain ⟨e, k', he, hanalyzed⟩ := run_bind_eq_ok.1 hanalyzed
      obtain ⟨rfl, -⟩ := run_pure_eq_ok.1 he
      exact (run_pure_eq_ok.1 hanalyzed).1.symm
    · exact (run_pure_eq_ok.1 hanalyzed).1.symm
  · rwa [List.any_map, funext fun p => show (Pragma.isNoIndex ∘ Pragma.analyze .none) p = _ from
      Pragma.isNoIndex_analyze .none p]

/-- **Below the pragma `no-index` no index is used.**  A query that is written with the pragma,
alone or beside others, uses no index, and no more does an expression with the pragma that
stands anywhere in a query: its evaluation counts no lookup and notes no use of an index, and it
ends in the same way whether or not lookups are switched off. -/
theorem usesNoIndex_of_noIndex (hq : compile source config = .ok q) :
    (∀ surface, Surface.parse source = .ok surface → surface.isBelowNoIndex = true →
      q.root.UsesNoIndex) ∧
    ∀ id pragmas body, .expr (.extension id pragmas body) ∈ q.root.parts →
      pragmas.any Pragma.isNoIndex = true → (Expr.extension id pragmas body).UsesNoIndex := by
  obtain ⟨e, he⟩ := exists_analyze_of_compile hq
  have hpart : ∀ id pragmas body, .expr (.extension id pragmas body) ∈ q.root.parts →
      pragmas.any Pragma.isNoIndex = true → (Expr.extension id pragmas body).UsesNoIndex :=
    fun id pragmas body hpart hnoIndex =>
      (Expr.KeepsToTree.extension (Expr.keepsToTree_of_noIndex (he ▸ hpart) hnoIndex)).usesNoIndex
  refine ⟨fun surface hsource hnoIndex => ?_, hpart⟩
  obtain ⟨id, pragmas, body, hroot, hpragmas⟩ := exists_extension_of_noIndex hq hsource hnoIndex
  rw [hroot]
  exact hpart id pragmas body (hroot ▸ Expr.self_mem_parts _) hpragmas

/-- A query that would be optimized if it were not for the pragma beside. -/
theorem usesNoIndex_of_noIndex_bookQuery : ∃ q,
    compile "(# exist:optimize #) (# exist:no-index #) \x7b //book[title = 'Dune'] \x7d" .standard =
      .ok q ∧ q.root.UsesNoIndex := by
  let source := "(# exist:optimize #) (# exist:no-index #) \x7b //book[title = 'Dune'] \x7d"
  have hcompiles : (compile source .standard).toBool = true := by
    decide +kernel
  have hparses : (Surface.parse source).map Surface.isBelowNoIndex = .ok true := by
    decide +kernel
  obtain ⟨surface, hsource, hnoIndex⟩ := map_eq_ok.1 hparses
  cases hq : compile source .standard with
  | error e =>
    rw [hq] at hcompiles
    cases hcompiles
  | ok q => exact ⟨q, rfl, (usesNoIndex_of_noIndex hq).1 surface hsource hnoIndex⟩

end CompiledQuery
end IndexedXml
