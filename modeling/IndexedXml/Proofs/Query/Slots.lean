/-
# What is kept apart

All that a query context keeps stands under numbers of the query: the phases of pragmas, what
optimizers have found out, candidates for steps, and which conditions have used an index.  Numbers
are given out from one on and none twice, so that no two parts of a query share anything there, and
the number that is no expression's is never one under which something is looked up
(`CompiledQuery.numbers_keep_apart`).

Lookups are made under the number of a step, or under the one that analysis hands on into
predicates.
-/

import IndexedXml.Proofs.Query.Kept
import IndexedXml.Proofs.Query.Surroundings

namespace IndexedXml

/-! ### Numbers in a query context -/

/-- **What is kept under one number is not touched under another one.** -/
structure QueryContext.Spares (i j : ExprId) : Prop where
  enter : ∀ (c : QueryContext) phase, (c.enter i phase).phases.get? j = c.phases.get? j
  setOptimizer : ∀ (c : QueryContext) state, (c.setOptimizer i state).optimizer? j = c.optimizer? j
  preload : ∀ (c : QueryContext) candidates,
    (c.preload i candidates).preloaded.get? j = c.preloaded.get? j
  unload : ∀ c : QueryContext, (c.unload i).preloaded.get? j = c.preloaded.get? j
  noteIndexUse : ∀ c : QueryContext, (c.noteIndexUse i).hasUsedIndex j = c.hasUsedIndex j
  forgetIndexUse : ∀ c : QueryContext, (c.forgetIndexUse [i]).hasUsedIndex j = c.hasUsedIndex j

theorem QueryContext.spares_of_ne {i j : ExprId} (h : i ≠ j) : Spares i j where
  enter c phase := by
    unfold enter
    rw [Table.get?_put, if_neg h.symm]
  setOptimizer c state := by
    unfold setOptimizer optimizer?
    rw [Table.get?_put, if_neg h.symm]
  preload c candidates := by
    unfold preload
    rw [Table.get?_put, if_neg h.symm]
  unload c := by
    unfold unload
    rw [Table.get?_erase, if_neg h.symm]
  noteIndexUse c := by
    rw [hasUsedIndex_noteIndexUse, beq_eq_false_iff_ne.2 h.symm, Bool.false_or]
  forgetIndexUse c := by
    rw [hasUsedIndex_forgetIndexUse]
    simp [h.symm]

/-! ### Numbers of surroundings -/

namespace Expr

/-- The numbers that a part has taken from its surroundings: what is looked up for it is looked up
under them. -/
def Part.contextIds : Part → List ExprId
  | .expr (.comparison _ _ _ _ access) | .expr (.call _ _ _ access) => [access.contextId]
  | .expr (.extension _ pragmas _) => pragmas.filterMap fun p => match p.kind with
    | .optimize _ _ contextId => some contextId
    | _ => none
  | _ => []

/-- An expression has predicates, which stand in surroundings with its number. -/
inductive Surrounds (id : ExprId) (ps : List Predicate) : Expr → Prop
  | step (head : StepHead) (hid : head.id = id) : Surrounds id ps (.step head ps)
  | filter (base : Expr) : Surrounds id ps (.filter id base ps)

theorem Surrounds.parts_subset {id : ExprId} {ps : List Predicate} {e : Expr}
    (h : Surrounds id ps e) {p : Predicate} (hp : p ∈ ps) : p.expr.parts ⊆ e.parts := by
  cases h with
  | step head hid => exact parts_subset_step hp
  | filter base => exact parts_subset_filter hp

theorem mem_numbers_of_surrounds {e whole : Expr} {id : ExprId} {ps : List Predicate}
    (h : Surrounds id ps e) (hmem : .expr e ∈ whole.parts) : id ∈ whole.numbers := by
  cases h with
  | step head hid => exact List.mem_flatMap.2 ⟨_, hmem, List.mem_singleton.2 hid.symm⟩
  | filter base => exact List.mem_flatMap.2 ⟨_, hmem, List.mem_singleton_self _⟩

/-- **The parts of an expression are kept apart** by numbers up to a last one. -/
structure KeptApart (last : ExprId) (e : Expr) : Prop where
  /-- No number stands twice. -/
  nodup : e.numbers.Nodup
  /-- Numbers go from one to the last one. -/
  bounds : ∀ i ∈ e.numbers, i ≠ .none ∧ i ≤ last
  /-- Nothing that is kept under a number is touched under another one. -/
  spares : e.numbers.Pairwise fun i j => QueryContext.Spares i j ∧ QueryContext.Spares j i
  /-- A number leads back to one part. -/
  part : ∀ part ∈ e.parts, ∀ part' ∈ e.parts, ∀ i ∈ part.numbers, i ∈ part'.numbers → part = part'
  /-- What a step looks up it looks up under a number. -/
  step : ∀ head ps, .expr (.step head ps) ∈ e.parts → head.id ≠ .none
  /-- What a part of a predicate looks up it looks up under the number of the expression whose
  predicate it is, or of one within the predicate. -/
  condition : ∀ inner id ps, Surrounds id ps inner → .expr inner ∈ e.parts → ∀ p ∈ ps,
    ∀ part ∈ p.expr.parts, ∀ i ∈ part.contextIds, (i = id ∨ i ∈ p.expr.numbers) ∧ i ≠ .none

/-- Analysis enters the number of the surroundings. -/
theorem eq_of_mem_contextIds {e : Expr} {own : Surroundings} {i : ExprId}
    (h : i ∈ Part.contextIds (.expr (e.analyze own))) : i = own.contextId := by
  cases e with
  | comparison id op left right access =>
    rw [analyze] at h
    exact List.mem_singleton.1 h
  | call id function args access =>
    rw [analyze] at h
    exact List.mem_singleton.1 h
  | extension id pragmas body =>
    rw [analyze] at h
    obtain ⟨analyzed, hanalyzed, h⟩ := List.mem_filterMap.1 h
    obtain ⟨p, -, rfl⟩ := List.mem_map.1 hanalyzed
    rcases p with ⟨_, _, _, _ | _ | _, _⟩
    · exact (Option.some.inj h).symm
    · cases h
    · cases h
  | _ => exact absurd h (by rw [analyze]; exact List.not_mem_nil)

/-- **Within an analyzed expression parts have taken the number of the surroundings of the whole,**
or that of a step or filter of it. -/
theorem contextIds_analyze (e : Expr) (around : Surroundings) {part : Part}
    (hpart : part ∈ (e.analyze around).parts) {i : ExprId} (hi : i ∈ part.contextIds) :
    i = around.contextId ∨ i ∈ (e.analyze around).numbers := by
  cases part with
  | predicate p => exact absurd hi List.not_mem_nil
  | expr e' =>
    rw [numbers_analyze]
    have hands : e.HandsOn fun own =>
        own.contextId = around.contextId ∨ own.contextId ∈ e.numbers :=
      ⟨fun _ hown => hown, fun _ _ hown => hown,
        fun head ps hmem _ _ => .inr (List.mem_flatMap.2 ⟨_, hmem, List.mem_singleton_self _⟩),
        fun id base ps hmem _ _ => .inr (List.mem_flatMap.2 ⟨_, hmem, List.mem_singleton_self _⟩)⟩
    obtain ⟨inner, own, rfl, hown⟩ := exists_analyze_of_mem e hands around (.inl rfl) hpart
    exact eq_of_mem_contextIds hi ▸ hown

/-- The predicates of an analyzed expression have been analyzed in surroundings with its number. -/
theorem exists_analyze_of_surrounds {inner : Expr} {own : Surroundings} {id : ExprId}
    {ps : List Predicate} (h : Surrounds id ps (inner.analyze own)) {p : Predicate} (hp : p ∈ ps) :
    ∃ (e : Expr) (around : Surroundings), p.expr = e.analyze around ∧ around.contextId = id := by
  have hpredicates : ∀ (around : Surroundings) ps', p ∈ analyzePredicates around ps' →
      ∃ e : Expr, p.expr = e.analyze around := by
    intro around ps' hmem
    rw [analyzePredicates_eq_map] at hmem
    obtain ⟨p', -, rfl⟩ := List.mem_map.1 hmem
    exact ⟨p'.expr, rfl⟩
  cases inner with
  | step head ps' =>
    rw [analyze] at h
    cases h with
    | step _ hid =>
      obtain ⟨e, he⟩ := hpredicates _ ps' hp
      exact ⟨e, own.ofStep head, he, hid⟩
  | filter own' base ps' =>
    rw [analyze] at h
    cases h with
    | filter _ =>
      obtain ⟨e, he⟩ := hpredicates _ ps' hp
      exact ⟨e, own.ofFilter id, he, rfl⟩
  | _ =>
    rw [analyze] at h
    cases h

end Expr

/-! ### Compiled queries -/

namespace CompiledQuery

variable {source : String} {config : Configuration} {q : CompiledQuery}

/-- **In a compiled query parts in predicates have taken the number of the expression whose
predicates these are,** or that of one within the predicate. -/
theorem contextIds_of_compile (hq : compile source config = .ok q) {e : Expr} {id : ExprId}
    {ps : List Predicate} (hsurrounds : Expr.Surrounds id ps e) (hmem : .expr e ∈ q.root.parts)
    {p : Predicate} (hp : p ∈ ps) {part : Expr.Part} (hpart : part ∈ p.expr.parts) {i : ExprId}
    (hi : i ∈ part.contextIds) : i = id ∨ i ∈ p.expr.numbers := by
  obtain ⟨written, hroot⟩ := exists_analyze_of_compile hq
  obtain ⟨inner, own, rfl, -⟩ := Expr.exists_analyze_of_mem written (Expr.handsOn_trivial written)
    .top trivial (hroot ▸ hmem)
  obtain ⟨e, around, he, rfl⟩ := Expr.exists_analyze_of_surrounds hsurrounds hp
  rw [he] at hpart ⊢
  exact e.contextIds_analyze around hpart hi

/-- **Numbers keep the parts of a compiled query apart.**  They are given out from one on, and
none is given twice, to whatever part or pragma, written or added.  So nothing in a query context
is shared by two of them, and a number leads back to one part; and whatever is looked up for a part
is looked up under a number of the query. -/
theorem numbers_keep_apart (hq : compile source config = .ok q) :
    ∃ surface last, Surface.parse source = .ok surface ∧
      (Expr.ofSurface config surface).run .none = .ok (q.root, last) ∧ q.root.KeptApart last := by
  obtain ⟨surface, last, hsurface, hlast⟩ := exists_ofSurface_of_compile hq
  have hgiven := Expr.given_ofSurface hlast
  have hne : ∀ i ∈ q.root.numbers, i ≠ .none := fun i hi => Nat.ne_of_gt (hgiven.bounds i hi).1
  refine ⟨surface, last, hsurface, hlast, ?_⟩
  constructor
  case nodup => exact hgiven.nodup
  case bounds => exact fun i hi => ⟨hne i hi, (hgiven.bounds i hi).2⟩
  case spares =>
    exact hgiven.nodup.imp fun h =>
      ⟨QueryContext.spares_of_ne h, QueryContext.spares_of_ne h.symm⟩
  case part =>
    exact fun part hpart part' hpart' i hi hi' =>
      Expr.part_unique hgiven.nodup hpart hpart' hi hi'
  case step => exact fun head ps hmem => hne _ (Expr.mem_numbers_of_surrounds (.step head rfl) hmem)
  case condition =>
    intro e id ps hsurrounds hmem p hp part hpart i hi
    have hfrom := contextIds_of_compile hq hsurrounds hmem hp hpart hi
    refine ⟨hfrom, hne i ?_⟩
    rcases hfrom with rfl | hi
    · exact Expr.mem_numbers_of_surrounds hsurrounds hmem
    · exact Expr.numbers_subset (Expr.parts_subset_of_mem q.root hmem)
        (Expr.numbers_subset (hsurrounds.parts_subset hp) hi)

end CompiledQuery

/-! ### Shelves and books -/

/-- The settings with which queries are given optimization. -/
def Configuration.optimizing : Configuration := { standard with autoOptimize := true }

/-- A query whose numbers are given out in an irregular order: a step is put in after the double
slash, the number of the unknown pragma goes to no part, and a pragma is added in the end. -/
def shelvesAndBooks : String :=
  "(//shelf[1][book[title = 'Dune']], (# exist:unknown #) (# exist:optimize #) \x7b " ++
    "$x//book[author = 'Herbert'] \x7d)"

/-- The added pragma and its extension have the last numbers, and eleven is no part's. -/
theorem CompiledQuery.numbers_keep_apart_shelvesAndBooks : ∃ q surface last,
    compile shelvesAndBooks .optimizing = .ok q ∧
      q.root.numbers = [19, 20, 9, 7, 8, 1, 2, 6, 3, 4, 5, 10, 12, 18, 17, 14, 15, 16] ∧
      (Expr.ofSurface .optimizing surface).run .none = .ok (q.root, last) ∧
      q.root.KeptApart last := by
  have hnumbers : (compile shelvesAndBooks .optimizing).map (fun q => q.root.numbers) =
      .ok [19, 20, 9, 7, 8, 1, 2, 6, 3, 4, 5, 10, 12, 18, 17, 14, 15, 16] := by
    decide +kernel
  obtain ⟨q, hq, heq⟩ := map_eq_ok.1 hnumbers
  obtain ⟨surface, last, -, hlast, hapart⟩ := numbers_keep_apart hq
  exact ⟨q, surface, last, hq, heq, hlast, hapart⟩

end IndexedXml
