/-
# What parts are analyzed in

Analysis goes through an expression with the surroundings of each part.  What is so of the
surroundings of the whole is so of those of every part, as long as it is handed on where analysis
changes them (`Expr.HandsOn`): after the first step of a path, in the predicates of steps and
filters, and below pragmas.  Every part of an analyzed expression is then the analysis of
something in surroundings of which it is so (`Expr.exists_analyze_of_mem`).
-/

import IndexedXml.Proofs.Query.Renumbering

namespace IndexedXml
namespace Expr

/-- **What is so of surroundings is handed on** within an expression. -/
structure HandsOn (P : Surroundings → Prop) (e : Expr) : Prop where
  withoutOuter : ∀ own, P own → P own.withoutOuter
  below : ∀ own pragmas, P own → P (own.below pragmas)
  ofStep : ∀ head ps, .expr (.step head ps) ∈ e.parts → ∀ own, P own → P (own.ofStep head)
  ofFilter : ∀ id base ps, .expr (.filter id base ps) ∈ e.parts → ∀ own, P own → P (own.ofFilter id)

section

variable {P : Surroundings → Prop} {around : Surroundings} {e' : Expr}

theorem HandsOn.mono {e inner : Expr} (h : e.HandsOn P) (hparts : inner.parts ⊆ e.parts) :
    inner.HandsOn P :=
  ⟨h.withoutOuter, h.below, fun head ps hmem => h.ofStep head ps (hparts hmem),
    fun id base ps hmem => h.ofFilter id base ps (hparts hmem)⟩

theorem handsOn_trivial (e : Expr) : e.HandsOn fun _ => True :=
  ⟨fun _ _ => trivial, fun _ _ _ => trivial, fun _ _ _ _ _ => trivial, fun _ _ _ _ _ _ => trivial⟩

variable (P e') in
/-- An expression is the analysis of another one in surroundings of which something is so. -/
def IsAnalyzedIn : Prop := ∃ (inner : Expr) (own : Surroundings), e' = inner.analyze own ∧ P own

theorem isAnalyzedIn_of_mem_cons {inside : List Part} (e : Expr) (haround : P around)
    (h : .expr e' ∈ .expr (e.analyze around) :: inside)
    (hinside : .expr e' ∈ inside → IsAnalyzedIn P e') : IsAnalyzedIn P e' := by
  rcases List.mem_cons.1 h with heq | h
  · exact ⟨e, around, Part.expr.inj heq, haround⟩
  · exact hinside h

theorem isAnalyzedIn_of_mem_partsOf (haround : P around) {es : List Expr}
    (ih : ∀ e ∈ es, ∀ around, P around → .expr e' ∈ (e.analyze around).parts → IsAnalyzedIn P e')
    (h : .expr e' ∈ partsOf (analyzeAll around es)) : IsAnalyzedIn P e' := by
  obtain ⟨analyzed, hmem, h⟩ := mem_partsOf.1 h
  rw [analyzeAll_eq_map] at hmem
  obtain ⟨e, he, rfl⟩ := List.mem_map.1 hmem
  exact ih e he around haround h

theorem isAnalyzedIn_of_mem_predicateParts (haround : P around) {ps : List Predicate}
    (ih : ∀ p ∈ ps, ∀ around, P around → .expr e' ∈ (p.expr.analyze around).parts →
      IsAnalyzedIn P e')
    (h : .expr e' ∈ predicateParts (analyzePredicates around ps)) : IsAnalyzedIn P e' := by
  obtain ⟨analyzed, hmem, h⟩ := mem_predicateParts.1 h
  rw [analyzePredicates_eq_map] at hmem
  obtain ⟨p, hp, rfl⟩ := List.mem_map.1 hmem
  exact ih p hp around haround (h.resolve_left Part.noConfusion)

/-- **Every part of an analyzed expression is the analysis of something** in surroundings of which
all is so that is handed on. -/
theorem exists_analyze_of_mem (e : Expr) : e.HandsOn P → ∀ around, P around →
    .expr e' ∈ (e.analyze around).parts → IsAnalyzedIn P e' := by
  induction e using Expr.induct with
  | path id steps ih =>
    intro hands around haround h
    have hsteps := fun e he => ih e he (hands.mono (parts_subset_path he))
    refine isAnalyzedIn_of_mem_cons (path id steps) haround h fun h => ?_
    cases steps with
    | nil => exact absurd h List.not_mem_nil
    | cons first rest =>
      rcases List.mem_append.1 h with h | h
      · exact hsteps first List.mem_cons_self around haround h
      · exact isAnalyzedIn_of_mem_partsOf (hands.withoutOuter around haround)
          (fun e he => hsteps e (List.mem_cons_of_mem _ he)) h
  | step head predicates ih =>
    intro hands around haround h
    exact isAnalyzedIn_of_mem_cons (step head predicates) haround h
      (isAnalyzedIn_of_mem_predicateParts
        (hands.ofStep head predicates (self_mem_parts _) around haround)
        fun p hp => ih p hp (hands.mono (parts_subset_step hp)))
  | filter id base predicates hbase ih =>
    intro hands around haround h
    refine isAnalyzedIn_of_mem_cons (filter id base predicates) haround h fun h => ?_
    rcases List.mem_append.1 h with h | h
    · exact hbase (hands.mono (parts_subset_base id base predicates)) around haround h
    · exact isAnalyzedIn_of_mem_predicateParts
        (hands.ofFilter id base predicates (self_mem_parts _) around haround)
        (fun p hp => ih p hp (hands.mono (parts_subset_filter hp))) h
  | comparison id op left right access hleft hright =>
    intro hands around haround h
    obtain ⟨hl, hr⟩ := parts_subset_sides
      (show (comparison id op left right access).parts = _ from rfl)
    exact isAnalyzedIn_of_mem_cons (comparison id op left right access) haround h
      fun h => (List.mem_append.1 h).elim (hleft (hands.mono hl) around haround)
        (hright (hands.mono hr) around haround)
  | call id function args access ih =>
    intro hands around haround h
    exact isAnalyzedIn_of_mem_cons (call id function args access) haround h
      (isAnalyzedIn_of_mem_partsOf haround fun e he => ih e he (hands.mono (parts_subset_call he)))
  | and left right hleft hright =>
    intro hands around haround h
    obtain ⟨hl, hr⟩ := parts_subset_sides (show (and left right).parts = _ from rfl)
    exact isAnalyzedIn_of_mem_cons (and left right) haround h
      fun h => (List.mem_append.1 h).elim (hleft (hands.mono hl) around haround)
        (hright (hands.mono hr) around haround)
  | or left right hleft hright =>
    intro hands around haround h
    obtain ⟨hl, hr⟩ := parts_subset_sides (show (or left right).parts = _ from rfl)
    exact isAnalyzedIn_of_mem_cons (or left right) haround h
      fun h => (List.mem_append.1 h).elim (hleft (hands.mono hl) around haround)
        (hright (hands.mono hr) around haround)
  | sequence items ih =>
    intro hands around haround h
    exact isAnalyzedIn_of_mem_cons (sequence items) haround h
      (isAnalyzedIn_of_mem_partsOf haround fun e he =>
        ih e he (hands.mono (parts_subset_sequence he)))
  | extension id pragmas body ih =>
    intro hands around haround h
    exact isAnalyzedIn_of_mem_cons (extension id pragmas body) haround h
      (ih (hands.mono (parts_subset_extension id pragmas body)) (around.below pragmas)
        (hands.below around pragmas haround))
  | root =>
    exact fun _ around haround h =>
      isAnalyzedIn_of_mem_cons root haround h fun h => absurd h List.not_mem_nil
  | var name =>
    exact fun _ around haround h =>
      isAnalyzedIn_of_mem_cons (.variable name) haround h fun h => absurd h List.not_mem_nil
  | literal value =>
    exact fun _ around haround h =>
      isAnalyzedIn_of_mem_cons (literal value) haround h fun h => absurd h List.not_mem_nil

end

end Expr

/-! ### Compiled queries -/

/-- What is compiled has been analyzed. -/
theorem CompiledQuery.exists_analyze_of_compile {source : String} {config : Configuration}
    {q : CompiledQuery} (hq : compile source config = .ok q) :
    ∃ e : Expr, q.root = e.analyze .top := by
  obtain ⟨surface, last, -, h⟩ := exists_ofSurface_of_compile hq
  unfold Expr.ofSurface at h
  obtain ⟨lowered, k, -, h⟩ := run_bind_eq_ok.1 h
  split_ifs at h
  · obtain ⟨e, k', -, h⟩ := run_bind_eq_ok.1 h
    exact ⟨e, (run_pure_eq_ok.1 h).1.symm⟩
  · exact ⟨lowered, (run_pure_eq_ok.1 h).1.symm⟩

end IndexedXml
