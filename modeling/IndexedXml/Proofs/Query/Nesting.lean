/-
# Pragmas below pragmas

Discovery does not look below pragmas.  So the step that owns a condition of an expression stands
outside the pragmas in it (`Expr.owner_eq_or_outside`), and as no two parts have one number, no
part below one of them has the number of that step (`Expr.Encloses`).  Where there are conditions,
the context step owns the first one, although the search for it does look below pragmas
(`Expr.contextStep?_outside`).
-/

import IndexedXml.Proofs.Query.Narrowed

namespace IndexedXml
namespace Expr

/-! ### Numbers below pragmas -/

/-- **A number below a pragma** that stands in an expression. -/
def Encloses (e : Expr) (i : ExprId) : Prop :=
  ∃ id pragmas body, .expr (.extension id pragmas body) ∈ e.parts ∧ i ∈ body.numbers

variable {e : Expr} {i : ExprId}

theorem Encloses.mem_numbers (h : e.Encloses i) : i ∈ e.numbers := by
  obtain ⟨id, pragmas, body, hpart, hi⟩ := h
  refine numbers_subset ?_ hi
  exact List.Subset.trans (parts_subset_extension id pragmas body) (parts_subset_of_mem e hpart)

/-- A number below a pragma in an expression that has none of its own is below one inside. -/
theorem Encloses.inside (h : e.Encloses i) {inside : List Part} (hparts : e.parts = .expr e :: inside)
    (hself : ∀ id pragmas body, e ≠ .extension id pragmas body) :
    ∃ id pragmas body, .expr (.extension id pragmas body) ∈ inside ∧ i ∈ body.numbers := by
  obtain ⟨id, pragmas, body, hpart, hi⟩ := h
  rw [hparts] at hpart
  rcases List.mem_cons.1 hpart with heq | hpart
  · exact absurd (Part.expr.inj heq).symm (hself id pragmas body)
  · exact ⟨id, pragmas, body, hpart, hi⟩

theorem encloses_path {id : ExprId} {steps : List Expr} (h : (path id steps).Encloses i) :
    ∃ e ∈ steps, e.Encloses i := by
  obtain ⟨id, pragmas, body, hpart, hi⟩ := h.inside rfl fun _ _ _ h => nomatch h
  obtain ⟨e, he, hpart⟩ := mem_partsOf.1 hpart
  exact ⟨e, he, id, pragmas, body, hpart, hi⟩

theorem encloses_predicates {ps : List Predicate} {id : ExprId} {pragmas : List Pragma}
    {body : Expr} (hpart : .expr (.extension id pragmas body) ∈ predicateParts ps)
    (hi : i ∈ body.numbers) : ∃ p ∈ ps, p.expr.Encloses i := by
  obtain ⟨p, hp, hpart⟩ := mem_predicateParts.1 hpart
  exact ⟨p, hp, id, pragmas, body, hpart.resolve_left Part.noConfusion, hi⟩

theorem encloses_step {head : StepHead} {ps : List Predicate} (h : (step head ps).Encloses i) :
    ∃ p ∈ ps, p.expr.Encloses i := by
  obtain ⟨id, pragmas, body, hpart, hi⟩ := h.inside rfl fun _ _ _ h => nomatch h
  exact encloses_predicates hpart hi

theorem encloses_filter {id : ExprId} {base : Expr} {ps : List Predicate}
    (h : (filter id base ps).Encloses i) : base.Encloses i ∨ ∃ p ∈ ps, p.expr.Encloses i := by
  obtain ⟨id, pragmas, body, hpart, hi⟩ := h.inside rfl fun _ _ _ h => nomatch h
  rcases List.mem_append.1 hpart with hpart | hpart
  · exact .inl ⟨id, pragmas, body, hpart, hi⟩
  · exact .inr (encloses_predicates hpart hi)

/-! ### Owners -/

/-- **A number outside of all pragmas:** one that an expression has, but not below a pragma. -/
def IsOutside (e : Expr) (i : ExprId) : Prop := i ∈ e.numbers ∧ ¬e.Encloses i

/-- What is outside in a predicate is not below a pragma in any other predicate. -/
theorem not_encloses_of_outside {ps : List Predicate} (hps : (predicateNumbers ps).Nodup)
    {p : Predicate} (hp : p ∈ ps) (hi : p.expr.IsOutside i) : ¬∃ p ∈ ps, p.expr.Encloses i := by
  rintro ⟨p', hp', hbelow⟩
  obtain rfl := unique_of_mem_predicateNumbers hps hp hp' hi.1 hbelow.mem_numbers
  exact hi.2 hbelow

/-- **Conditions are owned from outside, or by a step that stands outside of all pragmas.** -/
theorem owner_eq_or_outside {o : Optimizable} {place : Nat} (e : Expr) (hnumbers : e.numbers.Nodup) :
    ∀ owner, (o, some (i, place)) ∈ e.optimizables owner →
      owner = some (i, place) ∨ e.IsOutside i := by
  induction e using Expr.induct with
  | path own steps ih =>
    intro owner h
    obtain ⟨e, he, h⟩ := mem_optimizablesOf h
    have hsteps : (numbersOf steps).Nodup := (List.nodup_cons.1 hnumbers).2
    refine (ih e he (nodup_of_mem_numbersOf hsteps he) owner h).imp_right ?_
    rintro ⟨hi, hnot⟩
    refine ⟨numbers_subset (parts_subset_path he) hi, fun hbelow => ?_⟩
    obtain ⟨e', he', hbelow⟩ := encloses_path hbelow
    obtain rfl := unique_of_mem_numbersOf hsteps he he' hi hbelow.mem_numbers
    exact hnot hbelow
  | step head ps ih =>
    intro owner h
    obtain ⟨p, hp, _, h⟩ := mem_predicateOptimizables h
    obtain ⟨hhead, hps⟩ := List.nodup_cons.1 hnumbers
    rcases ih p hp (nodup_of_mem_predicateNumbers hps hp) _ h with howner | houtside
    · obtain rfl : head.id = i := (Prod.mk.inj (Option.some.inj howner)).1
      refine .inr ⟨List.mem_cons_self, fun hbelow => hhead ?_⟩
      obtain ⟨q, hq, hbelow⟩ := encloses_step hbelow
      exact mem_predicateNumbers hq hbelow.mem_numbers
    · exact .inr ⟨numbers_subset (parts_subset_step hp) houtside.1, fun hbelow =>
        not_encloses_of_outside hps hp houtside (encloses_step hbelow)⟩
  | filter own base ps _ ih =>
    intro owner h
    obtain ⟨p, hp, _, h⟩ := mem_predicateOptimizables h
    rw [numbers_filter, List.nodup_cons, List.nodup_append] at hnumbers
    obtain ⟨-, -, hps, hdisjoint⟩ := hnumbers
    rcases ih p hp (nodup_of_mem_predicateNumbers hps hp) _ h with howner | houtside
    · cases howner
    · refine .inr ⟨numbers_subset (parts_subset_filter hp) houtside.1, fun hbelow => ?_⟩
      rcases encloses_filter hbelow with hbelow | hbelow
      · exact hdisjoint i hbelow.mem_numbers i (mem_predicateNumbers hp houtside.1) rfl
      · exact not_encloses_of_outside hps hp houtside hbelow
  | comparison | call =>
    intro owner h
    obtain ⟨_, _, heq⟩ := List.mem_map.1 h
    exact .inl (Prod.mk.inj heq).2
  | _ => exact fun owner h => absurd h List.not_mem_nil

/-- **The context step stands outside of all pragmas,** when there is any condition. -/
theorem contextStep?_outside (hnumbers : e.numbers.Nodup) (hne : e.conditions ≠ [])
    {step : ContextStep} (h : e.contextStep? = some step) : e.IsOutside step.id := by
  obtain ⟨head, ps, q, -, -, rfl, howner⟩ := contextStep?_eq_some h
  obtain ⟨⟨o, owner⟩, hhead⟩ := exists_head_optimizables hne
  obtain ⟨place, rfl⟩ := howner o owner hhead
  exact (owner_eq_or_outside e hnumbers none (List.mem_of_mem_head? hhead)).resolve_left
    (fun h => nomatch h)

end Expr
end IndexedXml
