/-
# Compiling with and without a pragma

Compiling a query that is written without pragmas and stays without them is lowering and
analysis (`Expr.exists_lower_of_ofSurface`).  Under a pragma the same is lowered, with numbers
after those of the pragma (`Expr.exists_lower_of_pragma`).  A pragma that does not ask
whether indexes have been used only decides how the evaluation goes
(`Expr.result_extension_single`).
-/

import IndexedXml.Proofs.Query.Answers
import IndexedXml.Proofs.Query.Renumbering

namespace IndexedXml

open Evaluation

namespace Expr

variable {config : Configuration}

/-- What is without pragmas after optimization is what it was before. -/
theorem eq_of_autoOptimizeAll {es : List Expr}
    (hes : ∀ e ∈ es, ∀ {n m x}, (e.autoOptimize config).run n = .ok (x, m) →
      x.IsPragmaFree → x = e) :
    ∀ {n m xs}, (autoOptimizeAll config es).run n = .ok (xs, m) →
      (∀ x ∈ xs, x.IsPragmaFree) → xs = es := by
  induction es with
  | nil =>
    intro n m xs h _
    rw [autoOptimizeAll, run_pure_eq_ok] at h
    exact h.1.symm
  | cons e rest ih =>
    intro n m xs h hfree
    rw [autoOptimizeAll] at h
    obtain ⟨x, k, hx, h⟩ := run_bind_eq_ok.1 h
    obtain ⟨later, k', hlater, h⟩ := run_bind_eq_ok.1 h
    obtain ⟨rfl, rfl⟩ := run_pure_eq_ok.1 h
    rw [hes e List.mem_cons_self hx (hfree x List.mem_cons_self),
      ih (fun e he => hes e (List.mem_cons_of_mem _ he)) hlater fun x hx =>
        hfree x (List.mem_cons_of_mem _ hx)]

theorem eq_of_autoOptimize (e : Expr) {x : Expr} {n m : ExprId}
    (h : (e.autoOptimize config).run n = .ok (x, m)) (hfree : x.IsPragmaFree) : x = e := by
  induction e using Expr.induct generalizing x n m with
  | sequence items ih =>
    rw [autoOptimize] at h
    obtain ⟨xs, k, hxs, h⟩ := run_bind_eq_ok.1 h
    obtain ⟨rfl, rfl⟩ := run_pure_eq_ok.1 h
    rw [eq_of_autoOptimizeAll (fun e he _ _ _ h hfree => ih e he h hfree) hxs
      (isPragmaFree_sequence.1 hfree)]
  | _ =>
    rw [autoOptimize] at h
    · rcases eq_or_extension_of_optimizePath h with ⟨heq, _⟩ | ⟨p, heq, _⟩
      · exact heq
      · exact absurd (heq ▸ hfree) not_isPragmaFree_extension
    · intro _ h
      cases h

/-- **What is compiled without pragmas** is what is written, lowered and analyzed. -/
theorem exists_lower_of_ofSurface {surface : Surface} {e : Expr} {n m : ExprId}
    (h : (ofSurface config surface).run n = .ok (e, m)) (hfree : e.IsPragmaFree) :
    ∃ body k, (surface.lower config).run n = .ok (body, k) ∧ e = body.analyze .top := by
  unfold ofSurface at h
  obtain ⟨body, k, hbody, h⟩ := run_bind_eq_ok.1 h
  refine ⟨body, k, hbody, ?_⟩
  split_ifs at h
  · obtain ⟨x, k', hx, h⟩ := run_bind_eq_ok.1 h
    obtain ⟨rfl, rfl⟩ := run_pure_eq_ok.1 h
    rw [eq_of_autoOptimize body hx ((isPragmaFree_analyze _ _).1 hfree)]
  · obtain ⟨rfl, rfl⟩ := run_pure_eq_ok.1 h
    rfl

/-- **What is compiled under a pragma** is what is written below it, lowered with numbers after
those of the pragma and analyzed for it. -/
theorem exists_lower_of_pragma {decl : PragmaDecl} {p : Pragma} {surface : Surface} {e : Expr}
    {m : ExprId}
    (hcreate : Pragma.create 2 (Pragma.resolveName decl.name) decl.contents config true =
      .ok (some p))
    (h : (ofSurface config (.pragma [decl] (some surface))).run .none = .ok (e, m)) :
    ∃ body k, (surface.lower config).run 2 = .ok (body, k) ∧
      e = .extension 1 [p.analyze .none] (body.analyze (Surroundings.top.below [p])) := by
  have hoptimize : ∀ body : Expr, (extension 1 [p] body).autoOptimize config =
      pure (extension 1 [p] body) := fun _ => rfl
  unfold ofSurface at h
  obtain ⟨lowered, k, hlowered, h⟩ := run_bind_eq_ok.1 h
  rw [Surface.lower_pragma] at hlowered
  obtain ⟨id, k₁, hid, hlowered⟩ := run_bind_eq_ok.1 hlowered
  obtain ⟨rfl, rfl⟩ := run_fresh_eq_ok.1 hid
  obtain ⟨pragmas, k₂, hpragmas, hlowered⟩ := run_bind_eq_ok.1 hlowered
  rw [Pragma.ofDecls] at hpragmas
  obtain ⟨pragmaId, k₃, hid, hpragmas⟩ := run_bind_eq_ok.1 hpragmas
  obtain ⟨rfl, rfl⟩ := run_fresh_eq_ok.1 hid
  obtain ⟨created, k₄, hcreated, hpragmas⟩ := run_bind_eq_ok.1 hpragmas
  obtain ⟨hcreate', rfl⟩ := run_lift_eq_ok.1 hcreated
  obtain rfl : some p = created := Except.ok.inj (hcreate.symm.trans hcreate')
  obtain ⟨later, k₅, hlater, hpragmas⟩ := run_bind_eq_ok.1 hpragmas
  rw [Pragma.ofDecls] at hlater
  obtain ⟨rfl, rfl⟩ := run_pure_eq_ok.1 hlater
  obtain ⟨rfl, rfl⟩ := run_pure_eq_ok.1 hpragmas
  obtain ⟨body, k₆, hbody, hlowered⟩ := run_bind_eq_ok.1 hlowered
  obtain ⟨rfl, rfl⟩ := run_pure_eq_ok.1 hlowered
  refine ⟨body, k₆, hbody, ?_⟩
  change (do
    let e ← if config.autoOptimize then (extension 1 [p] body).autoOptimize config
      else pure (extension 1 [p] body)
    pure (e.analyze .top) : Numbering Expr).run k₆ = _ at h
  rw [hoptimize, ite_self] at h
  obtain ⟨_, k₇, hsame, h⟩ := run_bind_eq_ok.1 h
  obtain ⟨rfl, rfl⟩ := run_pure_eq_ok.1 hsame
  obtain ⟨rfl, rfl⟩ := run_pure_eq_ok.1 h
  rfl

/-- **The result of an expression with a single pragma** is what the pragma makes of it after
activation. -/
theorem result_extension_single {s : Store} {id : ExprId} {p : Pragma} {body : Expr}
    (hforce : p.kind ≠ .forceIndexUse) (focus : Focus) (r : Run) :
    ((extension id [p] body).evaluate s focus).result r =
      (evaluatePragmas s (body.evaluate s) focus [p]).result ((activate body p).after r) := by
  have hactivate : (activate body p).result r = .ok () := by
    unfold activate
    cases p.kind <;> rfl
  have hdeactivate : ∀ r, (deactivate body p).result r = .ok () := by
    intro r
    unfold deactivate
    cases hkind : p.kind with
    | forceIndexUse => exact absurd hkind hforce
    | _ => rfl
  have hsingle : ∀ f : Pragma → Evaluation Unit, [p].forM f = (f p >>= fun _ => pure ()) :=
    fun _ => rfl
  rw [evaluate]
  unfold evaluateExtension
  rw [hsingle, hsingle, bind_assoc, result_bind, hactivate, ok_bind, pure_bind, result_bind]
  refine (bind_congr fun value => ?_).trans (bind_pure _)
  rw [bind_assoc, result_bind, hdeactivate]
  rfl

end Expr
end IndexedXml
