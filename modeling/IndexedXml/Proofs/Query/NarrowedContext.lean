/-
# Narrowing the context

When the optimizer prepares candidates for no step, it takes from the context itself what has no
hit of some condition below.  What withstands narrowing has the same items for the rest
(`Expr.evaluate_narrowed_of_direct`).  A position that is counted over all that the context leads
to is not the same for the rest, and a condition after it then accepts another item.
-/

import IndexedXml.Proofs.Query.Contributions
import IndexedXml.Proofs.Query.Withstanding

namespace IndexedXml

open Evaluation Setting

variable {s : Store} {σ : Setting} {docs : DocId → Prop} {extent : Extent}

/-- **A context suits an extent:** where this is the documents, the context consists of them. -/
def Extent.Suits (extent : Extent) (set : NodeSet) : Prop :=
  extent = .document → ∀ n ∈ set, n = .document n.doc

/-- In a context that suits an extent, a hit within it is one below the node. -/
theorem IndexProbe.HitsIn.hitsBelow {p : IndexProbe} {set : NodeSet} (hsuits : extent.Suits set)
    {n : Node} (hn : n ∈ set) (h : p.HitsIn s extent n) : p.HitsBelow s n := by
  obtain ⟨m, hm, hspans⟩ := h
  refine ⟨m, hm, ?_⟩
  cases extent with
  | below => exact hspans
  | document =>
    have hdoc : m.doc = n.doc := hspans
    rw [hsuits rfl n hn, ← hdoc]
    exact m.within_document

/-- **The rounds keep the nodes of the context that have a hit of every condition.** -/
theorem Narrowing.outcome_rounds_keepsHits (hs : s.IsReliable) {context : NodeSet}
    (hcontext : context.IsGiven s docs) (hsuits : extent.Suits context)
    {optimizables : List Optimizable} (hne : optimizables ≠ []) :
    ∃ rounds, σ.outcome (Narrowing.rounds s none context optimizables) = .ok rounds ∧
      (candidates rounds).IsGiven s docs ∧
        context.KeepsHits (candidates rounds) s extent optimizables := by
  obtain ⟨rounds, hrounds, hgiven, hsub, hkeeps⟩ := outcome_rounds_context hs hcontext hne
  exact ⟨rounds, hrounds, hgiven, hsub, fun n hn hhits =>
    hkeeps n hn fun o ho => (hhits o ho).hitsBelow hsuits hn⟩

/-- The context nodes of a focus are those of the context that is judged. -/
theorem Optimizer.contextSet_contextOf {focus : Focus} {context : SharedSet}
    (h : contextOf s focus = some (.nodes context)) :
    (contextSet s ⟨contextOf s focus, focus.item⟩).map SharedSet.set =
      (contextSet s (.on (.ofSet context.set))).map SharedSet.set := by
  obtain ⟨given, item⟩ := focus
  cases item with
  | some item =>
    cases item with
    | node n =>
      obtain rfl := Sequence.nodes.inj (Option.some.inj h)
      rfl
    | atomic value => cases h
  | none =>
    obtain rfl : given = some (.nodes context) := h
    rfl

namespace Expr

variable {body : Expr} {shared : SharedSet} {id : ExprId} {p : Pragma} {explicit : Bool}
  {contextId : ExprId} {r : Run} {focus : Focus}

/-- **What withstands narrowing has the same items for what the rounds leave,** also of a part of the
context with all hits. -/
theorem outcome_narrowed_of_isNarrowing (hs : s.IsReliable) (hσ : σ.IsBare)
    (hnarrowing : body.IsNarrowing extent) (hfree : body.IsPragmaFree)
    (hanalyzed : body.IsAnalyzedAt none) {working context : NodeSet}
    (hworking : working.IsGiven s docs) (hcontext : context.IsGiven s docs)
    (hpart : context.KeepsHits working s extent body.conditions) (hsuits : extent.Suits context)
    (hcovered : AreCovered s docs body.wholePredicates)
    (hcovers : ∀ o ∈ body.conditions, o.probe.CoversDocs s docs) (hne : body.conditions ≠ [])
    {v : Sequence} (hv : σ.outcome (body.evaluate s (.on (.ofSet context))) = .ok v) :
    ∃ rounds, σ.outcome (Narrowing.rounds s none working body.conditions) = .ok rounds ∧
      ∃ v', σ.outcome (body.evaluate s (.on (.ofSet (Narrowing.candidates rounds)))) = .ok v' ∧
        v'.toItems = v.toItems := by
  have hsuitsPart : extent.Suits working := fun hextent n hn => hsuits hextent n (hpart.sub n hn)
  obtain ⟨rounds, hrounds, hgiven, hkeeps⟩ :=
    Narrowing.outcome_rounds_keepsHits (σ := σ) hs hworking hsuitsPart hne
  obtain ⟨v', hv', hsame⟩ := (withstands_of_isNarrowing hs hσ hnarrowing hfree hanalyzed hcovered
    hcovers).same context v hcontext hv _ hgiven (hpart.trans hkeeps)
  exact ⟨rounds, hrounds, v', hv', hsame.toItems_eq.symm⟩

/-- **A part of the context with all hits is narrowed in place of it:** where candidates are prepared
for no step, and the expression withstands narrowing, the items are those for the context. -/
theorem result_optimize_of_isNarrowing (hs : s.IsReliable) (hσ : σ.IsBare)
    (hp : p.kind = .optimize explicit true contextId) (hfree : body.IsPragmaFree)
    (hanalyzed : body.IsAnalyzedAt none) (hr : σ.Holds r) (hfresh : r.context.optimizer? p.id = none)
    {working context : SharedSet}
    (hopinion : opinionOn s σ.bindings (.discover body) (Optimizer.contextOf s focus) =
      .ok (some context, some (.nodes working), true))
    (hcontext : Optimizer.contextOf s focus = some (.nodes context)) (hin : context.set.IsIn s)
    (hpersistent : context.set.persistent = true) (hstep : body.contextStep? = none)
    (hnarrowing : body.IsNarrowing extent) (hsuits : extent.Suits context.set)
    (hinPart : working.set.IsIn s) (hpersistentPart : working.set.persistent = true)
    (hkeeps : context.set.KeepsHits working.set s extent body.conditions)
    (hverdict : verdict s (some (.nodes context)) body.conditions = .ok true)
    (hcovered : ∀ p ∈ body.wholePredicates, ∀ id probe, p.expr.probe? = some (id, probe) →
      probe.relation ≠ none → probe.coversAll s (some (.nodes context)) = .ok true) {v : Sequence}
    (hv : σ.outcome (body.evaluate s ⟨Optimizer.contextOf s focus, focus.item⟩) = .ok v) :
    ∃ rounds v', σ.outcome (Narrowing.rounds s none working.set body.conditions) = .ok rounds ∧
      σ.outcome (body.evaluate s (.on (.ofSet (Narrowing.candidates rounds)))) = .ok v' ∧
      ((extension id [p] body).evaluate s focus).result r = .ok v' ∧ v'.toItems = v.toItems := by
  obtain ⟨hne, hcovers⟩ := coversAll_of_verdict hverdict
  have hgiven := isGiven_of_isIn hin hpersistent
  have hworking : working.set.IsGiven s (InDocuments context.set) :=
    ⟨hinPart, hpersistentPart, fun n hn => ⟨n, hkeeps.sub n hn, rfl⟩⟩
  rw [outcome_congr_of_isNarrowing (Optimizer.contextSet_contextOf hcontext) hnarrowing hfree] at hv
  obtain ⟨rounds, hrounds, v', hv', hitems⟩ := outcome_narrowed_of_isNarrowing hs hσ hnarrowing hfree
    hanalyzed hworking hgiven hkeeps hsuits
    (fun p hp id probe hprobe hrelation =>
      IndexProbe.coversDocs_of_coversAll (hcovered p hp id probe hprobe hrelation))
    (fun o ho => IndexProbe.coversDocs_of_coversAll (hcovers o ho)) hne hv
  exact ⟨rounds, v', hrounds, hv',
    (result_optimize_context hp hfree hr hfresh hopinion hstep hrounds).trans hv', hitems⟩

/-- **Narrowing the context is sound for what withstands it.**  Where discovery finds neither a
variable nor a step to prepare candidates for, an expression that withstands narrowing has the
same items for the nodes that the rounds leave as for all of the context, and the pragma
`optimize` answers with these. -/
theorem evaluate_narrowed_of_direct {config : Configuration} {surface : Surface}
    {pragmas : List Pragma} {m : ExprId}
    (hcompiled : (ofSurface config (.pragma [.optimize true] (some surface))).run .none =
      .ok (extension id pragmas body, m))
    (hfree : body.IsPragmaFree) (hnarrowing : body.IsNarrowing extent)
    (hvariable : body.contextVariable? = none) (hstep : body.contextStep? = none)
    (hs : s.Reachable) (hplain : s.IsPlain) (hprobes : s.interrupted = false)
    (bindings : List (String × Sequence)) (hin : shared.set.IsIn s)
    (hpersistent : shared.set.persistent = true) (hsuits : extent.Suits shared.set)
    (hverdict : verdict s (some (.nodes shared)) body.conditions = .ok true)
    (hcovered : ∀ p ∈ body.wholePredicates, ∀ id probe, p.expr.probe? = some (id, probe) →
      probe.relation ≠ none → probe.coversAll s (some (.nodes shared)) = .ok true) {v : Sequence}
    (hv : (body.evaluate s (.on (.nodes shared))).result ⟨.ofBindings bindings, .zero⟩ = .ok v) :
    ∃ rounds v', (Narrowing.rounds s none shared.set body.conditions).result
        ⟨.ofBindings bindings, .zero⟩ = .ok rounds ∧
      (body.evaluate s (.on (.ofSet (Narrowing.candidates rounds)))).result
        ⟨.ofBindings bindings, .zero⟩ = .ok v' ∧
      ((extension id pragmas body).evaluate s (.on (.nodes shared))).result
        ⟨.ofBindings bindings, .zero⟩ = .ok v' ∧ v'.toItems = v.toItems := by
  obtain ⟨lowered, k, -, heq⟩ := exists_lower_of_pragma (Pragma.create_optimize true config) hcompiled
  obtain ⟨rfl, rfl, hbody⟩ := extension.inj heq
  let σ : Setting := ⟨bindings, []⟩
  have hholds : σ.Holds ⟨.ofBindings bindings, .zero⟩ := ⟨rfl, fun _ => rfl⟩
  have hopinion : opinionOn s bindings (.discover body) (Optimizer.contextOf s (.on (.nodes shared))) =
      .ok (some shared, some (.nodes shared), true) :=
    Optimizer.opinionOn_nodes hvariable hpersistent hverdict
  exact result_optimize_of_isNarrowing (σ := σ) ⟨hs.isIndexed, hplain, hprobes⟩ (fun _ => rfl) rfl
    hfree ⟨lowered, .top, rfl, hbody⟩ hholds rfl hopinion rfl hin hpersistent hstep hnarrowing hsuits
    hin hpersistent (.refl _ _ _ _) hverdict hcovered hv

end Expr

/-! ### Books in two documents -/

/-- A store with a book in each of two documents, and an index on titles. -/
def booksStore : Store :=
  ((Store.empty.perform (.configureCollection "/db"
    [⟨⟨.element, ⟨none, "title", none⟩⟩, .string⟩])).perform
    (.storeXml "/db" "a.xml" "<library><book><title>Momo</title></book></library>")).perform
    (.storeXml "/db" "b.xml" "<library><book><title>Dune</title></book></library>")

theorem reachable_booksStore : booksStore.Reachable := .perform (.perform (.perform .empty _) _) _

theorem isPlain_booksStore : booksStore.IsPlain := by
  decide +kernel

/-- The documents of the books, as they are given. -/
def libraries : SharedSet := ⟨⟨[.document 0, .document 1], true⟩, none⟩

theorem isIn_libraries : libraries.set.IsIn booksStore := by
  decide +kernel

namespace Expr

/-- The query for those books that predicates accept one after another. -/
def booksAmong (predicates : List Surface) : Surface :=
  .path none [.filter false (.path none [.axis false .descendant (.name "book") []]) predicates]

/-- Indexes answer a condition on a child wherever they answer its probe. -/
theorem coversAll_predicateHaving {number context : ExprId} {name text : String}
    {given : Option Sequence} (h : (probeHaving name text).coversAll s given = .ok true) :
    ∀ id probe, (predicateHaving number context name text).expr.probe? = some (id, probe) →
      probe.relation ≠ none → probe.coversAll s given = .ok true := by
  intro id probe hown _
  obtain ⟨-, rfl⟩ := Prod.mk.inj (Option.some.inj hown)
  exact h

/-- The first book with a title is found in what is left of the context. -/
theorem evaluate_narrowed_of_direct_titled : ∃ pragmas body m rounds v',
    (ofSurface .standard (.pragma [.optimize true]
      (some (booksAmong [having "title" "Dune", .literal (.integer 1)])))).run .none =
        .ok (extension 1 pragmas body, m) ∧
    body.IsNarrowing .below ∧ body.contextVariable? = none ∧ body.contextStep? = none ∧
    (Narrowing.rounds booksStore none libraries.set body.conditions).result
      ⟨.ofBindings [], .zero⟩ = .ok rounds ∧
    (Narrowing.candidates rounds).nodes = [.document 1] ∧
    ((extension 1 pragmas body).evaluate booksStore (.on (.nodes libraries))).result
      ⟨.ofBindings [], .zero⟩ = .ok v' ∧ v'.toItems = [.node ⟨1, ⟨[1, 1]⟩⟩] := by
  let base : Expr := step ⟨4, .descendant, .name ⟨none, "book", none⟩, false⟩ []
  let p := predicateHaving 5 3 "title" "Dune"
  let body : Expr := filter 3 base ([p] ++ [⟨8, literal (.integer 1), .positional⟩])
  have hcompiled : (ofSurface .standard (.pragma [.optimize true]
      (some (booksAmong [having "title" "Dune", .literal (.integer 1)])))).run .none =
        .ok (extension 1 [(Pragma.optimize true).analyze .none] body, 8) := rfl
  have hnarrowing : body.IsNarrowing .below :=
    .filter (.ofLocal rfl fun o ho => .filter rfl (List.mem_singleton_self p)
      (reached_predicateHaving o ho)) fun q hq => List.mem_singleton.1 hq ▸ rfl
  have hcovered : ∀ p' ∈ body.wholePredicates, ∀ id probe, p'.expr.probe? = some (id, probe) →
      probe.relation ≠ none → probe.coversAll booksStore (some (.nodes libraries)) = .ok true :=
    List.forall_mem_cons.2 ⟨coversAll_predicateHaving (by decide +kernel),
      List.forall_mem_singleton.2 fun id own hown => nomatch hown⟩
  have hfound : ((body.evaluate booksStore (.on (.nodes libraries))).result
      ⟨.ofBindings [], .zero⟩).map Sequence.toItems = .ok [.node ⟨1, ⟨[1, 1]⟩⟩] := by
    decide +kernel
  have hleft : ((Narrowing.rounds booksStore none libraries.set body.conditions).result
      ⟨.ofBindings [], .zero⟩).map (fun rounds => (Narrowing.candidates rounds).nodes) =
        .ok [.document 1] := by
    decide +kernel
  obtain ⟨v, hv, hitems⟩ := map_eq_ok.1 hfound
  obtain ⟨rounds, v', hrounds, -, hv', hsame⟩ := evaluate_narrowed_of_direct hcompiled
    (plain_of_parts (by decide +kernel)).1 hnarrowing rfl rfl reachable_booksStore isPlain_booksStore
    rfl [] isIn_libraries rfl (fun h => nomatch h) (by decide +kernel) hcovered hv
  rw [hrounds] at hleft
  exact ⟨_, body, _, rounds, v', hcompiled, hnarrowing, rfl, rfl, hrounds, Except.ok.inj hleft, hv',
    hsame.trans hitems⟩

/-- **A position before a condition is counted over what is left:** the first book of all does not
have the title, but the first book of the documents with a hit has it. -/
theorem not_evaluate_narrowed_of_direct_first : ∃ pragmas body m rounds,
    (ofSurface .standard (.pragma [.optimize true]
      (some (booksAmong [.literal (.integer 1), having "title" "Dune"])))).run .none =
        .ok (extension 1 pragmas body, m) ∧
    body.IsPragmaFree ∧ body.contextVariable? = none ∧ body.contextStep? = none ∧
    verdict booksStore (some (.nodes libraries)) body.conditions = .ok true ∧
    ((body.evaluate booksStore (.on (.nodes libraries))).result
      ⟨.ofBindings [], .zero⟩).map Sequence.toItems = .ok [] ∧
    (Narrowing.rounds booksStore none libraries.set body.conditions).result
      ⟨.ofBindings [], .zero⟩ = .ok rounds ∧
    ((body.evaluate booksStore (.on (.ofSet (Narrowing.candidates rounds)))).result
      ⟨.ofBindings [], .zero⟩).map Sequence.toItems = .ok [.node ⟨1, ⟨[1, 1]⟩⟩] ∧
    (((extension 1 pragmas body).evaluate booksStore (.on (.nodes libraries))).result
      ⟨.ofBindings [], .zero⟩).map Sequence.toItems = .ok [.node ⟨1, ⟨[1, 1]⟩⟩] := by
  let base : Expr := step ⟨4, .descendant, .name ⟨none, "book", none⟩, false⟩ []
  let p := predicateHaving 6 3 "title" "Dune"
  let body : Expr := filter 3 base [⟨5, literal (.integer 1), .positional⟩, p]
  have hleft : ((Narrowing.rounds booksStore none libraries.set body.conditions).result
      ⟨.ofBindings [], .zero⟩).map Narrowing.candidates = .ok ⟨[.document 1], true⟩ := by
    decide +kernel
  obtain ⟨rounds, hrounds, hcandidates⟩ := map_eq_ok.1 hleft
  refine ⟨_, body, 8, rounds, rfl, (plain_of_parts (by decide +kernel)).1, rfl, rfl, by decide +kernel,
    by decide +kernel, hrounds, ?_, by decide +kernel⟩
  rw [hcandidates]
  decide +kernel

end Expr
end IndexedXml
