/-
# Nodes that contribute to a path

A node that the first step of a path selects contributes to the path when the further steps lead
on from it.  Such a node has a hit of each condition reached downward at or below it, and the
upward axis of a condition leads from a hit to the node whose predicate it is
(`Expr.hitsBelow_of_contributes`).  So narrowing, which goes from the hits upward, keeps the node.

A condition is recorded by the axis that its operand begins with, wherever the operand goes from
there.  Along another axis an operand may come upon hits above the node, and then the node
contributes without a hit below.
-/

import IndexedXml.Proofs.Query.Reached

namespace IndexedXml

open Evaluation Setting

variable {s : Store} {σ : Setting} {docs : DocId → Prop}

namespace Expr

variable {extent : Extent} {o : Optimizable} {outer : Option OuterStep} {e : Expr}

/-- **A condition is reached downward** in the predicates of the first step of a path or in its
further steps. -/
def ReachedFrom (o : Optimizable) (ps : List Predicate) (rest : List Expr) : Prop :=
  (∃ p ∈ ps, Reached .below o p.expr) ∨ ∃ id, Reached .below o (path id rest)

/-- **A node contributes to a path** that begins with a step: the step selects it from where the
path starts, and the further steps lead on from it to something. -/
structure Contributes (s : Store) (σ : Setting) (head : StepHead) (ps : List Predicate)
    (rest : List Expr) (start : SharedSet) (n : Node) : Prop where
  selected : ∃ v, σ.outcome ((step head ps).evaluate s (.on (.nodes start))) = .ok v ∧
    .node n ∈ v.toItems
  further : ∃ w, σ.outcome (evaluateSteps s rest (.ofSet (s.persistent [n]))) = .ok w ∧ w.Affirms

variable {head : StepHead} {ps : List Predicate} {rest : List Expr} {p : Predicate}

theorem BeginsWith.isAnalyzedAt (h : BeginsWith e head ps rest) (hanalyzed : e.IsAnalyzedAt none) :
    (Expr.step head ps).IsAnalyzedAt none ∧ ∀ id, (Expr.path id rest).IsAnalyzedAt none := by
  cases h with
  | step => exact ⟨hanalyzed, fun id => ⟨Expr.path id [], .top, rfl, rfl⟩⟩
  | path => exact hanalyzed.of_path
  | rooted id => exact (hanalyzed.of_path.2 id).of_path

/-- A condition that is a predicate itself is reached by its operand. -/
theorem Reached.sides (h : Reached extent o e) (hfound : e.optimizable? = some o) :
    (∀ side ∈ e.sides, side.staysIn extent = true ∨ ∃ value, side = literal value) ∧
      (o.probe.op = .startsWith → o.probe.key ≠ .string "") := by
  cases h with
  | condition _ hsides hkey => exact ⟨hsides, hkey⟩
  | _ => cases hfound

/-- **From a hit of a predicate the upward axis of its probe leads to the node** that the predicate
accepts. -/
theorem exists_hit_upward_of_accepts (hs : s.IsReliable) (hσ : σ.IsBare) (hfree : e.IsPragmaFree)
    (hanalyzed : e.IsAnalyzedAt outer) (hfound : e.optimizable? = some o)
    (hreached : Reached .below o e) (hcovers : o.probe.CoversDocs s docs) {n : Node} (hhas : s.Has n)
    (hdoc : docs n.doc) (hsuits : SuitsOuter s outer n) (h : e.Accepts s σ (.node n)) :
    ∃ m, s.Hits o.probe.name o.probe.op o.probe.key m ∧ s.Leads o.probe.upwardAxis m n := by
  have hprobe := probe?_of_optimizable? hfound
  obtain ⟨path, hasks⟩ := exists_asks (hanalyzed.probed? hprobe)
  obtain ⟨target, htarget, heq⟩ := hasks.target
  have hup : ∀ {m}, o.probe.Qualifies s n m → m.Within n → s.Leads o.probe.upwardAxis m n := by
    intro m hqualifies hwithin
    have hleads := Target.leads_upward (s := s) htarget o.probe.op o.probe.key (n := n) (m := m)
      (fun relation hrelation => hqualifies.2 relation (by rw [heq]; exact hrelation)) hwithin
    rwa [← heq] at hleads
  cases h with
  | byIndex hprobe' hrelation hrelates hhits =>
    obtain ⟨_, rfl⟩ := Prod.mk.inj (Option.some.inj (hprobe.symm.trans hprobe'))
    refine ⟨_, hhits, hup ⟨hhits, fun relation hsome => ?_⟩ hrelates.within⟩
    obtain rfl := Option.some.inj (hrelation.symm.trans hsome)
    exact hrelates
  | @byItem persistent _ v position hv hselects =>
    obtain ⟨hsides, hkey⟩ := hreached.sides hfound
    have hcontext : contextSet s (itemFocus persistent (.node n)) = .ok ⟨s.persistent [n], none⟩ := rfl
    obtain ⟨x, hx, m, hqualifies, hwithin⟩ := exists_hit_of_condition hs hσ hfree hanalyzed hfound
      hsides hkey hcovers hcontext (.single hhas hdoc hsuits) hv (Sequence.affirms_of_selects hselects)
    obtain rfl := (mem_persistent_single (s := s)).1 hx
    exact ⟨m, hqualifies.1, hup hqualifies hwithin⟩

/-- **A node that contributes has a hit of every condition reached downward** at or below it, and
one that the upward axis leads from where the condition is a predicate of the step itself. -/
theorem BeginsWith.hits_of_contributes (hbegins : BeginsWith e head ps rest) (hs : s.IsReliable)
    (hσ : σ.IsBare) (hfree : e.IsPragmaFree) (hanalyzed : e.IsAnalyzedAt none)
    (hreached : ReachedFrom o ps rest) (hcovers : o.probe.CoversDocs s docs) {start : SharedSet}
    (hstart : ∀ x ∈ start.set, s.Has x ∧ docs x.doc) {n : Node}
    (hn : Contributes s σ head ps rest start n) :
    o.probe.HitsBelow s n ∧ ∀ p ∈ ps, p.expr.optimizable? = some o → Reached .below o p.expr →
      ∃ m, s.Hits o.probe.name o.probe.op o.probe.key m ∧ s.Leads o.probe.upwardAxis m n := by
  have hstepFree : (Expr.step head ps).IsPragmaFree := hfree.mono hbegins.parts.1
  obtain ⟨hstep, hrest⟩ := hbegins.isAnalyzedAt hanalyzed
  obtain ⟨⟨v, hv, hmem⟩, w, hw, haffirms⟩ := hn
  obtain ⟨_, heq, hselected⟩ := selectedBy_of_outcome hs hσ hstepFree rfl
    (fun x hx => (hstart x hx).1) hv _ hmem
  obtain rfl := Item.node.inj heq
  obtain ⟨x, hx, l, hl, hled⟩ := hselected.along
  have hspans : Extent.document.Spans x n :=
    Extent.spans_of_along hs.indexed rfl (hstart x hx).1 hl hled
  have hdoc : docs n.doc := hspans.doc_eq ▸ (hstart x hx).2
  have hsuits := suitsOuter_of_passes hselected.has hselected.passes
  have hpFree : ∀ p ∈ ps, p.expr.IsPragmaFree := fun p hp => hstepFree.mono (parts_subset_step hp)
  refine ⟨?_, fun p hp hfound hreached => exists_hit_upward_of_accepts hs hσ (hpFree p hp)
    (hstep.of_step hp) hfound hreached hcovers hselected.has hdoc hsuits (hselected.accepted p hp)⟩
  rcases hreached with ⟨p, hp, hreached⟩ | ⟨id, hreached⟩
  · exact exists_hit_of_accepts hreached hselected.has hdoc hsuits
      (fun _ _ _ => exists_hit_of_affirms hs hσ hreached hcovers (hpFree p hp) (hstep.of_step hp))
      (hselected.accepted p hp)
  · cases rest with
    | nil => cases hreached.mem_conditions
    | cons first later =>
      have hlater : ∀ e' ∈ first :: later, e'.IsPragmaFree := fun e' he' =>
        hfree.mono (hbegins.parts.2 e' he')
      rw [outcome_evaluateSteps_ofSet hlater (mem_persistent_single.2 rfl),
        ← outcome_path_cons (isPragmaFree_path.2 hlater)] at hw
      obtain ⟨x, hx, hhits⟩ := exists_hit_of_affirms hs hσ hreached hcovers
        (isPragmaFree_path.2 hlater) (hrest id) (contextSet_on (s.persistent [n]))
        (.single hselected.has hdoc (suitsOuter_none n)) hw haffirms
      obtain rfl := (mem_persistent_single (s := s)).1 hx
      exact hhits

/-- What is reached from the first step of a path is recorded for it. -/
theorem ReachedFrom.mem_conditions (h : ReachedFrom o ps rest) (hbegins : BeginsWith e head ps rest) :
    o ∈ e.conditions := by
  rcases h with ⟨p, hp, h⟩ | ⟨id, h⟩
  · exact hbegins.conditions_subset.1 (conditions_subset_step hp h.mem_conditions)
  · have hmem := h.mem_conditions
    rw [conditions_path] at hmem
    obtain ⟨e', he', ho⟩ := List.mem_flatMap.1 hmem
    exact hbegins.conditions_subset.2 e' he' ho

/-- **What is reached downward has a hit below each node that contributes.**  For every path that
begins with a step, and every condition in it whose operand and whose way from that step never
leave what is at or below the node: wherever indexes answer the conditions of the path, a node
that contributes has a hit of the condition at or below it, and the upward axis leads there from a
hit where the condition is a predicate of the step itself. -/
theorem hitsBelow_of_contributes {config : Configuration} {surface : Surface} {body : Expr}
    {pragmas : List Pragma} {id m : ExprId}
    (hcompiled : (ofSurface config (.pragma [.optimize true] (some surface))).run .none =
      .ok (extension id pragmas body, m))
    (hfree : body.IsPragmaFree) (hbegins : BeginsWith body head ps rest)
    (hreached : ReachedFrom o ps rest) (hs : s.Reachable) (hplain : s.IsPlain)
    (hprobes : s.interrupted = false) {shared : SharedSet} (hin : shared.set.IsIn s)
    (hverdict : verdict s (some (.nodes shared)) body.conditions = .ok true) {start : SharedSet}
    (hstart : ∀ x ∈ start.set, s.Has x ∧ InDocuments shared.set x.doc)
    (bindings : List (String × Sequence)) {n : Node}
    (hn : Contributes s ⟨bindings, []⟩ head ps rest start n) :
    o ∈ body.conditions ∧ o.probe.HitsBelow s n ∧
      ∀ p ∈ ps, p.expr.optimizable? = some o → Reached .below o p.expr →
        ∃ m, s.Hits o.probe.name o.probe.op o.probe.key m ∧ s.Leads o.probe.upwardAxis m n := by
  obtain ⟨lowered, k, -, heq⟩ := exists_lower_of_pragma (Pragma.create_optimize true config) hcompiled
  obtain ⟨rfl, rfl, rfl⟩ := extension.inj heq
  have hmem := hreached.mem_conditions hbegins
  obtain ⟨b, hjudged, hcovers⟩ := verdict_eq_ok hs.isIndexed hin.2 (lowered.analyze .top).conditions
  obtain rfl := Except.ok.inj (hjudged.symm.trans hverdict)
  exact ⟨hmem, hbegins.hits_of_contributes ⟨hs.isIndexed, hplain, hprobes⟩ (fun _ => rfl) hfree
    ⟨lowered, .top, rfl, rfl⟩ hreached
    (IndexProbe.coversDocs_of_coversAll ((hcovers rfl).2 o hmem)) hstart hn⟩

end Expr

/-! ### Conditions on children -/

namespace Expr

/-- The condition that a child of a name has a text. -/
def having (name text : String) : Surface :=
  .comparison .eq (.path none [.axis false .child (.name name) []]) (.literal (.string text))

/-- The probe for that condition. -/
def probeHaving (name text : String) : IndexProbe :=
  ⟨⟨.element, ⟨none, name, none⟩⟩, .child, false, true, .compare .eq, .string text, some .parentChild⟩

/-- The condition as a predicate of the expression with the second number. -/
def predicateHaving (id context : ExprId) (name text : String) : Predicate :=
  ⟨id, comparison (id + 1) .eq (step ⟨id + 2, .child, .name ⟨none, name, none⟩, false⟩ [])
    (literal (.string text)) ⟨some (probeHaving name text), false, context⟩, .boolean⟩

/-- Such a condition is reached below. -/
theorem reached_predicateHaving {id context : ExprId} {name text : String} :
    ∀ o ∈ (predicateHaving id context name text).expr.conditions,
      Reached .below o (predicateHaving id context name text).expr := by
  intro o ho
  obtain rfl := List.mem_singleton.1 ho
  refine .condition rfl (List.forall_mem_cons.2 ⟨.inl rfl, List.forall_mem_singleton.2 (.inr ?_)⟩)
    fun h => nomatch h
  exact ⟨.string text, rfl⟩

end Expr

/-! ### A shelf of books -/

/-- A store with one book on a shelf, and indexes on the names of shelves and on titles. -/
def shelfStore : Store :=
  (Store.empty.perform (.configureCollection "/db"
    [⟨⟨.attr, ⟨none, "name", none⟩⟩, .string⟩, ⟨⟨.element, ⟨none, "title", none⟩⟩, .string⟩])).perform
    (.storeXml "/db" "s.xml" "<shelf name='x'><book><title>Dune</title></book></shelf>")

theorem reachable_shelfStore : shelfStore.Reachable := .perform (.perform .empty _) _

theorem isPlain_shelfStore : shelfStore.IsPlain := by
  decide +kernel

/-- The document of the shelf, as it is given. -/
def shelves : SharedSet := ⟨⟨[.document 0], true⟩, none⟩

theorem isIn_shelves : shelves.set.IsIn shelfStore := by
  decide +kernel

namespace Expr

/-- The query for the books on which a path leads to a text. -/
def booksWith (path : List SurfaceStep) (value : String) : Surface :=
  .path none [.axis false .descendant (.name "book")
    [.comparison .eq (.path none path) (.literal (.string value))]]

/-- What a step selects contributes to the path that consists of it. -/
theorem contributes_of_toItems {start : SharedSet} {n : Node}
    (h : (σ.outcome ((step head ps).evaluate s (.on (.nodes start)))).map Sequence.toItems =
      .ok [.node n]) : Contributes s σ head ps [] start n := by
  obtain ⟨v, hv, hitems⟩ := map_eq_ok.1 h
  refine ⟨⟨v, hv, hitems ▸ List.mem_singleton_self _⟩, _, outcome_evaluateSteps_nil _, ?_⟩
  exact Sequence.affirms_of_node (List.mem_singleton_self _)

/-- A book with a title that is looked up has it below. -/
theorem hitsBelow_of_contributes_title : ∃ pragmas body head ps o m,
    (ofSurface .standard (.pragma [.optimize true]
      (some (booksWith [.axis false .child (.name "title") []] "Dune")))).run .none =
        .ok (extension 1 pragmas body, m) ∧
    BeginsWith body head ps [] ∧ ReachedFrom o ps [] ∧
    Contributes shelfStore ⟨[], []⟩ head ps [] shelves ⟨0, ⟨[1, 2]⟩⟩ ∧
    o ∈ body.conditions ∧ o.probe.HitsBelow shelfStore ⟨0, ⟨[1, 2]⟩⟩ := by
  let head : StepHead := ⟨6, .descendant, .name ⟨none, "book", none⟩, false⟩
  let p := predicateHaving 3 6 "title" "Dune"
  have hcompiled : (ofSurface .standard (.pragma [.optimize true]
      (some (booksWith [.axis false .child (.name "title") []] "Dune")))).run .none =
        .ok (extension 1 [(Pragma.optimize true).analyze .none] (step head [p]), 6) := rfl
  have hreached : ReachedFrom ⟨4, probeHaving "title" "Dune", p.expr.text⟩ [p] [] :=
    .inl ⟨p, List.mem_singleton_self _, reached_predicateHaving _ (List.mem_singleton_self _)⟩
  have hcontributes : Contributes shelfStore ⟨[], []⟩ head [p] [] shelves ⟨0, ⟨[1, 2]⟩⟩ :=
    contributes_of_toItems (by decide +kernel)
  have hverdict : verdict shelfStore (some (.nodes shelves)) (step head [p]).conditions = .ok true := by
    decide +kernel
  obtain ⟨hmem, hhits, -⟩ := hitsBelow_of_contributes hcompiled
    (plain_of_parts (by decide +kernel)).1 (.step head [p]) hreached reachable_shelfStore
    isPlain_shelfStore rfl isIn_shelves hverdict
    (fun x hx => ⟨isIn_shelves.2 x hx, x, hx, rfl⟩) [] hcontributes
  exact ⟨_, _, head, [p], _, _, hcompiled, .step _ _, hreached, hcontributes, hmem, hhits⟩

/-- **The way over an ancestor is recorded like the way to the title:** a book on a shelf whose
name is looked up has no hit below, and narrowing loses it. -/
theorem not_hitsBelow_of_contributes_shelf : ∃ pragmas body head ps o m,
    (ofSurface .standard (.pragma [.optimize true] (some (booksWith [.axis false .child (.name "title") [],
      .axis false .ancestor (.name "shelf") [], .axis false .attr (.name "name") []] "x")))).run .none =
        .ok (extension 1 pragmas body, m) ∧
    body.IsPragmaFree ∧ BeginsWith body head ps [] ∧ body.contextStep?.isSome = true ∧
    o ∈ body.conditions ∧ o.probe.op = .compare .eq ∧
    verdict shelfStore (some (.nodes shelves)) body.conditions = .ok true ∧
    Contributes shelfStore ⟨[], []⟩ head ps [] shelves ⟨0, ⟨[1, 2]⟩⟩ ∧
    ¬ o.probe.HitsBelow shelfStore ⟨0, ⟨[1, 2]⟩⟩ ∧
    (((extension 1 pragmas body).evaluate shelfStore (.on (.nodes shelves))).result
      ⟨.ofBindings [], .zero⟩).map Sequence.toItems = .ok [] := by
  let probe : IndexProbe := ⟨⟨.attr, ⟨none, "name", none⟩⟩, .child, false, false,
    .compare .eq, .string "x", none⟩
  let head : StepHead := ⟨9, .descendant, .name ⟨none, "book", none⟩, false⟩
  let operand : Expr := path 8 [step ⟨5, .child, .name ⟨none, "title", none⟩, false⟩ [],
    step ⟨6, .ancestor, .name ⟨none, "shelf", none⟩, false⟩ [],
    step ⟨7, .attr, .name ⟨none, "name", none⟩, false⟩ []]
  let p : Predicate := ⟨3, comparison 4 .eq operand (literal (.string "x")) ⟨some probe, false, 9⟩,
    .boolean⟩
  refine ⟨_, _, head, [p], ⟨4, probe, p.expr.text⟩, 9, rfl, (plain_of_parts (by decide +kernel)).1,
    .step head [p], rfl, List.mem_singleton_self _, rfl, by decide +kernel,
    contributes_of_toItems (by decide +kernel), ?_, by decide +kernel⟩
  rintro ⟨m, hhits, hwithin⟩
  obtain ⟨found, hfound, hmem⟩ := reachable_shelfStore.isIndexed.findByValue_eq_ok
    isPlain_shelfStore.declaresOnce rfl (probe.rangeQuery shelves.set false)
  have hnodes : (shelfStore.findByValue (probe.rangeQuery shelves.set false)).map NodeSet.nodes =
      .ok [⟨0, ⟨[1, 1]⟩⟩] := by
    decide +kernel
  rw [hfound] at hnodes
  have hm : m ∈ shelfStore.persistent found :=
    NodeSet.mem_ofList.2 ((hmem m).2 ⟨hwithin.doc_eq ▸ List.mem_singleton_self _, rfl, hhits⟩)
  obtain rfl : m = ⟨0, ⟨[1, 1]⟩⟩ := List.mem_singleton.1 (Except.ok.inj hnodes ▸ hm)
  exact absurd hwithin (by unfold Node.Within; decide)

end Expr
end IndexedXml
