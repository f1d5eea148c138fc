/-
# What the rounds of narrowing leave

Each round keeps the candidates at or above the hits of its condition, and so whatever has a hit
of every condition at or below it stays a candidate.  Without a context step the candidates are
context nodes (`Narrowing.outcome_rounds_context`); with one they are the nodes of its name, in
the documents of the context, that the first condition can qualify
(`Narrowing.outcome_rounds_step`).
-/

import IndexedXml.Proofs.Query.Pointwise

namespace IndexedXml

open Evaluation Setting

variable {s : Store} {σ : Setting} {docs : DocId → Prop}

namespace Narrowing

variable {o : Optimizable} {context : NodeSet} {within : Bool}

theorem reads_preSelect : σ.Reads (preSelect s o context within) :=
  reads_bind (reads_lookup _ _) fun _ => reads_bind (reads_noteIndexUse _) fun _ => reads_pure _

/-- **The hits of a condition** in the documents of the context, or within its members. -/
theorem outcome_preSelect (hs : s.IsReliable) (hcontext : ∀ n ∈ context, docs n.doc)
    (o : Optimizable) (within : Bool) :
    ∃ hits, σ.outcome (preSelect s o context within) = .ok hits ∧ hits.IsGiven s docs ∧
      ∀ m, m ∈ hits ↔ (∃ n ∈ context, n.doc = m.doc) ∧
        (within = true → ∃ n ∈ context, m.Within n) ∧
          s.Hits o.probe.name o.probe.op o.probe.key m := by
  obtain ⟨found, hfound, hmem⟩ := hs.indexed.findByValue_eq_ok hs.plain.declaresOnce hs.probes
    (o.probe.rangeQuery context within)
  have hwithin : ∀ m, Store.isWithin (o.probe.rangeQuery context within).context m = true ↔
      (within = true → ∃ n ∈ context, m.Within n) := by
    intro m
    cases within with
    | false => exact iff_of_true rfl fun h => absurd h Bool.false_ne_true
    | true => exact Store.isWithin_iff.trans ⟨fun h _ => h, fun h => h rfl⟩
  have hiff : ∀ m, m ∈ found ↔ (∃ n ∈ context, n.doc = m.doc) ∧
      (within = true → ∃ n ∈ context, m.Within n) ∧
        s.Hits o.probe.name o.probe.op o.probe.key m := by
    intro m
    rw [hmem, hwithin]
    exact and_congr_left fun _ => NodeSet.mem_documents
  refine ⟨s.persistent found, ?_, NodeSet.isGiven_persistent fun m hm => ?_, fun m => ?_⟩
  · unfold preSelect
    rw [outcome_bind (reads_lookup _ _) fun _ =>
      reads_bind (reads_noteIndexUse _) fun _ => reads_pure _, outcome_lookup, hfound]
    rfl
  · obtain ⟨⟨n, hn, hdoc⟩, _, hhits⟩ := (hiff m).1 hm
    exact ⟨hhits.has, hdoc ▸ hcontext n hn⟩
  · exact NodeSet.mem_ofList.trans (hiff m)

theorem reads_candidatesAbove {step : Option ContextStep} {selection : NodeSet} :
    σ.Reads (candidatesAbove s step o context selection) := by
  unfold candidatesAbove
  split_ifs
  · exact reads_pure _
  · cases step with
    | none => exact reads_pure _
    | some step => exact reads_lookup _ _

theorem outcome_round {step : Option ContextStep} {hits : NodeSet}
    (hhits : σ.outcome (preSelect s o context within) = .ok hits) :
    σ.outcome (round s step within o context) =
      (σ.outcome (candidatesAbove s step o context hits)).map (NarrowingRound.mk o.id hits) := by
  unfold round
  rw [outcome_bind reads_preSelect fun _ => reads_bind reads_candidatesAbove fun _ => reads_pure _,
    hhits, ok_bind, outcome_bind reads_candidatesAbove fun _ => reads_pure _]
  rfl

/-- **A round without a context step** keeps the candidates at or above a hit. -/
theorem outcome_round_context (hs : s.IsReliable) (hcontext : context.IsGiven s docs)
    (o : Optimizable) (within : Bool) :
    ∃ r, σ.outcome (round s none within o context) = .ok r ∧ r.ancestors.IsGiven s docs ∧
      (∀ n ∈ r.ancestors, n ∈ context) ∧
        ∀ n ∈ context, o.probe.HitsBelow s n → n ∈ r.ancestors := by
  obtain ⟨hits, hhits, hgiven, hmem⟩ := outcome_preSelect (σ := σ) hs hcontext.docs o within
  have hhit : ∀ {n m}, n ∈ context → s.Hits o.probe.name o.probe.op o.probe.key m → m.Within n →
      m ∈ hits := fun {n m} hn hm hbelow =>
    (hmem m).2 ⟨⟨n, hn, hbelow.doc_eq.symm⟩, fun _ => ⟨n, hn, hbelow⟩, hm⟩
  rw [outcome_round hhits]
  unfold candidatesAbove
  by_cases hempty : hits.isEmpty = true
  · rw [if_pos hempty]
    have hnone := NodeSet.isEmpty_iff.1 hempty
    refine ⟨_, rfl, hgiven, fun n hn => absurd hn (hnone n), ?_⟩
    rintro n hn ⟨m, hm, hbelow⟩
    exact absurd (hhit hn hm hbelow) (hnone m)
  · rw [if_neg hempty]
    refine ⟨_, rfl, hcontext.filter _, fun n hn => (NodeSet.mem_filter.1 hn).1, ?_⟩
    rintro n hn ⟨m, hm, hbelow⟩
    refine (NodeSet.mem_selectAncestor hgiven.isIn.1).2 ⟨hn, m, hhit hn hm hbelow, ?_⟩
    rcases hbelow with rfl | hbelow
    · exact .inr ⟨rfl, rfl⟩
    · exact .inl hbelow

theorem mem_upwardAxes (p : IndexProbe) :
    p.upwardAxis ∈ [Axis.self, .parent, .ancestor, .ancestorOrSelf] := by
  unfold IndexProbe.upwardAxis
  split_ifs <;> decide

/-- **The first round with a context step** keeps the nodes of its name that the hits lead up
to. -/
theorem outcome_round_step (hs : s.IsReliable) (hcontext : ∀ n ∈ context, docs n.doc)
    (step : ContextStep) :
    ∃ r, σ.outcome (round s (some step) false o context) = .ok r ∧ r.ancestors.IsGiven s docs ∧
      (∀ n ∈ r.ancestors, s.Bears n step.name) ∧
        ∀ n m, s.Bears n step.name → (∃ c ∈ context, c.doc = n.doc) →
          s.Hits o.probe.name o.probe.op o.probe.key m → s.Leads o.probe.upwardAxis m n →
            n ∈ r.ancestors := by
  obtain ⟨hits, hhits, hgiven, hmem⟩ := outcome_preSelect (σ := σ) hs hcontext o false
  have hhit : ∀ {n m}, (∃ c ∈ context, c.doc = n.doc) →
      s.Hits o.probe.name o.probe.op o.probe.key m → s.Leads o.probe.upwardAxis m n → m ∈ hits := by
    rintro n m ⟨c, hc, hdoc⟩ hm hleads
    exact (hmem m).2 ⟨⟨c, hc, hdoc.trans hleads.doc_eq⟩, fun h => absurd h Bool.false_ne_true, hm⟩
  rw [outcome_round hhits]
  unfold candidatesAbove
  by_cases hempty : hits.isEmpty = true
  · rw [if_pos hempty]
    have hnone := NodeSet.isEmpty_iff.1 hempty
    refine ⟨_, rfl, hgiven, fun n hn => absurd hn (hnone n), fun n m _ hdoc hm hleads => ?_⟩
    exact absurd (hhit hdoc hm hleads) (hnone m)
  · rw [if_neg hempty]
    obtain ⟨found, hfound, hmemfound⟩ := hs.indexed.findAncestors_eq_ok hs.probes
      (mem_upwardAxes o.probe) step.name hits.documents hits
    have hiff := fun n => (hmemfound n).trans (Store.liesOn_iff_of_covers fun m hm =>
      NodeSet.contains_documents.2 ⟨m, hm, rfl⟩)
    dsimp only
    rw [outcome_lookup, hfound]
    refine ⟨_, rfl, NodeSet.isGiven_persistent fun n hn => ?_, fun n hn => ?_, ?_⟩
    · obtain ⟨hbears, m, hm, hreaches⟩ := (hiff n).1 hn
      exact ⟨hbears.has, hreaches.doc_eq ▸ hgiven.docs m hm⟩
    · exact ((hiff n).1 (NodeSet.mem_ofList.1 hn)).1
    · intro n m hbears hdoc hm hleads
      exact NodeSet.mem_ofList.2 ((hiff n).2
        ⟨hbears, m, hhit hdoc hm hleads, (Store.leads_iff_reaches (mem_upwardAxes o.probe)).1 hleads⟩)

/-- The candidates after some rounds that began with the given ones. -/
def candidatesAfter (context : NodeSet) (rounds : List NarrowingRound) : NodeSet :=
  (rounds.getLast?.map NarrowingRound.ancestors).getD context

theorem candidatesAfter_cons (context : NodeSet) (r : NarrowingRound) (rounds : List NarrowingRound) :
    candidatesAfter context (r :: rounds) = candidatesAfter r.ancestors rounds := by
  cases rounds with
  | nil => rfl
  | cons second rest =>
    unfold candidatesAfter
    rw [List.getLast?_cons_cons, List.getLast?_eq_some_getLast (List.cons_ne_nil second rest)]
    rfl

theorem candidates_cons (r : NarrowingRound) (rounds : List NarrowingRound) :
    candidates (r :: rounds) = candidatesAfter r.ancestors rounds :=
  candidatesAfter_cons .empty r rounds

theorem reads_round (step : Option ContextStep) : σ.Reads (round s step within o context) :=
  reads_of_alike (alike_round σ.steady_both s step within o context)

theorem reads_rounds (step : Option ContextStep) (context : NodeSet)
    (optimizables : List Optimizable) :
    σ.Reads (rounds s step context optimizables) :=
  reads_of_alike (alike_rounds σ.steady_both s step context optimizables)

theorem reads_laterRounds (optimizables : List Optimizable) :
    ∀ context, σ.Reads (laterRounds s context optimizables) := by
  induction optimizables with
  | nil => exact fun _ => reads_pure _
  | cons o rest ih =>
    exact fun context => reads_bind (reads_round none) fun _ => reads_bind (ih _) fun _ => reads_pure _

theorem outcome_laterRounds_cons {rest : List Optimizable} {r : NarrowingRound}
    {later : List NarrowingRound} (hr : σ.outcome (round s none true o context) = .ok r)
    (hlater : σ.outcome (laterRounds s r.ancestors rest) = .ok later) :
    σ.outcome (laterRounds s context (o :: rest)) = .ok (r :: later) := by
  rw [laterRounds, outcome_bind (reads_round none) fun _ =>
    reads_bind (reads_laterRounds rest _) fun _ => reads_pure _, hr, ok_bind,
    outcome_bind (reads_laterRounds rest _) fun _ => reads_pure _, hlater]
  rfl

/-- **What the later rounds keep:** the candidates with a hit of every condition below. -/
theorem outcome_laterRounds (hs : s.IsReliable) (optimizables : List Optimizable) :
    ∀ {context : NodeSet}, context.IsGiven s docs →
      ∃ rounds, σ.outcome (laterRounds s context optimizables) = .ok rounds ∧
        (candidatesAfter context rounds).IsGiven s docs ∧
          (∀ n ∈ candidatesAfter context rounds, n ∈ context) ∧
            ∀ n ∈ context, (∀ o ∈ optimizables, o.probe.HitsBelow s n) →
              n ∈ candidatesAfter context rounds := by
  -- Each round starts from the candidates of the one before, so the context varies.
  induction optimizables with
  | nil => exact fun hcontext => ⟨[], rfl, hcontext, fun _ hn => hn, fun _ hn _ => hn⟩
  | cons o rest ih =>
    intro context hcontext
    obtain ⟨r, hr, hgiven, hsub, hkeeps⟩ := outcome_round_context (σ := σ) hs hcontext o true
    obtain ⟨rounds, hrounds, hgiven', hsub', hkeeps'⟩ := ih hgiven
    refine ⟨r :: rounds, outcome_laterRounds_cons hr hrounds, ?_⟩
    rw [candidatesAfter_cons]
    refine ⟨hgiven', fun n hn => hsub n (hsub' n hn), fun n hn hhits => ?_⟩
    exact hkeeps' n (hkeeps n hn (hhits o List.mem_cons_self))
      fun o ho => hhits o (List.mem_cons_of_mem _ ho)

theorem outcome_rounds_cons {step : Option ContextStep} {rest : List Optimizable}
    {r : NarrowingRound} {rounds' : List NarrowingRound}
    (hr : σ.outcome (round s step false o context) = .ok r)
    (hrounds : σ.outcome (laterRounds s r.ancestors rest) = .ok rounds') :
    σ.outcome (rounds s step context (o :: rest)) = .ok (r :: rounds') := by
  rw [rounds, outcome_bind (reads_round step) fun _ =>
    reads_bind (reads_laterRounds rest _) fun _ => reads_pure _, hr, ok_bind,
    outcome_bind (reads_laterRounds rest _) fun _ => reads_pure _, hrounds]
  rfl

/-! ### That there are rounds -/

theorem exists_round (hs : s.IsReliable) (step : Option ContextStep) (within : Bool) (o : Optimizable)
    (context : NodeSet) : ∃ r, σ.outcome (round s step within o context) = .ok r := by
  let anywhere : DocId → Prop := fun _ => True
  have hanywhere : ∀ n ∈ context, anywhere n.doc := fun _ _ => trivial
  obtain ⟨hits, hhits, -⟩ := outcome_preSelect (σ := σ) hs hanywhere o within
  have habove : ∃ above, σ.outcome (candidatesAbove s step o context hits) = .ok above := by
    unfold candidatesAbove
    split_ifs
    · exact ⟨_, rfl⟩
    · cases step with
      | none => exact ⟨_, rfl⟩
      | some step =>
        obtain ⟨found, hfound, -⟩ := hs.indexed.findAncestors_eq_ok hs.probes
          (mem_upwardAxes o.probe) step.name hits.documents hits
        dsimp only
        rw [outcome_lookup, hfound]
        exact ⟨_, rfl⟩
  obtain ⟨above, habove⟩ := habove
  rw [outcome_round hhits, habove]
  exact ⟨_, rfl⟩

theorem exists_laterRounds (hs : s.IsReliable) (optimizables : List Optimizable) :
    ∀ context, ∃ later, σ.outcome (laterRounds s context optimizables) = .ok later := by
  induction optimizables with
  | nil => exact fun _ => ⟨[], rfl⟩
  | cons o rest ih =>
    intro context
    obtain ⟨r, hr⟩ := exists_round (σ := σ) hs none true o context
    obtain ⟨later, hlater⟩ := ih r.ancestors
    exact ⟨r :: later, outcome_laterRounds_cons hr hlater⟩

/-- **Narrowing has all of its rounds,** whatever is narrowed. -/
theorem exists_rounds (hs : s.IsReliable) (step : Option ContextStep) (context : NodeSet)
    (optimizables : List Optimizable) :
    ∃ all, σ.outcome (rounds s step context optimizables) = .ok all := by
  cases optimizables with
  | nil => exact ⟨[], rfl⟩
  | cons o rest =>
    obtain ⟨r, hr⟩ := exists_round (σ := σ) hs step false o context
    obtain ⟨later, hlater⟩ := exists_laterRounds (σ := σ) hs rest r.ancestors
    exact ⟨r :: later, outcome_rounds_cons hr hlater⟩

/-! ### What all rounds leave -/

/-- **Narrowing without a context step** leaves a part of the context, with every node that has
a hit of each condition below. -/
theorem outcome_rounds_context (hs : s.IsReliable) (hcontext : context.IsGiven s docs)
    {optimizables : List Optimizable} (hne : optimizables ≠ []) :
    ∃ all, σ.outcome (rounds s none context optimizables) = .ok all ∧
      (candidates all).IsGiven s docs ∧ (∀ n ∈ candidates all, n ∈ context) ∧
        ∀ n ∈ context, (∀ o ∈ optimizables, o.probe.HitsBelow s n) → n ∈ candidates all := by
  cases optimizables with
  | nil => exact absurd rfl hne
  | cons o rest =>
    obtain ⟨r, hr, hgiven, hsub, hkeeps⟩ := outcome_round_context (σ := σ) hs hcontext o false
    obtain ⟨later, hlater, hgiven', hsub', hkeeps'⟩ := outcome_laterRounds (σ := σ) hs rest hgiven
    refine ⟨r :: later, outcome_rounds_cons hr hlater, ?_⟩
    rw [candidates_cons]
    refine ⟨hgiven', fun n hn => hsub n (hsub' n hn), fun n hn hhits => ?_⟩
    exact hkeeps' n (hkeeps n hn (hhits o List.mem_cons_self))
      fun o ho => hhits o (List.mem_cons_of_mem _ ho)

/-- **Narrowing with a context step** leaves nodes of its name, with every one that a hit of the
first condition leads up to and that has a hit of each other condition below. -/
theorem outcome_rounds_step (hs : s.IsReliable) (hcontext : ∀ n ∈ context, docs n.doc)
    (step : ContextStep) (o : Optimizable) (rest : List Optimizable) :
    ∃ all, σ.outcome (rounds s (some step) context (o :: rest)) = .ok all ∧
      (candidates all).IsGiven s docs ∧ (∀ n ∈ candidates all, s.Bears n step.name) ∧
        ∀ n m, s.Bears n step.name → (∃ c ∈ context, c.doc = n.doc) →
          s.Hits o.probe.name o.probe.op o.probe.key m → s.Leads o.probe.upwardAxis m n →
            (∀ o ∈ rest, o.probe.HitsBelow s n) → n ∈ candidates all := by
  obtain ⟨r, hr, hgiven, hbears, hkeeps⟩ := outcome_round_step (σ := σ) (o := o) hs hcontext step
  obtain ⟨later, hlater, hgiven', hsub, hkeeps'⟩ := outcome_laterRounds (σ := σ) hs rest hgiven
  refine ⟨r :: later, outcome_rounds_cons hr hlater, ?_⟩
  rw [candidates_cons]
  refine ⟨hgiven', fun n hn => hbears n (hsub n hn), fun n m hn hdoc hm hleads hhits => ?_⟩
  exact hkeeps' n (hkeeps n m hn hdoc hm hleads) hhits

end Narrowing
end IndexedXml
