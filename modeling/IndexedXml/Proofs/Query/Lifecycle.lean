/-
# The life of pragmas

An evaluation activates the pragmas of an expression, evaluates by way of them, and deactivates
them.  In between any other expression with pragmas may run, once or many times or not at all, and a
failure may come at any point.  Still each pragma goes through its phases in order: it is activated
when it is not open, evaluates once all pragmas of its expression are open, and is deactivated when
it is (`Expr.IsOrderly`).  This is so of the chronicle of every evaluation, and unless an evaluation
fails it leaves no pragma open (`CompiledQuery.phases_in_order`).

The proof follows the expression with one triple for all computations: what is so of the phases of
some pragmas before, and after, while those of all others stay as they are (`Evaluation.Leads`).
-/

import IndexedXml.Proofs.Query.Candidates
import IndexedXml.Proofs.Query.Chronicle
import IndexedXml.Proofs.Query.Surroundings

namespace IndexedXml

open Evaluation

/-! ### Orderly chronicles -/

/-- **A pragma is open** while it is activated or evaluating. -/
def Phase.IsOpen (phase : Option Phase) : Prop := phase = some activated ∨ phase = some evaluating

/-- **A chronicle is orderly,** the last phase first, for the pragmas of an expression. -/
inductive Expr.IsOrderly (whole : Expr) : Table Phase → Prop
  | start : IsOrderly whole []
  /-- A pragma is activated when it is not open. -/
  | activated {past : Table Phase} {p : Pragma} (h : IsOrderly whole past) (hp : p ∈ whole.pragmas)
    (hclosed : ¬Phase.IsOpen (past.get? p.id)) : IsOrderly whole ((p.id, .activated) :: past)
  /-- A pragma evaluates when it is activated, and all pragmas beside it are open. -/
  | evaluating {past : Table Phase} {id : ExprId} {pragmas : List Pragma} {body : Expr} {p : Pragma}
    (h : IsOrderly whole past) (hpart : .expr (.extension id pragmas body) ∈ whole.parts)
    (hp : p ∈ pragmas) (hactivated : past.get? p.id = some .activated)
    (hbeside : ∀ other ∈ pragmas, Phase.IsOpen (past.get? other.id)) :
    IsOrderly whole ((p.id, .evaluating) :: past)
  /-- A pragma is deactivated when it is open. -/
  | deactivated {past : Table Phase} {id : ExprId} (h : IsOrderly whole past)
    (hopen : Phase.IsOpen (past.get? id)) : IsOrderly whole ((id, .deactivated) :: past)

namespace Expr

variable {whole : Expr} {chronicle : Table Phase} {id : ExprId} {phase : Phase}

/-- Only evaluations tell phases. -/
theorem IsOrderly.of_get? (h : whole.IsOrderly chronicle) (hget : chronicle.get? id = some phase) :
    Phase.IsOpen (some phase) ∨ phase = .deactivated := by
  induction h with
  | start => cases hget
  | activated h _ _ ih =>
    rw [Table.get?_cons] at hget
    split_ifs at hget
    · exact .inl (.inl hget.symm)
    · exact ih hget
  | evaluating h _ _ _ _ ih =>
    rw [Table.get?_cons] at hget
    split_ifs at hget
    · exact .inl (.inr hget.symm)
    · exact ih hget
  | deactivated h _ ih =>
    rw [Table.get?_cons] at hget
    split_ifs at hget
    · exact .inr (Option.some.inj hget).symm
    · exact ih hget

/-- **Each pragma of which something is told has been activated.** -/
theorem IsOrderly.get?_isSome_iff (h : whole.IsOrderly chronicle) :
    (chronicle.get? id).isSome ↔ (id, .activated) ∈ chronicle := by
  have hstep : ∀ {past : Table Phase} {other : ExprId} {phase : Phase},
      ((past.get? id).isSome ↔ (id, .activated) ∈ past) →
      (phase ≠ .activated → Phase.IsOpen (past.get? other)) →
      ((Table.get? ((other, phase) :: past) id).isSome ↔
        (id, .activated) ∈ (other, phase) :: past) := by
    intro past other phase ih hopen
    rw [Table.get?_cons, List.mem_cons, ← ih]
    by_cases hid : id = other
    · subst hid
      rw [if_pos rfl]
      refine ⟨fun _ => ?_, fun _ => rfl⟩
      by_cases hphase : phase = .activated
      · exact .inl (hphase ▸ rfl)
      · right
        rcases hopen hphase with h | h <;>
        · rw [h]
          rfl
    · rw [if_neg hid]
      exact (or_iff_right fun h => hid (congrArg Prod.fst h)).symm
  induction h with
  | start => exact ⟨fun h => (nomatch h), fun h => (nomatch h)⟩
  | activated h _ _ ih => exact hstep ih fun hne => absurd rfl hne
  | evaluating h _ _ hactivated _ ih => exact hstep ih fun _ => .inl hactivated
  | deactivated h hopen ih => exact hstep ih fun _ => hopen

end Expr

/-! ### What is so of phases -/

/-- Something is so of the phases under certain numbers. -/
def Table.Holds (T : Option Phase → Prop) (ids : List ExprId) (phases : Table Phase) : Prop :=
  ∀ id ∈ ids, T (phases.get? id)

/-- A pragma is closed when it is not open. -/
def Phase.IsClosed (phase : Option Phase) : Prop := ¬IsOpen phase

namespace Table

variable {T : Option Phase → Prop} {phases : Table Phase} {id : ExprId} {ids ids' : List ExprId}

theorem holds_singleton : phases.Holds T [id] ↔ T (phases.get? id) :=
  ⟨fun h => h id (List.mem_singleton_self id), fun h _ hid => List.mem_singleton.1 hid ▸ h⟩

theorem holds_cons : phases.Holds T (id :: ids) ↔ T (phases.get? id) ∧ phases.Holds T ids := by
  unfold Holds
  exact List.forall_mem_cons

theorem holds_append : phases.Holds T (ids ++ ids') ↔ phases.Holds T ids ∧ phases.Holds T ids' := by
  unfold Holds
  exact List.forall_mem_append

theorem Holds.cons {phase : Phase} (h : phases.Holds T ids) (hid : id ∈ ids → T (some phase)) :
    Holds T ids ((id, phase) :: phases) := by
  intro other hother
  rw [get?_cons]
  split_ifs with heq
  · exact hid (heq ▸ hother)
  · exact h other hother

end Table

namespace Evaluation

/-- **What a computation that chronicles leads to:** when the chronicle is orderly and something is
so of it before, the chronicle is orderly after it, it tells nothing new but for certain numbers,
and unless the computation fails something is so of it then. -/
def Leads {α : Type} (whole : Expr) (ids : List ExprId) (P : Table Phase → Prop) (m : Evaluation α)
    (Q : Table Phase → Prop) : Prop :=
  ∀ r, whole.IsOrderly r.context.phases → P r.context.phases →
    whole.IsOrderly (m.after r).context.phases ∧
      (∀ id, id ∉ ids → (m.after r).context.phases.get? id = r.context.phases.get? id) ∧
        ∀ a, m.result r = .ok a → Q (m.after r).context.phases

/-- Pragmas that are closed before are closed after, unless the computation fails. -/
abbrev KeepsClosed {α : Type} (whole : Expr) (ids : List ExprId) (m : Evaluation α) : Prop :=
  Leads whole ids (Table.Holds Phase.IsClosed ids) m (Table.Holds Phase.IsClosed ids)

namespace Leads

variable {α β : Type} {whole : Expr} {ids ids' : List ExprId} {P P' Q Q' S : Table Phase → Prop}
  {T : Option Phase → Prop} {m : Evaluation α} {f : α → Evaluation β}

theorem bind (hm : Leads whole ids P m Q) (hf : ∀ a, Leads whole ids Q (f a) S) :
    Leads whole ids P (m >>= f) S := by
  intro r horderly hP
  obtain ⟨horderly', hframe, hQ⟩ := hm r horderly hP
  rw [result_bind, after_bind]
  cases hresult : m.result r with
  | error e => exact ⟨horderly', hframe, fun _ h => nomatch h⟩
  | ok a =>
    obtain ⟨horderly'', hframe', hS⟩ := hf a (m.after r) horderly' (hQ a hresult)
    exact ⟨horderly'', fun id hid => (hframe' id hid).trans (hframe id hid), hS⟩

theorem mono (h : Leads whole ids P m Q) (hids : ids ⊆ ids') (hP : ∀ phases, P' phases → P phases)
    (hQ : ∀ phases, Q phases → Q' phases) : Leads whole ids' P' m Q' := by
  intro r horderly hP'
  obtain ⟨horderly', hframe, hQ'⟩ := h r horderly (hP _ hP')
  exact ⟨horderly', fun id hid => hframe id fun hmem => hid (hids hmem),
    fun a ha => hQ _ (hQ' a ha)⟩

theorem of_overlooks (h : Overlooks m) : Leads whole ids P m P := by
  intro r horderly hP
  rw [h.phases_after r]
  exact ⟨horderly, fun _ _ => rfl, fun _ _ => hP⟩

theorem preloading (h : Leads whole ids P m Q) (step : ExprId) (candidates : NodeSet) :
    Leads whole ids P (preloading step candidates m) Q :=
  fun r horderly hP => h { r with context := r.context.preload step candidates } horderly hP

/-- **What is so of the phases of other pragmas stays so.** -/
theorem frame (h : Leads whole ids P m Q) (hdisjoint : ids'.Disjoint ids) :
    Leads whole ids (fun phases => P phases ∧ phases.Holds T ids') m
      fun phases => Q phases ∧ phases.Holds T ids' := by
  rintro r horderly ⟨hP, hT⟩
  obtain ⟨horderly', hframe, hQ⟩ := h r horderly hP
  refine ⟨horderly', hframe, fun a ha => ⟨hQ a ha, fun id hid => ?_⟩⟩
  rw [hframe id (hdisjoint hid)]
  exact hT id hid

/-- What is closed below is closed in all. -/
theorem widen (h : KeepsClosed whole ids m) (hids : ids ⊆ ids') : KeepsClosed whole ids' m := by
  intro r horderly hclosed
  obtain ⟨horderly', hframe, hclosed'⟩ := h r horderly fun id hid => hclosed id (hids hid)
  refine ⟨horderly', fun id hid => hframe id fun hmem => hid (hids hmem), fun a ha id hid => ?_⟩
  by_cases hmem : id ∈ ids
  · exact hclosed' a ha id hmem
  · rw [hframe id hmem]
    exact hclosed id hid

/-- A pragma enters a phase. -/
theorem record {id : ExprId} {phase : Phase}
    (horderly : ∀ phases, whole.IsOrderly phases → P phases →
      whole.IsOrderly ((id, phase) :: phases))
    (hQ : ∀ phases, P phases → Q ((id, phase) :: phases)) :
    Leads whole [id] P (update (·.record id phase)) Q := by
  intro r hr hP
  refine ⟨horderly _ hr hP, fun other hother => ?_, fun _ _ => hQ _ hP⟩
  exact (Table.get?_cons _ _ _ _).trans (if_neg fun h => hother (List.mem_singleton.2 h))

/-- Pragmas one after the other. -/
theorem forM {T' : Option Phase → Prop} {f : Pragma → Evaluation PUnit} {ps : List Pragma}
    (hps : (ps.map Pragma.id).Nodup)
    (hf : ∀ p ∈ ps, Leads whole [p.id] (Table.Holds T [p.id]) (f p) (Table.Holds T' [p.id])) :
    Leads whole (ps.map Pragma.id) (Table.Holds T (ps.map Pragma.id)) (ps.forM f)
      (Table.Holds T' (ps.map Pragma.id)) := by
  induction ps with
  | nil =>
    refine (of_overlooks (P := Table.Holds T []) (overlooks_pure _)).mono (List.Subset.refl _)
      (fun _ h => h) fun _ _ _ hid => ?_
    exact absurd hid List.not_mem_nil
  | cons p rest ih =>
    obtain ⟨hp, hrest⟩ := List.nodup_cons.1 hps
    have hfirst := (hf p List.mem_cons_self).frame (T := T) (List.disjoint_singleton.2 hp)
    have hothers := (ih hrest fun p hp => hf p (List.mem_cons_of_mem _ hp)).frame (T := T')
      (List.singleton_disjoint.2 hp)
    refine bind (hfirst.mono ?_ (fun _ h => ?_) fun _ h => h.symm) fun _ =>
      hothers.mono ?_ (fun _ h => h) fun _ h => ?_
    · exact List.cons_subset_cons _ (List.nil_subset _)
    · exact (Table.holds_cons.1 h).imp_left Table.holds_singleton.2
    · exact List.subset_cons_self _ _
    · exact Table.holds_cons.2 ⟨Table.holds_singleton.1 h.2, h.1⟩

end Leads

/-! ### Pragmas -/

section

variable {whole : Expr} {s : Store} {id : ExprId} {pragmas : List Pragma} {body : Expr}
  {evaluate : Focus → Evaluation Sequence}

variable (body) in
/-- A pragma is activated. -/
theorem leads_activate {p : Pragma} (hp : p ∈ whole.pragmas) :
    Leads whole [p.id] (Table.Holds Phase.IsClosed [p.id]) (activateEntering .record body p)
      (Table.Holds (· = some .activated) [p.id]) := by
  refine .bind (.of_overlooks (overlooks_readyFor body p)) fun _ => .record ?_ ?_
  · exact fun _ h hclosed => h.activated hp (Table.holds_singleton.1 hclosed)
  · exact fun _ _ => Table.holds_singleton.2 ((Table.get?_cons _ _ _ _).trans (if_pos rfl))

variable (whole body) in
/-- A pragma is deactivated. -/
theorem leads_deactivate (p : Pragma) :
    Leads whole [p.id] (Table.Holds Phase.IsOpen [p.id]) (deactivateEntering .record body p)
      (Table.Holds Phase.IsClosed [p.id]) := by
  refine .bind (.record ?_ ?_) fun _ => .of_overlooks (overlooks_checkUse body p)
  · exact fun _ h hopen => h.deactivated (Table.holds_singleton.1 hopen)
  · refine fun _ _ => Table.holds_singleton.2 ?_
    rw [Table.get?_cons, if_pos rfl]
    rintro (h | h) <;> cases h

theorem overlooking_keepsClosed (whole : Expr) (ids : List ExprId) :
    Overlooking fun _ m _ => KeepsClosed whole ids m where
  overlooks := .of_overlooks
  bind := .bind
  preloading h := h.preloading _ _

/-- **Amid the pragmas of an expression,** the rest of which are still to evaluate: all of them are
open, and those below are closed. -/
structure Amid (pragmas : List Pragma) (body : Expr) (rest : List Pragma) (phases : Table Phase) :
    Prop where
  own : phases.Holds Phase.IsOpen (pragmas.map Pragma.id)
  below : phases.Holds Phase.IsClosed body.numbers
  rest : phases.Holds (· = some .activated) (rest.map Pragma.id)

/-- A pragma evaluates while all beside it are open. -/
theorem leads_enterEvaluating {p : Pragma} {rest : List Pragma}
    (hpart : .expr (.extension id pragmas body) ∈ whole.parts)
    (hpragmas : (pragmas.map Pragma.id).Nodup)
    (hdisjoint : (pragmas.map Pragma.id).Disjoint body.numbers)
    (hrest : (p :: rest).Sublist pragmas) :
    Leads whole [p.id] (Amid pragmas body (p :: rest)) (update (·.record p.id .evaluating))
      (Amid pragmas body rest) := by
  have hp : p ∈ pragmas := hrest.subset List.mem_cons_self
  obtain ⟨hfresh, -⟩ := List.nodup_cons.1 ((hrest.map Pragma.id).nodup hpragmas)
  refine .record (fun phases h hamid => ?_) fun phases hamid => ?_
  · exact h.evaluating hpart hp (Table.holds_cons.1 hamid.rest).1 fun other hother =>
      hamid.own _ (List.mem_map_of_mem hother)
  · exact ⟨hamid.own.cons fun _ => .inr rfl,
      hamid.below.cons fun hmem => absurd hmem (hdisjoint (List.mem_map_of_mem hp)),
      (Table.holds_cons.1 hamid.rest).2.cons fun hmem => absurd hmem hfresh⟩

/-- **The pragmas of an expression evaluate** while all of them are open. -/
theorem leads_evaluatePragmas (hpart : .expr (.extension id pragmas body) ∈ whole.parts)
    (hpragmas : (pragmas.map Pragma.id).Nodup)
    (hdisjoint : (pragmas.map Pragma.id).Disjoint body.numbers)
    (hevaluate : ∀ focus, KeepsClosed whole body.numbers (evaluate focus)) (focus : Focus)
    {rest : List Pragma} (hrest : rest.Sublist pragmas) :
    Leads whole (pragmas.map Pragma.id ++ body.numbers) (Amid pragmas body rest)
      (evaluatePragmasEntering .record s evaluate focus rest) (Amid pragmas body []) := by
  have hbelow : ∀ {m : Evaluation Sequence} {ps : List Pragma}, KeepsClosed whole body.numbers m →
      Leads whole (pragmas.map Pragma.id ++ body.numbers) (Amid pragmas body ps) m
        (Amid pragmas body []) :=
    fun h => (h.frame hdisjoint).mono (List.subset_append_right _ _)
      (fun _ hamid => ⟨hamid.below, hamid.own⟩)
      fun _ hboth => ⟨hboth.2, hboth.1, fun _ hmem => absurd hmem List.not_mem_nil⟩
  induction rest with
  | nil => exact hbelow (hevaluate focus)
  | cons p rest ih =>
    have hid : p.id ∈ pragmas.map Pragma.id :=
      List.mem_map_of_mem (hrest.subset List.mem_cons_self)
    have henter := leads_enterEvaluating hpart hpragmas hdisjoint hrest
    refine .bind (henter.mono ?_ (fun _ h => h) fun _ h => h) fun _ => ?_
    · exact List.cons_subset.2 ⟨List.mem_append_left _ hid, List.nil_subset _⟩
    · split
      · exact hbelow ((overlooking_keepsClosed whole body.numbers).related_optimize s p.id evaluate
          evaluate hevaluate focus)
      · exact ih ((List.sublist_cons_self p rest).trans hrest)

/-- **An expression with pragmas leaves all of them closed,** and those below. -/
theorem keepsClosed_evaluateExtension (hpart : .expr (.extension id pragmas body) ∈ whole.parts)
    (hnumbers : (Expr.extension id pragmas body).numbers.Nodup)
    (hevaluate : ∀ focus, KeepsClosed whole body.numbers (evaluate focus)) (focus : Focus) :
    KeepsClosed whole (pragmas.map Pragma.id ++ body.numbers)
      (evaluateExtensionEntering .record s pragmas body evaluate focus) := by
  rw [Expr.numbers_extension] at hnumbers
  obtain ⟨hpragmas, -, hdisjoint⟩ := List.nodup_append'.1 (List.nodup_cons.1 hnumbers).2
  have hbelow : body.numbers.Disjoint (pragmas.map Pragma.id) := fun _ hi hi' => hdisjoint hi' hi
  have hown : pragmas.map Pragma.id ⊆ pragmas.map Pragma.id ++ body.numbers :=
    List.subset_append_left _ _
  have hactivations : Leads whole (pragmas.map Pragma.id ++ body.numbers)
      (Table.Holds Phase.IsClosed (pragmas.map Pragma.id ++ body.numbers))
      (pragmas.forM (activateEntering .record body)) (Amid pragmas body pragmas) := by
    have hforM := Leads.forM hpragmas fun p hp => leads_activate body
      (Expr.mem_pragmas.2 ⟨id, pragmas, body, hpart, hp⟩)
    refine (hforM.frame hbelow).mono hown (fun _ h => Table.holds_append.1 h) ?_
    exact fun _ h => ⟨fun i hi => .inl (h.1 i hi), h.2, h.1⟩
  have hdeactivations : Leads whole (pragmas.map Pragma.id ++ body.numbers) (Amid pragmas body [])
      (pragmas.forM (deactivateEntering .record body))
      (Table.Holds Phase.IsClosed (pragmas.map Pragma.id ++ body.numbers)) := by
    have hforM := Leads.forM hpragmas fun p _ => leads_deactivate whole body p
    exact (hforM.frame hbelow).mono hown (fun _ h => ⟨h.own, h.below⟩)
      fun _ h => Table.holds_append.2 h
  have hevaluation := leads_evaluatePragmas (s := s) hpart hpragmas hdisjoint hevaluate focus
    (List.Sublist.refl pragmas)
  exact hactivations.bind fun _ => hevaluation.bind fun value => hdeactivations.bind fun _ =>
    .of_overlooks (overlooks_pure value)

end
end Evaluation

/-- **The phases of an evaluation are in order,** and unless it fails no pragma stays open. -/
theorem Expr.keepsClosed_evaluate {whole : Expr} (hwhole : whole.numbers.Nodup) (s : Store)
    (e : Expr) : e.parts ⊆ whole.parts → ∀ focus, KeepsClosed whole e.numbers
      (e.evaluateWith s (evaluateExtensionEntering .record s) focus) := by
  induction e using Expr.induct_extensions with
  | _ e ih =>
    intro hsub
    have hoverlooking := overlooking_keepsClosed whole e.numbers
    suffices hrelated : RelatedWith (fun _ m _ => KeepsClosed whole e.numbers m) s
        (evaluateExtensionEntering .record s) (evaluateExtensionEntering .record s) e from hrelated
    refine related_evaluateWith hoverlooking.toChains e
      (hoverlooking.meetsHandlings fun id pragmas body hpart _ focus => ?_)
    have hbody := ih id pragmas body hpart (List.Subset.trans
      (parts_subset_extension id pragmas body)
      (List.Subset.trans (parts_subset_of_mem e hpart) hsub))
    have hnumbers := nodup_numbers_of_mem hwhole (hsub hpart)
    rw [evaluateWith]
    refine (keepsClosed_evaluateExtension (hsub hpart) hnumbers hbody focus).widen ?_
    exact List.Subset.trans (List.subset_cons_self _ _)
      (numbers_subset (parts_subset_of_mem e hpart))

namespace CompiledQuery

variable {source : String} {config : Configuration} {q : CompiledQuery} {past : List Occasion}
  {c : QueryContext}

/-- **An evaluation reaches a pragma** when it does not pass it by. -/
def Reaches (q : CompiledQuery) (o : Occasion) (p : Pragma) : Prop := ¬q.PassesBy o p

theorem reaches_iff {o : Occasion} {p : Pragma} :
    q.Reaches o p ↔ (p.id, .activated) ∈ q.chronicle o :=
  passesBy_iff.not.trans not_not

instance (q : CompiledQuery) (o : Occasion) (p : Pragma) : Decidable (q.Reaches o p) :=
  decidable_of_iff _ reaches_iff.symm

/-- **The chronicle of an evaluation is orderly,** and unless it fails no pragma is open at the
end. -/
theorem isOrderly_chronicle (hq : compile source config = .ok q) (o : Occasion) :
    q.root.IsOrderly (q.chronicle o) ∧ ∀ value,
      (q.evaluate o.store o.focus).result o.run = .ok value →
        (q.chronicle o).Holds Phase.IsClosed q.root.numbers := by
  obtain ⟨horderly, -, hclosed⟩ := Expr.keepsClosed_evaluate (nodup_numbers hq) o.store q.root
    (List.Subset.refl _) o.focus (o.run.withPhases []) .start
    fun _ _ h => h.elim (fun h => nomatch h) fun h => nomatch h
  refine ⟨horderly, fun value hvalue => hclosed value ?_⟩
  exact (q.isChronicled o).outcome.trans hvalue

/-- The pragmas of a compiled query have been analyzed. -/
theorem analyzed_of_compile (hq : compile source config = .ok q) {p : Pragma}
    (hp : p ∈ q.root.pragmas) : p.analyzed = true := by
  obtain ⟨written, hroot⟩ := exists_analyze_of_compile hq
  obtain ⟨id, pragmas, body, hpart, hp⟩ := Expr.mem_pragmas.1 hp
  obtain ⟨inner, around, heq, -⟩ := Expr.exists_analyze_of_mem written (Expr.handsOn_trivial written)
    .top trivial (hroot ▸ hpart)
  cases inner <;> cases heq
  obtain ⟨p, -, rfl⟩ := List.mem_map.1 hp
  rfl

/-- **The phases in a context come from the evaluations that it has seen.** -/
structure PhasesComeFrom (q : CompiledQuery) (past : List Occasion) (phases : Table Phase) :
    Prop where
  reached : ∀ id, (phases.get? id).isSome ↔ ∃ o ∈ past, (id, .activated) ∈ q.chronicle o
  entered : ∀ id phase, phases.get? id = some phase →
    Phase.IsOpen (some phase) ∨ phase = .deactivated

theorem phasesComeFrom_of_hasSeen (hq : compile source config = .ok q) (hc : c.HasSeen q past) :
    q.PhasesComeFrom past c.phases := by
  induction hc with
  | new =>
    exact ⟨fun _ => ⟨fun h => (nomatch h), fun ⟨_, h, _⟩ => (nomatch h)⟩, fun _ _ h => nomatch h⟩
  | declare name value _ ih => exact ih
  | @reset past c _ ih =>
    have hget : ∀ id, c.reset.phases.get? id = (c.phases.get? id).map Phase.reset :=
      Table.get?_mapValues c.phases Phase.reset
    refine ⟨fun id => ?_, fun id phase h => ?_⟩
    · rw [hget, Option.isSome_map, ih.reached id]
    · rw [hget] at h
      obtain ⟨old, hold, rfl⟩ := Option.map_eq_some_iff.1 h
      -- Whatever has been entered, what is left of it is the activation.
      rcases ih.entered id old hold with (hold | hold) | rfl
      · obtain rfl := Option.some.inj hold
        exact .inl (.inl rfl)
      · obtain rfl := Option.some.inj hold
        exact .inl (.inl rfl)
      · exact .inl (.inl rfl)
  | @evaluate past c s focus counts _ ih =>
    let o : Occasion := ⟨s, focus, ⟨c, counts⟩⟩
    obtain ⟨horderly, -⟩ := isOrderly_chronicle hq o
    have htold := (q.isChronicled o).phases
    refine ⟨fun id => ?_, fun id phase h => ?_⟩
    · rw [htold id, Option.isSome_or, Bool.or_eq_true, horderly.get?_isSome_iff, ih.reached id]
      simp only [List.mem_cons, exists_eq_or_imp, o]
    · rw [htold id, Option.or_eq_some_iff] at h
      rcases h with h | ⟨-, h⟩
      · exact horderly.of_get? h
      · exact ih.entered id phase h

/-- **Pragmas live in order.**  In every evaluation of a compiled query, however it ends, a pragma
is activated when it is not open, evaluates when it is activated and all pragmas beside it are
open, and is deactivated when it is open.  A query context has been used for the query only: for
any number of evaluations, on whatever stores and however they ended, declarations of variables and
resets.  If no pragma is activated or evaluating in it and a further evaluation does not fail, then
each pragma is deactivated if any evaluation has reached it, and otherwise it is just analyzed. -/
theorem phases_in_order (hq : compile source config = .ok q) (hc : c.HasSeen q past) :
    (∀ o, q.IsChronicled o ∧ q.root.IsOrderly (q.chronicle o)) ∧
    ∀ s focus counts value, (q.evaluate s focus).result ⟨c, counts⟩ = .ok value →
      (∀ p ∈ q.root.pragmas, c.phase p ≠ .activated ∧ c.phase p ≠ .evaluating) →
        ∀ p ∈ q.root.pragmas, ((q.evaluate s focus).after ⟨c, counts⟩).context.phase p =
          if ∃ o ∈ (⟨s, focus, ⟨c, counts⟩⟩ : Occasion) :: past, q.Reaches o p then .deactivated
          else .analyzed := by
  refine ⟨fun o => ⟨q.isChronicled o, (isOrderly_chronicle hq o).1⟩, ?_⟩
  intro s focus counts value hvalue hclosed p hp
  let o : Occasion := ⟨s, focus, ⟨c, counts⟩⟩
  obtain ⟨-, hended⟩ := isOrderly_chronicle hq o
  have htold := (q.isChronicled o).phases
  have hseen := phasesComeFrom_of_hasSeen hq (hc.evaluate s focus counts)
  have hreached : (((q.evaluate s focus).after ⟨c, counts⟩).context.phases.get? p.id).isSome ↔
      ∃ o ∈ (⟨s, focus, ⟨c, counts⟩⟩ : Occasion) :: past, q.Reaches o p := by
    simpa only [reaches_iff] using hseen.reached p.id
  unfold QueryContext.phase
  rw [if_pos (analyzed_of_compile hq hp)]
  split_ifs with hany
  · obtain ⟨phase, hphase⟩ := Option.isSome_iff_exists.1 (hreached.2 hany)
    rw [hphase]
    refine (hseen.entered p.id phase hphase).resolve_left fun hopen => ?_
    rw [htold p.id, Option.or_eq_some_iff] at hphase
    rcases hphase with hphase | ⟨-, hphase⟩
    · exact hended value hvalue p.id (Expr.pragma_id_mem_numbers hp) (hphase ▸ hopen)
    · have hbefore : c.phase p = phase := by
        unfold QueryContext.phase
        rw [hphase]
        rfl
      rcases hopen with h | h
      · exact (hclosed p hp).1 (hbefore.trans (Option.some.inj h))
      · exact (hclosed p hp).2 (hbefore.trans (Option.some.inj h))
  · rw [Option.not_isSome_iff_eq_none.1 (mt hreached.1 hany)]
    rfl

end CompiledQuery

/-! ### Books or notes -/

/-- The query whether there are books by an author, or else notes: with a pragma in a predicate, two
beside each other around it, and one that is not reached. -/
def writtenBooksOrNotes : String :=
  "(# exist:no-index #) (# exist:optimize #) \x7b //book[(# exist:optimize #) \x7b " ++
    "author = 'Herbert' \x7d] \x7d or (# exist:no-index #) \x7b //note \x7d"

/-- An evaluation for the document of the book. -/
def authorsOccasion (c : QueryContext) : Occasion :=
  ⟨authorsStore, .on (.nodes authorsLibrary), ⟨c, .zero⟩⟩

namespace CompiledQuery

/-- What an evaluation for the document of the book leaves behind. -/
def afterAuthors (q : CompiledQuery) (c : QueryContext) : QueryContext :=
  ((q.evaluate authorsStore (.on (.nodes authorsLibrary))).after ⟨c, .zero⟩).context

/-- The chronicle of the first evaluation, and the phases after the second one. -/
theorem phases_in_order_writtenBooksOrNotes : ∃ q : CompiledQuery,
    compile writtenBooksOrNotes .standard = .ok q ∧
      (q.afterAuthors .empty).HasSeen q [authorsOccasion .empty] ∧
      q.IsChronicled (authorsOccasion .empty) ∧
      q.root.IsOrderly (q.chronicle (authorsOccasion .empty)) ∧
      q.chronicle (authorsOccasion .empty) = [(3, .deactivated), (2, .deactivated),
        (6, .deactivated), (6, .evaluating), (6, .activated), (3, .evaluating), (2, .evaluating),
        (3, .activated), (2, .activated)] ∧
      (∀ p ∈ q.root.pragmas, (q.afterAuthors (q.afterAuthors .empty)).phase p =
        if ∃ o ∈ [authorsOccasion (q.afterAuthors .empty), authorsOccasion .empty],
          q.Reaches o p then .deactivated
        else .analyzed) ∧
      (q.root.pragmas.map fun p => (p.id, (q.afterAuthors (q.afterAuthors .empty)).phase p)) =
        [(2, .deactivated), (3, .deactivated), (6, .deactivated), (12, .analyzed)] := by
  have hcompiled : (compile writtenBooksOrNotes .standard).map (fun q =>
      (q.chronicle (authorsOccasion .empty),
        q.root.pragmas.map fun p => (p.id, (q.afterAuthors (q.afterAuthors .empty)).phase p),
        ((q.evaluate authorsStore (.on (.nodes authorsLibrary))).result
          ⟨q.afterAuthors .empty, .zero⟩).toBool,
        q.root.pragmas.all fun p =>
          [.deactivated, .analyzed].elem ((q.afterAuthors .empty).phase p))) =
      .ok ([(3, .deactivated), (2, .deactivated), (6, .deactivated), (6, .evaluating),
          (6, .activated), (3, .evaluating), (2, .evaluating), (3, .activated), (2, .activated)],
        [(2, .deactivated), (3, .deactivated), (6, .deactivated), (12, .analyzed)], true,
        true) := by
    decide +kernel
  obtain ⟨q, hq, hcompiled⟩ := map_eq_ok.1 hcompiled
  simp only [Prod.mk.injEq, List.all_eq_true, List.elem_eq_mem, decide_eq_true_eq] at hcompiled
  obtain ⟨hchronicle, hphases, hsucceeds, hclosed⟩ := hcompiled
  obtain ⟨value, hvalue⟩ := toBool_eq_true.1 hsucceeds
  have hseen : (q.afterAuthors .empty).HasSeen q [authorsOccasion .empty] :=
    QueryContext.HasSeen.new.evaluate authorsStore (.on (.nodes authorsLibrary)) .zero
  obtain ⟨horder, hended⟩ := phases_in_order hq hseen
  refine ⟨q, hq, hseen, (horder _).1, (horder _).2, hchronicle,
    hended _ _ _ value hvalue fun p hp => ?_, hphases⟩
  rcases List.mem_pair.1 (hclosed p hp) with h | h <;>
  · rw [h]
    exact ⟨Phase.noConfusion, Phase.noConfusion⟩

end CompiledQuery
end IndexedXml
