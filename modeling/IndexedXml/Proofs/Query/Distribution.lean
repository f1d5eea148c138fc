/-
# Expressions that distribute over their context

The value of some expressions for a set is made of what its members lead to one by one: steps that
count positions anew for each context node, steps and filters with predicates that are true or
false of a node wherever it stands, and paths of these (`Expr.isLocal`).  When such an expression
has a value for a set, it has one for every part of the set, which collects what the members of
the part lead to (`Expr.isAdditive_of_isLocal`).

A predicate that is applied to a whole set at once may be answered by an index for a part of the
set and not for all of it.  So indexes have to cover these predicates (`Expr.wholePredicates`).
-/

import IndexedXml.Proofs.Query.Numberless

namespace IndexedXml

open Evaluation Setting

variable {s : Store} {σ : Setting} {docs : DocId → Prop}

/-! ### Values that collect nodes -/

namespace Sequence

/-- **Two values come to the same:** they are equal, or neither has items. -/
def Same (v w : Sequence) : Prop := v = w ∨ (v.toItems = [] ∧ w.toItems = [])

/-- **A value collects the nodes with a property,** which are nodes of the store in some documents:
it is a set of them that the store has handed out, or has no items when there are none. -/
def Collects (v : Sequence) (s : Store) (docs : DocId → Prop) (P : Node → Prop) : Prop :=
  (v.toItems = [] ∧ ∀ n, ¬ P n) ∨
    ∃ set : NodeSet, v = .ofSet set ∧ set.IsGiven s docs ∧ ∀ n, n ∈ set ↔ P n

variable {v w : Sequence} {P Q : Node → Prop}

theorem Same.refl (v : Sequence) : v.Same v := .inl rfl

theorem Same.symm (h : v.Same w) : w.Same v := h.imp Eq.symm And.symm

theorem Same.trans {u : Sequence} (h : u.Same v) (h' : v.Same w) : u.Same w := by
  rcases h with rfl | ⟨hu, hv⟩
  · exact h'
  · rcases h' with rfl | ⟨_, hw⟩
    · exact .inr ⟨hu, hv⟩
    · exact .inr ⟨hu, hw⟩

theorem Same.toItems_eq (h : v.Same w) : v.toItems = w.toItems := by
  rcases h with rfl | ⟨hv, hw⟩
  · rfl
  · rw [hv, hw]

theorem Collects.congr (h : v.Collects s docs P) (hPQ : ∀ n, P n ↔ Q n) : v.Collects s docs Q := by
  rcases h with ⟨hv, hnone⟩ | ⟨set, rfl, hgiven, hset⟩
  · exact .inl ⟨hv, fun n hn => hnone n ((hPQ n).2 hn)⟩
  · exact .inr ⟨set, rfl, hgiven, fun n => (hset n).trans (hPQ n)⟩

theorem collects_ofSet {set : NodeSet} (h : set.IsGiven s docs) :
    (ofSet set).Collects s docs (· ∈ set) := .inr ⟨set, rfl, h, fun _ => Iff.rfl⟩

theorem Collects.mem (h : v.Collects s docs P) {n : Node} : .node n ∈ v.toItems ↔ P n := by
  rcases h with ⟨hv, hnone⟩ | ⟨set, rfl, _, hset⟩
  · rw [hv]
    exact iff_of_false List.not_mem_nil (hnone n)
  · rw [← hset]
    exact ⟨fun h => let ⟨_, hm, heq⟩ := List.mem_map.1 h; Item.node.inj heq ▸ hm, List.mem_map_of_mem⟩

/-- A value that collects nodes comes to the same as a set that the store has handed out. -/
theorem Collects.exists_same (h : v.Collects s docs P) :
    ∃ set : NodeSet, v.Same (.ofSet set) ∧ set.IsGiven s docs ∧ ∀ n, n ∈ set ↔ P n := by
  rcases h with ⟨hv, hnone⟩ | ⟨set, rfl, hgiven, hset⟩
  · exact ⟨s.persistent [], .inr ⟨hv, rfl⟩, NodeSet.isGiven_persistent fun n hn => absurd hn
      List.not_mem_nil, fun n => iff_of_false List.not_mem_nil (hnone n)⟩
  · exact ⟨set, .refl _, hgiven, hset⟩

theorem Collects.of_same (h : v.Collects s docs P) (hsame : v.Same w) : w.Collects s docs P := by
  rcases hsame with rfl | ⟨hv, hw⟩
  · exact h
  · refine .inl ⟨hw, fun n hn => ?_⟩
    have hmem := h.mem.2 hn
    rw [hv] at hmem
    cases hmem

/-- **Values that collect the same nodes come to the same.** -/
theorem Collects.same (hv : v.Collects s docs P) (hw : w.Collects s docs P) : v.Same w := by
  have hempty : ∀ set : NodeSet, (∀ n, n ∈ set ↔ P n) → (∀ n, ¬ P n) → (ofSet set).toItems = [] := by
    intro set hset hnone
    exact congrArg (List.map Item.node)
      (List.eq_nil_iff_forall_not_mem.2 fun n hn => hnone n ((hset n).1 hn))
  rcases hv with ⟨hv, hnone⟩ | ⟨set, rfl, hgiven, hset⟩ <;>
    rcases hw with ⟨hw, hnone'⟩ | ⟨set', rfl, hgiven', hset'⟩
  · exact .inr ⟨hv, hw⟩
  · exact .inr ⟨hv, hempty set' hset' hnone⟩
  · exact .inr ⟨hempty set hset hnone', hw⟩
  · refine .inl (congrArg ofSet (hgiven.isIn.1.ext hgiven'.isIn.1 ?_ fun n =>
      (hset n).trans (hset' n).symm))
    exact hgiven.persistent.trans hgiven'.persistent.symm

end Sequence

/-! ### Values without items -/

namespace Expr

theorem outcome_applyPredicate_isEmpty {e : Expr} (hfree : e.IsPragmaFree) (mode : PredicateMode)
    (reverse : Bool) {v : Sequence} (hv : v.toItems = []) :
    ∃ w, σ.outcome (applyPredicate s mode e.probe? (e.evaluate s) reverse v) = .ok w ∧
      w.toItems = [] := by
  have hreads : ∀ focus, σ.Reads (e.evaluate s focus) := reads_evaluate hfree
  have hindex : byIndex s mode e.probe? v = .ok none := by
    unfold byIndex
    split
    · rename_i shared heq
      have hnil : shared.set.nodes = [] := List.map_eq_nil_iff.1 hv
      have hcs : shared.set.documents.docs.mapM s.collectionOf = .ok [] := by
        unfold NodeSet.documents
        rw [hnil]
        rfl
      exact IndexProbe.answer_eq_none hcs rfl
    · rfl
  rw [outcome_applyPredicate hreads, hindex, ok_bind]
  dsimp only
  rw [outcome_applyByItem hreads, hv]
  refine ⟨_, rfl, ?_⟩
  exact List.eq_nil_iff_forall_not_mem.2 fun item hitem =>
    List.not_mem_nil (mem_toItems_withItems hitem)

/-- Predicates leave nothing of a value without items. -/
theorem outcome_applyPredicates_isEmpty {ps : List Predicate} (reverse : Bool) :
    ∀ {v : Sequence}, (∀ p ∈ ps, p.expr.IsPragmaFree) → v.toItems = [] →
      ∃ w, σ.outcome (applyPredicates s ps reverse v) = .ok w ∧ w.toItems = [] := by
  induction ps with
  | nil => exact fun {v} _ hv => ⟨v, outcome_applyPredicates_nil reverse v, hv⟩
  | cons p rest ih =>
    intro v hfree hv
    obtain ⟨kept, hkept, hnil⟩ := outcome_applyPredicate_isEmpty (s := s) (σ := σ)
      (hfree p List.mem_cons_self) p.mode reverse hv
    rw [outcome_applyPredicates_cons hfree, hkept, ok_bind]
    exact ih (fun p hp => hfree p (List.mem_cons_of_mem _ hp)) hnil

variable {v v' w : Sequence}

/-- **Predicates treat values alike** that come to the same. -/
theorem outcome_applyPredicates_same {ps : List Predicate} (hfree : ∀ p ∈ ps, p.expr.IsPragmaFree)
    {reverse : Bool} (hsame : v.Same v') (hw : σ.outcome (applyPredicates s ps reverse v) = .ok w) :
    ∃ w', σ.outcome (applyPredicates s ps reverse v') = .ok w' ∧ w.Same w' := by
  rcases hsame with rfl | ⟨hv, hv'⟩
  · exact ⟨w, hw, .refl w⟩
  · obtain ⟨own, hown, hnil⟩ := outcome_applyPredicates_isEmpty (s := s) (σ := σ) reverse hfree hv
    obtain ⟨w', hw', hnil'⟩ := outcome_applyPredicates_isEmpty (s := s) (σ := σ) reverse hfree hv'
    obtain rfl := Except.ok.inj (hown.symm.trans hw)
    exact ⟨w', hw', .inr ⟨hnil, hnil'⟩⟩

/-- **Further steps treat values alike** that come to the same. -/
theorem outcome_evaluateSteps_same {es : List Expr} (hfree : ∀ e ∈ es, e.IsPragmaFree)
    (hsame : v.Same v') (hw : σ.outcome (evaluateSteps s es v) = .ok w) :
    ∃ w', σ.outcome (evaluateSteps s es v') = .ok w' ∧ w.Same w' := by
  rcases hsame with rfl | ⟨hv, hv'⟩
  · exact ⟨w, hw, .refl w⟩
  · cases es with
    | nil =>
      rw [outcome_evaluateSteps_nil] at hw
      obtain rfl := Except.ok.inj hw
      exact ⟨v', outcome_evaluateSteps_nil v', .inr ⟨hv, hv'⟩⟩
    | cons e rest =>
      rw [outcome_evaluateSteps_cons hfree, if_pos (Sequence.isEmpty_iff_toItems.2 hv)] at hw
      refine ⟨.empty, ?_, .inl (Except.ok.inj hw).symm⟩
      rw [outcome_evaluateSteps_cons hfree, if_pos (Sequence.isEmpty_iff_toItems.2 hv')]

end Expr

/-! ### Distribution -/

/-- **An evaluation distributes over a relation:** when it has a value for a set, then for every
part of the set it has one that collects what the members of the part are related to. -/
def Distributes (s : Store) (docs : DocId → Prop) (R : Node → Node → Prop)
    (f : NodeSet → Except QueryError Sequence) : Prop :=
  ∀ set v, set.IsGiven s docs → f set = .ok v →
    ∀ part, part.IsGiven s docs → (∀ n ∈ part, n ∈ set) →
      ∃ v', f part = .ok v' ∧ v'.Collects s docs fun m => ∃ n ∈ part, R n m

/-- The value for a set collects what the members of the set are related to. -/
theorem Distributes.collects {R : Node → Node → Prop} {f : NodeSet → Except QueryError Sequence}
    (h : Distributes s docs R f) {set : NodeSet} (hset : set.IsGiven s docs) {v : Sequence}
    (hv : f set = .ok v) : v.Collects s docs fun m => ∃ n ∈ set, R n m := by
  obtain ⟨v', hv', hcollects⟩ := h set v hset hv set hset fun _ hn => hn
  exact Except.ok.inj (hv'.symm.trans hv) ▸ hcollects

/-- **A step leads from one node to another:** to one among those that pass its test along its
axis. -/
def Store.Gives (s : Store) (head : StepHead) (n m : Node) : Prop :=
  ∃ kept, (s.along head.axis n >>= filterPassing (s.passes head.axis head.test)) = .ok kept ∧ m ∈ kept

namespace Setting

variable {head : StepHead}

/-- **The nodes of a step** are those that its context nodes lead to one by one. -/
theorem outcome_selectAxis_gives (hs : s.IsReliable) (hσ : σ.IsBare) {set found : NodeSet}
    (hset : set.IsGiven s docs) (hfound : σ.outcome (selectAxis s head set) = .ok found)
    {part : NodeSet} (hpart : part.IsGiven s docs) (hsub : ∀ n ∈ part, n ∈ set) :
    ∃ found', σ.outcome (selectAxis s head part) = .ok found' ∧ found'.IsGiven s docs ∧
      ∀ m, m ∈ found' ↔ ∃ n ∈ part, s.Gives head n m := by
  rw [outcome_selectAxis_eq_navigate hσ hs.answering head hset.isIn.2, mapError_eq_ok] at hfound
  obtain ⟨all, hall, -⟩ := bind_eq_ok.1 hfound
  obtain ⟨own, hown⟩ := exists_mapM_eq_ok fun n (hn : n ∈ part.nodes) =>
    let ⟨kept, _, hkept⟩ := exists_of_mapM hall (hsub n hn)
    ⟨kept, hkept⟩
  have hnavigate : s.navigate head.axis head.test part = .ok (s.persistent own.flatten) := by
    unfold Store.navigate
    rw [hown]
    rfl
  have hselect : σ.outcome (selectAxis s head part) = .ok (s.persistent own.flatten) := by
    rw [outcome_selectAxis_eq_navigate hσ hs.answering head hpart.isIn.2, hnavigate]
    rfl
  have hmem : ∀ m, m ∈ own.flatten ↔ ∃ n ∈ part, s.Gives head n m := by
    intro m
    constructor
    · intro hm
      obtain ⟨n, hn, kept, hkept, hmem⟩ := mem_flatten_of_mapM hown hm
      exact ⟨n, hn, kept, hkept, hmem⟩
    · rintro ⟨n, hn, kept, hkept, hm⟩
      obtain ⟨kept', hmem, hkept'⟩ := exists_of_mapM hown hn
      obtain rfl := Except.ok.inj (hkept'.symm.trans hkept)
      exact List.mem_flatten_of_mem hmem hm
  refine ⟨_, hselect, NodeSet.isGiven_persistent fun m hm => ?_, fun m =>
    NodeSet.mem_ofList.trans (hmem m)⟩
  refine ⟨(isIn_of_selectAxis hσ hs.answering hpart.isIn.2 hselect).1.2 m (NodeSet.mem_ofList.2 hm), ?_⟩
  obtain ⟨n, hn, kept, hkept, hled⟩ := (hmem m).1 hm
  obtain ⟨l, hl, hkept⟩ := bind_eq_ok.1 hkept
  have hspans : Extent.document.Spans n m := Extent.spans_of_along hs.indexed rfl
    (hpart.isIn.2 n hn) hl (mem_of_filterPassing hkept hled).1
  exact hspans.doc_eq ▸ hpart.docs n hn

variable {applyAll : Sequence → Except QueryError Sequence} {persistent : Bool} {nodes : List Node}

/-- **A step counting positions has a value** when it has one for each of its context nodes. -/
theorem exists_byNode (h : ∀ n ∈ nodes, ∃ own,
      σ.forNode s head applyAll persistent n = .ok own ∧ own.IsGiven s docs) :
    ∃ found, σ.byNode s head applyAll persistent nodes = .ok found ∧
      (Sequence.ofSet found).Collects s docs fun m => ∃ n ∈ nodes, ∃ own,
        σ.forNode s head applyAll persistent n = .ok own ∧ m ∈ own := by
  have hfold : ∀ (nodes : List Node), (∀ n ∈ nodes, ∃ own,
      σ.forNode s head applyAll persistent n = .ok own ∧ own.IsGiven s docs) →
      ∀ start : NodeSet, start.IsIn s → (∀ n ∈ start, docs n.doc) → ∃ found,
        nodes.foldlM (fun result n => (σ.forNode s head applyAll persistent n).map result.union)
          start = .ok found ∧ found.IsIn s ∧ (∀ n ∈ found, docs n.doc) ∧
            (start.persistent = true ∨ nodes ≠ [] → found.persistent = true) := by
    intro nodes
    induction nodes with
    | nil =>
      exact fun _ start hstart hdocs => ⟨start, rfl, hstart, hdocs, fun h => h.resolve_right fun h =>
        h rfl⟩
    | cons n rest ih =>
      intro h start hstart hdocs
      obtain ⟨own, hown, hgiven⟩ := h n List.mem_cons_self
      have hnext : (start.union own).persistent = true := by
        change (start.persistent || own.persistent) = true
        rw [hgiven.persistent, Bool.or_true]
      obtain ⟨found, hfound, hin, hdocs', hpersistent⟩ := ih
        (fun n hn => h n (List.mem_cons_of_mem _ hn)) (start.union own)
        ⟨hgiven.isIn.1.union start, fun m hm => (NodeSet.mem_union.1 hm).elim (hstart.2 m)
          (hgiven.isIn.2 m)⟩
        (fun m hm => (NodeSet.mem_union.1 hm).elim (hdocs m) (hgiven.docs m))
      refine ⟨found, ?_, hin, hdocs', fun _ => hpersistent (.inl hnext)⟩
      rw [List.foldlM_cons, hown]
      exact hfound
  obtain ⟨found, hfound, hin, hdocs, hpersistent⟩ := hfold nodes h .empty NodeSet.isIn_empty
    fun n hn => absurd hn NodeSet.not_mem_empty
  rw [← byNode_eq_foldlM] at hfound
  have hmem := (mem_byNode hfound).2
  refine ⟨found, hfound, ?_⟩
  cases nodes with
  | nil =>
    refine .inl ⟨congrArg (List.map Item.node) (List.eq_nil_iff_forall_not_mem.2 fun m hm => ?_),
      fun m hm => ?_⟩
    · obtain ⟨n, hn, _⟩ := (hmem m).1 hm
      cases hn
    · obtain ⟨n, hn, _⟩ := hm
      cases hn
  | cons n rest => exact .inr ⟨found, rfl, ⟨hin, hpersistent (.inr (List.cons_ne_nil _ _)), hdocs⟩, hmem⟩

end Setting

namespace Expr

/-- A predicate leaves of a set that the store has handed out such a set again. -/
theorem isGiven_of_applyPredicate (hs : s.IsReliable) {e : Expr} (hfree : e.IsPragmaFree)
    {mode : PredicateMode} {reverse : Bool} {set : NodeSet} {v : Sequence} (hset : set.IsGiven s docs)
    (hv : σ.outcome (applyPredicate s mode e.probe? (e.evaluate s) reverse (.ofSet set)) = .ok v) :
    ∃ kept : NodeSet, v = .ofSet kept ∧ kept.IsGiven s docs := by
  have hreads : ∀ focus, σ.Reads (e.evaluate s focus) := reads_evaluate hfree
  rw [outcome_applyPredicate hreads] at hv
  obtain ⟨answer, hanswer, hv⟩ := bind_eq_ok.1 hv
  cases answer with
  | some kept =>
    obtain ⟨_, probe, shared, _, hshared, hselected⟩ := byIndex_eq_some hanswer
    obtain rfl : ⟨set, none⟩ = shared := Sequence.nodes.inj hshared
    obtain ⟨_, keep, _, rfl, _⟩ := answer_eq_some hs hset.isIn.2 hselected
    exact ⟨_, (Except.ok.inj hv).symm, hset.filter keep⟩
  | none =>
    rw [outcome_applyByItem hreads] at hv
    obtain ⟨kept, hkept, rfl⟩ := map_eq_ok.1 hv
    have hsub : ∀ n ∈ kept.filterMap Item.node?, n ∈ set := fun n hn =>
      (Sequence.collects_ofSet hset).mem.1
        (selects_of_mem_selectItems hreads hkept _ (mem_filterMap_node?.1 hn)).1
    refine ⟨_, withItems_nodes ⟨set, none⟩ kept, NodeSet.isIn_ofList _ fun n hn =>
      hset.isIn.2 n (hsub n hn), hset.persistent, fun n hn => hset.docs n (hsub n ?_)⟩
    exact NodeSet.mem_ofList.1 hn

/-- So do predicates. -/
theorem isGiven_of_applyPredicates (hs : s.IsReliable) {ps : List Predicate} {reverse : Bool} :
    ∀ {set : NodeSet} {v : Sequence}, (∀ p ∈ ps, p.expr.IsPragmaFree) → set.IsGiven s docs →
      σ.outcome (applyPredicates s ps reverse (.ofSet set)) = .ok v →
        ∃ kept : NodeSet, v = .ofSet kept ∧ kept.IsGiven s docs := by
  induction ps with
  | nil =>
    intro set v _ hset hv
    rw [outcome_applyPredicates_nil] at hv
    exact ⟨set, (Except.ok.inj hv).symm, hset⟩
  | cons p rest ih =>
    intro set v hfree hset hv
    rw [outcome_applyPredicates_cons hfree] at hv
    obtain ⟨first, hfirst, hv⟩ := bind_eq_ok.1 hv
    obtain ⟨kept, rfl, hkept⟩ := isGiven_of_applyPredicate hs (hfree p List.mem_cons_self) hset hfirst
    exact ih (fun q hq => hfree q (List.mem_cons_of_mem _ hq)) hkept hv

/-! ### Local expressions -/

/-- Whether predicates keep a node or not wherever it stands. -/
def areStanding (ps : List Predicate) : Bool :=
  !hasPositional ps && ps.all fun p => p.expr.isNumberless

mutual

/-- **Whether an expression goes from each context node on its own.** -/
def isLocal : Expr → Bool
  | path _ steps => areLocal steps
  | step _ ps => hasPositional ps || areStanding ps
  | root => true
  | filter _ base ps => base.isLocal && areStanding ps
  | _ => false

/-- Whether all of the expressions do. -/
def areLocal : List Expr → Bool
  | [] => true
  | e :: rest => e.isLocal && areLocal rest

end

mutual

/-- **The predicates that a local expression applies to whole sets** at once. -/
def wholePredicates : Expr → List Predicate
  | path _ steps => wholePredicatesOf steps
  | step _ ps => if hasPositional ps then [] else ps
  | filter _ base ps => base.wholePredicates ++ ps
  | _ => []

/-- Those of several expressions. -/
def wholePredicatesOf : List Expr → List Predicate
  | [] => []
  | e :: rest => e.wholePredicates ++ wholePredicatesOf rest

end

/-- **Indexes cover the predicates** that they can answer by themselves. -/
def AreCovered (s : Store) (docs : DocId → Prop) (ps : List Predicate) : Prop :=
  ∀ p ∈ ps, ∀ id probe, p.expr.probe? = some (id, probe) → probe.relation ≠ none →
    probe.CoversDocs s docs

theorem areLocal_iff {es : List Expr} : areLocal es = true ↔ ∀ e ∈ es, e.isLocal = true := by
  induction es with
  | nil => simp [areLocal]
  | cons e rest ih => rw [areLocal, Bool.and_eq_true, ih, List.forall_mem_cons]

theorem wholePredicatesOf_eq_flatMap {es : List Expr} :
    wholePredicatesOf es = es.flatMap wholePredicates := by
  induction es with
  | nil => rfl
  | cons e rest ih => rw [wholePredicatesOf, ih, List.flatMap_cons]

theorem areStanding_iff {ps : List Predicate} :
    areStanding ps = true ↔ ∀ p ∈ ps, p.mode = .boolean ∧ p.expr.isNumberless = true := by
  have hmode : hasPositional ps = false ↔ ∀ p ∈ ps, p.mode = .boolean := by
    rw [hasPositional, List.any_eq_false]
    refine forall₂_congr fun p _ => ?_
    cases p.mode <;> simp
  rw [areStanding, Bool.and_eq_true, Bool.not_eq_true', hmode, List.all_eq_true]
  exact ⟨fun h p hp => ⟨h.1 p hp, h.2 p hp⟩, fun h => ⟨fun p hp => (h p hp).1, fun p hp => (h p hp).2⟩⟩

theorem hasPositional_of_areStanding {ps : List Predicate} (h : areStanding ps = true) :
    hasPositional ps = false := by
  rw [areStanding, Bool.and_eq_true, Bool.not_eq_true'] at h
  exact h.1

/-- Such predicates are decided for each node by itself. -/
theorem areDecided_of_areStanding {ps : List Predicate} (h : areStanding ps = true)
    (hfree : ∀ p ∈ ps, p.expr.IsPragmaFree) (hcovered : AreCovered s docs ps) :
    ∀ p ∈ ps, p.mode = .boolean ∧ p.expr.IsDecided s σ docs := by
  intro p hp
  obtain ⟨hmode, hless⟩ := areStanding_iff.1 h p hp
  refine ⟨hmode, hfree p hp, hcovered p hp, fun n _ _ v hv => ?_⟩
  exact (isNumberless_of_outcome p.expr (hfree p hp) hless _ v hv).number?

/-! ### Local expressions distribute -/

/-- **An expression distributes over its context nodes.** -/
def IsAdditive (s : Store) (σ : Setting) (docs : DocId → Prop) (e : Expr) : Prop :=
  ∃ R, Distributes s docs R fun set => σ.outcome (e.evaluate s (.on (.ofSet set)))

theorem isAdditive_root (hs : s.IsReliable) : root.IsAdditive s σ docs := by
  refine ⟨fun n m => m = .document n.doc, fun set v _ _ part hpart _ => ⟨_, outcome_root_on part,
    .inr ⟨_, rfl, hpart.documents hs.indexed, fun m => ?_⟩⟩⟩
  rw [NodeSet.mem_ofList, List.mem_map]
  exact exists_congr fun n => and_congr_right fun _ => eq_comm

variable {head : StepHead} {ps : List Predicate}

theorem outcome_step_nonpositional (hfree : (step head ps).IsPragmaFree)
    (h : hasPositional ps = false) (set : NodeSet) :
    σ.outcome ((step head ps).evaluate s (.on (.ofSet set))) =
      σ.outcome (selectAxis s head set) >>= fun selected =>
        σ.outcome (applyPredicates s ps false (.ofSet selected)) := by
  rw [outcome_step hfree, contextSet_on, ok_bind, if_neg (Bool.eq_false_iff.1 h)]

theorem outcome_step_positional (hfree : (step head ps).IsPragmaFree)
    (h : hasPositional ps = true) (set : NodeSet) :
    σ.outcome ((step head ps).evaluate s (.on (.ofSet set))) =
      (σ.byNode s head (fun v => σ.outcome (applyPredicates s ps head.axis.isReverse v))
        set.persistent set.nodes).map .ofSet := by
  rw [outcome_step hfree, contextSet_on, ok_bind, if_pos h]
  rfl

/-- A step whose predicates stand distributes. -/
theorem isAdditive_step (hs : s.IsReliable) (hσ : σ.IsBare) (hfree : (step head ps).IsPragmaFree)
    (h : areStanding ps = true) (hcovered : AreCovered s docs ps) :
    (step head ps).IsAdditive s σ docs := by
  have hps := areDecided_of_areStanding (σ := σ) h (isPragmaFree_step.1 hfree) hcovered
  refine ⟨fun n m => s.Gives head n m ∧ ∀ p ∈ ps, p.expr.Qualifies s σ m, ?_⟩
  intro set v hset hv part hpart hsub
  have hstep := fun X => outcome_step_nonpositional (s := s) (σ := σ) hfree
    (hasPositional_of_areStanding h) X
  dsimp only at hv
  rw [hstep] at hv
  obtain ⟨selected, hselected, hv⟩ := bind_eq_ok.1 hv
  obtain ⟨own, hown, hownGiven, hownMem⟩ := outcome_selectAxis_gives hs hσ hset hselected hset
    fun _ hn => hn
  obtain rfl := Except.ok.inj (hown.symm.trans hselected)
  obtain ⟨found, hfound, hgiven, hmem⟩ := outcome_selectAxis_gives hs hσ hset hselected hpart hsub
  obtain ⟨kept, hkept, hkeptGiven, hkeptMem⟩ := outcome_applyPredicates_part hs hps hownGiven hgiven
    (fun m hm => by
      obtain ⟨n, hn, hgives⟩ := (hmem m).1 hm
      exact (hownMem m).2 ⟨n, hsub n hn, hgives⟩) hv
  refine ⟨.ofSet kept, ?_, (Sequence.collects_ofSet hkeptGiven).congr fun m => ?_⟩
  · dsimp only
    rw [hstep, hfound]
    exact hkept
  · rw [hkeptMem, hmem]
    constructor
    · rintro ⟨⟨n, hn, hgives⟩, hqualifies⟩
      exact ⟨n, hn, hgives, hqualifies⟩
    · rintro ⟨n, hn, hgives, hqualifies⟩
      exact ⟨⟨n, hn, hgives⟩, hqualifies⟩

/-- **A step that counts positions distributes,** whatever its predicates. -/
theorem isAdditive_positional (hs : s.IsReliable) (hσ : σ.IsBare)
    (hfree : (step head ps).IsPragmaFree) (h : hasPositional ps = true) :
    (step head ps).IsAdditive s σ docs := by
  have hpreds := isPragmaFree_step.1 hfree
  let applyAll : Sequence → Except QueryError Sequence := fun v =>
    σ.outcome (applyPredicates s ps head.axis.isReverse v)
  refine ⟨fun n m => ∃ own, σ.forNode s head applyAll true n = .ok own ∧ m ∈ own, ?_⟩
  intro set v hset hv part hpart hsub
  have hstep := fun X => outcome_step_positional (s := s) (σ := σ) hfree h X
  dsimp only at hv
  rw [hstep, hset.persistent] at hv
  obtain ⟨found, hfound, -⟩ := map_eq_ok.1 hv
  have hnode : ∀ n ∈ part.nodes, ∃ own, σ.forNode s head applyAll true n = .ok own ∧
      own.IsGiven s docs := by
    intro n hn
    obtain ⟨own, hown⟩ := (mem_byNode hfound).1 n (hsub n hn)
    obtain ⟨selected, kept, shared, hselected, hkept, hshared, rfl⟩ := forNode_eq_ok.1 hown
    have hsingle : (NodeSet.ofList [n] true).IsGiven s docs :=
      isGiven_single (hpart.isIn.2 n hn) (hpart.docs n hn)
    obtain ⟨_, hselected', hgiven, -⟩ := outcome_selectAxis_gives hs hσ hsingle hselected hsingle
      fun _ hm => hm
    obtain rfl := Except.ok.inj (hselected'.symm.trans hselected)
    obtain ⟨own, rfl, hown'⟩ := isGiven_of_applyPredicates hs hpreds hgiven hkept
    obtain rfl := Except.ok.inj hshared
    exact ⟨own, hown, hown'⟩
  obtain ⟨found', hfound', hcollects⟩ := exists_byNode hnode
  refine ⟨.ofSet found', ?_, hcollects⟩
  dsimp only
  rw [hstep, hpart.persistent, hfound']
  rfl

/-- A filter whose predicates stand distributes like what it filters. -/
theorem isAdditive_filter (hs : s.IsReliable) {id : ExprId} {base : Expr}
    (hfree : (filter id base ps).IsPragmaFree) (hbase : base.IsAdditive s σ docs)
    (h : areStanding ps = true) (hcovered : AreCovered s docs ps) :
    (filter id base ps).IsAdditive s σ docs := by
  obtain ⟨R, hR⟩ := hbase
  have hpreds := (isPragmaFree_filter.1 hfree).2
  have hps := areDecided_of_areStanding (σ := σ) h hpreds hcovered
  refine ⟨fun n m => R n m ∧ ∀ p ∈ ps, p.expr.Qualifies s σ m, ?_⟩
  intro set v hset hv part hpart hsub
  obtain ⟨value, hvalue, hv⟩ := bind_eq_ok.1 ((outcome_filter hfree _).symm.trans hv)
  obtain ⟨value', hvalue', hcollects'⟩ := hR set value hset hvalue part hpart hsub
  obtain ⟨all, hall, hallGiven, hallMem⟩ := (hR.collects hset hvalue).exists_same
  obtain ⟨found, hfound, hfoundGiven, hfoundMem⟩ := hcollects'.exists_same
  obtain ⟨w, hw, -⟩ := outcome_applyPredicates_same hpreds hall hv
  obtain ⟨kept, hkept, hkeptGiven, hkeptMem⟩ := outcome_applyPredicates_part hs hps hallGiven
    hfoundGiven (fun m hm => by
      obtain ⟨n, hn, hled⟩ := (hfoundMem m).1 hm
      exact (hallMem m).2 ⟨n, hsub n hn, hled⟩) hw
  obtain ⟨v', hv', hsame⟩ := outcome_applyPredicates_same hpreds hfound.symm hkept
  have hvalue' : σ.outcome (base.evaluate s (.on (.ofSet part))) = .ok value' := hvalue'
  refine ⟨v', (outcome_filter hfree _).trans (by rw [hvalue', ok_bind, hv']), ?_⟩
  refine ((Sequence.collects_ofSet hkeptGiven).of_same hsame).congr fun m => ?_
  rw [hkeptMem, hfoundMem]
  constructor
  · rintro ⟨⟨n, hn, hled⟩, hqualifies⟩
    exact ⟨n, hn, hled, hqualifies⟩
  · rintro ⟨n, hn, hled, hqualifies⟩
    exact ⟨⟨n, hn, hled⟩, hqualifies⟩

/-- **One step after another distributes** over the composed relation. -/
theorem distributes_then {R R' : Node → Node → Prop} {f : NodeSet → Except QueryError Sequence}
    {rest : List Expr} (hfree : ∀ e ∈ rest, e.IsPragmaFree) (hfirst : Distributes s docs R f)
    (hrest : Distributes s docs R' fun set => σ.outcome (evaluateSteps s rest (.ofSet set))) :
    Distributes s docs (fun n m => ∃ x, R n x ∧ R' x m) fun set =>
      f set >>= fun v => σ.outcome (evaluateSteps s rest v) := by
  intro set w hset hw part hpart hsub
  obtain ⟨v, hv, hw⟩ := bind_eq_ok.1 hw
  obtain ⟨v', hv', hcollects'⟩ := hfirst set v hset hv part hpart hsub
  obtain ⟨all, hall, hallGiven, hallMem⟩ := (hfirst.collects hset hv).exists_same
  obtain ⟨found, hfound, hfoundGiven, hfoundMem⟩ := hcollects'.exists_same
  obtain ⟨_, hw, -⟩ := outcome_evaluateSteps_same hfree hall hw
  obtain ⟨_, hw', hcollects⟩ := hrest all _ hallGiven hw found hfoundGiven fun m hm => by
    obtain ⟨n, hn, hled⟩ := (hfoundMem m).1 hm
    exact (hallMem m).2 ⟨n, hsub n hn, hled⟩
  obtain ⟨w', hw', hsame⟩ := outcome_evaluateSteps_same hfree hfound.symm hw'
  refine ⟨w', by dsimp only; rw [hv', ok_bind, hw'], (hcollects.of_same hsame).congr fun m => ?_⟩
  constructor
  · rintro ⟨x, hx, hled⟩
    obtain ⟨n, hn, hled'⟩ := (hfoundMem x).1 hx
    exact ⟨n, hn, x, hled', hled⟩
  · rintro ⟨n, hn, x, hled', hled⟩
    exact ⟨x, (hfoundMem x).2 ⟨n, hn, hled'⟩, hled⟩

/-- Further steps that distribute one by one distribute one after another. -/
theorem distributes_evaluateSteps {es : List Expr} :
    (∀ e ∈ es, e.IsPragmaFree) → (∀ e ∈ es, e.IsAdditive s σ docs) →
      ∃ R, Distributes s docs R fun set => σ.outcome (evaluateSteps s es (.ofSet set)) := by
  induction es with
  | nil =>
    refine fun _ _ => ⟨fun n m => m = n, fun set v _ _ part hpart _ =>
      ⟨_, outcome_evaluateSteps_nil _, (Sequence.collects_ofSet hpart).congr fun m => ?_⟩⟩
    exact ⟨fun hm => ⟨m, hm, rfl⟩, fun ⟨_, hn, heq⟩ => heq ▸ hn⟩
  | cons e rest ih =>
    intro hfree hes
    obtain ⟨R, hR⟩ := hes e List.mem_cons_self
    obtain ⟨R', hR'⟩ := ih (fun e he => hfree e (List.mem_cons_of_mem _ he))
      fun e he => hes e (List.mem_cons_of_mem _ he)
    refine ⟨fun n m => ∃ x, R n x ∧ R' x m, fun set w hset hw part hpart hsub => ?_⟩
    by_cases hpartEmpty : part.isEmpty = true
    · have hnone := NodeSet.isEmpty_iff.1 hpartEmpty
      refine ⟨.empty, ?_, .inl ⟨rfl, ?_⟩⟩
      · dsimp only
        rw [outcome_evaluateSteps_cons hfree, Sequence.isEmpty_ofSet, if_pos hpartEmpty]
      · rintro m ⟨n, hn, _⟩
        exact hnone n hn
    · obtain ⟨n, hn⟩ := NodeSet.isEmpty_eq_false_iff.1 (Bool.eq_false_iff.2 hpartEmpty)
      dsimp only at hw ⊢
      rw [outcome_evaluateSteps_ofSet hfree (hsub n hn)] at hw
      rw [outcome_evaluateSteps_ofSet hfree hn]
      exact distributes_then (fun e he => hfree e (List.mem_cons_of_mem _ he)) hR hR' set w hset hw
        part hpart hsub

/-- **Local expressions distribute over their context nodes.** -/
theorem isAdditive_of_isLocal (hs : s.IsReliable) (hσ : σ.IsBare) (e : Expr) :
    e.isLocal = true → e.IsPragmaFree → AreCovered s docs e.wholePredicates →
      e.IsAdditive s σ docs := by
  induction e using Expr.induct with
  | path id steps ih =>
    intro h hfree hcovered
    have hsteps := isPragmaFree_path.1 hfree
    have hadditive : ∀ e ∈ steps, e.IsAdditive s σ docs := fun e he =>
      ih e he (areLocal_iff.1 h e he) (hsteps e he) fun p hp => hcovered p (by
        rw [wholePredicates, wholePredicatesOf_eq_flatMap]
        exact List.mem_flatMap.2 ⟨e, he, hp⟩)
    cases steps with
    | nil =>
      refine ⟨fun _ _ => False, fun _ _ _ _ _ _ _ => ⟨.empty, outcome_path_nil _ _, .inl ⟨rfl, ?_⟩⟩⟩
      rintro m ⟨_, _, h⟩
      exact h
    | cons first rest =>
      obtain ⟨R, hR⟩ := hadditive first List.mem_cons_self
      have hrestFree : ∀ e ∈ rest, e.IsPragmaFree := fun e he => hsteps e (List.mem_cons_of_mem _ he)
      obtain ⟨R', hR'⟩ := distributes_evaluateSteps hrestFree fun e he =>
        hadditive e (List.mem_cons_of_mem _ he)
      refine ⟨fun n m => ∃ x, R n x ∧ R' x m, ?_⟩
      simp only [outcome_path_cons hfree]
      exact distributes_then hrestFree hR hR'
  | step head ps =>
    intro h hfree hcovered
    by_cases hpositional : hasPositional ps = true
    · exact isAdditive_positional hs hσ hfree hpositional
    · have hwhole : (step head ps).wholePredicates = ps := if_neg hpositional
      exact isAdditive_step hs hσ hfree ((Bool.or_eq_true_iff.1 h).resolve_left hpositional)
        (hwhole ▸ hcovered)
  | root => exact fun _ _ _ => isAdditive_root hs
  | filter id base ps hbase _ =>
    intro h hfree hcovered
    rw [isLocal, Bool.and_eq_true] at h
    obtain ⟨hlocal, hstanding⟩ := h
    refine isAdditive_filter hs hfree (hbase hlocal (isPragmaFree_filter.1 hfree).1 fun p hp => ?_)
      hstanding fun p hp => ?_
    · exact hcovered p (List.mem_append_left _ hp)
    · exact hcovered p (List.mem_append_right _ hp)
  | _ => exact fun h => absurd h Bool.false_ne_true

end Expr
end IndexedXml
