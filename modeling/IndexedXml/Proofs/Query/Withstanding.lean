/-
# Expressions that withstand narrowing

Narrowing takes nodes out of a set that lack a hit of some condition.  An expression withstands it
when it has the same value for what is left (`Withstands`).  An expression that distributes does so
when each node that leads anywhere has a hit of every condition, and whatever is done to its value
afterwards may go by all of the value, as positions in a filter do, as long as no more conditions
are looked for there (`Expr.IsNarrowing`, `Expr.withstands_of_isNarrowing`).
-/

import IndexedXml.Proofs.Query.Distribution
import IndexedXml.Proofs.Query.Reached

namespace IndexedXml

open Evaluation Setting

variable {s : Store} {σ : Setting} {docs : DocId → Prop} {extent : Extent}

/-! ### Narrowed sets -/

/-- **A part of a set keeps the nodes that have a hit of every condition** within an extent. -/
structure NodeSet.KeepsHits (set part : NodeSet) (s : Store) (extent : Extent)
    (conditions : List Optimizable) : Prop where
  sub : ∀ n ∈ part, n ∈ set
  keeps : ∀ n ∈ set, (∀ o ∈ conditions, o.probe.HitsIn s extent n) → n ∈ part

theorem NodeSet.KeepsHits.refl (set : NodeSet) (s : Store) (extent : Extent)
    (conditions : List Optimizable) : set.KeepsHits set s extent conditions :=
  ⟨fun _ hn => hn, fun _ hn _ => hn⟩

theorem NodeSet.KeepsHits.trans {set part part' : NodeSet} {conditions : List Optimizable}
    (h : set.KeepsHits part s extent conditions) (h' : part.KeepsHits part' s extent conditions) :
    set.KeepsHits part' s extent conditions :=
  ⟨fun n hn => h.sub n (h'.sub n hn), fun n hn hhits => h'.keeps n (h.keeps n hn hhits) hhits⟩

/-- **An evaluation withstands narrowing by some conditions:** its value for a set is that for every
part which keeps the nodes that have a hit of every condition, and it has no items for no nodes. -/
structure Withstands (s : Store) (docs : DocId → Prop) (extent : Extent)
    (conditions : List Optimizable) (f : NodeSet → Except QueryError Sequence) : Prop where
  same : ∀ set v, set.IsGiven s docs → f set = .ok v → ∀ part : NodeSet, part.IsGiven s docs →
    set.KeepsHits part s extent conditions → ∃ v', f part = .ok v' ∧ v.Same v'
  empty : ∀ set v, set.IsGiven s docs → f set = .ok v → (∀ n, n ∉ set) → v.toItems = []

variable {conditions conditions' : List Optimizable} {f : NodeSet → Except QueryError Sequence}

/-- **An evaluation shows conditions** when every node that it leads somewhere from has a hit of each
of them. -/
def Shows (s : Store) (docs : DocId → Prop) (extent : Extent) (conditions : List Optimizable)
    (f : NodeSet → Except QueryError Sequence) : Prop :=
  ∀ n v, s.Has n → docs n.doc → f (s.persistent [n]) = .ok v → v.toItems ≠ [] →
    ∀ o ∈ conditions, o.probe.HitsIn s extent n

variable {R : Node → Node → Prop}

/-- What a node is related to is in the value for that node. -/
theorem Distributes.exists_single (h : Distributes s docs R f) {set : NodeSet}
    (hset : set.IsGiven s docs) {v : Sequence} (hv : f set = .ok v) {n : Node} (hn : n ∈ set) :
    ∃ v', f (s.persistent [n]) = .ok v' ∧ v'.Collects s docs (R n) := by
  obtain ⟨v', hv', hcollects⟩ := h set v hset hv (s.persistent [n])
    (Expr.isGiven_single (hset.isIn.2 n hn) (hset.docs n hn))
    fun m hm => Expr.mem_persistent_single.1 hm ▸ hn
  refine ⟨v', hv', hcollects.congr fun m => ?_⟩
  constructor
  · rintro ⟨x, hx, hled⟩
    exact Expr.mem_persistent_single.1 hx ▸ hled
  · exact fun hled => ⟨n, Expr.mem_persistent_single.2 rfl, hled⟩

/-- A node that leads anywhere has the hits that are shown. -/
theorem Distributes.hits (h : Distributes s docs R f) (hshows : Shows s docs extent conditions f)
    {set : NodeSet} (hset : set.IsGiven s docs) {v : Sequence} (hv : f set = .ok v) {n m : Node}
    (hn : n ∈ set) (hled : R n m) : ∀ o ∈ conditions, o.probe.HitsIn s extent n := by
  obtain ⟨v', hv', hcollects⟩ := h.exists_single hset hv hn
  exact hshows n v' (hset.isIn.2 n hn) (hset.docs n hn) hv' (List.ne_nil_of_mem (hcollects.mem.2 hled))

theorem Distributes.empty (h : Distributes s docs R f) {set : NodeSet} (hset : set.IsGiven s docs)
    {v : Sequence} (hv : f set = .ok v) (hnone : ∀ n, n ∉ set) : v.toItems = [] := by
  rcases (h.collects hset hv).exists_same with ⟨found, hsame, -, hmem⟩
  rw [hsame.toItems_eq]
  refine congrArg (List.map Item.node) (List.eq_nil_iff_forall_not_mem.2 fun m hm => ?_)
  obtain ⟨n, hn, _⟩ := (hmem m).1 hm
  exact hnone n hn

/-- **What distributes and shows conditions withstands narrowing** by them. -/
theorem Distributes.withstands (h : Distributes s docs R f)
    (hshows : Shows s docs extent conditions f) : Withstands s docs extent conditions f where
  empty _ _ hset hv hnone := h.empty hset hv hnone
  same set v hset hv part hpart hkeeps := by
    obtain ⟨v', hv', hcollects⟩ := h set v hset hv part hpart hkeeps.sub
    refine ⟨v', hv', (h.collects hset hv).same (hcollects.congr fun m => ?_)⟩
    constructor
    · rintro ⟨n, hn, hled⟩
      exact ⟨n, hkeeps.sub n hn, hled⟩
    · rintro ⟨n, hn, hled⟩
      exact ⟨n, hkeeps.keeps n hn (h.hits hshows hset hv hn hled), hled⟩

/-- **What comes after may go by the whole value,** when it treats values alike that come to the
same. -/
theorem Withstands.bind (h : Withstands s docs extent conditions f)
    {g : Sequence → Except QueryError Sequence}
    (hg : ∀ {v v' w}, v.Same v' → g v = .ok w → ∃ w', g v' = .ok w' ∧ w.Same w')
    (hempty : ∀ {v w}, v.toItems = [] → g v = .ok w → w.toItems = []) :
    Withstands s docs extent conditions fun set => f set >>= g where
  empty set w hset hw hnone := by
    obtain ⟨v, hv, hw⟩ := bind_eq_ok.1 hw
    exact hempty (h.empty set v hset hv hnone) hw
  same set w hset hw part hpart hkeeps := by
    obtain ⟨v, hv, hw⟩ := bind_eq_ok.1 hw
    obtain ⟨v', hv', hsame⟩ := h.same set v hset hv part hpart hkeeps
    obtain ⟨w', hw', hsame'⟩ := hg hsame hw
    exact ⟨w', by rw [hv', ok_bind, hw'], hsame'⟩

namespace Expr

/-- The values of an evaluation lie within an extent of its context nodes. -/
def StaysWithin (s : Store) (docs : DocId → Prop) (extent : Extent)
    (f : NodeSet → Except QueryError Sequence) : Prop :=
  ∀ set v, set.IsGiven s docs → f set = .ok v → v.LiesIn s extent set

variable {rest : List Expr} {v w : Sequence}

/-- Further steps lead from no items to none. -/
theorem toItems_of_evaluateSteps (hfree : ∀ e ∈ rest, e.IsPragmaFree) (hv : v.toItems = [])
    (hw : σ.outcome (evaluateSteps s rest v) = .ok w) : w.toItems = [] := by
  cases rest with
  | nil =>
    rw [outcome_evaluateSteps_nil] at hw
    exact Except.ok.inj hw ▸ hv
  | cons e rest =>
    rw [outcome_evaluateSteps_cons hfree, if_pos (Sequence.isEmpty_iff_toItems.2 hv)] at hw
    exact Except.ok.inj hw ▸ rfl

/-- Predicates leave nothing of no items. -/
theorem toItems_of_applyPredicates {ps : List Predicate} (hfree : ∀ p ∈ ps, p.expr.IsPragmaFree)
    {reverse : Bool} (hv : v.toItems = [])
    (hw : σ.outcome (applyPredicates s ps reverse v) = .ok w) : w.toItems = [] := by
  obtain ⟨w', hw', hnil⟩ := outcome_applyPredicates_isEmpty (s := s) (σ := σ) reverse hfree hv
  exact Except.ok.inj (hw'.symm.trans hw) ▸ hnil

/-- **A step that distributes goes before what withstands narrowing:** a node that it leads to
keeps the hits that the node has which it comes from. -/
theorem withstands_then (hfree : ∀ e ∈ rest, e.IsPragmaFree) (hfirst : Distributes s docs R f)
    (hstays : StaysWithin s docs extent f) (hshows : Shows s docs extent conditions f)
    (hrest : Withstands s docs extent conditions' fun set =>
      σ.outcome (evaluateSteps s rest (.ofSet set))) :
    Withstands s docs extent (conditions ++ conditions') fun set =>
      f set >>= fun v => σ.outcome (evaluateSteps s rest v) where
  empty set w hset hw hnone := by
    obtain ⟨v, hv, hw⟩ := bind_eq_ok.1 hw
    exact toItems_of_evaluateSteps hfree (hfirst.empty hset hv hnone) hw
  same set w hset hw part hpart hkeeps := by
    obtain ⟨v, hv, hw⟩ := bind_eq_ok.1 hw
    obtain ⟨v', hv', hcollects'⟩ := hfirst set v hset hv part hpart hkeeps.sub
    obtain ⟨all, hall, hallGiven, hallMem⟩ := (hfirst.collects hset hv).exists_same
    obtain ⟨found, hfound, hfoundGiven, hfoundMem⟩ := hcollects'.exists_same
    have hfoundKeeps : all.KeepsHits found s extent conditions' := by
      constructor
      · intro m hm
        obtain ⟨n, hn, hled⟩ := (hfoundMem m).1 hm
        exact (hallMem m).2 ⟨n, hkeeps.sub n hn, hled⟩
      · intro m hm hhits
        obtain ⟨n, hn, hled⟩ := (hallMem m).1 hm
        refine (hfoundMem m).2 ⟨n, hkeeps.keeps n hn fun o ho => ?_, hled⟩
        rcases List.mem_append.1 ho with ho | ho
        · exact hfirst.hits hshows hset hv hn hled o ho
        · obtain ⟨single, hsingle, hcollects⟩ := hfirst.exists_single hset hv hn
          obtain ⟨-, x, hx, hspans⟩ := (hstays _ single
            (isGiven_single (hset.isIn.2 n hn) (hset.docs n hn)) hsingle).has (hcollects.mem.2 hled)
          exact (hhits o ho).mono (mem_persistent_single.1 hx ▸ hspans)
    obtain ⟨_, hw, hsame⟩ := outcome_evaluateSteps_same hfree hall hw
    obtain ⟨_, hw', hsame'⟩ := hrest.same all _ hallGiven hw found hfoundGiven hfoundKeeps
    obtain ⟨w', hw', hsame''⟩ := outcome_evaluateSteps_same hfree hfound.symm hw'
    exact ⟨w', by rw [hv', ok_bind, hw'], (hsame.trans hsame').trans hsame''⟩

/-- Further steps withstand what the path of them withstands. -/
theorem withstands_evaluateSteps {id : ExprId} {e : Expr}
    (hfree : ∀ e' ∈ e :: rest, e'.IsPragmaFree)
    (h : Withstands s docs extent conditions fun set =>
      σ.outcome ((path id (e :: rest)).evaluate s (.on (.ofSet set)))) :
    Withstands s docs extent conditions fun set =>
      σ.outcome (evaluateSteps s (e :: rest) (.ofSet set)) := by
  have hnowhere : ∀ set : NodeSet, (∀ n, n ∉ set) →
      σ.outcome (evaluateSteps s (e :: rest) (.ofSet set)) = .ok .empty := by
    intro set hnone
    rw [outcome_evaluateSteps_cons hfree, Sequence.isEmpty_ofSet,
      if_pos (NodeSet.isEmpty_iff.2 hnone)]
  have hsomewhere : ∀ (set : NodeSet) (n), n ∈ set →
      σ.outcome (evaluateSteps s (e :: rest) (.ofSet set)) =
        σ.outcome ((path id (e :: rest)).evaluate s (.on (.ofSet set))) := by
    intro set n hn
    rw [outcome_evaluateSteps_ofSet hfree hn, outcome_path_cons (isPragmaFree_path.2 hfree)]
  refine ⟨fun set v hset hv part hpart hkeeps => ?_, fun set v _ hv hnone => ?_⟩
  · by_cases hset' : ∃ n, n ∈ set
    · obtain ⟨n, hn⟩ := hset'
      rw [hsomewhere set n hn] at hv
      obtain ⟨v', hv', hsame⟩ := h.same set v hset hv part hpart hkeeps
      by_cases hpart' : ∃ m, m ∈ part
      · obtain ⟨m, hm⟩ := hpart'
        exact ⟨v', (hsomewhere part m hm).trans hv', hsame⟩
      · have hnone := not_exists.1 hpart'
        refine ⟨.empty, hnowhere part hnone, .inr ⟨?_, rfl⟩⟩
        exact hsame.toItems_eq.trans (h.empty part v' hpart hv' hnone)
    · have hnone := not_exists.1 hset'
      rw [hnowhere set hnone] at hv
      exact ⟨.empty, hnowhere part fun n hn => hnone n (hkeeps.sub n hn), .inl (Except.ok.inj hv).symm⟩
  · rw [hnowhere set hnone] at hv
    exact Except.ok.inj hv ▸ rfl

/-! ### Values in parts -/

theorem outcome_applyPredicates_append {ps qs : List Predicate} (reverse : Bool) :
    ∀ {v : Sequence}, (∀ p ∈ ps ++ qs, p.expr.IsPragmaFree) →
      σ.outcome (applyPredicates s (ps ++ qs) reverse v) =
        σ.outcome (applyPredicates s ps reverse v) >>= fun kept =>
          σ.outcome (applyPredicates s qs reverse kept) := by
  induction ps with
  | nil =>
    intro v _
    rw [outcome_applyPredicates_nil, ok_bind]
    rfl
  | cons p rest ih =>
    intro v hfree
    rw [List.cons_append] at hfree ⊢
    have hrest : ∀ q ∈ rest ++ qs, q.expr.IsPragmaFree := fun q hq => hfree q (List.mem_cons_of_mem _ hq)
    rw [outcome_applyPredicates_cons hfree,
      outcome_applyPredicates_cons fun q hq => hfree q (List.mem_append_left qs hq), bind_assoc]
    exact bind_congr fun kept => ih hrest

theorem outcome_filter_append {id : ExprId} {base : Expr} {ps qs : List Predicate}
    (hfree : (filter id base (ps ++ qs)).IsPragmaFree) (focus : Focus) :
    σ.outcome ((filter id base (ps ++ qs)).evaluate s focus) =
      σ.outcome ((filter id base ps).evaluate s focus) >>= fun v =>
        σ.outcome (applyPredicates s qs false v) := by
  obtain ⟨hbase, hpredicates⟩ := isPragmaFree_filter.1 hfree
  rw [outcome_filter hfree, outcome_filter
    (isPragmaFree_filter.2 ⟨hbase, fun p hp => hpredicates p (List.mem_append_left _ hp)⟩), bind_assoc]
  exact bind_congr fun v => outcome_applyPredicates_append false hpredicates

/-- Steps after steps: no items stay no items. -/
theorem outcome_evaluateSteps_append {es rest : List Expr} :
    ∀ {v : Sequence}, (∀ e ∈ es ++ rest, e.IsPragmaFree) →
      σ.outcome (evaluateSteps s (es ++ rest) v) =
        σ.outcome (evaluateSteps s es v) >>= fun w => σ.outcome (evaluateSteps s rest w) := by
  induction es with
  | nil =>
    intro v _
    rw [outcome_evaluateSteps_nil, ok_bind]
    rfl
  | cons e es ih =>
    intro v hfree
    rw [List.cons_append] at hfree ⊢
    have hlater : ∀ e' ∈ es ++ rest, e'.IsPragmaFree := fun e' he' => hfree e' (List.mem_cons_of_mem _ he')
    rw [outcome_evaluateSteps_cons hfree,
      outcome_evaluateSteps_cons fun e' he' => hfree e' (List.mem_append_left rest he')]
    split_ifs with hv
    · cases rest with
      | nil =>
        rw [ok_bind, outcome_evaluateSteps_nil]
      | cons e' rest =>
        rw [ok_bind, outcome_evaluateSteps_cons fun x hx => hlater x (List.mem_append_right _ hx)]
        rfl
    · rw [bind_assoc]
      refine bind_congr fun context => ?_
      rw [bind_assoc]
      exact bind_congr fun w => ih hlater

theorem outcome_path_append {id : ExprId} {e : Expr} {es rest : List Expr}
    (hfree : (path id (e :: (es ++ rest))).IsPragmaFree) (focus : Focus) :
    σ.outcome ((path id (e :: (es ++ rest))).evaluate s focus) =
      σ.outcome ((path id (e :: es)).evaluate s focus) >>= fun v =>
        σ.outcome (evaluateSteps s rest v) := by
  have hall := isPragmaFree_path.1 hfree
  rw [outcome_path_cons hfree, outcome_path_cons
    (isPragmaFree_path.2 fun e' he' => hall e' (List.mem_append_left rest he')), bind_assoc]
  exact bind_congr fun v => outcome_evaluateSteps_append fun e' he' => hall e' (List.mem_cons_of_mem _ he')

theorem outcome_path_single {id : ExprId} {e : Expr} (hfree : (path id [e]).IsPragmaFree)
    (focus : Focus) : σ.outcome ((path id [e]).evaluate s focus) = σ.outcome (e.evaluate s focus) := by
  rw [outcome_path_cons hfree]
  simp only [outcome_evaluateSteps_nil]
  exact bind_pure _

/-! ### Which expressions do -/

/-- **The expressions that withstand narrowing by their conditions,** where each of these is reached
within an extent: local ones, and paths over local steps that stay in the extent; then what goes by
the whole value of one, without further conditions. -/
inductive IsNarrowing (extent : Extent) : Expr → Prop
  | ofLocal {e : Expr} (hlocal : e.isLocal = true) (hreached : ∀ o ∈ e.conditions, Reached extent o e) :
      IsNarrowing extent e
  | filter {id : ExprId} {base : Expr} {ps qs : List Predicate}
      (h : IsNarrowing extent (filter id base ps)) (hqs : ∀ p ∈ qs, p.expr.conditions = []) :
      IsNarrowing extent (filter id base (ps ++ qs))
  | single {id : ExprId} {e : Expr} (h : IsNarrowing extent e) : IsNarrowing extent (path id [e])
  | first {id : ExprId} {e second : Expr} {rest : List Expr} (hlocal : e.isLocal = true)
      (hstays : e.staysIn extent = true) (hreached : ∀ o ∈ e.conditions, Reached extent o e)
      (h : IsNarrowing extent (path id (second :: rest))) :
      IsNarrowing extent (path id (e :: second :: rest))
  | further {id : ExprId} {e : Expr} {es rest : List Expr} (h : IsNarrowing extent (path id (e :: es)))
      (hrest : ∀ e' ∈ rest, e'.conditions = []) : IsNarrowing extent (path id (e :: (es ++ rest)))

variable {e : Expr} {outer : Option OuterStep}

/-- **A local expression shows each condition that is reached in it.** -/
theorem shows_of_reached (hs : s.IsReliable) (hσ : σ.IsBare) (hfree : e.IsPragmaFree)
    (hanalyzed : e.IsAnalyzedAt none) (hadditive : e.IsAdditive s σ docs)
    (hreached : ∀ o ∈ e.conditions, Reached extent o e)
    (hcovers : ∀ o ∈ e.conditions, o.probe.CoversDocs s docs) :
    Shows s docs extent e.conditions fun set => σ.outcome (e.evaluate s (.on (.ofSet set))) := by
  obtain ⟨R, hR⟩ := hadditive
  intro n v hn hdoc hv hne o ho
  have haffirms : v.Affirms := by
    obtain ⟨item, hitem⟩ := List.exists_mem_of_ne_nil _ hne
    rcases hR.collects (isGiven_single hn hdoc) hv with ⟨hnil, -⟩ | ⟨set, rfl, -, -⟩
    · exact absurd hnil hne
    · obtain ⟨m, hm, rfl⟩ := List.mem_map.1 hitem
      exact Sequence.affirms_of_node hitem
  obtain ⟨x, hx, hhits⟩ := exists_hit_of_affirms hs hσ (hreached o ho) (hcovers o ho) hfree hanalyzed
    (contextSet_on (s.persistent [n])) (.single hn hdoc (suitsOuter_none n)) hv haffirms
  obtain rfl := (mem_persistent_single (s := s)).1 hx
  exact hhits

section Congr

variable {focus focus' : Focus}

/-- The value of a local expression depends on the context nodes only. -/
theorem outcome_congr_of_isLocal
    (hfocus : (contextSet s focus).map SharedSet.set = (contextSet s focus').map SharedSet.set)
    (e : Expr) : e.isLocal = true → e.IsPragmaFree →
      σ.outcome (e.evaluate s focus) = σ.outcome (e.evaluate s focus') := by
  induction e using Expr.induct with
  | path id steps ih =>
    intro h hfree
    cases steps with
    | nil => rw [outcome_path_nil, outcome_path_nil]
    | cons first rest => exact outcome_path_congr hfree (ih first List.mem_cons_self
        (areLocal_iff.1 h first List.mem_cons_self) (isPragmaFree_path.1 hfree first List.mem_cons_self))
  | step head ps => exact fun _ hfree => outcome_step_congr hfree hfocus
  | root => exact fun _ _ => outcome_root_congr hfocus
  | filter id base ps ih =>
    intro h hfree
    rw [isLocal, Bool.and_eq_true] at h
    rw [outcome_filter hfree, outcome_filter hfree, ih h.1 (isPragmaFree_filter.1 hfree).1]
  | _ => exact fun h => absurd h Bool.false_ne_true

/-- So does that of an expression that withstands narrowing. -/
theorem outcome_congr_of_isNarrowing
    (hfocus : (contextSet s focus).map SharedSet.set = (contextSet s focus').map SharedSet.set)
    (h : IsNarrowing extent e) : e.IsPragmaFree →
      σ.outcome (e.evaluate s focus) = σ.outcome (e.evaluate s focus') := by
  induction h with
  | ofLocal hlocal => exact outcome_congr_of_isLocal hfocus _ hlocal
  | filter _ _ ih =>
    intro hfree
    obtain ⟨hbase, hpredicates⟩ := isPragmaFree_filter.1 hfree
    rw [outcome_filter_append hfree, outcome_filter_append hfree, ih
      (isPragmaFree_filter.2 ⟨hbase, fun p hp => hpredicates p (List.mem_append_left _ hp)⟩)]
  | single _ ih =>
    exact fun hfree => outcome_path_congr hfree (ih (isPragmaFree_path.1 hfree _ List.mem_cons_self))
  | first hlocal =>
    exact fun hfree => outcome_path_congr hfree
      (outcome_congr_of_isLocal hfocus _ hlocal (isPragmaFree_path.1 hfree _ List.mem_cons_self))
  | further _ _ ih =>
    intro hfree
    have hall := isPragmaFree_path.1 hfree
    rw [outcome_path_append hfree, outcome_path_append hfree,
      ih (isPragmaFree_path.2 fun e he => hall e (List.mem_append_left _ he))]

end Congr

/-- **The expressions that withstand narrowing** do so wherever indexes cover their conditions and the
predicates that they apply to whole sets. -/
theorem withstands_of_isNarrowing (hs : s.IsReliable) (hσ : σ.IsBare) (h : IsNarrowing extent e) :
    e.IsPragmaFree → e.IsAnalyzedAt none → AreCovered s docs e.wholePredicates →
      (∀ o ∈ e.conditions, o.probe.CoversDocs s docs) →
        Withstands s docs extent e.conditions fun set =>
          σ.outcome (e.evaluate s (.on (.ofSet set))) := by
  induction h with
  | ofLocal hlocal hreached =>
    intro hfree hanalyzed hcovered hcovers
    have hadditive := isAdditive_of_isLocal hs hσ _ hlocal hfree hcovered
    obtain ⟨R, hR⟩ := id hadditive
    exact hR.withstands (shows_of_reached hs hσ hfree hanalyzed hadditive hreached hcovers)
  | @filter id base ps qs _ hqs ih =>
    intro hfree hanalyzed hcovered hcovers
    obtain ⟨hfreeBase, hfreeAll⟩ := isPragmaFree_filter.1 hfree
    have hfreePs : (Expr.filter id base ps).IsPragmaFree :=
      isPragmaFree_filter.2 ⟨hfreeBase, fun p hp => hfreeAll p (List.mem_append_left _ hp)⟩
    have hfreeQs : ∀ p ∈ qs, p.expr.IsPragmaFree := fun p hp => hfreeAll p (List.mem_append_right _ hp)
    have hconditions : (Expr.filter id base (ps ++ qs)).conditions =
        (Expr.filter id base ps).conditions := by
      rw [conditions_filter, conditions_filter, List.flatMap_append, List.flatMap_eq_nil_iff.2 hqs,
        List.append_nil]
    have hwhole : (Expr.filter id base ps).wholePredicates ⊆
        (Expr.filter id base (ps ++ qs)).wholePredicates := by
      rw [wholePredicates, wholePredicates, ← List.append_assoc]
      exact List.subset_append_left _ _
    rw [hconditions] at hcovers ⊢
    simp only [outcome_filter_append hfree]
    exact (ih hfreePs hanalyzed.of_filter_append (fun p hp => hcovered p (hwhole hp)) hcovers).bind
      (outcome_applyPredicates_same hfreeQs) (toItems_of_applyPredicates hfreeQs)
  | @single id e _ ih =>
    intro hfree hanalyzed hcovered hcovers
    have hconditions : (path id [e]).conditions = e.conditions := by
      rw [conditions_path, List.flatMap_singleton]
    rw [hconditions] at hcovers ⊢
    simp only [outcome_path_single hfree]
    refine ih (isPragmaFree_path.1 hfree e List.mem_cons_self) hanalyzed.of_path.1 (fun p hp => ?_) hcovers
    exact hcovered p (List.mem_append_left _ hp)
  | @first id e second rest hlocal hstays hreached _ ih =>
    intro hfree hanalyzed hcovered hcovers
    have hsteps := isPragmaFree_path.1 hfree
    have hfirst := hsteps e List.mem_cons_self
    have hlater : ∀ e' ∈ second :: rest, e'.IsPragmaFree := fun e' he' =>
      hsteps e' (List.mem_cons_of_mem _ he')
    have hconditions : (path id (e :: second :: rest)).conditions =
        e.conditions ++ (path id (second :: rest)).conditions := by
      rw [conditions_path, conditions_path, List.flatMap_cons]
    rw [hconditions] at hcovers ⊢
    have hadditive := isAdditive_of_isLocal hs hσ e hlocal hfirst fun p hp =>
      hcovered p (List.mem_append_left _ hp)
    obtain ⟨R, hR⟩ := hadditive
    simp only [outcome_path_cons hfree]
    refine withstands_then hlater hR (fun set v hset hv => ?_)
      (shows_of_reached hs hσ hfirst hanalyzed.of_path.1 ⟨R, hR⟩ hreached fun o ho =>
        hcovers o (List.mem_append_left _ ho))
      (withstands_evaluateSteps hlater (ih (isPragmaFree_path.2 hlater) (hanalyzed.of_path.2 id)
        (fun p hp => hcovered p (List.mem_append_right _ hp)) fun o ho =>
          hcovers o (List.mem_append_right _ ho)))
    exact leadsWithin_of_staysIn hs hσ e hstays hfirst _ _ v (contextSet_on set) hset.isIn.2 hv
  | @further id e es rest _ hrest ih =>
    intro hfree hanalyzed hcovered hcovers
    have hall := isPragmaFree_path.1 hfree
    have hfreeFirst : (path id (e :: es)).IsPragmaFree :=
      isPragmaFree_path.2 fun e' he' => hall e' (List.mem_append_left _ he')
    have hfreeRest : ∀ e' ∈ rest, e'.IsPragmaFree := fun e' he' =>
      hall e' (List.mem_cons_of_mem _ (List.mem_append_right _ he'))
    have hconditions : (path id (e :: (es ++ rest))).conditions = (path id (e :: es)).conditions := by
      rw [conditions_path, conditions_path, ← List.cons_append, List.flatMap_append,
        List.flatMap_eq_nil_iff.2 hrest, List.append_nil]
    have hwhole : (path id (e :: es)).wholePredicates ⊆ (path id (e :: (es ++ rest))).wholePredicates := by
      rw [wholePredicates, wholePredicates, wholePredicatesOf_eq_flatMap, wholePredicatesOf_eq_flatMap,
        ← List.cons_append, List.flatMap_append]
      exact List.subset_append_left _ _
    rw [hconditions] at hcovers ⊢
    simp only [outcome_path_append hfree]
    exact (ih hfreeFirst hanalyzed.of_path_append (fun p hp => hcovered p (hwhole hp)) hcovers).bind
      (outcome_evaluateSteps_same hfreeRest) (toItems_of_evaluateSteps hfreeRest)

end Expr
end IndexedXml
