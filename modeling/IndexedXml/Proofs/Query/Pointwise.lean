/-
# What a path selects from each node

Along descending axes a location path selects from a set what it selects from its members one
by one: a predicate keeps a node or not wherever the node stands (`Expr.Qualifies`), and a
step leads from a node to others (`Expr.Reaches`).  So when the path has a value for a set, it
has one for every part of the set, and that is what its members in the part lead to
(`Narrows`).
-/

import IndexedXml.Proofs.Query.Discovered

namespace IndexedXml

open Evaluation Setting

variable {s : Store} {σ : Setting} {docs : DocId → Prop}

/-! ### Documents that an index covers -/

/-- **The index for a probe covers the given documents,** under one type. -/
def IndexProbe.CoversDocs (p : IndexProbe) (s : Store) (docs : DocId → Prop) : Prop :=
  ∃ type, p.fits type = true ∧
    ∀ doc, docs doc → ∀ c, s.collectionOf doc = .ok c → Store.declares p.name type c = true

/-- **A set that the store has handed out,** of nodes in the given documents. -/
structure NodeSet.IsGiven (set : NodeSet) (s : Store) (docs : DocId → Prop) : Prop where
  isIn : set.IsIn s
  persistent : set.persistent = true
  docs : ∀ n ∈ set, docs n.doc

namespace IndexProbe

variable {p : IndexProbe}

/-- A set of nodes in these documents is covered, unless it is empty. -/
theorem CoversDocs.covers (h : p.CoversDocs s docs) {set : NodeSet} (hset : ∀ n ∈ set, docs n.doc)
    (hne : set.isEmpty = false) {cs : List Collection}
    (hcs : set.documents.docs.mapM s.collectionOf = .ok cs) : p.covers cs = true := by
  obtain ⟨type, hfits, hdeclares⟩ := h
  refine covers_iff.2 ⟨?_, type, hfits, fun c hc => ?_⟩
  · obtain ⟨n, hn⟩ := NodeSet.isEmpty_eq_false_iff.1 hne
    obtain ⟨c, hc, _⟩ := exists_of_mapM hcs (NodeSet.mem_documents.2 ⟨n, hn, rfl⟩)
    exact List.ne_nil_of_mem hc
  · obtain ⟨doc, hdoc, hc⟩ := (mem_of_mapM hcs).1 hc
    obtain ⟨n, hn, rfl⟩ := NodeSet.mem_documents.1 hdoc
    exact hdeclares _ (hset n hn) c hc

/-- A covered sequence is covered document by document. -/
theorem coversDocs_of_coversAll {shared : SharedSet}
    (h : p.coversAll s (some (.nodes shared)) = .ok true) :
    p.CoversDocs s fun doc => ∃ n ∈ shared.set, n.doc = doc := by
  obtain ⟨cs, hcs, hcovers⟩ := coversAll_eq_true_iff.1 h
  obtain ⟨_, type, hfits, hdeclares⟩ := covers_iff.1 hcovers
  refine ⟨type, hfits, fun doc hdoc c hc => hdeclares c ?_⟩
  exact (mem_of_mapM hcs).2 ⟨doc, NodeSet.mem_documents.2 hdoc, hc⟩

theorem CoversDocs.suits (h : p.CoversDocs s docs) (hs : s.IsReliable) {n : Node} (hn : s.Has n)
    (hdoc : docs n.doc) : p.Suits s n.doc := by
  obtain ⟨type, hfits, hdeclares⟩ := h
  obtain ⟨c, hc⟩ := hs.indexed.exists_collectionOf hn
  have hcs : [n.doc].mapM s.collectionOf = .ok [c] := by
    rw [List.mapM_cons, hc]
    rfl
  refine suits_of_covers hs.plain hcs (covers_iff.2 ⟨List.cons_ne_nil _ _, type, hfits, ?_⟩)
    List.mem_cons_self
  exact fun c' hc' => List.mem_singleton.1 hc' ▸ hdeclares _ hdoc c hc

/-- **A hit lies at or below a node.** -/
def HitsBelow (p : IndexProbe) (s : Store) (n : Node) : Prop :=
  ∃ m, s.Hits p.name p.op p.key m ∧ m.Within n

theorem HitsBelow.mono {n a : Node} (h : p.HitsBelow s n) (hn : n.Within a) : p.HitsBelow s a := by
  obtain ⟨m, hm, hwithin⟩ := h
  exact ⟨m, hm, hwithin.trans hn⟩

end IndexProbe

namespace NodeSet

theorem IsGiven.filter {set : NodeSet} (h : set.IsGiven s docs) (keep : Node → Bool) :
    (set.filter keep).IsGiven s docs :=
  ⟨h.isIn.filter keep, h.persistent, fun n hn => h.docs n (NodeSet.mem_filter.1 hn).1⟩

theorem isGiven_persistent {nodes : List Node} (h : ∀ n ∈ nodes, s.Has n ∧ docs n.doc) :
    (s.persistent nodes).IsGiven s docs :=
  ⟨isIn_ofList true fun n hn => (h n hn).1, rfl, fun n hn => (h n (mem_ofList.1 hn)).2⟩

/-- The documents of nodes of the store are such nodes. -/
theorem IsGiven.documents (hs : s.IsIndexed) {set : NodeSet} (h : set.IsGiven s docs) :
    (ofList (set.nodes.map fun n => .document n.doc) set.persistent).IsGiven s docs := by
  refine ⟨isIn_ofList _ fun d hd => ?_, h.persistent, fun d hd => ?_⟩
  · obtain ⟨n, hn, rfl⟩ := List.mem_map.1 hd
    exact hs.has_document (h.isIn.2 n hn)
  · obtain ⟨n, hn, rfl⟩ := List.mem_map.1 (mem_ofList.1 hd)
    exact h.docs n hn

end NodeSet

/-! ### Sequences of nodes -/

/-- **A sequence lists the nodes with a property** as the store hands them out. -/
def Sequence.Lists (v : Sequence) (P : Node → Prop) : Prop :=
  (v = .empty ∧ ∀ n, ¬ P n) ∨
    ∃ set : NodeSet, v = .ofSet set ∧ set.IsOrdered ∧ set.persistent = true ∧ ∀ n, n ∈ set ↔ P n

namespace Sequence

variable {v w : Sequence} {P Q : Node → Prop}

theorem Lists.congr (h : v.Lists P) (hPQ : ∀ n, P n ↔ Q n) : v.Lists Q := by
  rcases h with ⟨rfl, h⟩ | ⟨set, rfl, hordered, hpersistent, h⟩
  · exact .inl ⟨rfl, fun n hn => h n ((hPQ n).2 hn)⟩
  · exact .inr ⟨set, rfl, hordered, hpersistent, fun n => (h n).trans (hPQ n)⟩

theorem isEmpty_ofSet (set : NodeSet) : (ofSet set).isEmpty = set.isEmpty := by
  change (set.nodes.length == 0) = set.nodes.isEmpty
  cases set.nodes <;> rfl

/-- **Sequences that list the same nodes have the same items.** -/
theorem Lists.toItems_eq (hv : v.Lists P) (hw : w.Lists P) : v.toItems = w.toItems := by
  have hempty : ∀ set : NodeSet, (∀ n, n ∈ set ↔ P n) → (∀ n, ¬ P n) →
      (ofSet set).toItems = empty.toItems := by
    intro set hset hnone
    have hnil : set.nodes = [] :=
      List.eq_nil_iff_forall_not_mem.2 fun n hn => hnone n ((hset n).1 hn)
    exact congrArg (List.map Item.node) hnil
  rcases hv with ⟨rfl, hv⟩ | ⟨set, rfl, hordered, hpersistent, hv⟩ <;>
    rcases hw with ⟨rfl, hw⟩ | ⟨set', rfl, hordered', hpersistent', hw⟩
  · rfl
  · exact (hempty set' hw hv).symm
  · exact hempty set hv hw
  · rw [hordered.ext hordered' (hpersistent.trans hpersistent'.symm) fun n =>
      (hv n).trans (hw n).symm]

theorem Lists.number? (h : v.Lists P) : v.number? = none := by
  rcases h with ⟨rfl, _⟩ | ⟨set, rfl, _⟩ <;> rfl

/-- A sequence of nodes is true when it lists any. -/
theorem Lists.truth (h : v.Lists P) : ∃ b, v.truth = .ok b ∧ (b = true ↔ ∃ n, P n) := by
  rcases h with ⟨rfl, h⟩ | ⟨set, rfl, _, _, h⟩
  · exact ⟨false, rfl, iff_of_false Bool.false_ne_true fun hn => hn.elim h⟩
  · refine ⟨!set.isEmpty, rfl, ?_⟩
    rw [Bool.not_eq_true', NodeSet.isEmpty_eq_false_iff]
    exact exists_congr h

/-- The set that a sequence of nodes is, when it lists any. -/
theorem Lists.exists_set (h : v.Lists P) (hne : ∃ n, P n)
    (hP : ∀ n, P n → s.Has n ∧ docs n.doc) :
    ∃ set : NodeSet, v = .ofSet set ∧ set.IsGiven s docs ∧ ∀ n, n ∈ set ↔ P n := by
  rcases h with ⟨_, hnone⟩ | ⟨set, rfl, hordered, hpersistent, hset⟩
  · exact absurd hne (not_exists.2 hnone)
  · exact ⟨set, rfl, ⟨⟨hordered, fun n hn => (hP n ((hset n).1 hn)).1⟩, hpersistent,
      fun n hn => (hP n ((hset n).1 hn)).2⟩, hset⟩

theorem lists_ofSet {set : NodeSet} (h : set.IsGiven s docs) : (ofSet set).Lists (· ∈ set) :=
  .inr ⟨set, rfl, h.isIn.1, h.persistent, fun _ => Iff.rfl⟩

end Sequence

/-! ### Functions of a set that work node by node -/

/-- **A function selects from each member of a set on its own:** when it has a value for a set,
it has one for every part of the set, and that lists what the members of the part stand in the
relation to. -/
def Narrows (s : Store) (docs : DocId → Prop) (R : Node → Node → Prop)
    (f : NodeSet → Except QueryError Sequence) : Prop :=
  ∀ set value, set.IsGiven s docs → f set = .ok value →
    ∀ part, part.IsGiven s docs → (∀ n ∈ part, n ∈ set) →
      ∃ value', f part = .ok value' ∧ value'.Lists fun m => ∃ n ∈ part, R n m

theorem Narrows.lists {R : Node → Node → Prop} {f : NodeSet → Except QueryError Sequence}
    (h : Narrows s docs R f) {set : NodeSet} (hset : set.IsGiven s docs) {value : Sequence}
    (hvalue : f set = .ok value) : value.Lists fun m => ∃ n ∈ set, R n m := by
  obtain ⟨value', hvalue', hlists⟩ := h set value hset hvalue set hset fun _ hn => hn
  obtain rfl := Except.ok.inj (hvalue.symm.trans hvalue')
  exact hlists

namespace Expr

/-! ### Predicates -/

/-- **A condition qualifies a node:** a hit stands in the relation of its probe to the node, or,
when there is no such probe, its value for the node is true. -/
inductive Qualifies (s : Store) (σ : Setting) (e : Expr) (n : Node) : Prop
  | byIndex {id : ExprId} {p : IndexProbe} {relation : Relation}
      (hprobe : e.probe? = some (id, p)) (hrelation : p.relation = some relation) {m : Node}
      (hrelates : relation.Relates n m) (hhits : s.Hits p.name p.op p.key m)
  | byItem (hprobe : ∀ id p, e.probe? = some (id, p) → p.relation = none) {v : Sequence}
      (hv : σ.outcome (e.evaluate s (itemFocus true (.node n))) = .ok v)
      (htruth : v.truth = .ok true)

/-- **What is needed to decide a predicate in the given documents:** its index covers them, if
it has one that tells which nodes hits qualify, and it is no number. -/
structure IsDecided (s : Store) (σ : Setting) (docs : DocId → Prop) (e : Expr) : Prop where
  pragmaFree : e.IsPragmaFree
  covers : ∀ id p, e.probe? = some (id, p) → p.relation ≠ none → p.CoversDocs s docs
  number : ∀ n, s.Has n → docs n.doc → ∀ v,
    σ.outcome (e.evaluate s (itemFocus true (.node n))) = .ok v → v.number? = none

/-- A selection has evaluated the predicate for every item. -/
theorem exists_of_selectItems {evaluate : Focus → Evaluation Sequence}
    (hreads : ∀ focus, σ.Reads (evaluate focus)) {persistent reverse : Bool} {items : List Item} :
    ∀ {position kept}, σ.outcome (selectItems evaluate persistent reverse position items) = .ok kept →
      ∀ item ∈ items, ∃ v, σ.outcome (evaluate (itemFocus persistent item)) = .ok v ∧
        (v.number? = none → ∃ b, v.truth = .ok b) := by
  induction items with
  | nil => exact fun _ item hitem => absurd hitem List.not_mem_nil
  | cons first rest ih =>
    intro position kept h item hitem
    rw [outcome_selectItems_cons hreads] at h
    obtain ⟨v, hv, h⟩ := bind_eq_ok.1 h
    obtain ⟨b, hb, h⟩ := bind_eq_ok.1 h
    obtain ⟨later, hlater, _⟩ := bind_eq_ok.1 h
    rcases List.mem_cons.1 hitem with rfl | hitem
    · refine ⟨v, hv, fun hnumber => ⟨b, ?_⟩⟩
      unfold Sequence.selects at hb
      rwa [hnumber] at hb
    · exact ih hlater item hitem

/-- Items for each of which the predicate has a truth are selected by it. -/
theorem selectItems_eq_ok {evaluate : Focus → Evaluation Sequence}
    (hreads : ∀ focus, σ.Reads (evaluate focus)) {persistent reverse : Bool} {truth : Item → Bool}
    {items : List Item}
    (h : ∀ item ∈ items, ∃ v, σ.outcome (evaluate (itemFocus persistent item)) = .ok v ∧
      v.number? = none ∧ v.truth = .ok (truth item)) :
    ∀ position, σ.outcome (selectItems evaluate persistent reverse position items) =
      .ok (items.filter truth) := by
  induction items with
  | nil => exact fun _ => rfl
  | cons item rest ih =>
    intro position
    obtain ⟨v, hv, hnumber, htruth⟩ := h item List.mem_cons_self
    have hselects : v.selects position = .ok (truth item) := by
      unfold Sequence.selects
      rw [hnumber]
      exact htruth
    rw [outcome_selectItems_cons hreads, hv, ok_bind, hselects, ok_bind,
      ih (fun item hitem => h item (List.mem_cons_of_mem _ hitem)), ok_bind, List.filter_cons]
    rfl

variable {e : Expr} {set part : NodeSet}

/-- **A predicate without such a probe** keeps the nodes for which it is true. -/
theorem outcome_applyByItem_part (h : e.IsDecided s σ docs)
    (hprobe : ∀ id p, e.probe? = some (id, p) → p.relation = none) (hset : set.IsGiven s docs)
    (hpart : part.IsGiven s docs) (hsub : ∀ n ∈ part, n ∈ set) {value : Sequence}
    (hvalue : σ.outcome (applyByItem (e.evaluate s) false (.ofSet set)) = .ok value) :
    ∃ keep : Node → Bool,
      σ.outcome (applyByItem (e.evaluate s) false (.ofSet part)) = .ok (.ofSet (part.filter keep)) ∧
        ∀ n ∈ part, keep n = true ↔ e.Qualifies s σ n := by
  classical
  have hreads : ∀ focus, σ.Reads (e.evaluate s focus) := reads_evaluate h.pragmaFree
  -- The whole set has a value, so the predicate has a truth for every item of the part.
  let keep : Node → Bool := fun n => decide (e.Qualifies s σ n)
  let truth : Item → Bool := fun item => item.node?.any keep
  rw [outcome_applyByItem hreads] at hvalue
  obtain ⟨kept, hkept, _⟩ := map_eq_ok.1 hvalue
  have hpersistent : (Sequence.ofSet set).isPersistent = true := hset.persistent
  rw [hpersistent] at hkept
  have hdecided : ∀ item ∈ (Sequence.ofSet part).toItems, ∃ v,
      σ.outcome (e.evaluate s (itemFocus true item)) = .ok v ∧ v.number? = none ∧
        v.truth = .ok (truth item) := by
    intro item hitem
    obtain ⟨n, hn, rfl⟩ := List.mem_map.1 hitem
    obtain ⟨v, hv, htruth⟩ := exists_of_selectItems hreads hkept (.node n)
      (List.mem_map_of_mem (hsub n hn))
    have hnumber := h.number n (hpart.isIn.2 n hn) (hpart.docs n hn) v hv
    obtain ⟨b, hb⟩ := htruth hnumber
    refine ⟨v, hv, hnumber, hb.trans (congrArg Except.ok ?_)⟩
    change b = decide (e.Qualifies s σ n)
    rw [Bool.eq_iff_iff, decide_eq_true_iff]
    constructor
    · rintro rfl
      exact .byItem hprobe hv hb
    · intro hqualifies
      cases hqualifies with
      | byIndex hprobe' hrelation => cases hrelation.symm.trans (hprobe _ _ hprobe')
      | byItem _ hv' htruth' =>
        obtain rfl := Except.ok.inj (hv.symm.trans hv')
        exact Except.ok.inj (hb.symm.trans htruth')
  refine ⟨keep, ?_, fun n _ => decide_eq_true_iff⟩
  have hpersistent' : (Sequence.ofSet part).isPersistent = true := hpart.persistent
  rw [outcome_applyByItem hreads, hpersistent', selectItems_eq_ok hreads hdecided]
  exact congrArg Except.ok (withItems_filter hpart.isIn.1 fun n _ => rfl)

/-- Of a set without members every predicate keeps nothing. -/
theorem outcome_applyByItem_empty {evaluate : Focus → Evaluation Sequence}
    (hreads : ∀ focus, σ.Reads (evaluate focus)) (hordered : part.IsOrdered)
    (hempty : ∀ n, n ∉ part) :
    σ.outcome (applyByItem evaluate false (.ofSet part)) =
      .ok (.ofSet (part.filter fun _ => true)) := by
  have hitems : ∀ item ∈ (Sequence.ofSet part).toItems, ∃ v,
      σ.outcome (evaluate (itemFocus (Sequence.ofSet part).isPersistent item)) = .ok v ∧
        v.number? = none ∧ v.truth = .ok true := by
    intro item hitem
    obtain ⟨n, hn, _⟩ := List.mem_map.1 hitem
    exact absurd hn (hempty n)
  rw [outcome_applyByItem hreads, selectItems_eq_ok hreads hitems]
  exact congrArg Except.ok (withItems_filter hordered fun _ _ => rfl)

/-- **A predicate with a probe that tells which nodes hits qualify** keeps the nodes that hits
qualify. -/
theorem outcome_applyPredicate_index (hs : s.IsReliable) (h : e.IsDecided s σ docs) {id : ExprId}
    {p : IndexProbe} (hprobe : e.probe? = some (id, p)) {relation : Relation}
    (hrelation : p.relation = some relation) (hpart : part.IsGiven s docs) :
    ∃ keep : Node → Bool,
      σ.outcome (applyPredicate s .boolean e.probe? (e.evaluate s) false (.ofSet part)) =
        .ok (.ofSet (part.filter keep)) ∧ ∀ n ∈ part, keep n = true ↔ e.Qualifies s σ n := by
  have hreads : ∀ focus, σ.Reads (e.evaluate s focus) := reads_evaluate h.pragmaFree
  obtain ⟨cs, hcs⟩ := hs.indexed.exists_collections hpart.isIn.2
  rw [outcome_applyPredicate hreads, hprobe]
  cases hcovers : p.covers cs with
  | true =>
    obtain ⟨keep, hanswer, hkeep⟩ := IndexProbe.answer_eq_ok hs hrelation hcs hcovers
    refine ⟨keep, ?_, fun n hn => (hkeep n hn).trans ⟨?_, ?_⟩⟩
    · simp only [byIndex, Sequence.ofSet, hanswer, ok_bind]
      rfl
    · rintro ⟨m, hrelates, hhits⟩
      exact .byIndex hprobe hrelation hrelates hhits
    · rintro (⟨hprobe', hrelation', hrelates, hhits⟩ | ⟨hnone, _, _⟩)
      · obtain ⟨rfl, rfl⟩ := Prod.mk.inj (Option.some.inj (hprobe.symm.trans hprobe'))
        obtain rfl := Option.some.inj (hrelation.symm.trans hrelation')
        exact ⟨_, hrelates, hhits⟩
      · cases hrelation.symm.trans (hnone _ _ hprobe)
  | false =>
    have hempty : ∀ n, n ∉ part := by
      refine NodeSet.isEmpty_iff.1 (by_contra fun hne => ?_)
      have hcovered := (h.covers id p hprobe (by rw [hrelation]; exact Option.some_ne_none _)).covers
        hpart.docs (Bool.eq_false_iff.2 hne) hcs
      cases hcovers.symm.trans hcovered
    refine ⟨fun _ => true, ?_, fun n hn => absurd hn (hempty n)⟩
    simp only [byIndex, Sequence.ofSet, IndexProbe.answer_eq_none hcs hcovers, ok_bind]
    exact outcome_applyByItem_empty hreads hpart.isIn.1 hempty

/-- **A predicate keeps of a part what it keeps of the whole.** -/
theorem outcome_applyPredicate_part (hs : s.IsReliable) (h : e.IsDecided s σ docs)
    (hset : set.IsGiven s docs) (hpart : part.IsGiven s docs) (hsub : ∀ n ∈ part, n ∈ set)
    {value : Sequence}
    (hvalue : σ.outcome (applyPredicate s .boolean e.probe? (e.evaluate s) false (.ofSet set)) =
      .ok value) :
    ∃ keep : Node → Bool,
      σ.outcome (applyPredicate s .boolean e.probe? (e.evaluate s) false (.ofSet part)) =
        .ok (.ofSet (part.filter keep)) ∧ ∀ n ∈ part, keep n = true ↔ e.Qualifies s σ n := by
  have hreads : ∀ focus, σ.Reads (e.evaluate s focus) := reads_evaluate h.pragmaFree
  rw [outcome_applyPredicate hreads] at hvalue ⊢
  cases hprobe : e.probe? with
  | none =>
    rw [hprobe] at hvalue
    exact outcome_applyByItem_part h (fun id p hp => by rw [hprobe] at hp; cases hp) hset hpart hsub
      hvalue
  | some probed =>
    obtain ⟨id, p⟩ := probed
    cases hrelation : p.relation with
    | none =>
      have hanswer : ∀ candidates, p.answer s candidates = .ok none := by
        intro candidates
        unfold IndexProbe.answer
        rw [hrelation]
      rw [hprobe] at hvalue
      simp only [byIndex, Sequence.ofSet, hanswer, ok_bind] at hvalue ⊢
      refine outcome_applyByItem_part h (fun id' p' hp => ?_) hset hpart hsub hvalue
      obtain ⟨rfl, rfl⟩ := Prod.mk.inj (Option.some.inj (hprobe.symm.trans hp))
      exact hrelation
    | some relation =>
      obtain ⟨keep, hkeep⟩ := outcome_applyPredicate_index hs h hprobe hrelation hpart
      rw [outcome_applyPredicate hreads, hprobe] at hkeep
      exact ⟨keep, hkeep⟩

/-- **Predicates keep of a part what they keep of the whole:** the nodes that qualify for all of
them. -/
theorem outcome_applyPredicates_part (hs : s.IsReliable) {ps : List Predicate}
    (hps : ∀ p ∈ ps, p.mode = .boolean ∧ p.expr.IsDecided s σ docs) :
    ∀ {set part : NodeSet} {value : Sequence}, set.IsGiven s docs → part.IsGiven s docs →
      (∀ n ∈ part, n ∈ set) → σ.outcome (applyPredicates s ps false (.ofSet set)) = .ok value →
        ∃ kept : NodeSet,
          σ.outcome (applyPredicates s ps false (.ofSet part)) = .ok (.ofSet kept) ∧
            kept.IsGiven s docs ∧
              ∀ n, n ∈ kept ↔ n ∈ part ∧ ∀ p ∈ ps, p.expr.Qualifies s σ n := by
  induction ps with
  | nil =>
    intro set part value _ hpart _ _
    exact ⟨part, outcome_applyPredicates_nil _ _, hpart, fun n => by simp⟩
  | cons p rest ih =>
    intro set part value hset hpart hsub hvalue
    have hfree : ∀ p' ∈ p :: rest, p'.expr.IsPragmaFree := fun p' hp' => (hps p' hp').2.pragmaFree
    obtain ⟨hmode, hdecided⟩ := hps p List.mem_cons_self
    rw [outcome_applyPredicates_cons hfree, hmode] at hvalue ⊢
    obtain ⟨first, hfirst, hvalue⟩ := bind_eq_ok.1 hvalue
    obtain ⟨keep, hkept, hkeep⟩ :=
      outcome_applyPredicate_part hs hdecided hset hset (fun _ hn => hn) hfirst
    obtain ⟨keep', hkept', hkeep'⟩ :=
      outcome_applyPredicate_part hs hdecided hset hpart hsub hfirst
    obtain rfl := Except.ok.inj (hfirst.symm.trans hkept)
    have hsub' : ∀ n ∈ part.filter keep', n ∈ set.filter keep := by
      intro n hn
      obtain ⟨hn, hqualifies⟩ := NodeSet.mem_filter.1 hn
      exact NodeSet.mem_filter.2 ⟨hsub n hn,
        (hkeep n (hsub n hn)).2 ((hkeep' n hn).1 hqualifies)⟩
    obtain ⟨kept, hrest, hgiven, hmem⟩ := ih (fun p' hp' => hps p' (List.mem_cons_of_mem _ hp'))
      (hset.filter keep) (hpart.filter keep') hsub' hvalue
    refine ⟨kept, by rw [hkept', ok_bind, hrest], hgiven, fun n => (hmem n).trans ?_⟩
    rw [NodeSet.mem_filter, List.forall_mem_cons, and_assoc]
    exact and_congr_right fun hn => and_congr_left fun _ => hkeep' n hn

/-! ### Steps and paths -/

/-- **A step leads from a node to another:** along its axis, past its test, to one that
qualifies for its predicates. -/
def Takes (s : Store) (σ : Setting) : Expr → Node → Node → Prop
  | .step head ps, n, m =>
    (s.Leads head.axis n m ∧ s.Passes head.axis head.test m) ∧
      ∀ p ∈ ps, p.expr.Qualifies s σ m
  | .root, n, m => m = .document n.doc
  | _, _, _ => False

/-- **Steps lead from a node to another** one after the other. -/
def TakesAlong (s : Store) (σ : Setting) : List Expr → Node → Node → Prop
  | [], n, m => m = n
  | e :: rest, n, m => ∃ x, e.Takes s σ n x ∧ TakesAlong s σ rest x m

/-- **A location path leads from a node to another.** -/
def Reaches (s : Store) (σ : Setting) : Expr → Node → Node → Prop
  | .path _ steps => TakesAlong s σ steps
  | e => e.Takes s σ

/-- An expression selects from each node of its context on its own. -/
def SelectsEach (s : Store) (σ : Setting) (docs : DocId → Prop) (e : Expr) : Prop :=
  Narrows s docs (e.Reaches s σ) fun set => σ.outcome (e.evaluate s (.on (.ofSet set)))

theorem contextSet_on (set : NodeSet) : contextSet s (.on (.ofSet set)) = .ok ⟨set, none⟩ := rfl

/-- Along its axis a step leads from a part of a set to a part of what it leads to from all. -/
theorem outcome_selectAxis_part (hs : s.IsReliable) (hσ : σ.IsBare) {head : StepHead}
    (haxis : head.axis ∈ optimizableAxes) (hpart : part.IsGiven s docs) :
    ∃ found, σ.outcome (selectAxis s head part) = .ok found ∧ found.IsGiven s docs ∧
      ∀ m, m ∈ found ↔
        ∃ n ∈ part, s.Leads head.axis n m ∧ s.Passes head.axis head.test m := by
  obtain ⟨found, hfound, hmem⟩ := hs.indexed.navigate_eq_ok (Axis.isStraight_of_mem haxis) head.test
    hpart.isIn.2
  rw [outcome_selectAxis_eq_navigate hσ hs.answering head hpart.isIn.2, hfound]
  refine ⟨_, rfl, NodeSet.isGiven_persistent fun m hm => ?_, fun m => NodeSet.mem_ofList.trans (hmem m)⟩
  obtain ⟨n, hn, hleads, _⟩ := (hmem m).1 hm
  exact ⟨hs.indexed.has_of_leads (hpart.isIn.2 n hn) hleads, hleads.doc_eq ▸ hpart.docs n hn⟩

/-- The outcome of a step that counts no positions. -/
theorem outcome_step_on {ps : List Predicate}
    (hps : ∀ p ∈ ps, p.mode = .boolean ∧ p.expr.IsPragmaFree) (head : StepHead)
    (context : NodeSet) :
    σ.outcome ((step head ps).evaluate s (.on (.ofSet context))) =
      σ.outcome (selectAxis s head context) >>= fun selected =>
        σ.outcome (applyPredicates s ps false (.ofSet selected)) := by
  have hpositional : hasPositional ps = false := by
    refine List.any_eq_false.2 fun p hp => ?_
    rw [(hps p hp).1]
    decide
  rw [outcome_step (isPragmaFree_step.2 fun p hp => (hps p hp).2), contextSet_on, ok_bind,
    hpositional]
  rfl

/-- **Predicates keep what the step leads to,** of those that its axis leads to from a part of a set,
also where they are among certain nodes only. -/
theorem outcome_applyPredicates_selected (hs : s.IsReliable) {head : StepHead} {ps : List Predicate}
    (hps : ∀ p ∈ ps, p.mode = .boolean ∧ p.expr.IsDecided s σ docs) {set found found' : NodeSet}
    (hfoundGiven : found.IsGiven s docs) (hfoundGiven' : found'.IsGiven s docs)
    (hmem : ∀ m, m ∈ found ↔ ∃ n ∈ set, s.Leads head.axis n m ∧ s.Passes head.axis head.test m)
    {A : Node → Prop} (hmem' : ∀ m, m ∈ found' ↔
      A m ∧ ∃ n ∈ part, s.Leads head.axis n m ∧ s.Passes head.axis head.test m)
    (hsub : ∀ n ∈ part, n ∈ set) {value : Sequence}
    (hvalue : σ.outcome (applyPredicates s ps false (.ofSet found)) = .ok value) :
    ∃ value', σ.outcome (applyPredicates s ps false (.ofSet found')) = .ok value' ∧
      value'.Lists fun m => A m ∧ ∃ n ∈ part, (step head ps).Takes s σ n m := by
  have hsub' : ∀ m ∈ found', m ∈ found := by
    intro m hm
    obtain ⟨_, n, hn, hleads⟩ := (hmem' m).1 hm
    exact (hmem m).2 ⟨n, hsub n hn, hleads⟩
  obtain ⟨kept, hkept, hgiven, hkeeps⟩ := outcome_applyPredicates_part hs hps hfoundGiven
    hfoundGiven' hsub' hvalue
  refine ⟨_, hkept, (Sequence.lists_ofSet hgiven).congr fun m => ?_⟩
  rw [hkeeps, hmem']
  constructor
  · rintro ⟨⟨hm, n, hn, hleads⟩, hqualifies⟩
    exact ⟨hm, n, hn, hleads, hqualifies⟩
  · rintro ⟨hm, n, hn, hleads, hqualifies⟩
    exact ⟨⟨hm, n, hn, hleads⟩, hqualifies⟩

/-- **A step selects from each node on its own.** -/
theorem selectsEach_step (hs : s.IsReliable) (hσ : σ.IsBare) {head : StepHead}
    {ps : List Predicate} (haxis : head.axis ∈ optimizableAxes)
    (hps : ∀ p ∈ ps, p.mode = .boolean ∧ p.expr.IsDecided s σ docs) :
    (step head ps).SelectsEach s σ docs := by
  have hfree : ∀ p ∈ ps, p.mode = .boolean ∧ p.expr.IsPragmaFree := fun p hp =>
    ⟨(hps p hp).1, (hps p hp).2.pragmaFree⟩
  intro set value hset hvalue part hpart hsub
  dsimp only at hvalue ⊢
  rw [outcome_step_on hfree] at hvalue ⊢
  obtain ⟨found, hfound, hfoundGiven, hmem⟩ := outcome_selectAxis_part hs hσ haxis hset
  obtain ⟨found', hfound', hfoundGiven', hmem'⟩ := outcome_selectAxis_part hs hσ haxis hpart
  rw [hfound, ok_bind] at hvalue
  rw [hfound', ok_bind]
  obtain ⟨value', hvalue', hlists⟩ := outcome_applyPredicates_selected (A := fun _ => True) hs hps
    hfoundGiven hfoundGiven' hmem (fun m => (hmem' m).trans (and_iff_right trivial).symm) hsub hvalue
  exact ⟨value', hvalue', hlists.congr fun _ => and_iff_right trivial⟩

theorem outcome_root_on (set : NodeSet) : σ.outcome (root.evaluate s (.on (.ofSet set))) =
    .ok (.ofSet (.ofList (set.nodes.map fun n => .document n.doc) set.persistent)) :=
  outcome_root _

/-- The root selects the document of each node. -/
theorem selectsEach_root : root.SelectsEach s σ docs := by
  intro set value hset _ part hpart _
  refine ⟨_, outcome_root_on part, .inr ⟨_, rfl, NodeSet.isOrdered_ofList _ _,
    hpart.persistent, fun m => ?_⟩⟩
  rw [NodeSet.mem_ofList, List.mem_map]
  exact exists_congr fun n => and_congr_right fun _ => eq_comm

/-- A step leads to nodes of the same document. -/
theorem Takes.has (hs : s.IsIndexed) {e : Expr} {n m : Node} (h : e.Takes s σ n m) (hn : s.Has n) :
    s.Has m ∧ m.doc = n.doc := by
  cases e with
  | step head ps => exact ⟨hs.has_of_leads hn h.1.1, h.1.1.doc_eq⟩
  | root =>
    obtain rfl : m = .document n.doc := h
    exact ⟨hs.has_document hn, rfl⟩
  | _ => exact h.elim

/-- What a step leads to from a given set lies in the same documents. -/
theorem has_of_takes (hs : s.IsIndexed) {e : Expr} {set : NodeSet} (hset : set.IsGiven s docs) :
    ∀ x, (∃ n ∈ set, e.Takes s σ n x) → s.Has x ∧ docs x.doc := by
  rintro x ⟨n, hn, htakes⟩
  obtain ⟨hx, hdoc⟩ := htakes.has hs (hset.isIn.2 n hn)
  exact ⟨hx, hdoc ▸ hset.docs n hn⟩

/-- Further steps lead nowhere from no nodes. -/
theorem outcome_evaluateSteps_nowhere {es : List Expr} (hes : ∀ e ∈ es, e.IsPragmaFree)
    {v : Sequence} {P : Node → Prop} (hv : v.Lists P) (hnone : ∀ n, ¬ P n) :
    ∃ w, σ.outcome (evaluateSteps s es v) = .ok w ∧ w.Lists fun _ => False := by
  have hlists : v.Lists fun _ => False := hv.congr fun n => iff_of_false (hnone n) id
  cases es with
  | nil => exact ⟨v, outcome_evaluateSteps_nil _, hlists⟩
  | cons e rest =>
    have hempty : v.isEmpty = true := by
      rcases hv with ⟨rfl, _⟩ | ⟨set, rfl, _, _, hset⟩
      · rfl
      · rw [Sequence.isEmpty_ofSet, NodeSet.isEmpty_iff]
        exact fun n hn => hnone n ((hset n).1 hn)
    rw [outcome_evaluateSteps_cons hes, if_pos hempty]
    exact ⟨_, rfl, .inl ⟨rfl, fun _ => id⟩⟩

/-- **Further steps lead from a part of the nodes** when they lead from all of them. -/
theorem outcome_evaluateSteps_part {es : List Expr} (hes : ∀ e ∈ es, e.IsPragmaFree)
    (hnarrows : Narrows s docs (TakesAlong s σ es) fun set =>
      σ.outcome (evaluateSteps s es (.ofSet set)))
    {v v' w : Sequence} {P P' : Node → Prop} (hv : v.Lists P) (hv' : v'.Lists P')
    (hP : ∀ n, P n → s.Has n ∧ docs n.doc) (hsub : ∀ n, P' n → P n)
    (hw : σ.outcome (evaluateSteps s es v) = .ok w) :
    ∃ w', σ.outcome (evaluateSteps s es v') = .ok w' ∧
      w'.Lists fun m => ∃ n, P' n ∧ TakesAlong s σ es n m := by
  by_cases hnone : ∀ n, ¬ P' n
  · obtain ⟨w', hw', hnowhere⟩ := outcome_evaluateSteps_nowhere (s := s) (σ := σ) hes hv' hnone
    refine ⟨w', hw', hnowhere.congr fun m => iff_of_false id ?_⟩
    rintro ⟨n, hn, _⟩
    exact hnone n hn
  · obtain ⟨n, hn⟩ := not_forall_not.1 hnone
    obtain ⟨set, rfl, hset, hmem⟩ := hv.exists_set ⟨n, hsub n hn⟩ hP
    obtain ⟨part, rfl, hpart, hmem'⟩ := hv'.exists_set ⟨n, hn⟩ fun n hn => hP n (hsub n hn)
    obtain ⟨w', hw', hlists⟩ := hnarrows set w hset hw part hpart fun n hn =>
      (hmem n).2 (hsub n ((hmem' n).1 hn))
    exact ⟨w', hw', hlists.congr fun m => exists_congr fun n => and_congr_left fun _ => hmem' n⟩

/-- **What selects node by node, and then steps that do.** -/
theorem narrows_then (hs : s.IsIndexed) {e : Expr} {rest : List Expr}
    (hrest : ∀ e' ∈ rest, e'.IsPragmaFree)
    (hfirst : Narrows s docs (e.Takes s σ) fun set => σ.outcome (e.evaluate s (.on (.ofSet set))))
    (hthen : Narrows s docs (TakesAlong s σ rest) fun set =>
      σ.outcome (evaluateSteps s rest (.ofSet set))) :
    Narrows s docs (TakesAlong s σ (e :: rest)) fun set =>
      σ.outcome (e.evaluate s (.on (.ofSet set))) >>= fun v =>
        σ.outcome (evaluateSteps s rest v) := by
  intro set value hset hvalue part hpart hsub
  obtain ⟨v, hv, hvalue⟩ := bind_eq_ok.1 hvalue
  obtain ⟨v', hv', hlists'⟩ := hfirst set v hset hv part hpart hsub
  have hsub' : ∀ x, (∃ n ∈ part, e.Takes s σ n x) → ∃ n ∈ set, e.Takes s σ n x := by
    rintro x ⟨n, hn, htakes⟩
    exact ⟨n, hsub n hn, htakes⟩
  obtain ⟨w, hw, hlists⟩ := outcome_evaluateSteps_part hrest hthen (hfirst.lists hset hv) hlists'
    (has_of_takes hs hset) hsub' hvalue
  refine ⟨w, bind_eq_ok.2 ⟨v', hv', hw⟩, hlists.congr fun m => ?_⟩
  constructor
  · rintro ⟨x, ⟨n, hn, htakes⟩, halong⟩
    exact ⟨n, hn, x, htakes, halong⟩
  · rintro ⟨n, hn, x, htakes, halong⟩
    exact ⟨x, ⟨n, hn, htakes⟩, halong⟩

/-- The outcome of further steps for a set that has members. -/
theorem outcome_evaluateSteps_ofSet {e : Expr} {rest : List Expr}
    (h : ∀ e' ∈ e :: rest, e'.IsPragmaFree) {set : NodeSet} {n : Node} (hn : n ∈ set) :
    σ.outcome (evaluateSteps s (e :: rest) (.ofSet set)) =
      σ.outcome (e.evaluate s (.on (.ofSet set))) >>= fun v =>
        σ.outcome (evaluateSteps s rest v) := by
  have hne : ¬ (Sequence.ofSet set).isEmpty = true := fun hempty =>
    NodeSet.isEmpty_iff.1 (Sequence.isEmpty_ofSet set ▸ hempty) n hn
  rw [outcome_evaluateSteps_cons h, if_neg hne]
  rfl

/-- **Steps select from each node on their own** when each of them does. -/
theorem narrows_evaluateSteps (hs : s.IsIndexed) {es : List Expr}
    (hes : ∀ e ∈ es, e.IsPragmaFree ∧ Narrows s docs (e.Takes s σ) fun set =>
      σ.outcome (e.evaluate s (.on (.ofSet set)))) :
    Narrows s docs (TakesAlong s σ es) fun set =>
      σ.outcome (evaluateSteps s es (.ofSet set)) := by
  induction es with
  | nil =>
    intro set value _ _ part hpart _
    refine ⟨_, outcome_evaluateSteps_nil _, (Sequence.lists_ofSet hpart).congr fun m => ?_⟩
    constructor
    · exact fun hm => ⟨m, hm, rfl⟩
    · rintro ⟨n, hn, rfl⟩
      exact hn
  | cons e rest ih =>
    intro set value hset hvalue part hpart hsub
    have hfree : ∀ e' ∈ e :: rest, e'.IsPragmaFree := fun e' he' => (hes e' he').1
    have hthen := narrows_then hs (fun e' he' => hfree e' (List.mem_cons_of_mem _ he'))
      (hes e List.mem_cons_self).2 (ih fun e' he' => hes e' (List.mem_cons_of_mem _ he'))
    by_cases hempty : ∀ n, n ∉ part
    · obtain ⟨w, hw, hlists⟩ := outcome_evaluateSteps_nowhere (s := s) (σ := σ) hfree
        (Sequence.lists_ofSet hpart) hempty
      refine ⟨w, hw, hlists.congr fun m => iff_of_false id ?_⟩
      rintro ⟨n, hn, _⟩
      exact hempty n hn
    · obtain ⟨n, hn⟩ := not_forall_not.1 hempty
      obtain ⟨w, hw, hlists⟩ := hthen set value hset
        ((outcome_evaluateSteps_ofSet hfree (hsub n hn)).symm.trans hvalue) part hpart hsub
      exact ⟨w, (outcome_evaluateSteps_ofSet hfree hn).trans hw, hlists⟩

/-- **A path selects from each node on its own** when each of its steps does. -/
theorem selectsEach_path (hs : s.IsIndexed) {id : ExprId} {steps : List Expr} (hne : steps ≠ [])
    (hsteps : ∀ e ∈ steps, e.IsPragmaFree ∧ Narrows s docs (e.Takes s σ) fun set =>
      σ.outcome (e.evaluate s (.on (.ofSet set)))) :
    (path id steps).SelectsEach s σ docs := by
  cases steps with
  | nil => exact absurd rfl hne
  | cons first rest =>
    have hfree : (path id (first :: rest)).IsPragmaFree :=
      isPragmaFree_path.2 fun e he => (hsteps e he).1
    have hthen := narrows_then hs
      (fun e he => (hsteps e (List.mem_cons_of_mem _ he)).1) (hsteps first List.mem_cons_self).2
      (narrows_evaluateSteps hs fun e he => hsteps e (List.mem_cons_of_mem _ he))
    intro set value hset hvalue part hpart hsub
    obtain ⟨w, hw, hlists⟩ := hthen set value hset ((outcome_path_cons hfree _).symm.trans hvalue)
      part hpart hsub
    exact ⟨w, (outcome_path_cons hfree _).trans hw, hlists⟩

end Expr
end IndexedXml
