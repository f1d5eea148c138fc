/-
# A condition applied to a set and to its parts

A condition that never selects by position goes by the members of a set: it has an outcome for the
set where it has one at each member, and keeps those at which it holds (`NodeSet.GoesByMember`).
So what it keeps of a set is what it keeps of the parts into which the set is divided, one after
the other (`NodeSet.GoesByMember.sameKept`).

Evaluated item by item, such a condition is asked about each member on its own.  An index answers
for the whole of a set or not at all; but the hits that qualify a member do not depend on the set
that it is a member of.  Where it answers for the whole it answers for all parts with members.  The
other way round it may answer for a part and not for the whole, and then the two ways of applying
the condition to the part must agree.
-/

import IndexedXml.Proofs.Query.Selection

namespace IndexedXml

open Evaluation Setting

/-- **A set is divided into parts** of its kind, which may overlap: their members are its
members. -/
structure NodeSet.IsDividedInto (whole : NodeSet) (parts : List NodeSet) : Prop where
  mem_iff : ∀ n, n ∈ whole ↔ ∃ part ∈ parts, n ∈ part
  kind : ∀ part ∈ parts, part.persistent = whole.persistent

variable {s : Store} {σ : Setting}

/-! ### Going by the members -/

namespace NodeSet

/-- **An outcome goes by the members of a set:** there is one where there is one at each member,
and then it consists of the members with a property. -/
structure GoesByMember (ok keep : Node → Prop) (set : NodeSet) (x : Except QueryError Sequence) :
    Prop where
  members : ∀ v, x = .ok v → ∀ n ∈ set, ok n
  kept : (∀ n ∈ set, ok n) → ∃ kept, x = .ok (.ofSet kept) ∧ ∀ n, n ∈ kept ↔ n ∈ set ∧ keep n

variable {ok keep : Node → Prop} {whole : NodeSet} {parts : List NodeSet}

theorem GoesByMember.congr {ok' keep' : Node → Prop} {set : NodeSet}
    {x : Except QueryError Sequence} (h : GoesByMember ok keep set x)
    (hok : ∀ n ∈ set, ok n ↔ ok' n) (hkeep : ∀ n ∈ set, keep n ↔ keep' n) :
    GoesByMember ok' keep' set x := by
  refine ⟨fun v hv n hn => (hok n hn).1 (h.members v hv n hn), fun hall => ?_⟩
  obtain ⟨kept, hx, hmem⟩ := h.kept fun n hn => (hok n hn).2 (hall n hn)
  refine ⟨kept, hx, fun n => (hmem n).trans ?_⟩
  exact and_congr_right fun hn => hkeep n hn

/-- The items kept of a set are those kept of its parts. -/
def SameKept (whole : Except QueryError Sequence) (parts : Except QueryError (List Sequence)) :
    Prop :=
  (∀ v, whole = .ok v → ∃ vs, parts = .ok vs ∧
    ∀ item, item ∈ v.toItems ↔ ∃ w ∈ vs, item ∈ w.toItems) ∧
  ∀ vs, parts = .ok vs → ∃ v, whole = .ok v ∧
    ∀ item, item ∈ v.toItems ↔ ∃ w ∈ vs, item ∈ w.toItems

/-- **What goes by the members keeps of a set what it keeps of its parts.** -/
theorem GoesByMember.sameKept {x : NodeSet → Except QueryError Sequence}
    (hdivided : whole.IsDividedInto parts) {y : Except QueryError Sequence}
    (hwhole : GoesByMember ok keep whole y)
    (hparts : ∀ part ∈ parts, GoesByMember ok keep part (x part)) :
    SameKept y (parts.mapM x) := by
  have hmember : ∀ {set kept : NodeSet}, (∀ n, n ∈ kept ↔ n ∈ set ∧ keep n) → ∀ item,
      item ∈ (Sequence.ofSet kept).toItems ↔ ∃ n ∈ set, keep n ∧ item = .node n := by
    intro set kept hmem item
    constructor
    · intro hitem
      obtain ⟨n, hn, rfl⟩ := List.mem_map.1 hitem
      exact ⟨n, ((hmem n).1 hn).1, ((hmem n).1 hn).2, rfl⟩
    · rintro ⟨n, hn, hkeep, rfl⟩
      exact List.mem_map_of_mem ((hmem n).2 ⟨hn, hkeep⟩)
  -- All of it has an outcome where each member has one.
  have hall : (∀ n ∈ whole, ok n) → ∃ v vs, y = .ok v ∧ parts.mapM x = .ok vs ∧
      ∀ item, item ∈ v.toItems ↔ ∃ w ∈ vs, item ∈ w.toItems := by
    intro hok
    have hpart : ∀ part ∈ parts, ∃ kept, x part = .ok (.ofSet kept) ∧
        ∀ n, n ∈ kept ↔ n ∈ part ∧ keep n := fun part hpart =>
      (hparts part hpart).kept fun n hn => hok n ((hdivided.mem_iff n).2 ⟨part, hpart, hn⟩)
    obtain ⟨kept, hy, hkept⟩ := hwhole.kept hok
    obtain ⟨vs, hvs⟩ := exists_mapM_eq_ok fun part hmem =>
      (hpart part hmem).elim fun kept h => ⟨_, h.1⟩
    refine ⟨_, vs, hy, hvs, fun item => (hmember hkept item).trans ?_⟩
    constructor
    · rintro ⟨n, hn, hkeep, rfl⟩
      obtain ⟨part, hmem, hn⟩ := (hdivided.mem_iff n).1 hn
      obtain ⟨own, hx, hown⟩ := hpart part hmem
      exact ⟨_, (mem_of_mapM hvs).2 ⟨part, hmem, hx⟩, (hmember hown _).2 ⟨n, hn, hkeep, rfl⟩⟩
    · rintro ⟨w, hw, hitem⟩
      obtain ⟨part, hmem, hx⟩ := (mem_of_mapM hvs).1 hw
      obtain ⟨own, hx', hown⟩ := hpart part hmem
      obtain rfl := Except.ok.inj (hx.symm.trans hx')
      obtain ⟨n, hn, hkeep, rfl⟩ := (hmember hown item).1 hitem
      exact ⟨n, (hdivided.mem_iff n).2 ⟨part, hmem, hn⟩, hkeep, rfl⟩
  constructor
  · intro v hv
    obtain ⟨v', vs, hv', hvs, hitems⟩ := hall (hwhole.members v hv)
    obtain rfl := Except.ok.inj (hv.symm.trans hv')
    exact ⟨vs, hvs, hitems⟩
  · intro vs hvs
    have hok : ∀ n ∈ whole, ok n := by
      intro n hn
      obtain ⟨part, hmem, hn⟩ := (hdivided.mem_iff n).1 hn
      obtain ⟨w, -, hw⟩ := exists_of_mapM hvs hmem
      exact (hparts part hmem).members w hw n hn
    obtain ⟨v, vs', hv, hvs', hitems⟩ := hall hok
    obtain rfl := Except.ok.inj (hvs.symm.trans hvs')
    exact ⟨v, hv, hitems⟩

end NodeSet

/-! ### Item by item -/

namespace Evaluation

variable {value : Focus → Except QueryError Sequence}

/-- The truth of a condition at an item, when it has the given values. -/
def truthAt (value : Focus → Except QueryError Sequence) (persistent : Bool) (item : Item) :
    Except QueryError Bool := do
  (← value (itemFocus persistent item)).truth

/-- **A condition that is no number selects by its truth,** wherever an item stands. -/
theorem outcome_selectItems_of_truth (hnumber : ∀ focus v, value focus = .ok v → v.number? = none)
    (persistent reverse : Bool) (items : List Item) :
    ∀ position, σ.outcome (selectItems (fun focus => orFail (value focus)) persistent reverse
      position items) = filterPassing (truthAt value persistent) items := by
  have hreads : ∀ focus, σ.Reads (orFail (value focus)) := fun focus => reads_orFail _
  induction items with
  | nil => exact fun _ => rfl
  | cons item rest ih =>
    intro position
    rw [outcome_selectItems_cons hreads, filterPassing, truthAt, bind_assoc, outcome_orFail]
    cases hv : value (itemFocus persistent item) with
    | error e => rfl
    | ok v =>
      rw [ok_bind, ok_bind, Sequence.selects, hnumber _ v hv]
      exact bind_congr fun selected => by rw [ih]

/-- What is tested passes or not. -/
theorem exists_of_filterPassing {α ε : Type} {test : α → Except ε Bool} {l kept : List α}
    (h : filterPassing test l = .ok kept) : ∀ a ∈ l, ∃ b, test a = .ok b := by
  induction l generalizing kept with
  | nil => exact fun _ ha => nomatch ha
  | cons a rest ih =>
    rw [filterPassing] at h
    obtain ⟨b, hb, h⟩ := bind_eq_ok.1 h
    obtain ⟨later, hlater, -⟩ := bind_eq_ok.1 h
    exact List.forall_mem_cons.2 ⟨⟨b, hb⟩, ih hlater⟩

/-- **Evaluated item by item,** a condition that is no number goes by the members. -/
theorem goesByMember_applyByItem (hnumber : ∀ focus v, value focus = .ok v → v.number? = none)
    (reverse : Bool) (set : NodeSet) :
    set.GoesByMember (fun n => ∃ b, truthAt value set.persistent (.node n) = .ok b)
      (fun n => truthAt value set.persistent (.node n) = .ok true)
      (σ.outcome (applyByItem (fun focus => orFail (value focus)) reverse (.ofSet set))) := by
  rw [outcome_applyByItem fun focus => reads_orFail _, outcome_selectItems_of_truth hnumber]
  refine ⟨fun v hv n hn => ?_, fun hall => ?_⟩
  · obtain ⟨kept, hkept, -⟩ := map_eq_ok.1 hv
    exact exists_of_filterPassing hkept (.node n) (List.mem_map_of_mem hn)
  · let test := truthAt value set.persistent
    have hpasses : ∀ item ∈ (Sequence.ofSet set).toItems,
        test item = .ok ((test item).toOption.getD false) := by
      intro item hitem
      obtain ⟨n, hn, rfl⟩ := List.mem_map.1 hitem
      obtain ⟨b, hb⟩ := hall n hn
      change truthAt value set.persistent (.node n) = _
      rw [show test (.node n) = .ok b from hb, hb]
      rfl
    have hkept : ∀ n ∈ set, (test (.node n)).toOption.getD false = true ↔
        test (.node n) = .ok true := by
      intro n hn
      obtain ⟨b, hb⟩ := hall n hn
      rw [show test (.node n) = .ok b from hb, Except.ok.injEq]
      rfl
    change ∃ kept, (filterPassing test (Sequence.ofSet set).toItems).map _ = _ ∧ _
    rw [filterPassing_eq_ok hpasses, Except.map, Sequence.ofSet, withItems_nodes]
    refine ⟨_, rfl, fun n => ?_⟩
    rw [NodeSet.mem_ofList, mem_filterMap_node?, List.mem_filter]
    constructor
    · rintro ⟨hn, hpassed⟩
      obtain ⟨m, hm, heq⟩ := List.mem_map.1 hn
      obtain rfl := Item.node.inj heq
      exact ⟨hm, (hkept m hm).1 hpassed⟩
    · exact fun h => ⟨List.mem_map_of_mem h.1, (hkept n h.1).2 h.2⟩

end Evaluation

/-! ### By index -/

namespace IndexProbe

variable {p : IndexProbe}

theorem coversAll_ofSet_iff {set : NodeSet} : p.coversAll s (some (.ofSet set)) = .ok true ↔
    ∃ cs, set.documents.docs.mapM s.collectionOf = .ok cs ∧ p.covers cs = true :=
  coversAll_eq_true_iff

/-- Whether a probe answers for a set can be told where the collections of the members can. -/
theorem exists_coversAll_iff {set : NodeSet} :
    (∃ b, p.coversAll s (some (.ofSet set)) = .ok b) ↔ ∀ n ∈ set, ∃ c, s.collectionOf n.doc = .ok c := by
  have hnodes := p.coversAll_nodes s ⟨set, none⟩
  change p.coversAll s (some (.ofSet set)) = _ at hnodes
  rw [hnodes]
  constructor
  · rintro ⟨b, hb⟩ n hn
    obtain ⟨cs, hcs, -⟩ := map_eq_ok.1 hb
    obtain ⟨c, -, hc⟩ := exists_of_mapM hcs (NodeSet.mem_documents.2 ⟨n, hn, rfl⟩)
    exact ⟨c, hc⟩
  · intro hall
    have hdocs : ∀ doc ∈ set.documents.docs, ∃ c, s.collectionOf doc = .ok c := by
      intro doc hdoc
      obtain ⟨n, hn, rfl⟩ := NodeSet.mem_documents.1 hdoc
      exact hall n hn
    obtain ⟨cs, hcs⟩ := exists_mapM_eq_ok hdocs
    exact ⟨p.covers cs, by rw [hcs]; rfl⟩

/-- **A probe answers for each part with members** of a set that it answers for. -/
theorem coversAll_of_subset {set part : NodeSet} (h : p.coversAll s (some (.ofSet set)) = .ok true)
    (hsub : ∀ n ∈ part, n ∈ set) {n : Node} (hn : n ∈ part) :
    p.coversAll s (some (.ofSet part)) = .ok true := by
  obtain ⟨cs, hcs, hcovers⟩ := coversAll_ofSet_iff.1 h
  obtain ⟨-, type, hfits, hall⟩ := covers_iff.1 hcovers
  have hdocs : ∀ doc ∈ part.documents.docs, ∃ c ∈ cs, s.collectionOf doc = .ok c := by
    intro doc hdoc
    obtain ⟨m, hm, rfl⟩ := NodeSet.mem_documents.1 hdoc
    exact exists_of_mapM hcs (NodeSet.mem_documents.2 ⟨m, hsub m hm, rfl⟩)
  obtain ⟨own, hown⟩ := exists_mapM_eq_ok fun doc hdoc =>
    (hdocs doc hdoc).elim fun c h => ⟨c, h.2⟩
  refine coversAll_ofSet_iff.2 ⟨own, hown, covers_iff.2 ⟨?_, type, hfits, ?_⟩⟩
  · rintro rfl
    obtain ⟨c, hc, -⟩ := exists_of_mapM hown (NodeSet.mem_documents.2 ⟨n, hn, rfl⟩)
    cases hc
  · intro c hc
    obtain ⟨doc, hdoc, hc⟩ := (mem_of_mapM hown).1 hc
    obtain ⟨c', hc', hdoc⟩ := hdocs doc hdoc
    obtain rfl := Except.ok.inj (hc.symm.trans hdoc)
    exact hall c hc'

/-- What the index of a probe has in the document of a node, wherever it is looked up. -/
def Finds (p : IndexProbe) (s : Store) (m : Node) : Prop :=
  m ∈ s.hitsIn ⟨p.name, p.op, p.key, .ofList [], none⟩ m.doc

/-- **Where a probe answers for a set,** it keeps the members that a hit qualifies, unless lookups
are switched off; and what qualifies a member is found in any set that the member is in. -/
theorem answer_of_covers {relation : Relation} (hrelation : p.relation = some relation)
    {set : NodeSet} (hcovers : p.coversAll s (some (.ofSet set)) = .ok true) :
    (∀ kept, p.answer s set = .ok kept → s.interrupted = false) ∧
    (s.interrupted = false → ∃ kept, p.answer s set = .ok (some kept) ∧
      ∀ n, n ∈ kept ↔ n ∈ set ∧ ∃ m, relation.Relates n m ∧ p.Finds s m) := by
  have hanswer : p.answer s set = (s.findByValue (p.rangeQuery set true)).mapError .store >>=
      fun hits => .ok (some (qualified relation set hits)) := by
    rw [answer, hrelation]
    dsimp only
    rw [hcovers]
    rfl
  refine ⟨fun kept hkept => ?_, fun hprobes => ?_⟩
  · cases hprobes : s.interrupted with
    | false => rfl
    | true =>
      rw [hanswer, Store.findByValue, Store.unlessInterrupted, hprobes] at hkept
      cases hkept
  · obtain ⟨found, hfound, hmem⟩ := Store.exists_findByValue hprobes (p.rangeQuery set true)
    refine ⟨_, by rw [hanswer, hfound]; rfl, fun n => ?_⟩
    refine (mem_qualified (NodeSet.isOrdered_ofList _ _)).trans ?_
    refine and_congr_right fun hn => exists_congr fun m => ?_
    refine (and_comm.trans (and_congr_right fun hrelates => ?_))
    refine (NodeSet.mem_ofList.trans (hmem m)).trans ?_
    have hdoc : m.doc ∈ (p.rangeQuery set true).docs.docs :=
      NodeSet.mem_documents.2 ⟨n, hn, hrelates.within.doc_eq.symm⟩
    have hwithin : Store.isWithin (some set) m = true :=
      Store.isWithin_iff.2 ⟨n, hn, hrelates.within⟩
    rw [and_iff_right hdoc]
    exact List.mem_filter.trans ((and_iff_left hwithin).trans
      (List.mem_filter.trans (and_iff_left rfl)).symm)

/-- A probe that does not answer for a set has no answer. -/
theorem answer_of_not_covers {relation : Relation} (hrelation : p.relation = some relation)
    {set : NodeSet} (hcovers : p.coversAll s (some (.ofSet set)) = .ok false) :
    p.answer s set = .ok none := by
  rw [answer, hrelation]
  dsimp only
  rw [hcovers]
  rfl

end IndexProbe

/-! ### Predicates -/

namespace Evaluation

variable {value : Focus → Except QueryError Sequence} {p : IndexProbe} {id : ExprId}

/-- The outcome of a condition with the given values, applied to a set. -/
def keptOf (σ : Setting) (s : Store) (probe : Option (ExprId × IndexProbe))
    (value : Focus → Except QueryError Sequence) (reverse : Bool) (set : NodeSet) :
    Except QueryError Sequence :=
  σ.outcome (applyPredicate s .boolean probe (fun focus => orFail (value focus)) reverse
    (.ofSet set))

theorem keptOf_of_index {set kept : NodeSet} (h : p.answer s set = .ok (some kept))
    (reverse : Bool) : keptOf σ s (some (id, p)) value reverse set = .ok (.ofSet kept) := by
  rw [keptOf, outcome_applyPredicate fun focus => reads_orFail _]
  change (p.answer s set >>= _) = _
  rw [h]
  rfl

theorem keptOf_of_no_index {probe : Option (ExprId × IndexProbe)} {set : NodeSet}
    (h : byIndex s .boolean probe (.ofSet set) = .ok none) (reverse : Bool) :
    keptOf σ s probe value reverse set =
      σ.outcome (applyByItem (fun focus => orFail (value focus)) reverse (.ofSet set)) := by
  rw [keptOf, outcome_applyPredicate fun focus => reads_orFail _, h]
  rfl

/-- A condition that an index answers goes by the members. -/
theorem goesByMember_of_covers {relation : Relation} (hrelation : p.relation = some relation)
    (reverse : Bool) {set : NodeSet} (hcovers : p.coversAll s (some (.ofSet set)) = .ok true) :
    set.GoesByMember (fun _ => s.interrupted = false)
      (fun n => ∃ m, relation.Relates n m ∧ p.Finds s m)
      (keptOf σ s (some (id, p)) value reverse set) := by
  obtain ⟨hprobes, hkept⟩ := IndexProbe.answer_of_covers hrelation hcovers
  refine ⟨fun v hv n hn => ?_, fun hall => ?_⟩
  · rw [keptOf, outcome_applyPredicate fun focus => reads_orFail _] at hv
    obtain ⟨kept, hanswer, -⟩ := bind_eq_ok.1 hv
    exact hprobes kept hanswer
  · obtain ⟨cs, hcs, hcs'⟩ :=
      IndexProbe.coversAll_ofSet_iff.1 hcovers
    obtain ⟨n, hn⟩ := NodeSet.isEmpty_eq_false_iff.1 (IndexProbe.isEmpty_eq_false_of_covers hcs hcs')
    obtain ⟨kept, hanswer, hmem⟩ := hkept (hall n hn)
    exact ⟨kept, keptOf_of_index hanswer reverse, hmem⟩

/-- **A condition evaluated item by item goes by the members,** also where it must be told whether
an index can answer. -/
theorem goesByMember_without_index
    (hnumber : ∀ focus v, value focus = .ok v → v.number? = none) (p : IndexProbe) (reverse : Bool)
    {set : NodeSet} {b : Bool} (hcovers : p.coversAll s (some (.ofSet set)) = .ok b) :
    set.GoesByMember
      (fun n => (∃ c, s.collectionOf n.doc = .ok c) ∧
        ∃ b, truthAt value set.persistent (.node n) = .ok b)
      (fun n => truthAt value set.persistent (.node n) = .ok true)
      (keptOf σ s none value reverse set) := by
  have hcollections := IndexProbe.exists_coversAll_iff.1 ⟨b, hcovers⟩
  rw [keptOf_of_no_index rfl]
  exact (goesByMember_applyByItem hnumber reverse set).congr
    (fun n hn => (and_iff_right (hcollections n hn)).symm) fun _ _ => Iff.rfl

/-- **A condition that no index answers goes by the members,** evaluated at one after the other. -/
theorem goesByMember_of_not_covers (hnumber : ∀ focus v, value focus = .ok v → v.number? = none)
    {relation : Relation} (hrelation : p.relation = some relation) (reverse : Bool) {set : NodeSet}
    (hcovers : p.coversAll s (some (.ofSet set)) ≠ .ok true) :
    set.GoesByMember
      (fun n => (∃ c, s.collectionOf n.doc = .ok c) ∧
        ∃ b, truthAt value set.persistent (.node n) = .ok b)
      (fun n => truthAt value set.persistent (.node n) = .ok true)
      (keptOf σ s (some (id, p)) value reverse set) := by
  cases hcovered : p.coversAll s (some (.ofSet set)) with
  | error e =>
    have herror : keptOf σ s (some (id, p)) value reverse set = .error (.store e) := by
      rw [keptOf, outcome_applyPredicate fun focus => reads_orFail _]
      change (p.answer s set >>= _) = _
      rw [IndexProbe.answer, hrelation]
      dsimp only
      rw [hcovered]
      rfl
    refine ⟨fun v hv => ?_, fun hall => ?_⟩
    · rw [herror] at hv
      cases hv
    · obtain ⟨b, hb⟩ := (IndexProbe.exists_coversAll_iff (p := p)).2 fun n hn => (hall n hn).1
      rw [hcovered] at hb
      cases hb
  | ok covers =>
    cases covers with
    | true => exact absurd hcovered hcovers
    | false =>
      have hnone : byIndex s .boolean (some (id, p)) (.ofSet set) = .ok none :=
        IndexProbe.answer_of_not_covers hrelation hcovered
      have hitems := goesByMember_without_index (σ := σ) hnumber p reverse hcovered
      rw [keptOf_of_no_index rfl] at hitems
      rwa [keptOf_of_no_index hnone]

/-- **A condition that is no number keeps of a set what it keeps of its parts,** whether an index
answers it or it is evaluated item by item, provided that these two agree on each part that the
index answers for when it does not answer for the whole. -/
theorem sameKept_keptOf (hnumber : ∀ focus v, value focus = .ok v → v.number? = none)
    {probe : Option (ExprId × IndexProbe)} {whole : NodeSet} {parts : List NodeSet}
    (hdivided : whole.IsDividedInto parts) (reverse reverse' : Bool)
    (hparts : ∀ id p, probe = some (id, p) → ∀ part ∈ parts,
      p.coversAll s (some (.ofSet part)) = .ok true →
        p.coversAll s (some (.ofSet whole)) = .ok true ∨
          keptOf σ s probe value reverse' part = keptOf σ s none value reverse' part) :
    NodeSet.SameKept (keptOf σ s probe value reverse whole)
      (parts.mapM (keptOf σ s probe value reverse')) := by
  -- Where no index can answer, all sets are gone through item by item.
  have hitems : (∀ set, byIndex s .boolean probe (.ofSet set) = .ok none) →
      NodeSet.SameKept (keptOf σ s probe value reverse whole)
        (parts.mapM (keptOf σ s probe value reverse')) := by
    intro hnone
    have hgoes : ∀ (reverse : Bool) (set : NodeSet),
        set.GoesByMember (fun n => ∃ b, truthAt value set.persistent (.node n) = .ok b)
          (fun n => truthAt value set.persistent (.node n) = .ok true)
          (keptOf σ s probe value reverse set) := by
      intro reverse set
      rw [keptOf_of_no_index (hnone set)]
      exact goesByMember_applyByItem hnumber reverse set
    refine (hgoes reverse whole).sameKept hdivided fun part hpart => ?_
    rw [← hdivided.kind part hpart]
    exact hgoes reverse' part
  rcases probe with _ | ⟨id, p⟩
  · exact hitems fun _ => rfl
  cases hrelation : p.relation with
  | none => exact hitems fun set => by simp [byIndex, Sequence.ofSet, IndexProbe.answer, hrelation]
  | some relation =>
    by_cases hcovers : p.coversAll s (some (.ofSet whole)) = .ok true
    · refine (goesByMember_of_covers hrelation reverse hcovers).sameKept hdivided
        fun part hpart => ?_
      by_cases hpartCovers : p.coversAll s (some (.ofSet part)) = .ok true
      · exact goesByMember_of_covers hrelation reverse' hpartCovers
      · -- A part that the probe does not answer for has no members.
        have hnone : ∀ n ∈ part, False := fun n hn => hpartCovers <|
          IndexProbe.coversAll_of_subset hcovers
            (fun m hm => (hdivided.mem_iff m).2 ⟨part, hpart, hm⟩) hn
        exact (goesByMember_of_not_covers hnumber hrelation reverse' hpartCovers).congr
          (fun n hn => (hnone n hn).elim) fun n hn => (hnone n hn).elim
    · refine (goesByMember_of_not_covers hnumber hrelation reverse hcovers).sameKept hdivided
        fun part hpart => ?_
      rw [← hdivided.kind part hpart]
      by_cases hpartCovers : p.coversAll s (some (.ofSet part)) = .ok true
      · rw [(hparts id p rfl part hpart hpartCovers).resolve_left hcovers]
        exact goesByMember_without_index hnumber p reverse' hpartCovers
      · exact goesByMember_of_not_covers hnumber hrelation reverse' hpartCovers

end Evaluation

end IndexedXml
