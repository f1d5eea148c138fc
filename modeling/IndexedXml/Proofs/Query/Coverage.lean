/-
# When an index covers a set

Callers ask a probe for the part of a set that its index covers, and use the index only
when that part is the whole set.  Whether it is the whole set is simple to say
(`IndexProbe.covers`): there is a document, and one fitting type that every collection
of a document declares, none of them a collection of the database itself.

The policy decides what is given for a set that is covered only in part
(`Store.indexTypeFor_ne_iff`), but not whether a set is covered
(`IndexProbe.coversAll_nodes`).
-/

import IndexedXml.Proofs.Node.Members
import IndexedXml.Proofs.Results
import IndexedXml.Proofs.Store.Reachable
import IndexedXml.Query.Narrowing

namespace IndexedXml

open Store

theorem Evaluation.ofStore_ok {α : Type} (a : α) :
    Evaluation.ofStore (.ok a) = (pure a : Evaluation α) := rfl

/-! ### The type that collections have in common -/

theorem declares_iff {name : IndexedName} {type : IndexType} {c : Collection} :
    declares name type c = true ↔ c.isSystem = false ∧ c.rangeIndex? name = some type := by
  simp [declares]

/-- Collections that all declare the settled type leave it settled. -/
theorem commonIndexType_of_settled (always : Bool) {name : IndexedName} {type : IndexType}
    {cs : List Collection} (h : ∀ c ∈ cs, declares name type c = true) :
    commonIndexType always name (some type) cs = some type := by
  induction cs with
  | nil => rfl
  | cons c rest ih =>
    obtain ⟨hsystem, htype⟩ := declares_iff.1 (h c List.mem_cons_self)
    have hrest := ih fun c hc => h c (List.mem_cons_of_mem _ hc)
    unfold commonIndexType
    simp only [hsystem, htype]
    exact hrest

/-- **What all collections declare is what they have in common,** whatever the policy. -/
theorem commonIndexType_of_declares (always : Bool) {name : IndexedName} {type : IndexType}
    {cs : List Collection} (hne : cs ≠ []) (h : ∀ c ∈ cs, declares name type c = true) :
    commonIndexType always name none cs = some type := by
  cases cs with
  | nil => exact absurd rfl hne
  | cons c rest =>
    obtain ⟨hsystem, htype⟩ := declares_iff.1 (h c List.mem_cons_self)
    have hrest := commonIndexType_of_settled always fun c hc => h c (List.mem_cons_of_mem _ hc)
    unfold commonIndexType
    simp only [hsystem, htype, hrest]
    cases always <;> rfl

/-- Going through distinct collections only ever finds given ones. -/
theorem mem_distinctCollections {cs : List Collection} {c : Collection}
    (h : c ∈ distinctCollections cs) : c ∈ cs := by
  have hfold : ∀ (cs seen : List Collection),
      c ∈ cs.foldl (fun seen c => if seen.any fun other => other.uri == c.uri then seen
        else seen ++ [c]) seen → c ∈ seen ∨ c ∈ cs := by
    intro cs
    induction cs with
    | nil => exact fun _ h => .inl h
    | cons first rest ih =>
      intro seen h
      rw [List.foldl_cons] at h
      rcases ih _ h with h | h
      · split_ifs at h
        · exact .inl h
        · rcases List.mem_append.1 h with h | h
          · exact .inl h
          · exact .inr (List.mem_singleton.1 h ▸ List.mem_cons_self)
      · exact .inr (List.mem_cons_of_mem _ h)
  exact (hfold cs [] h).resolve_left List.not_mem_nil

theorem distinctCollections_ne_nil {cs : List Collection} (h : cs ≠ []) :
    distinctCollections cs ≠ [] := by
  have hgrow : ∀ (cs seen : List Collection), seen ≠ [] →
      cs.foldl (fun seen c => if seen.any fun other => other.uri == c.uri then seen
        else seen ++ [c]) seen ≠ [] := by
    intro cs
    induction cs with
    | nil => exact fun _ h => h
    | cons first rest ih =>
      intro seen hseen
      rw [List.foldl_cons]
      refine ih _ ?_
      split_ifs
      · exact hseen
      · simp
  cases cs with
  | nil => exact absurd rfl h
  | cons c rest => exact hgrow rest [c] (List.cons_ne_nil _ _)

/-! ### Covering a whole set -/

namespace IndexProbe

/-- **Whether the index of a probe covers documents of the given collections:** one
fitting type is declared by them all. -/
def covers (p : IndexProbe) (cs : List Collection) : Bool :=
  !cs.isEmpty && IndexType.all.any fun type => p.fits type && cs.all (declares p.name type)

theorem covers_iff {p : IndexProbe} {cs : List Collection} :
    p.covers cs = true ↔ cs ≠ [] ∧
      ∃ type, p.fits type = true ∧ ∀ c ∈ cs, declares p.name type c = true := by
  have hall : ∀ type : IndexType, type ∈ IndexType.all := by
    intro type
    cases type <;> decide
  unfold covers
  rw [Bool.and_eq_true, List.any_eq_true]
  refine and_congr (by simp) ⟨?_, ?_⟩
  · rintro ⟨type, _, h⟩
    rw [Bool.and_eq_true, List.all_eq_true] at h
    exact ⟨type, h⟩
  · rintro ⟨type, h⟩
    exact ⟨type, hall type, by rwa [Bool.and_eq_true, List.all_eq_true]⟩

/-- What lies in some documents is smaller than the set, when the set has others. -/
theorem size_filter_documents_lt {set : NodeSet} {docs : List DocId}
    (hlt : ∃ doc ∈ set.documents.docs, doc ∉ docs) :
    (set.filter fun n => docs.elem n.doc).size < set.size := by
  obtain ⟨doc, hdoc, hnot⟩ := hlt
  obtain ⟨n, hn, rfl⟩ := NodeSet.mem_documents.1 hdoc
  change (set.nodes.filter fun n => docs.elem n.doc).length < set.nodes.length
  rw [List.length_filter_lt_length_iff_exists]
  exact ⟨n, hn, by simpa using hnot⟩

/-- **What a probe covers of a set whose collections are known,** once the type is settled: the
set, when all of them declare it, or else what lies in some of its documents. -/
theorem coveredBy_eq {p : IndexProbe} {s : Store} {set : NodeSet} {cs : List Collection}
    (hcs : set.documents.docs.mapM s.collectionOf = .ok cs) (type : IndexType) :
    ((∀ c ∈ cs, declares p.name type c = true) ∧ p.coveredBy s set type = .ok set) ∨
      (¬ ∀ c ∈ cs, declares p.name type c = true) ∧
        ∃ docs : List DocId, (∃ doc ∈ set.documents.docs, doc ∉ docs) ∧
          p.coveredBy s set type = .ok (set.filter fun n => docs.elem n.doc) := by
  set passed : DocId → Bool := fun doc =>
    match s.collectionOf doc with
    | .ok c => declares p.name type c
    | .error _ => false with hpassed
  have htest : ∀ doc ∈ set.documents.docs,
      (do pure (declares p.name type (← s.collectionOf doc)) : Except StoreError Bool) =
        .ok (passed doc) := by
    intro doc hdoc
    obtain ⟨c, _, hc⟩ := exists_of_mapM hcs hdoc
    rw [hpassed]
    simp only [hc]
    rfl
  have hall : (∀ c ∈ cs, declares p.name type c = true) ↔
      ∀ doc ∈ set.documents.docs, passed doc = true := by
    constructor
    · intro h doc hdoc
      obtain ⟨c, hc, hdoc⟩ := exists_of_mapM hcs hdoc
      rw [hpassed]
      simpa only [hdoc] using h c hc
    · intro h c hc
      obtain ⟨doc, hdoc, hc⟩ := (mem_of_mapM hcs).1 hc
      have := h doc hdoc
      rw [hpassed] at this
      simpa only [hc] using this
  unfold coveredBy
  dsimp only
  rw [filterPassing_eq_ok htest, ok_bind, hall]
  by_cases hlen : (set.documents.docs.filter passed).length = set.documents.size
  · rw [if_pos hlen]
    exact .inl ⟨List.length_filter_eq_length_iff.1 hlen, rfl⟩
  · rw [if_neg hlen]
    have hmissing : ¬ ∀ doc ∈ set.documents.docs, passed doc = true :=
      fun h => hlen (List.length_filter_eq_length_iff.2 h)
    refine .inr ⟨hmissing, _, ?_, rfl⟩
    push Not at hmissing
    obtain ⟨doc, hdoc, hnot⟩ := hmissing
    exact ⟨doc, hdoc, fun hmem => hnot (List.mem_filter.1 hmem).2⟩

/-- The type of the index on a name for a set whose collections are known. -/
theorem indexTypeFor_nodes {s : Store} {shared : SharedSet} {cs : List Collection}
    (hcs : shared.set.documents.docs.mapM s.collectionOf = .ok cs) (name : IndexedName) :
    s.indexTypeFor (.nodes shared) name =
      .ok (commonIndexType (s.configuration.enforceIndexUse == IndexPolicy.always) name none
        (distinctCollections cs)) := by
  have hdistinct : s.collectionsOf (.nodes shared) = .ok (distinctCollections cs) := by
    unfold collectionsOf
    change (shared.set.documents.docs.mapM s.collectionOf >>= _) = _
    rw [hcs]
    rfl
  unfold indexTypeFor
  rw [hdistinct]
  rfl

theorem coveredSubset_nodes (p : IndexProbe) (s : Store) (shared : SharedSet) :
    p.coveredSubset s (some (.nodes shared)) =
      (s.indexTypeFor (.nodes shared) p.name >>= fun type =>
        match type with
        | none => .ok none
        | some type =>
          if p.fits type then (p.coveredBy s shared.set type).map some else .ok none) := rfl

/-- **What a probe has of a set whose collections are known:** the set itself, when its index
covers it, or else nothing, or what lies in some of its documents and not in all. -/
theorem coveredSubset_eq (p : IndexProbe) {s : Store} {shared : SharedSet} {cs : List Collection}
    (hcs : shared.set.documents.docs.mapM s.collectionOf = .ok cs) :
    (p.covers cs = true ∧ p.coveredSubset s (some (.nodes shared)) = .ok (some shared.set)) ∨
      p.covers cs = false ∧
        (p.coveredSubset s (some (.nodes shared)) = .ok none ∨
          ∃ docs : List DocId, (∃ doc ∈ shared.set.documents.docs, doc ∉ docs) ∧
            p.coveredSubset s (some (.nodes shared)) =
              .ok (some (shared.set.filter fun n => docs.elem n.doc))) := by
  rw [coveredSubset_nodes, indexTypeFor_nodes hcs, ok_bind]
  -- What all collections declare is the type that is settled.
  have hsettled : ∀ {type}, cs ≠ [] → (∀ c ∈ cs, declares p.name type c = true) →
      commonIndexType (s.configuration.enforceIndexUse == IndexPolicy.always) p.name none
        (distinctCollections cs) = some type :=
    fun hne h => commonIndexType_of_declares _ (distinctCollections_ne_nil hne)
      fun c hc => h c (mem_distinctCollections hc)
  cases hcommon : commonIndexType (s.configuration.enforceIndexUse == IndexPolicy.always) p.name
      none (distinctCollections cs) with
  | none =>
    refine .inr ⟨?_, .inl rfl⟩
    rw [Bool.eq_false_iff, Ne, covers_iff]
    rintro ⟨hne, type, _, h⟩
    rw [hsettled hne h] at hcommon
    cases hcommon
  | some type =>
    have hne : cs ≠ [] := by
      rintro rfl
      cases hcommon
    have hcovers : p.covers cs = true ↔
        p.fits type = true ∧ ∀ c ∈ cs, declares p.name type c = true := by
      rw [covers_iff]
      constructor
      · rintro ⟨_, type', hfits, h⟩
        obtain rfl := Option.some.inj ((hsettled hne h).symm.trans hcommon)
        exact ⟨hfits, h⟩
      · rintro ⟨hfits, h⟩
        exact ⟨hne, type, hfits, h⟩
    dsimp only
    by_cases hfits : p.fits type = true
    · rw [if_pos hfits]
      rcases coveredBy_eq (p := p) hcs type with ⟨hall, hcovered⟩ | ⟨hnot, docs, hmissing, hcovered⟩
      · exact .inl ⟨hcovers.2 ⟨hfits, hall⟩, by rw [hcovered]; rfl⟩
      · refine .inr ⟨?_, .inr ⟨docs, hmissing, by rw [hcovered]; rfl⟩⟩
        rw [Bool.eq_false_iff, Ne, hcovers]
        exact fun h => hnot h.2
    · refine .inr ⟨?_, .inl (if_neg hfits)⟩
      rw [Bool.eq_false_iff, Ne, hcovers]
      exact fun h => hfits h.1

/-- **Whether a probe answers for a whole set** depends on the collections of its
documents, and not on the policy. -/
theorem coversAll_nodes (p : IndexProbe) (s : Store) (shared : SharedSet) :
    p.coversAll s (some (.nodes shared)) =
      (shared.set.documents.docs.mapM s.collectionOf).map p.covers := by
  unfold coversAll
  cases hcs : shared.set.documents.docs.mapM s.collectionOf with
  | error e =>
    have htype : s.indexTypeFor (.nodes shared) p.name = .error e := by
      unfold indexTypeFor collectionsOf
      change ((shared.set.documents.docs.mapM s.collectionOf >>= _) >>= _) = _
      rw [hcs]
      rfl
    rw [coveredSubset_nodes, htype]
    rfl
  | ok cs =>
    rcases coveredSubset_eq p hcs with ⟨hcovers, hsubset⟩ |
      ⟨hcovers, hsubset | ⟨docs, hmissing, hsubset⟩⟩
    · rw [hsubset, Except.map, hcovers]
      change Except.ok (some shared.set.size == some shared.set.size) = _
      rw [beq_self_eq_true]
    · rw [hsubset, Except.map, hcovers]
      rfl
    · rw [hsubset, Except.map, hcovers]
      change Except.ok (some shared.set.size == some _) = _
      rw [beq_false_of_ne]
      exact fun h => (size_filter_documents_lt hmissing).ne' (Option.some.inj h)

/-- A list of items is never covered, and neither is an absent sequence. -/
theorem coversAll_of_not_nodes (p : IndexProbe) (s : Store) {sequence : Option Sequence}
    (h : ∀ shared, sequence ≠ some (.nodes shared)) : p.coversAll s sequence = .ok false := by
  rcases sequence with _ | ⟨shared⟩ | list
  · rfl
  · exact absurd rfl (h shared)
  · rfl

/-- **What it takes for a set to be covered.** -/
theorem coversAll_eq_true_iff {p : IndexProbe} {s : Store} {shared : SharedSet} :
    p.coversAll s (some (.nodes shared)) = .ok true ↔
      ∃ cs, shared.set.documents.docs.mapM s.collectionOf = .ok cs ∧ p.covers cs = true := by
  rw [coversAll_nodes, map_eq_ok]

/-- What is covered is not empty. -/
theorem isEmpty_eq_false_of_covers {p : IndexProbe} {s : Store} {set : NodeSet}
    {cs : List Collection} (hcs : set.documents.docs.mapM s.collectionOf = .ok cs)
    (h : p.covers cs = true) : set.isEmpty = false := by
  obtain ⟨hne, _⟩ := covers_iff.1 h
  obtain ⟨c, hc⟩ := List.exists_mem_of_ne_nil cs hne
  obtain ⟨doc, hdoc, _⟩ := (mem_of_mapM hcs).1 hc
  obtain ⟨n, hn, _⟩ := NodeSet.mem_documents.1 hdoc
  exact NodeSet.isEmpty_eq_false_iff.2 ⟨n, hn⟩

/-- What a lookup within some candidates qualifies of them. -/
def qualified (relation : Relation) (candidates hits : NodeSet) : NodeSet :=
  match relation with
  | .identity => candidates.intersect hits
  | .parentChild => hits.selectParentChild candidates .ancestor
  | .ancestor includeSelf => hits.selectAncestorDescendant candidates .ancestor includeSelf

/-- **A probe selects when its hits say what they qualify and it answers for all
candidates.** -/
theorem select_eq (p : IndexProbe) (s : Store) (candidates : NodeSet) :
    p.select s candidates =
      match p.relation with
      | none => pure none
      | some relation => (do
        let covered ← Evaluation.ofStore (p.coversAll s (some (.ofSet candidates)))
        if covered then
          let hits ← Evaluation.lookup .range (s.findByValue (p.rangeQuery candidates true))
          pure (some (qualified relation candidates hits))
        else pure none) := by
  unfold select
  cases p.relation with
  | none => rfl
  | some relation =>
    dsimp only
    cases hsub : p.coveredSubset s (some (.ofSet candidates)) with
    | error e =>
      unfold coversAll
      rw [hsub]
      rfl
    | ok sub =>
      cases sub with
      | none =>
        unfold coversAll
        rw [hsub]
        rfl
      | some covered =>
        have hall : p.coversAll s (some (.ofSet candidates)) =
            .ok (some candidates.size == some covered.size) := by
          unfold coversAll
          rw [hsub]
          rfl
        rw [hall, Evaluation.ofStore_ok, Evaluation.ofStore_ok, pure_bind, pure_bind]
        dsimp only
        by_cases hsize : covered.size = candidates.size
        · have hnonempty : candidates.isEmpty = false := by
            rw [hsize, beq_self_eq_true] at hall
            obtain ⟨cs, hcs, hcovers⟩ := coversAll_eq_true_iff.1 hall
            exact isEmpty_eq_false_of_covers hcs hcovers
          rw [if_pos ⟨hsize, hnonempty⟩, hsize, if_pos (by simp)]
          cases relation <;> rfl
        · rw [if_neg fun h => hsize h.1, if_neg (by simpa using Ne.symm hsize)]

end IndexProbe

/-- **The verdict asks no more of a store** than which sequences the probes answer for. -/
theorem verdict_congr {s t : Store} {working : Option Sequence} {optimizables : List Optimizable}
    (h : ∀ p : IndexProbe, ∀ sequence, p.coversAll s sequence = p.coversAll t sequence) :
    verdict s working optimizables = verdict t working optimizables := by
  induction optimizables with
  | nil => rfl
  | cons o rest ih =>
    cases rest with
    | nil => exact h o.probe working
    | cons next later =>
      unfold verdict
      rw [h, ih]

end IndexedXml
