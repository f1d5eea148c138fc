/-
# What a verdict means

Whether an expression is narrowed by indexes hangs on one question for each of its conditions:
does the index answer for every node of the sequence.  The answer is put together in stages.
The collections are gone through until the type of the index is settled, with exits on the way
and with collections passed over; then the documents are gone through once more, and in the end
sizes are compared.

All of that comes to one sentence (`IndexProbe.CoversWhole`): the sequence is a node set with
members, and the collections of their documents, none of them of the database itself, all declare
an index of one type that the probe fits.  A probe that covers a sequence has all of it; one that
does not has nothing, or what lies in some of the documents and not in all; and a verdict is
positive just when there are conditions and each covers the whole sequence
(`verdict_means_coverage`).  The policy for missing indexes changes what is had of a sequence
that is not covered, but nothing of this.
-/

import IndexedXml.Proofs.Query.Coverage
import IndexedXml.Proofs.Store.Nodes
import IndexedXml.Proofs.Store.Runs

namespace IndexedXml

open Store

/-- **A sequence is on documents of a store:** every document that it refers to is there. -/
def Store.HasDocuments (s : Store) (sequence : Sequence) : Prop :=
  ∀ doc ∈ sequence.documents.docs, ∃ d, s.document? doc = some d

/-- The collections of documents that are there are known. -/
theorem Store.Reachable.exists_collections {s : Store} (hs : s.Reachable) {shared : SharedSet}
    (hlive : s.HasDocuments (.nodes shared)) :
    ∃ cs, shared.set.documents.docs.mapM s.collectionOf = .ok cs := by
  refine exists_mapM_eq_ok fun doc hdoc => ?_
  obtain ⟨d, hd⟩ := hlive doc hdoc
  obtain ⟨c, _, hc⟩ := hs.isIndexed.exists_collection hd
  exact ⟨c, hc⟩

/-- **What is had of a set that is not covered:** what lies in some of its documents, and that is
not all. -/
structure NodeSet.IsSmallerPart (part set : NodeSet) : Prop where
  /-- Documents are in it as a whole or not at all. -/
  of_documents : ∃ docs : List DocId, part = set.filter fun n => docs.elem n.doc
  size_lt : part.size < set.size

namespace IndexProbe

variable {p : IndexProbe} {s : Store} {working : Option Sequence}

/-- **The index of a probe covers a whole sequence:** it is a node set with members, and for one
type that the probe fits, the document of each member lies in a collection that declares the name
of the probe with that type and is not one of the database itself. -/
def CoversWhole (p : IndexProbe) (s : Store) (working : Option Sequence) : Prop :=
  ∃ set, working.bind Sequence.set? = some set ∧ (∃ n, n ∈ set) ∧
    ∃ type, p.fits type = true ∧ ∀ n ∈ set, ∃ c, s.collectionOf n.doc = .ok c ∧
      c.isSystem = false ∧ c.rangeIndex? p.name = some type

/-- **A probe has all of a sequence.** -/
def HasWhole (p : IndexProbe) (s : Store) (working : Option Sequence) : Prop :=
  ∃ set, working.bind Sequence.set? = some set ∧ p.coveredSubset s working = .ok (some set)

/-- **A probe has less than a sequence:** nothing, or whole documents of it and not all. -/
def HasLess (p : IndexProbe) (s : Store) (working : Option Sequence) : Prop :=
  p.coveredSubset s working = .ok none ∨
    ∃ set part, working.bind Sequence.set? = some set ∧ part.IsSmallerPart set ∧
      p.coveredSubset s working = .ok (some part)

/-- What is less is not all. -/
theorem HasLess.not_hasWhole (h : p.HasLess s working) : ¬ p.HasWhole s working := by
  rintro ⟨all, hall, hwhole⟩
  rcases h with hnone | ⟨set, part, hset, hpart, hsome⟩
  · cases hnone.symm.trans hwhole
  · obtain rfl : set = all := Option.some.inj (hset.symm.trans hall)
    obtain rfl : part = set := Option.some.inj (Except.ok.inj (hsome.symm.trans hwhole))
    exact absurd hpart.size_lt (lt_irrefl _)

/-- Only a node set is covered as a whole. -/
theorem not_coversWhole_of_not_nodes (h : ∀ shared, working ≠ some (.nodes shared)) :
    ¬ p.CoversWhole s working := by
  rintro ⟨set, hset, _⟩
  rcases working with _ | ⟨shared⟩ | list
  · cases hset
  · exact h shared rfl
  · cases hset

/-- A sequence is covered as a whole when the collections of its documents all are. -/
theorem coversWhole_iff_covers {shared : SharedSet} {cs : List Collection}
    (hcs : shared.set.documents.docs.mapM s.collectionOf = .ok cs) :
    p.CoversWhole s (some (.nodes shared)) ↔ p.covers cs = true := by
  rw [covers_iff]
  constructor
  · rintro ⟨set, hset, ⟨n, hn⟩, type, hfits, hdeclared⟩
    obtain rfl : shared.set = set := Option.some.inj hset
    refine ⟨?_, type, hfits, fun c hc => ?_⟩
    · obtain ⟨c, hc, _⟩ := exists_of_mapM hcs (NodeSet.mem_documents.2 ⟨n, hn, rfl⟩)
      exact List.ne_nil_of_mem hc
    · obtain ⟨doc, hdoc, hc⟩ := (mem_of_mapM hcs).1 hc
      obtain ⟨n, hn, rfl⟩ := NodeSet.mem_documents.1 hdoc
      obtain ⟨c', hc', hsystem, htype⟩ := hdeclared n hn
      obtain rfl : c = c' := Except.ok.inj (hc.symm.trans hc')
      exact declares_iff.2 ⟨hsystem, htype⟩
  · rintro ⟨hne, type, hfits, hdeclares⟩
    refine ⟨shared.set, rfl, ?_, type, hfits, fun n hn => ?_⟩
    · obtain ⟨c, hc⟩ := List.exists_mem_of_ne_nil cs hne
      obtain ⟨doc, hdoc, _⟩ := (mem_of_mapM hcs).1 hc
      obtain ⟨n, hn, _⟩ := NodeSet.mem_documents.1 hdoc
      exact ⟨n, hn⟩
    · obtain ⟨c, hmem, hc⟩ := exists_of_mapM hcs (NodeSet.mem_documents.2 ⟨n, hn, rfl⟩)
      exact ⟨c, hc, declares_iff.1 (hdeclares c hmem)⟩

variable (hs : s.Reachable) (hlive : ∀ sequence ∈ working, s.HasDocuments sequence)

include hs hlive

/-- **A probe has all of what it covers, and less of anything else.** -/
theorem coversWhole_and_hasWhole_or (p : IndexProbe) :
    (p.CoversWhole s working ∧ p.HasWhole s working) ∨
      (¬ p.CoversWhole s working ∧ p.HasLess s working) := by
  by_cases hnodes : ∃ shared, working = some (.nodes shared)
  · obtain ⟨shared, rfl⟩ := hnodes
    obtain ⟨cs, hcs⟩ := hs.exists_collections (hlive _ rfl)
    rw [coversWhole_iff_covers hcs]
    rcases coveredSubset_eq p hcs with ⟨hcovers, hsubset⟩ |
      ⟨hcovers, hsubset | ⟨docs, hmissing, hsubset⟩⟩
    · exact .inl ⟨hcovers, shared.set, rfl, hsubset⟩
    · exact .inr ⟨Bool.eq_false_iff.1 hcovers, .inl hsubset⟩
    · have hpart : (shared.set.filter fun n => docs.elem n.doc).IsSmallerPart shared.set :=
        ⟨⟨docs, rfl⟩, size_filter_documents_lt hmissing⟩
      exact .inr ⟨Bool.eq_false_iff.1 hcovers, .inr ⟨shared.set, _, rfl, hpart, hsubset⟩⟩
  · rw [not_exists] at hnodes
    refine .inr ⟨not_coversWhole_of_not_nodes hnodes, .inl ?_⟩
    rcases working with _ | ⟨shared⟩ | list
    · rfl
    · exact absurd rfl (hnodes shared)
    · rfl

/-- Comparing sizes tells whether a probe covers a sequence. -/
theorem coversAll_eq_ok (p : IndexProbe) :
    ∃ covered, p.coversAll s working = .ok covered ∧
      (covered = true ↔ p.CoversWhole s working) := by
  by_cases hnodes : ∃ shared, working = some (.nodes shared)
  · obtain ⟨shared, rfl⟩ := hnodes
    obtain ⟨cs, hcs⟩ := hs.exists_collections (hlive _ rfl)
    refine ⟨p.covers cs, ?_, (coversWhole_iff_covers hcs).symm⟩
    rw [coversAll_nodes, hcs]
    rfl
  · rw [not_exists] at hnodes
    exact ⟨false, coversAll_of_not_nodes p s hnodes,
      iff_of_false Bool.false_ne_true (not_coversWhole_of_not_nodes hnodes)⟩

end IndexProbe

section Verdict

variable {s : Store} {working : Option Sequence} (hs : s.Reachable)
  (hlive : ∀ sequence ∈ working, s.HasDocuments sequence)

include hs hlive

/-- **A verdict goes through the conditions** and is positive when none of them is missed. -/
theorem verdict_eq_ok_iff (os : List Optimizable) :
    ∃ positive, verdict s working os = .ok positive ∧
      (positive = true ↔ os ≠ [] ∧ ∀ o ∈ os, o.probe.CoversWhole s working) := by
  induction os with
  | nil => exact ⟨false, rfl, by simp⟩
  | cons o rest ih =>
    obtain ⟨covered, hcovered, hiff⟩ := o.probe.coversAll_eq_ok hs hlive
    cases rest with
    | nil => exact ⟨covered, hcovered, by simp [hiff]⟩
    | cons next later =>
      obtain ⟨positive, hpositive, hrest⟩ := ih
      unfold verdict
      rw [hcovered, ok_bind]
      cases covered with
      | false =>
        have hmissed : ¬ o.probe.CoversWhole s working := fun h => Bool.false_ne_true (hiff.2 h)
        exact ⟨false, rfl, by simp [hmissed]⟩
      | true =>
        have hfirst : o.probe.CoversWhole s working := hiff.1 rfl
        refine ⟨positive, hpositive, hrest.trans ?_⟩
        rw [List.forall_mem_cons (l := next :: later)]
        simp [hfirst]

/-- **The verdict of the optimizer means that indexes cover everything,** whatever the policy.  A
probe has all of a sequence exactly when it covers the sequence, and otherwise nothing or a
smaller set of whole documents.  A verdict is positive exactly when there are conditions and each
of their probes covers the whole sequence. -/
theorem verdict_means_coverage (p : IndexProbe) (os : List Optimizable) :
    (p.HasWhole s working ↔ p.CoversWhole s working) ∧
      (¬ p.CoversWhole s working → p.HasLess s working) ∧
      ∃ positive, verdict s working os = .ok positive ∧
        (positive = true ↔ os ≠ [] ∧ ∀ o ∈ os, o.probe.CoversWhole s working) := by
  refine ⟨?_, fun hnot => ?_, verdict_eq_ok_iff hs hlive os⟩
  · rcases p.coversWhole_and_hasWhole_or hs hlive with ⟨hcovers, hwhole⟩ | ⟨hnot, hless⟩
    · exact iff_of_true hwhole hcovers
    · exact iff_of_false hless.not_hasWhole hnot
  · rcases p.coversWhole_and_hasWhole_or hs hlive with ⟨hcovers, _⟩ | ⟨_, hless⟩
    · exact absurd hcovers hnot
    · exact hless

end Verdict

/-- Two collections declare titles, both as texts, and one of them declares years besides.  Any
index that is found is to be used. -/
def shelvesStore : Store :=
  .run .empty
    [.setConfiguration { Configuration.standard with enforceIndexUse := .always },
      .configureCollection "/db/books"
        [⟨⟨.element, .simple "title"⟩, .string⟩, ⟨⟨.element, .simple "year"⟩, .integer⟩],
      .configureCollection "/db/other" [⟨⟨.element, .simple "title"⟩, .string⟩],
      .storeXml "/db/books" "a.xml" "<book><title>Dune</title><year>1965</year></book>",
      .storeXml "/db/other" "b.xml" "<book><title>Momo</title></book>"]

/-- The books of both collections. -/
def shelvedBooks : Sequence := .ofSet (.ofList [⟨0, ⟨[1]⟩⟩, ⟨1, ⟨[1]⟩⟩] true)

/-- The condition that a child has a value. -/
def childCondition (id : ExprId) (child : String) (key : AtomicValue) : Optimizable :=
  ⟨id, ⟨⟨.element, .simple child⟩, .child, false, true, .compare .eq, key, some .parentChild⟩, child⟩

/-- Titles are covered and years are not, of which there is one of the two books. -/
theorem verdict_means_coverage_shelves :
    shelvesStore.Reachable ∧
      (∀ sequence ∈ some shelvedBooks, shelvesStore.HasDocuments sequence) ∧
      verdict shelvesStore (some shelvedBooks) [childCondition 1 "title" (.string "Dune")] = .ok true ∧
      (childCondition 1 "title" (.string "Dune")).probe.CoversWhole shelvesStore (some shelvedBooks) ∧
      (childCondition 2 "year" (.integer 1965)).probe.coveredSubset shelvesStore (some shelvedBooks) =
        .ok (some (.ofList [⟨0, ⟨[1]⟩⟩] true)) ∧
      ¬ (childCondition 2 "year" (.integer 1965)).probe.CoversWhole shelvesStore
        (some shelvedBooks) := by
  have hreachable : shelvesStore.Reachable := reachable_run _
  have hlive : ∀ sequence ∈ some shelvedBooks, shelvesStore.HasDocuments sequence := by
    intro sequence hsequence doc hdoc
    obtain rfl : shelvedBooks = sequence := Option.some.inj hsequence
    have hall : ∀ doc ∈ shelvedBooks.documents.docs, (shelvesStore.document? doc).isSome = true := by
      decide +kernel
    exact Option.isSome_iff_exists.1 (hall doc hdoc)
  have htitle : verdict shelvesStore (some shelvedBooks)
      [childCondition 1 "title" (.string "Dune")] = .ok true := by
    decide +kernel
  have hyear : (childCondition 2 "year" (.integer 1965)).probe.coveredSubset shelvesStore
      (some shelvedBooks) = .ok (some (.ofList [⟨0, ⟨[1]⟩⟩] true)) := by
    decide +kernel
  obtain ⟨hwhole, _, positive, hpositive, hiff⟩ := verdict_means_coverage hreachable hlive
    (childCondition 2 "year" (.integer 1965)).probe [childCondition 1 "title" (.string "Dune")]
  obtain rfl : true = positive := Except.ok.inj (htitle.symm.trans hpositive)
  refine ⟨hreachable, hlive, htitle, (hiff.1 rfl).2 _ List.mem_cons_self, hyear, fun hcovers => ?_⟩
  obtain ⟨set, hset, hhas⟩ := hwhole.2 hcovers
  obtain rfl : _ = set := Option.some.inj hset
  have hsame := Option.some.inj (Except.ok.inj (hyear.symm.trans hhas))
  exact absurd hsame (by decide +kernel)

end IndexedXml
