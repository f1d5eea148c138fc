/-
# Numbers by index

A comparison with a number takes the text of a node as a double.  An index of doubles has taken it
so before, and it finds just the nodes of which the comparison holds.  An index of integers has a
key for the text of an integer only, a text such as `1.5` being skipped; of the nodes that it has,
it finds those of which the comparison holds (`Store.numbers_by_index`).
-/

import IndexedXml.Proofs.Node.Narrowing
import IndexedXml.Proofs.Query.Covered

namespace IndexedXml

open Evaluation Setting

/-! ### Numbers and their keys -/

namespace IndexType

variable {type : IndexType} {key : AtomicValue}

/-- Only a numeric type has a key for a number. -/
theorem isNumeric_of_key (hkey : key.isNumeric = true) (h : (type.keyOfValue? key).isSome = true) :
    type.isNumeric = true := by
  cases type with
  | string =>
    cases key with
    | integer _ | double _ => cases h
    | _ => cases hkey
  | integer => rfl
  | double => rfl

/-- A text with a key of a numeric type compares with every number. -/
theorem exists_related (h : type.isNumeric = true) (hkey : key.isNumeric = true) {text : String}
    (htext : (type.keyOfText? text).isSome = true) (op : ComparisonOp) :
    ∃ b, AtomicValue.related op (.untyped text) key = .ok b := by
  have hparse : ∃ x, Double.parse? text = some x := by
    cases type with
    | string => cases h
    | integer =>
      obtain ⟨i, hi⟩ := Option.isSome_iff_exists.1 ((Option.isSome_map ..).symm.trans htext)
      obtain ⟨x, hx, _⟩ := Double.parse?_of_integer? hi
      exact ⟨x, hx⟩
    | double => exact Option.isSome_iff_exists.1 ((Option.isSome_map ..).symm.trans htext)
  obtain ⟨x, hx⟩ := hparse
  rw [AtomicValue.related_number hkey, AtomicValue.castDouble_eq_ok.2 hx]
  exact ⟨_, rfl⟩

/-- **Of the texts that compare with a number a numeric type skips only those that an index of
integers skips.** -/
theorem isSome_keyOfText?_iff (h : type.isNumeric = true) (hkey : key.isNumeric = true)
    {op : ComparisonOp} {text : String} {b : Bool}
    (hb : AtomicValue.related op (.untyped text) key = .ok b) :
    (type.keyOfText? text).isSome = true ↔
      (type = .integer → (Text.integer? text).isSome = true) := by
  cases type with
  | string => cases h
  | integer => simp [keyOfText?]
  | double =>
    rw [AtomicValue.related_number hkey] at hb
    obtain ⟨x, hx, _⟩ := map_eq_ok.1 hb
    simp [keyOfText?, AtomicValue.castDouble_eq_ok.1 hx]

/-- **A text is found by its key when it compares so and is not skipped.** -/
theorem matches_number_iff (h : type.isNumeric = true) (hkey : key.isNumeric = true)
    {op : ComparisonOp} {text : String} :
    type.Matches (.compare op) key text ↔
      AtomicValue.related op (.untyped text) key = .ok true ∧
        (type = .integer → (Text.integer? text).isSome = true) := by
  have hsome : (type.keyOfValue? key).isSome = true := by
    rw [AtomicValue.keyOfValue?_of_isNumeric h hkey]
    rfl
  constructor
  · intro hmatches
    have htext : (type.keyOfText? text).isSome = true :=
      let ⟨stored, _, hstored, _⟩ := hmatches
      Option.isSome_iff_exists.2 ⟨stored, hstored⟩
    obtain ⟨b, hb⟩ := exists_related h hkey htext op
    obtain ⟨rfl, _⟩ := (AtomicValue.matches_iff_related hsome hb).1 hmatches
    exact ⟨hb, (isSome_keyOfText?_iff h hkey hb).1 htext⟩
  · rintro ⟨hb, hskipped⟩
    exact (AtomicValue.matches_iff_related hsome hb).2
      ⟨rfl, (isSome_keyOfText?_iff h hkey hb).2 hskipped⟩

end IndexType

namespace Store

variable {s : Store}

/-- **The text of the node compares so with the value,** taken as an untyped text. -/
def Compares (s : Store) (op : ComparisonOp) (key : AtomicValue) (n : Node) : Prop :=
  ∃ text, s.stringValue n = .ok text ∧ AtomicValue.related op (.untyped text) key = .ok true

/-- **The index on a name skips the node:** it is an index of integers, and the text of the node is
not that of an integer. -/
def Skips (s : Store) (name : IndexedName) (n : Node) : Prop :=
  s.declared? n.doc name = some .integer ∧
    ∃ text, s.stringValue n = .ok text ∧ Text.integer? text = none

/-- With a number for its key, a node answers when its text compares so and is not skipped. -/
theorem answers_number_iff {name : IndexedName} {op : ComparisonOp} {key : AtomicValue} {n : Node}
    {type : IndexType} (hdeclared : s.declared? n.doc name = some type)
    (htype : type.isNumeric = true) (hkey : key.isNumeric = true) (hn : s.Has n) :
    s.Answers name (.compare op) key n ↔ s.Compares op key n ∧ ¬ s.Skips name n := by
  obtain ⟨text, htext⟩ := exists_stringValue hn
  have hcompares : s.Compares op key n ↔ AtomicValue.related op (.untyped text) key = .ok true := by
    simp [Compares, htext]
  have hskips : ¬ s.Skips name n ↔ (type = .integer → (Text.integer? text).isSome = true) := by
    simp [Skips, htext, hdeclared, Option.isSome_iff_ne_none]
  rw [answers_iff hdeclared htext, IndexType.matches_number_iff htype hkey, hcompares, hskips]

/-- **A lookup asks for a number that the node may have:** the node bears the name and lies within
the lookup, and its collection has settled for an index of numbers on the name. -/
structure AsksNumber (s : Store) (q : RangeQuery) (op : ComparisonOp) (n : Node) : Prop where
  operator : q.op = .compare op
  key : q.key.isNumeric = true
  bears : s.Bears n q.name
  indexed : ∃ type, s.declared? n.doc q.name = some type ∧ type.isNumeric = true
  settled : s.Settles n.doc q.name
  document : n.doc ∈ q.docs.docs
  within : isWithin q.context n = true

/-- **A lookup of a number finds a node when the comparison holds of it** and the index does not skip
it. -/
theorem AsksNumber.mem_iff {q : RangeQuery} {op : ComparisonOp} {n : Node}
    (h : s.AsksNumber q op n) (hs : s.IsIndexed) (hprobes : s.interrupted = false) :
    ∃ found, s.findByValue q = .ok found ∧
      (n ∈ found ↔ s.Compares op q.key n ∧ ¬ s.Skips q.name n) := by
  obtain ⟨type, hdeclared, htype⟩ := h.indexed
  obtain ⟨found, hfound, hmem⟩ := exists_findByValue hprobes q
  refine ⟨s.persistent found, hfound, ?_⟩
  rw [← answers_number_iff hdeclared htype h.key h.bears.has, persistent, NodeSet.mem_ofList, hmem,
    hs.mem_hitsIn h.settled, hits_iff, h.operator]
  simp only [h.document, h.within, h.bears, true_and]

end Store

/-! ### Conditions on numbers -/

variable {s : Store} {σ : Setting} {e : Expr} {outer : Option OuterStep} {p : IndexProbe}
  {relation : Relation} {candidates : NodeSet} {op : ComparisonOp}

namespace Expr.IsCoveredOn

/-- The candidates have an index of numbers when a number is looked up. -/
theorem exists_numeric (h : e.IsCoveredOn s outer p relation candidates) (hop : p.op = .compare op)
    (hkey : p.key.isNumeric = true) :
    ∃ type, type.isNumeric = true ∧ p.fits type = true ∧
      ∀ n ∈ candidates, ∀ m, relation.Relates n m → s.declared? m.doc p.name = some type := by
  obtain ⟨type, hfits, hdeclared⟩ := h.exists_declared
  have hsome : (type.keyOfValue? p.key).isSome = true := by
    unfold IndexProbe.fits at hfits
    rwa [hop] at hfits
  exact ⟨type, IndexType.isNumeric_of_key hkey hsome, hfits, fun n hn m hrelates =>
    hrelates.within.doc_eq ▸ hdeclared n hn⟩

/-- Hits for a number are the nodes of the name that compare so and are not skipped. -/
theorem hits_number_iff (h : e.IsCoveredOn s outer p relation candidates) (hop : p.op = .compare op)
    (hkey : p.key.isNumeric = true) {n : Node} (hn : n ∈ candidates) :
    (∃ m, relation.Relates n m ∧ s.Hits p.name p.op p.key m) ↔
      ∃ m, relation.Relates n m ∧ s.Bears m p.name ∧ s.Compares op p.key m ∧ ¬ s.Skips p.name m := by
  obtain ⟨type, htype, _, hdeclared⟩ := h.exists_numeric hop hkey
  refine exists_congr fun m => and_congr_right fun hrelates => ?_
  rw [Store.hits_iff, hop]
  refine and_congr_right fun hbears => ?_
  exact Store.answers_number_iff (hdeclared n hn m hrelates) htype hkey hbears.has

/-- Where the index skips no node of which the comparison holds, it decides for all. -/
theorem decides_of_not_skips (h : e.IsCoveredOn s outer p relation candidates)
    (hop : p.op = .compare op) (hkey : p.key.isNumeric = true) {n m : Node} (hn : n ∈ candidates)
    (hrelates : relation.Relates n m) (hskips : s.Compares op p.key m → ¬ s.Skips p.name m) :
    p.Decides s m := by
  obtain ⟨type, htype, hfits, hdeclared⟩ := h.exists_numeric hop hkey
  refine IndexProbe.decides_of_castable (hdeclared n hn m hrelates) hfits (by simp [hop])
    fun op' text hop' htext hb => ?_
  obtain rfl : op = op' := RangeOp.compare.inj (hop.symm.trans hop')
  rw [IndexType.isSome_keyOfText?_iff htype hkey hb]
  rintro rfl
  rw [Option.isSome_iff_ne_none]
  exact fun hnone => hskips ⟨text, htext, hb⟩ ⟨hdeclared n hn m hrelates, text, htext, hnone⟩

/-- **A condition with a number selects by index what it selects item by item,** where the index
skips no node of which the comparison holds. -/
theorem applyByItem_eq_of_number (h : e.IsCoveredOn s outer p relation candidates) (hσ : σ.IsBare)
    (hs : s.IsAnswering) (hop : p.op = .compare op) (hkey : p.key.isNumeric = true)
    (hskips : ∀ n ∈ candidates, ∀ m, relation.Relates n m → s.Bears m p.name →
      s.Compares op p.key m → ¬ s.Skips p.name m)
    {keep : Node → Bool} (hkeep : ∀ n ∈ candidates,
      keep n = true ↔ ∃ m, relation.Relates n m ∧ s.Hits p.name p.op p.key m)
    {reverse : Bool} {v : Sequence}
    (hv : σ.outcome (applyByItem (e.evaluate s) reverse (.ofSet candidates)) = .ok v) :
    v = .ofSet (candidates.filter keep) := by
  have hordered : (⟨candidates, none⟩ : SharedSet).set.IsOrdered := h.ordered
  refine applyByItem_eq_of_truth (reads_evaluate h.isPragmaFree) hordered (fun n hn v hv => ?_) hv
  obtain ⟨b, rfl, hb⟩ := h.outcome_iff hσ hs hn
    (fun m hm hbears => h.decides_of_not_skips hop hkey hn hm (hskips n hn m hm hbears)) hv
  refine ⟨b, rfl, ?_⟩
  rw [hb, hkeep n hn, hop]
  exact or_iff_left fun hempty => nomatch hempty.1

end Expr.IsCoveredOn

/-- **Numbers by index.**  A lookup of a number finds a node when the comparison holds of it and the
index does not skip it; an index of doubles skips none.  Over candidates that such an index covers,
a probe for a number keeps exactly those with a node on the path of which both is so.  Wherever
selecting item by item succeeds, and the comparison holds of no node that is skipped, it keeps the
same. -/
theorem Store.numbers_by_index (hs : s.Reachable) (hprobes : s.interrupted = false) :
    (∀ (q : RangeQuery) (op : ComparisonOp) (n : Node), s.AsksNumber q op n →
      ∃ found, s.findByValue q = .ok found ∧
        (n ∈ found ↔ s.Compares op q.key n ∧ ¬ s.Skips q.name n)) ∧
    ∀ (e : Expr) (outer : Option OuterStep) (p : IndexProbe) (relation : Relation)
      (candidates : NodeSet) (op : ComparisonOp) (run : Run),
      e.IsCoveredOn s outer p relation candidates → p.op = .compare op → p.key.isNumeric = true →
      (∀ id, run.context.preloaded.get? id = none) →
      ∃ kept, (p.select s candidates).result run = .ok (some kept) ∧
        (kept.KeepsExactly candidates fun n => ∃ m, relation.Relates n m ∧ s.Bears m p.name ∧
          s.Compares op p.key m ∧ ¬ s.Skips p.name m) ∧
        ((∀ n ∈ candidates, ∀ m, relation.Relates n m → s.Bears m p.name →
            s.Compares op p.key m → ¬ s.Skips p.name m) →
          ∀ reverse v, (applyByItem (e.evaluate s) reverse (.ofSet candidates)).result run = .ok v →
            v = .ofSet kept) := by
  refine ⟨fun q op n h => h.mem_iff hs.isIndexed hprobes, ?_⟩
  intro e outer p relation candidates op run h hop hkey hrun
  have hanswering : s.IsAnswering := ⟨hs.isIndexed, hprobes⟩
  obtain ⟨keep, hselected, hkeep⟩ := h.exists_select hanswering run
  refine ⟨candidates.filter keep, hselected, h.ordered.keepsExactly_filter fun n => ?_,
    fun hskips reverse v hv => ?_⟩
  · rw [NodeSet.mem_filter]
    exact and_congr_right fun hn => (hkeep n hn).trans (h.hits_number_iff hop hkey hn)
  · let σ : Setting := ⟨run.context.bindings, run.context.preloaded⟩
    have hreads := reads_applyByItem (σ := σ) (Expr.reads_evaluate (s := s) h.isPragmaFree) reverse
      (.ofSet candidates) run ⟨rfl, fun _ => rfl⟩
    exact h.applyByItem_eq_of_number (σ := σ) hrun hanswering hop hkey hskips hkeep
      (hreads.1.symm.trans hv)

/-! ### Two books with pages and prices -/

namespace Store

/-- A book with a page and a price. -/
def pricedBook (page price : String) : Tree :=
  .element (.simple "book") [] [.element (.simple "page") [] [.text page],
    .element (.simple "price") [] [.text price]]

/-- A store with two books, an index of integers on pages and one of doubles on prices. -/
def pricedStore : Store :=
  (Store.empty.perform (.configureCollection "/db"
    [⟨⟨.element, .simple "page"⟩, .integer⟩, ⟨⟨.element, .simple "price"⟩, .double⟩])).perform
    (.storeDocument "/db" "l.xml"
      ⟨.simple "shelf", [], [pricedBook "12" "1.5", pricedBook "1.5" "NaN"]⟩)

theorem reachable_pricedStore : pricedStore.Reachable := .perform (.perform .empty _) _

theorem declaresOnce_pricedStore : pricedStore.DeclaresOnce := by
  have hcollections : pricedStore.collections =
      [⟨"/db", [⟨⟨.element, .simple "page"⟩, .integer⟩, ⟨⟨.element, .simple "price"⟩, .double⟩]⟩] := by
    decide +kernel
  intro c hc
  rw [hcollections] at hc
  obtain rfl := List.mem_singleton.1 hc
  decide

/-- The two books. -/
def pricedBooks : NodeSet := .ofList [⟨0, ⟨[1, 1]⟩⟩, ⟨0, ⟨[1, 2]⟩⟩] true

/-- The lookup of a number above one. -/
def above (name : String) : RangeQuery :=
  ⟨⟨.element, .simple name⟩, .compare .gt, .integer 1, ⟨[0]⟩, none⟩

/-- The condition that a number in the book is above one. -/
def isAbove (name : String) : Expr :=
  .comparison 2 .gt (.step ⟨1, .child, .name (.simple name), false⟩ []) (.literal (.integer 1)) .unknown

/-- What the condition looks up. -/
def probeAbove (name : String) : IndexProbe :=
  ⟨⟨.element, .simple name⟩, .child, false, true, .compare .gt, .integer 1, some .parentChild⟩

theorem isCoveredOn_isAbove (name : String)
    (h : (probeAbove name).coversAll pricedStore (some (.ofSet pricedBooks)) = .ok true) :
    (isAbove name).IsCoveredOn pricedStore none (probeAbove name) .parentChild pricedBooks where
  probed := rfl
  related := rfl
  ordered := NodeSet.isOrdered_ofList _ _
  covered := h
  settled n _ := declaresOnce_pricedStore.settles n.doc _
  stays h := nomatch h
  element h := nomatch h

/-- A lookup above one asks for a number that every page may have. -/
theorem asksNumber_page (id : NodeId)
    (h : (pricedStore.node ⟨0, id⟩).map (·.hasName ⟨.element, .simple "page"⟩) = .ok true) :
    pricedStore.AsksNumber (above "page") .gt ⟨0, id⟩ where
  operator := rfl
  key := rfl
  bears := map_eq_ok.1 h
  indexed := by
    have hdeclared : pricedStore.declared? 0 ⟨.element, .simple "page"⟩ = some .integer := by
      decide +kernel
    exact ⟨.integer, hdeclared, rfl⟩
  settled := declaresOnce_pricedStore.settles 0 _
  document := List.mem_singleton_self 0
  within := rfl

/-- The page `12` is found, and of the two books one has a price above one. -/
theorem numbers_by_index_priced :
    pricedStore.Reachable ∧ pricedStore.interrupted = false ∧
    pricedStore.AsksNumber (above "page") .gt ⟨0, ⟨[1, 1, 1]⟩⟩ ∧
    (isAbove "price").IsCoveredOn pricedStore none (probeAbove "price") .parentChild pricedBooks ∧
    (∃ found, pricedStore.findByValue (above "page") = .ok found ∧ found.nodes = [⟨0, ⟨[1, 1, 1]⟩⟩] ∧
      (⟨0, ⟨[1, 1, 1]⟩⟩ ∈ found ↔ pricedStore.Compares .gt (.integer 1) ⟨0, ⟨[1, 1, 1]⟩⟩ ∧
        ¬ pricedStore.Skips ⟨.element, .simple "page"⟩ ⟨0, ⟨[1, 1, 1]⟩⟩)) ∧
    ∃ kept, kept.nodes = [⟨0, ⟨[1, 1]⟩⟩] ∧
      ((probeAbove "price").select pricedStore pricedBooks).result ⟨.empty, .zero⟩ = .ok (some kept) ∧
      (applyByItem ((isAbove "price").evaluate pricedStore) false (.ofSet pricedBooks)).result
        ⟨.empty, .zero⟩ = .ok (.ofSet kept) := by
  have hpage := asksNumber_page ⟨[1, 1, 1]⟩ (by decide +kernel)
  have hcovered := isCoveredOn_isAbove "price" (by decide +kernel)
  have hfound : (pricedStore.findByValue (above "page")).map NodeSet.nodes =
      .ok [⟨0, ⟨[1, 1, 1]⟩⟩] := by
    decide +kernel
  have hkept : ((applyByItem ((isAbove "price").evaluate pricedStore) false (.ofSet pricedBooks)).result
      ⟨.empty, .zero⟩).map Sequence.toItems = .ok [.node ⟨0, ⟨[1, 1]⟩⟩] := by
    decide +kernel
  have hdouble : pricedStore.declared? 0 ⟨.element, .simple "price"⟩ = some .double := by
    decide +kernel
  have hskips : ∀ n ∈ pricedBooks, ∀ m, Relation.parentChild.Relates n m →
      pricedStore.Bears m ⟨.element, .simple "price"⟩ → pricedStore.Compares .gt (.integer 1) m →
        ¬ pricedStore.Skips ⟨.element, .simple "price"⟩ m := by
    rintro n hn m hrelates _ _ ⟨hinteger, _⟩
    have hdoc : n.doc = 0 := by
      have hall : ∀ n ∈ pricedBooks.nodes, n.doc = 0 := by decide +kernel
      exact hall n hn
    rw [hrelates.within.doc_eq, hdoc, hdouble] at hinteger
    cases hinteger
  obtain ⟨hlookup, hselect⟩ := numbers_by_index reachable_pricedStore rfl
  obtain ⟨found, hfind, hmem⟩ := hlookup (above "page") .gt _ hpage
  obtain ⟨kept, hselected, _, hitems⟩ := hselect _ none _ .parentChild _ .gt ⟨.empty, .zero⟩ hcovered
    rfl rfl fun _ => rfl
  obtain ⟨v, hv, hvitems⟩ := map_eq_ok.1 hkept
  obtain rfl := hitems hskips false v hv
  rw [hfind] at hfound
  exact ⟨reachable_pricedStore, rfl, hpage, hcovered, ⟨found, hfind, Except.ok.inj hfound, hmem⟩, kept,
    List.map_injective_iff.2 (fun _ _ => Item.node.inj) hvitems, hselected, hv⟩

/-- **The page `1.5` is above one, and an index of integers does not find it.**  Neither does the
probe keep its book, which is selected item by item. -/
theorem not_numbers_by_index_skipped :
    (∃ text b found, pricedStore.AsksNumber (above "page") .gt ⟨0, ⟨[1, 2, 1]⟩⟩ ∧
      pricedStore.stringValue ⟨0, ⟨[1, 2, 1]⟩⟩ = .ok text ∧
      AtomicValue.related .gt (.untyped text) (.integer 1) = .ok b ∧
      pricedStore.findByValue (above "page") = .ok found ∧
        ¬ (⟨0, ⟨[1, 2, 1]⟩⟩ ∈ found ↔ b = true)) ∧
    (isAbove "page").IsCoveredOn pricedStore none (probeAbove "page") .parentChild pricedBooks ∧
    ∃ kept v,
      ((probeAbove "page").select pricedStore pricedBooks).result ⟨.empty, .zero⟩ = .ok (some kept) ∧
      (applyByItem ((isAbove "page").evaluate pricedStore) false (.ofSet pricedBooks)).result
        ⟨.empty, .zero⟩ = .ok v ∧ v ≠ .ofSet kept := by
  have hpage := asksNumber_page ⟨[1, 2, 1]⟩ (by decide +kernel)
  have htext : pricedStore.stringValue ⟨0, ⟨[1, 2, 1]⟩⟩ = .ok "1.5" := by decide +kernel
  have hrelated : AtomicValue.related .gt (.untyped "1.5") (.integer 1) = .ok true := by decide +kernel
  have hfound : pricedStore.findByValue (above "page") = .ok ⟨[⟨0, ⟨[1, 1, 1]⟩⟩], true⟩ := by
    decide +kernel
  have hcovered := isCoveredOn_isAbove "page" (by decide +kernel)
  have hselect : ((probeAbove "page").select pricedStore pricedBooks).result ⟨.empty, .zero⟩ =
      .ok (some ⟨[⟨0, ⟨[1, 1]⟩⟩], true⟩) := by
    decide +kernel
  have hitems : (applyByItem ((isAbove "page").evaluate pricedStore) false
      (.ofSet pricedBooks)).result ⟨.empty, .zero⟩ =
        .ok (.ofSet ⟨[⟨0, ⟨[1, 1]⟩⟩, ⟨0, ⟨[1, 2]⟩⟩], true⟩) := by
    decide +kernel
  refine ⟨⟨_, _, _, hpage, htext, hrelated, hfound, fun hiff => ?_⟩, hcovered, _, _, hselect, hitems,
    by decide⟩
  have hmem := NodeSet.mem_def.1 (hiff.2 rfl)
  simp at hmem

end Store
end IndexedXml
