/-
# Prefixes by index

A call of `starts-with` on a path and a literal text has two ways to its answer.  Item by item
it takes the text of the node on the path, or the empty text where there is none, and it fails
where there are several.  An index of texts starts from the nodes that it has and goes back to
the candidates.  Wherever the call has an outcome at all candidates the index keeps those where
it holds (`IndexProbe.keepsExactly_startsWith`), except that it has nothing to go back from where
no node is on the path: there the absent text starts with the empty one, and the index leaves the
candidate out (`IndexProbe.not_keepsExactly_emptyPrefix`).
-/

import IndexedXml.Proofs.Node.Narrowing
import IndexedXml.Proofs.Query.Covered

namespace IndexedXml

open Evaluation Setting

variable {s : Store} {outer : Option OuterStep} {p : IndexProbe} {relation : Relation}
  {candidates : NodeSet}

namespace Expr.IsCoveredOn

variable {e : Expr}

/-- An index of texts or doubles decides for every node that stands in the relation to a
candidate. -/
theorem decides_of_not_integer (h : e.IsCoveredOn s outer p relation candidates)
    (hinteger : p.fits .integer = false) {n m : Node} (hn : n ∈ candidates)
    (hrelates : relation.Relates n m) : p.Decides s m := by
  obtain ⟨type, hfits, hdeclared⟩ := h.exists_declared
  refine IndexProbe.Suits.decides ⟨type, ?_, hfits, ?_⟩
  · rw [hrelates.within.doc_eq]
    exact hdeclared n hn
  · rintro rfl
    rw [hinteger] at hfits
    cases hfits

end Expr.IsCoveredOn

namespace IndexProbe

/-- What a call of `starts-with` looks up. -/
theorem op_of_startsWith {id : ExprId} {path : Expr} {start : String} {access : Access}
    (h : (Expr.call id .startsWith [path, .literal (.string start)] access).probed? outer = some p) :
    p.op = .startsWith ∧ p.key = .string start := by
  obtain ⟨target, _, rfl⟩ := Option.map_eq_some_iff.1 h
  exact ⟨rfl, rfl⟩

/-- **Prefixes are looked up as they are compared.**  Over candidates that the index of a path
covers, each with an outcome of the call of `starts-with`, the probe keeps exactly those where the
call holds; with the empty prefix, those of them that have a node on the path. -/
theorem keepsExactly_startsWith (hs : s.Reachable) (hprobes : s.interrupted = false) {e : Expr}
    {id : ExprId} {path : Expr} {start : String} {access : Access}
    (he : e = .call id .startsWith [path, .literal (.string start)] access)
    (hcovered : e.IsCoveredOn s outer p relation candidates) {run : Run}
    (hrun : ∀ id, run.context.preloaded.get? id = none)
    (houtcome : ∀ n ∈ candidates, ∃ v,
      (e.evaluate s (itemFocus candidates.persistent (.node n))).result run = .ok v) :
    ∃ kept, (p.select s candidates).result run = .ok (some kept) ∧
      kept.KeepsExactly candidates fun n =>
        (e.evaluate s (itemFocus candidates.persistent (.node n))).result run = .ok (.ofBool true) ∧
          (start = "" → ∃ m, relation.Relates n m ∧ s.Bears m p.name) := by
  have hanswering : s.IsAnswering := ⟨hs.isIndexed, hprobes⟩
  obtain ⟨hop, hkey⟩ := op_of_startsWith (he ▸ hcovered.probed)
  have hinteger : p.fits .integer = false := by
    unfold fits
    rw [hop]
    rfl
  obtain ⟨keep, hselect, hkeep⟩ := hcovered.exists_select hanswering run
  refine ⟨candidates.filter keep, hselect, hcovered.ordered.keepsExactly_filter fun n => ?_⟩
  rw [NodeSet.mem_filter]
  refine and_congr_right fun hn => ?_
  obtain ⟨v, hv⟩ := houtcome n hn
  obtain ⟨b, rfl, hb⟩ := hcovered.result_iff hanswering hrun hn
    (fun m hm _ => hcovered.decides_of_not_integer hinteger hn hm) hv
  have htrue : (Except.ok (.ofBool b) : Except QueryError Sequence) = .ok (.ofBool true) ↔
      b = true := by
    cases b <;> decide
  rw [hv, htrue, hkeep n hn, hb, hop, hkey, AtomicValue.string.injEq, and_iff_right rfl]
  constructor
  · rintro ⟨m, hrelates, hhits⟩
    exact ⟨.inl ⟨m, hrelates, hhits⟩, fun _ => ⟨m, hrelates, hhits.1⟩⟩
  · rintro ⟨hhits | ⟨hempty, hnone⟩, hsome⟩
    · exact hhits
    · obtain ⟨m, hrelates, hbears⟩ := hsome hempty
      exact absurd hbears (hnone m hrelates)

/-! ### Three books, one without a title -/

/-- A book with what is in it. -/
def bookOf (content : List Tree) : Tree := .element (.simple "book") [] content

/-- A title. -/
def titleOf (text : String) : Tree := .element (.simple "title") [] [.text text]

/-- A store with three books, the last of which has no title, and an index on titles. -/
def untitledStore : Store :=
  (Store.empty.perform (.configureCollection "/db" [⟨⟨.element, .simple "title"⟩, .string⟩])).perform
    (.storeDocument "/db" "l.xml" ⟨.simple "library", [],
      [bookOf [titleOf "Dune"], bookOf [titleOf "Momo"], bookOf []]⟩)

theorem isPlain_untitledStore : untitledStore.IsPlain := by
  decide +kernel

/-- The three books. -/
def threeBooks : NodeSet := .ofList [⟨0, ⟨[1, 1]⟩⟩, ⟨0, ⟨[1, 2]⟩⟩, ⟨0, ⟨[1, 3]⟩⟩] true

/-- The condition that the title starts with a text. -/
def titleStarting (start : String) : Expr :=
  .call 2 .startsWith [.step ⟨1, .child, .name (.simple "title"), false⟩ [], .literal (.string start)]
    .unknown

/-- What the condition looks up. -/
def probeStarting (start : String) : IndexProbe :=
  ⟨⟨.element, .simple "title"⟩, .child, false, true, .startsWith, .string start, some .parentChild⟩

theorem isCoveredOn_titleStarting (start : String)
    (hcovered : (probeStarting start).coversAll untitledStore (some (.ofSet threeBooks)) = .ok true) :
    (titleStarting start).IsCoveredOn untitledStore none (probeStarting start) .parentChild
      threeBooks where
  probed := rfl
  related := rfl
  ordered := NodeSet.isOrdered_ofList _ _
  covered := hcovered
  settled n _ := isPlain_untitledStore.declaresOnce.settles n.doc _
  stays h := nomatch h
  element h := nomatch h

/-- One of the three titles starts with `Du`. -/
theorem keepsExactly_startsWith_du :
    untitledStore.Reachable ∧ untitledStore.interrupted = false ∧
    (titleStarting "Du").IsCoveredOn untitledStore none (probeStarting "Du") .parentChild threeBooks ∧
    ∃ kept, ((probeStarting "Du").select untitledStore threeBooks).result ⟨.empty, .zero⟩ =
        .ok (some kept) ∧
      kept.nodes = [⟨0, ⟨[1, 1]⟩⟩] ∧
      kept.KeepsExactly threeBooks fun n =>
        ((titleStarting "Du").evaluate untitledStore (itemFocus true (.node n))).result
            ⟨.empty, .zero⟩ = .ok (.ofBool true) ∧
          ("Du" = "" → ∃ m, Relation.parentChild.Relates n m ∧
            untitledStore.Bears m ⟨.element, .simple "title"⟩) := by
  have hcovered := isCoveredOn_titleStarting "Du" (by decide +kernel)
  have houtcome : ∀ n ∈ threeBooks.nodes, ∃ b ∈ [true, false],
      ((titleStarting "Du").evaluate untitledStore (itemFocus true (.node n))).result
        ⟨.empty, .zero⟩ = .ok (.ofBool b) := by
    decide +kernel
  have hselect : (((probeStarting "Du").select untitledStore threeBooks).result
      ⟨.empty, .zero⟩).map (Option.map NodeSet.nodes) = .ok (some [⟨0, ⟨[1, 1]⟩⟩]) := by
    decide +kernel
  have hreachable : untitledStore.Reachable := .perform (.perform .empty _) _
  have hrun : ∀ id, (⟨.empty, .zero⟩ : Run).context.preloaded.get? id = none := fun _ => rfl
  obtain ⟨kept, hkept, hkeeps⟩ := keepsExactly_startsWith hreachable rfl rfl hcovered hrun
    fun n hn =>
      let ⟨b, _, hb⟩ := houtcome n hn
      ⟨.ofBool b, hb⟩
  rw [hkept] at hselect
  exact ⟨hreachable, rfl, hcovered, kept, hkept, Option.some.inj (Except.ok.inj hselect), hkeeps⟩

/-- **A book without a title starts with the empty text,** and the index does not keep it. -/
theorem not_keepsExactly_emptyPrefix :
    (titleStarting "").IsCoveredOn untitledStore none (probeStarting "") .parentChild threeBooks ∧
    (∀ n ∈ threeBooks, ((titleStarting "").evaluate untitledStore (itemFocus true (.node n))).result
      ⟨.empty, .zero⟩ = .ok (.ofBool true)) ∧
    ∃ kept, ((probeStarting "").select untitledStore threeBooks).result ⟨.empty, .zero⟩ =
        .ok (some kept) ∧
      ¬ kept.KeepsExactly threeBooks fun n =>
        ((titleStarting "").evaluate untitledStore (itemFocus true (.node n))).result
          ⟨.empty, .zero⟩ = .ok (.ofBool true) := by
  have hcovered := isCoveredOn_titleStarting "" (by decide +kernel)
  have houtcome : ∀ n ∈ threeBooks.nodes, ((titleStarting "").evaluate untitledStore
      (itemFocus true (.node n))).result ⟨.empty, .zero⟩ = .ok (.ofBool true) := by
    decide +kernel
  have hselect : ((probeStarting "").select untitledStore threeBooks).result
      ⟨.empty, .zero⟩ = .ok (some ⟨[⟨0, ⟨[1, 1]⟩⟩, ⟨0, ⟨[1, 2]⟩⟩], true⟩) := by
    decide +kernel
  refine ⟨hcovered, houtcome, _, hselect, fun hkeeps => ?_⟩
  have huntitled : (⟨0, ⟨[1, 3]⟩⟩ : Node) ∈ threeBooks.nodes := by decide +kernel
  have hkept := NodeSet.mem_def.1 ((hkeeps.mem_iff _).2 ⟨huntitled, houtcome _ huntitled⟩)
  simp at hkept

end IndexProbe
end IndexedXml
