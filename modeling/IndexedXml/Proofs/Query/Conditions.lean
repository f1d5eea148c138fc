/-
# Conditions that an index can answer

A condition holds of a node when its path leads from there to a node whose text answers it
(`Expr.outcome_condition`).  A probe selects the members of a set to which a hit stands in
the relation of the probe (`IndexProbe.answer_eq_ok`).  These are the same members, but for
one case: the relation of a condition on the node itself is read off the name that the
outer step asks for, be it a name of attributes, while the step `self::name` of the
condition only ever leads to elements (`Expr.namesSelf`).
-/

import IndexedXml.Proofs.Query.Keys
import IndexedXml.Proofs.Query.Reach

namespace IndexedXml

open Evaluation

/-! ### What a probe selects -/

/-- **How a node that an index finds stands to the node that it qualifies.** -/
def Relation.Relates : Relation → Node → Node → Prop
  | .identity, n, m => m = n
  | .parentChild, n, m => m.isChildOf n = true
  | .ancestor includeSelf, n, m => m.isDescendantOf n = true ∨ (includeSelf = true ∧ m = n)

/-- What qualifies a node is at or below it. -/
theorem Relation.Relates.within {relation : Relation} {n m : Node} (h : relation.Relates n m) :
    m.Within n := by
  cases relation with
  | identity => exact .inl h
  | parentChild => exact Node.within_of_isChildOf h
  | ancestor includeSelf =>
    rcases h with h | ⟨_, h⟩
    · exact .inr h
    · exact .inl h

variable {s : Store}

/-- The collection of a document with nodes is known. -/
theorem Store.IsIndexed.exists_collectionOf (h : s.IsIndexed) {n : Node} (hn : s.Has n) :
    ∃ c, s.collectionOf n.doc = .ok c := by
  obtain ⟨d, hd⟩ := hn.document?
  obtain ⟨c, _, hc⟩ := h.exists_collection hd
  exact ⟨c, hc⟩

theorem Store.IsIndexed.exists_collections (h : s.IsIndexed) {set : NodeSet}
    (hset : ∀ n ∈ set, s.Has n) : ∃ cs, set.documents.docs.mapM s.collectionOf = .ok cs := by
  refine exists_mapM_eq_ok fun doc hdoc => ?_
  obtain ⟨n, hn, rfl⟩ := NodeSet.mem_documents.1 hdoc
  exact h.exists_collectionOf (hset n hn)

namespace IndexProbe

variable {p : IndexProbe}

/-- The members of a set that hits qualify. -/
theorem mem_qualified {relation : Relation} {candidates hits : NodeSet} (hhits : hits.IsOrdered)
    {n : Node} :
    n ∈ qualified relation candidates hits ↔ n ∈ candidates ∧ ∃ m ∈ hits, relation.Relates n m := by
  cases relation with
  | identity => simp [qualified, Relation.Relates]
  | parentChild => exact NodeSet.mem_selectParent hhits
  | ancestor includeSelf => exact NodeSet.mem_selectAncestor hhits

theorem qualified_eq_filter (relation : Relation) (candidates hits : NodeSet) :
    ∃ keep, qualified relation candidates hits = candidates.filter keep := by
  cases relation with
  | identity => exact ⟨_, rfl⟩
  | parentChild => exact ⟨_, rfl⟩
  | ancestor includeSelf => exact ⟨_, rfl⟩

theorem coversAll_ofSet {candidates : NodeSet} {cs : List Collection}
    (hcs : candidates.documents.docs.mapM s.collectionOf = .ok cs) :
    p.coversAll s (some (.ofSet candidates)) = .ok (p.covers cs) := by
  refine (coversAll_nodes p s ⟨candidates, none⟩).trans ?_
  rw [hcs]
  rfl

/-- **What a probe selects of a set that its index covers:** the members to which a hit
stands in the relation of the probe. -/
theorem answer_of_settles (hs : s.IsAnswering) {relation : Relation}
    (hrelation : p.relation = some relation) {candidates : NodeSet} {cs : List Collection}
    (hcs : candidates.documents.docs.mapM s.collectionOf = .ok cs) (hcovers : p.covers cs = true)
    (hsettles : ∀ n ∈ candidates, s.Settles n.doc p.name) :
    ∃ keep : Node → Bool, p.answer s candidates = .ok (some (candidates.filter keep)) ∧
      ∀ n ∈ candidates, keep n = true ↔ ∃ m, relation.Relates n m ∧ s.Hits p.name p.op p.key m := by
  have hdocs : ∀ doc ∈ (p.rangeQuery candidates true).docs.docs,
      s.Settles doc (p.rangeQuery candidates true).name := by
    intro doc hdoc
    obtain ⟨n, hn, rfl⟩ := NodeSet.mem_documents.1 hdoc
    exact hsettles n hn
  obtain ⟨found, hfound, hmem⟩ := hs.indexed.findByValue_of_settles hs.probes hdocs
  obtain ⟨keep, hkeep⟩ := qualified_eq_filter relation candidates (s.persistent found)
  refine ⟨keep, ?_, fun n hn => ?_⟩
  · unfold answer
    rw [hrelation]
    dsimp only
    rw [coversAll_ofSet hcs, Except.mapError, ok_bind, if_pos hcovers, hfound, Except.mapError,
      ok_bind, hkeep]
    rfl
  · have hselected : n ∈ candidates.filter keep ↔ n ∈ candidates ∧
        ∃ m ∈ s.persistent found, relation.Relates n m := by
      rw [← hkeep]
      exact mem_qualified (NodeSet.isOrdered_ofList _ _)
    rw [NodeSet.mem_filter, and_iff_right hn, and_iff_right hn] at hselected
    rw [hselected]
    constructor
    · rintro ⟨m, hm, hrelates⟩
      exact ⟨m, hrelates, ((hmem m).1 (NodeSet.mem_ofList.1 hm)).2.2⟩
    · rintro ⟨m, hrelates, hhits⟩
      refine ⟨m, NodeSet.mem_ofList.2 ((hmem m).2 ⟨?_, ?_, hhits⟩), hrelates⟩
      · exact NodeSet.mem_documents.2 ⟨n, hn, hrelates.within.doc_eq.symm⟩
      · exact Store.isWithin_iff.2 ⟨n, hn, hrelates.within⟩

/-- In a reliable store a probe selects so of every set that its index covers. -/
theorem answer_eq_ok (hs : s.IsReliable) {relation : Relation} (hrelation : p.relation = some relation)
    {candidates : NodeSet} {cs : List Collection}
    (hcs : candidates.documents.docs.mapM s.collectionOf = .ok cs) (hcovers : p.covers cs = true) :
    ∃ keep : Node → Bool, p.answer s candidates = .ok (some (candidates.filter keep)) ∧
      ∀ n ∈ candidates, keep n = true ↔ ∃ m, relation.Relates n m ∧ s.Hits p.name p.op p.key m :=
  answer_of_settles hs.answering hrelation hcs hcovers
    fun n _ => hs.plain.declaresOnce.settles n.doc p.name

/-- A probe has no answer for a set that its index does not cover. -/
theorem answer_eq_none {candidates : NodeSet} {cs : List Collection}
    (hcs : candidates.documents.docs.mapM s.collectionOf = .ok cs) (hcovers : p.covers cs = false) :
    p.answer s candidates = .ok none := by
  unfold answer
  cases p.relation with
  | none => rfl
  | some relation =>
    dsimp only
    rw [coversAll_ofSet hcs, Except.mapError, ok_bind, hcovers]
    rfl

end IndexProbe

/-! ### What a condition asks -/

namespace Expr

/-- **The probe for a condition** in the predicates of an outer step. -/
def probed? (outer : Option OuterStep) : Expr → Option IndexProbe
  | comparison _ op left right _ => IndexProbe.ofComparison op left right outer
  | call _ function args _ => IndexProbe.ofCall function args outer
  | _ => none

end Expr

namespace IndexProbe

theorem literalKey?_eq_some {e : Expr} {key : AtomicValue} (h : literalKey? e = some key) :
    e = .literal key := by
  unfold literalKey? at h
  split at h <;> first | (obtain rfl := Option.some.inj h; rfl) | cases h

theorem ofSides_eq_some {op : ComparisonOp} {path literal : Expr} {outer : Option OuterStep}
    {p : IndexProbe} (h : ofSides op path literal outer = some p) :
    ∃ target key, Target.of? path outer = some target ∧ literal = .literal key ∧
      p = target.probe (.compare op) key := by
  unfold ofSides at h
  simp only [Option.bind_eq_bind, Option.bind_eq_some_iff, Option.pure_def, Option.some.injEq] at h
  obtain ⟨target, htarget, key, hkey, rfl⟩ := h
  exact ⟨target, key, htarget, literalKey?_eq_some hkey, rfl⟩

theorem ofCall_eq_some {function : Builtin} {args : List Expr} {outer : Option OuterStep}
    {p : IndexProbe} (h : ofCall function args outer = some p) :
    ∃ path start target, function = .startsWith ∧ args = [path, .literal (.string start)] ∧
      Target.of? path outer = some target ∧ p = target.probe .startsWith (.string start) := by
  unfold ofCall at h
  split at h
  · obtain ⟨target, htarget, rfl⟩ := Option.map_eq_some_iff.1 h
    exact ⟨_, _, target, rfl, rfl, htarget, rfl⟩
  · cases h

end IndexProbe

/-- The values of a sequence of nodes are their texts. -/
theorem Store.mem_atomize {v : Sequence} {P : Node → Prop} (hv : v.Consists P)
    {values : List AtomicValue} (h : s.atomize v = .ok values) {value : AtomicValue} :
    value ∈ values ↔ ∃ n text, P n ∧ s.stringValue n = .ok text ∧ value = .untyped text := by
  obtain ⟨nodes, hnodes, hmem⟩ := hv
  have hitem : ∀ n, s.atomizeItem (.node n) = .ok value ↔
      ∃ text, s.stringValue n = .ok text ∧ value = .untyped text := by
    intro n
    change (s.stringValue n >>= fun text => .ok (.untyped text)) = .ok value ↔ _
    rw [bind_eq_ok]
    simp only [Except.ok.injEq, eq_comm]
  unfold Store.atomize at h
  rw [mem_of_mapM h, hnodes]
  constructor
  · rintro ⟨item, hitem', hvalue⟩
    obtain ⟨n, hn, rfl⟩ := List.mem_map.1 hitem'
    obtain ⟨text, htext⟩ := (hitem n).1 hvalue
    exact ⟨n, text, (hmem n).1 hn, htext⟩
  · rintro ⟨n, text, hn, htext⟩
    exact ⟨.node n, List.mem_map_of_mem ((hmem n).2 hn), (hitem n).2 ⟨text, htext⟩⟩

theorem Store.atomize_ofValue (value : AtomicValue) :
    s.atomize (.ofValue value) = .ok [value] := rfl

/-! ### When a condition holds -/

namespace IndexProbe

variable {p : IndexProbe} {P : Node → Prop} {v : Sequence} {values : List AtomicValue}

/-- The nodes of a sequence, each in a document that the index of the probe suits. -/
def SuitsAll (p : IndexProbe) (s : Store) (P : Node → Prop) : Prop :=
  ∀ n, P n → p.Suits s n.doc

theorem SuitsAll.decides (h : p.SuitsAll s P) : ∀ n, P n → p.Decides s n :=
  fun n hn => (h n hn).decides

/-- The values of a sequence are compared with the key of a probe as its nodes answer. -/
theorem related_iff_exists {op : ComparisonOp} (hop : p.op = .compare op) (hv : v.Consists P)
    (hP : ∀ n, P n → p.Decides s n) (hvalues : s.atomize v = .ok values) :
    ∀ value ∈ values, ∀ b, AtomicValue.related op value p.key = .ok b →
      (b = true ↔ ∃ n, (P n ∧ ∃ text, s.stringValue n = .ok text ∧ value = .untyped text) ∧
        s.Answers p.name p.op p.key n) := by
  intro value hvalue b hb
  obtain ⟨n, text, hn, htext, rfl⟩ := (Store.mem_atomize hv hvalues).1 hvalue
  constructor
  · intro htrue
    exact ⟨n, ⟨hn, text, htext, rfl⟩, ((hP n hn).compare op hop text htext b hb).1 htrue⟩
  · rintro ⟨m, ⟨hm, text', htext', heq⟩, hanswers⟩
    obtain rfl := AtomicValue.untyped.inj heq
    exact ((hP m hm).compare op hop text htext' b hb).2 hanswers

/-- Some value stands for a node that answers just when some node answers. -/
theorem exists_value_iff (hv : v.Consists P) (hP : ∀ n, P n → s.Has n)
    (hvalues : s.atomize v = .ok values) {Q : Node → Prop} :
    (∃ value ∈ values, ∃ n, (P n ∧ ∃ text, s.stringValue n = .ok text ∧ value = .untyped text) ∧
      Q n) ↔ ∃ n, P n ∧ Q n := by
  constructor
  · rintro ⟨_, _, n, ⟨hn, _⟩, hQ⟩
    exact ⟨n, hn, hQ⟩
  · rintro ⟨n, hn, hQ⟩
    obtain ⟨text, htext⟩ := Store.exists_stringValue (hP n hn)
    exact ⟨_, (Store.mem_atomize hv hvalues).2 ⟨n, text, hn, htext, rfl⟩, n,
      ⟨hn, text, htext, rfl⟩, hQ⟩

/-- **A comparison with the literal on the right** holds when a node answers. -/
theorem someRelated_right_iff_answers {op : ComparisonOp} (hop : p.op = .compare op)
    (hv : v.Consists P) (hhas : ∀ n, P n → s.Has n) (hP : ∀ n, P n → p.Decides s n)
    (hvalues : s.atomize v = .ok values) {b : Bool}
    (hb : AtomicValue.someRelated op values [p.key] = .ok b) :
    b = true ↔ ∃ n, P n ∧ s.Answers p.name p.op p.key n := by
  rw [AtomicValue.someRelated_right_iff (related_iff_exists hop hv hP hvalues) hb]
  exact exists_value_iff hv hhas hvalues

/-- **A comparison with the literal on the left** holds when a node answers the mirrored one. -/
theorem someRelated_left_iff_answers {op : ComparisonOp} (hop : p.op = .compare op.mirrored)
    (hv : v.Consists P) (hhas : ∀ n, P n → s.Has n) (hP : ∀ n, P n → p.Decides s n)
    (hvalues : s.atomize v = .ok values) {b : Bool}
    (hb : AtomicValue.someRelated op [p.key] values = .ok b) :
    b = true ↔ ∃ n, P n ∧ s.Answers p.name p.op p.key n := by
  have hmirrored := related_iff_exists hop hv hP hvalues
  rw [AtomicValue.someRelated_left_iff (fun value hvalue c hc => hmirrored value hvalue c ?_) hb]
  · exact exists_value_iff hv hhas hvalues
  · obtain ⟨_, text, _, _, rfl⟩ := (Store.mem_atomize hv hvalues).1 hvalue
    rwa [← AtomicValue.related_mirrored]

/-- **The outcome of a call of `starts-with`.** -/
theorem outcome_startsWith {σ : Setting} {focus : Focus} (whole : Sequence) (start : String) :
    σ.outcome (Builtin.startsWith.apply s focus [whole, .ofValue (.string start)]) =
      (s.atomize whole).mapError .store >>= fun values => match values with
        | [] => .ok (.ofBool (Text.startsWith "" start))
        | [value] => .ok (.ofBool (Text.startsWith value.stringValue start))
        | values => .error (.tooManyItems Builtin.startsWith.name values.length) := by
  have htext : ∀ (sequence : Sequence) (r : Run),
      (Builtin.textArgument s .startsWith sequence).result r =
        (s.atomize sequence).mapError .store >>= fun values => match values with
          | [] => .ok ""
          | [value] => .ok value.stringValue
          | values => .error (.tooManyItems Builtin.startsWith.name values.length) := by
    intro sequence r
    unfold Builtin.textArgument
    rw [result_bind]
    refine bind_congr fun values => ?_
    rcases values with _ | ⟨value, _ | ⟨_, _⟩⟩ <;> rfl
  change (do
    let whole ← Builtin.textArgument s .startsWith whole
    let start ← Builtin.textArgument s .startsWith (.ofValue (.string start))
    pure (.ofBool (Text.startsWith whole start)) : Evaluation Sequence).result σ.start = _
  rw [result_bind, htext, bind_assoc]
  refine bind_congr fun values => ?_
  rcases values with _ | ⟨value, _ | ⟨_, _⟩⟩
  · exact (result_bind _ _ _).trans (by rw [htext]; rfl)
  · exact (result_bind _ _ _).trans (by rw [htext]; rfl)
  · rfl

/-- The absent text starts with no text but the empty one. -/
theorem startsWith_absent {start : String} (h : start ≠ "") : Text.startsWith "" start = false := by
  unfold Text.startsWith
  cases hlist : start.toList with
  | nil => exact absurd (String.toList_eq_nil_iff.1 hlist) h
  | cons c cs => rfl

/-- **A call of `starts-with`** holds when a node answers, or when there is no node and the
empty text is asked for. -/
theorem startsWith_iff_exists_answers {start : String} (hop : p.op = .startsWith)
    (hkey : p.key = .string start) (hv : v.Consists P) (hhas : ∀ n, P n → s.Has n)
    (hP : ∀ n, P n → p.Decides s n) (hvalues : s.atomize v = .ok values) {text : String}
    (htext : values = [] ∧ text = "" ∨ ∃ value, values = [value] ∧ text = value.stringValue) :
    Text.startsWith text start = true ↔
      (∃ n, P n ∧ s.Answers p.name p.op p.key n) ∨ (start = "" ∧ ∀ n, ¬ P n) := by
  rw [← exists_value_iff hv hhas hvalues]
  rcases htext with ⟨rfl, rfl⟩ | ⟨value, rfl, rfl⟩
  · have hnone : ∀ n, ¬ P n := by
      intro n hn
      obtain ⟨text, htext⟩ := Store.exists_stringValue (hhas n hn)
      cases (Store.mem_atomize hv hvalues).2 ⟨n, text, hn, htext, rfl⟩
    by_cases hstart : start = ""
    · simp [hstart, hnone, Text.startsWith]
    · simp [hstart, startsWith_absent hstart]
  · obtain ⟨n, text, hn, htext, rfl⟩ := (Store.mem_atomize hv hvalues).1 (List.mem_singleton_self _)
    rw [or_iff_left fun hnone => hnone.2 n hn]
    change Text.startsWith text start = true ↔ _
    constructor
    · intro htrue
      exact ⟨_, List.mem_singleton_self _, n, ⟨hn, text, htext, rfl⟩,
        ((hP n hn).start start hop hkey text htext).1 htrue⟩
    · rintro ⟨value, hvalue, m, ⟨hm, text', htext', rfl⟩, hanswers⟩
      obtain rfl := AtomicValue.untyped.inj (List.mem_singleton.1 hvalue)
      exact ((hP m hm).start start hop hkey _ htext').2 hanswers

end IndexProbe

namespace Expr

/-- Whether the expression is a single step to the node itself that asks for a name. -/
def isSelfName (e : Expr) : Bool :=
  match Target.simpleSteps? e with
  | some [head] => head.axis == .self && !head.test.isWildcard
  | _ => false

/-- **Whether a condition asks for the name of the node itself.** -/
def namesSelf : Expr → Bool
  | comparison _ _ left right _ => left.isSelfName || right.isSelfName
  | call _ _ args _ => args.any isSelfName
  | _ => false

/-- **A condition asks about a path:** it compares the path with a literal, on either side, or
asks how the text of the path starts. -/
inductive Asks (outer : Option OuterStep) (path : Expr) : Expr → IndexProbe → Prop
  | right (id : ExprId) (op : ComparisonOp) (key : AtomicValue) (access : Access) {target : Target}
      (h : Target.of? path outer = some target) :
      Asks outer path (comparison id op path (literal key) access) (target.probe (.compare op) key)
  | left (id : ExprId) (op : ComparisonOp) (key : AtomicValue) (access : Access) {target : Target}
      (h : Target.of? path outer = some target) :
      Asks outer path (comparison id op (literal key) path access)
        (target.probe (.compare op.mirrored) key)
  | start (id : ExprId) (start : String) (access : Access) {target : Target}
      (h : Target.of? path outer = some target) :
      Asks outer path (call id .startsWith [path, literal (.string start)] access)
        (target.probe .startsWith (.string start))

variable {outer : Option OuterStep} {e path : Expr} {p : IndexProbe}

/-- Every condition that an index can answer asks about a path. -/
theorem exists_asks (hp : e.probed? outer = some p) : ∃ path, Asks outer path e p := by
  cases e with
  | comparison id op left right access =>
    change IndexProbe.ofComparison op left right outer = some p at hp
    unfold IndexProbe.ofComparison at hp
    cases hside : IndexProbe.ofSides op left right outer with
    | some q =>
      rw [hside] at hp
      obtain rfl := Option.some.inj hp
      obtain ⟨target, key, htarget, rfl, rfl⟩ := IndexProbe.ofSides_eq_some hside
      exact ⟨left, .right id op key access htarget⟩
    | none =>
      rw [hside] at hp
      obtain ⟨target, key, htarget, rfl, rfl⟩ := IndexProbe.ofSides_eq_some hp
      exact ⟨right, .left id op key access htarget⟩
  | call id function args access =>
    obtain ⟨path, start, target, rfl, rfl, htarget, rfl⟩ := IndexProbe.ofCall_eq_some hp
    exact ⟨path, .start id start access htarget⟩
  | _ => cases hp

namespace Asks

theorem target (h : Asks outer path e p) :
    ∃ target, Target.of? path outer = some target ∧ p = target.probe p.op p.key := by
  cases h with
  | right _ _ _ _ h => exact ⟨_, h, rfl⟩
  | left _ _ _ _ h => exact ⟨_, h, rfl⟩
  | start _ _ _ h => exact ⟨_, h, rfl⟩

theorem namesSelf_iff (h : Asks outer path e p) : e.namesSelf = path.isSelfName := by
  have hliteral : ∀ value, (literal value).isSelfName = false := fun _ => rfl
  cases h with
  | right => rw [namesSelf, hliteral, Bool.or_false]
  | left => rw [namesSelf, hliteral, Bool.false_or]
  | start => rw [namesSelf, List.any_cons, List.any_cons, hliteral, List.any_nil, Bool.false_or,
      Bool.or_false]

end Asks

variable {σ : Setting} {focus : Focus}

theorem outcome_comparison_right {id : ExprId} {op : ComparisonOp} {key : AtomicValue}
    {access : Access} (hfree : (comparison id op path (literal key) access).IsPragmaFree) :
    σ.outcome ((comparison id op path (literal key) access).evaluate s focus) = (do
      let reached ← σ.outcome (path.evaluate s focus)
      let values ← (s.atomize reached).mapError .store
      let b ← AtomicValue.someRelated op values [key]
      pure (.ofBool b)) := by
  rw [outcome_comparison hfree]
  refine bind_congr fun reached => ?_
  rw [outcome_literal, ok_bind, outcome_compareSequences, Store.atomize_ofValue]
  rfl

theorem outcome_comparison_left {id : ExprId} {op : ComparisonOp} {key : AtomicValue}
    {access : Access} (hfree : (comparison id op (literal key) path access).IsPragmaFree) :
    σ.outcome ((comparison id op (literal key) path access).evaluate s focus) = (do
      let reached ← σ.outcome (path.evaluate s focus)
      let values ← (s.atomize reached).mapError .store
      let b ← AtomicValue.someRelated op [key] values
      pure (.ofBool b)) := by
  rw [outcome_comparison hfree, outcome_literal, ok_bind]
  refine bind_congr fun reached => ?_
  rw [outcome_compareSequences, Store.atomize_ofValue]
  rfl

theorem outcome_call_startsWith {id : ExprId} {start : String} {access : Access}
    (hfree : (call id .startsWith [path, literal (.string start)] access).IsPragmaFree) :
    σ.outcome ((call id .startsWith [path, literal (.string start)] access).evaluate s focus) = (do
      let reached ← σ.outcome (path.evaluate s focus)
      σ.outcome (Builtin.startsWith.apply s focus [reached, .ofValue (.string start)])) := by
  have hargs : ∀ e ∈ [path, literal (.string start)], e.IsPragmaFree := fun e he =>
    hfree.mono (parts_subset_call he)
  rw [outcome_call hfree, outcome_evaluateAll_cons hargs]
  cases σ.outcome (path.evaluate s focus) with
  | error e => rfl
  | ok reached =>
    rw [ok_bind, outcome_evaluateAll_cons fun e he => hargs e (List.mem_cons_of_mem _ he),
      outcome_literal, ok_bind, outcome_evaluateAll_nil]
    rfl

/-- What a comparison goes through: where its path leads, the values there, and whether they stand in
the relation. -/
theorem exists_of_comparison {place : Except QueryError Sequence}
    {relates : List AtomicValue → Except QueryError Bool} {v : Sequence}
    (h : (do
      let reached ← place
      let values ← (s.atomize reached).mapError .store
      let b ← relates values
      pure (Sequence.ofBool b)) = .ok v) :
    ∃ reached values b, place = .ok reached ∧ s.atomize reached = .ok values ∧
      relates values = .ok b ∧ v = .ofBool b := by
  obtain ⟨reached, hreached, h⟩ := bind_eq_ok.1 h
  obtain ⟨values, hvalues, h⟩ := bind_eq_ok.1 h
  obtain ⟨b, hb, h⟩ := bind_eq_ok.1 h
  exact ⟨reached, values, b, hreached, mapError_eq_ok.1 hvalues, hb, (Except.ok.inj h).symm⟩

/-- **A condition holds when its path leads to a node that answers,** or when it leads nowhere
and the text of the path is to start with the empty one. -/
theorem outcome_condition_of_decides (h : Asks outer path e p) (hfree : e.IsPragmaFree)
    {v : Sequence} (hv : σ.outcome (e.evaluate s focus) = .ok v) :
    ∃ reached values b, σ.outcome (path.evaluate s focus) = .ok reached ∧
      s.atomize reached = .ok values ∧ v = .ofBool b ∧
      ∀ P, reached.Consists P → (∀ n, P n → s.Has n) → (∀ n, P n → p.Decides s n) →
        (b = true ↔ (∃ n, P n ∧ s.Answers p.name p.op p.key n) ∨
          (p.op = .startsWith ∧ p.key = .string "" ∧ ∀ n, ¬ P n)) := by
  cases h with
  | @right id op key access target htarget =>
    obtain ⟨reached, values, b, hreached, hvalues, hb, rfl⟩ :=
      exists_of_comparison ((outcome_comparison_right hfree).symm.trans hv)
    refine ⟨reached, values, b, hreached, hvalues, rfl, fun P hconsists hhas hP => ?_⟩
    refine Iff.trans ?_ (or_iff_left fun hempty => nomatch hempty.1).symm
    exact IndexProbe.someRelated_right_iff_answers (p := target.probe (.compare op) key) rfl hconsists
      hhas hP hvalues hb
  | @left id op key access target htarget =>
    obtain ⟨reached, values, b, hreached, hvalues, hb, rfl⟩ :=
      exists_of_comparison ((outcome_comparison_left hfree).symm.trans hv)
    refine ⟨reached, values, b, hreached, hvalues, rfl, fun P hconsists hhas hP => ?_⟩
    refine Iff.trans ?_ (or_iff_left fun hempty => nomatch hempty.1).symm
    exact IndexProbe.someRelated_left_iff_answers (p := target.probe (.compare op.mirrored) key)
      rfl hconsists hhas hP hvalues hb
  | @start id start access target htarget =>
    rw [outcome_call_startsWith hfree] at hv
    obtain ⟨reached, hreached, hv⟩ := bind_eq_ok.1 hv
    rw [IndexProbe.outcome_startsWith] at hv
    obtain ⟨values, hvalues, hv⟩ := bind_eq_ok.1 hv
    have hkey : ∀ {none : Prop}, ((target.probe .startsWith (.string start)).op = .startsWith ∧
        (target.probe .startsWith (.string start)).key = .string "" ∧ none) ↔ start = "" ∧ none :=
      ⟨fun ⟨_, hkey, hnone⟩ => ⟨AtomicValue.string.inj hkey, hnone⟩,
        fun ⟨hstart, hnone⟩ => ⟨rfl, congrArg AtomicValue.string hstart, hnone⟩⟩
    have hiff : ∀ text : String,
        (values = [] ∧ text = "" ∨ ∃ value, values = [value] ∧ text = value.stringValue) →
        ∀ P, reached.Consists P → (∀ n, P n → s.Has n) →
          (∀ n, P n → (target.probe .startsWith (.string start)).Decides s n) →
            (Text.startsWith text start = true ↔
              (∃ n, P n ∧ s.Answers target.name .startsWith (.string start) n) ∨
                (start = "" ∧ ∀ n, ¬ P n)) :=
      fun text htext P hconsists hhas hP => IndexProbe.startsWith_iff_exists_answers
        (p := target.probe .startsWith (.string start)) rfl rfl hconsists hhas hP
          (mapError_eq_ok.1 hvalues) htext
    simp only [hkey]
    rcases values with _ | ⟨value, _ | ⟨_, _⟩⟩
    · exact ⟨reached, _, _, hreached, mapError_eq_ok.1 hvalues, (Except.ok.inj hv).symm,
        hiff "" (.inl ⟨rfl, rfl⟩)⟩
    · exact ⟨reached, _, _, hreached, mapError_eq_ok.1 hvalues, (Except.ok.inj hv).symm,
        hiff value.stringValue (.inr ⟨value, rfl, rfl⟩)⟩
    · cases hv

/-- Where a document suits the probe, and no text is to start with the empty one, a condition
holds when its path leads to a node that answers. -/
theorem outcome_condition (h : Asks outer path e p) (hfree : e.IsPragmaFree)
    (hkey : p.op = .startsWith → p.key ≠ .string "") {v : Sequence}
    (hv : σ.outcome (e.evaluate s focus) = .ok v) :
    ∃ reached b, σ.outcome (path.evaluate s focus) = .ok reached ∧ v = .ofBool b ∧
      ∀ P, reached.Consists P → (∀ n, P n → s.Has n) → p.SuitsAll s P →
        (b = true ↔ ∃ n, P n ∧ s.Answers p.name p.op p.key n) := by
  obtain ⟨reached, _, b, hreached, _, hb, hiff⟩ := outcome_condition_of_decides h hfree hv
  refine ⟨reached, b, hreached, hb, fun P hconsists hhas hP => ?_⟩
  rw [hiff P hconsists hhas hP.decides]
  exact or_iff_left fun hempty => hkey hempty.1 hempty.2.1

/-- **A condition on a path that leads nowhere does not hold.** -/
theorem outcome_condition_nowhere (h : Asks outer path e p) (hfree : e.IsPragmaFree)
    (hkey : p.op = .startsWith → p.key ≠ .string "") {reached : Sequence}
    (hreached : σ.outcome (path.evaluate s focus) = .ok reached)
    (hnowhere : reached.Consists fun _ => False) :
    σ.outcome (e.evaluate s focus) = .ok (.ofBool false) := by
  have hvalues : s.atomize reached = .ok [] := by
    obtain ⟨nodes, hnodes, hmem⟩ := hnowhere
    obtain rfl := List.eq_nil_iff_forall_not_mem.2 fun n hn => (hmem n).1 hn
    unfold Store.atomize
    rw [hnodes]
    rfl
  cases h with
  | right =>
    rw [outcome_comparison_right hfree, hreached, ok_bind, hvalues]
    rfl
  | left =>
    rw [outcome_comparison_left hfree, hreached, ok_bind, hvalues]
    rfl
  | @start id start access target htarget =>
    have hstart : start ≠ "" := by
      rintro rfl
      exact hkey rfl rfl
    rw [outcome_call_startsWith hfree, hreached, ok_bind, IndexProbe.outcome_startsWith, hvalues,
      ← IndexProbe.startsWith_absent hstart]
    rfl

end Expr
/-! ### Where the path of a condition leads -/

/-- A node bears every name that is the same. -/
theorem Store.Bears.congr {n : Node} {a b : IndexedName} (h : s.Bears n a) (hsame : a.same b = true) :
    s.Bears n b := by
  obtain ⟨e, he, hname⟩ := h
  refine ⟨e, he, ?_⟩
  rw [Document.hasName_iff] at hname ⊢
  obtain ⟨own, hown, hname⟩ := hname
  rw [IndexedName.same_iff] at hname hsame
  exact ⟨own, hown, IndexedName.same_iff.2
    ⟨hname.1.trans hsame.1, hname.2.trans hsame.2⟩⟩

/-- Only a name test asks for a name. -/
theorem NodeTest.name?_eq_some {test : NodeTest} {q : QName} :
    test.name? = some q ↔ test = .name q := by
  cases test with
  | name own => exact ⟨fun h => congrArg NodeTest.name (Option.some.inj h),
      fun h => congrArg some (NodeTest.name.inj h)⟩
  | _ => exact ⟨fun h => (nomatch h), fun h => (nomatch h)⟩

namespace Target

/-- **What a path leads to, by its shape:** it stays on the context node, or takes one step from
it, or several. -/
theorem of?_cases {e : Expr} {outer : Option OuterStep} {target : Target}
    (h : Target.of? e outer = some target) :
    (∃ head step name, simpleSteps? e = some [head] ∧ head.axis = .self ∧ outer = some step ∧
      step.name = some name ∧ admits head.test name = true ∧
        target = ⟨⟨step.axis.nameType, name⟩, step.axis, true, false, some .identity⟩) ∨
    (∃ head q, simpleSteps? e = some [head] ∧ head.test = .name q ∧
      target = ⟨⟨head.axis.nameType, q⟩, head.axis, false,
        head.axis == .child || head.axis == .attr, relationOn head.axis⟩) ∨
    ∃ first second rest last q, simpleSteps? e = some (first :: second :: rest) ∧
      (second :: rest).getLast? = some last ∧ last.test = .name q ∧
        target = ⟨⟨last.axis.nameType, q⟩, if first.axis = .self then second.axis else first.axis,
          false, false, none⟩ := by
  unfold Target.of? at h
  simp only [Option.bind_eq_bind, Option.bind_eq_some_iff] at h
  obtain ⟨heads, hheads, h⟩ := h
  rcases heads with _ | ⟨head, _ | ⟨second, rest⟩⟩
  · cases h
  · dsimp only at h
    split_ifs at h with haxis
    · unfold ofSelf at h
      simp only [Option.bind_eq_bind, Option.bind_eq_some_iff] at h
      obtain ⟨step, rfl, name, hname, h⟩ := h
      split_ifs at h with hadmits
      exact .inl ⟨head, step, name, hheads, haxis, rfl, hname, hadmits, (Option.some.inj h).symm⟩
    · unfold ofStep at h
      simp only [Option.bind_eq_bind, Option.bind_eq_some_iff] at h
      obtain ⟨q, hq, h⟩ := h
      exact .inr (.inl ⟨head, q, hheads, NodeTest.name?_eq_some.1 hq, (Option.some.inj h).symm⟩)
  · unfold ofSteps at h
    simp only [Option.bind_eq_bind, Option.bind_eq_some_iff] at h
    obtain ⟨q, hq, h⟩ := h
    exact .inr (.inr ⟨head, second, rest, _, q, hheads, List.getLast?_eq_some_getLast _,
      NodeTest.name?_eq_some.1 hq, (Option.some.inj h).symm⟩)

/-- **What a path leads to when hits tell which nodes they qualify:** a single step. -/
theorem of?_of_relation {e : Expr} {outer : Option OuterStep} {target : Target} {relation : Relation}
    (h : Target.of? e outer = some target) (hrelation : target.relation = some relation) :
    ∃ head, simpleSteps? e = some [head] ∧
      ((∃ q, head.test = .name q ∧ target.name = ⟨head.axis.nameType, q⟩ ∧
          relationOn head.axis = some relation) ∨
        (head.axis = .self ∧ relation = .identity ∧ ∃ step name, outer = some step ∧
          step.name = some name ∧ admits head.test name = true ∧
            target.name = ⟨step.axis.nameType, name⟩)) := by
  rcases of?_cases h with ⟨head, step, name, hheads, haxis, houter, hname, hadmits, rfl⟩ |
    ⟨head, q, hheads, htest, rfl⟩ | ⟨_, _, _, _, _, _, _, _, rfl⟩
  · exact ⟨head, hheads, .inr ⟨haxis, (Option.some.inj hrelation).symm, step, name, houter, hname,
      hadmits, rfl⟩⟩
  · exact ⟨head, hheads, .inl ⟨q, htest, rfl, hrelation⟩⟩
  · cases hrelation

/-- What bears the name of a step stands to a node as its relation says when the step leads
there. -/
theorem leads_iff_relates {axis : Axis} {relation : Relation} (h : relationOn axis = some relation)
    {q : QName} {n m : Node} (hm : s.Bears m ⟨axis.nameType, q⟩) :
    s.Leads axis n m ↔ relation.Relates n m := by
  cases axis with
  | child =>
    obtain rfl := Option.some.inj h
    exact and_iff_left hm.hasContent
  | attr =>
    obtain rfl := Option.some.inj h
    exact and_iff_left hm.hasKind_attr
  | descendant =>
    obtain rfl := Option.some.inj h
    exact (and_iff_left hm.hasContent).trans (by simp [Relation.Relates])
  | descendantAttr =>
    obtain rfl := Option.some.inj h
    exact (and_iff_left hm.hasKind_attr).trans (by simp [Relation.Relates])
  | descendantOrSelf =>
    obtain rfl := Option.some.inj h
    exact (or_congr_right (and_iff_left hm.hasContent)).trans (by simp [Relation.Relates, or_comm])
  | _ => cases h

theorem isStraight_of_relationOn {axis : Axis} {relation : Relation}
    (h : relationOn axis = some relation) : axis.isStraight = true := by
  cases axis <;> first | rfl | cases h

/-- A node that a condition stays on bears the name that is looked up, when it bears the name of
the outer step. -/
theorem bears_of_identity {path : Expr} {outer : Option OuterStep} {target : Target}
    (h : Target.of? path outer = some target) (hrelation : target.relation = some .identity)
    {n : Node} (houter : ∀ step name, outer = some step → step.name = some name →
      s.Bears n ⟨step.axis.nameType, name⟩) : s.Bears n target.name := by
  obtain ⟨head, _, ⟨_, _, _, hon⟩ | ⟨_, _, step, name, hstep, hname, _, htarget⟩⟩ :=
    of?_of_relation h hrelation
  · cases haxis : head.axis <;> rw [haxis] at hon <;> cases hon
  · exact htarget ▸ houter step name hstep hname

/-- **The path of a condition leads to the nodes of the name that stand in the relation.**
When it asks for the name of the node itself, and that is an attribute, it leads nowhere;
then no hit may be there either. -/
theorem exists_leadsAlong_iff {path : Expr} {outer : Option OuterStep} {target : Target}
    {relation : Relation} (h : Target.of? path outer = some target)
    (hrelation : target.relation = some relation) {n : Node} (hs : s.IsIndexed) (hn : s.Has n)
    (hstays : relation = .identity → s.Bears n target.name) {Q : Node → Prop}
    (hself : path.isSelfName = true → ∀ step, outer = some step → step.axis.isAttributeAxis = true →
      relation = .identity → ¬ (s.Bears n target.name ∧ Q n)) :
    ∃ heads, simpleSteps? path = some heads ∧ heads ≠ [] ∧
      (∀ head ∈ heads, head.axis.isStraight = true) ∧
        ((∃ m, s.LeadsAlong heads n m ∧ Q m) ↔
          ∃ m, relation.Relates n m ∧ s.Bears m target.name ∧ Q m) := by
  obtain ⟨head, hheads, hcase⟩ := of?_of_relation h hrelation
  have hsingle : ∀ m, s.LeadsAlong [head] n m ↔
      s.Leads head.axis n m ∧ s.Passes head.axis head.test m := by
    intro m
    constructor
    · rintro ⟨x, hx, rfl⟩; exact hx
    · exact fun hm => ⟨m, hm, rfl⟩
  have hstraight : head.axis.isStraight = true := by
    rcases hcase with ⟨_, _, _, hon⟩ | ⟨haxis, _⟩
    · exact isStraight_of_relationOn hon
    · rw [haxis]; rfl
  refine ⟨[head], hheads, List.cons_ne_nil _ _, fun _ hh => List.mem_singleton.1 hh ▸ hstraight, ?_⟩
  rcases hcase with ⟨q, htest, hname, hon⟩ | ⟨haxis, rfl, step, name, rfl, hstep, hadmits, hname⟩
  · -- The step asks for the name that is looked up.
    refine exists_congr fun m => ?_
    rw [hsingle, htest, hname, ← and_assoc]
    refine and_congr_left fun _ => ?_
    constructor
    · rintro ⟨hleads, hpasses⟩
      have hbears := (Store.passes_name_iff (hs.has_of_leads hn hleads)).1 hpasses
      exact ⟨(leads_iff_relates hon hbears).1 hleads, hbears⟩
    · rintro ⟨hrelates, hbears⟩
      exact ⟨(leads_iff_relates hon hbears).2 hrelates, (Store.passes_name_iff hbears.has).2 hbears⟩
  · -- The step stays on the node, which bears the name that the outer step asks for.
    have hbears : s.Bears n target.name := hstays rfl
    have hleft : (∃ m, s.LeadsAlong [head] n m ∧ Q m) ↔ s.Passes .self head.test n ∧ Q n := by
      simp only [hsingle, haxis, Store.Leads]
      constructor
      · rintro ⟨_, ⟨rfl, hp⟩, hQ⟩
        exact ⟨hp, hQ⟩
      · rintro ⟨hp, hQ⟩
        exact ⟨n, ⟨rfl, hp⟩, hQ⟩
    have hright : (∃ m, Relation.identity.Relates n m ∧ s.Bears m target.name ∧ Q m) ↔ Q n := by
      constructor
      · rintro ⟨m, rfl, _, hQ⟩; exact hQ
      · exact fun hQ => ⟨n, rfl, hbears, hQ⟩
    rw [hleft, hright]
    unfold admits at hadmits
    split at hadmits
    · rename_i own htest
      have hselfName : path.isSelfName = true := by
        unfold Expr.isSelfName
        rw [hheads]
        simp [haxis, htest, NodeTest.isWildcard, NodeTest.name?]
      have hpasses : s.Passes .self (.name own) n ↔ s.Bears n ⟨.element, own⟩ :=
        Store.passes_name_iff hn
      by_cases hattr : step.axis.isAttributeAxis = true
      · refine iff_of_false ?_ fun hQ => hself hselfName step rfl hattr rfl ⟨hbears, hQ⟩
        rintro ⟨hp, hQ⟩
        exact hself hselfName step rfl hattr rfl ⟨hbears, hQ⟩
      · have htype : step.axis.nameType = .element :=
          Axis.nameType_of_not_isAttributeAxis (Bool.eq_false_iff.2 hattr)
        refine and_iff_right ?_
        rw [htest, hpasses]
        refine hbears.congr ?_
        rw [hname, htype, IndexedName.same_iff]
        exact ⟨rfl, (QName.same_iff.1 hadmits).symm⟩
    · rename_i htest
      rw [htest]
      exact and_iff_right rfl
    · cases hadmits

end Target
end IndexedXml
