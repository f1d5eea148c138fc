/-
# Where an index covers all candidates

When an index covers a set of candidates, a probe selects those with a hit in its relation
(`Expr.IsCoveredOn.exists_select`).  Evaluated at a candidate, the condition goes to the same
nodes: where its path leads are the nodes of the name in that relation
(`Target.consists_of_outcome`), and the condition holds when one of them answers
(`Expr.IsCoveredOn.outcome_iff`).

Nothing but their documents is asked of the candidates.  The store need not have them: a lookup
goes by identifiers, and navigation fails at a node that is not there.
-/

import IndexedXml.Proofs.Query.Selection

namespace IndexedXml

open Evaluation Setting

variable {s : Store} {σ : Setting}

/-! ### One step by name -/

namespace Store

/-- An axis downward can only be followed from a node that the store has. -/
theorem has_of_along {axis : Axis} (haxis : isDownward axis = true) {n : Node} {l : List Node}
    (h : s.along axis n = .ok l) : s.Has n := by
  have hchildren : ∀ {l}, s.children n = .ok l → s.Has n := fun hl =>
    let ⟨e, he, _⟩ := map_eq_ok.1 hl
    ⟨e, he⟩
  have hattributes : ∀ {l}, s.attributes n = .ok l → s.Has n := fun hl =>
    let ⟨e, he, _⟩ := map_eq_ok.1 hl
    ⟨e, he⟩
  have hbelow : ∀ {depth l}, s.contentBelow (depth + 1) n = .ok l → s.Has n := fun hl =>
    let ⟨_, hl, _⟩ := bind_eq_ok.1 hl
    hchildren hl
  cases axis with
  | child => exact hchildren h
  | attr => exact hattributes h
  | descendant => exact hbelow h
  | descendantOrSelf =>
    obtain ⟨_, hl, _⟩ := bind_eq_ok.1 h
    exact hbelow hl
  | descendantAttr =>
    obtain ⟨_, hl, _⟩ := bind_eq_ok.1 h
    exact hattributes hl
  | _ => cases haxis

end Store

namespace Setting

/-- **A step downward that asks for a name** finds the nodes of the name that the axis reaches
from the context, wherever it finds anything at all. -/
theorem mem_of_selectAxis (hσ : σ.IsBare) (hs : s.IsAnswering) {head : StepHead}
    (haxis : Store.isDownward head.axis = true) {q : QName} (htest : head.test = .name q)
    {context found : NodeSet} (h : σ.outcome (selectAxis s head context) = .ok found) {m : Node} :
    m ∈ found ↔ s.Bears m ⟨head.axis.nameType, q⟩ ∧ ∃ n ∈ context, head.axis.Reaches n m := by
  have hdocs : ∀ n ∈ context, context.documents.contains n.doc = true := fun n hn =>
    NodeSet.contains_documents.2 ⟨n, hn, rfl⟩
  have hlookup : unprepared s head context =
      s.findDescendants ⟨head.axis.nameType, q⟩ head.axis context.documents context := by
    rw [outcome_selectAxis, hσ head.id] at h
    have hunprepared : unprepared s head context = .ok found := mapError_eq_ok.1 h
    rcases head with ⟨id, axis, test, treeTraversal⟩
    obtain rfl : test = .name q := htest
    cases treeTraversal with
    | false => cases axis <;> first | rfl | cases haxis
    | true =>
      -- The walk along the axis has succeeded from every node of the context.
      obtain ⟨walked, hwalked, _⟩ := bind_eq_ok.1 hunprepared
      refine (hs.indexed.findDescendants_eq_navigate hs.probes haxis q (fun n hn => ?_) hdocs).symm
      obtain ⟨_, _, hkept⟩ := exists_of_mapM hwalked hn
      obtain ⟨l, hl, _⟩ := bind_eq_ok.1 hkept
      exact Store.has_of_along haxis hl
  obtain ⟨nodes, hnodes, hmem⟩ :=
    hs.indexed.findDescendants_eq_ok hs.probes haxis ⟨head.axis.nameType, q⟩ context.documents context
  rw [outcome_selectAxis, hσ head.id] at h
  have hfound := mapError_eq_ok.1 h
  rw [hlookup, hnodes] at hfound
  obtain rfl := Except.ok.inj hfound
  rw [← Store.liesOn_iff_of_covers hdocs, ← hmem]
  exact NodeSet.mem_ofList

end Setting

namespace Expr

/-- A path of one step without predicates is free of pragmas. -/
theorem isPragmaFree_of_single {e : Expr} {head : StepHead}
    (h : Target.simpleSteps? e = some [head]) : e.IsPragmaFree := by
  rcases simpleSteps?_eq_some h with ⟨id, rfl⟩ | ⟨_, rfl, _⟩
  · simp
  · simp

/-- A path of one step without predicates has the value of that step. -/
theorem exists_of_single {e : Expr} {head : StepHead} (h : Target.simpleSteps? e = some [head])
    {focus : Focus} {context : SharedSet} (hcontext : contextSet s focus = .ok context)
    {v : Sequence} (hv : σ.outcome (e.evaluate s focus) = .ok v) :
    ∃ found, σ.outcome (selectAxis s head context.set) = .ok found ∧ v = .ofSet found := by
  have hstep : ∀ {v}, σ.outcome ((step head []).evaluate s focus) = .ok v →
      ∃ found, σ.outcome (selectAxis s head context.set) = .ok found ∧ v = .ofSet found := by
    intro v hv
    rw [outcome_step (isPragmaFree_simpleStep head), hcontext, ok_bind,
      if_neg (by simp [hasPositional])] at hv
    obtain ⟨found, hfound, hv⟩ := bind_eq_ok.1 hv
    rw [outcome_applyPredicates_nil] at hv
    exact ⟨found, hfound, (Except.ok.inj hv).symm⟩
  rcases simpleSteps?_eq_some h with ⟨id, rfl⟩ | ⟨_, rfl, heq⟩
  · rw [List.map_singleton, outcome_path_cons (by simp)] at hv
    obtain ⟨w, hw, hv⟩ := bind_eq_ok.1 hv
    rw [outcome_evaluateSteps_nil] at hv
    obtain rfl := Except.ok.inj hv
    exact hstep hw
  · obtain rfl := List.singleton_inj.1 heq
    exact hstep hv

end Expr

/-! ### Where the path of a condition leads -/

namespace Target

variable {path : Expr} {outer : Option OuterStep} {target : Target} {relation : Relation}

theorem isDownward_of_relationOn {axis : Axis} (h : relationOn axis = some relation) :
    Store.isDownward axis = true := by
  cases axis <;> first | rfl | cases h

/-- **The path of a condition leads to the nodes of its name in its relation** to the context
node, when it has an outcome there.  A context node that the path stays on bears that name, and a
test for the name of the node itself stands where elements are asked for. -/
theorem consists_of_outcome (hσ : σ.IsBare) (hs : s.IsAnswering)
    (h : Target.of? path outer = some target) (hrelation : target.relation = some relation)
    {n : Node} (hstays : relation = .identity → s.Bears n target.name)
    (helement : path.isSelfName = true → target.name.nameType = .element) {focus : Focus}
    {context : SharedSet} (hcontext : contextSet s focus = .ok context)
    (hmem : ∀ m, m ∈ context.set ↔ m = n) {reached : Sequence}
    (hreached : σ.outcome (path.evaluate s focus) = .ok reached) :
    reached.Consists fun m => relation.Relates n m ∧ s.Bears m target.name := by
  obtain ⟨head, hheads, ⟨q, htest, hname, hon⟩ | ⟨haxis, rfl, step, name, rfl, _, _, hname⟩⟩ :=
    of?_of_relation h hrelation
  · -- The step goes downward, and its axis reaches what stands in the relation.
    obtain ⟨found, hfound, rfl⟩ := Expr.exists_of_single hheads hcontext hreached
    refine (Sequence.consists_ofSet found).congr fun m => ?_
    rw [mem_of_selectAxis hσ hs (isDownward_of_relationOn hon) htest hfound, hname]
    simp only [hmem, exists_eq_left]
    rw [and_comm]
    refine and_congr_left fun hbears => ?_
    rw [← hbears.leads_iff, leads_iff_relates hon hbears]
  · -- The step stays on the node, which is an element when its name is asked for.
    have hbears := hstays rfl
    have hself : path.isSelfName = true → step.axis.isAttributeAxis = false := by
      intro hself
      rw [Bool.eq_false_iff]
      intro hattr
      have := helement hself
      rw [hname, Axis.nameType_of_isAttributeAxis hattr] at this
      cases this
    have hleads : ∀ m, s.LeadsAlong [head] n m ↔
        Relation.identity.Relates n m ∧ s.Bears m target.name := by
      intro m
      obtain ⟨heads, hheads', _, _, hiff⟩ := exists_leadsAlong_iff h hrelation hs.indexed hbears.has
        hstays (Q := (· = m)) fun hself' step hstep hattr => by
          obtain rfl := Option.some.inj hstep
          rw [hself hself'] at hattr
          cases hattr
      obtain rfl := Option.some.inj (hheads.symm.trans hheads')
      simpa using hiff
    have hstraight : ∀ head' ∈ [head], head'.axis.isStraight = true := by
      rintro head' hhead
      rw [List.mem_singleton.1 hhead, haxis]
      rfl
    obtain ⟨_, v, hv, hconsists⟩ := Expr.outcome_simple (σ := σ) hσ hs hheads (List.cons_ne_nil _ _)
      hstraight hcontext fun m hm => (hmem m).1 hm ▸ hbears.has
    obtain rfl := Except.ok.inj (hv.symm.trans hreached)
    refine hconsists.congr fun m => ?_
    rw [← hleads]
    simp only [hmem, exists_eq_left]

end Target

/-! ### Conditions and their candidates -/

namespace Expr

/-- **The index that a condition asks covers a set of candidates,** in the predicates of an outer
step. -/
structure IsCoveredOn (s : Store) (e : Expr) (outer : Option OuterStep) (p : IndexProbe)
    (relation : Relation) (candidates : NodeSet) : Prop where
  /-- The condition is looked up by the probe. -/
  probed : e.probed? outer = some p
  /-- Hits tell which candidates they qualify, since the path is a single step. -/
  related : p.relation = some relation
  /-- The candidates stand in document order. -/
  ordered : candidates.IsOrdered
  /-- Every document of a candidate has the index. -/
  covered : p.coversAll s (some (.ofSet candidates)) = .ok true
  /-- In each of them the first and the last declaration for the name are of one type. -/
  settled : ∀ n ∈ candidates, s.Settles n.doc p.name
  /-- Candidates that the path stays on are those that the outer step asks for. -/
  stays : relation = .identity → ∀ n ∈ candidates, s.Bears n p.name
  /-- The name of the candidate itself is asked for where candidates are elements. -/
  element : e.namesSelf = true → p.name.nameType = .element

namespace IsCoveredOn

variable {e : Expr} {outer : Option OuterStep} {p : IndexProbe} {relation : Relation}
  {candidates : NodeSet}

/-- The path of the condition is a single step, which leads to what is looked up. -/
theorem exists_single (h : e.IsCoveredOn s outer p relation candidates) :
    ∃ path target head, Asks outer path e p ∧ Target.of? path outer = some target ∧
      p.name = target.name ∧ target.relation = some relation ∧
        Target.simpleSteps? path = some [head] := by
  obtain ⟨path, hasks⟩ := exists_asks h.probed
  obtain ⟨target, htarget, hprobe⟩ := hasks.target
  have hname : p.name = target.name := by
    rw [hprobe]
    rfl
  have hrelation : target.relation = some relation := by
    rw [← h.related, hprobe]
    rfl
  obtain ⟨head, hheads, _⟩ := Target.of?_of_relation htarget hrelation
  exact ⟨path, target, head, hasks, htarget, hname, hrelation, hheads⟩

theorem isPragmaFree (h : e.IsCoveredOn s outer p relation candidates) : e.IsPragmaFree := by
  obtain ⟨path, _, head, hasks, _, _, _, hheads⟩ := h.exists_single
  have hpath := isPragmaFree_of_single hheads
  cases hasks <;> simp [hpath]

/-- All documents of the candidates have an index of one type, which suits the key. -/
theorem exists_declared (h : e.IsCoveredOn s outer p relation candidates) :
    ∃ type, p.fits type = true ∧ ∀ n ∈ candidates, s.declared? n.doc p.name = some type := by
  obtain ⟨cs, hcs, hcovers⟩ := IndexProbe.coversAll_eq_true_iff.1 h.covered
  obtain ⟨type, hfits, hall⟩ := IndexProbe.exists_declared_of_covers hcs hcovers
  exact ⟨type, hfits, fun n hn => hall n.doc (NodeSet.mem_documents.2 ⟨n, hn, rfl⟩)⟩

/-- **The probe selects the candidates with a hit in its relation,** on every run. -/
theorem exists_select (h : e.IsCoveredOn s outer p relation candidates) (hs : s.IsAnswering)
    (run : Run) :
    ∃ keep : Node → Bool, (p.select s candidates).result run = .ok (some (candidates.filter keep)) ∧
      ∀ n ∈ candidates, keep n = true ↔ ∃ m, relation.Relates n m ∧ s.Hits p.name p.op p.key m := by
  obtain ⟨cs, hcs, hcovers⟩ := IndexProbe.coversAll_eq_true_iff.1 h.covered
  obtain ⟨keep, hanswer, hkeep⟩ := IndexProbe.answer_of_settles hs h.related hcs hcovers h.settled
  let σ : Setting := ⟨run.context.bindings, run.context.preloaded⟩
  have hread := (reads_select (σ := σ) s p candidates run ⟨rfl, fun _ => rfl⟩).1
  exact ⟨keep, by rw [hread, outcome_select, hanswer], hkeep⟩

/-- **At a candidate the condition holds when a hit stands in the relation to it,** or when there is
no node on its path, whose text is to start with the empty one.  The texts on the path have to
compare as their keys do. -/
theorem outcome_iff (h : e.IsCoveredOn s outer p relation candidates) (hσ : σ.IsBare)
    (hs : s.IsAnswering) {n : Node} (hn : n ∈ candidates)
    (hdecides : ∀ m, relation.Relates n m → s.Bears m p.name → p.Decides s m) {persistent : Bool}
    {v : Sequence} (hv : σ.outcome (e.evaluate s (itemFocus persistent (.node n))) = .ok v) :
    ∃ b, v = .ofBool b ∧ (b = true ↔
      (∃ m, relation.Relates n m ∧ s.Hits p.name p.op p.key m) ∨
        (p.op = .startsWith ∧ p.key = .string "" ∧
          ∀ m, relation.Relates n m → ¬ s.Bears m p.name)) := by
  obtain ⟨path, target, _, hasks, htarget, hname, hrelation, _⟩ := h.exists_single
  obtain ⟨reached, _, b, hreached, _, rfl, hb⟩ := outcome_condition_of_decides hasks h.isPragmaFree hv
  have hcontext : contextSet s (itemFocus persistent (.node n)) = .ok ⟨s.persistent [n], none⟩ := rfl
  have hconsists := Target.consists_of_outcome hσ hs htarget hrelation
    (fun hid => hname ▸ h.stays hid n hn)
    (fun hself => hname ▸ h.element (hasks.namesSelf_iff.trans hself)) hcontext
    (fun m => NodeSet.mem_ofList.trans List.mem_singleton) hreached
  rw [← hname] at hconsists
  refine ⟨b, rfl, ?_⟩
  rw [hb _ hconsists (fun m hm => hm.2.has) fun m hm => hdecides m hm.1 hm.2]
  simp only [Store.hits_iff, and_assoc, not_and]

/-- So it does on every run without prepared candidates. -/
theorem result_iff (h : e.IsCoveredOn s outer p relation candidates) (hs : s.IsAnswering) {run : Run}
    (hrun : ∀ id, run.context.preloaded.get? id = none) {n : Node} (hn : n ∈ candidates)
    (hdecides : ∀ m, relation.Relates n m → s.Bears m p.name → p.Decides s m) {persistent : Bool}
    {v : Sequence} (hv : (e.evaluate s (itemFocus persistent (.node n))).result run = .ok v) :
    ∃ b, v = .ofBool b ∧ (b = true ↔
      (∃ m, relation.Relates n m ∧ s.Hits p.name p.op p.key m) ∨
        (p.op = .startsWith ∧ p.key = .string "" ∧
          ∀ m, relation.Relates n m → ¬ s.Bears m p.name)) := by
  let σ : Setting := ⟨run.context.bindings, run.context.preloaded⟩
  have hread := (reads_evaluate (s := s) (σ := σ) h.isPragmaFree
    (itemFocus persistent (.node n)) run ⟨rfl, fun _ => rfl⟩).1
  exact h.outcome_iff (σ := σ) hrun hs hn hdecides (hread.symm.trans hv)

end IsCoveredOn
end Expr
end IndexedXml
