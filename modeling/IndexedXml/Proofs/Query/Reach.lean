/-
# Where relative paths lead

As long as no candidates are prepared, a step finds just what navigation finds, whether it
asks an index or not (`Setting.outcome_selectAxis_eq_navigate`).  So a relative path without
predicates leads where its axes and its tests say (`Store.LeadsAlong`), and its evaluation
does not fail (`Expr.outcome_simple`).
-/

import IndexedXml.Proofs.Query.Outcome
import IndexedXml.Proofs.Store.Ranges

namespace IndexedXml

open Evaluation

/-- **A store whose indexes can be relied on:** reached by changes, with plain declarations,
and not interrupted. -/
structure Store.IsReliable (s : Store) : Prop where
  indexed : s.IsIndexed
  plain : s.IsPlain
  probes : s.interrupted = false

/-- A store whose index of names can be relied on, whatever its collections declare. -/
structure Store.IsAnswering (s : Store) : Prop where
  indexed : s.IsIndexed
  probes : s.interrupted = false

theorem Store.IsReliable.answering {s : Store} (h : s.IsReliable) : s.IsAnswering :=
  ⟨h.indexed, h.probes⟩

/-! ### What is in a store -/

/-- A set of nodes that the store has, in document order. -/
def NodeSet.IsIn (set : NodeSet) (s : Store) : Prop := set.IsOrdered ∧ ∀ n ∈ set, s.Has n

instance (set : NodeSet) (s : Store) : Decidable (set.IsIn s) :=
  inferInstanceAs (Decidable (set.nodes.Pairwise (· < ·) ∧ ∀ n ∈ set.nodes, s.Has n))

/-- A sequence whose nodes the store has. -/
def Sequence.IsIn (v : Sequence) (s : Store) : Prop :=
  match v with
  | .nodes shared => shared.set.IsIn s
  | .items list => ∀ n, .node n ∈ list → s.Has n

/-- A focus on nodes that the store has. -/
structure Focus.IsIn (focus : Focus) (s : Store) : Prop where
  context : ∀ v, focus.context = some v → v.IsIn s
  item : ∀ n, focus.item = some (.node n) → s.Has n

variable {s : Store}

theorem NodeSet.isIn_ofList {nodes : List Node} (persistent : Bool) (h : ∀ n ∈ nodes, s.Has n) :
    (NodeSet.ofList nodes persistent).IsIn s :=
  ⟨isOrdered_ofList _ _, fun n hn => h n (mem_ofList.1 hn)⟩

theorem NodeSet.IsIn.filter {set : NodeSet} (h : set.IsIn s) (p : Node → Bool) :
    (set.filter p).IsIn s :=
  ⟨h.1.filter p, fun n hn => h.2 n (mem_filter.1 hn).1⟩

theorem NodeSet.isIn_empty : NodeSet.empty.IsIn s := ⟨isOrdered_empty, fun _ h => nomatch h⟩

theorem Sequence.isIn_empty : Sequence.empty.IsIn s := fun _ h => nomatch h

theorem Sequence.isIn_ofValue (value : AtomicValue) : (Sequence.ofValue value).IsIn s := by
  intro n hn
  cases List.mem_singleton.1 hn

/-- The nodes of a sequence in a store are in the store. -/
theorem Sequence.IsIn.has {v : Sequence} (h : v.IsIn s) {n : Node} (hn : .node n ∈ v.toItems) :
    s.Has n := by
  cases v with
  | nodes shared =>
    obtain ⟨m, hm, heq⟩ := List.mem_map.1 hn
    obtain rfl := Item.node.inj heq
    exact h.2 m hm
  | items list => exact h n hn

theorem nodeOf_eq_ok {item : Item} {n : Node} : Sequence.nodeOf item = .ok n ↔ item = .node n := by
  cases item <;> simp [Sequence.nodeOf]

/-- A sequence in a store is a set in the store, if it is a set. -/
theorem Sequence.IsIn.toShared {v : Sequence} (h : v.IsIn s) {shared : SharedSet}
    (hshared : v.toShared = .ok shared) : shared.set.IsIn s := by
  cases v with
  | nodes own =>
    obtain rfl : own = shared := Except.ok.inj hshared
    exact h
  | items list =>
    obtain ⟨nodes, hnodes, hset⟩ := bind_eq_ok.1 hshared
    obtain rfl : (⟨.ofList nodes false, none⟩ : SharedSet) = shared := Except.ok.inj hset
    refine NodeSet.isIn_ofList false fun n hn => ?_
    obtain ⟨item, hitem, hnode⟩ := (mem_of_mapM hnodes).1 hn
    exact h n (nodeOf_eq_ok.1 hnode ▸ hitem)

/-- The context of a focus on nodes of a store is a set in the store. -/
theorem Focus.IsIn.contextSet {focus : Focus} (h : focus.IsIn s) {shared : SharedSet}
    (hshared : contextSet s focus = .ok shared) : shared.set.IsIn s := by
  unfold Evaluation.contextSet at hshared
  rcases focus with ⟨context, item⟩
  rcases item with _ | ⟨n⟩ | ⟨value⟩
  · rcases context with _ | v
    · cases hshared
    · exact (h.context v rfl).toShared hshared
  · obtain rfl := Except.ok.inj hshared
    refine NodeSet.isIn_ofList true fun m hm => ?_
    obtain rfl := List.mem_singleton.1 hm
    exact h.item m rfl
  · cases hshared

/-- The focus on a node that the store has. -/
theorem isIn_itemFocus {persistent : Bool} {item : Item} (h : ∀ n, item = .node n → s.Has n) :
    (itemFocus persistent item).IsIn s := by
  cases item with
  | node n =>
    have hn : s.Has n := h n rfl
    refine ⟨?_, ?_⟩
    · rintro v ⟨⟩
      exact NodeSet.isIn_ofList _ fun m hm => List.mem_singleton.1 hm ▸ hn
    · rintro m ⟨⟩
      exact hn
  | atomic value =>
    refine ⟨?_, fun m hm => nomatch hm⟩
    rintro v ⟨⟩
    exact Sequence.isIn_ofValue value

/-! ### Steps -/

namespace Setting

/-- **No candidates are prepared.** -/
def IsBare (σ : Setting) : Prop := ∀ id, σ.prepared.get? id = none

/-- **A step finds what navigation finds,** by whatever way it goes. -/
theorem outcome_selectAxis_eq_navigate {σ : Setting} (hσ : σ.IsBare) (hs : s.IsAnswering)
    (head : StepHead) {context : NodeSet} (hcontext : ∀ n ∈ context, s.Has n) :
    σ.outcome (selectAxis s head context) =
      (s.navigate head.axis head.test context).mapError .store := by
  have hlookup : unprepared s head context = s.navigate head.axis head.test context := by
    have hdocs : ∀ n ∈ context, context.documents.contains n.doc = true := fun n hn =>
      NodeSet.contains_documents.2 ⟨n, hn, rfl⟩
    have hdown := fun {axis : Axis} (haxis : Store.isDownward axis = true) q =>
      hs.indexed.findDescendants_eq_navigate hs.probes haxis q hcontext hdocs
    have hup := fun (axis : Axis)
        (haxis : axis ∈ [Axis.self, .parent, .ancestor, .ancestorOrSelf]) q =>
      hs.indexed.findAncestors_eq_navigate hs.probes haxis q hcontext hdocs
    rcases head with ⟨id, axis, test, treeTraversal⟩
    cases test with
    | name q =>
      cases treeTraversal with
      | true => rfl
      | false =>
        cases axis with
        | child => exact hdown rfl q
        | attr => exact hdown rfl q
        | descendant => exact hdown rfl q
        | descendantOrSelf => exact hdown rfl q
        | descendantAttr => exact hdown rfl q
        | parent => exact hup .parent (by decide) q
        | ancestor => exact hup .ancestor (by decide) q
        | _ => rfl
    | _ => rfl
  rw [outcome_selectAxis, hσ head.id]
  exact congrArg (Except.mapError QueryError.store) hlookup

/-- What a step finds is in the store and passes its test. -/
theorem isIn_of_selectAxis {σ : Setting} (hσ : σ.IsBare) (hs : s.IsAnswering)
    {head : StepHead} {context found : NodeSet} (hcontext : ∀ n ∈ context, s.Has n)
    (h : σ.outcome (selectAxis s head context) = .ok found) :
    found.IsIn s ∧ ∀ n ∈ found, s.Passes head.axis head.test n := by
  rw [outcome_selectAxis_eq_navigate hσ hs head hcontext, mapError_eq_ok] at h
  have hfound := fun n (hn : n ∈ found) => hs.indexed.has_of_navigate hcontext h hn
  refine ⟨⟨?_, fun n hn => (hfound n hn).1⟩, fun n hn => (hfound n hn).2⟩
  obtain ⟨all, _, hset⟩ := bind_eq_ok.1 h
  obtain rfl : s.persistent all.flatten = found := Except.ok.inj hset
  exact NodeSet.isOrdered_ofList _ _

end Setting

/-! ### Paths without predicates -/

/-- **Where some steps lead to,** one after the other. -/
def Store.LeadsAlong (s : Store) : List StepHead → Node → Node → Prop
  | [], n, m => m = n
  | head :: rest, n, m =>
    ∃ x, (s.Leads head.axis n x ∧ s.Passes head.axis head.test x) ∧ s.LeadsAlong rest x m

/-- A sequence consists of certain nodes. -/
def Sequence.Consists (v : Sequence) (P : Node → Prop) : Prop :=
  ∃ nodes : List Node, v.toItems = nodes.map .node ∧ ∀ n, n ∈ nodes ↔ P n

namespace Sequence

variable {P Q : Node → Prop}

theorem Consists.congr {v : Sequence} (h : v.Consists P) (hPQ : ∀ n, P n ↔ Q n) : v.Consists Q :=
  let ⟨members, hmembers, hmem⟩ := h
  ⟨members, hmembers, fun n => (hmem n).trans (hPQ n)⟩

theorem consists_ofSet (set : NodeSet) : (ofSet set).Consists (· ∈ set) :=
  ⟨set.nodes, rfl, fun _ => Iff.rfl⟩

theorem consists_empty (h : ∀ n, ¬ P n) : Sequence.empty.Consists P :=
  ⟨[], rfl, fun n => iff_of_false List.not_mem_nil (h n)⟩

theorem Consists.mem {v : Sequence} (h : v.Consists P) {n : Node} : .node n ∈ v.toItems ↔ P n := by
  obtain ⟨members, hmembers, hmem⟩ := h
  rw [hmembers, ← hmem]
  simp

/-- A sequence of nodes is a set. -/
theorem Consists.toShared {v : Sequence} (h : v.Consists P) :
    ∃ shared, v.toShared = .ok shared ∧ ∀ n, n ∈ shared.set ↔ P n := by
  obtain ⟨members, hmembers, hmem⟩ := h
  cases v with
  | nodes shared =>
    refine ⟨shared, rfl, fun n => ?_⟩
    obtain rfl : shared.set.nodes = members :=
      List.map_injective_iff.2 (fun _ _ => Item.node.inj) hmembers
    exact hmem n
  | items list =>
    obtain rfl : list = members.map .node := hmembers
    have hwalk : (members.map Item.node).mapM nodeOf = .ok members := by
      clear hmem
      induction members with
      | nil => rfl
      | cons n rest ih =>
        rw [List.map_cons, List.mapM_cons, ih]
        rfl
    refine ⟨⟨.ofList members false, none⟩, ?_, fun n => NodeSet.mem_ofList.trans (hmem n)⟩
    rw [Sequence.toShared, hwalk]
    rfl

theorem Consists.isEmpty {v : Sequence} (h : v.Consists P) : v.isEmpty = true ↔ ∀ n, ¬ P n := by
  obtain ⟨members, hmembers, hmem⟩ := h
  have hsize : v.size = members.length := by
    have hlen := congrArg List.length hmembers
    cases v <;> simpa [toItems, size, NodeSet.size] using hlen
  unfold Sequence.isEmpty
  rw [hsize, beq_iff_eq, List.length_eq_zero_iff, List.eq_nil_iff_forall_not_mem]
  exact forall_congr' fun n => not_congr (hmem n)

end Sequence

namespace Expr

variable {σ : Setting}

/-- A single step without predicates. -/
theorem simpleStep?_eq_some {e : Expr} {head : StepHead} (h : Target.simpleStep? e = some head) :
    e = .step head [] := by
  unfold Target.simpleStep? at h
  split at h
  · obtain rfl := Option.some.inj h
    rfl
  · cases h

theorem isPragmaFree_simpleStep (head : StepHead) : (Expr.step head []).IsPragmaFree := by
  intro id pragmas body h
  simp [parts, predicateParts] at h

/-- **A step without predicates along a straight axis** leads where its axis and its test say. -/
theorem outcome_simpleStep (hσ : σ.IsBare) (hs : s.IsAnswering) {head : StepHead}
    (hstraight : head.axis.isStraight = true) {focus : Focus} {context : SharedSet}
    (hcontext : contextSet s focus = .ok context) (hhas : ∀ n ∈ context.set, s.Has n) :
    ∃ v, σ.outcome ((Expr.step head []).evaluate s focus) = .ok v ∧ v.Consists fun m =>
      ∃ n ∈ context.set, s.Leads head.axis n m ∧ s.Passes head.axis head.test m := by
  obtain ⟨found, hfound, hmem⟩ := hs.indexed.navigate_eq_ok hstraight head.test hhas
  refine ⟨.ofSet (s.persistent found), ?_, ?_⟩
  · rw [outcome_step (isPragmaFree_simpleStep head), hcontext, ok_bind,
      if_neg (by simp [hasPositional]), Setting.outcome_selectAxis_eq_navigate hσ hs head hhas,
      hfound]
    rw [Except.mapError, ok_bind, outcome_applyPredicates_nil]
  · exact (Sequence.consists_ofSet _).congr fun m => NodeSet.mem_ofList.trans (hmem m)

/-- The further steps of a path without predicates. -/
theorem outcome_simpleSteps (hσ : σ.IsBare) (hs : s.IsAnswering) {heads : List StepHead}
    (hstraight : ∀ head ∈ heads, head.axis.isStraight = true) :
    ∀ {v : Sequence} {P : Node → Prop}, v.Consists P → (∀ n, P n → s.Has n) →
      ∃ v', σ.outcome (evaluateSteps s (heads.map (Expr.step · [])) v) = .ok v' ∧
        v'.Consists fun m => ∃ n, P n ∧ s.LeadsAlong heads n m := by
  induction heads with
  | nil =>
    intro v P hv _
    exact ⟨v, outcome_evaluateSteps_nil v, hv.congr fun m =>
      ⟨fun hm => ⟨m, hm, rfl⟩, fun ⟨_, hn, heq⟩ => heq ▸ hn⟩⟩
  | cons head rest ih =>
    intro v P hv hP
    have hfree : ∀ e ∈ (head :: rest).map (Expr.step · []), e.IsPragmaFree := by
      intro e he
      obtain ⟨head, _, rfl⟩ := List.mem_map.1 he
      exact isPragmaFree_simpleStep head
    rw [List.map_cons] at hfree ⊢
    rw [outcome_evaluateSteps_cons hfree]
    by_cases hempty : v.isEmpty = true
    · refine ⟨.empty, if_pos hempty, Sequence.consists_empty ?_⟩
      rintro m ⟨n, hn, _⟩
      exact hv.isEmpty.1 hempty n hn
    · obtain ⟨shared, hshared, hmem⟩ := hv.toShared
      have hhas : ∀ n ∈ shared.set, s.Has n := fun n hn => hP n ((hmem n).1 hn)
      have hcontext : contextSet s (.on (.nodes shared)) = .ok shared := rfl
      obtain ⟨x, hx, hxmem⟩ :=
        outcome_simpleStep hσ hs (hstraight head List.mem_cons_self) hcontext hhas
      obtain ⟨v', hv', hv'mem⟩ := ih (fun head hh => hstraight head (List.mem_cons_of_mem _ hh)) hxmem
        (fun m ⟨n, hn, hleads, _⟩ => hs.indexed.has_of_leads (hhas n hn) hleads)
      refine ⟨v', ?_, hv'mem.congr fun m => ?_⟩
      · rw [if_neg hempty, hshared, ok_bind, hx, ok_bind, hv']
      · constructor
        · rintro ⟨x, ⟨n, hn, hleads⟩, hrest⟩
          exact ⟨n, (hmem n).1 hn, x, hleads, hrest⟩
        · rintro ⟨n, hn, x, hleads, hrest⟩
          exact ⟨x, ⟨n, (hmem n).2 hn, hleads⟩, hrest⟩

/-- **The forms of a relative path without predicates.** -/
theorem simpleSteps?_eq_some {e : Expr} {heads : List StepHead}
    (h : Target.simpleSteps? e = some heads) :
    (∃ id, e = .path id (heads.map (Expr.step · []))) ∨
      ∃ head, e = .step head [] ∧ heads = [head] := by
  by_cases hpath : ∃ id steps, e = .path id steps
  · obtain ⟨id, steps, rfl⟩ := hpath
    refine .inl ⟨id, congrArg (Expr.path id) ?_⟩
    change steps.mapM Target.simpleStep? = some heads at h
    induction steps generalizing heads with
    | nil =>
      obtain rfl : [] = heads := Option.some.inj h
      rfl
    | cons e rest ih =>
      rw [List.mapM_cons] at h
      simp only [Option.bind_eq_bind, Option.bind_eq_some_iff, Option.pure_def,
        Option.some.injEq] at h
      obtain ⟨head, hhead, later, hlater, rfl⟩ := h
      rw [simpleStep?_eq_some hhead, ih hlater, List.map_cons]
  · have hstep : (Target.simpleStep? e).map (fun head => [head]) = some heads := by
      unfold Target.simpleSteps? at h
      split at h
      · exact absurd ⟨_, _, rfl⟩ hpath
      · exact h
    obtain ⟨head, hhead, rfl⟩ := Option.map_eq_some_iff.1 hstep
    exact .inr ⟨head, simpleStep?_eq_some hhead, rfl⟩

/-- **A relative path without predicates leads where its steps say.** -/
theorem outcome_simple (hσ : σ.IsBare) (hs : s.IsAnswering) {e : Expr} {heads : List StepHead}
    (h : Target.simpleSteps? e = some heads) (hne : heads ≠ [])
    (hstraight : ∀ head ∈ heads, head.axis.isStraight = true) {focus : Focus} {context : SharedSet}
    (hcontext : contextSet s focus = .ok context) (hhas : ∀ n ∈ context.set, s.Has n) :
    e.IsPragmaFree ∧ ∃ v, σ.outcome (e.evaluate s focus) = .ok v ∧
      v.Consists fun m => ∃ n ∈ context.set, s.LeadsAlong heads n m := by
  rcases simpleSteps?_eq_some h with ⟨id, rfl⟩ | ⟨head, rfl, rfl⟩
  · have hfree : (Expr.path id (heads.map (Expr.step · []))).IsPragmaFree := by
      intro i pragmas body hmem
      rcases List.mem_cons.1 hmem with hself | hmem
      · cases hself
      · obtain ⟨e, he, hmem⟩ := mem_partsOf.1 hmem
        obtain ⟨head, _, rfl⟩ := List.mem_map.1 he
        exact isPragmaFree_simpleStep head i pragmas body hmem
    refine ⟨hfree, ?_⟩
    cases heads with
    | nil => exact absurd rfl hne
    | cons first rest =>
      rw [List.map_cons] at hfree ⊢
      obtain ⟨x, hx, hxmem⟩ := outcome_simpleStep hσ hs (hstraight first List.mem_cons_self)
        hcontext hhas
      obtain ⟨v, hv, hvmem⟩ := outcome_simpleSteps hσ hs
        (fun head hh => hstraight head (List.mem_cons_of_mem _ hh)) hxmem
        (fun m ⟨n, hn, hleads, _⟩ => hs.indexed.has_of_leads (hhas n hn) hleads)
      refine ⟨v, by rw [outcome_path_cons hfree, hx, ok_bind, hv], hvmem.congr fun m => ?_⟩
      constructor
      · rintro ⟨x, ⟨n, hn, hleads⟩, hrest⟩
        exact ⟨n, hn, x, hleads, hrest⟩
      · rintro ⟨n, hn, x, hleads, hrest⟩
        exact ⟨x, ⟨n, hn, hleads⟩, hrest⟩
  · obtain ⟨v, hv, hmem⟩ := outcome_simpleStep hσ hs (hstraight head List.mem_cons_self) hcontext hhas
    refine ⟨isPragmaFree_simpleStep head, v, hv, hmem.congr fun m => ?_⟩
    refine exists_congr fun n => and_congr_right fun _ => ⟨fun hleads => ⟨m, hleads, rfl⟩, ?_⟩
    rintro ⟨x, hleads, rfl⟩
    exact hleads

end Expr
end IndexedXml
