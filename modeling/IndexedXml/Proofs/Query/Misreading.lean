/-
# Attributes that an index misreads

A condition that asks for the name of the node itself, in the predicates of a step to
attributes, holds of no attribute: on the axis `self` a name is one of elements
(`Expr.outcome_condition_of_attr`).  The index takes the name for that of the attribute.  So
where it finds one, there is a node from which the step selects something by index and
nothing without (`Expr.exists_outcome_of_misread`).
-/

import IndexedXml.Proofs.Query.Traversal

namespace IndexedXml

open Evaluation Setting

variable {s : Store} {σ : Setting}

/-- An attribute has a parent. -/
theorem Store.IsIndexed.exists_parent_of_attr (h : s.IsIndexed) {n : Node} (hn : s.HasKind n .attr) :
    ∃ parent, n.isChildOf parent = true ∧ s.Has parent := by
  rcases h.exists_parent hn.has with hdoc | ⟨parent, hchild, hcontent⟩
  · exfalso
    obtain ⟨e, he, hattr⟩ := hn
    obtain ⟨d, hd, hmem⟩ := h.node_eq_ok_iff.1 he
    obtain ⟨e', hmem', hkind⟩ := (h.isLaidOut hd).document
    have hentry := (h.isLaidOut hd).node?_eq_some_iff.2 hmem
    rw [hdoc, (h.isLaidOut hd).node?_eq_some_iff.2 hmem'] at hentry
    obtain rfl := Option.some.inj hentry
    rw [hkind] at hattr
    cases hattr
  · exact ⟨parent, hchild, hcontent.1⟩

/-- An axis of attributes leads to an attribute from its parent. -/
theorem Store.leads_of_isAttributeAxis {axis : Axis} (haxis : axis.isAttributeAxis = true)
    {n parent : Node} (hn : s.HasKind n .attr) (hparent : n.isChildOf parent = true) :
    s.Leads axis parent n := by
  cases axis with
  | attr => exact ⟨hparent, hn⟩
  | descendantAttr => exact ⟨Node.isDescendantOf_of_isChildOf hparent, hn⟩
  | _ => cases haxis

theorem Axis.isStraight_of_isAttributeAxis {axis : Axis} (haxis : axis.isAttributeAxis = true) :
    axis.isStraight = true := by
  cases axis <;> first | rfl | cases haxis

/-- An attribute is no element. -/
theorem Store.HasKind.not_bears_element {n : Node} (hn : s.HasKind n .attr) (q : QName) :
    ¬ s.Bears n ⟨.element, q⟩ :=
  fun hbears => hbears.hasContent.2 hn

/-! ### Selecting nothing -/

theorem outcome_selectItems_of_false {evaluate : Focus → Evaluation Sequence}
    (hreads : ∀ focus, σ.Reads (evaluate focus)) {persistent reverse : Bool} {items : List Item}
    (hfalse : ∀ item ∈ items,
      σ.outcome (evaluate (itemFocus persistent item)) = .ok (.ofBool false)) :
    ∀ position, σ.outcome (selectItems evaluate persistent reverse position items) = .ok [] := by
  induction items with
  | nil => exact fun _ => rfl
  | cons item rest ih =>
    intro position
    have hrest := ih (fun item hitem => hfalse item (List.mem_cons_of_mem _ hitem))
      (if reverse then position - 1 else position + 1)
    rw [outcome_selectItems_cons hreads, hfalse item List.mem_cons_self, ok_bind]
    change σ.outcome (selectItems evaluate persistent reverse _ rest) >>= _ = _
    rw [hrest]
    rfl

/-- A predicate that holds of no item selects none. -/
theorem outcome_applyByItem_of_false {evaluate : Focus → Evaluation Sequence}
    (hreads : ∀ focus, σ.Reads (evaluate focus)) (reverse : Bool) {value : Sequence}
    (hfalse : ∀ item ∈ value.toItems,
      σ.outcome (evaluate (itemFocus value.isPersistent item)) = .ok (.ofBool false)) :
    σ.outcome (applyByItem evaluate reverse value) = .ok (withItems value []) := by
  rw [outcome_applyByItem hreads, outcome_selectItems_of_false hreads hfalse]
  rfl

namespace Expr

variable {outer : Option OuterStep} {e path : Expr} {p : IndexProbe}

/-- A step to the node itself that asks for a name leads from no attribute. -/
theorem outcome_selfName_of_attr (hs : s.IsReliable) (hσ : σ.IsBare) (h : path.isSelfName = true)
    {n : Node} (hn : s.HasKind n .attr) {focus : Focus} {context : SharedSet}
    (hcontext : contextSet s focus = .ok context) (hmem : ∀ m, m ∈ context.set ↔ m = n) :
    ∃ reached, σ.outcome (path.evaluate s focus) = .ok reached ∧ reached.Consists fun _ => False := by
  unfold isSelfName at h
  split at h
  · rename_i head hheads
    rw [Bool.and_eq_true, beq_iff_eq, Bool.not_eq_true'] at h
    obtain ⟨haxis, htest⟩ := h
    obtain ⟨q, hq⟩ : ∃ q, head.test = .name q := by
      unfold NodeTest.isWildcard at htest
      obtain ⟨q, hq⟩ := Option.isSome_iff_exists.1 (Option.isNone_eq_false_iff.1 htest)
      exact ⟨q, NodeTest.name?_eq_some.1 hq⟩
    have hstraight : ∀ head' ∈ [head], head'.axis.isStraight = true := by
      intro head' hhead'
      rw [List.mem_singleton.1 hhead', haxis]
      rfl
    obtain ⟨_, reached, hreached, hconsists⟩ := outcome_simple (σ := σ) hσ hs.answering hheads
      (List.cons_ne_nil _ _) hstraight hcontext fun m hm => (hmem m).1 hm ▸ hn.has
    refine ⟨reached, hreached, hconsists.congr fun m => iff_of_false ?_ id⟩
    rintro ⟨m', hm', x, ⟨hleads, hpasses⟩, _⟩
    rw [haxis] at hleads hpasses
    obtain rfl : x = n := Eq.trans hleads ((hmem m').1 hm')
    rw [hq] at hpasses
    exact hn.not_bears_element q ((Store.passes_name_iff hn.has).1 hpasses)
  · cases h

/-- **A condition that asks for the name of the node itself holds of no attribute.** -/
theorem outcome_condition_of_attr (hs : s.IsReliable) (hσ : σ.IsBare) (hfree : e.IsPragmaFree)
    (hp : e.probed? outer = some p) (hkey : p.op = .startsWith → p.key ≠ .string "")
    (hself : e.namesSelf = true) {n : Node} (hn : s.HasKind n .attr) {focus : Focus}
    {context : SharedSet} (hcontext : contextSet s focus = .ok context)
    (hmem : ∀ m, m ∈ context.set ↔ m = n) :
    σ.outcome (e.evaluate s focus) = .ok (.ofBool false) := by
  obtain ⟨path, hasks⟩ := exists_asks hp
  obtain ⟨reached, hreached, hnowhere⟩ := outcome_selfName_of_attr hs hσ
    (hasks.namesSelf_iff.symm.trans hself) hn hcontext hmem
  exact outcome_condition_nowhere hasks hfree hkey hreached hnowhere

/-- The name that a probe asks for when a hit is the node itself: that of the outer step. -/
theorem name_of_identity {head : StepHead} (hp : e.probed? (some ⟨head.test.name?, head.axis⟩) = some p)
    (hrelation : p.relation = some .identity) :
    ∃ q, head.test = .name q ∧ p.name = ⟨head.axis.nameType, q⟩ := by
  obtain ⟨path, hasks⟩ := exists_asks hp
  obtain ⟨target, htarget, hprobe⟩ := hasks.target
  have hrel : target.relation = some .identity := by rw [← hrelation, hprobe]; rfl
  obtain ⟨step, _, ⟨_, _, _, hon⟩ | ⟨_, _, _, name, ⟨⟩, hname, _, htname⟩⟩ :=
    Target.of?_of_relation htarget hrel
  · cases haxis : step.axis <;> simp [haxis, Target.relationOn] at hon
  · refine ⟨name, NodeTest.name?_eq_some.1 hname, ?_⟩
    rw [hprobe]
    exact htname

variable {head : StepHead} {q : Predicate}

/-- **Where an index misreads an attribute,** there is a node from which the step leads to
attributes only, some of which the index selects. -/
theorem exists_selected_of_misread (hs : s.IsReliable) (h : s.Misread head q)
    (hprobed : ∀ id p, q.expr.probe? = some (id, p) →
      q.expr.probed? (some ⟨head.test.name?, head.axis⟩) = some p) :
    ∃ parent found id p keep n, s.Has parent ∧
      s.navigate head.axis head.test (s.persistent [parent]) = .ok (s.persistent found) ∧
      (∀ m ∈ found, s.HasKind m .attr) ∧ q.expr.probe? = some (id, p) ∧
      p.answer s (s.persistent found) = .ok (some ((s.persistent found).filter keep)) ∧
      n ∈ (s.persistent found).filter keep := by
  obtain ⟨hattr, _, _, id, p, n, c, hp, hrelation, hhits, hc, hcovers⟩ := h
  obtain ⟨name, hname, hpname⟩ := name_of_identity (hprobed id p hp) hrelation
  have hbears := (Store.hits_iff.1 hhits).1
  rw [hpname] at hbears
  have hn : s.HasKind n .attr := by
    rw [Axis.nameType_of_isAttributeAxis hattr] at hbears
    exact hbears.hasKind_attr
  obtain ⟨parent, hchild, hparent⟩ := hs.indexed.exists_parent_of_attr hn
  have hparents : ∀ m ∈ (s.persistent [parent] : NodeSet), s.Has m := by
    intro m hm
    rw [List.mem_singleton.1 (NodeSet.mem_ofList.1 hm)]
    exact hparent
  obtain ⟨found, hfound, hmem⟩ := hs.indexed.navigate_eq_ok
    (Axis.isStraight_of_isAttributeAxis hattr) head.test hparents
  -- All that is found is attributes of one document, and the index covers that.
  have hattrs : ∀ m ∈ found, s.HasKind m .attr ∧ m.doc = n.doc := by
    intro m hm
    obtain ⟨parent', hparent', hleads, hpasses⟩ := (hmem m).1 hm
    obtain rfl := List.mem_singleton.1 (NodeSet.mem_ofList.1 hparent')
    rw [hname, Store.passes_name_iff (hs.indexed.has_of_leads hparent hleads),
      Axis.nameType_of_isAttributeAxis hattr] at hpasses
    refine ⟨hpasses.hasKind_attr, ?_⟩
    rw [hleads.doc_eq, (Node.within_of_isChildOf hchild).doc_eq]
  have hnfound : n ∈ found := by
    refine (hmem n).2 ⟨parent, NodeSet.mem_ofList.2 (List.mem_singleton_self _),
      Store.leads_of_isAttributeAxis hattr hn hchild, ?_⟩
    rw [hname]
    exact (Store.passes_name_iff hn.has).2 hbears
  have hhas : ∀ m ∈ s.persistent found, s.Has m := fun m hm =>
    (hattrs m (NodeSet.mem_ofList.1 hm)).1.has
  obtain ⟨cs, hcs⟩ := hs.indexed.exists_collections hhas
  have hcovers' : p.covers cs = true := by
    obtain ⟨_, type, hfits, hdeclares⟩ := IndexProbe.covers_iff.1 hcovers
    refine IndexProbe.covers_iff.2 ⟨?_, type, hfits, fun c' hc' => ?_⟩
    · obtain ⟨c', hc', _⟩ := exists_of_mapM hcs
        (NodeSet.mem_documents.2 ⟨n, NodeSet.mem_ofList.2 hnfound, rfl⟩)
      exact List.ne_nil_of_mem hc'
    · obtain ⟨doc, hdoc, hdocc⟩ := (mem_of_mapM hcs).1 hc'
      obtain ⟨m, hm, rfl⟩ := NodeSet.mem_documents.1 hdoc
      rw [(hattrs m (NodeSet.mem_ofList.1 hm)).2, hc] at hdocc
      exact hdeclares c' (List.mem_singleton.2 (Except.ok.inj hdocc).symm)
  obtain ⟨keep, hanswer, hkeep⟩ := IndexProbe.answer_eq_ok hs hrelation hcs hcovers'
  have hnset : n ∈ s.persistent found := NodeSet.mem_ofList.2 hnfound
  exact ⟨parent, found, id, p, keep, n, hparent, hfound, fun m hm => (hattrs m hm).1, hp, hanswer,
    NodeSet.mem_filter.2 ⟨hnset, (hkeep n hnset).2 ⟨n, rfl, hhits⟩⟩⟩

/-- The outcome of a step with a single predicate that is a condition. -/
theorem outcome_step_single (hfree : (step head [q]).IsPragmaFree) (hmode : q.mode = .boolean)
    {focus : Focus} {context : SharedSet} (hcontext : contextSet s focus = .ok context)
    {selected : NodeSet} (hselect : σ.outcome (selectAxis s head context.set) = .ok selected) :
    σ.outcome ((step head [q]).evaluate s focus) = (do
      match ← byIndex s .boolean q.expr.probe? (.ofSet selected) with
      | some kept => pure (.ofSet kept)
      | none => σ.outcome (applyByItem (q.expr.evaluate s) false (.ofSet selected))) := by
  have hq : ∀ r ∈ [q], r.expr.IsPragmaFree := fun r hr => hfree.mono (parts_subset_step hr)
  have hpositional : hasPositional [q] = false := by
    unfold hasPositional
    rw [List.any_cons, List.any_nil, hmode]
    rfl
  rw [outcome_step hfree, hcontext, ok_bind, hpositional, if_neg Bool.false_ne_true, hselect,
    ok_bind, outcome_applyPredicates_cons hq,
    outcome_applyPredicate (reads_evaluate (hq q List.mem_cons_self)), hmode]
  refine (bind_congr fun kept => outcome_applyPredicates_nil false kept).trans ?_
  exact bind_pure _

/-- **Where an index misreads an attribute,** the step selects something by index and nothing
without. -/
theorem exists_outcome_of_misread (hs : s.IsReliable) (hσ : σ.IsBare) {head' : StepHead}
    {q' : Predicate} (hfree : (step head [q]).IsPragmaFree)
    (hfree' : (step head' [q']).IsPragmaFree) (haxis : head'.axis = head.axis)
    (htest : head'.test = head.test) (hmode : q'.mode = q.mode) (hprobe' : q'.expr.probe? = none)
    (hself' : q'.expr.namesSelf = q.expr.namesSelf)
    (hprobed' : ∀ outer, q'.expr.probed? outer = q.expr.probed? outer)
    (hprobed : ∀ id p, q.expr.probe? = some (id, p) →
      q.expr.probed? (some ⟨head.test.name?, head.axis⟩) = some p ∧
        (p.op = .startsWith → p.key ≠ .string ""))
    (h : s.Misread head q) :
    ∃ focus, focus.IsIn s ∧ ∃ v w, σ.outcome ((step head' [q']).evaluate s focus) = .ok v ∧
      σ.outcome ((step head [q]).evaluate s focus) = .ok w ∧ v.toItems = [] ∧ w.toItems ≠ [] := by
  obtain ⟨parent, found, id, p, keep, n, hparent, hfound, hattrs, hp, hanswer, hn⟩ :=
    exists_selected_of_misread hs h fun id p hp => (hprobed id p hp).1
  obtain ⟨_, hboolean, hself, _⟩ := h
  obtain ⟨hp', hkey⟩ := hprobed id p hp
  have hin : (s.persistent [parent] : NodeSet).IsIn s :=
    NodeSet.isIn_ofList _ fun m hm => List.mem_singleton.1 hm ▸ hparent
  have hselect : ∀ h : StepHead, h.axis = head.axis → h.test = head.test →
      σ.outcome (selectAxis s h (s.persistent [parent])) = .ok (s.persistent found) := by
    intro h haxis htest
    rw [outcome_selectAxis_eq_navigate hσ hs.answering h hin.2, haxis, htest, hfound]
    rfl
  have hcontext : contextSet s (.on (.nodes ⟨s.persistent [parent], none⟩)) =
      .ok ⟨s.persistent [parent], none⟩ := rfl
  have hfree'' : q'.expr.IsPragmaFree := hfree'.mono (parts_subset_step List.mem_cons_self)
  refine ⟨.on (.nodes ⟨s.persistent [parent], none⟩), ⟨?_, fun _ h => nomatch h⟩,
    withItems (.ofSet (s.persistent found)) [], .ofSet ((s.persistent found).filter keep), ?_, ?_,
    rfl, ?_⟩
  · rintro v ⟨⟩
    exact hin
  · -- The condition holds of none of the attributes.
    rw [outcome_step_single hfree' (hmode.trans hboolean) hcontext (hselect head' haxis htest),
      hprobe']
    change σ.outcome (applyByItem (q'.expr.evaluate s) false (.ofSet (s.persistent found))) = _
    refine outcome_applyByItem_of_false (reads_evaluate hfree'') false fun item hitem => ?_
    obtain ⟨m, hm, rfl⟩ := List.mem_map.1 hitem
    have hitem : contextSet s (itemFocus (Sequence.ofSet (s.persistent found)).isPersistent
        (.node m)) = .ok ⟨s.persistent [m], none⟩ := rfl
    exact outcome_condition_of_attr hs hσ hfree'' ((hprobed' _).trans hp') hkey
      (hself'.trans hself) (hattrs m (NodeSet.mem_ofList.1 hm)) hitem fun m' =>
        NodeSet.mem_ofList.trans List.mem_singleton
  · rw [outcome_step_single hfree hboolean hcontext (hselect head rfl rfl), hp]
    change (p.answer s (s.persistent found) >>= _) = _
    rw [hanswer]
    rfl
  · exact List.ne_nil_of_mem (List.mem_map_of_mem hn)

end Expr
end IndexedXml
