/-
# Queries with and without indexes

A query below the pragma `no-index` is compiled to what it is compiled to without the pragma,
with numbers moved up and with tree traversal throughout.  So whenever it has a value, the
query without the pragma has the same value, unless an index misreads an attribute
(`Expr.evaluate_of_noIndex`).
-/

import IndexedXml.Proofs.Query.Misreading
import IndexedXml.Proofs.Query.Pragmas

namespace IndexedXml

open Evaluation Setting

variable {s : Store} {σ : Setting}

/-- The pragma that keeps to tree traversal, as it is written. -/
def PragmaDecl.noIndex : PragmaDecl := ⟨"exist:no-index", ""⟩

/-- The pragma that keeps to tree traversal, as the second part of a query. -/
def Pragma.noIndex : Pragma := ⟨2, Pragma.exist "no-index", "", .noIndex, false⟩

theorem Pragma.create_noIndex (config : Configuration) :
    Pragma.create 2 (Pragma.resolveName PragmaDecl.noIndex.name) PragmaDecl.noIndex.contents config
      true = .ok (some .noIndex) := by
  have hname : Pragma.resolveName PragmaDecl.noIndex.name = Pragma.exist "no-index" := by
    decide +kernel
  have htrim : Text.trim "" = "" := by decide +kernel
  rw [hname, Pragma.noIndex, ← htrim]
  rfl

namespace Expr

/-- **Below the pragma `no-index`** an expression is evaluated as it is. -/
theorem result_noIndex {id : ExprId} {p : Pragma} (hp : p.kind = .noIndex) {body : Expr}
    (hfree : body.IsPragmaFree) {r : Run} (hr : σ.Holds r) (focus : Focus) :
    ((extension id [p] body).evaluate s focus).result r = σ.outcome (body.evaluate s focus) := by
  have hforce : p.kind ≠ .forceIndexUse := by
    rw [hp]
    decide
  have hevaluate : evaluatePragmas s (body.evaluate s) focus [p] =
      (update (·.enter p.id .evaluating) >>= fun _ => body.evaluate s focus) := by
    rw [evaluatePragmas, hp]
    rfl
  have hsetting : σ.Holds ((update (·.enter p.id .evaluating)).after
      ((update (·.enter p.id .activated)).after r)) := ⟨hr.bindings, hr.prepared⟩
  rw [result_extension_single hforce, activate_noIndex hp, hevaluate, result_bind]
  exact (reads_evaluate hfree focus _ hsetting).1

variable {config : Configuration} {surface : Surface} {e e' : Expr} {m m' : ExprId}

/-- **A query without pragmas, and the same query below the pragma `no-index`.** -/
theorem exists_body_of_noIndex (he : (ofSurface config surface).run .none = .ok (e, m))
    (he' : (ofSurface config (.pragma [.noIndex] (some surface))).run .none = .ok (e', m'))
    (hfree : e.IsPragmaFree) :
    ∃ body : Expr, e = body.analyze ⟨.none, false, none⟩ ∧
      e' = extension 1 [Pragma.noIndex.analyze .none]
        ((body.renumber 2).analyze ⟨.none, true, none⟩) := by
  obtain ⟨body, k, hbody, rfl⟩ := exists_lower_of_ofSurface he hfree
  obtain ⟨body', k', hbody', rfl⟩ := exists_lower_of_pragma (Pragma.create_noIndex config) he'
  refine ⟨body, rfl, ?_⟩
  have hshifted : Shifted 2 (renumber 2) (surface.lower config) (surface.lower config) :=
    surface.shifted_lower
  have hmoved : (surface.lower config).run 2 =
      ((surface.lower config).run .none).map fun r => (r.1.renumber 2, r.2 + 2) := hshifted 0
  rw [hbody] at hmoved
  obtain ⟨rfl, _⟩ := Prod.mk.inj (Except.ok.inj (hbody'.symm.trans hmoved))
  rfl

/-- The query is evaluated as its body is with indexes, and as its body is without. -/
theorem result_of_noIndex {body : Expr} (he : e = body.analyze ⟨.none, false, none⟩)
    (he' : e' = extension 1 [Pragma.noIndex.analyze .none]
      ((body.renumber 2).analyze ⟨.none, true, none⟩))
    (hfree : e.IsPragmaFree) {run : Run} (hrun : σ.Holds run) (focus : Focus) :
    (e.evaluate s focus).result run =
        σ.outcome ((body.analyze ⟨.none, false, none⟩).evaluate s focus) ∧
      (e'.evaluate s focus).result run =
        σ.outcome (((body.renumber 2).analyze ⟨.none, true, none⟩).evaluate s focus) := by
  rw [he, isPragmaFree_analyze] at hfree
  rw [he, he']
  refine ⟨(reads_evaluate ((isPragmaFree_analyze _ _).2 hfree) focus run hrun).1, ?_⟩
  refine result_noIndex rfl ?_ hrun focus
  exact (isPragmaFree_analyze _ _).2 ((isPragmaFree_renumber _ _).2 hfree)

/-- A query of one step with one predicate, with and without indexes. -/
theorem exists_result_of_misread {body : Expr} {head : StepHead} {p : Predicate}
    (hs : s.IsReliable) (hσ : σ.IsBare) (hfree : body.IsPragmaFree)
    (hroot : body.analyze ⟨.none, false, none⟩ = .step head [p])
    (hprefixes : (step head [p]).HasPrefixes) (h : s.Misread head p) :
    ∃ focus, focus.IsIn s ∧ ∃ v w,
      σ.outcome (((body.renumber 2).analyze ⟨.none, true, none⟩).evaluate s focus) = .ok v ∧
      σ.outcome ((body.analyze ⟨.none, false, none⟩).evaluate s focus) = .ok w ∧
        v.toItems = [] ∧ w.toItems ≠ [] := by
  cases body with
  | step own predicates =>
    rcases predicates with _ | ⟨own', _ | ⟨_, _⟩⟩
    · cases hroot
    · let around : Surroundings := ⟨own.id, false, some ⟨own.test.name?, own.axis⟩⟩
      have hhead : { own with treeTraversal := false } = head := (step.inj hroot).1
      have hpredicate : [(⟨own'.id, own'.expr.analyze around, own'.mode⟩ : Predicate)] = [p] :=
        (step.inj hroot).2
      obtain rfl := List.singleton_inj.1 hpredicate
      obtain rfl := hhead
      have hfreeTree := (isPragmaFree_analyze ⟨.none, true, none⟩ _).2
        ((isPragmaFree_renumber 2 _).2 hfree)
      refine exists_outcome_of_misread hs hσ ((isPragmaFree_analyze _ _).2 hfree)
        hfreeTree rfl rfl rfl ?_ ?_ (fun outer => ?_) (fun id probe hprobe => ?_) h
      · exact Option.map_eq_none_iff.1 (probe?_analyze _ _)
      · exact (namesSelf_analyze _ _).trans
          ((namesSelf_renumber 2 _).trans (namesSelf_analyze _ _).symm)
      · exact (probed?_analyze _ _ _).trans
          ((probed?_renumber 2 _ _).trans (probed?_analyze _ _ _).symm)
      · have hprobed : (own'.expr.analyze around).probed? around.outer = some probe := by
          have hsame := probe?_analyze around own'.expr
          rw [show (own'.expr.analyze around).probe? = some (id, probe) from hprobe] at hsame
          exact (probed?_analyze _ _ _).trans hsame.symm
        exact ⟨hprobed, (hprefixes.mono (parts_subset_step List.mem_cons_self)).ne_empty hprobed⟩
    · cases hroot
  | _ => cases hroot

/-- **Tree traversal and index evaluation agree, unless an index misreads an attribute.**
Whenever a query below the pragma `no-index` has a value, the query without the pragma has the
same value, provided that no condition in it asks an index for the name of an attribute where
navigation looks for an element.  A query of one such step with one such condition does have
another value from some node. -/
theorem evaluate_of_noIndex (he : (ofSurface config surface).run .none = .ok (e, m))
    (he' : (ofSurface config (.pragma [.noIndex] (some surface))).run .none = .ok (e', m'))
    (hfree : e.IsPragmaFree) (hprefixes : e.HasPrefixes) (hs : s.Reachable) (hplain : s.IsPlain)
    (hprobes : s.interrupted = false) {run : Run}
    (hrun : ∀ id, run.context.preloaded.get? id = none)
    (hbindings : ∀ name v, run.context.value name = .ok v → v.IsIn s) :
    ((∀ head predicates, .expr (.step head predicates) ∈ e.parts →
        ∀ p ∈ predicates, ¬ s.Misread head p) →
      ∀ focus, focus.IsIn s → ∀ v, (e'.evaluate s focus).result run = .ok v →
        (e.evaluate s focus).result run = .ok v) ∧
    ∀ head p, e = .step head [p] → s.Misread head p →
      ∃ focus, focus.IsIn s ∧ ∃ v w, (e'.evaluate s focus).result run = .ok v ∧
        (e.evaluate s focus).result run = .ok w ∧ v.toItems ≠ w.toItems := by
  obtain ⟨body, hbody, hbody'⟩ := exists_body_of_noIndex he he' hfree
  let σ : Setting := ⟨run.context.bindings, run.context.preloaded⟩
  have hholds : σ.Holds run := ⟨rfl, fun _ => rfl⟩
  have hreliable : s.IsReliable := ⟨hs.isIndexed, hplain, hprobes⟩
  have hresult := result_of_noIndex (s := s) hbody hbody' hfree hholds
  refine ⟨fun hreads focus hfocus v hv => ?_, fun head p hstep hmisread => ?_⟩
  · rw [(hresult focus).1]
    rw [(hresult focus).2] at hv
    have hagrees := agrees (k := 2) hreliable (σ := σ) hrun hbindings body none .none
      (hbody ▸ ⟨hfree, hprefixes, hreads⟩) .none focus hfocus
    exact (hagrees v hv).1
  · rw [hbody] at hstep hfree
    rw [hbody, hstep] at hprefixes
    obtain ⟨focus, hfocus, v, w, hv, hw, hvitems, hwitems⟩ := exists_result_of_misread
      hreliable (σ := σ) hrun ((isPragmaFree_analyze _ _).1 hfree) hstep hprefixes hmisread
    refine ⟨focus, hfocus, v, w, (hresult focus).2.trans hv, (hresult focus).1.trans hw, ?_⟩
    rw [hvitems]
    exact hwitems.symm

/-- Whether the part is no expression with pragmas and no search for the empty text. -/
def Part.isPlain : Part → Bool
  | .expr (.extension _ _ _) => false
  | .expr (.call _ .startsWith [_, .literal (.string "")] _) => false
  | _ => true

/-- Whether the part is a step that selects among attributes. -/
def Part.selectsAttributes : Part → Bool
  | .expr (.step head (_ :: _)) => head.axis.isAttributeAxis
  | _ => false

theorem plain_of_parts (h : e.parts.all Part.isPlain = true) : e.IsPragmaFree ∧ e.HasPrefixes := by
  rw [List.all_eq_true] at h
  exact ⟨fun id pragmas body hmem => absurd (h _ hmem) Bool.false_ne_true,
    fun id path access hmem => absurd (h _ hmem) Bool.false_ne_true⟩

/-- **Nothing is misread when no step selects among attributes,** whatever the store. -/
theorem not_misread_of_parts (h : e.parts.any Part.selectsAttributes = false) :
    ∀ head predicates, .expr (.step head predicates) ∈ e.parts →
      ∀ p ∈ predicates, ¬ s.Misread head p := by
  intro head predicates hmem p hp hmisread
  rw [List.any_eq_false] at h
  cases predicates with
  | nil => cases hp
  | cons q rest => exact h _ hmem hmisread.1

/-- A store with one document whose attribute is indexed. -/
def langStore : Store :=
  (Store.empty.perform (.configureCollection "/db" [⟨⟨.attr, ⟨none, "lang", none⟩⟩, .string⟩])).perform
    (.storeXml "/db" "l.xml" "<book lang='en'/>")

theorem reachable_langStore : langStore.Reachable := .perform (.perform .empty _) _

theorem isPlain_langStore : langStore.IsPlain := by
  have hcollections : langStore.collections =
      [⟨"/db", [⟨⟨.attr, ⟨none, "lang", none⟩⟩, .string⟩]⟩] := by
    decide +kernel
  intro c hc
  rw [hcollections] at hc
  obtain rfl := List.mem_singleton.1 hc
  exact ⟨List.pairwise_singleton _ _, by decide⟩

/-- The query `/book[@lang = 'en']`. -/
def bookQuery : Surface :=
  .path (some .root) [.axis false .child (.name "book")
    [.comparison .eq (.path none [.axis false .attr (.name "lang") []]) (.literal (.string "en"))]]

/-- The query `@lang[self::lang = 'en']`. -/
def langQuery : Surface :=
  .path none [.axis false .attr (.name "lang")
    [.comparison .eq (.path none [.axis false .self (.name "lang") []]) (.literal (.string "en"))]]

/-- A query for elements by an attribute has the same value with and without indexes. -/
theorem evaluate_of_noIndex_bookQuery : ∃ e e' m m',
    (ofSurface .standard bookQuery).run .none = .ok (e, m) ∧
    (ofSurface .standard (.pragma [.noIndex] (some bookQuery))).run .none = .ok (e', m') ∧
    ∀ focus, focus.IsIn langStore → ∀ v,
      (e'.evaluate langStore focus).result ⟨.ofBindings [], .zero⟩ = .ok v →
        (e.evaluate langStore focus).result ⟨.ofBindings [], .zero⟩ = .ok v := by
  have hplain : ((ofSurface .standard bookQuery).run .none).map
      (fun r => (r.1.parts.all Part.isPlain, r.1.parts.any Part.selectsAttributes)) =
        .ok (true, false) := by
    decide +kernel
  have hcompiles : ((ofSurface .standard (.pragma [.noIndex] (some bookQuery))).run .none).toBool =
      true := by
    decide +kernel
  rcases he : (ofSurface .standard bookQuery).run .none with _ | ⟨e, m⟩
  · rw [he] at hplain
    cases hplain
  · rcases he' : (ofSurface .standard (.pragma [.noIndex] (some bookQuery))).run .none with
      _ | ⟨e', m'⟩
    · rw [he'] at hcompiles
      cases hcompiles
    · rw [he] at hplain
      obtain ⟨hplain, hselects⟩ := Prod.mk.inj (Except.ok.inj hplain)
      obtain ⟨hfree, hprefixes⟩ := plain_of_parts hplain
      let run : Run := ⟨.ofBindings [], .zero⟩
      have hrun : ∀ id, run.context.preloaded.get? id = none := fun _ => rfl
      have hbindings : ∀ name v, run.context.value name = .ok v → v.IsIn langStore := by
        intro name v hv
        cases hv
      exact ⟨e, e', m, m', rfl, rfl, (evaluate_of_noIndex he he' hfree hprefixes
        reachable_langStore isPlain_langStore rfl hrun hbindings).1 (not_misread_of_parts hselects)⟩

/-- **A query for an attribute by its own name** has a value with indexes that it does not have
without. -/
theorem evaluate_ne_noIndex_langQuery : ∃ e e' m m' focus v w,
    (ofSurface .standard langQuery).run .none = .ok (e, m) ∧
    (ofSurface .standard (.pragma [.noIndex] (some langQuery))).run .none = .ok (e', m') ∧
    e.IsPragmaFree ∧ e.HasPrefixes ∧ focus.IsIn langStore ∧
    (e'.evaluate langStore focus).result ⟨.ofBindings [], .zero⟩ = .ok v ∧
    (e.evaluate langStore focus).result ⟨.ofBindings [], .zero⟩ = .ok w ∧ v.toItems = [] ∧
      w.toItems = [.node ⟨0, ⟨[1, 1]⟩⟩] := by
  let focus : Focus := ⟨some (.ofSet ⟨[⟨0, ⟨[1]⟩⟩], true⟩), none⟩
  have hindex : ((ofSurface .standard langQuery).run .none).map (fun r =>
      (r.1.parts.all Part.isPlain, ((r.1.evaluate langStore focus).result
        ⟨.ofBindings [], .zero⟩).map Sequence.toItems)) =
          .ok (true, .ok [.node ⟨0, ⟨[1, 1]⟩⟩]) := by
    decide +kernel
  have htree : ((ofSurface .standard (.pragma [.noIndex] (some langQuery))).run .none).map (fun r =>
      ((r.1.evaluate langStore focus).result ⟨.ofBindings [], .zero⟩).map Sequence.toItems) =
        .ok (.ok []) := by
    decide +kernel
  have hnode : (⟨[⟨0, ⟨[1]⟩⟩], true⟩ : NodeSet).IsIn langStore := by
    decide +kernel
  obtain ⟨⟨e, m⟩, he, hindex⟩ := map_eq_ok.1 hindex
  obtain ⟨⟨e', m'⟩, he', htree⟩ := map_eq_ok.1 htree
  obtain ⟨hplain, hw⟩ := Prod.mk.inj hindex
  obtain ⟨w, hw, hwitems⟩ := map_eq_ok.1 hw
  obtain ⟨v, hv, hvitems⟩ := map_eq_ok.1 htree
  obtain ⟨hfree, hprefixes⟩ := plain_of_parts hplain
  refine ⟨e, e', m, m', focus, v, w, he, he', hfree, hprefixes, ⟨?_, fun _ h => nomatch h⟩, hv, hw,
    hvitems, hwitems⟩
  rintro v ⟨⟩
  exact hnode

end Expr
end IndexedXml
