/-
# Evaluation stays inside the store

From the nodes of a store all ways through the store lead to nodes of the store, and on none of
them a node or a document is asked for that is not there (`Store.IsIndexed.encloses`).  The
identifiers of parents, ancestors and document nodes are only computed, and what indexes list is
taken on trust; that they name nodes of the store is the layout of its documents.

Hence no query ever fails for a missing node, and its value holds none
(`CompiledQuery.evaluate_within`).
-/

import IndexedXml.Proofs.Query.Confinement
import IndexedXml.Proofs.Query.NarrowedContext

namespace IndexedXml

/-- Whether a store refuses because a node or a document is not there. -/
def StoreError.isDangling : StoreError → Bool
  | nodeNotFound _ _ | documentNotFound _ => true
  | _ => false

namespace Store

variable {s : Store}

/-- **From a node of the store every axis leads to nodes of the store.** -/
theorem IsIndexed.exists_along (h : s.IsIndexed) (axis : Axis) {n : Node} (hn : s.Has n) :
    ∃ l, s.along axis n = .ok l ∧ ∀ m ∈ l, s.Has m := by
  suffices hok : ∃ l, s.along axis n = .ok l by
    obtain ⟨l, hl⟩ := hok
    exact ⟨l, hl, fun m hm => h.has_of_along hn hl hm⟩
  by_cases haxis : axis.isStraight = true
  · obtain ⟨l, hl, -⟩ := h.along_eq_ok haxis hn
    exact ⟨l, hl⟩
  have hsiblings : ∀ test, ∃ l, s.siblings n test = .ok l := by
    intro test
    unfold siblings
    cases hparent : n.parent? with
    | none => exact ⟨[], rfl⟩
    | some p =>
      obtain ⟨e, he⟩ := hn
      have hkind : s.nodeKind n = .ok e.kind := by rw [nodeKind, he]; rfl
      obtain ⟨level, hlevel, -⟩ :=
        h.children_eq_ok (h.has_parent ⟨e, he⟩ (Node.parent?_eq_some_iff.1 hparent)).1
      simp only [hkind, hlevel, ok_bind]
      split_ifs
      · exact ⟨[], rfl⟩
      · exact ⟨_, rfl⟩
  cases axis with
  | followingSibling => exact hsiblings _
  | precedingSibling => exact hsiblings _
  | _ => exact absurd rfl haxis

/-- Navigation from nodes of the store does not fail. -/
theorem IsIndexed.meets_navigate (h : s.IsIndexed) {F : StoreError → Prop} (axis : Axis)
    (test : NodeTest) {context : NodeSet} (hcontext : context.All s.Has) :
    Meets (NodeSet.All s.Has) F (s.navigate axis test context) := by
  refine Meets.bind (Meets.mapM (Q := fun found => ∀ m ∈ found, s.Has m) fun n hn => ?_)
    fun found hfound => .ok (NodeSet.all_ofList fun m hm => ?_)
  · obtain ⟨l, hl, hhas⟩ := h.exists_along axis (hcontext n hn)
    obtain ⟨kept, hkept, hmem⟩ := filterPassing_passes axis test hhas
    rw [hl, ok_bind, hkept]
    exact .ok fun m hm => hhas m ((hmem m).1 hm).1
  · obtain ⟨l, hl, hm⟩ := List.mem_flatten.1 hm
    exact hfound l hl m hm

/-- What an index by value lists in a document are nodes of the document. -/
theorem IsIndexed.has_of_mem_hitsIn (h : s.IsIndexed) {query : RangeQuery} {doc : DocId} {n : Node}
    (hn : n ∈ s.hitsIn query doc) : s.Has n := by
  obtain ⟨l, hl, hn⟩ := mem_getD_nil.1 (List.mem_filter.1 hn).1
  simp only [Option.bind_eq_bind, Option.bind_eq_some_iff, Option.pure_def, Option.some.injEq] at hl
  obtain ⟨d, hd, type, ⟨c, hc, htype⟩, asked, -, entries, hentries, rfl⟩ := hl
  obtain ⟨entry, hentry, rfl⟩ := List.mem_map.1 hn
  -- The keys may be of another type than the lookup takes, but they are keys of nodes.
  have hkeyed : (c.keyType? query.name).isSome = true := by
    rw [c.isSome_keyType?, htype]
    rfl
  obtain ⟨keyType, hkeyType⟩ := Option.isSome_iff_exists.1 hkeyed
  have hlisted : entry ∈ (d.ranges.find? query.name).getD [] := by
    rw [hentries]
    exact (List.mem_filter.1 hentry).1
  exact ((h.mem_ranges hd hc hkeyType entry).1 hlisted).1.has

/-- **No way through a store leads out of it.** -/
theorem IsIndexed.encloses (h : s.IsIndexed) :
    s.Encloses s.Has fun cause => cause.isDangling = false where
  navigate axis test context hcontext := h.meets_navigate axis test hcontext
  descendants name axis docs context haxis := by
    cases hprobes : s.interrupted with
    | true =>
      unfold findDescendants unlessInterrupted
      rw [if_pos hprobes]
      exact .error rfl
    | false =>
      obtain ⟨found, hfound, hmem⟩ := h.findDescendants_eq_ok hprobes haxis name docs context
      rw [hfound]
      exact .ok (NodeSet.all_ofList fun m hm => ((hmem m).1 hm).1.has)
  ancestors name axis docs selection haxis := by
    cases hprobes : s.interrupted with
    | true =>
      unfold findAncestors unlessInterrupted
      rw [if_pos hprobes]
      exact .error rfl
    | false =>
      obtain ⟨found, hfound, hmem⟩ := h.findAncestors_eq_ok hprobes haxis name docs selection
      rw [hfound]
      exact .ok (NodeSet.all_ofList fun m hm => ((hmem m).1 hm).1.has)
  byValue query := by
    cases hprobes : s.interrupted with
    | true =>
      unfold findByValue unlessInterrupted
      rw [if_pos hprobes]
      exact .error rfl
    | false =>
      obtain ⟨found, hfound, hmem⟩ := exists_findByValue hprobes query
      rw [hfound]
      exact .ok (NodeSet.all_ofList fun m hm => h.has_of_mem_hitsIn ((hmem m).1 hm).2)
  ofDocument entry hentry := h.has_documentNode hentry
  documentOf n hn := h.has_document hn
  collectionOf n hn := by
    obtain ⟨d, hd⟩ := hn.document?
    obtain ⟨c, -, hc⟩ := h.exists_collection hd
    rw [hc]
    exact .ok trivial
  stringValue n hn := by
    obtain ⟨text, htext⟩ := exists_stringValue hn
    rw [htext]
    exact .ok trivial
  collectionNotFound uri := rfl

end Store

/-- **The nodes that a run holds are in the store:** those of variables, and the candidates
prepared for steps.  There are no candidates but while a pragma evaluates. -/
structure Run.IsIn (run : Run) (s : Store) : Prop where
  bindings : ∀ entry ∈ run.context.bindings, entry.2.All s.Has
  prepared : ∀ id set, run.context.preloaded.get? id = some set → set.All s.Has

namespace CompiledQuery

/-- **Evaluation stays inside the store.**  For a context and variables on nodes of the store, all
nodes in the value of a query are in the store, the query never fails for a node or a document
that is not there, and the run that it leaves holds nodes of the store alone. -/
theorem evaluate_within {s : Store} (hs : s.Reachable) (q : CompiledQuery) {run : Run}
    (hrun : run.IsIn s) {focus : Focus} (hfocus : focus.All s.Has) :
    (∀ v, (q.evaluate s focus).result run = .ok v → ∀ n, .node n ∈ v.toItems → s.Has n) ∧
      (∀ doc id, (q.evaluate s focus).result run ≠ .error (.store (.nodeNotFound doc id))) ∧
      (∀ reference,
        (q.evaluate s focus).result run ≠ .error (.store (.documentNotFound reference))) ∧
      ((q.evaluate s focus).after run).IsIn s := by
  obtain ⟨hafter, hresult⟩ :=
    q.root.stays_evaluate hs.isIndexed.encloses hrun.bindings focus hfocus run ⟨rfl, hrun.prepared⟩
  refine ⟨fun v hv => ?_, fun doc id he => ?_, fun reference he => ?_, ?_, hafter.prepared⟩
  · exact (hv ▸ hresult).value
  · exact nomatch (he ▸ hresult).cause _ rfl
  · exact nomatch (he ▸ hresult).cause _ rfl
  · exact fun entry hentry => hrun.bindings entry (hafter.bindings ▸ hentry)

/-- An optimized query for what holds a book: its context is narrowed to one document, candidates
are prepared for its step, and the library is known from the identifier of the book alone. -/
theorem evaluate_within_books : ∃ q v,
    compile "(# exist:optimize #) \x7b //book[title = 'Dune']/ancestor::library \x7d" .standard = .ok q ∧
      booksStore.Reachable ∧ Focus.All booksStore.Has (.on (.nodes libraries)) ∧
      (q.evaluate booksStore (.on (.nodes libraries))).result ⟨.ofBindings [], .zero⟩ = .ok v ∧
      v.toItems = [.node ⟨1, ⟨[1]⟩⟩] ∧ booksStore.Has ⟨1, ⟨[1]⟩⟩ := by
  have hfound : (compile "(# exist:optimize #) \x7b //book[title = 'Dune']/ancestor::library \x7d"
      .standard >>= fun q => ((q.evaluate booksStore (.on (.nodes libraries))).result
        ⟨.ofBindings [], .zero⟩).map Sequence.toItems) = .ok [.node ⟨1, ⟨[1]⟩⟩] := by
    decide +kernel
  obtain ⟨q, hq, hvalue⟩ := bind_eq_ok.1 hfound
  obtain ⟨v, hv, hitems⟩ := map_eq_ok.1 hvalue
  have hfocus : Focus.All booksStore.Has (.on (.nodes libraries)) := by
    refine ⟨?_, nofun⟩
    rintro w ⟨⟩
    exact Sequence.all_nodes.2 isIn_libraries.2
  have hrun : Run.IsIn ⟨.ofBindings [], .zero⟩ booksStore := ⟨nofun, nofun⟩
  refine ⟨q, v, hq, reachable_booksStore, hfocus, hv, hitems, ?_⟩
  exact (evaluate_within reachable_booksStore q hrun hfocus).1 v hv _
    (hitems ▸ List.mem_singleton_self _)

end CompiledQuery
end IndexedXml
