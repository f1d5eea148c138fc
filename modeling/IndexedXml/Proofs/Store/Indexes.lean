/-
# Indexes along a run

Whatever changes a store went through, its indexes answer what the documents say that are
there now.  The index of names answers each axis with the nodes to which the identifiers
lead, and these are the nodes that navigation finds (`Store.answersAxes_run`).  The index
of keys answers with the nodes whose present text has a fitting key under the declaration
in force (`Store.findByValue_run`), as long as no change declares a name twice.
-/

import IndexedXml.Proofs.Store.Generation
import IndexedXml.Proofs.Store.Ranges
import IndexedXml.Proofs.Store.Runs

namespace IndexedXml
namespace Store

variable {s : Store}

/-! ### Names -/

/-- **The index of names answers exactly the relations of the axes.** -/
structure AnswersAxes (s : Store) : Prop where
  /-- Below a context: just the nodes to which a downward axis leads, in document order. -/
  below : ∀ axis, isDownward axis = true → ∀ name docs context,
    ∃ found, s.findDescendants name axis docs context = .ok found ∧ found.IsOrdered ∧
      ∀ m, m ∈ found ↔ s.LiesOn name axis docs context m
  /-- Other axes are refused there. -/
  notBelow : ∀ axis, isDownward axis = false → ∀ name docs context,
    s.findDescendants name axis docs context = .error (.unsupportedAxis axis)
  /-- Above a selection: just the nodes to which an upward axis leads, in document order. -/
  above : ∀ axis, axis ∈ [Axis.self, .parent, .ancestor, .ancestorOrSelf] →
    ∀ name docs selection,
      ∃ found, s.findAncestors name axis docs selection = .ok found ∧ found.IsOrdered ∧
        ∀ m, m ∈ found ↔ s.LiesOn name axis docs selection m
  /-- Other axes are refused there. -/
  notAbove : ∀ axis, axis ∉ [Axis.self, .parent, .ancestor, .ancestorOrSelf] →
    ∀ name docs selection,
      s.findAncestors name axis docs selection = .error (.unsupportedAxis axis)
  /-- Below nodes that are there, navigation with a name test finds the same, from those of
  them that are in the given documents. -/
  belowByTree : ∀ axis, isDownward axis = true → ∀ q docs (context : NodeSet),
    (∀ n ∈ context, s.Has n) → s.findDescendants ⟨axis.nameType, q⟩ axis docs context =
      s.navigate axis (.name q) (context.filter fun n => docs.contains n.doc)
  /-- Above nodes that are there, navigation with a name test finds the same. -/
  aboveByTree : ∀ axis, axis ∈ [Axis.self, .parent, .ancestor, .ancestorOrSelf] →
    ∀ q docs (selection : NodeSet), (∀ n ∈ selection, s.Has n) →
      s.findAncestors ⟨.element, q⟩ axis docs selection =
        s.navigate axis (.name q) (selection.filter fun n => docs.contains n.doc)

/-- A lookup below a context refuses the other axes. -/
theorem findDescendants_of_not_isDownward (hprobes : s.interrupted = false) {axis : Axis}
    (haxis : isDownward axis = false) (name : IndexedName) (docs : DocumentSet)
    (context : NodeSet) :
    s.findDescendants name axis docs context = .error (.unsupportedAxis axis) := by
  unfold findDescendants unlessInterrupted
  rw [if_neg (by simp [hprobes]), if_neg (by simp [haxis])]

/-- A lookup above a selection refuses the other axes. -/
theorem findAncestors_of_not_mem (hprobes : s.interrupted = false) {axis : Axis}
    (haxis : axis ∉ [Axis.self, .parent, .ancestor, .ancestorOrSelf]) (name : IndexedName)
    (docs : DocumentSet) (selection : NodeSet) :
    s.findAncestors name axis docs selection = .error (.unsupportedAxis axis) := by
  have hnone : upward? axis NodeId.document = none := by
    cases axis <;> first | rfl | exact absurd (by decide) haxis
  unfold findAncestors unlessInterrupted
  rw [if_neg (by simp [hprobes]), hnone]

/-- What a lookup below a context takes from it is in the given documents. -/
theorem findDescendants_filter (name : IndexedName) (axis : Axis) (docs : DocumentSet)
    (context : NodeSet) :
    s.findDescendants name axis docs (context.filter fun n => docs.contains n.doc) =
      s.findDescendants name axis docs context := by
  simp only [findDescendants, NodeSet.filter, List.filter_filter, Bool.and_self]

/-- What a lookup above a selection takes from it is in the given documents. -/
theorem findAncestors_filter (name : IndexedName) (axis : Axis) (docs : DocumentSet)
    (selection : NodeSet) :
    s.findAncestors name axis docs (selection.filter fun n => docs.contains n.doc) =
      s.findAncestors name axis docs selection := by
  simp only [findAncestors, NodeSet.filter, List.filter_filter, Bool.and_self]

/-- **At every point of every run the index of names answers exactly the relations of the
axes,** for all names, sets of documents and contexts. -/
theorem answersAxes_run (changes : List Change)
    (hprobes : (empty.run changes).interrupted = false) : (empty.run changes).AnswersAxes where
  below axis haxis name docs context := by
    obtain ⟨found, hfound, hmem⟩ := (reachable_run changes).isIndexed.findDescendants_eq_ok
      hprobes haxis name docs context
    exact ⟨_, hfound, NodeSet.isOrdered_ofList _ _, fun m => NodeSet.mem_ofList.trans (hmem m)⟩
  notBelow _ haxis name docs context :=
    findDescendants_of_not_isDownward hprobes haxis name docs context
  above axis haxis name docs selection := by
    obtain ⟨found, hfound, hmem⟩ := (reachable_run changes).isIndexed.findAncestors_eq_ok
      hprobes haxis name docs selection
    exact ⟨_, hfound, NodeSet.isOrdered_ofList _ _, fun m => NodeSet.mem_ofList.trans (hmem m)⟩
  notAbove _ haxis name docs selection :=
    findAncestors_of_not_mem hprobes haxis name docs selection
  belowByTree _ haxis q docs context hcontext := by
    rw [← findDescendants_filter]
    exact (reachable_run changes).isIndexed.findDescendants_eq_navigate hprobes haxis q
      (fun n hn => hcontext n (NodeSet.mem_filter.1 hn).1) fun n hn => (NodeSet.mem_filter.1 hn).2
  aboveByTree _ haxis q docs selection hselection := by
    rw [← findAncestors_filter]
    exact (reachable_run changes).isIndexed.findAncestors_eq_navigate hprobes haxis q
      (fun n hn => hselection n (NodeSet.mem_filter.1 hn).1) fun n hn => (NodeSet.mem_filter.1 hn).2

/-- A document with elements of one name in each other is stored, and then lookups are
switched off and on again. -/
def nestedParts : List Change :=
  [.storeXml "/db" "a.xml" "<part id='1'><part id='2'/>text</part>", .interrupt true,
    .interrupt false]

/-- From two nodes of the document, one below the other, and from one that is not there. -/
theorem answersAxes_run_nestedParts :
    (empty.run nestedParts).interrupted = false ∧
      ∃ found, (empty.run nestedParts).findDescendants ⟨.element, .simple "part"⟩
          .descendantOrSelf ⟨[0]⟩ (.ofList [.document 0, ⟨0, ⟨[1, 2]⟩⟩, ⟨0, ⟨[7]⟩⟩] true) =
          .ok found ∧
        found.nodes = [⟨0, ⟨[1]⟩⟩, ⟨0, ⟨[1, 2]⟩⟩] := by
  have hprobes : (empty.run nestedParts).interrupted = false := by decide +kernel
  obtain ⟨found, hfound, -, -⟩ := (answersAxes_run nestedParts hprobes).below .descendantOrSelf rfl
    ⟨.element, .simple "part"⟩ ⟨[0]⟩ (.ofList [.document 0, ⟨0, ⟨[1, 2]⟩⟩, ⟨0, ⟨[7]⟩⟩] true)
  refine ⟨hprobes, found, hfound, ?_⟩
  have hnodes : ((empty.run nestedParts).findDescendants ⟨.element, .simple "part"⟩
      .descendantOrSelf ⟨[0]⟩ (.ofList [.document 0, ⟨0, ⟨[1, 2]⟩⟩, ⟨0, ⟨[7]⟩⟩] true)).map
        NodeSet.nodes = .ok [⟨0, ⟨[1]⟩⟩, ⟨0, ⟨[1, 2]⟩⟩] := by
    decide +kernel
  rw [hfound] at hnodes
  exact Except.ok.inj hnodes

/-! ### Keys -/

/-- The change declares no name twice for a collection. -/
def Change.DeclaresOnce : Change → Prop
  | .configureCollection _ indexes => DeclareOnce indexes
  | .setConfiguration configuration => ∀ c ∈ configuration.collections, DeclareOnce c.indexes
  | _ => True

theorem DeclaresOnce.putCollection (h : s.DeclaresOnce) {c : Collection}
    (hc : DeclareOnce c.indexes) : (s.putCollection c).DeclaresOnce := by
  intro other hother
  rcases List.mem_append.1 hother with hold | hnew
  · exact h other (List.mem_of_mem_filter hold)
  · exact List.mem_singleton.1 hnew ▸ hc

theorem DeclaresOnce.ensureCollection (h : s.DeclaresOnce) (uri : String) :
    (s.ensureCollection uri).2.DeclaresOnce := by
  unfold Store.ensureCollection
  cases s.collection? uri with
  | some c => exact h
  | none => exact h.putCollection List.Pairwise.nil

theorem DeclaresOnce.dropPath (h : s.DeclaresOnce) (path : String) :
    (s.dropPath path).DeclaresOnce := by
  unfold Store.dropPath
  cases s.pathDoc? path <;> exact h

theorem DeclaresOnce.setConfiguration (h : s.DeclaresOnce) {configuration : Configuration}
    (honce : ∀ c ∈ configuration.collections, DeclareOnce c.indexes) :
    (s.setConfiguration configuration).DeclaresOnce := by
  have hfold : ∀ (settings : List CollectionSettings) (s : Store), s.DeclaresOnce →
      (∀ c ∈ settings, DeclareOnce c.indexes) →
        (settings.foldl (fun s c => s.configureCollection c.uri c.indexes) s).DeclaresOnce := by
    intro settings
    induction settings with
    | nil => exact fun _ h _ => h
    | cons c rest ih =>
      intro s h hall
      obtain ⟨hc, hrest⟩ := List.forall_mem_cons.1 hall
      exact ih _ (h.putCollection hc) hrest
  exact hfold configuration.collections s h honce

/-- **No change but a declaration brings a name in twice.** -/
theorem DeclaresOnce.perform (h : s.DeclaresOnce) {change : Change} (hchange : change.DeclaresOnce) :
    (s.perform change).DeclaresOnce := by
  have hstore : ∀ uri name root, (s.storeDocument uri name root).2.DeclaresOnce := by
    intro uri name root
    exact (h.ensureCollection (normalizeUri uri)).dropPath _
  cases change with
  | storeDocument uri name root => exact hstore uri name root
  | storeXml uri name xml =>
    cases hparse : Xml.parse xml with
    | error _ => exact (perform_storeXml_of_error s uri name hparse).symm ▸ h
    | ok root => exact (perform_storeXml s uri name hparse).symm ▸ hstore uri name root
  | removeDocument uri name =>
    cases hdoc : s.pathDoc? (normalizeUri uri ++ "/" ++ name) with
    | none => exact (perform_removeDocument_of_none hdoc).symm ▸ h
    | some doc => exact (perform_removeDocument hdoc).symm ▸ h.dropPath _
  | configureCollection uri indexes => exact h.putCollection hchange
  | setConfiguration configuration => exact h.setConfiguration hchange
  | createCollection uri => exact h.ensureCollection (normalizeUri uri)
  | interrupt on => exact h

theorem DeclaresOnce.run (h : s.DeclaresOnce) {changes : List Change}
    (hchanges : ∀ change ∈ changes, change.DeclaresOnce) : (s.run changes).DeclaresOnce := by
  induction changes generalizing s with
  | nil => exact h
  | cons change rest ih =>
    obtain ⟨hchange, hrest⟩ := List.forall_mem_cons.1 hchanges
    exact ih (h.perform hchange) hrest

/-- **At every point of every run the index of keys is exact.**  When no change declares a
name twice, a lookup by key finds, in document order, just the nodes of the name in the given
documents whose present text has a key, of the type that the document's collection declares
now, in the relation to the given value; and, within a context, just those that are or lie
below one of its nodes. -/
theorem findByValue_run (changes : List Change)
    (hchanges : ∀ change ∈ changes, change.DeclaresOnce)
    (hprobes : (empty.run changes).interrupted = false) (q : RangeQuery) :
    ∃ found, (empty.run changes).findByValue q = .ok found ∧ found.IsOrdered ∧ ∀ n, n ∈ found ↔
      q.docs.contains n.doc = true ∧ (∀ context ∈ q.context, ∃ a ∈ context, n.Within a) ∧
        (empty.run changes).Hits q.name q.op q.key n := by
  have honce : (empty.run changes).DeclaresOnce :=
    DeclaresOnce.run (fun c hc => absurd hc List.not_mem_nil) hchanges
  obtain ⟨found, hfound, hmem⟩ :=
    (reachable_run changes).isIndexed.findByValue_eq_ok honce hprobes q
  refine ⟨_, hfound, NodeSet.isOrdered_ofList _ _, fun n => ?_⟩
  have hdoc : q.docs.contains n.doc = true ↔ n.doc ∈ q.docs.docs := List.elem_iff
  have hwithin : isWithin q.context n = true ↔ ∀ context ∈ q.context, ∃ a ∈ context, n.Within a := by
    cases q.context with
    | none => simp [isWithin]
    | some context => simp [isWithin_iff]
  exact NodeSet.mem_ofList.trans ((hmem n).trans (by rw [hdoc, hwithin]))

/-- Two documents are stored before and after their collection declares an index on integers,
which one of the texts does not suit, and one is replaced. -/
def numberedPages : List Change :=
  [.storeXml "/db" "a.xml" "<book><page>7</page><page>none</page></book>",
    .configureCollection "/db" [⟨⟨.element, .simple "page"⟩, .integer⟩],
    .storeXml "/db" "b.xml" "<book><page>12</page></book>",
    .storeXml "/db" "b.xml" "<book><page>9</page></book>"]

/-- The pages from 8 on: one that was in the replaced document has gone. -/
theorem findByValue_run_numberedPages :
    (∀ change ∈ numberedPages, change.DeclaresOnce) ∧
      (empty.run numberedPages).interrupted = false ∧
        ∃ found, (empty.run numberedPages).findByValue
            ⟨⟨.element, .simple "page"⟩, .compare .ge, .integer 8, ⟨[0, 1, 2]⟩, none⟩ = .ok found ∧
          found.nodes = [⟨2, ⟨[1, 1]⟩⟩] := by
  have hchanges : ∀ change ∈ numberedPages, change.DeclaresOnce := by
    intro change hchange
    simp only [numberedPages, List.mem_cons, List.not_mem_nil, or_false] at hchange
    rcases hchange with rfl | rfl | rfl | rfl
    · trivial
    · exact List.pairwise_singleton _ _
    · trivial
    · trivial
  have hprobes : (empty.run numberedPages).interrupted = false := by decide +kernel
  obtain ⟨found, hfound, -, -⟩ := findByValue_run numberedPages hchanges hprobes
    ⟨⟨.element, .simple "page"⟩, .compare .ge, .integer 8, ⟨[0, 1, 2]⟩, none⟩
  refine ⟨hchanges, hprobes, found, hfound, ?_⟩
  have hnodes : ((empty.run numberedPages).findByValue
      ⟨⟨.element, .simple "page"⟩, .compare .ge, .integer 8, ⟨[0, 1, 2]⟩, none⟩).map
        NodeSet.nodes = .ok [⟨2, ⟨[1, 1]⟩⟩] := by
    decide +kernel
  rw [hfound] at hnodes
  exact Except.ok.inj hnodes

end Store
end IndexedXml
