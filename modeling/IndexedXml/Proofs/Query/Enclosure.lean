/-
# Evaluation among given nodes

The nodes that an evaluation comes by are those of its focus, of the values of variables and of
the candidates prepared for steps, and those to which the store leads from them.  So where the
store leads nowhere out of some property of nodes (`Store.Encloses`), evaluation keeps to the
nodes that have it, whatever the expression and its pragmas, and leaves runs behind that hold no
others (`Expr.keeps_evaluate`).  It fails as the store fails, or for reasons of its own.
-/

import IndexedXml.Proofs.Query.Extent
import IndexedXml.Proofs.Query.Keeping
import Mathlib.Tactic.SplitIfs

namespace IndexedXml

/-- All nodes of a set have a property. -/
def NodeSet.All (N : Node → Prop) (set : NodeSet) : Prop := ∀ n ∈ set, N n

/-- All nodes of a sequence have a property. -/
def Sequence.All (N : Node → Prop) (v : Sequence) : Prop := ∀ n, .node n ∈ v.toItems → N n

/-- All nodes of a focus have a property. -/
structure Focus.All (N : Node → Prop) (focus : Focus) : Prop where
  context : ∀ v, focus.context = some v → v.All N
  item : ∀ n, focus.item = some (.node n) → N n

/-- **No way through the store leads out of a property of nodes,** and where there is no way on,
the failure has a property. -/
structure Store.Encloses (s : Store) (N : Node → Prop) (F : StoreError → Prop) : Prop where
  navigate : ∀ axis test (context : NodeSet), context.All N →
    Meets (NodeSet.All N) F (s.navigate axis test context)
  descendants : ∀ name axis docs context, isDownward axis = true →
    Meets (NodeSet.All N) F (s.findDescendants name axis docs context)
  ancestors : ∀ name axis docs selection, axis ∈ [Axis.self, .parent, .ancestor, .ancestorOrSelf] →
    Meets (NodeSet.All N) F (s.findAncestors name axis docs selection)
  byValue : ∀ query, Meets (NodeSet.All N) F (s.findByValue query)
  ofDocument : ∀ entry ∈ s.documents, N (.document entry.1)
  documentOf : ∀ n, N n → N (.document n.doc)
  collectionOf : ∀ n, N n → Meets (fun _ => True) F (s.collectionOf n.doc)
  stringValue : ∀ n, N n → Meets (fun _ => True) F (s.stringValue n)
  collectionNotFound : ∀ uri, F (.collectionNotFound uri)

/-- A failure that is not the store's, or one of the store's that has a property. -/
def QueryError.Tolerated (F : StoreError → Prop) (e : QueryError) : Prop :=
  ∀ cause, e = .store cause → F cause

/-- **A run holds only nodes that have a property,** and the variables have given values. -/
structure Run.Confined (N : Node → Prop) (bindings : List (String × Sequence)) (r : Run) : Prop where
  bindings : r.context.bindings = bindings
  prepared : ∀ id set, r.context.preloaded.get? id = some set → set.All N

variable {s : Store} {N : Node → Prop} {F : StoreError → Prop}
  {bindings : List (String × Sequence)}

/-! ### Sets and sequences -/

theorem NodeSet.All.filter {set : NodeSet} (h : set.All N) (p : Node → Bool) : (set.filter p).All N :=
  fun n hn => h n (NodeSet.mem_filter.1 hn).1

theorem NodeSet.all_empty : NodeSet.empty.All N := fun _ h => nomatch h

theorem NodeSet.all_ofList {nodes : List Node} {persistent : Bool} (h : ∀ n ∈ nodes, N n) :
    (NodeSet.ofList nodes persistent).All N :=
  fun n hn => h n (NodeSet.mem_ofList.1 hn)

theorem NodeSet.All.union {set other : NodeSet} (h : set.All N) (hother : other.All N) :
    (set.union other).All N :=
  fun n hn => (NodeSet.mem_union.1 hn).elim (h n) (hother n)

/-- What narrowing keeps of a set. -/
theorem NodeSet.All.selectAncestorDescendant {lower upper : NodeSet} {mode : NarrowMode}
    (includeSelf : Bool) (h : (match mode with | .ancestor => upper | .descendant => lower).All N) :
    (lower.selectAncestorDescendant upper mode includeSelf).All N := by
  cases mode <;> exact h.filter _

theorem NodeSet.All.selectParentChild {lower upper : NodeSet} {mode : NarrowMode}
    (h : (match mode with | .ancestor => upper | .descendant => lower).All N) :
    (lower.selectParentChild upper mode).All N := by
  cases mode <;> exact h.filter _

namespace Sequence

theorem all_nodes {shared : SharedSet} : (Sequence.nodes shared).All N ↔ shared.set.All N := by
  constructor
  · exact fun h n hn => h n (List.mem_map_of_mem hn)
  · intro h n hn
    obtain ⟨m, hm, heq⟩ := List.mem_map.1 hn
    exact Item.node.inj heq ▸ h m hm

theorem all_ofSet {set : NodeSet} : (Sequence.ofSet set).All N ↔ set.All N := all_nodes

theorem all_ofValue (value : AtomicValue) : (Sequence.ofValue value).All N := by
  intro n hn
  cases List.mem_singleton.1 hn

theorem all_empty : Sequence.empty.All N := fun _ h => nomatch h

theorem All.append {a b : Sequence} (ha : a.All N) (hb : b.All N) : (a.append b).All N := by
  unfold Sequence.append
  split_ifs
  · exact hb
  · exact ha
  · exact fun n hn => (List.mem_append.1 hn).elim (ha n) (hb n)

/-- All items of a sequence are items of another. -/
def IsTakenFrom (w v : Sequence) : Prop := ∀ item ∈ w.toItems, item ∈ v.toItems

theorem All.of_isTakenFrom {v w : Sequence} (hv : v.All N) (h : w.IsTakenFrom v) : w.All N :=
  fun n hn => hv n (h _ hn)

theorem isTakenFrom_ofSet {shared : SharedSet} {kept : NodeSet} (h : ∀ n ∈ kept, n ∈ shared.set) :
    (ofSet kept).IsTakenFrom (.nodes shared) := by
  intro item hitem
  obtain ⟨n, hn, rfl⟩ := List.mem_map.1 hitem
  exact List.mem_map_of_mem (h n hn)

theorem All.toShared {v : Sequence} (h : v.All N) :
    Meets (fun shared : SharedSet => shared.set.All N) (QueryError.Tolerated F) v.toShared := by
  cases v with
  | nodes shared => exact .ok (all_nodes.1 h)
  | items list =>
    refine Meets.bind (Meets.mapM (Q := N) fun item hitem => ?_) fun nodes hnodes =>
      .ok (NodeSet.all_ofList hnodes)
    cases item with
    | node n => exact .ok (h n hitem)
    | atomic value => exact .error nofun

/-- The truth of a sequence is nothing that the store is asked for. -/
theorem meets_truth (v : Sequence) :
    Meets (fun _ => True) (QueryError.Tolerated F) v.truth := by
  unfold truth
  split
  iterate 4 exact .ok trivial
  exact .error nofun

theorem meets_selects (v : Sequence) (position : Nat) :
    Meets (fun _ => True) (QueryError.Tolerated F) (v.selects position) := by
  unfold selects
  split
  · exact .ok trivial
  · exact v.meets_truth

end Sequence

/-! ### Comparisons of values -/

namespace AtomicValue

theorem meets_castDouble (text : String) :
    Meets (fun _ => True) (QueryError.Tolerated F) (castDouble text) := by
  unfold castDouble
  split
  · exact .ok trivial
  · exact .error nofun

theorem meets_castBool (text : String) :
    Meets (fun _ => True) (QueryError.Tolerated F) (castBool text) := by
  unfold castBool
  split
  iterate 4 exact .ok trivial
  exact .error nofun

theorem meets_compare? (a b : AtomicValue) :
    Meets (fun _ => True) (QueryError.Tolerated F) (a.compare? b) := by
  have hnumber : ∀ text (f : Double → Option Ordering), Meets (fun _ => True)
      (QueryError.Tolerated F) (do pure (f (← castDouble text))) :=
    fun text _ => (meets_castDouble text).bind fun _ _ => .ok trivial
  have htruth : ∀ text (f : Bool → Option Ordering), Meets (fun _ => True)
      (QueryError.Tolerated F) (do pure (f (← castBool text))) :=
    fun text _ => (meets_castBool text).bind fun _ _ => .ok trivial
  unfold compare?
  split
  case h_1 | h_2 | h_3 | h_4 => exact .ok trivial
  case h_5 | h_6 | h_7 | h_8 => exact hnumber _ _
  case h_9 | h_10 | h_11 | h_12 | h_13 => exact .ok trivial
  case h_14 | h_15 => exact htruth _ _
  case h_16 => exact .error nofun

theorem meets_someRelated (op : ComparisonOp) (left right : List AtomicValue) :
    Meets (fun _ => True) (QueryError.Tolerated F) (someRelated op left right) := by
  have hsome : ∀ a, Meets (fun _ => True) (QueryError.Tolerated F) (relatedToSome op a right) := by
    intro a
    induction right with
    | nil => exact .ok trivial
    | cons b rest ih =>
      refine ((meets_compare? a b).map fun _ _ => trivial).bind (P := fun _ => True) fun found _ => ?_
      cases found
      · exact ih
      · exact .ok trivial
  induction left with
  | nil => exact .ok trivial
  | cons a rest ih =>
    refine (hsome a).bind fun found _ => ?_
    cases found
    · exact ih
    · exact .ok trivial

end AtomicValue

/-! ### Runs -/

namespace Run

theorem Confined.count {r : Run} (h : r.Confined N bindings) (kind : LookupKind) :
    Run.Confined N bindings { r with counts := r.counts.count kind } :=
  ⟨h.bindings, h.prepared⟩

/-- A change that leaves variables and candidates alone. -/
theorem Confined.update {r : Run} (h : r.Confined N bindings) {f : QueryContext → QueryContext}
    (hf : ∀ c, (f c).bindings = c.bindings ∧ (f c).preloaded = c.preloaded) :
    Run.Confined N bindings { r with context := f r.context } :=
  ⟨(hf r.context).1.trans h.bindings, fun id set hset =>
    h.prepared id set ((hf r.context).2 ▸ hset)⟩

theorem Confined.preload {r : Run} (h : r.Confined N bindings) {set : NodeSet} (hset : set.All N)
    (step : ExprId) :
    Run.Confined N bindings { r with context := r.context.preload step set } := by
  refine ⟨h.bindings, fun id found hfound => ?_⟩
  rw [QueryContext.preload, Table.get?_put] at hfound
  split_ifs at hfound with hid
  · exact Option.some.inj hfound ▸ hset
  · exact h.prepared id found hfound

theorem Confined.unload {r : Run} (h : r.Confined N bindings) (step : ExprId) :
    Run.Confined N bindings { r with context := r.context.unload step } := by
  refine ⟨h.bindings, fun id found hfound => ?_⟩
  rw [QueryContext.unload, Table.get?_erase] at hfound
  split_ifs at hfound with hid
  exact h.prepared id found hfound

end Run

namespace Evaluation

/-- A computation among nodes that have a property: it leaves runs with no others, and fails as
the store fails or for reasons of its own. -/
def Stays {α : Type} (N : Node → Prop) (bindings : List (String × Sequence))
    (F : StoreError → Prop) (P : α → Prop) (m : Evaluation α) : Prop :=
  Keeps (Run.Confined N bindings) P (QueryError.Tolerated F) m

theorem stays_ofStore {α : Type} {P : α → Prop} {x : Except StoreError α} (h : Meets P F x) :
    Stays N bindings F P (ofStore x) := by
  refine Keeps.ofStore h ?_
  rintro e he _ ⟨⟩
  exact he

theorem stays_lookup {kind : LookupKind} {answer : Except StoreError NodeSet}
    (h : Meets (NodeSet.All N) F answer) :
    Stays N bindings F (NodeSet.All N) (lookup kind answer) := by
  refine Keeps.lookup (fun r hr => hr.count kind) h ?_
  rintro e he _ ⟨⟩
  exact he

theorem stays_update {f : QueryContext → QueryContext}
    (hf : ∀ c, (f c).bindings = c.bindings ∧ (f c).preloaded = c.preloaded) :
    Stays N bindings F (fun _ => True) (update f) :=
  Keeps.update fun _ hr => hr.update hf

theorem stays_enter (id : ExprId) (phase : Phase) :
    Stays N bindings F (fun _ => True) (update (·.enter id phase)) :=
  stays_update fun _ => ⟨rfl, rfl⟩

theorem stays_updateOptimizer (id : ExprId) (f : OptimizeState → OptimizeState) :
    Stays N bindings F (fun _ => True) (update (·.updateOptimizer id f)) :=
  stays_update fun c => ⟨c.bindings_updateOptimizer id f, c.preloaded_updateOptimizer id f⟩

theorem stays_noteIndexUse (id : ExprId) :
    Stays N bindings F (fun _ => True) (update (·.noteIndexUse id)) :=
  stays_update fun c => ⟨c.bindings_noteIndexUse id, c.preloaded_noteIndexUse id⟩

/-! ### Steps -/

theorem meets_contextSet {focus : Focus} (hfocus : focus.All N) :
    Meets (fun shared : SharedSet => shared.set.All N) (QueryError.Tolerated F)
      (contextSet s focus) := by
  unfold contextSet
  rcases focus with ⟨context, item⟩
  rcases item with _ | ⟨n⟩ | ⟨value⟩
  · rcases context with _ | v
    · exact .error nofun
    · exact (hfocus.context v rfl).toShared
  · refine .ok (NodeSet.all_ofList fun m hm => ?_)
    obtain rfl := List.mem_singleton.1 hm
    exact hfocus.item m rfl
  · exact .error nofun

/-- Candidates that an axis leads to are candidates. -/
theorem all_relatePrepared? {axis : Axis} {prepared context related : NodeSet}
    (hprepared : prepared.All N) (h : relatePrepared? axis prepared context = some related) :
    related.All N := by
  unfold relatePrepared? at h
  split at h
  · exact Option.some.inj h ▸ hprepared.selectParentChild
  · exact Option.some.inj h ▸ hprepared.selectParentChild
  · exact Option.some.inj h ▸ hprepared.selectAncestorDescendant false
  · exact Option.some.inj h ▸ hprepared.selectAncestorDescendant false
  · exact Option.some.inj h ▸ hprepared.selectAncestorDescendant true
  · exact Option.some.inj h ▸ hprepared.filter _
  · cases h

theorem meets_nameLookup? (h : s.Encloses N F) {head : StepHead} {context : NodeSet}
    {kind : LookupKind} {answer : Except StoreError NodeSet}
    (hlookup : nameLookup? s head context = some (kind, answer)) :
    Meets (NodeSet.All N) F answer := by
  rcases head with ⟨id, axis, test, treeTraversal⟩
  unfold nameLookup? at hlookup
  split at hlookup
  · split at hlookup
    iterate 5
      obtain ⟨-, rfl⟩ := Prod.mk.inj (Option.some.inj hlookup)
      exact h.descendants _ _ _ _ (by simp_all [Store.isDownward])
    iterate 2
      obtain ⟨-, rfl⟩ := Prod.mk.inj (Option.some.inj hlookup)
      exact h.ancestors _ _ _ _ (by simp_all)
    · cases hlookup
  · cases hlookup

theorem stays_selectAxis (h : s.Encloses N F) (head : StepHead) {context : NodeSet}
    (hcontext : context.All N) :
    Stays N bindings F (NodeSet.All N) (selectAxis s head context) := by
  refine Keeps.queryContext_bind fun r hr => ?_
  dsimp only
  split
  next related hrelated =>
    obtain ⟨prepared, hprepared, hrelated⟩ := Option.bind_eq_some_iff.1 hrelated
    exact Keeps.pure (all_relatePrepared? (hr.prepared _ _ hprepared) hrelated)
  next =>
    unfold selectUnprepared
    split
    next kind answer hlookup => exact stays_lookup (meets_nameLookup? h hlookup)
    next => exact stays_ofStore (h.navigate _ _ _ hcontext)

theorem stays_evaluateStep (h : s.Encloses N F) (head : StepHead) (positional : Bool)
    {applyAll : Bool → Sequence → Evaluation Sequence}
    (hall : ∀ reverse v, v.All N → Stays N bindings F (Sequence.All N) (applyAll reverse v))
    {focus : Focus} (hfocus : focus.All N) :
    Stays N bindings F (Sequence.All N) (evaluateStep s head positional applyAll focus) := by
  refine Keeps.bind (Keeps.orFail (meets_contextSet hfocus)) fun context hcontext => ?_
  split_ifs
  · refine Keeps.bind (Keeps.foldlM (Q := NodeSet.All N) NodeSet.all_empty
      fun result hresult n hn => ?_) fun set hset => Keeps.pure (Sequence.all_ofSet.2 hset)
    have hnode : (NodeSet.ofList [n] context.set.persistent).All N :=
      NodeSet.all_ofList fun m hm => List.mem_singleton.1 hm ▸ hcontext n hn
    refine Keeps.bind (stays_selectAxis h head hnode) fun selected hselected => ?_
    refine Keeps.bind (hall _ _ (Sequence.all_ofSet.2 hselected)) fun kept hkept => ?_
    refine Keeps.bind (Keeps.orFail hkept.toShared) fun kept hkept => ?_
    exact Keeps.pure (hresult.union hkept)
  · refine Keeps.bind (stays_selectAxis h head hcontext) fun selected hselected => ?_
    exact hall _ _ (Sequence.all_ofSet.2 hselected)

theorem stays_evaluateRoot (h : s.Encloses N F) {focus : Focus} (hfocus : focus.All N) :
    Stays N bindings F (Sequence.All N) (evaluateRoot s focus) := by
  refine Keeps.bind (Keeps.orFail (meets_contextSet hfocus)) fun context hcontext => ?_
  refine Keeps.pure (Sequence.all_ofSet.2 (NodeSet.all_ofList fun n hn => ?_))
  obtain ⟨m, hm, rfl⟩ := List.mem_map.1 hn
  exact h.documentOf m (hcontext m hm)

/-! ### Predicates -/

theorem all_itemFocus {persistent : Bool} {item : Item} (h : ∀ n, item = .node n → N n) :
    (itemFocus persistent item).All N := by
  cases item with
  | node n =>
    refine ⟨?_, ?_⟩
    · rintro v ⟨⟩
      exact Sequence.all_ofSet.2 (NodeSet.all_ofList fun m hm => List.mem_singleton.1 hm ▸ h n rfl)
    · rintro m ⟨⟩
      exact h n rfl
  | atomic value =>
    refine ⟨?_, fun m hm => nomatch hm⟩
    rintro v ⟨⟩
    exact Sequence.all_ofValue value

theorem stays_selectItems {evaluate : Focus → Evaluation Sequence} {P : Sequence → Prop}
    (heval : ∀ focus : Focus, focus.All N → Stays N bindings F P (evaluate focus))
    (persistent reverse : Bool) (items : List Item) (hitems : ∀ n, .node n ∈ items → N n) :
    ∀ position, Stays N bindings F (fun kept => ∀ item ∈ kept, item ∈ items)
      (selectItems evaluate persistent reverse position items) := by
  induction items with
  | nil => exact fun _ => Keeps.pure fun _ hitem => hitem
  | cons item rest ih =>
    intro position
    have hitem : ∀ n, item = .node n → N n := fun n hn => hitems n (hn ▸ List.mem_cons_self)
    refine Keeps.bind (heval _ (all_itemFocus hitem)) fun outcome _ => ?_
    refine Keeps.bind (Keeps.orFail (outcome.meets_selects position)) fun selected _ => ?_
    refine Keeps.bind (ih (fun n hn => hitems n (List.mem_cons_of_mem _ hn)) _) fun kept hkept => ?_
    refine Keeps.pure fun other hother => ?_
    cases selected with
    | false => exact List.mem_cons_of_mem _ (hkept other hother)
    | true =>
      rcases List.mem_cons.1 hother with rfl | hother
      · exact List.mem_cons_self
      · exact List.mem_cons_of_mem _ (hkept other hother)

theorem stays_applyByItem {evaluate : Focus → Evaluation Sequence} {P : Sequence → Prop}
    (heval : ∀ focus : Focus, focus.All N → Stays N bindings F P (evaluate focus))
    (reverse : Bool) {v : Sequence} (hv : v.All N) :
    Stays N bindings F (·.IsTakenFrom v) (applyByItem evaluate reverse v) :=
  Keeps.bind (stays_selectItems heval _ _ _ hv _) fun _ hkept =>
    Keeps.pure fun item hitem => hkept item (Expr.mem_toItems_withItems hitem)

/-! ### Indexes -/

/-- The collections of a sequence can be told. -/
theorem meets_collectionsOf (h : s.Encloses N F) {shared : SharedSet} (hset : shared.set.All N) :
    Meets (fun _ => True) F (s.collectionsOf (.nodes shared)) := by
  refine Meets.bind (Meets.mapM (Q := fun _ => True) fun doc hdoc => ?_) fun _ _ => .ok trivial
  obtain ⟨n, hn, rfl⟩ := NodeSet.mem_documents.1 hdoc
  exact h.collectionOf n (hset n hn)

theorem meets_coveredBy (h : s.Encloses N F) (probe : IndexProbe) {set : NodeSet}
    (hset : set.All N) (type : IndexType) :
    Meets (NodeSet.All N) F (probe.coveredBy s set type) := by
  refine Meets.bind (Meets.filterPassing fun doc hdoc => ?_) fun covered _ => ?_
  · obtain ⟨n, hn, rfl⟩ := NodeSet.mem_documents.1 hdoc
    exact (h.collectionOf n (hset n hn)).bind fun _ _ => .ok trivial
  · refine .ok ?_
    split_ifs
    · exact hset
    · exact hset.filter _

/-- Whether a probe can answer for a sequence can be told. -/
theorem meets_coveredSubset (h : s.Encloses N F) (probe : IndexProbe) {v : Option Sequence}
    (hv : ∀ v', v = some v' → v'.All N) :
    Meets (fun _ => True) F (probe.coveredSubset s v) := by
  unfold IndexProbe.coveredSubset
  split
  next shared =>
    have hset := Sequence.all_nodes.1 (hv _ rfl)
    refine Meets.bind (Q := fun _ => True)
      ((meets_collectionsOf h hset).bind (Q := fun _ => True) fun _ _ => .ok trivial) fun type _ => ?_
    cases type with
    | none => exact .ok trivial
    | some type =>
      dsimp only
      split_ifs
      · exact (meets_coveredBy h probe hset type).map fun _ _ => trivial
      · exact .ok trivial
  next => exact .ok trivial

/-- What an index selects is selected from what it is asked about. -/
theorem stays_select (h : s.Encloses N F) (probe : IndexProbe) {candidates : NodeSet}
    (hcandidates : candidates.All N) :
    Stays N bindings F (fun kept => ∀ set, kept = some set → set.All (· ∈ candidates))
      (probe.select s candidates) := by
  unfold IndexProbe.select
  cases probe.relation with
  | none => exact Keeps.pure nofun
  | some relation =>
    refine Keeps.bind (stays_ofStore (meets_coveredSubset h probe ?_)) fun covered _ => ?_
    · rintro v ⟨⟩
      exact Sequence.all_ofSet.2 hcandidates
    cases covered with
    | none => exact Keeps.pure nofun
    | some covered =>
      dsimp only
      split_ifs
      · refine Keeps.bind (stays_lookup (h.byValue _)) fun hits _ => Keeps.pure ?_
        have hself : candidates.All (· ∈ candidates) := fun _ hn => hn
        rintro set ⟨⟩
        cases relation with
        | identity => exact hself.filter _
        | parentChild => exact hself.selectParentChild
        | ancestor includeSelf => exact hself.selectAncestorDescendant includeSelf
      · exact Keeps.pure nofun

/-- **What a predicate keeps is taken from what it is applied to.** -/
theorem stays_applyPredicate (h : s.Encloses N F) (mode : PredicateMode)
    (probe : Option (ExprId × IndexProbe)) {evaluate : Focus → Evaluation Sequence}
    {P : Sequence → Prop}
    (heval : ∀ focus : Focus, focus.All N → Stays N bindings F P (evaluate focus))
    (reverse : Bool) {v : Sequence} (hv : v.All N) :
    Stays N bindings F (·.IsTakenFrom v) (applyPredicate s mode probe evaluate reverse v) := by
  have hindex : Stays N bindings F (fun kept => ∀ set, kept = some set →
      (Sequence.ofSet set).IsTakenFrom v) (applyByIndex s mode probe v) := by
    unfold applyByIndex
    split
    next id probe shared =>
      refine Keeps.bind (stays_select h probe (Sequence.all_nodes.1 hv)) fun kept hkept => ?_
      cases kept with
      | none => exact Keeps.pure nofun
      | some kept =>
        refine Keeps.bind (stays_noteIndexUse id) fun _ _ => Keeps.pure ?_
        rintro set ⟨⟩
        exact Sequence.isTakenFrom_ofSet (hkept kept rfl)
    next => exact Keeps.pure nofun
  refine Keeps.bind hindex fun kept hkept => ?_
  cases kept with
  | some kept => exact Keeps.pure (hkept kept rfl)
  | none => exact stays_applyByItem heval reverse hv

/-! ### Values -/

theorem meets_atomize (h : s.Encloses N F) {v : Sequence} (hv : v.All N) :
    Meets (fun _ => True) F (s.atomize v) := by
  refine (Meets.mapM (Q := fun _ => True) fun item hitem => ?_).mono (fun _ _ => trivial)
    fun _ he => he
  cases item with
  | node n => exact (h.stringValue n (hv n hitem)).bind fun _ _ => .ok trivial
  | atomic value => exact .ok trivial

theorem stays_compareSequences (h : s.Encloses N F) (op : ComparisonOp) {left right : Sequence}
    (hleft : left.All N) (hright : right.All N) :
    Stays N bindings F (Sequence.All N) (compareSequences s op left right) := by
  refine Keeps.bind (stays_ofStore (meets_atomize h hleft)) fun left _ => ?_
  refine Keeps.bind (stays_ofStore (meets_atomize h hright)) fun right _ => ?_
  refine Keeps.bind (Keeps.orFail (AtomicValue.meets_someRelated op left right)) fun b _ => ?_
  exact Keeps.pure (Sequence.all_ofValue _)

theorem stays_textArgument (h : s.Encloses N F) (function : Builtin) {v : Sequence}
    (hv : v.All N) :
    Stays N bindings F (fun _ => True) (function.textArgument s v) := by
  refine Keeps.bind (stays_ofStore (meets_atomize h hv)) fun values _ => ?_
  split
  · exact Keeps.pure trivial
  · exact Keeps.pure trivial
  · exact Keeps.orFail (.error nofun)

/-- The documents under an address. -/
theorem meets_documentsUnder (h : s.Encloses N F) (uri : String) :
    Meets (NodeSet.All N) F (s.documentsUnder uri) := by
  unfold Store.documentsUnder
  dsimp only
  split
  · refine .ok (NodeSet.all_ofList fun n hn => ?_)
    obtain ⟨entry, hentry, rfl⟩ := List.mem_map.1 hn
    exact h.ofDocument entry (List.mem_of_mem_filter hentry)
  · exact .error (h.collectionNotFound _)

theorem meets_focusSequence {focus : Focus} (hfocus : focus.All N) :
    Meets (Sequence.All N) (QueryError.Tolerated F) (Builtin.focusSequence focus) := by
  unfold Builtin.focusSequence
  rcases focus with ⟨context, item⟩
  rcases item with _ | item
  · rcases context with _ | v
    · exact .error nofun
    · exact .ok (hfocus.context v rfl)
  · refine .ok fun n hn => ?_
    exact hfocus.item n (congrArg some (List.mem_singleton.1 hn).symm)

theorem stays_apply (h : s.Encloses N F) {focus : Focus} (hfocus : focus.All N)
    (function : Builtin) {args : List Sequence} (hargs : ∀ v ∈ args, v.All N) :
    Stays N bindings F (Sequence.All N) (function.apply s focus args) := by
  have hvalue : ∀ value, Stays N bindings F (Sequence.All N) (pure (.ofValue value)) :=
    fun value => Keeps.pure (Sequence.all_ofValue value)
  have htext : ∀ v ∈ args, Stays N bindings F (fun _ => True) (function.textArgument s v) :=
    fun v hv => stays_textArgument h function (hargs v hv)
  unfold Builtin.apply
  split
  case h_1 =>
    refine Keeps.pure (Sequence.all_ofSet.2 (NodeSet.all_ofList fun n hn => ?_))
    obtain ⟨entry, hentry, rfl⟩ := List.mem_map.1 hn
    exact h.ofDocument entry hentry
  case h_2 uri =>
    refine Keeps.bind (htext uri List.mem_cons_self) fun uri _ => ?_
    refine Keeps.bind (stays_ofStore (meets_documentsUnder h uri)) fun documents hdocuments => ?_
    exact Keeps.pure (Sequence.all_ofSet.2 hdocuments)
  case h_3 | h_4 | h_5 | h_11 | h_12 => exact hvalue _
  case h_6 items =>
    exact Keeps.bind (Keeps.orFail items.meets_truth) fun _ _ => hvalue _
  case h_7 =>
    refine Keeps.bind (Keeps.orFail (meets_focusSequence hfocus)) fun items hitems => ?_
    exact Keeps.bind (stays_textArgument h _ hitems) fun _ _ => hvalue _
  case h_8 items => exact Keeps.bind (htext items List.mem_cons_self) fun _ _ => hvalue _
  case h_9 whole part | h_10 whole part =>
    refine Keeps.bind (htext whole List.mem_cons_self) fun _ _ => ?_
    exact Keeps.bind (htext part (List.mem_cons_of_mem _ List.mem_cons_self)) fun _ _ => hvalue _
  case h_13 => exact Keeps.orFail (.error nofun)

/-- The values of variables. -/
theorem meets_value (hbindings : ∀ entry ∈ bindings, entry.2.All N) {r : Run}
    (hr : r.Confined N bindings) (name : String) :
    Meets (Sequence.All N) (QueryError.Tolerated F) (r.context.value name) := by
  unfold QueryContext.value
  split
  next value hfind => exact .ok (hbindings _ (hr.bindings ▸ List.mem_of_find?_eq_some hfind))
  next => exact .error nofun

theorem stays_value (hbindings : ∀ entry ∈ bindings, entry.2.All N) (name : String) :
    Stays N bindings F (Sequence.All N) (do orFail ((← queryContext).value name)) :=
  Keeps.queryContext_bind fun _ hr => Keeps.orFail (meets_value hbindings hr name)

end Evaluation

end IndexedXml
