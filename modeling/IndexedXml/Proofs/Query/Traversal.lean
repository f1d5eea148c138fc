/-
# Tree traversal and index evaluation

An expression is analyzed twice: once with indexes and once, below the pragma `no-index`,
without.  Evaluation with indexes follows evaluation without: where the latter has a value,
the former has the same (`Expr.followsTree`).  Steps agree because the name index finds what
navigation finds, predicates because of `Expr.follows_applyPredicate`, and all else is made
of these.

Two things are asked of the expression besides being without pragmas.  The literal texts
that `starts-with` looks for are not empty, since an absent text begins with the empty one
but has no key.  And no index reads the name of an attribute where navigation looks for an
element (`Store.Misread`).
-/

import IndexedXml.Proofs.Query.Selection

namespace IndexedXml

open Evaluation Setting

variable {s : Store} {σ : Setting}

/-- No call of `starts-with` looks for the empty text. -/
def Expr.HasPrefixes (e : Expr) : Prop :=
  ∀ id path access, .expr (.call id .startsWith [path, .literal (.string "")] access) ∉ e.parts

/-- **What is asked of an expression** for index evaluation to follow tree traversal. -/
structure Expr.IsIndexSafe (s : Store) (e : Expr) : Prop where
  pragmaFree : e.IsPragmaFree
  prefixes : e.HasPrefixes
  reads : ∀ head predicates, .expr (.step head predicates) ∈ e.parts →
    ∀ p ∈ predicates, ¬ s.Misread head p

namespace Expr

variable {k : Nat} {outer : Option OuterStep}

theorem HasPrefixes.mono {e e' : Expr} (h : e.HasPrefixes) (hparts : e'.parts ⊆ e.parts) :
    e'.HasPrefixes :=
  fun id path access hmem => h id path access (hparts hmem)

theorem IsIndexSafe.mono {e e' : Expr} (h : e.IsIndexSafe s) (hparts : e'.parts ⊆ e.parts) :
    e'.IsIndexSafe s where
  pragmaFree := h.pragmaFree.mono hparts
  prefixes := h.prefixes.mono hparts
  reads head predicates hmem := h.reads head predicates (hparts hmem)

/-- The key of a probe for `starts-with` is not empty. -/
theorem HasPrefixes.ne_empty {e : Expr} {p : IndexProbe} (h : e.HasPrefixes)
    (hp : e.probed? outer = some p) (hop : p.op = .startsWith) : p.key ≠ .string "" := by
  obtain ⟨path, hasks⟩ := exists_asks hp
  cases hasks with
  | right => cases hop
  | left => cases hop
  | start id start access htarget =>
    intro hkey
    obtain rfl : start = "" := AtomicValue.string.inj hkey
    exact h id path access (self_mem_parts _)

/-- **Evaluation with indexes follows evaluation without,** wherever the expression stands in
the predicates of an outer step, or of none. -/
def FollowsTree (s : Store) (σ : Setting) (k : Nat) (outer : Option OuterStep) (c' : ExprId)
    (e : Expr) : Prop :=
  ∀ c focus, focus.IsIn s → Follows (·.IsIn s)
    (σ.outcome (((e.renumber k).analyze ⟨c, true, outer⟩).evaluate s focus))
    (σ.outcome ((e.analyze ⟨c', false, outer⟩).evaluate s focus))

/-- Without indexes an expression is as free of pragmas as with them. -/
theorem IsIndexSafe.tree {e : Expr} {c c' : ExprId} (h : (e.analyze ⟨c', false, outer⟩).IsIndexSafe s) :
    ((e.renumber k).analyze ⟨c, true, outer⟩).IsPragmaFree :=
  (isPragmaFree_analyze _ _).2 ((isPragmaFree_renumber _ _).2
    ((isPragmaFree_analyze _ _).1 h.pragmaFree))

/-! ### Predicates -/

/-- **The predicates of an outer step follow:** from every sequence of nodes that suit it. -/
def FollowsOn (s : Store) (outer : Option OuterStep)
    (apply apply' : Sequence → Except QueryError Sequence) : Prop :=
  ∀ value : Sequence, value.IsIn s → (∀ n, .node n ∈ value.toItems → SuitsOuter s outer n) →
    Follows (·.IsIn s) (apply value) (apply' value)

theorem hasPositional_analyze (surroundings : Surroundings) (ps : List Predicate) :
    hasPositional (analyzePredicates surroundings ps) = hasPositional ps := by
  unfold hasPositional
  rw [analyzePredicates_eq_map, List.any_map]
  rfl

/-- What is asked of a predicate that stands below an outer step. -/
structure IsSafePredicate (s : Store) (σ : Setting) (k : Nat) (outer : Option OuterStep)
    (c' : ExprId) (p : Predicate) : Prop where
  safe : (p.expr.analyze ⟨c', false, outer⟩).IsIndexSafe s
  follows : p.expr.FollowsTree s σ k outer c'
  reads : p.mode = .boolean → ∀ q, p.expr.probed? outer = some q → p.expr.ReadsRight s outer q

theorem follows_applyPredicates (hs : s.IsReliable) (hσ : σ.IsBare) {ps : List Predicate}
    {c c' : ExprId} (hps : ∀ p ∈ ps, IsSafePredicate s σ k outer c' p) (reverse : Bool) :
    FollowsOn s outer
      (fun value => σ.outcome (applyPredicates s
        (analyzePredicates ⟨c, true, outer⟩ (renumberPredicates k ps)) reverse value))
      fun value => σ.outcome (applyPredicates s
        (analyzePredicates ⟨c', false, outer⟩ ps) reverse value) := by
  have hfree : ∀ p ∈ analyzePredicates ⟨c', false, outer⟩ ps, p.expr.IsPragmaFree := by
    rw [analyzePredicates_eq_map, List.forall_mem_map]
    exact fun p hp => (hps p hp).safe.pragmaFree
  have hfree' : ∀ p ∈ analyzePredicates ⟨c, true, outer⟩ (renumberPredicates k ps),
      p.expr.IsPragmaFree := by
    rw [analyzePredicates_eq_map, renumberPredicates_eq_map, List.map_map, List.forall_mem_map]
    exact fun p hp => (hps p hp).safe.tree
  induction ps with
  | nil =>
    intro value hvalue _
    dsimp only
    rw [renumberPredicates, analyzePredicates, analyzePredicates, outcome_applyPredicates_nil]
    exact .ok hvalue
  | cons p rest ih =>
    intro value hvalue houter
    obtain ⟨hsafe, hfollows, hread⟩ := hps p List.mem_cons_self
    rw [analyzePredicates] at hfree
    rw [renumberPredicates, analyzePredicates] at hfree'
    dsimp only
    rw [renumberPredicates, analyzePredicates, analyzePredicates,
      outcome_applyPredicates_cons hfree, outcome_applyPredicates_cons hfree']
    have htree : ((p.expr.renumber k).analyze ⟨c, true, outer⟩).probe? = none := by
      have hnone := probe?_analyze ⟨c, true, outer⟩ (p.expr.renumber k)
      rw [if_pos rfl] at hnone
      exact Option.map_eq_none_iff.1 hnone
    have hprobed : ∀ id q, (p.expr.analyze ⟨c', false, outer⟩).probe? = some (id, q) →
        p.expr.probed? outer = some q := by
      intro id q hq
      have hsome := probe?_analyze ⟨c', false, outer⟩ p.expr
      rw [hq, if_neg Bool.false_ne_true] at hsome
      exact hsome.symm
    refine Follows.bind (follows_applyPredicate hs hσ (hfree' _ List.mem_cons_self)
      (hfree _ List.mem_cons_self) htree (fun id q hq => ⟨?_, ?_, fun hmode => ?_⟩)
      (hfollows c) hvalue houter reverse) fun kept hkept => ?_
    · rw [probed?_analyze, probed?_renumber]
      exact hprobed id q hq
    · exact hsafe.prefixes.ne_empty ((probed?_analyze _ _ _).trans (hprobed id q hq))
    · intro step hstep hattr hself
      rw [namesSelf_analyze, namesSelf_renumber] at hself
      exact hread hmode q (hprobed id q hq) step hstep hattr hself
    · exact ih (fun p hp => hps p (List.mem_cons_of_mem _ hp))
        (fun p hp => hfree p (List.mem_cons_of_mem _ hp))
        (fun p hp => hfree' p (List.mem_cons_of_mem _ hp)) kept hkept.1
        fun n hn => houter n (hkept.2 n hn)

/-! ### Steps -/

/-- What passes the test of a step bears the name that it asks for. -/
theorem suitsOuter_of_passes {axis : Axis} {test : NodeTest} {n : Node} (hn : s.Has n)
    (h : s.Passes axis test n) : SuitsOuter s (some ⟨test.name?, axis⟩) n := by
  rintro step name ⟨⟩ hname
  cases test with
  | name q =>
    obtain rfl := Option.some.inj hname
    exact (Store.passes_name_iff hn).1 h
  | _ => cases hname

variable {head head' : StepHead} {apply apply' : Sequence → Except QueryError Sequence}

/-- **A step and its predicates follow** when the predicates do. -/
theorem follows_select (hs : s.IsReliable) (hσ : σ.IsBare) (haxis : head'.axis = head.axis)
    (htest : head'.test = head.test)
    (happly : FollowsOn s (some ⟨head.test.name?, head.axis⟩) apply apply')
    {context : NodeSet} (hcontext : ∀ n ∈ context, s.Has n) :
    Follows (·.IsIn s)
      (σ.outcome (selectAxis s head context) >>= fun selected => apply (.ofSet selected))
      (σ.outcome (selectAxis s head' context) >>= fun selected => apply' (.ofSet selected)) := by
  have hsame : σ.outcome (selectAxis s head' context) = σ.outcome (selectAxis s head context) := by
    rw [outcome_selectAxis_eq_navigate hσ hs.answering head' hcontext,
      outcome_selectAxis_eq_navigate hσ hs.answering head hcontext, haxis, htest]
  rw [hsame]
  refine Follows.bind (.refl fun found hfound => isIn_of_selectAxis hσ hs.answering hcontext hfound)
    fun found hfound => ?_
  refine happly _ hfound.1 fun n hn => ?_
  obtain ⟨m, hm, heq⟩ := List.mem_map.1 hn
  obtain rfl := Item.node.inj heq
  exact suitsOuter_of_passes (hfound.1.2 m hm) (hfound.2 m hm)

/-- The same holds for one node after the other. -/
theorem follows_byNode (hs : s.IsReliable) (hσ : σ.IsBare) (haxis : head'.axis = head.axis)
    (htest : head'.test = head.test)
    (happly : FollowsOn s (some ⟨head.test.name?, head.axis⟩) apply apply') (persistent : Bool)
    {nodes : List Node} (hnodes : ∀ n ∈ nodes, s.Has n) :
    Follows (·.IsIn s) (σ.byNode s head apply persistent nodes)
      (σ.byNode s head' apply' persistent nodes) := by
  refine Follows.foldlM NodeSet.isIn_empty fun result hresult n hn => ?_
  have hcontext : ∀ m ∈ NodeSet.ofList [n] persistent, s.Has m := by
    intro m hm
    obtain rfl := List.mem_singleton.1 (NodeSet.mem_ofList.1 hm)
    exact hnodes m hn
  have hstep := follows_select hs hσ haxis htest happly hcontext
  have hassoc : ∀ (head : StepHead) (apply : Sequence → Except QueryError Sequence),
      (do
        let selected ← σ.outcome (selectAxis s head (.ofList [n] persistent))
        let kept ← apply (.ofSet selected)
        let kept ← kept.toShared
        pure (result.union kept.set)) =
      ((σ.outcome (selectAxis s head (.ofList [n] persistent)) >>= fun selected =>
        apply (.ofSet selected)) >>= fun kept => kept.toShared >>= fun kept =>
          pure (result.union kept.set)) := fun head apply => (bind_assoc _ _ _).symm
  rw [hassoc, hassoc]
  refine Follows.bind hstep fun kept hkept => ?_
  refine Follows.bind (.refl fun shared hshared => hkept.toShared hshared) fun shared hshared => ?_
  refine .ok ⟨hshared.1.union _, fun m hm => ?_⟩
  rcases NodeSet.mem_union.1 hm with hm | hm
  · exact hresult.2 m hm
  · exact hshared.2 m hm

/-! ### Values that are in the store -/

/-- All that a computation can return is in the store. -/
def Returns (s : Store) (m : Evaluation Sequence) : Prop :=
  ∀ r v, m.result r = .ok v → v.IsIn s

theorem returns_pure {v : Sequence} (h : v.IsIn s) : Returns s (pure v) := by
  intro r w hw
  obtain rfl : v = w := Except.ok.inj hw
  exact h

theorem returns_value (value : AtomicValue) : Returns s (pure (.ofValue value)) :=
  returns_pure (Sequence.isIn_ofValue value)

theorem returns_bind {α : Type} {m : Evaluation α} {f : α → Evaluation Sequence}
    (h : ∀ a, Returns s (f a)) : Returns s (m >>= f) := by
  intro r v hv
  rw [result_bind] at hv
  obtain ⟨a, _, hv⟩ := bind_eq_ok.1 hv
  exact h a _ v hv

theorem returns_ofStore {α : Type} {x : Except StoreError α} {f : α → Evaluation Sequence}
    (h : ∀ a, x = .ok a → Returns s (f a)) : Returns s (ofStore x >>= f) := by
  intro r v hv
  rw [result_bind] at hv
  obtain ⟨a, ha, hv⟩ := bind_eq_ok.1 hv
  exact h a (mapError_eq_ok.1 ha) _ v hv

/-- **What a call returns is in the store.** -/
theorem returns_apply (hs : s.IsIndexed) (focus : Focus) (function : Builtin)
    (args : List Sequence) : Returns s (function.apply s focus args) := by
  have hdocuments : ∀ entries : List (DocId × Document), entries ⊆ s.documents →
      (s.persistent (entries.map fun entry => .document entry.1)).IsIn s := by
    intro entries hentries
    refine NodeSet.isIn_ofList _ fun n hn => ?_
    obtain ⟨⟨doc, d⟩, hd, rfl⟩ := List.mem_map.1 hn
    exact hs.has_documentNode (hentries hd)
  unfold Builtin.apply
  split
  · exact returns_pure (hdocuments _ fun _ h => h)
  · refine returns_bind fun uri => returns_ofStore fun documents h => returns_pure ?_
    unfold Store.documentsUnder at h
    dsimp only at h
    split_ifs at h
    obtain rfl := Except.ok.inj h
    exact hdocuments _ fun _ he => List.mem_of_mem_filter he
  · exact returns_value _
  · exact returns_value _
  · exact returns_value _
  · exact returns_bind fun _ => returns_value _
  · exact returns_bind fun _ => returns_bind fun _ => returns_value _
  · exact returns_bind fun _ => returns_value _
  · exact returns_bind fun _ => returns_bind fun _ => returns_value _
  · exact returns_bind fun _ => returns_bind fun _ => returns_value _
  · exact returns_value _
  · exact returns_value _
  · exact fun _ _ h => nomatch h

theorem isIn_append {a b : Sequence} (ha : a.IsIn s) (hb : b.IsIn s) : (a.append b).IsIn s := by
  unfold Sequence.append
  split_ifs
  · exact hb
  · exact ha
  · intro n hn
    rcases List.mem_append.1 hn with hn | hn
    · exact ha.has hn
    · exact hb.has hn

theorem isIn_foldl_append {values : List Sequence} :
    ∀ {v : Sequence}, v.IsIn s → (∀ w ∈ values, w.IsIn s) → (values.foldl Sequence.append v).IsIn s := by
  induction values with
  | nil => exact fun hv _ => hv
  | cons w rest ih =>
    intro v hv hall
    obtain ⟨hw, hrest⟩ := List.forall_mem_cons.1 hall
    exact ih (isIn_append hv hw) hrest

/-! ### Expressions -/

theorem follows_evaluateSteps {es : List Expr} {c c' : ExprId}
    (hes : ∀ e ∈ es, (e.analyze ⟨c', false, none⟩).IsIndexSafe s ∧ e.FollowsTree s σ k none c') :
    ∀ value : Sequence, value.IsIn s → Follows (·.IsIn s)
      (σ.outcome (evaluateSteps s (analyzeAll ⟨c, true, none⟩ (renumberAll k es)) value))
      (σ.outcome (evaluateSteps s (analyzeAll ⟨c', false, none⟩ es) value)) := by
  have hfree : ∀ e ∈ analyzeAll ⟨c', false, none⟩ es, e.IsPragmaFree := by
    rw [analyzeAll_eq_map, List.forall_mem_map]
    exact fun e he => (hes e he).1.pragmaFree
  have hfree' : ∀ e ∈ analyzeAll ⟨c, true, none⟩ (renumberAll k es), e.IsPragmaFree := by
    rw [analyzeAll_eq_map, renumberAll_eq_map, List.map_map, List.forall_mem_map]
    exact fun e he => (hes e he).1.tree
  induction es with
  | nil =>
    intro value hvalue
    rw [renumberAll, analyzeAll, analyzeAll, outcome_evaluateSteps_nil]
    exact .ok hvalue
  | cons e rest ih =>
    intro value hvalue
    rw [analyzeAll] at hfree
    rw [renumberAll, analyzeAll] at hfree'
    rw [renumberAll, analyzeAll, analyzeAll, outcome_evaluateSteps_cons hfree,
      outcome_evaluateSteps_cons hfree']
    split_ifs
    · exact .ok Sequence.isIn_empty
    · refine Follows.bind (.refl fun shared hshared => hvalue.toShared hshared) fun shared hshared => ?_
      refine Follows.bind ((hes e List.mem_cons_self).2 c _ ⟨?_, ?_⟩)
        fun value hvalue => ?_
      · rintro v ⟨⟩
        exact hshared
      · rintro n ⟨⟩
      · exact ih (fun e he => hes e (List.mem_cons_of_mem _ he))
          (fun e he => hfree e (List.mem_cons_of_mem _ he))
          (fun e he => hfree' e (List.mem_cons_of_mem _ he)) value hvalue

theorem follows_evaluateAll {es : List Expr} {c c' : ExprId}
    (hes : ∀ e ∈ es, (e.analyze ⟨c', false, outer⟩).IsIndexSafe s ∧ e.FollowsTree s σ k outer c')
    {focus : Focus} (hfocus : focus.IsIn s) :
    Follows (fun values => ∀ v ∈ values, v.IsIn s)
      (σ.outcome (evaluateAll s (analyzeAll ⟨c, true, outer⟩ (renumberAll k es)) focus))
      (σ.outcome (evaluateAll s (analyzeAll ⟨c', false, outer⟩ es) focus)) := by
  have hfree : ∀ e ∈ analyzeAll ⟨c', false, outer⟩ es, e.IsPragmaFree := by
    rw [analyzeAll_eq_map, List.forall_mem_map]
    exact fun e he => (hes e he).1.pragmaFree
  have hfree' : ∀ e ∈ analyzeAll ⟨c, true, outer⟩ (renumberAll k es), e.IsPragmaFree := by
    rw [analyzeAll_eq_map, renumberAll_eq_map, List.map_map, List.forall_mem_map]
    exact fun e he => (hes e he).1.tree
  induction es with
  | nil =>
    rw [renumberAll, analyzeAll, analyzeAll, outcome_evaluateAll_nil]
    exact .ok fun _ h => absurd h List.not_mem_nil
  | cons e rest ih =>
    rw [analyzeAll] at hfree
    rw [renumberAll, analyzeAll] at hfree'
    rw [renumberAll, analyzeAll, analyzeAll, outcome_evaluateAll_cons hfree,
      outcome_evaluateAll_cons hfree']
    refine Follows.bind ((hes e List.mem_cons_self).2 c focus hfocus) fun value hvalue => ?_
    refine Follows.bind (ih (fun e he => hes e (List.mem_cons_of_mem _ he))
      (fun e he => hfree e (List.mem_cons_of_mem _ he))
      fun e he => hfree' e (List.mem_cons_of_mem _ he)) fun values hvalues => ?_
    exact .ok (List.forall_mem_cons.2 ⟨hvalue, hvalues⟩)

theorem isIndexSafe_sides {left right whole : Expr} (h : whole.IsIndexSafe s)
    (hparts : whole.parts = .expr whole :: (left.parts ++ right.parts)) :
    left.IsIndexSafe s ∧ right.IsIndexSafe s :=
  ⟨h.mono (parts_subset_sides hparts).1, h.mono (parts_subset_sides hparts).2⟩

/-- The truth of a value, and what is made of it. -/
theorem follows_truth {v : Sequence} {f g : Bool → Except QueryError Sequence}
    (h : ∀ b, Follows (·.IsIn s) (f b) (g b)) :
    Follows (·.IsIn s) (v.truth >>= f) (v.truth >>= g) :=
  Follows.bind (P := fun _ => True) (.refl fun _ _ => trivial) fun b _ => h b

/-- Wherever an expression stands, evaluation with indexes follows evaluation without. -/
def Agrees (s : Store) (σ : Setting) (k : Nat) (e : Expr) : Prop :=
  ∀ outer c', (e.analyze ⟨c', false, outer⟩).IsIndexSafe s → e.FollowsTree s σ k outer c'

theorem follows_of_agrees {es : List Expr} {c' : ExprId} (hes : ∀ e ∈ es, e.Agrees s σ k)
    (hsafe : ∀ e ∈ analyzeAll ⟨c', false, outer⟩ es, e.IsIndexSafe s) :
    ∀ e ∈ es, (e.analyze ⟨c', false, outer⟩).IsIndexSafe s ∧ e.FollowsTree s σ k outer c' := by
  intro e he
  rw [analyzeAll_eq_map, List.forall_mem_map] at hsafe
  exact ⟨hsafe e he, hes e he outer c' (hsafe e he)⟩

theorem mem_analyzePredicates {surroundings : Surroundings} {ps : List Predicate} {p : Predicate}
    (hp : p ∈ ps) :
    (⟨p.id, p.expr.analyze surroundings, p.mode⟩ : Predicate) ∈ analyzePredicates surroundings ps := by
  rw [analyzePredicates_eq_map]
  exact List.mem_map_of_mem hp

theorem agrees_path {id : ExprId} {steps : List Expr} (hsteps : ∀ e ∈ steps, e.Agrees s σ k) :
    (path id steps).Agrees s σ k := by
  intro outer c' hsafe c focus hfocus
  have hfree := hsafe.pragmaFree
  have hfree' := hsafe.tree (k := k) (c := c)
  cases steps with
  | nil =>
    rw [renumber, renumberAll, analyze, analyze, analyzeSteps, analyzeSteps, outcome_path_nil,
      outcome_path_nil]
    exact .ok Sequence.isIn_empty
  | cons first rest =>
    rw [renumber, renumberAll, analyze, analyzeSteps] at hfree'
    rw [analyze, analyzeSteps] at hfree hsafe
    rw [renumber, renumberAll, analyze, analyze, analyzeSteps, analyzeSteps,
      outcome_path_cons hfree, outcome_path_cons hfree']
    refine Follows.bind (hsteps first List.mem_cons_self outer c'
      (hsafe.mono (parts_subset_path List.mem_cons_self)) c focus hfocus) fun value hvalue => ?_
    refine follows_evaluateSteps (follows_of_agrees
      (fun e he => hsteps e (List.mem_cons_of_mem _ he)) fun e he => ?_) value hvalue
    exact hsafe.mono (parts_subset_path (List.mem_cons_of_mem _ he))

/-- What is asked of a step is asked of its predicates. -/
theorem isSafePredicate_of_step {head : StepHead} {ps : List Predicate}
    (hps : ∀ p ∈ ps, p.expr.Agrees s σ k) {around : Bool}
    (hsafe : (step { head with treeTraversal := around }
      (analyzePredicates ⟨head.id, false, some ⟨head.test.name?, head.axis⟩⟩ ps)).IsIndexSafe s) :
    ∀ p ∈ ps, IsSafePredicate s σ k (some ⟨head.test.name?, head.axis⟩) head.id p := by
  intro p hp
  let around : Surroundings := ⟨head.id, false, some ⟨head.test.name?, head.axis⟩⟩
  have hmem : (⟨p.id, p.expr.analyze around, p.mode⟩ : Predicate) ∈ analyzePredicates around ps :=
    mem_analyzePredicates hp
  have hsafe' := hsafe.mono (parts_subset_step hmem)
  refine ⟨hsafe', hps p hp _ _ hsafe', fun hmode q hq => ?_⟩
  rintro step ⟨⟩ hattr hself hrelation n c hhits hc
  by_contra hcovers
  refine hsafe.reads _ _ (self_mem_parts _) _ hmem ⟨hattr, hmode, ?_, ?_⟩
  · rw [namesSelf_analyze]
    exact hself
  · have hprobe := probe?_analyze ⟨head.id, false, some ⟨head.test.name?, head.axis⟩⟩ p.expr
    rw [if_neg Bool.false_ne_true, hq] at hprobe
    obtain ⟨⟨id, q'⟩, hq', rfl⟩ := Option.map_eq_some_iff.1 hprobe
    exact ⟨id, q', n, c, hq', hrelation, hhits, hc, by simpa using hcovers⟩

/-- Two steps that differ in number and surroundings follow each other as their predicates do. -/
theorem follows_step (hs : s.IsReliable) (hσ : σ.IsBare) {head head' : StepHead}
    {ps ps' : List Predicate} (hfree : (step head ps).IsPragmaFree)
    (hfree' : (step head' ps').IsPragmaFree) (haxis : head'.axis = head.axis)
    (htest : head'.test = head.test) (hpositional : hasPositional ps' = hasPositional ps)
    (happly : ∀ reverse, FollowsOn s (some ⟨head.test.name?, head.axis⟩)
      (fun value => σ.outcome (applyPredicates s ps reverse value))
      fun value => σ.outcome (applyPredicates s ps' reverse value))
    {focus : Focus} (hfocus : focus.IsIn s) :
    Follows (·.IsIn s) (σ.outcome ((step head ps).evaluate s focus))
      (σ.outcome ((step head' ps').evaluate s focus)) := by
  rw [outcome_step hfree, outcome_step hfree', hpositional, haxis]
  refine Follows.bind (.refl fun shared hshared => hfocus.contextSet hshared) fun shared hshared => ?_
  split_ifs
  · refine Follows.bind ?_ fun set hset => .ok hset
    exact follows_byNode hs hσ haxis htest (happly head.axis.isReverse) _ hshared.2
  · exact follows_select hs hσ haxis htest (happly false) hshared.2

theorem agrees_step (hs : s.IsReliable) (hσ : σ.IsBare) {head : StepHead} {ps : List Predicate}
    (hps : ∀ p ∈ ps, p.expr.Agrees s σ k) : (step head ps).Agrees s σ k := by
  intro outer c' hsafe c focus hfocus
  have hfree := hsafe.pragmaFree
  have hfree' := hsafe.tree (k := k) (c := c)
  rw [renumber, analyze] at hfree' ⊢
  rw [analyze] at hfree hsafe ⊢
  dsimp only [Surroundings.ofStep] at hfree' hfree hsafe ⊢
  have hpredicates := isSafePredicate_of_step hps hsafe
  refine follows_step hs hσ hfree' hfree rfl rfl ?_ (fun reverse => ?_) hfocus
  · rw [hasPositional_analyze, hasPositional_analyze, hasPositional_renumber]
  · exact follows_applyPredicates hs hσ hpredicates reverse

theorem agrees_root (hs : s.IsIndexed) : root.Agrees s σ k := by
  intro outer c' _ c focus hfocus
  rw [renumber, analyze, analyze, outcome_root]
  refine Follows.bind (.refl fun shared hshared => hfocus.contextSet hshared) fun shared hshared => ?_
  refine .ok (NodeSet.isIn_ofList _ fun n hn => ?_)
  obtain ⟨m, hm, rfl⟩ := List.mem_map.1 hn
  exact hs.has_document (hshared.2 m hm)

theorem agrees_filter (hs : s.IsReliable) (hσ : σ.IsBare) {id : ExprId} {base : Expr}
    {ps : List Predicate} (hbase : base.Agrees s σ k) (hps : ∀ p ∈ ps, p.expr.Agrees s σ k) :
    (filter id base ps).Agrees s σ k := by
  intro outer c' hsafe c focus hfocus
  have hfree := hsafe.pragmaFree
  have hfree' := hsafe.tree (k := k) (c := c)
  rw [renumber, analyze] at hfree' ⊢
  rw [analyze] at hfree hsafe ⊢
  dsimp only [Surroundings.ofFilter] at hfree' hfree hsafe ⊢
  have hpredicates : ∀ p ∈ ps, IsSafePredicate s σ k none id p := by
    intro p hp
    have hsafe' := hsafe.mono (parts_subset_filter (mem_analyzePredicates hp))
    refine ⟨hsafe', hps p hp _ _ hsafe', ?_⟩
    rintro _ _ _ step ⟨⟩
  rw [outcome_filter hfree, outcome_filter hfree']
  refine Follows.bind (hbase outer c' (hsafe.mono (parts_subset_base _ _ _)) c focus hfocus)
    fun value hvalue => ?_
  refine follows_applyPredicates hs hσ hpredicates false value hvalue ?_
  rintro _ _ step _ ⟨⟩

theorem agrees_comparison {id : ExprId} {op : ComparisonOp} {left right : Expr} {access : Access}
    (hleft : left.Agrees s σ k) (hright : right.Agrees s σ k) :
    (comparison id op left right access).Agrees s σ k := by
  intro outer c' hsafe c focus hfocus
  have hfree := hsafe.pragmaFree
  have hfree' := hsafe.tree (k := k) (c := c)
  rw [renumber, analyze] at hfree' ⊢
  rw [analyze] at hfree hsafe ⊢
  dsimp only at hfree' hfree hsafe ⊢
  obtain ⟨hl, hr⟩ := isIndexSafe_sides hsafe rfl
  rw [outcome_comparison hfree, outcome_comparison hfree']
  refine Follows.bind (hleft outer c' hl c focus hfocus) fun l _ => ?_
  refine Follows.bind (hright outer c' hr c focus hfocus) fun r _ => ?_
  rw [outcome_compareSequences]
  refine .refl fun v hv => ?_
  obtain ⟨left, _, hv⟩ := bind_eq_ok.1 hv
  obtain ⟨right, _, hv⟩ := bind_eq_ok.1 hv
  obtain ⟨b, _, hv⟩ := bind_eq_ok.1 hv
  obtain rfl := Except.ok.inj hv
  exact Sequence.isIn_ofValue _

theorem agrees_call (hs : s.IsIndexed) {id : ExprId} {function : Builtin} {args : List Expr}
    {access : Access} (hargs : ∀ e ∈ args, e.Agrees s σ k) :
    (call id function args access).Agrees s σ k := by
  intro outer c' hsafe c focus hfocus
  have hfree := hsafe.pragmaFree
  have hfree' := hsafe.tree (k := k) (c := c)
  rw [renumber, analyze] at hfree' ⊢
  rw [analyze] at hfree hsafe ⊢
  dsimp only at hfree' hfree hsafe ⊢
  rw [outcome_call hfree, outcome_call hfree']
  refine Follows.bind (follows_evaluateAll (follows_of_agrees hargs fun e he =>
    hsafe.mono (parts_subset_call he)) hfocus) fun values _ => ?_
  exact .refl fun v hv => returns_apply hs focus function values _ v hv

theorem agrees_and {left right : Expr} (hleft : left.Agrees s σ k) (hright : right.Agrees s σ k) :
    (and left right).Agrees s σ k := by
  intro outer c' hsafe c focus hfocus
  have hfree := hsafe.pragmaFree
  have hfree' := hsafe.tree (k := k) (c := c)
  rw [renumber, analyze] at hfree' ⊢
  rw [analyze] at hfree hsafe ⊢
  obtain ⟨hl, hr⟩ := isIndexSafe_sides hsafe rfl
  rw [outcome_and hfree, outcome_and hfree']
  refine Follows.bind (hleft outer c' hl c focus hfocus) fun l _ => follows_truth fun b => ?_
  cases b with
  | false => exact .ok (Sequence.isIn_ofValue _)
  | true =>
    refine Follows.bind (hright outer c' hr c focus hfocus) fun r _ => follows_truth fun b => ?_
    exact .ok (Sequence.isIn_ofValue _)

theorem agrees_or {left right : Expr} (hleft : left.Agrees s σ k) (hright : right.Agrees s σ k) :
    (or left right).Agrees s σ k := by
  intro outer c' hsafe c focus hfocus
  have hfree := hsafe.pragmaFree
  have hfree' := hsafe.tree (k := k) (c := c)
  rw [renumber, analyze] at hfree' ⊢
  rw [analyze] at hfree hsafe ⊢
  obtain ⟨hl, hr⟩ := isIndexSafe_sides hsafe rfl
  rw [outcome_or hfree, outcome_or hfree']
  refine Follows.bind (hleft outer c' hl c focus hfocus) fun l _ => follows_truth fun b => ?_
  cases b with
  | true => exact .ok (Sequence.isIn_ofValue _)
  | false =>
    refine Follows.bind (hright outer c' hr c focus hfocus) fun r _ => follows_truth fun b => ?_
    exact .ok (Sequence.isIn_ofValue _)

theorem agrees_sequence {items : List Expr} (hitems : ∀ e ∈ items, e.Agrees s σ k) :
    (sequence items).Agrees s σ k := by
  intro outer c' hsafe c focus hfocus
  have hfree := hsafe.pragmaFree
  have hfree' := hsafe.tree (k := k) (c := c)
  rw [renumber, analyze] at hfree' ⊢
  rw [analyze] at hfree hsafe ⊢
  rw [outcome_sequence hfree, outcome_sequence hfree']
  refine Follows.bind (follows_evaluateAll (follows_of_agrees hitems fun e he =>
    hsafe.mono (parts_subset_sequence he)) hfocus) fun values hvalues => ?_
  exact .ok (isIn_foldl_append Sequence.isIn_empty hvalues)

/-- **Evaluation with indexes follows evaluation without.** -/
theorem agrees (hs : s.IsReliable) (hσ : σ.IsBare)
    (hvariables : ∀ name v, σ.start.context.value name = .ok v → v.IsIn s) (e : Expr) :
    e.Agrees s σ k := by
  induction e using Expr.induct with
  | path id steps ih => exact agrees_path ih
  | step head ps ih => exact agrees_step hs hσ ih
  | root => exact agrees_root hs.indexed
  | filter id base ps hbase ih => exact agrees_filter hs hσ hbase ih
  | comparison id op left right access hleft hright => exact agrees_comparison hleft hright
  | call id function args access ih => exact agrees_call hs.indexed ih
  | var name =>
    intro outer c' _ c focus _
    rw [renumber, analyze, analyze, outcome_variable]
    exact .refl fun v hv => hvariables name v hv
  | literal value =>
    intro outer c' _ c focus _
    rw [renumber, analyze, analyze, outcome_literal]
    exact .ok (Sequence.isIn_ofValue value)
  | and left right hleft hright => exact agrees_and hleft hright
  | or left right hleft hright => exact agrees_or hleft hright
  | sequence items ih => exact agrees_sequence ih
  | extension id pragmas body _ =>
    intro outer c' hsafe
    exact absurd hsafe.pragmaFree not_isPragmaFree_extension

end Expr
end IndexedXml
