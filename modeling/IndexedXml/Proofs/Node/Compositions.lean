/-
# Compositions of node sets

Only the making of a set from a list puts nodes in order.  Every other operation takes the order
of its operands for granted: a union merges them, the selections and intersections leave members
out, and to look for a member is to halve a list again and again, which finds nothing for certain
in a list without order.

Order is kept all the same, however operations are put together.  A *composition* says how a set
is made of lists (`NodeSet.Composition`), and what it has can be said without any list
(`NodeSet.Composition.Has`).  The value of every composition has just that, in document order and
each node once, so that halving finds it (`NodeSet.Composition.represents_value`).
-/

import IndexedXml.Proofs.Node.Narrowing

namespace IndexedXml

/-! ### Halving and merging -/

section Ascending

variable {α : Type} [LT α] [DecidableLT α] [DecidableEq α]

/-- Whether halving finds a value: one looks in the middle, and goes on in the half in which an
ascending list would have the value. -/
def findsByHalving (a : α) (l : List α) : Bool :=
  match h : l.drop (l.length / 2) with
  | [] => false
  | middle :: upper =>
    if middle = a then true
    else if middle < a then findsByHalving a upper
    else findsByHalving a (l.take (l.length / 2))
termination_by l.length
decreasing_by
  all_goals
    have hlength := congrArg List.length h
    simp only [List.length_drop, List.length_cons] at hlength
    grind

/-- Two lists merged into one: the lesser of the first values comes first, and of two equal ones
only one is kept. -/
def mergeAscending : List α → List α → List α
  | [], m => m
  | a :: l, [] => a :: l
  | a :: l, b :: m =>
    if a < b then a :: mergeAscending l (b :: m)
    else if b < a then b :: mergeAscending (a :: l) m
    else a :: mergeAscending l m
termination_by l m => l.length + m.length

variable [IsStrictTotalOrder α (· < ·)]

/-- What is found is there, and what is there is found in an ascending list. -/
theorem findsByHalving_eq_true_iff {a : α} {l : List α} (h : l.Pairwise (· < ·)) :
    findsByHalving a l = true ↔ a ∈ l := by
  fun_induction findsByHalving a l with
  | case1 l hdrop =>
    -- Nothing stands in the middle of the empty list alone.
    have hlength := congrArg List.length hdrop
    rw [List.length_drop, List.length_nil] at hlength
    have hnil : l = [] := List.length_eq_zero_iff.1 (by omega)
    simp [hnil]
  | case2 l upper hdrop =>
    have hcut := List.take_append_drop (l.length / 2) l
    rw [hdrop] at hcut
    rw [← hcut]
    simp
  | case3 l middle upper hdrop hne hlt ih =>
    have hcut := List.take_append_drop (l.length / 2) l
    rw [hdrop] at hcut
    rw [← hcut] at h
    obtain ⟨_, hupper, hacross⟩ := List.pairwise_append.1 h
    have hlower : a ∉ l.take (l.length / 2) := fun ha =>
      irrefl_of (· < ·) a (trans_of (· < ·) (hacross a ha middle List.mem_cons_self) hlt)
    rw [ih (List.pairwise_cons.1 hupper).2, ← hcut, List.mem_append,
      List.mem_cons]
    simp [hlower, Ne.symm hne]
  | case4 l middle upper hdrop hne hnlt ih =>
    have hcut := List.take_append_drop (l.length / 2) l
    rw [hdrop] at hcut
    rw [← hcut] at h
    obtain ⟨hlower, hupper, _⟩ := List.pairwise_append.1 h
    have hgt : a < middle := by
      rcases trichotomous_of (· < ·) a middle with hlt | heq | hgt
      · exact hlt
      · exact absurd heq.symm hne
      · exact absurd hgt hnlt
    have hafter : a ∉ middle :: upper := by
      intro ha
      rcases List.mem_cons.1 ha with heq | ha
      · exact hne heq.symm
      · exact irrefl_of (· < ·) a
          (trans_of (· < ·) hgt ((List.pairwise_cons.1 hupper).1 a ha))
    rw [ih hlower]
    conv_rhs => rw [← hcut]
    rw [List.mem_append]
    simp [hafter]

/-- In a list without order halving passes by what is there. -/
example : 3 ∈ [3, 1, 2] ∧ findsByHalving 3 [3, 1, 2] = false := by decide +kernel

theorem mem_mergeAscending {c : α} {l m : List α} :
    c ∈ mergeAscending l m ↔ c ∈ l ∨ c ∈ m := by
  fun_induction mergeAscending l m with
  | case1 m => simp
  | case2 a l => simp
  | case3 a l b m hlt ih => simp only [List.mem_cons, ih, or_assoc]
  | case4 a l b m hnlt hgt ih =>
    simp only [List.mem_cons, ih]
    exact or_left_comm
  | case5 a l b m hnlt hngt ih =>
    obtain rfl : a = b := by
      rcases trichotomous_of (· < ·) a b with hlt | heq | hgt
      · exact absurd hlt hnlt
      · exact heq
      · exact absurd hgt hngt
    simp only [List.mem_cons, ih]
    tauto

/-- **Merging keeps lists ascending.** -/
theorem pairwise_mergeAscending {l m : List α} (hl : l.Pairwise (· < ·))
    (hm : m.Pairwise (· < ·)) : (mergeAscending l m).Pairwise (· < ·) := by
  fun_induction mergeAscending l m with
  | case1 m => exact hm
  | case2 a l => exact hl
  | case3 a l b m hlt ih =>
    obtain ⟨ha, hl⟩ := List.pairwise_cons.1 hl
    refine List.pairwise_cons.2 ⟨fun c hc => ?_, ih hl hm⟩
    rcases mem_mergeAscending.1 hc with hc | hc
    · exact ha c hc
    · rcases List.mem_cons.1 hc with rfl | hc
      · exact hlt
      · exact trans_of (· < ·) hlt ((List.pairwise_cons.1 hm).1 c hc)
  | case4 a l b m hnlt hgt ih =>
    obtain ⟨hb, hm⟩ := List.pairwise_cons.1 hm
    refine List.pairwise_cons.2 ⟨fun c hc => ?_, ih hl hm⟩
    rcases mem_mergeAscending.1 hc with hc | hc
    · rcases List.mem_cons.1 hc with rfl | hc
      · exact hgt
      · exact trans_of (· < ·) hgt ((List.pairwise_cons.1 hl).1 c hc)
    · exact hb c hc
  | case5 a l b m hnlt hngt ih =>
    obtain ⟨ha, hl⟩ := List.pairwise_cons.1 hl
    obtain ⟨hb, hm⟩ := List.pairwise_cons.1 hm
    refine List.pairwise_cons.2 ⟨fun c hc => ?_, ih hl hm⟩
    rcases mem_mergeAscending.1 hc with hc | hc
    · exact ha c hc
    · rcases trichotomous_of (· < ·) a b with hlt | rfl | hgt
      · exact absurd hlt hnlt
      · exact hb c hc
      · exact absurd hgt hngt

end Ascending

namespace NodeSet

variable {s t : NodeSet} {P Q : Node → Prop}

/-! ### What a set stands for -/

/-- **`s` stands for the nodes with a property:** it lists them in document order, each once, and
both ways to look for a node find these and no others. -/
structure Represents (s : NodeSet) (P : Node → Prop) : Prop where
  /-- The members strictly increase. -/
  ordered : s.IsOrdered
  /-- The members are the nodes with the property. -/
  mem_iff : ∀ n, n ∈ s ↔ P n
  /-- Going through the members finds what has the property. -/
  contains_iff : ∀ n, s.contains n = true ↔ P n
  /-- Halving the members finds what has the property. -/
  finds_iff : ∀ n, findsByHalving n s.nodes = true ↔ P n

/-- An ordered set stands for its members, and for what is said of them in other words. -/
theorem IsOrdered.represents (h : s.IsOrdered) (hmem : ∀ n, n ∈ s ↔ P n) : s.Represents P :=
  ⟨h, hmem, fun n => contains_eq_true.trans (hmem n),
    fun n => (findsByHalving_eq_true_iff h).trans (hmem n)⟩

/-- What keeps the part of a set stands for that part. -/
theorem KeepsExactly.represents (h : s.KeepsExactly t Q) (ht : t.Represents P) :
    s.Represents fun n => P n ∧ Q n :=
  h.ordered.represents fun n => (h.mem_iff n).trans (and_congr_left' (ht.mem_iff n))

/-- The property can be said in other words. -/
theorem Represents.congr (h : s.Represents P) (hiff : ∀ n, P n ↔ Q n) : s.Represents Q :=
  h.ordered.represents fun n => (h.mem_iff n).trans (hiff n)

/-- **Sets that stand for the same nodes list the same nodes.** -/
theorem Represents.nodes_eq (hs : s.Represents P) (ht : t.Represents Q) (h : ∀ n, P n ↔ Q n) :
    s.nodes = t.nodes :=
  eq_of_pairwise_lt hs.ordered ht.ordered fun n =>
    (hs.mem_iff n).trans ((h n).trans (ht.mem_iff n).symm)

/-- A member with a further property is a node with both. -/
theorem Represents.exists_mem_iff (h : s.Represents P) :
    (∃ n ∈ s, Q n) ↔ ∃ n, P n ∧ Q n :=
  exists_congr fun n => and_congr_left' (h.mem_iff n)

/-- A list makes a set that stands for its entries, in whatever order and however often the list
has them. -/
theorem represents_ofList (nodes : List Node) (persistent : Bool) :
    (NodeSet.ofList nodes persistent).Represents (· ∈ nodes) :=
  (isOrdered_ofList _ _).represents fun _ => mem_ofList

theorem Represents.union (hs : s.Represents P) (ht : t.Represents Q) :
    (s.union t).Represents fun n => P n ∨ Q n :=
  (ht.ordered.union s).represents fun n => mem_union.trans (or_congr (hs.mem_iff n) (ht.mem_iff n))

/-- **A union is the merged lists of its sides.** -/
theorem IsOrdered.nodes_union (hs : s.IsOrdered) (ht : t.IsOrdered) :
    (s.union t).nodes = mergeAscending s.nodes t.nodes :=
  eq_of_pairwise_lt (ht.union s) (pairwise_mergeAscending hs ht) fun _ =>
    mem_union.trans mem_mergeAscending.symm

theorem persistent_union_iff :
    (s.union t).persistent = true ↔ s.persistent = true ∨ t.persistent = true := by
  simp [NodeSet.union]

theorem Represents.intersect (hs : s.Represents P) (ht : t.Represents Q) :
    (s.intersect t).Represents fun n => P n ∧ Q n :=
  (hs.ordered.filter _).represents fun n =>
    mem_intersect.trans (and_congr (hs.mem_iff n) (ht.mem_iff n))

theorem Represents.filterDocuments (hs : s.Represents P) (ht : t.Represents Q) :
    (s.filterDocuments t).Represents fun n => P n ∧ ∃ m, Q m ∧ m.doc = n.doc :=
  (hs.ordered.filter _).represents fun n =>
    mem_filterDocuments.trans (and_congr (hs.mem_iff n) ht.exists_mem_iff)

/-! ### Compositions -/

/-- A way to put a set together from lists. -/
inductive Composition where
  /-- The set of the entries of a list. -/
  | ofList (nodes : List Node) (persistent : Bool)
  | union (a b : Composition)
  | intersect (a b : Composition)
  | filterDocuments (a other : Composition)
  | selectAncestorDescendant (lower upper : Composition) (mode : NarrowMode) (includeSelf : Bool)
  | selectParentChild (lower upper : Composition) (mode : NarrowMode)

namespace Composition

/-- The set that is put together. -/
def value : Composition → NodeSet
  | ofList nodes persistent => .ofList nodes persistent
  | union a b => a.value.union b.value
  | intersect a b => a.value.intersect b.value
  | filterDocuments a other => a.value.filterDocuments other.value
  | selectAncestorDescendant lower upper mode includeSelf =>
    lower.value.selectAncestorDescendant upper.value mode includeSelf
  | selectParentChild lower upper mode => lower.value.selectParentChild upper.value mode

/-- The nodes that belong to it, by what the operations mean. -/
def Has : Composition → Node → Prop
  | ofList nodes _, n => n ∈ nodes
  | union a b, n => a.Has n ∨ b.Has n
  | intersect a b, n => a.Has n ∧ b.Has n
  | filterDocuments a other, n => a.Has n ∧ ∃ m, other.Has m ∧ m.doc = n.doc
  | selectAncestorDescendant lower upper .ancestor includeSelf, a =>
    upper.Has a ∧ ((∃ n, lower.Has n ∧ n.IsBelow a) ∨ (includeSelf = true ∧ lower.Has a))
  | selectAncestorDescendant lower upper .descendant includeSelf, n =>
    lower.Has n ∧ ((∃ a, upper.Has a ∧ n.IsBelow a) ∨ (includeSelf = true ∧ upper.Has n))
  | selectParentChild lower upper .ancestor, a => upper.Has a ∧ ∃ n, lower.Has n ∧ n.IsChild a
  | selectParentChild lower upper .descendant, n => lower.Has n ∧ ∃ a, upper.Has a ∧ n.IsChild a

/-- **The value of a composition stands for what the composition has:** each operation keeps this
when its operands have it. -/
theorem value_represents_has (a : Composition) : a.value.Represents a.Has := by
  induction a with
  | ofList nodes persistent => exact represents_ofList nodes persistent
  | union a b iha ihb => exact iha.union ihb
  | intersect a b iha ihb => exact iha.intersect ihb
  | filterDocuments a other iha ihother => exact iha.filterDocuments ihother
  | selectAncestorDescendant lower upper mode includeSelf ihlower ihupper =>
    cases mode with
    | ancestor =>
      have hkeeps := keepsExactly_selectAncestor ihlower.ordered ihupper.ordered includeSelf
      exact (hkeeps.represents ihupper).congr fun n =>
        and_congr_right fun _ => or_congr ihlower.exists_mem_iff
          (and_congr_right fun _ => ihlower.mem_iff n)
    | descendant =>
      have hkeeps : (lower.value.selectAncestorDescendant upper.value .descendant
          includeSelf).KeepsExactly lower.value _ :=
        keepsExactly_selectDescendant ihlower.ordered includeSelf
      exact (hkeeps.represents ihlower).congr fun n =>
        and_congr_right fun _ => or_congr ihupper.exists_mem_iff
          (and_congr_right fun _ => ihupper.mem_iff n)
  | selectParentChild lower upper mode ihlower ihupper =>
    cases mode with
    | ancestor =>
      have hkeeps := keepsExactly_selectParent ihlower.ordered ihupper.ordered
      exact (hkeeps.represents ihupper).congr fun n =>
        and_congr_right fun _ => ihlower.exists_mem_iff
    | descendant =>
      have hkeeps : (lower.value.selectParentChild upper.value .descendant).KeepsExactly
          lower.value _ := keepsExactly_selectChild ihlower.ordered
      exact (hkeeps.represents ihlower).congr fun n =>
        and_congr_right fun _ => ihupper.exists_mem_iff

end Composition

/-! ### The laws of union and intersection -/

/-- **An operation on sets is commutative, associative and idempotent in what it lists,** for the
values of compositions. -/
structure HasSetLaws (op : NodeSet → NodeSet → NodeSet) : Prop where
  comm : ∀ a b : Composition, (op a.value b.value).nodes = (op b.value a.value).nodes
  assoc : ∀ a b c : Composition,
    (op (op a.value b.value) c.value).nodes = (op a.value (op b.value c.value)).nodes
  idem : ∀ a : Composition, (op a.value a.value).nodes = a.value.nodes

theorem hasSetLaws_union : HasSetLaws NodeSet.union where
  comm a b :=
    (a.value_represents_has.union b.value_represents_has).nodes_eq
      (b.value_represents_has.union a.value_represents_has) fun _ => or_comm
  assoc a b c :=
    ((a.value_represents_has.union b.value_represents_has).union c.value_represents_has).nodes_eq
      (a.value_represents_has.union (b.value_represents_has.union c.value_represents_has))
      fun _ => or_assoc
  idem a :=
    (a.value_represents_has.union a.value_represents_has).nodes_eq a.value_represents_has
      fun _ => or_self_iff

theorem hasSetLaws_intersect : HasSetLaws NodeSet.intersect where
  comm a b :=
    (a.value_represents_has.intersect b.value_represents_has).nodes_eq
      (b.value_represents_has.intersect a.value_represents_has) fun _ => and_comm
  assoc a b c :=
    ((a.value_represents_has.intersect b.value_represents_has).intersect
      c.value_represents_has).nodes_eq
        (a.value_represents_has.intersect
          (b.value_represents_has.intersect c.value_represents_has))
        fun _ => and_assoc
  idem a :=
    (a.value_represents_has.intersect a.value_represents_has).nodes_eq a.value_represents_has
      fun _ => and_self_iff

/-- **However sets are put together, they stay in order and mean what the operations say.**  The
value of every composition lists in document order, each once, the nodes that the composition has,
and looking for a node answers just that.  A union is the merged lists of its sides, a store
handed it out exactly when one of the sides, and intersections and unions obey the laws of
sets. -/
theorem Composition.represents_value :
    (∀ a : Composition, a.value.Represents a.Has) ∧
      (∀ a b : Composition,
        (a.value.union b.value).Represents (fun n => n ∈ a.value ∨ n ∈ b.value) ∧
        (a.value.union b.value).nodes = mergeAscending a.value.nodes b.value.nodes ∧
        ((a.value.union b.value).persistent = true ↔
          a.value.persistent = true ∨ b.value.persistent = true) ∧
        (a.value.intersect b.value).Represents (fun n => n ∈ a.value ∧ n ∈ b.value) ∧
        (a.value.filterDocuments b.value).Represents
          (fun n => n ∈ a.value ∧ ∃ m ∈ b.value, m.doc = n.doc)) ∧
      HasSetLaws NodeSet.union ∧ HasSetLaws NodeSet.intersect := by
  refine ⟨value_represents_has, fun a b => ?_, hasSetLaws_union, hasSetLaws_intersect⟩
  have ha : a.value.Represents (· ∈ a.value) :=
    a.value_represents_has.ordered.represents fun _ => Iff.rfl
  have hb : b.value.Represents (· ∈ b.value) :=
    b.value_represents_has.ordered.represents fun _ => Iff.rfl
  exact ⟨ha.union hb, ha.ordered.nodes_union hb.ordered, persistent_union_iff, ha.intersect hb,
    ha.filterDocuments hb⟩

end NodeSet
end IndexedXml
