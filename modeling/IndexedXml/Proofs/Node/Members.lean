/-
# Members of node sets

What the operations on node sets do to their members.  A set that was made of a list
is *ordered*, all operations keep it so, and two ordered sets with the same members
are the same list.  The selections by ancestry look only at the first members that are
not before a node; in an ordered set that finds what there is to find
(`NodeSet.hasBelow_iff`, `NodeSet.hasChild_iff`).
-/

import IndexedXml.Node.Set
import IndexedXml.Proofs.Node.Order
import Mathlib.Data.List.Nodup
import Mathlib.Data.List.Perm.Basic

namespace IndexedXml

section Ascending

variable {α : Type} [LT α] [DecidableLT α] [DecidableEq α]

theorem mem_insertAscending {a b : α} {l : List α} : b ∈ insertAscending a l ↔ b = a ∨ b ∈ l := by
  induction l with
  | nil => simp [insertAscending]
  | cons c rest ih =>
    rw [insertAscending]
    split_ifs with hlt heq
    · simp
    · subst heq; simp
    · simp only [List.mem_cons, ih]
      exact or_left_comm

theorem mem_foldr_insertAscending {b : α} {l m : List α} :
    b ∈ l.foldr insertAscending m ↔ b ∈ l ∨ b ∈ m := by
  induction l with
  | nil => simp
  | cons a rest ih => simp [mem_insertAscending, ih, or_assoc]

@[simp] theorem mem_ascending {b : α} {l : List α} : b ∈ ascending l ↔ b ∈ l := by
  simp [ascending, mem_foldr_insertAscending]

variable [IsStrictTotalOrder α (· < ·)]

theorem pairwise_insertAscending {a : α} {l : List α} (h : l.Pairwise (· < ·)) :
    (insertAscending a l).Pairwise (· < ·) := by
  induction l with
  | nil => simp [insertAscending]
  | cons c rest ih =>
    obtain ⟨hc, hrest⟩ := List.pairwise_cons.1 h
    rw [insertAscending]
    split_ifs with hlt heq
    · refine List.pairwise_cons.2 ⟨fun b hb => ?_, h⟩
      rcases List.mem_cons.1 hb with rfl | hb
      · exact hlt
      · exact trans_of (· < ·) hlt (hc b hb)
    · exact h
    · refine List.pairwise_cons.2 ⟨fun b hb => ?_, ih hrest⟩
      rcases mem_insertAscending.1 hb with rfl | hb
      · rcases trichotomous_of (· < ·) b c with hbc | rfl | hcb
        · exact absurd hbc hlt
        · exact absurd rfl heq
        · exact hcb
      · exact hc b hb

theorem pairwise_foldr_insertAscending {l m : List α} (h : m.Pairwise (· < ·)) :
    (l.foldr insertAscending m).Pairwise (· < ·) := by
  induction l with
  | nil => exact h
  | cons a rest ih => exact pairwise_insertAscending ih

theorem pairwise_ascending (l : List α) : (ascending l).Pairwise (· < ·) :=
  pairwise_foldr_insertAscending List.Pairwise.nil

omit [DecidableLT α] [DecidableEq α] in
/-- **Ascending lists with the same members are the same list.** -/
theorem eq_of_pairwise_lt {l m : List α} (hl : l.Pairwise (· < ·)) (hm : m.Pairwise (· < ·))
    (h : ∀ a, a ∈ l ↔ a ∈ m) : l = m := by
  have hperm : l.Perm m := (List.perm_ext_iff_of_nodup hl.nodup hm.nodup).2 h
  exact hperm.eq_of_pairwise (fun a b _ _ hab hba => absurd (trans_of (· < ·) hab hba) (irrefl_of _ a)) hl hm

end Ascending

section Downward

variable {α : Type} [LT α]

/-- In an ascending list, a property that goes down to earlier members holds of an
initial part. -/
theorem mem_takeWhile_of_downward {l : List α} (h : l.Pairwise (· < ·)) {p : α → Bool}
    (hp : ∀ b ∈ l, ∀ c ∈ l, b < c → p c = true → p b = true) {b : α} :
    b ∈ l.takeWhile p ↔ b ∈ l ∧ p b = true := by
  induction l with
  | nil => simp
  | cons c rest ih =>
    obtain ⟨hc, hrest⟩ := List.pairwise_cons.1 h
    by_cases hpc : p c = true
    · rw [List.takeWhile_cons_of_pos hpc, List.mem_cons, List.mem_cons,
        ih hrest fun b hb d hd => hp b (.tail _ hb) d (.tail _ hd)]
      constructor
      · rintro (rfl | ⟨hb, hpb⟩)
        · exact ⟨.inl rfl, hpc⟩
        · exact ⟨.inr hb, hpb⟩
      · rintro ⟨rfl | hb, hpb⟩
        · exact .inl rfl
        · exact .inr ⟨hb, hpb⟩
    · rw [List.takeWhile_cons_of_neg hpc]
      simp only [List.not_mem_nil, List.mem_cons, false_iff, not_and]
      rintro (rfl | hb) hpb
      · exact hpc hpb
      · exact hpc (hp c (.head _) b (.tail _ hb) (hc b hb) hpb)

/-- In an ascending list, dropping by such a property leaves what does not have it. -/
theorem mem_dropWhile_of_downward {l : List α} (h : l.Pairwise (· < ·)) {p : α → Bool}
    (hp : ∀ b ∈ l, ∀ c ∈ l, b < c → p c = true → p b = true) {b : α} :
    b ∈ l.dropWhile p ↔ b ∈ l ∧ ¬ p b = true := by
  induction l with
  | nil => simp
  | cons c rest ih =>
    obtain ⟨hc, hrest⟩ := List.pairwise_cons.1 h
    by_cases hpc : p c = true
    · rw [List.dropWhile_cons_of_pos hpc, List.mem_cons,
        ih hrest fun b hb d hd => hp b (.tail _ hb) d (.tail _ hd)]
      constructor
      · rintro ⟨hb, hpb⟩; exact ⟨.inr hb, hpb⟩
      · rintro ⟨rfl | hb, hpb⟩
        · exact absurd hpc hpb
        · exact ⟨hb, hpb⟩
    · rw [List.dropWhile_cons_of_neg hpc]
      refine ⟨fun hb => ⟨hb, fun hpb => ?_⟩, And.left⟩
      rcases List.mem_cons.1 hb with rfl | hb
      · exact hpc hpb
      · exact hpc (hp c (.head _) b (.tail _ hb) (hc b hb) hpb)

variable [DecidableLT α] [IsStrictTotalOrder α (· < ·)]

/-- Dropping what is before `a` leaves what is not. -/
theorem mem_dropWhile_lt {l : List α} (h : l.Pairwise (· < ·)) {a b : α} :
    b ∈ l.dropWhile (· < a) ↔ b ∈ l ∧ ¬ b < a := by
  rw [mem_dropWhile_of_downward h fun b _ c _ hbc hca => ?_]
  · simp
  · simpa using trans_of (· < ·) hbc (of_decide_eq_true hca)

end Downward

namespace DocumentSet

@[simp] theorem contains_ofList {doc : DocId} {docs : List DocId} :
    (DocumentSet.ofList docs).contains doc = true ↔ doc ∈ docs := by
  simp [contains, ofList]

end DocumentSet

namespace NodeSet

instance : Membership Node NodeSet := ⟨fun s n => n ∈ s.nodes⟩

/-- The members are listed in document order, each once. -/
def IsOrdered (s : NodeSet) : Prop := s.nodes.Pairwise (· < ·)

theorem mem_def {s : NodeSet} {n : Node} : n ∈ s ↔ n ∈ s.nodes := Iff.rfl

@[simp] theorem contains_eq_true {s : NodeSet} {n : Node} : s.contains n = true ↔ n ∈ s := by
  simp [contains, mem_def]

@[simp] theorem mem_ofList {nodes : List Node} {persistent : Bool} {n : Node} :
    n ∈ NodeSet.ofList nodes persistent ↔ n ∈ nodes := by
  simp [mem_def, ofList]

@[simp] theorem mem_filter {s : NodeSet} {p : Node → Bool} {n : Node} :
    n ∈ s.filter p ↔ n ∈ s ∧ p n = true := by
  simp [mem_def, filter]

@[simp] theorem not_mem_empty {n : Node} : n ∉ NodeSet.empty := List.not_mem_nil

@[simp] theorem mem_union {s t : NodeSet} {n : Node} : n ∈ s.union t ↔ n ∈ s ∨ n ∈ t := by
  simp [mem_def, union, mem_foldr_insertAscending]

@[simp] theorem mem_intersect {s t : NodeSet} {n : Node} : n ∈ s.intersect t ↔ n ∈ s ∧ n ∈ t := by
  simp [intersect]

theorem mem_documents {s : NodeSet} {doc : DocId} :
    doc ∈ s.documents.docs ↔ ∃ n ∈ s, n.doc = doc := by
  simp [documents, DocumentSet.ofList, mem_def]

@[simp] theorem contains_documents {s : NodeSet} {doc : DocId} :
    s.documents.contains doc = true ↔ ∃ n ∈ s, n.doc = doc := by
  simp [documents, mem_def]

@[simp] theorem mem_filterDocuments {s t : NodeSet} {n : Node} :
    n ∈ s.filterDocuments t ↔ n ∈ s ∧ ∃ m ∈ t, m.doc = n.doc := by
  simp [filterDocuments]

theorem isEmpty_iff {s : NodeSet} : s.isEmpty = true ↔ ∀ n, n ∉ s := by
  simp [isEmpty, mem_def, List.eq_nil_iff_forall_not_mem]

theorem isEmpty_eq_false_iff {s : NodeSet} : s.isEmpty = false ↔ ∃ n, n ∈ s := by
  rw [← Bool.not_eq_true, isEmpty_iff]
  simp

theorem isOrdered_ofList (nodes : List Node) (persistent : Bool) :
    (NodeSet.ofList nodes persistent).IsOrdered :=
  pairwise_ascending nodes

theorem IsOrdered.filter {s : NodeSet} (h : s.IsOrdered) (p : Node → Bool) : (s.filter p).IsOrdered :=
  List.Pairwise.filter p h

theorem isOrdered_empty : NodeSet.empty.IsOrdered := List.Pairwise.nil

theorem IsOrdered.union {t : NodeSet} (h : t.IsOrdered) (s : NodeSet) : (s.union t).IsOrdered :=
  pairwise_foldr_insertAscending h

/-- **Ordered sets of one kind with the same members are equal.** -/
theorem IsOrdered.ext {s t : NodeSet} (hs : s.IsOrdered) (ht : t.IsOrdered)
    (hkind : s.persistent = t.persistent) (h : ∀ n, n ∈ s ↔ n ∈ t) : s = t := by
  have hnodes : s.nodes = t.nodes := eq_of_pairwise_lt hs ht h
  rcases s with ⟨nodes, kind⟩; rcases t with ⟨nodes', kind'⟩
  exact congrArg₂ NodeSet.mk hnodes hkind

/-- Sets made of lists are equal when the lists have the same members. -/
theorem ofList_congr {nodes nodes' : List Node} (persistent : Bool)
    (h : ∀ n, n ∈ nodes ↔ n ∈ nodes') :
    NodeSet.ofList nodes persistent = NodeSet.ofList nodes' persistent :=
  (isOrdered_ofList _ _).ext (isOrdered_ofList _ _) rfl (by simpa using h)

/-- An ordered set is made of its list. -/
theorem IsOrdered.ofList_nodes {s : NodeSet} (h : s.IsOrdered) :
    NodeSet.ofList s.nodes s.persistent = s :=
  (isOrdered_ofList _ _).ext h rfl fun _ => mem_ofList

/-! ### Ancestry -/

/-- Of what comes after `a`, something is below `a` just when the first is. -/
theorem exists_isDescendantOf_iff {a b : Node} {l : List Node} (h : (b :: l).Pairwise (· < ·))
    (hab : a < b) :
    (∃ n ∈ b :: l, n.isDescendantOf a = true) ↔ b.isDescendantOf a = true := by
  refine ⟨?_, fun hb => ⟨b, List.mem_cons_self, hb⟩⟩
  rintro ⟨n, hn, hna⟩
  rcases List.mem_cons.1 hn with rfl | hn
  · exact hna
  · exact Node.isDescendantOf_of_between hna hab ((List.pairwise_cons.1 h).1 n hn)

/-- Of what comes after `a`, something is below `a` just when the first, if any, is. -/
theorem head_isDescendantOf_iff {a : Node} {l : List Node} : (a :: l).Pairwise (· < ·) →
    ((match l with
      | [] => false
      | next :: _ => next.isDescendantOf a) = true ↔ ∃ n ∈ l, n.isDescendantOf a = true) := by
  intro h
  obtain ⟨ha, hl⟩ := List.pairwise_cons.1 h
  cases l with
  | nil => simp
  | cons next later => exact (exists_isDescendantOf_iff hl (ha next List.mem_cons_self)).symm

/-- **The first member that is not before a node shows whether an ordered set has
something below the node.** -/
theorem hasBelow_iff {s : NodeSet} (h : s.IsOrdered) {includeSelf : Bool} {a : Node} :
    s.hasBelow includeSelf a = true ↔
      ∃ n ∈ s, n.isDescendantOf a = true ∨ (includeSelf = true ∧ n = a) := by
  have hord : (s.nodes.dropWhile (· < a)).Pairwise (· < ·) :=
    List.Pairwise.sublist (List.dropWhile_sublist _) h
  have hmem : ∀ n, n ∈ s.nodes.dropWhile (· < a) ↔ n ∈ s ∧ ¬ n < a := fun n => mem_dropWhile_lt h
  -- Nothing that counts stands before `a`, so the rest of the list decides.
  have hrest : (∃ n ∈ s, n.isDescendantOf a = true ∨ (includeSelf = true ∧ n = a)) ↔
      ∃ n ∈ s.nodes.dropWhile (· < a), n.isDescendantOf a = true ∨ (includeSelf = true ∧ n = a) := by
    refine exists_congr fun n => ⟨fun ⟨hn, hna⟩ => ⟨(hmem n).2 ⟨hn, fun hlt => ?_⟩, hna⟩,
      fun ⟨hn, hna⟩ => ⟨((hmem n).1 hn).1, hna⟩⟩
    rcases hna with hna | ⟨_, rfl⟩
    · exact Node.lt_irrefl a (Node.lt_trans (Node.lt_of_isDescendantOf hna) hlt)
    · exact Node.lt_irrefl n hlt
  rw [hrest, hasBelow]
  cases hdrop : s.nodes.dropWhile (· < a) with
  | nil => simp
  | cons first rest =>
    rw [hdrop] at hord hmem
    have hnlt : ¬ first < a := ((hmem first).1 List.mem_cons_self).2
    by_cases heq : first = a
    · subst heq
      have hself : ¬ first.isDescendantOf first = true :=
        fun hd => Node.lt_irrefl _ (Node.lt_of_isDescendantOf hd)
      dsimp only
      rw [if_pos rfl, Bool.or_eq_true]
      refine (or_congr_right (head_isDescendantOf_iff hord)).trans ?_
      constructor
      · rintro (hself | ⟨n, hn, hd⟩)
        · exact ⟨first, List.mem_cons_self, .inr ⟨hself, rfl⟩⟩
        · exact ⟨n, List.mem_cons_of_mem _ hn, .inl hd⟩
      · rintro ⟨n, hn, hd | ⟨hinc, rfl⟩⟩
        · rcases List.mem_cons.1 hn with rfl | hn
          · exact absurd hd hself
          · exact .inr ⟨n, hn, hd⟩
        · exact .inl hinc
    · have haf : a < first := by
        rcases Node.lt_or_eq_or_gt a first with hlt | rfl | hgt
        · exact hlt
        · exact absurd rfl heq
        · exact absurd hgt hnlt
      dsimp only
      rw [if_neg heq, ← exists_isDescendantOf_iff hord haf]
      refine exists_congr fun n => and_congr_right fun hn => ⟨.inl, ?_⟩
      rintro (hd | ⟨_, rfl⟩)
      · exact hd
      · rcases List.mem_cons.1 hn with rfl | hn
        · exact absurd rfl heq
        · exact absurd (Node.lt_trans haf ((List.pairwise_cons.1 hord).1 n hn))
            (Node.lt_irrefl n)

/-- **The members below a node that follow it directly hold all its children.** -/
theorem hasChild_iff {s : NodeSet} (h : s.IsOrdered) {a : Node} :
    s.hasChild a = true ↔ ∃ n ∈ s, n.isChildOf a = true := by
  have hdown : ∀ b ∈ s.nodes, ∀ c ∈ s.nodes, b < c →
      (decide (c < a) || c == a) = true → (decide (b < a) || b == a) = true := by
    intro b _ c _ hbc hc
    rw [Bool.or_eq_true, decide_eq_true_eq, beq_iff_eq] at hc ⊢
    rcases hc with hca | rfl
    · exact .inl (Node.lt_trans hbc hca)
    · exact .inl hbc
  have hdrop : ∀ n, n ∈ s.nodes.dropWhile (fun m => m < a || m == a) ↔ n ∈ s ∧ a < n := by
    intro n
    rw [mem_dropWhile_of_downward h hdown, Bool.or_eq_true, decide_eq_true_eq, beq_iff_eq]
    refine and_congr_right fun _ => ⟨fun hn => ?_, fun han hn => ?_⟩
    · rcases Node.lt_or_eq_or_gt a n with hlt | rfl | hgt
      · exact hlt
      · exact absurd (.inr rfl) hn
      · exact absurd (.inl hgt) hn
    · rcases hn with hna | rfl
      · exact Node.lt_irrefl a (Node.lt_trans han hna)
      · exact Node.lt_irrefl n han
  have hord : (s.nodes.dropWhile (fun m => m < a || m == a)).Pairwise (· < ·) :=
    List.Pairwise.sublist (List.dropWhile_sublist _) h
  have htake : ∀ n, n ∈ (s.nodes.dropWhile (fun m => m < a || m == a)).takeWhile
      (·.isDescendantOf a) ↔ n ∈ s ∧ n.isDescendantOf a = true := by
    intro n
    rw [mem_takeWhile_of_downward hord, hdrop, and_assoc]
    · exact and_congr_right fun _ => ⟨And.right, fun hd => ⟨Node.lt_of_isDescendantOf hd, hd⟩⟩
    · intro b hb c _ hbc hc
      exact Node.isDescendantOf_of_between hc ((hdrop b).1 hb).2 hbc
  rw [hasChild, List.any_eq_true]
  constructor
  · rintro ⟨n, hn, hc⟩
    exact ⟨n, ((htake n).1 hn).1, hc⟩
  · rintro ⟨n, hn, hc⟩
    exact ⟨n, (htake n).2 ⟨hn, Node.isDescendantOf_of_isChildOf hc⟩, hc⟩

/-- What ancestor narrowing keeps. -/
theorem mem_selectAncestor {s upper : NodeSet} (h : s.IsOrdered) {includeSelf : Bool} {a : Node} :
    a ∈ s.selectAncestorDescendant upper .ancestor includeSelf ↔
      a ∈ upper ∧ ∃ n ∈ s, n.isDescendantOf a = true ∨ (includeSelf = true ∧ n = a) := by
  rw [selectAncestorDescendant, mem_filter, hasBelow_iff h]

/-- What descendant narrowing keeps. -/
theorem mem_selectDescendant {s upper : NodeSet} {includeSelf : Bool} {n : Node} :
    n ∈ s.selectAncestorDescendant upper .descendant includeSelf ↔
      n ∈ s ∧ ∃ a ∈ upper, n.isDescendantOf a = true ∨ (includeSelf = true ∧ n = a) := by
  simp only [selectAncestorDescendant, mem_filter, Bool.or_eq_true, Bool.and_eq_true,
    contains_eq_true, List.any_eq_true, Node.mem_ancestors]
  refine and_congr_right fun _ => ⟨?_, ?_⟩
  · rintro (⟨hinc, hn⟩ | ⟨a, hd, ha⟩)
    · exact ⟨n, hn, .inr ⟨hinc, rfl⟩⟩
    · exact ⟨a, ha, .inl hd⟩
  · rintro ⟨a, ha, hd | ⟨hinc, rfl⟩⟩
    · exact .inr ⟨a, hd, ha⟩
    · exact .inl ⟨hinc, ha⟩

/-- What parent narrowing keeps. -/
theorem mem_selectParent {s upper : NodeSet} (h : s.IsOrdered) {a : Node} :
    a ∈ s.selectParentChild upper .ancestor ↔ a ∈ upper ∧ ∃ n ∈ s, n.isChildOf a = true := by
  rw [selectParentChild, mem_filter, hasChild_iff h]

/-- What child narrowing keeps. -/
theorem mem_selectChild {s upper : NodeSet} {n : Node} :
    n ∈ s.selectParentChild upper .descendant ↔ n ∈ s ∧ ∃ a ∈ upper, n.isChildOf a = true := by
  rw [selectParentChild, mem_filter]
  refine and_congr_right fun _ => ?_
  cases hparent : n.parent? with
  | none =>
    simp only [Option.map_none, Option.getD_none, Bool.false_eq_true, false_iff]
    rintro ⟨a, _, hc⟩
    rw [Node.parent?_eq_some_iff.2 hc] at hparent
    cases hparent
  | some b =>
    simp only [Option.map_some, Option.getD_some, contains_eq_true]
    constructor
    · intro hb; exact ⟨b, hb, Node.parent?_eq_some_iff.1 hparent⟩
    · rintro ⟨a, ha, hc⟩
      rw [Node.parent?_eq_some_iff.2 hc, Option.some.injEq] at hparent
      exact hparent ▸ ha

end NodeSet
end IndexedXml
