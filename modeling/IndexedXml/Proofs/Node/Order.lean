/-
# Document order and ancestry

What identifiers say about a document without the document at hand.  Nodes are
ordered strictly and totally, a node's ancestors are the nodes that it is below,
and its parent is the one node that it is a child of.

Document order keeps subtrees together: a node between `b` and a node below `b` is
itself below `b` (`Node.isDescendantOf_of_between`).  The lookups that stop at the
first node outside a subtree rest on that.
-/

import IndexedXml.Node.Id
import Mathlib.Data.List.Lex
import Mathlib.Order.RelClasses

namespace IndexedXml

/-- **Extensions of a list lie together:** what lies between a list and one that
extends it extends it too. -/
theorem prefix_of_between :
    ∀ {b c a : List Nat}, b <+: a → b < c → c < a → b <+: c
  | [], _, _, _, _, _ => List.nil_prefix
  | x :: b, [], _, _, hbc, _ => absurd hbc (List.not_lt_nil _)
  | x :: b, y :: c, [], hba, _, _ => absurd hba (by simp)
  | x :: b, y :: c, z :: a, hba, hbc, hca => by
    obtain ⟨rfl, hrest⟩ := List.cons_prefix_cons.1 hba
    rcases List.cons_lt_cons_iff.1 hbc with hxy | ⟨rfl, hlow⟩
    · rcases List.cons_lt_cons_iff.1 hca with hyx | ⟨rfl, _⟩
      · exact absurd hxy (by omega)
      · exact absurd hxy (by omega)
    · rcases List.cons_lt_cons_iff.1 hca with hxx | ⟨_, hhigh⟩
      · exact absurd hxx (by omega)
      · exact List.cons_prefix_cons.2 ⟨rfl, prefix_of_between hrest hlow hhigh⟩

/-- A proper extension of a list comes after it. -/
theorem lt_of_prefix : ∀ {b a : List Nat}, b <+: a → b.length < a.length → b < a
  | [], [], _, h => absurd h (by simp)
  | [], _ :: _, _, _ => List.nil_lt_cons _ _
  | _ :: _, [], h, _ => absurd h (by simp)
  | x :: b, y :: a, h, hlen => by
    obtain ⟨rfl, hrest⟩ := List.cons_prefix_cons.1 h
    exact List.cons_lt_cons_iff.2 (.inr ⟨rfl, lt_of_prefix hrest (by simpa using hlen)⟩)

namespace NodeId

instance : IsStrictTotalOrder NodeId (· < ·) where
  irrefl a := List.lt_irrefl a.levels
  trans _ _ _ := List.lt_trans
  trichotomous a b hab hba := by
    have h : a.levels = b.levels := Std.Trichotomous.trichotomous (r := (· < ·)) _ _ hab hba
    cases a; cases b; exact congrArg NodeId.mk h

theorem lt_or_eq_or_gt (a b : NodeId) : a < b ∨ a = b ∨ b < a := trichotomous_of (· < ·) a b

/-- Being below is extending. -/
theorem isDescendantOf_iff {a b : NodeId} :
    a.isDescendantOf b = true ↔ b.levels <+: a.levels ∧ b.levels.length < a.levels.length := by
  simp [isDescendantOf, and_comm]

/-- Being a child is extending by one number. -/
theorem isChildOf_iff {a b : NodeId} : a.isChildOf b = true ↔ ∃ ordinal, a = b.child ordinal := by
  simp only [isChildOf, Bool.and_eq_true, beq_iff_eq, List.isPrefixOf_iff_prefix]
  constructor
  · rintro ⟨hlen, rest, hrest⟩
    rw [← hrest, List.length_append] at hlen
    obtain ⟨x, rfl⟩ := List.length_eq_one_iff.1 (show rest.length = 1 by omega)
    exact ⟨x, by cases a; simp_all [child]⟩
  · rintro ⟨x, rfl⟩
    exact ⟨by simp [child], List.prefix_append _ _⟩

theorem isChildOf_child (a : NodeId) (ordinal : Nat) : (a.child ordinal).isChildOf a = true :=
  isChildOf_iff.2 ⟨ordinal, rfl⟩

theorem isDescendantOf_of_isChildOf {a b : NodeId} (h : a.isChildOf b = true) :
    a.isDescendantOf b = true := by
  obtain ⟨x, rfl⟩ := isChildOf_iff.1 h
  exact isDescendantOf_iff.2 ⟨List.prefix_append _ _, by simp [child]⟩

theorem ne_of_isChildOf {a b : NodeId} (h : a.isChildOf b = true) : a ≠ b := by
  rintro rfl
  simp [isChildOf] at h

theorem not_isChildOf_document (a : NodeId) : document.isChildOf a = false := by
  simp [isChildOf, document]

theorem isDescendantOf_trans {a b c : NodeId} (hab : a.isDescendantOf b = true)
    (hbc : b.isDescendantOf c = true) : a.isDescendantOf c = true := by
  rw [isDescendantOf_iff] at *
  exact ⟨hbc.1.trans hab.1, by omega⟩

theorem lt_of_isDescendantOf {a b : NodeId} (h : a.isDescendantOf b = true) : b < a := by
  rw [isDescendantOf_iff] at h
  exact lt_of_prefix h.1 h.2

/-- **Subtrees lie together in document order.** -/
theorem isDescendantOf_of_between {a b c : NodeId} (h : a.isDescendantOf b = true) (hbc : b < c)
    (hca : c < a) : c.isDescendantOf b = true := by
  rw [isDescendantOf_iff] at h ⊢
  have hpre : b.levels <+: c.levels := prefix_of_between h.1 hbc hca
  refine ⟨hpre, lt_of_le_of_ne hpre.length_le fun hlen => ?_⟩
  have hlt : b.levels < c.levels := hbc
  rw [hpre.eq_of_length hlen] at hlt
  exact List.lt_irrefl _ hlt

/-- The parent is the identifier that is one level up. -/
theorem parent?_eq_some_iff {a b : NodeId} : a.parent? = some b ↔ a.isChildOf b = true := by
  rw [isChildOf_iff]
  rcases a with ⟨levels⟩; rcases b with ⟨other⟩
  rcases List.eq_nil_or_concat' levels with rfl | ⟨front, last, rfl⟩
  · simp [parent?, child]
  · simp only [parent?, child, List.isEmpty_iff, List.append_eq_nil_iff, List.cons_ne_self,
      and_false, ite_false, List.dropLast_concat, Option.some.injEq, NodeId.mk.injEq]
    constructor
    · rintro rfl; exact ⟨last, rfl⟩
    · rintro ⟨x, hx⟩; exact (List.append_inj' hx rfl).1

/-- The ancestors are the identifiers that `a` is below. -/
theorem mem_ancestors {a b : NodeId} : b ∈ a.ancestors ↔ a.isDescendantOf b = true := by
  rw [isDescendantOf_iff]
  simp only [ancestors, List.mem_map, List.mem_reverse, List.mem_range]
  constructor
  · rintro ⟨n, hn, rfl⟩
    exact ⟨List.take_prefix _ _, by rw [List.length_take]; omega⟩
  · rintro ⟨hpre, hlen⟩
    exact ⟨b.levels.length, hlen, by rw [← List.prefix_iff_eq_take.1 hpre]⟩

/-- Being a node or below it. -/
def Within (a b : NodeId) : Prop := a = b ∨ a.isDescendantOf b = true

/-- Being a node or below it is extending, properly or not. -/
theorem within_iff {a b : NodeId} : a.Within b ↔ b.levels <+: a.levels := by
  rw [Within, isDescendantOf_iff]
  constructor
  · rintro (rfl | ⟨hpre, _⟩)
    · exact List.prefix_rfl
    · exact hpre
  · intro hpre
    rcases hpre.length_le.eq_or_lt with hlen | hlen
    · exact .inl (congrArg NodeId.mk (hpre.eq_of_length hlen).symm)
    · exact .inr ⟨hpre, hlen⟩

theorem Within.trans {a b c : NodeId} (hab : a.Within b) (hbc : b.Within c) : a.Within c := by
  rw [within_iff] at *
  exact hbc.trans hab

theorem within_of_isChildOf {a b : NodeId} (h : a.isChildOf b = true) : a.Within b :=
  .inr (isDescendantOf_of_isChildOf h)

theorem child_inj {id : NodeId} {i j : Nat} : id.child i = id.child j ↔ i = j := by
  simp [child]

theorem not_within_child (id : NodeId) (j : Nat) : ¬ id.Within (id.child j) := by
  rw [within_iff]
  intro h
  have hlen := h.length_le
  simp only [child, List.length_append, List.length_singleton] at hlen
  omega

/-- What belongs to different children of a node is different. -/
theorem Within.ordinal_eq {a id : NodeId} {i j : Nat} (hi : a.Within (id.child i))
    (hj : a.Within (id.child j)) : i = j := by
  rw [within_iff] at hi hj
  have hlen : (id.child i).levels.length = (id.child j).levels.length := by simp [child]
  have heq := (List.prefix_of_prefix_length_le hi hj hlen.le).eq_of_length hlen
  exact child_inj.1 (congrArg NodeId.mk heq)

/-- What belongs to an earlier child of a node comes first. -/
theorem lt_of_within_child {a b id : NodeId} {i j : Nat} (hij : i < j)
    (ha : a.Within (id.child i)) (hb : b.Within (id.child j)) : a < b := by
  rw [within_iff] at ha hb
  obtain ⟨r, hr⟩ := ha
  obtain ⟨s, hs⟩ := hb
  have hlt : ∀ levels : List Nat, levels ++ [i] ++ r < levels ++ [j] ++ s := by
    intro levels
    induction levels with
    | nil => exact List.cons_lt_cons_iff.2 (.inl hij)
    | cons x rest ih => exact List.cons_lt_cons_iff.2 (.inr ⟨rfl, ih⟩)
  have h := hlt id.levels
  change a.levels < b.levels
  rwa [← hr, ← hs]

theorem isDescendantOf_of_within_child {a id : NodeId} {j : Nat} (h : a.Within (id.child j)) :
    a.isDescendantOf id = true := by
  have hchild := isDescendantOf_of_isChildOf (isChildOf_child id j)
  rcases h with rfl | h
  · exact hchild
  · exact isDescendantOf_trans h hchild

end NodeId

namespace Node

/-- The path of a node determines it. -/
theorem path_injective {a b : Node} (h : a.path = b.path) : a = b := by
  rcases a with ⟨_, ⟨_⟩⟩; rcases b with ⟨_, ⟨_⟩⟩
  simp_all [path]

instance : IsStrictTotalOrder Node (· < ·) where
  irrefl a := List.lt_irrefl a.path
  trans _ _ _ := List.lt_trans
  trichotomous a b hab hba :=
    path_injective (Std.Trichotomous.trichotomous (r := (· < ·)) a.path b.path hab hba)

theorem lt_irrefl (a : Node) : ¬ a < a := irrefl_of (· < ·) a

theorem lt_trans {a b c : Node} (hab : a < b) (hbc : b < c) : a < c := trans_of (· < ·) hab hbc

theorem lt_or_eq_or_gt (a b : Node) : a < b ∨ a = b ∨ b < a := trichotomous_of (· < ·) a b

/-- Being below is being so in one document. -/
theorem isDescendantOf_iff_id {a b : Node} :
    a.isDescendantOf b = true ↔ a.doc = b.doc ∧ a.id.isDescendantOf b.id = true := by
  rw [isDescendantOf, Bool.and_eq_true, beq_iff_eq]

/-- Being a child is being so in one document. -/
theorem isChildOf_iff_id {a b : Node} :
    a.isChildOf b = true ↔ a.doc = b.doc ∧ a.id.isChildOf b.id = true := by
  rw [isChildOf, Bool.and_eq_true, beq_iff_eq]

/-- Being below is extending the path, which keeps to the document. -/
theorem isDescendantOf_iff {a b : Node} :
    a.isDescendantOf b = true ↔ b.path <+: a.path ∧ b.path.length < a.path.length := by
  simp only [isDescendantOf, NodeId.isDescendantOf_iff, path, List.cons_prefix_cons,
    Bool.and_eq_true, beq_iff_eq, List.length_cons, and_assoc, Nat.add_lt_add_iff_right]
  exact and_congr_left' eq_comm

theorem isChildOf_iff {a b : Node} :
    a.isChildOf b = true ↔ ∃ ordinal, a = ⟨b.doc, b.id.child ordinal⟩ := by
  rcases a with ⟨doc, id⟩
  simp only [isChildOf, Bool.and_eq_true, beq_iff_eq, NodeId.isChildOf_iff, Node.mk.injEq]
  exact ⟨fun ⟨hdoc, x, hx⟩ => ⟨x, hdoc, hx⟩, fun ⟨x, hdoc, hx⟩ => ⟨hdoc, x, hx⟩⟩

theorem isDescendantOf_of_isChildOf {a b : Node} (h : a.isChildOf b = true) :
    a.isDescendantOf b = true := by
  simp only [isChildOf, isDescendantOf, Bool.and_eq_true] at h ⊢
  exact ⟨h.1, NodeId.isDescendantOf_of_isChildOf h.2⟩

theorem isDescendantOf_trans {a b c : Node} (hab : a.isDescendantOf b = true)
    (hbc : b.isDescendantOf c = true) : a.isDescendantOf c = true := by
  rw [isDescendantOf_iff] at *
  exact ⟨hbc.1.trans hab.1, by omega⟩

theorem doc_eq_of_isDescendantOf {a b : Node} (h : a.isDescendantOf b = true) : a.doc = b.doc := by
  simp only [isDescendantOf, Bool.and_eq_true, beq_iff_eq] at h
  exact h.1

theorem lt_of_isDescendantOf {a b : Node} (h : a.isDescendantOf b = true) : b < a := by
  rw [isDescendantOf_iff] at h
  exact lt_of_prefix h.1 h.2

/-- **Subtrees lie together in document order.** -/
theorem isDescendantOf_of_between {a b c : Node} (h : a.isDescendantOf b = true) (hbc : b < c)
    (hca : c < a) : c.isDescendantOf b = true := by
  rw [isDescendantOf_iff] at h ⊢
  have hpre : b.path <+: c.path := prefix_of_between h.1 hbc hca
  refine ⟨hpre, lt_of_le_of_ne hpre.length_le fun hlen => ?_⟩
  have hlt : b.path < c.path := hbc
  rw [hpre.eq_of_length hlen] at hlt
  exact List.lt_irrefl _ hlt

/-- Being a node or below it. -/
def Within (a b : Node) : Prop := a = b ∨ a.isDescendantOf b = true

theorem Within.refl (a : Node) : a.Within a := .inl rfl

theorem Within.trans {a b c : Node} (hab : a.Within b) (hbc : b.Within c) : a.Within c := by
  rcases hab with rfl | hab
  · exact hbc
  · rcases hbc with rfl | hbc
    · exact .inr hab
    · exact .inr (isDescendantOf_trans hab hbc)

/-- A node lies in its document. -/
theorem within_document (n : Node) : n.Within (.document n.doc) := by
  obtain ⟨doc, ⟨levels⟩⟩ := n
  cases levels with
  | nil => exact .refl _
  | cons level rest => exact .inr (by simp [isDescendantOf, NodeId.isDescendantOf, document, NodeId.document])

theorem within_of_isChildOf {a b : Node} (h : a.isChildOf b = true) : a.Within b :=
  .inr (isDescendantOf_of_isChildOf h)

theorem Within.doc_eq {a b : Node} (h : a.Within b) : a.doc = b.doc := by
  rcases h with rfl | h
  · rfl
  · exact doc_eq_of_isDescendantOf h

theorem parent?_eq_some_iff {a b : Node} : a.parent? = some b ↔ a.isChildOf b = true := by
  rcases a with ⟨doc, id⟩; rcases b with ⟨doc', id'⟩
  simp [parent?, isChildOf, NodeId.parent?_eq_some_iff, and_comm]

theorem mem_ancestors {a b : Node} : b ∈ a.ancestors ↔ a.isDescendantOf b = true := by
  rcases b with ⟨doc, id⟩
  simp [ancestors, isDescendantOf, NodeId.mem_ancestors, and_comm]

end Node
end IndexedXml
