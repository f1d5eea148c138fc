/-
# What a narrowing keeps

The selections of node sets walk ordered lists and compare identifiers.  Said by the tree
instead: a node is a child of the node whose identifier it extends by one number
(`Node.IsChild`), and it is below another when a chain of children leads there
(`Node.IsBelow`).  All four selections keep what this relation asks for, and nothing but
the two sets, the mode and `includeSelf` goes into them
(`NodeSet.keepsExactly_selections`).
-/

import IndexedXml.Proofs.Node.Members
import Mathlib.Logic.Relation

namespace IndexedXml

namespace Node

/-- **`n` is a child of `a`:** its identifier extends that of `a` by one number, in the same
document. -/
def IsChild (n a : Node) : Prop := ∃ ordinal, n = ⟨a.doc, a.id.child ordinal⟩

/-- **`n` is below `a`:** a chain of one or more children leads from `a` down to `n`. -/
def IsBelow : Node → Node → Prop := Relation.TransGen IsChild

/-- The comparison of identifiers decides whether a node is a child. -/
theorem isChildOf_iff_isChild {n a : Node} : n.isChildOf a = true ↔ n.IsChild a := isChildOf_iff

/-- Whatever extends the identifier of a node is below it. -/
theorem isBelow_of_levels (a : Node) (first : Nat) (rest : List Nat) :
    IsBelow ⟨a.doc, ⟨a.id.levels ++ first :: rest⟩⟩ a := by
  induction rest generalizing a first with
  | nil => exact .single ⟨first, rfl⟩
  | cons next rest ih =>
    have hchild : IsChild ⟨a.doc, a.id.child first⟩ a := ⟨first, rfl⟩
    have hrest := ih ⟨a.doc, a.id.child first⟩ next
    simp only [NodeId.child, List.append_assoc, List.singleton_append] at hrest
    exact hrest.tail hchild

/-- **The comparison of identifiers decides whether a node is below another,** at any depth. -/
theorem isDescendantOf_iff_isBelow {n a : Node} : n.isDescendantOf a = true ↔ n.IsBelow a := by
  constructor
  · intro h
    obtain ⟨hdoc, hid⟩ := isDescendantOf_iff_id.1 h
    obtain ⟨⟨suffix, hsuffix⟩, hlength⟩ := NodeId.isDescendantOf_iff.1 hid
    obtain ⟨doc, ⟨levels⟩⟩ := n
    obtain rfl : doc = a.doc := hdoc
    obtain rfl : a.id.levels ++ suffix = levels := hsuffix
    cases suffix with
    | nil => simp at hlength
    | cons first rest => exact isBelow_of_levels a first rest
  · intro h
    induction h with
    | single hchild => exact isDescendantOf_of_isChildOf (isChildOf_iff_isChild.2 hchild)
    | tail _ hchild ih =>
      exact isDescendantOf_trans ih (isDescendantOf_of_isChildOf (isChildOf_iff_isChild.2 hchild))

end Node

namespace NodeSet

/-- **`kept` is the part of `whole` that has the property,** in document order without
repetitions, and of the kind that `whole` is. -/
structure KeepsExactly (kept whole : NodeSet) (P : Node → Prop) : Prop where
  /-- The members strictly increase. -/
  ordered : kept.IsOrdered
  /-- A store handed `kept` out when it handed out `whole`. -/
  kind : kept.persistent = whole.persistent
  /-- The members are the members of `whole` with the property. -/
  mem_iff : ∀ n, n ∈ kept ↔ n ∈ whole ∧ P n

/-- What is known of the members of a part of an ordered set says what it keeps. -/
theorem IsOrdered.keepsExactly_filter {whole : NodeSet} (h : whole.IsOrdered) {keep : Node → Bool}
    {P : Node → Prop} (hmem : ∀ n, n ∈ whole.filter keep ↔ n ∈ whole ∧ P n) :
    (whole.filter keep).KeepsExactly whole P :=
  ⟨h.filter keep, rfl, hmem⟩

/-- To have a member below, or with `includeSelf` at, is the one or the other. -/
theorem exists_isDescendantOf_or_iff {set : NodeSet} {includeSelf : Bool} {a : Node} :
    (∃ n ∈ set, n.isDescendantOf a = true ∨ (includeSelf = true ∧ n = a)) ↔
      (∃ n ∈ set, n.IsBelow a) ∨ (includeSelf = true ∧ a ∈ set) := by
  simp only [Node.isDescendantOf_iff_isBelow]
  constructor
  · rintro ⟨n, hn, hbelow | ⟨hself, rfl⟩⟩
    · exact .inl ⟨n, hn, hbelow⟩
    · exact .inr ⟨hself, hn⟩
  · rintro (⟨n, hn, hbelow⟩ | ⟨hself, hn⟩)
    · exact ⟨n, hn, .inl hbelow⟩
    · exact ⟨a, hn, .inr ⟨hself, rfl⟩⟩

/-- To lie below a member, or with `includeSelf` to be one, is the one or the other. -/
theorem exists_isAncestor_or_iff {set : NodeSet} {includeSelf : Bool} {n : Node} :
    (∃ a ∈ set, n.isDescendantOf a = true ∨ (includeSelf = true ∧ n = a)) ↔
      (∃ a ∈ set, n.IsBelow a) ∨ (includeSelf = true ∧ n ∈ set) := by
  simp only [Node.isDescendantOf_iff_isBelow]
  constructor
  · rintro ⟨a, ha, hbelow | ⟨hself, rfl⟩⟩
    · exact .inl ⟨a, ha, hbelow⟩
    · exact .inr ⟨hself, ha⟩
  · rintro (⟨a, ha, hbelow⟩ | ⟨hself, hn⟩)
    · exact ⟨a, ha, .inl hbelow⟩
    · exact ⟨n, hn, .inr ⟨hself, rfl⟩⟩

variable {lower upper : NodeSet}

/-- Narrowing by ancestry keeps the upper nodes with a lower one below. -/
theorem keepsExactly_selectAncestor (hlower : lower.IsOrdered) (hupper : upper.IsOrdered)
    (includeSelf : Bool) :
    (lower.selectAncestorDescendant upper .ancestor includeSelf).KeepsExactly upper fun a =>
      (∃ n ∈ lower, n.IsBelow a) ∨ (includeSelf = true ∧ a ∈ lower) :=
  hupper.keepsExactly_filter fun _ =>
    (mem_selectAncestor hlower).trans (and_congr_right fun _ => exists_isDescendantOf_or_iff)

/-- Narrowing by ancestry keeps the lower nodes below an upper one. -/
theorem keepsExactly_selectDescendant (hlower : lower.IsOrdered) (includeSelf : Bool) :
    (lower.selectAncestorDescendant upper .descendant includeSelf).KeepsExactly lower fun n =>
      (∃ a ∈ upper, n.IsBelow a) ∨ (includeSelf = true ∧ n ∈ upper) :=
  hlower.keepsExactly_filter fun _ =>
    mem_selectDescendant.trans (and_congr_right fun _ => exists_isAncestor_or_iff)

/-- Narrowing by parenthood keeps the upper nodes with a lower one for a child. -/
theorem keepsExactly_selectParent (hlower : lower.IsOrdered) (hupper : upper.IsOrdered) :
    (lower.selectParentChild upper .ancestor).KeepsExactly upper fun a => ∃ n ∈ lower, n.IsChild a :=
  hupper.keepsExactly_filter fun _ => by
    simp only [← Node.isChildOf_iff_isChild]
    exact mem_selectParent hlower

/-- Narrowing by parenthood keeps the lower nodes whose parent is an upper one. -/
theorem keepsExactly_selectChild (hlower : lower.IsOrdered) :
    (lower.selectParentChild upper .descendant).KeepsExactly lower fun n => ∃ a ∈ upper, n.IsChild a :=
  hlower.keepsExactly_filter fun _ => by
    simp only [← Node.isChildOf_iff_isChild]
    exact mem_selectChild

/-- **Narrowing is what its relation says,** for any two node sets: what is kept of the one
side are its members that stand in the relation to a member of the other, listed in document
order, each once. Sets may mix documents, nest and overlap, and document nodes are nodes like
others. -/
theorem keepsExactly_selections (hlower : lower.IsOrdered) (hupper : upper.IsOrdered)
    (includeSelf : Bool) :
    (lower.selectAncestorDescendant upper .ancestor includeSelf).KeepsExactly upper
        (fun a => (∃ n ∈ lower, n.IsBelow a) ∨ (includeSelf = true ∧ a ∈ lower)) ∧
      (lower.selectAncestorDescendant upper .descendant includeSelf).KeepsExactly lower
        (fun n => (∃ a ∈ upper, n.IsBelow a) ∨ (includeSelf = true ∧ n ∈ upper)) ∧
      (lower.selectParentChild upper .ancestor).KeepsExactly upper
        (fun a => ∃ n ∈ lower, n.IsChild a) ∧
      (lower.selectParentChild upper .descendant).KeepsExactly lower
        (fun n => ∃ a ∈ upper, n.IsChild a) :=
  ⟨keepsExactly_selectAncestor hlower hupper includeSelf,
    keepsExactly_selectDescendant hlower includeSelf, keepsExactly_selectParent hlower hupper,
    keepsExactly_selectChild hlower⟩

/-- Lower nodes of two documents, one of them a document node. -/
def overlappingLower : NodeSet :=
  .ofList [⟨0, ⟨[1, 2, 1]⟩⟩, ⟨0, ⟨[1]⟩⟩, .document 1] true

/-- Upper nodes that nest and overlap with the lower ones. -/
def overlappingUpper : NodeSet :=
  .ofList [⟨1, ⟨[1]⟩⟩, ⟨0, ⟨[1, 2]⟩⟩, ⟨0, ⟨[1]⟩⟩, .document 0] true

/-- Of these upper nodes all that lie in the first document have a lower node below them. -/
theorem keepsExactly_selections_overlapping :
    overlappingLower.IsOrdered ∧ overlappingUpper.IsOrdered ∧
      (overlappingLower.selectAncestorDescendant overlappingUpper .ancestor false).nodes =
        [.document 0, ⟨0, ⟨[1]⟩⟩, ⟨0, ⟨[1, 2]⟩⟩] ∧
      (overlappingLower.selectAncestorDescendant overlappingUpper .ancestor false).KeepsExactly
        overlappingUpper fun a =>
          (∃ n ∈ overlappingLower, n.IsBelow a) ∨ (false = true ∧ a ∈ overlappingLower) :=
  ⟨isOrdered_ofList _ _, isOrdered_ofList _ _, by decide +kernel,
    (keepsExactly_selections (isOrdered_ofList _ _) (isOrdered_ofList _ _) false).1⟩

end NodeSet
end IndexedXml
