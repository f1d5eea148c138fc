/-
# Tables by expression

What is kept about the parts of a query is kept under their numbers.  A table holds
at most one value under a number.
-/

import IndexedXml.Query.Probe

namespace IndexedXml

/-- Values under numbers of expressions. -/
abbrev Table (α : Type) := List (ExprId × α)

namespace Table

variable {α : Type}

/-- The value under a number. -/
def get? (t : Table α) (id : ExprId) : Option α :=
  (t.find? fun entry => entry.1 == id).map Prod.snd

/-- The table without the value under a number. -/
def erase (t : Table α) (id : ExprId) : Table α := t.filter fun entry => entry.1 != id

/-- The table with a value under a number, in place of the one that is there. -/
def put (t : Table α) (id : ExprId) (value : α) : Table α :=
  match t with
  | [] => [(id, value)]
  | entry :: rest => if entry.1 == id then (id, value) :: rest else entry :: put rest id value

/-- The table with every value changed. -/
def mapValues (t : Table α) (f : α → α) : Table α := t.map fun entry => (entry.1, f entry.2)

/-- **What is put is found, and all else is left as it was.** -/
theorem get?_put (t : Table α) (id other : ExprId) (value : α) :
    (t.put id value).get? other = if other = id then some value else t.get? other := by
  induction t with
  | nil =>
    by_cases h : other = id
    · simp [put, get?, h]
    · simp [put, get?, h, Ne.symm h]
  | cons entry rest ih =>
    simp only [get?] at ih
    by_cases h : entry.1 = id
    · by_cases ho : other = id
      · simp [put, get?, h, ho]
      · simp [put, get?, h, ho, Ne.symm ho]
    · by_cases he : entry.1 = other
      · subst he
        simp [put, get?, h]
      · simp [put, get?, h, he, ih]

/-- **What is erased is gone, and all else is left as it was.** -/
theorem get?_erase (t : Table α) (id other : ExprId) :
    (t.erase id).get? other = if other = id then none else t.get? other := by
  induction t with
  | nil => simp [erase, get?]
  | cons entry rest ih =>
    simp only [get?, erase] at ih
    by_cases h : entry.1 = id
    · by_cases ho : other = id
      · simp_all [erase, get?]
      · simp_all [erase, get?, Ne.symm ho]
    · by_cases he : entry.1 = other
      · subst he
        simp [erase, get?, h]
      · simp_all [erase, get?]

/-- **Changing every value changes what is found.** -/
theorem get?_mapValues (t : Table α) (f : α → α) (id : ExprId) :
    (t.mapValues f).get? id = (t.get? id).map f := by
  simp only [get?, mapValues, List.find?_map, Option.map_map]
  rfl

/-- A table in which nothing is found is empty. -/
theorem eq_nil_iff {t : Table α} : t = [] ↔ ∀ id, t.get? id = none := by
  refine ⟨fun h id => h ▸ rfl, fun h => ?_⟩
  cases t with
  | nil => rfl
  | cons entry rest => simpa [get?] using h entry.1

end Table
end IndexedXml
