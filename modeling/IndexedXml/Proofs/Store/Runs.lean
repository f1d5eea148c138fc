/-
# Runs

A run makes changes one after the other.  Its points are the stores that it comes through,
and a later point is the end of a run from an earlier one (`Store.run_take`).  What every
change of a reachable store respects holds between any two points of a run
(`Store.Reachable.related_run`).
-/

import IndexedXml.Proofs.Store.Reachable

namespace IndexedXml
namespace Store

/-- **The store after a list of changes.** -/
def run (s : Store) (changes : List Change) : Store := changes.foldl perform s

theorem run_append (s : Store) (before later : List Change) :
    s.run (before ++ later) = (s.run before).run later :=
  List.foldl_append

theorem run_concat (s : Store) (before : List Change) (change : Change) :
    s.run (before ++ [change]) = (s.run before).perform change := by
  rw [run_append]
  rfl

/-- A later point of a run is reached from an earlier one. -/
theorem run_take (s : Store) (changes : List Change) {i j : Nat} (h : i ≤ j) :
    s.run (changes.take j) = (s.run (changes.take i)).run ((changes.take j).drop i) := by
  rw [← run_append]
  have htake : changes.take i = (changes.take j).take i := by
    rw [List.take_take, Nat.min_eq_left h]
  rw [htake, List.take_append_drop]

theorem Reachable.run {s : Store} (h : s.Reachable) (changes : List Change) :
    (s.run changes).Reachable := by
  induction changes generalizing s with
  | nil => exact h
  | cons change rest ih => exact ih (h.perform change)

/-- The points of a run of the empty store are reachable. -/
theorem reachable_run (changes : List Change) : (Store.empty.run changes).Reachable :=
  Reachable.empty.run changes

/-- **What every change respects, every run respects.** -/
theorem Reachable.related_run {R : Store → Store → Prop} (hrefl : ∀ s, R s s)
    (htrans : ∀ {s t u}, R t s → R u t → R u s)
    (hstep : ∀ {s}, s.Reachable → ∀ change, R (s.perform change) s) {s : Store}
    (h : s.Reachable) (changes : List Change) : R (s.run changes) s := by
  induction changes generalizing s with
  | nil => exact hrefl s
  | cons change rest ih => exact htrans (hstep h change) (ih (h.perform change))

end Store
end IndexedXml
