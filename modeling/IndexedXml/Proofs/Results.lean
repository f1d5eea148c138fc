/-
# Results that may fail

How the success of a computation is read off its parts.  Lists are gone through from
left to right and the first failure ends the walk, so that a walk succeeds when it does
at every item, and then its outcome is made of theirs.
-/

import IndexedXml.Query.Navigation
import Mathlib.Data.List.Basic

namespace IndexedXml

variable {ε α β : Type}

/-- A composition succeeds when both of its parts do. -/
theorem bind_eq_ok {x : Except ε α} {f : α → Except ε β} {b : β} :
    (x >>= f) = .ok b ↔ ∃ a, x = .ok a ∧ f a = .ok b := by
  cases x with
  | error e => simp [bind, Except.bind]
  | ok a => simp [bind, Except.bind]

/-- Changing what comes out changes nothing about success. -/
theorem map_eq_ok {x : Except ε α} {f : α → β} {b : β} :
    x.map f = .ok b ↔ ∃ a, x = .ok a ∧ f a = b := by
  cases x with
  | error e => simp [Except.map]
  | ok a => simp [Except.map]

theorem toBool_eq_true {x : Except ε α} : x.toBool = true ↔ ∃ a, x = .ok a := by
  cases x with
  | error e => simp [Except.toBool]
  | ok a => simp [Except.toBool]

/-- Two computations that look alike under a map both succeed, or fail alike. -/
theorem of_map_eq_map {x y : Except ε α} {f : α → β} (h : x.map f = y.map f) :
    (∃ a b, x = .ok a ∧ y = .ok b ∧ f a = f b) ∨ ∃ e, x = .error e ∧ y = .error e := by
  cases x with
  | error e =>
    cases y with
    | error e' =>
      obtain rfl : e = e' := Except.error.inj h
      exact .inr ⟨e, rfl, rfl⟩
    | ok b => cases h
  | ok a =>
    cases y with
    | error e => cases h
    | ok b => exact .inl ⟨a, b, rfl, rfl, Except.ok.inj h⟩

theorem mapError_eq_ok {ε' : Type} {x : Except ε α} {f : ε → ε'} {a : α} :
    x.mapError f = .ok a ↔ x = .ok a := by
  cases x with
  | error e => simp [Except.mapError]
  | ok a => simp [Except.mapError]

theorem ok_bind (a : α) (f : α → Except ε β) : (Except.ok a >>= f) = f a := rfl

/-- The outcome of a walk is the outcomes at the items. -/
theorem forall₂_of_mapM {f : α → Except ε β} {l : List α} {bs : List β}
    (h : l.mapM f = .ok bs) : List.Forall₂ (fun a b => f a = .ok b) l bs := by
  induction l generalizing bs with
  | nil =>
    obtain rfl : [] = bs := Except.ok.inj h
    exact .nil
  | cons a rest ih =>
    rw [List.mapM_cons] at h
    obtain ⟨b, hb, h⟩ := bind_eq_ok.1 h
    obtain ⟨later, hlater, h⟩ := bind_eq_ok.1 h
    obtain rfl : b :: later = bs := Except.ok.inj h
    exact .cons hb (ih hlater)

theorem mem_of_mapM {f : α → Except ε β} {l : List α} {bs : List β} (h : l.mapM f = .ok bs)
    {b : β} : b ∈ bs ↔ ∃ a ∈ l, f a = .ok b := by
  have hall := forall₂_of_mapM h
  clear h
  induction hall with
  | nil => simp
  | cons hb _ ih =>
    simp only [List.mem_cons, ih, exists_eq_or_imp, hb, Except.ok.injEq]
    exact or_congr_left eq_comm

theorem exists_of_mapM {f : α → Except ε β} {l : List α} {bs : List β} (h : l.mapM f = .ok bs)
    {a : α} (ha : a ∈ l) : ∃ b ∈ bs, f a = .ok b := by
  have hall := forall₂_of_mapM h
  clear h
  induction hall with
  | nil => cases ha
  | cons hb _ ih =>
    rcases List.mem_cons.1 ha with rfl | ha
    · exact ⟨_, List.mem_cons_self, hb⟩
    · obtain ⟨b, hmem, hb⟩ := ih ha
      exact ⟨b, List.mem_cons_of_mem _ hmem, hb⟩

/-- What succeeds wherever a walk did has the outcome of that walk. -/
theorem mapM_eq_ok_of_forall {f g : α → Except ε β} {l : List α} {bs : List β}
    (h : l.mapM f = .ok bs) (hfg : ∀ a ∈ l, ∀ b, f a = .ok b → g a = .ok b) :
    l.mapM g = .ok bs := by
  have hall := forall₂_of_mapM h
  clear h
  induction hall with
  | nil => rfl
  | cons hb _ ih =>
    rw [List.mapM_cons, hfg _ List.mem_cons_self _ hb, ok_bind,
      ih fun a ha => hfg a (List.mem_cons_of_mem _ ha)]
    rfl

theorem exists_mapM_eq_ok {f : α → Except ε β} {l : List α} (h : ∀ a ∈ l, ∃ b, f a = .ok b) :
    ∃ bs, l.mapM f = .ok bs := by
  induction l with
  | nil => exact ⟨[], rfl⟩
  | cons a rest ih =>
    obtain ⟨b, hb⟩ := h a List.mem_cons_self
    obtain ⟨later, hlater⟩ := ih fun a ha => h a (List.mem_cons_of_mem _ ha)
    exact ⟨b :: later, by rw [List.mapM_cons, hb, ok_bind, hlater]; rfl⟩

/-- **A walk that succeeds at every item succeeds,** and the outcomes put together have
the members that the items give. -/
theorem mapM_flatten_eq_ok {f : α → Except ε (List β)} {Q : α → β → Prop} {l : List α}
    (h : ∀ a ∈ l, ∃ bs, f a = .ok bs ∧ ∀ b, b ∈ bs ↔ Q a b) :
    ∃ all, l.mapM f = .ok all ∧ ∀ b, b ∈ all.flatten ↔ ∃ a ∈ l, Q a b := by
  induction l with
  | nil => exact ⟨[], rfl, by simp⟩
  | cons a rest ih =>
    obtain ⟨bs, hbs, hmem⟩ := h a List.mem_cons_self
    obtain ⟨all, hall, hrest⟩ := ih fun a ha => h a (List.mem_cons_of_mem _ ha)
    refine ⟨bs :: all, ?_, fun b => ?_⟩
    · rw [List.mapM_cons, hbs, ok_bind, hall]
      rfl
    · simp [hmem, hrest]

/-- What comes out of a walk came out at one of the items. -/
theorem mem_flatten_of_mapM {f : α → Except ε (List β)} {l : List α} {all : List (List β)}
    (h : l.mapM f = .ok all) {b : β} (hb : b ∈ all.flatten) :
    ∃ a ∈ l, ∃ bs, f a = .ok bs ∧ b ∈ bs := by
  induction l generalizing all with
  | nil =>
    obtain rfl : [] = all := Except.ok.inj h
    cases hb
  | cons a rest ih =>
    rw [List.mapM_cons] at h
    obtain ⟨bs, hbs, h⟩ := bind_eq_ok.1 h
    obtain ⟨later, hlater, h⟩ := bind_eq_ok.1 h
    obtain rfl : bs :: later = all := Except.ok.inj h
    rw [List.flatten_cons, List.mem_append] at hb
    rcases hb with hb | hb
    · exact ⟨a, List.mem_cons_self, bs, hbs, hb⟩
    · obtain ⟨a', ha', bs', h'⟩ := ih hlater hb
      exact ⟨a', List.mem_cons_of_mem _ ha', bs', h'⟩

/-- A test that succeeds at every item keeps those that pass it. -/
theorem filterPassing_eq_ok {test : α → Except ε Bool} {p : α → Bool} {l : List α}
    (h : ∀ a ∈ l, test a = .ok (p a)) : filterPassing test l = .ok (l.filter p) := by
  induction l with
  | nil => rfl
  | cons a rest ih =>
    rw [filterPassing, h a List.mem_cons_self, ok_bind,
      ih fun a ha => h a (List.mem_cons_of_mem _ ha), ok_bind, List.filter_cons]
    rfl

/-- What passes a test is among what was tested, and the test said so. -/
theorem mem_of_filterPassing {test : α → Except ε Bool} {l kept : List α}
    (h : filterPassing test l = .ok kept) {a : α} (ha : a ∈ kept) :
    a ∈ l ∧ test a = .ok true := by
  induction l generalizing kept with
  | nil =>
    obtain rfl : [] = kept := Except.ok.inj h
    cases ha
  | cons b rest ih =>
    rw [filterPassing] at h
    obtain ⟨passed, hb, h⟩ := bind_eq_ok.1 h
    obtain ⟨later, hlater, h⟩ := bind_eq_ok.1 h
    have h : (if passed = true then b :: later else later) = kept := Except.ok.inj h
    cases passed with
    | false =>
      rw [if_neg Bool.false_ne_true] at h
      obtain ⟨hmem, htest⟩ := ih hlater (h ▸ ha)
      exact ⟨List.mem_cons_of_mem _ hmem, htest⟩
    | true =>
      rw [if_pos rfl] at h
      rcases List.mem_cons.1 (h ▸ ha) with rfl | hmem
      · exact ⟨List.mem_cons_self, hb⟩
      · obtain ⟨hmem, htest⟩ := ih hlater hmem
        exact ⟨List.mem_cons_of_mem _ hmem, htest⟩

/-! ### Computations that succeed when others do -/

/-- **A computation follows another:** whenever the other one succeeds, it succeeds too, with
the same outcome, which has a property. -/
def Follows (Q : α → Prop) (x y : Except ε α) : Prop := ∀ a, x = .ok a → y = .ok a ∧ Q a

namespace Follows

variable {P : α → Prop} {Q : β → Prop}

theorem ok {a : α} (h : P a) : Follows P (.ok a : Except ε α) (.ok a) := by
  intro b hb
  obtain rfl : a = b := Except.ok.inj hb
  exact ⟨rfl, h⟩

/-- Every computation follows itself. -/
theorem refl {x : Except ε α} (h : ∀ a, x = .ok a → P a) : Follows P x x :=
  fun a ha => ⟨ha, h a ha⟩

theorem bind {x y : Except ε α} {f g : α → Except ε β} (hx : Follows P x y)
    (hf : ∀ a, P a → Follows Q (f a) (g a)) : Follows Q (x >>= f) (y >>= g) := by
  intro b hb
  obtain ⟨a, ha, hb⟩ := bind_eq_ok.1 hb
  obtain ⟨hy, hP⟩ := hx a ha
  rw [hy, ok_bind]
  exact hf a hP b hb

/-- Walks through one list follow each other when their steps do. -/
theorem foldlM {γ : Type} {Q : β → Prop} {f g : β → γ → Except ε β} {l : List γ} {b : β}
    (hb : Q b) (hf : ∀ b, Q b → ∀ c ∈ l, Follows Q (f b c) (g b c)) :
    Follows Q (l.foldlM f b) (l.foldlM g b) := by
  induction l generalizing b with
  | nil => exact ok hb
  | cons c rest ih =>
    rw [List.foldlM_cons, List.foldlM_cons]
    exact bind (hf b hb c List.mem_cons_self) fun d hd =>
      ih hd fun b hb c hc => hf b hb c (List.mem_cons_of_mem _ hc)

end Follows

end IndexedXml
