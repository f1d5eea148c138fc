/-
# What readers take

Two ways to say what a reader does.  `Reader.Gives r P`: whatever `r` takes, the value has the
property `P`.  And an equation `r (text ++ rest) = some (a, left)`: from a text that is followed
by `rest` the reader takes the value `a` and leaves `left`, which is `rest` without the blanks and
comments at its front (`Reader.Leaves`).

Both are shown for the general readers and for the lexemes of queries; a lexeme takes the text of
every value that it gives.
-/

import IndexedXml.Proofs.Text.Runs
import IndexedXml.Query.Reader

namespace IndexedXml
namespace Reader

variable {α β : Type}

/-! ### Running readers -/

theorem bind_eq_some {r : Reader α} {f : α → Reader β} {cs rest : List Char} {b : β} :
    (r >>= f) cs = some (b, rest) ↔
      ∃ a mid, r cs = some (a, mid) ∧ f a mid = some (b, rest) := by
  change (r cs).bind (fun p => f p.1 p.2) = some (b, rest) ↔ _
  rw [Option.bind_eq_some_iff]
  exact ⟨fun ⟨⟨a, mid⟩, ha, hb⟩ => ⟨a, mid, ha, hb⟩, fun ⟨a, mid, ha, hb⟩ => ⟨⟨a, mid⟩, ha, hb⟩⟩

theorem bind_of_eq_some {r : Reader α} {f : α → Reader β} {cs mid : List Char} {a : α}
    (h : r cs = some (a, mid)) : (r >>= f) cs = f a mid := by
  change (r cs).bind (fun p => f p.1 p.2) = _
  rw [h]
  rfl

theorem bind_of_eq_none {r : Reader α} {f : α → Reader β} {cs : List Char} (h : r cs = none) :
    (r >>= f) cs = none := by
  change (r cs).bind (fun p => f p.1 p.2) = _
  rw [h]
  rfl

theorem orElse_of_eq_some {r r' : Reader α} {cs : List Char} {p : α × List Char}
    (h : r cs = some p) : (r <|> r') cs = some p := by
  change (r cs).orElse (fun _ => r' cs) = _
  rw [h]
  rfl

theorem orElse_of_eq_none {r r' : Reader α} {cs : List Char} (h : r cs = none) :
    (r <|> r') cs = r' cs := by
  change (r cs).orElse (fun _ => r' cs) = _
  rw [h]
  rfl

theorem orElse_eq_some {r r' : Reader α} {cs : List Char} {p : α × List Char}
    (h : (r <|> r') cs = some p) : r cs = some p ∨ r cs = none ∧ r' cs = some p := by
  cases hr : r cs with
  | some q => exact .inl ((orElse_of_eq_some hr).symm.trans h)
  | none => exact .inr ⟨rfl, (orElse_of_eq_none hr).symm.trans h⟩

theorem orElse_eq_none {r r' : Reader α} {cs : List Char} :
    (r <|> r') cs = none ↔ r cs = none ∧ r' cs = none := by
  refine ⟨fun h => ?_, fun ⟨hr, hr'⟩ => (orElse_of_eq_none hr).trans hr'⟩
  cases hr : r cs with
  | some p =>
    rw [orElse_of_eq_some hr] at h
    cases h
  | none => exact ⟨rfl, (orElse_of_eq_none hr).symm.trans h⟩

theorem pure_eq_some {a b : α} {cs rest : List Char} :
    (pure a : Reader α) cs = some (b, rest) ↔ a = b ∧ cs = rest := by
  change some (a, cs) = some (b, rest) ↔ _
  rw [Option.some.injEq, Prod.mk.injEq]

theorem notAhead_eq_some {r : Reader α} {cs rest : List Char} :
    notAhead r cs = some ((), rest) ↔ r cs = none ∧ cs = rest := by
  rw [notAhead]
  cases r cs <;> simp

/-! ### What readers give -/

/-- **Whatever the reader takes has the property.** -/
def Gives (r : Reader α) (P : α → Prop) : Prop := ∀ ⦃cs a rest⦄, r cs = some (a, rest) → P a

variable {P : α → Prop} {Q : β → Prop}

theorem Gives.imp {r : Reader α} {P' : α → Prop} (h : Gives r P) (himp : ∀ a, P a → P' a) :
    Gives r P' :=
  fun _ a _ ha => himp a (h ha)

theorem gives_true (r : Reader α) : Gives r fun _ => True := fun _ _ _ _ => trivial

theorem gives_pure {a : α} (h : P a) : Gives (pure a) P := fun _ _ _ ha =>
  (pure_eq_some.1 ha).1 ▸ h

theorem gives_failure : Gives (failure : Reader α) P := fun _ _ _ h => nomatch h

theorem Gives.bind {r : Reader α} {f : α → Reader β} (h : Gives r P)
    (hf : ∀ a, P a → Gives (f a) Q) : Gives (r >>= f) Q := fun _ _ _ hb => by
  obtain ⟨a, mid, ha, hb⟩ := bind_eq_some.1 hb
  exact hf a (h ha) hb

/-- What is read of the first reader does not matter. -/
theorem gives_bind {r : Reader α} {f : α → Reader β} (hf : ∀ a, Gives (f a) Q) :
    Gives (r >>= f) Q :=
  (gives_true r).bind fun a _ => hf a

theorem Gives.orElse {r r' : Reader α} (h : Gives r P) (h' : Gives r' P) :
    Gives (r <|> r') P := fun _ _ _ ha => by
  rcases orElse_eq_some ha with ha | ⟨_, ha⟩
  · exact h ha
  · exact h' ha

theorem Gives.atMost {r : Reader α} (h : Gives r P) :
    ∀ n, Gives (r.atMost n) fun l => ∀ a ∈ l, P a
  | 0 => gives_pure nofun
  | n + 1 => by
    refine Gives.orElse (h.bind fun a ha => (h.atMost n).bind fun rest hrest => ?_)
      (gives_pure nofun)
    exact gives_pure (List.forall_mem_cons.2 ⟨ha, hrest⟩)

theorem Gives.many {r : Reader α} (h : Gives r P) : Gives (many r) fun l => ∀ a ∈ l, P a :=
  fun _ _ _ hl => h.atMost _ hl

/-- One value at least is read where marks are between the values. -/
theorem Gives.separated {r : Reader α} {mark : Reader Unit} (h : Gives r P) :
    Gives (separated mark r) fun l => l ≠ [] ∧ ∀ a ∈ l, P a :=
  h.bind fun _ hfirst => (gives_bind fun _ => h).many.bind fun _ hrest =>
    gives_pure ⟨List.cons_ne_nil _ _, List.forall_mem_cons.2 ⟨hfirst, hrest⟩⟩

theorem Gives.lexeme {r : Reader α} (h : Gives r P) : Gives (lexeme r) P :=
  h.bind fun _ ha => gives_bind fun _ => gives_pure ha

/-! ### Taking several values -/

/-- **The reader takes the values one after the other,** some characters for each, and then
takes no more. -/
inductive Repeats (r : Reader α) : List Char → List α → List Char → Prop where
  | nil {rest : List Char} (h : r rest = none) : Repeats r rest [] rest
  | cons {cs mid rest : List Char} {a : α} {l : List α} (h : r cs = some (a, mid))
      (hlt : mid.length < cs.length) (hl : Repeats r mid l rest) : Repeats r cs (a :: l) rest

theorem Repeats.length_le {r : Reader α} {cs rest : List Char} {l : List α}
    (h : Repeats r cs l rest) : l.length ≤ cs.length := by
  induction h with
  | nil => exact Nat.zero_le _
  | cons _ hlt _ ih =>
    rw [List.length_cons]
    omega

theorem Repeats.atMost {r : Reader α} {cs rest : List Char} {l : List α}
    (h : Repeats r cs l rest) : ∀ n, l.length ≤ n → r.atMost n cs = some (l, rest) := by
  induction h with
  | nil h =>
    rintro (_ | n) _
    · rfl
    · exact orElse_of_eq_none (bind_of_eq_none h)
  | cons h _ _ ih =>
    rintro (_ | n) hn
    · cases hn
    · refine orElse_of_eq_some ?_
      rw [bind_of_eq_some h, bind_of_eq_some (ih n (Nat.le_of_succ_le_succ hn))]
      rfl

/-- **Taking as many as there are takes them all.** -/
theorem Repeats.many {r : Reader α} {cs rest : List Char} {l : List α} (h : Repeats r cs l rest) :
    many r cs = some (l, rest) :=
  h.atMost _ h.length_le

/-- One value, and more with a mark before each. -/
theorem separated_of_repeats {r : Reader α} {mark : Reader Unit} {cs mid rest : List Char} {a : α}
    {l : List α} (h : r cs = some (a, mid)) (hl : Repeats (do mark; r) mid l rest) :
    separated mark r cs = some (a :: l, rest) := by
  rw [separated, bind_of_eq_some h, bind_of_eq_some hl.many]
  rfl

/-! ### Blanks and comments -/

/-- **What is left of the characters** without the blanks and comments at their front. -/
def Leaves (rest left : List Char) : Prop := skip rest = some ((), left)

/-- Neither a blank nor a comment is at the front of the characters. -/
def IsSettled (cs : List Char) : Prop := ∀ n, dropComments n cs = cs

theorem IsSettled.leaves {cs : List Char} (h : IsSettled cs) : Leaves cs cs :=
  congrArg (fun left => some ((), left)) (h cs.length)

theorem IsSettled.eq_of_leaves {cs left : List Char} (h : IsSettled cs) (hleft : Leaves cs left) :
    left = cs :=
  (Prod.mk.inj (Option.some.inj (hleft.symm.trans h.leaves))).2

/-- A blank before settled characters is dropped. -/
theorem IsSettled.leaves_blank {cs : List Char} (h : IsSettled cs) : Leaves (' ' :: cs) cs := by
  have hsame : dropComments (cs.length + 1) (' ' :: cs) = dropComments (cs.length + 1) cs := by
    rw [dropComments, dropComments, List.dropWhile_cons_of_pos rfl]
  exact congrArg (fun left => some ((), left)) (hsame.trans (h _))

theorem isSettled_nil : IsSettled [] := by
  rintro (_ | n) <;> rfl

/-- Characters are settled when the first is neither a blank nor a bracket. -/
theorem isSettled_cons {c : Char} (hblank : Text.isAsciiBlank c = false) (hopen : c ≠ '(')
    (cs : List Char) : IsSettled (c :: cs) := by
  rintro (_ | n)
  · exact Text.dropWhile_isAsciiBlank_cons hblank cs
  · rw [dropComments, Text.dropWhile_isAsciiBlank_cons hblank]
    split
    · next heq => exact absurd (List.cons.inj heq).1 hopen
    · rfl

/-- A bracket that opens no comment is settled. -/
theorem isSettled_open {cs : List Char} (h : cs.head? ≠ some ':') : IsSettled ('(' :: cs) := by
  rintro (_ | n)
  · exact Text.dropWhile_isAsciiBlank_cons rfl _
  · rw [dropComments, Text.dropWhile_isAsciiBlank_cons rfl]
    split
    · next heq => exact absurd (congrArg List.head? (List.cons.inj heq).2) h
    · rfl

/-- The characters are settled when the first one, if any, is neither a blank nor a bracket. -/
theorem isSettled_of_head {rest : List Char}
    (h : ∀ c ∈ rest.head?, Text.isAsciiBlank c = false ∧ c ≠ '(') : IsSettled rest := by
  cases rest with
  | nil => exact isSettled_nil
  | cons c rest =>
    obtain ⟨hblank, hopen⟩ := h c rfl
    exact isSettled_cons hblank hopen rest

theorem lexeme_eq_some {r : Reader α} {cs rest left : List Char} {a : α}
    (h : r cs = some (a, rest)) (hleft : Leaves rest left) : lexeme r cs = some (a, left) := by
  rw [lexeme, bind_of_eq_some h, bind_of_eq_some hleft]
  rfl

theorem exists_leaves_of_lexeme {r : Reader α} {cs left : List Char} {a : α}
    (h : lexeme r cs = some (a, left)) : ∃ rest, r cs = some (a, rest) ∧ Leaves rest left := by
  obtain ⟨b, rest, hread, hskip⟩ := bind_eq_some.1 h
  obtain ⟨⟨⟩, left', hleft, hpure⟩ := bind_eq_some.1 hskip
  obtain ⟨rfl, rfl⟩ := pure_eq_some.1 hpure
  exact ⟨rest, hread, hleft⟩

theorem lexeme_eq_none {r : Reader α} {cs : List Char} (h : r cs = none) : lexeme r cs = none :=
  bind_of_eq_none h

/-! ### Fixed texts -/

/-- Another first character is in the way of a text. -/
theorem afterStart?_eq_none {c : Char} {start cs : List Char} (h : cs.head? ≠ some c) :
    Text.afterStart? (c :: start) cs = none := by
  cases cs with
  | nil => rfl
  | cons d cs => exact if_neg fun heq => h (congrArg some heq.symm)

theorem literal_append {s : String} {text : List Char} (hs : s.toList = text)
    (rest : List Char) : literal s (text ++ rest) = some ((), rest) := by
  rw [literal, hs, Text.afterStart?_append]
  rfl

theorem literal_eq_none {s : String} {cs : List Char}
    (h : Text.afterStart? s.toList cs = none) : literal s cs = none := by
  rw [literal, h]
  rfl

theorem token_append {s : String} {text : List Char} (hs : s.toList = text)
    {rest left : List Char} (hleft : Leaves rest left) :
    token s (text ++ rest) = some ((), left) :=
  lexeme_eq_some (literal_append hs rest) hleft

theorem token_cons {s : String} {c : Char} (hs : s.toList = [c]) {rest left : List Char}
    (hleft : Leaves rest left) : token s (c :: rest) = some ((), left) :=
  token_append hs hleft

theorem token_cons_cons {s : String} {c d : Char} (hs : s.toList = [c, d]) {rest left : List Char}
    (hleft : Leaves rest left) : token s (c :: d :: rest) = some ((), left) :=
  token_append hs hleft

/-- A fixed text is not taken where another character stands first. -/
theorem token_eq_none {s : String} {c : Char} {start cs : List Char} (hs : s.toList = c :: start)
    (h : cs.head? ≠ some c) : token s cs = none :=
  lexeme_eq_none (literal_eq_none (by rw [hs]; exact afterStart?_eq_none h))

end Reader
end IndexedXml
