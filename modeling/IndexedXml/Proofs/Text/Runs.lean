/-
# Runs of characters

Where a run of characters ends, what a mark cuts, and which characters the digits of a number
are.  Readers of texts are followed with these facts: a run that is taken while a class lasts
ends at the first character outside the class.
-/

import IndexedXml.Double.Numeral
import Mathlib.Data.List.DropRight
import Mathlib.Data.List.Infix
import Mathlib.Data.List.TakeDrop
import Mathlib.Data.List.TakeWhile
import Mathlib.Tactic.IntervalCases

namespace IndexedXml
namespace Text

/-! ### Classes of characters -/

/-- Characters are different when a class tells them apart. -/
theorem ne_of_class {p : Char → Bool} {c d : Char} (hc : p c = true) (hd : p d = false) :
    c ≠ d := by
  rintro rfl
  rw [hc] at hd
  cases hd

theorem not_isAsciiBlank_of_class {p : Char → Bool} {c : Char} (hc : p c = true)
    (hp : [' ', '\t', '\n', '\r'].any p = false) : isAsciiBlank c = false := by
  simp only [List.any_cons, List.any_nil, Bool.or_eq_false_iff] at hp
  obtain ⟨hspace, htab, hfeed, hreturn, _⟩ := hp
  simp [isAsciiBlank, ne_of_class hc hspace, ne_of_class hc htab, ne_of_class hc hfeed,
    ne_of_class hc hreturn]

/-! ### Runs -/

/-- **A run ends where its class does,** or with the characters. -/
theorem span_append {p : Char → Bool} {run rest : List Char} (hrun : ∀ c ∈ run, p c = true)
    (hstop : ∀ c ∈ rest.head?, p c = false) : (run ++ rest).span p = (run, rest) := by
  rw [List.span_eq_takeWhile_dropWhile, List.takeWhile_append_of_pos hrun,
    List.dropWhile_append_of_pos hrun]
  cases rest with
  | nil => rw [List.takeWhile_nil, List.dropWhile_nil, List.append_nil]
  | cons c rest =>
    have hc : ¬ p c = true := by simp [hstop c rfl]
    rw [List.takeWhile_cons_of_neg hc, List.dropWhile_cons_of_neg hc, List.append_nil]

theorem span_eq_of_stop {p : Char → Bool} {run : List Char} (hrun : ∀ c ∈ run, p c = true)
    (stop : Char) (hstop : p stop = false) (rest : List Char) :
    (run ++ stop :: rest).span p = (run, stop :: rest) :=
  span_append hrun (by simpa using hstop)

theorem dropWhile_isAsciiBlank_cons {c : Char} (h : isAsciiBlank c = false)
    (rest : List Char) : (c :: rest).dropWhile isAsciiBlank = c :: rest :=
  List.dropWhile_cons_of_neg (by simp [h])

/-- Nothing is dropped from an end that is of no such character. -/
theorem dropEndWhile_eq_self {p : Char → Bool} {cs : List Char} (h : ∀ c ∈ cs, p c = false) :
    dropEndWhile p cs = cs := by
  rw [dropEndWhile]
  cases hcs : cs.reverse with
  | nil => exact (List.reverse_eq_nil_iff.1 hcs).symm
  | cons c rest =>
    have hc : p c = false := h c (List.mem_reverse.1 (hcs ▸ List.mem_cons_self))
    rw [List.dropWhile_cons_of_neg (by simp [hc]), ← hcs, List.reverse_reverse]

/-! ### Ends -/

/-- Dropping from the end and dropping from the front are the same read backwards. -/
theorem dropEndWhile_eq_rdropWhile (p : Char → Bool) (cs : List Char) :
    dropEndWhile p cs = cs.rdropWhile p := rfl

/-- Nothing is dropped from the end just when the last character is not of the class. -/
theorem dropEndWhile_eq_self_iff {p : Char → Bool} {cs : List Char} :
    dropEndWhile p cs = cs ↔ ∀ c ∈ cs.getLast?, p c = false := by
  rw [dropEndWhile_eq_rdropWhile]
  rcases List.eq_nil_or_concat cs with rfl | ⟨front, last, rfl⟩
  · simp
  · simp [List.rdropWhile_eq_self_iff]

/-- The last character that is left is not of the class. -/
theorem not_of_getLast?_dropEndWhile {p : Char → Bool} {cs : List Char} :
    ∀ c ∈ (dropEndWhile p cs).getLast?, p c = false :=
  dropEndWhile_eq_self_iff.1 (List.rdropWhile_idempotent p cs)

/-- Characters of the class at the end make no difference. -/
theorem dropEndWhile_append_of_class {p : Char → Bool} (cs : List Char) {rest : List Char}
    (h : ∀ c ∈ rest, p c = true) : dropEndWhile p (cs ++ rest) = dropEndWhile p cs := by
  rw [dropEndWhile, dropEndWhile, List.reverse_append, List.dropWhile_append_of_pos]
  exact fun c hc => h c (List.mem_reverse.1 hc)

/-- A start that ends outside the class stays when the end is dropped. -/
theorem prefix_dropEndWhile {p : Char → Bool} {start cs : List Char} (h : start <+: cs)
    (hlast : ∀ c ∈ start.getLast?, p c = false) : start <+: dropEndWhile p cs := by
  obtain ⟨rest, rfl⟩ := h
  induction rest using List.reverseRecOn with
  | nil => rw [List.append_nil, dropEndWhile_eq_self_iff.2 hlast]
  | append_singleton rest c ih =>
    rw [← List.append_assoc, dropEndWhile_eq_rdropWhile]
    by_cases hc : p c = true
    · rw [List.rdropWhile_concat_pos _ _ _ hc]
      exact ih
    · rw [List.rdropWhile_concat_neg _ _ _ hc, List.append_assoc]
      exact List.prefix_append _ _

/-- What is stripped is a part of the characters. -/
theorem stripWhile_infix (p : Char → Bool) (cs : List Char) : stripWhile p cs <:+: cs :=
  (List.rdropWhile_prefix p _).isInfix.trans (List.dropWhile_suffix p).isInfix

/-- **Stripping twice is stripping once.** -/
theorem stripWhile_stripWhile (p : Char → Bool) (cs : List Char) :
    stripWhile p (stripWhile p cs) = stripWhile p cs := by
  have hfront : (stripWhile p cs).dropWhile p = stripWhile p cs := by
    cases hstripped : stripWhile p cs with
    | nil => rfl
    | cons c rest =>
      refine List.dropWhile_cons_of_neg fun hc => ?_
      -- The first character left is the first that dropping from the front left.
      obtain ⟨after, hafter⟩ : stripWhile p cs <+: cs.dropWhile p := List.rdropWhile_prefix p _
      rw [hstripped] at hafter
      have hagain := List.dropWhile_idempotent (p := p) cs
      rw [← hafter, List.cons_append, List.dropWhile_cons_of_pos hc] at hagain
      have hlength := (List.dropWhile_suffix (l := rest ++ after) p).length_le
      rw [hagain, List.length_cons] at hlength
      omega
  rw [stripWhile, hfront, stripWhile, dropEndWhile_eq_rdropWhile, dropEndWhile_eq_rdropWhile,
    List.rdropWhile_idempotent]

/-- A character of the class at either end is stripped with the others. -/
theorem stripWhile_surround {p : Char → Bool} {c : Char} (hc : p c = true) {cs : List Char}
    (h : stripWhile p cs = cs) : stripWhile p (c :: (cs ++ [c])) = cs := by
  have hend : stripWhile p (cs ++ [c]) = stripWhile p cs := by
    by_cases hall : ∀ d ∈ cs, p d = true
    · have hcs : cs.dropWhile p = [] := List.dropWhile_eq_nil_iff.2 hall
      have hcs' : (cs ++ [c]).dropWhile p = [] :=
        List.dropWhile_eq_nil_iff.2
          (List.forall_mem_append.2 ⟨hall, List.forall_mem_singleton.2 hc⟩)
      rw [stripWhile, stripWhile, hcs, hcs']
    · have hcs : (cs ++ [c]).dropWhile p = cs.dropWhile p ++ [c] := by
        rw [List.dropWhile_append, if_neg]
        rw [List.isEmpty_iff, List.dropWhile_eq_nil_iff]
        exact hall
      rw [stripWhile, stripWhile, hcs, dropEndWhile_eq_rdropWhile, dropEndWhile_eq_rdropWhile,
        List.rdropWhile_concat_pos _ _ _ hc]
  rw [stripWhile, List.dropWhile_cons_of_pos hc]
  exact hend.trans h

/-! ### Marks -/

theorem splitOnceList_of_not_mem {mark : Char} {cs : List Char} (h : mark ∉ cs) :
    splitOnceList mark cs = none := by
  induction cs with
  | nil => rfl
  | cons c rest ih =>
    obtain ⟨hc, hrest⟩ := not_or.1 (List.mem_cons.not.1 h)
    rw [splitOnceList, if_neg (Ne.symm hc), ih hrest]
    rfl

theorem splitOnceList_append {mark : Char} {before : List Char} (h : mark ∉ before)
    (after : List Char) :
    splitOnceList mark (before ++ mark :: after) = some (before, after) := by
  induction before with
  | nil => exact if_pos rfl
  | cons c rest ih =>
    obtain ⟨hc, hrest⟩ := not_or.1 (List.mem_cons.not.1 h)
    rw [List.cons_append, splitOnceList, if_neg (Ne.symm hc), ih hrest]
    rfl

/-! ### Starts -/

theorem afterStart?_append (start rest : List Char) :
    afterStart? start (start ++ rest) = some rest := by
  induction start with
  | nil => rfl
  | cons c start ih => exact (if_pos rfl).trans ih

theorem eq_append_of_afterStart? {start cs rest : List Char}
    (h : afterStart? start cs = some rest) : cs = start ++ rest := by
  induction start generalizing cs with
  | nil => exact Option.some.inj h
  | cons a start ih =>
    cases cs with
    | nil => cases h
    | cons c cs =>
      rw [afterStart?] at h
      split_ifs at h with hac
      rw [hac, ih h]
      rfl

/-! ### Digits -/

theorem decimalValue_toDigits (n : Nat) : decimalValue (Nat.toDigits 10 n) = n := by
  refine Eq.trans ?_ (Nat.ofDigitChars_ten_toDigits (n := n))
  rw [Nat.ofDigitChars_eq_foldl]
  rfl

theorem isAlphanum_digitChar {n : Nat} (h : n < 16) : n.digitChar.isAlphanum = true := by
  interval_cases n <;> rfl

theorem isAlphanum_of_mem_toDigits {b : Nat} (hb : 1 < b) (hb' : b ≤ 16) {n : Nat} {c : Char}
    (h : c ∈ Nat.toDigits b n) : c.isAlphanum = true := by
  induction n using Nat.strong_induction_on with
  | _ n ih =>
    rw [Nat.toDigits_eq_if hb] at h
    split_ifs at h with hlt
    · rw [List.mem_singleton.1 h]
      exact isAlphanum_digitChar (by omega)
    · rcases List.mem_append.1 h with h | h
      · exact ih (n / b) (Nat.div_lt_self (by omega) hb) h
      · rw [List.mem_singleton.1 h]
        exact isAlphanum_digitChar (by have := Nat.mod_lt n (show b > 0 by omega); omega)

end Text
end IndexedXml
