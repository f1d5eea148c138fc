/-
# Integers read as doubles

A text that denotes a 64-bit integer denotes a double too, the one nearest to the integer
(`Double.parse?_of_integer?`).  Both readers drop the same blanks and take the same sign, and
the integer is far too small for the range of doubles to matter.  Only a zero with a minus
before it is another double than the integer zero, and it compares like it.
-/

import IndexedXml.Proofs.Text.Runs
import Mathlib.Data.Nat.Digits.Defs

namespace IndexedXml

namespace Text

/-- Whether a list of characters begins with a minus, and what follows its sign. -/
def signed : List Char → Bool × List Char
  | '-' :: rest => (true, rest)
  | '+' :: rest => (false, rest)
  | rest => (false, rest)

/-- An integer is digits after a sign, in the range of 64 bits. -/
theorem integerOf?_eq (cs : List Char) :
    integerOf? cs =
      if (signed cs).2.isEmpty || !(signed cs).2.all Char.isDigit then none
      else
        let value : Int := if (signed cs).1 then -(decimalValue (signed cs).2 : Int)
          else decimalValue (signed cs).2
        if -Int.pow 2 63 ≤ value && value < Int.pow 2 63 then some value else none := rfl

/-- **What a list of characters that denotes an integer consists of.** -/
theorem integerOf?_eq_some {cs : List Char} {i : Int} (h : integerOf? cs = some i) :
    ∃ negative digits, signed cs = (negative, digits) ∧ digits ≠ [] ∧
      (∀ c ∈ digits, c.isDigit = true) ∧ decimalValue digits ≤ 2 ^ 63 ∧
        i = if negative then -(decimalValue digits : Int) else decimalValue digits := by
  have hrange : ∀ value : Int,
      (if -Int.pow 2 63 ≤ value && value < Int.pow 2 63 then some value else none) = some i →
        i = value ∧ -Int.pow 2 63 ≤ value ∧ value < Int.pow 2 63 := by
    intro value h
    by_cases hvalue : (decide (-Int.pow 2 63 ≤ value) && decide (value < Int.pow 2 63)) = true
    · rw [if_pos hvalue] at h
      rw [Bool.and_eq_true, decide_eq_true_eq, decide_eq_true_eq] at hvalue
      exact ⟨(Option.some.inj h).symm, hvalue⟩
    · rw [if_neg hvalue] at h
      cases h
  have hpower : Int.pow 2 63 = ((2 ^ 63 : Nat) : Int) := by norm_num [Int.pow]
  rw [integerOf?_eq] at h
  by_cases hdigits : ((signed cs).2.isEmpty || !(signed cs).2.all Char.isDigit) = true
  · rw [if_pos hdigits] at h
    cases h
  · rw [if_neg hdigits] at h
    rw [Bool.or_eq_true, not_or, List.isEmpty_iff, Bool.not_eq_true', Bool.not_eq_false,
      List.all_eq_true] at hdigits
    obtain ⟨hvalue, hlow, hhigh⟩ := hrange _ h
    refine ⟨(signed cs).1, (signed cs).2, rfl, hdigits.1, hdigits.2, ?_, hvalue⟩
    rw [hpower] at hlow hhigh
    generalize 2 ^ 63 = bound at hlow hhigh ⊢
    cases hsign : (signed cs).1 <;> simp only [hsign, if_true, Bool.false_eq_true, if_false] at hlow hhigh <;>
      omega

end Text

namespace Double

/-- A numeral of digits alone is read to its end. -/
theorem read?_digits {digits : List Char} (hne : digits ≠ [])
    (hdigits : ∀ c ∈ digits, c.isDigit = true) :
    Numeral.read? digits = some (⟨digits, none, none⟩, []) := by
  have hspan : digits.span Char.isDigit = (digits, []) := by
    conv_lhs => rw [← List.append_nil digits]
    exact Text.span_append hdigits nofun
  rw [Numeral.read?, hspan]
  simp [hne, exponentPart?]

/-- The double of a mantissa that fits in 64 bits is the nearest to it. -/
theorem ofDecimal_of_le (negative : Bool) {n : Nat} (hn : n ≤ 2 ^ 63) :
    ofDecimal negative n 0 = if n = 0 then finite negative 0 else ofRatio negative n 1 := by
  have hlength : decimalLength n ≤ 19 := by
    unfold decimalLength
    split_ifs
    · omega
    · exact Nat.toDigits_length 10 n 19 (by omega) (by omega)
  unfold ofDecimal
  by_cases hzero : n = 0
  · simp [hzero]
  · have hlow : ¬ ((decimalLength n : Int) ≤ -324) := by omega
    have hhigh : ¬ (310 ≤ decimalLength n) := by omega
    simp [hzero, hlow, hhigh]

/-- A double is a numeral after a sign. -/
theorem ofSigned?_eq (cs : List Char) :
    ofSigned? cs =
      match Numeral.read? (Text.signed cs).2 with
      | some (n, []) => some (n.toDouble (Text.signed cs).1)
      | _ => none := rfl

/-- **A zero compares alike with either sign.** -/
theorem compare?_finite_zero (negative : Bool) (d : Double) :
    (finite negative 0).compare? d = (finite false 0).compare? d := by
  have hposition : (finite negative 0).position? = (finite false 0).position? := by
    cases negative <;> rfl
  unfold compare?
  rw [hposition]

theorem ofInt_zero : ofInt 0 = finite false 0 := by decide +kernel

/-- **A text that denotes an integer denotes a double that compares as the integer does.** -/
theorem parse?_of_integer? {s : String} {i : Int} (h : Text.integer? s = some i) :
    ∃ x, parse? s = some x ∧ ∀ d, x.compare? d = (ofInt i).compare? d := by
  obtain ⟨negative, digits, hsigned, hne, hdigits, hbound, rfl⟩ := Text.integerOf?_eq_some h
  have hparse : parse? s = ofSigned? (Text.trim s).toList := by
    have hname : ∀ name : String, Text.integerOf? name.toList = none → Text.trim s ≠ name := by
      intro name hname heq
      rw [Text.integer?, heq, hname] at h
      cases h
    unfold parse?
    split
    · exact absurd ‹_› (hname "INF" (by decide))
    · exact absurd ‹_› (hname "+INF" (by decide))
    · exact absurd ‹_› (hname "-INF" (by decide))
    · exact absurd ‹_› (hname "NaN" (by decide))
    · rfl
  have hvalue : ofSigned? (Text.trim s).toList =
      some (if Text.decimalValue digits = 0 then finite negative 0
        else ofRatio negative (Text.decimalValue digits) 1) := by
    rw [ofSigned?_eq, hsigned]
    dsimp only
    rw [read?_digits hne hdigits, ← ofDecimal_of_le negative hbound]
    simp [Numeral.toDouble]
  refine ⟨_, hparse.trans hvalue, fun d => ?_⟩
  by_cases hzero : Text.decimalValue digits = 0
  · have hint : (if negative = true then -(Text.decimalValue digits : Int)
        else Text.decimalValue digits) = 0 := by
      cases negative <;> simp [hzero]
    rw [if_pos hzero, hint, ofInt_zero]
    exact compare?_finite_zero negative d
  · have hpositive : 0 < Text.decimalValue digits := Nat.pos_of_ne_zero hzero
    have hnatural : ¬ ((Text.decimalValue digits : Int) < 0) := by omega
    rw [if_neg hzero]
    cases negative with
    | true => simp [ofInt, hpositive]
    | false => simp [ofInt, hnatural]

end Double
end IndexedXml
