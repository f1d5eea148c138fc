/-
# Writing trees as markup

The text of a tree that anything can read without guessing: in texts and values every character
but ASCII letters and digits is written as a reference to its number.  Where there is a choice a
`Style` makes it: whether an element without content is one tag, whether numbers are decimal or
hexadecimal, and which quotes are around values.

Two things are read back without regard to what is around them: a name from its text
(`QName.IsPlain.ofText_text`), and a text from its characters and references
(`Xml.Style.resolve?_escaped`).
-/

import IndexedXml.Proofs.Text.Runs
import IndexedXml.Proofs.Xml.NormalForm

namespace IndexedXml

/-! ### Which trees -/

/-- Whether a name can begin with the character. -/
def isNameStart (c : Char) : Bool := c.isAlpha || c == '_'

/-- Whether a name can have the character after its first. -/
def isNameRest (c : Char) : Bool := c.isAlphanum || c == '_' || c == '.' || c == '-'

/-- Whether the text is a letter or an underscore, and after it letters, digits, underscores,
points and hyphens. -/
def isNamePart (s : String) : Bool :=
  match s.toList with
  | [] => false
  | c :: rest => isNameStart c && rest.all isNameRest

/-- **A name that can be written:** such a text with at most one such prefix, in no
namespace. -/
structure QName.IsPlain (a : QName) : Prop where
  uri : a.namespaceUri = none
  localPart : isNamePart a.localPart = true
  prefixPart : ∀ lead ∈ a.prefixPart, isNamePart lead = true

/-- An attribute that can be written: its name declares no namespace, and its value has no
character of number zero. -/
structure Attribute.IsPlain (a : Attribute) : Prop where
  name : a.name.IsPlain
  notPrefix : a.name.prefixPart ≠ some "xmlns"
  notDeclaration : a.name ≠ .simple "xmlns"
  value : '\x00' ∉ a.value.toList

namespace Tree

mutual

/-- **The tree can be written:** by its names, and since no text or value has a character of
number zero. -/
def IsPlain : Tree → Prop
  | .text value => '\x00' ∉ value.toList
  | .element name attributes content =>
    name.IsPlain ∧ (∀ a ∈ attributes, a.IsPlain) ∧ AllPlain content

/-- Every piece of content can be written. -/
def AllPlain : List Tree → Prop
  | [] => True
  | piece :: rest => IsPlain piece ∧ AllPlain rest

end

end Tree

namespace Xml

/-! ### How they are written -/

/-- How a tree is written where there is a choice. -/
structure Style where
  /-- Whether an element without content is one tag. -/
  short : Bool
  /-- Whether references give numbers in hexadecimal digits. -/
  hexadecimal : Bool
  /-- The quote around values. -/
  quote : Char
  /-- It is one of two. -/
  quote_eq : quote = '"' ∨ quote = '\''

namespace Style

variable (style : Style)

/-- The digits of a character's number, after an `x` when they are hexadecimal. -/
def number (c : Char) : List Char :=
  if style.hexadecimal then 'x' :: Nat.toDigits 16 c.toNat else Nat.toDigits 10 c.toNat

/-- A character as it is written in texts and values. -/
def written (c : Char) : List Char :=
  if c.isAlphanum then [c] else '&' :: '#' :: (style.number c ++ [';'])

/-- **A text as it is written.** -/
def escaped (s : String) : List Char := s.toList.flatMap style.written

/-- An attribute as it is written, after a blank. -/
def writeAttribute (a : Attribute) : List Char :=
  ' ' :: (a.name.text.toList ++ '=' :: style.quote :: (style.escaped a.value ++ [style.quote]))

/-- What is between the brackets of a start tag. -/
def writeTag (name : QName) (attributes : List Attribute) : List Char :=
  name.text.toList ++ attributes.flatMap style.writeAttribute

mutual

/-- **A tree as it is written.** -/
def write : Tree → List Char
  | .text value => style.escaped value
  | .element name attributes content =>
    if style.short && content.isEmpty then '<' :: (style.writeTag name attributes ++ ['/', '>'])
    else '<' :: (style.writeTag name attributes ++ '>' ::
      (writeAll content ++ '<' :: '/' :: (name.text.toList ++ ['>'])))

/-- Content as it is written. -/
def writeAll : List Tree → List Char
  | [] => []
  | piece :: rest => write piece ++ writeAll rest

end

end Style

/-! ### Classes of characters -/

/-- Whether a character occurs in written names. -/
def isNameMark (c : Char) : Bool := isNameRest c || c == ':'

/-- Whether a character occurs in written texts. -/
def isTextMark (c : Char) : Bool := c.isAlphanum || c == '&' || c == '#' || c == ';'

theorem isNameRest_of_isNameStart {c : Char} (h : isNameStart c = true) : isNameRest c = true := by
  simp only [isNameStart, isNameRest, Char.isAlphanum, Bool.or_eq_true] at h ⊢
  tauto

/-- The parts of a name consist of their characters. -/
theorem isNameRest_of_mem {s : String} (h : isNamePart s = true) {c : Char} (hc : c ∈ s.toList) :
    isNameRest c = true := by
  rw [isNamePart] at h
  cases hs : s.toList with
  | nil =>
    rw [hs] at hc
    cases hc
  | cons first rest =>
    rw [hs] at h hc
    simp only [Bool.and_eq_true, List.all_eq_true] at h
    rcases List.mem_cons.1 hc with rfl | hc
    · exact isNameRest_of_isNameStart h.1
    · exact h.2 c hc

theorem exists_start_of_isNamePart {s : String} (h : isNamePart s = true) :
    ∃ first rest, s.toList = first :: rest ∧ isNameStart first = true := by
  rw [isNamePart] at h
  cases hs : s.toList with
  | nil =>
    rw [hs] at h
    cases h
  | cons first rest =>
    rw [hs, Bool.and_eq_true] at h
    exact ⟨first, rest, rfl, h.1⟩

end Xml

namespace QName

/-- What is written of a name without a namespace: its prefix, a colon, and its local part. -/
theorem IsPlain.toList_text {a : QName} (h : a.IsPlain) :
    a.text.toList =
      (a.prefixPart.elim [] fun lead => lead.toList ++ [':']) ++ a.localPart.toList := by
  rcases a with ⟨_ | lead, localPart, uri⟩
  · obtain rfl : uri = none := h.uri
    rfl
  · simp [text]

theorem IsPlain.isNameMark {a : QName} (h : a.IsPlain) {c : Char} (hc : c ∈ a.text.toList) :
    Xml.isNameMark c = true := by
  rw [h.toList_text, List.mem_append] at hc
  rw [Xml.isNameMark, Bool.or_eq_true, beq_iff_eq]
  rcases hc with hc | hc
  · cases hlead : a.prefixPart with
    | none =>
      rw [hlead] at hc
      cases hc
    | some lead =>
      rw [hlead] at hc
      rcases List.mem_append.1 hc with hc | hc
      · exact .inl (Xml.isNameRest_of_mem (h.prefixPart lead hlead) hc)
      · exact .inr (List.mem_singleton.1 hc)
  · exact .inl (Xml.isNameRest_of_mem h.localPart hc)

/-- A written name begins as a name does. -/
theorem IsPlain.exists_start {a : QName} (h : a.IsPlain) :
    ∃ first rest, a.text.toList = first :: rest ∧ isNameStart first = true := by
  rw [h.toList_text]
  cases hlead : a.prefixPart with
  | none => exact Xml.exists_start_of_isNamePart h.localPart
  | some lead =>
    obtain ⟨first, rest, hfirst, hstart⟩ :=
      Xml.exists_start_of_isNamePart (h.prefixPart lead hlead)
    exact ⟨first, _, by rw [Option.elim_some, hfirst]; rfl, hstart⟩

/-- **A written name is read as the name,** with its prefix. -/
theorem IsPlain.ofText_text {a : QName} (h : a.IsPlain) : QName.ofText a.text = a := by
  have hcolon : ∀ s : String, isNamePart s = true → ':' ∉ s.toList := fun s hs hmem =>
    absurd (Xml.isNameRest_of_mem hs hmem) (by decide)
  have htext := h.toList_text
  rcases a with ⟨_ | lead, localPart, uri⟩
  · obtain rfl : uri = none := h.uri
    rw [ofText, Text.splitOnce, htext]
    simp only [Option.elim_none, List.nil_append,
      Text.splitOnceList_of_not_mem (hcolon _ h.localPart)]
    rfl
  · obtain rfl : uri = none := h.uri
    rw [ofText, Text.splitOnce, htext]
    simp only [Option.elim_some, List.append_assoc, List.singleton_append,
      Text.splitOnceList_append (hcolon lead (h.prefixPart lead rfl)), Option.map_some,
      String.ofList_toList]

end QName

namespace Xml

open Text

/-! ### References -/

theorem hexValue?_digitChar {n : Nat} (h : n < 16) : Json.hexValue? n.digitChar = some n := by
  interval_cases n <;> rfl

theorem hexNumber?_concat (digits : List Char) (c : Char) :
    hexNumber? (digits ++ [c]) =
      (hexNumber? digits).bind fun n => (Json.hexValue? c).map (16 * n + ·) := by
  rw [hexNumber?, List.foldlM_append, hexNumber?]
  refine congrArg _ (funext fun n => ?_)
  rw [List.foldlM_cons]
  cases Json.hexValue? c <;> rfl

theorem hexNumber?_toDigits (n : Nat) : hexNumber? (Nat.toDigits 16 n) = some n := by
  induction n using Nat.strong_induction_on with
  | _ n ih =>
    rw [Nat.toDigits_eq_if (by decide)]
    split_ifs with hlt
    · rw [← List.nil_append [n.digitChar], hexNumber?_concat, hexValue?_digitChar hlt]
      simp [hexNumber?]
    · rw [hexNumber?_concat, ih (n / 16) (by omega),
        hexValue?_digitChar (Nat.mod_lt _ (by decide))]
      simp only [Option.bind_some, Option.map_some, Option.some.injEq]
      omega

/-- A character but that of number zero is the one of its number. -/
theorem numberedCharacter?_toNat {c : Char} (h : c ≠ '\x00') :
    numberedCharacter? c.toNat = some c := by
  have hne : c.toNat ≠ 0 := fun hzero => h (Char.toNat_inj.1 hzero)
  have hvalid : c.toNat.isValidChar := c.valid
  rw [numberedCharacter?, if_neg hne, dif_pos hvalid]
  rfl

namespace Style

variable (style : Style)

theorem isAlphanum_of_mem_number {c d : Char} (h : d ∈ style.number c) : d.isAlphanum = true := by
  rw [number] at h
  split_ifs at h
  · rcases List.mem_cons.1 h with rfl | h
    · rfl
    · exact isAlphanum_of_mem_toDigits (by decide) le_rfl h
  · exact isAlphanum_of_mem_toDigits (by decide) (by decide) h

/-- **A written number refers to its character.** -/
theorem referenced?_number {c : Char} (h : c ≠ '\x00') :
    referenced? ('#' :: style.number c) = some c := by
  rw [number]
  split_ifs
  · rw [referenced?, if_neg (by simp [Nat.toDigits_ne_nil]), hexNumber?_toDigits,
      Option.bind_some, numberedCharacter?_toNat h]
  · have hdigits : ∀ d ∈ Nat.toDigits 10 c.toNat, d.isDigit = true := fun d hd =>
      Nat.isDigit_of_mem_toDigits (by decide) (by decide) hd
    have hnotHex : ∀ digits, Nat.toDigits 10 c.toNat ≠ 'x' :: digits := by
      intro digits heq
      exact absurd (hdigits 'x' (heq ▸ List.mem_cons_self)) (by decide)
    rw [referenced?.eq_2 _ (by simpa using hnotHex)]
    rw [if_neg (by simpa [Nat.toDigits_ne_nil] using hdigits), decimalValue_toDigits,
      numberedCharacter?_toNat h]

end Style

/-- What is read of a reference is resolved at its end. -/
theorem resolveFrom_pending {body : List Char} (h : ∀ c ∈ body, c ≠ '&' ∧ c ≠ ';')
    (read rest : List Char) :
    resolveFrom (some read) (body ++ ';' :: rest) =
      (referenced? (read.reverse ++ body)).bind fun found =>
        (resolveFrom none rest).map (found :: ·) := by
  induction body generalizing read with
  | nil =>
    rw [List.nil_append, resolveFrom, if_neg (by decide), if_pos rfl, List.append_nil]
    cases referenced? read.reverse <;> rfl
  | cons c body ih =>
    obtain ⟨⟨hamp, hsemi⟩, hbody⟩ := List.forall_mem_cons.1 h
    rw [List.cons_append, resolveFrom, if_neg hamp, if_neg hsemi, ih hbody, List.reverse_cons,
      List.append_assoc, List.singleton_append]

namespace Style

variable (style : Style)

/-- A written character resolves to the character. -/
theorem resolveFrom_written {c : Char} (h : c ≠ '\x00') (rest : List Char) :
    resolveFrom none (style.written c ++ rest) = (resolveFrom none rest).map (c :: ·) := by
  rw [written]
  split_ifs with hplain
  · rw [List.singleton_append, resolveFrom, if_neg (ne_of_class hplain rfl)]
  · have hbody : ∀ d ∈ '#' :: style.number c, d ≠ '&' ∧ d ≠ ';' := by
      refine List.forall_mem_cons.2 ⟨by decide, fun d hd => ?_⟩
      have hd := style.isAlphanum_of_mem_number hd
      exact ⟨ne_of_class hd rfl, ne_of_class hd rfl⟩
    have hshape : '&' :: '#' :: (style.number c ++ [';']) ++ rest =
        '&' :: ('#' :: style.number c ++ ';' :: rest) := by simp
    rw [hshape, resolveFrom, if_pos rfl, resolveFrom_pending hbody, List.reverse_nil,
      List.nil_append, style.referenced?_number h, Option.bind_some]

/-- **A written text resolves to the text.** -/
theorem resolve?_escaped {s : String} (h : '\x00' ∉ s.toList) :
    resolve? (style.escaped s) = some s.toList := by
  rw [resolve?, escaped]
  generalize s.toList = cs at h
  induction cs with
  | nil => rfl
  | cons c rest ih =>
    obtain ⟨hc, hrest⟩ := not_or.1 (List.mem_cons.not.1 h)
    rw [List.flatMap_cons, style.resolveFrom_written (Ne.symm hc), ih hrest, Option.map_some]

theorem isTextMark_of_mem_written {c d : Char} (h : d ∈ style.written c) :
    isTextMark d = true := by
  have hmark : ∀ {e : Char}, e.isAlphanum = true → isTextMark e = true := by
    intro e he
    simp [isTextMark, he]
  rw [written] at h
  split_ifs at h with hplain
  · exact List.mem_singleton.1 h ▸ hmark hplain
  · simp only [List.mem_cons, List.mem_append, List.not_mem_nil, or_false] at h
    rcases h with rfl | rfl | h | rfl
    · rfl
    · rfl
    · exact hmark (style.isAlphanum_of_mem_number h)
    · rfl

theorem isTextMark_of_mem_escaped {s : String} {d : Char} (h : d ∈ style.escaped s) :
    isTextMark d = true := by
  obtain ⟨c, _, hd⟩ := List.mem_flatMap.1 h
  exact style.isTextMark_of_mem_written hd

theorem escaped_ne_nil {s : String} (h : s ≠ "") : style.escaped s ≠ [] := by
  intro hnil
  have hempty : ∀ c ∈ s.toList, style.written c = [] := List.flatMap_eq_nil_iff.1 hnil
  cases hs : s.toList with
  | nil => exact h (String.toList_eq_nil_iff.1 hs)
  | cons c rest =>
    have hc := hempty c (hs ▸ List.mem_cons_self)
    rw [written] at hc
    split_ifs at hc

end Style
end Xml
end IndexedXml
