/-
# The trees that loading gives

A tree is *normal* when it holds no empty text, no two texts in a row and no two attributes of
one element with the same name (`Tree.IsNormal`).  The rules of putting elements together keep
trees normal, every token keeps what is loaded normal, and so whatever document is loaded its
tree is (`Xml.isNormal_of_parse`).
-/

import IndexedXml.Proofs.Results
import IndexedXml.Xml.Document
import Mathlib.Data.List.Chain

namespace IndexedXml

/-- No two of the attributes have the same name. -/
def AreDistinct (attributes : List Attribute) : Prop :=
  attributes.Pairwise fun a b => a.name.same b.name = false

namespace Tree

/-- Whether a piece of content is a text. -/
def isText : Tree → Bool
  | .text _ => true
  | .element _ _ _ => false

/-- Two pieces of content are not both texts. -/
def NotBothTexts (a b : Tree) : Prop := ¬ (a.isText = true ∧ b.isText = true)

mutual

/-- **The tree is normal:** no text in it is empty, no two texts are next to each other, and no
two attributes of an element have the same name. -/
def IsNormal : Tree → Prop
  | .text value => value ≠ ""
  | .element _ attributes content =>
    AreDistinct attributes ∧ content.IsChain NotBothTexts ∧ AllNormal content

/-- Every piece of content is normal. -/
def AllNormal : List Tree → Prop
  | [] => True
  | piece :: rest => IsNormal piece ∧ AllNormal rest

end

theorem allNormal_iff {content : List Tree} :
    AllNormal content ↔ ∀ piece ∈ content, piece.IsNormal := by
  induction content with
  | nil => simp [AllNormal]
  | cons piece rest ih => simp [AllNormal, ih]

theorem notBothTexts_comm {a b : Tree} : NotBothTexts a b ↔ NotBothTexts b a := by
  rw [NotBothTexts, NotBothTexts, and_comm]

theorem notBothTexts_element_left (name : QName) (attributes : List Attribute)
    (content : List Tree) (b : Tree) : NotBothTexts (.element name attributes content) b :=
  fun h => absurd h.1 Bool.false_ne_true

/-- Content, in either direction, that keeps the rules. -/
structure IsTidy (content : List Tree) : Prop where
  chain : content.IsChain NotBothTexts
  normal : AllNormal content

theorem isTidy_nil : IsTidy [] := ⟨.nil, trivial⟩

theorem IsTidy.tail {piece : Tree} {rest : List Tree} (h : IsTidy (piece :: rest)) :
    IsTidy rest :=
  ⟨h.chain.tail, h.normal.2⟩

theorem IsTidy.reverse {content : List Tree} (h : IsTidy content) : IsTidy content.reverse where
  chain := by
    rw [List.isChain_reverse]
    exact h.chain.imp fun _ _ hab => notBothTexts_comm.1 hab
  normal := by
    rw [allNormal_iff]
    exact fun piece hpiece => allNormal_iff.1 h.normal piece (List.mem_reverse.1 hpiece)

/-- A normal piece can go before tidy content when it is no text before a text. -/
theorem IsTidy.cons {piece : Tree} {content : List Tree} (h : IsTidy content)
    (hpiece : piece.IsNormal) (hhead : ∀ next ∈ content.head?, NotBothTexts piece next) :
    IsTidy (piece :: content) :=
  ⟨List.isChain_cons.2 ⟨hhead, h.chain⟩, hpiece, h.normal⟩

end Tree

namespace Element

open IndexedXml.Tree

/-- Pushing puts a piece before the others, joins a text to a text, or drops an empty text. -/
theorem pushOnto_cases (piece : Tree) (reversed : List Tree) :
    (pushOnto piece reversed = piece :: reversed ∧ piece ≠ .text "" ∧
      ∀ next ∈ reversed.head?, NotBothTexts piece next) ∨
    (∃ last s rest, reversed = .text last :: rest ∧ piece = .text s ∧
      pushOnto piece reversed = .text (last ++ s) :: rest) ∨
    (piece = .text "" ∧ pushOnto piece reversed = reversed) := by
  cases piece with
  | element name attributes content =>
    refine .inl ⟨?_, nofun, fun next _ => notBothTexts_element_left _ _ _ next⟩
    rcases reversed with _ | ⟨_ | _, _⟩ <;> rfl
  | text s =>
    rcases reversed with _ | ⟨⟨name, attributes, content⟩ | last, rest⟩
    · by_cases hs : s = ""
      · exact .inr (.inr ⟨by rw [hs], by rw [hs]; rfl⟩)
      · exact .inl ⟨by simp [pushOnto, hs], by simpa using hs, nofun⟩
    · by_cases hs : s = ""
      · exact .inr (.inr ⟨by rw [hs], by rw [hs]; rfl⟩)
      · refine .inl ⟨by simp [pushOnto, hs], by simpa using hs, ?_⟩
        rintro next ⟨rfl⟩
        exact notBothTexts_comm.1 (notBothTexts_element_left _ _ _ _)
    · exact .inr (.inl ⟨last, s, rest, rfl, rfl, rfl⟩)

/-- **Pushing keeps content tidy,** whatever the text and whatever normal element is pushed. -/
theorem isTidy_pushOnto {piece : Tree} {reversed : List Tree} (h : IsTidy reversed)
    (hpiece : piece.isText = false → piece.IsNormal) : IsTidy (pushOnto piece reversed) := by
  rcases pushOnto_cases piece reversed with
    ⟨heq, hne, hhead⟩ | ⟨last, s, rest, rfl, rfl, heq⟩ | ⟨-, heq⟩
  · rw [heq]
    refine h.cons ?_ hhead
    cases piece with
    | element name attributes content => exact hpiece rfl
    | text s => exact fun hs => hne (by rw [hs])
  · rw [heq]
    refine h.tail.cons (fun hempty => h.normal.1 ?_) fun next hnext => ?_
    · exact (String.append_eq_empty_iff.1 hempty).1
    · exact (List.isChain_cons.1 h.chain).1 next hnext
  · rw [heq]
    exact h

/-- **Putting an attribute keeps names distinct.** -/
theorem areDistinct_putAttribute {attributes : List Attribute} (h : AreDistinct attributes)
    (a : Attribute) : AreDistinct (putAttribute attributes a) := by
  refine List.pairwise_append.2 ⟨h.sublist List.filter_sublist, List.pairwise_singleton _ _, ?_⟩
  intro old hold new hnew
  rw [List.mem_singleton.1 hnew]
  simpa using (List.mem_filter.1 hold).2

end Element

namespace Xml

open IndexedXml.Tree

/-! ### Tags -/

theorem areDistinct_of_putAll? {raw : List (List Char × List Char)} {before after : List Attribute}
    (h : putAll? raw before = some after) (hbefore : AreDistinct before) : AreDistinct after := by
  induction raw generalizing before with
  | nil =>
    obtain rfl : before = after := Option.some.inj h
    exact hbefore
  | cons a rest ih =>
    rw [putAll?] at h
    split_ifs at h
    · exact ih h hbefore
    · cases hvalue : resolve? a.2 with
      | none =>
        rw [hvalue] at h
        cases h
      | some value =>
        rw [hvalue] at h
        exact ih h (Element.areDistinct_putAttribute hbefore _)

theorem areDistinct_of_attributes? {cs : List Char} {attributes : List Attribute}
    (h : attributes? cs = some attributes) : AreDistinct attributes := by
  rw [attributes?, Option.bind_eq_bind] at h
  obtain ⟨raw, _, h⟩ := Option.bind_eq_some_iff.1 h
  split_ifs at h
  exact areDistinct_of_putAll? h .nil

/-- What is so far known of an element is as the rules have it. -/
structure OpenElement.IsTidy (e : OpenElement) : Prop where
  attributes : AreDistinct e.attributes
  content : Tree.IsTidy e.reversed

namespace OpenElement

theorem isTidy_of_ofTag? {content : List Char} {e : OpenElement} (h : ofTag? content = some e) :
    e.IsTidy := by
  obtain ⟨attributes, hattributes, rfl⟩ := Option.map_eq_some_iff.1 h
  exact ⟨areDistinct_of_attributes? hattributes, isTidy_nil⟩

theorem IsTidy.push {e : OpenElement} (h : e.IsTidy) {piece : Tree}
    (hpiece : piece.isText = false → piece.IsNormal) : (e.push piece).IsTidy :=
  ⟨h.attributes, Element.isTidy_pushOnto h.content hpiece⟩

theorem IsTidy.isNormal {e : OpenElement} (h : e.IsTidy) : e.toElement.toTree.IsNormal :=
  ⟨h.attributes, h.content.reverse.chain, h.content.reverse.normal⟩

end OpenElement

/-! ### Loading -/

/-- The elements that are open are as the rules have them, and the root is normal. -/
structure Loading.IsTidy (l : Loading) : Prop where
  opened : ∀ e ∈ l.opened, e.IsTidy
  root : ∀ root, l.root = some root → root.toTree.IsNormal

namespace Loading

theorem isTidy_start : start.IsTidy := ⟨nofun, nofun⟩

theorem IsTidy.addText {l : Loading} (h : l.IsTidy) (s : List Char) : (l.addText s).IsTidy := by
  rcases l with ⟨_ | ⟨e, rest⟩, root⟩
  · exact h
  · refine ⟨List.forall_mem_cons.2 ⟨?_, (List.forall_mem_cons.1 h.opened).2⟩, h.root⟩
    exact (h.opened e List.mem_cons_self).push nofun

theorem IsTidy.finish {l l' : Loading} (h : l.IsTidy) {e : Element} (he : e.toTree.IsNormal)
    (hl' : l.finish e = .ok l') : l'.IsTidy := by
  rcases l with ⟨_ | ⟨outer, rest⟩, _ | root⟩
  · obtain rfl := Except.ok.inj hl'
    refine ⟨nofun, ?_⟩
    rintro root ⟨rfl⟩
    exact he
  · cases hl'
  all_goals
    obtain rfl := Except.ok.inj hl'
    refine ⟨List.forall_mem_cons.2 ⟨?_, (List.forall_mem_cons.1 h.opened).2⟩, h.root⟩
    exact (h.opened outer List.mem_cons_self).push fun _ => he

/-- **Every token keeps what is loaded tidy.** -/
theorem IsTidy.step {l l' : Loading} (h : l.IsTidy) {token : Token}
    (hl' : l.step token = .ok l') : l'.IsTidy := by
  cases token with
  | text raw =>
    rw [Loading.step] at hl'
    cases hraw : resolve? raw with
    | none =>
      rw [hraw] at hl'
      cases hl'
    | some s =>
      rw [hraw] at hl'
      obtain rfl := Except.ok.inj hl'
      exact h.addText s
  | data raw =>
    obtain rfl := Except.ok.inj hl'
    exact h.addText raw
  | openTag content =>
    rw [Loading.step] at hl'
    cases htag : OpenElement.ofTag? content with
    | none =>
      rw [htag] at hl'
      cases hl'
    | some e =>
      rw [htag] at hl'
      obtain rfl := Except.ok.inj hl'
      exact ⟨List.forall_mem_cons.2 ⟨OpenElement.isTidy_of_ofTag? htag, h.opened⟩, h.root⟩
  | emptyTag content =>
    rw [Loading.step] at hl'
    cases htag : OpenElement.ofTag? content with
    | none =>
      rw [htag] at hl'
      cases hl'
    | some e =>
      rw [htag] at hl'
      exact h.finish (OpenElement.isTidy_of_ofTag? htag).isNormal hl'
  | closeTag content =>
    rcases l with ⟨_ | ⟨e, rest⟩, root⟩
    · cases hl'
    · simp only [Loading.step] at hl'
      split_ifs at hl'
      obtain ⟨he, hrest⟩ := List.forall_mem_cons.1 h.opened
      have houter : (Loading.mk rest root).IsTidy := ⟨hrest, h.root⟩
      exact houter.finish he.isNormal hl'
  | ignored =>
    obtain rfl := Except.ok.inj hl'
    exact h
  | malformed => cases hl'

/-- So does a whole document. -/
theorem IsTidy.foldlM {l l' : Loading} (h : l.IsTidy) {tokens : List Token}
    (hl' : tokens.foldlM Loading.step l = .ok l') : l'.IsTidy := by
  induction tokens generalizing l with
  | nil =>
    obtain rfl := Except.ok.inj hl'
    exact h
  | cons token rest ih =>
    rw [List.foldlM_cons] at hl'
    obtain ⟨next, hnext, hl'⟩ := bind_eq_ok.1 hl'
    exact ih (h.step hnext) hl'

theorem IsTidy.result {l : Loading} (h : l.IsTidy) {root : Element}
    (hroot : l.result = .ok root) : root.toTree.IsNormal := by
  rcases l with ⟨_ | ⟨e, rest⟩, _ | found⟩
  · cases hroot
  · obtain rfl : found = root := Except.ok.inj hroot
    exact h.root found rfl
  · cases hroot
  · cases hroot

end Loading

/-- **Whatever is loaded is normal.** -/
theorem isNormal_of_parse {xml : String} {root : Element} (h : parse xml = .ok root) :
    root.toTree.IsNormal := by
  obtain ⟨loaded, hloaded, hroot⟩ := bind_eq_ok.1 h
  exact (Loading.isTidy_start.foldlM hloaded).result hroot

end Xml
end IndexedXml
