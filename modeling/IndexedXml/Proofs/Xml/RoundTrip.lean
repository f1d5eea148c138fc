/-
# Loading what was written

A written tree is cut into the tokens that it was written from, and the tokens put the tree
together again (`Xml.parse_write`).

What is between the brackets of a tag is cut out as a whole, since every quote in it is closed
and no bracket stands outside quotes (`IsSealed`); runs of text end where the next tag begins,
since no two texts are written in a row.
-/

import IndexedXml.Proofs.Xml.Writing

namespace IndexedXml
namespace Xml

open Text (span_eq_of_stop dropWhile_isAsciiBlank_cons dropEndWhile_eq_self ne_of_class
  not_isAsciiBlank_of_class)

/-! ### Runs of characters -/

theorem not_isAsciiBlank_of_isNameMark {c : Char} (h : isNameMark c = true) :
    Text.isAsciiBlank c = false :=
  not_isAsciiBlank_of_class h (by decide)

theorem not_isAsciiBlank_of_isTextMark {c : Char} (h : isTextMark c = true) :
    Text.isAsciiBlank c = false :=
  not_isAsciiBlank_of_class h (by decide)

/-! ### Attributes -/

namespace Style

variable (style : Style)

theorem quote_ne_of_isTextMark {c : Char} (h : isTextMark c = true) : c ≠ style.quote := by
  rcases style.quote_eq with hq | hq <;> rw [hq] <;> exact ne_of_class h rfl

theorem not_isAsciiBlank_quote : Text.isAsciiBlank style.quote = false := by
  rcases style.quote_eq with hq | hq <;> rw [hq] <;> rfl

/-- A written value is read up to its closing quote. -/
theorem attributeValue?_escaped (s : String) (rest : List Char) :
    attributeValue? (style.quote :: (style.escaped s ++ style.quote :: rest)) =
      some (style.escaped s, rest) := by
  have hvalue : ∀ c ∈ style.escaped s, (c != style.quote) = true := fun c hc =>
    bne_iff_ne.2 (style.quote_ne_of_isTextMark (style.isTextMark_of_mem_escaped hc))
  rw [attributeValue?, dropWhile_isAsciiBlank_cons style.not_isAsciiBlank_quote]
  simp only [style.quote_eq, if_true, span_eq_of_stop hvalue style.quote (bne_self_eq_false _),
    Bool.or_eq_true, decide_eq_true_eq]

/-- **Written attributes are read as they were written.** -/
theorem rawAttributes?_write {attributes : List Attribute} (h : ∀ a ∈ attributes, a.IsPlain) :
    ∀ fuel, attributes.length < fuel →
      rawAttributes? fuel (attributes.flatMap style.writeAttribute) =
        some (attributes.map fun a => (a.name.text.toList, style.escaped a.value)) := by
  induction attributes with
  | nil =>
    rintro (_ | fuel) hfuel
    · cases hfuel
    · rfl
  | cons a rest ih =>
    rintro (_ | fuel) hfuel
    · cases hfuel
    obtain ⟨ha, hrest⟩ := List.forall_mem_cons.1 h
    obtain ⟨first, more, hname, -⟩ := ha.name.exists_start
    have hmark : ∀ c ∈ first :: more, isNameMark c = true := fun c hc =>
      ha.name.isNameMark (hname ▸ hc)
    have hrun : ∀ c ∈ more, (c != '=' && !Text.isAsciiBlank c) = true := by
      intro c hc
      have hc := hmark c (List.mem_cons_of_mem _ hc)
      simp [ne_of_class hc (d := '=') rfl, not_isAsciiBlank_of_isNameMark hc]
    have hshape : (a :: rest).flatMap style.writeAttribute =
        ' ' :: first :: (more ++ '=' :: style.quote :: (style.escaped a.value ++ style.quote ::
          rest.flatMap style.writeAttribute)) := by
      simp [writeAttribute, hname]
    have hfirst := not_isAsciiBlank_of_isNameMark (hmark first List.mem_cons_self)
    rw [hshape, rawAttributes?, List.dropWhile_cons_of_pos rfl, dropWhile_isAsciiBlank_cons hfirst]
    simp only [span_eq_of_stop hrun '=' rfl, dropWhile_isAsciiBlank_cons (c := '=') rfl,
      attributeValue?_escaped, ih hrest fuel (Nat.lt_of_succ_lt_succ hfuel), List.map_cons, hname,
      Option.map_some]

theorem length_le_flatMap_writeAttribute (attributes : List Attribute) :
    attributes.length ≤ (attributes.flatMap style.writeAttribute).length := by
  induction attributes with
  | nil => exact le_rfl
  | cons a rest ih =>
    rw [List.flatMap_cons, List.length_append, List.length_cons, writeAttribute, List.length_cons]
    omega

end Style

theorem hasRepeated_eq_false {names : List (List Char)} (h : names.Nodup) :
    hasRepeated names = false := by
  induction names with
  | nil => rfl
  | cons name rest ih =>
    obtain ⟨hname, hrest⟩ := List.nodup_cons.1 h
    rw [hasRepeated, ih hrest, Bool.or_false, List.elem_eq_contains]
    simpa using hname

/-- An attribute that can be written declares no namespace. -/
theorem not_isNamespaceDeclaration {a : Attribute} (h : a.IsPlain) :
    isNamespaceDeclaration a.name.text.toList = false := by
  rw [isNamespaceDeclaration, Bool.or_eq_false_iff]
  constructor
  · refine decide_eq_false fun heq => h.notDeclaration ?_
    rw [← h.name.ofText_text, String.toList_inj.1 (heq.trans (b := "xmlns".toList) rfl)]
    rfl
  · refine Bool.eq_false_iff.2 fun hstart => h.notPrefix ?_
    obtain ⟨rest, hrest⟩ := List.isPrefixOf_iff_prefix.1 hstart
    have htext : a.name.text.toList = "xmlns".toList ++ ':' :: rest := hrest.symm
    rw [← h.name.ofText_text, QName.ofText, Text.splitOnce, htext,
      Text.splitOnceList_append (by decide)]
    rfl

/-- Attributes with distinct names are put one after the other. -/
theorem putAll?_write {style : Style} {attributes : List Attribute}
    (h : ∀ a ∈ attributes, a.IsPlain) :
    ∀ {before : List Attribute}, AreDistinct (before ++ attributes) →
      putAll? (attributes.map fun a => (a.name.text.toList, style.escaped a.value)) before =
        some (before ++ attributes) := by
  induction attributes with
  | nil =>
    intro before _
    rw [List.map_nil, putAll?, List.append_nil]
  | cons a rest ih =>
    intro before hdistinct
    obtain ⟨ha, hrest⟩ := List.forall_mem_cons.1 h
    have hkept : before.filter (fun old => !old.name.same a.name) = before := by
      refine List.filter_eq_self.2 fun old hold => ?_
      have := (List.pairwise_append.1 hdistinct).2.2 old hold a List.mem_cons_self
      rw [this]
      rfl
    rw [← List.singleton_append, ← List.append_assoc] at hdistinct ⊢
    rw [List.map_append, List.map_singleton, List.singleton_append, putAll?,
      if_neg (by simp [not_isNamespaceDeclaration ha]), style.resolve?_escaped ha.value]
    simp only [String.ofList_toList, ha.name.ofText_text, Element.putAttribute, hkept]
    exact ih hrest hdistinct

/-- Distinct names in no namespace are written differently. -/
theorem nodup_names {attributes : List Attribute} (h : ∀ a ∈ attributes, a.IsPlain)
    (hdistinct : AreDistinct attributes) :
    (attributes.map fun a => a.name.text.toList).Nodup := by
  rw [List.Nodup, List.pairwise_map]
  refine List.Pairwise.imp_of_mem (fun {a b} ha hb hab heq => ?_) hdistinct
  have hname : a.name = b.name := by
    rw [← (h a ha).name.ofText_text, ← (h b hb).name.ofText_text, String.toList_inj.1 heq]
  rw [hname, QName.same, beq_self_eq_true] at hab
  cases hab

namespace Style

variable (style : Style)

/-- **Written attributes are read back.** -/
theorem attributes?_write {attributes : List Attribute} (h : ∀ a ∈ attributes, a.IsPlain)
    (hdistinct : AreDistinct attributes) :
    attributes? (attributes.flatMap style.writeAttribute) = some attributes := by
  have hfuel := style.length_le_flatMap_writeAttribute attributes
  rw [attributes?, style.rawAttributes?_write h _ (by omega), Option.bind_eq_bind, Option.bind_some,
    List.map_map, if_neg]
  · exact putAll?_write h (show AreDistinct ([] ++ attributes) from hdistinct)
  · exact Bool.eq_false_iff.1 (hasRepeated_eq_false (nodup_names h hdistinct))

/-- **A written tag is read back:** its name up to the first blank, and the attributes. -/
theorem ofTag?_writeTag {name : QName} {attributes : List Attribute} (hname : name.IsPlain)
    (h : ∀ a ∈ attributes, a.IsPlain) (hdistinct : AreDistinct attributes) :
    OpenElement.ofTag? (style.writeTag name attributes) =
      some ⟨name.text.toList, attributes, []⟩ := by
  have hrun : ∀ c ∈ name.text.toList, (!Text.isAsciiBlank c) = true := fun c hc => by
    rw [not_isAsciiBlank_of_isNameMark (hname.isNameMark hc)]
    rfl
  have hspan : (style.writeTag name attributes).span (!Text.isAsciiBlank ·) =
      (name.text.toList, attributes.flatMap style.writeAttribute) := by
    rw [writeTag]
    cases attributes with
    | nil =>
      rw [List.flatMap_nil, List.append_nil, List.span_eq_takeWhile_dropWhile,
        List.takeWhile_eq_self_iff.2 hrun, List.dropWhile_eq_nil_iff.2 hrun]
    | cons a rest => exact span_eq_of_stop hrun ' ' rfl _
  rw [OpenElement.ofTag?, hspan]
  simp only [style.attributes?_write h hdistinct, Option.map_some]

end Style

/-! ### Tags -/

/-- **The characters can stand in a tag:** its end is looked for behind them. -/
def IsSealed (part : List Char) : Prop :=
  ∀ rest, cutTag none (part ++ rest) =
    (cutTag none rest).map fun cut => (part ++ cut.1, cut.2)

theorem isSealed_nil : IsSealed [] := fun rest => by
  rw [List.nil_append]
  cases cutTag none rest <;> rfl

theorem IsSealed.append {a b : List Char} (ha : IsSealed a) (hb : IsSealed b) :
    IsSealed (a ++ b) := fun rest => by
  rw [List.append_assoc, ha, hb, Option.map_map]
  refine congrArg (Option.map · _) (funext fun cut => ?_)
  rw [Function.comp_apply, List.append_assoc]

/-- A character that is no quote and does not end a tag can stand in one. -/
theorem isSealed_singleton {c : Char} (hend : c ≠ '>') (hdouble : c ≠ '"') (hsingle : c ≠ '\'') :
    IsSealed [c] := fun rest => by
  rw [List.singleton_append, cutTag, if_neg hend, if_neg (by simp [hdouble, hsingle])]
  rfl

theorem isSealed_of_forall {cs : List Char} (h : ∀ c ∈ cs, IsSealed [c]) : IsSealed cs := by
  induction cs with
  | nil => exact isSealed_nil
  | cons c rest ih =>
    obtain ⟨hc, hrest⟩ := List.forall_mem_cons.1 h
    exact hc.append (ih hrest)

theorem isSealed_of_isNameMark {cs : List Char} (h : ∀ c ∈ cs, isNameMark c = true) :
    IsSealed cs :=
  isSealed_of_forall fun c hc =>
    isSealed_singleton (ne_of_class (h c hc) rfl) (ne_of_class (h c hc) rfl)
      (ne_of_class (h c hc) rfl)

/-- Within quotes everything but the quote can stand. -/
theorem cutTag_quoted {q : Char} {cs : List Char} (h : q ∉ cs) (rest : List Char) :
    cutTag (some q) (cs ++ q :: rest) =
      (cutTag none rest).map fun cut => (cs ++ q :: cut.1, cut.2) := by
  induction cs with
  | nil =>
    rw [List.nil_append, cutTag, if_pos rfl]
    rfl
  | cons c more ih =>
    obtain ⟨hc, hmore⟩ := not_or.1 (List.mem_cons.not.1 h)
    rw [List.cons_append, cutTag, if_neg (Ne.symm hc), ih hmore, Option.map_map]
    rfl

namespace Style

variable (style : Style)

theorem isSealed_writeAttribute {a : Attribute} (h : a.IsPlain) :
    IsSealed (style.writeAttribute a) := by
  have hvalue : style.quote ∉ style.escaped a.value := fun hmem =>
    style.quote_ne_of_isTextMark (style.isTextMark_of_mem_escaped hmem) rfl
  have hquoted : IsSealed (style.quote :: (style.escaped a.value ++ [style.quote])) := by
    intro rest
    have hquote : style.quote ≠ '>' := by
      rcases style.quote_eq with hq | hq <;> rw [hq] <;> decide
    rw [List.cons_append, List.append_assoc, List.singleton_append, cutTag, if_neg hquote,
      if_pos (by simpa using style.quote_eq), cutTag_quoted hvalue, Option.map_map]
    refine congrArg (Option.map · _) (funext fun cut => ?_)
    simp
  have hname := isSealed_of_isNameMark fun c hc => h.name.isNameMark hc
  have hblank : IsSealed [' '] := isSealed_singleton (by decide) (by decide) (by decide)
  have hequals : IsSealed ['='] := isSealed_singleton (by decide) (by decide) (by decide)
  exact hblank.append (hname.append (hequals.append hquoted))

/-- **A written tag can stand between brackets.** -/
theorem isSealed_writeTag {name : QName} {attributes : List Attribute} (hname : name.IsPlain)
    (h : ∀ a ∈ attributes, a.IsPlain) : IsSealed (style.writeTag name attributes) := by
  refine (isSealed_of_isNameMark fun c hc => hname.isNameMark hc).append ?_
  induction attributes with
  | nil => exact isSealed_nil
  | cons a rest ih =>
    obtain ⟨ha, hrest⟩ := List.forall_mem_cons.1 h
    exact (style.isSealed_writeAttribute ha).append (ih hrest)

/-- A written tag begins as a name does. -/
theorem exists_start_writeTag {name : QName} (hname : name.IsPlain)
    (attributes : List Attribute) :
    ∃ first rest, style.writeTag name attributes = first :: rest ∧ isNameStart first = true := by
  obtain ⟨first, rest, hfirst, hstart⟩ := hname.exists_start
  exact ⟨first, _, by rw [writeTag, hfirst]; rfl, hstart⟩

/-- A written tag does not end with a slash. -/
theorem getLast?_writeTag_ne {name : QName} (hname : name.IsPlain)
    (attributes : List Attribute) : (style.writeTag name attributes).getLast? ≠ some '/' := by
  intro hlast
  rw [writeTag] at hlast
  rcases List.eq_nil_or_concat attributes with rfl | ⟨before, a, rfl⟩
  · rw [List.flatMap_nil, List.append_nil] at hlast
    exact absurd (hname.isNameMark (List.mem_of_getLast? hlast)) (by decide)
  · have hquote : style.quote ≠ '/' := by
      rcases style.quote_eq with hq | hq <;> rw [hq] <;> decide
    refine hquote (Option.some.inj (Eq.trans ?_ hlast))
    simp [writeAttribute, List.getLast?_append, List.getLast?_cons]

end Style

/-- A start tag is cut at its bracket. -/
theorem markup?_tag {tag : List Char} (hsealed : IsSealed tag) {first : Char} {more : List Char}
    (hfirst : tag = first :: more) (hstart : isNameStart first = true) (rest : List Char) :
    markup? (tag ++ '>' :: rest) = some (tagOf tag, rest) := by
  have hcut : cutTag none (tag ++ '>' :: rest) = some (tag, rest) := by
    rw [hsealed, cutTag, if_pos rfl, Option.map_some, List.append_nil]
  have hmarkup : markup? (tag ++ '>' :: rest) =
      (cutTag none (tag ++ '>' :: rest)).map fun p => (tagOf p.1, p.2) := by
    rw [hfirst, List.cons_append]
    have hbang : first ≠ '!' := ne_of_class hstart rfl
    have hquestion : first ≠ '?' := ne_of_class hstart rfl
    have hslash : first ≠ '/' := ne_of_class hstart rfl
    simp [markup?, hbang, hquestion, hslash]
  rw [hmarkup, hcut]
  rfl

/-- So is an end tag. -/
theorem markup?_closeTag {name : List Char} (hsealed : IsSealed name) (rest : List Char) :
    markup? ('/' :: (name ++ '>' :: rest)) = some (.closeTag name, rest) := by
  rw [markup?, hsealed, cutTag, if_pos rfl, Option.map_some, List.append_nil]
  rfl

/-! ### Tokens -/

namespace Style

variable (style : Style)

mutual

/-- The tokens that a tree is written from. -/
def tokensOf : Tree → List Token
  | .text value => [.text (style.escaped value)]
  | .element name attributes content =>
    if style.short && content.isEmpty then [.emptyTag (style.writeTag name attributes)]
    else .openTag (style.writeTag name attributes) ::
      (tokensOfAll content ++ [.closeTag name.text.toList])

/-- The tokens that content is written from. -/
def tokensOfAll : List Tree → List Token
  | [] => []
  | piece :: rest => tokensOf piece ++ tokensOfAll rest

end

end Style

theorem tokensFrom_markup {cs rest : List Char} {token : Token}
    (h : markup? cs = some (token, rest)) (fuel : Nat) :
    tokensFrom (fuel + 1) ('<' :: cs) = token :: tokensFrom fuel rest := by
  rw [tokensFrom, dropWhile_isAsciiBlank_cons rfl]
  simp only [h]

/-- A run of text ends where the next tag begins. -/
theorem tokensFrom_text {run : List Char} (hne : run ≠ [])
    (hrun : ∀ c ∈ run, isTextMark c = true) (fuel : Nat) (rest : List Char) :
    tokensFrom (fuel + 1) (run ++ '<' :: rest) = .text run :: tokensFrom fuel ('<' :: rest) := by
  obtain ⟨first, more, rfl⟩ := List.exists_cons_of_ne_nil hne
  have hfirst := hrun first List.mem_cons_self
  have hmarked : ∀ c ∈ first :: more, (c != '<') = true := fun c hc =>
    bne_iff_ne.2 (ne_of_class (hrun c hc) rfl)
  have hspan := span_eq_of_stop hmarked '<' rfl rest
  have hdrop : Text.dropEndWhile Text.isAsciiBlank (first :: more) = first :: more :=
    dropEndWhile_eq_self fun c hc => not_isAsciiBlank_of_isTextMark (hrun c hc)
  have hlt : first ≠ '<' := ne_of_class hfirst rfl
  rw [List.cons_append] at hspan ⊢
  rw [tokensFrom, dropWhile_isAsciiBlank_cons (not_isAsciiBlank_of_isTextMark hfirst)]
  split
  · next hnil => cases hnil
  · next heq => exact absurd (List.cons.inj heq).1 hlt
  · simp only [hspan, hdrop]

namespace Style

open IndexedXml.Tree

variable (style : Style)

/-- What is written for anything but a text begins with a bracket. -/
theorem exists_write_eq {t : Tree} (h : t.isText = false) :
    ∃ tail, style.write t = '<' :: tail := by
  cases t with
  | text value => cases h
  | element name attributes content =>
    rw [write]
    split_ifs
    · exact ⟨_, rfl⟩
    · exact ⟨_, rfl⟩

/-- **A start tag is a token.** -/
theorem tokensFrom_openTag {name : QName} {attributes : List Attribute} (hname : name.IsPlain)
    (h : ∀ a ∈ attributes, a.IsPlain) (fuel : Nat) (rest : List Char) :
    tokensFrom (fuel + 1) ('<' :: (style.writeTag name attributes ++ '>' :: rest)) =
      .openTag (style.writeTag name attributes) :: tokensFrom fuel rest := by
  obtain ⟨first, more, hfirst, hstart⟩ := style.exists_start_writeTag hname attributes
  rw [tokensFrom_markup (markup?_tag (style.isSealed_writeTag hname h) hfirst hstart rest), tagOf]
  split
  · next hlast => exact absurd hlast (style.getLast?_writeTag_ne hname attributes)
  · rfl

/-- **So is the tag of an empty element.** -/
theorem tokensFrom_emptyTag {name : QName} {attributes : List Attribute} (hname : name.IsPlain)
    (h : ∀ a ∈ attributes, a.IsPlain) (fuel : Nat) (rest : List Char) :
    tokensFrom (fuel + 1) ('<' :: (style.writeTag name attributes ++ '/' :: '>' :: rest)) =
      .emptyTag (style.writeTag name attributes) :: tokensFrom fuel rest := by
  obtain ⟨first, more, hfirst, hstart⟩ := style.exists_start_writeTag hname attributes
  have hslash : IsSealed ['/'] := isSealed_singleton (by decide) (by decide) (by decide)
  have hcut := markup?_tag ((style.isSealed_writeTag hname h).append hslash)
    (show _ = first :: (more ++ ['/']) by rw [hfirst]; rfl) hstart rest
  rw [List.append_assoc, List.singleton_append] at hcut
  rw [tokensFrom_markup hcut, tagOf, List.getLast?_concat, List.dropLast_concat]
  rfl

mutual

/-- **A written tree is cut into its tokens.**  A text has to be written before a bracket. -/
theorem tokensFrom_write :
    ∀ {t : Tree}, t.IsNormal → t.IsPlain → ∀ {rest : List Char},
      (t.isText = true → ∃ tail, rest = '<' :: tail) → ∀ fuel,
        tokensFrom (fuel + (style.tokensOf t).length) (style.write t ++ rest) =
          style.tokensOf t ++ tokensFrom fuel rest
  | .text value, hnormal, _, rest, hrest, fuel => by
    obtain ⟨tail, rfl⟩ := hrest rfl
    rw [write, tokensOf, List.length_singleton, List.singleton_append]
    exact tokensFrom_text (style.escaped_ne_nil hnormal)
      (fun c hc => style.isTextMark_of_mem_escaped hc) fuel tail
  | .element name attributes content, hnormal, hplain, rest, _, fuel => by
    obtain ⟨_, hchain, hcontent⟩ := hnormal
    obtain ⟨hname, hattributes, hcontentPlain⟩ := hplain
    rw [write, tokensOf]
    split_ifs
    · rw [List.length_singleton, List.singleton_append, List.cons_append, List.append_assoc]
      exact style.tokensFrom_emptyTag hname hattributes fuel rest
    · have hshape : '<' :: (style.writeTag name attributes ++ '>' :: (style.writeAll content ++
            '<' :: '/' :: (name.text.toList ++ ['>']))) ++ rest =
          '<' :: (style.writeTag name attributes ++ '>' :: (style.writeAll content ++
            '<' :: '/' :: (name.text.toList ++ '>' :: rest))) := by simp
      have hlength : fuel + (Token.openTag (style.writeTag name attributes) ::
            (style.tokensOfAll content ++ [Token.closeTag name.text.toList])).length =
          fuel + 1 + (style.tokensOfAll content).length + 1 := by
        rw [List.length_cons, List.length_append, List.length_singleton]
        omega
      have hclose := markup?_closeTag
        (isSealed_of_isNameMark fun c hc => hname.isNameMark hc) rest
      rw [hshape, hlength, style.tokensFrom_openTag hname hattributes,
        tokensFrom_writeAll hchain hcontent hcontentPlain, tokensFrom_markup hclose,
        List.cons_append, List.append_assoc, List.singleton_append]

/-- Written content is cut into its tokens, before a bracket. -/
theorem tokensFrom_writeAll :
    ∀ {content : List Tree}, content.IsChain NotBothTexts → AllNormal content →
      AllPlain content → ∀ {tail : List Char} (fuel : Nat),
        tokensFrom (fuel + (style.tokensOfAll content).length)
            (style.writeAll content ++ '<' :: tail) =
          style.tokensOfAll content ++ tokensFrom fuel ('<' :: tail)
  | [], _, _, _, tail, fuel => rfl
  | piece :: rest, hchain, hnormal, hplain, tail, fuel => by
    have hnext : piece.isText = true →
        ∃ more, style.writeAll rest ++ '<' :: tail = '<' :: more := by
      intro htext
      cases rest with
      | nil => exact ⟨tail, rfl⟩
      | cons next later =>
        have happart : NotBothTexts piece next :=
          (List.isChain_cons.1 hchain).1 next rfl
        obtain ⟨more, hmore⟩ := style.exists_write_eq
          (Bool.eq_false_iff.2 fun hother => happart ⟨htext, hother⟩)
        exact ⟨_, by rw [writeAll, hmore]; rfl⟩
    rw [writeAll, tokensOfAll, List.length_append, List.append_assoc,
      Nat.add_comm (style.tokensOf piece).length, ← Nat.add_assoc,
      tokensFrom_write hnormal.1 hplain.1 hnext,
      tokensFrom_writeAll (List.isChain_cons.1 hchain).2 hnormal.2 hplain.2, List.append_assoc]

end

mutual

/-- Every token is written with a character at least. -/
theorem length_tokensOf_le :
    ∀ {t : Tree}, t.IsNormal → (style.tokensOf t).length ≤ (style.write t).length
  | .text value, hnormal => by
    rw [tokensOf, write]
    exact List.length_pos_iff.2 (style.escaped_ne_nil hnormal)
  | .element name attributes content, hnormal => by
    have hcontent := length_tokensOfAll_le hnormal.2.2
    rw [tokensOf, write]
    split_ifs
    · simp
    · simp only [List.length_cons, List.length_append, List.length_nil]
      omega

theorem length_tokensOfAll_le :
    ∀ {content : List Tree}, AllNormal content →
      (style.tokensOfAll content).length ≤ (style.writeAll content).length
  | [], _ => le_rfl
  | piece :: rest, hnormal => by
    have hpiece := length_tokensOf_le hnormal.1
    have hrest := length_tokensOfAll_le hnormal.2
    rw [tokensOfAll, writeAll, List.length_append, List.length_append]
    omega

end

/-- **The tokens of a written document are those that it was written from.** -/
theorem tokens_write {root : Element} (hnormal : root.toTree.IsNormal)
    (hplain : root.toTree.IsPlain) :
    tokens (.ofList (style.write root.toTree)) = style.tokensOf root.toTree := by
  have hlength := style.length_tokensOf_le hnormal
  have hcut := style.tokensFrom_write hnormal hplain
    (show root.toTree.isText = true → ∃ tail, [] = '<' :: tail from nofun)
    ((style.write root.toTree).length + 1 - (style.tokensOf root.toTree).length)
  rw [Nat.sub_add_cancel (by omega), List.append_nil] at hcut
  obtain ⟨tail, htail⟩ := style.exists_write_eq (show root.toTree.isText = false from rfl)
  have hmark : dropMark (style.write root.toTree) = style.write root.toTree := by
    rw [htail]
    rfl
  rw [tokens, String.toList_ofList, hmark]
  refine hcut.trans ?_
  rw [show ∀ fuel, tokensFrom fuel [] = [] by rintro (_ | fuel) <;> rfl, List.append_nil]

end Style

/-! ### Loading -/

namespace Loading

/-- What a tree does to what is loaded, when its tokens are gone through. -/
def place (l : Loading) : Tree → Except Malformation Loading
  | .text value => .ok (l.addText value.toList)
  | .element name attributes content => l.finish ⟨name, attributes, content⟩

/-- Within an element the tree is pushed onto its content. -/
theorem place_cons (e : OpenElement) (rest : List OpenElement) (root : Option Element)
    (t : Tree) : place ⟨e :: rest, root⟩ t = .ok ⟨e.push t :: rest, root⟩ := by
  cases t with
  | text value =>
    rw [place, addText]
    simp only [String.ofList_toList]
  | element name attributes content => rfl

end Loading

/-- A normal piece that is no text next to a text is pushed as it is. -/
theorem OpenElement.push_eq {e : OpenElement} {piece : Tree} (hpiece : piece.IsNormal)
    (hhead : ∀ next ∈ e.reversed.head?, Tree.NotBothTexts piece next) :
    e.push piece = { e with reversed := piece :: e.reversed } := by
  have hcons : Element.pushOnto piece e.reversed = piece :: e.reversed := by
    rcases Element.pushOnto_cases piece e.reversed with
      ⟨heq, -⟩ | ⟨last, s, rest, hrest, rfl, -⟩ | ⟨rfl, -⟩
    · exact heq
    · exact absurd ⟨rfl, rfl⟩ (hhead (.text last) (by rw [hrest]; rfl))
    · exact absurd rfl hpiece
  rw [push, hcons]

theorem endName_eq_self {name : QName} (h : name.IsPlain) :
    endName name.text.toList = name.text.toList := by
  rw [endName, dropEndWhile_eq_self fun c hc => not_isAsciiBlank_of_isNameMark (h.isNameMark hc),
    ite_self]

namespace Style

open IndexedXml.Tree

variable (style : Style)

mutual

/-- **The tokens of a tree put the tree together.** -/
theorem foldlM_tokensOf :
    ∀ {t : Tree}, t.IsNormal → t.IsPlain → ∀ l : Loading,
      (style.tokensOf t).foldlM Loading.step l = l.place t
  | .text value, _, hplain, l => by
    rw [tokensOf, List.foldlM_cons, Loading.step, style.resolve?_escaped hplain]
    rfl
  | .element name attributes content, hnormal, hplain, l => by
    obtain ⟨hdistinct, hchain, hcontent⟩ := hnormal
    obtain ⟨hname, hattributes, hcontentPlain⟩ := hplain
    have htag := style.ofTag?_writeTag hname hattributes hdistinct
    have helement : (OpenElement.mk name.text.toList attributes content.reverse).toElement =
        ⟨name, attributes, content⟩ := by
      rw [OpenElement.toElement, String.ofList_toList, hname.ofText_text, List.reverse_reverse]
    rw [tokensOf]
    split_ifs with hempty
    · obtain rfl : content = [] := by simpa using (Bool.and_eq_true_iff.1 hempty).2
      rw [List.foldlM_cons, Loading.step, htag]
      change (l.finish (OpenElement.mk name.text.toList attributes [].reverse).toElement >>=
        pure) = _
      rw [helement, bind_pure]
      rfl
    · rw [List.foldlM_cons, Loading.step, htag]
      simp only [ok_bind, List.foldlM_append]
      rw [foldlM_tokensOfAll hchain hcontent hcontentPlain (by simp),
        ok_bind, List.append_nil, List.foldlM_cons, Loading.step]
      simp only [endName_eq_self hname, if_true, helement]
      exact bind_pure _

/-- The tokens of content put it into the element around it. -/
theorem foldlM_tokensOfAll :
    ∀ {content : List Tree}, content.IsChain NotBothTexts → AllNormal content →
      AllPlain content → ∀ {e : OpenElement} {rest : List OpenElement} {root : Option Element},
        (∀ first ∈ content.head?, ∀ last ∈ e.reversed.head?, NotBothTexts first last) →
          (style.tokensOfAll content).foldlM Loading.step ⟨e :: rest, root⟩ =
            .ok ⟨{ e with reversed := content.reverse ++ e.reversed } :: rest, root⟩
  | [], _, _, _, e, rest, root, _ => rfl
  | piece :: more, hchain, hnormal, hplain, e, rest, root, hhead => by
    rw [tokensOfAll, List.foldlM_append, foldlM_tokensOf hnormal.1 hplain.1, Loading.place_cons,
      OpenElement.push_eq hnormal.1 (hhead piece rfl), ok_bind,
      foldlM_tokensOfAll (List.isChain_cons.1 hchain).2 hnormal.2 hplain.2]
    · rw [List.reverse_cons, List.append_assoc, List.singleton_append]
    · intro first hfirst last hlast
      obtain rfl := Option.some.inj hlast
      exact notBothTexts_comm.1 ((List.isChain_cons.1 hchain).1 first hfirst)

end

end Style

/-- **What was written is loaded as it was.** -/
theorem parse_write (style : Style) {root : Element} (hnormal : root.toTree.IsNormal)
    (hplain : root.toTree.IsPlain) : parse (.ofList (style.write root.toTree)) = .ok root := by
  rw [parse, style.tokens_write hnormal hplain, style.foldlM_tokensOf hnormal hplain]
  rfl

/-- **Loading is faithful on normal forms.**  Whatever is loaded is normal; and a normal tree
with plain names and without the character of number zero is loaded as it was when it is
written, whichever way, with references for all but ASCII letters and digits. -/
theorem isNormal_and_parse_write :
    (∀ xml root, parse xml = .ok root → root.toTree.IsNormal) ∧
      ∀ (style : Style) (root : Element), root.toTree.IsNormal → root.toTree.IsPlain →
        parse (.ofList (style.write root.toTree)) = .ok root :=
  ⟨fun _ _ h => isNormal_of_parse h, fun style _ hnormal hplain => parse_write style hnormal hplain⟩

/-- An element with a prefix, an attribute, an empty element and texts of blanks, brackets
and letters beyond ASCII. -/
def note : Element :=
  ⟨⟨some "p", "a", none⟩, [⟨.simple "b", "x \"y\""⟩],
    [.text " <é> ", .element (.simple "c") [] [], .text "\n"]⟩

/-- References in decimal digits, and one tag for an empty element. -/
def Style.decimal : Style := ⟨true, false, '"', .inl rfl⟩

example : String.ofList (Style.decimal.write note.toTree) =
    "<p:a b=\"x&#32;&#34;y&#34;\">&#32;&#60;&#233;&#62;&#32;<c/>&#10;</p:a>" := by
  decide +kernel

/-- It is normal and plain, and so it comes back. -/
theorem isNormal_and_parse_write_note :
    note.toTree.IsNormal ∧ note.toTree.IsPlain ∧
      parse (.ofList (Style.decimal.write note.toTree)) = .ok note := by
  have hnormal : note.toTree.IsNormal := by
    simp [note, Element.toTree, Tree.IsNormal, Tree.AllNormal, AreDistinct, Tree.NotBothTexts,
      Tree.isText]
  have hplain : note.toTree.IsPlain := by
    have hb : Attribute.IsPlain ⟨.simple "b", "x \"y\""⟩ :=
      ⟨⟨rfl, by decide, by decide⟩, by decide, by decide, by decide⟩
    have htexts : '\x00' ∉ " <é> ".toList ∧ '\x00' ∉ "\n".toList := by decide
    exact ⟨⟨rfl, by decide, by decide⟩, List.forall_mem_singleton.2 hb, htexts.1,
      ⟨⟨rfl, by decide, by decide⟩, fun _ h => absurd h List.not_mem_nil, trivial⟩, htexts.2,
      trivial⟩
  have hloaded := isNormal_and_parse_write.2 Style.decimal note hnormal hplain
  exact ⟨isNormal_and_parse_write.1 _ _ hloaded, hplain, hloaded⟩

end Xml
end IndexedXml
