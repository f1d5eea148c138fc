/-
# The lexemes of queries

Each lexeme is followed both ways: what it gives is such a value as the language has, and from the
text of such a value it takes just that value.  A name is taken whole when no character of a
name follows it, a number when nothing that would prolong it does, and so on; which characters
these are is said at each.
-/

import IndexedXml.Proofs.Query.Readers

namespace IndexedXml

/-- Characters that make a name without a colon. -/
def IsNamePart (cs : List Char) : Prop :=
  ∃ first more, cs = first :: more ∧ Reader.isNameStart first = true ∧
    ∀ c ∈ more, Reader.isNameChar c = true

/-- **A name, with a prefix or not.** -/
def IsName (s : String) : Prop :=
  IsNamePart s.toList ∨
    ∃ lead rest, s.toList = lead ++ ':' :: rest ∧ IsNamePart lead ∧ IsNamePart rest

/-- A value that a literal can have: a text, a double, or an integer without a sign. -/
def AtomicValue.IsLiteral : AtomicValue → Prop
  | .string _ | .double _ => True
  | .integer i => 0 ≤ i
  | .untyped _ | .boolean _ => False

/-- **A declaration of a pragma that can be written:** its contents have no blanks at their ends
and do not hold the mark that would end them. -/
structure PragmaDecl.IsWritable (d : PragmaDecl) : Prop where
  name : IsName d.name
  trimmed : Text.trim d.contents = d.contents
  closed : ¬ ['#', ')'] <:+: d.contents.toList

/-- The text of a declaration. -/
def PragmaDecl.render (d : PragmaDecl) : List Char :=
  '(' :: '#' :: ' ' :: (d.name.toList ++ ' ' :: (d.contents.toList ++ [' ', '#', ')']))

/-- An integer is written with digits. -/
theorem AtomicValue.text_integer {i : Int} (h : 0 ≤ i) :
    (AtomicValue.integer i).text.toList = Nat.toDigits 10 i.toNat := by
  obtain ⟨n, rfl⟩ := Int.eq_ofNat_of_zero_le h
  rw [Int.toNat_natCast]
  exact String.toList_ofList

/-- A text is written in quotes, with the quotes in it doubled. -/
theorem AtomicValue.text_string (s : String) : (AtomicValue.string s).text.toList =
    '"' :: ((s.toList.flatMap fun c => if c = '"' then [c, c] else [c]) ++ ['"']) := by
  simp [AtomicValue.text, Text.doubled]

/-- A literal begins with a quote or a digit, unless it is a double. -/
theorem AtomicValue.exists_first_of_isLiteral {v : AtomicValue} (h : v.IsLiteral)
    (hdouble : ∀ d, v ≠ .double d) :
    ∃ c more, v.text.toList = c :: more ∧ (c = '"' ∨ c.isDigit = true) := by
  cases v with
  | string s => exact ⟨_, _, AtomicValue.text_string s, .inl rfl⟩
  | integer i =>
    have hdigits := Nat.toDigits_ne_nil (b := 10) (n := i.toNat)
    obtain ⟨c, more, hcons⟩ := List.exists_cons_of_ne_nil hdigits
    refine ⟨c, more, (AtomicValue.text_integer h).trans hcons, .inr ?_⟩
    exact Nat.isDigit_of_mem_toDigits (by decide) (by decide) (hcons ▸ List.mem_cons_self)
  | double d => exact absurd rfl (hdouble d)
  | untyped _ | boolean _ => exact h.elim

namespace Reader

/-! ### Names -/

theorem isNameChar_of_isNameStart {c : Char} (h : isNameStart c = true) :
    isNameChar c = true := by
  simp only [isNameStart, isNameChar, Char.isAlphanum, Bool.or_eq_true] at h ⊢
  tauto

theorem not_isDigit_of_isNameStart {c : Char} (h : isNameStart c = true) : c.isDigit = false := by
  have hclass : isNameStart c = (decide (65 ≤ c.val ∧ c.val ≤ 90) ||
      (decide (97 ≤ c.val) && decide (c.val ≤ 122)) || c == '_') := rfl
  have hdigit : c.isDigit = (decide (48 ≤ c.val) && decide (c.val ≤ 57)) := rfl
  -- The digits come before the letters and the underscore.
  have hlow : ¬ c.val ≤ 57 := by
    simp only [hclass, Bool.or_eq_true, Bool.and_eq_true, decide_eq_true_eq, beq_iff_eq,
      UInt32.le_iff_toNat_le, UInt32.reduceToNat] at h ⊢
    rcases h with (h | h) | rfl
    · omega
    · omega
    · decide
  rw [hdigit, decide_eq_false hlow, Bool.and_false]

theorem isNameChar_of_mem {part : List Char} (h : IsNamePart part) {c : Char} (hc : c ∈ part) :
    isNameChar c = true := by
  obtain ⟨first, more, rfl, hfirst, hmore⟩ := h
  rcases List.mem_cons.1 hc with rfl | hc
  · exact isNameChar_of_isNameStart hfirst
  · exact hmore c hc

theorem isNamePart_of_all {part : List Char} {first : Char} {more : List Char}
    (hpart : part = first :: more) (hfirst : isNameStart first = true)
    (hmore : more.all isNameChar = true) : IsNamePart part :=
  ⟨first, more, hpart, hfirst, List.all_eq_true.1 hmore⟩

/-- A part of a name is taken whole when no character of a name follows. -/
theorem namePart_append {part rest : List Char} (h : IsNamePart part)
    (hstop : ∀ c ∈ rest.head?, isNameChar c = false) :
    namePart (part ++ rest) = some (part, rest) := by
  have hspan := Text.span_append (fun c hc => isNameChar_of_mem h hc) hstop
  obtain ⟨first, more, rfl, hfirst, _⟩ := h
  exact (if_pos hfirst).trans (congrArg some hspan)

theorem eq_append_of_namePart {cs part rest : List Char} (h : namePart cs = some (part, rest)) :
    cs = part ++ rest ∧ IsNamePart part := by
  cases cs with
  | nil => cases h
  | cons first cs =>
    rw [namePart] at h
    split_ifs at h with hfirst
    rw [List.span_eq_takeWhile_dropWhile, List.takeWhile_cons_of_pos
      (isNameChar_of_isNameStart hfirst), List.dropWhile_cons_of_pos
      (isNameChar_of_isNameStart hfirst), Option.some.injEq, Prod.mk.injEq] at h
    obtain ⟨rfl, rfl⟩ := h
    refine ⟨?_, first, _, rfl, hfirst, fun c hc => List.mem_takeWhile_imp hc⟩
    rw [List.cons_append, List.takeWhile_append_dropWhile]

theorem namePart_eq_none {c : Char} (h : isNameStart c = false) (cs : List Char) :
    namePart (c :: cs) = none := by
  rw [namePart, h]
  rfl

theorem literal_colon (more : List Char) : literal ":" (':' :: more) = some ((), more) := rfl

/-- **A name is taken whole** when no character of a name follows, nor a colon that a name
follows. -/
theorem nameText_append {s : String} {rest : List Char} (h : IsName s)
    (hstop : ∀ c ∈ rest.head?, isNameChar c = false)
    (hcolon : ∀ more, rest = ':' :: more → namePart more = none) :
    nameText (s.toList ++ rest) = some (s, rest) := by
  rcases h with h | ⟨lead, after, htext, hlead, hafter⟩
  · rw [nameText, bind_of_eq_some (namePart_append h hstop), orElse_of_eq_none,
      String.ofList_toList]
    · rfl
    · cases rest with
      | nil => rfl
      | cons c more =>
        by_cases hc : c = ':'
        · subst hc
          rw [bind_of_eq_some (literal_colon more)]
          exact bind_of_eq_none (hcolon more rfl)
        · refine bind_of_eq_none (literal_eq_none (afterStart?_eq_none (c := ':') ?_))
          simpa using hc
  · rw [htext, List.append_assoc, List.cons_append, nameText,
      bind_of_eq_some (namePart_append hlead (by simp; rfl)), orElse_of_eq_some]
    rw [bind_of_eq_some (literal_colon (after ++ rest)),
      bind_of_eq_some (namePart_append hafter hstop), ← htext, String.ofList_toList]
    rfl

theorem eq_append_of_nameText {cs rest : List Char} {s : String}
    (hread : nameText cs = some (s, rest)) : cs = s.toList ++ rest ∧ IsName s := by
  obtain ⟨lead, mid, hlead, h⟩ := bind_eq_some.1 hread
  obtain ⟨rfl, hleadName⟩ := eq_append_of_namePart hlead
  rcases orElse_eq_some h with h | ⟨_, h⟩
  · obtain ⟨⟨⟩, mid', hcolon, h⟩ := bind_eq_some.1 h
    obtain ⟨after, rest', hafter, h⟩ := bind_eq_some.1 h
    obtain ⟨rfl, rfl⟩ := pure_eq_some.1 h
    obtain ⟨rfl, hafterName⟩ := eq_append_of_namePart hafter
    obtain ⟨_, hstart, hcolon⟩ := Option.map_eq_some_iff.1 hcolon
    rw [Text.eq_append_of_afterStart? hstart, (Prod.mk.inj hcolon).2]
    exact ⟨by simp, .inr ⟨lead, after, by simp, hleadName, hafterName⟩⟩
  · obtain ⟨rfl, rfl⟩ := pure_eq_some.1 h
    exact ⟨by simp, .inl (by simpa using hleadName)⟩

theorem name_append {s : String} {rest left : List Char} (h : IsName s)
    (hstop : ∀ c ∈ rest.head?, isNameChar c = false)
    (hcolon : ∀ more, rest = ':' :: more → namePart more = none) (hleft : Leaves rest left) :
    name (s.toList ++ rest) = some (s, left) :=
  lexeme_eq_some (nameText_append h hstop hcolon) hleft

theorem gives_name : Gives name IsName :=
  Gives.lexeme fun _ _ _ h => (eq_append_of_nameText h).2

/-- A name begins with a character that a name may begin with. -/
theorem exists_start_of_isName {s : String} (h : IsName s) :
    ∃ first more, s.toList = first :: more ∧ isNameStart first = true := by
  rcases h with ⟨first, more, htext, hfirst, _⟩ | ⟨_, rest, htext, ⟨first, more, rfl, hfirst, _⟩, _⟩
  · exact ⟨first, more, htext, hfirst⟩
  · exact ⟨first, _, htext, hfirst⟩

/-- Another character than such a one is not the first of a name. -/
theorem head?_name {s : String} (h : IsName s) {c : Char} (hc : isNameStart c = false)
    (rest : List Char) : (s.toList ++ rest).head? ≠ some c := by
  obtain ⟨first, more, hs, hfirst⟩ := exists_start_of_isName h
  have hne : first ≠ c := Text.ne_of_class hfirst hc
  rw [hs]
  simpa using hne

theorem isSettled_name {s : String} (h : IsName s) (rest : List Char) :
    IsSettled (s.toList ++ rest) := by
  obtain ⟨first, more, hs, hfirst⟩ := exists_start_of_isName h
  rw [hs]
  exact isSettled_cons (Text.not_isAsciiBlank_of_class hfirst (by decide))
    (Text.ne_of_class hfirst (by decide)) _

/-! ### Words -/

theorem keyword_append {s : String} (text : List Char) {rest left : List Char}
    (hs : s.toList = text) (hstop : ∀ c ∈ rest.head?, isNameChar c = false)
    (hleft : Leaves rest left) : keyword s (text ++ rest) = some ((), left) := by
  refine lexeme_eq_some ?_ hleft
  rw [bind_of_eq_some (literal_append hs rest), notAhead, if_neg]
  cases rest with
  | nil => simp
  | cons c rest => simp [hstop c rfl]

theorem keyword_eq_none {s : String} {cs : List Char}
    (h : Text.afterStart? s.toList cs = none) : keyword s cs = none :=
  lexeme_eq_none (bind_of_eq_none (literal_eq_none h))

/-! ### Axes and signs -/

/-- **The name of an axis is taken** before a colon. -/
theorem axis_append {a : Axis} (h : a ≠ .descendantAttr) (cs : List Char) :
    axis (a.name.toList ++ ':' :: cs) = some (a, ':' :: cs) := by
  refine lexeme_eq_some ?_ (isSettled_cons rfl (by decide) cs).leaves
  cases a <;> first | rfl | exact absurd rfl h

theorem gives_axis : Gives axis fun a => a ≠ .descendantAttr := by
  refine Gives.lexeme fun cs a rest h hattr => ?_
  obtain ⟨b, hb, h⟩ := List.exists_of_findSome?_eq_some h
  obtain ⟨_, _, h⟩ := Option.map_eq_some_iff.1 h
  obtain rfl : b = a := (Prod.mk.inj h).1
  rw [hattr] at hb
  exact absurd hb (by decide)

theorem isNamePart_axisName (a : Axis) : IsNamePart a.name.toList := by
  cases a <;> exact isNamePart_of_all rfl (by decide) (by decide)

theorem isName_axis (a : Axis) : IsName a.name := .inl (isNamePart_axisName a)

/-- **The sign of a comparison is taken** before a blank. -/
theorem comparisonOp_append (op : ComparisonOp) {cs : List Char} (h : IsSettled cs) :
    comparisonOp (op.symbol.toList ++ ' ' :: cs) = some (op, cs) := by
  refine lexeme_eq_some ?_ h.leaves_blank
  cases op <;> rfl

/-- No sign is taken where none can begin. -/
theorem comparisonOp_eq_none {cs : List Char} (h : ∀ c ∈ cs.head?, c ∉ ['=', '!', '<', '>']) :
    comparisonOp cs = none := by
  refine lexeme_eq_none (List.findSome?_eq_none_iff.2 fun op _ => ?_)
  obtain ⟨c, more, hsymbol, hc⟩ : ∃ c more, op.symbol.toList = c :: more ∧
      c ∈ ['=', '!', '<', '>'] := by
    cases op <;> exact ⟨_, _, rfl, by decide⟩
  rw [hsymbol, afterStart?_eq_none fun hhead => h c hhead hc]
  rfl

/-! ### Literals -/

/-- **The digits of a number are taken as an integer** when no digit, point or exponent mark
follows. -/
theorem number_append (n : Nat) {rest left : List Char}
    (hstop : ∀ c ∈ rest.head?, c.isDigit = false ∧ c ≠ '.' ∧ c ≠ 'e' ∧ c ≠ 'E')
    (hleft : Leaves rest left) :
    number (Nat.toDigits 10 n ++ rest) = some (.integer n, left) := by
  have hdigits : ∀ c ∈ Nat.toDigits 10 n, c.isDigit = true := fun c hc =>
    Nat.isDigit_of_mem_toDigits (by decide) (by decide) hc
  have hread : Double.Numeral.read? (Nat.toDigits 10 n ++ rest) =
      some (⟨Nat.toDigits 10 n, none, none⟩, rest) := by
    rw [Double.Numeral.read?, Text.span_append hdigits fun c hc => (hstop c hc).1]
    cases rest with
    | nil => simp [Nat.toDigits_ne_nil, Double.exponentPart?]
    | cons c more =>
      obtain ⟨_, hpoint, he, hE⟩ := hstop c rfl
      simp [Nat.toDigits_ne_nil, Double.exponentPart?, hpoint, he, hE]
  refine lexeme_eq_some ?_ hleft
  rw [hread, Option.map_some]
  exact congrArg (fun i : Nat => some (AtomicValue.integer i, rest)) (Text.decimalValue_toDigits n)

/-- No number is taken where neither a digit nor a point stands. -/
theorem number_eq_none {c : Char} (hdigit : c.isDigit = false) (hpoint : c ≠ '.')
    (cs : List Char) : number (c :: cs) = none := by
  have hspan : (c :: cs).span Char.isDigit = ([], c :: cs) :=
    @Text.span_append _ [] (c :: cs) nofun (by simpa using hdigit)
  refine lexeme_eq_none ?_
  rw [Double.Numeral.read?, hspan]
  simp [hpoint]

theorem gives_number : Gives number AtomicValue.IsLiteral := by
  refine Gives.lexeme fun cs v rest h => ?_
  obtain ⟨⟨n, rest'⟩, _, h⟩ := Option.map_eq_some_iff.1 h
  obtain ⟨rfl, rfl⟩ := Prod.mk.inj h
  split_ifs
  · exact Int.natCast_nonneg _
  · trivial

theorem quotedRest_cons {q c : Char} (h : c ≠ q) (cs : List Char) :
    quotedRest q (c :: cs) =
      (quotedRest q cs).map fun (content, rest) => (c :: content, rest) := by
  cases cs with
  | nil => exact if_neg h
  | cons d cs => exact if_neg h

/-- **A text with its quotes doubled is taken up to its closing quote.** -/
theorem quotedRest_doubled {q : Char} (cs : List Char) {rest : List Char}
    (h : rest.head? ≠ some q) :
    quotedRest q ((cs.flatMap fun c => if c = q then [c, c] else [c]) ++ q :: rest) =
      some (cs, rest) := by
  induction cs with
  | nil =>
    rw [List.flatMap_nil, List.nil_append]
    cases rest with
    | nil => exact if_pos rfl
    | cons d rest =>
      have hd : d ≠ q := fun heq => h (congrArg some heq)
      rw [quotedRest, if_pos rfl, if_neg hd]
  | cons c cs ih =>
    rw [List.flatMap_cons, List.append_assoc]
    by_cases hc : c = q
    · subst hc
      rw [if_pos rfl, List.cons_append, List.singleton_append, quotedRest, if_pos rfl, if_pos rfl,
        ih]
      rfl
    · rw [if_neg hc, List.singleton_append, quotedRest_cons hc, ih]
      rfl

/-- **A text is taken as it is displayed,** when no quote follows. -/
theorem quoted_append (s : String) {rest left : List Char} (h : rest.head? ≠ some '"')
    (hleft : Leaves rest left) :
    quoted ((AtomicValue.string s).text.toList ++ rest) = some (.string s, left) := by
  refine lexeme_eq_some ?_ hleft
  rw [AtomicValue.text_string, List.cons_append, List.append_assoc, List.singleton_append]
  simp only [true_or, if_true, quotedRest_doubled s.toList h, Option.map_some,
    String.ofList_toList]

theorem quoted_eq_none {c : Char} (hdouble : c ≠ '"') (hsingle : c ≠ '\'') (cs : List Char) :
    quoted (c :: cs) = none :=
  lexeme_eq_none (if_neg (by simp [hdouble, hsingle]))

theorem gives_quoted : Gives quoted AtomicValue.IsLiteral := by
  refine Gives.lexeme fun cs v rest h => ?_
  cases cs with
  | nil => cases h
  | cons c cs =>
    dsimp only at h
    split_ifs at h
    obtain ⟨_, _, h⟩ := Option.map_eq_some_iff.1 h
    rw [← (Prod.mk.inj h).1]
    trivial

/-! ### Declarations of pragmas -/

theorem pragmaRest_cons {c : Char} {cs : List Char} (h : ¬ (c = '#' ∧ cs.head? = some ')')) :
    pragmaRest (c :: cs) = (pragmaRest cs).map fun (contents, rest) => (c :: contents, rest) := by
  rw [pragmaRest.eq_3]
  rintro more rfl rfl
  exact h ⟨rfl, rfl⟩

/-- **Contents are taken up to the first mark that ends them.** -/
theorem pragmaRest_append {contents : List Char} (h : ¬ ['#', ')'] <:+: contents)
    (hlast : contents.getLast? ≠ some '#') (rest : List Char) :
    pragmaRest (contents ++ '#' :: ')' :: rest) = some (contents, rest) := by
  induction contents with
  | nil => rfl
  | cons c contents ih =>
    have hnext : ¬ (c = '#' ∧ (contents ++ '#' :: ')' :: rest).head? = some ')') := by
      rintro ⟨rfl, hhead⟩
      cases contents with
      | nil => exact hlast rfl
      | cons d more =>
        obtain rfl : d = ')' := Option.some.inj hhead
        exact h ⟨[], more, rfl⟩
    have hmore : contents.getLast? ≠ some '#' := by
      intro hmore
      cases contents with
      | nil => cases hmore
      | cons d more => exact hlast (by rw [List.getLast?_cons_cons]; exact hmore)
    have hinside : ¬ ['#', ')'] <:+: contents := fun hmark =>
      h (hmark.trans (List.suffix_cons c contents).isInfix)
    rw [List.cons_append, pragmaRest_cons hnext, ih hinside hmore]
    rfl

/-- The contents that are taken do not hold that mark. -/
theorem eq_append_of_pragmaRest {cs contents rest : List Char}
    (h : pragmaRest cs = some (contents, rest)) :
    cs = contents ++ '#' :: ')' :: rest ∧ ¬ ['#', ')'] <:+: contents := by
  induction cs generalizing contents with
  | nil => cases h
  | cons c cs ih =>
    by_cases hend : c = '#' ∧ cs.head? = some ')'
    · obtain ⟨rfl, hhead⟩ := hend
      cases cs with
      | nil => cases hhead
      | cons d cs =>
        obtain rfl : d = ')' := Option.some.inj hhead
        obtain ⟨rfl, rfl⟩ := Prod.mk.inj (Option.some.inj h)
        exact ⟨rfl, by simp⟩
    · rw [pragmaRest_cons hend] at h
      obtain ⟨⟨more, rest'⟩, hmore, h⟩ := Option.map_eq_some_iff.1 h
      obtain ⟨rfl, rfl⟩ := Prod.mk.inj h
      obtain ⟨rfl, hinside⟩ := ih hmore
      refine ⟨rfl, ?_⟩
      rw [List.infix_cons_iff, not_or]
      refine ⟨fun hstart => hend ?_, hinside⟩
      obtain ⟨rfl, after, rfl⟩ := List.cons_prefix_cons.1 hstart
      exact ⟨rfl, rfl⟩

theorem not_infix_blanks {contents : List Char} (h : ¬ ['#', ')'] <:+: contents) :
    ¬ ['#', ')'] <:+: ' ' :: (contents ++ [' ']) := by
  intro hmark
  rcases List.infix_cons_iff.1 hmark with hstart | ⟨before, after, heq⟩
  · exact absurd (List.cons_prefix_cons.1 hstart).1 (by decide)
  · rcases List.eq_nil_or_concat' after with rfl | ⟨after, last, rfl⟩
    · have hlast := congrArg List.getLast? heq
      simp at hlast
    · rw [← List.append_assoc] at heq
      exact h ⟨before, after, (List.append_inj' heq rfl).1⟩

/-- Contents with a blank at each end are taken with the blanks. -/
theorem pragmaRest_blanks {contents : List Char} (h : ¬ ['#', ')'] <:+: contents)
    (rest : List Char) : pragmaRest (' ' :: (contents ++ ' ' :: '#' :: ')' :: rest)) =
      some (' ' :: (contents ++ [' ']), rest) := by
  have hread := pragmaRest_append (not_infix_blanks h)
    (by rw [← List.cons_append, List.getLast?_concat]; decide) rest
  rwa [List.cons_append, List.append_assoc] at hread

/-- **A written declaration is taken as it was.** -/
theorem pragma_append {d : PragmaDecl} (h : d.IsWritable) {rest left : List Char}
    (hleft : Leaves rest left) : pragma (d.render ++ rest) = some (d, left) := by
  have hshape : d.render ++ rest = "(#".toList ++ ' ' :: (d.name.toList ++
      ' ' :: (d.contents.toList ++ ' ' :: '#' :: ')' :: rest)) := by
    simp [PragmaDecl.render]
  have hdrop (after : List Char) :
      (modify (·.dropWhile Text.isAsciiBlank) : Reader Unit) (' ' :: (d.name.toList ++ after)) =
        some ((), d.name.toList ++ after) := by
    obtain ⟨first, more, hname, hfirst⟩ := exists_start_of_isName h.name
    rw [hname]
    exact congrArg (fun cs => some ((), cs)) <| Text.dropWhile_isAsciiBlank_cons
      (Text.not_isAsciiBlank_of_class hfirst (by decide)) (more ++ after)
  have htrim : Text.trim (.ofList (' ' :: (d.contents.toList ++ [' ']))) = d.contents := by
    have hstrip : Text.stripWhile Text.isBlank d.contents.toList = d.contents.toList := by
      simpa [Text.trim] using congrArg String.toList h.trimmed
    rw [Text.trim, String.toList_ofList, Text.stripWhile_surround rfl hstrip, String.ofList_toList]
  refine lexeme_eq_some ?_ hleft
  rw [hshape, bind_of_eq_some (literal_append rfl _), bind_of_eq_some (hdrop _),
    bind_of_eq_some (nameText_append h.name (by simp; rfl) (by simp)),
    bind_of_eq_some (pragmaRest_blanks h.closed rest), htrim]
  rfl

/-- **What is taken for a declaration can be written.** -/
theorem gives_pragma : Gives pragma PragmaDecl.IsWritable := by
  refine Gives.lexeme (gives_bind fun _ => gives_bind fun _ => fun cs d rest hread => ?_)
  obtain ⟨name, mid, hname, hmid⟩ := bind_eq_some.1 hread
  obtain ⟨contents, after, hcontents, hd⟩ := bind_eq_some.1 hmid
  obtain ⟨hd, -⟩ := pure_eq_some.1 hd
  subst hd
  refine ⟨(eq_append_of_nameText hname).2, ?_, fun hmark => ?_⟩
  · simp only [Text.trim, String.toList_ofList, Text.stripWhile_stripWhile]
  · rw [Text.trim, String.toList_ofList, String.toList_ofList] at hmark
    exact (eq_append_of_pragmaRest hcontents).2 (hmark.trans (Text.stripWhile_infix _ _))

end Reader
end IndexedXml
