/-
# Reading primaries back

The primaries of the canonical text are taken back, given a reader of single expressions that
takes back what is in them (`Grammar.Reads`).  The alternatives of a primary are tried in order, so
for each it is shown that those before it fail: all of them are told apart by the first two
characters, but a call and a test of a kind only by what follows the name.
-/

import IndexedXml.Proofs.Query.ParsedTrees

namespace IndexedXml

/-! ### What may follow -/

namespace Text

/-- The characters begin with one of the marks, if there are any. -/
def AtOneOf (marks rest : List Char) : Prop := ∀ c ∈ rest.head?, c ∈ marks

/-- The marks after an expression. -/
def closers : List Char := [')', ']', ',', '\x7d']

theorem AtOneOf.imp {marks rest : List Char} {p : Char → Prop} [DecidablePred p]
    (h : AtOneOf marks rest) (hp : marks.all (fun c => decide (p c)) = true) :
    ∀ c ∈ rest.head?, p c :=
  fun c hc => of_decide_eq_true (List.all_eq_true.1 hp c (h c hc))

theorem AtOneOf.head?_ne {marks rest : List Char} (h : AtOneOf marks rest) {c : Char}
    (hc : c ∉ marks) : rest.head? ≠ some c :=
  fun hhead => hc (h c hhead)

theorem atOneOf_cons {marks : List Char} {c : Char} (hc : c ∈ marks) (rest : List Char) :
    AtOneOf marks (c :: rest) := by
  simpa [AtOneOf] using hc

theorem AtOneOf.mono {marks marks' rest : List Char} (h : AtOneOf marks rest)
    (hmarks : marks ⊆ marks') : AtOneOf marks' rest :=
  fun c hc => hmarks (h c hc)

end Text

namespace Reader

theorem isSettled_bracketed {cs : List Char} (h : Text.Begins cs) (rest : List Char) :
    IsSettled (Text.bracketed cs ++ rest) := by
  obtain ⟨c, more, rfl, _, hcolon, _⟩ := h
  exact isSettled_open (by simpa using hcolon)

end Reader

namespace Grammar

open Reader

/-- **The reader takes the text of the query back,** with what may follow it. -/
structure Reads (single : Reader Surface) (e : Surface) : Prop where
  /-- A text of the query in brackets is neither a comment nor a pragma. -/
  begins : Text.Begins e.render
  /-- Neither is the text itself a comment. -/
  settled : ∀ rest, IsSettled (e.render ++ rest)
  /-- The text is taken whole. -/
  bare : ∀ {rest}, Text.AtOneOf Text.closers rest → single (e.render ++ rest) = some (e, rest)

/-- The same in brackets, after which blanks may follow. -/
def ReadsBracketed (single : Reader Surface) (e : Surface) : Prop :=
  ∀ ⦃rest left⦄, Leaves rest left → Text.AtOneOf Text.closers left →
    single (Text.bracketed e.render ++ rest) = some (e, left)

/-! ### Names and kinds of nodes -/

/-- A character of a name is neither a blank nor a bracket. -/
theorem plain_of_mem_name {s : String} (h : IsName s) {c : Char} (hc : c ∈ s.toList) :
    Text.isAsciiBlank c = false ∧ c ≠ '(' := by
  have hplain {part : List Char} (h : IsNamePart part) (hc : c ∈ part) :
      Text.isAsciiBlank c = false ∧ c ≠ '(' := by
    have hchar := isNameChar_of_mem h hc
    exact ⟨Text.not_isAsciiBlank_of_class hchar (by decide), Text.ne_of_class hchar (by decide)⟩
  rcases h with h | ⟨lead, rest, hs, hlead, hrest⟩
  · exact hplain h hc
  · rw [hs, List.mem_append, List.mem_cons] at hc
    rcases hc with hc | rfl | hc
    · exact hplain hlead hc
    · exact ⟨rfl, by decide⟩
    · exact hplain hrest hc

/-- **Where a word stands before a name and its rest, it is the name,** or the name goes on after
it. -/
theorem eq_of_afterStart?_name {word : List Char} {s : String} (hs : IsName s)
    (hword : IsNamePart word) {rest after : List Char}
    (hstop : ∀ c ∈ rest.head?, isNameChar c = false)
    (h : Text.afterStart? word (s.toList ++ rest) = some after) :
    s.toList = word ∧ after = rest ∨
      ∃ c more, after = c :: more ∧ Text.isAsciiBlank c = false ∧ c ≠ '(' := by
  rcases List.append_eq_append_iff.1 (Text.eq_append_of_afterStart? h) with
    ⟨more, hmore, hrest⟩ | ⟨more, hmore, hafter⟩
  · cases more with
    | nil => exact .inl ⟨by simpa using hmore.symm, by simpa using hrest.symm⟩
    | cons c more =>
      have hc : isNameChar c = true := isNameChar_of_mem hword (by simp [hmore])
      have hc' : isNameChar c = false := hstop c (by simp [hrest])
      rw [hc] at hc'
      cases hc'
  · cases more with
    | nil => exact .inl ⟨by simpa using hmore, by simpa using hafter⟩
    | cons c more => exact .inr ⟨c, _, hafter, plain_of_mem_name hs (by simp [hmore])⟩

/-- **A name is no test of a kind,** unless it is the word of the kind and empty brackets
follow it. -/
theorem kindWord_eq_none {word : String} {t : SurfaceTest} {s : String} (hs : IsName s)
    (hword : IsNamePart word.toList) {rest : List Char}
    (hstop : ∀ c ∈ rest.head?, isNameChar c = false) (hsettled : IsSettled rest)
    (h : s = word → ∀ inner, token "(" rest = some ((), inner) → token ")" inner = none) :
    (do token word; token "("; token ")"; pure t : Reader SurfaceTest) (s.toList ++ rest) =
      none := by
  cases hread : token word (s.toList ++ rest) with
  | none => exact bind_of_eq_none hread
  | some p =>
    obtain ⟨⟨⟩, left⟩ := p
    rw [bind_of_eq_some hread]
    obtain ⟨after, hafter, hleaves⟩ := exists_leaves_of_lexeme hread
    obtain ⟨_, hstart, heq⟩ := Option.map_eq_some_iff.1 hafter
    obtain rfl := (Prod.mk.inj heq).2
    -- The word that was taken is all of the name, or the name goes on and no bracket follows.
    rcases eq_of_afterStart?_name hs hword hstop hstart with ⟨hsame, rfl⟩ | ⟨c, more, rfl, hc⟩
    · rw [hsettled.eq_of_leaves hleaves]
      cases hopen : token "(" _ with
      | none => exact bind_of_eq_none hopen
      | some p =>
        rw [bind_of_eq_some hopen]
        exact bind_of_eq_none (h (String.toList_inj.1 hsame) p.2 hopen)
    · rw [(isSettled_cons hc.1 hc.2 more).eq_of_leaves hleaves]
      exact bind_of_eq_none (token_eq_none (c := '(') rfl (by simpa using hc.2))

/-- **No test of a kind is taken at a name,** unless it is the word of a kind and empty brackets
follow it. -/
theorem kindTest_eq_none {s : String} (hs : IsName s) {rest : List Char}
    (hstop : ∀ c ∈ rest.head?, isNameChar c = false) (hsettled : IsSettled rest)
    (h : s = "node" ∨ s = "text" → ∀ inner, token "(" rest = some ((), inner) →
      token ")" inner = none) : kindTest (s.toList ++ rest) = none := by
  have hnode : IsNamePart "node".toList := isNamePart_of_all rfl (by decide) (by decide)
  have htext : IsNamePart "text".toList := isNamePart_of_all rfl (by decide) (by decide)
  exact orElse_eq_none.2 ⟨kindWord_eq_none hs hnode hstop hsettled fun heq => h (.inl heq),
    kindWord_eq_none hs htext hstop hsettled fun heq => h (.inr heq)⟩

theorem token_star_eq_none {n : String} (hn : IsName n) (rest : List Char) :
    token "*" (n.toList ++ rest) = none :=
  token_eq_none (c := '*') rfl (head?_name hn (by decide) rest)

/-- A name is taken whole where a condition, a slash or the end of the expression follows. -/
theorem name_at_end {n : String} (hn : IsName n) {rest : List Char}
    (hrest : Text.AtOneOf ('[' :: '/' :: Text.closers) rest) :
    name (n.toList ++ rest) = some (n, rest) := by
  refine name_append hn (hrest.imp (by decide)) (fun more hmore => ?_)
    (isSettled_of_head (hrest.imp (by decide))).leaves
  exact absurd (congrArg List.head? hmore) (hrest.head?_ne (by decide))

/-- **A test is taken back** before a condition, a slash or the end of the expression. -/
theorem nodeTest_render {t : SurfaceTest} (ht : t.IsWritable) {rest : List Char}
    (hrest : Text.AtOneOf ('[' :: '/' :: Text.closers) rest) :
    nodeTest (t.render ++ rest) = some (t, rest) := by
  have hsettled : IsSettled rest := isSettled_of_head (hrest.imp (by decide))
  have hclose : token ")" (')' :: rest) = some ((), rest) := token_cons rfl hsettled.leaves
  have hopen : token "(" ('(' :: ')' :: rest) = some ((), ')' :: rest) :=
    token_cons rfl (isSettled_cons rfl (by decide) rest).leaves
  have hbrackets : IsSettled ('(' :: ')' :: rest) := isSettled_open (by simp)
  cases t with
  | name n =>
    have hkind : kindTest (n.toList ++ rest) = none := by
      refine kindTest_eq_none ht (hrest.imp (by decide)) hsettled fun _ inner hinner => ?_
      rw [token_eq_none (c := '(') rfl (hrest.head?_ne (by decide))] at hinner
      cases hinner
    refine (orElse_of_eq_none hkind).trans ?_
    refine (orElse_of_eq_none (bind_of_eq_none (token_star_eq_none ht rest))).trans ?_
    exact (bind_of_eq_some (name_at_end ht hrest)).trans rfl
  | wildcard =>
    have hkind : kindTest ('*' :: rest) = none :=
      orElse_eq_none.2 ⟨bind_of_eq_none (token_eq_none (c := 'n') rfl (by simp)),
        bind_of_eq_none (token_eq_none (c := 't') rfl (by simp))⟩
    have hstar : token "*" ('*' :: rest) = some ((), rest) := token_cons rfl hsettled.leaves
    refine (orElse_of_eq_none hkind).trans (orElse_of_eq_some ?_)
    exact (bind_of_eq_some hstar).trans rfl
  | anyNode =>
    have hword : token "node" ("node".toList ++ '(' :: ')' :: rest) =
        some ((), '(' :: ')' :: rest) := token_append rfl hbrackets.leaves
    refine orElse_of_eq_some (orElse_of_eq_some ((bind_of_eq_some hword).trans ?_))
    rw [bind_of_eq_some hopen, bind_of_eq_some hclose]
    rfl
  | text =>
    have hnode : token "node" ("text".toList ++ '(' :: ')' :: rest) = none :=
      token_eq_none (c := 'n') rfl (by simp)
    have hword : token "text" ("text".toList ++ '(' :: ')' :: rest) =
        some ((), '(' :: ')' :: rest) := token_append rfl hbrackets.leaves
    refine orElse_of_eq_some ((orElse_of_eq_none (bind_of_eq_none hnode)).trans ?_)
    refine (bind_of_eq_some hword).trans ?_
    rw [bind_of_eq_some hopen, bind_of_eq_some hclose]
    rfl

/-! ### Expressions within marks -/

section
variable {single : Reader Surface}

theorem expression_of_single {cs rest : List Char} {e : Surface} (h : single cs = some (e, rest))
    (hcomma : rest.head? ≠ some ',') : expression single cs = some (e, rest) := by
  have hitems : separated (token ",") single cs = some ([e], rest) :=
    separated_of_repeats h (.nil (bind_of_eq_none (token_eq_none (c := ',') rfl hcomma)))
  rw [expression, bind_of_eq_some hitems]
  rfl

theorem expression?_of_expression {cs rest : List Char} {e : Surface}
    (h : expression single cs = some (e, rest)) : expression? single cs = some (some e, rest) :=
  orElse_of_eq_some ((bind_of_eq_some h).trans rfl)

theorem expression?_of_eq_none {cs : List Char} (h : single cs = none) :
    expression? single cs = some (none, cs) :=
  orElse_of_eq_none (bind_of_eq_none (bind_of_eq_none (bind_of_eq_none h)))

theorem atOneOf_commas (texts : List (List Char)) {rest : List Char}
    (hrest : Text.AtOneOf Text.closers rest) :
    Text.AtOneOf Text.closers (texts.flatMap (fun cs => ',' :: ' ' :: cs) ++ rest) := by
  cases texts with
  | nil => exact hrest
  | cons cs texts => exact Text.atOneOf_cons (by decide) _

theorem repeats_commas {text : Surface → List Char} {items : List Surface}
    (hsettled : ∀ e ∈ items, ∀ rest, IsSettled (text e ++ rest))
    (h : ∀ e ∈ items, ∀ rest, Text.AtOneOf Text.closers rest →
      single (text e ++ rest) = some (e, rest))
    {rest : List Char} (hrest : Text.AtOneOf Text.closers rest) (hcomma : rest.head? ≠ some ',') :
    Repeats (do token ","; single)
      ((items.map text).flatMap (fun cs => ',' :: ' ' :: cs) ++ rest) items rest := by
  induction items with
  | nil => exact .nil (bind_of_eq_none (token_eq_none (c := ',') rfl hcomma))
  | cons e items ih =>
    obtain ⟨hsettledHere, hsettled⟩ := List.forall_mem_cons.1 hsettled
    obtain ⟨hhere, h⟩ := List.forall_mem_cons.1 h
    rw [List.map_cons, List.flatMap_cons, List.append_assoc]
    have hnext := atOneOf_commas (items.map text) hrest
    generalize (items.map text).flatMap (fun cs => ',' :: ' ' :: cs) ++ rest = next at ih hnext ⊢
    have hmark : token "," (',' :: ' ' :: (text e ++ next)) = some ((), text e ++ next) :=
      token_cons rfl (hsettledHere next).leaves_blank
    refine .cons ((bind_of_eq_some hmark).trans (hhere next hnext)) ?_ (ih hsettled h)
    simp only [List.cons_append, List.length_cons, List.length_append]
    omega

/-- **Texts with commas between them are taken one after the other.** -/
theorem separated_commas {text : Surface → List Char} {items : List Surface} (hne : items ≠ [])
    (hsettled : ∀ e ∈ items, ∀ rest, IsSettled (text e ++ rest))
    (h : ∀ e ∈ items, ∀ rest, Text.AtOneOf Text.closers rest →
      single (text e ++ rest) = some (e, rest))
    {rest : List Char} (hrest : Text.AtOneOf Text.closers rest) (hcomma : rest.head? ≠ some ',') :
    separated (token ",") single (Text.commas (items.map text) ++ rest) = some (items, rest) := by
  obtain ⟨first, items, rfl⟩ := List.exists_cons_of_ne_nil hne
  obtain ⟨_, hsettled⟩ := List.forall_mem_cons.1 hsettled
  obtain ⟨hfirst, h⟩ := List.forall_mem_cons.1 h
  rw [List.map_cons, Text.commas, List.append_assoc]
  exact separated_of_repeats (hfirst _ (atOneOf_commas _ hrest))
    (repeats_commas hsettled h hrest hcomma)

/-! ### Primaries -/

/-- The two alternatives for literals fail where no literal begins. -/
theorem literals_orElse {c : Char} (hdigit : c.isDigit = false)
    (hmark : c ∉ ['.', '"', '\'']) (cs : List Char) (r : Reader Surface) :
    ((do let v ← number; pure (.literal v)) <|> (do let v ← quoted; pure (.literal v)) <|> r)
      (c :: cs) = r (c :: cs) := by
  simp only [List.mem_cons, List.not_mem_nil, or_false, not_or] at hmark
  obtain ⟨hpoint, hdouble, hsingle⟩ := hmark
  refine (orElse_of_eq_none (bind_of_eq_none (number_eq_none hdigit hpoint cs))).trans ?_
  exact orElse_of_eq_none (bind_of_eq_none (quoted_eq_none hdouble hsingle cs))

/-- **An expression in brackets is that expression,** and nothing in them is the empty
sequence. -/
theorem primary_open {cs mid left : List Char} {body : Option Surface} (hsettled : IsSettled cs)
    (hpragma : cs.head? ≠ some '#') (hbody : expression? single cs = some (body, ')' :: mid))
    (hleft : Leaves mid left) :
    primary single ('(' :: cs) = some (body.getD (.sequence []), left) := by
  have hdecl : pragma ('(' :: cs) = none := by
    refine lexeme_eq_none (bind_of_eq_none (literal_eq_none ?_))
    exact (if_pos rfl).trans (afterStart?_eq_none (c := '#') hpragma)
  have hopen : token "(" ('(' :: cs) = some ((), cs) := token_cons rfl hsettled.leaves
  have hclose : token ")" (')' :: mid) = some ((), left) := token_cons rfl hleft
  refine (literals_orElse rfl (by decide) cs _).trans ?_
  refine (orElse_of_eq_none (bind_of_eq_none (token_eq_none (c := '$') rfl (by simp)))).trans ?_
  refine (orElse_of_eq_none (bind_of_eq_none hdecl)).trans (orElse_of_eq_some ?_)
  rw [bind_of_eq_some hopen, bind_of_eq_some hbody, bind_of_eq_some hclose]
  rfl

theorem primary_bracketed {e : Surface} (h : Reads single e) {rest left : List Char}
    (hleft : Leaves rest left) :
    primary single (Text.bracketed e.render ++ rest) = some (e, left) := by
  have hread : single (e.render ++ ')' :: rest) = some (e, ')' :: rest) :=
    h.bare (Text.atOneOf_cons (by decide) rest)
  have hpragma : (e.render ++ ')' :: rest).head? ≠ some '#' := by
    obtain ⟨c, more, hc, _, _, hne⟩ := h.begins
    rw [hc]
    simpa using hne
  rw [Text.bracketed, List.cons_append, List.append_assoc, List.singleton_append]
  exact primary_open (h.settled _) hpragma
    (expression?_of_expression (expression_of_single hread (by simp))) hleft

theorem primary_literal {v : AtomicValue} (hv : v.IsLiteral) (hdouble : ∀ d, v ≠ .double d)
    {rest : List Char} (hrest : Text.AtOneOf Text.closers rest) :
    primary single (v.text.toList ++ rest) = some (.literal v, rest) := by
  have hleft : Leaves rest rest := (isSettled_of_head (hrest.imp (by decide))).leaves
  cases v with
  | string s =>
    have hnumber : number ((AtomicValue.string s).text.toList ++ rest) = none := by
      rw [AtomicValue.text_string]
      exact number_eq_none rfl (by decide) _
    refine (orElse_of_eq_none (bind_of_eq_none hnumber)).trans (orElse_of_eq_some ?_)
    exact (bind_of_eq_some (quoted_append s (hrest.head?_ne (by decide)) hleft)).trans rfl
  | integer i =>
    have hnumber : number ((AtomicValue.integer i).text.toList ++ rest) =
        some (.integer i, rest) := by
      rw [AtomicValue.text_integer hv, number_append _ (hrest.imp (by decide)) hleft,
        Int.toNat_of_nonneg hv]
    exact orElse_of_eq_some ((bind_of_eq_some hnumber).trans rfl)
  | double d => exact absurd rfl (hdouble d)
  | untyped _ | boolean _ => exact hv.elim

theorem primary_variable {n : String} (hn : IsName n) {rest : List Char}
    (hrest : Text.AtOneOf Text.closers rest) :
    primary single ('$' :: (n.toList ++ rest)) = some (.variable n, rest) := by
  have hmark : token "$" ('$' :: (n.toList ++ rest)) = some ((), n.toList ++ rest) :=
    token_cons rfl (isSettled_name hn rest).leaves
  have hname : name (n.toList ++ rest) = some (n, rest) :=
    name_at_end hn (hrest.mono (List.subset_cons_of_subset _ (List.subset_cons_self _ _)))
  refine (literals_orElse rfl (by decide) _ _).trans ?_
  refine orElse_of_eq_some ((bind_of_eq_some hmark).trans ?_)
  exact (bind_of_eq_some hname).trans rfl

theorem primary_sequence {items : List Surface} (hitems : items.length ≠ 1)
    (h : ∀ e ∈ items, Reads single e) (hnone : ∀ cs, single (')' :: cs) = none)
    {rest : List Char} (hrest : IsSettled rest) :
    primary single ((Surface.sequence items).render ++ rest) = some (.sequence items, rest) := by
  rw [Surface.render, Surface.renderAll_eq_map, Text.bracketed, List.cons_append,
    List.append_assoc, List.singleton_append]
  cases items with
  | nil =>
    exact primary_open (isSettled_cons rfl (by decide) rest) (by simp)
      (expression?_of_eq_none (hnone rest)) hrest.leaves
  | cons first items =>
    have hread : separated (token ",") single
        (Text.commas ((first :: items).map Surface.render) ++ ')' :: rest) =
          some (first :: items, ')' :: rest) :=
      separated_commas (List.cons_ne_nil _ _) (fun e he => (h e he).settled)
        (fun e he _ => (h e he).bare) (Text.atOneOf_cons (by decide) rest) (by simp)
    have hexpression : expression single
        (Text.commas ((first :: items).map Surface.render) ++ ')' :: rest) =
          some (.sequence (first :: items), ')' :: rest) := by
      rw [expression, bind_of_eq_some hread]
      cases items with
      | nil => exact absurd rfl hitems
      | cons second items => rfl
    have hfirst := h first List.mem_cons_self
    refine primary_open ?_ ?_ (expression?_of_expression hexpression) hrest.leaves
    · rw [List.map_cons, Text.commas, List.append_assoc]
      exact hfirst.settled _
    · obtain ⟨c, more, hc, _, _, hne⟩ := hfirst.begins
      rw [List.map_cons, Text.commas, hc]
      simpa using hne

theorem repeats_pragma {decls : List PragmaDecl} (h : ∀ d ∈ decls, d.IsWritable)
    (rest : List Char) : Repeats pragma (decls.flatMap (fun d => d.render ++ [' ']) ++
      '\x7b' :: rest) decls ('\x7b' :: rest) := by
  induction decls with
  | nil => exact .nil (lexeme_eq_none (bind_of_eq_none (literal_eq_none rfl)))
  | cons d decls ih =>
    obtain ⟨hd, h⟩ := List.forall_mem_cons.1 h
    have hnext : IsSettled (decls.flatMap (fun d => d.render ++ [' ']) ++ '\x7b' :: rest) := by
      cases decls with
      | nil => exact isSettled_cons rfl (by decide) rest
      | cons d decls => exact isSettled_open (by simp)
    rw [List.flatMap_cons, List.append_assoc, List.append_assoc, List.singleton_append]
    refine .cons (pragma_append hd hnext.leaves_blank) ?_ (ih h)
    simp only [List.length_append, List.length_cons]
    omega

/-- Pragmas and what is in their braces are taken back. -/
theorem primary_pragma {decls : List PragmaDecl} (hne : decls ≠ [])
    (hdecls : ∀ d ∈ decls, d.IsWritable) {cs rest : List Char} {body : Option Surface}
    (hsettled : IsSettled cs) (hbody : expression? single cs = some (body, '\x7d' :: rest))
    (hrest : IsSettled rest) :
    primary single (decls.flatMap (fun d => d.render ++ [' ']) ++ '\x7b' :: ' ' :: cs) =
      some (.pragma decls body, rest) := by
  obtain ⟨first, decls, rfl⟩ := List.exists_cons_of_ne_nil hne
  have hall := repeats_pragma hdecls (' ' :: cs)
  have hopen : token "\x7b" ('\x7b' :: ' ' :: cs) = some ((), cs) :=
    token_cons rfl hsettled.leaves_blank
  have hclose : token "\x7d" ('\x7d' :: rest) = some ((), rest) := token_cons rfl hrest.leaves
  cases hall with
  | cons hfirst _ hmore =>
    refine (literals_orElse rfl (by decide) _ _).trans ?_
    refine (orElse_of_eq_none (bind_of_eq_none (token_eq_none (c := '$') rfl (by simp)))).trans ?_
    refine orElse_of_eq_some ((bind_of_eq_some hfirst).trans ?_)
    rw [bind_of_eq_some hmore.many, bind_of_eq_some hopen, bind_of_eq_some hbody,
      bind_of_eq_some hclose]
    rfl

/-- **Only the call of a function begins with a name.** -/
theorem primary_name {n : String} (hn : IsName n) (cs : List Char) :
    primary single (n.toList ++ cs) = call single (n.toList ++ cs) := by
  obtain ⟨first, more, hfirst, hstart⟩ := exists_start_of_isName hn
  have hne {c : Char} (hc : isNameStart c = false) : first ≠ c := Text.ne_of_class hstart hc
  have hmark : first ∉ ['.', '"', '\''] := by
    simp only [List.mem_cons, List.not_mem_nil, or_false, not_or]
    exact ⟨hne (by decide), hne (by decide), hne (by decide)⟩
  have hhead {c : Char} (hc : isNameStart c = false) : (first :: (more ++ cs)).head? ≠ some c := by
    simpa using hne hc
  have hpragma : pragma (first :: (more ++ cs)) = none :=
    lexeme_eq_none (bind_of_eq_none (literal_eq_none
      (afterStart?_eq_none (c := '(') (hhead (by decide)))))
  rw [hfirst, List.cons_append]
  refine (literals_orElse (not_isDigit_of_isNameStart hstart) hmark _ _).trans ?_
  refine (orElse_of_eq_none
    (bind_of_eq_none (token_eq_none (c := '$') rfl (hhead (by decide))))).trans ?_
  refine (orElse_of_eq_none (bind_of_eq_none hpragma)).trans ?_
  exact orElse_of_eq_none (bind_of_eq_none (token_eq_none (c := '(') rfl (hhead (by decide))))

theorem arguments_commas {args : List Surface} (hbegins : ∀ e ∈ args, Text.Begins e.render)
    (h : ∀ e ∈ args, ReadsBracketed single e) (hnone : ∀ cs, single (')' :: cs) = none)
    (rest : List Char) :
    arguments single (Text.commas (args.map fun e => Text.bracketed e.render) ++ ')' :: rest) =
      some (args, ')' :: rest) := by
  cases args with
  | nil => exact orElse_of_eq_none (bind_of_eq_none (hnone rest))
  | cons e args =>
    refine orElse_of_eq_some (separated_commas (List.cons_ne_nil _ _)
      (fun e he => isSettled_bracketed (hbegins e he)) (fun e he after hafter => ?_)
      (Text.atOneOf_cons (by decide) rest) (by simp))
    have hsettled : IsSettled after := isSettled_of_head (hafter.imp (by decide))
    exact h e he hsettled.leaves hafter

/-- **A call is taken back:** its name is not taken for the test of a kind. -/
theorem primary_call {n : String} {args : List Surface} (hn : IsName n)
    (hargs : args = [] → n ≠ "node" ∧ n ≠ "text") (hbegins : ∀ e ∈ args, Text.Begins e.render)
    (h : ∀ e ∈ args, ReadsBracketed single e) (hnone : ∀ cs, single (')' :: cs) = none)
    {rest : List Char} (hrest : IsSettled rest) :
    primary single ((Surface.call n args).render ++ rest) = some (.call n args, rest) := by
  have hread := arguments_commas hbegins h hnone rest
  have hshape : (Surface.call n args).render ++ rest = n.toList ++ '(' ::
      (Text.commas (args.map fun e => Text.bracketed e.render) ++ ')' :: rest) := by
    rw [Surface.render, Surface.renderAll_eq_map, List.map_map, List.append_assoc, Text.bracketed,
      List.cons_append, List.append_assoc, List.singleton_append]
    rfl
  have hinner : IsSettled (Text.commas (args.map fun e => Text.bracketed e.render) ++
      ')' :: rest) := by
    cases args with
    | nil => exact isSettled_cons rfl (by decide) rest
    | cons e args =>
      rw [List.map_cons, Text.commas, List.append_assoc]
      exact isSettled_bracketed (hbegins e List.mem_cons_self) _
  have hhead : (Text.commas (args.map fun e => Text.bracketed e.render) ++ ')' :: rest).head? =
      some (if args = [] then ')' else '(') := by
    cases args <;> rfl
  -- What the name is taken for depends only on how the arguments begin.
  generalize Text.commas (args.map fun e => Text.bracketed e.render) ++ ')' :: rest = inner
    at hread hshape hinner hhead
  have hopenSettled : IsSettled ('(' :: inner) := by
    refine isSettled_open ?_
    rw [hhead]
    split_ifs <;> simp
  have hopen : token "(" ('(' :: inner) = some ((), inner) := token_cons rfl hinner.leaves
  have hclose : token ")" (')' :: rest) = some ((), rest) := token_cons rfl hrest.leaves
  have hkind : kindTest (n.toList ++ '(' :: inner) = none := by
    refine kindTest_eq_none hn (by simp; decide) hopenSettled fun hword after hafter => ?_
    obtain rfl := (Prod.mk.inj (Option.some.inj (hopen.symm.trans hafter))).2
    have hne : args ≠ [] := fun heq => hword.elim (hargs heq).1 (hargs heq).2
    exact token_eq_none (c := ')') rfl (by simp [hhead, hne])
  have hname : name (n.toList ++ '(' :: inner) = some (n, '(' :: inner) :=
    name_append hn (by simp; decide) (by simp) hopenSettled.leaves
  rw [hshape, primary_name hn, call, bind_of_eq_some (notAhead_eq_some.2 ⟨hkind, rfl⟩),
    bind_of_eq_some hname, bind_of_eq_some hopen, bind_of_eq_some hread, bind_of_eq_some hclose]
  rfl

end

end Grammar
end IndexedXml
