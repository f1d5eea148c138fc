/-
# Reading the canonical text back

From the canonical text of a query that was read, the same query is read again
(`Surface.parse_render`).  The levels above paths take their parts of the text back when the
reader of single expressions takes back what is in the parts; the induction is over the query, and
the depth of brackets that the text needs is less than its length.
-/

import IndexedXml.Proofs.Query.Paths

namespace IndexedXml
namespace Grammar

open Reader

variable {single : Reader Surface}

/-! ### Where no expression begins -/

/-- **No expression is taken where one has to end.** -/
theorem disjunction_eq_none {rest : List Char} (h : Text.AtOneOf Text.closers rest) :
    disjunction single rest = none := by
  have hsteps : steps single false rest = none := bind_of_eq_none (step_eq_none h false)
  have hslash {s : String} {start : List Char} (hs : s.toList = '/' :: start) :
      token s rest = none := token_eq_none hs (h.head?_ne (by decide))
  have hpath : path single rest = none :=
    orElse_eq_none.2 ⟨bind_of_eq_none (hslash rfl), orElse_eq_none.2
      ⟨bind_of_eq_none (hslash rfl), bind_of_eq_none hsteps⟩⟩
  have hchain {word : String} {join : Surface → Surface → Surface} {operand : Reader Surface}
      (hnone : operand rest = none) : chain word join operand rest = none :=
    bind_of_eq_none (bind_of_eq_none hnone)
  exact hchain (hchain (bind_of_eq_none hpath))

theorem single_eq_none {rest : List Char} (h : Text.AtOneOf Text.closers rest) :
    ∀ depth, Grammar.single depth rest = none
  | 0 => rfl
  | _ + 1 => disjunction_eq_none h

/-! ### Operands -/

/-- A path is all of a comparison where no sign follows it. -/
theorem comparison_of_path {cs left : List Char} {e : Surface}
    (h : path single cs = some (e, left)) (hleft : ∀ c ∈ left.head?, c ∉ ['=', '!', '<', '>']) :
    comparison single cs = some (e, left) := by
  rw [comparison, bind_of_eq_some h]
  exact orElse_of_eq_none (bind_of_eq_none (comparisonOp_eq_none hleft))

section
variable {word : String} {join : Surface → Surface → Surface} {operand : Reader Surface}

/-- An operand is all of a chain where its word does not follow. -/
theorem chain_of_operand {cs left : List Char} {e : Surface} (h : operand cs = some (e, left))
    (hword : keyword word left = none) : chain word join operand cs = some (e, left) := by
  have hall := separated_of_repeats h (.nil (bind_of_eq_none (f := fun _ => operand) hword))
  exact (bind_of_eq_some hall).trans rfl

/-- **Two operands with the word between them are joined.** -/
theorem chain_of_operands {cs mid mid' left : List Char} {l r : Surface}
    (hl : operand cs = some (l, mid)) (hword : keyword word mid = some ((), mid'))
    (hr : operand mid' = some (r, left)) (hlt : left.length < mid.length)
    (hend : keyword word left = none) : chain word join operand cs = some (join l r, left) := by
  have hmore : (do keyword word; operand : Reader Surface) mid = some (r, left) :=
    (bind_of_eq_some hword).trans hr
  have hall := separated_of_repeats hl
    (.cons hmore hlt (.nil (bind_of_eq_none (f := fun _ => operand) hend)))
  exact (bind_of_eq_some hall).trans rfl

end

theorem keyword_eq_none_of_head {word : String} {c : Char} {start cs : List Char}
    (hword : word.toList = c :: start) (h : cs.head? ≠ some c) : keyword word cs = none :=
  keyword_eq_none (by rw [hword]; exact afterStart?_eq_none h)

/-- **A comparison is all of a single expression** where the expression has to end. -/
theorem disjunction_of_comparison {cs left : List Char} {e : Surface}
    (h : comparison single cs = some (e, left)) (hleft : Text.AtOneOf Text.closers left) :
    disjunction single cs = some (e, left) := by
  have hor : keyword "or" left = none :=
    keyword_eq_none_of_head (c := 'o') rfl (hleft.head?_ne (by decide))
  have hand : keyword "and" left = none :=
    keyword_eq_none_of_head (c := 'a') rfl (hleft.head?_ne (by decide))
  exact chain_of_operand (chain_of_operand h hand) hor

theorem disjunction_of_primary {cs left : List Char} {e : Surface}
    (h : primary single cs = some (e, left)) (hslash : cs.head? ≠ some '/')
    (hleft : Text.AtOneOf Text.closers left) : disjunction single cs = some (e, left) :=
  disjunction_of_comparison
    (comparison_of_path (path_of_primary h hslash (hleft.imp (by decide))) (hleft.imp (by decide)))
    hleft

/-- **An expression in brackets is taken back one level of brackets deeper.** -/
theorem disjunction_bracketed {e : Surface} (h : Reads single e) :
    ReadsBracketed (disjunction single) e := fun _ _ hrest hleft =>
  disjunction_of_primary (primary_bracketed h hrest) (by simp [Text.bracketed]) hleft

/-- The first operand of a chain, before a blank and a word. -/
theorem comparison_before_word {e : Surface} (h : Reads single e) {c : Char}
    (hc : isNameStart c = true) (cs : List Char) :
    comparison single (Text.bracketed e.render ++ ' ' :: c :: cs) = some (e, c :: cs) := by
  have hne {d : Char} (hd : isNameStart d = false) : c ≠ d := Text.ne_of_class hc hd
  have hsettled : IsSettled (c :: cs) :=
    isSettled_cons (Text.not_isAsciiBlank_of_class hc (by decide)) (hne (by decide)) cs
  refine comparison_of_path (path_bracketed h hsettled.leaves_blank ?_) ?_
  · simpa using ⟨hne (by decide), hne (by decide)⟩
  · simpa using ⟨hne (by decide), hne (by decide), hne (by decide), hne (by decide)⟩

/-- The last operand of a chain, where the expression has to end. -/
theorem comparison_at_end {e : Surface} (h : Reads single e) {rest : List Char}
    (hrest : Text.AtOneOf Text.closers rest) :
    comparison single (Text.bracketed e.render ++ rest) = some (e, rest) :=
  comparison_of_path (path_bracketed h (isSettled_of_head (hrest.imp (by decide))).leaves
    (hrest.imp (by decide))) (hrest.imp (by decide))

theorem disjunction_comparison {op : ComparisonOp} {l r : Surface} (hl : Reads single l)
    (hr : Reads single r) {rest : List Char} (hrest : Text.AtOneOf Text.closers rest) :
    disjunction single ((Surface.comparison op l r).render ++ rest) =
      some (.comparison op l r, rest) := by
  have hright : path single (Text.bracketed r.render ++ rest) = some (r, rest) :=
    path_bracketed hr (isSettled_of_head (hrest.imp (by decide))).leaves (hrest.imp (by decide))
  have hop := comparisonOp_append op (isSettled_bracketed hr.begins rest)
  have hsymbol : ∀ c ∈ (op.symbol.toList ++ ' ' :: (Text.bracketed r.render ++ rest)).head?,
      c ∈ ['=', '!', '<', '>'] := by
    cases op <;> simp [ComparisonOp.symbol]
  have hleft := path_bracketed hl
    (isSettled_of_head (Text.AtOneOf.imp hsymbol (by decide))).leaves_blank
    (Text.AtOneOf.imp hsymbol (by decide))
  have hshape : (Surface.comparison op l r).render ++ rest = Text.bracketed l.render ++
      ' ' :: (op.symbol.toList ++ ' ' :: (Text.bracketed r.render ++ rest)) := by
    simp [Surface.render]
  refine disjunction_of_comparison ?_ hrest
  rw [hshape, comparison, bind_of_eq_some hleft]
  refine orElse_of_eq_some ((bind_of_eq_some hop).trans ?_)
  exact (bind_of_eq_some hright).trans rfl

theorem disjunction_and {l r : Surface} (hl : Reads single l) (hr : Reads single r)
    {rest : List Char} (hrest : Text.AtOneOf Text.closers rest) :
    disjunction single ((Surface.and l r).render ++ rest) = some (.and l r, rest) := by
  have hshape : (Surface.and l r).render ++ rest = Text.bracketed l.render ++
      ' ' :: 'a' :: 'n' :: 'd' :: ' ' :: (Text.bracketed r.render ++ rest) := by
    simp [Surface.render]
  have hword : keyword "and" ('a' :: 'n' :: 'd' :: ' ' :: (Text.bracketed r.render ++ rest)) =
      some ((), Text.bracketed r.render ++ rest) :=
    keyword_append ['a', 'n', 'd'] rfl (by simp; decide)
      (isSettled_bracketed hr.begins rest).leaves_blank
  rw [hshape]
  refine chain_of_operand ?_ (keyword_eq_none_of_head (c := 'o') rfl (hrest.head?_ne (by decide)))
  refine chain_of_operands (comparison_before_word hl (by decide) _) hword
    (comparison_at_end hr hrest) ?_
    (keyword_eq_none_of_head (c := 'a') rfl (hrest.head?_ne (by decide)))
  simp only [List.length_cons, List.length_append]
  omega

theorem disjunction_or {l r : Surface} (hl : Reads single l) (hr : Reads single r)
    {rest : List Char} (hrest : Text.AtOneOf Text.closers rest) :
    disjunction single ((Surface.or l r).render ++ rest) = some (.or l r, rest) := by
  have hshape : (Surface.or l r).render ++ rest = Text.bracketed l.render ++
      ' ' :: 'o' :: 'r' :: ' ' :: (Text.bracketed r.render ++ rest) := by
    simp [Surface.render]
  have hword : keyword "or" ('o' :: 'r' :: ' ' :: (Text.bracketed r.render ++ rest)) =
      some ((), Text.bracketed r.render ++ rest) :=
    keyword_append ['o', 'r'] rfl (by simp; decide)
      (isSettled_bracketed hr.begins rest).leaves_blank
  have hand {cs : List Char} (h : cs.head? ≠ some 'a') : keyword "and" cs = none :=
    keyword_eq_none_of_head (c := 'a') rfl h
  rw [hshape]
  refine chain_of_operands
    (chain_of_operand (comparison_before_word hl (by decide) _) (hand (by simp))) hword
    (chain_of_operand (comparison_at_end hr hrest) (hand (hrest.head?_ne (by decide)))) ?_
    (keyword_eq_none_of_head (c := 'o') rfl (hrest.head?_ne (by decide)))
  simp only [List.length_cons, List.length_append]
  omega

/-! ### Whole expressions -/

/-- No text of a query begins a comment. -/
theorem isSettled_render {e : Surface} (he : e.IsWritable) (hdouble : e.IsNotDouble)
    (h : ∀ part ∈ e.inside, Reads single part) (rest : List Char) :
    IsSettled (e.render ++ rest) := by
  cases e with
  | path start ss =>
    rcases start with _ | _ | _
    · obtain ⟨⟨first, more, rfl, _⟩, _⟩ := he
      have hfirst : ∀ part ∈ first.inside, Reads single part := fun part hpart =>
        h part (List.mem_flatMap.2 ⟨first, List.mem_cons_self, hpart⟩)
      simpa [Surface.render] using (plain_step hfirst (Surface.renderSteps more ++ rest)).1
    · cases ss <;> exact isSettled_cons rfl (by decide) _
    · cases ss <;> exact isSettled_cons rfl (by decide) _
  | comparison op l r =>
    rw [Surface.render, List.append_assoc]
    exact isSettled_bracketed (h l List.mem_cons_self).begins _
  | and l r | or l r =>
    rw [Surface.render, List.append_assoc, List.append_assoc]
    exact isSettled_bracketed (h l List.mem_cons_self).begins _
  | sequence items =>
    cases items with
    | nil => exact isSettled_open (by simp [Text.commas, Surface.renderAll])
    | cons e items =>
      have hbegins := ((h e List.mem_cons_self).begins).append
        ((Surface.renderAll items).flatMap fun cs => ',' :: ' ' :: cs)
      rw [Surface.render]
      exact isSettled_bracketed hbegins rest
  | literal v =>
    obtain ⟨c, more, hv, hc⟩ :=
      AtomicValue.exists_first_of_isLiteral he fun d hd => hdouble d (congrArg _ hd)
    rw [Surface.render, hv]
    rcases hc with rfl | hc
    · exact isSettled_cons rfl (by decide) _
    · exact isSettled_cons (Text.not_isAsciiBlank_of_class hc (by decide))
        (Text.ne_of_class hc (by decide)) _
  | «variable» n => exact isSettled_cons rfl (by decide) _
  | call n args =>
    rw [Surface.render, List.append_assoc]
    exact isSettled_name he.1 _
  | pragma decls body =>
    obtain ⟨d, rest, rfl⟩ := List.exists_cons_of_ne_nil he.1
    cases body <;> exact isSettled_open (by simp [PragmaDecl.render])

/-- **An expression is taken back,** whatever it is made of, when its parts are. -/
theorem disjunction_render {e : Surface} (he : e.IsWritable) (hdouble : e.IsNotDouble)
    (h : ∀ part ∈ e.inside, Reads single part)
    (hbracketed : ∀ part ∈ e.inside, ReadsBracketed single part)
    (hnone : ∀ {rest}, Text.AtOneOf Text.closers rest → single rest = none) {rest : List Char}
    (hrest : Text.AtOneOf Text.closers rest) :
    disjunction single (e.render ++ rest) = some (e, rest) := by
  have hclose (cs : List Char) : single (')' :: cs) = none :=
    hnone (Text.atOneOf_cons (by decide) cs)
  have hsettled : IsSettled rest := isSettled_of_head (hrest.imp (by decide))
  cases e with
  | path start ss =>
    exact disjunction_of_comparison
      (comparison_of_path (path_render he h hrest) (hrest.imp (by decide))) hrest
  | comparison op l r =>
    exact disjunction_comparison (h l (by simp [Surface.inside])) (h r (by simp [Surface.inside]))
      hrest
  | and l r =>
    exact disjunction_and (h l (by simp [Surface.inside])) (h r (by simp [Surface.inside])) hrest
  | or l r =>
    exact disjunction_or (h l (by simp [Surface.inside])) (h r (by simp [Surface.inside])) hrest
  | sequence items =>
    exact disjunction_of_primary (primary_sequence he h hclose hsettled)
      (by simp [Surface.render, Text.bracketed]) hrest
  | literal v =>
    have hnot : ∀ d, v ≠ .double d := fun d hd => hdouble d (congrArg _ hd)
    refine disjunction_of_primary (primary_literal he hnot hrest) ?_ hrest
    obtain ⟨c, more, hv, hc⟩ := AtomicValue.exists_first_of_isLiteral he hnot
    rw [Surface.render, hv]
    rcases hc with rfl | hc
    · simp
    · have hne : c ≠ '/' := Text.ne_of_class hc (by decide)
      simpa using hne
  | «variable» n =>
    exact disjunction_of_primary (primary_variable he hrest) (by simp [Surface.render]) hrest
  | call n args =>
    refine disjunction_of_primary
      (primary_call he.1 he.2 (fun e hmem => (h e hmem).begins) hbracketed hclose hsettled) ?_ hrest
    rw [Surface.render, List.append_assoc]
    exact head?_name he.1 (by decide) _
  | pragma decls body =>
    obtain ⟨cs, hshape, hcs, hbody⟩ : ∃ cs, (Surface.pragma decls body).render ++ rest =
        decls.flatMap (fun d => d.render ++ [' ']) ++ '\x7b' :: ' ' :: cs ∧ IsSettled cs ∧
          expression? single cs = some (body, '\x7d' :: rest) := by
      cases body with
      | none =>
        refine ⟨'\x7d' :: rest, by simp [Surface.render], isSettled_cons rfl (by decide) rest, ?_⟩
        exact expression?_of_eq_none (hnone (Text.atOneOf_cons (by decide) rest))
      | some e =>
        have hmem : e ∈ (Surface.pragma decls (some e)).inside := List.mem_singleton.2 rfl
        have hend : IsSettled ('\x7d' :: rest) := isSettled_cons rfl (by decide) rest
        have hread := hbracketed e hmem hend.leaves_blank (Text.atOneOf_cons (by decide) rest)
        refine ⟨Text.bracketed e.render ++ ' ' :: '\x7d' :: rest, by simp [Surface.render],
          isSettled_bracketed (h e hmem).begins _, ?_⟩
        exact expression?_of_expression (expression_of_single hread (by simp))
    rw [hshape]
    refine disjunction_of_primary (primary_pragma he.1 he.2 hcs hbody hsettled) ?_ hrest
    obtain ⟨d, decls, rfl⟩ := List.exists_cons_of_ne_nil he.1
    simp [PragmaDecl.render]

/-- **At every depth that is not less than the length of its text an expression is taken
back.** -/
theorem reads_single {e : Surface} (hall : e.Everywhere Surface.IsWritable)
    (hexact : e.Everywhere Surface.IsNotDouble) :
    ∀ depth, e.render.length ≤ depth → Reads (Grammar.single depth) e := by
  induction e using Surface.induct_inside with
  | h e ih =>
    obtain ⟨he, hall⟩ := Surface.everywhere_iff.1 hall
    obtain ⟨hdouble, hexact⟩ := Surface.everywhere_iff.1 hexact
    intro depth hdepth
    have hbegins := Surface.begins_render he hdouble
    obtain ⟨depth, rfl⟩ : ∃ d, depth = d + 1 := by
      obtain ⟨c, more, hc, _⟩ := hbegins
      rw [hc, List.length_cons] at hdepth
      exact ⟨depth - 1, by omega⟩
    -- A part is two characters shorter, so that a level is left for it and for brackets around it.
    have hparts : ∀ part ∈ e.inside, Reads (Grammar.single depth) part := by
      intro part hpart
      have hlength := Surface.length_le_of_mem_inside hpart
      exact ih part hpart (hall part hpart) (hexact part hpart) depth (by omega)
    have hbracketed : ∀ part ∈ e.inside, ReadsBracketed (Grammar.single depth) part := by
      intro part hpart
      have hlength := Surface.length_le_of_mem_inside hpart
      obtain ⟨d, rfl⟩ : ∃ d, depth = d + 1 := ⟨depth - 1, by omega⟩
      exact disjunction_bracketed
        (ih part hpart (hall part hpart) (hexact part hpart) d (by omega))
    exact ⟨hbegins, isSettled_render he hdouble hparts, fun hrest =>
      disjunction_render he hdouble hparts hbracketed (fun h => single_eq_none h depth) hrest⟩

end Grammar

/-- **A query is read from its canonical text,** for every query that was read from any text and
has no double in it. -/
theorem Surface.parse_render {s : String} {e : Surface} (h : Surface.parse s = .ok e)
    (hdouble : e.Everywhere Surface.IsNotDouble) : Surface.parse (.ofList e.render) = .ok e := by
  have hall := Surface.everywhere_isWritable_of_parse h
  have hreads := Grammar.reads_single hall hdouble (e.render.length + 1) (Nat.le_succ _)
  have hend : Text.AtOneOf Text.closers [] := nofun
  have hread : Grammar.single (e.render.length + 1) e.render = some (e, []) := by
    simpa using hreads.bare hend
  have hsettled : Reader.IsSettled e.render := by simpa using hreads.settled []
  obtain ⟨_, hfit⟩ := Surface.parse_eq_ok.1 h
  refine Surface.parse_eq_ok.2 ⟨⟨[], ?_⟩, hfit⟩
  rw [String.length_ofList, String.toList_ofList, Grammar.query,
    Reader.bind_of_eq_some hsettled.leaves,
    Reader.bind_of_eq_some (Grammar.expression_of_single hread (by simp))]
  rfl

/-- A query with abbreviated steps, a comparison, a call, a chain and a pragma is read, and it is
read back from its full text. -/
theorem Surface.parse_render_abbreviated :
    ∃ e, Surface.parse "//a[@b = 'c']/.. and f(1, $v) or (#x:y z#)\x7b()\x7d" = .ok e ∧
      e.Everywhere Surface.IsNotDouble ∧
      String.ofList e.render =
        "((//child::a[(attribute::b) = (\"c\")]/parent::node()) and (f((1), ($v))))" ++
          " or ((# x:y z #) \x7b (()) \x7d)" ∧
      Surface.parse (.ofList e.render) = .ok e := by
  have hread : (Surface.parse "//a[@b = 'c']/.. and f(1, $v) or (#x:y z#)\x7b()\x7d").toOption.any
      (fun e => decide (e.Everywhere Surface.IsNotDouble ∧ String.ofList e.render =
        "((//child::a[(attribute::b) = (\"c\")]/parent::node()) and (f((1), ($v))))" ++
          " or ((# x:y z #) \x7b (()) \x7d)")) = true := by
    decide +kernel
  cases hparse : Surface.parse "//a[@b = 'c']/.. and f(1, $v) or (#x:y z#)\x7b()\x7d" with
  | error cause =>
    rw [hparse] at hread
    cases hread
  | ok e =>
    rw [hparse] at hread
    obtain ⟨hexact, htext⟩ := of_decide_eq_true hread
    exact ⟨e, rfl, hexact, htext, Surface.parse_render hparse hexact⟩

end IndexedXml
