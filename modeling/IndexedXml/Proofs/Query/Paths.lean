/-
# Reading paths back

The steps and paths of the canonical text are taken back, and so is a primary in brackets where a
path may stand, given a reader of single expressions that takes back what is in them.
A step is told from a primary since no primary begins with the name of an axis and two colons.
-/

import IndexedXml.Proofs.Query.Primaries

namespace IndexedXml
namespace Grammar

open Reader

variable {single : Reader Surface}

/-! ### Steps -/

theorem step_eq_none {rest : List Char} (h : Text.AtOneOf Text.closers rest) (descendant : Bool) :
    step single descendant rest = none := by
  cases rest with
  | nil => rfl
  | cons c rest =>
    have hc := h c rfl
    simp only [Text.closers, List.mem_cons, List.not_mem_nil, or_false] at hc
    rcases hc with rfl | rfl | rfl | rfl <;> rfl

theorem isSettled_test {t : SurfaceTest} (ht : t.IsWritable) (rest : List Char) :
    IsSettled (t.render ++ rest) := by
  cases t with
  | name n => exact isSettled_name ht rest
  | wildcard | anyNode | text => exact isSettled_cons rfl (by decide) _

theorem stepHead_axis {a : Axis} {t : SurfaceTest} (ha : a ≠ .descendantAttr) (ht : t.IsWritable)
    {rest : List Char} (hrest : Text.AtOneOf ('[' :: '/' :: Text.closers) rest) :
    stepHead (a.name.toList ++ ':' :: ':' :: (t.render ++ rest)) = some ((a, t), rest) := by
  have hdot : (a.name.toList ++ ':' :: ':' :: (t.render ++ rest)).head? ≠ some '.' :=
    head?_name (isName_axis a) (by decide) _
  have hcolons : token "::" (':' :: ':' :: (t.render ++ rest)) = some ((), t.render ++ rest) :=
    token_cons_cons rfl (isSettled_test ht rest).leaves
  refine (orElse_of_eq_none (bind_of_eq_none (token_eq_none (c := '.') rfl hdot))).trans ?_
  refine (orElse_of_eq_none (bind_of_eq_none (token_eq_none (c := '.') rfl hdot))).trans ?_
  refine orElse_of_eq_some ((bind_of_eq_some (axis_append ha _)).trans ?_)
  rw [bind_of_eq_some hcolons, bind_of_eq_some (nodeTest_render ht hrest)]
  rfl

/-- The name of an axis is not the name of a function. -/
theorem primary_axis (a : Axis) (cs : List Char) :
    primary single (a.name.toList ++ ':' :: ':' :: cs) = none := by
  have hsettled : IsSettled (':' :: ':' :: cs) := isSettled_cons rfl (by decide) _
  have hname : name (a.name.toList ++ ':' :: ':' :: cs) = some (a.name, ':' :: ':' :: cs) := by
    refine name_append (isName_axis a) (by simp; decide) (fun more hmore => ?_) hsettled.leaves
    obtain rfl := (List.cons.inj hmore).2
    exact namePart_eq_none (by decide) cs
  rw [primary_name (isName_axis a), call]
  cases hahead : notAhead kindTest (a.name.toList ++ ':' :: ':' :: cs) with
  | none => exact bind_of_eq_none hahead
  | some p =>
    obtain ⟨⟨⟩, cs'⟩ := p
    obtain ⟨_, rfl⟩ := notAhead_eq_some.1 hahead
    rw [bind_of_eq_some hahead, bind_of_eq_some hname]
    exact bind_of_eq_none (token_eq_none (c := '(') rfl (by simp))

theorem atOneOf_inSquares (texts : List (List Char)) {rest : List Char}
    (hrest : Text.AtOneOf ('/' :: Text.closers) rest) :
    Text.AtOneOf ('[' :: '/' :: Text.closers) (Text.inSquares texts ++ rest) := by
  cases texts with
  | nil => exact hrest.mono (List.subset_cons_self _ _)
  | cons cs texts => exact Text.atOneOf_cons (by simp) _

/-- **Conditions are taken back one after the other.** -/
theorem repeats_predicate {conditions : List Surface} (h : ∀ e ∈ conditions, Reads single e)
    {rest : List Char} (hrest : Text.AtOneOf ('/' :: Text.closers) rest) :
    Repeats (predicate single) (Text.inSquares (conditions.map Surface.render) ++ rest)
      conditions rest := by
  induction conditions with
  | nil => exact .nil (bind_of_eq_none (token_eq_none (c := '[') rfl (hrest.head?_ne (by decide))))
  | cons e conditions ih =>
    obtain ⟨he, h⟩ := List.forall_mem_cons.1 h
    have hshape : Text.inSquares ((e :: conditions).map Surface.render) ++ rest = '[' ::
        (e.render ++ ']' :: (Text.inSquares (conditions.map Surface.render) ++ rest)) := by
      simp [Text.inSquares]
    have hnext := atOneOf_inSquares (conditions.map Surface.render) hrest
    have ih := ih h
    rw [hshape]
    generalize Text.inSquares (conditions.map Surface.render) ++ rest = next at hnext ih
    have hsettled : IsSettled next := isSettled_of_head (hnext.imp (by decide))
    have hopen : token "[" ('[' :: (e.render ++ ']' :: next)) =
        some ((), e.render ++ ']' :: next) := token_cons rfl (he.settled _).leaves
    have hclose : token "]" (']' :: next) = some ((), next) := token_cons rfl hsettled.leaves
    have hexpression : expression single (e.render ++ ']' :: next) = some (e, ']' :: next) :=
      expression_of_single (he.bare (Text.atOneOf_cons (by decide) next)) (by simp)
    have hpredicate : predicate single ('[' :: (e.render ++ ']' :: next)) = some (e, next) := by
      rw [predicate, bind_of_eq_some hopen, bind_of_eq_some hexpression, bind_of_eq_some hclose]
      rfl
    refine .cons hpredicate ?_ ih
    simp only [List.length_cons, List.length_append]
    omega

/-- **A step is taken back** before a slash or the end of the expression. -/
theorem step_render {s : SurfaceStep} (hs : s.IsWritable)
    (h : ∀ part ∈ s.inside, Reads single part) {rest : List Char}
    (hrest : Text.AtOneOf ('/' :: Text.closers) rest) :
    step single s.descendant (s.render ++ rest) = some (s, rest) := by
  cases s with
  | axis descendant a t conditions =>
    have hconditions : ∀ e ∈ conditions, Reads single e := h
    have hmany := (repeats_predicate hconditions hrest).many
    have hnext := atOneOf_inSquares (conditions.map Surface.render) hrest
    have hshape : (SurfaceStep.axis descendant a t conditions).render ++ rest = a.name.toList ++
        ':' :: ':' :: (t.render ++ (Text.inSquares (conditions.map Surface.render) ++ rest)) := by
      simp [SurfaceStep.render, Surface.renderAll_eq_map]
    rw [hshape]
    refine (orElse_of_eq_none (bind_of_eq_none (primary_axis a _))).trans ?_
    refine (bind_of_eq_some (stepHead_axis hs.1 hs.2 hnext)).trans ?_
    exact (bind_of_eq_some hmany).trans rfl
  | filter descendant e conditions =>
    obtain ⟨he, hconditions⟩ := List.forall_mem_cons.1 h
    have hmany := (repeats_predicate hconditions hrest).many
    have hnext := atOneOf_inSquares (conditions.map Surface.render) hrest
    have hprimary := primary_bracketed he (isSettled_of_head (hnext.imp (by decide))).leaves
    rw [SurfaceStep.render, Surface.renderAll_eq_map, List.append_assoc]
    refine orElse_of_eq_some ((bind_of_eq_some hprimary).trans ?_)
    exact (bind_of_eq_some hmany).trans rfl

/-! ### Paths -/

/-- A step begins with the name of an axis or with a bracket. -/
theorem plain_step {s : SurfaceStep} (h : ∀ part ∈ s.inside, Reads single part)
    (rest : List Char) :
    IsSettled (s.render ++ rest) ∧ (s.render ++ rest).head? ≠ some '/' := by
  cases s with
  | axis _ a _ _ =>
    simp only [SurfaceStep.render, List.append_assoc]
    exact ⟨isSettled_name (isName_axis a) _, head?_name (isName_axis a) (by decide) _⟩
  | filter _ e _ =>
    rw [SurfaceStep.render, List.append_assoc]
    exact ⟨isSettled_bracketed (h e List.mem_cons_self).begins _, by simp [Text.bracketed]⟩

theorem atOneOf_renderSteps (ss : List SurfaceStep) {rest : List Char}
    (hrest : Text.AtOneOf Text.closers rest) :
    Text.AtOneOf ('/' :: Text.closers) (Surface.renderSteps ss ++ rest) := by
  cases ss with
  | nil => exact hrest.mono (List.subset_cons_self _ _)
  | cons s ss =>
    rw [Surface.renderSteps, SurfaceStep.slash]
    split <;> exact Text.atOneOf_cons (by simp) _

/-- No further step is taken where no slash stands. -/
theorem moreSteps_eq_none {cs : List Char} (h : cs.head? ≠ some '/') :
    ((do token "//"; step single true) <|> (do token "/"; step single false)) cs = none :=
  orElse_eq_none.2 ⟨bind_of_eq_none (token_eq_none (c := '/') rfl h),
    bind_of_eq_none (token_eq_none (c := '/') rfl h)⟩

/-- **Steps with their slashes are taken back one after the other.** -/
theorem repeats_step {ss : List SurfaceStep} (hw : ∀ s ∈ ss, s.IsWritable)
    (h : ∀ s ∈ ss, ∀ part ∈ s.inside, Reads single part) {rest : List Char}
    (hrest : Text.AtOneOf Text.closers rest) :
    Repeats ((do token "//"; step single true) <|> (do token "/"; step single false))
      (Surface.renderSteps ss ++ rest) ss rest := by
  induction ss with
  | nil => exact .nil (moreSteps_eq_none (hrest.head?_ne (by decide)))
  | cons s ss ih =>
    obtain ⟨hs, hw⟩ := List.forall_mem_cons.1 hw
    obtain ⟨hparts, h⟩ := List.forall_mem_cons.1 h
    have hnext := atOneOf_renderSteps ss hrest
    have ih := ih hw h
    have hshape : Surface.renderSteps (s :: ss) ++ rest =
        s.slash ++ (s.render ++ (Surface.renderSteps ss ++ rest)) := by
      simp [Surface.renderSteps]
    rw [hshape]
    generalize Surface.renderSteps ss ++ rest = next at hnext ih
    have hstep := step_render hs hparts hnext
    obtain ⟨hsettled, hhead⟩ := plain_step hparts next
    have hread : ((do token "//"; step single true) <|> (do token "/"; step single false))
        (s.slash ++ (s.render ++ next)) = some (s, next) := by
      rw [SurfaceStep.slash]
      cases hdescendant : s.descendant with
      | true =>
        rw [hdescendant] at hstep
        have hmark : token "//" ('/' :: '/' :: (s.render ++ next)) =
            some ((), s.render ++ next) := token_cons_cons rfl hsettled.leaves
        exact orElse_of_eq_some ((bind_of_eq_some hmark).trans hstep)
      | false =>
        rw [hdescendant] at hstep
        have hdouble : token "//" ('/' :: (s.render ++ next)) = none :=
          lexeme_eq_none (literal_eq_none ((if_pos rfl).trans
            (afterStart?_eq_none (c := '/') hhead)))
        have hmark : token "/" ('/' :: (s.render ++ next)) = some ((), s.render ++ next) :=
          token_cons rfl hsettled.leaves
        refine (orElse_of_eq_none (bind_of_eq_none hdouble)).trans ?_
        exact (bind_of_eq_some hmark).trans hstep
    refine .cons hread ?_ ih
    have hpos : 0 < s.slash.length := by
      rw [SurfaceStep.slash]
      split <;> simp
    simp only [List.length_append]
    omega

theorem steps_render {first : SurfaceStep} {ss : List SurfaceStep}
    (hw : ∀ s ∈ first :: ss, s.IsWritable)
    (h : ∀ part ∈ (first :: ss).flatMap SurfaceStep.inside, Reads single part) {rest : List Char}
    (hrest : Text.AtOneOf Text.closers rest) :
    steps single first.descendant (first.render ++ (Surface.renderSteps ss ++ rest)) =
      some (first :: ss, rest) := by
  have hparts : ∀ s ∈ first :: ss, ∀ part ∈ s.inside, Reads single part :=
    fun s hs part hpart => h part (List.mem_flatMap.2 ⟨s, hs, hpart⟩)
  obtain ⟨hfirst, hw⟩ := List.forall_mem_cons.1 hw
  obtain ⟨hfirstParts, hparts⟩ := List.forall_mem_cons.1 hparts
  have hnext := atOneOf_renderSteps ss hrest
  rw [steps, bind_of_eq_some (step_render hfirst hfirstParts hnext),
    bind_of_eq_some (repeats_step hw hparts hrest).many]
  rfl

/-- A path that begins with no slash consists of steps. -/
theorem path_of_steps {cs left : List Char} {ss : List SurfaceStep}
    (h : steps single false cs = some (ss, left)) (hslash : cs.head? ≠ some '/') :
    path single cs = some (ofSteps ss, left) := by
  refine (orElse_of_eq_none (bind_of_eq_none (token_eq_none (c := '/') rfl hslash))).trans ?_
  refine (orElse_of_eq_none (bind_of_eq_none (token_eq_none (c := '/') rfl hslash))).trans ?_
  exact (bind_of_eq_some h).trans rfl

/-- A single slash is not taken for two. -/
theorem doubleSlash_eq_none {cs : List Char} (h : cs.head? ≠ some '/') :
    token "//" ('/' :: cs) = none :=
  lexeme_eq_none (literal_eq_none ((if_pos rfl).trans (afterStart?_eq_none (c := '/') h)))

/-- What follows the slashes at the beginning of a path. -/
theorem exists_text_of_steps {descendant : Bool} {ss : List SurfaceStep}
    (hw : SurfaceStep.AreWritable descendant ss)
    (h : ∀ part ∈ ss.flatMap SurfaceStep.inside, Reads single part) {rest : List Char}
    (hrest : Text.AtOneOf Text.closers rest) :
    ∃ text, (∀ start, (Surface.path start ss).render ++ rest =
      start.elim [] PathStart.render ++ text) ∧ IsSettled text ∧ text.head? ≠ some '/' ∧
        steps single descendant text = some (ss, rest) := by
  obtain ⟨first, more, rfl, rfl, hw⟩ := hw
  have hfirst : ∀ part ∈ first.inside, Reads single part := fun part hpart =>
    h part (List.mem_flatMap.2 ⟨first, List.mem_cons_self, hpart⟩)
  obtain ⟨hsettled, hhead⟩ := plain_step hfirst (Surface.renderSteps more ++ rest)
  exact ⟨_, fun _ => by simp [Surface.render], hsettled, hhead, steps_render hw h hrest⟩

/-- **A path is taken back** with the slashes at its beginning. -/
theorem path_render {start : Option PathStart} {ss : List SurfaceStep}
    (he : (Surface.path start ss).IsWritable)
    (h : ∀ part ∈ ss.flatMap SurfaceStep.inside, Reads single part) {rest : List Char}
    (hrest : Text.AtOneOf Text.closers rest) :
    path single ((Surface.path start ss).render ++ rest) = some (.path start ss, rest) := by
  rcases start with _ | _ | _
  · obtain ⟨hw, hlone⟩ := he
    obtain ⟨text, hshape, _, hhead, hread⟩ := exists_text_of_steps hw h hrest
    have hpath : ofSteps ss = .path none ss := by
      rw [ofSteps.eq_def]
      split
      · exact absurd rfl (hlone _ _)
      · rfl
    rw [hshape, ← hpath]
    exact path_of_steps hread hhead
  · obtain ⟨text, hshape, hsettled, hhead, hread⟩ : ∃ text,
        (Surface.path (some .root) ss).render ++ rest = '/' :: text ∧ IsSettled text ∧
          text.head? ≠ some '/' ∧ (steps single false <|> pure []) text = some (ss, rest) := by
      rcases he with rfl | hw
      · have hnone : steps single false rest = none := bind_of_eq_none (step_eq_none hrest false)
        exact ⟨rest, rfl, isSettled_of_head (hrest.imp (by decide)), hrest.head?_ne (by decide),
          orElse_of_eq_none hnone⟩
      · obtain ⟨text, hshape, hsettled, hhead, hread⟩ := exists_text_of_steps hw h hrest
        exact ⟨text, hshape _, hsettled, hhead, orElse_of_eq_some hread⟩
    have hmark : token "/" ('/' :: text) = some ((), text) := token_cons rfl hsettled.leaves
    rw [hshape]
    refine (orElse_of_eq_none (bind_of_eq_none (doubleSlash_eq_none hhead))).trans ?_
    refine orElse_of_eq_some ((bind_of_eq_some hmark).trans ?_)
    exact (bind_of_eq_some hread).trans rfl
  · obtain ⟨text, hshape, hsettled, _, hread⟩ := exists_text_of_steps he h hrest
    have hmark : token "//" ('/' :: '/' :: text) = some ((), text) :=
      token_cons_cons rfl hsettled.leaves
    rw [hshape]
    refine orElse_of_eq_some ((bind_of_eq_some hmark).trans ?_)
    exact (bind_of_eq_some hread).trans rfl

/-- **A primary without slashes or conditions around it is all of a path.** -/
theorem path_of_primary {cs left : List Char} {e : Surface}
    (h : primary single cs = some (e, left)) (hslash : cs.head? ≠ some '/')
    (hleft : ∀ c ∈ left.head?, c ≠ '/' ∧ c ≠ '[') : path single cs = some (e, left) := by
  have hend : left.head? ≠ some '/' := fun heq => (hleft _ heq).1 rfl
  have hpredicate : Repeats (predicate single) left [] left :=
    .nil (bind_of_eq_none (token_eq_none (c := '[') rfl fun heq => (hleft _ heq).2 rfl))
  have hmore : Repeats ((do token "//"; step single true) <|> (do token "/"; step single false))
      left [] left := .nil (moreSteps_eq_none hend)
  have hstep : step single false cs = some (.filter false e [], left) :=
    orElse_of_eq_some ((bind_of_eq_some h).trans ((bind_of_eq_some hpredicate.many).trans rfl))
  have hsteps : steps single false cs = some ([.filter false e []], left) := by
    rw [steps, bind_of_eq_some hstep, bind_of_eq_some hmore.many]
    rfl
  exact path_of_steps hsteps hslash

/-- An operand in brackets. -/
theorem path_bracketed {e : Surface} (h : Reads single e) {rest left : List Char}
    (hrest : Leaves rest left) (hleft : ∀ c ∈ left.head?, c ≠ '/' ∧ c ≠ '[') :
    path single (Text.bracketed e.render ++ rest) = some (e, left) :=
  path_of_primary (primary_bracketed h hrest) (by simp [Text.bracketed]) hleft

end Grammar
end IndexedXml
