/-
# The queries that are read

Whatever the grammar reads can be written (`Surface.everywhere_isWritable_of_parse`): names are
names, a path is not a lone primary, a sequence does not have one item, no step leaves along an
axis that has no spelling.  Each level is shown to give such queries when the reader of single
expressions does, and by induction on the depth of brackets that reader does.
-/

import IndexedXml.Query.Grammar
import IndexedXml.Proofs.Query.Rendering

namespace IndexedXml
namespace Grammar

open Reader

/-! ### Steps -/

theorem gives_kindTest : Gives kindTest SurfaceTest.IsWritable :=
  Gives.orElse (gives_bind fun _ => gives_bind fun _ => gives_bind fun _ => gives_pure trivial)
    (gives_bind fun _ => gives_bind fun _ => gives_bind fun _ => gives_pure trivial)

theorem gives_nodeTest : Gives nodeTest SurfaceTest.IsWritable :=
  Gives.orElse gives_kindTest <| Gives.orElse (gives_bind fun _ => gives_pure trivial)
    (gives_name.bind fun _ hn => gives_pure hn)

theorem gives_stepHead :
    Gives stepHead fun head => head.1 ≠ .descendantAttr ∧ head.2.IsWritable := by
  refine Gives.orElse ?parent <| Gives.orElse ?self <| Gives.orElse ?spelled <|
    Gives.orElse ?attr ?child
  case parent | self => exact gives_bind fun _ => gives_pure ⟨by decide, trivial⟩
  case spelled =>
    exact gives_axis.bind fun a ha => gives_bind fun _ => gives_nodeTest.bind fun t ht =>
      gives_pure ⟨ha, ht⟩
  case attr => exact gives_bind fun _ => gives_nodeTest.bind fun t ht => gives_pure ⟨nofun, ht⟩
  case child => exact gives_nodeTest.bind fun t ht => gives_pure ⟨nofun, ht⟩

/-! ### Putting together -/

theorem everywhere_ofSteps {ss : List SurfaceStep} (h : SurfaceStep.AreWritable false ss)
    (hinside : ∀ part ∈ ss.flatMap SurfaceStep.inside, part.Everywhere Surface.IsWritable) :
    (ofSteps ss).Everywhere Surface.IsWritable := by
  rw [ofSteps.eq_def]
  split
  · exact hinside _ (by simp [SurfaceStep.inside])
  · next hlone => exact .intro ⟨h, fun descendant e heq => hlone descendant e heq⟩ hinside

/-- Two queries make one that can be written. -/
theorem everywhere_sides (join : Surface → Surface → Surface)
    (hjoin : ∀ left right, (join left right).IsWritable)
    (hinside : ∀ left right, (join left right).inside = [left, right]) {left right : Surface}
    (hleft : left.Everywhere Surface.IsWritable) (hright : right.Everywhere Surface.IsWritable) :
    (join left right).Everywhere Surface.IsWritable := by
  refine .intro (hjoin left right) ?_
  rw [hinside]
  exact List.forall_mem_cons.2 ⟨hleft, List.forall_mem_singleton.2 hright⟩

theorem gives_chain {word : String} {join : Surface → Surface → Surface} {operand : Reader Surface}
    (hjoin : ∀ left right, (join left right).IsWritable)
    (hinside : ∀ left right, (join left right).inside = [left, right])
    (h : Gives operand (Surface.Everywhere Surface.IsWritable)) :
    Gives (chain word join operand) (Surface.Everywhere Surface.IsWritable) := by
  refine h.separated.bind fun operands hoperands => ?_
  obtain ⟨first, rest, rfl⟩ := List.exists_cons_of_ne_nil hoperands.1
  obtain ⟨hfirst, hrest⟩ := List.forall_mem_cons.1 hoperands.2
  refine gives_pure ?_
  clear hoperands
  induction rest generalizing first with
  | nil => exact hfirst
  | cons e rest ih =>
    obtain ⟨he, hrest⟩ := List.forall_mem_cons.1 hrest
    exact ih _ (everywhere_sides join hjoin hinside hfirst he) hrest

/-! ### Levels -/

/-- The call of a function, which is the last alternative of a primary. -/
def call (single : Reader Surface) : Reader Surface := do
  notAhead kindTest
  let n ← name
  token "("
  let args ← arguments single
  token ")"
  pure (.call n args)

section
variable {single : Reader Surface} (hsingle : Gives single (Surface.Everywhere Surface.IsWritable))
include hsingle

theorem gives_expression :
    Gives (expression single) (Surface.Everywhere Surface.IsWritable) := by
  refine hsingle.separated.bind fun items ⟨_, hitems⟩ => ?_
  split
  · exact gives_pure (hitems _ (List.mem_singleton.2 rfl))
  · next hone =>
    refine gives_pure (.intro (fun hlength => ?_) hitems)
    obtain ⟨e, rfl⟩ := List.length_eq_one_iff.1 hlength
    exact hone e rfl

theorem gives_expression? : Gives (expression? single) fun body =>
    ∀ part ∈ body.toList, part.Everywhere Surface.IsWritable :=
  Gives.orElse
    ((gives_expression hsingle).bind fun _ he => gives_pure (by simpa using he)) (gives_pure nofun)

theorem gives_predicates : Gives (many (predicate single)) fun conditions =>
    ∀ part ∈ conditions, part.Everywhere Surface.IsWritable := by
  refine Gives.many (gives_bind fun _ => ?_)
  exact (gives_expression hsingle).bind fun _ he => gives_bind fun _ => gives_pure he

/-- A function without arguments is not named like a kind of node: it would have been read as the
test of that kind. -/
theorem gives_call : Gives (call single) (Surface.Everywhere Surface.IsWritable) := by
  intro cs e rest hread
  obtain ⟨⟨⟩, cs', hahead, hread⟩ := bind_eq_some.1 hread
  obtain ⟨hkind, rfl⟩ := notAhead_eq_some.1 hahead
  obtain ⟨n, mid, hname, hread⟩ := bind_eq_some.1 hread
  obtain ⟨⟨⟩, inner, hopen, hread⟩ := bind_eq_some.1 hread
  obtain ⟨args, after, hargs, hread⟩ := bind_eq_some.1 hread
  obtain ⟨⟨⟩, left, hclose, hread⟩ := bind_eq_some.1 hread
  obtain ⟨rfl, -⟩ := pure_eq_some.1 hread
  have hinside : Gives (arguments single) fun args =>
      ∀ part ∈ args, part.Everywhere Surface.IsWritable :=
    Gives.orElse (hsingle.separated.imp fun _ h => h.2) (gives_pure nofun)
  refine .intro ⟨gives_name hname, ?_⟩ (hinside hargs)
  rintro rfl
  obtain rfl : inner = after := by
    rcases orElse_eq_some hargs with hargs | ⟨_, hargs⟩
    · exact absurd rfl (hsingle.separated hargs).1
    · exact (pure_eq_some.1 hargs).2
  obtain ⟨text, hname, hleaves⟩ := exists_leaves_of_lexeme hname
  obtain ⟨rfl, _⟩ := eq_append_of_nameText hname
  have hword {t : SurfaceTest} (word : String) (hnone : (do
      token word; token "("; token ")"; pure t : Reader SurfaceTest) (n.toList ++ text) = none) :
      n ≠ word := by
    rintro rfl
    rw [bind_of_eq_some (token_append rfl hleaves), bind_of_eq_some hopen,
      bind_of_eq_some hclose] at hnone
    cases hnone
  obtain ⟨hnode, htext⟩ := orElse_eq_none.1 hkind
  exact ⟨hword "node" hnode, hword "text" htext⟩

theorem gives_primary : Gives (primary single) (Surface.Everywhere Surface.IsWritable) := by
  refine Gives.orElse ?number <| Gives.orElse ?quoted <| Gives.orElse ?var <|
    Gives.orElse ?pragma <| Gives.orElse ?bracket (gives_call hsingle)
  case number => exact gives_number.bind fun v hv => gives_pure (.intro hv nofun)
  case quoted => exact gives_quoted.bind fun v hv => gives_pure (.intro hv nofun)
  case var => exact gives_bind fun _ => gives_name.bind fun n hn => gives_pure (.intro hn nofun)
  case pragma =>
    exact gives_pragma.bind fun first hfirst => gives_pragma.many.bind fun rest hrest =>
      gives_bind fun _ => (gives_expression? hsingle).bind fun body hbody => gives_bind fun _ =>
        gives_pure (.intro ⟨List.cons_ne_nil _ _, List.forall_mem_cons.2 ⟨hfirst, hrest⟩⟩ hbody)
  case bracket =>
    refine gives_bind fun _ => (gives_expression? hsingle).bind fun body hbody =>
      gives_bind fun _ => gives_pure ?_
    cases body with
    | none => exact .intro Nat.zero_ne_one nofun
    | some e => exact hbody e (List.mem_singleton.2 rfl)

theorem gives_step (descendant : Bool) : Gives (step single descendant) fun s =>
    (s.descendant = descendant ∧ s.IsWritable) ∧
      ∀ part ∈ s.inside, part.Everywhere Surface.IsWritable :=
  Gives.orElse
    ((gives_primary hsingle).bind fun _ he => (gives_predicates hsingle).bind fun _ hconditions =>
      gives_pure ⟨⟨rfl, trivial⟩, List.forall_mem_cons.2 ⟨he, hconditions⟩⟩)
    (gives_stepHead.bind fun _ hhead => (gives_predicates hsingle).bind fun _ hconditions =>
      gives_pure ⟨⟨rfl, hhead⟩, hconditions⟩)

theorem gives_steps (descendant : Bool) : Gives (steps single descendant) fun ss =>
    SurfaceStep.AreWritable descendant ss ∧
      ∀ part ∈ ss.flatMap SurfaceStep.inside, part.Everywhere Surface.IsWritable := by
  have hmore : Gives ((do token "//"; step single true) <|> (do token "/"; step single false))
      fun s => s.IsWritable ∧ ∀ part ∈ s.inside, part.Everywhere Surface.IsWritable :=
    Gives.orElse (gives_bind fun _ => (gives_step hsingle true).imp fun _ h => ⟨h.1.2, h.2⟩)
      (gives_bind fun _ => (gives_step hsingle false).imp fun _ h => ⟨h.1.2, h.2⟩)
  refine (gives_step hsingle descendant).bind fun first hfirst => hmore.many.bind fun rest hrest =>
    gives_pure ⟨⟨first, rest, rfl, hfirst.1.1, ?_⟩, fun part hpart => ?_⟩
  · exact List.forall_mem_cons.2 ⟨hfirst.1.2, fun s hs => (hrest s hs).1⟩
  · obtain ⟨s, hs, hinside⟩ := List.mem_flatMap.1 hpart
    rcases List.mem_cons.1 hs with rfl | hs
    · exact hfirst.2 part hinside
    · exact (hrest s hs).2 part hinside

theorem gives_path : Gives (path single) (Surface.Everywhere Surface.IsWritable) :=
  Gives.orElse
    (gives_bind fun _ => (gives_steps hsingle true).bind fun _ h => gives_pure (.intro h.1 h.2)) <|
  Gives.orElse
    (gives_bind fun _ => Gives.bind (P := fun ss =>
        (ss = [] ∨ SurfaceStep.AreWritable false ss) ∧
          ∀ part ∈ ss.flatMap SurfaceStep.inside, part.Everywhere Surface.IsWritable)
      (Gives.orElse ((gives_steps hsingle false).imp fun _ h => ⟨.inr h.1, h.2⟩)
        (gives_pure ⟨.inl rfl, nofun⟩))
      fun _ h => gives_pure (.intro h.1 h.2))
    ((gives_steps hsingle false).bind fun _ h => gives_pure (everywhere_ofSteps h.1 h.2))

theorem gives_comparison :
    Gives (comparison single) (Surface.Everywhere Surface.IsWritable) := by
  refine (gives_path hsingle).bind fun left hleft => Gives.orElse ?_ (gives_pure hleft)
  exact gives_bind fun op => (gives_path hsingle).bind fun right hright =>
    gives_pure (everywhere_sides (.comparison op) (fun _ _ => trivial) (fun _ _ => rfl) hleft
      hright)

theorem gives_disjunction :
    Gives (disjunction single) (Surface.Everywhere Surface.IsWritable) :=
  gives_chain (fun _ _ => trivial) (fun _ _ => rfl) <|
    gives_chain (fun _ _ => trivial) (fun _ _ => rfl) (gives_comparison hsingle)

end

theorem gives_single (depth : Nat) :
    Gives (single depth) (Surface.Everywhere Surface.IsWritable) := by
  induction depth with
  | zero => exact gives_failure
  | succ depth ih => exact gives_disjunction ih

theorem gives_query (depth : Nat) :
    Gives (query depth) (Surface.Everywhere Surface.IsWritable) := by
  refine gives_bind fun _ => (gives_expression (gives_single depth)).bind fun e he =>
    gives_bind fun rest => ?_
  split
  · exact gives_pure he
  · exact gives_failure

end Grammar

/-- A query is read when the grammar takes it and its integers fit. -/
theorem Surface.parse_eq_ok {s : String} {e : Surface} : Surface.parse s = .ok e ↔
    (∃ rest, Grammar.query (s.length + 1) s.toList = some (e, rest)) ∧ e.integersFit = true := by
  unfold Surface.parse
  cases Grammar.query (s.length + 1) s.toList with
  | none => simp
  | some p =>
    obtain ⟨e', rest⟩ := p
    refine ⟨fun h => ?_, fun ⟨⟨_, hread⟩, hfit⟩ => ?_⟩
    · dsimp only at h
      split_ifs at h with hfit
      obtain rfl := Except.ok.inj h
      exact ⟨⟨rest, rfl⟩, hfit⟩
    · obtain ⟨rfl, rfl⟩ := Prod.mk.inj (Option.some.inj hread)
      exact if_pos hfit

/-- **All of a query that is read can be written.** -/
theorem Surface.everywhere_isWritable_of_parse {s : String} {e : Surface}
    (h : Surface.parse s = .ok e) : e.Everywhere Surface.IsWritable := by
  obtain ⟨⟨_, hread⟩, _⟩ := Surface.parse_eq_ok.1 h
  exact Grammar.gives_query _ hread

end IndexedXml
