/-
# The canonical text of a query

A query is rendered with every axis spelled out and with brackets around every operand, every
primary that is a step, every argument and every body of a pragma, so that each part is read back
without regard to what is around it.  Quotes in texts are doubled and integers are decimal.

`Surface.IsWritable` says which queries have a text at all: names are names, a path does not
consist of a lone primary, a sequence not of a lone expression.  It looks at one node of the tree;
`Surface.Everywhere` carries it to all of them.
-/

import IndexedXml.Proofs.Query.Lexemes
import IndexedXml.Proofs.Query.Structure

namespace IndexedXml

/-! ### Which queries can be written -/

/-- Whether a double slash precedes the step. -/
def SurfaceStep.descendant : SurfaceStep → Bool
  | .axis descendant _ _ _ => descendant
  | .filter descendant _ _ => descendant

/-- A test that can be written. -/
def SurfaceTest.IsWritable : SurfaceTest → Prop
  | .name n => IsName n
  | .wildcard | .anyNode | .text => True

/-- A step that can be written. -/
def SurfaceStep.IsWritable : SurfaceStep → Prop
  | .axis _ a test _ => a ≠ .descendantAttr ∧ test.IsWritable
  | .filter _ _ _ => True

/-- One step at least, the first after a double slash or not. -/
def SurfaceStep.AreWritable (descendant : Bool) (steps : List SurfaceStep) : Prop :=
  ∃ first rest, steps = first :: rest ∧ first.descendant = descendant ∧
    ∀ s ∈ first :: rest, s.IsWritable

/-- **A query whose outermost part can be written.** -/
def Surface.IsWritable : Surface → Prop
  | .path none steps =>
    SurfaceStep.AreWritable false steps ∧ ∀ descendant e, steps ≠ [.filter descendant e []]
  | .path (some .root) steps => steps = [] ∨ SurfaceStep.AreWritable false steps
  | .path (some .rootDescendant) steps => SurfaceStep.AreWritable true steps
  | .comparison _ _ _ | .and _ _ | .or _ _ => True
  | .sequence items => items.length ≠ 1
  | .literal v => v.IsLiteral
  | .variable n => IsName n
  | .call n args => IsName n ∧ (args = [] → n ≠ "node" ∧ n ≠ "text")
  | .pragma decls _ => decls ≠ [] ∧ ∀ d ∈ decls, d.IsWritable

/-- The query is not a double. -/
def Surface.IsNotDouble (e : Surface) : Prop := ∀ d, e ≠ .literal (.double d)

instance : DecidablePred Surface.IsNotDouble
  | .literal (.double d) => .isFalse fun h => h d rfl
  | .literal (.string _) | .literal (.untyped _) | .literal (.integer _) | .literal (.boolean _) =>
    .isTrue nofun
  | .path _ _ | .comparison _ _ _ | .and _ _ | .or _ _ | .sequence _ | .variable _ | .call _ _
  | .pragma _ _ => .isTrue nofun

/-! ### How they are written -/

/-- A text in brackets. -/
def Text.bracketed (cs : List Char) : List Char := '(' :: (cs ++ [')'])

/-- Texts with commas between them. -/
def Text.commas : List (List Char) → List Char
  | [] => []
  | first :: rest => first ++ rest.flatMap fun cs => ',' :: ' ' :: cs

/-- The text of conditions and positions. -/
def Text.inSquares (texts : List (List Char)) : List Char :=
  texts.flatMap fun cs => '[' :: (cs ++ [']'])

/-- The slash or the slashes with which a path begins. -/
def PathStart.render : PathStart → List Char
  | .root => ['/']
  | .rootDescendant => ['/', '/']

/-- The slash or the slashes before a step. -/
def SurfaceStep.slash (s : SurfaceStep) : List Char :=
  if s.descendant then ['/', '/'] else ['/']

/-- The text of a test. -/
def SurfaceTest.render : SurfaceTest → List Char
  | .name n => n.toList
  | .wildcard => ['*']
  | .anyNode => "node()".toList
  | .text => "text()".toList

mutual

/-- **The canonical text of a query.** -/
def Surface.render : Surface → List Char
  | .path start [] => start.elim [] PathStart.render
  | .path start (first :: rest) =>
    start.elim [] PathStart.render ++ first.render ++ Surface.renderSteps rest
  | .comparison op left right =>
    Text.bracketed left.render ++ ' ' :: (op.symbol.toList ++ ' ' :: Text.bracketed right.render)
  | .and left right => Text.bracketed left.render ++ " and ".toList ++ Text.bracketed right.render
  | .or left right => Text.bracketed left.render ++ " or ".toList ++ Text.bracketed right.render
  | .sequence items => Text.bracketed (Text.commas (Surface.renderAll items))
  | .literal v => v.text.toList
  | .variable n => '$' :: n.toList
  | .call n args =>
    n.toList ++ Text.bracketed (Text.commas ((Surface.renderAll args).map Text.bracketed))
  | .pragma decls none => decls.flatMap (fun d => d.render ++ [' ']) ++ "\x7b \x7d".toList
  | .pragma decls (some body) => decls.flatMap (fun d => d.render ++ [' ']) ++
    "\x7b ".toList ++ Text.bracketed body.render ++ " \x7d".toList

/-- The text of a step, without the slashes before it. -/
def SurfaceStep.render : SurfaceStep → List Char
  | .axis _ a test conditions =>
    a.name.toList ++ "::".toList ++ test.render ++ Text.inSquares (Surface.renderAll conditions)
  | .filter _ primary conditions =>
    Text.bracketed primary.render ++ Text.inSquares (Surface.renderAll conditions)

/-- The texts of queries. -/
def Surface.renderAll : List Surface → List (List Char)
  | [] => []
  | e :: rest => e.render :: Surface.renderAll rest

/-- The text of steps, with the slashes before each. -/
def Surface.renderSteps : List SurfaceStep → List Char
  | [] => []
  | s :: rest => s.slash ++ s.render ++ Surface.renderSteps rest

end

theorem Surface.renderAll_eq_map (items : List Surface) :
    Surface.renderAll items = items.map Surface.render := by
  induction items with
  | nil => rfl
  | cons e rest ih => rw [Surface.renderAll, ih, List.map_cons]

theorem Surface.renderSteps_eq_flatMap (steps : List SurfaceStep) :
    Surface.renderSteps steps = steps.flatMap fun s => s.slash ++ s.render := by
  induction steps with
  | nil => rfl
  | cons s rest ih => rw [Surface.renderSteps, ih, List.flatMap_cons]

/-! ### Lengths -/

theorem Text.length_bracketed (cs : List Char) : (Text.bracketed cs).length = cs.length + 2 := by
  simp [Text.bracketed]

/-- A member of a list is not longer than all of its members together. -/
theorem Text.length_le_flatMap {α : Type} {f : α → List Char} {a : α} {l : List α} (h : a ∈ l) :
    (f a).length ≤ (l.flatMap f).length := by
  rw [List.flatMap_def]
  exact (List.sublist_flatten_of_mem (List.mem_map_of_mem h)).length_le

theorem Text.length_le_commas {cs : List Char} {texts : List (List Char)} (h : cs ∈ texts) :
    cs.length ≤ (Text.commas texts).length := by
  obtain ⟨first, rest, rfl⟩ := List.exists_cons_of_ne_nil (List.ne_nil_of_mem h)
  rw [Text.commas, List.length_append]
  rcases List.mem_cons.1 h with rfl | h
  · omega
  · have hle := Text.length_le_flatMap (f := fun cs => ',' :: ' ' :: cs) h
    simp only [List.length_cons] at hle
    omega

/-- The texts in square brackets are shorter than with them. -/
theorem Text.length_le_inSquares {cs : List Char} {texts : List (List Char)} (h : cs ∈ texts) :
    cs.length + 2 ≤ (Text.inSquares texts).length := by
  have hle := Text.length_le_flatMap (f := fun cs => '[' :: (cs ++ [']'])) h
  rw [List.length_cons, List.length_append, List.length_singleton] at hle
  exact hle

theorem SurfaceStep.length_le_of_mem_inside {s : SurfaceStep} {part : Surface}
    (h : part ∈ s.inside) : part.render.length + 2 ≤ s.render.length := by
  have hconditions (conditions : List Surface) (h : part ∈ conditions) :
      part.render.length + 2 ≤ (Text.inSquares (Surface.renderAll conditions)).length := by
    rw [Surface.renderAll_eq_map]
    exact Text.length_le_inSquares (List.mem_map_of_mem h)
  cases s with
  | axis _ _ _ conditions =>
    have hle := hconditions conditions h
    simp only [SurfaceStep.render, List.length_append]
    omega
  | filter _ primary conditions =>
    simp only [SurfaceStep.render, List.length_append, Text.length_bracketed]
    rcases List.mem_cons.1 h with rfl | h
    · omega
    · have hle := hconditions conditions h
      omega

/-- **What is in a query is written within brackets,** so that it is shorter by these. -/
theorem Surface.length_le_of_mem_inside {e part : Surface} (h : part ∈ e.inside) :
    part.render.length + 2 ≤ e.render.length := by
  cases e with
  | path start steps =>
    obtain ⟨s, hs, hpart⟩ := List.mem_flatMap.1 h
    have hstep := SurfaceStep.length_le_of_mem_inside hpart
    obtain ⟨first, rest, rfl⟩ := List.exists_cons_of_ne_nil (List.ne_nil_of_mem hs)
    simp only [Surface.render, List.length_append]
    rcases List.mem_cons.1 hs with rfl | hs
    · omega
    · have hle := Text.length_le_flatMap (f := fun s => s.slash ++ s.render) hs
      rw [← Surface.renderSteps_eq_flatMap, List.length_append] at hle
      omega
  | comparison op left right | and left right | or left right =>
    simp only [Surface.render, List.length_append, List.length_cons, Text.length_bracketed]
    rcases List.mem_pair.1 h with rfl | rfl <;> omega
  | sequence items =>
    change part ∈ items at h
    have hle := Text.length_le_commas (List.mem_map_of_mem (f := Surface.render) h)
    rw [← Surface.renderAll_eq_map] at hle
    simp only [Surface.render, Text.length_bracketed]
    omega
  | literal v => exact absurd h List.not_mem_nil
  | «variable» n => exact absurd h List.not_mem_nil
  | call n args =>
    change part ∈ args at h
    have hle := Text.length_le_commas (List.mem_map_of_mem (f := Text.bracketed)
      (List.mem_map_of_mem (f := Surface.render) h))
    rw [← Surface.renderAll_eq_map, Text.length_bracketed] at hle
    simp only [Surface.render, List.length_append, Text.length_bracketed]
    omega
  | pragma decls body =>
    obtain rfl := Option.mem_toList.1 h
    simp only [Surface.render, List.length_append, Text.length_bracketed]
    omega

/-! ### How texts begin -/

/-- **The text begins with a character** that is not a blank and that, after a bracket, makes
neither a comment nor a pragma of it. -/
def Text.Begins (cs : List Char) : Prop :=
  ∃ c more, cs = c :: more ∧ Text.isAsciiBlank c = false ∧ c ≠ ':' ∧ c ≠ '#'

theorem Text.begins_of_class {p : Char → Bool} {c : Char} (hc : p c = true)
    (hblank : [' ', '\t', '\n', '\r'].any p = false) (hcolon : p ':' = false)
    (hhash : p '#' = false) (more : List Char) : Text.Begins (c :: more) :=
  ⟨c, more, rfl, Text.not_isAsciiBlank_of_class hc hblank, Text.ne_of_class hc hcolon,
    Text.ne_of_class hc hhash⟩

theorem Text.Begins.append {cs : List Char} (h : Text.Begins cs) (rest : List Char) :
    Text.Begins (cs ++ rest) := by
  obtain ⟨c, more, rfl, hc⟩ := h
  exact ⟨c, more ++ rest, rfl, hc⟩

theorem Text.begins_bracketed (cs : List Char) : Text.Begins (Text.bracketed cs) :=
  ⟨_, _, rfl, rfl, by decide, by decide⟩

theorem begins_of_isName {s : String} (h : IsName s) : Text.Begins s.toList := by
  obtain ⟨first, more, hs, hfirst⟩ := Reader.exists_start_of_isName h
  rw [hs]
  exact Text.begins_of_class hfirst (by decide) (by decide) (by decide) more

theorem SurfaceStep.begins_render (s : SurfaceStep) : Text.Begins s.render := by
  cases s with
  | axis _ a _ _ =>
    simp only [SurfaceStep.render, List.append_assoc]
    exact (begins_of_isName (Reader.isName_axis a)).append _
  | filter _ primary _ => exact (Text.begins_bracketed _).append _

theorem Surface.begins_render {e : Surface} (h : e.IsWritable) (hdouble : e.IsNotDouble) :
    Text.Begins e.render := by
  cases e with
  | path start steps =>
    rcases start with _ | start
    · obtain ⟨⟨first, rest, rfl, _⟩, _⟩ := h
      exact first.begins_render.append _
    · have hstart : Text.Begins start.render := by
        cases start <;> exact ⟨_, _, rfl, rfl, by decide, by decide⟩
      cases steps with
      | nil => exact hstart
      | cons first rest => exact (hstart.append _).append _
  | comparison op left right => exact (Text.begins_bracketed _).append _
  | and left right | or left right => exact ((Text.begins_bracketed _).append _).append _
  | sequence items => exact Text.begins_bracketed _
  | literal v =>
    obtain ⟨c, more, hv, hc⟩ :=
      AtomicValue.exists_first_of_isLiteral h fun d hd => hdouble d (congrArg _ hd)
    rw [Surface.render, hv]
    rcases hc with rfl | hc
    · exact ⟨'"', more, rfl, rfl, by decide, by decide⟩
    · exact Text.begins_of_class hc (by decide) (by decide) (by decide) more
  | «variable» n => exact ⟨'$', _, rfl, rfl, by decide, by decide⟩
  | call n args => exact (begins_of_isName h.1).append _
  | pragma decls body =>
    obtain ⟨d, rest, rfl⟩ := List.exists_cons_of_ne_nil h.1
    cases body <;> exact ⟨'(', _, rfl, rfl, by decide, by decide⟩

end IndexedXml
