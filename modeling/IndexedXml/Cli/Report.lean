/-
# Reports

What the commands print.  Both know two forms: a text, made to be read, and JSON.
A report on a query lists the items of its value, the lookups that were made, and
the state in which each pragma was left; a report on a compiled query lists its plan
and its pragmas.
-/

import IndexedXml.Json.Writer
import IndexedXml.Session

namespace IndexedXml
namespace Cli

/-- A node as it is reported. -/
structure NodeReport where
  /-- The path of its document and its identifier. -/
  path : String
  /-- Its kind. -/
  kind : NodeKind
  /-- Its displayed name. -/
  name : Option String
  /-- Its text. -/
  value : String

/-- An item as it is reported. -/
inductive ItemReport where
  | node (report : NodeReport)
  | value (display : String)

/-- A pragma and the state it was left in. -/
structure PragmaReport where
  /-- The pragma. -/
  pragma : Pragma
  /-- Its phase. -/
  phase : Phase
  /-- Whether it is enabled and what it has found out, when it is an optimizer. -/
  optimizer : Option (Bool × OptimizeState)

/-- The outcome of a query. -/
structure QueryReport where
  /-- The items of its value. -/
  items : List ItemReport
  /-- How often it was evaluated. -/
  evaluations : Nat
  /-- The lookups that were made. -/
  counts : LookupCounts
  /-- Its pragmas. -/
  pragmas : List PragmaReport

/-- A truth value as a word. -/
def yesNo (b : Bool) : String := if b then "yes" else "no"

namespace ItemReport

/-- The report on an item. -/
def ofItem (s : Store) : Item → Except StoreError ItemReport
  | .atomic v => .ok (.value v.text)
  | .node n => do
    let kind ← s.nodeKind n
    let uri ← s.documentUri n.doc
    let name ← s.nodeName n
    let text ← s.stringValue n
    pure (.node ⟨uri ++ "#" ++ n.id.text, kind, name.map QName.text, text⟩)

/-- What a node is called in a text. -/
def label (kind : NodeKind) (name : Option String) : String :=
  match kind, name with
  | .attr, some name => "@" ++ name
  | _, some name => "<" ++ name ++ ">"
  | kind, none => kind.name ++ "()"

/-- The lines of a text on an item. -/
def line : ItemReport → String
  | node n => label n.kind n.name ++ " = " ++ Json.quoted n.value ++ " " ++ n.path
  | value display => display

/-- The item as JSON. -/
def toJson : ItemReport → Json
  | node n => .record
    [("type", .text "Node"), ("path", .text n.path), ("kind", .text n.kind.name),
      ("name", .optional n.name), ("value", .text n.value)]
  | value display => .record [("type", .text "Value"), ("value", .text display)]

end ItemReport

namespace PragmaReport

/-- The report on a pragma. -/
def ofPragma (c : QueryContext) (p : Pragma) : PragmaReport :=
  ⟨p, c.phase p,
    match p.kind with
    | .optimize _ enabled _ => some (enabled, (c.optimizer? p.id).getD .empty)
    | _ => none⟩

/-- The displayed name of the step that candidates are prepared for. -/
def contextStepName (state : OptimizeState) : Option String :=
  state.contextStep.map fun step => step.name.qname.text

/-- The lines of a text on an optimizer. -/
def optimizerLines (enabled : Bool) (state : OptimizeState) : List String :=
  ["    enabled=" ++ yesNo enabled ++ " optimizables=" ++ toString state.optimizables.length ++
      " context_step=" ++ (contextStepName state).getD "-" ++
      " verdict=" ++ (state.cachedVerdict?.map yesNo).getD "-",
    "    " ++ state.stats.text]

/-- The lines of a text on a pragma. -/
def lines (r : PragmaReport) : List String :=
  ("Pragma " ++ ExprId.text r.pragma.id ++ ": " ++ r.pragma.text ++ " [" ++ r.phase.name ++ "]") ::
    match r.optimizer with
    | some (enabled, state) => optimizerLines enabled state
    | none => []

/-- The optimizer as JSON. -/
def optimizerJson (enabled : Bool) (state : OptimizeState) : Json :=
  .record
    [("enabled", .bool enabled), ("optimizables", .nat state.optimizables.length),
      ("context_step", .optional (contextStepName state)),
      ("cached_verdict", (state.cachedVerdict?.map Json.bool).getD .null),
      ("evaluations", .nat state.stats.evaluations), ("optimized", .nat state.stats.optimized),
      ("fallbacks", .nat state.stats.fallbacks), ("cache_hits", .nat state.stats.cacheHits),
      ("verdict_recomputations", .nat state.stats.verdicts),
      ("pre_selections", .nat state.stats.preSelections)]

/-- The pragma as JSON. -/
def toJson (r : PragmaReport) : Json :=
  .record
    [("id", .nat r.pragma.id), ("pragma", .text r.pragma.text), ("phase", .text r.phase.name),
      ("optimize", (r.optimizer.map fun (enabled, state) => optimizerJson enabled state).getD .null)]

end PragmaReport

/-- The lines of a text, without blanks at its end. -/
def layOut (lines : List String) : String :=
  .ofList (Text.dropEndWhile Text.isBlank (String.join (lines.map (· ++ "\n"))).toList)

/-- The counts of lookups as JSON. -/
def countsJson (c : LookupCounts) : Json :=
  .record
    [("ancestor_queries", .nat c.ancestors), ("descendant_queries", .nat c.descendants),
      ("element_scans", .nat c.elements), ("range_lookups", .nat c.ranges)]

namespace QueryReport

/-- **The report on a query** after its evaluations. -/
def ofRun (s : Store) (q : CompiledQuery) (run : Run) (value : Sequence) (evaluations : Nat) :
    Except StoreError QueryReport := do
  let items ← value.toItems.mapM (ItemReport.ofItem s)
  pure ⟨items, evaluations, run.counts, q.root.pragmas.map (PragmaReport.ofPragma run.context)⟩

/-- The report as a text. -/
def text (r : QueryReport) : String :=
  layOut <|
    r.items.map ItemReport.line ++
      ["", "Result: " ++ toString r.items.length ++ " item(s), " ++ toString r.evaluations ++
        " evaluation(s)", "Index: " ++ r.counts.text] ++
      r.pragmas.flatMap PragmaReport.lines

/-- The report as JSON. -/
def toJson (r : QueryReport) : Json :=
  .record
    [("items", .array (r.items.map ItemReport.toJson)), ("evaluations", .nat r.evaluations),
      ("index", countsJson r.counts), ("pragmas", .array (r.pragmas.map PragmaReport.toJson))]

end QueryReport

namespace ExplainReport

/-- The line of a text on a pragma. -/
def pragmaLine (p : Pragma) : String :=
  let state := match p.kind with
    | .optimize explicit enabled _ =>
      " enabled=" ++ yesNo enabled ++ " explicit=" ++ yesNo explicit
    | _ => ""
  "  " ++ ExprId.text p.id ++ " " ++ p.text ++ state

/-- The report on a compiled query as a text. -/
def text (q : CompiledQuery) : String :=
  let pragmas := q.root.pragmas
  layOut <|
    q.plan ++
      if pragmas.isEmpty then []
      else "" :: "Pragmas (outermost first):" :: pragmas.map pragmaLine

/-- A pragma as JSON. -/
def pragmaJson (p : Pragma) : Json :=
  let (enabled, explicit) := match p.kind with
    | .optimize explicit enabled _ => (Json.bool enabled, Json.bool explicit)
    | _ => (.null, .null)
  .record
    [("id", .nat p.id), ("pragma", .text p.text), ("kind", .text p.kind.name),
      ("enabled", enabled), ("explicit", explicit)]

/-- The report on a compiled query as JSON. -/
def toJson (q : CompiledQuery) : Json :=
  .record
    [("source", .text q.source), ("plan", .array (q.plan.map Json.text)),
      ("pragmas", .array (q.root.pragmas.map pragmaJson))]

end ExplainReport
end Cli
end IndexedXml
