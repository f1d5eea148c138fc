/-
# Compiled queries

Compiling reads a query, lowers it, gives it optimization where the configuration
wants that and an index could help, and analyzes it.  The result can be evaluated
any number of times.
-/

import IndexedXml.Query.Analysis
import IndexedXml.Query.Grammar
import IndexedXml.Query.Lowering

namespace IndexedXml

/-- A query that is ready to be evaluated. -/
structure CompiledQuery where
  /-- The expression. -/
  root : Expr
  /-- The text that it was compiled from. -/
  source : String

namespace Expr

/-- A path whose predicates an index could help with, under a pragma `optimize` that
nobody has written; other expressions are left as they are. -/
def optimizePath (config : Configuration) (e : Expr) : Numbering Expr := do
  match e with
  | path _ _ | step _ _ | filter _ _ _ =>
    if e.hasCandidate then
      let id ← ExprId.fresh
      let pragmaId ← ExprId.fresh
      match ← Pragma.create pragmaId (Pragma.exist "optimize") "" config false with
      | some pragma => pure (extension id [pragma] e)
      | none => pure e
    else pure e
  | _ => pure e

mutual

/-- Gives optimization to the paths that are items of an expression. -/
def autoOptimize (config : Configuration) : Expr → Numbering Expr
  | sequence items => do
    let items ← autoOptimizeAll config items
    pure (sequence items)
  | e => optimizePath config e

/-- Gives optimization to the paths that are items of the expressions. -/
def autoOptimizeAll (config : Configuration) : List Expr → Numbering (List Expr)
  | [] => pure []
  | e :: rest => do
    let e ← e.autoOptimize config
    let rest ← autoOptimizeAll config rest
    pure (e :: rest)

end

/-- The expression that is compiled from a written one, with its numbers. -/
def ofSurface (config : Configuration) (surface : Surface) : Numbering Expr := do
  let e ← surface.lower config
  let e ← if config.autoOptimize then e.autoOptimize config else pure e
  pure (e.analyze .top)

/-! ### Explanation -/

/-- The indentation of a depth. -/
def indent (depth : Nat) : String := .ofList (List.replicate (2 * depth) ' ')

/-- How a probe is shown after the part that it answers. -/
def probeNote (access : Access) : String :=
  match access.probe with
  | some probe => " [index " ++ probe.text ++ "]"
  | none => ""

/-- The line that explains a pragma. -/
def pragmaLine (p : Pragma) : String :=
  let state := match p.kind with
    | .optimize explicit enabled _ =>
      " enabled=" ++ toString enabled ++ " explicit=" ++ toString explicit
    | _ => ""
  "  pragma " ++ ExprId.text p.id ++ " " ++ p.text ++ state

/-- The lines that explain an expression, without those for what is in it. -/
def headLines : Expr → List String
  | path id _ => ["path " ++ ExprId.text id]
  | step head _ =>
    ["step " ++ ExprId.text head.id ++ " " ++ head.display ++
      if head.treeTraversal then " [tree traversal]" else ""]
  | root => ["root"]
  | filter id _ _ => ["filter " ++ ExprId.text id]
  | comparison id op _ _ access =>
    ["comparison " ++ ExprId.text id ++ " " ++ op.symbol ++ probeNote access]
  | call id function _ access =>
    ["function " ++ ExprId.text id ++ " " ++ function.name ++ "()" ++ probeNote access]
  | .variable name => ["variable $" ++ name]
  | literal value => ["literal " ++ value.text]
  | and _ _ => ["and"]
  | or _ _ => ["or"]
  | sequence _ => ["sequence"]
  | extension id pragmas _ => ("extension " ++ ExprId.text id) :: pragmas.map pragmaLine

mutual

/-- The lines that explain an expression at a depth. -/
def planLines (depth : Nat) (e : Expr) : List String :=
  e.headLines.map (indent depth ++ ·) ++ match e with
    | path _ steps => planOf (depth + 1) steps
    | step _ predicates => predicatePlan (depth + 1) predicates
    | filter _ base predicates => base.planLines (depth + 1) ++ predicatePlan (depth + 1) predicates
    | comparison _ _ left right _ | and left right | or left right =>
      left.planLines (depth + 1) ++ right.planLines (depth + 1)
    | call _ _ args _ => planOf (depth + 1) args
    | sequence items => planOf (depth + 1) items
    | extension _ _ body => body.planLines (depth + 1)
    | root | .variable _ | literal _ => []

/-- The lines that explain several expressions. -/
def planOf (depth : Nat) : List Expr → List String
  | [] => []
  | e :: rest => e.planLines depth ++ planOf depth rest

/-- The lines that explain predicates. -/
def predicatePlan (depth : Nat) : List Predicate → List String
  | [] => []
  | ⟨_, e, _⟩ :: rest => e.planLines depth ++ predicatePlan depth rest

end

end Expr

namespace CompiledQuery

/-- **Compiles a query** with the given settings. -/
def compile (source : String) (config : Configuration) : Except QueryError CompiledQuery := do
  let surface ← Surface.parse source
  let (e, _) ← (Expr.ofSurface config surface).run .none
  pure ⟨e, source⟩

/-- The displayed query. -/
def text (q : CompiledQuery) : String := q.root.text

/-- The lines that explain the query.  A literal may hold line feeds of its own. -/
def plan (q : CompiledQuery) : List String :=
  Text.lines (String.join ((q.root.planLines 0).map (· ++ "\n")))

end CompiledQuery
end IndexedXml
