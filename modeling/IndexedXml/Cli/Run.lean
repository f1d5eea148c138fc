/-
# Running commands

What a command line does, given the files that are there: it loads a configuration
and documents, compiles the query, evaluates it as often as it is told to in one query
context, and reports.  The first failure ends it.
-/

import IndexedXml.Cli.Arguments
import IndexedXml.Cli.Files
import IndexedXml.Cli.Report

namespace IndexedXml
namespace Cli

/-- Evaluates a query `n` times more; the last value counts. -/
def evaluateTimes (s : Store) (q : CompiledQuery) (focus : Focus) :
    Nat → Sequence → Evaluation Sequence
  | 0, value => pure value
  | n + 1, _ => do
    let value ← q.evaluate s focus
    evaluateTimes s q focus n value

/-- The name of a variable without the dollar signs before it. -/
def variableName (text : String) : String := .ofList (text.toList.dropWhile (· == '$'))

/-- The query context of a command, whose variable stands for the context. -/
def initialContext (bind : Option String) (context : Sequence) : QueryContext :=
  match bind with
  | some name => QueryContext.empty.declare (variableName name) context
  | none => .empty

/-- Runs the command `query`. -/
def runQuery (files : Files) (command : QueryCommand) : Except CliError String := do
  let config ← loadConfiguration files command.config
  let store ← openStore files config command.data
  let documents ← (contextDocuments store command.collections).mapError .store
  let q ← (CompiledQuery.compile command.expression config).mapError .query
  let context : Sequence := .nodes ⟨documents, some 0⟩
  let run : Run := ⟨initialContext command.bind context, .zero⟩
  let (outcome, run) := (evaluateTimes store q (.on context) command.repetitions .empty).run run
  let value ← outcome.mapError CliError.query
  let report ← (QueryReport.ofRun store q run value command.repetitions).mapError .store
  pure <| match command.format with
    | .text => report.text
    | .json => report.toJson.pretty

/-- Runs the command `explain`. -/
def runExplain (files : Files) (command : ExplainCommand) : Except CliError String := do
  let config ← loadConfiguration files command.config
  let q ← (CompiledQuery.compile command.expression config).mapError .query
  pure <| match command.format with
    | .text => ExplainReport.text q
    | .json => (ExplainReport.toJson q).pretty

/-- Runs a command. -/
def runCommand (files : Files) : Command → Except CliError String
  | .query command => runQuery files command
  | .explain command => runExplain files command

/-- The form of the output of a command. -/
def Command.format : Command → OutputFormat
  | .query command => command.format
  | .explain command => command.format

/-- **What a command line prints,** and in which form. -/
def run (files : Files) (args : List String) : Except CliError (OutputFormat × String) :=
  match command? args with
  | none => .error .usage
  | some command => (runCommand files command).map (command.format, ·)

end Cli
end IndexedXml
