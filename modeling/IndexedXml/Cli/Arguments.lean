/-
# Arguments of the command line

A command line names a command, `query` or `explain`, and gives it options and one
expression.  Every option takes a value, either after an equals sign or as the next
argument; a value that is an argument of its own may not look like an option.  After
a double dash nothing is an option.  The option `--log-level` is accepted before and
after the command and has no effect; options of no command, options given twice that
stand for one value, and missing or further expressions are refused.
-/

import IndexedXml.Text.Blank

namespace IndexedXml
namespace Cli

/-- The form of the output. -/
inductive OutputFormat where
  | text
  | json
  deriving DecidableEq

/-- The format of a name. -/
def OutputFormat.ofName? : String → Option OutputFormat
  | "text" => some text
  | "json" => some json
  | _ => none

/-- A query to evaluate. -/
structure QueryCommand where
  /-- The query. -/
  expression : String
  /-- The path of the configuration. -/
  config : Option String
  /-- The paths of the directories to load. -/
  data : List String
  /-- The collections whose documents are the context; all documents when none is given. -/
  collections : List String
  /-- The variable that stands for the context too. -/
  bind : Option String
  /-- How often to evaluate. -/
  repetitions : Nat
  /-- The form of the output. -/
  format : OutputFormat
  deriving DecidableEq

/-- A query to explain. -/
structure ExplainCommand where
  /-- The query. -/
  expression : String
  /-- The path of the configuration. -/
  config : Option String
  /-- The form of the output. -/
  format : OutputFormat
  deriving DecidableEq

/-- What a command line asks for. -/
inductive Command where
  | query (command : QueryCommand)
  | explain (command : ExplainCommand)
  deriving DecidableEq

/-- Whether an argument looks like an option: a dash and something after it. -/
def looksLikeOption (arg : String) : Bool := Text.startsWith arg "-" && arg != "-"

/-- The name of an option and the value after its equals sign, if there is one. -/
def splitOption? (arg : String) : Option (String × Option String) :=
  (Text.stripStart? "--" arg).map fun body =>
    match Text.splitOnce '=' body with
    | some (name, value) => (name, some value)
    | none => (body, none)

/-- Options with their values, and the other arguments. -/
structure Arguments where
  /-- The options in order. -/
  options : List (String × String)
  /-- The other arguments in order. -/
  positional : List String

namespace Arguments

/-- The arguments with an option before them. -/
def withOption (name value : String) (a : Arguments) : Arguments :=
  { a with options := (name, value) :: a.options }

/-- The arguments with another one before them. -/
def withPositional (arg : String) (a : Arguments) : Arguments :=
  { a with positional := arg :: a.positional }

/-- **Takes arguments apart.**  `names` are the options that are known. -/
def scan? (names : List String) : List String → Option Arguments
  | [] => some ⟨[], []⟩
  | "--" :: rest => some ⟨[], rest⟩
  | arg :: rest =>
    match splitOption? arg with
    | some (name, inline) =>
      if names.elem name then
        match inline, rest with
        | some value, rest => (scan? names rest).map (withOption name value)
        | none, value :: rest =>
          if looksLikeOption value then none else (scan? names rest).map (withOption name value)
        | none, [] => none
      else none
    | none => if looksLikeOption arg then none else (scan? names rest).map (withPositional arg)

/-- The values of an option in order. -/
def values (a : Arguments) (name : String) : List String :=
  a.options.filterMap fun option => if option.1 == name then some option.2 else none

/-- The value of an option, absent when it is not given; refused when it is given
twice. -/
def single? (a : Arguments) (name : String) : Option (Option String) :=
  match a.values name with
  | [] => some none
  | [value] => some (some value)
  | _ => none

/-- The only argument that is no option. -/
def expression? (a : Arguments) : Option String :=
  match a.positional with
  | [expression] => some expression
  | _ => none

end Arguments

/-- The option that has no effect. -/
def logLevel : String := "log-level"

/-- A path, which is not empty. -/
def path? (value : String) : Option String := if value.isEmpty then none else some value

/-- A path that may be absent. -/
def optionalPath? : Option String → Option (Option String)
  | none => some none
  | some value => (path? value).map some

/-- How often to evaluate: a number from one up that fits in 32 bits. -/
def repetitions? (value : String) : Option Nat :=
  let digits := match value.toList with
    | '+' :: rest => rest
    | rest => rest
  if digits.isEmpty || !digits.all Char.isDigit then none
  else
    let n := digits.foldl (fun n c => 10 * n + (c.toNat - '0'.toNat)) 0
    if 1 ≤ n && n < Nat.pow 2 32 then some n else none

/-- The value of an option that has a default. -/
def withDefault? {α : Type} (standard : α) (read : String → Option α) : Option String → Option α
  | none => some standard
  | some value => read value

/-- The command `query` with the given arguments. -/
def queryCommand? (args : List String) : Option QueryCommand := do
  let a ← Arguments.scan?
    [logLevel, "config", "data", "collection", "bind", "repeat", "format"] args
  let _ ← a.single? logLevel
  let expression ← a.expression?
  let config ← optionalPath? (← a.single? "config")
  let data ← (a.values "data").mapM path?
  let bind ← a.single? "bind"
  let repetitions ← withDefault? 1 repetitions? (← a.single? "repeat")
  let format ← withDefault? .text OutputFormat.ofName? (← a.single? "format")
  pure ⟨expression, config, data, a.values "collection", bind, repetitions, format⟩

/-- The command `explain` with the given arguments. -/
def explainCommand? (args : List String) : Option ExplainCommand := do
  let a ← Arguments.scan? [logLevel, "config", "format"] args
  let _ ← a.single? logLevel
  let expression ← a.expression?
  let config ← optionalPath? (← a.single? "config")
  let format ← withDefault? .text OutputFormat.ofName? (← a.single? "format")
  pure ⟨expression, config, format⟩

/-- The command of a name with the given arguments. -/
def commandOf? (name : String) (args : List String) : Option Command :=
  if name == "query" then (queryCommand? args).map .query
  else if name == "explain" then (explainCommand? args).map .explain
  else none

/-- What the arguments ask for, given that `--log-level` has been seen or not. -/
def commandFrom? (seen : Bool) : List String → Option Command
  | [] => none
  | arg :: rest =>
    match splitOption? arg with
    | some (name, inline) =>
      if name = logLevel && !seen then
        match inline, rest with
        | some _, rest => commandFrom? true rest
        | none, value :: rest => if looksLikeOption value then none else commandFrom? true rest
        | none, [] => none
      else none
    | none => commandOf? arg rest

/-- **What a command line asks for,** if it is accepted. -/
def command? (args : List String) : Option Command := commandFrom? false args

end Cli
end IndexedXml
