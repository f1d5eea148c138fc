/-
# The grammar of queries

Readers for the levels of the language, from the loosest to the tightest: a
sequence of single expressions, `or`, `and`, a comparison, a path, a step, a
primary.  Each level takes the reader of single expressions as a parameter and
gives it what stands in brackets, so that only `single` recurs.  Every bracket
takes a character, which bounds the depth by the length of the text.

The alternatives of a level are tried in order and the first that succeeds
counts.  A path that is no more than a primary is that primary, and a sequence
of one expression is that expression.
-/

import IndexedXml.Query.Error
import IndexedXml.Query.Reader

namespace IndexedXml
namespace Grammar

open Reader

/-! ### Steps -/

/-- The tests `node()` and `text()`. -/
def kindTest : Reader SurfaceTest :=
  (do token "node"; token "("; token ")"; pure .anyNode) <|>
    (do token "text"; token "("; token ")"; pure .text)

/-- What a step asks of a node. -/
def nodeTest : Reader SurfaceTest :=
  kindTest <|> (do token "*"; pure .wildcard) <|> (do let n ← name; pure (.name n))

/-- The axis and the test of a step. -/
def stepHead : Reader (Axis × SurfaceTest) :=
  (do token ".."; pure (.parent, .anyNode)) <|>
    (do token "."; pure (.self, .anyNode)) <|>
    (do let a ← axis; token "::"; let t ← nodeTest; pure (a, t)) <|>
    (do token "@"; let t ← nodeTest; pure (.attr, t)) <|>
    (do let t ← nodeTest; pure (.child, t))

/-! ### Levels -/

section
variable (single : Reader Surface)

/-- Expressions with commas between them. -/
def expression : Reader Surface := do
  match ← separated (token ",") single with
  | [e] => pure e
  | items => pure (.sequence items)

/-- An expression, or nothing. -/
def expression? : Reader (Option Surface) :=
  (do let e ← expression single; pure (some e)) <|> pure none

/-- A condition or a position in brackets. -/
def predicate : Reader Surface := do
  token "["
  let e ← expression single
  token "]"
  pure e

/-- The arguments of a function. -/
def arguments : Reader (List Surface) := separated (token ",") single <|> pure []

/-- An expression that stands for itself wherever it is written. -/
def primary : Reader Surface :=
  (do let v ← number; pure (.literal v)) <|>
    (do let v ← quoted; pure (.literal v)) <|>
    (do token "$"; let n ← name; pure (.variable n)) <|>
    (do
      let first ← pragma
      let rest ← many pragma
      token "\x7b"
      let body ← expression? single
      token "\x7d"
      pure (.pragma (first :: rest) body)) <|>
    (do
      token "("
      let e ← expression? single
      token ")"
      pure (e.getD (.sequence []))) <|>
    (do
      notAhead kindTest
      let n ← name
      token "("
      let args ← arguments single
      token ")"
      pure (.call n args))

/-- A step, after a double slash or not. -/
def step (descendant : Bool) : Reader SurfaceStep :=
  (do
    let e ← primary single
    let predicates ← many (predicate single)
    pure (.filter descendant e predicates)) <|>
    (do
      let (a, t) ← stepHead
      let predicates ← many (predicate single)
      pure (.axis descendant a t predicates))

/-- Steps with slashes between them, the first one after a double slash or not. -/
def steps (descendant : Bool) : Reader (List SurfaceStep) := do
  let first ← step single descendant
  let rest ← many <|
    (do token "//"; step single true) <|> (do token "/"; step single false)
  pure (first :: rest)

/-- The path of the given steps. -/
def ofSteps : List SurfaceStep → Surface
  | [.filter _ e []] => e
  | steps => .path none steps

/-- A path. -/
def path : Reader Surface :=
  (do token "//"; let ss ← steps single true; pure (.path (some .rootDescendant) ss)) <|>
    (do token "/"; let ss ← steps single false <|> pure []; pure (.path (some .root) ss)) <|>
    (do let ss ← steps single false; pure (ofSteps ss))

/-- A path, or two with the sign of a comparison between them. -/
def comparison : Reader Surface := do
  let left ← path single
  (do let op ← comparisonOp; let right ← path single; pure (.comparison op left right)) <|> pure left

/-- Operands with a word between them, grouped from the left. -/
def chain (word : String) (join : Surface → Surface → Surface) (operand : Reader Surface) :
    Reader Surface := do
  match ← separated (keyword word) operand with
  | [] => failure
  | first :: rest => pure (rest.foldl join first)

/-- The level of `or`. -/
def disjunction : Reader Surface := chain "or" .or (chain "and" .and (comparison single))

end

/-- A single expression with brackets at most `depth` deep. -/
def single : Nat → Reader Surface
  | 0 => failure
  | depth + 1 => disjunction (single depth)

/-- A whole query. -/
def query (depth : Nat) : Reader Surface := do
  skip
  let e ← expression (single depth)
  match ← get with
  | [] => pure e
  | _ => failure

end Grammar

/-- **Reading a query.**  Integers are read without bound and checked at the end. -/
def Surface.parse (s : String) : Except QueryError Surface :=
  match Grammar.query (s.length + 1) s.toList with
  | none => .error .notAQuery
  | some (e, _) => if e.integersFit then .ok e else .error .integerTooLarge

end IndexedXml
