/-
# Readers and lexemes of queries

A `Reader` takes a value from the front of a list of characters, or fails; an
alternative after a failure starts over at the same place.  On it stand the
lexemes of the query language.  Blanks and comments may follow any of them and
are dropped with it; names, literals and pragma declarations hold none inside,
except as a part of their text.

A comment stands between `(:` and `:)`.  Comments do not nest, and one that is
not closed is none.
-/

import IndexedXml.Double.Numeral
import IndexedXml.Query.Surface

namespace IndexedXml

/-- A reader of values from the front of a list of characters. -/
abbrev Reader := StateT (List Char) Option

namespace Reader

/-! ### General readers -/

/-- Takes exactly the given text. -/
def literal (s : String) : Reader Unit := fun cs => (Text.afterStart? s.toList cs).map ((), ·)

/-- Succeeds, taking nothing, where the given reader fails. -/
def notAhead {α : Type} (r : Reader α) : Reader Unit := fun cs =>
  if (r cs).isSome then none else some ((), cs)

/-- Takes values as long as there are any, at most `n`. -/
def atMost {α : Type} (r : Reader α) : Nat → Reader (List α)
  | 0 => pure []
  | n + 1 => (do let a ← r; let rest ← atMost r n; pure (a :: rest)) <|> pure []

/-- Takes values as long as there are any.  Each has to take a character, so that
there are no more of them than characters. -/
def many {α : Type} (r : Reader α) : Reader (List α) := fun cs => r.atMost cs.length cs

/-- Takes one value, and more with a mark before each. -/
def separated {α : Type} (mark : Reader Unit) (r : Reader α) : Reader (List α) := do
  let first ← r
  let rest ← many (do mark; r)
  pure (first :: rest)

/-! ### Blanks and comments -/

/-- What follows a comment that is open. -/
def afterComment? : List Char → Option (List Char)
  | [] => none
  | ':' :: ')' :: cs => some cs
  | _ :: cs => afterComment? cs

/-- The list without the blanks and the first `n` comments at its front. -/
def dropComments : Nat → List Char → List Char
  | 0, cs => cs.dropWhile Text.isAsciiBlank
  | n + 1, cs =>
    match cs.dropWhile Text.isAsciiBlank with
    | '(' :: ':' :: rest =>
      match afterComment? rest with
      | some rest => dropComments n rest
      | none => '(' :: ':' :: rest
    | rest => rest

/-- Drops blanks and comments. -/
def skip : Reader Unit := fun cs => some ((), dropComments cs.length cs)

/-! ### Lexemes -/

/-- Drops the blanks and comments after a lexeme. -/
def lexeme {α : Type} (r : Reader α) : Reader α := do
  let a ← r
  skip
  pure a

/-- A fixed text as a lexeme. -/
def token (s : String) : Reader Unit := lexeme (literal s)

/-- A character that a name may begin with. -/
def isNameStart (c : Char) : Bool := c.isAlpha || c == '_'

/-- A character that a name may hold. -/
def isNameChar (c : Char) : Bool := c.isAlphanum || c == '_' || c == '-' || c == '.'

/-- A name without a colon. -/
def namePart : Reader (List Char)
  | c :: cs => if isNameStart c then some ((c :: cs).span isNameChar) else none
  | [] => none

/-- A name, which may have a prefix. -/
def nameText : Reader String := do
  let lead ← namePart
  (do literal ":"; let rest ← namePart; pure (.ofList (lead ++ ':' :: rest))) <|>
    pure (.ofList lead)

/-- A name as a lexeme. -/
def name : Reader String := lexeme nameText

/-- A word that no character of a name follows. -/
def keyword (s : String) : Reader Unit := lexeme do
  literal s
  notAhead fun
    | c :: cs => if isNameChar c then some ((), cs) else none
    | [] => none

/-- The first of the given axes whose name stands here. -/
def firstAxis (axes : List Axis) : Reader Axis := fun cs =>
  axes.findSome? fun axis => (Text.afterStart? axis.name.toList cs).map (axis, ·)

/-- The name of an axis.  A name that begins with another one is tried before it. -/
def axis : Reader Axis := lexeme <| firstAxis
  [.ancestorOrSelf, .ancestor, .attr, .child, .descendantOrSelf, .descendant, .followingSibling,
    .parent, .precedingSibling, .self]

/-- The sign of a comparison.  A sign that begins with another one is tried before it. -/
def comparisonOp : Reader ComparisonOp := lexeme fun cs =>
  [ComparisonOp.ne, .le, .ge, .eq, .lt, .gt].findSome? fun op =>
    (Text.afterStart? op.symbol.toList cs).map (op, ·)

/-- A number: an integer when it has neither a point nor an exponent, else a double. -/
def number : Reader AtomicValue := lexeme fun cs =>
  (Double.Numeral.read? cs).map fun (n, rest) =>
    (if n.isInteger then .integer (Text.decimalValue n.whole) else .double (n.toDouble false), rest)

/-- What is left of a text in quotes, and the characters after it.  A quote that is
written twice stands for itself. -/
def quotedRest (quote : Char) : List Char → Option (List Char × List Char)
  | [] => none
  | [c] => if c = quote then some ([], []) else none
  | c :: d :: cs =>
    if c = quote then
      if d = quote then (quotedRest quote cs).map fun (content, rest) => (quote :: content, rest)
      else some ([], d :: cs)
    else (quotedRest quote (d :: cs)).map fun (content, rest) => (c :: content, rest)

/-- A text in double or single quotes. -/
def quoted : Reader AtomicValue := lexeme fun
  | c :: cs =>
    if c = '"' ∨ c = '\'' then
      (quotedRest c cs).map fun (content, rest) => (.string (.ofList content), rest)
    else none
  | [] => none

/-- The contents of a pragma, and the characters after its end. -/
def pragmaRest : List Char → Option (List Char × List Char)
  | [] => none
  | '#' :: ')' :: cs => some ([], cs)
  | c :: cs => (pragmaRest cs).map fun (contents, rest) => (c :: contents, rest)

/-- The declaration of a pragma. -/
def pragma : Reader PragmaDecl := lexeme do
  literal "(#"
  modify (·.dropWhile Text.isAsciiBlank)
  let name ← nameText
  let contents ← fun cs => pragmaRest cs
  pure ⟨name, Text.trim (.ofList contents)⟩

end Reader
end IndexedXml
