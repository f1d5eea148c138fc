/-
# Failures of queries

Why a query is refused or its evaluation fails.  Every cause has a code, by
which it is classified, and a report.  Codes of the query language display with
`err:` before them, codes of this database with `exerr:`.
-/

import IndexedXml.Store.Error

namespace IndexedXml

/-- The class of a failure. -/
inductive ErrorCode where
  /-- A text that denotes no value of the wanted type. -/
  | FORG0001
  /-- A sequence that is neither true nor false. -/
  | FORG0006
  /-- A collection or a document that is not there. -/
  | FODC0002
  /-- A value of the wrong type. -/
  | XPTY0004
  /-- No context item. -/
  | XPDY0002
  /-- A text that is no query. -/
  | XPST0003
  /-- A variable without a value. -/
  | XPST0008
  /-- A function that is not there. -/
  | XPST0017
  /-- Pragma contents that are no options. -/
  | EXXQDY0003
  /-- An index that had to be used and was not. -/
  | EXXQDY0004
  /-- Another failure of the database. -/
  | database
  /-- None of these. -/
  | unknown
  deriving DecidableEq

namespace ErrorCode

/-- The name of a code. -/
def name : ErrorCode → String
  | FORG0001 => "FORG0001"
  | FORG0006 => "FORG0006"
  | FODC0002 => "FODC0002"
  | XPTY0004 => "XPTY0004"
  | XPDY0002 => "XPDY0002"
  | XPST0003 => "XPST0003"
  | XPST0008 => "XPST0008"
  | XPST0017 => "XPST0017"
  | EXXQDY0003 => "EXXQDY0003"
  | EXXQDY0004 => "EXXQDY0004"
  | database => "ERROR"
  | unknown => "UNKNOWN"

/-- Whether a code is this database's own. -/
def isDatabaseCode : ErrorCode → Bool
  | EXXQDY0003 | EXXQDY0004 | database => true
  | _ => false

/-- The displayed code. -/
def text (c : ErrorCode) : String := (if c.isDatabaseCode then "exerr:" else "err:") ++ c.name

/-- The codes that have a meaning. -/
def known : List ErrorCode :=
  [FORG0001, FORG0006, FODC0002, XPTY0004, XPDY0002, XPST0003, XPST0008, XPST0017, EXXQDY0003,
    EXXQDY0004, database]

/-- The code that displays as the given text. -/
def ofText (s : String) : ErrorCode := (known.find? fun c => c.text == s).getD unknown

/-- **Every code is found under its display.** -/
theorem ofText_text (c : ErrorCode) : ofText c.text = c := by
  cases c <;> decide +kernel

end ErrorCode

/-- Why a query is refused or fails. -/
inductive QueryError where
  /-- The text is no query. -/
  | notAQuery
  /-- An integer does not fit in 64 bits. -/
  | integerTooLarge
  /-- No function has the name. -/
  | unknownFunction (name : String)
  /-- The function does not take that many arguments. -/
  | wrongArity (name : String) (arity : Nat)
  /-- The contents of a pragma are no options. -/
  | invalidPragma (pragma contents : String)
  /-- The variable has no value. -/
  | undeclaredVariable (name : String)
  /-- There is no context item. -/
  | noContextItem
  /-- `string()` has no context item. -/
  | noStringContext
  /-- The context item is a value of the named type. -/
  | contextNotANode (typeName : String)
  /-- A value of the named type stands where a node should. -/
  | notANode (typeName : String)
  /-- The function is given a sequence of that length for one item. -/
  | tooManyItems (function : String) (count : Nat)
  /-- A sequence of that length stands where one item should. -/
  | notExactlyOne (purpose : String) (count : Nat)
  /-- Values of the two named types cannot be compared. -/
  | incomparable (left right : String)
  /-- The text denotes no double. -/
  | notADouble (text : String)
  /-- The text denotes no truth value. -/
  | notATruthValue (text : String)
  /-- The sequence is neither true nor false. -/
  | noTruthValue
  /-- An index had to be used on the expression and was not. -/
  | indexNotUsed (expression : String)
  /-- The store refuses. -/
  | store (cause : StoreError)
  deriving DecidableEq

namespace QueryError

/-- The class of a cause. -/
def code : QueryError → ErrorCode
  | notAQuery | integerTooLarge => .XPST0003
  | unknownFunction _ | wrongArity _ _ => .XPST0017
  | invalidPragma _ _ => .EXXQDY0003
  | undeclaredVariable _ => .XPST0008
  | noContextItem | noStringContext => .XPDY0002
  | contextNotANode _ | notANode _ | tooManyItems _ _ | notExactlyOne _ _ | incomparable _ _ =>
    .XPTY0004
  | notADouble _ | notATruthValue _ => .FORG0001
  | noTruthValue => .FORG0006
  | indexNotUsed _ => .EXXQDY0004
  | store (.collectionNotFound _) | store (.documentNotFound _) => .FODC0002
  | store _ => .database

/-- The report of a cause. -/
def message : QueryError → String
  | notAQuery => "the text is not a query"
  | integerTooLarge => "invalid integer: number too large to fit in target type"
  | unknownFunction name => "unknown function " ++ name ++ "()"
  | wrongArity name arity =>
    "function " ++ name ++ "() does not accept " ++ toString arity ++ " argument(s)"
  | invalidPragma pragma contents => "invalid content found for pragma " ++ pragma ++ ": " ++ contents
  | undeclaredVariable name => "variable $" ++ name ++ " is not declared"
  | noContextItem => "context item is undefined"
  | noStringContext => "string() needs a context item"
  | contextNotANode typeName => "context item is not a node: " ++ typeName
  | notANode typeName => "expected a node, found " ++ typeName
  | tooManyItems function count =>
    function ++ "() expects at most one item, got " ++ toString count
  | notExactlyOne purpose count => purpose ++ " expects exactly one item, got " ++ toString count
  | incomparable left right => "cannot compare " ++ left ++ " with " ++ right
  | notADouble text => "cannot cast \"" ++ text ++ "\" to xs:double"
  | notATruthValue text => "cannot cast \"" ++ text ++ "\" to xs:boolean"
  | noTruthValue =>
    "effective boolean value is not defined for a sequence of several atomic values"
  | indexNotUsed expression => "cannot use index on expression '" ++ expression ++ "'"
  | store cause => cause.message

end QueryError
end IndexedXml
