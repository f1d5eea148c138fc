/-
# Pragmas

A pragma changes how an expression is evaluated, never what it evaluates to.
There are three, all in the namespace of the database: `optimize` narrows the
context through range indexes first, `no-index` keeps to tree traversal, and
`force-index-use` makes it a failure not to use an index.  Pragmas of other names
are passed over.
-/

import IndexedXml.Configuration
import IndexedXml.Query.Error
import IndexedXml.Query.Probe

namespace IndexedXml

/-- The namespace of the pragmas. -/
def pragmaNamespace : String := "http://exist.sourceforge.net/NS/exist"

/-- The prefix that always stands for that namespace. -/
def pragmaPrefix : String := "exist"

/-- What a pragma asks for. -/
inductive PragmaKind where
  /-- To narrow the context first.  `explicit` when the query has written it,
  `enabled` when it is to do anything; `contextId` is the number of the expression
  whose condition it stands in. -/
  | optimize (explicit enabled : Bool) (contextId : ExprId)
  /-- To keep to tree traversal. -/
  | noIndex
  /-- To fail unless an index is used. -/
  | forceIndexUse
  deriving DecidableEq

/-- The local name of a kind of pragma. -/
def PragmaKind.name : PragmaKind → String
  | optimize _ _ _ => "optimize"
  | noIndex => "no-index"
  | forceIndexUse => "force-index-use"

/-- A pragma. -/
structure Pragma where
  /-- Its number. -/
  id : ExprId
  /-- Its name. -/
  name : QName
  /-- Its contents, without blanks at the ends. -/
  contents : String
  /-- What it asks for. -/
  kind : PragmaKind
  /-- Whether the expression it belongs to has been analyzed. -/
  analyzed : Bool
  deriving DecidableEq

namespace Pragma

/-- The displayed pragma. -/
def text (p : Pragma) : String :=
  if p.contents.isEmpty then "(# " ++ p.name.text ++ " #)"
  else "(# " ++ p.name.text ++ " " ++ p.contents ++ " #)"

/-- The option that a word spells: a key and a value with an equals sign between
them, where the key is not empty. -/
def option? (word : String) : Option (String × String) :=
  (Text.splitOnce '=' word).filter fun entry => !entry.1.isEmpty

/-- The options that the contents of a pragma spell. -/
def options (name : QName) (contents : String) : Except QueryError (List (String × String)) :=
  match (Text.words contents).mapM option? with
  | some options => .ok options
  | none => .error (.invalidPragma name.text contents)

/-- Whether the last option `enable` is `yes`, and `standard` when there is none. -/
def isEnabled (standard : Bool) (options : List (String × String)) : Bool :=
  options.foldl (fun enabled option => if option.1 == "enable" then option.2 == "yes" else enabled)
    standard

/-- The name of a pragma of the database. -/
def exist (localPart : String) : QName := ⟨some pragmaPrefix, localPart, some pragmaNamespace⟩

/-- The name that is written as `text`; only the prefix of the database stands for
a namespace. -/
def resolveName (text : String) : QName :=
  let name := QName.ofText text
  if name.prefixPart = some pragmaPrefix then exist name.localPart else name

/-- What a pragma of the given name and contents asks for, if anything. -/
def kindOf (name : QName) (contents : String) (config : Configuration) (explicit : Bool) :
    Except QueryError (Option PragmaKind) :=
  if name.namespaceUri != some pragmaNamespace then .ok none
  else if name.localPart == "optimize" then do
    let options ← options name contents
    let enabled := isEnabled (explicit || config.optimizationsEnabled) options
    pure (some (.optimize explicit enabled .none))
  else if name.localPart == "no-index" then .ok (some .noIndex)
  else if name.localPart == "force-index-use" then .ok (some .forceIndexUse)
  else .ok none

/-- **The pragma of a name,** or none when the name is unknown.  `explicit` when the
query has written it. -/
def create (id : ExprId) (name : QName) (contents : String) (config : Configuration)
    (explicit : Bool) : Except QueryError (Option Pragma) := do
  let kind ← kindOf name contents config explicit
  pure (kind.map fun kind => ⟨id, name, Text.trim contents, kind, false⟩)

/-- Whether the pragma switches to tree traversal. -/
def isNoIndex (p : Pragma) : Bool := p.kind == .noIndex

/-- The pragma once the expression it belongs to has been analyzed. -/
def analyze (contextId : ExprId) (p : Pragma) : Pragma :=
  { p with
    analyzed := true
    kind := match p.kind with
      | .optimize explicit enabled _ => .optimize explicit enabled contextId
      | kind => kind }

end Pragma
end IndexedXml
