/-
# Names of indexes

An index is declared for the elements or for the attributes of one name.  In a
configuration the two are told apart by an at sign: `title` is a name of
elements and `@lang` one of attributes.
-/

import IndexedXml.Name.QName
import IndexedXml.Text.Alphanumeric

namespace IndexedXml

/-- Whether a name is one of elements or of attributes. -/
inductive NameType where
  | element
  | attr
  deriving DecidableEq

/-- The name of the kind of name. -/
def NameType.text : NameType → String
  | element => "element"
  | attr => "attribute"

/-- A name of elements or of attributes. -/
structure IndexedName where
  /-- What the name is a name of. -/
  nameType : NameType
  /-- The name itself. -/
  qname : QName
  deriving DecidableEq

namespace IndexedName

/-- Whether two indexed names address the same nodes; prefixes do not count. -/
def same (a b : IndexedName) : Bool :=
  a.nameType == b.nameType && a.qname.same b.qname

/-- **Indexed names agree in kind and in the identity of the name.** -/
theorem same_iff {a b : IndexedName} :
    a.same b = true ↔ a.nameType = b.nameType ∧ a.qname.identity = b.qname.identity := by
  simp [same, QName.same_iff]

/-- The displayed form, with an at sign before an attribute name. -/
def text (a : IndexedName) : String :=
  match a.nameType with
  | .element => a.qname.text
  | .attr => "@" ++ a.qname.text

/-- A character that a name in a configuration may hold. -/
def isNameChar (c : Char) : Bool :=
  Text.isAlphanumeric c || c == '_' || c == '-' || c == '.'

/-- A character that a name in a configuration may not begin with. -/
def isRefusedStart (c : Char) : Bool :=
  c.isDigit || c == '-' || c == '.'

/-- Whether a list of characters is the local part of a name in a configuration. -/
def isLocalPart : List Char → Bool
  | [] => false
  | c :: cs => !isRefusedStart c && (c :: cs).all isNameChar

/-- **Reading a name of a configuration.**  Blanks around it are dropped and one
at sign before it makes it a name of attributes. -/
def parse? (s : String) : Option IndexedName :=
  let (nameType, chars) := match (Text.trim s).toList with
    | '@' :: cs => (NameType.attr, cs)
    | cs => (NameType.element, cs)
  if isLocalPart chars then some ⟨nameType, QName.simple (.ofList chars)⟩ else none

/-- The complaint about a text that is no name of an index. -/
def invalidMessage (s : String) : String := "invalid index name '" ++ s ++ "'"

end IndexedName
end IndexedXml
