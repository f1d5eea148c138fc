/-
# Loading documents

The tree of a document.  The name of a tag is what precedes its first blank; an
end tag has to repeat the name of the element it ends.  Attributes have a name, an
equals sign and a value in quotes, and no two of one tag have the same name.
Declarations of namespaces are not kept: prefixes stay in the names, and no name
belongs to a namespace.

A document has exactly one root element.  Text outside of it is dropped once its
references are known to be well-formed.
-/

import IndexedXml.Xml.Reference
import IndexedXml.Xml.Token
import IndexedXml.Xml.Tree

namespace IndexedXml
namespace Xml

/-- Why a document cannot be loaded. -/
inductive Malformation where
  /-- Its markup is not well-formed. -/
  | notWellFormed
  /-- A second element stands outside the first. -/
  | severalRoots
  /-- It ends before its elements do. -/
  | unclosed
  /-- It has no element. -/
  | noRoot
  deriving DecidableEq

/-- The complaint about a document. -/
def Malformation.message : Malformation → String
  | notWellFormed => "markup is not well-formed"
  | severalRoots => "more than one root element"
  | unclosed => "unclosed element"
  | noRoot => "no root element"

/-- The value of an attribute after its equals sign, and what follows it. -/
def attributeValue? (cs : List Char) : Option (List Char × List Char) :=
  match cs.dropWhile Text.isAsciiBlank with
  | q :: cs =>
    if q = '"' || q = '\'' then
      match cs.span (· != q) with
      | (value, _ :: rest) => some (value, rest)
      | (_, []) => none
    else none
  | [] => none

/-- The names and raw values of attributes; each takes a character of `fuel`. -/
def rawAttributes? : (fuel : Nat) → List Char → Option (List (List Char × List Char))
  | 0, _ => none
  | fuel + 1, cs =>
    match cs.dropWhile Text.isAsciiBlank with
    | [] => some []
    | first :: cs =>
      let (name, cs) := cs.span fun c => c != '=' && !Text.isAsciiBlank c
      match cs.dropWhile Text.isAsciiBlank with
      | '=' :: cs =>
        match attributeValue? cs with
        | some (value, rest) =>
          (rawAttributes? fuel rest).map ((first :: name, value) :: ·)
        | none => none
      | _ => none

/-- Whether some name occurs twice. -/
def hasRepeated : List (List Char) → Bool
  | [] => false
  | name :: names => names.elem name || hasRepeated names

/-- Whether an attribute declares a namespace. -/
def isNamespaceDeclaration (name : List Char) : Bool :=
  name = ['x', 'm', 'l', 'n', 's'] || ['x', 'm', 'l', 'n', 's', ':'].isPrefixOf name

/-- Adds attributes to a list under the rules of `Element.attr`. -/
def putAll? : List (List Char × List Char) → List Attribute → Option (List Attribute)
  | [], attributes => some attributes
  | (name, raw) :: rest, attributes =>
    if isNamespaceDeclaration name then putAll? rest attributes
    else
      match resolve? raw with
      | none => none
      | some value =>
        putAll? rest
          (Element.putAttribute attributes ⟨QName.ofText (.ofList name), .ofList value⟩)

/-- The attributes of a tag, given what follows its name. -/
def attributes? (cs : List Char) : Option (List Attribute) := do
  let raw ← rawAttributes? (cs.length + 1) cs
  if hasRepeated (raw.map Prod.fst) then none else putAll? raw []

/-- An element whose end has not been met. -/
structure OpenElement where
  /-- The name as it is written. -/
  tag : List Char
  /-- The attributes. -/
  attributes : List Attribute
  /-- The content so far, back to front. -/
  reversed : List Tree

namespace OpenElement

/-- The element of a tag. -/
def ofTag? (content : List Char) : Option OpenElement :=
  let (tag, rest) := content.span (!Text.isAsciiBlank ·)
  (attributes? rest).map (⟨tag, ·, []⟩)

/-- The element as it stands. -/
def toElement (e : OpenElement) : Element :=
  ⟨QName.ofText (.ofList e.tag), e.attributes, e.reversed.reverse⟩

/-- The element with one more piece of content. -/
def push (e : OpenElement) (piece : Tree) : OpenElement :=
  { e with reversed := Element.pushOnto piece e.reversed }

end OpenElement

/-- The name in an end tag; blanks after it do not belong to it. -/
def endName (content : List Char) : List Char :=
  if content.all Text.isAsciiBlank then content
  else Text.dropEndWhile Text.isAsciiBlank content

/-- A document while it is loaded. -/
structure Loading where
  /-- The elements that are open, innermost first. -/
  opened : List OpenElement
  /-- The root element, once it has ended. -/
  root : Option Element

namespace Loading

/-- Before the first token. -/
def start : Loading := ⟨[], none⟩

/-- Adds a text to the innermost element; outside of the root it is dropped. -/
def addText (l : Loading) (s : List Char) : Loading :=
  match l.opened with
  | e :: rest => { l with opened := e.push (.text (.ofList s)) :: rest }
  | [] => l

/-- Adds an element that has ended to the one around it, or makes it the root. -/
def finish (l : Loading) (e : Element) : Except Malformation Loading :=
  match l.opened, l.root with
  | outer :: rest, _ => .ok { l with opened := outer.push e.toTree :: rest }
  | [], none => .ok { l with root := some e }
  | [], some _ => .error .severalRoots

/-- One token more. -/
def step (l : Loading) : Token → Except Malformation Loading
  | .text raw =>
    match resolve? raw with
    | some s => .ok (l.addText s)
    | none => .error .notWellFormed
  | .data raw => .ok (l.addText raw)
  | .openTag content =>
    match OpenElement.ofTag? content with
    | some e => .ok { l with opened := e :: l.opened }
    | none => .error .notWellFormed
  | .emptyTag content =>
    match OpenElement.ofTag? content with
    | some e => l.finish e.toElement
    | none => .error .notWellFormed
  | .closeTag content =>
    match l.opened with
    | e :: rest =>
      if endName content = e.tag then
        finish { l with opened := rest } e.toElement
      else .error .notWellFormed
    | [] => .error .notWellFormed
  | .ignored => .ok l
  | .malformed => .error .notWellFormed

/-- The root element after the last token. -/
def result (l : Loading) : Except Malformation Element :=
  match l.opened, l.root with
  | _ :: _, _ => .error .unclosed
  | [], some root => .ok root
  | [], none => .error .noRoot

end Loading

/-- **The root element of a document.** -/
def parse (xml : String) : Except Malformation Element := do
  let loaded ← (tokens xml).foldlM Loading.step .start
  loaded.result

end Xml
end IndexedXml
