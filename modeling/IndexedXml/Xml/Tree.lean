/-
# Document trees

An element has a name, attributes and content; content is elements and texts.
An `Element` is put together piece by piece under two rules.  An attribute takes
the place of one with the same name and goes last.  A text next to a text is
joined to it, and an empty text that has nothing to join leaves no trace, so
that no element built this way holds an empty text or two texts in a row.
-/

import IndexedXml.Name.QName

namespace IndexedXml

/-- An attribute of an element. -/
structure Attribute where
  /-- The name. -/
  name : QName
  /-- The value. -/
  value : String
  deriving DecidableEq

/-- A piece of content: an element with what is in it, or a text. -/
inductive Tree where
  | element (name : QName) (attributes : List Attribute) (content : List Tree)
  | text (value : String)

/-- An element, the root of a document. -/
structure Element where
  /-- The name. -/
  name : QName
  /-- The attributes in order. -/
  attributes : List Attribute
  /-- The content in order. -/
  content : List Tree

namespace Element

/-- An element with nothing in it. -/
def bare (name : QName) : Element := ⟨name, [], []⟩

/-- The element as a piece of content. -/
def toTree (e : Element) : Tree := .element e.name e.attributes e.content

/-- The attributes with one more, which takes the place of those of its name. -/
def putAttribute (attributes : List Attribute) (a : Attribute) : List Attribute :=
  attributes.filter (fun old => !old.name.same a.name) ++ [a]

/-- The element with one more attribute. -/
def attr (e : Element) (a : Attribute) : Element :=
  { e with attributes := putAttribute e.attributes a }

/-- Adds a piece to content that is given back to front. -/
def pushOnto (piece : Tree) : (reversed : List Tree) → List Tree
  | .text last :: rest =>
    match piece with
    | .text s => .text (last ++ s) :: rest
    | piece => piece :: .text last :: rest
  | rest =>
    match piece with
    | .text "" => rest
    | piece => piece :: rest

/-- The element with one more piece of content. -/
def push (e : Element) (piece : Tree) : Element :=
  { e with content := (pushOnto piece e.content.reverse).reverse }

end Element
end IndexedXml
