/-
# Tokens of markup

A document is cut into runs of text, tags, character data and what is passed
over: comments, processing instructions, the declaration and the document type.
Blanks at the ends of a run of text do not belong to it, and a run of blanks
alone is no token.  A tag ends at the first `>` outside quotes.

What cannot be cut becomes the token `malformed`, and ends the document.
-/

import IndexedXml.Text.Blank

namespace IndexedXml
namespace Xml

/-- A token of a document. -/
inductive Token where
  /-- A run of text with its references unresolved, not empty. -/
  | text (raw : List Char)
  /-- Character data, taken as it stands. -/
  | data (raw : List Char)
  /-- What is between the brackets of a start tag. -/
  | openTag (content : List Char)
  /-- What is between the brackets of an empty element, less the slash. -/
  | emptyTag (content : List Char)
  /-- What follows the slash of an end tag. -/
  | closeTag (content : List Char)
  /-- A comment, a processing instruction, a declaration or a document type. -/
  | ignored
  /-- Markup that does not end or is none. -/
  | malformed
  deriving DecidableEq

/-- What is before and after the first occurrence of `mark`. -/
def cutAt (mark : List Char) : List Char → Option (List Char × List Char)
  | [] => none
  | c :: cs =>
    match Text.afterStart? mark (c :: cs) with
    | some after => some ([], after)
    | none => (cutAt mark cs).map fun (before, after) => (c :: before, after)

/-- What is before and after the `>` that ends a tag; `quote` is the open quote. -/
def cutTag : (quote : Option Char) → List Char → Option (List Char × List Char)
  | _, [] => none
  | none, c :: cs =>
    if c = '>' then some ([], cs)
    else
      (cutTag (if c = '"' || c = '\'' then some c else none) cs).map fun (before, after) =>
        (c :: before, after)
  | some q, c :: cs =>
    (cutTag (if c = q then none else some q) cs).map fun (before, after) => (c :: before, after)

/-- What is before and after the `>` that ends a document type; `depth` counts
the brackets that are open within it. -/
def cutDoctype : (depth : Nat) → List Char → Option (List Char × List Char)
  | _, [] => none
  | depth, c :: cs =>
    if c = '>' then
      match depth with
      | 0 => some ([], cs)
      | depth + 1 => (cutDoctype depth cs).map fun (before, after) => (c :: before, after)
    else
      (cutDoctype (if c = '<' then depth + 1 else depth) cs).map fun (before, after) =>
        (c :: before, after)

/-- What follows `start` in a list that begins with it in letters of either case;
`start` is in capitals. -/
def afterStartAnyCase? : (start cs : List Char) → Option (List Char)
  | [], cs => some cs
  | _ :: _, [] => none
  | a :: start, c :: cs => if a = c.toUpper then afterStartAnyCase? start cs else none

/-- The token after `<!`.  The mark of character data is in capitals, that of a
document type in letters of either case. -/
def declaration? : List Char → Option (Token × List Char)
  | '-' :: '-' :: cs => (cutAt ['-', '-', '>'] cs).map fun (_, rest) => (.ignored, rest)
  | '[' :: cs => do
    let (body, rest) ← cutAt [']', ']', '>'] cs
    let raw ← Text.afterStart? ['C', 'D', 'A', 'T', 'A', '['] body
    pure (.data raw, rest)
  | cs => do
    let (body, rest) ← cutDoctype 0 cs
    let name ← afterStartAnyCase? ['D', 'O', 'C', 'T', 'Y', 'P', 'E'] body
    if name.all Text.isAsciiBlank then none else pure (.ignored, rest)

/-- The token of a tag with the given content. -/
def tagOf (content : List Char) : Token :=
  match content.getLast? with
  | some '/' => .emptyTag content.dropLast
  | _ => .openTag content

/-- The token after `<`. -/
def markup? : List Char → Option (Token × List Char)
  | [] => none
  | '!' :: cs => declaration? cs
  | '?' :: '>' :: _ => none
  | '?' :: cs => (cutAt ['?', '>'] cs).map fun (_, rest) => (.ignored, rest)
  | '/' :: cs => (cutTag none cs).map fun (content, rest) => (.closeTag content, rest)
  | cs => (cutTag none cs).map fun (content, rest) => (tagOf content, rest)

/-- The tokens of a list of characters, at most `fuel` of them. -/
def tokensFrom : (fuel : Nat) → List Char → List Token
  | 0, _ => []
  | fuel + 1, cs =>
    match cs.dropWhile Text.isAsciiBlank with
    | [] => []
    | '<' :: cs =>
      match markup? cs with
      | some (token, rest) => token :: tokensFrom fuel rest
      | none => [.malformed]
    | cs =>
      let (run, rest) := cs.span (· != '<')
      .text (Text.dropEndWhile Text.isAsciiBlank run) :: tokensFrom fuel rest

/-- The list without a byte order mark at its start. -/
def dropMark : List Char → List Char
  | c :: cs => if c = '\uFEFF' then cs else c :: cs
  | [] => []

/-- **The tokens of a document.**  Every token takes a character. -/
def tokens (xml : String) : List Token :=
  let cs := dropMark xml.toList
  tokensFrom (cs.length + 1) cs

end Xml
end IndexedXml
