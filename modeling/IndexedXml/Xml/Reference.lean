/-
# References in markup

A reference stands for one character: by one of five names, or by its number in
decimal or, after an `x`, in hexadecimal digits.  The number is not zero and is
that of a Unicode scalar value.  An ampersand that begins no such reference makes
the text malformed.
-/

import IndexedXml.Double.Numeral
import IndexedXml.Json.Reader

namespace IndexedXml
namespace Xml

/-- The character of a name. -/
def namedCharacter? (name : List Char) : Option Char :=
  [("lt", '<'), ("gt", '>'), ("amp", '&'), ("apos", '\''), ("quot", '"')].findSome? fun (n, c) =>
    if n.toList = name then some c else none

/-- The character of a number; zero and surrogates have none. -/
def numberedCharacter? (n : Nat) : Option Char :=
  if n = 0 then none
  else if h : n.isValidChar then some (Char.ofNatAux n h)
  else none

/-- The number written with hexadecimal digits. -/
def hexNumber? (digits : List Char) : Option Nat :=
  digits.foldlM (fun n c => (Json.hexValue? c).map (16 * n + ·)) 0

/-- The character that a reference stands for, given what is between `&` and `;`. -/
def referenced? : List Char → Option Char
  | '#' :: 'x' :: digits =>
    if digits.isEmpty then none else (hexNumber? digits).bind numberedCharacter?
  | '#' :: digits =>
    if digits.isEmpty || !digits.all Char.isDigit then none
    else numberedCharacter? (Text.decimalValue digits)
  | name => namedCharacter? name

/-- Replaces references; `pending` holds what was read of one, back to front. -/
def resolveFrom : (pending : Option (List Char)) → List Char → Option (List Char)
  | none, [] => some []
  | none, c :: cs =>
    if c = '&' then resolveFrom (some []) cs else (resolveFrom none cs).map (c :: ·)
  | some _, [] => none
  | some read, c :: cs =>
    if c = '&' then none
    else if c = ';' then
      match referenced? read.reverse with
      | none => none
      | some found => (resolveFrom none cs).map (found :: ·)
    else resolveFrom (some (c :: read)) cs

/-- **The text with its references replaced,** none when one of them is malformed. -/
def resolve? (cs : List Char) : Option (List Char) := resolveFrom none cs

end Xml
end IndexedXml
