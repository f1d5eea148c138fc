/-
# Reading JSON

The grammar of JSON: blanks are space, tab, line feed and carriage return;
control characters are not allowed in a text; a number has no leading zeros, no
plus sign and digits on both sides of its point.  Nothing but blanks may follow
the value.
-/

import IndexedXml.Json.Value
import IndexedXml.Text.Blank

namespace IndexedXml
namespace Json

/-- The value of a hexadecimal digit. -/
def hexValue? (c : Char) : Option Nat :=
  let n := c.toNat
  if '0'.toNat ≤ n && n ≤ '9'.toNat then some (n - '0'.toNat)
  else if 'a'.toNat ≤ n && n ≤ 'f'.toNat then some (n - 'a'.toNat + 10)
  else if 'A'.toNat ≤ n && n ≤ 'F'.toNat then some (n - 'A'.toNat + 10)
  else none

/-- The value of four hexadecimal digits. -/
def hexUnit? (a b c d : Char) : Option Nat :=
  match hexValue? a, hexValue? b, hexValue? c, hexValue? d with
  | some a, some b, some c, some d => some (((a * 16 + b) * 16 + c) * 16 + d)
  | _, _, _, _ => none

/-- The character of a one-letter escape. -/
def escaped? : Char → Option Char
  | '"' => some '"'
  | '\\' => some '\\'
  | '/' => some '/'
  | 'b' => some '\x08'
  | 'f' => some '\x0c'
  | 'n' => some '\n'
  | 'r' => some '\r'
  | 't' => some '\t'
  | _ => none

/-- Whether a code unit is the first of a surrogate pair. -/
def isLeadUnit (u : Nat) : Bool := 0xD800 ≤ u && u < 0xDC00

/-- Whether a code unit is the second of a surrogate pair. -/
def isTrailUnit (u : Nat) : Bool := 0xDC00 ≤ u && u < 0xE000

/-- Puts a character before a text that may be absent. -/
def consChar (c : Char) (rest : Option (List Char) × List Char) : Option (List Char) × List Char :=
  (rest.1.map (c :: ·), rest.2)

/-- The characters of a text up to its closing quote, and what follows it.  The
first component is absent when an escape is half of a surrogate pair. -/
def stringTail : List Char → Option (Option (List Char) × List Char)
  | [] => none
  | '"' :: rest => some (some [], rest)
  | '\\' :: 'u' :: a :: b :: c :: d :: rest =>
    match hexUnit? a b c d with
    | none => none
    | some u =>
      if isLeadUnit u then
        match rest with
        | '\\' :: 'u' :: e :: f :: g :: h :: after =>
          match hexUnit? e f g h with
          | none => none
          | some v =>
            if isTrailUnit v then
              (stringTail after).map
                (consChar (.ofNat (0x10000 + (u - 0xD800) * 0x400 + (v - 0xDC00))))
            else (stringTail ('\\' :: 'u' :: e :: f :: g :: h :: after)).map fun r => (none, r.2)
        | rest => (stringTail rest).map fun r => (none, r.2)
      else if isTrailUnit u then (stringTail rest).map fun r => (none, r.2)
      else (stringTail rest).map (consChar (.ofNat u))
  | '\\' :: c :: rest =>
    match escaped? c with
    | some c => (stringTail rest).map (consChar c)
    | none => none
  | c :: rest => if c.toNat < 0x20 then none else (stringTail rest).map (consChar c)

/-- A text after its opening quote. -/
def string? (cs : List Char) : Option (Option String × List Char) :=
  (stringTail cs).map fun (chars, rest) => (chars.map String.ofList, rest)

/-- At least one digit. -/
def digits? (cs : List Char) : Option (List Char × List Char) :=
  match cs.span Char.isDigit with
  | ([], _) => none
  | found => some found

/-- The fraction of a number, or nothing when no point follows. -/
def fraction? (cs : List Char) : Option (List Char × List Char) :=
  match cs with
  | '.' :: rest => (digits? rest).map fun (digits, rest) => ('.' :: digits, rest)
  | rest => some ([], rest)

/-- The exponent of a number, or nothing when no mark follows. -/
def exponent? (cs : List Char) : Option (List Char × List Char) :=
  let marked (mark : Char) (rest : List Char) :=
    match rest with
    | '-' :: rest => (digits? rest).map fun (digits, rest) => (mark :: '-' :: digits, rest)
    | '+' :: rest => (digits? rest).map fun (digits, rest) => (mark :: '+' :: digits, rest)
    | rest => (digits? rest).map fun (digits, rest) => (mark :: digits, rest)
  match cs with
  | 'e' :: rest => marked 'e' rest
  | 'E' :: rest => marked 'E' rest
  | rest => some ([], rest)

/-- A number without its sign. -/
def unsigned? (cs : List Char) : Option (List Char × List Char) := do
  let (whole, rest) ← digits? cs
  if whole.head? = some '0' && 1 < whole.length then none
  else
    let (fraction, rest) ← fraction? rest
    let (exponent, rest) ← exponent? rest
    pure (whole ++ fraction ++ exponent, rest)

/-- A number with an optional minus sign. -/
def number? (cs : List Char) : Option (Json × List Char) :=
  match cs with
  | '-' :: rest => (unsigned? rest).map fun (digits, rest) => (number (.ofList ('-' :: digits)), rest)
  | cs => (unsigned? cs).map fun (digits, rest) => (number (.ofList digits), rest)

/-- The list without the blanks at its start. -/
def skipBlanks (cs : List Char) : List Char := cs.dropWhile Text.isAsciiBlank

mutual

/-- A value, with blanks allowed before it. -/
def value? : (fuel : Nat) → List Char → Option (Json × List Char)
  | 0, _ => none
  | fuel + 1, cs =>
    match skipBlanks cs with
    | 'n' :: 'u' :: 'l' :: 'l' :: rest => some (null, rest)
    | 't' :: 'r' :: 'u' :: 'e' :: rest => some (bool true, rest)
    | 'f' :: 'a' :: 'l' :: 's' :: 'e' :: rest => some (bool false, rest)
    | '"' :: rest => (string? rest).map fun (s, rest) => (string s, rest)
    | '[' :: rest =>
      match skipBlanks rest with
      | ']' :: rest => some (array [], rest)
      | rest => (items? fuel rest).map fun (items, rest) => (array items, rest)
    | '\x7b' :: rest =>
      match skipBlanks rest with
      | '\x7d' :: rest => some (object [], rest)
      | rest => (members? fuel rest).map fun (members, rest) => (object members, rest)
    | rest => number? rest

/-- The items of an array, up to its closing bracket. -/
def items? : (fuel : Nat) → List Char → Option (List Json × List Char)
  | 0, _ => none
  | fuel + 1, cs =>
    match value? fuel cs with
    | none => none
    | some (item, rest) =>
      match skipBlanks rest with
      | ',' :: rest => (items? fuel rest).map fun (items, rest) => (item :: items, rest)
      | ']' :: rest => some ([item], rest)
      | _ => none

/-- The members of an object, up to its closing brace. -/
def members? : (fuel : Nat) → List Char → Option (List (Option String × Json) × List Char)
  | 0, _ => none
  | fuel + 1, cs =>
    match skipBlanks cs with
    | '"' :: rest =>
      match string? rest with
      | none => none
      | some (name, rest) =>
        match skipBlanks rest with
        | ':' :: rest =>
          match value? fuel rest with
          | none => none
          | some (value, rest) =>
            match skipBlanks rest with
            | ',' :: rest =>
              (members? fuel rest).map fun (members, rest) => ((name, value) :: members, rest)
            | '\x7d' :: rest => some ([(name, value)], rest)
            | _ => none
        | _ => none
    | _ => none

end

/-- **The value of a JSON text.**  Every nested value and every further item
takes a character, so that twice the length bounds the depth of the reading. -/
def parse? (s : String) : Option Json :=
  let cs := s.toList
  match value? (2 * cs.length + 2) cs with
  | some (value, rest) => if (skipBlanks rest).isEmpty then some value else none
  | none => none

end Json
end IndexedXml
