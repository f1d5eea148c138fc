/-
# Reading numbers

Three lexical forms.  An *integer* is an optional sign and decimal digits, and
has to fit in 64 bits with sign.  A *decimal numeral* has digits with at most
one point among them, at least one digit, and optionally `e` or `E` with a
signed exponent.  A *double* is a decimal numeral with an optional sign, or one
of `INF`, `+INF`, `-INF` and `NaN`, with blanks allowed around it.
-/

import IndexedXml.Double.Round
import IndexedXml.Text.Blank

namespace IndexedXml

/-- The value of a decimal digit. -/
def Text.digitValue (c : Char) : Nat := c.toNat - '0'.toNat

/-- The natural number that a list of decimal digits denotes. -/
def Text.decimalValue (digits : List Char) : Nat :=
  digits.foldl (fun n c => 10 * n + digitValue c) 0

namespace Double

/-- An exponent with its mark and sign, and the characters after it. -/
def exponentPart? : List Char → Option (Int × List Char)
  | 'e' :: cs | 'E' :: cs =>
    let (negative, rest) := match cs with
      | '-' :: rest => (true, rest)
      | '+' :: rest => (false, rest)
      | rest => (false, rest)
    match rest.span Char.isDigit with
    | ([], _) => none
    | (digits, rest) =>
      let value : Int := Text.decimalValue digits
      some (if negative then -value else value, rest)
  | _ => none

/-- A decimal numeral without sign. -/
structure Numeral where
  /-- The digits before the point. -/
  whole : List Char
  /-- The digits after the point; absent when there is no point. -/
  fraction : Option (List Char)
  /-- The exponent, absent when there is none. -/
  exponent : Option Int
  deriving DecidableEq

/-- The longest numeral at the start of a list, and the characters after it.
An exponent mark that no digit follows is not part of it. -/
def Numeral.read? (cs : List Char) : Option (Numeral × List Char) :=
  let (whole, rest) := cs.span Char.isDigit
  let (fraction, rest) := match rest with
    | '.' :: tail => let (digits, tail) := tail.span Char.isDigit; (some digits, tail)
    | _ => (none, rest)
  if whole.isEmpty && (fraction.getD []).isEmpty then none
  else match exponentPart? rest with
    | some (exponent, rest) => some (⟨whole, fraction, some exponent⟩, rest)
    | none => some (⟨whole, fraction, none⟩, rest)

/-- A numeral with neither a point nor an exponent. -/
def Numeral.isInteger (n : Numeral) : Bool :=
  n.fraction.isNone && n.exponent.isNone

/-- The double nearest to the numeral, with the given sign. -/
def Numeral.toDouble (n : Numeral) (negative : Bool) : Double :=
  let fraction := n.fraction.getD []
  ofDecimal negative (Text.decimalValue (n.whole ++ fraction)) (n.exponent.getD 0 - fraction.length)

/-- A numeral with an optional sign and nothing after it. -/
def ofSigned? (cs : List Char) : Option Double :=
  let (negative, cs) := match cs with
    | '-' :: rest => (true, rest)
    | '+' :: rest => (false, rest)
    | rest => (false, rest)
  match Numeral.read? cs with
  | some (n, []) => some (n.toDouble negative)
  | _ => none

/-- **The double that a text denotes.**  Blanks around it are dropped; the names
of the special values are spelled with capitals. -/
def parse? (s : String) : Option Double :=
  match Text.trim s with
  | "INF" | "+INF" => some (infinity false)
  | "-INF" => some (infinity true)
  | "NaN" => some nan
  | t => ofSigned? t.toList

end Double

/-- The 64-bit integer that a list of characters denotes: an optional sign and
at least one digit. -/
def Text.integerOf? (cs : List Char) : Option Int :=
  let (negative, digits) := match cs with
    | '-' :: rest => (true, rest)
    | '+' :: rest => (false, rest)
    | rest => (false, rest)
  if digits.isEmpty || !digits.all Char.isDigit then none
  else
    let value : Int := if negative then -(decimalValue digits : Int) else decimalValue digits
    if -Int.pow 2 63 ≤ value && value < Int.pow 2 63 then some value else none

/-- The 64-bit integer that a text denotes, with blanks allowed around it. -/
def Text.integer? (s : String) : Option Int :=
  integerOf? (trim s).toList

end IndexedXml
