/-
# Blanks, affixes and cuts of a text

The text operations that the names, numbers and addresses of the library are
read with.  Each works on the list of characters of a `String`; a character is
a Unicode scalar value, and a blank is one with the property `White_Space`.
`isAsciiBlank` is the narrower class of markup: space, tab, line feed and
carriage return.
-/

namespace IndexedXml
namespace Text

/-- A character with the Unicode property `White_Space`. -/
def isBlank (c : Char) : Bool :=
  let n := c.toNat
  (9 ≤ n && n ≤ 13) || n == 0x20 || n == 0x85 || n == 0xA0 || n == 0x1680 ||
    (0x2000 ≤ n && n ≤ 0x200A) || n == 0x2028 || n == 0x2029 || n == 0x202F ||
    n == 0x205F || n == 0x3000

/-- Space, tab, line feed or carriage return. -/
def isAsciiBlank (c : Char) : Bool :=
  c == ' ' || c == '\t' || c == '\n' || c == '\r'

/-- Every blank of markup is a blank. -/
theorem isBlank_of_isAsciiBlank {c : Char} (h : isAsciiBlank c = true) : isBlank c = true := by
  simp only [isAsciiBlank, Bool.or_eq_true, beq_iff_eq] at h
  rcases h with ((rfl | rfl) | rfl) | rfl <;> rfl

/-- The list without the characters of class `p` at its end. -/
def dropEndWhile (p : Char → Bool) (cs : List Char) : List Char :=
  (cs.reverse.dropWhile p).reverse

/-- The list without the characters of class `p` at either end. -/
def stripWhile (p : Char → Bool) (cs : List Char) : List Char :=
  dropEndWhile p (cs.dropWhile p)

/-- The text without the blanks at either end. -/
def trim (s : String) : String :=
  .ofList (stripWhile isBlank s.toList)

/-- Whether the text `s` begins with `start`. -/
def startsWith (s start : String) : Bool :=
  start.toList.isPrefixOf s.toList

/-- What follows `start` in a list that begins with it. -/
def afterStart? : (start cs : List Char) → Option (List Char)
  | [], cs => some cs
  | _ :: _, [] => none
  | a :: start, c :: cs => if a = c then afterStart? start cs else none

/-- What follows `start` in a text that begins with it. -/
def stripStart? (start s : String) : Option String :=
  (afterStart? start.toList s.toList).map String.ofList

/-- Whether `part` occurs in the list. -/
def hasPart (part : List Char) : List Char → Bool
  | [] => part.isEmpty
  | c :: cs => part.isPrefixOf (c :: cs) || hasPart part cs

/-- Whether `part` occurs in the text; the empty text occurs everywhere. -/
def contains (s part : String) : Bool :=
  hasPart part.toList s.toList

/-- The characters before and after the first `mark`. -/
def splitOnceList (mark : Char) : List Char → Option (List Char × List Char)
  | [] => none
  | c :: cs =>
    if c = mark then some ([], cs)
    else (splitOnceList mark cs).map fun (before, after) => (c :: before, after)

/-- The texts before and after the first `mark`. -/
def splitOnce (mark : Char) (s : String) : Option (String × String) :=
  (splitOnceList mark s.toList).map fun (before, after) => (.ofList before, .ofList after)

/-- Collects words: `word` holds the characters of the current one in reverse. -/
def wordsFrom (word : List Char) : List Char → List (List Char)
  | [] => if word.isEmpty then [] else [word.reverse]
  | c :: cs =>
    if isBlank c then
      if word.isEmpty then wordsFrom [] cs else word.reverse :: wordsFrom [] cs
    else wordsFrom (c :: word) cs

/-- The maximal runs of characters that are not blank. -/
def words (s : String) : List String :=
  (wordsFrom [] s.toList).map String.ofList

/-- Collects lines: `line` holds the characters of the current one in reverse. -/
def linesFrom (line : List Char) : List Char → List (List Char)
  | [] => if line.isEmpty then [] else [line.reverse]
  | '\n' :: cs =>
    (match line with
      | '\r' :: rest => rest.reverse
      | _ => line.reverse) :: linesFrom [] cs
  | c :: cs => linesFrom (c :: line) cs

/-- The lines of a text.  A line feed ends one, together with a carriage return
before it, and the last line may end with the text. -/
def lines (s : String) : List String :=
  (linesFrom [] s.toList).map String.ofList

/-- The text with every `c` written twice. -/
def doubled (c : Char) (s : String) : String :=
  .ofList (s.toList.flatMap fun x => if x = c then [x, x] else [x])

end Text
end IndexedXml
