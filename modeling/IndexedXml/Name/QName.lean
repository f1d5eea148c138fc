/-
# Qualified names

The name of an element or an attribute: an optional prefix, a local part and an
optional namespace URI.  The prefix is kept for display; which name it is, is
decided by the namespace and the local part alone, and so is the order of names.
Where a name is written as one text, the first colon ends the prefix.
-/

import IndexedXml.Text.Blank

namespace IndexedXml

/-- The name of an element or an attribute. -/
structure QName where
  /-- The prefix it is written with. -/
  prefixPart : Option String
  /-- The part after the prefix. -/
  localPart : String
  /-- The namespace it belongs to. -/
  namespaceUri : Option String
  deriving DecidableEq

namespace QName

/-- A name without prefix and namespace. -/
def simple (localPart : String) : QName := ⟨none, localPart, none⟩

/-- What identifies a name: its namespace and its local part. -/
def identity (a : QName) : Option String × String := (a.namespaceUri, a.localPart)

/-- Whether two names are the same name; prefixes do not count. -/
def same (a b : QName) : Bool := a.identity == b.identity

/-- **Being the same name is having one identity.** -/
theorem same_iff {a b : QName} : a.same b = true ↔ a.identity = b.identity := by
  simp [same]

/-- The order of optional texts: an absent text comes first. -/
def compareOptional : Option String → Option String → Ordering
  | none, none => .eq
  | none, some _ => .lt
  | some _, none => .gt
  | some a, some b => compare a b

/-- The order of names: by namespace, then by local part. -/
def order (a b : QName) : Ordering :=
  (compareOptional a.namespaceUri b.namespaceUri).then (compare a.localPart b.localPart)

/-- The displayed name: with its prefix, else with its namespace, else bare. -/
def text (a : QName) : String :=
  match a.prefixPart, a.namespaceUri with
  | some lead, _ => lead ++ ":" ++ a.localPart
  | none, some uri => "Q\x7b" ++ uri ++ "\x7d" ++ a.localPart
  | none, none => a.localPart

/-- The name written as `text`, which has a prefix when it has a colon. -/
def ofText (text : String) : QName :=
  match Text.splitOnce ':' text with
  | some (lead, rest) => ⟨some lead, rest, none⟩
  | none => simple text

end QName
end IndexedXml
