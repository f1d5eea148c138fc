/-
# Addresses of collections

Collections are addressed by paths below `/db`.  A written address may leave out
the leading part, may end in slashes and may have blanks around it;
`normalizeUri` gives the address it stands for.  The collection `/db/system` and
what lies below it belong to the database itself.
-/

import IndexedXml.Text.Blank

namespace IndexedXml

/-- The collection that holds the internals of the database. -/
def systemUri : String := "/db/system"

/-- Whether an address is that of the system collection or below it. -/
def isSystemUri (uri : String) : Bool :=
  uri == systemUri || Text.startsWith uri (systemUri ++ "/")

/-- Whether an address lies below another. -/
def isBelowUri (uri upper : String) : Bool := Text.startsWith uri (upper ++ "/")

/-- **The address that a written address stands for.** -/
def normalizeUri (uri : String) : String :=
  let trimmed : String := .ofList (Text.dropEndWhile (· == '/') (Text.trim uri).toList)
  if trimmed == "" || trimmed == "/db" || trimmed == "db" then "/db"
  else if Text.startsWith trimmed "/db/" then trimmed
  else
    match Text.stripStart? "db/" trimmed with
    | some rest => "/db/" ++ rest
    | none => "/db/" ++ .ofList (trimmed.toList.dropWhile (· == '/'))

end IndexedXml
