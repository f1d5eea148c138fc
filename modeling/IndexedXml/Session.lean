/-
# Sessions

A session holds a store together with what is worked with on it: sequences and
compiled queries kept under names, and query contexts.  It counts the lookups made
since the counts were last reset.

Whatever is kept under a name or given to a query as its context receives a handle,
unless it has one.  No handle is given out twice, so that a node set is recognized
when it comes back, and two sets made separately are told apart even when they have
the same members.
-/

import IndexedXml.Query.Evaluation

namespace IndexedXml

/-- The value under a name. -/
def named? {α : Type} (name : String) (entries : List (String × α)) : Option α :=
  (entries.find? fun entry => entry.1 == name).map Prod.snd

/-- The entries with a value under a name, in place of the one that is there. -/
def putNamed {α : Type} (name : String) (value : α) (entries : List (String × α)) :
    List (String × α) :=
  (name, value) :: entries.filter fun entry => entry.1 != name

/-- A store and what is worked with on it. -/
structure Session where
  /-- The store. -/
  store : Store
  /-- The lookups since the last reset. -/
  counts : LookupCounts
  /-- Sequences by name. -/
  saved : List (String × Sequence)
  /-- Compiled queries by name. -/
  queries : List (String × CompiledQuery)
  /-- Query contexts by name. -/
  contexts : List (String × QueryContext)
  /-- The next handle. -/
  nextHandle : Nat

namespace Session

/-- A session on a store. -/
def ofStore (store : Store) : Session := ⟨store, .zero, [], [], [], 0⟩

/-- Resets the counts. -/
def resetCounts (s : Session) : Session := { s with counts := .zero }

/-- Gives a node set a handle, unless it has one. -/
def share (s : Session) : Sequence → Sequence × Session
  | .nodes ⟨set, none⟩ => (.nodes ⟨set, some s.nextHandle⟩, { s with nextHandle := s.nextHandle + 1 })
  | sequence => (sequence, s)

/-- Keeps a sequence under a name. -/
def save (s : Session) (name : String) (sequence : Sequence) : Session :=
  let (sequence, s) := s.share sequence
  { s with saved := putNamed name sequence s.saved }

/-- The sequence under a name. -/
def saved? (s : Session) (name : String) : Option Sequence := named? name s.saved

/-- The query under a name. -/
def query? (s : Session) (name : String) : Option CompiledQuery := named? name s.queries

/-- Compiles a query with the given settings, or else with those of the store. -/
def compile (s : Session) (source : String) (config : Option Configuration) :
    Except QueryError CompiledQuery :=
  CompiledQuery.compile source (config.getD s.store.configuration)

/-- Keeps a compiled query under a name. -/
def keep (s : Session) (name : String) (q : CompiledQuery) : Session :=
  { s with queries := putNamed name q s.queries }

/-- The query context under a name, a new one at first. -/
def context (s : Session) (name : String) : QueryContext := (named? name s.contexts).getD .empty

/-- Keeps a query context under a name. -/
def setContext (s : Session) (name : String) (c : QueryContext) : Session :=
  { s with contexts := putNamed name c s.contexts }

/-- Gives a variable of a query context a value. -/
def declare (s : Session) (context name : String) (value : Sequence) : Session :=
  let (value, s) := s.share value
  s.setContext context ((s.context context).declare name value)

/-- Drops what belongs to runs from a query context. -/
def reset (s : Session) (context : String) : Session :=
  s.setContext context (s.context context).reset

/-- Counts a lookup if it answers. -/
def lookup (s : Session) (kind : LookupKind) (answer : Except StoreError NodeSet) :
    Except StoreError NodeSet × Session :=
  match answer with
  | .ok set => (.ok set, { s with counts := s.counts.count kind })
  | .error e => (.error e, s)

/-- **Evaluates a query** in a query context, for a context sequence and an item of it.
The lookups that it makes are added to the counts. -/
def evaluate (s : Session) (q : CompiledQuery) (context : String) (sequence : Option Sequence)
    (item : Option Item) : Except QueryError Sequence × Session :=
  let (sequence, s) := match sequence with
    | some sequence => let (sequence, s) := s.share sequence; (some sequence, s)
    | none => (none, s)
  let (outcome, run) := (q.evaluate s.store ⟨sequence, item⟩).run ⟨s.context context, s.counts⟩
  (outcome, { s.setContext context run.context with counts := run.counts })

end Session
end IndexedXml
