/-
# Calling functions

What the built-in functions do with the values of their arguments.  A function that
wants a text takes the text of a single item, and the empty text when there is none.
-/

import IndexedXml.Query.Run

namespace IndexedXml

/-- The values of an item; the text of a node is untyped. -/
def Store.atomizeItem (s : Store) : Item → Except StoreError AtomicValue
  | .node n => do pure (.untyped (← s.stringValue n))
  | .atomic value => .ok value

/-- **The values of a sequence.** -/
def Store.atomize (s : Store) (sequence : Sequence) : Except StoreError (List AtomicValue) :=
  sequence.toItems.mapM s.atomizeItem

namespace Builtin

/-- The text of a sequence of at most one item. -/
def textArgument (s : Store) (function : Builtin) (sequence : Sequence) : Evaluation String := do
  match ← Evaluation.ofStore (s.atomize sequence) with
  | [] => pure ""
  | [value] => pure value.stringValue
  | values => Evaluation.orFail (.error (.tooManyItems function.name values.length))

/-- What `string()` is applied to without an argument. -/
def focusSequence (focus : Focus) : Except QueryError Sequence :=
  match focus.item, focus.context with
  | some item, _ => .ok (.items [item])
  | none, some sequence => .ok sequence
  | none, none => .error .noStringContext

/-- **The value of a call,** given the values of its arguments. -/
def apply (s : Store) (focus : Focus) (function : Builtin) (args : List Sequence) :
    Evaluation Sequence :=
  match function, args with
  | collection, [] => pure (.ofSet s.allDocuments)
  | collection, [uri] => do
    let uri ← textArgument s function uri
    let documents ← Evaluation.ofStore (s.documentsUnder uri)
    pure (.ofSet documents)
  | count, [items] => pure (.ofValue (.integer items.size))
  | existence, [items] => pure (.ofBool (!items.isEmpty))
  | empty, [items] => pure (.ofBool items.isEmpty)
  | not, [items] => do
    let b ← Evaluation.orFail items.truth
    pure (.ofBool (!b))
  | string, [] => do
    let items ← Evaluation.orFail (focusSequence focus)
    let text ← textArgument s function items
    pure (.ofValue (.string text))
  | string, [items] => do
    let text ← textArgument s function items
    pure (.ofValue (.string text))
  | contains, [whole, part] => do
    let whole ← textArgument s function whole
    let part ← textArgument s function part
    pure (.ofBool (Text.contains whole part))
  | startsWith, [whole, start] => do
    let whole ← textArgument s function whole
    let start ← textArgument s function start
    pure (.ofBool (Text.startsWith whole start))
  | true, [] => pure (.ofBool .true)
  | false, [] => pure (.ofBool .false)
  | function, args => Evaluation.orFail (.error (.wrongArity function.name args.length))

end Builtin
end IndexedXml
