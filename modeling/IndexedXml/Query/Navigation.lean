/-
# Tree navigation

How a step finds its nodes without an index: it goes from each context node along
the axis, through the links that the store keeps, and tests every node it comes to.
A node that the store does not know has no links, and to ask for them is an error;
its ancestors, though, are known from its identifier.
-/

import IndexedXml.Query.Expr
import IndexedXml.Store.Basic

namespace IndexedXml

/-- The members that pass a test which may fail, tested in order. -/
def filterPassing {α ε : Type} (test : α → Except ε Bool) : List α → Except ε (List α)
  | [] => .ok []
  | a :: rest => do
    let passed ← test a
    let rest ← filterPassing test rest
    pure (if passed then a :: rest else rest)

namespace Store

/-- More than the number of levels in the document of a node. -/
def depthBound (s : Store) (n : Node) : Nat :=
  ((s.document? n.doc).map fun d => d.nodes.length).getD 0 + 1

/-- The elements and texts below a node, each before what is in it; at most `depth`
levels. -/
def contentBelow (s : Store) : (depth : Nat) → Node → Except StoreError (List Node)
  | 0, _ => .ok []
  | depth + 1, n => do
    let children ← s.children n
    let below ← children.mapM fun c => do
      let rest ← contentBelow s depth c
      pure (c :: rest)
    pure below.flatten

/-- The attributes of a node and of the elements below it; at most `depth` levels. -/
def attributesBelow (s : Store) : (depth : Nat) → Node → Except StoreError (List Node)
  | 0, _ => .ok []
  | depth + 1, n => do
    let own ← s.attributes n
    let children ← s.children n
    let below ← children.mapM (attributesBelow s depth)
    pure (own ++ below.flatten)

/-- The nodes on the same level that pass a test; attributes have none. -/
def siblings (s : Store) (n : Node) (test : Node → Bool) : Except StoreError (List Node) :=
  match n.parent? with
  | none => .ok []
  | some parent => do
    if (← s.nodeKind n) = .attr then pure []
    else
      let level ← s.children parent
      pure (level.filter test)

/-- The nodes on an axis of a node. -/
def along (s : Store) (axis : Axis) (n : Node) : Except StoreError (List Node) :=
  match axis with
  | .child => s.children n
  | .attr => s.attributes n
  | .self => .ok [n]
  | .parent => .ok n.parent?.toList
  | .ancestor => .ok n.ancestors
  | .ancestorOrSelf => .ok (n :: n.ancestors)
  | .descendant => s.contentBelow (s.depthBound n) n
  | .descendantOrSelf => do
    let below ← s.contentBelow (s.depthBound n) n
    pure (n :: below)
  | .descendantAttr => s.attributesBelow (s.depthBound n) n
  | .followingSibling => s.siblings n (n < ·)
  | .precedingSibling => s.siblings n (· < n)

/-- The kind of node that names on an axis belong to. -/
def principalKind (axis : Axis) : NodeKind := if axis.isAttributeAxis then .attr else .element

/-- Whether a node passes the test of a step on an axis. -/
def passes (s : Store) (axis : Axis) (test : NodeTest) (n : Node) : Except StoreError Bool :=
  match test with
  | .anyNode => .ok true
  | .text => do pure ((← s.nodeKind n) == .text)
  | .wildcard => do pure ((← s.nodeKind n) == principalKind axis)
  | .name q => do
    if (← s.nodeKind n) = principalKind axis then
      pure (((← s.nodeName n).map q.same).getD false)
    else pure false

/-- **The nodes that a step leads to from a set of nodes,** by navigation. -/
def navigate (s : Store) (axis : Axis) (test : NodeTest) (context : NodeSet) :
    Except StoreError NodeSet := do
  let found ← context.nodes.mapM fun n => do
    let candidates ← s.along axis n
    filterPassing (s.passes axis test) candidates
  pure (s.persistent found.flatten)

end Store
end IndexedXml
