/-
# What is stored is read back

A walk through a stored document, from its node down through children and attributes, gives
the tree that was stored, and the text of every element is the texts of its subtree joined
(`Store.readsBack_storeDocument`).

The entries of a subtree lie together in the table of a document: what is before them comes
before the node of the subtree, and nothing behind them is below it (`Document.Stands`).  So
the scan for the text of an element sees the entries of its content and no others.
-/

import IndexedXml.Proofs.Store.Persistence
import IndexedXml.Query.Navigation

namespace IndexedXml

/-! ### Trees -/

namespace Tree

mutual

/-- The texts of a piece of content, in document order.  Values of attributes are not among
them. -/
def texts : Tree → List String
  | .text value => [value]
  | .element _ _ content => textsOf content

/-- The texts of content, in document order. -/
def textsOf : List Tree → List String
  | [] => []
  | piece :: rest => texts piece ++ textsOf rest

end

/-- The texts of a piece of content, joined. -/
def textContent (t : Tree) : String := String.join t.texts

mutual

/-- The number of levels of a piece of content. -/
def height : Tree → Nat
  | .text _ => 1
  | .element _ _ content => heightOf content + 1

/-- The number of levels of the highest piece of content. -/
def heightOf : List Tree → Nat
  | [] => 0
  | piece :: rest => max (height piece) (heightOf rest)

end

end Tree

/-! ### Walks -/

namespace Store

/-- The attribute that a node is read as. -/
def readAttribute? (s : Store) (n : Node) : Option Attribute := do
  let name ← (← (s.nodeName n).toOption)
  let value ← (s.stringValue n).toOption
  pure ⟨name, value⟩

/-- **The tree that a node is read as,** by its kind, its name, its text, its attributes and
its children; at most `depth` levels. -/
def readTree? (s : Store) : (depth : Nat) → Node → Option Tree
  | 0, _ => none
  | depth + 1, n => do
    match ← (s.nodeKind n).toOption with
    | .text => pure (.text (← (s.stringValue n).toOption))
    | .element =>
      let name ← (← (s.nodeName n).toOption)
      let attributes ← (← (s.attributes n).toOption).mapM s.readAttribute?
      let content ← (← (s.children n).toOption).mapM (readTree? s depth)
      pure (.element name attributes content)
    | _ => none

/-- **The root element that a document is read as,** which is the one child of its node. -/
def readDocument? (s : Store) (doc : DocId) : Option Element := do
  match ← (s.children (.document doc)).toOption with
  | [root] =>
    match ← s.readTree? (s.depthBound root) root with
    | .element name attributes content => pure ⟨name, attributes, content⟩
    | .text _ => none
  | _ => none

/-- Every reading of the node shows the attribute. -/
structure ShowsAttribute (s : Store) (n : Node) (a : Attribute) : Prop where
  kind : s.nodeKind n = .ok .attr
  name : s.nodeName n = .ok (some a.name)
  text : s.stringValue n = .ok a.value
  children : s.children n = .ok []
  attributes : s.attributes n = .ok []

mutual

/-- **Every reading of the node, and of what is below it, shows the tree.**  The text of an
element is what its subtree says. -/
def Shows (s : Store) (n : Node) : Tree → Prop
  | .text value =>
    s.nodeKind n = .ok .text ∧ s.nodeName n = .ok none ∧ s.stringValue n = .ok value ∧
      s.attributes n = .ok [] ∧ s.children n = .ok []
  | .element name attributes content =>
    s.nodeKind n = .ok .element ∧ s.nodeName n = .ok (some name) ∧
      s.stringValue n = .ok (Tree.element name attributes content).textContent ∧
      (∃ found, s.attributes n = .ok found ∧ List.Forall₂ s.ShowsAttribute found attributes) ∧
      ∃ found, s.children n = .ok found ∧ ShowsAll s found content

/-- The nodes show the pieces of content, each its own. -/
def ShowsAll (s : Store) (found : List Node) : List Tree → Prop
  | [] => found = []
  | piece :: rest => ∃ n later, found = n :: later ∧ Shows s n piece ∧ ShowsAll s later rest

end

/-- **Every reading of the document shows the tree of its root element.** -/
structure ShowsDocument (s : Store) (doc : DocId) (root : Element) : Prop where
  kind : s.nodeKind (.document doc) = .ok .document
  name : s.nodeName (.document doc) = .ok none
  text : s.stringValue (.document doc) = .ok root.toTree.textContent
  attributes : s.attributes (.document doc) = .ok []
  children : ∃ n, s.children (.document doc) = .ok [n] ∧ s.Shows n root.toTree

variable {s : Store}

theorem ShowsAttribute.readAttribute? {n : Node} {a : Attribute} (h : s.ShowsAttribute n a) :
    s.readAttribute? n = some a := by
  rw [Store.readAttribute?, h.name, h.text]
  rfl

theorem mapM_readAttribute? {found : List Node} {attributes : List Attribute}
    (h : List.Forall₂ s.ShowsAttribute found attributes) :
    found.mapM s.readAttribute? = some attributes := by
  induction h with
  | nil => rfl
  | cons ha _ ih =>
    rw [List.mapM_cons, ha.readAttribute?, ih]
    rfl

mutual

/-- **A walk reads the tree that a node shows,** when it goes as deep as the tree. -/
theorem Shows.readTree? {n : Node} :
    ∀ {t : Tree} {depth : Nat}, s.Shows n t → t.height ≤ depth → s.readTree? depth n = some t
  | .text _, 0, _, hdepth => absurd hdepth (by simp [Tree.height])
  | .element _ _ _, 0, _, hdepth => absurd hdepth (by simp [Tree.height])
  | .text value, depth + 1, h, _ => by
    obtain ⟨hkind, _, htext, _⟩ := h
    rw [Store.readTree?, hkind, htext]
    rfl
  | .element name attributes content, depth + 1, h, hdepth => by
    obtain ⟨hkind, hname, _, ⟨as, hattributes, has⟩, ⟨cs, hchildren, hcs⟩⟩ := h
    have hcontent : cs.mapM (s.readTree? depth) = some content :=
      hcs.mapM_readTree? (by simpa [Tree.height] using hdepth)
    rw [Store.readTree?, hkind, hname, hattributes, hchildren]
    simp only [Except.toOption, Option.bind_eq_bind, Option.bind_some, mapM_readAttribute? has,
      hcontent]
    rfl

/-- A walk reads the content that nodes show. -/
theorem ShowsAll.mapM_readTree? {depth : Nat} :
    ∀ {found : List Node} {content : List Tree}, s.ShowsAll found content →
      Tree.heightOf content ≤ depth → found.mapM (s.readTree? depth) = some content
  | found, [], h, _ => by
    rw [show found = [] from h]
    rfl
  | found, piece :: rest, h, hdepth => by
    obtain ⟨n, later, rfl, hn, hlater⟩ := h
    obtain ⟨hpiece, hrest⟩ := Nat.max_le.1 hdepth
    rw [List.mapM_cons, hn.readTree? hpiece, hlater.mapM_readTree? hrest]
    rfl

end

end Store

namespace Document

variable {d : Document} {id : NodeId}

/-! ### The entries of a subtree -/

/-- **The entries of the tree lie together in the table,** those before them come before the
node, and none behind them is below it. -/
def Stands (d : Document) (id : NodeId) (t : Tree) : Prop :=
  ∃ front back, d.nodes = front ++ treeNodes id t ++ back ∧ (∀ e ∈ front, e.1 < id) ∧
    ∀ e ∈ back, ¬ e.1.isDescendantOf id = true

theorem Stands.mem {t : Tree} (h : d.Stands id t) {e : NodeId × StoredNode}
    (he : e ∈ treeNodes id t) : e ∈ d.nodes := by
  obtain ⟨front, back, hnodes, _⟩ := h
  rw [hnodes]
  exact List.mem_append_left _ (List.mem_append_right _ he)

/-- The entries of an element: its own, its attributes' and its content's. -/
theorem exists_treeNodes_eq (id : NodeId) (name : QName) (attributes : List Attribute)
    (content : List Tree) : ∃ own, treeNodes id (.element name attributes content) =
      (id, own) :: (attributeNodes id attributes ++
        contentNodes id (attributes.length + 1) content) :=
  ⟨_, by rw [treeNodes]⟩

theorem contentNodes_append (id : NodeId) (ordinal : Nat) (before after : List Tree) :
    contentNodes id ordinal (before ++ after) =
      contentNodes id ordinal before ++ contentNodes id (ordinal + before.length) after := by
  induction before generalizing ordinal with
  | nil => simp [contentNodes]
  | cons piece rest ih =>
    rw [List.cons_append, contentNodes, contentNodes, ih, List.append_assoc, List.length_cons,
      show ordinal + 1 + rest.length = ordinal + (rest.length + 1) by omega]

/-- The entries of content are below its pieces, whose numbers end with their count. -/
theorem exists_within_of_mem_contentNodes {ordinal : Nat} {content : List Tree}
    {e : NodeId × StoredNode} (h : e ∈ contentNodes id ordinal content) :
    ∃ j, ordinal ≤ j ∧ j < ordinal + content.length ∧ e.1.Within (id.child j) := by
  induction content generalizing ordinal with
  | nil =>
    rw [contentNodes] at h
    cases h
  | cons piece rest ih =>
    rw [contentNodes, List.mem_append] at h
    rw [List.length_cons]
    rcases h with h | h
    · exact ⟨ordinal, le_rfl, by omega, within_of_mem_treeNodes h⟩
    · obtain ⟨j, hle, hlt, hj⟩ := ih h
      exact ⟨j, by omega, by omega, hj⟩

/-- **Where an element stands, its content does,** each piece under its number. -/
theorem Stands.piece {name : QName} {attributes : List Attribute} {before after : List Tree}
    {piece : Tree} (h : d.Stands id (.element name attributes (before ++ piece :: after))) :
    d.Stands (id.child (attributes.length + 1 + before.length)) piece := by
  obtain ⟨front, back, hnodes, hfront, hback⟩ := h
  set own := attributes.length + 1 + before.length with hown
  have hchild : id < id.child own :=
    NodeId.lt_of_isDescendantOf (NodeId.isDescendantOf_of_within_child (.inl rfl))
  obtain ⟨entry, hentry⟩ := exists_treeNodes_eq id name attributes (before ++ piece :: after)
  rw [hentry, contentNodes_append, contentNodes, ← hown] at hnodes
  refine ⟨front ++ (id, entry) :: (attributeNodes id attributes ++
      contentNodes id (attributes.length + 1) before),
    contentNodes id (own + 1) after ++ back, ?_, fun e he => ?_, fun e he hbelow => ?_⟩
  · rw [hnodes]
    simp only [List.append_assoc, List.cons_append]
  · rcases List.mem_append.1 he with he | he
    · exact trans_of (· < ·) (hfront e he) hchild
    rcases List.mem_cons.1 he with rfl | he
    · exact hchild
    rcases List.mem_append.1 he with he | he
    · obtain ⟨⟨i, _, hi, heq⟩, _⟩ := mem_attributeNodes he
      exact NodeId.lt_of_within_child (show i < own by omega) (.inl heq) (.inl rfl)
    · obtain ⟨i, _, hi, hwithin⟩ := exists_within_of_mem_contentNodes he
      exact NodeId.lt_of_within_child (show i < own by omega) hwithin (.inl rfl)
  · rcases List.mem_append.1 he with he | he
    · obtain ⟨j, hj, hwithin⟩ := within_of_mem_contentNodes he
      have := hwithin.ordinal_eq (.inr hbelow)
      omega
    · exact hback e he (NodeId.isDescendantOf_of_within_child (.inr hbelow))

/-! ### Texts -/

/-- The texts that a table holds. -/
def textsIn (table : NodeTable) : List String :=
  table.filterMap fun e => if e.2.kind = .text then e.2.value else none

theorem textsIn_append (a b : NodeTable) : textsIn (a ++ b) = textsIn a ++ textsIn b :=
  List.filterMap_append

theorem textsIn_attributeNodes (id : NodeId) (attributes : List Attribute) :
    textsIn (attributeNodes id attributes) = [] := by
  refine List.filterMap_eq_nil_iff.2 fun e he => ?_
  obtain ⟨_, name, value, hleaf⟩ := mem_attributeNodes he
  rw [hleaf]
  rfl

mutual

/-- **The texts in the entries of a tree are its texts.** -/
theorem textsIn_treeNodes : ∀ (id : NodeId) (t : Tree), textsIn (treeNodes id t) = t.texts
  | id, .text value => rfl
  | id, .element name attributes content => by
    rw [treeNodes, ← List.singleton_append, textsIn_append, textsIn_append,
      textsIn_attributeNodes, textsIn_contentNodes id _ content, Tree.texts]
    rfl

/-- The texts in the entries of content are its texts. -/
theorem textsIn_contentNodes : ∀ (id : NodeId) (ordinal : Nat) (content : List Tree),
    textsIn (contentNodes id ordinal content) = Tree.textsOf content
  | id, ordinal, [] => by
    rw [contentNodes, Tree.textsOf]
    rfl
  | id, ordinal, piece :: rest => by
    rw [contentNodes, textsIn_append, textsIn_treeNodes, textsIn_contentNodes, Tree.textsOf]

end

/-- **The scan for a text sees what is below the node:** it goes by what comes before, and
ends at the first entry that is not below. -/
theorem textBelow_eq {front below back : NodeTable} {own : StoredNode}
    (hnodes : d.nodes = front ++ (id, own) :: (below ++ back)) (hfront : ∀ e ∈ front, e.1 < id)
    (hbelow : ∀ e ∈ below, e.1.isDescendantOf id = true)
    (hback : ∀ e ∈ back, ¬ e.1.isDescendantOf id = true) :
    d.textBelow id = String.join (textsIn below) := by
  have hnotAfter : ∀ e ∈ front ++ [(id, own)], (!decide (id < e.1)) = true := by
    intro e he
    rw [Bool.not_eq_true', decide_eq_false_iff_not]
    rcases List.mem_append.1 he with he | he
    · exact fun hlt => irrefl_of (· < ·) id (trans_of (· < ·) hlt (hfront e he))
    · rw [List.mem_singleton.1 he]
      exact irrefl_of (· < ·) id
  have hstop : back.takeWhile (fun e => e.1.isDescendantOf id) = [] := by
    cases back with
    | nil => rfl
    | cons e rest => exact List.takeWhile_cons_of_neg (hback e List.mem_cons_self)
  have hscan : ((d.nodes.dropWhile fun e => !(id < e.1)).takeWhile fun e =>
      e.1.isDescendantOf id) = below := by
    rw [hnodes, ← List.singleton_append, ← List.append_assoc,
      List.dropWhile_append_of_pos hnotAfter]
    cases below with
    | nil =>
      -- What is left of `back` begins with nothing below the node.
      rw [List.nil_append]
      cases hdrop : back.dropWhile fun e => !(id < e.1) with
      | nil => rfl
      | cons e rest =>
        have he : e ∈ back := List.dropWhile_subset _ (hdrop ▸ List.mem_cons_self)
        exact List.takeWhile_cons_of_neg (hback e he)
    | cons e rest =>
      have hafter : ¬ (!decide (id < e.1)) = true := by
        simpa using NodeId.lt_of_isDescendantOf (hbelow e List.mem_cons_self)
      have hdrop : (e :: rest ++ back).dropWhile (fun e => !decide (id < e.1)) =
          e :: rest ++ back := List.dropWhile_cons_of_neg hafter
      rw [hdrop, List.takeWhile_append_of_pos hbelow, hstop, List.append_nil]
  rw [textBelow, hscan]
  rfl

/-- **The text below an element is the texts of its content, joined.** -/
theorem Stands.textBelow {name : QName} {attributes : List Attribute} {content : List Tree}
    (h : d.Stands id (.element name attributes content)) :
    d.textBelow id = (Tree.element name attributes content).textContent := by
  obtain ⟨front, back, hnodes, hfront, hback⟩ := h
  rw [treeNodes, List.append_assoc, List.cons_append] at hnodes
  rw [textBelow_eq hnodes hfront (fun e he => ?_) hback, textsIn_append, textsIn_attributeNodes,
    textsIn_contentNodes]
  · rfl
  · rcases List.mem_append.1 he with he | he
    · obtain ⟨⟨j, _, _, hj⟩, _⟩ := mem_attributeNodes he
      exact NodeId.isDescendantOf_of_within_child (.inl hj)
    · obtain ⟨j, _, hj⟩ := within_of_mem_contentNodes he
      exact NodeId.isDescendantOf_of_within_child hj

/-! ### The whole document -/

/-- The root element stands under the number one. -/
theorem stands_root {root : Element} (hnodes : d.nodes = nodesOf root) :
    d.Stands rootId root.toTree := by
  refine ⟨[(NodeId.document, ⟨.document, none, none, [rootId], []⟩)], [], ?_, fun e he => ?_,
    nofun⟩
  · rw [hnodes, nodesOf, List.append_nil]
    rfl
  · rw [List.mem_singleton.1 he]
    exact NodeId.lt_of_isDescendantOf (NodeId.isDescendantOf_of_within_child (.inl rfl))

/-- The text below the document node is that of the root element. -/
theorem textBelow_document {root : Element} (hnodes : d.nodes = nodesOf root) :
    d.textBelow NodeId.document = root.toTree.textContent := by
  have hsplit : d.nodes = [] ++ (NodeId.document, ⟨.document, none, none, [rootId], []⟩) ::
      (treeNodes rootId root.toTree ++ []) := by
    rw [hnodes, List.append_nil]
    rfl
  rw [textBelow_eq hsplit nofun (fun e he => ?_) nofun, textsIn_treeNodes]
  · rfl
  · exact isDescendantOf_document (List.mem_map_of_mem he)

mutual

/-- A tree has no more levels than entries. -/
theorem height_le_length : ∀ (id : NodeId) (t : Tree), t.height ≤ (treeNodes id t).length
  | id, .text value => le_rfl
  | id, .element name attributes content => by
    have := heightOf_le_length id (attributes.length + 1) content
    simp only [Tree.height, treeNodes, List.length_cons, List.length_append]
    omega

theorem heightOf_le_length : ∀ (id : NodeId) (ordinal : Nat) (content : List Tree),
    Tree.heightOf content ≤ (contentNodes id ordinal content).length
  | id, ordinal, [] => Nat.zero_le _
  | id, ordinal, piece :: rest => by
    have hpiece := height_le_length (id.child ordinal) piece
    have hrest := heightOf_le_length id (ordinal + 1) rest
    simp only [Tree.heightOf, contentNodes, List.length_append]
    omega

end

theorem ordinals_succ (id : NodeId) (first count : Nat) :
    ordinals id first (count + 1) = id.child (first + 1) :: ordinals id (first + 1) count := by
  rw [ordinals, List.range_succ_eq_map, List.map_cons, List.map_map, ordinals]
  refine congrArg _ (List.map_congr_left fun n _ => ?_)
  rw [Function.comp_apply, show first + (n + 1) + 1 = first + 1 + n + 1 by omega]

/-! ### Reading a subtree -/

end Document

namespace Store

variable {s : Store} {doc : DocId} {d : Document} {id : NodeId}

/-- An attribute of a document shows itself. -/
theorem showsAttribute_of_mem (hd : s.document? doc = some d) (hlaid : d.IsLaidOut)
    {a : Attribute} (h : (id, .leaf .attr (some a.name) a.value) ∈ d.nodes) :
    s.ShowsAttribute ⟨doc, id⟩ a := by
  have he := hlaid.node?_eq_some_iff.2 h
  have hread := describes_accountOf (n := ⟨doc, id⟩) hd he
  refine ⟨hread.kind, hread.name, hread.text.trans ?_, hread.children, hread.attributes⟩
  change Except.ok (d.stringValue id) = _
  rw [Document.stringValue, he]
  rfl

/-- **The attributes of an element show themselves in order.** -/
theorem forall₂_showsAttribute (hd : s.document? doc = some d) (hlaid : d.IsLaidOut)
    {attributes : List Attribute}
    (h : ∀ e ∈ Document.attributeNodes id attributes, e ∈ d.nodes) :
    List.Forall₂ s.ShowsAttribute
      ((Document.ordinals id 0 attributes.length).map (⟨doc, ·⟩)) attributes := by
  have hlen : (Document.ordinals id 0 attributes.length).length = attributes.length := by
    simp [Document.ordinals]
  refine List.forall₂_iff_get.2 ⟨by rw [List.length_map, hlen], fun i hi ha => ?_⟩
  rw [List.length_map] at hi
  have hmem : ((Document.ordinals id 0 attributes.length)[i],
      StoredNode.leaf .attr (some attributes[i].name) attributes[i].value) ∈
        Document.attributeNodes id attributes := by
    refine List.mem_iff_getElem.2 ⟨i, ?_, ?_⟩
    · simpa [Document.attributeNodes, hlen] using ha
    · simp [Document.attributeNodes]
  simpa using showsAttribute_of_mem hd hlaid (h _ hmem)

mutual

/-- **Where a tree stands, reading shows it.** -/
theorem shows_of_stands (hd : s.document? doc = some d) (hlaid : d.IsLaidOut) :
    ∀ {t : Tree} {id : NodeId}, d.Stands id t → s.Shows ⟨doc, id⟩ t
  | .text value, id, h => by
    have he := hlaid.node?_eq_some_iff.2 (h.mem List.mem_cons_self)
    have hread := describes_accountOf (n := ⟨doc, id⟩) hd he
    refine ⟨hread.kind, hread.name, hread.text.trans ?_, hread.attributes, hread.children⟩
    change Except.ok (d.stringValue id) = _
    rw [Document.stringValue, he]
    rfl
  | .element name attributes content, id, h => by
    have he := hlaid.node?_eq_some_iff.2 (h.mem (Document.mem_treeNodes_element.2 (.inl rfl)))
    have hread := describes_accountOf (n := ⟨doc, id⟩) hd he
    refine ⟨hread.kind, hread.name, hread.text.trans ?_, ⟨_, hread.attributes, ?_⟩,
      ⟨_, hread.children, ?_⟩⟩
    · change Except.ok (d.stringValue id) = _
      rw [Document.stringValue, he]
      exact congrArg Except.ok h.textBelow
    · exact forall₂_showsAttribute hd hlaid fun e he =>
        h.mem (Document.mem_treeNodes_element.2 (.inr (.inl he)))
    · exact showsAll_of_stands hd hlaid [] content h

/-- Where an element stands, reading shows its content; so it does from every piece on. -/
theorem showsAll_of_stands (hd : s.document? doc = some d) (hlaid : d.IsLaidOut)
    {id : NodeId} {name : QName} {attributes : List Attribute} :
    ∀ (before content : List Tree),
      d.Stands id (.element name attributes (before ++ content)) →
        s.ShowsAll ((Document.ordinals id (attributes.length + before.length)
          content.length).map (⟨doc, ·⟩)) content
  | before, [], _ => rfl
  | before, piece :: rest, h => by
    have hpiece := shows_of_stands hd hlaid h.piece
    have hrest := showsAll_of_stands hd hlaid (before ++ [piece]) rest
      (by rwa [List.append_assoc])
    refine ⟨_, _, ?_, hpiece, hrest⟩
    rw [List.length_cons, Document.ordinals_succ, List.map_cons, List.length_append,
      List.length_singleton, Nat.add_right_comm attributes.length 1, Nat.add_assoc]

end

/-! ### Documents -/

/-- **A document that was made from a tree shows it,** and reads as it. -/
theorem showsDocument_of_document? (hd : s.document? doc = some d) (hlaid : d.IsLaidOut)
    {root : Element} (hnodes : d.nodes = Document.nodesOf root) :
    s.ShowsDocument doc root ∧ s.readDocument? doc = some root := by
  have he : d.node? NodeId.document = some ⟨.document, none, none, [Document.rootId], []⟩ :=
    hlaid.node?_eq_some_iff.2 (hnodes ▸ List.mem_cons_self)
  have hread := describes_accountOf (n := .document doc) hd he
  have hroot : s.Shows ⟨doc, Document.rootId⟩ root.toTree :=
    shows_of_stands hd hlaid (Document.stands_root hnodes)
  have hheight : root.toTree.height ≤ s.depthBound ⟨doc, Document.rootId⟩ := by
    have hlen := Document.height_le_length Document.rootId root.toTree
    rw [depthBound, hd, Option.map_some, Option.getD_some, hnodes, Document.nodesOf,
      List.length_cons]
    omega
  constructor
  · refine ⟨hread.kind, hread.name, hread.text.trans ?_, hread.attributes, _, hread.children, hroot⟩
    change Except.ok (d.stringValue NodeId.document) = _
    rw [Document.stringValue, he]
    exact congrArg Except.ok (Document.textBelow_document hnodes)
  · rw [readDocument?, hread.children]
    simp only [accountOf, Except.toOption, Option.bind_eq_bind, Option.bind_some, List.map_cons,
      List.map_nil]
    rw [show (Node.document doc).doc = doc from rfl, hroot.readTree? hheight]
    rfl

/-- **A document that is stored is found under the number that it is given,** laid out as its
tree says. -/
theorem Reachable.document?_storeDocument (h : s.Reachable) (uri name : String)
    (root : Element) : ∃ d,
      (s.storeDocument uri name root).2.document? (s.storeDocument uri name root).1 = some d ∧
        d.nodes = Document.nodesOf root ∧ d.IsLaidOut := by
  have hlater : (s.storeDocument uri name root).2.Reachable :=
    h.perform (.storeDocument uri name root)
  have hmem : ∃ d, ((s.storeDocument uri name root).1, d) ∈
      (s.storeDocument uri name root).2.documents ∧ d.nodes = Document.nodesOf root :=
    ⟨_, List.mem_append_right _ List.mem_cons_self, rfl⟩
  obtain ⟨d, hd, hnodes⟩ := hmem
  have hfound := (document?_eq_some_iff hlater.inStep).2 hd
  exact ⟨d, hfound, hnodes, hlater.isIndexed.isLaidOut hfound⟩

/-- **What is stored is read back.**  After whatever changes a document is stored, a walk from
its node through children and attributes reads the tree that was stored; every reading on the
way shows that tree, and the text of each element, found by the scan of the table, is the texts
of its subtree joined in document order. -/
theorem readsBack_storeDocument (changes : List Change) (uri name : String) (root : Element) :
    ((empty.run changes).storeDocument uri name root).2.readDocument?
        ((empty.run changes).storeDocument uri name root).1 = some root ∧
      ((empty.run changes).storeDocument uri name root).2.ShowsDocument
        ((empty.run changes).storeDocument uri name root).1 root := by
  obtain ⟨d, hd, hnodes, hlaid⟩ := (reachable_run changes).document?_storeDocument uri name root
  exact (showsDocument_of_document? hd hlaid hnodes).symm

end Store
end IndexedXml
