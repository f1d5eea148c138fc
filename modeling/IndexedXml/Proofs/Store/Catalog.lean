/-
# Stores as catalogs

What a user expects of a store is a *catalog*: under each pair of a collection and a name the
tree that was written there last.  A store keeps its documents under paths instead, and two
pairs can have one path when a name contains a slash, as do `/db/a` with `b/c` and `/db/a/b`
with `c`.  Then a write under one pair takes away what is under the other
(`Store.not_serves_sharedPath`).

This is all that goes wrong: a store does what a catalog does along just those runs in which
no write meets a document of another pair with the same path, so along every run in which
names have no slash (`Store.serves_run`).
-/

import IndexedXml.Proofs.Store.Runs
import IndexedXml.Proofs.Store.Tables

namespace IndexedXml

/-! ### Paths -/

/-- The last slash of a text tells what is before it and what is after it. -/
theorem append_slash_inj {x y : List Char} (hx : '/' ∉ x) (hy : '/' ∉ y) {c d : List Char}
    (h : c ++ '/' :: x = d ++ '/' :: y) : c = d ∧ x = y := by
  -- Where one front is longer, the slash after the other would stand in a back.
  have hend : ∀ {rest x y : List Char}, '/' ∉ x → '/' :: x = rest ++ '/' :: y → rest = [] := by
    rintro (_ | ⟨c, rest⟩) x y hx h
    · rfl
    · obtain ⟨-, rfl⟩ := List.cons_eq_cons.1 h
      exact absurd (by simp) hx
  rcases List.append_eq_append_iff.1 h with ⟨rest, hd, htail⟩ | ⟨rest, hc, htail⟩
  · obtain rfl := hend hx htail
    simp_all
  · obtain rfl := hend hy htail
    simp_all

/-- **A path tells collection and name** when the name has no slash. -/
theorem pathOf_inj {a b : String × String} (ha : '/' ∉ a.2.toList) (hb : '/' ∉ b.2.toList)
    (h : pathOf a = pathOf b) : a = b := by
  have hlist : a.1.toList ++ '/' :: a.2.toList = b.1.toList ++ '/' :: b.2.toList := by
    simpa [pathOf] using congrArg String.toList h
  obtain ⟨hcollection, hname⟩ := append_slash_inj ha hb hlist
  exact Prod.ext (String.toList_inj.1 hcollection) (String.toList_inj.1 hname)

/-- What is stored under each pair of a collection and a name: a tree, or nothing. -/
abbrev Catalog := String × String → Option Element

namespace Catalog

/-- The catalog of nothing. -/
def empty : Catalog := fun _ => none

/-- **The last write wins.** -/
def write (m : Catalog) (w : Tables.Write) : Catalog := Function.update m w.1 w.2

/-- The catalog after a change. -/
def perform (m : Catalog) (change : Store.Change) : Catalog := (change.write?.map m.write).getD m

/-- The catalog after a list of changes. -/
def run (m : Catalog) (changes : List Store.Change) : Catalog := changes.foldl perform m

theorem perform_of_write? {m : Catalog} {change : Store.Change} {w : Tables.Write}
    (h : change.write? = some w) : m.perform change = m.write w := by
  rw [perform, h]
  rfl

/-- What is not written stays as it was. -/
theorem perform_apply_of_ne (m : Catalog) {change : Store.Change} {key : String × String}
    (h : change.write?.map Prod.fst ≠ some key) : m.perform change key = m key := by
  cases hwrite : change.write? with
  | none => rw [perform, hwrite]; rfl
  | some w =>
    have hne : key ≠ w.1 := fun heq => h (by rw [hwrite, heq]; rfl)
    rw [perform_of_write? hwrite]
    exact Function.update_of_ne hne _ _

theorem run_concat (m : Catalog) (before : List Store.Change) (change : Store.Change) :
    m.run (before ++ [change]) = (m.run before).perform change :=
  List.foldl_concat _ _ _ _

/-- Why a change is refused: the text is malformed, or there is nothing to remove. -/
def refusal? (m : Catalog) : Store.Change → Option StoreError
  | .storeXml _ name xml =>
    match Xml.parse xml with
    | .ok _ => none
    | .error cause => some (.malformedXml name cause)
  | .removeDocument uri name =>
    match m (normalizeUri uri, name) with
    | some _ => none
    | none => some (.documentNotFound (pathOf (normalizeUri uri, name)))
  | _ => none

/-- The name that a change writes under, if any, has no slash. -/
def HasPlainName (change : Store.Change) : Prop :=
  ∀ w, change.write? = some w → '/' ∉ w.1.2.toList

/-- After writes under names without a slash there is nothing under others. -/
theorem not_mem_of_run {m : Catalog} (hm : ∀ key, m key ≠ none → '/' ∉ key.2.toList)
    {changes : List Store.Change} (h : ∀ change ∈ changes, HasPlainName change)
    {key : String × String} (hkey : m.run changes key ≠ none) : '/' ∉ key.2.toList := by
  induction changes generalizing m with
  | nil => exact hm key hkey
  | cons change rest ih =>
    obtain ⟨hchange, hrest⟩ := List.forall_mem_cons.1 h
    refine ih (fun key hkey => ?_) hrest hkey
    by_cases hwritten : change.write?.map Prod.fst = some key
    · obtain ⟨w, hwrite, rfl⟩ := Option.map_eq_some_iff.1 hwritten
      exact hchange w hwrite
    · rw [perform_apply_of_ne _ hwritten] at hkey
      exact hm key hkey

/-- **A change writes under the path of another pair** that has a tree. -/
def Clashes (m : Catalog) (change : Store.Change) : Prop :=
  ∃ key value other, change.write? = some (key, value) ∧
    other ≠ key ∧ pathOf other = pathOf key ∧ m other ≠ none

/-- **Writes under names without a slash do not clash.** -/
theorem not_clashes_of_run {changes : List Store.Change}
    (h : ∀ change ∈ changes, HasPlainName change) {change : Store.Change}
    (hchange : HasPlainName change) : ¬ (empty.run changes).Clashes change := by
  rintro ⟨key, value, other, hwrite, hne, hpath, hother⟩
  exact hne (pathOf_inj (not_mem_of_run (fun _ hnone => absurd rfl hnone) h hother) (hchange _ hwrite) hpath)

end Catalog

namespace Tables

variable {t : Tables} {m : Catalog}

/-- The documents of a pair under their numbers. -/
def under (t : Tables) (key : String × String) : List (DocId × Document) :=
  t.documents.filter fun entry => entry.2.key = key

/-- **The documents are those of a catalog:** under each pair the one of the tree there, or
none. -/
def Holds (t : Tables) (m : Catalog) : Prop :=
  ∀ key, (t.under key).map Prod.snd =
    ((m key).map fun root => Document.ofElement key.2 key.1 root).toList

theorem holds_empty : (⟨[], [], 0⟩ : Tables).Holds .empty := fun _ => rfl

/-- Dropping a path leaves pairs with other paths alone. -/
theorem under_drop_of_ne {path : String} {key : String × String} (h : pathOf key ≠ path) :
    (t.drop path).under key = t.under key := by
  unfold under drop
  rw [List.filter_filter]
  refine List.filter_congr fun entry _ => ?_
  by_cases hkey : entry.2.key = key
  · have : entry.2.path ≠ path := by rwa [Document.path_eq, hkey]
    simp [hkey, this]
  · simp [hkey]

/-- Dropping the path of a pair leaves none of its documents. -/
theorem under_drop_self (t : Tables) (key : String × String) :
    (t.drop (pathOf key)).under key = [] := by
  refine List.filter_eq_nil_iff.2 fun entry hentry hkey => ?_
  have hpath := (mem_documents_drop.1 hentry).2
  rw [Document.path_eq, of_decide_eq_true hkey] at hpath
  exact hpath rfl

theorem under_enter (t : Tables) (d : Document) (key : String × String) :
    (t.enter d).under key = t.under key ++ if d.key = key then [(t.nextDoc, d)] else [] := by
  unfold under enter
  rw [List.filter_append]
  split_ifs with hkey <;> simp [hkey]

theorem under_write_self (t : Tables) (key : String × String) (value : Option Element) :
    ((t.write (key, value)).under key).map Prod.snd =
      (value.map fun root => Document.ofElement key.2 key.1 root).toList := by
  cases value with
  | none =>
    change ((t.drop (pathOf key)).under key).map Prod.snd = []
    rw [under_drop_self]
    rfl
  | some root =>
    have hkey : (Document.ofElement key.2 key.1 root).key = key := rfl
    change (((t.drop (pathOf key)).enter _).under key).map Prod.snd = _
    rw [under_enter, under_drop_self, if_pos hkey]
    rfl

/-- A write enters documents of its own pair only. -/
theorem under_write_of_ne (t : Tables) {key other : String × String} (value : Option Element)
    (h : other ≠ key) : (t.write (key, value)).under other = (t.drop (pathOf key)).under other := by
  cases value with
  | none => rfl
  | some root =>
    have hkey : (Document.ofElement key.2 key.1 root).key ≠ other := Ne.symm h
    change ((t.drop (pathOf key)).enter _).under other = _
    rw [under_enter, if_neg hkey, List.append_nil]

/-- **A write without a clash leaves the documents of other pairs as they are.** -/
theorem Holds.under_write (h : t.Holds m) {key other : String × String} (value : Option Element)
    (hne : other ≠ key) (hclash : pathOf other = pathOf key → m other = none) :
    (t.write (key, value)).under other = t.under other := by
  rw [under_write_of_ne t value hne]
  by_cases hpath : pathOf other = pathOf key
  · have hnone := h other
    rw [hclash hpath] at hnone
    rw [← hpath, under_drop_self, List.map_eq_nil_iff.1 hnone]
  · exact under_drop_of_ne hpath

/-- **With a clash the documents of the other pair are gone.** -/
theorem under_write_of_clash (t : Tables) {key other : String × String} (value : Option Element)
    (hne : other ≠ key) (hpath : pathOf other = pathOf key) :
    (t.write (key, value)).under other = [] := by
  rw [under_write_of_ne t value hne, ← hpath, under_drop_self]

/-- A path is in use when a pair that has it has a tree. -/
theorem Holds.exists_path_iff (h : t.Holds m) {path : String} :
    (∃ doc d, (doc, d) ∈ t.documents ∧ d.path = path) ↔ ∃ key, pathOf key = path ∧ m key ≠ none := by
  constructor
  · rintro ⟨doc, d, hd, rfl⟩
    refine ⟨d.key, rfl, fun hnone => ?_⟩
    have hkey := h d.key
    rw [hnone] at hkey
    have hmem : (doc, d) ∈ t.under d.key := List.mem_filter.2 ⟨hd, by simp⟩
    rw [List.map_eq_nil_iff.1 hkey] at hmem
    cases hmem
  · rintro ⟨key, rfl, hsome⟩
    obtain ⟨root, hroot⟩ := Option.ne_none_iff_exists'.1 hsome
    have hkey := h key
    rw [hroot] at hkey
    obtain ⟨⟨doc, d⟩, hd, -⟩ : ∃ entry ∈ t.under key, entry.2 = Document.ofElement key.2 key.1 root :=
      List.mem_map.1 (hkey ▸ List.mem_singleton_self _)
    obtain ⟨hmem, hdkey⟩ := List.mem_filter.1 hd
    exact ⟨doc, d, hmem, by rw [Document.path_eq, of_decide_eq_true hdkey]⟩

end Tables

namespace Store

variable {s : Store} {m : Catalog}

/-- Why a change of a store is refused, if it is. -/
def refusal? (s : Store) : Change → Option StoreError
  | .storeXml uri name xml =>
    match s.storeXml uri name xml with
    | .ok _ => none
    | .error e => some e
  | .removeDocument uri name =>
    match s.removeDocument uri name with
    | .ok _ => none
    | .error e => some e
  | _ => none

/-- **A store does what a catalog does at a change:** it refuses the same for the same reason
and is then left as it was, it has the documents of the catalog afterwards, and the documents
of other pairs keep their numbers. -/
structure Serves (s : Store) (m : Catalog) (change : Change) : Prop where
  refusal : s.refusal? change = m.refusal? change
  unchanged : m.refusal? change ≠ none → s.perform change = s
  holds : (s.perform change).tables.Holds (m.perform change)
  others : ∀ key, change.write?.map Prod.fst ≠ some key →
    (s.perform change).tables.under key = s.tables.under key

/-- A removal is refused when the path of the pair is not in use. -/
theorem refusal?_removeDocument (s : Store) (uri name : String) :
    s.refusal? (.removeDocument uri name) =
      if (s.pathDoc? (pathOf (normalizeUri uri, name))).isSome then none
      else some (.documentNotFound (pathOf (normalizeUri uri, name))) := by
  cases hdoc : s.pathDoc? (normalizeUri uri ++ "/" ++ name) with
  | none => simp [refusal?, removeDocument, pathOf_mk, hdoc]
  | some doc => simp [refusal?, removeDocument, pathOf_mk, hdoc]

/-- A change that is refused leaves a store as it was. -/
theorem perform_of_refusal? {change : Change} (h : s.refusal? change ≠ none) :
    s.perform change = s := by
  cases change with
  | storeXml uri name xml =>
    cases hparse : Xml.parse xml with
    | ok root => exact absurd (by simp only [refusal?, storeXml, hparse]) h
    | error _ => exact perform_storeXml_of_error s uri name hparse
  | removeDocument uri name =>
    cases hdoc : s.pathDoc? (normalizeUri uri ++ "/" ++ name) with
    | some doc => exact absurd (by simp only [refusal?, removeDocument, hdoc]) h
    | none => exact perform_removeDocument_of_none hdoc
  | _ => exact absurd rfl h

/-- **A change that does not clash is refused as in the catalog.** -/
theorem refusal?_eq (hin : s.tables.InStep) (h : s.tables.Holds m) {change : Change}
    (hclash : ¬ m.Clashes change) : s.refusal? change = m.refusal? change := by
  cases change with
  | storeXml uri name xml =>
    simp only [refusal?, Catalog.refusal?, storeXml]
    cases Xml.parse xml <;> rfl
  | removeDocument uri name =>
    rw [refusal?_removeDocument, Catalog.refusal?]
    have hwrite : (Change.removeDocument uri name).write? = some ((normalizeUri uri, name), none) :=
      rfl
    generalize (normalizeUri uri, name) = key at hwrite ⊢
    have huse : (s.pathDoc? (pathOf key)).isSome = true ↔ m key ≠ none := by
      have hpath : (s.pathDoc? (pathOf key)).isSome = true ↔
          ∃ doc d, (doc, d) ∈ s.tables.documents ∧ d.path = pathOf key :=
        Option.isSome_iff_exists.trans <|
          exists_congr fun doc => (pathDoc?_eq_some_iff hin).trans (hin.linked _ doc)
      rw [hpath, h.exists_path_iff]
      refine ⟨fun hused => ?_, fun hsome => ⟨key, rfl, hsome⟩⟩
      obtain ⟨other, hother, hsome⟩ := hused
      by_cases hne : other = key
      · exact hne ▸ hsome
      · exact absurd ⟨key, none, other, hwrite, hne, hother, hsome⟩ hclash
    cases hm : m key with
    | none => rw [if_neg fun hused => huse.1 hused hm]
    | some root => rw [if_pos (huse.2 (by simp [hm]))]
  | _ => rfl

/-- **A change that does not clash is served.** -/
theorem serves_of_not_clashes (hin : s.tables.InStep) (h : s.tables.Holds m) {change : Change}
    (hclash : ¬ m.Clashes change) : s.Serves m change := by
  have hrefusal := refusal?_eq hin h hclash
  have hothers : ∀ key, change.write?.map Prod.fst ≠ some key →
      (s.perform change).tables.under key = s.tables.under key := by
    intro other hother
    rw [tables_perform hin]
    cases hwrite : change.write? with
    | none => rfl
    | some w =>
      have hne : other ≠ w.1 := fun heq => hother (by simp [hwrite, heq])
      exact h.under_write w.2 hne fun hpath => by
        by_contra hsome
        exact hclash ⟨w.1, w.2, other, hwrite, hne, hpath, hsome⟩
  refine ⟨hrefusal, fun hm => perform_of_refusal? (hrefusal ▸ hm), fun key => ?_, hothers⟩
  by_cases hkey : change.write?.map Prod.fst = some key
  · obtain ⟨⟨key, value⟩, hwrite, rfl⟩ := Option.map_eq_some_iff.1 hkey
    rw [tables_perform hin, hwrite, Catalog.perform_of_write? hwrite, Catalog.write,
      Function.update_self]
    exact s.tables.under_write_self key value
  · rw [hothers key hkey, m.perform_apply_of_ne hkey]
    exact h key

/-- **A change that clashes is not served:** a document is missing afterwards. -/
theorem not_serves_of_clashes (hin : s.tables.InStep) {change : Change}
    (hclash : m.Clashes change) : ¬ s.Serves m change := by
  obtain ⟨key, value, other, hwrite, hne, hpath, hother⟩ := hclash
  intro hserves
  have hholds := hserves.holds other
  have hkey : change.write?.map Prod.fst ≠ some other := by
    rw [hwrite]
    exact fun heq => hne (Option.some.inj heq).symm
  rw [tables_perform hin, hwrite, m.perform_apply_of_ne hkey] at hholds
  obtain ⟨root, hroot⟩ := Option.ne_none_iff_exists'.1 hother
  rw [hroot] at hholds
  change ((s.tables.write (key, value)).under other).map Prod.snd = [_] at hholds
  rw [Tables.under_write_of_clash _ _ hne hpath] at hholds
  cases hholds

/-! ### Runs -/

/-- While no change clashes the documents are those of the catalog. -/
theorem holds_take {changes : List Change}
    (h : ∀ i change, changes[i]? = some change →
      ¬ (Catalog.empty.run (changes.take i)).Clashes change) (i : Nat) :
    (empty.run (changes.take i)).tables.Holds (Catalog.empty.run (changes.take i)) := by
  induction i with
  | zero => exact Tables.holds_empty
  | succ i ih =>
    rw [List.take_add_one]
    cases hchange : changes[i]? with
    | none => simpa using ih
    | some change =>
      have hserves := serves_of_not_clashes (reachable_run _).inStep ih (h i change hchange)
      rw [Option.toList_some, run_concat, Catalog.run_concat]
      exact hserves.holds

/-- **Which runs a store serves as a catalog does:** those in which no write meets a document
of another pair with the same path, and so all in which names have no slash. -/
theorem serves_run (changes : List Change) :
    ((∀ i change, changes[i]? = some change →
        (empty.run (changes.take i)).Serves (Catalog.empty.run (changes.take i)) change) ↔
      ∀ i change, changes[i]? = some change →
        ¬ (Catalog.empty.run (changes.take i)).Clashes change) ∧
    ((∀ change ∈ changes, Catalog.HasPlainName change) →
      ∀ i change, changes[i]? = some change →
        (empty.run (changes.take i)).Serves (Catalog.empty.run (changes.take i)) change) := by
  have hserves : (∀ i change, changes[i]? = some change →
        ¬ (Catalog.empty.run (changes.take i)).Clashes change) →
      ∀ i change, changes[i]? = some change →
        (empty.run (changes.take i)).Serves (Catalog.empty.run (changes.take i)) change :=
    fun h i change hchange =>
      serves_of_not_clashes (reachable_run _).inStep (holds_take h i) (h i change hchange)
  refine ⟨⟨fun h i change hchange hclash => ?_, hserves⟩, fun h => hserves fun i change hchange => ?_⟩
  · exact not_serves_of_clashes (reachable_run _).inStep hclash (h i change hchange)
  · exact Catalog.not_clashes_of_run (fun c hc => h c (List.mem_of_mem_take hc))
      (h change (List.mem_of_getElem? hchange))

/-- Two documents in different collections, whose paths are the same. -/
def sharedPath : List Change :=
  [.storeXml "/db/a" "b/c" "<x>1</x>", .storeXml "/db/a/b" "c" "<y>2</y>"]

/-- **The second document takes away the first:** afterwards the store has nothing under the
first pair, although nothing else was written there. -/
theorem not_serves_sharedPath :
    (Catalog.empty.run sharedPath ("/db/a", "b/c")).isSome = true ∧
      (empty.run sharedPath).tables.under ("/db/a", "b/c") = [] ∧
      ¬ ∀ i change, sharedPath[i]? = some change →
        (empty.run (sharedPath.take i)).Serves (Catalog.empty.run (sharedPath.take i)) change := by
  have hsome : (Catalog.empty.run sharedPath ("/db/a", "b/c")).isSome = true := by
    decide +kernel
  have hnone : (empty.run sharedPath).tables.under ("/db/a", "b/c") = [] := by
    rw [← List.length_eq_zero_iff]
    decide +kernel
  refine ⟨hsome, hnone, fun h => ?_⟩
  have hlast : sharedPath.take 1 ++ [.storeXml "/db/a/b" "c" "<y>2</y>"] = sharedPath := rfl
  have hholds := (h 1 _ rfl).holds ("/db/a", "b/c")
  rw [← run_concat, ← Catalog.run_concat, hlast] at hholds
  obtain ⟨root, hroot⟩ := Option.isSome_iff_exists.1 hsome
  rw [hnone, hroot] at hholds
  cases hholds

end Store
end IndexedXml
