/-
# Comparing texts and looking up keys

A condition on a node can be decided in two ways: its text is compared with a value, or
its key is looked up in an index.  Where both are possible they decide alike
(`AtomicValue.related_iff_matches`), provided that the index is for texts or doubles: an
index on integers leaves out texts that a comparison takes as numbers, and decides alike for
those that it has (`AtomicValue.matches_iff_related`).

A comparison fails at a text that is no number, while an index just leaves the node out.
So the lookup is only said to be right where the comparison has an outcome.
-/

import IndexedXml.Proofs.Query.Coverage
import IndexedXml.Proofs.Store.Ranges
import IndexedXml.Proofs.Text.Numbers
import IndexedXml.Query.Comparison

namespace IndexedXml

/-- **A text has a key in a relation to that of a value,** both of the type. -/
def IndexType.Matches (type : IndexType) (op : RangeOp) (key : AtomicValue) (text : String) : Prop :=
  ∃ stored asked, type.keyOfText? text = some stored ∧ type.keyOfValue? key = some asked ∧
    op.hits stored asked = true

namespace AtomicValue

/-! ### One text and one value -/

theorem toNumber_integer (i : Int) : (integer i).toNumber = Double.ofInt i := by
  rw [toNumber, toDouble?, Option.getD_some]

/-- **A number has a key of every numeric type,** the double nearest to it. -/
theorem keyOfValue?_of_isNumeric {type : IndexType} (h : type.isNumeric = true) {key : AtomicValue}
    (hkey : key.isNumeric = true) : type.keyOfValue? key = some (.number key.toNumber) := by
  cases key with
  | integer i =>
    rw [toNumber_integer]
    cases type <;> first | rfl | cases h
  | double d => cases type <;> first | rfl | cases h
  | _ => cases hkey

/-- Nothing else has one. -/
theorem isNumeric_of_keyOfValue? {type : IndexType} (h : type.isNumeric = true) {key : AtomicValue}
    (hkey : (type.keyOfValue? key).isSome = true) : key.isNumeric = true := by
  cases type with
  | string => cases h
  | integer => cases key <;> first | rfl | cases hkey
  | double => cases key <;> first | rfl | cases hkey

/-- **A number is compared with the double that the text denotes.** -/
theorem related_number {key : AtomicValue} (hkey : key.isNumeric = true) (op : ComparisonOp)
    (text : String) :
    related op (.untyped text) key =
      (castDouble text).map fun x => op.holdsPartial (x.compare? key.toNumber) := by
  unfold related
  cases key with
  | integer i =>
    rw [compare?]
    cases castDouble text <;> rfl
  | double d =>
    rw [compare?]
    cases castDouble text <;> rfl
  | _ => cases hkey

theorem castDouble_eq_ok {text : String} {x : Double} :
    castDouble text = .ok x ↔ Double.parse? text = some x := by
  unfold castDouble
  cases Double.parse? text <;> simp

/-- **Comparing and looking up decide alike.** -/
theorem related_iff_matches {op : ComparisonOp} {type : IndexType} {key : AtomicValue}
    {text : String} {b : Bool} (htype : type ≠ .integer) (hkey : (type.keyOfValue? key).isSome = true)
    (h : related op (.untyped text) key = .ok b) :
    b = true ↔ type.Matches (.compare op) key text := by
  -- The double that the text denotes is also its key.
  have hnumber : key.isNumeric = true →
      (b = true ↔ ∃ stored, (Double.parse? text).map IndexKey.number = some stored ∧
        RangeOp.hits (.compare op) stored (.number key.toNumber) = true) := by
    intro hnumeric
    rw [related_number hnumeric] at h
    obtain ⟨x, hx, rfl⟩ := map_eq_ok.1 h
    simp [castDouble_eq_ok.1 hx, RangeOp.hits, IndexKey.compare?]
  have htext : ∀ t : String, related op (.untyped text) key = .ok (op.holds (compare text t)) →
      (b = true ↔ ∃ stored, some (IndexKey.text text) = some stored ∧
        RangeOp.hits (.compare op) stored (.text t) = true) := by
    intro t ht
    obtain rfl := Except.ok.inj (h.symm.trans ht)
    simp [RangeOp.hits, IndexKey.compare?, ComparisonOp.holdsPartial]
  unfold IndexType.Matches
  cases type with
  | integer => exact absurd rfl htype
  | string =>
    cases key with
    | string t => simpa [IndexType.keyOfText?, IndexType.keyOfValue?] using htext t rfl
    | untyped t => simpa [IndexType.keyOfText?, IndexType.keyOfValue?] using htext t rfl
    | _ => cases hkey
  | double =>
    have hnumeric := isNumeric_of_keyOfValue? rfl hkey
    have hasked : IndexType.double.keyOfValue? key = some (.number key.toNumber) :=
      keyOfValue?_of_isNumeric rfl hnumeric
    simpa only [IndexType.keyOfText?, hasked, Option.some.injEq, exists_and_left,
      exists_eq_left'] using hnumber hnumeric

/-- **A text is found by its key when it stands in the relation and has a key,** of whatever
type the index is. -/
theorem matches_iff_related {op : ComparisonOp} {type : IndexType} {key : AtomicValue}
    {text : String} {b : Bool} (hkey : (type.keyOfValue? key).isSome = true)
    (h : related op (.untyped text) key = .ok b) :
    type.Matches (.compare op) key text ↔ b = true ∧ (type.keyOfText? text).isSome = true := by
  by_cases htype : type = .integer
  · subst htype
    have hnumeric := isNumeric_of_keyOfValue? rfl hkey
    have hasked : IndexType.integer.keyOfValue? key = some (.number key.toNumber) :=
      keyOfValue?_of_isNumeric rfl hnumeric
    cases hread : Text.integer? text with
    | none => simp [IndexType.Matches, IndexType.keyOfText?, hread]
    | some i =>
      -- The comparison takes the text as a double, the index as the integer that it denotes.
      obtain ⟨x, hparse, hsame⟩ := Double.parse?_of_integer? hread
      have hb : op.holdsPartial (x.compare? key.toNumber) = b := by
        rw [related_number hnumeric, castDouble_eq_ok.2 hparse] at h
        exact Except.ok.inj h
      simp [IndexType.Matches, IndexType.keyOfText?, hread, hasked, RangeOp.hits, IndexKey.compare?,
        ← hsame, hb]
  · have hiff := related_iff_matches htype hkey h
    refine ⟨fun hmatches => ⟨hiff.2 hmatches, ?_⟩, fun hb => hiff.1 hb.1⟩
    obtain ⟨stored, _, hstored, _⟩ := hmatches
    exact Option.isSome_iff_exists.2 ⟨stored, hstored⟩

/-- **With its sides exchanged a comparison asks for the mirrored operator.** -/
theorem related_mirrored (op : ComparisonOp) (key : AtomicValue) (text : String) :
    related op key (.untyped text) = related op.mirrored (.untyped text) key := by
  have hswap : ∀ x : Except QueryError (Option Ordering),
      x.map op.holdsPartial = (x.map (Option.map Ordering.swap)).map op.mirrored.holdsPartial := by
    rintro (e | o)
    · rfl
    · exact congrArg Except.ok (op.holdsPartial_mirrored o).symm
  unfold related
  rw [hswap]
  refine congrArg (Except.map _) ?_
  cases key with
  | string t => simp [compare?, Except.map, ← Std.OrientedCmp.eq_swap]
  | untyped t => simp [compare?, Except.map, ← Std.OrientedCmp.eq_swap]
  | integer i =>
    simp only [compare?]
    cases castDouble text with
    | error e => rfl
    | ok x => exact congrArg Except.ok (Double.compare?_swap _ x)
  | double d =>
    simp only [compare?]
    cases castDouble text with
    | error e => rfl
    | ok x => exact congrArg Except.ok (Double.compare?_swap _ x)
  | boolean c =>
    simp only [compare?]
    cases castBool text with
    | error e => rfl
    | ok x => exact congrArg (fun o => Except.ok (some o)) Std.OrientedCmp.eq_swap.symm

/-! ### Several texts and one value -/

/-- The first, or else the rest. -/
theorem first_or_rest_iff {first b : Bool} {rest : Except QueryError Bool} {p q : Prop}
    (h : (if first = true then pure true else rest) = .ok b) (hfirst : first = true ↔ p)
    (hrest : rest = .ok b → (b = true ↔ q)) : b = true ↔ p ∨ q := by
  cases first with
  | true =>
    obtain rfl : true = b := Except.ok.inj h
    exact iff_of_true rfl (.inl (hfirst.1 rfl))
  | false =>
    have hnot : ¬ p := fun hp => Bool.false_ne_true (hfirst.2 hp)
    exact (hrest h).trans (or_iff_right hnot).symm

theorem relatedToSome_iff {op : ComparisonOp} {a : AtomicValue} {P : AtomicValue → Prop}
    {values : List AtomicValue} {b : Bool}
    (hP : ∀ v ∈ values, ∀ b, related op a v = .ok b → (b = true ↔ P v))
    (h : relatedToSome op a values = .ok b) : b = true ↔ ∃ v ∈ values, P v := by
  induction values with
  | nil =>
    obtain rfl : false = b := Except.ok.inj h
    simp
  | cons v rest ih =>
    rw [relatedToSome] at h
    obtain ⟨first, hfirst, h⟩ := bind_eq_ok.1 h
    rw [List.exists_mem_cons_iff]
    exact first_or_rest_iff h (hP v List.mem_cons_self first hfirst)
      (ih fun v hv => hP v (List.mem_cons_of_mem _ hv))

/-- **Whether some of several values stands in the relation to one.** -/
theorem someRelated_right_iff {op : ComparisonOp} {key : AtomicValue} {P : AtomicValue → Prop}
    {values : List AtomicValue} {b : Bool}
    (hP : ∀ v ∈ values, ∀ b, related op v key = .ok b → (b = true ↔ P v))
    (h : someRelated op values [key] = .ok b) : b = true ↔ ∃ v ∈ values, P v := by
  induction values with
  | nil =>
    obtain rfl : false = b := Except.ok.inj h
    simp
  | cons v rest ih =>
    rw [someRelated] at h
    obtain ⟨first, hfirst, h⟩ := bind_eq_ok.1 h
    have hiff : first = true ↔ P v := by
      rw [relatedToSome_iff (P := fun _ => P v) (fun k hk b hb => ?_) hfirst]
      · simp
      · obtain rfl := List.mem_singleton.1 hk
        exact hP v List.mem_cons_self b hb
    rw [List.exists_mem_cons_iff]
    exact first_or_rest_iff h hiff (ih fun v hv => hP v (List.mem_cons_of_mem _ hv))

/-- Whether one value stands in the relation to some of several. -/
theorem someRelated_left_iff {op : ComparisonOp} {key : AtomicValue} {P : AtomicValue → Prop}
    {values : List AtomicValue} {b : Bool}
    (hP : ∀ v ∈ values, ∀ b, related op key v = .ok b → (b = true ↔ P v))
    (h : someRelated op [key] values = .ok b) : b = true ↔ ∃ v ∈ values, P v := by
  rw [someRelated] at h
  obtain ⟨first, hfirst, h⟩ := bind_eq_ok.1 h
  have hnone : someRelated op [] values = .ok b → (b = true ↔ False) := by
    intro hb
    obtain rfl : false = b := Except.ok.inj hb
    exact iff_of_false Bool.false_ne_true id
  exact (first_or_rest_iff h (relatedToSome_iff hP hfirst) hnone).trans (or_iff_left id)

end AtomicValue

/-! ### Nodes -/

namespace Store

variable {s : Store}

/-- **The text of a node answers a condition,** in the type that the collection of the node
declares for a name. -/
def Answers (s : Store) (name : IndexedName) (op : RangeOp) (key : AtomicValue) (n : Node) : Prop :=
  ∃ type text, s.declared? n.doc name = some type ∧ s.stringValue n = .ok text ∧
    type.Matches op key text

/-- A lookup by key finds the nodes of the name whose text answers. -/
theorem hits_iff {name : IndexedName} {op : RangeOp} {key : AtomicValue} {n : Node} :
    s.Hits name op key n ↔ s.Bears n name ∧ s.Answers name op key n := by
  refine and_congr_right fun _ => ⟨?_, ?_⟩
  · rintro ⟨type, text, stored, asked, hdeclared, htext, hmatches⟩
    exact ⟨type, text, hdeclared, htext, stored, asked, hmatches⟩
  · rintro ⟨type, text, hdeclared, htext, stored, asked, hmatches⟩
    exact ⟨type, text, stored, asked, hdeclared, htext, hmatches⟩

/-- Of a node whose text and declared type are known. -/
theorem answers_iff {name : IndexedName} {op : RangeOp} {key : AtomicValue} {n : Node}
    {type : IndexType} {text : String} (hdeclared : s.declared? n.doc name = some type)
    (htext : s.stringValue n = .ok text) : s.Answers name op key n ↔ type.Matches op key text := by
  constructor
  · rintro ⟨type', text', hdeclared', htext', hmatches⟩
    obtain rfl := Option.some.inj (hdeclared.symm.trans hdeclared')
    obtain rfl := Except.ok.inj (htext.symm.trans htext')
    exact hmatches
  · exact fun hmatches => ⟨type, text, hdeclared, htext, hmatches⟩

end Store

namespace IndexProbe

variable {p : IndexProbe} {s : Store}

/-- **The collection of a document declares an index that the probe can use,** and one
whose keys are all that a comparison sees. -/
def Suits (p : IndexProbe) (s : Store) (doc : DocId) : Prop :=
  ∃ type, s.declared? doc p.name = some type ∧ p.fits type = true ∧ type ≠ .integer

theorem declared?_of_collectionOf {doc : DocId} {c : Collection} (hc : s.collectionOf doc = .ok c)
    (name : IndexedName) : s.declared? doc name = c.rangeIndex? name := by
  unfold Store.collectionOf Store.document at hc
  cases hd : s.document? doc with
  | none =>
    rw [hd] at hc
    cases hc
  | some d =>
    rw [hd] at hc
    obtain ⟨c', hc'⟩ : ∃ c', s.collection? d.collection = some c' := by
      cases hfind : s.collection? d.collection with
      | some c' => exact ⟨c', rfl⟩
      | none => simp [ok_bind, hfind, throw, throwThe, MonadExceptOf.throw] at hc
    simp only [ok_bind, hc'] at hc
    obtain rfl : c' = c := Except.ok.inj hc
    simp [Store.declared?, hd, hc']

/-- **Of documents that an index covers each has it:** a fitting type is declared for all. -/
theorem exists_declared_of_covers {docs : List DocId} {cs : List Collection}
    (hcs : docs.mapM s.collectionOf = .ok cs) (h : p.covers cs = true) :
    ∃ type, p.fits type = true ∧ ∀ doc ∈ docs, s.declared? doc p.name = some type := by
  obtain ⟨_, type, hfits, hall⟩ := covers_iff.1 h
  refine ⟨type, hfits, fun doc hdoc => ?_⟩
  obtain ⟨c, hmem, hc⟩ := exists_of_mapM hcs hdoc
  exact (declared?_of_collectionOf hc p.name).trans (declares_iff.1 (hall c hmem)).2

/-- **An index that covers documents suits each of them.** -/
theorem suits_of_covers (hplain : s.IsPlain) {docs : List DocId} {cs : List Collection}
    (hcs : docs.mapM s.collectionOf = .ok cs) (h : p.covers cs = true) {doc : DocId}
    (hdoc : doc ∈ docs) : p.Suits s doc := by
  obtain ⟨type, hfits, hall⟩ := exists_declared_of_covers hcs h
  have hdeclared := hall doc hdoc
  refine ⟨type, hdeclared, hfits, ?_⟩
  rintro rfl
  obtain ⟨d, c, _, hc, hdeclares⟩ := Store.declared?_eq_some_iff.1 hdeclared
  unfold Collection.rangeIndex? at hdeclares
  obtain ⟨spec, hspec, htype⟩ := Option.map_eq_some_iff.1 hdeclares
  exact (hplain c (Store.mem_of_collection? hc)).notInteger spec (List.mem_of_find?_eq_some hspec)
    htype

/-- Comparing the text of a node decides whether it answers. -/
theorem related_iff_answers {op : ComparisonOp} (hop : p.op = .compare op) {n : Node}
    (hsuits : p.Suits s n.doc) {text : String} (htext : s.stringValue n = .ok text) {b : Bool}
    (h : AtomicValue.related op (.untyped text) p.key = .ok b) :
    b = true ↔ s.Answers p.name p.op p.key n := by
  obtain ⟨type, hdeclared, hfits, hinteger⟩ := hsuits
  have hkey : (type.keyOfValue? p.key).isSome = true := by
    unfold fits at hfits
    rwa [hop] at hfits
  rw [AtomicValue.related_iff_matches hinteger hkey h, hop, Store.answers_iff hdeclared htext]

/-- Looking at how the text of a node begins decides whether it answers. -/
theorem startsWith_iff_answers {start : String} (hop : p.op = .startsWith)
    (hkey : p.key = .string start) {n : Node} (hsuits : p.Suits s n.doc) {text : String}
    (htext : s.stringValue n = .ok text) :
    Text.startsWith text start = true ↔ s.Answers p.name p.op p.key n := by
  obtain ⟨type, hdeclared, hfits, _⟩ := hsuits
  unfold fits at hfits
  rw [hop] at hfits
  obtain rfl : type = .string := by simpa using hfits
  rw [hop, hkey, Store.answers_iff hdeclared htext]
  constructor
  · exact fun h => ⟨.text text, .text start, rfl, rfl, h⟩
  · rintro ⟨stored, asked, hstored, hasked, hhits⟩
    obtain rfl := Option.some.inj hstored
    obtain rfl := Option.some.inj hasked
    exact hhits

/-- **How the text of a node compares, or starts, is whether it answers.** -/
structure Decides (p : IndexProbe) (s : Store) (n : Node) : Prop where
  compare : ∀ op, p.op = .compare op → ∀ text, s.stringValue n = .ok text →
    ∀ b, AtomicValue.related op (.untyped text) p.key = .ok b →
      (b = true ↔ s.Answers p.name p.op p.key n)
  start : ∀ start, p.op = .startsWith → p.key = .string start → ∀ text, s.stringValue n = .ok text →
    (Text.startsWith text start = true ↔ s.Answers p.name p.op p.key n)

theorem Suits.decides {n : Node} (h : p.Suits s n.doc) : p.Decides s n :=
  ⟨fun _ hop _ htext _ hb => related_iff_answers hop h htext hb,
    fun _ hop hkey _ htext => startsWith_iff_answers hop hkey h htext⟩

/-- A comparison decides for a node, whatever the type of the index, when the text has a key
wherever the comparison holds. -/
theorem decides_of_castable {n : Node} {type : IndexType}
    (hdeclared : s.declared? n.doc p.name = some type) (hfits : p.fits type = true)
    (hcompares : p.op ≠ .startsWith)
    (hcastable : ∀ op text, p.op = .compare op → s.stringValue n = .ok text →
      AtomicValue.related op (.untyped text) p.key = .ok true →
        (type.keyOfText? text).isSome = true) : p.Decides s n := by
  refine ⟨fun op hop text htext b hb => ?_, fun _ hop => absurd hop hcompares⟩
  have hkey : (type.keyOfValue? p.key).isSome = true := by
    unfold fits at hfits
    rwa [hop] at hfits
  rw [Store.answers_iff hdeclared htext, hop, AtomicValue.matches_iff_related hkey hb]
  refine (and_iff_left_of_imp fun hholds : b = true => ?_).symm
  exact hcastable op text hop htext (hholds ▸ hb)

end IndexProbe
end IndexedXml
