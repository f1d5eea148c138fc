/-
# Addresses of collections

A written address is normalized before anything is looked up: blanks around it go, then slashes
at its end, and the start `/db/` is supplied.  Each of these is done once and in this order, so
that one can bring up what another one has already looked for.

The outcome always starts with `/db` as a step of its own and never ends in a slash.  But where
slashes are dropped after blanks, a blank comes to the end and stays.  Those are the only
addresses whose outcome is not canonical (`isCanonical_normalizeUri_iff`), and they matter,
because a collection is kept under the outcome: its own address, handed back to the store, leads
to it just when that is canonical (`collections_answer_to_addresses`).
-/

import IndexedXml.Collection.Uri
import IndexedXml.Proofs.Store.Runs
import IndexedXml.Proofs.Store.Tables
import IndexedXml.Proofs.Text.Runs

namespace IndexedXml

open Text

/-! ### Normalized addresses -/

/-- What is left of a written address without blanks around it and without slashes at its end. -/
def addressBody (uri : String) : List Char := dropEndWhile (· == '/') (trim uri).toList

/-- **An address starts at `/db`:** it is that address or below it. -/
def IsRooted (uri : String) : Prop := uri = "/db" ∨ startsWith uri "/db/" = true

/-- **An address is canonical:** it is rooted, without blanks around it and without a slash at its
end, and normalizing leaves it as it is. -/
structure IsCanonical (uri : String) : Prop where
  rooted : IsRooted uri
  trimmed : trim uri = uri
  slashless : uri.toList.getLast? ≠ some '/'
  fixed : normalizeUri uri = uri

/-- **Slashes after a blank** end a written address, apart from blanks around it. -/
def EndsInBlankAndSlashes (uri : String) : Prop :=
  ∃ front blank slashes, (trim uri).toList = front ++ blank :: slashes ∧ isBlank blank = true ∧
    ∀ c ∈ slashes, c = '/'

theorem startsWith_eq_true_iff {uri start : String} :
    startsWith uri start = true ↔ ∃ rest, uri.toList = start.toList ++ rest := by
  rw [startsWith, List.isPrefixOf_iff_prefix]
  exact exists_congr fun _ => eq_comm

/-- What is left of an address does not end in a slash. -/
theorem getLast?_addressBody (uri : String) : (addressBody uri).getLast? ≠ some '/' := by
  intro h
  have hslash : ('/' == '/') = false :=
    not_of_getLast?_dropEndWhile (p := (· == '/')) '/' h
  exact absurd hslash (by decide)

/-- A blank comes to the end where slashes follow one. -/
theorem endsInBlankAndSlashes_iff {uri : String} :
    EndsInBlankAndSlashes uri ↔ ∃ c ∈ (addressBody uri).getLast?, isBlank c = true := by
  unfold EndsInBlankAndSlashes addressBody
  constructor
  · rintro ⟨front, blank, slashes, heq, hblank, hslashes⟩
    have hne : (blank == '/') = false := by
      rw [beq_eq_false_iff_ne]
      rintro rfl
      exact absurd hblank (by decide)
    have hbody : dropEndWhile (· == '/') (trim uri).toList = front ++ [blank] := by
      rw [heq, ← List.singleton_append, ← List.append_assoc,
        dropEndWhile_append_of_class _ fun c hc => beq_iff_eq.2 (hslashes c hc),
        dropEndWhile_eq_self_iff]
      simpa using hne
    rw [hbody]
    exact ⟨blank, List.getLast?_concat, hblank⟩
  · rintro ⟨blank, hlast, hblank⟩
    obtain ⟨front, hfront⟩ := List.getLast?_eq_some_iff.1 hlast
    refine ⟨front, blank, (trim uri).toList.rtakeWhile (· == '/'), ?_, hblank, fun c hc => ?_⟩
    · conv_lhs => rw [← List.rdropWhile_append_rtakeWhile (p := (· == '/')) (l := (trim uri).toList)]
      rw [← dropEndWhile_eq_rdropWhile, hfront, List.append_assoc, List.singleton_append]
    · exact beq_iff_eq.1 (List.mem_rtakeWhile_imp (p := (· == '/')) hc)

/-- What follows a start that ends in a slash has the end of what is left of the address. -/
theorem getLast?_of_addressBody {uri : String} {start rest : List Char}
    (hstart : start.getLast? = some '/') (h : addressBody uri = start ++ rest) :
    rest ≠ [] ∧ rest.getLast? = (addressBody uri).getLast? := by
  have hslash := getLast?_addressBody uri
  rw [h] at hslash ⊢
  have hne : rest ≠ [] := by
    rintro rfl
    exact hslash (by rw [List.append_nil, hstart])
  exact ⟨hne, (List.getLast?_append_of_ne_nil start hne).symm⟩

/-- Something is left when slashes at the start are dropped too. -/
theorem dropWhile_addressBody_ne_nil {uri : String} (h : addressBody uri ≠ []) :
    (addressBody uri).dropWhile (· == '/') ≠ [] := by
  intro hnil
  obtain ⟨front, last, hbody⟩ := (List.eq_nil_or_concat' (addressBody uri)).resolve_left h
  have hlast : (last == '/') = true := by
    refine List.dropWhile_eq_nil_iff.1 hnil last ?_
    rw [hbody]
    exact List.mem_append_right _ (List.mem_singleton.2 rfl)
  refine getLast?_addressBody uri ?_
  rw [hbody, beq_iff_eq.1 hlast]
  exact List.getLast?_concat

theorem getLast?_root : "/db".toList.getLast? = some 'b' := by
  decide

/-- What holds of the last character holds of every last character. -/
theorem forall_mem_getLast? {p : Char → Bool} {cs : List Char} {c : Char}
    (h : cs.getLast? = some c) (hc : p c = false) : ∀ d ∈ cs.getLast?, p d = false := by
  rw [h]
  rintro d ⟨⟩
  exact hc

theorem ofList_addressBody_beq_iff {uri known : String} :
    (String.ofList (addressBody uri) == known) = true ↔ addressBody uri = known.toList := by
  rw [beq_iff_eq, ← String.toList_inj, String.toList_ofList (l := addressBody uri)]

/-- **A normalized address is `/db`, or something is below it,** which ends in what was left of the
written address. -/
theorem normalizeUri_cases (uri : String) :
    (normalizeUri uri = "/db" ∧ ∀ c ∈ (addressBody uri).getLast?, isBlank c = false) ∨
      ∃ rest, rest ≠ [] ∧ rest.getLast? = (addressBody uri).getLast? ∧
        (normalizeUri uri).toList = "/db/".toList ++ rest := by
  rw [normalizeUri, ← addressBody]
  split_ifs with hroot hbelow
  · refine .inl ⟨rfl, ?_⟩
    simp only [Bool.or_eq_true, ofList_addressBody_beq_iff] at hroot
    rcases hroot with (hbody | hbody) | hbody
    · rw [hbody]
      exact fun c hc => nomatch hc
    · exact forall_mem_getLast? (hbody ▸ getLast?_root) (by decide)
    · exact forall_mem_getLast? (hbody ▸ rfl : (addressBody uri).getLast? = some 'b') (by decide)
  · obtain ⟨rest, hbody⟩ := startsWith_eq_true_iff.1 hbelow
    rw [String.toList_ofList] at hbody ⊢
    obtain ⟨hne, hlast⟩ := getLast?_of_addressBody (by decide) hbody
    exact .inr ⟨rest, hne, hlast, hbody⟩
  · cases hstart : stripStart? "db/" (String.ofList (addressBody uri)) with
    | some below =>
      obtain ⟨rest, hrest, rfl⟩ := Option.map_eq_some_iff.1 hstart
      rw [String.toList_ofList (l := addressBody uri)] at hrest
      have hbody : addressBody uri = "db/".toList ++ rest := eq_append_of_afterStart? hrest
      obtain ⟨hne, hlast⟩ := getLast?_of_addressBody (by decide) hbody
      refine .inr ⟨rest, hne, hlast, ?_⟩
      dsimp only
      rw [String.toList_append, String.toList_ofList (l := rest)]
    | none =>
      have hbody : addressBody uri ≠ [] := fun hnil => hroot (by rw [hnil]; rfl)
      have hne := dropWhile_addressBody_ne_nil hbody
      refine .inr ⟨(addressBody uri).dropWhile (· == '/'), hne, ?_, ?_⟩
      · conv_rhs => rw [← List.takeWhile_append_dropWhile (p := (· == '/')) (l := addressBody uri)]
        exact (List.getLast?_append_of_ne_nil _ hne).symm
      · dsimp only
        rw [String.toList_append, String.toList_ofList (l := addressBody uri),
          String.toList_ofList (l := (addressBody uri).dropWhile _)]

/-- A normalized address is rooted. -/
theorem isRooted_normalizeUri (uri : String) : IsRooted (normalizeUri uri) := by
  rcases normalizeUri_cases uri with ⟨hroot, _⟩ | ⟨rest, _, _, hbelow⟩
  · exact .inl hroot
  · exact .inr (startsWith_eq_true_iff.2 ⟨rest, hbelow⟩)

/-- A normalized address does not end in a slash. -/
theorem getLast?_normalizeUri (uri : String) : (normalizeUri uri).toList.getLast? ≠ some '/' := by
  rcases normalizeUri_cases uri with ⟨hroot, _⟩ | ⟨rest, hne, hlast, hbelow⟩
  · rw [hroot]
    decide
  · rw [hbelow, List.getLast?_append_of_ne_nil _ hne, hlast]
    exact getLast?_addressBody uri

/-- A normalized address ends in a blank just when the written one ends in slashes after one. -/
theorem normalizeUri_endsInBlank_iff {uri : String} :
    (∃ c ∈ (normalizeUri uri).toList.getLast?, isBlank c = true) ↔ EndsInBlankAndSlashes uri := by
  rw [endsInBlankAndSlashes_iff]
  rcases normalizeUri_cases uri with ⟨hroot, hlast⟩ | ⟨rest, hne, hlast, hbelow⟩
  · have hends : ∀ c ∈ (normalizeUri uri).toList.getLast?, isBlank c = false :=
      forall_mem_getLast? (hroot ▸ getLast?_root) (by decide)
    constructor
    · rintro ⟨c, hc, hblank⟩
      exact absurd hblank (by rw [hends c hc]; exact Bool.false_ne_true)
    · rintro ⟨c, hc, hblank⟩
      exact absurd hblank (by rw [hlast c hc]; exact Bool.false_ne_true)
  · rw [hbelow, List.getLast?_append_of_ne_nil _ hne, hlast]

/-! ### Canonical addresses -/

/-- What starts at `/db` starts with the slash of `/db`. -/
theorem IsRooted.root_prefix {uri : String} (h : IsRooted uri) : "/db".toList <+: uri.toList := by
  rcases h with rfl | h
  · exact List.prefix_refl _
  · obtain ⟨rest, hrest⟩ := startsWith_eq_true_iff.1 h
    exact ⟨'/' :: rest, hrest.symm⟩

/-- Only the end of a rooted address is trimmed. -/
theorem IsRooted.toList_trim {uri : String} (h : IsRooted uri) :
    (trim uri).toList = dropEndWhile isBlank uri.toList := by
  obtain ⟨rest, hrest⟩ := h.root_prefix
  have hfront : uri.toList.dropWhile isBlank = uri.toList := by
    rw [← hrest]
    exact List.dropWhile_cons_of_neg (by decide)
  rw [trim, String.toList_ofList (l := stripWhile isBlank uri.toList), stripWhile, hfront]

/-- What is left of a rooted address is a start of it, from `/db` on. -/
theorem IsRooted.addressBody_prefix {uri : String} (h : IsRooted uri) :
    "/db".toList <+: addressBody uri ∧ addressBody uri <+: (trim uri).toList ∧
      (trim uri).toList <+: uri.toList := by
  have htrim := h.toList_trim
  refine ⟨?_, List.rdropWhile_prefix _ _, ?_⟩
  · refine prefix_dropEndWhile ?_ (forall_mem_getLast? getLast?_root (by decide))
    rw [htrim]
    exact prefix_dropEndWhile h.root_prefix (forall_mem_getLast? getLast?_root (by decide))
  · rw [htrim]
    exact List.rdropWhile_prefix _ _

/-- What is left of a rooted address is `/db`, or is below it. -/
theorem IsRooted.addressBody_cases {uri : String} (h : IsRooted uri) :
    addressBody uri = "/db".toList ∨ "/db/".toList <+: addressBody uri := by
  obtain ⟨⟨after, hafter⟩, hbody, htrim⟩ := h.addressBody_prefix
  rcases h with rfl | h
  · exact .inl (by decide)
  have hbelow : "/db/".toList <+: uri.toList := List.isPrefixOf_iff_prefix.1 h
  refine (List.prefix_or_prefix_of_prefix (hbody.trans htrim) hbelow).imp (fun hshort => ?_) id
  -- Between `/db` and `/db/` there is the one that ends in a slash.
  have hslash := getLast?_addressBody uri
  rw [← hafter] at hshort hslash ⊢
  have hafter : after <+: ['/'] := (List.prefix_append_right_inj "/db".toList).1 hshort
  rcases List.prefix_cons_iff.1 hafter with rfl | ⟨more, rfl, hmore⟩
  · rfl
  · obtain rfl := List.prefix_nil.1 hmore
    exact absurd (by decide) hslash

/-- **Normalizing a rooted address takes blanks and then slashes from its end,** and does no
more. -/
theorem IsRooted.toList_normalizeUri {uri : String} (h : IsRooted uri) :
    (normalizeUri uri).toList = addressBody uri := by
  rcases h.addressBody_cases with hbody | hbody
  · rw [normalizeUri, ← addressBody, if_pos, hbody]
    simp only [Bool.or_eq_true, ofList_addressBody_beq_iff]
    exact .inl (.inr hbody)
  · have hstarts : startsWith (String.ofList (addressBody uri)) "/db/" = true := by
      rw [startsWith, String.toList_ofList (l := addressBody uri)]
      exact List.isPrefixOf_iff_prefix.2 hbody
    rw [normalizeUri, ← addressBody, if_neg, if_pos hstarts,
      String.toList_ofList (l := addressBody uri)]
    simp only [Bool.or_eq_true, ofList_addressBody_beq_iff]
    rintro ((heq | heq) | heq) <;> rw [heq] at hbody <;> revert hbody <;> decide

/-- **A rooted address is fixed just when it has no blank and no slash at its end.** -/
theorem IsRooted.normalizeUri_eq_self_iff {uri : String} (h : IsRooted uri) :
    normalizeUri uri = uri ↔ trim uri = uri ∧ uri.toList.getLast? ≠ some '/' := by
  obtain ⟨_, hbody, htrim⟩ := h.addressBody_prefix
  rw [← String.toList_inj, h.toList_normalizeUri]
  constructor
  · intro hfixed
    -- What is left is no longer than the trimmed address, and that no longer than the address.
    have hsame : (trim uri).toList = uri.toList :=
      htrim.eq_of_length_le (hfixed ▸ hbody).length_le
    refine ⟨String.toList_inj.1 hsame, ?_⟩
    rw [← hfixed]
    exact getLast?_addressBody uri
  · rintro ⟨htrimmed, hslash⟩
    rw [addressBody, htrimmed]
    refine dropEndWhile_eq_self_iff.2 fun c hc => ?_
    rw [beq_eq_false_iff_ne]
    rintro rfl
    exact hslash hc

/-- A rooted address has no blanks around it just when it does not end in one. -/
theorem IsRooted.trim_eq_self_iff {uri : String} (h : IsRooted uri) :
    trim uri = uri ↔ ¬ ∃ c ∈ uri.toList.getLast?, isBlank c = true := by
  rw [← String.toList_inj, h.toList_trim, dropEndWhile_eq_self_iff]
  simp

/-- **A normalized address is canonical unless the written one ends in slashes after a blank.** -/
theorem isCanonical_normalizeUri_iff {uri : String} :
    IsCanonical (normalizeUri uri) ↔ ¬ EndsInBlankAndSlashes uri := by
  have hrooted := isRooted_normalizeUri uri
  have hslash := getLast?_normalizeUri uri
  have htrim : trim (normalizeUri uri) = normalizeUri uri ↔ ¬ EndsInBlankAndSlashes uri := by
    rw [hrooted.trim_eq_self_iff, normalizeUri_endsInBlank_iff]
  rw [← htrim]
  exact ⟨IsCanonical.trimmed, fun h => ⟨hrooted, h, hslash, hrooted.normalizeUri_eq_self_iff.2 ⟨h, hslash⟩⟩⟩

namespace Store

variable {s : Store} {c : Collection}

/-! ### Collections and their addresses -/

/-- What putting collections under normalized addresses keeps holds of the collections of every
reachable store. -/
theorem Reachable.collections_of_put {P : List Collection → Prop} (hs : s.Reachable) (hnil : P [])
    (hput : ∀ (t : Store) uri indexes, P t.collections →
      P (t.putCollection ⟨normalizeUri uri, indexes⟩).collections) : P s.collections := by
  have hensure : ∀ (t : Store) uri, P t.collections →
      P (t.ensureCollection (normalizeUri uri)).2.collections := by
    intro t uri h
    unfold ensureCollection
    cases t.collection? (normalizeUri uri) with
    | some _ => exact h
    | none => exact hput t uri [] h
  have hdrop : ∀ (t : Store) path, P t.collections → P (t.dropPath path).collections := by
    intro t path h
    unfold dropPath
    cases t.pathDoc? path <;> exact h
  have hstore : ∀ (t : Store) uri name root, P t.collections →
      P (t.storeDocument uri name root).2.collections :=
    fun t uri _ _ h => hdrop _ _ (hensure t uri h)
  have hfold : ∀ (settings : List CollectionSettings) (t : Store), P t.collections →
      P (settings.foldl (fun t c => t.configureCollection c.uri c.indexes) t).collections := by
    intro settings
    induction settings with
    | nil => exact fun _ h => h
    | cons c rest ih => exact fun t h => ih _ (hput t c.uri c.indexes h)
  induction hs with
  | empty => exact hnil
  | @perform t _ change ih =>
    cases change with
    | storeDocument uri name root => exact hstore t uri name root ih
    | storeXml uri name xml =>
      cases hparse : Xml.parse xml with
      | error _ => exact (perform_storeXml_of_error t uri name hparse).symm ▸ ih
      | ok root => exact (perform_storeXml t uri name hparse).symm ▸ hstore t uri name root ih
    | removeDocument uri name =>
      cases hdoc : t.pathDoc? (normalizeUri uri ++ "/" ++ name) with
      | none => exact (perform_removeDocument_of_none hdoc).symm ▸ ih
      | some doc => exact (perform_removeDocument hdoc).symm ▸ hdrop t _ ih
    | configureCollection uri indexes => exact hput t uri indexes ih
    | setConfiguration configuration => exact hfold configuration.collections t ih
    | createCollection uri => exact hensure t uri ih
    | interrupt on => exact ih

/-- A collection is kept under a normalized address. -/
theorem Reachable.exists_eq_normalizeUri (hs : s.Reachable) (hc : c ∈ s.collections) :
    ∃ uri, c.uri = normalizeUri uri := by
  refine hs.collections_of_put (P := fun cs => ∀ c ∈ cs, ∃ uri, c.uri = normalizeUri uri)
    (fun c hc => absurd hc List.not_mem_nil) (fun t uri indexes ih c hc => ?_) c hc
  rcases List.mem_append.1 hc with hold | hnew
  · exact ih c (List.mem_of_mem_filter hold)
  · exact ⟨uri, by rw [List.mem_singleton.1 hnew]⟩

/-- No two collections have one address. -/
theorem Reachable.nodup_addresses (hs : s.Reachable) : (s.collections.map Collection.uri).Nodup := by
  refine hs.collections_of_put (P := fun cs => (cs.map Collection.uri).Nodup) List.nodup_nil
    fun t uri indexes ih => ?_
  generalize normalizeUri uri = address
  unfold putCollection
  dsimp only
  rw [List.map_append, List.nodup_append]
  refine ⟨ih.sublist (List.filter_sublist.map _), List.nodup_singleton _, ?_⟩
  intro old hold new hnew
  obtain ⟨d, hd, rfl⟩ := List.mem_map.1 hold
  obtain rfl := List.mem_singleton.1 hnew
  exact bne_iff_ne.1 (List.mem_filter.1 hd).2

/-- A collection is found under its address. -/
theorem Reachable.collection?_of_mem (hs : s.Reachable) (hc : c ∈ s.collections) :
    s.collection? c.uri = some c := by
  cases hfound : s.collection? c.uri with
  | none => exact absurd (beq_self_eq_true c.uri) (List.find?_eq_none.1 hfound c hc)
  | some other =>
    have huri : other.uri = c.uri := by simpa using List.find?_some hfound
    rw [List.inj_on_of_nodup_map hs.nodup_addresses (mem_of_collection? hfound) hc huri]

/-- **An address leads to a collection,** whatever a store is asked to do with it. -/
structure Addresses (s : Store) (uri : String) (c : Collection) : Prop where
  /-- It is what there is to create. -/
  creates : s.createCollection uri = (c, s)
  /-- Its indexes are declared, and those of no other collection. -/
  configures : ∀ indexes other, (s.configureCollection uri indexes).collection? other =
    if c.uri = other then some ⟨c.uri, indexes⟩ else s.collection? other
  /-- Documents are stored in it, and no collection comes about. -/
  stores : ∀ name root, (s.storeDocument uri name root).2.collections = s.collections ∧
    (s.storeDocument uri name root).2.collectionOf (s.storeDocument uri name root).1 = .ok c
  /-- Its documents are removed by their names. -/
  removes : ∀ doc d, (doc, d) ∈ s.documents → d.collection = c.uri →
    ∃ t, s.removeDocument uri d.name = .ok t ∧
      t.documents = s.documents.filter fun entry => entry.1 != doc
  /-- Its documents are listed, with those of the collections below it. -/
  lists : ∃ set, s.documentsUnder uri = .ok set ∧ ∀ n, n ∈ set ↔
    ∃ doc d, (doc, d) ∈ s.documents ∧ n = .document doc ∧
      (c.uri = "/db" ∨ d.collection = c.uri ∨ isBelowUri d.collection c.uri = true)

/-- Declaring indexes puts a collection. -/
theorem collection?_configureCollection (s : Store) (uri : String) (indexes : List RangeIndexSpec)
    (other : String) : (s.configureCollection uri indexes).collection? other =
      if normalizeUri uri = other then some ⟨normalizeUri uri, indexes⟩ else s.collection? other := by
  unfold configureCollection
  generalize normalizeUri uri = address
  exact (collection?_congr rfl other).trans (collection?_putCollection s ⟨address, indexes⟩ other)

theorem collections_dropPath (s : Store) (path : String) :
    (s.dropPath path).collections = s.collections := by
  unfold dropPath
  cases s.pathDoc? path <;> rfl

/-- Storing a document brings up no collection but its own. -/
theorem collections_storeDocument (s : Store) (uri name : String) (root : Element) :
    (s.storeDocument uri name root).2.collections =
      (s.ensureCollection (normalizeUri uri)).2.collections :=
  collections_dropPath _ _

/-- A document is stored in the collection of its address. -/
theorem Reachable.collection_storeDocument (hs : s.Reachable) (uri name : String) (root : Element) :
    ∃ d, (s.storeDocument uri name root).2.document? (s.storeDocument uri name root).1 = some d ∧
      d.collection = normalizeUri uri := by
  have hlater : (s.storeDocument uri name root).2.Reachable :=
    hs.perform (.storeDocument uri name root)
  have hmem : ∃ d, ((s.storeDocument uri name root).1, d) ∈
      (s.storeDocument uri name root).2.documents ∧ d.collection = normalizeUri uri := by
    unfold storeDocument
    generalize normalizeUri uri = address
    exact ⟨_, List.mem_append_right _ List.mem_cons_self, rfl⟩
  obtain ⟨d, hd, hcollection⟩ := hmem
  exact ⟨d, (document?_eq_some_iff hlater.inStep).2 hd, hcollection⟩

/-- A document is removed by the name of its collection and its own. -/
theorem Reachable.removeDocument_eq_ok (hs : s.Reachable) {doc : DocId} {d : Document}
    (hd : (doc, d) ∈ s.documents) {uri : String} (huri : normalizeUri uri = d.collection) :
    ∃ t, s.removeDocument uri d.name = .ok t ∧
      t.documents = s.documents.filter fun entry => entry.1 != doc := by
  have hpath : s.pathDoc? (d.collection ++ "/" ++ d.name) = some doc :=
    (pathDoc?_eq_some_iff hs.inStep).2
      ((hs.inStep.linked _ doc).2 ⟨d.unindexed, mem_documents_tables.2 ⟨d, hd, rfl⟩, rfl⟩)
  refine ⟨(s.dropPath (d.collection ++ "/" ++ d.name)).bump, ?_, ?_⟩
  · rw [removeDocument, huri, hpath]
  · unfold dropPath
    rw [hpath]
    rfl

/-- The documents that are listed for an address. -/
theorem documentsUnder_eq_ok (s : Store) {uri address : String} (huri : normalizeUri uri = address)
    (hknown : ∃ c ∈ s.collections, c.uri = address) :
    ∃ set, s.documentsUnder uri = .ok set ∧ ∀ n, n ∈ set ↔
      ∃ doc d, (doc, d) ∈ s.documents ∧ n = .document doc ∧
        (address = "/db" ∨ d.collection = address ∨ isBelowUri d.collection address = true) := by
  obtain ⟨c, hc, hat⟩ := hknown
  have hany : (address == "/db" || s.collections.any fun c => isUnder address c.uri) = true := by
    rw [Bool.or_eq_true, List.any_eq_true]
    exact .inr ⟨c, hc, by simp [isUnder, hat]⟩
  refine ⟨s.persistent ((s.documents.filter fun entry => isUnder address entry.2.collection).map
    fun entry => .document entry.1), ?_, fun n => ?_⟩
  · rw [documentsUnder, huri, if_pos hany]
  · rw [persistent, NodeSet.mem_ofList, List.mem_map]
    simp only [List.mem_filter, isUnder, Bool.or_eq_true, beq_iff_eq, Prod.exists]
    refine exists_congr fun doc => exists_congr fun d => ?_
    rw [or_assoc, and_assoc, and_congr_right_iff]
    exact fun _ => and_comm.trans (and_congr_left' eq_comm)

/-- **What is normalized to the address of a collection leads to it.** -/
theorem Reachable.addresses_of_normalizeUri (hs : s.Reachable) (hc : c ∈ s.collections)
    {uri : String} (huri : normalizeUri uri = c.uri) : s.Addresses uri c := by
  have hfound := hs.collection?_of_mem hc
  have hensure : s.ensureCollection c.uri = (c, s) := by
    rw [ensureCollection, hfound]
  constructor
  case creates => rw [createCollection, huri, hensure]
  case configures =>
    intro indexes other
    rw [collection?_configureCollection, huri]
  case stores =>
    intro name root
    have hcollections : (s.storeDocument uri name root).2.collections = s.collections := by
      rw [collections_storeDocument, huri, hensure]
    obtain ⟨d, hd, hcollection⟩ := hs.collection_storeDocument uri name root
    refine ⟨hcollections, ?_⟩
    rw [collectionOf, document, hd, ok_bind, hcollection, huri, collection?_congr hcollections,
      hfound]
    rfl
  case removes =>
    intro doc d hd hcollection
    exact hs.removeDocument_eq_ok hd (huri.trans hcollection.symm)
  case lists => exact s.documentsUnder_eq_ok huri ⟨c, hc, rfl⟩

/-- **An address leads to a collection just when it is normalized to the address of the
collection.** -/
theorem Reachable.addresses_iff (hs : s.Reachable) (hc : c ∈ s.collections) {uri : String} :
    s.Addresses uri c ↔ normalizeUri uri = c.uri := by
  refine ⟨fun h => ?_, hs.addresses_of_normalizeUri hc⟩
  have hcreated := congrArg Prod.fst h.creates
  rw [createCollection] at hcreated
  generalize normalizeUri uri = address at hcreated ⊢
  obtain rfl : (s.ensureCollection address).1 = c := hcreated
  unfold ensureCollection
  cases hfound : s.collection? address with
  | none => rfl
  | some other =>
    have hother : other.uri = address := by simpa using List.find?_some hfound
    exact hother.symm

end Store

/-- **Addresses have a canonical form, and collections answer to it,** apart from one case.
Whatever is written, what it is normalized to starts at `/db` and does not end in a slash.  It has
no blanks around it, and normalizing it again changes nothing, just when the written address does
not end in slashes after a blank, apart from blanks around it.  Every collection of a reachable
store is kept under a normalized address, and this leads back to it under the same condition. -/
theorem collections_answer_to_addresses (uri : String) :
    IsRooted (normalizeUri uri) ∧ (normalizeUri uri).toList.getLast? ≠ some '/' ∧
      (IsCanonical (normalizeUri uri) ↔ ¬ EndsInBlankAndSlashes uri) ∧
      ∀ s : Store, s.Reachable → ∀ c ∈ s.collections, (∃ written, c.uri = normalizeUri written) ∧
        (c.uri = normalizeUri uri → (s.Addresses c.uri c ↔ ¬ EndsInBlankAndSlashes uri)) := by
  refine ⟨isRooted_normalizeUri uri, getLast?_normalizeUri uri, isCanonical_normalizeUri_iff,
    fun s hs c hc => ⟨hs.exists_eq_normalizeUri hc, fun huri => ?_⟩⟩
  rw [hs.addresses_iff hc, huri, ← isCanonical_normalizeUri_iff]
  refine ⟨fun hfixed => ?_, IsCanonical.fixed⟩
  obtain ⟨htrimmed, hslash⟩ := (isRooted_normalizeUri uri).normalizeUri_eq_self_iff.1 hfixed
  exact ⟨isRooted_normalizeUri uri, htrimmed, hslash, hfixed⟩

/-- A store whose collection was declared under an address with blanks and slashes around it. -/
def paddedStore : Store :=
  .run .empty [.configureCollection " db/books// " [⟨⟨.element, .simple "title"⟩, .string⟩],
    .storeXml "books" "a.xml" "<book><title>Dune</title></book>"]

/-- The collection of books. -/
def paddedBooks : Collection := ⟨"/db/books", [⟨⟨.element, .simple "title"⟩, .string⟩]⟩

/-- Its own address leads to the collection. -/
theorem collections_answer_to_addresses_padded :
    paddedStore.Reachable ∧ paddedBooks ∈ paddedStore.collections ∧
      paddedBooks.uri = normalizeUri " db/books// " ∧ paddedStore.Addresses paddedBooks.uri paddedBooks := by
  have hreachable : paddedStore.Reachable := Store.reachable_run _
  have hmem : paddedBooks ∈ paddedStore.collections := by
    decide +kernel
  have huri : paddedBooks.uri = normalizeUri " db/books// " := by
    decide +kernel
  have hends : ¬ EndsInBlankAndSlashes " db/books// " := by
    rw [endsInBlankAndSlashes_iff]
    rintro ⟨c, hc, hblank⟩
    have hlast : (addressBody " db/books// ").getLast? = some 's' := by
      decide +kernel
    rw [forall_mem_getLast? (p := isBlank) hlast (by decide) c hc] at hblank
    cases hblank
  obtain ⟨_, _, _, hstores⟩ := collections_answer_to_addresses " db/books// "
  exact ⟨hreachable, hmem, huri, ((hstores paddedStore hreachable paddedBooks hmem).2 huri).2 hends⟩

/-- A store whose collection was declared under an address that ends in a slash after a blank. -/
def blankStore : Store :=
  .run .empty [.configureCollection "books /" [⟨⟨.element, .simple "title"⟩, .string⟩]]

/-- **A blank before the slash stays:** the address that comes out is not canonical, and under its
own address the collection is not found, but another one without its indexes is created. -/
theorem not_isCanonical_normalizeUri_blank :
    ¬ IsCanonical (normalizeUri "books /") ∧
      ∃ c ∈ blankStore.collections, c.indexes ≠ [] ∧ c.uri = "/db/books " ∧
        (blankStore.createCollection c.uri).1 = ⟨"/db/books", []⟩ := by
  refine ⟨fun h => absurd h.fixed (by decide +kernel), ?_⟩
  exact ⟨⟨"/db/books ", [⟨⟨.element, .simple "title"⟩, .string⟩]⟩, by decide +kernel,
    by decide +kernel, rfl, by decide +kernel⟩

end IndexedXml
