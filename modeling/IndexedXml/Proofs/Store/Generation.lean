/-
# Generations

The generation of a store never goes back, and while it stays the same nothing that a
verdict looks at has changed: the documents are the same, and every collection that there
was is as it was (`Store.perform_generation`).  Changes that leave the generation
alone only add a collection, exchange the policy, or switch lookups off or on.
-/

import IndexedXml.Proofs.Results
import IndexedXml.Proofs.Store.Reachable

namespace IndexedXml
namespace Store

variable {s t : Store}

/-- **What verdicts look at is as it was:** the documents, and the collections that there
were. -/
structure Retains (t s : Store) : Prop where
  documents : t.documents = s.documents
  collection : ∀ uri c, s.collection? uri = some c → t.collection? uri = some c

theorem Retains.refl (s : Store) : s.Retains s := ⟨rfl, fun _ _ h => h⟩

theorem Retains.trans {u : Store} (hts : t.Retains s) (hut : u.Retains t) : u.Retains s :=
  ⟨hut.documents.trans hts.documents,
    fun uri c hc => hut.collection uri c (hts.collection uri c hc)⟩

theorem Retains.collectionOf (h : t.Retains s) {doc : DocId} {c : Collection}
    (hc : s.collectionOf doc = .ok c) : t.collectionOf doc = .ok c := by
  unfold Store.collectionOf Store.document Store.document? at hc ⊢
  rw [h.documents]
  obtain ⟨d, hd, hc⟩ := bind_eq_ok.1 hc
  rw [hd, ok_bind]
  cases hfound : s.collection? d.collection with
  | none =>
    rw [hfound] at hc
    cases hc
  | some c' =>
    rw [hfound] at hc
    rw [h.collection _ _ hfound]
    exact hc

theorem generation_ensureCollection (s : Store) (uri : String) :
    (s.ensureCollection uri).2.generation = s.generation := by
  unfold ensureCollection
  cases s.collection? uri <;> rfl

theorem generation_dropPath (s : Store) (path : String) :
    (s.dropPath path).generation = s.generation := by
  unfold dropPath
  cases s.pathDoc? path <;> rfl

theorem generation_configureCollection (s : Store) (uri : String)
    (indexes : List RangeIndexSpec) :
    (s.configureCollection uri indexes).generation = s.generation + 1 := rfl

theorem generation_storeDocument (s : Store) (uri name : String) (root : Element) :
    (s.storeDocument uri name root).2.generation = s.generation + 1 := by
  have hensure := generation_ensureCollection s (normalizeUri uri)
  unfold storeDocument
  dsimp only
  rcases hpair : s.ensureCollection (normalizeUri uri) with ⟨c, t⟩
  rw [hpair] at hensure
  change (t.dropPath _).generation + 1 = _
  rw [generation_dropPath, hensure]

theorem generation_setConfiguration (s : Store) (configuration : Configuration) :
    (s.setConfiguration configuration).generation =
      s.generation + configuration.collections.length := by
  have hfold : ∀ (settings : List CollectionSettings) (s : Store),
      (settings.foldl (fun s c => s.configureCollection c.uri c.indexes) s).generation =
        s.generation + settings.length := by
    intro settings
    induction settings with
    | nil => exact fun _ => rfl
    | cons c rest ih =>
      intro s
      rw [List.foldl_cons, ih, generation_configureCollection, List.length_cons]
      omega
  exact hfold configuration.collections s

/-- Storing a text stores its document. -/
theorem perform_storeXml (s : Store) (uri name : String) {xml : String} {root : Element}
    (h : Xml.parse xml = .ok root) :
    s.perform (.storeXml uri name xml) = (s.storeDocument uri name root).2 := by
  simp only [perform, storeXml, h]

/-- A text that is malformed is not stored. -/
theorem perform_storeXml_of_error (s : Store) (uri name : String) {xml : String}
    {cause : Xml.Malformation} (h : Xml.parse xml = .error cause) :
    s.perform (.storeXml uri name xml) = s := by
  simp only [perform, storeXml, h]

/-- Removing a document drops its path. -/
theorem perform_removeDocument {uri name : String} {doc : DocId}
    (h : s.pathDoc? (normalizeUri uri ++ "/" ++ name) = some doc) :
    s.perform (.removeDocument uri name) = (s.dropPath (normalizeUri uri ++ "/" ++ name)).bump := by
  simp only [perform, removeDocument, h]

/-- Where there is no document none is removed. -/
theorem perform_removeDocument_of_none {uri name : String}
    (h : s.pathDoc? (normalizeUri uri ++ "/" ++ name) = none) :
    s.perform (.removeDocument uri name) = s := by
  simp only [perform, removeDocument, h]

/-- **A change either advances the generation or retains what verdicts look at.** -/
theorem perform_generation (s : Store) (change : Change) :
    s.generation < (s.perform change).generation ∨
      (s.perform change).generation = s.generation ∧ (s.perform change).Retains s := by
  cases change with
  | storeDocument uri name root =>
    refine .inl ?_
    change _ < (s.storeDocument uri name root).2.generation
    rw [generation_storeDocument]
    omega
  | storeXml uri name xml =>
    cases hparse : Xml.parse xml with
    | error e =>
      rw [perform_storeXml_of_error s uri name hparse]
      exact .inr ⟨rfl, .refl s⟩
    | ok root =>
      rw [perform_storeXml s uri name hparse, generation_storeDocument]
      exact .inl (Nat.lt_succ_self _)
  | removeDocument uri name =>
    cases hdoc : s.pathDoc? (normalizeUri uri ++ "/" ++ name) with
    | none =>
      rw [perform_removeDocument_of_none hdoc]
      exact .inr ⟨rfl, .refl s⟩
    | some doc =>
      refine .inl ?_
      rw [perform_removeDocument hdoc]
      change _ < (s.dropPath _).generation + 1
      rw [generation_dropPath]
      omega
  | configureCollection uri indexes =>
    refine .inl ?_
    change _ < (s.configureCollection uri indexes).generation
    rw [generation_configureCollection]
    omega
  | setConfiguration configuration =>
    change _ < (s.setConfiguration configuration).generation ∨
      (s.setConfiguration configuration).generation = _ ∧
        (s.setConfiguration configuration).Retains s
    rw [generation_setConfiguration]
    rcases hcollections : configuration.collections with _ | ⟨c, rest⟩
    · refine .inr ⟨rfl, ?_⟩
      unfold setConfiguration
      rw [hcollections]
      exact ⟨rfl, fun _ _ h => h⟩
    · exact .inl (by simp)
  | createCollection uri =>
    refine .inr ⟨generation_ensureCollection s _, documents_ensureCollection s _, ?_⟩
    exact fun _ _ h => collection?_ensureCollection_of_some h _
  | interrupt on => exact .inr ⟨rfl, rfl, fun _ _ h => h⟩

theorem generation_le_perform (s : Store) (change : Change) :
    s.generation ≤ (s.perform change).generation := by
  rcases s.perform_generation change with h | ⟨h, _⟩
  · exact Nat.le_of_lt h
  · exact Nat.le_of_eq h.symm

end Store
end IndexedXml
