/-
  The ids of imported images.

  The id of an image is the hash of the chunks that were new when it was imported.  So an id
  stands for one list of chunks exactly if all imports without a new chunk have the same ones
  (`images_identified_iff`).
-/
import Blixard.Lib.Text
import Blixard.NixImageStore

namespace Blixard

open List Table

/-- An import that has succeeded, with the chunks that were new. -/
structure ImportRecord where
  newChunks : List ChunkMetadata
  metadata : NixImageMetadata

structure ImportHistory where
  store : NixImageStore
  imported : List ImportRecord
  texts : List String

namespace ImportHistory

open NixImageStore

variable (h : ImageHashes)

def start (nodeId : ℕ) (files : Finset String) : ImportHistory := ⟨.new nodeId files, [], []⟩

def step (s : ImportHistory) (i : ImageImport) : ImportHistory where
  store := (s.store.importNixPaths h i).1
  imported :=
    match (s.store.importNixPaths h i).2 with
    | .ok metadata =>
      s.imported ++ [⟨(s.store.deduplicateChunks metadata.chunkHashes).1, metadata⟩]
    | .error _ => s.imported
  texts :=
    match s.store.prepare h i with
    | .ok metadata => s.texts ++ [hashedText (s.store.deduplicateChunks metadata.chunkHashes).1]
    | .error _ => s.texts

def CollisionFree (texts : List String) : Prop :=
  ∀ t ∈ texts, ∀ t' ∈ texts, h.contentHash t = h.contentHash t' → t = t'

/-- Imports with different chunks have different ids, and what is stored under an id describes
    the import that got it. -/
structure Identified (s : ImportHistory) : Prop where
  apart : ∀ r ∈ s.imported, ∀ r' ∈ s.imported,
    r.metadata.chunkHashes ≠ r'.metadata.chunkHashes → r.metadata.id ≠ r'.metadata.id
  described : ∀ r ∈ s.imported, ∃ metadata,
    s.store.metadataCache[r.metadata.id]? = some metadata ∧
      metadata.chunkHashes = r.metadata.chunkHashes

/-- An import whose metadata is stored without a new chunk has the same chunks as those before
    it that had no new chunk. -/
def ToldApart (s : ImportHistory) (i : ImageImport) : Prop :=
  ∀ metadata, s.store.prepare h i = .ok metadata →
    (s.store.deduplicateChunks metadata.chunkHashes).1 = [] →
      ∀ r ∈ s.imported, r.newChunks = [] → r.metadata.chunkHashes = metadata.chunkHashes

variable {h} {s : ImportHistory} {i : ImageImport} {metadata : NixImageMetadata} {e : BlixardError}

theorem step_failed (hp : s.store.prepare h i = .error e) : s.step h i = s := by
  simp [step, importNixPaths, hp]

theorem step_unstored (hp : s.store.prepare h i = .ok metadata) (hs : i.stored = .error e) :
    s.step h i = ⟨s.store.withMetadata metadata.id metadata, s.imported,
      s.texts ++ [hashedText (s.store.deduplicateChunks metadata.chunkHashes).1]⟩ := by
  simp [step, importNixPaths, hp, storeMetadata, hs, withMetadata]

theorem step_imported (hp : s.store.prepare h i = .ok metadata) (hs : i.stored = .ok ()) :
    s.step h i = ⟨(s.store.withMetadata metadata.id metadata).updateChunkIndex metadata,
      s.imported ++ [⟨(s.store.deduplicateChunks metadata.chunkHashes).1, metadata⟩],
      s.texts ++ [hashedText (s.store.deduplicateChunks metadata.chunkHashes).1]⟩ := by
  simp [step, importNixPaths, hp, storeMetadata, hs, withMetadata]

theorem texts_step (hp : s.store.prepare h i = .ok metadata) : (s.step h i).texts =
      s.texts ++ [hashedText (s.store.deduplicateChunks metadata.chunkHashes).1] := by
  simp [step, hp]

theorem texts_subset_step (s : ImportHistory) (i : ImageImport) : s.texts ⊆ (s.step h i).texts := by
  rcases hp : s.store.prepare h i with e | metadata
  · rw [step_failed hp]
    exact fun _ ht => ht
  · rw [texts_step hp]
    exact subset_append_left _ _

theorem CollisionFree.mono {texts texts' : List String} (hfree : CollisionFree h texts')
    (hsub : texts ⊆ texts') : CollisionFree h texts :=
  fun t ht t' ht' => hfree t (hsub ht) t' (hsub ht')

/-! ## Which imports share an id -/

/-- The chunks that were new are indexed, and their hashes give the ids. -/
structure Recorded (h : ImageHashes) (s : ImportHistory) : Prop where
  width : ∀ r ∈ s.imported, ∀ c ∈ r.newChunks, c.hash.length = h.width
  indexed : ∀ r ∈ s.imported, ∀ c ∈ r.newChunks, c.hash ∈ s.store.chunkIndex
  id : ∀ r ∈ s.imported, r.metadata.id = uploadChunks h r.newChunks
  text : ∀ r ∈ s.imported, hashedText r.newChunks ∈ s.texts
  described : ∀ r ∈ s.imported, ∃ metadata,
    s.store.metadataCache[r.metadata.id]? = some metadata ∧
      metadata.chunkHashes = r.metadata.chunkHashes

theorem Recorded.identified (hs : Recorded h s) : Identified s := by
  refine ⟨fun r hr r' hr' hc hid => hc ?_, hs.described⟩
  obtain ⟨metadata, hget, hsame⟩ := hs.described r hr
  obtain ⟨metadata', hget', hsame'⟩ := hs.described r' hr'
  rw [hid, hget'] at hget
  cases hget
  rw [← hsame, ← hsame']

variable {r : ImportRecord}

theorem newChunks_eq_nil_of_id (hs : Recorded h s) (hfree : CollisionFree h (s.step h i).texts)
    (hp : s.store.prepare h i = .ok metadata) (hr : r ∈ s.imported)
    (hid : r.metadata.id = metadata.id) :
    r.newChunks = [] ∧ (s.store.deduplicateChunks metadata.chunkHashes).1 = [] := by
  obtain ⟨hc1, hm⟩ := prepare_ok hp
  rw [texts_step hp] at hfree
  have htext : hashedText r.newChunks =
      hashedText (s.store.deduplicateChunks metadata.chunkHashes).1 :=
    hfree _ (mem_append_left _ (hs.text r hr)) _ (by simp)
      ((hs.id r hr).symm.trans (hid.trans hm))
  have hh1 : r.newChunks.map (·.hash) =
      (s.store.deduplicateChunks metadata.chunkHashes).1.map (·.hash) := by
    refine Text.join_injective h.width_pos (forall_mem_map.2 (hs.width r hr))
      (forall_mem_map.2 fun c hc => ?_) htext
    exact length_hash_of_chunkPaths hc1 c (mem_deduplicateChunks.1 hc).1
  have hnone : (s.store.deduplicateChunks metadata.chunkHashes).1 = [] := by
    -- a new chunk of both would be in the index and not in the index
    refine eq_nil_iff_forall_not_mem.2 fun c hc => ?_
    obtain ⟨c', hc', hsame⟩ := mem_map.1 (hh1 ▸ mem_map_of_mem hc)
    exact (mem_deduplicateChunks.1 hc).2 (hsame ▸ hs.indexed r hr c' hc')
  rw [hnone, map_nil, map_eq_nil_iff] at hh1
  exact ⟨hh1, hnone⟩

theorem described_withMetadata (hs : Recorded h s) (hfree : CollisionFree h (s.step h i).texts)
    (ha : ToldApart h s i) (hp : s.store.prepare h i = .ok metadata)
    (hr : r ∈ s.imported) : ∃ metadata',
    (s.store.withMetadata metadata.id metadata).metadataCache[r.metadata.id]? = some metadata' ∧
      metadata'.chunkHashes = r.metadata.chunkHashes := by
  unfold withMetadata
  dsimp only
  rw [get_insert]
  split_ifs with hid
  · obtain ⟨hold, hnew⟩ := newChunks_eq_nil_of_id hs hfree hp hr hid.symm
    exact ⟨metadata, rfl, (ha metadata hp hnew r hr hold).symm⟩
  · exact hs.described r hr

theorem recorded_step (hs : Recorded h s) (hfree : CollisionFree h (s.step h i).texts)
    (ha : ToldApart h s i) : Recorded h (s.step h i) := by
  have hsub := texts_subset_step (h := h) s i
  rcases hp : s.store.prepare h i with e | metadata
  · rw [step_failed hp]
    exact hs
  obtain ⟨hc1, hm⟩ := prepare_ok hp
  have hold := fun r (hr : r ∈ s.imported) =>
    described_withMetadata hs hfree ha hp hr
  have htext := texts_step hp
  rcases ht : i.stored with e | ⟨⟩
  · rw [step_unstored hp ht]
    exact { hs with
      text := fun r hr => mem_append_left _ (hs.text r hr)
      described := hold }
  rw [step_imported hp ht]
  have hl : ∀ c ∈ (s.store.deduplicateChunks metadata.chunkHashes).1,
      c ∈ metadata.chunkHashes := fun c hc => (mem_deduplicateChunks.1 hc).1
  refine ⟨?_, ?_, ?_, ?_, ?_⟩ <;> simp only [forall_mem_append, forall_mem_singleton]
  · exact ⟨hs.width, fun c hc => length_hash_of_chunkPaths hc1 c (hl c hc)⟩
  · exact ⟨fun r hr c hc => mem_updateChunkIndex.2 (.inr (hs.indexed r hr c hc)),
      fun c hc => mem_updateChunkIndex.2 (.inl (mem_map_of_mem (hl c hc)))⟩
  · exact ⟨hs.id, hm⟩
  · exact ⟨fun r hr => mem_append_left _ (hs.text r hr), by simp⟩
  · refine ⟨hold, metadata, ?_, rfl⟩
    exact (get_insert _ _ _ _).trans (if_pos rfl)

theorem not_identified_step (hs : Recorded h s) (ha : ¬ ToldApart h s i) :
    ¬ Identified (s.step h i) := by
  intro hi
  refine ha fun metadata hp hnone r hr hold => ?_
  obtain ⟨-, hm⟩ := prepare_ok hp
  have hid : r.metadata.id = metadata.id := by
    rw [hs.id r hr, hold, hm, hnone]
  have hc : (s.step h i).store.metadataCache[r.metadata.id]? = some metadata := by
    rw [hid]
    rcases ht : i.stored with e | ⟨⟩
    · rw [step_unstored hp ht]
      exact (get_insert _ _ _ _).trans (if_pos rfl)
    · rw [step_imported hp ht]
      exact (get_insert _ _ _ _).trans (if_pos rfl)
  have hmem : r ∈ (s.step h i).imported := by
    rcases ht : i.stored with e | ⟨⟩
    · rw [step_unstored hp ht]
      exact hr
    · rw [step_imported hp ht]
      exact mem_append_left _ hr
  obtain ⟨metadata', hget, hsame⟩ := hi.described r hmem
  rw [hc] at hget
  cases hget
  exact hsame.symm

/-- **An id stands for one list of chunks exactly if the imports without a new chunk have the
    same chunks**, with a hash without collisions. -/
theorem images_identified_iff (h : ImageHashes) (nodeId : ℕ) (files : Finset String)
    (imports : List ImageImport)
    (hfree : CollisionFree h (imports.foldl (step h) (start nodeId files)).texts) :
    (∀ s ∈ imports.scanl (step h) (start nodeId files), Identified s) ↔
      Run.Along (step h) (ToldApart h) (start nodeId files) imports := by
  have hfree' : Run.Along (step h) (fun s i => CollisionFree h (s.step h i).texts)
      (start nodeId files) imports :=
    Run.along_of_foldl (Q := fun s => CollisionFree h s.texts)
      (fun s i hfree => hfree.mono (texts_subset_step s i)) hfree
  exact Run.holds_iff_along_of
    (fun s i (hs : Recorded h s) hfree happart => recorded_step hs hfree happart)
    (fun s hs => hs.identified) (fun s i hs _ happart => not_identified_step hs happart)
    ⟨nofun, nofun, nofun, nofun, nofun⟩ hfree'

def imageOf (name : String) (pieces : List Bytes) : ImageImport :=
  ⟨.closure name ⟨.ok (), pieces.map .ok⟩, .ok none, 0, .ok ()⟩

/-- Texts in place of hashes: the length of a chunk, and the text itself. -/
def plainHashes : ImageHashes where
  hashData data := String.ofList [Char.ofNat (data.length + 48)]
  contentHash text := text
  width := 1
  width_pos := Nat.one_pos
  length_hashData _ := String.length_ofList

/-- A file is imported twice, under two names. -/
theorem images_identified_twice :
    let imports := [imageOf "one" [[0]], imageOf "two" [[0]]]
    CollisionFree plainHashes (imports.foldl (step plainHashes) (start 1 ∅)).texts ∧
      ((∀ s ∈ imports.scanl (step plainHashes) (start 1 ∅), Identified s) ↔
        Run.Along (step plainHashes) (ToldApart plainHashes) (start 1 ∅) imports) := by
  intro imports
  have hfree : CollisionFree plainHashes (imports.foldl (step plainHashes) (start 1 ∅)).texts :=
    fun _ _ _ _ heq => heq
  exact ⟨hfree, images_identified_iff plainHashes 1 ∅ imports hfree⟩

def wholeAndParts : List ImageImport :=
  [imageOf "whole" [[0], [1, 1]], imageOf "first" [[0]], imageOf "second" [[1, 1]]]

/-- Both parts get the id of the empty text, also with a hash without collisions. -/
theorem two_images_one_id :
    let s := wholeAndParts.foldl (step plainHashes) (start 1 ∅)
    s.imported.map (fun r => (r.metadata.name, r.metadata.id)) =
        [("whole", "12"), ("first", ""), ("second", "")] ∧
      CollisionFree plainHashes s.texts ∧ ¬ Identified s := by
  intro s
  refine ⟨by decide +kernel, fun _ _ _ _ heq => heq, fun hidentified => ?_⟩
  have hapart := hidentified.apart
  revert hapart
  decide +kernel

end ImportHistory

end Blixard
