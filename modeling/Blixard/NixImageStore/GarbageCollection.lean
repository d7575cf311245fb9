/-
  Garbage collection in the image store.

  A chunk is deleted when no image in the index refers to it, but an image in the cache need not
  be in the index (`listed_chunk_deleted`, `keeps_listed_along`).
-/
import Blixard.NixImageStore.Identity

namespace Blixard

open Finset Run Table

inductive ImageStoreCall where
  | importImage (i : ImageImport)
  | downloadImage (imageId : String) (a : DownloadAnswers)
  | garbageCollect (cutoff : ℤ) (keepMinCopies : ℕ)
    (order : List NixImageMetadata → List NixImageMetadata)
    (perm : ∀ images, (order images).Perm images) (a : CollectAnswers)

/-- Every file can be measured and deleted. -/
def CollectAnswers.Works (a : CollectAnswers) (files : Finset String) : Prop :=
  ∀ path ∈ files, (∃ size, a.size path = .ok size) ∧ a.removed path = .ok ()

namespace NixImageStore

variable (h : ImageHashes) (s : NixImageStore)

def step (s : NixImageStore) : ImageStoreCall → NixImageStore
  | .importImage i => (s.importNixPaths h i).1
  | .downloadImage imageId a => (s.downloadImage imageId a).1
  | .garbageCollect cutoff keepMinCopies order _ a =>
    (s.garbageCollect cutoff keepMinCopies order a).1

def Lists (hash : String) : Prop :=
  ∃ (imageId : String) (metadata : NixImageMetadata), s.metadataCache[imageId]? = some metadata ∧
    hash ∈ metadata.chunkHashes.map (·.hash)

/-- No image in the cache lists a chunk whose file was deleted. -/
def KeepsListed (s' : NixImageStore) : Prop :=
  ∀ file ∈ s.files, file ∉ s'.files → ¬ s'.Lists file

/-- A chunk that is in the index refers to the image. -/
def Refers (hash imageId : String) : Prop :=
  ∀ location ∈ s.chunkIndex[hash]?, imageId ∈ location.imageIds

/-- An image that gets into the cache without being indexed has no chunk that the index has for
    others: metadata from the network, and imports that the network does not store.  An import
    brings no chunk into the index that an image in the cache lists already.  Files can be measured
    and deleted. -/
def Indexes : ImageStoreCall → Prop
  | .importImage i => ∀ metadata, s.prepare h i = .ok metadata →
    match i.stored with
    | .ok () => ∀ c ∈ metadata.chunkHashes, s.Lists c.hash → c.hash ∈ s.chunkIndex
    | .error _ => ∀ c ∈ metadata.chunkHashes, s.Refers c.hash metadata.id
  | .downloadImage imageId a => ∀ metadata, s.metadataCache[imageId]? = none →
    a.fetched = .ok (some metadata) → ∀ c ∈ metadata.chunkHashes, s.Refers c.hash imageId
  | .garbageCollect _ _ _ _ a => a.Works s.files

/-! ## The invariant -/

/-- The chunks of every image in the cache, other than one that is being removed, refer to it if
    they are in the index, and a chunk is kept in the file of its name. -/
structure Covered (removing : Option String) (s : NixImageStore) : Prop where
  refers : ∀ (imageId : String) metadata, s.metadataCache[imageId]? = some metadata →
    removing ≠ some imageId → ∀ c ∈ metadata.chunkHashes, s.Refers c.hash imageId
  paths : ∀ (hash : String) location path, s.chunkIndex[hash]? = some location →
    location.localPath = some path → path = hash

variable {h s} {s' : NixImageStore} {removing : Option String}

variable {a : CollectAnswers} {metadata : NixImageMetadata} {imageId : String}

theorem Covered.withMetadata (hs : Covered none s)
    (hr : ∀ c ∈ metadata.chunkHashes, s.Refers c.hash imageId) :
    Covered none (s.withMetadata imageId metadata) where
  refers other found hget ho := by
    rcases get_insert_eq_some.1 hget with ⟨rfl, rfl⟩ | ⟨-, hold⟩
    · exact hr
    · exact hs.refers other found hold ho
  paths := hs.paths

theorem Covered.updateChunkIndex (hs : Covered none s)
    (hk : ∀ c ∈ metadata.chunkHashes, s.Lists c.hash → c.hash ∈ s.chunkIndex) :
    Covered none (s.updateChunkIndex metadata) where
  refers imageId found hget ho c hc location hl := by
    rw [get_updateChunkIndex] at hl
    split_ifs at hl with ht
    · obtain ⟨c', hc', heq⟩ := List.mem_map.1 ht
      have hmem := hk c' hc' (heq ▸ ⟨imageId, found, hget, List.mem_map_of_mem hc⟩)
      rw [heq] at hmem
      obtain ⟨old, hold⟩ := (mem_iff _ _).1 hmem
      have hr := hs.refers imageId found hget ho c hc old hold
      rw [hold] at hl
      cases hl
      exact mem_insert_of_mem hr
    · exact hs.refers imageId found hget ho c hc location hl
  paths hash location path hl hpath := by
    rw [get_updateChunkIndex] at hl
    split_ifs at hl
    · cases hl
      rcases hold : s.chunkIndex[hash]? with _ | location <;> rw [hold] at hpath
      · cases hpath
      · exact hs.paths hash location path hold hpath
    · exact hs.paths hash location path hl hpath

theorem covered_importNixPaths (hs : Covered none s) {i : ImageImport}
    (hi : Indexes h s (.importImage i)) :
    Covered none (s.importNixPaths h i).1 ∧ (s.importNixPaths h i).1.files = s.files := by
  have hm := imports_importNixPaths h s i
  generalize s.importNixPaths h i = r at hm ⊢
  cases hm with
  | failed => exact ⟨hs, rfl⟩
  | @unstored metadata e hp ht =>
    have hr := hi metadata hp
    rw [ht] at hr
    exact ⟨hs.withMetadata hr, rfl⟩
  | @imported metadata hp ht =>
    have hk := hi metadata hp
    rw [ht] at hk
    -- the chunks are indexed after the image is cached, which makes no difference
    refine ⟨(hs.updateChunkIndex hk).withMetadata fun c hc location hl => ?_, rfl⟩
    rw [get_updateChunkIndex, if_pos (List.mem_map_of_mem hc)] at hl
    cases hl
    exact mem_insert_self _ _

theorem covered_storeChunk (hs : Covered none s) (hash : String) (a : ChunkAnswer) :
    Covered none (s.storeChunk hash a).1 ∧ s.files ⊆ (s.storeChunk hash a).1.files := by
  unfold storeChunk
  rcases a.written with e | ⟨⟩
  · refine ⟨{ hs with }, ?_⟩
    dsimp only
    split_ifs
    · exact subset_insert _ _
    · exact Finset.Subset.refl _
  refine ⟨⟨fun imageId metadata hget ho c hc location hl => ?_,
    fun hash' location path hl hpath => ?_⟩, subset_insert _ _⟩ <;>
    rw [get_modify] at hl <;> split_ifs at hl with heq
  · obtain ⟨old, hold, rfl⟩ := Option.map_eq_some_iff.1 hl
    exact hs.refers imageId metadata hget ho c hc old hold
  · exact hs.refers imageId metadata hget ho c hc location hl
  · obtain ⟨old, -, rfl⟩ := Option.map_eq_some_iff.1 hl
    cases hpath
    exact heq
  · exact hs.paths hash' location path hl hpath

theorem covered_downloadImage (hs : Covered none s) {a : DownloadAnswers}
    (hi : Indexes h s (.downloadImage imageId a)) :
    Covered none (s.downloadImage imageId a).1 ∧ s.files ⊆ (s.downloadImage imageId a).1.files := by
  have hf : Covered none (s.getMetadata imageId a.fetched).1 ∧
      (s.getMetadata imageId a.fetched).1.files = s.files := by
    unfold getMetadata
    cases hc1 : s.metadataCache[imageId]? with
    | some metadata => exact ⟨hs, rfl⟩
    | none =>
      rcases hf1 : a.fetched with e | _ | metadata
      · exact ⟨hs, rfl⟩
      · exact ⟨hs, rfl⟩
      · exact ⟨hs.withMetadata (hi metadata hc1 hf1), rfl⟩
  unfold downloadImage
  rcases hget : s.getMetadata imageId a.fetched with ⟨s', e | _ | metadata⟩ <;> rw [hget] at hf
  · exact ⟨hf.1, hf.2.ge⟩
  · exact ⟨hf.1, hf.2.ge⟩
  dsimp only
  rcases a.targetPath with e | ⟨⟩
  · exact ⟨hf.1, hf.2.ge⟩
  have hc := attempt_keeps (downloadChunk a)
    (P := fun t => Covered none t ∧ s.files ⊆ t.files) (fun t chunk ht => ?_)
    ⟨hf.1, hf.2.ge⟩ (s'.analyzeChunksNeeded metadata.chunkHashes).1.zipIdx
  · dsimp only
    rcases ha : attempt (downloadChunk a) s'
      (s'.analyzeChunksNeeded metadata.chunkHashes).1.zipIdx with ⟨t, e | ⟨⟩⟩ <;>
      rw [ha] at hc <;> exact hc
  unfold downloadChunk
  rcases (a.chunks chunk.2).downloaded with e | ⟨⟩
  · exact ht
  · obtain ⟨hv, hl⟩ := covered_storeChunk ht.1 chunk.1.hash (a.chunks chunk.2)
    exact ⟨hv, ht.2.trans hl⟩

/-! ## Removal of an image -/

/-- What is deleted while an image is removed is listed by no other image. -/
structure Removed (imageId : String) (s s' : NixImageStore) : Prop where
  cache : s'.metadataCache = s.metadataCache
  files : s'.files ⊆ s.files
  covered : Covered (some imageId) s'
  deleted : ∀ file ∈ s.files, file ∉ s'.files → ∀ (other : String) metadata,
    s.metadataCache[other]? = some metadata → imageId ≠ other →
      file ∉ metadata.chunkHashes.map (·.hash)

theorem exists_removeFile {files : Finset String} (hw : a.Works files) (path : Option String) :
    ∃ files' size, removeFile a files path = .ok (files', size) ∧ files' ⊆ files ∧
      ∀ file ∈ files, file ∉ files' → path = some file := by
  rcases path with _ | path
  · exact ⟨files, 0, rfl, Finset.Subset.refl _, fun _ hfile hgone => absurd hfile hgone⟩
  by_cases hmem : path ∈ files
  · obtain ⟨⟨size, hsize⟩, hr⟩ := hw path hmem
    refine ⟨files.erase path, size, ?_, erase_subset _ _, fun file hfile hgone => ?_⟩
    · rw [removeFile, if_pos hmem, hsize, hr]
      rfl
    · by_contra hne
      exact hgone (mem_erase_of_ne_of_mem (fun heq => hne (heq ▸ rfl)) hfile)
  · exact ⟨files, 0, if_neg hmem, Finset.Subset.refl _, fun _ hfile hgone => absurd hfile hgone⟩

theorem Removed.unrefer {t : NixImageStore} {hash : String} (hr : Removed imageId s t)
    {location : ChunkLocation} (hl : t.chunkIndex[hash]? = some location) :
    Removed imageId s { t with
      chunkIndex := t.chunkIndex.insert hash
        { location with imageIds := location.imageIds.erase imageId } } where
  cache := hr.cache
  files := hr.files
  covered :=
    { refers := fun other metadata hget ho c hc found hf => by
        rcases get_insert_eq_some.1 hf with ⟨heq, rfl⟩ | ⟨-, hf⟩
        · have hmem := hr.covered.refers other metadata hget ho c hc location (heq ▸ hl)
          exact mem_erase_of_ne_of_mem (fun heq => ho (heq ▸ rfl)) hmem
        · exact hr.covered.refers other metadata hget ho c hc found hf
      paths := fun other found path hf hpath => by
        rcases get_insert_eq_some.1 hf with ⟨rfl, rfl⟩ | ⟨-, hf⟩
        · exact hr.covered.paths _ location path hl hpath
        · exact hr.covered.paths other found path hf hpath }
  deleted := hr.deleted

theorem removed_removeChunk {x : NixImageStore × ℕ} (hw : a.Works s.files)
    (hr : Removed imageId s x.1) (chunk : ChunkMetadata) :
    Removed imageId s (removeChunk a imageId x chunk).1.1 ∧
      (removeChunk a imageId x chunk).2 = .ok () := by
  have hw : a.Works x.1.files := fun path hpath => hw path (hr.files hpath)
  fun_cases removeChunk a imageId x chunk with
  | case1 => exact ⟨hr, rfl⟩
  | case2 t _ _ found hf _ _ _ _ hm =>
    obtain ⟨_, _, hok, -⟩ := exists_removeFile hw found.localPath
    cases hm.symm.trans hok
  | case4 t _ _ found hf => exact ⟨hr.unrefer hf, rfl⟩
  | case3 t freed chunk found hf location t' he files size hm =>
    have hu : Removed imageId s t' := hr.unrefer hf
    obtain ⟨_, _, hok, hsub, hpath⟩ := exists_removeFile hw found.localPath
    cases hm.symm.trans hok
    -- an image that lists the chunk would be among those that it refers to
    have hn {other : String} {metadata : NixImageMetadata}
        (hget : t.metadataCache[other]? = some metadata) (ho : some imageId ≠ some other)
        {c : ChunkMetadata} (hc : c ∈ metadata.chunkHashes) : chunk.hash ≠ c.hash := by
      intro heq
      have hmem := hr.covered.refers other metadata hget ho c hc found (heq ▸ hf)
      have hleft : other ∈ location.imageIds :=
        mem_erase_of_ne_of_mem (fun heq => ho (heq ▸ rfl)) hmem
      rw [he] at hleft
      exact absurd hleft (notMem_empty other)
    refine ⟨⟨hr.cache, hsub.trans hr.files,
      ⟨fun other metadata hget ho c hc found hf => ?_, fun other found path hget hpath => ?_⟩,
      fun file hfile hgone other metadata hget ho => ?_⟩, rfl⟩
    · replace hf := (get_erase _ _ _).symm.trans hf
      split_ifs at hf
      exact hu.covered.refers other metadata hget ho c hc found hf
    · replace hget := (get_erase _ _ _).symm.trans hget
      split_ifs at hget
      exact hu.covered.paths other found path hget hpath
    by_cases hkept : file ∈ t.files
    · rw [hr.covered.paths chunk.hash found file hf (hpath file hkept hgone)]
      intro hmem
      obtain ⟨c, hc, heq⟩ := List.mem_map.1 hmem
      exact hn (hr.cache ▸ hget) (fun heq => ho (Option.some.inj heq)) hc heq.symm
    · exact hr.deleted file hfile hkept other metadata hget ho

/-! ## Collections -/

/-- Images are taken out of the cache, and no other image lists a chunk whose file was deleted. -/
structure Collected (s s' : NixImageStore) : Prop where
  covered : Covered none s'
  files : s'.files ⊆ s.files
  cache : ∀ (imageId : String) metadata, s'.metadataCache[imageId]? = some metadata →
    s.metadataCache[imageId]? = some metadata
  keeps : s.KeepsListed s'

theorem Collected.trans {s'' : NixImageStore} (hf : Collected s s')
    (hs : Collected s' s'') : Collected s s'' where
  covered := hs.covered
  files := hs.files.trans hf.files
  cache imageId metadata hget := hf.cache imageId metadata (hs.cache imageId metadata hget)
  keeps file hfile hgone := by
    by_cases hkept : file ∈ s'.files
    · exact hs.keeps file hkept hgone
    · rintro ⟨imageId, metadata, hget, hmem⟩
      exact hf.keeps file hfile hkept ⟨imageId, metadata, hs.cache _ _ hget, hmem⟩

theorem collected_removeLocalCache (hs : Covered none s) (hw : a.Works s.files)
    (metadata : NixImageMetadata) :
    ∃ s' freed, s.removeLocalCache a metadata = (s', .ok freed) ∧ Collected s s' := by
  have ht : Removed metadata.id s s :=
    ⟨rfl, Finset.Subset.refl _, ⟨fun imageId found hget _ => hs.refers imageId found hget nofun,
      hs.paths⟩, fun _ hfile hgone => absurd hfile hgone⟩
  obtain ⟨hr, hok⟩ := attempt_succeeds (removeChunk a metadata.id)
    (P := fun x => Removed metadata.id s x.1)
    (fun x chunk (_ : chunk ∈ metadata.chunkHashes) hx => removed_removeChunk hw hx chunk)
    (s := (s, 0)) ht
  unfold removeLocalCache
  rcases ha : attempt (removeChunk a metadata.id) (s, 0) metadata.chunkHashes with
    ⟨⟨t, freed⟩, result⟩
  rw [ha] at hr hok
  cases hok
  refine ⟨_, freed, rfl, ?_⟩
  have hleft {imageId : String} {found : NixImageMetadata}
      (hget : (t.metadataCache.erase metadata.id)[imageId]? = some found) :
      metadata.id ≠ imageId ∧ t.metadataCache[imageId]? = some found := by
    rw [get_erase] at hget
    split_ifs at hget with hne
    exact ⟨hne, hget⟩
  refine ⟨⟨fun imageId found hget _ => ?_, hr.covered.paths⟩, hr.files,
    fun imageId found hget => ?_, fun file hfile hgone => ?_⟩
  · obtain ⟨hne, hold⟩ := hleft hget
    exact hr.covered.refers imageId found hold fun heq => hne (Option.some.inj heq)
  · exact hr.cache ▸ (hleft hget).2
  · rintro ⟨imageId, found, hget, hmem⟩
    obtain ⟨hne, hold⟩ := hleft hget
    exact hr.deleted file hfile hgone imageId found (hr.cache ▸ hold) hne hmem

theorem collected_garbageCollect (hs : Covered none s) (hw : a.Works s.files) (cutoff : ℤ)
    (keepMinCopies : ℕ) (order : List NixImageMetadata → List NixImageMetadata) :
    Collected s (s.garbageCollect cutoff keepMinCopies order a).1 := by
  have ht : Collected s s := ⟨hs, Finset.Subset.refl _, fun _ _ hget => hget,
    fun _ hfile hgone => absurd hfile hgone⟩
  have hc (x : NixImageStore × ℕ) (metadata : NixImageMetadata) (hx : Collected s x.1) :
      Collected s (collectImage a keepMinCopies x metadata).1.1 ∧
        (collectImage a keepMinCopies x metadata).2 = .ok () := by
    obtain ⟨t, freed, hok, hl⟩ := collected_removeLocalCache hx.covered
      (fun path hpath => hw path (hx.files hpath)) metadata
    fun_cases collectImage a keepMinCopies x metadata with
    | case1 | case2 => exact ⟨hx, rfl⟩
    | case3 _ _ _ _ _ _ _ hr => cases hr.symm.trans hok
    | case4 _ _ _ _ _ _ _ hr =>
      cases hr.symm.trans hok
      exact ⟨hx.trans hl, rfl⟩
  unfold garbageCollect
  dsimp only
  generalize order _ = images
  obtain ⟨hl, -⟩ := attempt_succeeds (collectImage a keepMinCopies)
    (P := fun x => Collected s x.1) (fun x metadata (_ : metadata ∈ images) => hc x metadata)
    (s := (s, 0)) ht
  rcases ha : attempt (collectImage a keepMinCopies) (s, 0) images with
    ⟨⟨t, total⟩, e | ⟨⟩⟩ <;> rw [ha] at hl <;> exact hl

/-- **Collections keep the chunks of the images that stay**, if images share chunks only through
    the index and files can be deleted. -/
theorem keeps_listed_along (h : ImageHashes) (nodeId : ℕ) (files : Finset String)
    (calls : List ImageStoreCall)
    (hindexes : Run.Along (step h) (Indexes h) (new nodeId files) calls) :
    Run.Along (step h) (fun s call => s.KeepsListed (s.step h call)) (new nodeId files) calls := by
  have hfiles {s s' : NixImageStore} (hsub : s.files ⊆ s'.files) : s.KeepsListed s' :=
    fun _ hfile hgone => absurd (hsub hfile) hgone
  have hcall (s : NixImageStore) (call : ImageStoreCall) (hs : Covered none s)
      (hindexes : Indexes h s call) :
      Covered none (s.step h call) ∧ s.KeepsListed (s.step h call) := by
    cases call with
    | importImage i =>
      obtain ⟨hcovered, hsame⟩ := covered_importNixPaths hs hindexes
      exact ⟨hcovered, hfiles hsame.ge⟩
    | downloadImage imageId a =>
      obtain ⟨hcovered, hsub⟩ := covered_downloadImage hs hindexes
      exact ⟨hcovered, hfiles hsub⟩
    | garbageCollect cutoff keepMinCopies order perm a =>
      have hcollected := collected_garbageCollect hs hindexes cutoff keepMinCopies order
      exact ⟨hcollected.covered, hcollected.keeps⟩
  have hstart : Covered none (new nodeId files) :=
    ⟨fun _ _ hget => by simp [new] at hget, fun _ _ _ hlocation => by simp [new] at hlocation⟩
  exact Run.along_of_invariant (fun s call hs hindexes => (hcall s call hs hindexes).1)
    (fun s call hs hindexes => (hcall s call hs hindexes).2) hstart hindexes

/-! ## Images that share a chunk -/

open ImportHistory

def fetching (metadata : Option NixImageMetadata) : ImageStoreCall :=
  .downloadImage ((metadata.map (·.id)).getD "12")
    ⟨.ok metadata, .ok (), fun _ => ⟨.ok (), .ok (), true⟩, .ok (), .ok ()⟩

def collecting (size : String → Except BlixardError ℕ) : ImageStoreCall :=
  .garbageCollect 3 0 id (fun _ => .rfl) ⟨size, fun _ => .ok ()⟩

def twoChunks : List ImageStoreCall :=
  [.importImage (imageOf "whole" [[0], [1, 1]]), fetching none]

def firstChunk : ImageStoreCall := .importImage { imageOf "first" [[0]] with now := 5 }

/-- An image of one chunk, of which another node has metadata. -/
def onNetwork (hash : String) : NixImageMetadata :=
  ⟨"other", "other", none, 5, [⟨0, 1, hash, false⟩], {2}⟩

theorem keeps_listed_firstChunk :
    let calls := twoChunks ++ [firstChunk, fetching (some (onNetwork "3")), collecting fun _ => .ok 1]
    Run.Along (step plainHashes) (Indexes plainHashes) (new 1 ∅) calls ∧
      Run.Along (step plainHashes) (fun s call => s.KeepsListed (s.step plainHashes call)) (new 1 ∅)
        calls ∧
      (calls.foldl (step plainHashes) (new 1 ∅)).files = {"1", "3"} := by
  intro calls
  have hindexes : Run.Along (step plainHashes) (Indexes plainHashes) (new 1 ∅) calls := by
    refine ⟨?_, nofun, ?_, ?_, fun _ _ => ⟨⟨1, rfl⟩, rfl⟩, trivial⟩
    · rintro metadata - c - ⟨imageId, found, hget, -⟩
      simp [new] at hget
    · intro metadata hprepare c hc _
      have hchunks : [⟨0, 1, "1", false⟩] = metadata.chunkHashes :=
        Except.ok.inj (prepare_ok hprepare).1
      rw [← hchunks, List.mem_singleton] at hc
      cases hc
      decide +kernel
    · rintro _ - ⟨⟩ c hc
      cases List.mem_singleton.1 hc
      unfold Refers
      decide +kernel
  exact ⟨hindexes, keeps_listed_along plainHashes 1 ∅ calls hindexes, by decide +kernel⟩

/-- **The file of a listed chunk is deleted**: of an image whose metadata came from the network, and
    of the image itself by a collection that fails at the second chunk. -/
theorem listed_chunk_deleted :
    let s := twoChunks.foldl (step plainHashes) (new 1 ∅)
    let s' := s.step plainHashes (fetching (some (onNetwork "1")))
    ¬ s'.KeepsListed (s'.step plainHashes (collecting fun _ => .ok 1)) ∧
      ¬ s.KeepsListed (s.step plainHashes (collecting fun path =>
        if path = "2" then .error (.internal "no such file") else .ok 1)) := by
  intro s s'
  refine ⟨fun hkeeps => ?_, fun hkeeps => ?_⟩
  · exact hkeeps "1" (by decide +kernel) (by decide +kernel)
      ⟨"other", onNetwork "1", by decide +kernel, by decide +kernel⟩
  · exact hkeeps "1" (by decide +kernel) (by decide +kernel)
      ⟨"12", ⟨"12", "whole", none, 0, [⟨0, 1, "1", false⟩, ⟨1, 2, "2", false⟩], {1}⟩,
        by decide +kernel, by decide +kernel⟩

end NixImageStore

end Blixard
