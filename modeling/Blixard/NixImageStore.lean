/-
  The store of Nix images (`nix_image_store/store.rs`).

  An image is a list of chunks, each known by its hash; the index has the images and the file of
  each chunk.  What files, the network and `nix` answer are inputs.  An image has at most two
  files, whose lengths are signed, so that their sum does not overflow; sums that are only logged
  or counted are left out.
-/
import Blixard.Error
import Blixard.Lib.Bytes
import Blixard.Lib.Run
import Blixard.Lib.Table
import Mathlib.Data.Finset.Card

namespace Blixard

open List Table

/-! ## Types -/

structure ImageHashes where
  hashData : Bytes → String
  contentHash : String → String
  width : ℕ
  width_pos : 0 < width
  length_hashData : ∀ data, (hashData data).length = width

structure ChunkMetadata where
  offset : ℕ
  size : ℕ
  hash : String
  isCommon : Bool
  deriving DecidableEq

structure NixImageMetadata where
  id : String
  name : String
  narHash : Option String
  createdAt : ℤ
  chunkHashes : List ChunkMetadata
  cachedOnNodes : Finset ℕ
  deriving DecidableEq

structure ChunkLocation where
  imageIds : Finset String
  localPath : Option String

structure NixImageStore where
  nodeId : ℕ
  metadataCache : Table String NixImageMetadata
  chunkIndex : Table String ChunkLocation
  files : Finset String

/-- What a path answers when its length is asked for, and when it is opened and read, which
    ends with an empty read. -/
structure PathAnswers where
  metadata : Except BlixardError Unit
  reads : List (Except BlixardError Bytes)

inductive ImageSource where
  | microvm (name : String) (system : PathAnswers) (kernel : Option PathAnswers)
  | container (imageRef : String) (tar : PathAnswers)
  | closure (name : String) (root : PathAnswers)

/-- An import: what `nix` says about the hash of the first path, the time, and whether the
    metadata could be written to the network. -/
structure ImageImport where
  source : ImageSource
  narHash : Except BlixardError (Option String)
  now : ℤ
  stored : Except BlixardError Unit

/-- What happens when a chunk is downloaded and written; a failed write may have created the
    file. -/
structure ChunkAnswer where
  downloaded : Except BlixardError Unit
  written : Except BlixardError Unit
  created : Bool

/-- A download: the metadata that the network has, whether it gives a target path, what happens to
    the missing chunks, and whether the image could be put together and has the right hash. -/
structure DownloadAnswers where
  fetched : Except BlixardError (Option NixImageMetadata)
  targetPath : Except BlixardError Unit
  chunks : ℕ → ChunkAnswer
  reassembled : Except BlixardError Unit
  verified : Except BlixardError Unit

structure CollectAnswers where
  size : String → Except BlixardError ℕ
  removed : String → Except BlixardError Unit

/-! ## Imports -/

namespace ImageSource

def name : ImageSource → String
  | microvm name _ _ | container name _ | closure name _ => name

def paths : ImageSource → List PathAnswers
  | microvm _ system kernel => system :: kernel.toList
  | container _ tar => [tar]
  | closure _ root => [root]

end ImageSource

namespace NixImageStore

/-- A store that is opened has nothing in memory; files may be left from before. -/
def new (nodeId : ℕ) (files : Finset String) : NixImageStore := ⟨nodeId, ∅, ∅, files⟩

variable (h : ImageHashes)

def chunkFrom (offset : ℕ) : List (Except BlixardError Bytes) →
    Except BlixardError (List ChunkMetadata)
  | [] => .ok []
  | .error e :: _ => .error e
  | .ok data :: reads =>
    if data.isEmpty then .ok []
    else (chunkFrom (offset + data.length) reads).map
      (⟨offset, data.length, h.hashData data, false⟩ :: ·)

def chunkFile (reads : List (Except BlixardError Bytes)) :
    Except BlixardError (List ChunkMetadata) :=
  chunkFrom h 0 reads

def chunkPaths : List PathAnswers → Except BlixardError (List ChunkMetadata)
  | [] => .ok []
  | path :: paths => do
    path.metadata
    let chunks ← chunkFile h path.reads
    let rest ← chunkPaths paths
    return chunks ++ rest

variable (s : NixImageStore)

def deduplicateChunks (chunks : List ChunkMetadata) : List ChunkMetadata × ℕ :=
  (chunks.filter fun chunk => !s.chunkIndex.contains chunk.hash,
    (chunks.filter fun chunk => s.chunkIndex.contains chunk.hash).length)

def hashedText (chunks : List ChunkMetadata) : String := String.join (chunks.map (·.hash))

def uploadChunks (chunks : List ChunkMetadata) : String := h.contentHash (hashedText chunks)

def storeMetadata (metadata : NixImageMetadata) (stored : Except BlixardError Unit) :
    NixImageStore × Except BlixardError Unit :=
  ({ s with metadataCache := s.metadataCache.insert metadata.id metadata }, stored)

def indexChunk (imageId : String) (index : Table String ChunkLocation) (chunk : ChunkMetadata) :
    Table String ChunkLocation :=
  let location := index[chunk.hash]?.getD ⟨∅, none⟩
  index.insert chunk.hash { location with imageIds := insert imageId location.imageIds }

def updateChunkIndex (metadata : NixImageMetadata) : NixImageStore :=
  { s with chunkIndex := metadata.chunkHashes.foldl (indexChunk metadata.id) s.chunkIndex }

def prepare (i : ImageImport) : Except BlixardError NixImageMetadata := do
  let allChunks ← chunkPaths h i.source.paths
  let uniqueChunks := (s.deduplicateChunks allChunks).1
  let contentHash := uploadChunks h uniqueChunks
  let narHash ← i.narHash
  return {
    id := contentHash
    name := i.source.name
    narHash := narHash
    createdAt := i.now
    chunkHashes := allChunks
    cachedOnNodes := {s.nodeId} }

def importNixPaths (i : ImageImport) : NixImageStore × Except BlixardError NixImageMetadata :=
  match s.prepare h i with
  | .error e => (s, .error e)
  | .ok metadata =>
    match s.storeMetadata metadata i.stored with
    | (s, .error e) => (s, .error e)
    | (s, .ok ()) => (s.updateChunkIndex metadata, .ok metadata)

/-! ## Downloads -/

def getMetadata (imageId : String) (fetched : Except BlixardError (Option NixImageMetadata)) :
    NixImageStore × Except BlixardError (Option NixImageMetadata) :=
  match s.metadataCache[imageId]? with
  | some metadata => (s, .ok (some metadata))
  | none =>
    match fetched with
    | .ok (some metadata) =>
      ({ s with metadataCache := s.metadataCache.insert imageId metadata }, .ok (some metadata))
    | .ok none => (s, .ok none)
    | .error e => (s, .error e)

def analyzeChunksNeeded (chunks : List ChunkMetadata) : List ChunkMetadata × List ChunkMetadata :=
  chunks.partition fun chunk => (s.chunkIndex[chunk.hash]?.bind (·.localPath)).isNone

/-- Only a chunk in the index gets to know its file. -/
def storeChunk (hash : String) (a : ChunkAnswer) : NixImageStore × Except BlixardError Unit :=
  match a.written with
  | .error e => ({ s with files := if a.created then insert hash s.files else s.files }, .error e)
  | .ok () =>
    ({ s with
        files := insert hash s.files
        chunkIndex := s.chunkIndex.modify hash fun location =>
          { location with localPath := some hash } }, .ok ())

def downloadChunk (a : DownloadAnswers) (s : NixImageStore) (chunk : ChunkMetadata × ℕ) :
    NixImageStore × Except BlixardError Unit :=
  match (a.chunks chunk.2).downloaded with
  | .error e => (s, .error e)
  | .ok () => s.storeChunk chunk.1.hash (a.chunks chunk.2)

def downloadImage (imageId : String) (a : DownloadAnswers) :
    NixImageStore × Except BlixardError Unit :=
  match s.getMetadata imageId a.fetched with
  | (s, .error e) => (s, .error e)
  | (s, .ok none) => (s, .error (.notFound s!"Nix image {imageId}"))
  | (s, .ok (some metadata)) =>
    match a.targetPath with
    | .error e => (s, .error e)
    | .ok () =>
      let (needed, _) := s.analyzeChunksNeeded metadata.chunkHashes
      match Run.attempt (downloadChunk a) s needed.zipIdx with
      | (s, .error e) => (s, .error e)
      | (s, .ok ()) =>
        (s, do
          a.reassembled
          if metadata.narHash.isSome then a.verified)

/-! ## Garbage collection -/

/-- Not implemented in the source. -/
def isImageInUse (_imageId : String) : Bool := false

def removeFile (a : CollectAnswers) (files : Finset String) :
    Option String → Except BlixardError (Finset String × ℕ)
  | none => .ok (files, 0)
  | some path =>
    if path ∈ files then do
      let size ← a.size path
      a.removed path
      return (files.erase path, size)
    else .ok (files, 0)

def removeChunk (a : CollectAnswers) (imageId : String) :
    NixImageStore × ℕ → ChunkMetadata → (NixImageStore × ℕ) × Except BlixardError Unit
  | (s, freed), chunk =>
    match s.chunkIndex[chunk.hash]? with
    | none => ((s, freed), .ok ())
    | some location =>
      let location := { location with imageIds := location.imageIds.erase imageId }
      let s := { s with chunkIndex := s.chunkIndex.insert chunk.hash location }
      if location.imageIds = ∅ then
        match removeFile a s.files location.localPath with
        | .error e => ((s, freed), .error e)
        | .ok (files, size) =>
          (({ s with files := files, chunkIndex := s.chunkIndex.erase chunk.hash }, freed + size),
            .ok ())
      else ((s, freed), .ok ())

/-- An error leaves the image in the cache. -/
def removeLocalCache (a : CollectAnswers) (metadata : NixImageMetadata) :
    NixImageStore × Except BlixardError ℕ :=
  match Run.attempt (removeChunk a metadata.id) (s, 0) metadata.chunkHashes with
  | ((s, _), .error e) => (s, .error e)
  | ((s, freed), .ok ()) =>
    ({ s with metadataCache := s.metadataCache.erase metadata.id }, .ok freed)

def collectImage (a : CollectAnswers) (keepMinCopies : ℕ) :
    NixImageStore × ℕ → NixImageMetadata → (NixImageStore × ℕ) × Except BlixardError Unit
  | (s, total), metadata =>
    if isImageInUse metadata.id then ((s, total), .ok ())
    else if metadata.cachedOnNodes.card ≤ keepMinCopies then ((s, total), .ok ())
    else
      match s.removeLocalCache a metadata with
      | (s, .error e) => ((s, total), .error e)
      | (s, .ok freed) => ((s, total + freed), .ok ())

def garbageCollect (cutoff : ℤ) (keepMinCopies : ℕ)
    (order : List NixImageMetadata → List NixImageMetadata) (a : CollectAnswers) :
    NixImageStore × Except BlixardError ℕ :=
  let images := order ((s.metadataCache.toList.map Prod.snd).filter (·.createdAt < cutoff))
  match Run.attempt (collectImage a keepMinCopies) (s, 0) images with
  | ((s, _), .error e) => (s, .error e)
  | ((s, total), .ok ()) => (s, .ok total)

/-! ## What an import does -/

def withMetadata (imageId : String) (metadata : NixImageMetadata) : NixImageStore :=
  { s with metadataCache := s.metadataCache.insert imageId metadata }

inductive Imports (i : ImageImport) : NixImageStore × Except BlixardError NixImageMetadata → Prop
  | failed {e} (hprepare : s.prepare h i = .error e) : Imports i (s, .error e)
  | unstored {metadata e} (hprepare : s.prepare h i = .ok metadata) (hstored : i.stored = .error e) :
    Imports i (s.withMetadata metadata.id metadata, .error e)
  | imported {metadata} (hprepare : s.prepare h i = .ok metadata) (hstored : i.stored = .ok ()) :
    Imports i ((s.withMetadata metadata.id metadata).updateChunkIndex metadata, .ok metadata)

theorem imports_importNixPaths (i : ImageImport) : s.Imports h i (s.importNixPaths h i) := by
  unfold importNixPaths
  cases hp : s.prepare h i with
  | error e => exact .failed hp
  | ok metadata =>
    unfold storeMetadata
    rcases hs : i.stored with e | ⟨⟩
    · exact .unstored hp hs
    · exact .imported hp hs

variable {h s}

variable {cs : List ChunkMetadata} {metadata : NixImageMetadata}

theorem prepare_ok {i : ImageImport} (hp : s.prepare h i = .ok metadata) :
    chunkPaths h i.source.paths = .ok metadata.chunkHashes ∧
      metadata.id = uploadChunks h (s.deduplicateChunks metadata.chunkHashes).1 := by
  unfold prepare at hp
  rcases hc : chunkPaths h i.source.paths with e | chunks
  · rw [hc] at hp
    cases hp
  rw [hc] at hp
  rcases hnar : i.narHash with e | narHash
  · rw [hnar] at hp
    cases hp
  · rw [hnar] at hp
    cases hp
    exact ⟨rfl, rfl⟩

theorem length_hash_of_chunkFrom {reads : List (Except BlixardError Bytes)} {offset : ℕ}
    (hc : chunkFrom h offset reads = .ok cs) : ∀ c ∈ cs, c.hash.length = h.width := by
  induction reads generalizing offset cs with
  | nil =>
    cases hc
    nofun
  | cons read reads ih =>
    rcases read with e | data
    · cases hc
    rw [chunkFrom] at hc
    split_ifs at hc
    · cases hc
      nofun
    rcases hrest : chunkFrom h (offset + data.length) reads with e | rest
    · rw [hrest] at hc
      cases hc
    · rw [hrest] at hc
      cases hc
      exact forall_mem_cons.2 ⟨h.length_hashData data, ih hrest⟩

theorem length_hash_of_chunkPaths {paths : List PathAnswers}
    (hc : chunkPaths h paths = .ok cs) : ∀ c ∈ cs, c.hash.length = h.width := by
  induction paths generalizing cs with
  | nil =>
    cases hc
    nofun
  | cons path paths ih =>
    unfold chunkPaths at hc
    rcases hm : path.metadata with e | ⟨⟩ <;> rw [hm] at hc
    · cases hc
    rcases hfile : chunkFile h path.reads with e | first <;> rw [hfile] at hc
    · cases hc
    rcases hrest : chunkPaths h paths with e | rest <;> rw [hrest] at hc
    · cases hc
    · cases hc
      exact forall_mem_append.2 ⟨length_hash_of_chunkFrom hfile, ih hrest⟩

/-! ## The index -/

theorem mem_deduplicateChunks {c : ChunkMetadata} :
    c ∈ (s.deduplicateChunks cs).1 ↔ c ∈ cs ∧ c.hash ∉ s.chunkIndex := by
  rw [deduplicateChunks, mem_filter, Bool.not_eq_true', ← Bool.not_eq_true,
    Std.ExtTreeMap.contains_iff_mem]

theorem get_indexChunk (img : String) (index : Table String ChunkLocation)
    (chunk : ChunkMetadata) (hash : String) : (indexChunk img index chunk)[hash]? =
      if chunk.hash = hash then
        some { index[hash]?.getD ⟨∅, none⟩ with
          imageIds := insert img (index[hash]?.getD ⟨∅, none⟩).imageIds }
      else index[hash]? := by
  rw [indexChunk, get_insert]
  split_ifs with heq
  · rw [heq]
  · rfl

theorem get_updateChunkIndex (metadata : NixImageMetadata) (hash : String) :
    (s.updateChunkIndex metadata).chunkIndex[hash]? =
      if hash ∈ metadata.chunkHashes.map (·.hash) then
        some { s.chunkIndex[hash]?.getD ⟨∅, none⟩ with
          imageIds := insert metadata.id (s.chunkIndex[hash]?.getD ⟨∅, none⟩).imageIds }
      else s.chunkIndex[hash]? := by
  unfold updateChunkIndex
  dsimp only
  generalize s.chunkIndex = index
  induction metadata.chunkHashes generalizing index with
  | nil => rfl
  | cons c chunks ih =>
    rw [foldl_cons, ih, get_indexChunk, map_cons]
    by_cases hf : c.hash = hash
    · simp [hf]
    · simp [hf, Ne.symm hf]

theorem mem_updateChunkIndex {hash : String} : hash ∈ (s.updateChunkIndex metadata).chunkIndex ↔
      hash ∈ metadata.chunkHashes.map (·.hash) ∨ hash ∈ s.chunkIndex := by
  rw [mem_iff, mem_iff, get_updateChunkIndex]
  split_ifs with hl <;> simp [hl]

end NixImageStore

end Blixard
