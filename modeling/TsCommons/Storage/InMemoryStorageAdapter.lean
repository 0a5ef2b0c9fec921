import TsCommons.Foundations.InsertionMap
import TsCommons.Foundations.Utf8
import Mathlib.Data.Rat.Defs
import Mathlib.Data.List.Sort
import Mathlib.Algebra.Order.Ring.Unbundled.Rat

/-!
# The in-memory storage adapter

Objects are kept under one key made of bucket and key, and multipart uploads
under their ids until they are completed or aborted.  The random ids and the
time of a change are inputs.
-/

namespace TsCommons.Storage

open Foundations

inductive StorageObjectBody
  | buffer (bytes : Bytes)
  | text (units : CodeUnits)
deriving DecidableEq

def toBuffer : StorageObjectBody → Bytes
  | .buffer bytes => bytes
  | .text units => Utf8.encode units

structure UploadOptions where
  contentType : Option String
  customMetadata : Option (List (String × String))
deriving DecidableEq

structure StorageObjectMetadata where
  key : String
  bucket : String
  size : ℕ
  contentType : String
  lastModified : ℤ
  etag : Option String
  customMetadata : Option (List (String × String))
deriving DecidableEq

/-- An inclusive range. -/
structure DownloadOptions where
  range : Option (ℕ × ℕ)

structure ListObjectsOptions where
  keyPrefix : Option String
  maxKeys : Option ℕ

structure ListObjectsResult where
  objects : List StorageObjectMetadata
  isTruncated : Bool
deriving DecidableEq

structure MultipartUploadInfo where
  uploadId : String
  key : String
  bucket : String
deriving DecidableEq

abbrev PartNumber := ℚ

structure MultipartPart where
  partNumber : PartNumber
  etag : String
deriving DecidableEq

structure StorageNotFoundError where
  bucket : String
  key : String
deriving DecidableEq

def StorageNotFoundError.message (error : StorageNotFoundError) : String :=
  "Object not found: " ++ error.bucket ++ "/" ++ error.key

structure StoredObject where
  body : Bytes
  metadata : StorageObjectMetadata
deriving DecidableEq

structure MultipartEntry where
  info : MultipartUploadInfo
  parts : InsertionMap PartNumber Bytes
  options : Option UploadOptions
deriving DecidableEq

/-- The time and the random id of a stored object. -/
structure Stamp where
  lastModified : ℤ
  etag : String
deriving DecidableEq

def buildMetadata (bucket key : String) (size : ℕ)
    (options : Option UploadOptions) (stamp : Stamp) :
    StorageObjectMetadata where
  key := key
  bucket := bucket
  size := size
  contentType := (options.bind UploadOptions.contentType).getD
    "application/octet-stream"
  lastModified := stamp.lastModified
  etag := some stamp.etag
  customMetadata := options.bind UploadOptions.customMetadata

def sortParts (parts : List MultipartPart) : List MultipartPart :=
  parts.mergeSort fun first second => first.partNumber ≤ second.partNumber

/-- A part that is not there counts as an empty one. -/
def mergeMultipartParts (parts : List MultipartPart)
    (buffers : InsertionMap PartNumber Bytes) : Bytes :=
  ((sortParts parts).map fun part =>
    (buffers.get part.partNumber).getD []).flatten

structure InMemoryStorageAdapter where
  objects : InsertionMap String StoredObject
  multiparts : InsertionMap String MultipartEntry
deriving DecidableEq

namespace InMemoryStorageAdapter

def empty : InMemoryStorageAdapter := ⟨.empty, .empty⟩

def storeKey (bucket key : String) : String := bucket ++ "\x00" ++ key

def upload (adapter : InMemoryStorageAdapter) (bucket key : String)
    (body : StorageObjectBody) (options : Option UploadOptions)
    (stamp : Stamp) : InMemoryStorageAdapter × StorageObjectMetadata :=
  let buffer := toBuffer body
  let metadata := buildMetadata bucket key buffer.length options stamp
  ({ adapter with
    objects := adapter.objects.set (storeKey bucket key) ⟨buffer, metadata⟩ },
    metadata)

def download (adapter : InMemoryStorageAdapter) (bucket key : String)
    (options : Option DownloadOptions) : Except StorageNotFoundError Bytes :=
  match adapter.objects.get (storeKey bucket key) with
  | none => .error ⟨bucket, key⟩
  | some entry =>
      match options.bind DownloadOptions.range with
      | none => .ok entry.body
      | some (start, stop) => .ok ((entry.body.take (stop + 1)).drop start)

def delete (adapter : InMemoryStorageAdapter) (bucket key : String) :
    InMemoryStorageAdapter :=
  { adapter with objects := adapter.objects.delete (storeKey bucket key) }

def «exists» (adapter : InMemoryStorageAdapter) (bucket key : String) : Bool :=
  adapter.objects.has (storeKey bucket key)

def getMetadata (adapter : InMemoryStorageAdapter) (bucket key : String) :
    Except StorageNotFoundError StorageObjectMetadata :=
  match adapter.objects.get (storeKey bucket key) with
  | none => .error ⟨bucket, key⟩
  | some entry => .ok entry.metadata

def listObjects (adapter : InMemoryStorageAdapter) (bucket : String)
    (options : ListObjectsOptions) : ListObjectsResult :=
  let keyPrefix := options.keyPrefix.getD ""
  let maxKeys := options.maxKeys.getD 1000
  let start := bucket ++ "\x00" ++ keyPrefix
  let all := adapter.objects.entries.filterMap fun entry =>
    if start.toList.isPrefixOf entry.1.toList then some entry.2.metadata
    else none
  ⟨all.take maxKeys, maxKeys < all.length⟩

def initiateMultipartUpload (adapter : InMemoryStorageAdapter)
    (bucket key : String) (options : Option UploadOptions)
    (uploadId : String) : InMemoryStorageAdapter × MultipartUploadInfo :=
  let info : MultipartUploadInfo := ⟨uploadId, key, bucket⟩
  ({ adapter with
    multiparts := adapter.multiparts.set uploadId ⟨info, .empty, options⟩ },
    info)

def uploadPart (adapter : InMemoryStorageAdapter) (bucket key : String)
    (uploadId : String) (partNumber : PartNumber) (body : Bytes)
    (etag : String) :
    InMemoryStorageAdapter × Except StorageNotFoundError MultipartPart :=
  match adapter.multiparts.get uploadId with
  | none => (adapter, .error ⟨bucket, key⟩)
  | some entry =>
      ({ adapter with
        multiparts := adapter.multiparts.set uploadId
          { entry with parts := entry.parts.set partNumber body } },
        .ok ⟨partNumber, etag⟩)

def completeMultipartUpload (adapter : InMemoryStorageAdapter)
    (bucket key : String) (uploadId : String) (parts : List MultipartPart)
    (stamp : Stamp) : InMemoryStorageAdapter ×
      Except StorageNotFoundError StorageObjectMetadata :=
  match adapter.multiparts.get uploadId with
  | none => (adapter, .error ⟨bucket, key⟩)
  | some entry =>
      let merged := mergeMultipartParts parts entry.parts
      let metadata :=
        buildMetadata bucket key merged.length entry.options stamp
      ({ objects :=
          adapter.objects.set (storeKey bucket key) ⟨merged, metadata⟩
         multiparts := adapter.multiparts.delete uploadId }, .ok metadata)

def abortMultipartUpload (adapter : InMemoryStorageAdapter)
    (uploadId : String) : InMemoryStorageAdapter :=
  { adapter with multiparts := adapter.multiparts.delete uploadId }

def clear : InMemoryStorageAdapter := empty

def getObjectCount (adapter : InMemoryStorageAdapter) : ℕ :=
  adapter.objects.size

end InMemoryStorageAdapter

/-! ## The order of the parts -/

variable {parts : List MultipartPart} {buffers : InsertionMap PartNumber Bytes}

theorem perm_sortParts (parts : List MultipartPart) :
    (sortParts parts).Perm parts :=
  List.mergeSort_perm parts _

theorem pairwise_sortParts
    (hdistinct : (parts.map MultipartPart.partNumber).Nodup) :
    (sortParts parts).Pairwise fun first second =>
      first.partNumber < second.partNumber := by
  have hle : (sortParts parts).Pairwise fun first second =>
      decide (first.partNumber ≤ second.partNumber) = true := by
    apply List.pairwise_mergeSort
    · intro first second third hfirst hsecond
      simp only [decide_eq_true_eq] at hfirst hsecond ⊢
      exact hfirst.trans hsecond
    · intro first second
      simpa using le_total first.partNumber second.partNumber
  have hne : (sortParts parts).Pairwise fun first second =>
      first.partNumber ≠ second.partNumber := by
    have hsorted := ((perm_sortParts parts).map
      MultipartPart.partNumber).nodup_iff.mpr hdistinct
    exact List.pairwise_map.mp hsorted
  refine (hle.and hne).imp fun hboth => ?_
  exact lt_of_le_of_ne (of_decide_eq_true hboth.1) hboth.2

/-- The bodies of parts that are all there, in their order. -/
theorem exists_chunks
    (hdistinct : (parts.map MultipartPart.partNumber).Nodup)
    (hall : ∀ part ∈ parts, (buffers.get part.partNumber).isSome) :
    ∃ chunks : List (PartNumber × Bytes),
      (chunks.map Prod.fst).Perm (parts.map MultipartPart.partNumber) ∧
      chunks.Pairwise (fun first second => first.1 < second.1) ∧
      (∀ chunk ∈ chunks, buffers.get chunk.1 = some chunk.2) ∧
      mergeMultipartParts parts buffers = (chunks.map Prod.snd).flatten := by
  refine ⟨(sortParts parts).map fun part =>
    (part.partNumber, (buffers.get part.partNumber).getD []), ?_, ?_, ?_, ?_⟩
  · rw [List.map_map]
    exact (perm_sortParts parts).map MultipartPart.partNumber
  · exact List.pairwise_map.mpr (pairwise_sortParts hdistinct)
  · intro chunk hmem
    obtain ⟨part, hpart, rfl⟩ := List.mem_map.mp hmem
    obtain ⟨body, hbody⟩ := Option.isSome_iff_exists.mp
      (hall part ((perm_sortParts parts).mem_iff.mp hpart))
    simp [hbody]
  · rw [List.map_map]
    rfl

end TsCommons.Storage
