import TsCommons.Foundations.PosixPath
import TsCommons.Storage.InMemoryStorageAdapter

/-!
# The local file system storage adapter

A disk maps the normalised absolute paths of its files to their bytes, and
remembers every path that was handed to it.  It holds no directories: whether
one is there is an input.  The times are inputs too.
-/

namespace TsCommons.Storage

open Foundations Foundations.PosixPath

inductive SystemError
  | ENOENT
  | EISDIR
deriving DecidableEq

inductive LocalError
  | notFound (error : StorageNotFoundError)
  | system (error : SystemError)
deriving DecidableEq

structure Disk where
  files : InsertionMap Location Bytes
  accesses : List Text

/-- A path that ends in a slash leads to a directory only. -/
def Disk.file (disk : Disk) (path : Text) : Option Bytes :=
  if endsInSlash path then none else disk.files.get (locate path)

abbrev FileM := ExceptT LocalError (StateM Disk)

namespace FileM

variable {α : Type}

def outcome (action : FileM α) (disk : Disk) : Except LocalError α :=
  (action.run.run disk).1

def after (action : FileM α) (disk : Disk) : Disk := (action.run.run disk).2

def access (paths : List Text) : FileM Unit :=
  modify fun disk => { disk with accesses := disk.accesses ++ paths }

def mkdir (path : Text) : FileM Unit := access [path]

def writeFile (path : Text) (bytes : Bytes) : FileM Unit := do
  access [path]
  if endsInSlash path then
    throw (.system .EISDIR)
  else
    modify fun disk =>
      { disk with files := disk.files.set (locate path) bytes }

def readFile (path : Text) : FileM Bytes := do
  access [path]
  match (← get).file path with
  | none => throw (.system .ENOENT)
  | some bytes => return bytes

/-- Several reads at a time, none of which waits for another. -/
def readFiles (paths : List Text) : FileM (List Bytes) := do
  access paths
  match paths.mapM (← get).file with
  | none => throw (.system .ENOENT)
  | some chunks => return chunks

/-- The size of the file. -/
def stat (path : Text) : FileM ℕ := do
  access [path]
  match (← get).file path with
  | none => throw (.system .ENOENT)
  | some bytes => return bytes.length

/-- With `force`. -/
def rm (path : Text) : FileM Unit := do
  access [path]
  if endsInSlash path then
    throw (.system .EISDIR)
  else
    modify fun disk => { disk with files := disk.files.delete (locate path) }

/-- With `force` and `recursive`. -/
def rmTree (path : Text) : FileM Unit := do
  access [path]
  modify fun disk => { disk with
    files := disk.files.filter fun location _ =>
      !(locate path).isPrefixOf location }

/-- The files below the directory, by their paths from there. -/
def readdir (path : Text) : FileM (List Text) := do
  access [path]
  let below := (← get).files.keys.filter fun location =>
    (locate path).isPrefixOf location && location ≠ locate path
  return below.map fun location =>
    ['/'].intercalate ((location.drop (locate path).length).map Name.text)

end FileM

open FileM

structure LocalStorageAdapter where
  basePath : Text
  absolute : isAbsolute basePath = true

def ctPath (filePath : Text) : Text := filePath ++ ['.', 'c', 't']

def pathExists (path : Text) : FileM Bool := do
  try
    let _ ← stat path
    return true
  catch _ => return false

def readContentType (filePath : Text) : FileM String := do
  try
    return String.ofList (Utf8.decodeScalars (← readFile (ctPath filePath)))
  catch _ => return "application/octet-stream"

def buildMeta (bucket key : String) (size : ℕ) (lastModified : ℤ)
    (contentType : String) : StorageObjectMetadata where
  key := key
  bucket := bucket
  size := size
  contentType := contentType
  lastModified := lastModified
  etag := none
  customMetadata := none

namespace LocalStorageAdapter

variable (adapter : LocalStorageAdapter)

def filePath (bucket key : String) : Text :=
  join [adapter.basePath, bucket.toList, key.toList]

def upload (bucket key : String) (body : StorageObjectBody)
    (options : Option UploadOptions) (now : ℤ) :
    FileM StorageObjectMetadata := do
  let path := adapter.filePath bucket key
  mkdir (dirname path)
  let buffer := toBuffer body
  writeFile path buffer
  let contentType := (options.bind UploadOptions.contentType).getD
    "application/octet-stream"
  writeFile (ctPath path) (Utf8.encodeScalars contentType.toList)
  return buildMeta bucket key buffer.length now contentType

def download (bucket key : String) (options : Option DownloadOptions) :
    FileM Bytes := do
  let path := adapter.filePath bucket key
  if ← pathExists path then
    let buffer ← readFile path
    match options.bind DownloadOptions.range with
    | none => return buffer
    | some (start, stop) => return (buffer.take (stop + 1)).drop start
  else
    throw (.notFound ⟨bucket, key⟩)

def delete (bucket key : String) : FileM Unit := do
  let path := adapter.filePath bucket key
  rm path
  rm (ctPath path)

def «exists» (bucket key : String) : FileM Bool :=
  pathExists (adapter.filePath bucket key)

def getMetadata (bucket key : String) (mtime : ℤ) :
    FileM StorageObjectMetadata := do
  let path := adapter.filePath bucket key
  let size ← try stat path catch _ => throw (.notFound ⟨bucket, key⟩)
  let contentType ← readContentType path
  return buildMeta bucket key size mtime contentType

/-- Whether the directory of the bucket is there is `bucketExists`. -/
def listObjects (bucket : String) (options : ListObjectsOptions)
    (bucketExists : Bool) (mtime : Text → ℤ) : FileM ListObjectsResult := do
  let bucketPath := join [adapter.basePath, bucket.toList]
  access [bucketPath]
  if bucketExists then
    let keyPrefix := (options.keyPrefix.getD "").toList
    let maxKeys := options.maxKeys.getD 1000
    let entries ← readdir bucketPath
    let keys := entries.filter fun entry =>
      !(['.', 'c', 't'].isSuffixOf entry) && keyPrefix.isPrefixOf entry
    let objects ← (keys.take maxKeys).mapM fun key =>
      adapter.getMetadata bucket (String.ofList key) (mtime key)
    return ⟨objects, maxKeys < keys.length⟩
  else
    return ⟨[], false⟩

def initiateMultipartUpload (bucket key : String) (uploadId : String) :
    FileM MultipartUploadInfo :=
  return ⟨uploadId, key, bucket⟩

def uploadPath (uploadId : String) : Text :=
  join [adapter.basePath, ".multipart".toList, uploadId.toList]

/-- `String` gives a name for every number. -/
def partPath (numberText : PartNumber → Name) (uploadId : String)
    (partNumber : PartNumber) : Text :=
  join [adapter.basePath, ".multipart".toList, uploadId.toList,
    (numberText partNumber).text]

def uploadPart (numberText : PartNumber → Name) (uploadId : String)
    (partNumber : PartNumber) (body : Bytes) : FileM MultipartPart := do
  let path := adapter.partPath numberText uploadId partNumber
  mkdir (dirname path)
  writeFile path body
  return ⟨partNumber, String.ofList (numberText partNumber).text⟩

def completeMultipartUpload (numberText : PartNumber → Name)
    (bucket key : String) (uploadId : String) (parts : List MultipartPart)
    (now : ℤ) : FileM StorageObjectMetadata := do
  let chunks ← readFiles ((sortParts parts).map fun part =>
    adapter.partPath numberText uploadId part.partNumber)
  rmTree (adapter.uploadPath uploadId)
  adapter.upload bucket key (.buffer chunks.flatten) none now

def abortMultipartUpload (uploadId : String) : FileM Unit :=
  rmTree (adapter.uploadPath uploadId)

/-- Whether the base directory is there is `baseExists`. -/
def checkHealth (baseExists : Bool) : FileM Bool := do
  access [adapter.basePath]
  return baseExists

end LocalStorageAdapter

/-! ## What the calls do to the disk -/

section Calls

open LocalStorageAdapter

variable {α β : Type} {adapter : LocalStorageAdapter} {disk : Disk}
  {path : Text} {bytes : Bytes} {bucket key : String}

theorem FileM.run_bind (action : FileM α) (rest : α → FileM β) (disk : Disk) :
    (action >>= rest).run.run disk =
      match action.run.run disk with
      | (.ok value, next) => (rest value).run.run next
      | (.error error, next) => (.error error, next) := by
  change (match action.run.run disk with
    | (result, next) => (ExceptT.bindCont rest result).run next) = _
  rcases action.run.run disk with ⟨error | value, next⟩
  · rfl
  · rfl

theorem endsInSlash_ctPath (path : Text) :
    endsInSlash (ctPath path) = false := by
  simp [endsInSlash, ctPath]

theorem run_writeFile :
    (writeFile path bytes).run.run disk =
      if endsInSlash path then
        (.error (.system .EISDIR),
          { disk with accesses := disk.accesses ++ [path] })
      else
        (.ok (), { files := disk.files.set (locate path) bytes
                   accesses := disk.accesses ++ [path] }) := by
  cases hslash : endsInSlash path with
  | false =>
      simp only [writeFile, hslash]
      rfl
  | true =>
      simp only [writeFile, hslash]
      rfl

theorem run_rm :
    (rm path).run.run disk =
      if endsInSlash path then
        (.error (.system .EISDIR),
          { disk with accesses := disk.accesses ++ [path] })
      else
        (.ok (), { files := disk.files.delete (locate path)
                   accesses := disk.accesses ++ [path] }) := by
  cases hslash : endsInSlash path with
  | false =>
      simp only [rm, hslash]
      rfl
  | true =>
      simp only [rm, hslash]
      rfl

theorem run_access (paths : List Text) (disk : Disk) :
    (access paths).run.run disk =
      (.ok (), { disk with accesses := disk.accesses ++ paths }) := rfl

theorem run_get (disk : Disk) :
    (get : FileM Disk).run.run disk = (.ok disk, disk) := rfl

theorem run_stat :
    (stat path).run.run disk =
      (match disk.file path with
        | none => .error (.system .ENOENT)
        | some bytes => .ok bytes.length,
        { disk with accesses := disk.accesses ++ [path] }) := by
  have hsame : Disk.file { disk with accesses := disk.accesses ++ [path] }
      path = disk.file path := rfl
  simp only [stat, FileM.run_bind, run_access, run_get, hsame]
  cases disk.file path with
  | none => rfl
  | some bytes => rfl

theorem run_readFile :
    (readFile path).run.run disk =
      (match disk.file path with
        | none => .error (.system .ENOENT)
        | some bytes => .ok bytes,
        { disk with accesses := disk.accesses ++ [path] }) := by
  have hsame : Disk.file { disk with accesses := disk.accesses ++ [path] }
      path = disk.file path := rfl
  simp only [readFile, FileM.run_bind, run_access, run_get, hsame]
  cases disk.file path with
  | none => rfl
  | some bytes => rfl

theorem run_readFiles (paths : List Text) :
    (readFiles paths).run.run disk =
      (match paths.mapM disk.file with
        | none => .error (.system .ENOENT)
        | some chunks => .ok chunks,
        { disk with accesses := disk.accesses ++ paths }) := by
  have hsame : Disk.file { disk with accesses := disk.accesses ++ paths } =
      disk.file := rfl
  simp only [readFiles, FileM.run_bind, run_access, run_get, hsame]
  cases paths.mapM disk.file with
  | none => rfl
  | some chunks => rfl

theorem run_tryCatch (action : FileM α) (handler : LocalError → FileM α)
    (disk : Disk) :
    (tryCatch action handler).run.run disk =
      match action.run.run disk with
      | (.ok value, next) => (.ok value, next)
      | (.error error, next) => (handler error).run.run next := by
  rw [ExceptT.run_tryCatch, StateT.run_bind]
  rcases action.run.run disk with ⟨error | value, next⟩
  · rfl
  · rfl

theorem run_pathExists :
    (pathExists path).run.run disk =
      (.ok (disk.file path).isSome,
        { disk with accesses := disk.accesses ++ [path] }) := by
  simp only [pathExists, run_tryCatch, FileM.run_bind, run_stat]
  cases disk.file path with
  | none => rfl
  | some bytes => rfl

theorem outcome_exists :
    outcome (adapter.exists bucket key) disk =
      .ok (disk.file (adapter.filePath bucket key)).isSome := by
  rw [outcome, «exists», run_pathExists]

theorem run_download (hpath : adapter.filePath bucket key = path)
    (options : Option DownloadOptions) :
    (adapter.download bucket key options).run.run disk =
      match disk.file path with
      | none => (.error (.notFound ⟨bucket, key⟩),
          { disk with accesses := disk.accesses ++ [path] })
      | some buffer =>
          (.ok (match options.bind DownloadOptions.range with
            | none => buffer
            | some (start, stop) => (buffer.take (stop + 1)).drop start),
            { disk with accesses := disk.accesses ++ [path, path] }) := by
  have hsame : Disk.file { disk with accesses := disk.accesses ++ [path] }
      path = disk.file path := rfl
  simp only [download, hpath, FileM.run_bind, run_pathExists]
  cases hfile : disk.file path with
  | none => rfl
  | some buffer =>
      simp only [Option.isSome_some, if_true, FileM.run_bind, run_readFile,
        hsame, hfile, List.append_assoc, List.cons_append, List.nil_append]
      cases options.bind DownloadOptions.range with
      | none => rfl
      | some range => rfl

theorem run_readContentType :
    ∃ contentType, (readContentType path).run.run disk =
      (.ok contentType,
        { disk with accesses := disk.accesses ++ [ctPath path] }) := by
  simp only [readContentType, run_tryCatch, FileM.run_bind, run_readFile]
  cases disk.file (ctPath path) with
  | none => exact ⟨_, rfl⟩
  | some bytes => exact ⟨_, rfl⟩

theorem after_getMetadata (hpath : adapter.filePath bucket key = path)
    (mtime : ℤ) :
    after (adapter.getMetadata bucket key mtime) disk =
      match disk.file path with
      | none => { disk with accesses := disk.accesses ++ [path] }
      | some _ =>
          { disk with accesses := disk.accesses ++ [path, ctPath path] } := by
  simp only [after, getMetadata, hpath, FileM.run_bind, run_tryCatch, run_stat]
  cases disk.file path with
  | none => rfl
  | some bytes =>
      have hread : ∃ contentType, (readContentType path).run.run
          { disk with accesses := disk.accesses ++ [path] } =
            (.ok contentType, { disk with
              accesses := disk.accesses ++ [path] ++ [ctPath path] }) :=
        run_readContentType
      obtain ⟨contentType, hrun⟩ := hread
      simp only [hrun, List.append_assoc, List.cons_append, List.nil_append]
      rfl

theorem after_upload (hpath : adapter.filePath bucket key = path)
    (body : StorageObjectBody) (options : Option UploadOptions) (now : ℤ) :
    after (adapter.upload bucket key body options now) disk =
      if endsInSlash path then
        { disk with accesses := disk.accesses ++ [dirname path, path] }
      else
        { files := (disk.files.set (locate path) (toBuffer body)).set
            (locate (ctPath path)) (Utf8.encodeScalars
              ((options.bind UploadOptions.contentType).getD
                "application/octet-stream").toList)
          accesses := disk.accesses ++
            [dirname path, path, ctPath path] } := by
  simp only [after, upload, hpath, FileM.run_bind, mkdir, run_access,
    run_writeFile, endsInSlash_ctPath]
  cases endsInSlash path with
  | false =>
      simp only [Bool.false_eq_true, if_false, List.append_assoc,
        List.cons_append, List.nil_append]
      rfl
  | true => simp

theorem after_delete (hpath : adapter.filePath bucket key = path) :
    after (adapter.delete bucket key) disk =
      if endsInSlash path then
        { disk with accesses := disk.accesses ++ [path] }
      else
        { files := (disk.files.delete (locate path)).delete
            (locate (ctPath path))
          accesses := disk.accesses ++ [path, ctPath path] } := by
  simp only [after, delete, hpath, FileM.run_bind, run_rm,
    endsInSlash_ctPath]
  cases endsInSlash path with
  | false => simp
  | true => rfl

theorem accesses_rmTree :
    (after (rmTree path) disk).accesses = disk.accesses ++ [path] := rfl

theorem accesses_uploadPart {numberText : PartNumber → Name}
    {uploadId : String} {partNumber : PartNumber}
    (hpath : adapter.partPath numberText uploadId partNumber = path) :
    (after (adapter.uploadPart numberText uploadId partNumber bytes)
      disk).accesses = disk.accesses ++ [dirname path, path] := by
  simp only [after, uploadPart, hpath, FileM.run_bind, mkdir, run_access,
    run_writeFile]
  cases endsInSlash path with
  | false =>
      simp only [Bool.false_eq_true, if_false, List.append_assoc,
        List.cons_append, List.nil_append]
      rfl
  | true => simp

end Calls

end TsCommons.Storage
