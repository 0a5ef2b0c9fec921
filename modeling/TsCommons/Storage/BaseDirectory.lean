import TsCommons.Storage.ObjectsApart

/-!
# Calls that stay below the base directory

The paths of a call are built from segments that are appended to the base
directory.  All of them lead below it exactly when the segments descend again
whatever they climb above it; a call that also touches the directory or the
side file of an object has to stay below the base with one segment less.
-/

namespace TsCommons.Storage

open Foundations Foundations.PosixPath FileM LocalStorageAdapter

/-- What the action touches has the property if what was touched before it
has. -/
def Confined {α : Type} (P : Text → Prop) (action : FileM α) : Prop :=
  ∀ disk, (∀ path ∈ disk.accesses, P path) →
    ∀ path ∈ (after action disk).accesses, P path

inductive Operation
  | upload (bucket key : String) (body : StorageObjectBody)
      (options : Option UploadOptions) (now : ℤ)
  | download (bucket key : String) (options : Option DownloadOptions)
  | delete (bucket key : String)
  | «exists» (bucket key : String)
  | getMetadata (bucket key : String) (mtime : ℤ)
  | listObjects (bucket : String) (options : ListObjectsOptions)
      (bucketExists : Bool) (mtime : Text → ℤ)
  | initiateMultipartUpload (bucket key : String) (uploadId : String)
  | uploadPart (uploadId : String) (partNumber : PartNumber) (body : Bytes)
  | completeMultipartUpload (bucket key : String) (uploadId : String)
      (parts : List MultipartPart) (now : ℤ)
  | abortMultipartUpload (uploadId : String)
  | checkHealth (baseExists : Bool)

/-- Inside the base directory, or the base directory itself. -/
def Within (adapter : LocalStorageAdapter) (path : Text) : Prop :=
  locate adapter.basePath <+: locate path

def Operation.StaysInside (adapter : LocalStorageAdapter)
    (numberText : PartNumber → Name) : Operation → Prop
  | .upload bucket key body options now =>
      Confined (Within adapter) (adapter.upload bucket key body options now)
  | .download bucket key options =>
      Confined (Within adapter) (adapter.download bucket key options)
  | .delete bucket key =>
      Confined (Within adapter) (adapter.delete bucket key)
  | .exists bucket key =>
      Confined (Within adapter) (adapter.exists bucket key)
  | .getMetadata bucket key mtime =>
      Confined (Within adapter) (adapter.getMetadata bucket key mtime)
  | .listObjects bucket options bucketExists mtime =>
      Confined (Within adapter)
        (adapter.listObjects bucket options bucketExists mtime)
  | .initiateMultipartUpload bucket key uploadId =>
      Confined (Within adapter)
        (LocalStorageAdapter.initiateMultipartUpload bucket key uploadId)
  | .uploadPart uploadId partNumber body =>
      Confined (Within adapter)
        (adapter.uploadPart numberText uploadId partNumber body)
  | .completeMultipartUpload bucket key uploadId parts now =>
      Confined (Within adapter)
        (adapter.completeMultipartUpload numberText bucket key uploadId parts
          now)
  | .abortMultipartUpload uploadId =>
      Confined (Within adapter) (adapter.abortMultipartUpload uploadId)
  | .checkHealth baseExists =>
      Confined (Within adapter) (adapter.checkHealth baseExists)

def names (bucket key : String) : List Text :=
  segments bucket.toList ++ segments key.toList

def uploadNames (uploadId : String) : List Text :=
  segments ".multipart".toList ++ segments uploadId.toList

/-- The segments of the operation stay below the base directory, and those of
the directory and the side file of an object that it touches. -/
def Operation.SegmentsBelow (adapter : LocalStorageAdapter) :
    Operation → Prop
  | .upload bucket key _ _ _ =>
      StaysBelow (locate adapter.basePath) (names bucket key ++ [up])
  | .download bucket key _ | .exists bucket key =>
      StaysBelow (locate adapter.basePath) (names bucket key)
  | .delete bucket key | .getMetadata bucket key _ =>
      StaysBelow (locate adapter.basePath)
        (if endsInSlash (adapter.filePath bucket key) then names bucket key
          else names bucket key ++ [up])
  | .listObjects bucket _ _ _ =>
      StaysBelow (locate adapter.basePath) (segments bucket.toList)
  | .initiateMultipartUpload _ _ _ | .checkHealth _ => True
  | .uploadPart uploadId _ _ | .abortMultipartUpload uploadId =>
      StaysBelow (locate adapter.basePath) (uploadNames uploadId)
  | .completeMultipartUpload bucket key uploadId _ _ =>
      StaysBelow (locate adapter.basePath) (uploadNames uploadId) ∧
        StaysBelow (locate adapter.basePath) (names bucket key ++ [up])

variable {α β : Type} {P : Text → Prop} {adapter : LocalStorageAdapter}
  {numberText : PartNumber → Name} {disk : Disk} {path : Text}
  {bucket key uploadId : String}

/-! ## Where the paths lead -/

theorem locate_filePath (adapter : LocalStorageAdapter)
    (bucket key : String) :
    locate (adapter.filePath bucket key) =
      walk (locate adapter.basePath) (names bucket key) := by
  rw [filePath, locate_join _ adapter.absolute, names]
  simp

theorem locate_uploadPath (adapter : LocalStorageAdapter)
    (uploadId : String) :
    locate (adapter.uploadPath uploadId) =
      walk (locate adapter.basePath) (uploadNames uploadId) := by
  rw [uploadPath, locate_join _ adapter.absolute, uploadNames]
  simp

theorem locate_partPath (adapter : LocalStorageAdapter)
    (numberText : PartNumber → Name) (uploadId : String)
    (partNumber : PartNumber) :
    locate (adapter.partPath numberText uploadId partNumber) =
      locate (adapter.uploadPath uploadId) ++ [numberText partNumber] := by
  have hnames : [".multipart".toList, uploadId.toList,
      (numberText partNumber).text].flatMap segments =
        uploadNames uploadId ++ segments (numberText partNumber).text := by
    simp [uploadNames]
  rw [partPath, locate_join _ adapter.absolute, hnames, walk_append,
    walk_name, locate_uploadPath]

theorem walk_concat_up (location : Location) (texts : List Text) :
    walk location (texts ++ [up]) = (walk location texts).dropLast := by
  rw [walk_append]
  exact enter_up _

theorem within_filePath_iff :
    Within adapter (adapter.filePath bucket key) ↔
      StaysBelow (locate adapter.basePath) (names bucket key) := by
  rw [Within, locate_filePath, prefix_walk_iff]

theorem isNormal_filePath : IsNormal (adapter.filePath bucket key) :=
  isNormal_join _ adapter.absolute

theorem within_dirname_iff :
    Within adapter (dirname (adapter.filePath bucket key)) ↔
      StaysBelow (locate adapter.basePath) (names bucket key ++ [up]) := by
  rw [Within, isNormal_filePath.locate_dirname, locate_filePath,
    ← walk_concat_up, prefix_walk_iff]

theorem within_uploadPath_iff :
    Within adapter (adapter.uploadPath uploadId) ↔
      StaysBelow (locate adapter.basePath) (uploadNames uploadId) := by
  rw [Within, locate_uploadPath, prefix_walk_iff]

theorem Within.of_dirname (hnormal : IsNormal path)
    (hwithin : Within adapter (dirname path)) : Within adapter path := by
  rw [Within, hnormal.locate_dirname] at hwithin
  exact hwithin.trans (List.dropLast_prefix _)

/-- The extension of a side file. -/
def ct : Name := ⟨['.', 'c', 't'], by decide⟩

theorem locate_ctPath (hnormal : IsNormal path) :
    endsInSlash path = true ∧ locate (ctPath path) = locate path ++ [ct] ∨
      endsInSlash path = false ∧ ∃ above first second,
        second.text = ctPath first.text ∧
        locate path = above ++ [first] ∧
        locate (ctPath path) = above ++ [second] := by
  have hchar : ∃ char ∈ ct.text, char ≠ '.' := ⟨'c', by decide, by decide⟩
  rcases hnormal.locate_append hchar with
    ⟨hslash, hlocate⟩ | ⟨hslash, above, name, hpath, hct⟩
  · exact .inl ⟨hslash, hlocate⟩
  · exact .inr ⟨hslash, above, name, _, rfl, hpath, hct⟩

theorem within_ctPath (hnormal : IsNormal path)
    (hwithin : Within adapter (dirname path)) :
    Within adapter (ctPath path) := by
  have hpath := hwithin.of_dirname hnormal
  rw [Within, hnormal.locate_dirname] at hwithin
  rcases locate_ctPath hnormal with
    ⟨-, hlocate⟩ | ⟨-, above, first, second, -, hfirst, hsecond⟩
  · rw [Within, hlocate]
    exact hpath.trans (List.prefix_append _ _)
  · rw [hfirst, List.dropLast_concat] at hwithin
    rw [Within, hsecond]
    exact hwithin.trans (List.prefix_append _ _)

theorem within_dirname_of_ctPath (hnormal : IsNormal path)
    (hslash : endsInSlash path = false) (hwithin : Within adapter path)
    (hct : Within adapter (ctPath path)) :
    Within adapter (dirname path) := by
  rw [Within] at hwithin hct
  rw [Within, hnormal.locate_dirname]
  rcases locate_ctPath hnormal with
    ⟨hends, -⟩ | ⟨-, above, first, second, htext, hfirst, hsecond⟩
  · rw [hslash] at hends
    cases hends
  · rw [hfirst, List.prefix_concat_iff] at hwithin
    rw [hfirst, List.dropLast_concat]
    rcases hwithin with heq | hwithin
    · rw [heq, hsecond, List.prefix_append_right_inj] at hct
      have hsame : first = second := by simpa using hct
      have hlength := congrArg List.length htext
      simp [hsame, ctPath] at hlength
    · exact hwithin

/-- Objects with plain names are kept apart unless one has the name of the
side file of the other one. -/
theorem keepsApart_of_isName {bucket' key' : String}
    (hbucket : IsName bucket.toList) (hkey : IsName key.toList)
    (hbucket' : IsName bucket'.toList) (hkey' : IsName key'.toList)
    (hobject : bucket ≠ bucket' ∨ key ≠ key')
    (hside : bucket ≠ bucket' ∨ key'.toList ≠ ctPath key.toList) :
    KeepsApart adapter bucket key bucket' key' := by
  have hlocate {bucket key : String} (hbucket : IsName bucket.toList)
      (hkey : IsName key.toList) :
      locate (adapter.filePath bucket key) =
        locate adapter.basePath ++ [⟨_, hbucket⟩] ++ [⟨_, hkey⟩] := by
    rw [locate_filePath, names, walk_append, walk_name _ ⟨_, hbucket⟩,
      walk_name _ ⟨_, hkey⟩]
  rw [keepsApart_iff_apartPaths]
  rcases locate_ctPath isNormal_filePath with
    ⟨hslash, -⟩ | ⟨-, above, first, second, htext, hfirst, hsecond⟩
  · exact .inl hslash
  · rw [hlocate hbucket hkey] at hfirst
    obtain ⟨rfl, hname⟩ := List.append_inj' hfirst rfl
    rw [List.singleton_inj] at hname
    subst hname
    refine .inr (.inr ⟨?_, ?_⟩)
    · rw [hlocate hbucket hkey, hlocate hbucket' hkey']
      intro heq
      obtain ⟨hbuckets, hkeys⟩ := List.append_inj' heq rfl
      have hsameBucket : bucket' = bucket := by
        simpa [String.toList_inj] using hbuckets
      have hsameKey : key' = key := by
        simpa [String.toList_inj] using hkeys
      exact hobject.elim (fun hne => hne hsameBucket.symm)
        fun hne => hne hsameKey.symm
    · rw [hsecond, hlocate hbucket' hkey']
      intro heq
      obtain ⟨hbuckets, hkeys⟩ := List.append_inj' heq rfl
      have hsameBucket : bucket' = bucket := by
        simpa [String.toList_inj] using hbuckets
      rw [List.singleton_inj] at hkeys
      rw [← hkeys] at htext
      exact hside.elim (fun hne => hne hsameBucket.symm) fun hne => hne htext

/-! ## What the calls touch -/

theorem confined_iff {action : FileM α}
    {paths : InsertionMap Location Bytes → List Text}
    (haccesses : ∀ files accesses, (after action ⟨files, accesses⟩).accesses =
      accesses ++ paths files) :
    Confined P action ↔ ∀ files, ∀ path ∈ paths files, P path := by
  constructor
  · intro hconfined files path hmem
    apply hconfined ⟨files, []⟩ (List.forall_mem_nil _)
    rw [haccesses]
    exact List.mem_append_right _ hmem
  · intro hall disk hbefore path hmem
    rw [haccesses] at hmem
    exact (List.mem_append.mp hmem).elim (hbefore path)
      (hall disk.files path)

theorem confined_iff_of_const {action : FileM α} {paths : List Text}
    (haccesses : ∀ files accesses, (after action ⟨files, accesses⟩).accesses =
      accesses ++ paths) :
    Confined P action ↔ ∀ path ∈ paths, P path := by
  rw [confined_iff haccesses]
  exact ⟨fun hall => hall .empty, fun hall _ => hall⟩

/-- The directory, the object and its side file. -/
def uploadTouches (path : Text) : List Text :=
  dirname path :: path :: if endsInSlash path then [] else [ctPath path]

theorem accesses_upload (body : StorageObjectBody)
    (options : Option UploadOptions) (now : ℤ) :
    (after (adapter.upload bucket key body options now) disk).accesses =
      disk.accesses ++ uploadTouches (adapter.filePath bucket key) := by
  rw [after_upload rfl, uploadTouches]
  split <;> rfl

theorem within_uploadTouches_iff :
    (∀ path ∈ uploadTouches (adapter.filePath bucket key),
        Within adapter path) ↔
      StaysBelow (locate adapter.basePath) (names bucket key ++ [up]) := by
  rw [← within_dirname_iff]
  constructor
  · intro hall
    exact hall _ List.mem_cons_self
  · intro hwithin
    refine List.forall_mem_cons.mpr ⟨hwithin, List.forall_mem_cons.mpr
      ⟨hwithin.of_dirname isNormal_filePath, ?_⟩⟩
    split
    · exact List.forall_mem_nil _
    · exact List.forall_mem_singleton.mpr
        (within_ctPath isNormal_filePath hwithin)

theorem confined_upload_iff (body : StorageObjectBody)
    (options : Option UploadOptions) (now : ℤ) :
    Confined (Within adapter)
        (adapter.upload bucket key body options now) ↔
      StaysBelow (locate adapter.basePath) (names bucket key ++ [up]) := by
  rw [confined_iff_of_const fun _ _ => accesses_upload body options now,
    within_uploadTouches_iff]

/-- The path of an object and that of its side file. -/
theorem within_object_iff :
    Within adapter (adapter.filePath bucket key) ∧
        (endsInSlash (adapter.filePath bucket key) = false →
          Within adapter (ctPath (adapter.filePath bucket key))) ↔
      StaysBelow (locate adapter.basePath)
        (if endsInSlash (adapter.filePath bucket key) then names bucket key
          else names bucket key ++ [up]) := by
  cases hslash : endsInSlash (adapter.filePath bucket key) with
  | true => simp [within_filePath_iff]
  | false =>
      simp only [Bool.false_eq_true, if_false, true_imp_iff,
        ← within_dirname_iff]
      constructor
      · rintro ⟨hwithin, hct⟩
        exact within_dirname_of_ctPath isNormal_filePath hslash hwithin hct
      · intro hwithin
        exact ⟨hwithin.of_dirname isNormal_filePath,
          within_ctPath isNormal_filePath hwithin⟩

theorem confined_delete_iff :
    Confined (Within adapter) (adapter.delete bucket key) ↔
      StaysBelow (locate adapter.basePath)
        (if endsInSlash (adapter.filePath bucket key) then names bucket key
          else names bucket key ++ [up]) := by
  have haccesses (files : InsertionMap Location Bytes)
      (accesses : List Text) :
      (after (adapter.delete bucket key) ⟨files, accesses⟩).accesses =
        accesses ++ (adapter.filePath bucket key ::
          if endsInSlash (adapter.filePath bucket key) then []
          else [ctPath (adapter.filePath bucket key)]) := by
    rw [after_delete rfl]
    split <;> rfl
  rw [confined_iff_of_const haccesses, ← within_object_iff]
  cases endsInSlash (adapter.filePath bucket key) with
  | true => simp
  | false => simp

theorem confined_exists_iff :
    Confined (Within adapter) (adapter.exists bucket key) ↔
      StaysBelow (locate adapter.basePath) (names bucket key) := by
  have haccesses (files : InsertionMap Location Bytes)
      (accesses : List Text) :
      (after (adapter.exists bucket key) ⟨files, accesses⟩).accesses =
        accesses ++ [adapter.filePath bucket key] := by
    rw [after, «exists», run_pathExists]
  rw [confined_iff_of_const haccesses, ← within_filePath_iff]
  simp

theorem confined_download_iff (options : Option DownloadOptions) :
    Confined (Within adapter) (adapter.download bucket key options) ↔
      StaysBelow (locate adapter.basePath) (names bucket key) := by
  have haccesses (files : InsertionMap Location Bytes)
      (accesses : List Text) :
      (after (adapter.download bucket key options)
        ⟨files, accesses⟩).accesses =
        accesses ++ (adapter.filePath bucket key ::
          if (Disk.file ⟨files, []⟩ (adapter.filePath bucket key)).isSome
          then [adapter.filePath bucket key] else []) := by
    have hsame : Disk.file ⟨files, accesses⟩ (adapter.filePath bucket key) =
        Disk.file ⟨files, []⟩ (adapter.filePath bucket key) := rfl
    rw [after, run_download rfl, hsame]
    split <;> simp [*]
  rw [confined_iff haccesses, ← within_filePath_iff]
  constructor
  · intro hall
    exact hall .empty _ List.mem_cons_self
  · intro hwithin files
    refine List.forall_mem_cons.mpr ⟨hwithin, ?_⟩
    split
    · exact List.forall_mem_singleton.mpr hwithin
    · exact List.forall_mem_nil _

theorem file_set_self (hslash : endsInSlash path = false) (bytes : Bytes) :
    Disk.file ⟨InsertionMap.empty.set (locate path) bytes, []⟩ path =
      some bytes := by
  simp [Disk.file, hslash]

theorem confined_getMetadata_iff (mtime : ℤ) :
    Confined (Within adapter) (adapter.getMetadata bucket key mtime) ↔
      StaysBelow (locate adapter.basePath)
        (if endsInSlash (adapter.filePath bucket key) then names bucket key
          else names bucket key ++ [up]) := by
  have haccesses (files : InsertionMap Location Bytes)
      (accesses : List Text) :
      (after (adapter.getMetadata bucket key mtime)
        ⟨files, accesses⟩).accesses =
        accesses ++ (adapter.filePath bucket key ::
          if (Disk.file ⟨files, []⟩ (adapter.filePath bucket key)).isSome
          then [ctPath (adapter.filePath bucket key)] else []) := by
    have hsame : Disk.file ⟨files, accesses⟩ (adapter.filePath bucket key) =
        Disk.file ⟨files, []⟩ (adapter.filePath bucket key) := rfl
    rw [after_getMetadata rfl, hsame]
    split <;> simp [*]
  rw [confined_iff haccesses, ← within_object_iff]
  constructor
  · intro hall
    refine ⟨hall .empty _ List.mem_cons_self, fun hslash => ?_⟩
    have hmem := hall (InsertionMap.empty.set
      (locate (adapter.filePath bucket key)) []) (ctPath
        (adapter.filePath bucket key))
    rw [file_set_self hslash] at hmem
    exact hmem (by simp)
  · rintro ⟨hwithin, hct⟩ files
    refine List.forall_mem_cons.mpr ⟨hwithin, ?_⟩
    split
    · rename_i hfile
      cases hslash : endsInSlash (adapter.filePath bucket key) with
      | true => simp [Disk.file, hslash] at hfile
      | false => exact List.forall_mem_singleton.mpr (hct hslash)
    · exact List.forall_mem_nil _

theorem locate_dirname_partPath (partNumber : PartNumber) :
    locate (dirname (adapter.partPath numberText uploadId partNumber)) =
      locate (adapter.uploadPath uploadId) := by
  have hnormal : IsNormal
      (adapter.partPath numberText uploadId partNumber) :=
    isNormal_join _ adapter.absolute
  rw [hnormal.locate_dirname, locate_partPath, List.dropLast_concat]

theorem within_partPath (hwithin : Within adapter
    (adapter.uploadPath uploadId)) (partNumber : PartNumber) :
    Within adapter (adapter.partPath numberText uploadId partNumber) := by
  rw [Within, locate_partPath]
  exact hwithin.trans (List.prefix_append _ _)

theorem confined_uploadPart_iff (partNumber : PartNumber) (body : Bytes) :
    Confined (Within adapter)
        (adapter.uploadPart numberText uploadId partNumber body) ↔
      StaysBelow (locate adapter.basePath) (uploadNames uploadId) := by
  have hdirname : Within adapter
      (dirname (adapter.partPath numberText uploadId partNumber)) ↔
        Within adapter (adapter.uploadPath uploadId) := by
    rw [Within, locate_dirname_partPath, Within]
  rw [confined_iff_of_const fun _ _ => accesses_uploadPart rfl,
    ← within_uploadPath_iff, ← hdirname]
  constructor
  · intro hall
    exact hall _ List.mem_cons_self
  · intro hwithin
    exact List.forall_mem_cons.mpr ⟨hwithin, List.forall_mem_singleton.mpr
      (within_partPath (hdirname.mp hwithin) partNumber)⟩

theorem confined_abortMultipartUpload_iff :
    Confined (Within adapter) (adapter.abortMultipartUpload uploadId) ↔
      StaysBelow (locate adapter.basePath) (uploadNames uploadId) := by
  rw [abortMultipartUpload, confined_iff_of_const fun _ _ => accesses_rmTree,
    ← within_uploadPath_iff, List.forall_mem_singleton]

theorem endsInSlash_partPath (partNumber : PartNumber) :
    endsInSlash (adapter.partPath numberText uploadId partNumber) = false :=
  endsInSlash_join_name [".multipart".toList, uploadId.toList]
    (numberText partNumber) adapter.absolute

theorem exists_mapM {file : α → Option β} {items : List α}
    (hall : ∀ item ∈ items, (file item).isSome) :
    ∃ values, items.mapM file = some values := by
  induction items with
  | nil => exact ⟨[], rfl⟩
  | cons item rest ih =>
      obtain ⟨hitem, hrest⟩ := List.forall_mem_cons.mp hall
      obtain ⟨value, hvalue⟩ := Option.isSome_iff_exists.mp hitem
      obtain ⟨values, hvalues⟩ := ih hrest
      exact ⟨value :: values, by simp [hvalue, hvalues]⟩

/-- Paths that do not end in a slash can all lead to files. -/
theorem exists_files (paths : List Text)
    (hslash : ∀ path ∈ paths, endsInSlash path = false) :
    ∃ files chunks, paths.mapM (Disk.file ⟨files, []⟩) = some chunks := by
  refine ⟨(InsertionMap.indexBy id (paths.map locate)).mapValues
    fun _ => [], exists_mapM fun path hmem => ?_⟩
  obtain ⟨last, hget⟩ := InsertionMap.exists_get_indexBy id
    (List.mem_map_of_mem (f := locate) hmem)
  rw [id_eq] at hget
  simp [Disk.file, hslash path hmem, InsertionMap.get_mapValues, hget]

/-- The paths of the parts in the order in which they are read. -/
def partPaths (adapter : LocalStorageAdapter) (numberText : PartNumber → Name)
    (uploadId : String) (parts : List MultipartPart) : List Text :=
  (sortParts parts).map fun part =>
    adapter.partPath numberText uploadId part.partNumber

theorem exists_partPath {parts : List MultipartPart}
    (hmem : path ∈ partPaths adapter numberText uploadId parts) :
    ∃ partNumber,
      path = adapter.partPath numberText uploadId partNumber := by
  obtain ⟨part, -, rfl⟩ := List.mem_map.mp hmem
  exact ⟨part.partNumber, rfl⟩

/-- The object is touched when all parts are there. -/
theorem accesses_completeMultipartUpload (parts : List MultipartPart)
    (now : ℤ) (files : InsertionMap Location Bytes) (accesses : List Text) :
    (after (adapter.completeMultipartUpload numberText bucket key uploadId
      parts now) ⟨files, accesses⟩).accesses =
      accesses ++ (partPaths adapter numberText uploadId parts ++
        match (partPaths adapter numberText uploadId parts).mapM
            (Disk.file ⟨files, []⟩) with
        | none => []
        | some _ => adapter.uploadPath uploadId ::
            uploadTouches (adapter.filePath bucket key)) := by
  have hsame : Disk.file ⟨files, accesses⟩ = Disk.file ⟨files, []⟩ := rfl
  have hpaths : ((sortParts parts).map fun part =>
      adapter.partPath numberText uploadId part.partNumber) =
        partPaths adapter numberText uploadId parts := rfl
  simp only [after, completeMultipartUpload, FileM.run_bind, run_readFiles,
    hpaths, hsame]
  cases (partPaths adapter numberText uploadId parts).mapM
      (Disk.file ⟨files, []⟩) with
  | none => simp
  | some chunks =>
      have hupload : (after (adapter.upload bucket key
          (.buffer chunks.flatten) none now)
            (after (rmTree (adapter.uploadPath uploadId))
              ⟨files, accesses ++
                partPaths adapter numberText uploadId parts⟩)).accesses =
          accesses ++ partPaths adapter numberText uploadId parts ++
            [adapter.uploadPath uploadId] ++
              uploadTouches (adapter.filePath bucket key) :=
        accesses_upload _ _ _
      rw [List.append_assoc, List.append_assoc] at hupload
      exact hupload

theorem confined_completeMultipartUpload_iff (parts : List MultipartPart)
    (now : ℤ) :
    Confined (Within adapter)
        (adapter.completeMultipartUpload numberText bucket key uploadId parts
          now) ↔
      StaysBelow (locate adapter.basePath) (uploadNames uploadId) ∧
        StaysBelow (locate adapter.basePath) (names bucket key ++ [up]) := by
  rw [confined_iff (accesses_completeMultipartUpload parts now),
    ← within_uploadPath_iff, ← within_uploadTouches_iff]
  constructor
  · intro hall
    have hslash : ∀ path ∈ partPaths adapter numberText uploadId parts,
        endsInSlash path = false := by
      intro path hmem
      obtain ⟨partNumber, rfl⟩ := exists_partPath hmem
      exact endsInSlash_partPath partNumber
    obtain ⟨files, chunks, hchunks⟩ := exists_files _ hslash
    have hfiles := hall files
    rw [hchunks] at hfiles
    obtain ⟨-, hrest⟩ := List.forall_mem_append.mp hfiles
    exact List.forall_mem_cons.mp hrest
  · rintro ⟨hupload, htouches⟩ files
    refine List.forall_mem_append.mpr ⟨?_, ?_⟩
    · intro path hmem
      obtain ⟨partNumber, rfl⟩ := exists_partPath hmem
      exact within_partPath hupload partNumber
    · split
      · exact List.forall_mem_nil _
      · exact List.forall_mem_cons.mpr ⟨hupload, htouches⟩

/-! ## Listing a bucket -/

theorem Confined.bind {action : FileM α} {rest : α → FileM β}
    (haction : Confined P action)
    (hrest : ∀ disk value next, action.run.run disk = (.ok value, next) →
      Confined P (rest value)) :
    Confined P (action >>= rest) := by
  intro disk hbefore
  have hnext := haction disk hbefore
  rw [after] at hnext ⊢
  rw [FileM.run_bind]
  cases hrun : action.run.run disk with
  | mk result next =>
      rw [hrun] at hnext
      cases result with
      | error error => exact hnext
      | ok value => exact hrest disk value next hrun next hnext

theorem confined_pure (value : α) : Confined P (pure value : FileM α) :=
  fun _ hbefore => hbefore

theorem confined_mapM {γ : Type} {items : List γ} {call : γ → FileM β}
    (hall : ∀ item ∈ items, Confined P (call item)) :
    Confined P (items.mapM call) := by
  induction items with
  | nil => exact confined_pure []
  | cons item rest ih =>
      obtain ⟨hitem, hrest⟩ := List.forall_mem_cons.mp hall
      rw [List.mapM_cons]
      exact hitem.bind fun _ _ _ _ => (ih hrest).bind fun _ _ _ _ =>
        confined_pure _

/-- The entries of a directory lead further down from it. -/
theorem exists_names_of_readdir {entries : List Text} {next : Disk}
    (hrun : (readdir path).run.run disk = (.ok entries, next)) :
    ∀ entry ∈ entries, ∃ rest : Location, rest ≠ [] ∧
      entry = ['/'].intercalate (rest.map Name.text) := by
  have hentries := congrArg Prod.fst hrun
  rw [← Except.ok.inj hentries]
  intro entry hmem
  obtain ⟨location, hlocation, rfl⟩ := List.mem_map.mp hmem
  obtain ⟨-, hbelow⟩ := List.mem_filter.mp hlocation
  rw [Bool.and_eq_true, List.isPrefixOf_iff_prefix,
    decide_eq_true_eq] at hbelow
  obtain ⟨⟨rest, rfl⟩, hne⟩ := hbelow
  refine ⟨rest, ?_, by simp⟩
  rintro rfl
  simp at hne

theorem staysBelow_entry {entry : Text} {rest : Location} (hrest : rest ≠ [])
    (hentry : entry = ['/'].intercalate (rest.map Name.text))
    (hbucket : StaysBelow (locate adapter.basePath)
      (segments bucket.toList)) :
    StaysBelow (locate adapter.basePath)
      (names bucket (String.ofList entry) ++ [up]) := by
  have hsegments : segments entry = rest.map Name.text := by
    rw [hentry, segments_intercalate (by simpa using hrest),
      segments_flatMap_names]
  rw [← prefix_walk_iff] at hbucket ⊢
  rw [walk_concat_up, names, String.toList_ofList, walk_append, hsegments,
    walk_names, List.dropLast_append_of_ne_nil hrest]
  exact hbucket.trans (List.prefix_append _ _)

theorem within_bucket_iff :
    Within adapter (join [adapter.basePath, bucket.toList]) ↔
      StaysBelow (locate adapter.basePath) (segments bucket.toList) := by
  rw [Within, locate_join _ adapter.absolute, prefix_walk_iff]
  simp

theorem mem_accesses_listObjects (options : ListObjectsOptions)
    (bucketExists : Bool) (mtime : Text → ℤ) :
    join [adapter.basePath, bucket.toList] ∈
      (after (adapter.listObjects bucket options bucketExists mtime)
        ⟨.empty, []⟩).accesses := by
  cases bucketExists with
  | false => exact List.mem_cons_self
  | true =>
      have hreaddir (accesses : List Text) :
          (readdir (join [adapter.basePath, bucket.toList])).run.run
            ⟨.empty, accesses⟩ = (.ok [], ⟨.empty, accesses ++
              [join [adapter.basePath, bucket.toList]]⟩) := rfl
      simp only [after, listObjects, if_true, FileM.run_bind, run_access,
        hreaddir, List.filter_nil, List.take_nil, List.mapM_nil]
      exact List.mem_cons_self

theorem confined_listObjects_iff (options : ListObjectsOptions)
    (bucketExists : Bool) (mtime : Text → ℤ) :
    Confined (Within adapter)
        (adapter.listObjects bucket options bucketExists mtime) ↔
      StaysBelow (locate adapter.basePath) (segments bucket.toList) := by
  constructor
  · intro hconfined
    rw [← within_bucket_iff]
    exact hconfined ⟨.empty, []⟩ (List.forall_mem_nil _) _
      (mem_accesses_listObjects options bucketExists mtime)
  · intro hbucket
    have hpath := within_bucket_iff.mpr hbucket
    have haccess : Confined (Within adapter)
        (access [join [adapter.basePath, bucket.toList]]) :=
      (confined_iff_of_const fun _ _ => rfl).mpr
        (List.forall_mem_singleton.mpr hpath)
    have hreaddir : Confined (Within adapter)
        (readdir (join [adapter.basePath, bucket.toList])) :=
      (confined_iff_of_const fun _ _ => rfl).mpr
        (List.forall_mem_singleton.mpr hpath)
    apply haccess.bind
    intro _ _ _ _
    cases bucketExists with
    | false => exact confined_pure _
    | true =>
        apply hreaddir.bind
        intro disk entries next hrun
        refine Confined.bind (confined_mapM fun entry hmem => ?_)
          fun _ _ _ _ => confined_pure _
        obtain ⟨rest, hrest, hentry⟩ := exists_names_of_readdir hrun entry
          (List.mem_of_mem_filter (List.mem_of_mem_take hmem))
        have hbelow := staysBelow_entry hrest hentry hbucket
        rw [confined_getMetadata_iff, ← within_object_iff]
        rw [← within_dirname_iff] at hbelow
        exact ⟨hbelow.of_dirname isNormal_filePath, fun _ =>
          within_ctPath isNormal_filePath hbelow⟩

/-! ## Every operation -/

theorem staysInside_iff_segmentsBelow (operation : Operation) :
    operation.StaysInside adapter numberText ↔
      operation.SegmentsBelow adapter := by
  cases operation with
  | upload bucket key body options now =>
      exact confined_upload_iff body options now
  | download bucket key options => exact confined_download_iff options
  | delete bucket key => exact confined_delete_iff
  | «exists» bucket key => exact confined_exists_iff
  | getMetadata bucket key mtime => exact confined_getMetadata_iff mtime
  | listObjects bucket options bucketExists mtime =>
      exact confined_listObjects_iff options bucketExists mtime
  | initiateMultipartUpload bucket key uploadId =>
      exact iff_of_true (confined_pure _) trivial
  | uploadPart uploadId partNumber body =>
      exact confined_uploadPart_iff partNumber body
  | completeMultipartUpload bucket key uploadId parts now =>
      exact confined_completeMultipartUpload_iff parts now
  | abortMultipartUpload uploadId => exact confined_abortMultipartUpload_iff
  | checkHealth baseExists =>
      refine iff_of_true ?_ trivial
      have hbase : Within adapter adapter.basePath := List.prefix_refl _
      exact (confined_iff_of_const fun _ _ => rfl).mpr
        (List.forall_mem_singleton.mpr hbase)

/-- Objects are kept apart exactly when their paths are, and an operation
stays below the base directory exactly when its segments do. -/
theorem localStorage_separation_iff (adapter : LocalStorageAdapter)
    (numberText : PartNumber → Name) (bucket key bucket' key' : String) :
    (KeepsApart adapter bucket key bucket' key' ↔
        ApartPaths (adapter.filePath bucket key)
          (adapter.filePath bucket' key')) ∧
      ∀ operation : Operation,
        operation.StaysInside adapter numberText ↔
          operation.SegmentsBelow adapter :=
  ⟨keepsApart_iff_apartPaths, staysInside_iff_segmentsBelow⟩

def dataStorage : LocalStorageAdapter := ⟨['/', 'd', 'a', 't', 'a'], rfl⟩

/-- A key can be the name of a side file, a slash can stand in the bucket as
well as in the key, and two dots lead out of the base directory. -/
theorem not_localStorage_separation :
    ¬ KeepsApart dataStorage "images" "logo" "images" "logo.ct" ∧
      ¬ KeepsApart dataStorage "images" "2024/logo" "images/2024" "logo" ∧
      ¬ (Operation.exists "images" "../../etc").StaysInside dataStorage
        fun _ => ct := by
  refine ⟨?_, ?_, ?_⟩
  · rw [keepsApart_iff_apartPaths]
    decide +kernel
  · rw [keepsApart_iff_apartPaths]
    decide +kernel
  · rw [staysInside_iff_segmentsBelow]
    change ¬ StaysBelow _ _
    decide +kernel

end TsCommons.Storage
