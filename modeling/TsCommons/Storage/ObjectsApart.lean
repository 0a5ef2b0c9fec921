import TsCommons.Storage.LocalStorageAdapter

/-!
# Objects that are kept apart

Objects share the tree below the base directory with their side files.  Calls
for one object leave another one alone exactly when its path is neither that
of the first nor that of its side file.  A call stays below the base directory
exactly when the segments that it appends do.
-/

namespace TsCommons.Storage

open Foundations Foundations.PosixPath FileM LocalStorageAdapter

inductive Call
  | upload (body : StorageObjectBody) (options : Option UploadOptions)
      (now : ℤ)
  | delete

def Call.perform (adapter : LocalStorageAdapter) (bucket key : String) :
    Call → Disk → Disk
  | .upload body options now =>
      after (adapter.upload bucket key body options now)
  | .delete => after (adapter.delete bucket key)

/-- The disk after the calls for the one object. -/
def performAll (adapter : LocalStorageAdapter) (bucket key : String)
    (calls : List Call) (disk : Disk) : Disk :=
  calls.foldl (fun disk call => call.perform adapter bucket key disk) disk

def KeepsApart (adapter : LocalStorageAdapter)
    (bucket key bucket' key' : String) : Prop :=
  ∀ disk calls,
    (∀ options, outcome (adapter.download bucket' key' options)
      (performAll adapter bucket key calls disk) =
        outcome (adapter.download bucket' key' options) disk) ∧
    outcome (adapter.exists bucket' key')
      (performAll adapter bucket key calls disk) =
        outcome (adapter.exists bucket' key') disk

/-- A path that ends in a slash leads to no file.  Others are apart if the
second one leads neither where the first one does nor to its side file. -/
def ApartPaths (path path' : Text) : Prop :=
  endsInSlash path ∨ endsInSlash path' ∨
    locate path' ≠ locate path ∧ locate path' ≠ locate (ctPath path)

instance ApartPaths.decidable (path path' : Text) :
    Decidable (ApartPaths path path') :=
  inferInstanceAs (Decidable (endsInSlash path ∨ endsInSlash path' ∨
    locate path' ≠ locate path ∧ locate path' ≠ locate (ctPath path)))

variable {adapter : LocalStorageAdapter} {disk : Disk} {path path' : Text}
  {bucket key bucket' key' : String} {call : Call} {calls : List Call}

theorem file_perform
    (hapart : ApartPaths (adapter.filePath bucket key) path') :
    (call.perform adapter bucket key disk).file path' = disk.file path' := by
  have hfiles : endsInSlash path' = false →
      (call.perform adapter bucket key disk).files.get (locate path') =
        disk.files.get (locate path') := by
    intro hslash'
    cases call with
    | upload body options now =>
        rw [Call.perform, after_upload rfl]
        split
        · rfl
        · rename_i hslash
          obtain ⟨hpath, hct⟩ :=
            (hapart.resolve_left hslash).resolve_left (by simp [hslash'])
          rw [InsertionMap.get_set_of_ne _ _ hct,
            InsertionMap.get_set_of_ne _ _ hpath]
    | delete =>
        rw [Call.perform, after_delete rfl]
        split
        · rfl
        · rename_i hslash
          obtain ⟨hpath, hct⟩ :=
            (hapart.resolve_left hslash).resolve_left (by simp [hslash'])
          rw [InsertionMap.get_delete_of_ne _ hct,
            InsertionMap.get_delete_of_ne _ hpath]
  cases hslash' : endsInSlash path' with
  | true => simp [Disk.file, hslash']
  | false => simpa [Disk.file, hslash'] using hfiles hslash'

theorem file_performAll
    (hapart : ApartPaths (adapter.filePath bucket key) path') :
    (performAll adapter bucket key calls disk).file path' =
      disk.file path' := by
  induction calls generalizing disk with
  | nil => rfl
  | cons call rest ih =>
      rw [performAll, List.foldl_cons, ← performAll, ih, file_perform hapart]

/-- An upload to the empty disk brings up every path that is not apart. -/
theorem file_upload_ne_none
    (hclash : ¬ ApartPaths (adapter.filePath bucket key) path') :
    ((Call.upload (.buffer []) none 0).perform adapter bucket key
      ⟨.empty, []⟩).file path' ≠ none := by
  simp only [ApartPaths, not_or] at hclash
  obtain ⟨hslash, hslash', hsame⟩ := hclash
  rw [Call.perform, after_upload rfl, if_neg hslash, Disk.file,
    if_neg hslash', InsertionMap.get_set]
  by_cases hct : locate path' =
      locate (ctPath (adapter.filePath bucket key))
  · simp [hct]
  · have hpath : locate path' = locate (adapter.filePath bucket key) := by
      by_contra hpath
      exact hsame ⟨hpath, hct⟩
    rw [if_neg hct, hpath, InsertionMap.get_set_self]
    exact Option.some_ne_none _

theorem keepsApart_iff_apartPaths :
    KeepsApart adapter bucket key bucket' key' ↔
      ApartPaths (adapter.filePath bucket key)
        (adapter.filePath bucket' key') := by
  constructor
  · intro hkeeps
    by_contra hclash
    have hexists := (hkeeps ⟨.empty, []⟩ [.upload (.buffer []) none 0]).2
    rw [outcome_exists, outcome_exists, Except.ok.injEq] at hexists
    have hnone : Disk.file ⟨.empty, []⟩ (adapter.filePath bucket' key') =
        none := by
      simp [Disk.file]
    rw [hnone, Option.isSome_none, Option.isSome_eq_false_iff,
      Option.isNone_iff_eq_none] at hexists
    exact file_upload_ne_none hclash hexists
  · intro hapart disk calls
    refine ⟨fun options => ?_, ?_⟩
    · have hsame : (performAll adapter bucket key calls disk).file
          (adapter.filePath bucket' key') =
            disk.file (adapter.filePath bucket' key') :=
        file_performAll hapart
      simp only [outcome, run_download rfl, hsame]
      cases disk.file (adapter.filePath bucket' key') with
      | none => rfl
      | some buffer => rfl
    · rw [outcome_exists, outcome_exists, file_performAll hapart]

end TsCommons.Storage
