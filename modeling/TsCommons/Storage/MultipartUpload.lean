import TsCommons.Foundations.Execution
import TsCommons.Foundations.Since
import TsCommons.Storage.InMemoryStorageAdapter

/-!
# Multipart uploads

What a completed upload should store follows from the history of the calls:
from the initiation that is still pending and from the parts uploaded last.
The adapter stores it, and leaves everything as it is where it cannot, if every
listed part was uploaded and the call repeats the bucket and the key of the
initiation.
-/

namespace TsCommons.Storage.MultipartUpload

open Foundations

/-- What the calls that did not fail have done; an upload ends when it is
completed or aborted. -/
inductive Event
  | initiated (info : MultipartUploadInfo) (options : Option UploadOptions)
  | uploaded (uploadId : String) (partNumber : PartNumber) (body : Bytes)
  | ended (uploadId : String)
deriving DecidableEq

def Event.Ends (uploadId : String) : Event → Prop
  | .initiated info _ => info.uploadId = uploadId
  | .ended id => id = uploadId
  | .uploaded _ _ _ => False

/-- Another body takes the place of that of the part, or the upload ends. -/
def Event.Replaces (uploadId : String) (partNumber : PartNumber) :
    Event → Prop
  | .uploaded id number _ => id = uploadId ∧ number = partNumber
  | event => event.Ends uploadId

/-- The upload was initiated so and has not ended since. -/
def Pending (events : List Event) (info : MultipartUploadInfo)
    (options : Option UploadOptions) : Prop :=
  Since (fun _ event => event = .initiated info options)
    (Event.Ends info.uploadId) events

/-- The body was uploaded last for the part of the pending upload. -/
def Uploaded (events : List Event) (uploadId : String)
    (partNumber : PartNumber) (body : Bytes) : Prop :=
  Since (fun _ event => event = .uploaded uploadId partNumber body)
    (Event.Replaces uploadId partNumber) events

structure State where
  adapter : InMemoryStorageAdapter
  events : List Event
deriving DecidableEq

def State.initial : State := ⟨.empty, []⟩

inductive Label
  | upload (bucket key : String) (body : StorageObjectBody)
      (options : Option UploadOptions) (stamp : Stamp)
  | delete (bucket key : String)
  | initiate (bucket key : String) (options : Option UploadOptions)
      (uploadId : String)
  | uploadPart (bucket key : String) (uploadId : String)
      (partNumber : PartNumber) (body : Bytes) (etag : String)
  | complete (bucket key : String) (uploadId : String)
      (parts : List MultipartPart) (stamp : Stamp)
  | abort (uploadId : String)

def State.initiate (state : State) (bucket key : String)
    (options : Option UploadOptions) (uploadId : String) : State :=
  let result :=
    state.adapter.initiateMultipartUpload bucket key options uploadId
  ⟨result.1, state.events ++ [.initiated result.2 options]⟩

def State.uploadPart (state : State) (bucket key : String)
    (uploadId : String) (partNumber : PartNumber) (body : Bytes)
    (etag : String) : State :=
  let result :=
    state.adapter.uploadPart bucket key uploadId partNumber body etag
  match result.2 with
  | .error _ => { state with adapter := result.1 }
  | .ok part =>
      ⟨result.1, state.events ++ [.uploaded uploadId part.partNumber body]⟩

def State.complete (state : State) (bucket key : String) (uploadId : String)
    (parts : List MultipartPart) (stamp : Stamp) : State :=
  let result :=
    state.adapter.completeMultipartUpload bucket key uploadId parts stamp
  match result.2 with
  | .error _ => { state with adapter := result.1 }
  | .ok _ => ⟨result.1, state.events ++ [.ended uploadId]⟩

def State.abort (state : State) (uploadId : String) : State :=
  ⟨state.adapter.abortMultipartUpload uploadId,
    state.events ++ [.ended uploadId]⟩

def step (state : State) : Label → Option State
  | .upload bucket key body options stamp =>
      some { state with
        adapter := (state.adapter.upload bucket key body options stamp).1 }
  | .delete bucket key =>
      some { state with adapter := state.adapter.delete bucket key }
  | .initiate bucket key options uploadId =>
      some (state.initiate bucket key options uploadId)
  | .uploadPart bucket key uploadId partNumber body etag =>
      some (state.uploadPart bucket key uploadId partNumber body etag)
  | .complete bucket key uploadId parts stamp =>
      some (state.complete bucket key uploadId parts stamp)
  | .abort uploadId => some (state.abort uploadId)

def numbers (parts : List MultipartPart) : List PartNumber :=
  parts.map MultipartPart.partNumber

/-- With distinct parts that were all uploaded, the bodies that were uploaded
last are stored in ascending order under the bucket and the key of the
initiation.  Without a pending upload, or with a part that was not uploaded,
the call fails and changes nothing. -/
structure CompleteLaw (state : State) (bucket key : String)
    (uploadId : String) (parts : List MultipartPart) (stamp : Stamp) :
    Prop where
  stored : ∀ info options, Pending state.events info options →
    info.uploadId = uploadId → (numbers parts).Nodup →
    (∀ number ∈ numbers parts, ∃ body,
      Uploaded state.events uploadId number body) →
    ∃ chunks : List (PartNumber × Bytes),
      (chunks.map Prod.fst).Perm (numbers parts) ∧
      chunks.Pairwise (fun first second => first.1 < second.1) ∧
      (∀ chunk ∈ chunks,
        Uploaded state.events uploadId chunk.1 chunk.2) ∧
      ∃ object : StoredObject,
        object.body = (chunks.map Prod.snd).flatten ∧
        object.metadata.bucket = info.bucket ∧
        object.metadata.key = info.key ∧
        state.adapter.completeMultipartUpload bucket key uploadId parts
          stamp =
          ({ objects := state.adapter.objects.set
              (InMemoryStorageAdapter.storeKey info.bucket info.key) object
             multiparts := state.adapter.multiparts.delete uploadId },
            .ok object.metadata)
  failed : (∀ info options, Pending state.events info options →
      info.uploadId ≠ uploadId) ∨
    (∃ number ∈ numbers parts, ∀ body,
      ¬ Uploaded state.events uploadId number body) →
    ∃ error, state.adapter.completeMultipartUpload bucket key uploadId parts
      stamp = (state.adapter, .error error)

def MultipartLaw (state : State) : Label → Prop
  | .complete bucket key uploadId parts stamp =>
      CompleteLaw state bucket key uploadId parts stamp
  | _ => True

/-- A pending upload is completed with parts that were all uploaded, and under
the bucket and the key it was initiated for if no part is listed twice. -/
def CompletesAsInitiated (state : State) : Label → Prop
  | .complete bucket key uploadId parts _ =>
      ∀ entry ∈ state.adapter.multiparts.get uploadId,
        (∀ number ∈ numbers parts, (entry.parts.get number).isSome) ∧
          ((numbers parts).Nodup →
            bucket = entry.info.bucket ∧ key = entry.info.key)
  | _ => True

instance CompletesAsInitiated.decidable (state : State) :
    (label : Label) → Decidable (CompletesAsInitiated state label)
  | .complete bucket key uploadId parts _ => inferInstanceAs (Decidable (
      ∀ entry ∈ state.adapter.multiparts.get uploadId,
        (∀ number ∈ numbers parts, (entry.parts.get number).isSome) ∧
          ((numbers parts).Nodup →
            bucket = entry.info.bucket ∧ key = entry.info.key)))
  | .upload _ _ _ _ _ => inferInstanceAs (Decidable True)
  | .delete _ _ => inferInstanceAs (Decidable True)
  | .initiate _ _ _ _ => inferInstanceAs (Decidable True)
  | .uploadPart _ _ _ _ _ _ => inferInstanceAs (Decidable True)
  | .abort _ => inferInstanceAs (Decidable True)

variable {state next : State} {label : Label} {events : List Event}
  {event : Event} {info : MultipartUploadInfo}
  {options : Option UploadOptions} {uploadId bucket key : String}
  {partNumber : PartNumber} {body : Bytes} {parts : List MultipartPart}
  {stamp : Stamp} {entry : MultipartEntry}

/-! ## What the history says of the pending uploads -/

theorem pending_concat_iff :
    Pending (events ++ [event]) info options ↔
      event = .initiated info options ∨
        Pending events info options ∧ ¬ event.Ends info.uploadId :=
  since_concat_iff

theorem uploaded_concat_iff :
    Uploaded (events ++ [event]) uploadId partNumber body ↔
      event = .uploaded uploadId partNumber body ∨
        Uploaded events uploadId partNumber body ∧
          ¬ event.Replaces uploadId partNumber :=
  since_concat_iff

/-- The pending uploads are those of the history, with the parts that were
uploaded last. -/
structure Invariant (state : State) : Prop where
  pending : ∀ info options, Pending state.events info options ↔
    ∃ entry ∈ state.adapter.multiparts.get info.uploadId,
      entry.info = info ∧ entry.options = options
  keyed : ∀ uploadId entry,
    state.adapter.multiparts.get uploadId = some entry →
      entry.info.uploadId = uploadId
  uploaded : ∀ uploadId partNumber body,
    Uploaded state.events uploadId partNumber body ↔
      ∃ entry ∈ state.adapter.multiparts.get uploadId,
        entry.parts.get partNumber = some body

theorem invariant_initial : Invariant State.initial := by
  refine ⟨?_, ?_, ?_⟩
  · intro info options
    refine iff_of_false not_since_nil ?_
    rintro ⟨entry, hget, -⟩
    cases hget
  · intro uploadId entry hget
    cases hget
  · intro uploadId partNumber body
    refine iff_of_false not_since_nil ?_
    rintro ⟨entry, hget, -⟩
    cases hget

theorem invariant_initiate (hinv : Invariant state) :
    Invariant (state.initiate bucket key options uploadId) := by
  refine ⟨?_, ?_, ?_⟩
  · intro info opts
    simp only [State.initiate,
      InMemoryStorageAdapter.initiateMultipartUpload, pending_concat_iff,
      Event.Ends, Event.initiated.injEq, InsertionMap.get_set]
    by_cases hid : info.uploadId = uploadId
    · simp [hid]
    · have hnew : ¬ ⟨uploadId, key, bucket⟩ = info := by
        rintro rfl
        exact hid rfl
      simp [hid, Ne.symm hid, hnew, hinv.pending]
  · intro id entry hget
    simp only [State.initiate,
      InMemoryStorageAdapter.initiateMultipartUpload,
      InsertionMap.get_set] at hget
    split at hget
    · rw [← Option.some.inj hget]
      exact Eq.symm ‹id = uploadId›
    · exact hinv.keyed id entry hget
  · intro id partNumber body
    simp only [State.initiate,
      InMemoryStorageAdapter.initiateMultipartUpload, uploaded_concat_iff,
      Event.Replaces, Event.Ends, hinv.uploaded, InsertionMap.get_set]
    by_cases hid : id = uploadId
    · simp [hid]
    · simp [hid, Ne.symm hid]

theorem invariant_ended {adapter : InMemoryStorageAdapter}
    (hinv : Invariant state)
    (hadapter : adapter.multiparts =
      state.adapter.multiparts.delete uploadId) :
    Invariant ⟨adapter, state.events ++ [.ended uploadId]⟩ := by
  refine ⟨?_, ?_, ?_⟩
  · intro info opts
    simp only [hadapter, pending_concat_iff, Event.Ends,
      InsertionMap.get_delete]
    by_cases hid : info.uploadId = uploadId
    · simp [hid]
    · simp [hid, Ne.symm hid, hinv.pending]
  · intro id entry hget
    simp only [hadapter, InsertionMap.get_delete] at hget
    split at hget
    · cases hget
    · exact hinv.keyed id entry hget
  · intro id partNumber body
    simp only [hadapter, uploaded_concat_iff, Event.Replaces, Event.Ends,
      hinv.uploaded, InsertionMap.get_delete]
    by_cases hid : id = uploadId
    · simp [hid]
    · simp [hid, Ne.symm hid]

theorem invariant_of_multiparts_eq {adapter : InMemoryStorageAdapter}
    (hinv : Invariant state)
    (hadapter : adapter.multiparts = state.adapter.multiparts) :
    Invariant ⟨adapter, state.events⟩ := by
  refine ⟨?_, ?_, ?_⟩
  · simpa only [hadapter] using hinv.pending
  · simpa only [hadapter] using hinv.keyed
  · simpa only [hadapter] using hinv.uploaded

theorem invariant_uploadPart {etag : String} (hinv : Invariant state) :
    Invariant
      (state.uploadPart bucket key uploadId partNumber body etag) := by
  cases hget : state.adapter.multiparts.get uploadId with
  | none =>
      simpa only [State.uploadPart, InMemoryStorageAdapter.uploadPart, hget]
        using hinv
  | some entry =>
      simp only [State.uploadPart, InMemoryStorageAdapter.uploadPart, hget]
      refine ⟨?_, ?_, ?_⟩
      · intro info opts
        simp only [pending_concat_iff, reduceCtorEq, false_or, Event.Ends,
          not_false_iff, and_true, hinv.pending, InsertionMap.get_set]
        by_cases hid : info.uploadId = uploadId
        · simp [hid, hget]
        · simp [hid]
      · intro id other hother
        rw [InsertionMap.get_set] at hother
        split at hother
        · rename_i hid
          rw [hid, ← Option.some.inj hother]
          exact hinv.keyed uploadId entry hget
        · exact hinv.keyed id other hother
      · intro id number other
        simp only [uploaded_concat_iff, Event.uploaded.injEq, Event.Replaces,
          hinv.uploaded, InsertionMap.get_set]
        by_cases hid : id = uploadId
        · subst id
          simp only [if_pos, Option.mem_def, Option.some.injEq, true_and,
            hget, exists_eq_left', InsertionMap.get_set]
          by_cases hnumber : number = partNumber
          · simp [hnumber]
          · simp [hnumber, Ne.symm hnumber]
        · simp [hid, Ne.symm hid]

theorem invariant_complete (hinv : Invariant state) :
    Invariant (state.complete bucket key uploadId parts stamp) := by
  cases hget : state.adapter.multiparts.get uploadId with
  | none =>
      simpa only [State.complete,
        InMemoryStorageAdapter.completeMultipartUpload, hget] using hinv
  | some entry =>
      simp only [State.complete,
        InMemoryStorageAdapter.completeMultipartUpload, hget]
      exact invariant_ended hinv rfl

theorem invariant_of_step (hinv : Invariant state)
    (hstep : step state label = some next) : Invariant next := by
  cases label with
  | upload bucket key body options stamp =>
      cases hstep
      exact invariant_of_multiparts_eq hinv rfl
  | delete bucket key =>
      cases hstep
      exact invariant_of_multiparts_eq hinv rfl
  | initiate bucket key options uploadId =>
      cases hstep
      exact invariant_initiate hinv
  | uploadPart bucket key uploadId partNumber body etag =>
      cases hstep
      exact invariant_uploadPart hinv
  | complete bucket key uploadId parts stamp =>
      cases hstep
      exact invariant_complete hinv
  | abort uploadId =>
      cases hstep
      exact invariant_ended hinv rfl

/-! ## Completing an upload -/

theorem completeMultipartUpload_of_get
    (hget : state.adapter.multiparts.get uploadId = some entry) :
    state.adapter.completeMultipartUpload bucket key uploadId parts stamp =
      let merged := mergeMultipartParts parts entry.parts
      let metadata :=
        buildMetadata bucket key merged.length entry.options stamp
      ({ objects := state.adapter.objects.set
          (InMemoryStorageAdapter.storeKey bucket key) ⟨merged, metadata⟩
         multiparts := state.adapter.multiparts.delete uploadId },
        .ok metadata) := by
  simp only [InMemoryStorageAdapter.completeMultipartUpload, hget]

theorem pending_of_get (hinv : Invariant state)
    (hget : state.adapter.multiparts.get uploadId = some entry) :
    Pending state.events entry.info entry.options := by
  rw [hinv.pending, hinv.keyed uploadId entry hget]
  exact ⟨entry, hget, rfl, rfl⟩

theorem uploaded_iff_of_get (hinv : Invariant state)
    (hget : state.adapter.multiparts.get uploadId = some entry) :
    Uploaded state.events uploadId partNumber body ↔
      entry.parts.get partNumber = some body := by
  rw [hinv.uploaded, hget]
  simp

theorem completeLaw_of_completesAsInitiated (hinv : Invariant state)
    (hmeets : CompletesAsInitiated state
      (.complete bucket key uploadId parts stamp)) :
    CompleteLaw state bucket key uploadId parts stamp := by
  constructor
  · intro info options hpending hid hdistinct _
    obtain ⟨entry, hget, rfl, -⟩ := (hinv.pending info options).mp hpending
    rw [hid] at hget
    obtain ⟨hall, hsame⟩ := hmeets entry hget
    obtain ⟨hbucket, hkey⟩ := hsame hdistinct
    obtain ⟨chunks, hperm, hsorted, hbodies, hmerged⟩ :=
      exists_chunks hdistinct (List.forall_mem_map.mp hall)
    refine ⟨chunks, hperm, hsorted, ?_,
      ⟨mergeMultipartParts parts entry.parts, buildMetadata bucket key
        (mergeMultipartParts parts entry.parts).length entry.options stamp⟩,
      hmerged, hbucket, hkey, ?_⟩
    · intro chunk hchunk
      exact (uploaded_iff_of_get hinv hget).mpr (hbodies chunk hchunk)
    · rw [completeMultipartUpload_of_get hget, hbucket, hkey]
  · intro hfails
    cases hget : state.adapter.multiparts.get uploadId with
    | none =>
        exact ⟨⟨bucket, key⟩, by
          simp only [InMemoryStorageAdapter.completeMultipartUpload, hget]⟩
    | some entry =>
        exfalso
        rcases hfails with hnone | ⟨number, hmem, hmissing⟩
        · exact hnone entry.info entry.options (pending_of_get hinv hget)
            (hinv.keyed uploadId entry hget)
        · obtain ⟨body, hbody⟩ := Option.isSome_iff_exists.mp
            ((hmeets entry hget).1 number hmem)
          exact hmissing body ((uploaded_iff_of_get hinv hget).mpr hbody)

theorem completesAsInitiated_of_completeLaw (hinv : Invariant state)
    (hlaw : CompleteLaw state bucket key uploadId parts stamp) :
    CompletesAsInitiated state
      (.complete bucket key uploadId parts stamp) := by
  intro entry hget
  have hall : ∀ number ∈ numbers parts, (entry.parts.get number).isSome := by
    intro number hmem
    by_contra hmissing
    have hnever : ∀ body, ¬ Uploaded state.events uploadId number body := by
      intro body huploaded
      rw [(uploaded_iff_of_get hinv hget).mp huploaded] at hmissing
      exact hmissing rfl
    obtain ⟨error, herror⟩ := hlaw.failed (.inr ⟨number, hmem, hnever⟩)
    rw [completeMultipartUpload_of_get hget] at herror
    cases (Prod.mk.inj herror).2
  refine ⟨hall, fun hdistinct => ?_⟩
  have huploaded : ∀ number ∈ numbers parts, ∃ body,
      Uploaded state.events uploadId number body := by
    intro number hmem
    obtain ⟨body, hbody⟩ := Option.isSome_iff_exists.mp (hall number hmem)
    exact ⟨body, (uploaded_iff_of_get hinv hget).mpr hbody⟩
  obtain ⟨chunks, -, -, -, object, -, hbucket, hkey, hresult⟩ :=
    hlaw.stored entry.info entry.options (pending_of_get hinv hget)
      (hinv.keyed uploadId entry hget) hdistinct huploaded
  rw [completeMultipartUpload_of_get hget] at hresult
  have hmetadata := Except.ok.inj (Prod.mk.inj hresult).2
  rw [← hmetadata] at hbucket hkey
  exact ⟨hbucket, hkey⟩

theorem multipartLaw_iff_completesAsInitiated (hinv : Invariant state) :
    MultipartLaw state label ↔ CompletesAsInitiated state label := by
  cases label with
  | complete bucket key uploadId parts stamp =>
      exact ⟨completesAsInitiated_of_completeLaw hinv,
        completeLaw_of_completesAsInitiated hinv⟩
  | _ => exact Iff.rfl

theorem multipartLaw_iff (labels : List Label) :
    StepsMeet step MultipartLaw State.initial labels ↔
      StepsMeet step CompletesAsInitiated State.initial labels :=
  stepsMeet_congr (fun _ _ _ => invariant_of_step)
    (fun _ _ => multipartLaw_iff_completesAsInitiated) invariant_initial

/-- A part that was never uploaded is stored as an empty one, and the object
goes to the bucket and the key of the last call. -/
theorem not_multipartLaw :
    ¬ StepsMeet step MultipartLaw State.initial
        [.initiate "media" "film" none "upload",
          .complete "media" "film" "upload" [⟨1, "etag"⟩] ⟨0, "stamp"⟩] ∧
      ¬ StepsMeet step MultipartLaw State.initial
        [.initiate "media" "film" none "upload",
          .complete "media" "other" "upload" [] ⟨0, "stamp"⟩] := by
  constructor
  · intro hmeet
    have hlaw := (hmeet.2 _ rfl).1
    have hmeets := completesAsInitiated_of_completeLaw
      (invariant_initiate invariant_initial) hlaw
    revert hmeets
    decide +kernel
  · intro hmeet
    have hlaw := (hmeet.2 _ rfl).1
    have hmeets := completesAsInitiated_of_completeLaw
      (invariant_initiate invariant_initial) hlaw
    revert hmeets
    decide +kernel

end TsCommons.Storage.MultipartUpload
