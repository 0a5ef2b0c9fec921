import TsCommons.ProcessManager.InMemoryProcessStore
import TsCommons.Foundations.Execution
import TsCommons.Foundations.Recency

/-!
# The correlation index

The processes that are stored, the one saved last first, tell what a search
for a correlation id should find.  `save` leaves the entry of the id that the
process was saved with before, and `delete` drops an entry that another
process may hold, so the index agrees with the processes as long as neither
happens.
-/

namespace TsCommons.ProcessManager

open Foundations

variable {S : Type}

/-- The store, and the processes in it in the order of their last saves, the
latest first. -/
structure State (S : Type) where
  store : InMemoryProcessStore S
  saved : List (ProcessState S)

def State.initial : State S := ⟨.empty, []⟩

inductive Label (S : Type)
  | save (process : ProcessState S)
  | delete (id : String)
deriving DecidableEq

def step (state : State S) : Label S → Option (State S)
  | .save process =>
      some ⟨state.store.save process,
        record ProcessState.id process state.saved⟩
  | .delete id =>
      some ⟨state.store.delete id, forget ProcessState.id id state.saved⟩

/-- The process with the correlation id that was saved last. -/
def mostRecent (saved : List (ProcessState S)) (correlationId : String) :
    Option (ProcessState S) :=
  saved.find? fun process => process.correlationId = some correlationId

/-- A process that is found has the correlation id, and if a stored process
has it, the one saved last is found. -/
structure CorrelationLaw (state : State S) : Prop where
  sound : ∀ correlationId found,
    state.store.findByCorrelationId correlationId = some found →
      state.store.findById found.id = some found ∧
        found.correlationId = some correlationId
  complete : ∀ correlationId id stored,
    state.store.findById id = some stored →
      stored.correlationId = some correlationId →
        state.store.findByCorrelationId correlationId =
          mostRecent state.saved correlationId

/-- The steps that keep the index: a process that is saved is not in the index
under another correlation id, and no other process has the correlation id of
one that is deleted. -/
def KeepsIndex (state : State S) : Label S → Prop
  | .save process =>
      ∀ entry ∈ state.store.byCorrelation.entries,
        entry.2 = process.id → process.correlationId = some entry.1
  | .delete id =>
      ∀ stored ∈ state.store.byId.get id,
        ∀ other ∈ state.store.byId.values, other.id ≠ id →
          stored.correlationId = none ∨
            other.correlationId ≠ stored.correlationId

instance KeepsIndex.decidable (state : State S) :
    (label : Label S) → Decidable (KeepsIndex state label)
  | .save process =>
      inferInstanceAs (Decidable (
        ∀ entry ∈ state.store.byCorrelation.entries,
          entry.2 = process.id → process.correlationId = some entry.1))
  | .delete id =>
      inferInstanceAs (Decidable (
        ∀ stored ∈ state.store.byId.get id,
          ∀ other ∈ state.store.byId.values, other.id ≠ id →
            stored.correlationId = none ∨
              other.correlationId ≠ stored.correlationId))

variable {state next : State S} {process found : ProcessState S}
  {correlationId id : String}

theorem correlationId_of_mostRecent {saved : List (ProcessState S)}
    (hfind : mostRecent saved correlationId = some found) :
    found.correlationId = some correlationId := by
  simpa using List.find?_some hfind

/-! ## The processes that are stored -/

/-- The processes of the list are those that are stored under their ids. -/
def Tracks (state : State S) : Prop :=
  ∀ id, state.store.findById id =
    state.saved.find? fun process => process.id = id

theorem tracks_initial : Tracks (State.initial : State S) :=
  fun _ => rfl

theorem Tracks.save (htracks : Tracks state) (process : ProcessState S) :
    Tracks ⟨state.store.save process,
      record ProcessState.id process state.saved⟩ := by
  intro id
  rw [InMemoryProcessStore.findById_save, find?_key_record, htracks id]

theorem Tracks.delete (htracks : Tracks state) (deleted : String) :
    Tracks ⟨state.store.delete deleted,
      forget ProcessState.id deleted state.saved⟩ := by
  intro id
  rw [InMemoryProcessStore.findById_delete, find?_key_forget, htracks id]

theorem Tracks.step (htracks : Tracks state) {label : Label S}
    (hstep : step state label = some next) : Tracks next := by
  cases label with
  | save process =>
      cases hstep
      exact htracks.save process
  | delete id =>
      cases hstep
      exact htracks.delete id

theorem Tracks.id_of_findById (htracks : Tracks state)
    (hfind : state.store.findById id = some found) : found.id = id := by
  rw [htracks id] at hfind
  simpa using List.find?_some hfind

theorem Tracks.mem_saved (htracks : Tracks state)
    (hfind : state.store.findById id = some found) : found ∈ state.saved := by
  rw [htracks id] at hfind
  exact List.mem_of_find?_eq_some hfind

/-- The index finds for each correlation id the process with it that was saved
last. -/
def IndexAgrees (state : State S) : Prop :=
  ∀ correlationId, state.store.findByCorrelationId correlationId =
    mostRecent state.saved correlationId

structure Invariant (state : State S) : Prop where
  tracks : Tracks state
  nodup : (state.saved.map ProcessState.id).Nodup
  agrees : IndexAgrees state

theorem invariant_initial : Invariant (State.initial : State S) :=
  ⟨tracks_initial, List.nodup_nil, fun _ => rfl⟩

theorem Invariant.findById_eq_some_iff (hinv : Invariant state) :
    state.store.findById id = some found ↔
      found ∈ state.saved ∧ found.id = id := by
  constructor
  · intro hfind
    exact ⟨hinv.tracks.mem_saved hfind, hinv.tracks.id_of_findById hfind⟩
  · rintro ⟨hmem, rfl⟩
    rw [hinv.tracks found.id]
    exact find?_key_of_mem hinv.nodup hmem

theorem Invariant.law (hinv : Invariant state) : CorrelationLaw state := by
  constructor
  · intro correlationId found hfind
    rw [hinv.agrees correlationId] at hfind
    have hmem := List.mem_of_find?_eq_some hfind
    exact ⟨hinv.findById_eq_some_iff.mpr ⟨hmem, rfl⟩,
      correlationId_of_mostRecent hfind⟩
  · intro correlationId id stored _ _
    exact hinv.agrees correlationId

/-! ## Steps that keep the index -/

/-- A process that a search finds is in the index under the id searched
for. -/
theorem Invariant.byCorrelation_of_mostRecent (hinv : Invariant state)
    (hfind : mostRecent state.saved correlationId = some found) :
    state.store.byCorrelation.get correlationId = some found.id := by
  rw [← hinv.agrees correlationId] at hfind
  obtain ⟨id, hindex, hstored⟩ :=
    InMemoryProcessStore.findByCorrelationId_eq_some_iff.mp hfind
  rw [hindex, hinv.tracks.id_of_findById hstored]

/-- A process of which the index knows nothing under an id is not the one
that a search for the id finds. -/
theorem Invariant.mostRecent_forget (hinv : Invariant state)
    (hindex : state.store.byCorrelation.get correlationId ≠ some id) :
    mostRecent (forget ProcessState.id id state.saved) correlationId =
      mostRecent state.saved correlationId := by
  unfold mostRecent
  cases hfind : state.saved.find? fun process =>
      process.correlationId = some correlationId with
  | none => exact find?_forget_of_none hfind
  | some found =>
      apply find?_forget_of_some hfind
      intro hid
      apply hindex
      rw [← hid]
      exact hinv.byCorrelation_of_mostRecent hfind

theorem Invariant.save (hinv : Invariant state)
    (hkeeps : KeepsIndex state (.save process)) :
    Invariant ⟨state.store.save process,
      record ProcessState.id process state.saved⟩ := by
  refine ⟨hinv.tracks.save process, nodup_record hinv.nodup, ?_⟩
  intro correlationId
  rw [InMemoryProcessStore.findByCorrelationId_save]
  by_cases hsaved : process.correlationId = some correlationId
  · rw [if_pos (.inl hsaved), mostRecent,
      find?_record_of_pos (by simpa using hsaved)]
  · have hindex :
        state.store.byCorrelation.get correlationId ≠ some process.id := by
      intro hget
      apply hsaved
      exact hkeeps _ (InsertionMap.get_eq_some_iff.mp hget) rfl
    have hneither : ¬ (process.correlationId = some correlationId ∨
        state.store.byCorrelation.get correlationId = some process.id) :=
      not_or.mpr ⟨hsaved, hindex⟩
    rw [if_neg hneither, mostRecent,
      find?_record_of_neg (by simpa using hsaved), hinv.agrees]
    exact (hinv.mostRecent_forget hindex).symm

theorem Invariant.delete (hinv : Invariant state)
    (hkeeps : KeepsIndex state (.delete id)) :
    Invariant ⟨state.store.delete id,
      forget ProcessState.id id state.saved⟩ := by
  refine ⟨hinv.tracks.delete id, nodup_forget hinv.nodup, ?_⟩
  intro correlationId
  rw [InMemoryProcessStore.findByCorrelationId_delete]
  by_cases hdropped : (state.store.findById id).bind
      ProcessState.correlationId = some correlationId
  · rw [if_pos (.inl hdropped)]
    obtain ⟨stored, hstored, hholds⟩ := Option.bind_eq_some_iff.mp hdropped
    symm
    apply List.find?_eq_none.mpr
    intro other hother hshares
    obtain ⟨hmem, hne⟩ := mem_forget.mp hother
    have hvalue : other ∈ state.store.byId.values :=
      InsertionMap.mem_values_iff.mpr
        ⟨other.id, hinv.findById_eq_some_iff.mpr ⟨hmem, rfl⟩⟩
    rcases hkeeps stored hstored other hvalue hne with hnone | hdiffers
    · rw [hnone] at hholds
      cases hholds
    · apply hdiffers
      rw [hholds]
      simpa using hshares
  · by_cases hindex : state.store.byCorrelation.get correlationId = some id
    · rw [if_pos (.inr hindex)]
      symm
      apply find?_forget_of_none
      have hagrees := hinv.agrees correlationId
      rw [InMemoryProcessStore.findByCorrelationId, hindex] at hagrees
      cases hfind : state.store.findById id with
      | none => exact hagrees.symm.trans hfind
      | some found =>
          simp only [hfind] at hagrees
          exfalso
          apply hdropped
          rw [hfind]
          exact correlationId_of_mostRecent hagrees.symm
    · have hneither : ¬ ((state.store.findById id).bind
            ProcessState.correlationId = some correlationId ∨
          state.store.byCorrelation.get correlationId = some id) :=
        not_or.mpr ⟨hdropped, hindex⟩
      rw [if_neg hneither, hinv.agrees]
      exact (hinv.mostRecent_forget hindex).symm

theorem Invariant.step (hinv : Invariant state) {label : Label S}
    (hkeeps : KeepsIndex state label)
    (hstep : step state label = some next) : Invariant next := by
  cases label with
  | save process =>
      cases hstep
      exact hinv.save hkeeps
  | delete id =>
      cases hstep
      exact hinv.delete hkeeps

/-! ## Steps that do not -/

/-- A process that is saved while the index has it under another correlation
id is found under that id. -/
theorem not_law_save (hnot : ¬ KeepsIndex state (.save process)) :
    ¬ CorrelationLaw ⟨state.store.save process,
      record ProcessState.id process state.saved⟩ := by
  simp only [KeepsIndex, not_forall] at hnot
  obtain ⟨⟨correlationId, id⟩, hentry, hid, hother⟩ := hnot
  simp only at hid hother
  have hindex : state.store.byCorrelation.get correlationId =
      some process.id := by
    rw [← hid]
    exact InsertionMap.get_eq_some_iff.mpr hentry
  intro hlaw
  have hfind : (state.store.save process).findByCorrelationId correlationId =
      some process := by
    rw [InMemoryProcessStore.findByCorrelationId_save, if_pos (.inr hindex)]
  exact hother (hlaw.sound correlationId process hfind).2

/-- After a process is deleted the index has nothing under its correlation id,
whoever else has it. -/
theorem not_law_delete (hinv : Invariant state)
    (hnot : ¬ KeepsIndex state (.delete id)) :
    ¬ CorrelationLaw ⟨state.store.delete id,
      forget ProcessState.id id state.saved⟩ := by
  simp only [KeepsIndex, not_forall, not_or, not_not] at hnot
  obtain ⟨stored, hstored, other, hother, hne, hsome, hshares⟩ := hnot
  obtain ⟨correlationId, hholds⟩ := Option.ne_none_iff_exists'.mp hsome
  rw [hholds] at hshares
  obtain ⟨key, hkey⟩ := InsertionMap.mem_values_iff.mp hother
  have hfind := hinv.findById_eq_some_iff.mp hkey
  intro hlaw
  have hstays : (state.store.delete id).findById other.id = some other := by
    rw [InMemoryProcessStore.findById_delete, if_neg hne]
    exact hinv.findById_eq_some_iff.mpr ⟨hfind.1, rfl⟩
  have hcomplete := hlaw.complete correlationId other.id other hstays hshares
  have hdropped : (state.store.findById id).bind ProcessState.correlationId =
      some correlationId :=
    Option.bind_eq_some_iff.mpr ⟨stored, hstored, hholds⟩
  simp only [InMemoryProcessStore.findByCorrelationId_delete,
    if_pos (Or.inl hdropped)] at hcomplete
  have hnone := List.find?_eq_none.mp hcomplete.symm other
    (mem_forget.mpr ⟨hfind.1, hne⟩)
  exact hnone (by simpa using hshares)

theorem not_law_of_not_keepsIndex (hinv : Invariant state) {label : Label S}
    (hnot : ¬ KeepsIndex state label)
    (hstep : step state label = some next) : ¬ CorrelationLaw next := by
  cases label with
  | save process =>
      cases hstep
      exact not_law_save hnot
  | delete id =>
      cases hstep
      exact not_law_delete hinv hnot

/-- In a run, each search for a correlation id finds the stored process with
it that was saved last, and nothing if there is none, if and only if no
process is saved while the index has it under another correlation id and none
is deleted while another one has its correlation id. -/
theorem correlationLaw_iff_keepsIndex {labels : List (Label S)}
    (hrun : exec step State.initial labels = some state) :
    (Throughout step CorrelationLaw (State.initial : State S) labels ↔
      StepsMeet step KeepsIndex (State.initial : State S) labels) ∧
    ∀ id, state.store.findById id =
      state.saved.find? fun process => process.id = id := by
  constructor
  · exact throughout_iff_stepsMeet (fun _ hinv => hinv.law)
      (fun _ _ _ hinv hkeeps hstep => hinv.step hkeeps hstep)
      (fun _ _ _ hinv hnot hstep =>
        not_law_of_not_keepsIndex hinv hnot hstep)
      invariant_initial hrun
  · exact exec_invariant (fun _ _ _ htracks hstep => htracks.step hstep)
      tracks_initial hrun

def order (id : String) (correlationId : Option String) :
    ProcessState Unit :=
  ⟨id, .running, (), correlationId⟩

/-- One of two processes gets a correlation id and is deleted. -/
def ownCorrelations : List (Label Unit) :=
  [.save (order "p1" (some "order-1")), .save (order "p2" none),
    .save (order "p1" (some "order-1")), .delete "p1"]

/-- The process gets another correlation id. -/
def correlatedAnew : List (Label Unit) :=
  [.save (order "p1" (some "order-1")),
    .save (order "p1" (some "order-2"))]

theorem correlationLaw_iff_keepsIndex_samples :
    Throughout step CorrelationLaw State.initial ownCorrelations ∧
      ¬ Throughout step CorrelationLaw State.initial correlatedAnew := by
  have hown : ∃ state : State Unit,
      exec step State.initial ownCorrelations = some state := ⟨_, rfl⟩
  have hanew : ∃ state : State Unit,
      exec step State.initial correlatedAnew = some state := ⟨_, rfl⟩
  obtain ⟨_, hown⟩ := hown
  obtain ⟨_, hanew⟩ := hanew
  constructor
  · apply (correlationLaw_iff_keepsIndex hown).1.mpr
    decide +kernel
  · intro hlaw
    have hmeet := (correlationLaw_iff_keepsIndex hanew).1.mp hlaw
    exact absurd hmeet (by decide +kernel)

/-- The process is found under the correlation id that it no longer has. -/
theorem not_correlationLaw_correlatedAnew :
    ∃ state : State Unit,
      exec step State.initial correlatedAnew = some state ∧
      state.store.findByCorrelationId "order-1" =
        some (order "p1" (some "order-2")) ∧
      ¬ CorrelationLaw state := by
  refine ⟨_, rfl, by decide +kernel, ?_⟩
  intro hlaw
  have hsound := hlaw.sound "order-1" (order "p1" (some "order-2"))
    (by decide +kernel)
  exact absurd hsound.2 (by decide +kernel)

end TsCommons.ProcessManager
