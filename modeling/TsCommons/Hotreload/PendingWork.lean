import TsCommons.Hotreload.IncrementalCompiler
import TsCommons.Foundations.Execution

/-!
# Files that wait for a compilation

A file that was marked should be scheduled until it has been compiled.  It is
as long as no scheduled file fails to compile, since a compilation takes all
files out of the schedule, and as long as the schedule is not made anew from
the registered files while another file is in it.
-/

namespace TsCommons.Hotreload.PendingWork

open Foundations

/-- The times of the last marks and of the last successful compilations of
files, in numbers of calls. -/
structure State where
  compiler : IncrementalCompiler
  clock : ℕ
  markedAt : InsertionMap String ℕ
  compiledAt : InsertionMap String ℕ

def State.initial : State := ⟨.empty, 0, .empty, .empty⟩

inductive Label
  | register (file : String) (imports : List String)
  | markDirty (file : String)
  | compile (simulatedErrors : List String)
  | invalidateAll

def stamp (files : List String) (clock : ℕ) (times : InsertionMap String ℕ) :
    InsertionMap String ℕ :=
  files.foldl (fun times file => times.set file clock) times

def step (state : State) : Label → Option State
  | .register file imports =>
      some { state with
        compiler := state.compiler.register file imports
        clock := state.clock + 1 }
  | .markDirty file =>
      (collectAffected [file] state.compiler.graph).bind fun affected =>
        (state.compiler.markDirty file).map fun compiler =>
          { state with
            compiler := compiler
            clock := state.clock + 1
            markedAt := stamp affected.elements state.clock state.markedAt }
  | .compile simulatedErrors =>
      let (compiler, result) := state.compiler.compile simulatedErrors
      some { state with
        compiler := compiler
        clock := state.clock + 1
        compiledAt :=
          stamp result.recompiledFiles state.clock state.compiledAt }
  | .invalidateAll =>
      some { state with
        compiler := state.compiler.invalidateAll
        clock := state.clock + 1
        markedAt :=
          stamp state.compiler.graph.keys state.clock state.markedAt }

/-- The file was marked and has not been compiled since. -/
def Pending (state : State) (file : String) : Prop :=
  ∃ mark ∈ state.markedAt.get file,
    ∀ time ∈ state.compiledAt.get file, time ≤ mark

/-- The output of the file is newer than its mark. -/
def Fresh (state : State) (file : String) (mark : ℕ) : Prop :=
  state.compiler.isCompiled file = true ∧
    ∃ time ∈ state.compiledAt.get file, mark < time

structure PendingLaw (state : State) : Prop where
  scheduled : ∀ file, Pending state file → file ∈ state.compiler.dirtyFiles
  fresh : state.compiler.dirtyCount = 0 →
    ∀ file, ∀ mark ∈ state.markedAt.get file, Fresh state file mark

/-- A compilation has no failing file and leaves every marked file with an
output; the schedule is made anew when all files in it are registered. -/
def KeepsPending (state : State) : Label → Prop
  | .compile simulatedErrors =>
      (∀ file ∈ state.compiler.dirtyFiles.elements,
        file ∉ simulatedErrors) ∧
      ∀ file ∈ state.markedAt.keys, file ∈ state.compiler.dirtyFiles ∨
        state.compiler.isCompiled file = true
  | .invalidateAll =>
      (∀ file ∈ state.compiler.dirtyFiles.elements,
        file ∈ state.compiler.graph.keys) ∧
      (state.compiler.graph.keys = [] → state.markedAt.keys = [])
  | _ => True

instance (state : State) (label : Label) :
    Decidable (KeepsPending state label) :=
  match label with
  | .compile simulatedErrors =>
      inferInstanceAs (Decidable (
        (∀ file ∈ state.compiler.dirtyFiles.elements,
          file ∉ simulatedErrors) ∧
        ∀ file ∈ state.markedAt.keys, file ∈ state.compiler.dirtyFiles ∨
          state.compiler.isCompiled file = true))
  | .invalidateAll =>
      inferInstanceAs (Decidable (
        (∀ file ∈ state.compiler.dirtyFiles.elements,
          file ∈ state.compiler.graph.keys) ∧
        (state.compiler.graph.keys = [] → state.markedAt.keys = [])))
  | .register _ _ => inferInstanceAs (Decidable True)
  | .markDirty _ => inferInstanceAs (Decidable True)

variable {state next : State} {label : Label} {file : String}
  {files simulatedErrors : List String} {clock mark : ℕ}
  {times : InsertionMap String ℕ}

theorem get_stamp :
    (stamp files clock times).get file =
      if file ∈ files then some clock else times.get file := by
  rw [stamp]
  induction files generalizing times with
  | nil => rfl
  | cons first rest ih =>
      rw [List.foldl_cons, ih, InsertionMap.get_set]
      by_cases heq : file = first
      · simp [heq]
      · simp [heq]

theorem get_stamp_of_not_mem (hnot : file ∉ files) :
    (stamp files clock times).get file = times.get file :=
  get_stamp.trans (if_neg hnot)

/-! ## Steps -/

theorem step_markDirty_eq_some :
    step state (.markDirty file) = some next ↔
      ∃ affected compiler,
        collectAffected [file] state.compiler.graph = some affected ∧
        state.compiler.markDirty file = some compiler ∧
        next = { state with
          compiler := compiler
          clock := state.clock + 1
          markedAt :=
            stamp affected.elements state.clock state.markedAt } := by
  simp only [step, Option.bind_eq_some_iff, Option.map_eq_some_iff]
  constructor
  · rintro ⟨affected, haffected, compiler, hcompiler, rfl⟩
    exact ⟨affected, compiler, haffected, hcompiler, rfl⟩
  · rintro ⟨affected, compiler, haffected, hcompiler, rfl⟩
    exact ⟨affected, haffected, compiler, hcompiler, rfl⟩

/-- What a mark makes of the compiler. -/
theorem markDirty_eq {compiler : IncrementalCompiler}
    {affected : InsertionSet String}
    (haffected : collectAffected [file] state.compiler.graph = some affected)
    (hmark : state.compiler.markDirty file = some compiler) :
    compiler = { state.compiler with
      dirtyFiles :=
        affected.elements.foldl .add state.compiler.dirtyFiles } := by
  rw [IncrementalCompiler.markDirty, haffected, Option.map_some,
    Option.some.injEq] at hmark
  exact hmark.symm

/-! ## The invariant -/

structure Invariant (state : State) : Prop where
  pending : ∀ file, file ∈ state.compiler.dirtyFiles ↔ Pending state file
  past : ∀ file, ∀ time ∈ state.compiledAt.get file, time < state.clock
  marked : ∀ file, ∀ mark ∈ state.markedAt.get file, mark < state.clock
  fresh : state.compiler.dirtyCount = 0 →
    ∀ file, ∀ mark ∈ state.markedAt.get file, Fresh state file mark

theorem Invariant.law (hinv : Invariant state) : PendingLaw state :=
  ⟨fun file => (hinv.pending file).mpr, hinv.fresh⟩

theorem invariant_initial : Invariant State.initial where
  pending file := by
    refine iff_of_false (InsertionSet.not_mem_empty file) ?_
    rintro ⟨mark, hmark, -⟩
    cases hmark
  past file time htime := by cases htime
  marked file mark hmark := by cases hmark
  fresh _ file mark hmark := by cases hmark

theorem dirtyCount_eq_zero_iff :
    state.compiler.dirtyCount = 0 ↔
      ∀ file, file ∉ state.compiler.dirtyFiles :=
  InsertionSet.size_eq_zero_iff

/-- A file that was not compiled since its mark is pending. -/
theorem not_pending_iff (hmark : state.markedAt.get file = some mark) :
    ¬Pending state file ↔ ∃ time ∈ state.compiledAt.get file, mark < time := by
  simp [Pending, hmark]

theorem Invariant.register (hinv : Invariant state) (imports : List String) :
    Invariant { state with
      compiler := state.compiler.register file imports
      clock := state.clock + 1 } where
  pending := hinv.pending
  past found time htime := Nat.lt_succ_of_lt (hinv.past found time htime)
  marked found mark hmark := Nat.lt_succ_of_lt (hinv.marked found mark hmark)
  fresh := hinv.fresh

/-- A step that schedules the files that it marks. -/
theorem Invariant.schedule (hinv : Invariant state)
    {compiler : IncrementalCompiler}
    (hdirty : ∀ found, found ∈ compiler.dirtyFiles ↔
      found ∈ files ∨ found ∈ state.compiler.dirtyFiles)
    (hfresh : (∀ found, found ∉ compiler.dirtyFiles) →
      state.markedAt.keys = []) :
    Invariant { state with
      compiler := compiler
      clock := state.clock + 1
      markedAt := stamp files state.clock state.markedAt } := by
  refine ⟨fun found => ?_, fun found time htime =>
    Nat.lt_succ_of_lt (hinv.past found time htime), fun found mark hmark => ?_,
    fun hempty found mark hmark => ?_⟩
  · rw [hdirty, hinv.pending]
    by_cases hfile : found ∈ files
    · refine iff_of_true (.inl hfile) ⟨state.clock, ?_, fun time htime => ?_⟩
      · exact get_stamp.trans (if_pos hfile)
      · exact Nat.le_of_lt (hinv.past found time htime)
    · simp only [Pending, get_stamp, hfile, if_false, false_or]
  · simp only [get_stamp] at hmark
    split at hmark
    · cases hmark
      exact Nat.lt_succ_self _
    · exact Nat.lt_succ_of_lt (hinv.marked found mark hmark)
  · have hnone := InsertionSet.size_eq_zero_iff.mp hempty
    have hnew : found ∉ files := fun hfile =>
      hnone found ((hdirty found).mpr (.inl hfile))
    have hold : found ∈ state.markedAt.keys := by
      simp only [get_stamp, if_neg hnew] at hmark
      exact InsertionMap.mem_keys_iff.mpr (by rw [hmark]; rfl)
    rw [hfresh hnone] at hold
    cases hold

theorem Invariant.compile (hinv : Invariant state)
    (hfails : ∀ file ∈ state.compiler.dirtyFiles.elements,
      file ∉ simulatedErrors)
    (houtputs : ∀ file ∈ state.markedAt.keys,
      file ∈ state.compiler.dirtyFiles ∨
        state.compiler.isCompiled file = true) :
    Invariant { state with
      compiler := (state.compiler.compile simulatedErrors).1
      clock := state.clock + 1
      compiledAt := stamp
        (state.compiler.compile simulatedErrors).2.recompiledFiles
        state.clock state.compiledAt } := by
  have hcompiled : ∀ file ∈ state.compiler.dirtyFiles,
      file ∈ (state.compiler.compile simulatedErrors).2.recompiledFiles :=
    fun file hfile =>
      IncrementalCompiler.mem_recompiledFiles.mpr ⟨hfile, hfails file hfile⟩
  have hfresh : ∀ file, ∀ mark ∈ state.markedAt.get file,
      ∃ time ∈ (stamp
        (state.compiler.compile simulatedErrors).2.recompiledFiles
        state.clock state.compiledAt).get file, mark < time := by
    intro file mark hmark
    rw [get_stamp]
    split
    · exact ⟨state.clock, rfl, hinv.marked file mark hmark⟩
    · rename_i hnot
      refine (not_pending_iff hmark).mp fun hpending => ?_
      exact hnot (hcompiled file ((hinv.pending file).mpr hpending))
  refine ⟨fun file => ?_, fun file time htime => ?_, fun file mark hmark =>
    Nat.lt_succ_of_lt (hinv.marked file mark hmark),
    fun _ file mark hmark => ⟨?_, hfresh file mark hmark⟩⟩
  · refine iff_of_false (InsertionSet.not_mem_empty file) ?_
    rintro ⟨mark, hmark, hnone⟩
    obtain ⟨time, htime, hlt⟩ := hfresh file mark hmark
    exact Nat.not_lt_of_ge (hnone time htime) hlt
  · simp only [get_stamp] at htime
    split at htime
    · cases htime
      exact Nat.lt_succ_self _
    · exact Nat.lt_succ_of_lt (hinv.past file time htime)
  · have hkey : file ∈ state.markedAt.keys :=
      InsertionMap.mem_keys_iff.mpr (by rw [Option.mem_def.mp hmark]; rfl)
    refine IncrementalCompiler.isCompiled_compile.mpr ?_
    exact (houtputs file hkey).imp_left fun hdirty =>
      ⟨hdirty, hfails file hdirty⟩

theorem Invariant.step (hinv : Invariant state)
    (hkeeps : KeepsPending state label)
    (hstep : step state label = some next) : Invariant next := by
  cases label with
  | register file imports =>
      cases hstep
      exact hinv.register imports
  | markDirty file =>
      obtain ⟨affected, compiler, haffected, hcompiler, rfl⟩ :=
        step_markDirty_eq_some.mp hstep
      have hdirty : ∀ found, found ∈ compiler.dirtyFiles ↔
          found ∈ affected.elements ∨
            found ∈ state.compiler.dirtyFiles := by
        intro found
        rw [markDirty_eq haffected hcompiler]
        exact InsertionSet.mem_foldl_add
      have hfile : file ∈ compiler.dirtyFiles :=
        (IncrementalCompiler.mem_dirtyFiles_markDirty hcompiler).mpr
          (.inl .refl)
      exact hinv.schedule hdirty fun hnone => absurd hfile (hnone file)
  | compile simulatedErrors =>
      cases hstep
      exact hinv.compile hkeeps.1 hkeeps.2
  | invalidateAll =>
      cases hstep
      obtain ⟨hregistered, hempty⟩ := hkeeps
      refine hinv.schedule (fun found => ?_) fun hnone => ?_
      · rw [IncrementalCompiler.mem_dirtyFiles_invalidateAll]
        exact (or_iff_left_of_imp (hregistered found)).symm
      · refine hempty (List.eq_nil_iff_forall_not_mem.mpr fun found hkey => ?_)
        exact hnone found
          (IncrementalCompiler.mem_dirtyFiles_invalidateAll.mpr hkey)

/-- A compilation with a failing file, or without the output of one that was
marked, or a schedule that leaves out a file that is in it. -/
theorem Invariant.not_law_of_step (hinv : Invariant state)
    (hnot : ¬KeepsPending state label)
    (hstep : PendingWork.step state label = some next) :
    ¬PendingLaw next := by
  intro hlaw
  apply hnot
  cases label with
  | register file imports => trivial
  | markDirty file => trivial
  | compile simulatedErrors =>
      cases hstep
      have hgone : ∀ file, ¬Pending _ file := fun file hpending =>
        InsertionSet.not_mem_empty file (hlaw.scheduled file hpending)
      refine ⟨fun file hfile herror => hgone file ?_, fun file hkey => ?_⟩
      · obtain ⟨mark, hmark, hnone⟩ := (hinv.pending file).mp hfile
        refine ⟨mark, hmark, fun time htime => hnone time ?_⟩
        have hskipped : file ∉
            (state.compiler.compile simulatedErrors).2.recompiledFiles :=
          fun hmem =>
            (IncrementalCompiler.mem_recompiledFiles.mp hmem).2 herror
        exact (get_stamp_of_not_mem hskipped).symm.trans htime
      · obtain ⟨mark, hmark⟩ := Option.isSome_iff_exists.mp
          (InsertionMap.mem_keys_iff.mp hkey)
        obtain ⟨houtput, -⟩ := hlaw.fresh rfl file mark hmark
        exact (IncrementalCompiler.isCompiled_compile.mp houtput).imp_left
          And.left
  | invalidateAll =>
      cases hstep
      refine ⟨fun file hfile => ?_, fun hempty => ?_⟩
      · by_contra hkey
        obtain ⟨mark, hmark, hnone⟩ := (hinv.pending file).mp hfile
        refine hkey (IncrementalCompiler.mem_dirtyFiles_invalidateAll.mp
          (hlaw.scheduled file ⟨mark, ?_, hnone⟩))
        exact (get_stamp_of_not_mem hkey).trans hmark
      · refine List.eq_nil_iff_forall_not_mem.mpr fun file hkey => ?_
        obtain ⟨mark, hmark⟩ := Option.isSome_iff_exists.mp
          (InsertionMap.mem_keys_iff.mp hkey)
        have hcount : state.compiler.invalidateAll.dirtyCount = 0 := by
          rw [IncrementalCompiler.dirtyCount, InsertionSet.size_eq_zero_iff]
          intro found hfound
          rw [IncrementalCompiler.mem_dirtyFiles_invalidateAll, hempty]
            at hfound
          cases hfound
        have hnew : file ∉ state.compiler.graph.keys := by
          rw [hempty]
          exact List.not_mem_nil
        have hfresh := hlaw.fresh hcount file mark
          ((get_stamp_of_not_mem hnew).trans hmark)
        cases hfresh.1

/-- In a run, every file that was marked is scheduled until it is compiled,
and has an output newer than its mark when nothing is scheduled, if and only
if no scheduled file fails to compile and none is left out of a new
schedule. -/
theorem pendingLaw_iff_keepsPending {labels : List Label}
    (hrun : exec step State.initial labels = some state) :
    Throughout step PendingLaw State.initial labels ↔
      StepsMeet step KeepsPending State.initial labels :=
  throughout_iff_stepsMeet (I := Invariant)
    (fun _ hinv => hinv.law)
    (fun _ _ _ hinv hkeeps hstep => hinv.step hkeeps hstep)
    (fun _ _ _ hinv hnot hstep => hinv.not_law_of_step hnot hstep)
    invariant_initial hrun

/-- A file is marked and compiled. -/
def compileWith (simulatedErrors : List String) : List Label :=
  [.register "src/A.ts" [], .markDirty "src/A.ts", .compile simulatedErrors]

theorem pendingLaw_iff_keepsPending_samples :
    Throughout step PendingLaw State.initial
        (compileWith [] ++ [.invalidateAll, .compile ["src/B.ts"]]) ∧
      ¬Throughout step PendingLaw State.initial
        (compileWith ["src/A.ts"]) := by
  have hsuccess : (exec step State.initial
      (compileWith [] ++ [.invalidateAll, .compile ["src/B.ts"]])).isSome := by
    decide +kernel
  have hfailure : (exec step State.initial
      (compileWith ["src/A.ts"])).isSome := by
    decide +kernel
  obtain ⟨_, hsuccess⟩ := Option.isSome_iff_exists.mp hsuccess
  obtain ⟨_, hfailure⟩ := Option.isSome_iff_exists.mp hfailure
  constructor
  · apply (pendingLaw_iff_keepsPending hsuccess).mpr
    decide +kernel
  · intro hlaw
    have hmeet := (pendingLaw_iff_keepsPending hfailure).mp hlaw
    exact absurd hmeet (by decide +kernel)

/-- After a compilation that failed nothing is scheduled, although the file
has no output. -/
theorem not_pendingLaw_of_failure :
    ∃ state, exec step State.initial (compileWith ["src/A.ts"]) =
        some state ∧
      state.markedAt.get "src/A.ts" = some 1 ∧
      state.compiler.dirtyCount = 0 ∧
      state.compiler.isCompiled "src/A.ts" = false ∧ ¬PendingLaw state := by
  have hends : (exec step State.initial (compileWith ["src/A.ts"])).any
      (fun state => decide
        (state.markedAt.get "src/A.ts" = some 1 ∧
          state.compiler.dirtyCount = 0 ∧
          state.compiler.isCompiled "src/A.ts" = false)) = true := by
    decide +kernel
  obtain ⟨state, hrun, hfacts⟩ := (Option.any_eq_true _ _).mp hends
  obtain ⟨hmark, hcount, houtput⟩ := of_decide_eq_true hfacts
  refine ⟨state, hrun, hmark, hcount, houtput, fun hlaw => ?_⟩
  have hfresh := hlaw.fresh hcount "src/A.ts" 1 hmark
  rw [hfresh.1] at houtput
  cases houtput

end TsCommons.Hotreload.PendingWork
