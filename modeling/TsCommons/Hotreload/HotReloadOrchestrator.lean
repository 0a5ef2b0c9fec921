import TsCommons.Hotreload.Debouncing
import TsCommons.Hotreload.Invalidation
import TsCommons.Hotreload.TestRefresher

/-!
# The hot-reload orchestrator

An event that comes while the orchestrator is watching is put into the entries
of the watch manager, and the entries that are due are dispatched: what they
say to have changed is compiled again, with the files that have imported it
since it was registered, or has its tests run.  Every event that is taken in
waits in an entry or has been dispatched.
-/

namespace TsCommons.Hotreload

open Foundations Invalidation

inductive OrchestratorStatus
  | idle
  | watching
  | compiling
  | testing
  | error
deriving DecidableEq

structure HotReloadOrchestrator where
  watchManager : WatchManager
  compiler : IncrementalCompiler
  refresher : TestRefresher
  status : OrchestratorStatus
  lastCompile : Option CompileResult
  lastTestRun : Option TestRefreshResult
  watchedCount : ℕ

def affectedMode (events : List WatchEvent) (mode : WatchMode) : List Text :=
  match mode with
  | .compile =>
      (events.filter fun event => event.kind ≠ .remove).map WatchEvent.path
  | .test => events.map WatchEvent.path
  | .both => events.map WatchEvent.path

/-- An entry that was flushed, and the orchestrator before and after it was
dealt with. -/
structure Dispatch where
  entry : DebounceEntry
  before : HotReloadOrchestrator
  after : HotReloadOrchestrator

namespace HotReloadOrchestrator

def create (config : WatchConfig) : HotReloadOrchestrator where
  watchManager := .create config
  compiler := .empty
  refresher := .empty
  status := .idle
  lastCompile := none
  lastTestRun := none
  watchedCount := 0

def start (orchestrator : HotReloadOrchestrator) : HotReloadOrchestrator :=
  { orchestrator with status := .watching }

def stop (orchestrator : HotReloadOrchestrator) : HotReloadOrchestrator :=
  { orchestrator with status := .idle }

def registerFile (orchestrator : HotReloadOrchestrator) (file : String)
    (imports : List String) : HotReloadOrchestrator :=
  { orchestrator with
    compiler := orchestrator.compiler.register file imports
    watchedCount := orchestrator.watchedCount + 1 }

def registerTestFiles (orchestrator : HotReloadOrchestrator)
    (tests : List Text) : HotReloadOrchestrator :=
  { orchestrator with
    refresher := orchestrator.refresher.addTestFiles tests }

def mapTests (orchestrator : HotReloadOrchestrator) (sourceFile : Text)
    (testFiles : List Text) : HotReloadOrchestrator :=
  { orchestrator with
    refresher := orchestrator.refresher.mapSourceToTests sourceFile testFiles }

def runCompile (orchestrator : HotReloadOrchestrator) (paths : List Text) :
    Option HotReloadOrchestrator :=
  let compiling := { orchestrator with status := .compiling }
  (paths.foldlM (fun compiler path =>
      IncrementalCompiler.markDirty compiler (String.ofList path))
    compiling.compiler).map fun marked =>
      { compiling with
        compiler := (marked.compile []).1
        lastCompile := some (marked.compile []).2
        status := .watching }

def runTests (orchestrator : HotReloadOrchestrator) (paths : List Text) :
    HotReloadOrchestrator :=
  let testing := { orchestrator with status := .testing }
  { testing with
    lastTestRun := some (testing.refresher.refresh paths)
    status := .watching }

def runAffected (orchestrator : HotReloadOrchestrator) (paths : List Text)
    (mode : WatchMode) : Option HotReloadOrchestrator :=
  match mode with
  | .compile => orchestrator.runCompile paths
  | .test => some (orchestrator.runTests paths)
  | .both => (orchestrator.runCompile paths).map (·.runTests paths)

/-- The loop of `handleEvent` over the flushed entries. -/
def runFlushed (orchestrator : HotReloadOrchestrator) :
    List DebounceEntry → Option (HotReloadOrchestrator × List Dispatch)
  | [] => some (orchestrator, [])
  | entry :: rest =>
      let mode := entry.pattern.1.mode
      let paths := affectedMode (entry.events.map Prod.fst) mode
      (orchestrator.runAffected paths mode).bind fun next =>
        (next.runFlushed rest).map fun flushed =>
          (flushed.1, ⟨entry, orchestrator, next⟩ :: flushed.2)

/-- The clock reads `clock` when the event is received, and `elapsed` later
for a pattern; a glob that throws ends the call.  With what is dispatched. -/
def handleEvent (orchestrator : HotReloadOrchestrator) (event : WatchEvent)
    (now clock : ℚ) (elapsed : ℕ → ℕ) :
    Option (HotReloadOrchestrator × List Dispatch) :=
  if orchestrator.status ≠ .watching then some (orchestrator, [])
  else
    let receipt := orchestrator.watchManager.receive event clock elapsed
    let received := { orchestrator with watchManager := receipt.1 }
    match receipt.2 with
    | none => some (received, [])
    | some [] => some (received, [])
    | some (_ :: _) =>
        let flush := received.watchManager.flush (now + 1)
        { received with watchManager := flush.1 }.runFlushed flush.2

def recompileAll (orchestrator : HotReloadOrchestrator) :
    HotReloadOrchestrator :=
  let compiled := orchestrator.compiler.invalidateAll.compile []
  { orchestrator with
    compiler := compiled.1
    lastCompile := some compiled.2 }

/-! ## Runs -/

/-- `accepted` are the events that were taken in, with their numbers in the
event log; a dispatch stands with the calls of `registerFile` before it. -/
structure State where
  orchestrator : HotReloadOrchestrator
  registrations : List Registration
  accepted : List (WatchEvent × ℕ)
  dispatches : List (Dispatch × List Registration)

def State.initial (config : WatchConfig) : State := ⟨create config, [], [], []⟩

inductive Label
  | start
  | stop
  | registerFile (file : String) (imports : List String)
  | registerTestFiles (tests : List Text)
  | mapTests (sourceFile : Text) (testFiles : List Text)
  | handleEvent (event : WatchEvent) (now clock : ℚ) (elapsed : ℕ → ℕ)
  | recompileAll

/-- The event gets to the call of `flush`. -/
def accepts (orchestrator : HotReloadOrchestrator) (event : WatchEvent)
    (clock : ℚ) (elapsed : ℕ → ℕ) : Bool :=
  decide (orchestrator.status = .watching) &&
    match (orchestrator.watchManager.receive event clock elapsed).2 with
    | some (_ :: _) => true
    | _ => false

def step (state : State) : Label → Option State
  | .start => some { state with orchestrator := state.orchestrator.start }
  | .stop => some { state with orchestrator := state.orchestrator.stop }
  | .registerFile file imports =>
      some { state with
        orchestrator := state.orchestrator.registerFile file imports
        registrations := state.registrations ++ [⟨file, imports⟩] }
  | .registerTestFiles tests =>
      some { state with
        orchestrator := state.orchestrator.registerTestFiles tests }
  | .mapTests sourceFile testFiles =>
      some { state with
        orchestrator := state.orchestrator.mapTests sourceFile testFiles }
  | .handleEvent event now clock elapsed =>
      (state.orchestrator.handleEvent event now clock elapsed).map
        fun handled =>
          { state with
            orchestrator := handled.1
            accepted :=
              if state.orchestrator.accepts event clock elapsed then
                state.accepted ++
                  [(event, state.orchestrator.watchManager.eventLog.length)]
              else state.accepted
            dispatches := state.dispatches ++
              handled.2.map fun dispatch => (dispatch, state.registrations) }
  | .recompileAll =>
      some { state with orchestrator := state.orchestrator.recompileAll }

end HotReloadOrchestrator

/-! ## What is dispatched -/

def Dispatch.mode (dispatch : Dispatch) : WatchMode :=
  dispatch.entry.pattern.1.mode

/-- What the events of the entry say to have changed. -/
def Dispatch.paths (dispatch : Dispatch) : List Text :=
  affectedMode (dispatch.entry.events.map Prod.fst) dispatch.mode

/-- The file is compiled again when the other one changes: it is that one, or
has imported a registered file that is, at some time since the latest
registration of that file. -/
def AffectedBy (registrations : List Registration) (file other : String) :
    Prop :=
  Relation.ReflTransGen
    (fun found importer => (latestImports registrations found).isSome = true ∧
      HasImported registrations importer found) other file

/-- The files that what has changed affects are compiled, and no other ones,
all importers of a registered path among them; the tests it calls for are
run. -/
structure Dispatch.Law (registrations : List Registration)
    (dispatch : Dispatch) : Prop where
  compiled : dispatch.mode ≠ .test →
    ∃ result ∈ dispatch.after.lastCompile,
      (∀ file, file ∈ result.recompiledFiles ↔
        ∃ path ∈ dispatch.paths,
          AffectedBy registrations file (String.ofList path)) ∧
      ∀ path ∈ dispatch.paths,
        (latestImports registrations (String.ofList path)).isSome = true →
          ∀ file, Reaches registrations file (String.ofList path) →
            file ∈ result.recompiledFiles
  tested : dispatch.mode ≠ .compile →
    ∃ result ∈ dispatch.after.lastTestRun, ∀ test,
      (test ∈ result.testFiles ↔
        ∃ path ∈ dispatch.paths,
          dispatch.before.refresher.Covers path test) ∧
      (test ∈ result.skippedFiles ↔
        test ∈ dispatch.before.refresher.knownTests ∧
          test ∉ result.testFiles)

namespace HotReloadOrchestrator

/-- Between two calls nothing is dirty. -/
structure Rests (registrations : List Registration)
    (orchestrator : HotReloadOrchestrator) : Prop where
  clean : ∀ file, file ∉ orchestrator.compiler.dirtyFiles
  graph : orchestrator.compiler.graph = (registerAll registrations).graph

variable {orchestrator next : HotReloadOrchestrator}
  {registrations : List Registration} {paths : List Text}
  {mode : WatchMode} {file other : String}

/-- The dependents of the graph are the files that have imported it. -/
theorem reflTransGen_dependentsOf_iff :
    Relation.ReflTransGen (fun found importer =>
        importer ∈ dependentsOf (registerAll registrations).graph found)
      other file ↔ AffectedBy registrations file other := by
  have hdependents : ∀ found importer,
      importer ∈ dependentsOf (registerAll registrations).graph found ↔
        (latestImports registrations found).isSome = true ∧
          HasImported registrations importer found := by
    intro found importer
    cases hregistered : (latestImports registrations found).isSome with
    | true =>
        rw [mem_dependentsOf_registerAll hregistered]
        exact (and_iff_right rfl).symm
    | false =>
        rw [dependentsOf_registerAll_of_isNone hregistered]
        exact iff_of_false List.not_mem_nil fun himported =>
          absurd himported.1 Bool.false_ne_true
  simp only [hdependents]
  rfl

theorem markDirty_foldlM {compiler marked : IncrementalCompiler}
    (hmarked : paths.foldlM (fun compiler path =>
      IncrementalCompiler.markDirty compiler (String.ofList path)) compiler =
        some marked) :
    marked.graph = compiler.graph ∧
      ∀ file, file ∈ marked.dirtyFiles ↔
        (∃ path ∈ paths, Relation.ReflTransGen
          (fun found importer => importer ∈ dependentsOf compiler.graph found)
          (String.ofList path) file) ∨
        file ∈ compiler.dirtyFiles := by
  induction paths generalizing compiler with
  | nil =>
      cases hmarked
      simp
  | cons first rest ih =>
      rw [List.foldlM_cons] at hmarked
      obtain ⟨middle, hfirst, hrest⟩ := Option.bind_eq_some_iff.mp hmarked
      obtain ⟨hgraph, hdirty⟩ := ih hrest
      have hmiddle : middle.graph = compiler.graph := by
        obtain ⟨affected, -, rfl⟩ := Option.map_eq_some_iff.mp hfirst
        rfl
      refine ⟨hgraph.trans hmiddle, fun file => ?_⟩
      rw [hdirty, hmiddle, IncrementalCompiler.mem_dirtyFiles_markDirty hfirst,
        List.exists_mem_cons_iff, or_assoc, or_left_comm]

theorem isSome_foldlM_markDirty (compiler : IncrementalCompiler)
    (paths : List Text) :
    (paths.foldlM (fun compiler path =>
      IncrementalCompiler.markDirty compiler (String.ofList path))
        compiler).isSome = true := by
  induction paths generalizing compiler with
  | nil => rfl
  | cons first rest ih =>
      obtain ⟨middle, hfirst⟩ := Option.isSome_iff_exists.mp
        (IncrementalCompiler.isSome_markDirty compiler (String.ofList first))
      rw [List.foldlM_cons, hfirst]
      exact ih middle

/-- What an entry is dealt with leaves everything but the outputs. -/
structure Keeps (orchestrator next : HotReloadOrchestrator) : Prop where
  watchManager : next.watchManager = orchestrator.watchManager
  graph : next.compiler.graph = orchestrator.compiler.graph
  refresher : next.refresher = orchestrator.refresher
  status : next.status = .watching
  clean : ∀ file, file ∉ next.compiler.dirtyFiles

theorem runCompile_spec (hrests : Rests registrations orchestrator)
    (hrun : orchestrator.runCompile paths = some next) :
    Keeps orchestrator next ∧
      ∃ result ∈ next.lastCompile,
        ∀ file, file ∈ result.recompiledFiles ↔
          ∃ path ∈ paths,
            AffectedBy registrations file (String.ofList path) := by
  obtain ⟨marked, hmarked, rfl⟩ := Option.map_eq_some_iff.mp hrun
  obtain ⟨hgraph, hdirty⟩ := markDirty_foldlM hmarked
  refine ⟨⟨rfl, hgraph, rfl, rfl, InsertionSet.not_mem_empty⟩, _, rfl,
    fun file => ?_⟩
  rw [IncrementalCompiler.mem_recompiledFiles, hdirty,
    or_iff_left (hrests.clean file), and_iff_left List.not_mem_nil,
    hrests.graph]
  simp only [reflTransGen_dependentsOf_iff]

theorem isSome_runCompile (orchestrator : HotReloadOrchestrator)
    (paths : List Text) : (orchestrator.runCompile paths).isSome = true := by
  rw [runCompile, Option.isSome_map]
  exact isSome_foldlM_markDirty _ paths

theorem Keeps.rests (hkeeps : Keeps orchestrator next)
    (hrests : Rests registrations orchestrator) : Rests registrations next :=
  ⟨hkeeps.clean, hkeeps.graph.trans hrests.graph⟩

theorem keeps_runTests (hrests : Rests registrations orchestrator)
    (paths : List Text) : Keeps orchestrator (orchestrator.runTests paths) :=
  ⟨rfl, rfl, rfl, rfl, hrests.clean⟩

theorem Keeps.runTests (hkeeps : Keeps orchestrator next)
    (paths : List Text) : Keeps orchestrator (next.runTests paths) :=
  ⟨hkeeps.watchManager, hkeeps.graph, hkeeps.refresher, rfl, hkeeps.clean⟩

theorem runAffected_law (hrests : Rests registrations orchestrator)
    {entry : DebounceEntry}
    (hrun : orchestrator.runAffected
      (affectedMode (entry.events.map Prod.fst) entry.pattern.1.mode)
      entry.pattern.1.mode = some next) :
    Keeps orchestrator next ∧
      Dispatch.Law registrations ⟨entry, orchestrator, next⟩ := by
  have himporters : ∀ result : CompileResult, (∀ file,
      file ∈ result.recompiledFiles ↔
        ∃ path ∈ affectedMode (entry.events.map Prod.fst)
            entry.pattern.1.mode,
          AffectedBy registrations file (String.ofList path)) →
      ∀ path ∈ affectedMode (entry.events.map Prod.fst)
          entry.pattern.1.mode,
        (latestImports registrations (String.ofList path)).isSome = true →
          ∀ file, Reaches registrations file (String.ofList path) →
            file ∈ result.recompiledFiles := by
    intro result hexact path hpath hregistered file hreaches
    refine (hexact file).mpr ⟨path, hpath, ?_⟩
    exact reflTransGen_dependentsOf_iff.mp
      (marked_of_reaches hreaches hregistered)
  cases hmode : entry.pattern.1.mode with
  | compile =>
      rw [hmode] at hrun himporters
      obtain ⟨hkeeps, result, hresult, hexact⟩ := runCompile_spec hrests hrun
      refine ⟨hkeeps, fun _ => ⟨result, hresult, ?_⟩, fun hnot => ?_⟩
      · rw [Dispatch.paths, Dispatch.mode, hmode]
        exact ⟨hexact, himporters result hexact⟩
      · exact absurd hmode hnot
  | test =>
      rw [hmode] at hrun
      cases hrun
      refine ⟨keeps_runTests hrests _, fun hnot => absurd hmode hnot,
        fun _ => ⟨_, rfl, ?_⟩⟩
      rw [Dispatch.paths, Dispatch.mode, hmode]
      exact TestRefresher.mem_refresh _ _
  | both =>
      rw [hmode] at hrun himporters
      obtain ⟨compiled, hcompiled, rfl⟩ := Option.map_eq_some_iff.mp hrun
      obtain ⟨hkeeps, result, hresult, hexact⟩ :=
        runCompile_spec hrests hcompiled
      refine ⟨hkeeps.runTests _, fun _ => ⟨result, hresult, ?_⟩,
        fun _ => ⟨_, rfl, ?_⟩⟩
      · rw [Dispatch.paths, Dispatch.mode, hmode]
        exact ⟨hexact, himporters result hexact⟩
      · rw [Dispatch.paths, Dispatch.mode, hmode, ← hkeeps.refresher]
        exact TestRefresher.mem_refresh _ _

theorem isSome_runAffected (orchestrator : HotReloadOrchestrator)
    (paths : List Text) (mode : WatchMode) :
    (orchestrator.runAffected paths mode).isSome = true := by
  cases mode with
  | compile => exact isSome_runCompile orchestrator paths
  | test => rfl
  | both =>
      rw [runAffected, Option.isSome_map]
      exact isSome_runCompile orchestrator paths

/-- What a flush hands out is dispatched, entry after entry. -/
theorem runFlushed_law (hrests : Rests registrations orchestrator)
    {entries : List DebounceEntry} {last : HotReloadOrchestrator}
    {dispatches : List Dispatch}
    (hrun : orchestrator.runFlushed entries = some (last, dispatches)) :
    Rests registrations last ∧
      (last.status = orchestrator.status ∨ last.status = .watching) ∧
      last.watchManager = orchestrator.watchManager ∧
      dispatches.map Dispatch.entry = entries ∧
      ∀ dispatch ∈ dispatches, dispatch.Law registrations := by
  induction entries generalizing orchestrator last dispatches with
  | nil =>
      cases hrun
      exact ⟨hrests, .inl rfl, rfl, rfl, List.forall_mem_nil _⟩
  | cons entry rest ih =>
      simp only [runFlushed] at hrun
      obtain ⟨next, hnext, hrest⟩ := Option.bind_eq_some_iff.mp hrun
      obtain ⟨flushed, hflushed, heq⟩ := Option.map_eq_some_iff.mp hrest
      cases heq
      obtain ⟨hkeeps, hlaw⟩ := runAffected_law hrests hnext
      obtain ⟨hlast, hstatus, hmanager, hentries, hlaws⟩ :=
        ih (hkeeps.rests hrests) hflushed
      rw [hkeeps.status, or_self] at hstatus
      refine ⟨hlast, .inr hstatus, hmanager.trans hkeeps.watchManager,
        ?_, ?_⟩
      · rw [List.map_cons, hentries]
      · exact List.forall_mem_cons.mpr ⟨hlaw, hlaws⟩

theorem isSome_runFlushed (orchestrator : HotReloadOrchestrator)
    (entries : List DebounceEntry) :
    (orchestrator.runFlushed entries).isSome = true := by
  induction entries generalizing orchestrator with
  | nil => rfl
  | cons entry rest ih =>
      obtain ⟨next, hnext⟩ := Option.isSome_iff_exists.mp
        (isSome_runAffected orchestrator
          (affectedMode (entry.events.map Prod.fst) entry.pattern.1.mode)
          entry.pattern.1.mode)
      simp only [runFlushed]
      rw [hnext, Option.bind_some, Option.isSome_map]
      exact ih next

end HotReloadOrchestrator

/-! ## What waits -/

def WatchManager.Waiting (manager : WatchManager) (event : WatchEvent × ℕ) :
    Prop :=
  ∃ entry ∈ manager.debounceMap.values, event ∈ entry.events

section Waiting

variable {manager : WatchManager} {waiting : WatchEvent × ℕ}
  {event : WatchEvent} {clock : ℚ} {elapsed : ℕ → ℕ}
  {matched : List (WatchPattern × ℕ)}

theorem waiting_scheduleAll {debounceMap : InsertionMap Text DebounceEntry}
    {entry : DebounceEntry} (hentry : entry ∈ debounceMap.values)
    (hmem : waiting ∈ entry.events) (arrived : WatchEvent × ℕ) :
    ∃ later ∈ (Debouncing.scheduleAll arrived clock elapsed matched
      debounceMap).values, waiting ∈ later.events := by
  obtain ⟨key, hget⟩ := InsertionMap.mem_values_iff.mp hentry
  obtain ⟨later, hlater, -, extra, hevents, -⟩ :=
    Debouncing.get_scheduleAll_of_some arrived clock elapsed matched hget
  refine ⟨later, InsertionMap.mem_values_iff.mpr ⟨key, hlater⟩, ?_⟩
  rw [hevents]
  exact List.mem_append_left _ hmem

theorem waiting_scheduleAll_new (arrived : WatchEvent × ℕ)
    (pattern : WatchPattern × ℕ)
    (debounceMap : InsertionMap Text DebounceEntry) :
    ∃ later ∈ (Debouncing.scheduleAll arrived clock elapsed
      (pattern :: matched) debounceMap).values, arrived ∈ later.events := by
  have hget := Debouncing.get_scheduleDebounce arrived pattern
    (clock + elapsed pattern.2) debounceMap
    (debounceKey pattern.1 arrived.1.path)
  rw [if_pos rfl] at hget
  obtain ⟨entry, hentry, hmem⟩ : ∃ entry, (scheduleDebounce arrived pattern
      (clock + elapsed pattern.2) debounceMap).get
        (debounceKey pattern.1 arrived.1.path) = some entry ∧
      arrived ∈ entry.events := by
    cases hold : debounceMap.get (debounceKey pattern.1 arrived.1.path) with
    | none =>
        rw [hold] at hget
        exact ⟨_, hget, List.mem_singleton_self _⟩
    | some existing =>
        rw [hold] at hget
        exact ⟨_, hget, List.mem_append_right _ (List.mem_singleton_self _)⟩
  exact waiting_scheduleAll (InsertionMap.mem_values_iff.mpr ⟨_, hentry⟩) hmem
    arrived

theorem WatchManager.Waiting.receive (hwaiting : manager.Waiting waiting)
    (event : WatchEvent) (clock : ℚ) (elapsed : ℕ → ℕ) :
    (manager.receive event clock elapsed).1.Waiting waiting := by
  obtain ⟨entry, hentry, hmem⟩ := hwaiting
  unfold WatchManager.receive
  split
  · exact ⟨entry, hentry, hmem⟩
  · dsimp only
    split
    · exact ⟨entry, hentry, hmem⟩
    · exact waiting_scheduleAll hentry hmem _

/-- An event with a matching pattern waits. -/
theorem WatchManager.waiting_receive {first : WatchPattern × ℕ}
    {rest : List (WatchPattern × ℕ)}
    (hmatched : (manager.receive event clock elapsed).2 =
      some (first :: rest)) :
    (manager.receive event clock elapsed).1.Waiting
      (event, manager.eventLog.length) := by
  unfold WatchManager.receive at hmatched ⊢
  split at hmatched
  · cases hmatched
  next hignored =>
    rw [if_neg hignored]
    dsimp only at hmatched ⊢
    split at hmatched
    · cases hmatched
    next heq =>
      cases hmatched
      exact waiting_scheduleAll_new _ first _

theorem WatchManager.Waiting.flush (hwaiting : manager.Waiting waiting)
    (now : ℚ) :
    (manager.flush now).1.Waiting waiting ∨
      ∃ entry ∈ (manager.flush now).2, waiting ∈ entry.events := by
  obtain ⟨entry, hentry, hmem⟩ := hwaiting
  by_cases hdue : entry.scheduledAt ≤ now
  · exact .inr ⟨entry, List.mem_filter.mpr ⟨hentry, decide_eq_true hdue⟩,
      hmem⟩
  · refine .inl ⟨entry, ?_, hmem⟩
    obtain ⟨key, hget⟩ := InsertionMap.mem_values_iff.mp hentry
    rw [InsertionMap.get_eq_some_iff] at hget
    apply InsertionMap.mem_values_iff.mpr
    refine ⟨key, InsertionMap.get_eq_some_iff.mpr ?_⟩
    refine List.mem_filter.mpr ⟨hget, ?_⟩
    simpa using hdue

end Waiting

namespace HotReloadOrchestrator

/-- Every event that was taken in waits or has been dispatched, and a dispatch
does what it is for. -/
structure OrchestratorLaw (state : State) : Prop where
  settled : state.orchestrator.status = .idle ∨
    state.orchestrator.status = .watching
  unlost : ∀ event ∈ state.accepted,
    state.orchestrator.watchManager.Waiting event ∨
      ∃ dispatch ∈ state.dispatches, event ∈ dispatch.1.entry.events
  lawful : ∀ dispatch ∈ state.dispatches, dispatch.1.Law dispatch.2

structure Invariant (state : State) : Prop extends OrchestratorLaw state where
  rests : Rests state.registrations state.orchestrator

variable {state after : State} {label : Label} {event : WatchEvent}
  {now clock : ℚ} {elapsed : ℕ → ℕ} {dispatches : List Dispatch}

theorem invariant_initial (config : WatchConfig) :
    Invariant (State.initial config) where
  settled := .inl rfl
  unlost _ hevent := nomatch hevent
  lawful _ hdispatch := nomatch hdispatch
  rests := ⟨InsertionSet.not_mem_empty, rfl⟩

/-- The events that wait before the call, and the one that is accepted, wait
or are dispatched. -/
theorem handleEvent_spec (hrests : Rests registrations orchestrator)
    (hhandle : orchestrator.handleEvent event now clock elapsed =
      some (next, dispatches)) :
    Rests registrations next ∧
      (next.status = orchestrator.status ∨ next.status = .watching) ∧
      (∀ waiting, orchestrator.watchManager.Waiting waiting ∨
          orchestrator.accepts event clock elapsed = true ∧
            waiting = (event, orchestrator.watchManager.eventLog.length) →
        next.watchManager.Waiting waiting ∨
          ∃ dispatch ∈ dispatches, waiting ∈ dispatch.entry.events) ∧
      ∀ dispatch ∈ dispatches, dispatch.Law registrations := by
  unfold handleEvent at hhandle
  split at hhandle
  next hidle =>
    cases hhandle
    refine ⟨hrests, .inl rfl, fun waiting hwaiting => .inl ?_,
      List.forall_mem_nil _⟩
    refine hwaiting.resolve_right fun haccepts => hidle ?_
    exact of_decide_eq_true (Bool.and_eq_true_iff.mp haccepts.1).1
  next =>
    dsimp only at hhandle
    -- A call that ends before the flush has accepted nothing.
    have hearly : ∀ last : HotReloadOrchestrator,
        last = { orchestrator with
          watchManager :=
            (orchestrator.watchManager.receive event clock elapsed).1 } →
        orchestrator.accepts event clock elapsed = false →
        ∀ waiting, orchestrator.watchManager.Waiting waiting ∨
            orchestrator.accepts event clock elapsed = true ∧
              waiting = (event, orchestrator.watchManager.eventLog.length) →
          last.watchManager.Waiting waiting := by
      rintro last rfl hrefused waiting (hwaiting | ⟨haccepts, -⟩)
      · exact hwaiting.receive event clock elapsed
      · rw [hrefused] at haccepts
        cases haccepts
    split at hhandle
    next hmatched =>
      cases hhandle
      refine ⟨⟨hrests.clean, hrests.graph⟩, .inl rfl,
        fun waiting hwaiting => .inl ?_, List.forall_mem_nil _⟩
      refine hearly _ rfl ?_ waiting hwaiting
      rw [accepts, hmatched, Bool.and_false]
    next hmatched =>
      cases hhandle
      refine ⟨⟨hrests.clean, hrests.graph⟩, .inl rfl,
        fun waiting hwaiting => .inl ?_, List.forall_mem_nil _⟩
      refine hearly _ rfl ?_ waiting hwaiting
      rw [accepts, hmatched, Bool.and_false]
    next first rest hmatched =>
      have hreceived : ∀ waiting,
          orchestrator.watchManager.Waiting waiting ∨
            orchestrator.accepts event clock elapsed = true ∧
              waiting = (event, orchestrator.watchManager.eventLog.length) →
          (orchestrator.watchManager.receive event clock elapsed).1.Waiting
            waiting := by
        rintro waiting (hwaiting | ⟨-, rfl⟩)
        · exact hwaiting.receive event clock elapsed
        · exact WatchManager.waiting_receive hmatched
      have hresting : Rests registrations { orchestrator with
          watchManager := ((orchestrator.watchManager.receive event clock
            elapsed).1.flush (now + 1)).1 } :=
        ⟨hrests.clean, hrests.graph⟩
      obtain ⟨hlast, hstatus, hmanager, hentries, hlaws⟩ :=
        runFlushed_law hresting hhandle
      refine ⟨hlast, hstatus, fun waiting hwaiting => ?_, hlaws⟩
      rcases (hreceived waiting hwaiting).flush (now + 1) with
        hstill | ⟨entry, hentry, hmem⟩
      · rw [hmanager]
        exact .inl hstill
      · rw [← hentries] at hentry
        obtain ⟨dispatch, hdispatch, rfl⟩ := List.mem_map.mp hentry
        exact .inr ⟨dispatch, hdispatch, hmem⟩

theorem Invariant.handleEvent (hinv : Invariant state)
    (hstep : step state (.handleEvent event now clock elapsed) =
      some after) : Invariant after := by
  obtain ⟨⟨next, dispatches⟩, hhandle, rfl⟩ := Option.map_eq_some_iff.mp hstep
  obtain ⟨hrests, hstatus, hwaits, hlaws⟩ :=
    handleEvent_spec hinv.rests hhandle
  refine ⟨⟨?_, fun waiting haccepted => ?_, ?_⟩, hrests⟩
  · rcases hstatus with hsame | hwatching
    · rw [hsame]
      exact hinv.settled
    · exact .inr hwatching
  · have hbefore : waiting ∈ state.accepted ∨
        state.orchestrator.accepts event clock elapsed = true ∧
          waiting =
            (event, state.orchestrator.watchManager.eventLog.length) := by
      dsimp only at haccepted
      split at haccepted
      next haccepts =>
        rw [List.mem_append, List.mem_singleton] at haccepted
        exact haccepted.imp_right fun heq => ⟨haccepts, heq⟩
      next => exact .inl haccepted
    have hdispatched : (∃ dispatch ∈ dispatches,
        waiting ∈ dispatch.entry.events) →
        ∃ dispatch ∈ state.dispatches ++ dispatches.map fun dispatch =>
          (dispatch, state.registrations),
          waiting ∈ dispatch.1.entry.events := by
      rintro ⟨dispatch, hdispatch, hmem⟩
      exact ⟨_, List.mem_append_right _ (List.mem_map_of_mem hdispatch), hmem⟩
    rcases hbefore with hold | hnew
    · rcases hinv.unlost waiting hold with hwaiting | ⟨dispatch, hmem, hin⟩
      · exact (hwaits waiting (.inl hwaiting)).imp_right hdispatched
      · exact .inr ⟨dispatch, List.mem_append_left _ hmem, hin⟩
    · exact (hwaits waiting (.inr hnew)).imp_right hdispatched
  · refine List.forall_mem_append.mpr ⟨hinv.lawful, ?_⟩
    exact List.forall_mem_map.mpr hlaws

theorem Invariant.step (hinv : Invariant state)
    (hstep : step state label = some after) : Invariant after := by
  cases label with
  | start =>
      cases hstep
      exact ⟨⟨.inr rfl, hinv.unlost, hinv.lawful⟩, hinv.rests.1, hinv.rests.2⟩
  | stop =>
      cases hstep
      exact ⟨⟨.inl rfl, hinv.unlost, hinv.lawful⟩, hinv.rests.1, hinv.rests.2⟩
  | registerFile file imports =>
      cases hstep
      refine ⟨⟨hinv.settled, hinv.unlost, hinv.lawful⟩, hinv.rests.1, ?_⟩
      rw [registerAll_concat, IncrementalCompiler.register,
        ← hinv.rests.graph]
      rfl
  | registerTestFiles tests =>
      cases hstep
      exact ⟨⟨hinv.settled, hinv.unlost, hinv.lawful⟩, hinv.rests.1,
        hinv.rests.2⟩
  | mapTests sourceFile testFiles =>
      cases hstep
      exact ⟨⟨hinv.settled, hinv.unlost, hinv.lawful⟩, hinv.rests.1,
        hinv.rests.2⟩
  | handleEvent event now clock elapsed => exact hinv.handleEvent hstep
  | recompileAll =>
      cases hstep
      exact ⟨⟨hinv.settled, hinv.unlost, hinv.lawful⟩,
        InsertionSet.not_mem_empty, hinv.rests.2⟩

/-- No call is left without an answer. -/
theorem isSome_step (state : State) (label : Label) :
    (HotReloadOrchestrator.step state label).isSome = true := by
  cases label with
  | handleEvent event now clock elapsed =>
      rw [HotReloadOrchestrator.step, Option.isSome_map,
        HotReloadOrchestrator.handleEvent]
      split
      · rfl
      · dsimp only
        split
        · rfl
        · rfl
        · exact isSome_runFlushed _ _
  | _ => rfl

/-- In every run, each event that was taken in waits or has been dispatched,
and each dispatch has compiled what the changes affect and run its tests. -/
theorem orchestratorLaw_run (config : WatchConfig) (labels : List Label) :
    ∃ state, exec HotReloadOrchestrator.step (State.initial config) labels =
      some state ∧ OrchestratorLaw state := by
  have hrun := exec_eq_foldl
    (fun state label => (Option.some_get (isSome_step state label)).symm)
    (State.initial config) labels
  exact ⟨_, hrun, (exec_invariant
    (fun _ _ _ hinv hstep => hinv.step hstep) (invariant_initial config)
    hrun).toOrchestratorLaw⟩

/-- A change of an imported file compiles the file that imports it. -/
example :
    ((exec HotReloadOrchestrator.step
        (State.initial ⟨[⟨"src/*".toList, .compile, 0⟩], []⟩)
        [.start, .registerFile "src/b.ts" [],
          .registerFile "src/a.ts" ["src/b.ts"],
          .handleEvent ⟨"src/b.ts".toList, .change, 0⟩ 5 5 fun _ => 0]).bind
      fun state => state.orchestrator.lastCompile.map
        CompileResult.recompiledFiles) = some ["src/b.ts", "src/a.ts"] := by
  decide +kernel

end HotReloadOrchestrator

end TsCommons.Hotreload
