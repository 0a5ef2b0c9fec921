import TsCommons.Hotreload.WatchManager
import TsCommons.Foundations.Execution
import Mathlib.Algebra.Order.Ring.Rat
import Mathlib.Data.Nat.Cast.Order.Ring

/-!
# Entries and their patterns

Each event that is not ignored should be in one entry of each pattern that its
path matches, with the events of its path only.  It is as long as the entry
under the key of a matching pattern is one of that pattern: patterns with one
glob share their keys, and two globs may give one key for different paths.
-/

namespace TsCommons.Hotreload.Debouncing

open Foundations

/-- `arrivals` are the times of the events in the log; the entries that were
flushed stand with the time of the flush. -/
structure State where
  manager : WatchManager
  arrivals : List ℚ
  flushed : List (DebounceEntry × ℚ)

def State.initial (config : WatchConfig) : State := ⟨.create config, [], []⟩

inductive Label
  | receive (event : WatchEvent) (now : ℚ) (elapsed : ℕ → ℕ)
  | flush (now : ℚ)

namespace State

def config (state : State) : WatchConfig := state.manager.config

def receive (state : State) (event : WatchEvent) (now : ℚ)
    (elapsed : ℕ → ℕ) : State :=
  { state with
    manager := (state.manager.receive event now elapsed).1
    arrivals :=
      if isIgnored event.path state.config.ignored then state.arrivals
      else state.arrivals ++ [now] }

def flush (state : State) (now : ℚ) : State :=
  { state with
    manager := (state.manager.flush now).1
    flushed := state.flushed ++
      (state.manager.flush now).2.map fun entry => (entry, now) }

def pending (state : State) : List DebounceEntry :=
  state.manager.debounceMap.values

def entries (state : State) : List DebounceEntry :=
  state.flushed.map Prod.fst ++ state.pending

end State

def step (state : State) : Label → Option State
  | .receive event now elapsed => some (state.receive event now elapsed)
  | .flush now => some (state.flush now)

/-- The entry is one of the pattern with the index, and has the event with the
number. -/
def carries (index number : ℕ) (entry : DebounceEntry) : Bool :=
  entry.pattern.2 = index && entry.events.any fun event => event.2 = number

structure WatchLaw (state : State) : Prop where
  delivered : ∀ number event, state.manager.eventLog[number]? = some event →
    ∀ index pattern, state.config.patterns[index]? = some pattern →
      matchesGlob event.path pattern.glob = some true →
        state.entries.countP (carries index number) = 1
  logged : ∀ entry ∈ state.entries, ∀ event ∈ entry.events,
    state.manager.eventLog[event.2]? = some event.1
  onePath : ∀ entry ∈ state.entries, ∀ event ∈ entry.events,
    ∀ other ∈ entry.events, event.1.path = other.1.path
  ordered : ∀ entry ∈ state.entries,
    entry.events.Pairwise fun event other => event.2 < other.2
  timely : ∀ flushed ∈ state.flushed, ∀ last ∈ flushed.1.events.getLast?,
    ∀ arrival ∈ state.arrivals[last.2]?,
      arrival + flushed.1.pattern.1.debounceMs ≤ flushed.2
  flushes : ∀ late, (∀ entry ∈ state.pending, entry.scheduledAt ≤ late) →
    (state.manager.flush late).2 = state.pending

/-- The entry under the key of each matching pattern is one of that pattern,
and no two of these have the same glob; a glob throws only if no pattern
matches. -/
def Separates (state : State) : Label → Prop
  | .receive event _ _ =>
      isIgnored event.path state.config.ignored = true ∨
        match matchingPatterns event.path state.config.patterns.zipIdx with
        | none => ∀ pattern ∈ state.config.patterns,
            matchesGlob event.path pattern.glob ≠ some true
        | some matched =>
            (∀ pattern ∈ matched, ∀ other ∈ matched,
              pattern.1.glob = other.1.glob → pattern.2 = other.2) ∧
            ∀ pattern ∈ matched, ∀ entry ∈ state.manager.debounceMap.get
                (debounceKey pattern.1 event.path),
              entry.pattern.2 = pattern.2
  | .flush _ => True

instance (state : State) (label : Label) :
    Decidable (Separates state label) :=
  match label with
  | .receive event _ _ =>
      match hmatched : matchingPatterns event.path
          state.config.patterns.zipIdx with
      | none =>
          decidable_of_iff
            (isIgnored event.path state.config.ignored = true ∨
              ∀ pattern ∈ state.config.patterns,
                matchesGlob event.path pattern.glob ≠ some true)
            (by rw [Separates, hmatched])
      | some matched =>
          decidable_of_iff
            (isIgnored event.path state.config.ignored = true ∨
              (∀ pattern ∈ matched, ∀ other ∈ matched,
                pattern.1.glob = other.1.glob → pattern.2 = other.2) ∧
              ∀ pattern ∈ matched, ∀ entry ∈ state.manager.debounceMap.get
                  (debounceKey pattern.1 event.path),
                entry.pattern.2 = pattern.2)
            (by rw [Separates, hmatched])
  | .flush _ => inferInstanceAs (Decidable True)

variable {state next : State} {label : Label} {event : WatchEvent × ℕ}
  {pattern : WatchPattern × ℕ} {matched : List (WatchPattern × ℕ)}
  {debounceMap : InsertionMap Text DebounceEntry}
  {entry old : DebounceEntry} {key : Text} {now : ℚ} {elapsed : ℕ → ℕ}
  {index number : ℕ}

/-! ## Keys -/

theorem path_eq_of_debounceKey_eq {pattern : WatchPattern}
    {path other : Text}
    (hkey : debounceKey pattern path = debounceKey pattern other) :
    path = other :=
  List.cons_inj_right ':' |>.mp (List.append_cancel_left hkey)

theorem glob_eq_of_debounceKey_eq {pattern other : WatchPattern}
    {path : Text} (hkey : debounceKey pattern path = debounceKey other path) :
    pattern.glob = other.glob :=
  List.append_cancel_right hkey

theorem carries_iff :
    carries index number entry = true ↔ entry.pattern.2 = index ∧
      ∃ event ∈ entry.events, event.2 = number := by
  simp [carries]

/-! ## One entry -/

theorem get_scheduleDebounce (event : WatchEvent × ℕ)
    (pattern : WatchPattern × ℕ) (now : ℚ)
    (debounceMap : InsertionMap Text DebounceEntry) (key : Text) :
    (scheduleDebounce event pattern now debounceMap).get key =
      if key = debounceKey pattern.1 event.1.path then
        match debounceMap.get key with
        | some existing => some { existing with
            events := existing.events ++ [event]
            scheduledAt := now + pattern.1.debounceMs }
        | none => some ⟨pattern, [event], now + pattern.1.debounceMs⟩
      else debounceMap.get key := by
  rw [scheduleDebounce]
  by_cases heq : key = debounceKey pattern.1 event.1.path
  · subst heq
    rw [if_pos rfl]
    cases debounceMap.get (debounceKey pattern.1 event.1.path) with
    | none => exact InsertionMap.get_set_self _ _ _
    | some existing => exact InsertionMap.get_set_self _ _ _
  · rw [if_neg heq]
    cases debounceMap.get (debounceKey pattern.1 event.1.path) with
    | none => exact InsertionMap.get_set_of_ne _ _ heq
    | some existing => exact InsertionMap.get_set_of_ne _ _ heq

/-- The loop of `receive`. -/
def scheduleAll (event : WatchEvent × ℕ) (now : ℚ) (elapsed : ℕ → ℕ)
    (matched : List (WatchPattern × ℕ))
    (debounceMap : InsertionMap Text DebounceEntry) :
    InsertionMap Text DebounceEntry :=
  matched.foldl (fun debounceMap pattern =>
    scheduleDebounce event pattern (now + elapsed pattern.2) debounceMap)
    debounceMap

/-- An entry keeps its pattern and gets no event but the new one. -/
theorem get_scheduleAll_of_some (event : WatchEvent × ℕ) (now : ℚ)
    (elapsed : ℕ → ℕ) (matched : List (WatchPattern × ℕ))
    (hget : debounceMap.get key = some old) :
    ∃ entry, (scheduleAll event now elapsed matched debounceMap).get key =
        some entry ∧
      entry.pattern = old.pattern ∧
      ∃ extra, entry.events = old.events ++ extra ∧
        ∀ found ∈ extra, found = event := by
  induction matched generalizing debounceMap old with
  | nil => exact ⟨old, hget, rfl, [], (List.append_nil _).symm, by simp⟩
  | cons first rest ih =>
      have hfirst := get_scheduleDebounce event first (now + elapsed first.2)
        debounceMap key
      rw [hget] at hfirst
      by_cases heq : key = debounceKey first.1 event.1.path
      · rw [if_pos heq] at hfirst
        obtain ⟨entry, hentry, hpattern, extra, hevents, hextra⟩ := ih hfirst
        refine ⟨entry, hentry, hpattern, event :: extra, ?_,
          List.forall_mem_cons.mpr ⟨rfl, hextra⟩⟩
        rw [hevents, List.append_assoc, List.singleton_append]
      · rw [if_neg heq] at hfirst
        exact ih hfirst

/-- A new entry is one of a matching pattern, under its key. -/
theorem get_scheduleAll_of_none (hget : debounceMap.get key = none)
    (hentry : (scheduleAll event now elapsed matched debounceMap).get key =
      some entry) :
    entry.pattern ∈ matched ∧
      key = debounceKey entry.pattern.1 event.1.path := by
  induction matched generalizing debounceMap with
  | nil =>
      rw [scheduleAll, List.foldl_nil, hget] at hentry
      cases hentry
  | cons first rest ih =>
      have hfirst := get_scheduleDebounce event first (now + elapsed first.2)
        debounceMap key
      rw [hget] at hfirst
      by_cases heq : key = debounceKey first.1 event.1.path
      · rw [if_pos heq] at hfirst
        obtain ⟨found, hfound, hpattern, -⟩ :=
          get_scheduleAll_of_some event now elapsed rest hfirst
        have hsame : entry = found :=
          Option.some_injective _ (hentry.symm.trans hfound)
        rw [hsame, hpattern]
        exact ⟨List.mem_cons_self, heq⟩
      · rw [if_neg heq] at hfirst
        obtain ⟨hmem, hkey⟩ := ih hfirst hentry
        exact ⟨List.mem_cons_of_mem _ hmem, hkey⟩

/-! ## The invariant -/

structure EntryInvariant (state : State) (entry : DebounceEntry) :
    Prop where
  valid : state.config.patterns[entry.pattern.2]? = some entry.pattern.1
  logged : ∀ event ∈ entry.events,
    state.manager.eventLog[event.2]? = some event.1
  onePath : ∀ event ∈ entry.events, ∀ other ∈ entry.events,
    event.1.path = other.1.path
  ordered : entry.events.Pairwise fun event other => event.2 < other.2
  scheduled : ∃ last ∈ entry.events.getLast?,
    ∀ arrival ∈ state.arrivals[last.2]?,
      arrival + entry.pattern.1.debounceMs ≤ entry.scheduledAt

/-- The last event of the log is still to be put into the entries of the
patterns with the waiting indices. -/
structure Partial (state : State) (waiting : List ℕ) : Prop where
  lengths : state.arrivals.length = state.manager.eventLog.length
  entries : ∀ entry ∈ state.entries, EntryInvariant state entry
  flushedAt : ∀ flushed ∈ state.flushed, flushed.1.scheduledAt ≤ flushed.2
  keyed : ∀ key entry, state.manager.debounceMap.get key = some entry →
    ∀ event ∈ entry.events,
      key = debounceKey entry.pattern.1 event.1.path
  delivered : ∀ number event, state.manager.eventLog[number]? = some event →
    ∀ index pattern, state.config.patterns[index]? = some pattern →
      matchesGlob event.path pattern.glob = some true →
        state.entries.countP (carries index number) =
          if number + 1 = state.manager.eventLog.length ∧ index ∈ waiting
          then 0 else 1

def Invariant (state : State) : Prop := Partial state []

theorem mem_entries_of_get
    (hget : state.manager.debounceMap.get key = some entry) :
    entry ∈ state.entries :=
  List.mem_append_right _ (InsertionMap.mem_values_iff.mpr ⟨key, hget⟩)

theorem Invariant.law (hinv : Invariant state) : WatchLaw state where
  delivered number event hlog index pattern hpattern hmatches := by
    rw [hinv.delivered number event hlog index pattern hpattern hmatches,
      if_neg fun hboth => List.not_mem_nil hboth.2]
  logged entry hentry := (hinv.entries entry hentry).logged
  onePath entry hentry := (hinv.entries entry hentry).onePath
  ordered entry hentry := (hinv.entries entry hentry).ordered
  timely flushed hflushed last hlast arrival harrival := by
    have hentry := hinv.entries flushed.1
      (List.mem_append_left _ (List.mem_map_of_mem hflushed))
    obtain ⟨found, hfound, hscheduled⟩ := hentry.scheduled
    cases Option.mem_unique hlast hfound
    exact (hscheduled arrival harrival).trans
      (hinv.flushedAt flushed hflushed)
  flushes late hlate :=
    List.filter_eq_self.mpr fun entry hentry =>
      decide_eq_true (hlate entry hentry)

theorem invariant_initial (config : WatchConfig) :
    Invariant (State.initial config) where
  lengths := rfl
  entries _ hentry := by cases hentry
  flushedAt _ hflushed := by cases hflushed
  keyed _ _ hget := by cases hget
  delivered _ _ hlog := by cases hlog

/-- An event with a number has been logged. -/
theorem Partial.number_lt {waiting : List ℕ} (hinv : Partial state waiting)
    (hentry : entry ∈ state.entries) (hevent : event ∈ entry.events) :
    event.2 < state.manager.eventLog.length := by
  have hlogged := (hinv.entries entry hentry).logged event hevent
  exact (List.getElem?_eq_some_iff.mp hlogged).1

/-! ## Logging -/

def State.log (state : State) (event : WatchEvent) (now : ℚ) : State :=
  { state with
    manager :=
      { state.manager with eventLog := state.manager.eventLog ++ [event] }
    arrivals := state.arrivals ++ [now] }

theorem EntryInvariant.log (hentry : EntryInvariant state entry)
    (hlengths : state.arrivals.length = state.manager.eventLog.length)
    (event : WatchEvent) (now : ℚ) :
    EntryInvariant (state.log event now) entry := by
  have hbound : ∀ found ∈ entry.events,
      found.2 < state.manager.eventLog.length := fun found hfound =>
    (List.getElem?_eq_some_iff.mp (hentry.logged found hfound)).1
  refine ⟨hentry.valid, fun found hfound => ?_, hentry.onePath,
    hentry.ordered, ?_⟩
  · exact (List.getElem?_append_left (hbound found hfound)).trans
      (hentry.logged found hfound)
  · obtain ⟨last, hlast, hscheduled⟩ := hentry.scheduled
    refine ⟨last, hlast, fun arrival harrival => hscheduled arrival ?_⟩
    have hlt := hbound last (List.mem_of_mem_getLast? hlast)
    rw [← hlengths] at hlt
    exact (List.getElem?_append_left hlt).symm.trans harrival

/-- No entry has the event that is logged. -/
theorem Invariant.countP_carries_new (hinv : Invariant state) (index : ℕ) :
    state.entries.countP (carries index state.manager.eventLog.length) =
      0 := by
  refine List.countP_eq_zero.mpr fun entry hentry hcarries => ?_
  obtain ⟨-, event, hevent, hnumber⟩ := carries_iff.mp hcarries
  have hlt := hinv.number_lt hentry hevent
  rw [hnumber] at hlt
  exact Nat.lt_irrefl _ hlt

theorem Invariant.log (hinv : Invariant state) {event : WatchEvent}
    {waiting : List ℕ} (now : ℚ)
    (hwaiting : ∀ index pattern,
      state.config.patterns[index]? = some pattern →
        matchesGlob event.path pattern.glob = some true →
          index ∈ waiting) :
    Partial (state.log event now) waiting where
  lengths := by
    simp only [State.log, List.length_append, hinv.lengths]
    rfl
  entries entry hentry :=
    (hinv.entries entry hentry).log hinv.lengths event now
  flushedAt := hinv.flushedAt
  keyed := hinv.keyed
  delivered number found hlog index pattern hpattern hmatches := by
    have hlength : (state.log event now).manager.eventLog.length =
        state.manager.eventLog.length + 1 := by
      simp [State.log]
    simp only [hlength, Nat.add_right_cancel_iff]
    by_cases hnew : number = state.manager.eventLog.length
    · have hfound : found = event := by
        simpa [State.log, hnew, eq_comm] using hlog
      rw [hfound] at hmatches
      rw [if_pos ⟨hnew, hwaiting index pattern hpattern hmatches⟩, hnew]
      exact hinv.countP_carries_new index
    · have hold : state.manager.eventLog[number]? = some found := by
        have hlt := (List.getElem?_eq_some_iff.mp hlog).1
        rw [hlength] at hlt
        exact (List.getElem?_append_left (by omega)).symm.trans hlog
      have hcount := hinv.delivered number found hold index pattern hpattern
        hmatches
      rw [if_neg fun hboth => List.not_mem_nil hboth.2] at hcount
      rw [if_neg fun hboth => hnew hboth.1]
      exact hcount

/-! ## Scheduling -/

def State.withMap (state : State)
    (debounceMap : InsertionMap Text DebounceEntry) : State :=
  { state with
    manager := { state.manager with debounceMap := debounceMap } }

theorem EntryInvariant.withMap (hentry : EntryInvariant state entry)
    (debounceMap : InsertionMap Text DebounceEntry) :
    EntryInvariant (state.withMap debounceMap) entry :=
  ⟨hentry.valid, hentry.logged, hentry.onePath, hentry.ordered,
    hentry.scheduled⟩

theorem countP_carries_set (state : State) (key : Text)
    (entry : DebounceEntry) (index number : ℕ) :
    (state.withMap (state.manager.debounceMap.set key entry)).entries.countP
          (carries index number) +
        (state.manager.debounceMap.get key).toList.countP
          (carries index number) =
      state.entries.countP (carries index number) +
        [entry].countP (carries index number) := by
  have hvalues := InsertionMap.countP_values_set state.manager.debounceMap
    key entry (carries index number)
  simp only [State.entries, State.pending, State.withMap,
    List.countP_append] at hvalues ⊢
  omega

/-- The events under a key. -/
def eventsAt (debounceMap : InsertionMap Text DebounceEntry) (key : Text) :
    List (WatchEvent × ℕ) :=
  ((debounceMap.get key).map DebounceEntry.events).getD []

theorem mem_eventsAt (hevent : event ∈ eventsAt debounceMap key) :
    ∃ entry, debounceMap.get key = some entry ∧ event ∈ entry.events := by
  rw [eventsAt] at hevent
  cases hget : debounceMap.get key with
  | none =>
      rw [hget] at hevent
      cases hevent
  | some entry =>
      rw [hget] at hevent
      exact ⟨entry, rfl, hevent⟩

/-- The entry of a pattern after one more event. -/
def extended (event : WatchEvent × ℕ) (pattern : WatchPattern × ℕ) (now : ℚ)
    (events : List (WatchEvent × ℕ)) : DebounceEntry :=
  ⟨pattern, events ++ [event], now + pattern.1.debounceMs⟩

theorem scheduleDebounce_eq
    (hown : ∀ existing ∈
      debounceMap.get (debounceKey pattern.1 event.1.path),
      existing.pattern = pattern) :
    scheduleDebounce event pattern now debounceMap =
      debounceMap.set (debounceKey pattern.1 event.1.path)
        (extended event pattern now
          (eventsAt debounceMap (debounceKey pattern.1 event.1.path))) := by
  rw [scheduleDebounce, eventsAt]
  cases hget : debounceMap.get (debounceKey pattern.1 event.1.path) with
  | none => rfl
  | some existing =>
      have hpattern := hown existing hget
      simp only [extended, Option.map_some, Option.getD_some, ← hpattern]

theorem carries_extended {events : List (WatchEvent × ℕ)} :
    carries index number (extended event pattern now events) = true ↔
      pattern.2 = index ∧
        (event.2 = number ∨ ∃ event ∈ events, event.2 = number) := by
  rw [carries_iff]
  simp only [extended, List.mem_append, List.mem_singleton, or_and_right,
    exists_or, exists_eq_left]
  rw [or_comm]

/-- The entry under a key carries an event exactly if the extended one does,
which is of the same pattern, unless it is the new event. -/
theorem countP_carries_extended
    (hown : ∀ existing ∈ debounceMap.get key, existing.pattern = pattern)
    (hother : ¬(pattern.2 = index ∧ event.2 = number)) :
    [extended event pattern now (eventsAt debounceMap key)].countP
        (carries index number) =
      (debounceMap.get key).toList.countP (carries index number) := by
  have hnew : carries index number
      (extended event pattern now (eventsAt debounceMap key)) = true ↔
        pattern.2 = index ∧
          ∃ event ∈ eventsAt debounceMap key, event.2 = number := by
    rw [carries_extended]
    tauto
  rw [eventsAt] at hnew ⊢
  cases hget : debounceMap.get key with
  | none =>
      rw [hget] at hnew
      simpa using hnew
  | some existing =>
      rw [hget] at hnew
      have hold : carries index number existing = true ↔
          existing.pattern.2 = index ∧
            ∃ event ∈ existing.events, event.2 = number :=
        carries_iff
      rw [hown existing hget] at hold
      have hsame := Bool.eq_iff_iff.mpr (hnew.trans hold.symm)
      simp only [Option.toList_some, List.countP_singleton, hsame]

variable {waiting : List ℕ}

theorem Partial.own_eq (hinv : Partial state waiting)
    (hpattern : state.config.patterns[pattern.2]? = some pattern.1)
    (hget : state.manager.debounceMap.get key = some entry)
    (hown : entry.pattern.2 = pattern.2) : entry.pattern = pattern := by
  have hvalid := (hinv.entries entry (mem_entries_of_get hget)).valid
  rw [hown, hpattern, Option.some.injEq] at hvalid
  exact Prod.ext hvalid.symm hown

/-- An event that joins the entry of a pattern. -/
structure Joins (state : State) (waiting : List ℕ)
    (pattern : WatchPattern × ℕ) (event : WatchEvent) (number : ℕ) (now : ℚ) :
    Prop where
  last : number + 1 = state.manager.eventLog.length
  logged : state.manager.eventLog[number]? = some event
  arrival : ∀ arrival ∈ state.arrivals[number]?, arrival ≤ now
  valid : state.config.patterns[pattern.2]? = some pattern.1
  matching : matchesGlob event.path pattern.1.glob = some true
  fresh : pattern.2 ∉ waiting
  own : ∀ existing ∈ state.manager.debounceMap.get
    (debounceKey pattern.1 event.path), existing.pattern = pattern

section Joins

variable {event : WatchEvent} {found : WatchEvent × ℕ}

theorem Joins.countP_eq_zero
    (hjoins : Joins state waiting pattern event number now)
    (hinv : Partial state (pattern.2 :: waiting)) :
    state.entries.countP (carries pattern.2 number) = 0 := by
  rw [hinv.delivered number event hjoins.logged pattern.2 pattern.1
    hjoins.valid hjoins.matching,
    if_pos ⟨hjoins.last, List.mem_cons_self⟩]

/-- The events under the key are earlier ones of the path. -/
theorem Joins.events (hjoins : Joins state waiting pattern event number now)
    (hinv : Partial state (pattern.2 :: waiting))
    (hfound : found ∈ eventsAt state.manager.debounceMap
      (debounceKey pattern.1 event.path)) :
    found.1.path = event.path ∧ found.2 < number ∧
      state.manager.eventLog[found.2]? = some found.1 := by
  obtain ⟨existing, hget, hmem⟩ := mem_eventsAt hfound
  have hentry := mem_entries_of_get hget
  refine ⟨?_, ?_, (hinv.entries existing hentry).logged found hmem⟩
  · have hkey := hinv.keyed _ existing hget found hmem
    rw [hjoins.own existing hget] at hkey
    exact (path_eq_of_debounceKey_eq hkey).symm
  · have hlt := hinv.number_lt hentry hmem
    have hlast := hjoins.last
    have hne : found.2 ≠ number := by
      intro heq
      refine List.countP_eq_zero.mp (hjoins.countP_eq_zero hinv) existing
        hentry (carries_iff.mpr ⟨?_, found, hmem, heq⟩)
      rw [hjoins.own existing hget]
    omega

theorem Joins.entryInvariant
    (hjoins : Joins state waiting pattern event number now)
    (hinv : Partial state (pattern.2 :: waiting)) :
    EntryInvariant state (extended (event, number) pattern now
      (eventsAt state.manager.debounceMap
        (debounceKey pattern.1 event.path))) := by
  refine ⟨hjoins.valid, fun found hfound => ?_,
    fun found hfound other hother => ?_, ?_, ?_⟩
  · obtain hold | hnew := List.mem_append.mp hfound
    · exact (hjoins.events hinv hold).2.2
    · rw [List.mem_singleton.mp hnew]
      exact hjoins.logged
  · have hpath : ∀ found ∈ (extended (event, number) pattern now
        (eventsAt state.manager.debounceMap
          (debounceKey pattern.1 event.path))).events,
        found.1.path = event.path := by
      intro found hfound
      obtain hold | hnew := List.mem_append.mp hfound
      · exact (hjoins.events hinv hold).1
      · rw [List.mem_singleton.mp hnew]
    rw [hpath found hfound, hpath other hother]
  · refine List.pairwise_append.mpr
      ⟨?_, List.pairwise_singleton _ _, fun found hfound other hother => ?_⟩
    · rw [eventsAt]
      cases hget : state.manager.debounceMap.get
          (debounceKey pattern.1 event.path) with
      | none => exact .nil
      | some existing =>
          exact (hinv.entries existing (mem_entries_of_get hget)).ordered
    · rw [List.mem_singleton.mp hother]
      exact (hjoins.events hinv hfound).2.1
  · refine ⟨(event, number), List.getLast?_concat, fun arrival harrival => ?_⟩
    exact add_le_add_left (hjoins.arrival arrival harrival) _

theorem Joins.scheduleDebounce_eq
    (hjoins : Joins state waiting pattern event number now) :
    scheduleDebounce (event, number) pattern now state.manager.debounceMap =
      state.manager.debounceMap.set (debounceKey pattern.1 event.path)
        (extended (event, number) pattern now
          (eventsAt state.manager.debounceMap
            (debounceKey pattern.1 event.path))) :=
  Debouncing.scheduleDebounce_eq hjoins.own

/-- One entry more carries the event, of the pattern that it joins. -/
theorem Joins.countP_carries
    (hjoins : Joins state waiting pattern event number now)
    (hinv : Partial state (pattern.2 :: waiting)) (index other : ℕ) :
    (state.withMap (scheduleDebounce (event, number) pattern now
        state.manager.debounceMap)).entries.countP (carries index other) =
      if pattern.2 = index ∧ number = other then 1
      else state.entries.countP (carries index other) := by
  have hmap := hjoins.scheduleDebounce_eq
  rw [hmap]
  have hset := countP_carries_set state (debounceKey pattern.1 event.path)
    (extended (event, number) pattern now
      (eventsAt state.manager.debounceMap
        (debounceKey pattern.1 event.path))) index other
  by_cases hnew : pattern.2 = index ∧ number = other
  · have hnone := hjoins.countP_eq_zero hinv
    obtain ⟨rfl, rfl⟩ := hnew
    have hold : (state.manager.debounceMap.get
        (debounceKey pattern.1 event.path)).toList.countP
          (carries pattern.2 number) = 0 := by
      refine List.countP_eq_zero.mpr fun existing hmem => ?_
      exact List.countP_eq_zero.mp hnone existing
        (mem_entries_of_get (Option.mem_toList.mp hmem))
    have hcarries : carries pattern.2 number
        (extended (event, number) pattern now
          (eventsAt state.manager.debounceMap
            (debounceKey pattern.1 event.path))) = true :=
      carries_extended.mpr ⟨rfl, .inl rfl⟩
    rw [hnone, hold, List.countP_singleton, if_pos hcarries] at hset
    rw [if_pos ⟨rfl, rfl⟩]
    omega
  · rw [countP_carries_extended hjoins.own hnew] at hset
    rw [if_neg hnew]
    omega

theorem Partial.schedule (hinv : Partial state (pattern.2 :: waiting))
    (hjoins : Joins state waiting pattern event number now) :
    Partial (state.withMap (scheduleDebounce (event, number) pattern now
      state.manager.debounceMap)) waiting := by
  have hmap := hjoins.scheduleDebounce_eq
  refine ⟨hinv.lengths, fun entry hentry => ?_, hinv.flushedAt,
    fun key entry hget found hfound => ?_,
    fun other found hlog index found' hpattern hmatches => ?_⟩
  · obtain hflushed | hpending := List.mem_append.mp hentry
    · exact (hinv.entries entry (List.mem_append_left _ hflushed)).withMap _
    · obtain ⟨key, hget⟩ := InsertionMap.mem_values_iff.mp hpending
      simp only [State.withMap, hmap, InsertionMap.get_set] at hget
      split at hget
      · cases hget
        exact (hjoins.entryInvariant hinv).withMap _
      · exact (hinv.entries entry (mem_entries_of_get hget)).withMap _
  · simp only [State.withMap, hmap, InsertionMap.get_set] at hget
    split at hget
    · rename_i heq
      cases hget
      rw [heq]
      obtain hold | hnew := List.mem_append.mp hfound
      · simp only [extended, (hjoins.events hinv hold).1]
      · rw [List.mem_singleton.mp hnew]
        rfl
    · exact hinv.keyed key entry hget found hfound
  · rw [hjoins.countP_carries hinv]
    have hlast := hjoins.last
    have hcount := hinv.delivered other found hlog index found' hpattern
      hmatches
    by_cases hnew : pattern.2 = index ∧ number = other
    · obtain ⟨rfl, rfl⟩ := hnew
      rw [if_pos ⟨rfl, rfl⟩, if_neg fun hboth => hjoins.fresh hboth.2]
    · rw [if_neg hnew, hcount]
      refine if_congr (and_congr_right fun hother => ?_) rfl rfl
      rw [List.mem_cons, or_iff_right]
      rintro rfl
      exact hnew ⟨rfl, by
        have hsame : other + 1 = state.manager.eventLog.length := hother
        omega⟩

/-- The event joins the entries of all matching patterns. -/
theorem Partial.scheduleAll
    (hinv : Partial state (matched.map Prod.snd))
    (hlast : number + 1 = state.manager.eventLog.length)
    (hlogged : state.manager.eventLog[number]? = some event)
    (harrival : ∀ arrival ∈ state.arrivals[number]?, arrival = now)
    (hvalid : ∀ pattern ∈ matched,
      state.config.patterns[pattern.2]? = some pattern.1 ∧
        matchesGlob event.path pattern.1.glob = some true)
    (hnodup : (matched.map Prod.snd).Nodup)
    (hdistinct : ∀ pattern ∈ matched, ∀ other ∈ matched,
      pattern.1.glob = other.1.glob → pattern.2 = other.2)
    (hown : ∀ pattern ∈ matched, ∀ existing ∈
      state.manager.debounceMap.get (debounceKey pattern.1 event.path),
        existing.pattern = pattern) :
    Invariant (state.withMap (scheduleAll (event, number) now elapsed matched
      state.manager.debounceMap)) := by
  induction matched generalizing state with
  | nil => exact hinv
  | cons first rest ih =>
      obtain ⟨hfirst, hrest⟩ := List.forall_mem_cons.mp hvalid
      obtain ⟨hfresh, hnodupRest⟩ := List.nodup_cons.mp hnodup
      have hjoins : Joins state (rest.map Prod.snd) first event number
          (now + elapsed first.2) := by
        refine ⟨hlast, hlogged, fun arrival hmem => ?_, hfirst.1, hfirst.2,
          hfresh, hown first List.mem_cons_self⟩
        rw [harrival arrival hmem]
        exact le_add_of_nonneg_right (Nat.cast_nonneg _)
      refine ih (hinv.schedule hjoins) hlast hlogged harrival hrest hnodupRest
        (fun pattern hpattern other hother => hdistinct pattern
          (List.mem_cons_of_mem _ hpattern) other
          (List.mem_cons_of_mem _ hother))
        fun pattern hpattern existing hget => ?_
      have hne : debounceKey pattern.1 event.path ≠
          debounceKey first.1 event.path := by
        intro hkey
        have hsame := hdistinct pattern (List.mem_cons_of_mem _ hpattern)
          first List.mem_cons_self (glob_eq_of_debounceKey_eq hkey)
        exact hfresh (hsame ▸ List.mem_map_of_mem hpattern)
      simp only [State.withMap, get_scheduleDebounce, if_neg hne] at hget
      exact hown pattern (List.mem_cons_of_mem _ hpattern) existing hget

end Joins

/-! ## Steps -/

section Receive

variable {event : WatchEvent}

theorem receive_of_ignored
    (hignored : isIgnored event.path state.config.ignored = true) :
    state.receive event now elapsed = state := by
  rw [State.config] at hignored
  rw [State.receive, WatchManager.receive, State.config]
  simp only [if_pos hignored]

theorem receive_of_none
    (hignored : isIgnored event.path state.config.ignored = false)
    (hmatched : matchingPatterns event.path state.config.patterns.zipIdx =
      none) :
    state.receive event now elapsed = state.log event now := by
  rw [State.config] at hignored hmatched
  rw [State.receive, WatchManager.receive, State.config]
  simp only [hignored, hmatched, Bool.false_eq_true, if_false]
  rfl

theorem receive_of_some
    (hignored : isIgnored event.path state.config.ignored = false)
    (hmatched : matchingPatterns event.path state.config.patterns.zipIdx =
      some matched) :
    state.receive event now elapsed =
      (state.log event now).withMap
        (scheduleAll (event, state.manager.eventLog.length) now elapsed
          matched state.manager.debounceMap) := by
  rw [State.config] at hignored hmatched
  rw [State.receive, WatchManager.receive, State.config]
  simp only [hignored, hmatched, Bool.false_eq_true, if_false]
  rfl

theorem valid_of_mem_matched
    (hmatched : matchingPatterns event.path state.config.patterns.zipIdx =
      some matched) (hmem : pattern ∈ matched) :
    state.config.patterns[pattern.2]? = some pattern.1 ∧
      matchesGlob event.path pattern.1.glob = some true := by
  obtain ⟨hindex, hmatches⟩ := (mem_matchingPatterns hmatched).mp hmem
  exact ⟨List.mem_zipIdx_iff_getElem?.mp hindex, hmatches⟩

theorem mem_matched_of_valid
    (hmatched : matchingPatterns event.path state.config.patterns.zipIdx =
      some matched)
    (hpattern : state.config.patterns[pattern.2]? = some pattern.1)
    (hmatches : matchesGlob event.path pattern.1.glob = some true) :
    pattern ∈ matched :=
  (mem_matchingPatterns hmatched).mpr
    ⟨List.mem_zipIdx_iff_getElem?.mpr hpattern, hmatches⟩

theorem Invariant.receive (hinv : Invariant state)
    (hseparates : Separates state (.receive event now elapsed)) :
    Invariant (state.receive event now elapsed) := by
  cases hignored : isIgnored event.path state.config.ignored with
  | true => rwa [receive_of_ignored hignored]
  | false =>
      have hcases := hseparates.resolve_left (by rw [hignored]; decide)
      cases hmatched : matchingPatterns event.path
          state.config.patterns.zipIdx with
      | none =>
          rw [hmatched] at hcases
          rw [receive_of_none hignored hmatched]
          refine hinv.log now fun index pattern hpattern hmatches => ?_
          exact absurd hmatches
            (hcases pattern (List.mem_of_getElem? hpattern))
      | some matched =>
          rw [hmatched] at hcases
          obtain ⟨hdistinct, hown⟩ := hcases
          rw [receive_of_some hignored hmatched]
          have hlog : Partial (state.log event now)
              (matched.map Prod.snd) := by
            refine hinv.log now fun index pattern hpattern hmatches => ?_
            have hmem : (pattern, index) ∈ matched :=
              mem_matched_of_valid hmatched hpattern hmatches
            exact List.mem_map_of_mem (f := Prod.snd) hmem
          have hnodup : (matched.map Prod.snd).Nodup := by
            have hsublist := (sublist_matchingPatterns hmatched).map Prod.snd
            rw [List.zipIdx_map_snd] at hsublist
            exact (List.nodup_range' 1).sublist hsublist
          refine hlog.scheduleAll ?_ ?_ ?_
            (fun pattern hmem => valid_of_mem_matched hmatched hmem) hnodup
            hdistinct fun pattern hmem existing hget => ?_
          · simp [State.log]
          · simp [State.log]
          · intro arrival harrival
            simp only [State.log, ← hinv.lengths] at harrival
            simpa [eq_comm] using harrival
          · exact Partial.own_eq hinv (valid_of_mem_matched hmatched hmem).1
              hget (hown pattern hmem existing hget)

end Receive

theorem values_flush (manager : WatchManager) (now : ℚ) :
    (manager.flush now).1.debounceMap.values =
      manager.debounceMap.values.filter fun entry =>
        !(entry.scheduledAt ≤ now) := by
  simp only [WatchManager.flush, InsertionMap.filter, InsertionMap.values,
    List.filter_map]
  rfl

theorem entries_flush (state : State) (now : ℚ) :
    (state.flush now).entries.Perm state.entries := by
  have hready : ((state.manager.flush now).2.map fun entry =>
      (entry, now)).map Prod.fst = (state.manager.flush now).2 := by
    rw [List.map_map]
    exact List.map_id _
  simp only [State.entries, State.pending, State.flush, List.map_append,
    hready, values_flush, List.append_assoc]
  exact (List.filter_append_perm _ _).append_left _

theorem Invariant.flush (hinv : Invariant state) (now : ℚ) :
    Invariant (state.flush now) := by
  have hentries := entries_flush state now
  refine ⟨hinv.lengths, fun entry hentry => ?_, fun flushed hflushed => ?_,
    fun key entry hget => hinv.keyed key entry ?_,
    fun number event hlog index pattern hpattern hmatches => ?_⟩
  · obtain ⟨hvalid, hlogged, hpath, hordered, hscheduled⟩ :=
      hinv.entries entry (hentries.mem_iff.mp hentry)
    exact ⟨hvalid, hlogged, hpath, hordered, hscheduled⟩
  · obtain hold | hnew := List.mem_append.mp hflushed
    · exact hinv.flushedAt flushed hold
    · obtain ⟨entry, hready, rfl⟩ := List.mem_map.mp hnew
      exact of_decide_eq_true (List.mem_filter.mp hready).2
  · rw [InsertionMap.get_eq_some_iff] at hget ⊢
    exact (List.mem_filter.mp hget).1
  · rw [hentries.countP_eq]
    exact hinv.delivered number event hlog index pattern hpattern hmatches

theorem Invariant.step (hinv : Invariant state)
    (hseparates : Separates state label)
    (hstep : step state label = some next) : Invariant next := by
  cases label with
  | receive event now elapsed =>
      cases hstep
      exact hinv.receive hseparates
  | flush now =>
      cases hstep
      exact hinv.flush now

/-! ## Patterns that share a key -/

section Breaks

variable {event : WatchEvent}

theorem Invariant.number_ne (hinv : Invariant state)
    (hentry : entry ∈ state.entries) {found : WatchEvent × ℕ}
    (hfound : found ∈ entry.events) :
    found.2 ≠ state.manager.eventLog.length :=
  Nat.ne_of_lt (hinv.number_lt hentry hfound)

/-- An entry of one path that got the new event was of the path of that
event. -/
theorem Invariant.key_of_extended (hinv : Invariant state)
    (hold : state.manager.debounceMap.get key = some old)
    (hpattern : entry.pattern = old.pattern)
    {extra : List (WatchEvent × ℕ)}
    (hevents : entry.events = old.events ++ extra)
    (hextra : ∀ found ∈ extra,
      found = (event, state.manager.eventLog.length))
    (hpath : ∀ found ∈ entry.events, ∀ other ∈ entry.events,
      found.1.path = other.1.path)
    {found : WatchEvent × ℕ} (hfound : found ∈ entry.events)
    (hnumber : found.2 = state.manager.eventLog.length) :
    key = debounceKey entry.pattern.1 event.path := by
  have hentry := mem_entries_of_get hold
  obtain ⟨last, hlast, -⟩ := (hinv.entries old hentry).scheduled
  have hmem := List.mem_of_mem_getLast? hlast
  have hkey := hinv.keyed key old hold last hmem
  rw [hevents] at hfound hpath
  obtain hbefore | hnew := List.mem_append.mp hfound
  · exact absurd hnumber (hinv.number_ne hentry hbefore)
  · rw [hextra found hnew] at hfound
    rw [hpattern, hkey, hpath last (List.mem_append_left _ hmem) _ hfound]

/-- Once the event is in an entry of each matching pattern, and all entries
are of one path, the one under the key of a matching pattern is of that
pattern. -/
theorem Invariant.entry_of_law (hinv : Invariant state)
    (hmatched : matchingPatterns event.path state.config.patterns.zipIdx =
      some matched)
    (hlaw : WatchLaw ((state.log event now).withMap
      (scheduleAll (event, state.manager.eventLog.length) now elapsed
        matched state.manager.debounceMap)))
    (hmem : pattern ∈ matched) :
    ∃ entry, (scheduleAll (event, state.manager.eventLog.length) now elapsed
        matched state.manager.debounceMap).get
          (debounceKey pattern.1 event.path) = some entry ∧
      entry.pattern = pattern := by
  obtain ⟨hvalid, hmatches⟩ := valid_of_mem_matched hmatched hmem
  have hcount := hlaw.delivered state.manager.eventLog.length event
    (by simp [State.log, State.withMap]) pattern.2 pattern.1 hvalid hmatches
  obtain ⟨entry, hentry, hcarries⟩ :=
    List.countP_pos_iff.mp (hcount ▸ Nat.one_pos)
  obtain ⟨hindex, found, hfound, hnumber⟩ := carries_iff.mp hcarries
  obtain hflushed | hpending := List.mem_append.mp hentry
  · exact absurd hnumber
      (hinv.number_ne (List.mem_append_left _ hflushed) hfound)
  · obtain ⟨key, hget⟩ := InsertionMap.mem_values_iff.mp hpending
    have hkey : entry.pattern = pattern ∧
        key = debounceKey pattern.1 event.path := by
      cases hold : state.manager.debounceMap.get key with
      | none =>
          obtain ⟨hnew, hkey⟩ := get_scheduleAll_of_none hold hget
          have hsame : entry.pattern = pattern := by
            have hentryValid := (valid_of_mem_matched hmatched hnew).1
            rw [hindex, hvalid, Option.some.injEq] at hentryValid
            exact Prod.ext hentryValid.symm hindex
          exact ⟨hsame, hsame ▸ hkey⟩
      | some old =>
          obtain ⟨after, hafter, hpattern, extra, hevents, hextra⟩ :=
            get_scheduleAll_of_some (event, state.manager.eventLog.length)
              now elapsed matched hold
          cases Option.some_injective _ (hget.symm.trans hafter)
          have hsame : entry.pattern = pattern := by
            have holdValid :=
              (hinv.entries old (mem_entries_of_get hold)).valid
            rw [← hpattern, hindex, hvalid, Option.some.injEq] at holdValid
            exact Prod.ext holdValid.symm hindex
          have hkey := hinv.key_of_extended hold hpattern hevents hextra
            (hlaw.onePath entry hentry) hfound hnumber
          exact ⟨hsame, hsame ▸ hkey⟩
    rw [hkey.2] at hget
    exact ⟨entry, hget, hkey.1⟩

theorem Invariant.separates_of_law (hinv : Invariant state)
    (hlaw : WatchLaw (state.receive event now elapsed)) :
    Separates state (.receive event now elapsed) := by
  cases hignored : isIgnored event.path state.config.ignored with
  | true => exact .inl hignored
  | false =>
      refine .inr ?_
      cases hmatched : matchingPatterns event.path
          state.config.patterns.zipIdx with
      | none =>
          intro pattern hpattern hmatches
          rw [receive_of_none hignored hmatched] at hlaw
          obtain ⟨index, hindex⟩ := List.mem_iff_getElem?.mp hpattern
          have hcount := hlaw.delivered state.manager.eventLog.length event
            (by simp [State.log]) index pattern hindex hmatches
          have hnone := hinv.countP_carries_new index
          rw [show (state.log event now).entries = state.entries from rfl,
            hnone] at hcount
          cases hcount
      | some matched =>
          rw [receive_of_some hignored hmatched] at hlaw
          refine ⟨fun pattern hpattern other hother hglob => ?_,
            fun pattern hpattern existing hexisting => ?_⟩
          · obtain ⟨entry, hentry, rfl⟩ :=
              hinv.entry_of_law hmatched hlaw hpattern
            obtain ⟨found, hfound, rfl⟩ :=
              hinv.entry_of_law hmatched hlaw hother
            rw [debounceKey, hglob] at hentry
            rw [debounceKey, hentry, Option.some.injEq] at hfound
            rw [hfound]
          · obtain ⟨entry, hentry, rfl⟩ :=
              hinv.entry_of_law hmatched hlaw hpattern
            obtain ⟨after, hafter, hsame, -⟩ :=
              get_scheduleAll_of_some
                (event, state.manager.eventLog.length) now elapsed matched
                hexisting
            rw [hentry, Option.some.injEq] at hafter
            rw [hafter, hsame]

end Breaks

theorem Invariant.not_law_of_step (hinv : Invariant state)
    (hnot : ¬Separates state label)
    (hstep : Debouncing.step state label = some next) : ¬WatchLaw next := by
  intro hlaw
  apply hnot
  cases label with
  | receive event now elapsed =>
      cases hstep
      exact hinv.separates_of_law hlaw
  | flush now => trivial

/-- In a run, each event is in one entry of each pattern that it matches, with
events of its path only in the order of their arrival, until the debounce time
of that pattern has passed, if and only if the entries of matching patterns
are separate whenever an event comes in. -/
theorem watchLaw_iff_separates {config : WatchConfig} {labels : List Label}
    (hrun : exec step (State.initial config) labels = some state) :
    Throughout step WatchLaw (State.initial config) labels ↔
      StepsMeet step Separates (State.initial config) labels :=
  throughout_iff_stepsMeet (I := Invariant)
    (fun _ hinv => hinv.law)
    (fun _ _ _ hinv hseparates hstep => hinv.step hseparates hstep)
    (fun _ _ _ hinv hnot hstep => hinv.not_law_of_step hnot hstep)
    (invariant_initial config) hrun

/-- Two patterns for the sources, one of which may have the same glob. -/
def twoPatterns (glob : String) : WatchConfig where
  patterns :=
    [⟨"src/*.ts".toList, .compile, 50⟩, ⟨glob.toList, .test, 30⟩]
  ignored := ["node_modules".toList]

def changed (path : String) : WatchEvent := ⟨path.toList, .change, 0⟩

def changeAndFlush : List Label :=
  [.receive (changed "src/Order.ts") 0 (fun _ => 0), .flush 50]

theorem watchLaw_iff_separates_samples :
    Throughout step WatchLaw (State.initial (twoPatterns "src/*.t*"))
        (changeAndFlush ++ changeAndFlush) ∧
      ¬Throughout step WatchLaw (State.initial (twoPatterns "src/*.ts"))
        changeAndFlush := by
  have hdistinct : (exec step (State.initial (twoPatterns "src/*.t*"))
      (changeAndFlush ++ changeAndFlush)).isSome := by
    decide +kernel
  have hequal : (exec step (State.initial (twoPatterns "src/*.ts"))
      changeAndFlush).isSome := by
    decide +kernel
  obtain ⟨_, hdistinct⟩ := Option.isSome_iff_exists.mp hdistinct
  obtain ⟨_, hequal⟩ := Option.isSome_iff_exists.mp hequal
  constructor
  · apply (watchLaw_iff_separates hdistinct).mpr
    decide +kernel
  · intro hlaw
    have hmeet := (watchLaw_iff_separates hequal).mp hlaw
    exact absurd hmeet (by decide +kernel)

/-- Of two patterns with one glob the first gets the event twice, and the
second never. -/
theorem not_watchLaw_of_equal_globs :
    ∃ state, exec step (State.initial (twoPatterns "src/*.ts"))
        changeAndFlush = some state ∧
      state.entries.map (·.pattern.2) = [0] ∧
      state.entries.map (·.events.map Prod.snd) = [[0, 0]] ∧
      ¬WatchLaw state := by
  have hends : (exec step (State.initial (twoPatterns "src/*.ts"))
      changeAndFlush).any (fun state => decide
        (state.entries.map (·.pattern.2) = [0] ∧
          state.entries.map (·.events.map Prod.snd) = [[0, 0]] ∧
          state.manager.eventLog[0]? = some (changed "src/Order.ts") ∧
          state.config.patterns[1]? =
            some ⟨"src/*.ts".toList, .test, 30⟩ ∧
          state.entries.countP (carries 1 0) = 0)) = true := by
    decide +kernel
  obtain ⟨state, hrun, hfacts⟩ := (Option.any_eq_true _ _).mp hends
  obtain ⟨hpatterns, hevents, hlog, hpattern, hcount⟩ :=
    of_decide_eq_true hfacts
  refine ⟨state, hrun, hpatterns, hevents, fun hlaw => ?_⟩
  have hone := hlaw.delivered 0 _ hlog 1 _ hpattern (by decide +kernel)
  rw [hcount] at hone
  cases hone

end TsCommons.Hotreload.Debouncing
