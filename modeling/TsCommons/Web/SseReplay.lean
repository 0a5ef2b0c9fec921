import TsCommons.Web.SseEmitter
import TsCommons.Foundations.Execution

/-!
# Replaying what a client has missed

The place of an event in the buffer is found from the number that its id is
read as.  The events after it are those that are replayed as long as these
numbers increase along the buffer.
-/

namespace TsCommons.Web.SseReplay

open Foundations

variable {N W : Type} [LinearOrder N]

/-- The emitter, and the events that it has sent. -/
structure State (N W : Type) where
  emitter : SseEmitter N W
  sent : List (TrackedEvent N)

def State.initial (retryMs : Option N) (maxBufferSize : Option ℕ∞) :
    State N W :=
  ⟨.create retryMs maxBufferSize, []⟩

inductive Label (N W : Type)
  | send (event : SseEvent N)
  | addWriter (writer : W)
  | removeWriter (writer : W)
  | close

def State.trackedAs (state : State N W) (event : SseEvent N) :
    TrackedEvent N :=
  (state.emitter.tracker.track (state.emitter.withRetry event)).1

def State.send (numbers : Json.NumberFormat N) (state : State N W)
    (event : SseEvent N) : State N W where
  emitter := (state.emitter.send numbers event).1
  sent :=
    if state.emitter.isOpen then state.sent ++ [state.trackedAs event]
    else state.sent

def step [DecidableEq W] (numbers : Json.NumberFormat N)
    (state : State N W) : Label N W → Option (State N W)
  | .send event => some (state.send numbers event)
  | .addWriter writer =>
      some { state with emitter := state.emitter.addWriter writer }
  | .removeWriter writer =>
      some { state with emitter := state.emitter.removeWriter writer }
  | .close => some { state with emitter := state.emitter.close }

/-- The last of the events, as many as fit in a buffer. -/
def lastOf (maxBufferSize : ℕ∞) (sent : List (TrackedEvent N)) :
    List (TrackedEvent N) :=
  if maxBufferSize < sent.length then sent.rtake maxBufferSize.toNat
  else sent

/-- The buffer holds the last events that were sent, no two of them have the
same id, and after each of them those are replayed that follow it. -/
structure ReplayLaw (numbers : Json.NumberFormat N) (state : State N W) :
    Prop where
  buffered : state.emitter.tracker.buffer =
    lastOf state.emitter.tracker.maxBufferSize state.sent
  distinct : (state.emitter.tracker.buffer.map TrackedEvent.id).Nodup
  replays : ∀ before tracked after,
    state.emitter.tracker.buffer = before ++ tracked :: after →
      state.emitter.replay numbers (some tracked.id) =
        after.map fun missed => SseFormatter.format numbers missed.toEvent

/-- Both ids are numbers, the second one the greater. -/
def precedes (number : Text → Option N) (earlier later : Text) : Bool :=
  (number earlier).any fun before =>
    (number later).any fun after => before < after

/-- The id that an event gets is a number, and greater than that of the event
before it, if the buffer keeps the two. -/
def IdsIncrease (numbers : Json.NumberFormat N) (state : State N W) :
    Label N W → Prop
  | .send event =>
      let tracker := state.emitter.tracker
      let id := tracker.nextId event
      state.emitter.isOpen = true →
        (numbers.number id).isSome ∧
          (tracker.maxBufferSize ≠ 1 → ∀ last ∈ tracker.buffer.getLast?,
            precedes numbers.number last.id id = true)
  | _ => True

instance IdsIncrease.decidable (numbers : Json.NumberFormat N)
    (state : State N W) :
    (label : Label N W) → Decidable (IdsIncrease numbers state label)
  | .send event =>
      inferInstanceAs (Decidable (state.emitter.isOpen = true →
        (numbers.number (state.emitter.tracker.nextId event)).isSome ∧
          (state.emitter.tracker.maxBufferSize ≠ 1 →
            ∀ last ∈ state.emitter.tracker.buffer.getLast?,
              precedes numbers.number last.id
                (state.emitter.tracker.nextId event) = true)))
  | .addWriter _ => inferInstanceAs (Decidable True)
  | .removeWriter _ => inferInstanceAs (Decidable True)
  | .close => inferInstanceAs (Decidable True)

variable {numbers : Json.NumberFormat N} {state next : State N W}
  {maxBufferSize : ℕ∞} {sent : List (TrackedEvent N)}
  {tracked : TrackedEvent N}

/-! ## The buffer -/

omit [LinearOrder N] in
theorem lastOf_top : lastOf ⊤ sent = sent := by
  simp [lastOf]

omit [LinearOrder N] in
theorem lastOf_coe (size : ℕ) :
    lastOf (size : ℕ∞) sent = sent.drop (sent.length - size) := by
  unfold lastOf
  split
  · rw [ENat.toNat_natCast, List.rtake]
  · rename_i hroom
    have hle : sent.length ≤ size := by exact_mod_cast not_lt.mp hroom
    rw [Nat.sub_eq_zero_of_le hle, List.drop_zero]

omit [LinearOrder N] in
theorem evict_coe (size : ℕ) (buffer : List (TrackedEvent N)) :
    SseEventTracker.evict (size : ℕ∞) buffer =
      buffer.drop (buffer.length - size) := by
  unfold SseEventTracker.evict
  split
  · rw [ENat.toNat_natCast]
  · rename_i hroom
    have hle : buffer.length ≤ size := by exact_mod_cast not_lt.mp hroom
    rw [Nat.sub_eq_zero_of_le hle, List.drop_zero]

omit [LinearOrder N] in
theorem evict_lastOf (maxBufferSize : ℕ∞) :
    SseEventTracker.evict maxBufferSize
        (lastOf maxBufferSize sent ++ [tracked]) =
      lastOf maxBufferSize (sent ++ [tracked]) := by
  cases maxBufferSize using ENat.recTopCoe with
  | top => simp [lastOf_top, SseEventTracker.evict]
  | coe size =>
      have hkept : sent.drop (sent.length - size) ++ [tracked] =
          (sent ++ [tracked]).drop (sent.length - size) :=
        (List.drop_append_of_le_length (Nat.sub_le _ _)).symm
      rw [lastOf_coe, lastOf_coe, hkept, evict_coe, List.drop_drop]
      congr 1
      simp only [List.length_drop, List.length_append, List.length_singleton]
      omega

omit [LinearOrder N] in
/-- The event that is added stays, and a buffer for more than one keeps the
event before it. -/
theorem evict_concat (hsize : 1 ≤ maxBufferSize)
    (buffer : List (TrackedEvent N)) (tracked : TrackedEvent N) :
    ∃ dropped, SseEventTracker.evict maxBufferSize (buffer ++ [tracked]) =
        buffer.drop dropped ++ [tracked] ∧
      (maxBufferSize ≠ 1 → buffer ≠ [] → dropped < buffer.length) ∧
      (maxBufferSize = 1 → dropped = buffer.length) := by
  cases maxBufferSize using ENat.recTopCoe with
  | top =>
      refine ⟨0, by simp [SseEventTracker.evict], ?_, ?_⟩
      · exact fun _ hne => List.length_pos_iff.mpr hne
      · intro htop
        cases htop
  | coe size =>
      have hpos : 1 ≤ size := by exact_mod_cast hsize
      have hone : ((size : ℕ∞) = 1) ↔ size = 1 := by norm_cast
      refine ⟨buffer.length + 1 - size, ?_, ?_, ?_⟩
      · rw [evict_coe, List.length_append, List.length_singleton]
        exact List.drop_append_of_le_length (by omega)
      · intro hne hbuffer
        have hlength := List.length_pos_iff.mpr hbuffer
        rw [ne_eq, hone] at hne
        omega
      · intro heq
        rw [hone] at heq
        omega

/-! ## Ids that increase -/

theorem precedes_iff {number : Text → Option N} {earlier later : Text} :
    precedes number earlier later = true ↔
      ∃ before after, number earlier = some before ∧
        number later = some after ∧ before < after := by
  simp [precedes, Option.any_eq_true]

theorem precedes_trans {number : Text → Option N} {first second third : Text}
    (hfirst : precedes number first second = true)
    (hsecond : precedes number second third = true) :
    precedes number first third = true := by
  obtain ⟨low, middle, hlow, hmiddle, hlt⟩ := precedes_iff.mp hfirst
  obtain ⟨middle', high, hmiddle', hhigh, hlt'⟩ := precedes_iff.mp hsecond
  rw [hmiddle, Option.some.injEq] at hmiddle'
  subst middle'
  exact precedes_iff.mpr ⟨low, high, hlow, hhigh, hlt.trans hlt'⟩

/-- The ids are read as numbers that increase along the buffer. -/
structure Increasing (number : Text → Option N)
    (buffer : List (TrackedEvent N)) : Prop where
  numbers : ∀ tracked ∈ buffer, (number tracked.id).isSome
  pairwise : buffer.Pairwise fun earlier later =>
    precedes number earlier.id later.id = true

theorem Increasing.drop {number : Text → Option N}
    {buffer : List (TrackedEvent N)} (hincreasing : Increasing number buffer)
    (dropped : ℕ) : Increasing number (buffer.drop dropped) :=
  ⟨fun tracked hmem => hincreasing.numbers tracked (List.mem_of_mem_drop hmem),
    hincreasing.pairwise.drop⟩

theorem Increasing.concat {number : Text → Option N}
    {buffer : List (TrackedEvent N)} (hincreasing : Increasing number buffer)
    (hnumber : (number tracked.id).isSome)
    (hlast : ∀ last ∈ buffer.getLast?,
      precedes number last.id tracked.id = true) :
    Increasing number (buffer ++ [tracked]) := by
  constructor
  · intro other hother
    rcases List.mem_append.mp hother with hold | hnew
    · exact hincreasing.numbers other hold
    · rw [List.mem_singleton.mp hnew]
      exact hnumber
  · apply List.pairwise_append.mpr
    refine ⟨hincreasing.pairwise, List.pairwise_singleton _ _, ?_⟩
    intro earlier hearlier later hlater
    rw [List.mem_singleton.mp hlater]
    rcases List.eq_nil_or_concat buffer with rfl | ⟨init, last, rfl⟩
    · cases hearlier
    · rw [List.concat_eq_append] at hearlier hlast hincreasing
      have hafter := hlast last (by simp)
      rcases List.mem_append.mp hearlier with hinit | heq
      · have hbefore := (List.pairwise_append.mp hincreasing.pairwise).2.2
          earlier hinit last List.mem_cons_self
        exact precedes_trans hbefore hafter
      · rw [List.mem_singleton.mp heq]
        exact hafter

theorem Increasing.filter_eq {number : Text → Option N}
    {before after : List (TrackedEvent N)} {threshold : N}
    (hincreasing : Increasing number (before ++ tracked :: after))
    (hthreshold : number tracked.id = some threshold) :
    (before ++ tracked :: after).filter (fun other =>
      (number other.id).any fun value => threshold < value) = after := by
  have hpairwise := List.pairwise_append.mp hincreasing.pairwise
  obtain ⟨-, htail, hcross⟩ := hpairwise
  have hbefore : before.filter (fun other =>
      (number other.id).any fun value => threshold < value) = [] := by
    apply List.filter_eq_nil_iff.mpr
    intro other hother
    obtain ⟨low, high, hlow, hhigh, hlt⟩ := precedes_iff.mp
      (hcross other hother tracked List.mem_cons_self)
    rw [hthreshold, Option.some.injEq] at hhigh
    subst high
    simpa [hlow] using hlt.le
  have hafter : after.filter (fun other =>
      (number other.id).any fun value => threshold < value) = after := by
    apply List.filter_eq_self.mpr
    intro other hother
    obtain ⟨low, high, hlow, hhigh, hlt⟩ := precedes_iff.mp
      ((List.pairwise_cons.mp htail).1 other hother)
    rw [hthreshold, Option.some.injEq] at hlow
    subst low
    simpa [hhigh] using hlt
  rw [List.filter_append, hbefore,
    List.filter_cons_of_neg (by simp [hthreshold]),
    hafter, List.nil_append]

theorem Increasing.nodup {number : Text → Option N}
    {buffer : List (TrackedEvent N)}
    (hincreasing : Increasing number buffer) :
    (buffer.map TrackedEvent.id).Nodup := by
  apply List.pairwise_map.mpr
  apply hincreasing.pairwise.imp
  intro earlier later hprecedes hsame
  obtain ⟨low, high, hlow, hhigh, hlt⟩ := precedes_iff.mp hprecedes
  rw [hsame, hhigh, Option.some.injEq] at hlow
  exact hlt.ne hlow.symm

/-! ## The law -/

structure Invariant (numbers : Json.NumberFormat N) (state : State N W) :
    Prop where
  positive : 1 ≤ state.emitter.tracker.maxBufferSize
  buffered : state.emitter.tracker.buffer =
    lastOf state.emitter.tracker.maxBufferSize state.sent
  increasing : Increasing numbers.number state.emitter.tracker.buffer

theorem invariant_initial (retryMs : Option N) {maxBufferSize : Option ℕ∞}
    (hsize : ∀ size ∈ maxBufferSize, 1 ≤ size) :
    Invariant numbers (State.initial retryMs maxBufferSize : State N W) := by
  refine ⟨?_, by simp [State.initial, SseEmitter.create,
    SseEventTracker.create, lastOf], List.forall_mem_nil _,
    List.Pairwise.nil⟩
  cases maxBufferSize with
  | none => exact (by decide : (1 : ℕ∞) ≤ 100)
  | some size => exact hsize size rfl

theorem Invariant.law (hinv : Invariant numbers state) :
    ReplayLaw numbers state := by
  refine ⟨hinv.buffered, hinv.increasing.nodup, ?_⟩
  intro before tracked after hbuffer
  have hincreasing := hinv.increasing
  rw [hbuffer] at hincreasing
  have hnumber := hincreasing.numbers tracked (by simp)
  obtain ⟨threshold, hthreshold⟩ := Option.isSome_iff_exists.mp hnumber
  simp only [SseEmitter.replay, SseEventTracker.getEventsAfter,
    Option.bind_some, hthreshold, hbuffer]
  rw [hincreasing.filter_eq hthreshold]

omit [LinearOrder N] in
theorem send_of_closed (event : SseEvent N)
    (hclosed : state.emitter.isOpen = false) :
    state.send numbers event = state := by
  simp [State.send, SseEmitter.send, hclosed]

omit [LinearOrder N] in
theorem send_of_open (numbers : Json.NumberFormat N) (event : SseEvent N)
    (hopen : state.emitter.isOpen = true) :
    (state.send numbers event).sent = state.sent ++ [state.trackedAs event] ∧
      (state.send numbers event).emitter.tracker.buffer =
        SseEventTracker.evict state.emitter.tracker.maxBufferSize
          (state.emitter.tracker.buffer ++ [state.trackedAs event]) ∧
      (state.send numbers event).emitter.tracker.maxBufferSize =
        state.emitter.tracker.maxBufferSize := by
  simp only [State.send, SseEmitter.send, hopen, if_true]
  exact ⟨trivial, rfl, rfl⟩

theorem Invariant.send (hinv : Invariant numbers state) {event : SseEvent N}
    (hids : IdsIncrease numbers state (.send event)) :
    Invariant numbers (state.send numbers event) := by
  cases hopen : state.emitter.isOpen with
  | false =>
      rw [send_of_closed event hopen]
      exact hinv
  | true =>
      obtain ⟨hnumber, hlast⟩ := hids hopen
      obtain ⟨hsent, hbuffer, hsize⟩ :=
        send_of_open numbers event hopen
      obtain ⟨dropped, hevict, hkeeps, hsingle⟩ := evict_concat
        hinv.positive state.emitter.tracker.buffer (state.trackedAs event)
      refine ⟨?_, ?_, ?_⟩
      · rw [hsize]
        exact hinv.positive
      · rw [hbuffer, hsize, hsent, hinv.buffered]
        exact evict_lastOf _
      · rw [hbuffer, hevict]
        refine (hinv.increasing.drop dropped).concat hnumber ?_
        intro last hmem
        rw [List.getLast?_drop] at hmem
        split at hmem
        · cases hmem
        · rename_i hroom
          apply hlast _ last hmem
          intro hone
          exact hroom (hsingle hone).ge

theorem replay_of_none {lastEventId : Text}
    (hnumber : numbers.number lastEventId = none) :
    state.emitter.replay numbers (some lastEventId) =
      state.emitter.tracker.buffer.map fun missed =>
        SseFormatter.format numbers missed.toEvent := by
  simp only [SseEmitter.replay, SseEventTracker.getEventsAfter,
    Option.bind_some, hnumber]

theorem replay_of_some {lastEventId : Text} {threshold : N}
    (hnumber : numbers.number lastEventId = some threshold) :
    state.emitter.replay numbers (some lastEventId) =
      (state.emitter.tracker.buffer.filter fun missed =>
        (numbers.number missed.id).any fun value => threshold < value).map
          fun missed => SseFormatter.format numbers missed.toEvent := by
  simp only [SseEmitter.replay, SseEventTracker.getEventsAfter,
    Option.bind_some, hnumber]

theorem ReplayLaw.number_isSome (hlaw : ReplayLaw numbers state)
    {before after : List (TrackedEvent N)}
    (hbuffer : state.emitter.tracker.buffer = before ++ tracked :: after) :
    (numbers.number tracked.id).isSome := by
  by_contra hnone
  rw [Option.not_isSome_iff_eq_none] at hnone
  have hreplay := hlaw.replays before tracked after hbuffer
  rw [replay_of_none hnone, hbuffer] at hreplay
  have hlength := congrArg List.length hreplay
  simp only [List.length_map, List.length_append, List.length_cons] at hlength
  omega

theorem ReplayLaw.precedes (hlaw : ReplayLaw numbers state)
    {before : List (TrackedEvent N)} {last : TrackedEvent N}
    (hbuffer : state.emitter.tracker.buffer = before ++ [last, tracked]) :
    precedes numbers.number last.id tracked.id = true := by
  have hbuffer' : state.emitter.tracker.buffer =
      (before ++ [last]) ++ [tracked] := by
    rw [hbuffer]
    simp
  obtain ⟨low, hlow⟩ := Option.isSome_iff_exists.mp
    (hlaw.number_isSome hbuffer)
  obtain ⟨high, hhigh⟩ := Option.isSome_iff_exists.mp
    (hlaw.number_isSome hbuffer')
  refine precedes_iff.mpr ⟨low, high, hlow, hhigh, ?_⟩
  by_contra hnot
  have hlast := hlaw.replays _ _ _ hbuffer
  have hnew := hlaw.replays _ _ _ hbuffer'
  rw [replay_of_some hlow] at hlast
  rw [replay_of_some hhigh, List.map_nil, List.map_eq_nil_iff,
    List.filter_eq_nil_iff] at hnew
  obtain ⟨missed, hmissed, -⟩ := List.mem_map.mp
    (hlast ▸ List.mem_map.mpr ⟨tracked, List.mem_cons_self, rfl⟩)
  obtain ⟨hmem, hgreater⟩ := List.mem_filter.mp hmissed
  obtain ⟨value, hvalue, hlt⟩ := (Option.any_eq_true _ _).mp hgreater
  apply hnew missed hmem
  rw [hvalue]
  simpa using (not_lt.mp hnot).trans_lt (of_decide_eq_true hlt)

/-- An id that is no number, or not greater than that of the event that the
buffer keeps before it, breaks the law. -/
theorem Invariant.not_law_send (hinv : Invariant numbers state)
    {event : SseEvent N} (hids : ¬ IdsIncrease numbers state (.send event)) :
    ¬ ReplayLaw numbers (state.send numbers event) := by
  simp only [IdsIncrease, not_forall] at hids
  obtain ⟨hopen, hids⟩ := hids
  obtain ⟨-, hbuffer, -⟩ := send_of_open numbers event hopen
  obtain ⟨dropped, hevict, hkeeps, -⟩ := evict_concat
    hinv.positive state.emitter.tracker.buffer (state.trackedAs event)
  rw [hevict] at hbuffer
  intro hlaw
  refine hids ⟨hlaw.number_isSome hbuffer, fun hsize last hlast => ?_⟩
  have hne : state.emitter.tracker.buffer ≠ [] := by
    intro hnil
    rw [hnil] at hlast
    cases hlast
  have hkept : (state.emitter.tracker.buffer.drop dropped).getLast? =
      some last := by
    rw [List.getLast?_drop, if_neg (Nat.not_le.mpr (hkeeps hsize hne))]
    exact hlast
  obtain ⟨init, hinit⟩ := List.getLast?_eq_some_iff.mp hkept
  have hlatest : (state.send numbers event).emitter.tracker.buffer =
      init ++ [last, state.trackedAs event] := by
    rw [hbuffer, hinit, List.append_assoc]
    rfl
  exact hlaw.precedes hlatest

section Steps

variable [DecidableEq W]

theorem Invariant.step (hinv : Invariant numbers state) {label : Label N W}
    (hids : IdsIncrease numbers state label)
    (hstep : step numbers state label = some next) :
    Invariant numbers next := by
  cases label with
  | send event =>
      cases hstep
      exact hinv.send hids
  | addWriter writer =>
      cases hstep
      exact ⟨hinv.positive, hinv.buffered, hinv.increasing⟩
  | removeWriter writer =>
      cases hstep
      exact ⟨hinv.positive, hinv.buffered, hinv.increasing⟩
  | close =>
      cases hstep
      exact ⟨hinv.positive, hinv.buffered, hinv.increasing⟩

theorem not_law_step (hinv : Invariant numbers state) {label : Label N W}
    (hids : ¬ IdsIncrease numbers state label)
    (hstep : SseReplay.step numbers state label = some next) :
    ¬ ReplayLaw numbers next := by
  cases label with
  | send event =>
      cases hstep
      exact hinv.not_law_send hids
  | addWriter writer => exact absurd trivial hids
  | removeWriter writer => exact absurd trivial hids
  | close => exact absurd trivial hids

/-- What is replayed after a buffered event is what was sent after it, in
every state of a run, if and only if the ids increase as numbers. -/
theorem replayLaw_iff_idsIncrease (retryMs : Option N)
    {maxBufferSize : Option ℕ∞} (hsize : ∀ size ∈ maxBufferSize, 1 ≤ size)
    {labels : List (Label N W)}
    (hrun : exec (step numbers) (State.initial retryMs maxBufferSize) labels =
      some state) :
    Throughout (step numbers) (ReplayLaw numbers)
        (State.initial retryMs maxBufferSize) labels ↔
      StepsMeet (step numbers) (IdsIncrease numbers)
        (State.initial retryMs maxBufferSize) labels :=
  throughout_iff_stepsMeet (fun _ hinv => hinv.law)
    (fun _ _ _ hinv hids hstep => hinv.step hids hstep)
    (fun _ _ _ hinv hids hstep => not_law_step hinv hids hstep)
    (invariant_initial retryMs hsize) hrun

end Steps

def eventWith (id : Option Text) : SseEvent ℕ := ⟨id, none, .null, none⟩

/-- Ids of their own that are greater than those that were given before. -/
def sendsGreater : List (Label ℕ Unit) :=
  [.addWriter (), .send (eventWith none), .send (eventWith (some ['5'])),
    .send (eventWith (some ['1', '2'])), .close, .send (eventWith none)]

/-- An id of its own that the tracker gives again. -/
def sendsAhead : List (Label ℕ Unit) :=
  [.send (eventWith (some ['2'])), .send (eventWith none)]

theorem replayLaw_iff_idsIncrease_samples :
    Throughout (step Json.decimal) (ReplayLaw Json.decimal)
        (State.initial none (some 2)) sendsGreater ∧
      ¬ Throughout (step Json.decimal) (ReplayLaw Json.decimal)
        (State.initial none none) sendsAhead := by
  have hgreater : (exec (step Json.decimal) (State.initial none (some 2))
      sendsGreater).isSome := by
    decide +kernel
  have hahead : (exec (step Json.decimal) (State.initial none none)
      sendsAhead).isSome := by
    decide +kernel
  obtain ⟨_, hgreater⟩ := Option.isSome_iff_exists.mp hgreater
  obtain ⟨_, hahead⟩ := Option.isSome_iff_exists.mp hahead
  constructor
  · apply (replayLaw_iff_idsIncrease none (by decide) hgreater).mpr
    decide +kernel
  · intro hlaw
    have hmeet := (replayLaw_iff_idsIncrease none (by decide) hahead).mp hlaw
    exact absurd hmeet (by decide +kernel)

/-- Both events have the id 2, and nothing is replayed after the first. -/
theorem not_replayLaw_sendsAhead :
    ∃ state : State ℕ Unit,
      exec (step Json.decimal) (State.initial none none) sendsAhead =
        some state ∧
      state.emitter.tracker.buffer.map TrackedEvent.id = [['2'], ['2']] ∧
      state.emitter.replay Json.decimal (some ['2']) = [] ∧
      ¬ ReplayLaw Json.decimal state := by
  have hsome : (exec (step Json.decimal)
      (State.initial none none : State ℕ Unit) sendsAhead).map (fun state =>
        (state.emitter.tracker.buffer.map TrackedEvent.id,
          state.emitter.replay Json.decimal (some ['2']))) =
        some ([['2'], ['2']], []) := by
    decide +kernel
  obtain ⟨state, hrun, hfacts⟩ := Option.map_eq_some_iff.mp hsome
  simp only [Prod.mk.injEq] at hfacts
  obtain ⟨hids, hreplay⟩ := hfacts
  refine ⟨state, hrun, hids, hreplay, fun hlaw => ?_⟩
  have hdistinct := hlaw.distinct
  rw [hids] at hdistinct
  exact absurd hdistinct (by decide)

end TsCommons.Web.SseReplay
