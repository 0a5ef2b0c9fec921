import TsCommons.Streams.Outlet
import Mathlib.Data.ENat.Basic
import Mathlib.Data.List.Infix
import Mathlib.Data.Rat.Defs
import Mathlib.Algebra.Order.Ring.Rat

/-!
# Tumbling windows and session windows

A window takes the values that its source emits until it has as many as it
should, or until a tick finds that none has come for some time, and the last
window is closed when the source completes.  No value is lost and none is in
two windows.
-/

namespace TsCommons.Streams

variable {T E : Type}

structure StreamWindow (T : Type) where
  values : List T
  openedAt : ℚ
  closedAt : ℚ
deriving DecidableEq

/-! ## Tumbling windows -/

/-- The stream that `tumbling` has subscribed to, the variables of its
observer, and the stream that it has returned.  The subscribers of that stream
return, and do not call the source. -/
structure Tumbling (T E : Type) where
  source : EventStream E Unit
  windowSize : ℕ∞
  buffer : List T
  openedAt : ℚ
  out : Outlet (StreamWindow T) E

namespace Tumbling

def start (windowSize : ℕ∞) (now : ℚ) : Tumbling T E :=
  ⟨EventStream.subscribed.1, windowSize, [], now, .attach .new⟩

/-- The clock reads `now` throughout a call. -/
def observe (state : Tumbling T E) (now : ℚ) :
    Notice T E → Tumbling T E
  | .next v =>
      let buffer := state.buffer ++ [v]
      if state.windowSize ≤ buffer.length then
        { state with
          out := state.out.notify (.next ⟨buffer, state.openedAt, now⟩)
          buffer := []
          openedAt := now }
      else { state with buffer := buffer }
  | .error e => { state with out := state.out.notify (.error e) }
  | .complete =>
      let out :=
        if state.buffer ≠ [] then
          state.out.notify (.next ⟨state.buffer, state.openedAt, now⟩)
        else state.out
      { state with out := out.notify .complete }

/-- A call on the source, with the time of the call. -/
def notify (state : Tumbling T E) (call : Notice T E × ℚ) : Tumbling T E :=
  match state.source.call call.1 with
  | (called, false) => { state with source := called }
  | (called, true) => { state with source := called }.observe call.2 call.1

def run (windowSize : ℕ∞) (now : ℚ) (calls : List (Notice T E × ℚ)) :
    Tumbling T E :=
  calls.foldl notify (start windowSize now)

end Tumbling

/-! ## Session windows -/

/-- The stream that `session` has subscribed to, the variables of its observer,
and the stream that it has returned, whose subscribers return and do not call
the source either. -/
structure Session (T E : Type) where
  source : EventStream E Unit
  gapMs : ℚ
  buffer : List T
  lastEmitMs : ℚ
  openedAt : ℚ
  hasItems : Bool
  out : Outlet (StreamWindow T) E

inductive SessionCall (T E : Type)
  | source (notice : Notice T E) (now : ℚ)
  | tick (nowMs : ℚ)

namespace Session

def start (gapMs : ℚ) : Session T E :=
  ⟨EventStream.subscribed.1, gapMs, [], 0, 0, false, .attach .new⟩

def observe (state : Session T E) (now : ℚ) : Notice T E → Session T E
  | .next v =>
      { state with
        openedAt := if state.hasItems then state.openedAt else now
        hasItems := true
        buffer := state.buffer ++ [v]
        lastEmitMs := now }
  | .error e => { state with out := state.out.notify (.error e) }
  | .complete =>
      if state.buffer ≠ [] then
        { state with
          out := (state.out.notify
            (.next ⟨state.buffer, state.openedAt, now⟩)).notify .complete
          buffer := []
          hasItems := false }
      else { state with out := state.out.notify .complete }

def tick (state : Session T E) (nowMs : ℚ) : Session T E :=
  if state.hasItems && state.gapMs ≤ nowMs - state.lastEmitMs then
    { state with
      out := state.out.notify (.next ⟨state.buffer, state.openedAt, nowMs⟩)
      buffer := []
      hasItems := false
      lastEmitMs := nowMs }
  else state

def call (state : Session T E) : SessionCall T E → Session T E
  | .source notice now =>
      match state.source.call notice with
      | (called, false) => { state with source := called }
      | (called, true) => { state with source := called }.observe now notice
  | .tick nowMs => state.tick nowMs

def run (gapMs : ℚ) (calls : List (SessionCall T E)) : Session T E :=
  calls.foldl call (start gapMs)

end Session

/-! ## What the windows are to be -/

def SessionCall.notice : SessionCall T E → Option (Notice T E)
  | .source notice _ => some notice
  | .tick _ => none

/-- The calls on the source of a session. -/
def SessionCall.notices (calls : List (SessionCall T E)) :
    List (Notice T E) :=
  calls.filterMap SessionCall.notice

/-- The times at which the values of the source have been received. -/
def SessionCall.received : List (SessionCall T E) → List ℚ
  | .source (.next _) now :: rest => now :: received rest
  | .source (.error _) _ :: _ => []
  | .source .complete _ :: _ => []
  | .tick _ :: rest => received rest
  | [] => []

/-- The windows that a subscriber has seen hold the values of a source, and
all of them once the source has completed. -/
structure Holds (windows : List (StreamWindow T)) (notices : List (Notice T E))
    (seen : List (Notice (StreamWindow T) E)) : Prop where
  seen_eq : seen = windows.map .next ++ closing (ending notices)
  inOrder : windows.flatMap StreamWindow.values <+: emitted notices
  lossless : ending notices = some .complete →
    windows.flatMap StreamWindow.values = emitted notices
  nonempty : ∀ window ∈ windows, window.values ≠ []

def TumblingLaw (windowSize : ℕ∞) (now : ℚ) (calls : List (Notice T E × ℚ)) :
    Prop :=
  let out := (Tumbling.run windowSize now calls).out
  Holds out.values (calls.map Prod.fst) out.seen ∧
    ∀ window ∈ out.values.dropLast,
      (window.values.length : ℕ∞) = windowSize

/-- A tick that closes a window comes no sooner than the gap after the last
value. -/
def SessionLaw (gapMs : ℚ) (calls : List (SessionCall T E)) : Prop :=
  let out := (Session.run gapMs calls).out
  Holds out.values (SessionCall.notices calls) out.seen ∧
    ∀ before nowMs after, calls = before ++ .tick nowMs :: after →
      (Session.run gapMs (before ++ [.tick nowMs])).out.values =
          (Session.run gapMs before).out.values ∨
        ∃ last ∈ (SessionCall.received before).getLast?, gapMs ≤ nowMs - last

/-! ## Buffers -/

/-- A source and the stream of the windows after the calls on the source, with
the values that are in no window yet. -/
structure Buffering (notices : List (Notice T E))
    (source : EventStream E Unit) (out : Outlet (StreamWindow T) E)
    (windows : List (StreamWindow T)) (buffer : List T) : Prop where
  source_eq : source = EventStream.subscribed.1.ended (ending notices)
  out_eq : out = .after windows (ending notices)
  nonempty : ∀ window ∈ windows, window.values ≠ []
  inOrder : windows.flatMap StreamWindow.values <+: emitted notices
  pending : ending notices = none →
    windows.flatMap StreamWindow.values ++ buffer = emitted notices
  lossless : ending notices = some .complete →
    windows.flatMap StreamWindow.values = emitted notices

section Buffering

variable {calls : List (Notice T E)} {notice : Notice T E}
  {source : EventStream E Unit} {out : Outlet (StreamWindow T) E}
  {windows : List (StreamWindow T)} {buffer : List T} {v : T}
  {terminal : Terminal E}

theorem Buffering.holds
    (hbuffering : Buffering calls source out windows buffer) :
    Holds out.values calls out.seen := by
  have hvalues : out.values = windows := by
    rw [hbuffering.out_eq, Outlet.values_after]
  constructor
  · rw [hvalues, hbuffering.out_eq, Outlet.after]
  · rw [hvalues]
    exact hbuffering.inOrder
  · rw [hvalues]
    exact hbuffering.lossless
  · rw [hvalues]
    exact hbuffering.nonempty

theorem buffering_start :
    Buffering ([] : List (Notice T E)) EventStream.subscribed.1
      (.attach .new) [] [] where
  source_eq := rfl
  out_eq := rfl
  nonempty := List.forall_mem_nil _
  inOrder := List.nil_prefix
  pending _ := rfl
  lossless _ := rfl

theorem Buffering.call_next
    (hbuffering : Buffering calls source out windows buffer)
    (hopen : ending calls = none) :
    source.call (.next v) = (source, true) := by
  rw [hbuffering.source_eq, hopen]
  rfl

theorem Buffering.call_error
    (hbuffering : Buffering calls source out windows buffer)
    (hopen : ending calls = none) (cause : E) :
    source.call (.error cause : Notice T E) =
      (EventStream.subscribed.1.ended (some (.error cause)), true) := by
  rw [hbuffering.source_eq, hopen]
  exact call_terminal (.error cause)

theorem Buffering.call_complete
    (hbuffering : Buffering calls source out windows buffer)
    (hopen : ending calls = none) :
    source.call (.complete : Notice T E) =
      (EventStream.subscribed.1.ended (some .complete), true) := by
  rw [hbuffering.source_eq, hopen]
  exact call_terminal .complete

theorem Buffering.call_ended
    (hbuffering : Buffering calls source out windows buffer)
    (hended : ending calls = some terminal) :
    source.call notice = (source, false) := by
  rw [hbuffering.source_eq, hended]
  exact Streams.call_ended _ _ _

/-- A value that is received waits in the buffer. -/
theorem Buffering.receive
    (hbuffering : Buffering calls source out windows buffer)
    (hopen : ending calls = none) :
    Buffering (calls ++ [.next v]) source out windows (buffer ++ [v]) := by
  have hending : ending (calls ++ [.next v]) = none :=
    ending_concat_of_none hopen
  have hemitted : emitted (calls ++ [.next v]) = emitted calls ++ [v] :=
    emitted_concat_of_none hopen
  constructor
  · rw [hending, ← hopen]
    exact hbuffering.source_eq
  · rw [hending, ← hopen]
    exact hbuffering.out_eq
  · exact hbuffering.nonempty
  · rw [hemitted]
    exact hbuffering.inOrder.trans (List.prefix_append _ _)
  · intro _
    rw [hemitted, ← hbuffering.pending hopen, List.append_assoc]
  · rw [hending]
    intro hcomplete
    cases hcomplete

/-- The values in the buffer go to a window. -/
theorem Buffering.close
    (hbuffering : Buffering calls source out windows buffer)
    (hopen : ending calls = none) (hbuffer : buffer ≠ [])
    (openedAt closedAt : ℚ) :
    Buffering calls source
      (out.notify (.next ⟨buffer, openedAt, closedAt⟩))
      (windows ++ [⟨buffer, openedAt, closedAt⟩]) [] := by
  have hall : (windows ++ [StreamWindow.mk buffer openedAt closedAt]).flatMap
      StreamWindow.values = emitted calls := by
    rw [List.flatMap_append, List.flatMap_singleton]
    exact hbuffering.pending hopen
  constructor
  · exact hbuffering.source_eq
  · rw [hbuffering.out_eq, hopen, Outlet.notify_next]
  · exact List.forall_mem_append.mpr
      ⟨hbuffering.nonempty, List.forall_mem_singleton.mpr hbuffer⟩
  · rw [hall]
  · intro _
    rw [hall, List.append_nil]
  · intro _
    exact hall

/-- The source ends, with an empty buffer if it completes. -/
theorem Buffering.terminate
    (hbuffering : Buffering calls source out windows buffer)
    (hopen : ending calls = none) (terminal : Terminal E)
    (hflushed : terminal = .complete → buffer = []) (later : List T) :
    Buffering (calls ++ [terminal.notice])
      (EventStream.subscribed.1.ended (some terminal))
      (out.notify terminal.notice) windows later := by
  have hending : ending (calls ++ [terminal.notice]) = some terminal := by
    rw [ending_concat_of_none hopen]
    cases terminal with
    | error cause => rfl
    | complete => rfl
  have hemitted : emitted (calls ++ [terminal.notice]) = emitted calls := by
    rw [emitted_concat_of_none hopen]
    cases terminal with
    | error cause => exact List.append_nil _
    | complete => exact List.append_nil _
  constructor
  · rw [hending]
  · rw [hending, hbuffering.out_eq, hopen]
    exact Outlet.notify_terminal windows terminal
  · exact hbuffering.nonempty
  · rw [hemitted]
    exact hbuffering.inOrder
  · rw [hending]
    intro hnone
    cases hnone
  · rw [hending, hemitted]
    intro hcomplete
    have hpending := hbuffering.pending hopen
    rw [hflushed (Option.some.inj hcomplete), List.append_nil] at hpending
    exact hpending

theorem Buffering.complete
    (hbuffering : Buffering calls source out windows [])
    (hopen : ending calls = none) (later : List T) :
    Buffering (calls ++ [.complete])
      (EventStream.subscribed.1.ended (some .complete))
      (out.notify .complete) windows later :=
  hbuffering.terminate hopen .complete (fun _ => rfl) later

theorem Buffering.error
    (hbuffering : Buffering calls source out windows buffer)
    (hopen : ending calls = none) (cause : E) :
    Buffering (calls ++ [.error cause])
      (EventStream.subscribed.1.ended (some (.error cause)))
      (out.notify (.error cause)) windows buffer :=
  hbuffering.terminate hopen (.error cause) nofun buffer

/-- A source that has ended changes nothing, and what is in the buffer does
not matter any more. -/
theorem Buffering.ignore
    (hbuffering : Buffering calls source out windows buffer)
    (hended : ending calls = some terminal) (later : List T) :
    Buffering (calls ++ [notice]) source out windows later := by
  have hending : ending (calls ++ [notice]) = some terminal :=
    ending_concat_of_some hended
  have hemitted : emitted (calls ++ [notice]) = emitted calls :=
    emitted_concat_of_some hended
  constructor
  · rw [hending, ← hended]
    exact hbuffering.source_eq
  · rw [hending, ← hended]
    exact hbuffering.out_eq
  · exact hbuffering.nonempty
  · rw [hemitted]
    exact hbuffering.inOrder
  · rw [hending]
    intro hnone
    cases hnone
  · rw [hending, hemitted, ← hended]
    exact hbuffering.lossless

/-- The subscriber of a stream that has ended sees no further window. -/
theorem Buffering.notify_ended
    (hbuffering : Buffering calls source out windows buffer)
    (hended : ending calls = some terminal)
    (other : Notice (StreamWindow T) E) (later : List T) :
    Buffering calls source (out.notify other) windows later := by
  obtain ⟨hsource, hout, hnonempty, hinOrder, -, hlossless⟩ := hbuffering
  refine ⟨hsource, ?_, hnonempty, hinOrder, ?_, hlossless⟩
  · rw [hout, hended, Outlet.notify_ended]
  · rw [hended]
    intro hnone
    cases hnone

end Buffering

/-! ## Tumbling windows hold the values -/

/-- A tumbling window that is open has room for a value. -/
structure Tumbling.Invariant (windowSize : ℕ∞) (calls : List (Notice T E))
    (state : Tumbling T E) (windows : List (StreamWindow T)) : Prop where
  buffering : Buffering calls state.source state.out windows state.buffer
  windowSize_eq : state.windowSize = windowSize
  full : ∀ window ∈ windows.dropLast,
    (window.values.length : ℕ∞) = windowSize
  last : ending calls = none → ∀ window ∈ windows,
    (window.values.length : ℕ∞) = windowSize
  room : ending calls = none → (state.buffer.length : ℕ∞) < windowSize

section Tumbling

variable {windowSize : ℕ∞} {calls : List (Notice T E)}
  {state : Tumbling T E} {windows : List (StreamWindow T)} {now : ℚ} {v : T}

theorem Tumbling.Invariant.next
    (hinv : Tumbling.Invariant windowSize calls state windows)
    (hopen : ending calls = none) :
    ∃ later, Tumbling.Invariant windowSize (calls ++ [.next v])
      (state.observe now (.next v)) later := by
  have hreceive : Buffering (calls ++ [.next v]) _ _ _ (state.buffer ++ [v]) :=
    hinv.buffering.receive hopen
  have hending : ending (calls ++ [.next v]) = none :=
    ending_concat_of_none hopen
  have hlength : ((state.buffer ++ [v]).length : ℕ∞) ≤ windowSize := by
    rw [List.length_append, List.length_singleton]
    exact_mod_cast Order.add_one_le_of_lt (hinv.room hopen)
  rw [Tumbling.observe, hinv.windowSize_eq]
  by_cases hfull : windowSize ≤ (state.buffer ++ [v]).length
  · rw [if_pos hfull]
    have hall : ∀ window ∈
        windows ++ [⟨state.buffer ++ [v], state.openedAt, now⟩],
        (window.values.length : ℕ∞) = windowSize :=
      List.forall_mem_append.mpr ⟨hinv.last hopen,
        List.forall_mem_singleton.mpr (le_antisymm hlength hfull)⟩
    refine ⟨_, hreceive.close hending (by simp) _ _, rfl, ?_, fun _ => hall,
      ?_⟩
    · exact fun window hwindow => hall window (List.dropLast_subset _ hwindow)
    · intro _
      exact lt_of_le_of_lt zero_le (hinv.room hopen)
  · rw [if_neg hfull]
    refine ⟨windows, hreceive, rfl, hinv.full, fun _ => hinv.last hopen, ?_⟩
    exact fun _ => not_le.mp hfull

theorem Tumbling.Invariant.of_ended {terminal : Terminal E}
    (hended : ending calls = some terminal)
    (hbuffering : Buffering calls state.source state.out windows state.buffer)
    (hsize : state.windowSize = windowSize)
    (hfull : ∀ window ∈ windows.dropLast,
      (window.values.length : ℕ∞) = windowSize) :
    Tumbling.Invariant windowSize calls state windows where
  buffering := hbuffering
  windowSize_eq := hsize
  full := hfull
  last hopen := by rw [hended] at hopen; cases hopen
  room hopen := by rw [hended] at hopen; cases hopen

theorem Tumbling.Invariant.complete
    (hinv : Tumbling.Invariant windowSize calls state windows)
    (hopen : ending calls = none) :
    ∃ later, Tumbling.Invariant windowSize (calls ++ [.complete])
      ({ state with
          source := EventStream.subscribed.1.ended (some .complete) }.observe
        now .complete) later := by
  have hended : ending (calls ++ [.complete]) = some .complete :=
    ending_concat_of_none hopen
  by_cases hbuffer : state.buffer = []
  · have hbuffering := hinv.buffering
    rw [hbuffer] at hbuffering
    rw [Tumbling.observe, if_neg (not_not.mpr hbuffer)]
    exact ⟨windows, .of_ended hended (hbuffering.complete hopen _)
      hinv.windowSize_eq hinv.full⟩
  · have hclose : Buffering calls state.source
        (state.out.notify (.next ⟨state.buffer, state.openedAt, now⟩)) _ [] :=
      hinv.buffering.close hopen hbuffer _ _
    rw [Tumbling.observe, if_pos hbuffer]
    refine ⟨_, .of_ended hended (hclose.complete hopen _)
      hinv.windowSize_eq ?_⟩
    rw [List.dropLast_concat]
    exact hinv.last hopen

theorem Tumbling.Invariant.notify
    (hinv : Tumbling.Invariant windowSize calls state windows)
    (call : Notice T E × ℚ) :
    ∃ later, Tumbling.Invariant windowSize (calls ++ [call.1])
      (state.notify call) later := by
  obtain ⟨notice, now⟩ := call
  rw [Tumbling.notify]
  cases hending : ending calls with
  | some terminal =>
      rw [hinv.buffering.call_ended hending]
      exact ⟨windows, .of_ended (ending_concat_of_some hending)
        (hinv.buffering.ignore hending _) hinv.windowSize_eq hinv.full⟩
  | none =>
      cases notice with
      | next v =>
          rw [hinv.buffering.call_next hending]
          exact hinv.next hending
      | error cause =>
          rw [hinv.buffering.call_error hending]
          exact ⟨windows, .of_ended (ending_concat_of_none hending)
            (hinv.buffering.error hending cause) hinv.windowSize_eq
            hinv.full⟩
      | complete =>
          rw [hinv.buffering.call_complete hending]
          exact hinv.complete hending

theorem Tumbling.exists_invariant (hsize : 1 ≤ windowSize) (now : ℚ)
    (calls : List (Notice T E × ℚ)) :
    ∃ windows, Tumbling.Invariant windowSize (calls.map Prod.fst)
      (Tumbling.run windowSize now calls) windows := by
  induction calls using List.reverseRecOn with
  | nil =>
      refine ⟨[], buffering_start, rfl, List.forall_mem_nil _,
        fun _ => List.forall_mem_nil _, fun _ => ?_⟩
      exact Order.one_le_iff_pos.mp hsize
  | append_singleton calls call ih =>
      obtain ⟨windows, hinv⟩ := ih
      rw [Tumbling.run, List.foldl_concat, List.map_append]
      exact hinv.notify call

theorem tumblingLaw (hsize : 1 ≤ windowSize) (now : ℚ)
    (calls : List (Notice T E × ℚ)) : TumblingLaw windowSize now calls := by
  obtain ⟨windows, hinv⟩ := Tumbling.exists_invariant hsize now calls
  refine ⟨hinv.buffering.holds, ?_⟩
  rw [hinv.buffering.out_eq, Outlet.values_after]
  exact hinv.full

end Tumbling

/-! ## Session windows hold the values -/

/-- A session window has items while its buffer is not empty, and knows when
the last of them has been received. -/
structure Session.Invariant (gapMs : ℚ) (calls : List (SessionCall T E))
    (state : Session T E) (windows : List (StreamWindow T)) : Prop where
  buffering : Buffering (SessionCall.notices calls) state.source state.out
    windows state.buffer
  gapMs_eq : state.gapMs = gapMs
  hasItems_iff : ending (SessionCall.notices calls) = none →
    (state.hasItems = true ↔ state.buffer ≠ [])
  last : state.hasItems = true →
    (SessionCall.received calls).getLast? = some state.lastEmitMs

section Session

variable {gapMs nowMs now : ℚ} {calls : List (SessionCall T E)}
  {last : SessionCall T E} {state : Session T E}
  {windows : List (StreamWindow T)} {v : T} {notice : Notice T E}

theorem notices_concat_source :
    SessionCall.notices (calls ++ [.source notice now]) =
      SessionCall.notices calls ++ [notice] := by
  rw [SessionCall.notices, List.filterMap_append]
  rfl

theorem notices_concat_tick (calls : List (SessionCall T E)) (nowMs : ℚ) :
    SessionCall.notices (calls ++ [.tick nowMs]) =
      SessionCall.notices calls := by
  rw [SessionCall.notices, List.filterMap_append]
  exact List.append_nil _

theorem received_concat_of_none
    (hopen : ending (SessionCall.notices calls) = none) :
    SessionCall.received (calls ++ [last]) =
      SessionCall.received calls ++ SessionCall.received [last] := by
  induction calls with
  | nil => rfl
  | cons first rest ih =>
      cases first with
      | source notice now =>
          cases notice with
          | next v => exact congrArg (now :: ·) (ih hopen)
          | error cause => cases hopen
          | complete => cases hopen
      | tick nowMs => exact ih hopen

theorem received_concat_of_some {terminal : Terminal E}
    (hended : ending (SessionCall.notices calls) = some terminal) :
    SessionCall.received (calls ++ [last]) = SessionCall.received calls := by
  induction calls with
  | nil => cases hended
  | cons first rest ih =>
      cases first with
      | source notice now =>
          cases notice with
          | next v => exact congrArg (now :: ·) (ih hended)
          | error cause => rfl
          | complete => rfl
      | tick nowMs => exact ih hended

theorem received_concat_tick :
    SessionCall.received (calls ++ [.tick nowMs]) =
      SessionCall.received calls := by
  cases hending : ending (SessionCall.notices calls) with
  | some terminal => exact received_concat_of_some hending
  | none =>
      rw [received_concat_of_none hending]
      exact List.append_nil _

theorem Session.Invariant.next
    (hinv : Session.Invariant gapMs calls state windows)
    (hopen : ending (SessionCall.notices calls) = none) :
    Session.Invariant gapMs (calls ++ [.source (.next v) now])
      (state.observe now (.next v)) windows := by
  constructor
  · rw [notices_concat_source]
    exact hinv.buffering.receive hopen
  · exact hinv.gapMs_eq
  · intro _
    exact iff_of_true rfl (by simp [Session.observe])
  · intro _
    rw [received_concat_of_none hopen]
    exact List.getLast?_concat

theorem Session.Invariant.of_ended {terminal : Terminal E}
    (hended : ending (SessionCall.notices calls) = some terminal)
    (hbuffering : Buffering (SessionCall.notices calls) state.source state.out
      windows state.buffer)
    (hgap : state.gapMs = gapMs)
    (hlast : state.hasItems = true →
      (SessionCall.received calls).getLast? = some state.lastEmitMs) :
    Session.Invariant gapMs calls state windows where
  buffering := hbuffering
  gapMs_eq := hgap
  hasItems_iff hopen := by rw [hended] at hopen; cases hopen
  last := hlast

theorem Session.Invariant.complete
    (hinv : Session.Invariant gapMs calls state windows)
    (hopen : ending (SessionCall.notices calls) = none) :
    ∃ later, Session.Invariant gapMs (calls ++ [.source .complete now])
      ({ state with
          source := EventStream.subscribed.1.ended (some .complete) }.observe
        now .complete) later := by
  have hnotices : SessionCall.notices (calls ++ [.source .complete now]) =
      SessionCall.notices calls ++ [.complete] := notices_concat_source
  have hended : ending (SessionCall.notices (calls ++ [.source .complete now]))
      = some .complete := by
    rw [hnotices]
    exact ending_concat_of_none hopen
  rw [Session.observe]
  by_cases hbuffer : state.buffer = []
  · have hbuffering := hinv.buffering
    rw [hbuffer] at hbuffering
    rw [if_neg (not_not.mpr hbuffer)]
    refine ⟨windows, .of_ended hended ?_ hinv.gapMs_eq ?_⟩
    · rw [hnotices]
      exact hbuffering.complete hopen _
    · intro hitems
      exact absurd hbuffer ((hinv.hasItems_iff hopen).mp hitems)
  · have hclose : Buffering (SessionCall.notices calls) state.source
        (state.out.notify (.next ⟨state.buffer, state.openedAt, now⟩)) _ [] :=
      hinv.buffering.close hopen hbuffer _ _
    have hcomplete := hclose.complete hopen []
    rw [← hnotices] at hcomplete
    rw [if_pos hbuffer]
    exact ⟨_, .of_ended hended hcomplete hinv.gapMs_eq Bool.noConfusion⟩

theorem Session.Invariant.error
    (hinv : Session.Invariant gapMs calls state windows)
    (hopen : ending (SessionCall.notices calls) = none) (cause : E) :
    Session.Invariant gapMs (calls ++ [.source (.error cause) now])
      ({ state with
          source := EventStream.subscribed.1.ended
            (some (.error cause)) }.observe now (.error cause)) windows := by
  have hnotices : SessionCall.notices
      (calls ++ [.source (.error cause) now]) =
      SessionCall.notices calls ++ [.error cause] := notices_concat_source
  have hended : ending (SessionCall.notices
      (calls ++ [.source (.error cause) now])) = some (.error cause) := by
    rw [hnotices]
    exact ending_concat_of_none hopen
  refine .of_ended hended ?_ hinv.gapMs_eq ?_
  · rw [hnotices]
    exact hinv.buffering.error hopen cause
  · intro hitems
    rw [received_concat_of_none hopen]
    exact (congrArg List.getLast? (List.append_nil _)).trans (hinv.last hitems)

theorem tick_of_gap (hitems : state.hasItems = true)
    (hgap : state.gapMs ≤ nowMs - state.lastEmitMs) :
    state.tick nowMs =
      { state with
        out := state.out.notify (.next ⟨state.buffer, state.openedAt, nowMs⟩)
        buffer := []
        hasItems := false
        lastEmitMs := nowMs } := by
  rw [Session.tick, hitems, decide_eq_true hgap]
  rfl

theorem tick_of_no_gap
    (hnot : ¬ (state.hasItems = true ∧
      state.gapMs ≤ nowMs - state.lastEmitMs)) :
    state.tick nowMs = state := by
  rw [Session.tick, if_neg]
  rw [Bool.and_eq_true, decide_eq_true_iff]
  exact hnot

theorem Session.Invariant.tick
    (hinv : Session.Invariant gapMs calls state windows) (nowMs : ℚ) :
    ∃ later, Session.Invariant gapMs (calls ++ [.tick nowMs])
      (state.tick nowMs) later := by
  have hbuffering := hinv.buffering
  have hiff := hinv.hasItems_iff
  rw [← notices_concat_tick calls nowMs] at hbuffering hiff
  by_cases htick : state.hasItems = true ∧
      state.gapMs ≤ nowMs - state.lastEmitMs
  · rw [tick_of_gap htick.1 htick.2]
    cases hending : ending (SessionCall.notices (calls ++ [.tick nowMs])) with
    | none =>
        have hclose := hbuffering.close hending ((hiff hending).mp htick.1)
          state.openedAt nowMs
        refine ⟨_, hclose, hinv.gapMs_eq, fun _ => ?_, Bool.noConfusion⟩
        exact iff_of_false Bool.noConfusion (not_not.mpr rfl)
    | some terminal =>
        exact ⟨windows, .of_ended hending
          (hbuffering.notify_ended hending _ []) hinv.gapMs_eq
          Bool.noConfusion⟩
  · rw [tick_of_no_gap htick]
    refine ⟨windows, hbuffering, hinv.gapMs_eq, hiff, ?_⟩
    rw [received_concat_tick]
    exact hinv.last

theorem Session.Invariant.call
    (hinv : Session.Invariant gapMs calls state windows)
    (call : SessionCall T E) :
    ∃ later, Session.Invariant gapMs (calls ++ [call]) (state.call call)
      later := by
  cases call with
  | tick nowMs => exact hinv.tick nowMs
  | source notice now =>
      rw [Session.call]
      cases hending : ending (SessionCall.notices calls) with
      | some terminal =>
          have hended : ending (SessionCall.notices
              (calls ++ [.source notice now])) = some terminal := by
            rw [notices_concat_source]
            exact ending_concat_of_some hending
          rw [hinv.buffering.call_ended hending]
          refine ⟨windows, .of_ended hended ?_ hinv.gapMs_eq ?_⟩
          · rw [notices_concat_source]
            exact hinv.buffering.ignore hending _
          · rw [received_concat_of_some hending]
            exact hinv.last
      | none =>
          cases notice with
          | next v =>
              rw [hinv.buffering.call_next hending]
              exact ⟨windows, hinv.next hending⟩
          | error cause =>
              rw [hinv.buffering.call_error hending]
              exact ⟨windows, hinv.error hending cause⟩
          | complete =>
              rw [hinv.buffering.call_complete hending]
              exact hinv.complete hending

theorem Session.exists_invariant (gapMs : ℚ)
    (calls : List (SessionCall T E)) :
    ∃ windows, Session.Invariant gapMs calls (Session.run gapMs calls)
      windows := by
  induction calls using List.reverseRecOn with
  | nil =>
      refine ⟨[], buffering_start, rfl, fun _ => ?_, Bool.noConfusion⟩
      exact iff_of_false Bool.noConfusion (not_not.mpr rfl)
  | append_singleton calls call ih =>
      obtain ⟨windows, hinv⟩ := ih
      rw [Session.run, List.foldl_concat]
      exact hinv.call call

theorem sessionLaw (gapMs : ℚ) (calls : List (SessionCall T E)) :
    SessionLaw gapMs calls := by
  obtain ⟨windows, hinv⟩ := Session.exists_invariant gapMs calls
  refine ⟨hinv.buffering.holds, ?_⟩
  intro before nowMs after _
  obtain ⟨earlier, hbefore⟩ := Session.exists_invariant gapMs before
  rw [Session.run, Session.run, List.foldl_concat, Session.call]
  by_cases htick : (Session.run gapMs before).hasItems = true ∧
      (Session.run gapMs before).gapMs ≤
        nowMs - (Session.run gapMs before).lastEmitMs
  · right
    exact ⟨_, hbefore.last htick.1, hbefore.gapMs_eq.symm.trans_le htick.2⟩
  · left
    exact congrArg (fun state => state.out.values) (tick_of_no_gap htick)

end Session

/-- Tumbling windows and session windows lose and duplicate no value. -/
theorem windows_lossless {windowSize : ℕ∞} (hsize : 1 ≤ windowSize)
    (now : ℚ) (calls : List (Notice T E × ℚ)) (gapMs : ℚ)
    (sessionCalls : List (SessionCall T E)) :
    TumblingLaw windowSize now calls ∧ SessionLaw gapMs sessionCalls :=
  ⟨tumblingLaw hsize now calls, sessionLaw gapMs sessionCalls⟩

theorem windows_lossless_samples :
    TumblingLaw (E := ℕ) 2 0
        [(.next 1, 1), (.next 2, 4), (.next 3, 4), (.complete, 9)] ∧
      SessionLaw (E := ℕ) 5
        [.source (.next 1) 1, .tick 5, .source (.next 2) 6, .tick 11,
          .source (.next 3) 12, .source .complete 13] :=
  windows_lossless (by decide) 0 _ 5 _

example : ((Session.run 5
    [.source (.next 1) 1, .tick 5, .source (.next 2) 6, .tick 11,
      .source (.next 3) 12, .source .complete 13] : Session ℕ ℕ).out.seen) =
        [.next ⟨[1, 2], 1, 11⟩, .next ⟨[3], 12, 13⟩, .complete] := by
  decide +kernel

end TsCommons.Streams
