import TsCommons.Web.SseFormatter
import TsCommons.Foundations.InsertionSet
import Mathlib.Data.ENat.Basic

/-!
# The emitter of server-sent events

An emitter formats the events that it sends for all its writers, and keeps the
last of them in a tracker, which gives an id to an event that has none.  A
client that comes back tells the last id it has seen, and gets the events
whose ids are greater numbers.
-/

namespace TsCommons.Web

open Foundations

variable {N W : Type}

structure TrackedEvent (N : Type) where
  id : Text
  event : Option Text
  data : Json N
  retry : Option N

def TrackedEvent.toEvent (tracked : TrackedEvent N) : SseEvent N :=
  ⟨some tracked.id, tracked.event, tracked.data, tracked.retry⟩

structure SseEventTracker (N : Type) where
  buffer : List (TrackedEvent N)
  maxBufferSize : ℕ∞
  sequence : ℕ

namespace SseEventTracker

def create (maxBufferSize : Option ℕ∞) : SseEventTracker N :=
  ⟨[], maxBufferSize.getD 100, 0⟩

/-- The id that the next event gets: its own, or `String(this.sequence)`. -/
def nextId (tracker : SseEventTracker N) (event : SseEvent N) : Text :=
  event.id.getD (Nat.toDigits 10 (tracker.sequence + 1))

def evict (maxBufferSize : ℕ∞) (buffer : List (TrackedEvent N)) :
    List (TrackedEvent N) :=
  if maxBufferSize < buffer.length then
    buffer.drop (buffer.length - maxBufferSize.toNat)
  else buffer

def track (tracker : SseEventTracker N) (event : SseEvent N) :
    TrackedEvent N × SseEventTracker N :=
  let tracked : TrackedEvent N :=
    ⟨tracker.nextId event, event.event, event.data, event.retry⟩
  (tracked,
    { tracker with
      sequence := tracker.sequence + 1
      buffer := evict tracker.maxBufferSize (tracker.buffer ++ [tracked]) })

/-- `number` is `Number(text)`, or `none` where that is not a number. -/
def getEventsAfter [LinearOrder N] (number : Text → Option N)
    (tracker : SseEventTracker N) (lastEventId : Option Text) :
    List (TrackedEvent N) :=
  match lastEventId.bind number with
  | none => tracker.buffer
  | some threshold =>
      tracker.buffer.filter fun tracked =>
        (number tracked.id).any fun value => threshold < value

def lastEventId (tracker : SseEventTracker N) : Option Text :=
  tracker.buffer.getLast?.map TrackedEvent.id

def bufferSize (tracker : SseEventTracker N) : ℕ := tracker.buffer.length

def clear (tracker : SseEventTracker N) : SseEventTracker N :=
  { tracker with buffer := [] }

end SseEventTracker

structure SseEmitter (N W : Type) where
  isOpen : Bool
  retryMs : Option N
  writers : InsertionSet W
  tracker : SseEventTracker N

namespace SseEmitter

def create (retryMs : Option N) (maxBufferSize : Option ℕ∞) :
    SseEmitter N W :=
  ⟨true, retryMs, .empty, .create maxBufferSize⟩

section Operations

variable [DecidableEq W] (numbers : Json.NumberFormat N)

def addWriter (emitter : SseEmitter N W) (writer : W) : SseEmitter N W :=
  { emitter with writers := emitter.writers.add writer }

/-- The callback that `addWriter` returns. -/
def removeWriter (emitter : SseEmitter N W) (writer : W) : SseEmitter N W :=
  { emitter with writers := emitter.writers.delete writer }

def withRetry (emitter : SseEmitter N W) (event : SseEvent N) : SseEvent N :=
  { event with retry := event.retry.or emitter.retryMs }

omit [DecidableEq W] in
/-- The emitter afterwards, and what is written to which writer. -/
def send (emitter : SseEmitter N W) (event : SseEvent N) :
    SseEmitter N W × List (W × Text) :=
  if emitter.isOpen then
    let result := emitter.tracker.track (emitter.withRetry event)
    let formatted := SseFormatter.format numbers result.1.toEvent
    ({ emitter with tracker := result.2 },
      emitter.writers.elements.map fun writer => (writer, formatted))
  else (emitter, [])

def ping (emitter : SseEmitter N W) (comment : Text) : List (W × Text) :=
  if emitter.isOpen then
    let formatted := SseFormatter.formatComment comment
    emitter.writers.elements.map fun writer => (writer, formatted)
  else []

/-- The texts that the writer gets. -/
def replay [LinearOrder N] (emitter : SseEmitter N W)
    (lastEventId : Option Text) : List Text :=
  (emitter.tracker.getEventsAfter numbers.number lastEventId).map
    fun tracked => SseFormatter.format numbers tracked.toEvent

def close (emitter : SseEmitter N W) : SseEmitter N W :=
  { emitter with isOpen := false }

end Operations

end SseEmitter

end TsCommons.Web
