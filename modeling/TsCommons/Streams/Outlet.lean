import TsCommons.Streams.Pipelines

/-!
# The stream that an operator returns

The subscriber of the stream that an operator emits to has seen the values of
the calls, and then the first of the terminal calls.
-/

namespace TsCommons.Streams

variable {V E : Type}

/-- A stream with at most one subscriber, and what that has seen. -/
structure Outlet (V E : Type) where
  stream : EventStream E Unit
  seen : List (Notice V E)

namespace Outlet

/-- The subscriber is notified immediately if the stream has ended. -/
def attach (stream : EventStream E Unit) : Outlet V E where
  stream := (stream.subscribe ⟨(), some (), some ()⟩).1
  seen := stream.terminal.toList

def notify (out : Outlet V E) (notice : Notice V E) : Outlet V E :=
  match out.stream.call notice with
  | (called, false) => ⟨called, out.seen⟩
  | (called, true) => ⟨called, out.seen ++ [notice]⟩

def values (out : Outlet V E) : List V := out.seen.filterMap Notice.value

/-- The subscriber after the values and the end of its stream. -/
def after (values : List V) (ending : Option (Terminal E)) : Outlet V E where
  stream := EventStream.subscribed.1.ended ending
  seen := values.map .next ++ closing ending

variable {emitted : List V} {ending : Option (Terminal E)}

theorem notify_next (emitted : List V) (value : V) :
    (after (E := E) emitted none).notify (.next value) =
      after (emitted ++ [value]) none := by
  simp only [notify, after, EventStream.ended, call_next]
  simp [closing]

theorem notify_terminal (emitted : List V) (terminal : Terminal E) :
    (after emitted none).notify terminal.notice =
      after emitted (some terminal) := by
  simp only [notify, after, EventStream.ended, call_terminal]
  simp [closing]

theorem notify_ended (emitted : List V) (terminal : Terminal E)
    (notice : Notice V E) :
    (after emitted (some terminal)).notify notice =
      after emitted (some terminal) := by
  simp only [notify, after, call_ended]

theorem values_after (emitted : List V) (ending : Option (Terminal E)) :
    (after emitted ending).values = emitted := by
  have hvalues : Notice.value ∘ (.next : V → Notice V E) = some := rfl
  rw [values, after, List.filterMap_append, List.filterMap_map, hvalues,
    List.filterMap_some, values_closing, List.append_nil]

end Outlet

/-! ## Calls on the source -/

variable {notices : List (Notice V E)} {notice : Notice V E}

theorem ending_concat_of_none (hopen : ending notices = none) :
    ending (notices ++ [notice]) = ending [notice] := by
  induction notices with
  | nil => rfl
  | cons first rest ih =>
      cases first with
      | next value => exact ih hopen
      | error cause => cases hopen
      | complete => cases hopen

theorem ending_concat_of_some {terminal : Terminal E}
    (hended : ending notices = some terminal) :
    ending (notices ++ [notice]) = some terminal := by
  induction notices with
  | nil => cases hended
  | cons first rest ih =>
      cases first with
      | next value => exact ih hended
      | error cause => exact hended
      | complete => exact hended

theorem emitted_concat_of_none (hopen : ending notices = none) :
    emitted (notices ++ [notice]) = emitted notices ++ emitted [notice] := by
  induction notices with
  | nil => rfl
  | cons first rest ih =>
      cases first with
      | next value => exact congrArg (value :: ·) (ih hopen)
      | error cause => cases hopen
      | complete => cases hopen

theorem emitted_concat_of_some {terminal : Terminal E}
    (hended : ending notices = some terminal) :
    emitted (notices ++ [notice]) = emitted notices := by
  induction notices with
  | nil => cases hended
  | cons first rest ih =>
      cases first with
      | next value => exact congrArg (value :: ·) (ih hended)
      | error cause => rfl
      | complete => rfl

end TsCommons.Streams
