import TsCommons.Streams.EventStream

/-!
# Pipelines of operators

An operator subscribes to a stream and emits to the stream that it returns.  A
pipeline of operators denotes a function on lists: what its subscriber has
seen is what the function makes of the emitted values.  The stream of `take`
completes when the last of its values has passed, and so never by itself if it
takes none.
-/

namespace TsCommons.Streams

variable {E T U V : Type}

/-- The operators between a stream and the subscriber at the end. -/
inductive Pipeline : Type → Type → Type 1
  | subscriber {V : Type} : Pipeline V V
  | map {T U V : Type} (fn : T → U) (rest : Pipeline U V) : Pipeline T V
  | filter {T V : Type} (predicate : T → Bool) (rest : Pipeline T V) :
      Pipeline T V
  | take {T V : Type} (count : ℕ) (rest : Pipeline T V) : Pipeline T V
  | skip {T V : Type} (count : ℕ) (rest : Pipeline T V) : Pipeline T V

/-- A stream of a pipeline with its one subscriber: the observer of an
operator, with its variables and the stream that it emits to, or the one at
the end, with what it has seen.  The callbacks of the operators return, and
none of them calls a stream of the pipeline. -/
inductive Source (E : Type) : Type → Type → Type 1
  | subscriber {V : Type} (stream : EventStream E Unit)
      (seen : List (Notice V E)) : Source E V V
  | map {T U V : Type} (stream : EventStream E Unit) (fn : T → U)
      (out : Source E U V) : Source E T V
  | filter {T V : Type} (stream : EventStream E Unit) (predicate : T → Bool)
      (out : Source E T V) : Source E T V
  | take {T V : Type} (stream : EventStream E Unit) (sub : Option ℕ)
      (count seen : ℕ) (out : Source E T V) : Source E T V
  | skip {T V : Type} (stream : EventStream E Unit) (count skipped : ℕ)
      (out : Source E T V) : Source E T V

def EventStream.subscribed : EventStream E Unit × Option ℕ :=
  EventStream.new.subscribe ⟨(), some (), some ()⟩

/-- A call of `emit`, `error` or `complete` on a stream with at most one
subscriber, and whether that is called. -/
def EventStream.call (stream : EventStream E Unit) (notice : Notice V E) :
    EventStream E Unit × Bool :=
  match stream.notify notice with
  | none => (stream, false)
  | some notified => (notified, (notified.subscribers.next 0).isSome)

inductive Terminal (E : Type)
  | error (cause : E)
  | complete
deriving DecidableEq

def Terminal.notice : Terminal E → Notice V E
  | .error cause => .error cause
  | .complete => .complete

def Notice.value : Notice V E → Option V
  | .next value => some value
  | .error _ => none
  | .complete => none

namespace Source

/-- The subscriber at the end is attached to the pipeline of a new stream. -/
def attach : {T V : Type} → Pipeline T V → Source E T V
  | _, _, .subscriber => .subscriber EventStream.subscribed.1 []
  | _, _, .map fn rest => .map EventStream.subscribed.1 fn (attach rest)
  | _, _, .filter predicate rest =>
      .filter EventStream.subscribed.1 predicate (attach rest)
  | _, _, .take count rest =>
      .take EventStream.subscribed.1
        (EventStream.subscribed : EventStream E Unit × Option ℕ).2 count 0
        (attach rest)
  | _, _, .skip count rest =>
      .skip EventStream.subscribed.1 count 0 (attach rest)

/-- A call of `error` or `complete`, which every operator passes on. -/
def close (terminal : Terminal E) :
    {T V : Type} → Source E T V → Source E T V
  | T, _, .subscriber stream seen =>
      match stream.call (terminal.notice : Notice T E) with
      | (called, false) => .subscriber called seen
      | (called, true) => .subscriber called (seen ++ [terminal.notice])
  | T, _, .map stream fn out =>
      match stream.call (terminal.notice : Notice T E) with
      | (called, false) => .map called fn out
      | (called, true) => .map called fn (out.close terminal)
  | T, _, .filter stream predicate out =>
      match stream.call (terminal.notice : Notice T E) with
      | (called, false) => .filter called predicate out
      | (called, true) => .filter called predicate (out.close terminal)
  | T, _, .take stream sub count seen out =>
      match stream.call (terminal.notice : Notice T E) with
      | (called, false) => .take called sub count seen out
      | (called, true) => .take called sub count seen (out.close terminal)
  | T, _, .skip stream count skipped out =>
      match stream.call (terminal.notice : Notice T E) with
      | (called, false) => .skip called count skipped out
      | (called, true) => .skip called count skipped (out.close terminal)

def emit : {T V : Type} → Source E T V → T → Source E T V
  | _, _, .subscriber stream seen, value =>
      match stream.call (.next value) with
      | (called, false) => .subscriber called seen
      | (called, true) => .subscriber called (seen ++ [.next value])
  | _, _, .map stream fn out, value =>
      match stream.call (.next value) with
      | (called, false) => .map called fn out
      | (called, true) => .map called fn (out.emit (fn value))
  | _, _, .filter stream predicate out, value =>
      match stream.call (.next value) with
      | (called, false) => .filter called predicate out
      | (called, true) =>
          .filter called predicate
            (if predicate value then out.emit value else out)
  | _, _, .take stream sub count seen out, value =>
      match stream.call (.next value) with
      | (called, false) => .take called sub count seen out
      | (called, true) =>
          if seen < count then
            if count ≤ seen + 1 then
              .take (called.unsubscribe sub) sub count (seen + 1)
                ((out.emit value).close .complete)
            else .take called sub count (seen + 1) (out.emit value)
          else .take called sub count seen out
  | _, _, .skip stream count skipped out, value =>
      match stream.call (.next value) with
      | (called, false) => .skip called count skipped out
      | (called, true) =>
          if skipped < count then .skip called count (skipped + 1) out
          else .skip called count skipped (out.emit value)

def notify (source : Source E T V) : Notice T E → Source E T V
  | .next value => source.emit value
  | .error cause => source.close (.error cause)
  | .complete => source.close .complete

/-- The calls on the first stream of a run, one after the other. -/
def run (source : Source E T V) (notices : List (Notice T E)) :
    Source E T V :=
  notices.foldl notify source

def seen : {T V : Type} → Source E T V → List (Notice V E)
  | _, _, .subscriber _ notices => notices
  | _, _, .map _ _ out => out.seen
  | _, _, .filter _ _ out => out.seen
  | _, _, .take _ _ _ _ out => out.seen
  | _, _, .skip _ _ _ out => out.seen

end Source

/-! ## The list functions -/

namespace Pipeline

def denote : {T V : Type} → Pipeline T V → List T → List V
  | _, _, .subscriber, values => values
  | _, _, .map fn rest, values => rest.denote (values.map fn)
  | _, _, .filter predicate rest, values =>
      rest.denote (values.filter predicate)
  | _, _, .take count rest, values => rest.denote (values.take count)
  | _, _, .skip count rest, values => rest.denote (values.drop count)

/-- One of the takes that pass at least a number of values has passed all of
its values. -/
def filled (least : ℕ) : {T V : Type} → Pipeline T V → List T → Bool
  | _, _, .subscriber, _ => false
  | _, _, .map fn rest, values => rest.filled least (values.map fn)
  | _, _, .filter predicate rest, values =>
      rest.filled least (values.filter predicate)
  | _, _, .take count rest, values =>
      least ≤ count && count ≤ values.length ||
        rest.filled least (values.take count)
  | _, _, .skip count rest, values => rest.filled least (values.drop count)

/-- Every take passes a value. -/
def TakesSome : {T V : Type} → Pipeline T V → Prop
  | _, _, .subscriber => True
  | _, _, .map _ rest => rest.TakesSome
  | _, _, .filter _ rest => rest.TakesSome
  | _, _, .take count rest => 0 < count ∧ rest.TakesSome
  | _, _, .skip _ rest => rest.TakesSome

end Pipeline

/-- The values that a run emits before the stream ends. -/
def emitted : List (Notice T E) → List T
  | .next value :: rest => value :: emitted rest
  | .error _ :: _ => []
  | .complete :: _ => []
  | [] => []

def ending : List (Notice T E) → Option (Terminal E)
  | .next _ :: rest => ending rest
  | .error cause :: _ => some (.error cause)
  | .complete :: _ => some .complete
  | [] => none

/-- What a subscriber is told of the end of its stream. -/
def closing (ending : Option (Terminal E)) : List (Notice V E) :=
  (ending.map Terminal.notice).toList

/-- The subscriber at the end has seen the values of the list function and,
once a take has passed all of its values, one completion; before that, it has
seen how the first stream has ended. -/
def PipelineLaw (pipeline : Pipeline T V) (notices : List (Notice T E)) :
    Prop :=
  ((Source.attach pipeline).run notices).seen =
    (pipeline.denote (emitted notices)).map .next ++
      if pipeline.filled 0 (emitted notices) then [.complete]
      else closing (ending notices)

/-! ## The streams of a run -/

def EventStream.ended (stream : EventStream E Unit) :
    Option (Terminal E) → EventStream E Unit
  | none => stream
  | some (.error cause) =>
      { stream with hasError := true, errorState := some cause }
  | some .complete => { stream with completed := true }

/-- The streams of a pipeline after a run with the values and the end. -/
def after : {T V : Type} → Pipeline T V → List T → Option (Terminal E) →
    Source E T V
  | _, _, .subscriber, values, ending =>
      .subscriber (EventStream.subscribed.1.ended ending)
        (values.map .next ++ closing ending)
  | _, _, .map fn rest, values, ending =>
      .map (EventStream.subscribed.1.ended ending) fn
        (after rest (values.map fn) ending)
  | _, _, .filter predicate rest, values, ending =>
      .filter (EventStream.subscribed.1.ended ending) predicate
        (after rest (values.filter predicate) ending)
  | _, _, .take count rest, values, ending =>
      if 0 < count ∧ count ≤ values.length then
        .take ((EventStream.subscribed.1.unsubscribe (some 0)).ended ending)
          (some 0) count count
          (after rest (values.take count) (some .complete))
      else
        .take (EventStream.subscribed.1.ended ending) (some 0) count
          (min count values.length) (after rest (values.take count) ending)
  | _, _, .skip count rest, values, ending =>
      .skip (EventStream.subscribed.1.ended ending) count
        (min count values.length) (after rest (values.drop count) ending)

attribute [local simp] Source.close Source.emit after

variable {pipeline : Pipeline T V} {terminal : Terminal E} {values : List T}
  {value : T}

theorem call_ended (stream : EventStream E Unit) (terminal : Terminal E)
    (notice : Notice V E) :
    (stream.ended (some terminal)).call notice =
      (stream.ended (some terminal), false) := by
  have hended : ((stream.ended (some terminal)).completed ||
      (stream.ended (some terminal)).hasError) = true := by
    cases terminal with
    | error cause => exact Bool.or_true _
    | complete => rfl
  simp only [EventStream.call, EventStream.notify, hended, if_true]

theorem call_terminal (terminal : Terminal E) :
    EventStream.subscribed.1.call (terminal.notice : Notice V E) =
      (EventStream.subscribed.1.ended (some terminal), true) := by
  cases terminal <;> rfl

theorem call_terminal_of_unsubscribed (terminal : Terminal E) :
    (EventStream.subscribed.1.unsubscribe (some 0)).call
        (terminal.notice : Notice V E) =
      ((EventStream.subscribed.1.unsubscribe (some 0)).ended (some terminal),
        false) := by
  cases terminal <;> rfl

theorem attach_eq_after (pipeline : Pipeline T V) :
    Source.attach pipeline = after (E := E) pipeline [] none := by
  induction pipeline with
  | subscriber => rfl
  | map fn rest ih => rw [Source.attach, ih]; rfl
  | filter predicate rest ih => rw [Source.attach, ih]; rfl
  | take count rest ih =>
      have hnone : ¬ (0 < count ∧ count ≤ 0) := by omega
      rw [Source.attach, after, List.length_nil, if_neg hnone, ih,
        List.take_nil, Nat.min_zero]
      rfl
  | skip count rest ih =>
      rw [Source.attach, after, ih, List.drop_nil, List.length_nil,
        Nat.min_zero]
      rfl

theorem close_after (pipeline : Pipeline T V) (values : List T)
    (terminal : Terminal E) :
    (after pipeline values none).close terminal =
      after pipeline values (some terminal) := by
  induction pipeline with
  | subscriber => simp [EventStream.ended, call_terminal, closing]
  | map fn rest ih => simp [EventStream.ended, call_terminal, ih]
  | filter predicate rest ih => simp [EventStream.ended, call_terminal, ih]
  | take count rest ih =>
      by_cases hfull : 0 < count ∧ count ≤ values.length
      · simp [hfull, EventStream.ended, call_terminal_of_unsubscribed]
      · simp [hfull, EventStream.ended, call_terminal, ih]
  | skip count rest ih => simp [EventStream.ended, call_terminal, ih]

theorem call_next (value : V) :
    (EventStream.subscribed : EventStream E Unit × Option ℕ).1.call
        (.next value) =
      (EventStream.subscribed.1, true) := rfl

theorem call_next_of_unsubscribed (value : V) :
    ((EventStream.subscribed : EventStream E Unit × Option ℕ).1.unsubscribe
        (some 0)).call (.next value) =
      (EventStream.subscribed.1.unsubscribe (some 0), false) := rfl

/-- An operator passes a value on as the list function does. -/
theorem emit_after (pipeline : Pipeline T V) (values : List T) (value : T) :
    (after (E := E) pipeline values none).emit value =
      after pipeline (values ++ [value]) none := by
  induction pipeline with
  | subscriber =>
      simp only [after, EventStream.ended, Source.emit, call_next]
      simp [closing]
  | map fn rest ih =>
      simp only [after, EventStream.ended, Source.emit, call_next, ih,
        List.map_append, List.map_singleton]
  | filter predicate rest ih =>
      simp only [after, EventStream.ended, Source.emit, call_next, ih,
        List.filter_append, List.filter_singleton]
      cases predicate value with
      | true => rfl
      | false => simp
  | take count rest ih =>
      by_cases hfull : 0 < count ∧ count ≤ values.length
      · have hfuller : 0 < count ∧ count ≤ (values ++ [value]).length :=
          ⟨hfull.1, by rw [List.length_append]; omega⟩
        simp only [after, if_pos hfull, if_pos hfuller, EventStream.ended,
          Source.emit, call_next_of_unsubscribed,
          List.take_append_of_le_length hfull.2]
      · simp only [after, if_neg hfull, EventStream.ended, Source.emit,
          call_next]
        rcases Nat.eq_zero_or_pos count with rfl | hpos
        · simp
        · have hlt : values.length < count := by omega
          have hlength : (values ++ [value]).length = values.length + 1 :=
            List.length_append
          have hall : values.take count = values :=
            List.take_of_length_le (Nat.le_of_lt hlt)
          have hnext : (values ++ [value]).take count = values ++ [value] :=
            List.take_of_length_le (by omega)
          rw [hlength, hall, hnext, Nat.min_eq_right (Nat.le_of_lt hlt),
            if_pos hlt, ih, close_after]
          by_cases hlast : count ≤ values.length + 1
          · have hcount : values.length + 1 = count := by omega
            rw [if_pos hlast, if_pos ⟨hpos, hlast⟩, hcount]
          · rw [if_neg hlast, if_neg fun hboth => hlast hboth.2,
              Nat.min_eq_right (by omega)]
  | skip count rest ih =>
      have hlength : (values ++ [value]).length = values.length + 1 :=
        List.length_append
      simp only [after, EventStream.ended, Source.emit, call_next, hlength]
      by_cases hskips : values.length < count
      · rw [Nat.min_eq_right (Nat.le_of_lt hskips), if_pos hskips,
          Nat.min_eq_right hskips, List.drop_eq_nil_of_le (by omega),
          List.drop_eq_nil_of_le (by omega)]
      · have hle := Nat.le_of_not_lt hskips
        rw [Nat.min_eq_left hle, if_neg (Nat.lt_irrefl count), ih,
          Nat.min_eq_left (by omega), List.drop_append_of_le_length hle]

theorem close_after_end (pipeline : Pipeline T V) (values : List T)
    (first later : Terminal E) :
    (after pipeline values (some first)).close later =
      after pipeline values (some first) := by
  cases pipeline with
  | subscriber => simp [call_ended]
  | map fn rest => simp [call_ended]
  | filter predicate rest => simp [call_ended]
  | take count rest =>
      rw [after]
      split
      · simp [call_ended]
      · simp [call_ended]
  | skip count rest => simp [call_ended]

theorem emit_after_end (pipeline : Pipeline T V) (values : List T)
    (terminal : Terminal E) (value : T) :
    (after pipeline values (some terminal)).emit value =
      after pipeline values (some terminal) := by
  cases pipeline with
  | subscriber => simp [call_ended]
  | map fn rest => simp [call_ended]
  | filter predicate rest => simp [call_ended]
  | take count rest =>
      rw [after]
      split
      · simp [call_ended]
      · simp [call_ended]
  | skip count rest => simp [call_ended]

/-- A stream that has ended does not change. -/
theorem run_after_end (pipeline : Pipeline T V) (values : List T)
    (terminal : Terminal E) (notices : List (Notice T E)) :
    (after pipeline values (some terminal)).run notices =
      after pipeline values (some terminal) := by
  induction notices with
  | nil => rfl
  | cons notice rest ih =>
      rw [Source.run, List.foldl_cons]
      cases notice with
      | next value =>
          rw [Source.notify, emit_after_end]
          exact ih
      | error cause =>
          rw [Source.notify, close_after_end]
          exact ih
      | complete =>
          rw [Source.notify, close_after_end]
          exact ih

theorem run_after (pipeline : Pipeline T V) (values : List T)
    (notices : List (Notice T E)) :
    (after pipeline values none).run notices =
      after pipeline (values ++ emitted notices) (ending notices) := by
  induction notices generalizing values with
  | nil => rw [emitted, ending, List.append_nil]; rfl
  | cons notice rest ih =>
      rw [Source.run, List.foldl_cons]
      cases notice with
      | next value =>
          rw [Source.notify, emit_after]
          have hrest := ih (values ++ [value])
          rw [List.append_assoc] at hrest
          exact hrest
      | error cause =>
          rw [Source.notify, close_after, emitted, ending, List.append_nil]
          exact run_after_end pipeline values _ rest
      | complete =>
          rw [Source.notify, close_after, emitted, ending, List.append_nil]
          exact run_after_end pipeline values _ rest

/-- What the subscriber at the end of a pipeline has seen. -/
theorem seen_after (pipeline : Pipeline T V) (values : List T)
    (ending : Option (Terminal E)) :
    (after pipeline values ending).seen =
      (pipeline.denote values).map .next ++
        if pipeline.filled 1 values then [.complete] else closing ending := by
  induction pipeline generalizing ending with
  | subscriber => rfl
  | map fn rest ih => exact ih (values.map fn) ending
  | filter predicate rest ih => exact ih (values.filter predicate) ending
  | take count rest ih =>
      by_cases hfull : 0 < count ∧ count ≤ values.length
      · have hfilled : (Pipeline.take count rest).filled 1 values = true := by
          have hpasses : decide (1 ≤ count ∧ count ≤ values.length) = true :=
            decide_eq_true hfull
          rw [Pipeline.filled, ← Bool.decide_and, hpasses, Bool.true_or]
        rw [after, if_pos hfull, Source.seen, ih, Pipeline.denote, hfilled,
          if_pos rfl]
        split
        · rfl
        · rfl
      · have hfilled : (Pipeline.take count rest).filled 1 values =
            rest.filled 1 (values.take count) := by
          have hpasses : decide (1 ≤ count ∧ count ≤ values.length) = false :=
            decide_eq_false hfull
          rw [Pipeline.filled, ← Bool.decide_and, hpasses, Bool.false_or]
        rw [after, if_neg hfull, Source.seen, ih, Pipeline.denote, hfilled]
  | skip count rest ih => exact ih (values.drop count) ending

theorem seen_run (pipeline : Pipeline T V) (notices : List (Notice T E)) :
    ((Source.attach pipeline).run notices).seen =
      (pipeline.denote (emitted notices)).map .next ++
        if pipeline.filled 1 (emitted notices) then [.complete]
        else closing (ending notices) := by
  rw [attach_eq_after, run_after, List.nil_append, seen_after]

example : ((Source.attach (.skip 1 (.map (2 * ·) (.take 2 .subscriber)) :
      Pipeline ℕ ℕ)).run [.next 1, .next 2, .next 3, .next 4] :
        Source ℕ ℕ ℕ).seen = [.next 4, .next 6, .complete] := by
  decide

/-! ## Completion -/

theorem filled_zero_of_takesSome (htakes : pipeline.TakesSome)
    (values : List T) :
    pipeline.filled 0 values = pipeline.filled 1 values := by
  induction pipeline with
  | subscriber => rfl
  | map fn rest ih => exact ih htakes (values.map fn)
  | filter predicate rest ih => exact ih htakes (values.filter predicate)
  | take count rest ih =>
      have hleast : decide (0 ≤ count) = decide (1 ≤ count) :=
        decide_eq_decide.mpr (iff_of_true (Nat.zero_le count) htakes.1)
      rw [Pipeline.filled, Pipeline.filled, hleast, ih htakes.2]
  | skip count rest ih => exact ih htakes (values.drop count)

/-- A take that passes no value has passed all of its values. -/
theorem filled_zero_of_not_takesSome (hnone : ¬ pipeline.TakesSome)
    (values : List T) : pipeline.filled 0 values = true := by
  induction pipeline with
  | subscriber => exact absurd trivial hnone
  | map fn rest ih => exact ih hnone (values.map fn)
  | filter predicate rest ih => exact ih hnone (values.filter predicate)
  | take count rest ih =>
      rw [Pipeline.filled]
      by_cases hpos : 0 < count
      · rw [ih fun htakes => hnone ⟨hpos, htakes⟩, Bool.or_true]
      · have hzero : count = 0 := by omega
        simp [hzero]
  | skip count rest ih => exact ih hnone (values.drop count)

theorem filled_one_nil (pipeline : Pipeline T V) :
    pipeline.filled 1 [] = false := by
  induction pipeline with
  | subscriber => rfl
  | map fn rest ih => exact ih
  | filter predicate rest ih => exact ih
  | take count rest ih =>
      have hpasses : decide (1 ≤ count ∧ count ≤ 0) = false :=
        decide_eq_false (by omega)
      rw [Pipeline.filled, List.length_nil, ← Bool.decide_and, hpasses,
        List.take_nil, ih, Bool.or_false]
  | skip count rest ih =>
      rw [Pipeline.filled, List.drop_nil]
      exact ih

theorem values_closing (ending : Option (Terminal E)) :
    (closing ending : List (Notice V E)).filterMap Notice.value = [] := by
  cases ending with
  | none => rfl
  | some terminal => cases terminal <;> rfl

/-- The values of any pipeline are those of its list function. -/
theorem values_run (pipeline : Pipeline T V) (notices : List (Notice T E)) :
    ((Source.attach pipeline).run notices).seen.filterMap Notice.value =
      pipeline.denote (emitted notices) := by
  have hvalues : Notice.value ∘ (.next : V → Notice V E) = some := rfl
  rw [seen_run, List.filterMap_append, List.filterMap_map, hvalues,
    List.filterMap_some]
  split
  · exact List.append_nil _
  · rw [values_closing, List.append_nil]

/-- The law holds along a run if and only if every take passes a value. -/
theorem pipelineLaw_iff_takesSome (pipeline : Pipeline T V)
    (notices : List (Notice T E)) :
    (∀ before, before <+: notices → PipelineLaw pipeline before) ↔
      pipeline.TakesSome := by
  constructor
  · intro hlaw
    by_contra hnone
    have hstart := hlaw [] List.nil_prefix
    rw [PipelineLaw, seen_run, filled_zero_of_not_takesSome hnone,
      if_pos rfl, emitted, filled_one_nil] at hstart
    have hlength := congrArg List.length hstart
    simp [closing, ending] at hlength
  · intro htakes before _
    rw [PipelineLaw, seen_run, filled_zero_of_takesSome htakes]

/-- The stream of a take that passes no value does not complete. -/
theorem not_pipelineLaw_of_take_none :
    ((Source.attach (.take 0 .subscriber : Pipeline ℕ ℕ)).run
        [.next 1, .next 2] : Source ℕ ℕ ℕ).seen = [] ∧
      ¬ PipelineLaw (.take 0 .subscriber : Pipeline ℕ ℕ)
        ([.next 1, .next 2] : List (Notice ℕ ℕ)) := by
  constructor
  · decide
  · unfold PipelineLaw
    decide

end TsCommons.Streams
