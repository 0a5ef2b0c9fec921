import TsCommons.Foundations.Execution
import TsCommons.Foundations.MapData

/-!
# Event streams

A stream calls its subscribers in loops over the map of the subscribers
itself, and a callback may subscribe, unsubscribe, emit, error and complete
before it returns.  The loops that have not ended form a stack, of which the
last one runs: either it is in control, or the callback that it has called.
-/

namespace TsCommons.Streams

open Foundations

variable {V E F : Type}

inductive Notice (V E : Type)
  | next (value : V)
  | error (error : E)
  | complete
deriving DecidableEq

def Notice.isValue : Notice V E → Bool
  | .next _ => true
  | .error _ => false
  | .complete => false

structure Observer (F : Type) where
  next : F
  error : Option F
  complete : Option F
deriving DecidableEq

def Observer.callback (observer : Observer F) : Notice V E → Option F
  | .next _ => some observer.next
  | .error _ => observer.error
  | .complete => observer.complete

structure EventStream (E F : Type) where
  subscribers : MapData ℕ (Observer F)
  nextId : ℕ
  completed : Bool
  errorState : Option E
  hasError : Bool

namespace EventStream

def new : EventStream E F := ⟨.empty, 0, false, none, false⟩

/-- The notification that a stream that is completed or errored has for its
later subscribers. -/
def terminal (stream : EventStream E F) : Option (Notice V E) :=
  if stream.completed then some .complete
  else if stream.hasError then stream.errorState.map .error
  else none

/-- With the id of the subscription, unless it is notified immediately. -/
def subscribe (stream : EventStream E F) (observer : Observer F) :
    EventStream E F × Option ℕ :=
  if stream.completed || stream.hasError then (stream, none)
  else
    ({ stream with
        subscribers := stream.subscribers.set stream.nextId observer
        nextId := stream.nextId + 1 },
      some stream.nextId)

def unsubscribe (stream : EventStream E F) : Option ℕ → EventStream E F
  | none => stream
  | some id => { stream with subscribers := stream.subscribers.delete id }

/-- What a call of `emit`, `error` or `complete` does before its loop, or
`none` if it returns at once. -/
def notify (stream : EventStream E F) (notice : Notice V E) :
    Option (EventStream E F) :=
  if stream.completed || stream.hasError then none
  else
    match notice with
    | .next _ => some stream
    | .error error =>
        some { stream with hasError := true, errorState := some error }
    | .complete => some { stream with completed := true }

end EventStream

/-! ## Runs -/

/-- What has happened to a subscriber: one of its callbacks has been called,
or its `unsubscribe` has returned. -/
inductive Event (V E : Type)
  | told (number : ℕ) (notice : Notice V E)
  | left (number : ℕ)
deriving DecidableEq

/-- A loop that goes on from a cursor, or the immediate notification of a
later subscriber. -/
inductive Frame (V E : Type)
  | loop (notice : Notice V E) (cursor : ℕ)
  | immediate
deriving DecidableEq

/-- The callbacks of a subscriber are its number.  `subscriptions` are the ids
of the subscribers. -/
structure State (V E : Type) where
  stream : EventStream E ℕ
  subscriptions : List (Option ℕ)
  active : List (Frame V E)
  looping : Bool
  log : List (Event V E)

def State.initial : State V E := ⟨.new, [], [], false, []⟩

/-- A subscriber tells which of the optional callbacks it has.  `returns` and
`throws` are about the callback that has been called last. -/
inductive Label (V E : Type)
  | subscribe (error complete : Bool)
  | unsubscribe (number : ℕ)
  | notify (notice : Notice V E)
  | proceed
  | returns
  | throws

def observer (number : ℕ) (error complete : Bool) : Observer ℕ :=
  ⟨number, if error then some number else none,
    if complete then some number else none⟩

/-- The state after `subscribe`, in the immediate notification if there is
one. -/
def State.subscribe (state : State V E) (subscriber : Observer ℕ) :
    State V E :=
  let subscribed := state.stream.subscribe subscriber
  let added := { state with
    stream := subscribed.1
    subscriptions := state.subscriptions ++ [subscribed.2] }
  match state.stream.terminal with
  | none => added
  | some notice =>
      match subscriber.callback notice with
      | none => added
      | some number =>
          { added with
            active := .immediate :: state.active
            log := state.log ++ [.told number notice] }

def State.notify (state : State V E) (notice : Notice V E) : State V E :=
  match state.stream.notify notice with
  | none => state
  | some stream =>
      { state with
        stream := stream
        active := .loop notice 0 :: state.active
        looping := true }

def State.finish (state : State V E) (rest : List (Frame V E)) : State V E :=
  { state with active := rest, looping := false }

/-- The loop comes to a subscriber and calls its callback, if it has one. -/
def State.visit (state : State V E) (rest : List (Frame V E))
    (notice : Notice V E) (subscriber : Observer ℕ) (cursor : ℕ) :
    State V E :=
  match subscriber.callback notice with
  | none => { state with active := .loop notice cursor :: rest }
  | some number =>
      { state with
        active := .loop notice cursor :: rest
        looping := false
        log := state.log ++ [.told number notice] }

def State.proceed (state : State V E) (rest : List (Frame V E)) :
    Frame V E → State V E
  | .immediate => state.finish rest
  | .loop notice cursor =>
      match state.stream.subscribers.next cursor with
      | none => state.finish rest
      | some ((_, subscriber), later) =>
          state.visit rest notice subscriber later

/-- A step of a callback or of code outside of any callback. -/
def call (state : State V E) : Label V E → Option (State V E)
  | .subscribe error complete =>
      some (state.subscribe
        (observer state.subscriptions.length error complete))
  | .unsubscribe number =>
      state.subscriptions[number]?.map fun subscription =>
        { state with
          stream := state.stream.unsubscribe subscription
          log := state.log ++ [.left number] }
  | .notify notice => some (state.notify notice)
  | .proceed => none
  | .returns =>
      if state.active = [] then none else some { state with looping := true }
  | .throws =>
      match state.active with
      | [] => none
      | _ :: rest => some (state.finish rest)

def step (state : State V E) (label : Label V E) : Option (State V E) :=
  if state.looping then
    match label, state.active with
    | .proceed, frame :: rest => some (state.proceed rest frame)
    | _, _ => none
  else call state label

end TsCommons.Streams
