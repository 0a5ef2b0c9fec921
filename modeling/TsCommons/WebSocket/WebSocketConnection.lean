import TsCommons.Foundations.Execution
import TsCommons.Foundations.JsonRoundTrip
import TsCommons.Foundations.SetMap
import TsCommons.Foundations.Since
import TsCommons.WebSocket.WebSocketServer

/-!
# Messages over a connection

A message goes to the socket as JSON, and a text that arrives is read back and
given to the handlers of its type.  The loop over them is over a set that the
handlers may change: one that is taken out before its turn is not called, and
one that is added meanwhile is.
-/

namespace TsCommons.WebSocket.Messages

open Foundations

variable {H N : Type}

/-- An object with a text at `type`. -/
structure WebSocketMessage (N : Type) where
  fields : List (Text × Json N)
  type : Text
  typed : InsertionMap.lookup "type".toList fields = some (.string type)

def WebSocketMessage.toJson (message : WebSocketMessage N) : Json N :=
  .object message.fields

def messageOf : Json N → Option (WebSocketMessage N)
  | .object fields =>
      match htyped : InsertionMap.lookup "type".toList fields with
      | some (.string type) => some ⟨fields, type, htyped⟩
      | _ => none
  | _ => none

def parseMessage (format : Json.NumberFormat N) (data : Text) :
    Option (WebSocketMessage N) :=
  (Json.parse format data).bind messageOf

structure AuthResult where
  authenticated : Bool
  userId : Option String
  roles : Option (List String)
  reason : Option String
deriving DecidableEq

structure Connection (H : Type) extends WebSocketConnection where
  authenticator : Option (Text → AuthResult)
  handlers : InsertionMap Text (InsertionSet H)
  authResult : Option AuthResult

namespace Connection

/-- `number` and `id` are those of the adapter. -/
def initial (number : ℕ) (id : ConnectionId)
    (authenticator : Option (Text → AuthResult)) : Connection H where
  number := number
  id := id
  connectionState := .connected
  authenticator := authenticator
  handlers := .empty
  authResult := none

def send (connection : Connection H) (format : Json.NumberFormat N)
    (message : WebSocketMessage N) : List (Effect H Text) :=
  connection.toWebSocketConnection.send (message.toJson.stringify format)

/-- The result that `authenticate` returns and keeps. -/
def verdict (connection : Connection H) (token : Text) : AuthResult :=
  match connection.authenticator with
  | none => ⟨false, none, none, some "No authenticator configured"⟩
  | some authenticator => authenticator token

def authenticate (connection : Connection H) (token : Text) : Connection H :=
  { connection with authResult := some (connection.verdict token) }

variable [DecidableEq H]

def on (connection : Connection H) (type : Text) (handler : H) :
    Connection H :=
  { connection with handlers := addToSet connection.handlers type handler }

def off (connection : Connection H) (type : Text) (handler : H) :
    Connection H :=
  { connection with handlers := deleteAt connection.handlers type handler }

end Connection

/-- A loop of `receive`: the handlers that are still to come, and the one that
was called last.  `number` is the place of the call of `receive` among all
labels. -/
structure Dispatch (H N : Type) where
  number : ℕ
  message : WebSocketMessage N
  waiting : List H
  running : Option H

/-- `call`, `throw` and `finish` are the turns of the loop with the number: it
calls its next handler, ends as that handler throws, or ends by itself. -/
inductive Label (H N : Type)
  | send (message : WebSocketMessage N)
  | receive (data : Text)
  | call (number : ℕ) (handler : H)
  | throw (number : ℕ) (handler : H)
  | finish (number : ℕ)
  | authenticate (token : Text)
  | on (type : Text) (handler : H)
  | off (type : Text) (handler : H)
  | disconnect

/-- The innermost loop comes first. -/
structure State (H N : Type) where
  connection : Connection H
  dispatches : List (Dispatch H N)
  history : List (Label H N)
  effects : List (Effect H Text)

def State.initial (connection : Connection H) : State H N :=
  ⟨connection, [], [], []⟩

section Steps

variable [DecidableEq H] (format : Json.NumberFormat N)

def perform (connection : Connection H) :
    Label H N → Connection H × List (Effect H Text)
  | .send message => (connection, connection.send format message)
  | .authenticate token => (connection.authenticate token, [])
  | .on type handler => (connection.on type handler, [])
  | .off type handler => (connection.off type handler, [])
  | .disconnect =>
      let (closed, effects) := connection.disconnect
      ({ connection with toWebSocketConnection := closed }, effects)
  | _ => (connection, [])

/-- What the loop has still to visit when the handler is added to the set. -/
def Dispatch.join (connection : Connection H) (type : Text) (handler : H)
    (dispatch : Dispatch H N) : Dispatch H N :=
  if dispatch.message.type = type ∧
      handler ∉ elementsAt connection.handlers type then
    { dispatch with waiting := dispatch.waiting ++ [handler] }
  else dispatch

def Dispatch.leave (type : Text) (handler : H) (dispatch : Dispatch H N) :
    Dispatch H N :=
  if dispatch.message.type = type then
    { dispatch with waiting := dispatch.waiting.filter (· ≠ handler) }
  else dispatch

def receive (connection : Connection H) (number : ℕ) (data : Text) :
    List (Dispatch H N) :=
  match parseMessage format data with
  | none => []
  | some message =>
      match connection.handlers.get message.type with
      | none => []
      | some handlers => [⟨number, message, handlers.elements, none⟩]

/-- No loop is about to take its first turn. -/
def ready : List (Dispatch H N) → Bool
  | [] => true
  | dispatch :: _ => dispatch.running.isSome

def turn (state : State H N) : Label H N → Option (List (Dispatch H N))
  | .call number handler =>
      match state.dispatches with
      | ⟨inner, message, next :: rest, _⟩ :: outer =>
          if inner = number ∧ next = handler then
            some (⟨inner, message, rest, some next⟩ :: outer)
          else none
      | _ => none
  | .throw number handler =>
      match state.dispatches with
      | ⟨inner, _, _, some running⟩ :: outer =>
          if inner = number ∧ running = handler then some outer else none
      | _ => none
  | .finish number =>
      match state.dispatches with
      | ⟨inner, _, [], _⟩ :: outer =>
          if inner = number then some outer else none
      | _ => none
  | .receive data =>
      if ready state.dispatches then
        some (receive format state.connection state.history.length data ++
          state.dispatches)
      else none
  | .on type handler =>
      if ready state.dispatches then
        some (state.dispatches.map (·.join state.connection type handler))
      else none
  | .off type handler =>
      if ready state.dispatches then
        some (state.dispatches.map (·.leave type handler))
      else none
  | _ => if ready state.dispatches then some state.dispatches else none

def step (state : State H N) (label : Label H N) : Option (State H N) :=
  (turn format state label).map fun dispatches =>
    let (connection, effects) := perform format state.connection label
    ⟨connection, dispatches, state.history ++ [label], state.effects ++ effects⟩

end Steps

/-! ## What is read off the labels -/

namespace Label

def message : Label H N → Option (WebSocketMessage N)
  | .send message => some message
  | _ => none

def data : Label H N → Option Text
  | .receive data => some data
  | _ => none

def IsDisconnect : Label H N → Bool
  | .disconnect => true
  | _ => false

def IsAuthenticate : Label H N → Prop
  | .authenticate _ => True
  | _ => False

/-- What is sent has a JSON text of its own. -/
def IsJson (format : Json.NumberFormat N) (label : Label H N) : Prop :=
  ∀ message ∈ label.message, message.toJson.WellFormed format

end Label

/-- The messages that were sent before the connection was first closed. -/
def sentOpen (labels : List (Label H N)) : List (WebSocketMessage N) :=
  (labels.takeWhile fun label => !label.IsDisconnect).filterMap Label.message

def received (labels : List (Label H N)) : List Text :=
  labels.filterMap Label.data

def frames (effects : List (Effect H Text)) : List Text :=
  effects.filterMap fun effect =>
    match effect with
    | .send _ data => some data
    | _ => none

def Registered (labels : List (Label H N)) (type : Text) (handler : H) : Prop :=
  Since (fun _ label => label = .on type handler)
    (fun label => label = .off type handler) labels

/-- The loop has called the handler, which has not been taken out since. -/
def Called (labels : List (Label H N)) (number : ℕ) (type : Text)
    (handler : H) : Prop :=
  Since (fun _ label => label = .call number handler)
    (fun label => label = .off type handler) labels

/-- The message is what was read at the place of the history. -/
def ReadAt (format : Json.NumberFormat N) (labels : List (Label H N))
    (number : ℕ) (message : WebSocketMessage N) : Prop :=
  ∃ data, labels[number]? = some (.receive data) ∧
    parseMessage format data = some message

/-- A handler is called with a message that was read while it is registered for
the type of the message, and not a second time unless it was taken out in
between.  A loop that ends by itself has called every handler that is
registered then. -/
def Fair (format : Json.NumberFormat N) (before : List (Label H N)) :
    Label H N → Prop
  | .call number handler => ∃ message, ReadAt format before number message ∧
      Registered before message.type handler ∧
      ¬ Called before number message.type handler
  | .finish number => ∃ message, ReadAt format before number message ∧
      ∀ handler, Registered before message.type handler →
        Called before number message.type handler
  | _ => True

/-- What has gone to the socket. -/
def sentTo (format : Json.NumberFormat N) (number : ℕ)
    (labels : List (Label H N)) : List (Effect H Text) :=
  (sentOpen labels).map (fun message =>
    .send number (message.toJson.stringify format)) ++
  if labels.any Label.IsDisconnect then [.close number] else []

/-- The result that is kept is that of the last call of `authenticate`. -/
def Authenticated (state : State H N) : Prop :=
  ∀ result, state.connection.authResult = some result ↔
    Since (fun _ label => ∃ token, label = .authenticate token ∧
      state.connection.verdict token = result) Label.IsAuthenticate
      state.history

structure ConnectionLaw (format : Json.NumberFormat N) (state : State H N) :
    Prop where
  fair : AtEvery (Fair format) state.history
  socket : state.effects =
    sentTo format state.connection.number state.history
  read : (frames state.effects).map (parseMessage format) =
    (sentOpen state.history).map some
  authenticated : Authenticated state

section Laws

variable [DecidableEq H] {format : Json.NumberFormat N} {state next : State H N}
  {label : Label H N} {labels : List (Label H N)} {type : Text} {handler : H}
  {number : ℕ} {message : WebSocketMessage N} {dispatch : Dispatch H N}
  {connection : Connection H}

theorem messageOf_toJson (message : WebSocketMessage N) :
    messageOf message.toJson = some message := by
  obtain ⟨fields, type, htyped⟩ := message
  simp only [messageOf, WebSocketMessage.toJson]
  split
  · rename_i found hfound
    have htype := htyped.symm.trans hfound
    cases htype
    rfl
  · rename_i hnone
    exact absurd htyped (hnone type)

/-- What is sent for a message is read as the message. -/
theorem parseMessage_stringify (hjson : message.toJson.WellFormed format) :
    parseMessage format (message.toJson.stringify format) = some message := by
  rw [parseMessage, Json.parse_stringify hjson]
  exact messageOf_toJson message

theorem step_cases (hstep : step format state label = some next) :
    ∃ dispatches, turn format state label = some dispatches ∧
      next = ⟨(perform format state.connection label).1, dispatches,
        state.history ++ [label],
        state.effects ++ (perform format state.connection label).2⟩ := by
  obtain ⟨dispatches, hturn, hnext⟩ := Option.map_eq_some_iff.mp hstep
  exact ⟨dispatches, hturn, hnext.symm⟩

/-! ## The socket -/

theorem number_perform (connection : Connection H) (label : Label H N) :
    (perform format connection label).1.number = connection.number := by
  cases label with
  | disconnect =>
      simp only [perform, WebSocketConnection.disconnect]
      split
      · rfl
      · rfl
  | _ => rfl

theorem authenticator_perform (connection : Connection H)
    (label : Label H N) :
    (perform format connection label).1.authenticator =
      connection.authenticator := by
  cases label with
  | _ => rfl

omit [DecidableEq H] in
theorem sentOpen_concat (labels : List (Label H N)) (label : Label H N) :
    sentOpen (labels ++ [label]) = sentOpen labels ++
      if labels.any Label.IsDisconnect then [] else label.message.toList := by
  unfold sentOpen
  by_cases hany : labels.any Label.IsDisconnect
  · rw [if_pos hany, List.append_nil, List.takeWhile_append, if_neg]
    intro hlength
    obtain ⟨closing, hmem, hcloses⟩ := List.any_eq_true.mp hany
    have hall := List.takeWhile_eq_self_iff.mp
      ((List.takeWhile_prefix _).eq_of_length hlength) closing hmem
    simp [hcloses] at hall
  · have hall : ∀ closing ∈ labels, (!closing.IsDisconnect) = true := by
      simpa using hany
    rw [if_neg hany, List.takeWhile_append_of_pos hall,
      List.takeWhile_eq_self_iff.mpr hall, List.filterMap_append]
    cases label with
    | _ => rfl

omit [DecidableEq H] in
theorem any_concat (labels : List (Label H N)) (label : Label H N) :
    (labels ++ [label]).any Label.IsDisconnect =
      (labels.any Label.IsDisconnect || label.IsDisconnect) := by
  simp

omit [DecidableEq H] in
theorem sentTo_concat_of_closed
    (hclosed : labels.any Label.IsDisconnect = true) (label : Label H N) :
    sentTo format number (labels ++ [label]) = sentTo format number labels := by
  simp only [sentTo, sentOpen_concat, any_concat, hclosed, Bool.true_or,
    if_true, List.append_nil]

omit [DecidableEq H] in
theorem sentTo_concat_of_open (hopen : labels.any Label.IsDisconnect = false)
    (label : Label H N) :
    sentTo format number (labels ++ [label]) = sentTo format number labels ++
      (label.message.toList.map (fun message =>
        .send number (message.toJson.stringify format)) ++
      if label.IsDisconnect then [.close number] else []) := by
  simp only [sentTo, sentOpen_concat, any_concat, hopen, Bool.false_or,
    Bool.false_eq_true, if_false, List.append_nil, List.map_append,
    List.append_assoc]

theorem perform_of_disconnected (format : Json.NumberFormat N)
    (hstate : connection.connectionState = .disconnected)
    (label : Label H N) :
    (perform format connection label).1.connectionState = .disconnected ∧
      (perform format connection label).2 = [] := by
  cases label with
  | send message =>
      refine ⟨hstate, ?_⟩
      simp [perform, Connection.send, WebSocketConnection.send, hstate]
  | disconnect => simp [perform, WebSocketConnection.disconnect, hstate]
  | _ => exact ⟨hstate, rfl⟩

theorem perform_of_connected (format : Json.NumberFormat N)
    (hstate : connection.connectionState = .connected) (label : Label H N) :
    (perform format connection label).1.connectionState =
        (if label.IsDisconnect then .disconnected else .connected) ∧
      (perform format connection label).2 =
        label.message.toList.map (fun message =>
          .send connection.number (message.toJson.stringify format)) ++
        if label.IsDisconnect then [.close connection.number] else [] := by
  cases label with
  | send message =>
      refine ⟨hstate, ?_⟩
      simp [perform, Connection.send, WebSocketConnection.send, hstate,
        Label.message, Label.IsDisconnect]
  | disconnect =>
      simp [perform, WebSocketConnection.disconnect, hstate, Label.message,
        Label.IsDisconnect]
  | _ => exact ⟨hstate, rfl⟩

/-- The socket has got what was sent, and the connection is open until a call
of `disconnect`. -/
structure SocketInv (format : Json.NumberFormat N) (state : State H N) :
    Prop where
  connectionState : state.connection.connectionState =
    if state.history.any Label.IsDisconnect then .disconnected else .connected
  effects : state.effects =
    sentTo format state.connection.number state.history

theorem SocketInv.step (hinv : SocketInv format state)
    (hstep : step format state label = some next) : SocketInv format next := by
  obtain ⟨dispatches, -, rfl⟩ := step_cases hstep
  obtain ⟨hstate, heffects⟩ := hinv
  cases hclosed : state.history.any Label.IsDisconnect with
  | true =>
      rw [if_pos hclosed] at hstate
      obtain ⟨hkept, hsilent⟩ :=
        perform_of_disconnected format hstate label
      constructor
      · rw [any_concat, hclosed, hkept]
        rfl
      · rw [hsilent, List.append_nil, number_perform, heffects,
          sentTo_concat_of_closed hclosed]
  | false =>
      rw [hclosed] at hstate
      obtain ⟨hafter, hperformed⟩ :=
        perform_of_connected format hstate label
      constructor
      · rw [any_concat, hclosed, hafter, Bool.false_or]
      · rw [hperformed, number_perform, heffects,
          sentTo_concat_of_open hclosed]

/-! ## The result of authentication -/

theorem verdict_perform (connection : Connection H) (label : Label H N)
    (token : Text) :
    (perform format connection label).1.verdict token =
      connection.verdict token := by
  unfold Connection.verdict
  rw [authenticator_perform]

theorem Authenticated.step (hinv : Authenticated state)
    (hstep : step format state label = some next) : Authenticated next := by
  obtain ⟨dispatches, -, rfl⟩ := step_cases hstep
  intro result
  simp only [verdict_perform, since_concat_iff, ← hinv result]
  cases label with
  | authenticate token => simp [perform, Connection.authenticate,
      Label.IsAuthenticate]
  | _ => simp [perform, Connection.on, Connection.off, Label.IsAuthenticate]

/-! ## The loops -/

omit [DecidableEq H] in
theorem registered_concat_iff :
    Registered (labels ++ [label]) type handler ↔
      label = .on type handler ∨
        Registered labels type handler ∧ label ≠ .off type handler :=
  since_concat_iff

omit [DecidableEq H] in
theorem called_concat_iff :
    Called (labels ++ [label]) number type handler ↔
      label = .call number handler ∨
        Called labels number type handler ∧ label ≠ .off type handler :=
  since_concat_iff

omit [DecidableEq H] in
theorem ReadAt.lt_length (hread : ReadAt format labels number message) :
    number < labels.length := by
  obtain ⟨data, hlabel, -⟩ := hread
  exact (List.getElem?_eq_some_iff.mp hlabel).1

omit [DecidableEq H] in
theorem ReadAt.append (hread : ReadAt format labels number message)
    (after : List (Label H N)) :
    ReadAt format (labels ++ after) number message := by
  have hlt := hread.lt_length
  obtain ⟨data, hlabel, hdata⟩ := hread
  exact ⟨data, (List.getElem?_append_left hlt).trans hlabel, hdata⟩

omit [DecidableEq H] in
theorem ReadAt.unique {other : WebSocketMessage N}
    (hread : ReadAt format labels number message)
    (hother : ReadAt format labels number other) : message = other := by
  obtain ⟨data, hlabel, hdata⟩ := hread
  obtain ⟨text, hfound, hparsed⟩ := hother
  cases hlabel.symm.trans hfound
  exact Option.some.inj (hdata.symm.trans hparsed)

omit [DecidableEq H] in
/-- A loop that has not begun has called no handler. -/
theorem not_called_of_length_le (hfair : AtEvery (Fair format) labels)
    (hle : labels.length ≤ number) : ¬ Called labels number type handler := by
  rintro ⟨before, label, after, hsplit, rfl, -⟩
  obtain ⟨message, hread, -, -⟩ := hfair _ _ _ hsplit
  have hlt := hread.lt_length
  rw [hsplit, List.length_append] at hle
  omega

/-- Whose turn is still to come in a loop: who is registered for its type, and
has not been called since. -/
structure Tracked (format : Json.NumberFormat N) (labels : List (Label H N))
    (dispatch : Dispatch H N) : Prop where
  read : ReadAt format labels dispatch.number dispatch.message
  waiting : ∀ handler, handler ∈ dispatch.waiting ↔
    Registered labels dispatch.message.type handler ∧
      ¬ Called labels dispatch.number dispatch.message.type handler
  nodup : dispatch.waiting.Nodup

omit [DecidableEq H] in
theorem Tracked.other (htracked : Tracked format labels dispatch)
    (hon : ∀ type handler, label ≠ .on type handler)
    (hoff : ∀ type handler, label ≠ .off type handler)
    (hcall : ∀ handler, label ≠ .call dispatch.number handler) :
    Tracked format (labels ++ [label]) dispatch where
  read := htracked.read.append [label]
  waiting other := by
    rw [htracked.waiting, registered_concat_iff, called_concat_iff]
    simp [hon, hoff, hcall]
  nodup := htracked.nodup

omit [DecidableEq H] in
/-- A handler that a loop has called stays registered until it is taken out. -/
theorem registered_of_called (hfair : AtEvery (Fair format) labels)
    (hread : ReadAt format labels number message)
    (hcalled : Called labels number message.type handler) :
    Registered labels message.type handler := by
  obtain ⟨before, label, after, rfl, rfl, hstays⟩ := hcalled
  obtain ⟨found, hfound, hregistered, -⟩ := hfair _ _ _ rfl
  cases (hfound.append _).unique hread
  refine Since.append hregistered (List.forall_mem_cons.mpr ⟨?_, hstays⟩)
  rintro ⟨⟩

theorem Tracked.join (htracked : Tracked format labels dispatch)
    (hfair : AtEvery (Fair format) labels)
    (hregistered : ∀ type handler,
      handler ∈ elementsAt connection.handlers type ↔
        Registered labels type handler) (type : Text) (handler : H) :
    Tracked format (labels ++ [.on type handler])
      (dispatch.join connection type handler) := by
  have hread := htracked.read.append [.on type handler]
  have hwaiting := htracked.waiting
  unfold Dispatch.join
  split
  · rename_i hjoins
    obtain ⟨rfl, hnew⟩ := hjoins
    rw [hregistered] at hnew
    have hfresh : ¬ Called labels dispatch.number dispatch.message.type
        handler :=
      fun hcalled => hnew (registered_of_called hfair htracked.read hcalled)
    refine ⟨hread, fun other => ?_, ?_⟩
    · rw [List.mem_append, List.mem_singleton, hwaiting, registered_concat_iff,
        called_concat_iff]
      by_cases heq : other = handler
      · subst heq
        simp [hfresh]
      · simp [heq, Ne.symm heq]
    · rw [← List.concat_eq_append]
      refine htracked.nodup.concat fun hmem => hnew ?_
      exact ((hwaiting handler).mp hmem).1
  · rename_i hstays
    refine ⟨hread, fun other => ?_, htracked.nodup⟩
    rw [hwaiting, registered_concat_iff, called_concat_iff]
    have hold : Label.on type handler =
          (.on dispatch.message.type other : Label H N) →
        Registered labels dispatch.message.type other := by
      rintro ⟨rfl, rfl⟩
      simp only [true_and, not_not] at hstays
      exact (hregistered _ _).mp hstays
    simp only [ne_eq, reduceCtorEq, not_false_eq_true, and_true, false_or]
    exact and_congr_left fun _ => ⟨.inr, fun h => h.elim hold id⟩

theorem Tracked.leave (htracked : Tracked format labels dispatch)
    (type : Text) (handler : H) :
    Tracked format (labels ++ [.off type handler])
      (dispatch.leave type handler) := by
  have hread := htracked.read.append [.off type handler]
  have hwaiting := htracked.waiting
  unfold Dispatch.leave
  split
  · rename_i htype
    subst htype
    refine ⟨hread, fun other => ?_, htracked.nodup.filter _⟩
    rw [List.mem_filter, hwaiting, registered_concat_iff, called_concat_iff]
    by_cases heq : other = handler
    · simp [heq]
    · simp [heq, Ne.symm heq]
  · rename_i htype
    refine ⟨hread, fun other => ?_, htracked.nodup⟩
    rw [hwaiting, registered_concat_iff, called_concat_iff]
    simp [Ne.symm htype]

theorem Tracked.call {rest : List H} {running : Option H}
    (htracked : Tracked format labels
      ⟨number, message, handler :: rest, running⟩) :
    Tracked format (labels ++ [.call number handler])
      ⟨number, message, rest, some handler⟩ := by
  have hwaiting := htracked.waiting
  have hnodup := List.nodup_cons.mp htracked.nodup
  refine ⟨htracked.read.append _, fun other => ?_, hnodup.2⟩
  rw [registered_concat_iff, called_concat_iff]
  by_cases heq : other = handler
  · subst heq
    simp [hnodup.1]
  · have hother := hwaiting other
    rw [List.mem_cons, or_iff_right heq] at hother
    simp [hother, Ne.symm heq]

theorem number_join (dispatch : Dispatch H N) (type : Text) (handler : H) :
    (dispatch.join connection type handler).number = dispatch.number := by
  unfold Dispatch.join
  split
  · rfl
  · rfl

theorem number_leave (dispatch : Dispatch H N) (type : Text) (handler : H) :
    (dispatch.leave type handler).number = dispatch.number := by
  unfold Dispatch.leave
  split
  · rfl
  · rfl

/-! ### Loops within loops -/

variable {dispatches : List (Dispatch H N)}

/-- The innermost of the loops began last. -/
structure Nested (format : Json.NumberFormat N) (labels : List (Label H N))
    (dispatches : List (Dispatch H N)) : Prop where
  tracked : ∀ dispatch ∈ dispatches, Tracked format labels dispatch
  apart : dispatches.Pairwise fun inner outer => outer.number < inner.number

omit [DecidableEq H] in
theorem Nested.outer (hnested : Nested format labels (dispatch :: dispatches)) :
    Nested format labels dispatches where
  tracked := (List.forall_mem_cons.mp hnested.tracked).2
  apart := (List.pairwise_cons.mp hnested.apart).2

omit [DecidableEq H] in
theorem Nested.other (hnested : Nested format labels dispatches)
    (hon : ∀ type handler, label ≠ .on type handler)
    (hoff : ∀ type handler, label ≠ .off type handler)
    (hcall : ∀ dispatch ∈ dispatches, ∀ handler,
      label ≠ .call dispatch.number handler) :
    Nested format (labels ++ [label]) dispatches where
  tracked dispatch hmem :=
    (hnested.tracked dispatch hmem).other hon hoff (hcall dispatch hmem)
  apart := hnested.apart

theorem Nested.call {rest : List H} {running : Option H}
    (hnested : Nested format labels
      (⟨number, message, handler :: rest, running⟩ :: dispatches)) :
    Nested format (labels ++ [.call number handler])
      (⟨number, message, rest, some handler⟩ :: dispatches) := by
  have hinner := (List.pairwise_cons.mp hnested.apart).1
  have htop := (hnested.tracked _ List.mem_cons_self).call
  have houter : Nested format (labels ++ [.call number handler])
      dispatches := by
    refine hnested.outer.other (by simp) (by simp) ?_
    rintro dispatch hmem other ⟨⟩
    exact absurd (hinner dispatch hmem) (lt_irrefl _)
  exact ⟨List.forall_mem_cons.mpr ⟨htop, houter.tracked⟩,
    List.pairwise_cons.mpr ⟨hinner, houter.apart⟩⟩

theorem Nested.join (hnested : Nested format labels dispatches)
    (hfair : AtEvery (Fair format) labels)
    (hregistered : ∀ type handler,
      handler ∈ elementsAt connection.handlers type ↔
        Registered labels type handler) (type : Text) (handler : H) :
    Nested format (labels ++ [.on type handler])
      (dispatches.map (·.join connection type handler)) := by
  constructor
  · rw [List.forall_mem_map]
    intro dispatch hmem
    exact (hnested.tracked dispatch hmem).join hfair hregistered type handler
  · simpa only [List.pairwise_map, number_join] using hnested.apart

theorem Nested.leave (hnested : Nested format labels dispatches)
    (type : Text) (handler : H) :
    Nested format (labels ++ [.off type handler])
      (dispatches.map (·.leave type handler)) := by
  constructor
  · rw [List.forall_mem_map]
    intro dispatch hmem
    exact (hnested.tracked dispatch hmem).leave type handler
  · simpa only [List.pairwise_map, number_leave] using hnested.apart

omit [DecidableEq H] in
theorem tracked_receive (hfair : AtEvery (Fair format) labels)
    (hregistered : ∀ type handler,
      handler ∈ elementsAt connection.handlers type ↔
        Registered labels type handler) {data : Text}
    (hmem : dispatch ∈ receive format connection labels.length data) :
    Tracked format (labels ++ [.receive data]) dispatch := by
  unfold receive at hmem
  split at hmem
  · cases hmem
  rename_i message hparsed
  split at hmem
  · cases hmem
  rename_i handlers hget
  cases List.mem_singleton.mp hmem
  refine ⟨⟨data, by simp, hparsed⟩, fun handler => ?_, handlers.nodup⟩
  have hfresh : ¬ Called labels labels.length message.type handler :=
    not_called_of_length_le hfair le_rfl
  have hmember := hregistered message.type handler
  rw [elementsAt, hget] at hmember
  rw [registered_concat_iff, called_concat_iff]
  simp [hfresh, ← hmember]

omit [DecidableEq H] in
theorem Nested.receive (hnested : Nested format labels dispatches)
    (hfair : AtEvery (Fair format) labels)
    (hregistered : ∀ type handler,
      handler ∈ elementsAt connection.handlers type ↔
        Registered labels type handler) (data : Text) :
    Nested format (labels ++ [.receive data])
      (receive format connection labels.length data ++ dispatches) := by
  have hkept : Nested format (labels ++ [.receive data]) dispatches :=
    hnested.other (by simp) (by simp) (by simp)
  refine ⟨List.forall_mem_append.mpr ⟨fun dispatch hmem =>
    tracked_receive hfair hregistered hmem, hkept.tracked⟩, ?_⟩
  unfold Messages.receive
  split
  · exact hnested.apart
  split
  · exact hnested.apart
  refine List.pairwise_cons.mpr ⟨fun dispatch hmem => ?_, hnested.apart⟩
  exact (hnested.tracked dispatch hmem).read.lt_length

/-! ### Turns -/

theorem turn_call
    (hturn : turn format state (.call number handler) = some dispatches) :
    ∃ message rest running outer,
      state.dispatches = ⟨number, message, handler :: rest, running⟩ :: outer ∧
        dispatches = ⟨number, message, rest, some handler⟩ :: outer := by
  simp only [turn] at hturn
  split at hturn
  · rename_i inner message next rest running outer hdispatches
    split at hturn
    · rename_i hturns
      obtain ⟨rfl, rfl⟩ := hturns
      cases hturn
      exact ⟨message, rest, running, outer, hdispatches, rfl⟩
    · cases hturn
  · cases hturn

theorem turn_throw
    (hturn : turn format state (.throw number handler) = some dispatches) :
    ∃ dispatch, state.dispatches = dispatch :: dispatches := by
  simp only [turn] at hturn
  split at hturn
  · rename_i inner message waiting running outer hdispatches
    split at hturn
    · cases hturn
      exact ⟨_, hdispatches⟩
    · cases hturn
  · cases hturn

theorem turn_finish
    (hturn : turn format state (.finish number) = some dispatches) :
    ∃ message running,
      state.dispatches = ⟨number, message, [], running⟩ :: dispatches := by
  simp only [turn] at hturn
  split at hturn
  · rename_i inner message running outer hdispatches
    split at hturn
    · rename_i hturns
      subst hturns
      cases hturn
      exact ⟨message, running, hdispatches⟩
    · cases hturn
  · cases hturn

omit [DecidableEq H] in
/-- The loops after an operation that is none of their turns. -/
theorem of_ready {after : List (Dispatch H N)}
    (hturn : (if ready state.dispatches then some after else none) =
      some dispatches) : dispatches = after := by
  split at hturn
  · exact (Option.some.inj hturn).symm
  · cases hturn

structure DispatchInv (format : Json.NumberFormat N) (state : State H N) :
    Prop where
  fair : AtEvery (Fair format) state.history
  registered : ∀ type handler,
    handler ∈ elementsAt state.connection.handlers type ↔
      Registered state.history type handler
  nested : Nested format state.history state.dispatches

theorem DispatchInv.fair_turn (hinv : DispatchInv format state)
    (hturn : turn format state label = some dispatches) :
    Fair format state.history label := by
  have htracked := hinv.nested.tracked
  cases label with
  | call number handler =>
      obtain ⟨message, rest, running, outer, hdispatches, -⟩ := turn_call hturn
      rw [hdispatches] at htracked
      have htop := htracked _ List.mem_cons_self
      exact ⟨message, htop.read, (htop.waiting handler).mp List.mem_cons_self⟩
  | finish number =>
      obtain ⟨message, running, hdispatches⟩ := turn_finish hturn
      rw [hdispatches] at htracked
      have htop := htracked _ List.mem_cons_self
      refine ⟨message, htop.read, fun handler hregistered => ?_⟩
      by_contra hcalled
      have hwaiting := (htop.waiting handler).mpr ⟨hregistered, hcalled⟩
      cases hwaiting
  | _ => trivial

theorem DispatchInv.nested_turn (hinv : DispatchInv format state)
    (hturn : turn format state label = some dispatches) :
    Nested format (state.history ++ [label]) dispatches := by
  obtain ⟨hfair, hregistered, hnested⟩ := hinv
  cases label with
  | call number handler =>
      obtain ⟨message, rest, running, outer, hdispatches, rfl⟩ :=
        turn_call hturn
      rw [hdispatches] at hnested
      exact hnested.call
  | throw number handler =>
      obtain ⟨dispatch, hdispatches⟩ := turn_throw hturn
      rw [hdispatches] at hnested
      exact hnested.outer.other (by simp) (by simp) (by simp)
  | finish number =>
      obtain ⟨message, running, hdispatches⟩ := turn_finish hturn
      rw [hdispatches] at hnested
      exact hnested.outer.other (by simp) (by simp) (by simp)
  | receive data =>
      rw [of_ready hturn]
      exact hnested.receive hfair hregistered data
  | on type handler =>
      rw [of_ready hturn]
      exact hnested.join hfair hregistered type handler
  | off type handler =>
      rw [of_ready hturn]
      exact hnested.leave type handler
  | _ =>
      rw [of_ready hturn]
      exact hnested.other (by simp) (by simp) (by simp)

theorem registered_perform
    (hregistered : ∀ type handler,
      handler ∈ elementsAt connection.handlers type ↔
        Registered labels type handler) (label : Label H N) (type : Text)
    (handler : H) :
    handler ∈ elementsAt (perform format connection label).1.handlers type ↔
      Registered (labels ++ [label]) type handler := by
  rw [registered_concat_iff, ← hregistered]
  cases label with
  | on joined other =>
      simp only [perform, Connection.on, elementsAt_addToSet]
      by_cases htype : type = joined
      · subst htype
        rw [if_pos rfl, InsertionSet.mem_place]
        simp [eq_comm]
      · simp [htype, Ne.symm htype]
  | off left other =>
      simp only [perform, Connection.off, elementsAt_deleteAt]
      by_cases htype : type = left
      · subst htype
        rw [if_pos rfl, List.mem_filter]
        by_cases heq : handler = other
        · simp [heq]
        · simp [heq, Ne.symm heq]
      · simp [htype, Ne.symm htype]
  | _ => simp [perform, Connection.authenticate]

theorem DispatchInv.step (hinv : DispatchInv format state)
    (hstep : step format state label = some next) :
    DispatchInv format next := by
  obtain ⟨dispatches, hturn, rfl⟩ := step_cases hstep
  exact ⟨hinv.fair.concat (hinv.fair_turn hturn),
    registered_perform hinv.registered label, hinv.nested_turn hturn⟩

/-! ## Runs -/

structure Inv (format : Json.NumberFormat N) (state : State H N) : Prop where
  socket : SocketInv format state
  authenticated : Authenticated state
  dispatch : DispatchInv format state
  json : ∀ label ∈ state.history, label.IsJson format

theorem Inv.step (hinv : Inv format state) (hlabel : label.IsJson format)
    (hstep : step format state label = some next) : Inv format next where
  socket := hinv.socket.step hstep
  authenticated := hinv.authenticated.step hstep
  dispatch := hinv.dispatch.step hstep
  json := by
    obtain ⟨dispatches, -, rfl⟩ := step_cases hstep
    exact List.forall_mem_append.mpr
      ⟨hinv.json, List.forall_mem_singleton.mpr hlabel⟩

omit [DecidableEq H] in
theorem inv_initial (number : ℕ) (id : ConnectionId)
    (authenticator : Option (Text → AuthResult)) :
    Inv format (State.initial (H := H) (N := N)
      (.initial number id authenticator)) := by
  refine ⟨⟨rfl, rfl⟩, ?_, ⟨atEvery_nil, ?_, ?_, .nil⟩, List.forall_mem_nil _⟩
  · intro result
    simp [State.initial, Connection.initial]
  · intro type handler
    simp [State.initial, Connection.initial, elementsAt, InsertionSet.empty,
      Registered]
  · intro dispatch hmem
    cases hmem

omit [DecidableEq H] in
theorem SocketInv.frames_eq (hinv : SocketInv format state) :
    frames state.effects = (sentOpen state.history).map fun message =>
      message.toJson.stringify format := by
  rw [hinv.effects, sentTo, frames, List.filterMap_append, List.filterMap_map]
  split
  · simp
  · simp

omit [DecidableEq H] in
/-- The frames are read as the messages that were sent. -/
theorem Inv.read (hinv : Inv format state) :
    (frames state.effects).map (parseMessage format) =
      (sentOpen state.history).map some := by
  rw [hinv.socket.frames_eq, List.map_map]
  apply List.map_congr_left
  intro message hmem
  obtain ⟨label, hlabel, hmessage⟩ := List.mem_filterMap.mp hmem
  have hhistory := (List.takeWhile_prefix _).subset hlabel
  exact parseMessage_stringify (hinv.json label hhistory message hmessage)

omit [DecidableEq H] in
theorem Inv.law (hinv : Inv format state) : ConnectionLaw format state where
  fair := hinv.dispatch.fair
  socket := hinv.socket.effects
  read := hinv.read
  authenticated := hinv.authenticated

/-- In every run whose messages are JSON the law holds, whatever texts
arrive. -/
theorem connectionLaw_run {id : ConnectionId}
    {authenticator : Option (Text → AuthResult)}
    (hjson : ∀ label ∈ labels, label.IsJson format)
    (hrun : exec (step format) (.initial (.initial number id authenticator))
      labels = some state) : ConnectionLaw format state :=
  (exec_invariant_of_stepsMeet
    (P := fun _ label => label.IsJson format)
    (fun _ _ _ hinv hlabel hstep => hinv.step hlabel hstep)
    (inv_initial number id authenticator)
    (.of_forall_mem fun label hmem _ => hjson label hmem) hrun).law

end Laws

/-- A message with a number as its payload. -/
def ping (sequence : ℕ) : WebSocketMessage ℕ where
  fields := [("type".toList, .string "ping".toList),
    ("payload".toList, .number sequence)]
  type := "ping".toList
  typed := rfl

def pingText : Text := (ping 0).toJson.stringify Json.decimal

theorem wellFormed_ping (sequence : ℕ) :
    (ping sequence).toJson.WellFormed Json.decimal :=
  ⟨by simp [ping], trivial, rfl, trivial⟩

/-- A handler gets a second message while it has the first one, and throws. -/
def nestedReceive : List (Label ℕ ℕ) :=
  [.receive ['['], .on "ping".toList 1, .receive pingText, .call 2 1,
    .receive pingText, .call 4 1, .throw 4 1, .finish 2, .send (ping 1),
    .authenticate [], .disconnect, .send (ping 2)]

theorem connectionLaw_of_nestedReceive :
    ∃ state : State ℕ ℕ,
      exec (step Json.decimal) (.initial (.initial 0 "a" none))
        nestedReceive = some state ∧
      ConnectionLaw Json.decimal state := by
  have hreaches : (exec (step Json.decimal) (.initial (.initial 0 "a" none))
      nestedReceive).isSome = true := by decide +kernel
  obtain ⟨state, hrun⟩ := Option.isSome_iff_exists.mp hreaches
  refine ⟨state, hrun, connectionLaw_run ?_ hrun⟩
  simp [nestedReceive, Label.IsJson, Label.message, wellFormed_ping]

/-! ## Two connections, one at each end -/

structure Peers (H N : Type) where
  left : State H N
  right : State H N

inductive PeerLabel (H N : Type)
  | left (label : Label H N)
  | right (label : Label H N)

def PeerLabel.label : PeerLabel H N → Label H N
  | .left label => label
  | .right label => label

/-- What is received is the next frame of the other end, in the order in which
they went to its socket. -/
def arrives (own other : State H N) : Label H N → Bool
  | .receive data =>
      (frames other.effects)[(received own.history).length]? = some data
  | _ => true

section Peers

variable [DecidableEq H] {format : Json.NumberFormat N}
  {own other after : State H N} {peers next : Peers H N} {label : Label H N}

def peerStep (format : Json.NumberFormat N) (peers : Peers H N) :
    PeerLabel H N → Option (Peers H N)
  | .left label =>
      if arrives peers.left peers.right label then
        (step format peers.left label).map ({ peers with left := · })
      else none
  | .right label =>
      if arrives peers.right peers.left label then
        (step format peers.right label).map ({ peers with right := · })
      else none

/-- One end reads, in order, messages that the other sent before it closed, and
its handlers are called with them. -/
structure PeerLaw (format : Json.NumberFormat N) (own other : State H N) :
    Prop where
  fair : AtEvery (Fair format) own.history
  heard : (received own.history).map (parseMessage format) <+:
    (sentOpen other.history).map some

/-- What has arrived are the first frames of the other end. -/
def Heard (own other : State H N) : Prop :=
  received own.history <+: frames other.effects

omit [DecidableEq H] in
theorem received_concat (labels : List (Label H N)) (label : Label H N) :
    received (labels ++ [label]) = received labels ++ label.data.toList := by
  rw [received, List.filterMap_append]
  cases label with
  | _ => rfl

theorem heard_own (hheard : Heard own other)
    (harrives : arrives own other label = true)
    (hstep : step format own label = some after) : Heard after other := by
  obtain ⟨dispatches, -, rfl⟩ := step_cases hstep
  rw [Heard, received_concat]
  cases label with
  | receive data =>
      obtain ⟨rest, hframes⟩ := hheard
      have hnext := of_decide_eq_true harrives
      rw [← hframes, List.getElem?_append_right le_rfl, Nat.sub_self] at hnext
      cases rest with
      | nil => cases hnext
      | cons first rest =>
          cases hnext
          exact ⟨rest, by rw [← hframes, List.append_assoc]; rfl⟩
  | _ => simpa [Label.data, Heard] using hheard

theorem heard_other (hheard : Heard own other)
    (hstep : step format other label = some after) : Heard own after := by
  obtain ⟨dispatches, -, rfl⟩ := step_cases hstep
  unfold Heard frames
  rw [List.filterMap_append]
  exact hheard.trans (List.prefix_append _ _)

structure PeersInv (format : Json.NumberFormat N) (peers : Peers H N) :
    Prop where
  left : Inv format peers.left
  right : Inv format peers.right
  leftHeard : Heard peers.left peers.right
  rightHeard : Heard peers.right peers.left

theorem PeersInv.step (hinv : PeersInv format peers) {label : PeerLabel H N}
    (hlabel : label.label.IsJson format)
    (hstep : peerStep format peers label = some next) :
    PeersInv format next := by
  obtain ⟨hleft, hright, hleftHeard, hrightHeard⟩ := hinv
  cases label with
  | left label =>
      simp only [peerStep] at hstep
      split at hstep
      · rename_i harrives
        obtain ⟨after, hafter, rfl⟩ := Option.map_eq_some_iff.mp hstep
        exact ⟨hleft.step hlabel hafter, hright,
          heard_own hleftHeard harrives hafter, heard_other hrightHeard hafter⟩
      · cases hstep
  | right label =>
      simp only [peerStep] at hstep
      split at hstep
      · rename_i harrives
        obtain ⟨after, hafter, rfl⟩ := Option.map_eq_some_iff.mp hstep
        exact ⟨hleft, hright.step hlabel hafter, heard_other hleftHeard hafter,
          heard_own hrightHeard harrives hafter⟩
      · cases hstep

omit [DecidableEq H] in
theorem peerLaw (hown : Inv format own) (hother : Inv format other)
    (hheard : Heard own other) : PeerLaw format own other where
  fair := hown.dispatch.fair
  heard := hother.read ▸ hheard.map (parseMessage format)

def Peers.initial (left right : ConnectionId)
    (leftAuthenticator rightAuthenticator : Option (Text → AuthResult)) :
    Peers H N :=
  ⟨.initial (.initial 0 left leftAuthenticator),
    .initial (.initial 1 right rightAuthenticator)⟩

theorem peerLaw_run {left right : ConnectionId}
    {leftAuthenticator rightAuthenticator : Option (Text → AuthResult)}
    {labels : List (PeerLabel H N)}
    (hjson : ∀ label ∈ labels, label.label.IsJson format)
    (hrun : exec (peerStep format)
      (.initial left right leftAuthenticator rightAuthenticator) labels =
        some peers) :
    PeerLaw format peers.left peers.right ∧
      PeerLaw format peers.right peers.left := by
  have hinit : PeersInv format (Peers.initial (H := H) (N := N) left right
      leftAuthenticator rightAuthenticator) :=
    ⟨inv_initial _ _ _, inv_initial _ _ _, List.nil_prefix, List.nil_prefix⟩
  obtain ⟨hleft, hright, hleftHeard, hrightHeard⟩ :=
    exec_invariant_of_stepsMeet
      (P := fun _ label => label.label.IsJson format)
      (fun _ _ _ hinv hlabel hstep => hinv.step hlabel hstep) hinit
      (.of_forall_mem fun label hmem _ => hjson label hmem) hrun
  exact ⟨peerLaw hleft hright hleftHeard, peerLaw hright hleft hrightHeard⟩

end Peers

/-- A handler takes another one out and puts a third one in. -/
def changedHandlers : List (PeerLabel ℕ ℕ) :=
  [.right (.on "ping".toList 1), .right (.on "ping".toList 2),
    .left (.send (ping 0)), .right (.receive pingText), .right (.call 2 1),
    .right (.off "ping".toList 2), .right (.on "ping".toList 3),
    .right (.call 2 3), .right (.send (ping 0)), .right (.finish 2),
    .left (.receive pingText)]

theorem peerLaw_of_changedHandlers :
    ∃ peers : Peers ℕ ℕ,
      exec (peerStep Json.decimal) (.initial "a" "b" none none)
        changedHandlers = some peers ∧
      PeerLaw Json.decimal peers.left peers.right ∧
        PeerLaw Json.decimal peers.right peers.left := by
  have hreaches : (exec (peerStep Json.decimal) (.initial "a" "b" none none)
      changedHandlers).isSome = true := by decide +kernel
  obtain ⟨peers, hrun⟩ := Option.isSome_iff_exists.mp hreaches
  refine ⟨peers, hrun, peerLaw_run ?_ hrun⟩
  simp [changedHandlers, Label.IsJson, Label.message, PeerLabel.label,
    wellFormed_ping]

end TsCommons.WebSocket.Messages
