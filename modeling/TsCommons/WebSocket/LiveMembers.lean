import TsCommons.Foundations.Since
import TsCommons.WebSocket.WebSocketServer

/-!
# The members of rooms are live connections

An id names the connection that was registered under it last, until that one
is disconnected.  The members of the rooms are ids of such connections, and a
message to a room reaches those that were put into it, if nobody joins a room
under an id that names no connection, and no id that is in a room is
registered again.
-/

namespace TsCommons.WebSocket.LiveMembers

open Foundations

variable {H M : Type}

inductive Label (H M : Type)
  | register (id : ConnectionId)
  | disconnect (connectionId : ConnectionId) (throwing : List H)
  | sendTo (connectionId : ConnectionId) (message : M)
  | broadcast (message : M) (target : BroadcastTarget)
  | joinRoom (connectionId : ConnectionId) (roomId : RoomId)
  | leaveRoom (connectionId : ConnectionId) (roomId : RoomId)
  | onDisconnect (handler : H)
deriving DecidableEq

namespace Label

def IsRegister : Label H M → Bool
  | .register _ => true
  | _ => false

def Disconnects (connectionId : ConnectionId) : Label H M → Prop
  | .disconnect disconnected _ => disconnected = connectionId
  | _ => False

/-- The id names another connection from then on, or none. -/
def Renames (connectionId : ConnectionId) : Label H M → Prop
  | .register id => id = connectionId
  | .disconnect disconnected _ => disconnected = connectionId
  | _ => False

def TakesOut (connectionId : ConnectionId) (roomId : RoomId) :
    Label H M → Prop
  | .leaveRoom leaving left => leaving = connectionId ∧ left = roomId
  | .disconnect disconnected _ => disconnected = connectionId
  | _ => False

end Label

/-- The id is that of the connection which the call of `register` with the
number made. -/
def Names (calls : List (Label H M)) (connectionId : ConnectionId)
    (number : ℕ) : Prop :=
  Since (fun before label => label = .register connectionId ∧
      before.countP Label.IsRegister = number)
    (Label.Renames connectionId) calls

/-- The connection was put into the room under the id after its registration,
and has neither left it nor been disconnected since. -/
def PutInto (calls : List (Label H M)) (roomId : RoomId)
    (connectionId : ConnectionId) (number : ℕ) : Prop :=
  Since (fun before label => label = .joinRoom connectionId roomId ∧
      Names before connectionId number)
    (Label.TakesOut connectionId roomId) calls

structure State (H M : Type) where
  server : WebSocketServer H
  calls : List (Label H M)
  effects : List (Effect H M)

def State.initial : State H M := ⟨.empty, [], []⟩

def State.after (state : State H M) (label : Label H M)
    (result : WebSocketServer H × List (Effect H M)) : State H M where
  server := result.1
  calls := state.calls ++ [label]
  effects := state.effects ++ result.2

/-- The members of rooms are registered, and a broadcast to a room would send
its message once to each connection that was put into it, except the excluded
one, and to no other. -/
structure MembershipLaw (state : State H M) : Prop where
  registered : ∀ roomId,
    ∀ connectionId ∈ state.server.rooms.getRoomMembers roomId,
      state.server.connections.has connectionId
  distinct : ∀ message roomId excludeConnectionId,
    (state.server.broadcast message ⟨some roomId, excludeConnectionId⟩ :
      List (Effect H M)).Nodup
  sent : ∀ message roomId excludeConnectionId effect,
    effect ∈ (state.server.broadcast message
        ⟨some roomId, excludeConnectionId⟩ : List (Effect H M)) ↔
      ∃ connectionId number,
        PutInto state.calls roomId connectionId number ∧
          some connectionId ≠ excludeConnectionId ∧
          effect = .send number message

section Steps

variable [DecidableEq H]

def perform (server : WebSocketServer H) :
    Label H M → WebSocketServer H × List (Effect H M)
  | .register id => (server.register id, [])
  | .disconnect connectionId throwing => server.disconnect connectionId throwing
  | .sendTo connectionId message =>
      (server, server.sendTo connectionId message)
  | .broadcast message target => (server, server.broadcast message target)
  | .joinRoom connectionId roomId => (server.joinRoom connectionId roomId, [])
  | .leaveRoom connectionId roomId =>
      (server.leaveRoom connectionId roomId, [])
  | .onDisconnect handler => (server.onDisconnect handler, [])

def step (state : State H M) (label : Label H M) : Option (State H M) :=
  some (state.after label (perform state.server label))

/-- Only an id that names a connection joins a room, and an id that is in a
room is not registered again. -/
def KeepsNamed (state : State H M) : Label H M → Prop
  | .register id => state.server.rooms.getConnectionRooms id = []
  | .joinRoom connectionId _ => state.server.connections.has connectionId
  | _ => True

instance KeepsNamed.decidable (state : State H M) :
    (label : Label H M) → Decidable (KeepsNamed state label)
  | .register id => inferInstanceAs
      (Decidable (state.server.rooms.getConnectionRooms id = []))
  | .joinRoom connectionId _ => inferInstanceAs
      (Decidable (state.server.connections.has connectionId = true))
  | .disconnect _ _ => inferInstanceAs (Decidable True)
  | .sendTo _ _ => inferInstanceAs (Decidable True)
  | .broadcast _ _ => inferInstanceAs (Decidable True)
  | .leaveRoom _ _ => inferInstanceAs (Decidable True)
  | .onDisconnect _ => inferInstanceAs (Decidable True)

variable {state next : State H M} {label : Label H M} {number : ℕ}
  {connectionId other : ConnectionId} {roomId : RoomId}
  {calls : List (Label H M)} {connection : WebSocketConnection}

/-! ## Names and members in a history -/

omit [DecidableEq H] in
theorem names_concat_iff :
    Names (calls ++ [label]) connectionId number ↔
      label = .register connectionId ∧
          calls.countP Label.IsRegister = number ∨
        Names calls connectionId number ∧ ¬ label.Renames connectionId :=
  since_concat_iff

omit [DecidableEq H] in
theorem putInto_concat_iff :
    PutInto (calls ++ [label]) roomId connectionId number ↔
      label = .joinRoom connectionId roomId ∧
          Names calls connectionId number ∨
        PutInto calls roomId connectionId number ∧
          ¬ label.TakesOut connectionId roomId :=
  since_concat_iff

/-! ## What holds in every run -/

/-- The connections are those that the ids name. -/
structure Invariant (state : State H M) : Prop where
  managed : state.server.Managed
  counted : state.calls.countP Label.IsRegister = state.server.created
  names : ∀ connectionId number, Names state.calls connectionId number ↔
    ∃ connection ∈ state.server.connections.get connectionId,
      connection.number = number
  mirrored : ∃ labels, RoomManager.Invariant labels state.server.rooms

omit [DecidableEq H] in
theorem invariant_initial : Invariant (State.initial : State H M) := by
  refine ⟨WebSocketServer.managed_empty, rfl, ?_,
    [], RoomManager.invariant_empty⟩
  intro connectionId number
  refine iff_of_false not_since_nil ?_
  rintro ⟨connection, hget, -⟩
  cases hget

omit [DecidableEq H] in
theorem Invariant.register (hinv : Invariant state) (id : ConnectionId) :
    Invariant (state.after (.register id) (state.server.register id, [])) := by
  refine ⟨hinv.managed.register id, ?_, ?_, hinv.mirrored⟩
  · simp [State.after, WebSocketServer.register, hinv.counted,
      Label.IsRegister]
  · intro connectionId number
    simp only [State.after, names_concat_iff, hinv.counted, hinv.names,
      WebSocketServer.register, InsertionMap.get_set]
    by_cases heq : connectionId = id
    · simp [heq, Label.Renames]
    · simp [heq, Label.Renames, Ne.symm heq]

theorem Invariant.disconnect (hinv : Invariant state)
    (connectionId : ConnectionId) (throwing : List H) :
    Invariant (state.after (.disconnect connectionId throwing)
      (state.server.disconnect connectionId throwing)) := by
  unfold WebSocketServer.disconnect
  cases hget : state.server.connections.get connectionId with
  | none =>
      refine ⟨hinv.managed, ?_, ?_, hinv.mirrored⟩
      · simp [State.after, hinv.counted, Label.IsRegister]
      · intro other number
        simp only [State.after, names_concat_iff, hinv.names, reduceCtorEq,
          false_and, false_or]
        refine and_iff_left_of_imp ?_
        rintro ⟨connection, hother, -⟩ (rfl : connectionId = other)
        rw [hget] at hother
        cases hother
  | some connection =>
      obtain ⟨labels, hmirrored⟩ := hinv.mirrored
      refine ⟨hinv.managed.disconnect connectionId _, ?_, ?_,
        _, hmirrored.leaveAll connectionId⟩
      · simp [State.after, hinv.counted, Label.IsRegister]
      · intro other number
        simp only [State.after, names_concat_iff, hinv.names, reduceCtorEq,
          false_and, false_or, InsertionMap.get_delete]
        by_cases heq : other = connectionId
        · simp [heq, Label.Renames]
        · simp [heq, Label.Renames, Ne.symm heq]

omit [DecidableEq H] in
/-- A call that makes no connection and takes none out. -/
theorem Invariant.same (hinv : Invariant state)
    {server : WebSocketServer H} {effects : List (Effect H M)}
    (hconnections : server.connections = state.server.connections)
    (hcreated : server.created = state.server.created)
    (hrenames : ∀ connectionId, ¬ label.Renames connectionId)
    (hmirrored : ∃ labels, RoomManager.Invariant labels server.rooms) :
    Invariant (state.after label (server, effects)) := by
  have hregister : ∀ id, label ≠ .register id := by
    rintro id rfl
    exact hrenames id rfl
  have hcount : label.IsRegister = false := by
    cases label with
    | register id => exact absurd rfl (hregister id)
    | _ => rfl
  refine ⟨?_, ?_, ?_, hmirrored⟩
  · exact hinv.managed.congr hconnections hcreated
  · simp [State.after, hinv.counted, hcount, hcreated]
  · intro connectionId number
    simp [State.after, names_concat_iff, hinv.names, hregister, hrenames,
      hconnections]

theorem Invariant.step (hinv : Invariant state)
    (hstep : step state label = some next) : Invariant next := by
  cases hstep
  cases label with
  | register id => exact hinv.register id
  | disconnect connectionId throwing =>
      exact hinv.disconnect connectionId throwing
  | sendTo connectionId message =>
      exact hinv.same rfl rfl (fun _ => id) hinv.mirrored
  | broadcast message target =>
      exact hinv.same rfl rfl (fun _ => id) hinv.mirrored
  | joinRoom connectionId roomId =>
      obtain ⟨labels, hmirrored⟩ := hinv.mirrored
      exact hinv.same rfl rfl (fun _ => id)
        ⟨_, hmirrored.join connectionId roomId⟩
  | leaveRoom connectionId roomId =>
      obtain ⟨labels, hmirrored⟩ := hinv.mirrored
      exact hinv.same rfl rfl (fun _ => id)
        ⟨_, hmirrored.leave connectionId roomId⟩
  | onDisconnect handler =>
      exact hinv.same rfl rfl (fun _ => id) hinv.mirrored

/-! ## What the condition keeps -/

/-- The members of rooms are the connections that were put into them. -/
structure Kept (state : State H M) : Prop where
  registered : ∀ roomId,
    ∀ connectionId ∈ state.server.rooms.getRoomMembers roomId,
      state.server.connections.has connectionId
  putInto : ∀ roomId connectionId number,
    PutInto state.calls roomId connectionId number ↔
      connectionId ∈ state.server.rooms.getRoomMembers roomId ∧
        Names state.calls connectionId number

omit [DecidableEq H] in
theorem kept_initial : Kept (State.initial : State H M) := by
  refine ⟨?_, ?_⟩
  · rintro roomId connectionId hmem
    cases hmem
  · rintro roomId connectionId number
    refine iff_of_false not_since_nil ?_
    rintro ⟨hmem, -⟩
    cases hmem

omit [DecidableEq H] in
theorem mem_getRoomMembers_join {manager : RoomManager} {otherRoom : RoomId} :
    other ∈ (manager.join connectionId roomId).getRoomMembers otherRoom ↔
      connectionId = other ∧ roomId = otherRoom ∨
        other ∈ manager.getRoomMembers otherRoom := by
  simp only [RoomManager.getRoomMembers, RoomManager.join,
    elementsAt_addToSet]
  by_cases heq : otherRoom = roomId
  · simp [heq, InsertionSet.mem_place, eq_comm]
  · simp [heq, Ne.symm heq]

omit [DecidableEq H] in
theorem Invariant.not_mem_of_rooms (hinv : Invariant state)
    (hrooms : state.server.rooms.getConnectionRooms connectionId = [])
    (roomId : RoomId) :
    connectionId ∉ state.server.rooms.getRoomMembers roomId := by
  obtain ⟨labels, hmirrored⟩ := hinv.mirrored
  rw [hmirrored.members, ← hmirrored.joined, hrooms]
  exact List.not_mem_nil

omit [DecidableEq H] in
theorem Kept.register (hkept : Kept state) (hinv : Invariant state)
    {id : ConnectionId}
    (hrooms : state.server.rooms.getConnectionRooms id = []) :
    Kept (state.after (.register id) (state.server.register id, [])) := by
  refine ⟨?_, ?_⟩
  · intro roomId connectionId hmem
    have hold := hkept.registered roomId connectionId hmem
    simp only [InsertionMap.has, State.after, WebSocketServer.register,
      InsertionMap.get_set] at hold ⊢
    split
    · rfl
    · exact hold
  · intro roomId connectionId number
    have hnone := hinv.not_mem_of_rooms hrooms roomId
    simp only [State.after, putInto_concat_iff, names_concat_iff,
      hkept.putInto, reduceCtorEq, false_and, false_or, Label.TakesOut,
      not_false_eq_true, and_true]
    refine and_congr_right fun hmem => ?_
    have hne : id ≠ connectionId := by
      rintro rfl
      exact hnone hmem
    simp [Label.Renames, hne]

theorem Kept.disconnect (hkept : Kept state) (hinv : Invariant state)
    (connectionId : ConnectionId) (throwing : List H) :
    Kept (state.after (.disconnect connectionId throwing)
      (state.server.disconnect connectionId throwing)) := by
  have hput : ∀ roomId other number,
      PutInto (state.calls ++ [.disconnect connectionId throwing]) roomId
          other number ↔
        (other ∈ state.server.rooms.getRoomMembers roomId ∧
          connectionId ≠ other) ∧
        Names (state.calls ++ [.disconnect connectionId throwing]) other
          number := by
    intro roomId other number
    simp only [putInto_concat_iff, names_concat_iff, hkept.putInto,
      reduceCtorEq, false_and, false_or, Label.TakesOut, Label.Renames]
    tauto
  unfold WebSocketServer.disconnect
  cases hget : state.server.connections.get connectionId with
  | none =>
      refine ⟨hkept.registered, fun roomId other number => ?_⟩
      refine (hput roomId other number).trans (and_congr_left fun _ => ?_)
      refine and_iff_left_of_imp fun hmem => ?_
      rintro rfl
      have hhas := hkept.registered roomId connectionId hmem
      rw [InsertionMap.has, hget] at hhas
      cases hhas
  | some connection =>
      obtain ⟨labels, hmirrored⟩ := hinv.mirrored
      have hmembers : ∀ roomId other,
          other ∈ (state.server.rooms.leaveAll connectionId).getRoomMembers
              roomId ↔
            other ∈ state.server.rooms.getRoomMembers roomId ∧
              connectionId ≠ other := by
        intro roomId other
        rw [hmirrored.getRoomMembers_leaveAll, List.mem_filter,
          decide_eq_true_eq, ne_comm]
      refine ⟨fun roomId other hmem => ?_, fun roomId other number => ?_⟩
      · obtain ⟨hold, hne⟩ := (hmembers roomId other).mp hmem
        have hhas := hkept.registered roomId other hold
        simp only [InsertionMap.has, State.after, InsertionMap.get_delete,
          if_neg (Ne.symm hne)] at hhas ⊢
        exact hhas
      · refine (hput roomId other number).trans (and_congr_left fun _ => ?_)
        exact (hmembers roomId other).symm

omit [DecidableEq H] in
theorem Kept.joinRoom (hkept : Kept state) {connectionId : ConnectionId}
    (hhas : state.server.connections.has connectionId) (roomId : RoomId) :
    Kept (state.after (.joinRoom connectionId roomId)
      (state.server.joinRoom connectionId roomId, [])) := by
  refine ⟨?_, ?_⟩
  · intro otherRoom other hmem
    rcases mem_getRoomMembers_join.mp hmem with ⟨rfl, -⟩ | hold
    · exact hhas
    · exact hkept.registered otherRoom other hold
  · intro otherRoom other number
    simp only [State.after, WebSocketServer.joinRoom, putInto_concat_iff,
      names_concat_iff, hkept.putInto, mem_getRoomMembers_join, reduceCtorEq,
      false_and, false_or, Label.TakesOut, Label.Renames, Label.joinRoom.injEq,
      not_false_eq_true, and_true, or_and_right]

omit [DecidableEq H] in
theorem Kept.leaveRoom (hkept : Kept state) (connectionId : ConnectionId)
    (roomId : RoomId) :
    Kept (state.after (.leaveRoom connectionId roomId)
      (state.server.leaveRoom connectionId roomId, [])) := by
  have hmembers : ∀ otherRoom other,
      other ∈ (state.server.rooms.leave connectionId roomId).getRoomMembers
          otherRoom ↔
        other ∈ state.server.rooms.getRoomMembers otherRoom ∧
          ¬ (connectionId = other ∧ roomId = otherRoom) := by
    intro otherRoom other
    rw [RoomManager.getRoomMembers_leave]
    by_cases heq : otherRoom = roomId
    · rw [if_pos heq, heq, List.mem_filter, decide_eq_true_eq, ne_comm]
      simp
    · simp [heq, Ne.symm heq]
  refine ⟨?_, ?_⟩
  · intro otherRoom other hmem
    exact hkept.registered otherRoom other ((hmembers otherRoom other).mp
      hmem).1
  · intro otherRoom other number
    simp only [State.after, WebSocketServer.leaveRoom, putInto_concat_iff,
      names_concat_iff, hkept.putInto, hmembers, reduceCtorEq, false_and,
      false_or, Label.TakesOut, Label.Renames, not_false_eq_true, and_true]
    tauto

omit [DecidableEq H] in
/-- A call that changes neither the connections nor the rooms. -/
theorem Kept.same (hkept : Kept state) {server : WebSocketServer H}
    {effects : List (Effect H M)}
    (hconnections : server.connections = state.server.connections)
    (hrooms : server.rooms = state.server.rooms)
    (hrenames : ∀ connectionId, ¬ label.Renames connectionId)
    (hroom : ∀ connectionId roomId, label ≠ .joinRoom connectionId roomId ∧
      ¬ label.TakesOut connectionId roomId) :
    Kept (state.after label (server, effects)) := by
  have hregister : ∀ id, label ≠ .register id := by
    rintro id rfl
    exact hrenames id rfl
  refine ⟨?_, ?_⟩
  · intro roomId connectionId hmem
    simp only [State.after, hconnections, hrooms] at hmem ⊢
    exact hkept.registered roomId connectionId hmem
  · intro roomId connectionId number
    simp [State.after, putInto_concat_iff, names_concat_iff, hkept.putInto,
      hrooms, hregister, hrenames, hroom]

theorem Kept.step (hkept : Kept state) (hinv : Invariant state)
    (hkeeps : KeepsNamed state label)
    (hstep : step state label = some next) : Kept next := by
  cases hstep
  cases label with
  | register id => exact hkept.register hinv hkeeps
  | disconnect connectionId throwing =>
      exact hkept.disconnect hinv connectionId throwing
  | sendTo connectionId message =>
      exact hkept.same rfl rfl (fun _ => id) (by simp [Label.TakesOut])
  | broadcast message target =>
      exact hkept.same rfl rfl (fun _ => id) (by simp [Label.TakesOut])
  | joinRoom connectionId roomId => exact hkept.joinRoom hkeeps roomId
  | leaveRoom connectionId roomId => exact hkept.leaveRoom connectionId roomId
  | onDisconnect handler =>
      exact hkept.same rfl rfl (fun _ => id) (by simp [Label.TakesOut])

/-! ## The law -/

omit [DecidableEq H] in
theorem Invariant.mem_broadcast_iff (hinv : Invariant state) {message : M}
    {excludeId : Option ConnectionId} {effect : Effect H M} :
    effect ∈ (state.server.broadcast message ⟨some roomId, excludeId⟩ :
        List (Effect H M)) ↔
      ∃ connectionId number,
        (connectionId ∈ state.server.rooms.getRoomMembers roomId ∧
          Names state.calls connectionId number) ∧
          some connectionId ≠ excludeId ∧ effect = .send number message := by
  rw [hinv.managed.broadcast_eq]
  simp only [List.mem_map, exists_exists_and_eq_and,
    WebSocketServer.mem_buildRoomRecipients_iff, hinv.names]
  constructor
  · rintro ⟨connection, ⟨connectionId, hmem, hkept, hget⟩, rfl⟩
    exact ⟨connectionId, _, ⟨hmem, connection, hget, rfl⟩, hkept, rfl⟩
  · rintro ⟨connectionId, _, ⟨hmem, connection, hget, rfl⟩, hkept, rfl⟩
    exact ⟨connection, ⟨connectionId, hmem, hkept, hget⟩, rfl⟩

omit [DecidableEq H] in
theorem Invariant.nodup_broadcast (hinv : Invariant state) (message : M)
    (roomId : RoomId) (excludeId : Option ConnectionId) :
    (state.server.broadcast message ⟨some roomId, excludeId⟩ :
      List (Effect H M)).Nodup := by
  rw [hinv.managed.broadcast_eq]
  refine List.Nodup.map ?_ (hinv.managed.nodup_recipients ?_ excludeId)
  · intro first second hsame
    cases hsame
    rfl
  · exact InsertionSet.nodup _

omit [DecidableEq H] in
theorem Kept.law (hkept : Kept state) (hinv : Invariant state) :
    MembershipLaw state := by
  refine ⟨hkept.registered, hinv.nodup_broadcast, ?_⟩
  intro message roomId excludeId effect
  rw [hinv.mem_broadcast_iff]
  simp only [hkept.putInto]

omit [DecidableEq H] in
/-- A message to the room of an id that is registered again does not reach the
connection that was put into it. -/
theorem not_law_register (hinv : Invariant state) (hkept : Kept state)
    {id : ConnectionId} (message : M)
    (hrooms : state.server.rooms.getConnectionRooms id ≠ []) :
    ¬ MembershipLaw
      (state.after (.register id) (state.server.register id, [])) := by
  intro hlaw
  obtain ⟨roomId, hroom⟩ := List.exists_mem_of_ne_nil _ hrooms
  obtain ⟨labels, hmirrored⟩ := hinv.mirrored
  have hmem : id ∈ state.server.rooms.getRoomMembers roomId :=
    (hmirrored.members id roomId).mpr ((hmirrored.joined id roomId).mp hroom)
  obtain ⟨connection, hget⟩ :=
    Option.isSome_iff_exists.mp (hkept.registered roomId id hmem)
  have hput : PutInto (state.calls ++ [.register id]) roomId id
      connection.number := by
    refine putInto_concat_iff.mpr (.inr ⟨?_, fun hout => hout⟩)
    refine (hkept.putInto roomId id connection.number).mpr ⟨hmem, ?_⟩
    exact (hinv.names id connection.number).mpr ⟨connection, hget, rfl⟩
  have hsent := (hlaw.sent message roomId none (.send connection.number
    message)).mpr ⟨id, connection.number, hput, Option.some_ne_none id, rfl⟩
  obtain ⟨named, number, ⟨-, hnames⟩, -, hsame⟩ :=
    ((hinv.register id).mem_broadcast_iff).mp hsent
  obtain ⟨found, hfound, hnumber⟩ :=
    ((hinv.register id).names named number).mp hnames
  have heq : found.number = connection.number := by
    cases hsame
    exact hnumber
  simp only [State.after, WebSocketServer.register, InsertionMap.get_set,
    Option.mem_def] at hfound
  by_cases hnamed : named = id
  · rw [if_pos hnamed, Option.some.injEq] at hfound
    rw [← hfound] at heq
    exact absurd heq.symm
      (Nat.ne_of_lt (hinv.managed.numbered id connection hget))
  · rw [if_neg hnamed] at hfound
    exact hnamed
      (hinv.managed.distinct named id found connection hfound hget heq)

omit [DecidableEq H] in
theorem not_law_joinRoom {connectionId : ConnectionId}
    (hhas : ¬ state.server.connections.has connectionId) (roomId : RoomId) :
    ¬ MembershipLaw (state.after (.joinRoom connectionId roomId)
      (state.server.joinRoom connectionId roomId, [])) := by
  intro hlaw
  exact hhas (hlaw.registered roomId connectionId
    (mem_getRoomMembers_join.mpr (.inl ⟨rfl, rfl⟩)))

theorem not_law_of_not_keepsNamed (hinv : Invariant state)
    (hkept : Kept state) [Inhabited M] (hnot : ¬ KeepsNamed state label)
    (hstep : step state label = some next) : ¬ MembershipLaw next := by
  cases hstep
  cases label with
  | register id =>
      exact not_law_register hinv hkept default hnot
  | joinRoom connectionId roomId => exact not_law_joinRoom hnot roomId
  | disconnect _ _ => exact absurd trivial hnot
  | sendTo _ _ => exact absurd trivial hnot
  | broadcast _ _ => exact absurd trivial hnot
  | leaveRoom _ _ => exact absurd trivial hnot
  | onDisconnect _ => exact absurd trivial hnot

/-- The members of the rooms are live connections, and a message to a room
goes to those that were put into it, in every state of a run, if and only if
all its steps keep the ids named. -/
theorem membershipLaw_iff_keepsNamed [Inhabited M]
    {labels : List (Label H M)}
    (hrun : exec step State.initial labels = some state) :
    Throughout step MembershipLaw (State.initial : State H M) labels ↔
      StepsMeet step KeepsNamed (State.initial : State H M) labels :=
  throughout_iff_stepsMeet
    (I := fun state => Invariant state ∧ Kept state)
    (fun _ hinv => hinv.2.law hinv.1)
    (fun _ _ _ hinv hkeeps hstep =>
      ⟨hinv.1.step hstep, hinv.2.step hinv.1 hkeeps hstep⟩)
    (fun _ _ _ hinv hnot hstep =>
      not_law_of_not_keepsNamed hinv.1 hinv.2 hnot hstep)
    ⟨invariant_initial, kept_initial⟩ hrun

/-- A connection joins a room and is disconnected, and its id is used again. -/
def returns : List (Label ℕ String) :=
  [.onDisconnect 7, .register "ann", .joinRoom "ann" "red",
    .broadcast "hello" ⟨some "red", none⟩, .disconnect "ann" [],
    .register "ann", .broadcast "again" ⟨some "red", none⟩]

/-- An id joins a room before it names a connection. -/
def joinsFirst : List (Label ℕ String) :=
  [.joinRoom "ann" "red", .register "ann",
    .broadcast "hello" ⟨some "red", none⟩]

theorem membershipLaw_iff_keepsNamed_samples :
    Throughout step MembershipLaw State.initial returns ∧
      ¬ Throughout step MembershipLaw State.initial joinsFirst := by
  have hreturns : (exec step State.initial returns).map State.effects =
      some [.send 0 "hello", .close 0, .call 7 "ann"] := by
    decide +kernel
  have hjoins : (exec step State.initial joinsFirst).map State.effects =
      some [.send 0 "hello"] := by
    decide +kernel
  obtain ⟨_, hreturns, -⟩ := Option.map_eq_some_iff.mp hreturns
  obtain ⟨_, hjoins, -⟩ := Option.map_eq_some_iff.mp hjoins
  constructor
  · apply (membershipLaw_iff_keepsNamed hreturns).mpr
    decide +kernel
  · intro hlaw
    have hmeet := (membershipLaw_iff_keepsNamed hjoins).mp hlaw
    exact absurd hmeet (by decide +kernel)

/-- A room has a member that is no connection, and the message reaches a
connection that joined no room after its registration. -/
theorem not_membershipLaw_joinsFirst :
    ∃ joined state,
      exec step State.initial [.joinRoom "ann" "red"] = some joined ∧
      joined.server.rooms.getRoomMembers "red" = ["ann"] ∧
      joined.server.connections.get "ann" = none ∧
      exec step joined [.register "ann",
        .broadcast "hello" ⟨some "red", none⟩] = some state ∧
      state.effects = [.send 0 "hello"] ∧
      ¬ MembershipLaw (joined : State ℕ String) := by
  refine ⟨_, _, rfl, by decide +kernel, by decide +kernel, rfl,
    by decide +kernel, fun hlaw => ?_⟩
  have hhas := hlaw.registered "red" "ann" (by decide +kernel)
  exact absurd hhas (by decide +kernel)

end Steps

end TsCommons.WebSocket.LiveMembers
