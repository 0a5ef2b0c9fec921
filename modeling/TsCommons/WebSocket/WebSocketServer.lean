import TsCommons.Foundations.Callbacks
import TsCommons.Foundations.Execution
import TsCommons.WebSocket.RoomManager

/-!
# The WebSocket server

The connections are kept by id, next to the rooms in which the ids are.  What
the server does to the sockets and the disconnect handlers is a list of
effects.
-/

namespace TsCommons.WebSocket

open Foundations

variable {H M : Type}

inductive ConnectionState
  | connecting
  | connected
  | disconnected
deriving DecidableEq

/-- `number` tells which call of `register` made the connection. -/
structure WebSocketConnection where
  number : ℕ
  id : ConnectionId
  connectionState : ConnectionState
deriving DecidableEq

structure BroadcastTarget where
  roomId : Option RoomId
  excludeConnectionId : Option ConnectionId
deriving DecidableEq

/-- A message or a close goes to the socket of a connection. -/
inductive Effect (H M : Type)
  | send (connection : ℕ) (message : M)
  | close (connection : ℕ)
  | call (handler : H) (connectionId : ConnectionId)
deriving DecidableEq

namespace WebSocketConnection

def send (connection : WebSocketConnection) (message : M) :
    List (Effect H M) :=
  if connection.connectionState ≠ .connected then []
  else [.send connection.number message]

def disconnect (connection : WebSocketConnection) :
    WebSocketConnection × List (Effect H M) :=
  if connection.connectionState = .disconnected then (connection, [])
  else ({ connection with connectionState := .disconnected },
    [.close connection.number])

end WebSocketConnection

/-- `created` counts the connections that `register` made. -/
structure WebSocketServer (H : Type) where
  connections : InsertionMap ConnectionId WebSocketConnection
  rooms : RoomManager
  disconnectHandlers : InsertionSet H
  created : ℕ
deriving DecidableEq

def buildAllRecipients
    (connections : InsertionMap ConnectionId WebSocketConnection)
    (excludeId : Option ConnectionId) : List WebSocketConnection :=
  (connections.entries.filter fun entry => some entry.1 ≠ excludeId).map
    Prod.snd

def buildRoomRecipients (members : List ConnectionId)
    (connections : InsertionMap ConnectionId WebSocketConnection)
    (excludeId : Option ConnectionId) : List WebSocketConnection :=
  members.filterMap fun id =>
    if some id = excludeId then none else connections.get id

namespace WebSocketServer

def empty : WebSocketServer H := ⟨.empty, .empty, .empty, 0⟩

/-- The adapter of the connection has the id. -/
def register (server : WebSocketServer H) (id : ConnectionId) :
    WebSocketServer H :=
  { server with
    connections := server.connections.set id ⟨server.created, id, .connected⟩
    created := server.created + 1 }

/-- The handlers are called when the connection has been taken out. -/
def disconnect [DecidableEq H] (server : WebSocketServer H)
    (connectionId : ConnectionId) (throwing : List H) :
    WebSocketServer H × List (Effect H M) :=
  match server.connections.get connectionId with
  | none => (server, [])
  | some connection =>
      let handlers := reached (· ∈ throwing) server.disconnectHandlers.elements
      ({ server with
          connections := server.connections.delete connectionId
          rooms := server.rooms.leaveAll connectionId },
        connection.disconnect.2 ++
          handlers.map fun handler => .call handler connectionId)

def sendTo (server : WebSocketServer H) (connectionId : ConnectionId)
    (message : M) : List (Effect H M) :=
  match server.connections.get connectionId with
  | none => []
  | some connection => connection.send message

def broadcast (server : WebSocketServer H) (message : M)
    (target : BroadcastTarget) : List (Effect H M) :=
  let recipients :=
    match target.roomId with
    | none => buildAllRecipients server.connections target.excludeConnectionId
    | some roomId =>
        buildRoomRecipients (server.rooms.getRoomMembers roomId)
          server.connections target.excludeConnectionId
  recipients.flatMap fun connection => connection.send message

def joinRoom (server : WebSocketServer H) (connectionId : ConnectionId)
    (roomId : RoomId) : WebSocketServer H :=
  { server with rooms := server.rooms.join connectionId roomId }

def leaveRoom (server : WebSocketServer H) (connectionId : ConnectionId)
    (roomId : RoomId) : WebSocketServer H :=
  { server with rooms := server.rooms.leave connectionId roomId }

def onDisconnect [DecidableEq H] (server : WebSocketServer H) (handler : H) :
    WebSocketServer H :=
  { server with disconnectHandlers := server.disconnectHandlers.add handler }

def connectionCount (server : WebSocketServer H) : ℕ := server.connections.size

def activeConnections (server : WebSocketServer H) :
    List WebSocketConnection :=
  server.connections.values

/-! ## What a broadcast sends -/

/-- The connections are stored under their ids, each with a number of its
own, and are connected. -/
structure Managed (server : WebSocketServer H) : Prop where
  keyed : ∀ id connection, server.connections.get id = some connection →
    connection.id = id
  connected : ∀ id connection, server.connections.get id = some connection →
    connection.connectionState = .connected
  numbered : ∀ id connection, server.connections.get id = some connection →
    connection.number < server.created
  distinct : ∀ id other connection found,
    server.connections.get id = some connection →
    server.connections.get other = some found →
    connection.number = found.number → id = other

variable {server : WebSocketServer H} {id : ConnectionId}
  {connection : WebSocketConnection}

theorem managed_empty : Managed (empty : WebSocketServer H) := by
  refine ⟨?_, ?_, ?_, ?_⟩
  · rintro id connection hget
    cases hget
  · rintro id connection hget
    cases hget
  · rintro id connection hget
    cases hget
  · rintro id other connection found hget
    cases hget

theorem Managed.congr (hmanaged : Managed server) {other : WebSocketServer H}
    (hconnections : other.connections = server.connections)
    (hcreated : other.created = server.created) : Managed other := by
  obtain ⟨hkeyed, hconnected, hnumbered, hdistinct⟩ := hmanaged
  rw [← hconnections] at hkeyed hconnected hnumbered hdistinct
  rw [← hcreated] at hnumbered
  exact ⟨hkeyed, hconnected, hnumbered, hdistinct⟩

theorem Managed.register (hmanaged : Managed server) (id : ConnectionId) :
    Managed (server.register id) := by
  have hget : ∀ other connection,
      (server.register id).connections.get other = some connection →
        other = id ∧ connection = ⟨server.created, id, .connected⟩ ∨
          other ≠ id ∧ server.connections.get other = some connection := by
    intro other connection hstored
    rw [WebSocketServer.register, InsertionMap.get_set] at hstored
    by_cases heq : other = id
    · rw [if_pos heq, Option.some.injEq] at hstored
      exact .inl ⟨heq, hstored.symm⟩
    · rw [if_neg heq] at hstored
      exact .inr ⟨heq, hstored⟩
  refine ⟨?_, ?_, ?_, ?_⟩
  · intro other connection hstored
    rcases hget other connection hstored with ⟨rfl, rfl⟩ | ⟨-, hold⟩
    · rfl
    · exact hmanaged.keyed other connection hold
  · intro other connection hstored
    rcases hget other connection hstored with ⟨rfl, rfl⟩ | ⟨-, hold⟩
    · rfl
    · exact hmanaged.connected other connection hold
  · intro other connection hstored
    rcases hget other connection hstored with ⟨rfl, rfl⟩ | ⟨-, hold⟩
    · exact Nat.lt_succ_self _
    · exact Nat.lt_succ_of_lt (hmanaged.numbered other connection hold)
  · intro first second connection found hfirst hsecond hnumber
    rcases hget first connection hfirst with ⟨rfl, rfl⟩ | ⟨-, hold⟩
    · rcases hget second found hsecond with ⟨rfl, rfl⟩ | ⟨-, hkept⟩
      · rfl
      · have hlt := hmanaged.numbered second found hkept
        exact absurd hnumber.symm (Nat.ne_of_lt hlt)
    · rcases hget second found hsecond with ⟨rfl, rfl⟩ | ⟨-, hkept⟩
      · have hlt := hmanaged.numbered first connection hold
        exact absurd hnumber (Nat.ne_of_lt hlt)
      · exact hmanaged.distinct first second connection found hold hkept
          hnumber

theorem Managed.disconnect (hmanaged : Managed server)
    (connectionId : ConnectionId) (rooms : RoomManager) :
    Managed { server with
      connections := server.connections.delete connectionId
      rooms := rooms } := by
  have hget : ∀ other connection,
      (server.connections.delete connectionId).get other = some connection →
        server.connections.get other = some connection := by
    intro other connection hstored
    rw [InsertionMap.get_delete] at hstored
    split at hstored
    · cases hstored
    · exact hstored
  refine ⟨?_, ?_, ?_, ?_⟩
  · intro other connection hstored
    exact hmanaged.keyed other connection (hget _ _ hstored)
  · intro other connection hstored
    exact hmanaged.connected other connection (hget _ _ hstored)
  · intro other connection hstored
    exact hmanaged.numbered other connection (hget _ _ hstored)
  · intro first second connection found hfirst hsecond hnumber
    exact hmanaged.distinct first second connection found (hget _ _ hfirst)
      (hget _ _ hsecond) hnumber

theorem Managed.send_eq (hmanaged : Managed server)
    (hget : server.connections.get id = some connection) (message : M) :
    (connection.send message : List (Effect H M)) =
      [.send connection.number message] := by
  rw [WebSocketConnection.send, hmanaged.connected id connection hget]
  rfl

/-- The connections that a message to a room goes to. -/
theorem mem_buildRoomRecipients_iff {members : List ConnectionId}
    {connections : InsertionMap ConnectionId WebSocketConnection}
    {excludeId : Option ConnectionId} :
    connection ∈ buildRoomRecipients members connections excludeId ↔
      ∃ id ∈ members, some id ≠ excludeId ∧
        connections.get id = some connection := by
  simp only [buildRoomRecipients, List.mem_filterMap]
  refine exists_congr fun id => and_congr_right fun _ => ?_
  by_cases hexcluded : some id = excludeId
  · simp [hexcluded]
  · simp [hexcluded]

theorem Managed.nodup_recipients (hmanaged : Managed server)
    {members : List ConnectionId} (hnodup : members.Nodup)
    (excludeId : Option ConnectionId) :
    ((buildRoomRecipients members server.connections excludeId).map
      WebSocketConnection.number).Nodup := by
  rw [buildRoomRecipients, List.map_filterMap]
  apply hnodup.filterMap
  intro first second number hfirst hsecond
  split at hfirst
  · cases hfirst
  split at hsecond
  · cases hsecond
  obtain ⟨connection, hold, hnumber⟩ := Option.map_eq_some_iff.mp hfirst
  obtain ⟨found, hkept, hsame⟩ := Option.map_eq_some_iff.mp hsecond
  exact hmanaged.distinct first second connection found hold hkept
    (hnumber.trans hsame.symm)

theorem Managed.broadcast_eq (hmanaged : Managed server) (message : M)
    (roomId : RoomId) (excludeId : Option ConnectionId) :
    (server.broadcast message ⟨some roomId, excludeId⟩ :
        List (Effect H M)) =
      ((buildRoomRecipients (server.rooms.getRoomMembers roomId)
        server.connections excludeId).map WebSocketConnection.number).map
          fun number => .send number message := by
  rw [List.map_map, ← List.flatMap_pure_eq_map]
  apply List.flatMap_congr
  intro connection hmem
  obtain ⟨id, -, -, hget⟩ := mem_buildRoomRecipients_iff.mp hmem
  exact hmanaged.send_eq hget message

end WebSocketServer

end TsCommons.WebSocket
