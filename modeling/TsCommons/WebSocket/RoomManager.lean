import TsCommons.Foundations.Execution
import TsCommons.Foundations.SetMap
import Mathlib.Data.List.Induction

/-!
# The room manager

Who is in which room is kept in two maps of sets, one from the side of the
rooms and one from that of the connections.  A set that becomes empty is
dropped from its map.  The two maps tell the same story, which is that of the
calls: a connection is in the rooms that it joined and has not left since.
-/

namespace TsCommons.WebSocket

open Foundations

abbrev ConnectionId := String

abbrev RoomId := String

structure RoomManager where
  rooms : InsertionMap RoomId (InsertionSet ConnectionId)
  membership : InsertionMap ConnectionId (InsertionSet RoomId)
deriving DecidableEq

namespace RoomManager

def empty : RoomManager := ⟨.empty, .empty⟩

def join (manager : RoomManager) (connectionId : ConnectionId)
    (roomId : RoomId) : RoomManager where
  rooms := addToSet manager.rooms roomId connectionId
  membership := addToSet manager.membership connectionId roomId

def leave (manager : RoomManager) (connectionId : ConnectionId)
    (roomId : RoomId) : RoomManager where
  rooms := removeFromSet manager.rooms roomId connectionId
  membership := removeFromSet manager.membership connectionId roomId

def getRoomMembers (manager : RoomManager) (roomId : RoomId) :
    List ConnectionId :=
  elementsAt manager.rooms roomId

def getConnectionRooms (manager : RoomManager) (connectionId : ConnectionId) :
    List RoomId :=
  elementsAt manager.membership connectionId

/-- The loop runs over a copy of the set that it empties. -/
def leaveAll (manager : RoomManager) (connectionId : ConnectionId) :
    RoomManager :=
  (manager.getConnectionRooms connectionId).foldl
    (fun manager roomId => manager.leave connectionId roomId) manager

def roomIds (manager : RoomManager) : List RoomId := manager.rooms.keys

def roomCount (manager : RoomManager) : ℕ := manager.rooms.size

def isMember (manager : RoomManager) (connectionId : ConnectionId)
    (roomId : RoomId) : Bool :=
  (manager.rooms.get roomId).any fun members => connectionId ∈ members

inductive Label
  | join (connectionId : ConnectionId) (roomId : RoomId)
  | leave (connectionId : ConnectionId) (roomId : RoomId)
  | leaveAll (connectionId : ConnectionId)
deriving DecidableEq

def step (manager : RoomManager) : Label → Option RoomManager
  | .join connectionId roomId => some (manager.join connectionId roomId)
  | .leave connectionId roomId => some (manager.leave connectionId roomId)
  | .leaveAll connectionId => some (manager.leaveAll connectionId)

def Label.Leaves (connectionId : ConnectionId) (roomId : RoomId)
    (label : Label) : Prop :=
  label = .leave connectionId roomId ∨ label = .leaveAll connectionId

/-- The connection joined the room and has not left it since. -/
def Joined (labels : List Label) (connectionId : ConnectionId)
    (roomId : RoomId) : Prop :=
  ∃ before after, labels = before ++ .join connectionId roomId :: after ∧
    ∀ label ∈ after, ¬ label.Leaves connectionId roomId

/-- The two maps agree with each other and with the calls, hold no empty sets,
and a connection that leaves all rooms is taken out of those it is in, and
nothing else is. -/
structure RoomLaw (labels : List Label) (manager : RoomManager) : Prop where
  inverse : ∀ connectionId roomId,
    connectionId ∈ manager.getRoomMembers roomId ↔
      roomId ∈ manager.getConnectionRooms connectionId
  joined : ∀ connectionId roomId,
    roomId ∈ manager.getConnectionRooms connectionId ↔
      Joined labels connectionId roomId
  rooms : NoEmptySet manager.rooms
  membership : NoEmptySet manager.membership
  left : ∀ connectionId roomId,
    (manager.leaveAll connectionId).getRoomMembers roomId =
      (manager.getRoomMembers roomId).filter (· ≠ connectionId)
  leftRooms : ∀ connectionId other,
    (manager.leaveAll connectionId).getConnectionRooms other =
      if other = connectionId then [] else manager.getConnectionRooms other

variable {manager next : RoomManager} {connectionId other : ConnectionId}
  {roomId otherRoom : RoomId} {labels : List Label} {label : Label}

/-! ## What an operation does -/

theorem getRoomMembers_leave :
    (manager.leave connectionId roomId).getRoomMembers otherRoom =
      if otherRoom = roomId then
        (manager.getRoomMembers roomId).filter (· ≠ connectionId)
      else manager.getRoomMembers otherRoom :=
  elementsAt_removeFromSet

theorem getConnectionRooms_leave :
    (manager.leave connectionId roomId).getConnectionRooms other =
      if other = connectionId then
        (manager.getConnectionRooms connectionId).filter (· ≠ roomId)
      else manager.getConnectionRooms other :=
  elementsAt_removeFromSet

def leaveRooms (connectionId : ConnectionId) (manager : RoomManager)
    (rooms : List RoomId) : RoomManager :=
  rooms.foldl (fun manager roomId => manager.leave connectionId roomId) manager

theorem getRoomMembers_leaveRooms (rooms : List RoomId) :
    (leaveRooms connectionId manager rooms).getRoomMembers roomId =
      if roomId ∈ rooms then
        (manager.getRoomMembers roomId).filter (· ≠ connectionId)
      else manager.getRoomMembers roomId := by
  induction rooms generalizing manager with
  | nil => rfl
  | cons first rest ih =>
      rw [leaveRooms, List.foldl_cons, ← leaveRooms, ih, getRoomMembers_leave]
      by_cases heq : roomId = first
      · subst first
        simp
      · simp [heq]

theorem getConnectionRooms_leaveRooms (rooms : List RoomId) :
    (leaveRooms connectionId manager rooms).getConnectionRooms other =
      if other = connectionId then
        (manager.getConnectionRooms connectionId).filter (· ∉ rooms)
      else manager.getConnectionRooms other := by
  induction rooms generalizing manager with
  | nil =>
      by_cases heq : other = connectionId
      · simp [heq, leaveRooms]
      · simp [heq, leaveRooms]
  | cons first rest ih =>
      rw [leaveRooms, List.foldl_cons, ← leaveRooms, ih]
      simp only [getConnectionRooms_leave]
      by_cases heq : other = connectionId
      · rw [if_pos heq, if_pos heq, if_pos trivial, List.filter_filter]
        apply List.filter_congr
        intro roomId _
        simp [Bool.and_comm]
      · rw [if_neg heq, if_neg heq, if_neg heq]

theorem noEmptySet_leaveRooms (connectionId : ConnectionId)
    (hrooms : NoEmptySet manager.rooms)
    (hmembership : NoEmptySet manager.membership) (rooms : List RoomId) :
    NoEmptySet (leaveRooms connectionId manager rooms).rooms ∧
      NoEmptySet (leaveRooms connectionId manager rooms).membership := by
  induction rooms generalizing manager with
  | nil => exact ⟨hrooms, hmembership⟩
  | cons first rest ih =>
      exact ih (hrooms.removeFromSet first connectionId)
        (hmembership.removeFromSet connectionId first)

/-! ## Joined and not left since -/

@[simp] theorem not_leaves_join :
    ¬ (Label.join connectionId roomId).Leaves other otherRoom := by
  simp [Label.Leaves]

@[simp] theorem leaves_leave_iff :
    (Label.leave connectionId roomId).Leaves other otherRoom ↔
      other = connectionId ∧ otherRoom = roomId := by
  simp [Label.Leaves, eq_comm]

@[simp] theorem leaves_leaveAll_iff :
    (Label.leaveAll connectionId).Leaves other otherRoom ↔
      other = connectionId := by
  simp [Label.Leaves, eq_comm]

theorem joined_concat_iff :
    Joined (labels ++ [label]) connectionId roomId ↔
      .join connectionId roomId = label ∨
        Joined labels connectionId roomId ∧
          ¬ label.Leaves connectionId roomId := by
  constructor
  · rintro ⟨before, after, hsplit, hstays⟩
    rcases List.eq_nil_or_concat after with rfl | ⟨rest, last, rfl⟩
    · obtain ⟨-, hlast⟩ := List.append_inj' hsplit rfl
      exact .inl (List.singleton_inj.mp hlast).symm
    · rw [List.concat_eq_append, ← List.cons_append,
        ← List.append_assoc] at hsplit
      obtain ⟨hlabels, hlast⟩ := List.append_inj' hsplit rfl
      rw [List.concat_eq_append] at hstays
      obtain ⟨hrest, hlabel⟩ := List.forall_mem_append.mp hstays
      refine .inr ⟨⟨before, rest, hlabels, hrest⟩, ?_⟩
      rw [List.singleton_inj.mp hlast]
      exact hlabel last List.mem_cons_self
  · rintro (rfl | ⟨⟨before, after, rfl, hstays⟩, hlabel⟩)
    · exact ⟨labels, [], rfl, List.forall_mem_nil _⟩
    · refine ⟨before, after ++ [label], by simp, ?_⟩
      exact List.forall_mem_append.mpr
        ⟨hstays, List.forall_mem_singleton.mpr hlabel⟩

/-! ## The law -/

structure Invariant (labels : List Label) (manager : RoomManager) :
    Prop where
  members : ∀ connectionId roomId,
    connectionId ∈ manager.getRoomMembers roomId ↔
      Joined labels connectionId roomId
  joined : ∀ connectionId roomId,
    roomId ∈ manager.getConnectionRooms connectionId ↔
      Joined labels connectionId roomId
  rooms : NoEmptySet manager.rooms
  membership : NoEmptySet manager.membership

theorem invariant_empty : Invariant [] RoomManager.empty := by
  have hjoined : ∀ connectionId roomId,
      ¬ Joined [] connectionId roomId := by
    rintro connectionId roomId ⟨before, after, hsplit, -⟩
    simp at hsplit
  refine ⟨?_, ?_, ?_, ?_⟩
  · intro connectionId roomId
    exact iff_of_false List.not_mem_nil (hjoined connectionId roomId)
  · intro connectionId roomId
    exact iff_of_false List.not_mem_nil (hjoined connectionId roomId)
  · intro roomId set hget
    cases hget
  · intro connectionId set hget
    cases hget

theorem Invariant.join (hinv : Invariant labels manager)
    (connectionId : ConnectionId) (roomId : RoomId) :
    Invariant (labels ++ [.join connectionId roomId])
      (manager.join connectionId roomId) := by
  refine ⟨?_, ?_, hinv.rooms.addToSet roomId connectionId,
    hinv.membership.addToSet connectionId roomId⟩
  · intro other otherRoom
    rw [joined_concat_iff, ← hinv.members other otherRoom]
    simp only [RoomManager.getRoomMembers, RoomManager.join,
      elementsAt_addToSet]
    by_cases heq : otherRoom = roomId
    · simp [heq, InsertionSet.mem_place]
    · simp [heq]
  · intro other otherRoom
    rw [joined_concat_iff, ← hinv.joined other otherRoom]
    simp only [RoomManager.getConnectionRooms, RoomManager.join,
      elementsAt_addToSet]
    by_cases heq : other = connectionId
    · simp [heq, InsertionSet.mem_place]
    · simp [heq]

theorem Invariant.leave (hinv : Invariant labels manager)
    (connectionId : ConnectionId) (roomId : RoomId) :
    Invariant (labels ++ [.leave connectionId roomId])
      (manager.leave connectionId roomId) := by
  refine ⟨?_, ?_, hinv.rooms.removeFromSet roomId connectionId,
    hinv.membership.removeFromSet connectionId roomId⟩
  · intro other otherRoom
    rw [joined_concat_iff, ← hinv.members other otherRoom,
      getRoomMembers_leave]
    by_cases heq : otherRoom = roomId
    · simp [heq]
    · simp [heq]
  · intro other otherRoom
    rw [joined_concat_iff, ← hinv.joined other otherRoom,
      getConnectionRooms_leave]
    by_cases heq : other = connectionId
    · simp [heq]
    · simp [heq]

theorem Invariant.getRoomMembers_leaveAll (hinv : Invariant labels manager)
    (connectionId : ConnectionId) (roomId : RoomId) :
    (manager.leaveAll connectionId).getRoomMembers roomId =
      (manager.getRoomMembers roomId).filter (· ≠ connectionId) := by
  rw [RoomManager.leaveAll, ← leaveRooms, getRoomMembers_leaveRooms]
  by_cases hroom : roomId ∈ manager.getConnectionRooms connectionId
  · rw [if_pos hroom]
  · rw [if_neg hroom]
    symm
    apply List.filter_eq_self.mpr
    intro other hother
    rw [decide_eq_true_eq]
    rintro rfl
    exact hroom ((hinv.joined other roomId).mpr
      ((hinv.members other roomId).mp hother))

theorem getConnectionRooms_leaveAll (manager : RoomManager)
    (connectionId other : ConnectionId) :
    (manager.leaveAll connectionId).getConnectionRooms other =
      if other = connectionId then []
      else manager.getConnectionRooms other := by
  rw [RoomManager.leaveAll, ← leaveRooms, getConnectionRooms_leaveRooms]
  by_cases heq : other = connectionId
  · rw [if_pos heq, if_pos heq]
    apply List.filter_eq_nil_iff.mpr
    simp
  · rw [if_neg heq, if_neg heq]

theorem Invariant.leaveAll (hinv : Invariant labels manager)
    (connectionId : ConnectionId) :
    Invariant (labels ++ [.leaveAll connectionId])
      (manager.leaveAll connectionId) := by
  obtain ⟨hrooms, hmembership⟩ := noEmptySet_leaveRooms
    connectionId hinv.rooms hinv.membership
    (manager.getConnectionRooms connectionId)
  refine ⟨?_, ?_, hrooms, hmembership⟩
  · intro other roomId
    rw [joined_concat_iff, ← hinv.members other roomId,
      hinv.getRoomMembers_leaveAll]
    simp
  · intro other roomId
    rw [joined_concat_iff, ← hinv.joined other roomId,
      getConnectionRooms_leaveAll]
    by_cases heq : other = connectionId
    · simp [heq]
    · simp [heq]

theorem Invariant.step (hinv : Invariant labels manager)
    (hstep : step manager label = some next) :
    Invariant (labels ++ [label]) next := by
  cases label with
  | join connectionId roomId =>
      cases hstep
      exact hinv.join connectionId roomId
  | leave connectionId roomId =>
      cases hstep
      exact hinv.leave connectionId roomId
  | leaveAll connectionId =>
      cases hstep
      exact hinv.leaveAll connectionId

theorem invariant_of_exec
    (hrun : exec step RoomManager.empty labels = some manager) :
    Invariant labels manager := by
  induction labels using List.reverseRec generalizing manager with
  | nil =>
      cases hrun
      exact invariant_empty
  | append_singleton labels label ih =>
      obtain ⟨middle, hbefore, hlast⟩ := exec_append_eq_some.mp hrun
      exact (ih hbefore).step (exec_singleton_eq_some.mp hlast)

/-- The two maps are inverse to each other and tell who is where, for every
sequence of calls. -/
theorem roomLaw
    (hrun : exec step RoomManager.empty labels = some manager) :
    RoomLaw labels manager := by
  have hinv := invariant_of_exec hrun
  constructor
  · intro connectionId roomId
    rw [hinv.members connectionId roomId, hinv.joined connectionId roomId]
  · exact hinv.joined
  · exact hinv.rooms
  · exact hinv.membership
  · exact hinv.getRoomMembers_leaveAll
  · exact getConnectionRooms_leaveAll manager

theorem roomLaw_twoRooms :
    ∃ manager, exec step RoomManager.empty
      [.join "ann" "red", .join "bob" "red", .join "ann" "blue",
        .leave "bob" "red", .join "bob" "blue", .leaveAll "ann"] =
        some manager ∧
      manager.roomIds = ["blue"] ∧
      manager.getRoomMembers "blue" = ["bob"] ∧
      RoomLaw
        [.join "ann" "red", .join "bob" "red", .join "ann" "blue",
          .leave "bob" "red", .join "bob" "blue", .leaveAll "ann"]
        manager :=
  ⟨_, rfl, by decide +kernel, by decide +kernel, roomLaw rfl⟩

end RoomManager

end TsCommons.WebSocket
