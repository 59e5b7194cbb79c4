import J1Server.Game.Room

/-! # Leaving a room

A LEAVE names a player by the id in its packet, and the room does not ask whose player that is. -/

namespace Game

open Lib

namespace Room

variable {s s' : Room} {kind : RoomKind}

/-- What a request of `session` must leave alone: the members of the other sessions, the other sessions
themselves, and what they are sent. -/
structure Isolated (s s' : Room) (session : Nat) : Prop where
  stays : ∀ entry ∈ s.members, ∀ other ≠ session, s.owner entry.2 = some other →
    entry ∈ s'.members ∧ s'.players entry.2 = s.players entry.2
  sessions : ∀ other ≠ session, s'.sessions other = s.sessions other
  sent : ∃ pkts, s'.sent = s.sent ++ pkts ∧ ∀ pkt ∈ pkts, pkt.1 = session

def LeaveIsolated (kind : RoomKind) (s : Room) : RoomEvent → Prop
  | .leave session playerId => ∀ s', step kind s (.leave session playerId) = some s' → s.Isolated s' session
  | _ => True

/-- Whoever is in the room under the id that a LEAVE names is of the session that asks. -/
def LeavesOwn (s : Room) : RoomEvent → Prop
  | .leave session playerId => session < s.connected → ∀ entry ∈ s.members, entry.1 = keyOf playerId →
      ∀ other, s.owner entry.2 = some other → other = session
  | _ => True

/-! ## One request -/

theorem mem_leave_iff {session : Nat} {playerId : Int32} {entry : UInt64 × Nat} :
    entry ∈ (s.handleReqLeave session playerId).members ↔ entry ∈ s.members ∧ entry.1 ≠ keyOf playerId := by
  rw [(handleReqLeave_spec s session playerId).1]
  simp

theorem sent_sendPacket (session : Option Nat) (pkt : RoomResponse) :
    (s.sendPacket session pkt).sent = s.sent ++ session.toList.map (·, pkt) := by
  cases session with
  | none => exact (List.append_nil _).symm
  | some session => rfl

theorem sent_leave (s : Room) (session : Nat) (playerId : Int32) :
    (s.handleReqLeave session playerId).sent =
      s.sent ++ ((s.find (keyOf playerId)).bind s.owner).toList.map (·, .leave true) := by
  unfold handleReqLeave handleLeavePlayerLocked leavePlayer
  have hfind : ∀ x, find { s with sessions := x } (keyOf playerId) = s.find (keyOf playerId) := fun _ => rfl
  simp only [hfind]
  cases s.find (keyOf playerId) with
  | none => exact (List.append_nil _).symm
  | some player =>
    simp only [Bool.not_false, if_true, Option.bind_some]
    exact sent_sendPacket _ _

theorem leave_isolated {session : Nat} {playerId : Int32}
    (hown : ∀ entry ∈ s.members, entry.1 = keyOf playerId →
      ∀ other, s.owner entry.2 = some other → other = session) :
    s.Isolated (s.handleReqLeave session playerId) session := by
  obtain ⟨-, hplayers, hsessions, -⟩ := handleReqLeave_spec s session playerId
  refine ⟨?_, ?_, _, sent_leave s session playerId, ?_⟩
  · intro entry hentry other hne howner
    have hkey : entry.1 ≠ keyOf playerId := fun hkey => hne (hown entry hentry hkey other howner)
    refine ⟨mem_leave_iff.mpr ⟨hentry, hkey⟩, hplayers entry.2 fun hfind => ?_⟩
    exact hne (hown _ (mem_of_find hfind) rfl other howner)
  · intro other hne
    rw [hsessions, Function.update_of_ne hne]
  · intro pkt hpkt
    obtain ⟨other, hother, rfl⟩ := List.mem_map.mp hpkt
    obtain ⟨player, hfind, howner⟩ := Option.bind_eq_some_iff.mp (Option.mem_toList.mp hother)
    exact hown _ (mem_of_find hfind) rfl other howner

theorem leave_evicts {session other : Nat} {playerId : Int32} {entry : UInt64 × Nat}
    (hentry : entry ∈ s.members) (hkey : entry.1 = keyOf playerId) (howner : s.owner entry.2 = some other)
    (hne : other ≠ session) : ¬s.Isolated (s.handleReqLeave session playerId) session := by
  intro h
  have hstays := (h.stays entry hentry other hne howner).1
  exact (mem_leave_iff.mp hstays).2 hkey

theorem leaveIsolated_iff (kind : RoomKind) (s : Room) (e : RoomEvent) :
    LeaveIsolated kind s e ↔ LeavesOwn s e := by
  cases e with
  | leave session playerId =>
    constructor
    · intro h hlt entry hentry hkey other howner
      by_contra hne
      exact leave_evicts hentry hkey howner hne (h _ (if_pos hlt))
    · intro hown s' hs
      obtain ⟨hlt, rfl⟩ := by simpa [step] using hs
      exact leave_isolated (hown hlt)
  | _ => exact Iff.rfl

/-! ## Every run -/

/-- Every LEAVE of a run is isolated, if and only if every LEAVE names a player of the session that asks,
or nobody in the room. -/
theorem leaves_isolated_iff (kind : RoomKind) (es : List RoomEvent) :
    Along (step kind) (LeaveIsolated kind) {} es ↔ Along (step kind) LeavesOwn {} es :=
  along_congr (leaveIsolated_iff kind) {} es

/-- Two clients; the first enters, and the second leaves with the first one's id. -/
def evictingEvents : List RoomEvent := [.connect, .connect, .enter 0 7, .leave 1 7]

theorem foreign_leave_evicts (kind : RoomKind) :
    ∃ s t, run (step kind) {} (evictingEvents.take 3) = some s ∧ step kind s (.leave 1 7) = some t ∧
      s.members = [(7, 0)] ∧ s.owner 0 = some 0 ∧ t.members = [] ∧ t.owner 0 = none ∧
      t.sent = s.sent ++ [(0, .leave true)] ∧ (t.sessions 0).player = some 0 ∧
      ¬Along (step kind) (LeaveIsolated kind) {} evictingEvents := by
  refine ⟨_, _, rfl, rfl, rfl, rfl, rfl, rfl, rfl, rfl, fun h => ?_⟩
  obtain ⟨-, h⟩ := h
  obtain ⟨-, h⟩ := h _ rfl
  obtain ⟨-, h⟩ := h _ rfl
  obtain ⟨h, -⟩ := h _ rfl
  have hstays := (h _ rfl).stays (7, 0) List.mem_cons_self 0 (by decide) rfl
  cases hstays.1

theorem leave_evicts_another :
    ¬Along (step .gameRoom) (LeaveIsolated .gameRoom) {} evictingEvents ∧
    ¬Along (step .chatRoom) (LeaveIsolated .chatRoom) {} evictingEvents := by
  obtain ⟨_, _, -, -, -, -, -, -, -, -, hgame⟩ := foreign_leave_evicts .gameRoom
  obtain ⟨_, _, -, -, -, -, -, -, -, -, hchat⟩ := foreign_leave_evicts .chatRoom
  exact ⟨hgame, hchat⟩

end Room

end Game
