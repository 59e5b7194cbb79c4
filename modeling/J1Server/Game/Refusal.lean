import J1Server.Game.Room

/-! # Refused requests

The handlers write the session before they ask the room, and do not take it back when the room refuses. -/

namespace Game

open Lib

namespace Room

variable {s s' : Room} {kind : RoomKind} {session : Nat} {playerId : Int32}

/-- What a refused request of `session` must leave alone: its player, who is in the room, and the references
of every member that there was. -/
structure Unchanged (s s' : Room) (session : Nat) : Prop where
  player : (s'.sessions session).player = (s.sessions session).player
  members : s'.members = s.members
  references : ∀ player < s.created,
    (s'.players player).room = (s.players player).room ∧ (s'.players player).session = (s.players player).session

/-- An ENTER that is answered with `false`, and a LEAVE of an id that is not in the room. -/
def Refused (s : Room) : RoomEvent → Prop
  | .enter session playerId => ((s.createPlayer session playerId).handleEnterPlayerLocked s.created).2 = false
  | .leave _ playerId => s.find (keyOf playerId) = none
  | _ => False

def RefusalUnchanged (kind : RoomKind) (s : Room) : RoomEvent → Prop
  | .enter session playerId => s.Refused (.enter session playerId) →
      ∀ s', step kind s (.enter session playerId) = some s' → s.Unchanged s' session
  | .leave session playerId => s.Refused (.leave session playerId) →
      ∀ s', step kind s (.leave session playerId) = some s' → s.Unchanged s' session
  | _ => True

/-- An id that enters is new to the room, and whoever asks in vain to leave had no player anyway. -/
def Harmless (s : Room) : RoomEvent → Prop
  | .enter session playerId => session < s.connected → s.find (keyOf playerId) = none
  | .leave session playerId => session < s.connected → s.find (keyOf playerId) = none →
      (s.sessions session).player = none
  | _ => True

/-- No session points at a player that is not made yet. -/
def Pointing (s : Room) : Prop := ∀ session player, (s.sessions session).player = some player → player < s.created

/-! ## One request -/

theorem enter_refused_iff : s.Refused (.enter session playerId) ↔ s.find (keyOf playerId) ≠ none := by
  have hnew : ((s.createPlayer session playerId).players s.created).playerId = playerId := by simp [createPlayer]
  obtain ⟨-, -, -, -, hresult⟩ := enterPlayer_spec (s.createPlayer session playerId) s.created
  rw [hnew] at hresult
  unfold Refused handleEnterPlayerLocked
  dsimp only
  rw [← Bool.not_eq_true, hresult]
  exact Iff.rfl

theorem handleReqEnter_refused (h : s.find (keyOf playerId) ≠ none) :
    s.handleReqEnter session playerId = (s.createPlayer session playerId).sendPacket (some session) (.enter false) := by
  have hnew : (s.createPlayer session playerId).players s.created = ⟨playerId, some session, false⟩ := by
    simp [createPlayer]
  have hfound : (s.createPlayer session playerId).find (keyOf playerId) ≠ none := h
  unfold handleReqEnter handleEnterPlayerLocked enterPlayer
  dsimp only
  rw [hnew]
  simp only [if_pos hfound, hnew]

theorem handleReqLeave_refused (h : s.find (keyOf playerId) = none) :
    s.handleReqLeave session playerId = { s with
      sessions := Function.update s.sessions session { s.sessions session with player := none } } := by
  have hfind : ∀ x, find { s with sessions := x } (keyOf playerId) = none := fun _ => h
  unfold handleReqLeave handleLeavePlayerLocked leavePlayer
  simp only [hfind]

/-- A refusal does not reach the room or a member that there was. -/
theorem refused_room {e : RoomEvent} (hr : s.Refused e) (hs : step kind s e = some s') :
    s'.members = s.members ∧ ∀ player < s.created, s'.players player = s.players player := by
  cases e with
  | enter session playerId =>
    obtain ⟨-, rfl⟩ := by simpa [step] using hs
    rw [handleReqEnter_refused (enter_refused_iff.mp hr), sendPacket_members, sendPacket_players]
    exact ⟨rfl, fun player hlt => Function.update_of_ne (Nat.ne_of_lt hlt) _ _⟩
  | leave session playerId =>
    obtain ⟨-, rfl⟩ := by simpa [step] using hs
    rw [handleReqLeave_refused hr]
    exact ⟨rfl, fun _ _ => rfl⟩
  | _ => exact False.elim hr

theorem refused_unchanged_iff {e : RoomEvent} (hr : s.Refused e) (hs : step kind s e = some s') :
    s.Unchanged s' session ↔ (s'.sessions session).player = (s.sessions session).player := by
  obtain ⟨hmembers, hplayers⟩ := refused_room hr hs
  refine ⟨Unchanged.player, fun hplayer => ⟨hplayer, hmembers, fun player hlt => ?_⟩⟩
  rw [hplayers player hlt]
  exact ⟨rfl, rfl⟩

/-- The new player is not in the room, but its session points at it. -/
theorem enter_refused_player (h : s.find (keyOf playerId) ≠ none) :
    ((s.handleReqEnter session playerId).sessions session).player = some s.created := by
  rw [handleReqEnter_refused h]
  simp [createPlayer]

theorem leave_refused_player (h : s.find (keyOf playerId) = none) :
    ((s.handleReqLeave session playerId).sessions session).player = none := by
  rw [handleReqLeave_refused h]
  simp

theorem step_pointing {e : RoomEvent} (h : Pointing s) (hs : step kind s e = some s') : Pointing s' := by
  obtain ⟨rfl, rfl⟩ | ⟨asks, playerId, rfl, -, rfl⟩ | ⟨asks, playerId, rfl, -, rfl⟩ |
    ⟨asks, message, rfl, rfl⟩ | ⟨asks, rfl, -, rfl⟩ := step_cases hs
  · exact h
  · obtain ⟨-, -, -, hsessions, hcreated⟩ := handleReqEnter_spec s asks playerId
    intro other player hplayer
    rw [hsessions] at hplayer
    rw [hcreated]
    by_cases hother : other = asks
    · subst hother
      rw [Function.update_self] at hplayer
      obtain rfl := Option.some.inj hplayer
      exact Nat.lt_succ_self _
    · rw [Function.update_of_ne hother] at hplayer
      exact Nat.lt_succ_of_lt (h other player hplayer)
  · obtain ⟨-, -, hsessions, hcreated⟩ := handleReqLeave_spec s asks playerId
    intro other player hplayer
    rw [hsessions] at hplayer
    rw [hcreated]
    by_cases hother : other = asks
    · subst hother
      rw [Function.update_self] at hplayer
      cases hplayer
    · rw [Function.update_of_ne hother] at hplayer
      exact h other player hplayer
  · exact h
  · intro other player hplayer
    refine h other player ?_
    by_cases hother : other = asks
    · subst hother
      simpa [close] using hplayer
    · simpa [close, hother] using hplayer

theorem refusalUnchanged_iff (kind : RoomKind) (e : RoomEvent) (hp : Pointing s) :
    RefusalUnchanged kind s e ↔ Harmless s e := by
  cases e with
  | enter session playerId =>
    constructor
    · intro h hlt
      by_contra hfound
      have hplayer := (h (enter_refused_iff.mpr hfound) _ (if_pos hlt)).player
      rw [enter_refused_player hfound] at hplayer
      exact Nat.lt_irrefl _ (hp session s.created hplayer.symm)
    · intro hnew hrefused s' hs
      obtain ⟨hlt, rfl⟩ := by simpa [step] using hs
      exact absurd (hnew hlt) (enter_refused_iff.mp hrefused)
  | leave session playerId =>
    constructor
    · intro h hlt hfind
      have hplayer := (h hfind _ (if_pos hlt)).player
      rw [leave_refused_player hfind] at hplayer
      exact hplayer.symm
    · intro hnone hfind s' hs
      refine (refused_unchanged_iff hfind hs).mpr ?_
      obtain ⟨hlt, rfl⟩ := by simpa [step] using hs
      rw [leave_refused_player hfind, hnone hlt hfind]
  | _ => exact Iff.rfl

/-! ## Every run -/

/-- Every refused request of a run changes nothing, if and only if no ENTER is refused, and every LEAVE that
is comes from a session without a player. -/
theorem refusals_unchanged_iff (kind : RoomKind) (es : List RoomEvent) :
    Along (step kind) (RefusalUnchanged kind) {} es ↔ Along (step kind) Harmless {} es :=
  along_congr_under (I := Pointing) (fun _ _ _ => step_pointing) (fun _ e hp => refusalUnchanged_iff kind e hp)
    (by rintro session player ⟨⟩) es

/-- A second client asks for an id that is in the room, and a client that is in the room asks to leave under
another id. -/
def refusedEnterEvents : List RoomEvent := [.connect, .connect, .enter 0 7, .enter 1 7]
def refusedLeaveEvents : List RoomEvent := [.connect, .enter 0 7, .leave 0 8]

theorem refusedEnter_changes (kind : RoomKind) :
    ∃ s t, run (step kind) {} (refusedEnterEvents.take 3) = some s ∧ step kind s (.enter 1 7) = some t ∧
      t.sent = s.sent ++ [(1, .enter false)] ∧ (s.sessions 1).player = none ∧ (t.sessions 1).player = some 1 ∧
      t.members = s.members ∧ ¬Along (step kind) (RefusalUnchanged kind) {} refusedEnterEvents := by
  refine ⟨_, _, rfl, rfl, rfl, rfl, rfl, rfl, fun h => ?_⟩
  obtain ⟨-, h⟩ := h
  obtain ⟨-, h⟩ := h _ rfl
  obtain ⟨-, h⟩ := h _ rfl
  obtain ⟨h, -⟩ := h _ rfl
  cases (h rfl _ rfl).player

theorem refusedLeave_changes (kind : RoomKind) :
    ∃ s t, run (step kind) {} (refusedLeaveEvents.take 2) = some s ∧ step kind s (.leave 0 8) = some t ∧
      t.sent = s.sent ∧ (s.sessions 0).player = some 0 ∧ (t.sessions 0).player = none ∧
      t.members = s.members ∧ t.owner 0 = some 0 ∧
      ¬Along (step kind) (RefusalUnchanged kind) {} refusedLeaveEvents := by
  refine ⟨_, _, rfl, rfl, rfl, rfl, rfl, rfl, rfl, fun h => ?_⟩
  obtain ⟨-, h⟩ := h
  obtain ⟨-, h⟩ := h _ rfl
  obtain ⟨h, -⟩ := h _ rfl
  cases (h rfl _ rfl).player

theorem refusals_write_sessions :
    (¬Along (step .gameRoom) (RefusalUnchanged .gameRoom) {} refusedEnterEvents ∧
      ¬Along (step .gameRoom) (RefusalUnchanged .gameRoom) {} refusedLeaveEvents) ∧
    (¬Along (step .chatRoom) (RefusalUnchanged .chatRoom) {} refusedEnterEvents ∧
      ¬Along (step .chatRoom) (RefusalUnchanged .chatRoom) {} refusedLeaveEvents) := by
  obtain ⟨_, _, -, -, -, -, -, -, henterGame⟩ := refusedEnter_changes .gameRoom
  obtain ⟨_, _, -, -, -, -, -, -, -, hleaveGame⟩ := refusedLeave_changes .gameRoom
  obtain ⟨_, _, -, -, -, -, -, -, henterChat⟩ := refusedEnter_changes .chatRoom
  obtain ⟨_, _, -, -, -, -, -, -, -, hleaveChat⟩ := refusedLeave_changes .chatRoom
  exact ⟨⟨henterGame, hleaveGame⟩, henterChat, hleaveChat⟩

end Room

end Game
