import J1Server.Lib.Runs
import Mathlib.Data.List.Nodup
import Mathlib.Logic.Function.Basic

/-! # Rooms

`GameRoom` and `ChatRoom`: who is in a room is kept in the room, in its members and in the sessions.
Objects are numbered in the order in which they are made. -/

namespace Game

open Lib

/-- A `GameMember`, or a `ChatMember`. Its two references are weak. -/
structure Member where
  playerId : Int32 := 0
  session : Option Nat := none
  room : Bool := false
  deriving DecidableEq

structure RoomSession where
  isOpen : Bool := true
  player : Option Nat := none
  deriving DecidableEq

inductive RoomResponse
  | enter (result : Bool)
  | leave (result : Bool)
  | chat (message : String)
  deriving DecidableEq

/-- The sessions of a server and its one room, `GRoom`. `members` is `_members`. -/
structure Room where
  connected : Nat := 0
  sessions : Nat → RoomSession := fun _ => {}
  created : Nat := 0
  players : Nat → Member := fun _ => {}
  members : List (UInt64 × Nat) := []
  sent : List (Nat × RoomResponse) := []

/-- The two rooms differ in what `Broadcast` does. -/
inductive RoomKind
  | gameRoom
  | chatRoom
  deriving DecidableEq

def keyOf (playerId : Int32) : UInt64 := playerId.toInt64.toUInt64

namespace Room

def find (s : Room) (key : UInt64) : Option Nat := (s.members.find? (·.1 = key)).map Prod.snd

def sendPacket (s : Room) (session : Option Nat) (pkt : RoomResponse) : Room :=
  match session with
  | some session => { s with sent := s.sent ++ [(session, pkt)] }
  | none => s

def enterPlayer (s : Room) (player : Nat) : Room × Bool :=
  let playerId := (s.players player).playerId
  if s.find (keyOf playerId) ≠ none then (s, false)
  else
    ({ s with
        members := s.members ++ [(keyOf playerId, player)]
        players := Function.update s.players player { s.players player with room := true } }, true)

def leavePlayer (s : Room) (playerId : Int32) : Room × Bool :=
  match s.find (keyOf playerId) with
  | none => (s, false)
  | some player =>
    let left : Member := { s.players player with room := false }
    let success := !left.room
    let s := ({ s with players := Function.update s.players player left } : Room).sendPacket left.session
      (.leave success)
    if success then
      ({ s with
          players := Function.update s.players player { left with session := none }
          members := s.members.filter (·.1 ≠ keyOf playerId) }, success)
    else (s, success)

def handleEnterPlayerLocked (s : Room) (player : Nat) : Room × Bool :=
  let (s, success) := s.enterPlayer player
  (s.sendPacket (s.players player).session (.enter success), success)

def handleLeavePlayerLocked (s : Room) (playerId : Int32) : Room × Bool := s.leavePlayer playerId

/-- The sessions that a broadcast is sent to. The loop of `GameRoom` has no body. -/
def broadcast (kind : RoomKind) (s : Room) : List Nat :=
  match kind with
  | .gameRoom => []
  | .chatRoom => s.members.filterMap fun entry => (s.players entry.2).session

/-! ## The handlers -/

/-- `CreatePlayer`, and the two references between the member and its session. -/
def createPlayer (s : Room) (session : Nat) (playerId : Int32) : Room :=
  { s with
    created := s.created + 1
    players := Function.update s.players s.created ⟨playerId, some session, false⟩
    sessions := Function.update s.sessions session { s.sessions session with player := some s.created } }

/-- `Handle_REQ_ENTER_GAME` and `Handle_REQ_ENTER_CHATROOM`. -/
def handleReqEnter (s : Room) (session : Nat) (playerId : Int32) : Room :=
  let player := s.created
  ((s.createPlayer session playerId).handleEnterPlayerLocked player).1

/-- `Handle_REQ_LEAVE_GAME` and `Handle_REQ_LEAVE_CHATROOM`. -/
def handleReqLeave (s : Room) (session : Nat) (playerId : Int32) : Room :=
  let s : Room :=
    { s with sessions := Function.update s.sessions session { s.sessions session with player := none } }
  (s.handleLeavePlayerLocked playerId).1

def handleReqChat (kind : RoomKind) (s : Room) (message : String) : Room :=
  { s with sent := s.sent ++ (s.broadcast kind).map (·, .chat message) }

/-- The room is not told. -/
def close (s : Room) (session : Nat) : Room :=
  { s with sessions := Function.update s.sessions session { s.sessions session with isOpen := false } }

end Room

inductive RoomEvent
  | connect
  | enter (session : Nat) (playerId : Int32)
  | leave (session : Nat) (playerId : Int32)
  | chat (session : Nat) (message : String)
  | close (session : Nat)
  deriving DecidableEq

namespace Room

/-- A request may be handled after its session has closed. -/
def step (kind : RoomKind) (s : Room) : RoomEvent → Option Room
  | .connect => some { s with connected := s.connected + 1 }
  | .enter session playerId =>
    if session < s.connected then some (s.handleReqEnter session playerId) else none
  | .leave session playerId =>
    if session < s.connected then some (s.handleReqLeave session playerId) else none
  | .chat session message => if session < s.connected then some (s.handleReqChat kind message) else none
  | .close session => if session < s.connected then some (s.close session) else none

variable {s s' : Room} {kind : RoomKind}

def owner (s : Room) (player : Nat) : Option Nat := (s.players player).session

/-- An entry of the room, its member and the member's session point at each other. -/
structure Tied (s : Room) (key : UInt64) (player session : Nat) : Prop where
  key : key = keyOf (s.players player).playerId
  owner : s.owner player = some session
  isOpen : (s.sessions session).isOpen = true
  player : (s.sessions session).player = some player

structure Follows (kind : RoomKind) (s : Room) : Prop where
  tied : ∀ entry ∈ s.members, ∃ session, s.Tied entry.1 entry.2 session
  oneEach : ∀ e₁ ∈ s.members, ∀ e₂ ∈ s.members, s.owner e₁.2 = s.owner e₂.2 → e₁ = e₂
  /-- An id that only closed sessions have in the room can enter again. -/
  reenter : ∀ player, (∀ entry ∈ s.members, entry.1 = keyOf (s.players player).playerId →
    ∀ session, s.owner entry.2 = some session → (s.sessions session).isOpen = false) →
    (s.enterPlayer player).2 = true
  broadcast : (s.broadcast kind).Nodup

/-- What holds of the room alone, whatever the sessions do. -/
structure Keyed (s : Room) : Prop where
  keys : (s.members.map Prod.fst).Nodup
  key : ∀ entry ∈ s.members, entry.1 = keyOf (s.players entry.2).playerId
  fresh : ∀ entry ∈ s.members, entry.2 < s.created

def Owns (s : Room) (session : Nat) : Prop := ∃ entry ∈ s.members, s.owner entry.2 = some session

/-- What keeps the room in step: a session enters when it has no member in the room, and is open or is refused;
it leaves with the id of its member, if it has one; and it closes when it has none. -/
def Orderly (s : Room) : RoomEvent → Prop
  | .connect | .chat _ _ => True
  | .enter session playerId => session < s.connected →
      ¬s.Owns session ∧ ((s.sessions session).isOpen = true ∨ s.find (keyOf playerId) ≠ none)
  | .leave session playerId => session < s.connected →
      ∀ entry ∈ s.members, s.owner entry.2 = some session → entry.1 = keyOf playerId
  | .close session => session < s.connected → ¬s.Owns session

/-! ## Finding a member -/

theorem mem_of_find {key : UInt64} {player : Nat} (h : s.find key = some player) : (key, player) ∈ s.members := by
  obtain ⟨entry, hentry, rfl⟩ := Option.map_eq_some_iff.mp h
  have hkey : entry.1 = key := by simpa using List.find?_some hentry
  rw [← hkey]
  exact List.mem_of_find?_eq_some hentry

theorem find_eq_none_iff {key : UInt64} : s.find key = none ↔ ∀ entry ∈ s.members, entry.1 ≠ key := by
  simp [find]

/-! ## What a handler does -/

@[simp] theorem sendPacket_members (session : Option Nat) (pkt : RoomResponse) :
    (s.sendPacket session pkt).members = s.members := by
  cases session <;> rfl

@[simp] theorem sendPacket_players (session : Option Nat) (pkt : RoomResponse) :
    (s.sendPacket session pkt).players = s.players := by
  cases session <;> rfl

@[simp] theorem sendPacket_sessions (session : Option Nat) (pkt : RoomResponse) :
    (s.sendPacket session pkt).sessions = s.sessions := by
  cases session <;> rfl

@[simp] theorem sendPacket_created (session : Option Nat) (pkt : RoomResponse) :
    (s.sendPacket session pkt).created = s.created := by
  cases session <;> rfl

theorem enterPlayer_spec (s : Room) (player : Nat) :
    (s.enterPlayer player).1.members = s.members ++
      (if s.find (keyOf (s.players player).playerId) = none then [(keyOf (s.players player).playerId, player)] else []) ∧
    (∀ p, (s.enterPlayer player).1.players p = { s.players p with room := ((s.enterPlayer player).1.players p).room }) ∧
    (s.enterPlayer player).1.sessions = s.sessions ∧ (s.enterPlayer player).1.created = s.created ∧
    ((s.enterPlayer player).2 = true ↔ s.find (keyOf (s.players player).playerId) = none) := by
  unfold enterPlayer
  by_cases h : s.find (keyOf (s.players player).playerId) = none
  · simp only [h, ne_eq, not_true_eq_false, if_false, if_true, true_and, and_true]
    intro p
    by_cases hp : p = player <;> simp [hp]
  · simp [h]

theorem handleReqEnter_spec (s : Room) (session : Nat) (playerId : Int32) :
    (s.handleReqEnter session playerId).members =
      s.members ++ (if s.find (keyOf playerId) = none then [(keyOf playerId, s.created)] else []) ∧
    (∀ player, ((s.handleReqEnter session playerId).players player).playerId =
      if player = s.created then playerId else (s.players player).playerId) ∧
    (∀ player, (s.handleReqEnter session playerId).owner player =
      if player = s.created then some session else s.owner player) ∧
    (s.handleReqEnter session playerId).sessions = Function.update s.sessions session
      { s.sessions session with player := some s.created } ∧
    (s.handleReqEnter session playerId).created = s.created + 1 := by
  obtain ⟨hmembers, hplayers, hsessions, hcreated, -⟩ := enterPlayer_spec (s.createPlayer session playerId) s.created
  have hnew : ((s.createPlayer session playerId).players s.created).playerId = playerId := by simp [createPlayer]
  rw [hnew] at hmembers
  unfold handleReqEnter handleEnterPlayerLocked
  refine ⟨?_, fun player => ?_, fun player => ?_, ?_, ?_⟩
  · simp only [sendPacket_members]
    exact hmembers
  · simp only [sendPacket_players]
    rw [hplayers]
    by_cases hp : player = s.created <;> simp [createPlayer, hp]
  · simp only [owner, sendPacket_players]
    rw [hplayers]
    by_cases hp : player = s.created <;> simp [createPlayer, hp]
  · simp only [sendPacket_sessions]
    exact hsessions
  · simp only [sendPacket_created]
    exact hcreated

theorem leavePlayer_spec (s : Room) (playerId : Int32) :
    (s.leavePlayer playerId).1.members = s.members.filter (·.1 ≠ keyOf playerId) ∧
    (∀ player, s.find (keyOf playerId) ≠ some player → (s.leavePlayer playerId).1.players player = s.players player) ∧
    (s.leavePlayer playerId).1.sessions = s.sessions ∧ (s.leavePlayer playerId).1.created = s.created := by
  unfold leavePlayer
  cases h : s.find (keyOf playerId) with
  | none =>
    have hall : s.members.filter (·.1 ≠ keyOf playerId) = s.members := by
      simpa [List.filter_eq_self] using find_eq_none_iff.mp h
    exact ⟨hall.symm, fun _ _ => rfl, rfl, rfl⟩
  | some player =>
    refine ⟨by simp, fun p hp => ?_, by simp, by simp⟩
    have hne : p ≠ player := fun heq => hp (by rw [heq])
    simp [hne]

theorem handleReqLeave_spec (s : Room) (session : Nat) (playerId : Int32) :
    (s.handleReqLeave session playerId).members = s.members.filter (·.1 ≠ keyOf playerId) ∧
    (∀ player, s.find (keyOf playerId) ≠ some player →
      (s.handleReqLeave session playerId).players player = s.players player) ∧
    (s.handleReqLeave session playerId).sessions = Function.update s.sessions session
      { s.sessions session with player := none } ∧
    (s.handleReqLeave session playerId).created = s.created :=
  leavePlayer_spec _ playerId

/-! ## The keys of the room -/

theorem Keyed.eq_of_player (h : Keyed s) {e₁ e₂ : UInt64 × Nat} (h₁ : e₁ ∈ s.members) (h₂ : e₂ ∈ s.members)
    (hp : e₁.2 = e₂.2) : e₁ = e₂ := by
  refine Prod.ext ?_ hp
  rw [h.key e₁ h₁, h.key e₂ h₂, hp]

theorem Keyed.of_eq (h : Keyed s) (hmembers : s'.members = s.members) (hplayers : s'.players = s.players)
    (hcreated : s'.created = s.created) : Keyed s' where
  keys := hmembers ▸ h.keys
  key entry hentry := hplayers ▸ h.key entry (hmembers ▸ hentry)
  fresh entry hentry := hcreated ▸ h.fresh entry (hmembers ▸ hentry)

theorem handleReqEnter_keyed (h : Keyed s) (session : Nat) (playerId : Int32) :
    Keyed (s.handleReqEnter session playerId) := by
  obtain ⟨hmembers, hids, -, -, hcreated⟩ := handleReqEnter_spec s session playerId
  have hold : ∀ entry ∈ s.members, entry.2 ≠ s.created := fun entry hentry =>
    Nat.ne_of_lt (h.fresh entry hentry)
  have hmem : ∀ entry ∈ (s.handleReqEnter session playerId).members,
      entry ∈ s.members ∨ entry = (keyOf playerId, s.created) := by
    intro entry hentry
    rw [hmembers, List.mem_append] at hentry
    refine hentry.imp_right fun hnew => ?_
    split at hnew
    · exact List.mem_singleton.mp hnew
    · cases hnew
  refine ⟨?_, fun entry hentry => ?_, fun entry hentry => ?_⟩
  · rw [hmembers]
    split
    · rename_i hfree
      rw [List.map_append, List.nodup_append]
      refine ⟨h.keys, by simp, ?_⟩
      intro key hkey key' hkey' heq
      obtain ⟨entry, hentry, rfl⟩ := List.mem_map.mp hkey
      obtain rfl : key' = keyOf playerId := by simpa using hkey'
      exact find_eq_none_iff.mp hfree entry hentry heq
    · simpa using h.keys
  · rcases hmem entry hentry with hentry | rfl
    · rw [hids, if_neg (hold entry hentry)]
      exact h.key entry hentry
    · rw [hids, if_pos rfl]
  · rw [hcreated]
    rcases hmem entry hentry with hentry | rfl
    · exact Nat.lt_succ_of_lt (h.fresh entry hentry)
    · exact Nat.lt_succ_self _

theorem stays_iff (h : Keyed s) {playerId : Int32} {entry : UInt64 × Nat} (hentry : entry ∈ s.members)
    (hkey : entry.1 ≠ keyOf playerId) : s.find (keyOf playerId) ≠ some entry.2 := by
  intro hfind
  have := h.eq_of_player (mem_of_find hfind) hentry rfl
  exact hkey (congrArg Prod.fst this).symm

theorem handleReqLeave_keyed (h : Keyed s) (session : Nat) (playerId : Int32) :
    Keyed (s.handleReqLeave session playerId) := by
  obtain ⟨hmembers, hplayers, -, hcreated⟩ := handleReqLeave_spec s session playerId
  refine ⟨?_, fun entry hentry => ?_, fun entry hentry => ?_⟩
  · rw [hmembers]
    exact h.keys.sublist (List.filter_sublist.map _)
  · obtain ⟨hold, hkey⟩ : entry ∈ s.members ∧ entry.1 ≠ keyOf playerId := by simpa [hmembers] using hentry
    rw [hplayers _ (stays_iff h hold hkey)]
    exact h.key entry hold
  · obtain ⟨hold, -⟩ : entry ∈ s.members ∧ entry.1 ≠ keyOf playerId := by simpa [hmembers] using hentry
    rw [hcreated]
    exact h.fresh entry hold

theorem step_cases {e : RoomEvent} (hs : step kind s e = some s') :
    (e = .connect ∧ s' = { s with connected := s.connected + 1 }) ∨
    (∃ session playerId, e = .enter session playerId ∧ session < s.connected ∧
      s' = s.handleReqEnter session playerId) ∨
    (∃ session playerId, e = .leave session playerId ∧ session < s.connected ∧
      s' = s.handleReqLeave session playerId) ∨
    (∃ session message, e = .chat session message ∧ s' = s.handleReqChat kind message) ∨
    (∃ session, e = .close session ∧ session < s.connected ∧ s' = s.close session) := by
  cases e with
  | connect =>
    left
    exact ⟨rfl, (Option.some.inj hs).symm⟩
  | enter session playerId =>
    obtain ⟨hlt, rfl⟩ := by simpa [step] using hs
    right; left
    exact ⟨session, playerId, rfl, hlt, rfl⟩
  | leave session playerId =>
    obtain ⟨hlt, rfl⟩ := by simpa [step] using hs
    right; right; left
    exact ⟨session, playerId, rfl, hlt, rfl⟩
  | chat session message =>
    obtain ⟨-, rfl⟩ := by simpa [step] using hs
    right; right; right; left
    exact ⟨session, message, rfl, rfl⟩
  | close session =>
    obtain ⟨hlt, rfl⟩ := by simpa [step] using hs
    right; right; right; right
    exact ⟨session, rfl, hlt, rfl⟩

theorem step_keyed {e : RoomEvent} (h : Keyed s) (hs : step kind s e = some s') : Keyed s' := by
  obtain ⟨rfl, rfl⟩ | ⟨session, playerId, rfl, -, rfl⟩ | ⟨session, playerId, rfl, -, rfl⟩ |
    ⟨session, message, rfl, rfl⟩ | ⟨session, rfl, -, rfl⟩ := step_cases hs
  · exact h.of_eq rfl rfl rfl
  · exact handleReqEnter_keyed h session playerId
  · exact handleReqLeave_keyed h session playerId
  · exact h.of_eq rfl rfl rfl
  · exact h.of_eq rfl rfl rfl

/-! ## Orderly steps -/

theorem Tied.owns {entry : UInt64 × Nat} {session : Nat} (h : s.Tied entry.1 entry.2 session)
    (hentry : entry ∈ s.members) : s.Owns session := ⟨entry, hentry, h.owner⟩

/-- Entries that are tied to their sessions are all that the rest asks for. -/
theorem follows_of_tied (h : Keyed s) (htied : ∀ entry ∈ s.members, ∃ session, s.Tied entry.1 entry.2 session) :
    Follows kind s := by
  have hone : ∀ e₁ ∈ s.members, ∀ e₂ ∈ s.members, s.owner e₁.2 = s.owner e₂.2 → e₁ = e₂ := by
    intro e₁ h₁ e₂ h₂ howner
    obtain ⟨c₁, ht₁⟩ := htied e₁ h₁
    obtain ⟨c₂, ht₂⟩ := htied e₂ h₂
    have hc : c₁ = c₂ := by
      rw [ht₁.owner, ht₂.owner] at howner
      exact Option.some.inj howner
    subst hc
    have hplayer := ht₁.player
    rw [ht₂.player] at hplayer
    exact h.eq_of_player h₁ h₂ (Option.some.inj hplayer).symm
  refine ⟨htied, hone, fun player hclosed => ?_, ?_⟩
  · apply (enterPlayer_spec s player).2.2.2.2.mpr
    rw [find_eq_none_iff]
    intro entry hentry hkey
    obtain ⟨session, ht⟩ := htied entry hentry
    have hopen := ht.isOpen
    rw [hclosed entry hentry hkey session ht.owner] at hopen
    cases hopen
  · cases kind with
    | gameRoom => exact List.nodup_nil
    | chatRoom =>
      refine List.pairwise_filterMap.mpr ?_
      have hdistinct : s.members.Nodup := List.Nodup.of_map _ h.keys
      refine hdistinct.imp_of_mem ?_
      intro e₁ e₂ h₁ h₂ hne c₁ hc₁ c₂ hc₂ heq
      refine hne (hone e₁ h₁ e₂ h₂ ?_)
      rw [owner, owner, hc₁, hc₂, heq]

theorem Tied.frame {entry : UInt64 × Nat} {session other : Nat} (h : s.Tied entry.1 entry.2 other)
    (hkey : (s'.players entry.2).playerId = (s.players entry.2).playerId)
    (howner : s'.owner entry.2 = s.owner entry.2) {x : RoomSession}
    (hsessions : s'.sessions = Function.update s.sessions session x) (hne : other ≠ session) :
    s'.Tied entry.1 entry.2 other where
  key := hkey ▸ h.key
  owner := howner.trans h.owner
  isOpen := by rw [hsessions, Function.update_of_ne hne, h.isOpen]
  player := by rw [hsessions, Function.update_of_ne hne, h.player]

theorem handleReqEnter_tied (h : Keyed s) (hf : Follows kind s) {session : Nat} {playerId : Int32}
    (howns : ¬s.Owns session)
    (hopen : (s.sessions session).isOpen = true ∨ s.find (keyOf playerId) ≠ none) :
    ∀ entry ∈ (s.handleReqEnter session playerId).members,
      ∃ other, (s.handleReqEnter session playerId).Tied entry.1 entry.2 other := by
  obtain ⟨hmembers, hids, howner, hsessions, -⟩ := handleReqEnter_spec s session playerId
  intro entry hentry
  rw [hmembers, List.mem_append] at hentry
  rcases hentry with hentry | hentry
  · obtain ⟨other, ht⟩ := hf.tied entry hentry
    have hold : entry.2 ≠ s.created := Nat.ne_of_lt (h.fresh entry hentry)
    refine ⟨other, ht.frame (by rw [hids, if_neg hold]) (by rw [howner, if_neg hold]) hsessions ?_⟩
    rintro rfl
    exact howns (ht.owns hentry)
  · split at hentry
    · rename_i hfree
      obtain rfl := List.mem_singleton.mp hentry
      have hsession : (s.sessions session).isOpen = true := hopen.resolve_right (not_not.mpr hfree)
      exact ⟨session, by rw [hids, if_pos rfl], by rw [howner, if_pos rfl],
        by rw [hsessions, Function.update_self, hsession], by rw [hsessions, Function.update_self]⟩
    · cases hentry

theorem handleReqLeave_tied (h : Keyed s) (hf : Follows kind s) {session : Nat} {playerId : Int32}
    (hown : ∀ entry ∈ s.members, s.owner entry.2 = some session → entry.1 = keyOf playerId) :
    ∀ entry ∈ (s.handleReqLeave session playerId).members,
      ∃ other, (s.handleReqLeave session playerId).Tied entry.1 entry.2 other := by
  obtain ⟨hmembers, hplayers, hsessions, -⟩ := handleReqLeave_spec s session playerId
  intro entry hentry
  obtain ⟨hold, hkey⟩ : entry ∈ s.members ∧ entry.1 ≠ keyOf playerId := by simpa [hmembers] using hentry
  obtain ⟨other, ht⟩ := hf.tied entry hold
  have hsame := hplayers _ (stays_iff h hold hkey)
  refine ⟨other, ht.frame (by rw [hsame]) (by rw [owner, hsame, owner]) hsessions ?_⟩
  rintro rfl
  exact hkey (hown entry hold ht.owner)

theorem step_orderly {e : RoomEvent} (h : Keyed s) (hf : Follows kind s) (ho : Orderly s e)
    (hs : step kind s e = some s') : Follows kind s' := by
  refine follows_of_tied (step_keyed h hs) ?_
  obtain ⟨rfl, rfl⟩ | ⟨session, playerId, rfl, hlt, rfl⟩ | ⟨session, playerId, rfl, hlt, rfl⟩ |
    ⟨session, message, rfl, rfl⟩ | ⟨session, rfl, hlt, rfl⟩ := step_cases hs
  · intro entry hentry
    obtain ⟨other, ht⟩ := hf.tied entry hentry
    exact ⟨other, ht.key, ht.owner, ht.isOpen, ht.player⟩
  · obtain ⟨howns, hopen⟩ := ho hlt
    exact handleReqEnter_tied h hf howns hopen
  · exact handleReqLeave_tied h hf (ho hlt)
  · intro entry hentry
    obtain ⟨other, ht⟩ := hf.tied entry hentry
    exact ⟨other, ht.key, ht.owner, ht.isOpen, ht.player⟩
  · intro entry hentry
    obtain ⟨other, ht⟩ := hf.tied entry hentry
    refine ⟨other, ht.frame rfl rfl rfl ?_⟩
    rintro rfl
    exact ho hlt (ht.owns hentry)

/-! ## Steps that are not -/

theorem enter_breaks {session : Nat} {playerId : Int32} (h : Keyed s)
    (hbad : s.Owns session ∨ (s.sessions session).isOpen = false ∧ s.find (keyOf playerId) = none) :
    ¬Follows kind (s.handleReqEnter session playerId) := by
  obtain ⟨hmembers, -, howner, hsessions, -⟩ := handleReqEnter_spec s session playerId
  intro hf
  rcases hbad with ⟨entry, hentry, howns⟩ | ⟨hclosed, hfree⟩
  · have hold : entry.2 ≠ s.created := Nat.ne_of_lt (h.fresh entry hentry)
    obtain ⟨other, ht⟩ := hf.tied entry (by rw [hmembers]; exact List.mem_append_left _ hentry)
    have hother := ht.owner
    rw [howner, if_neg hold, howns] at hother
    obtain rfl := Option.some.inj hother
    have hplayer := ht.player
    rw [hsessions, Function.update_self] at hplayer
    exact hold (Option.some.inj hplayer).symm
  · obtain ⟨other, ht⟩ := hf.tied (keyOf playerId, s.created) (by simp [hmembers, hfree])
    have hother := ht.owner
    rw [howner, if_pos rfl] at hother
    obtain rfl := Option.some.inj hother
    have hopen := ht.isOpen
    rw [hsessions, Function.update_self, hclosed] at hopen
    cases hopen

theorem leave_breaks {session : Nat} {playerId : Int32} (h : Keyed s) {entry : UInt64 × Nat}
    (hentry : entry ∈ s.members) (howns : s.owner entry.2 = some session) (hkey : entry.1 ≠ keyOf playerId) :
    ¬Follows kind (s.handleReqLeave session playerId) := by
  obtain ⟨hmembers, hplayers, hsessions, -⟩ := handleReqLeave_spec s session playerId
  intro hf
  obtain ⟨other, ht⟩ := hf.tied entry (by simpa [hmembers] using ⟨hentry, hkey⟩)
  have hother := ht.owner
  rw [owner, hplayers _ (stays_iff h hentry hkey)] at hother
  obtain rfl := Option.some.inj (hother.symm.trans howns)
  have hplayer := ht.player
  rw [hsessions, Function.update_self] at hplayer
  cases hplayer

theorem close_breaks {session : Nat} (howns : s.Owns session) : ¬Follows kind (s.close session) := by
  obtain ⟨entry, hentry, howner⟩ := howns
  intro hf
  obtain ⟨other, ht⟩ := hf.tied entry hentry
  obtain rfl := Option.some.inj (ht.owner.symm.trans howner)
  have hopen := ht.isOpen
  simp [close] at hopen

theorem step_breaks {e : RoomEvent} (h : Keyed s) (hnot : ¬Orderly s e) :
    ∃ s', step kind s e = some s' ∧ ¬Follows kind s' := by
  cases e with
  | connect => exact absurd trivial hnot
  | chat session message => exact absurd trivial hnot
  | enter session playerId =>
    obtain ⟨hlt, hbad⟩ := Classical.not_imp.mp hnot
    refine ⟨s.handleReqEnter session playerId, if_pos hlt, enter_breaks h ?_⟩
    rw [not_and_or, not_not, not_or, not_not, Bool.not_eq_true] at hbad
    exact hbad
  | leave session playerId =>
    obtain ⟨hlt, hbad⟩ := Classical.not_imp.mp hnot
    push Not at hbad
    obtain ⟨entry, hentry, howns, hkey⟩ := hbad
    exact ⟨s.handleReqLeave session playerId, if_pos hlt, leave_breaks h hentry howns hkey⟩
  | close session =>
    obtain ⟨hlt, hbad⟩ := Classical.not_imp.mp hnot
    exact ⟨s.close session, if_pos hlt, close_breaks (not_not.mp hbad)⟩

/-! ## Every run -/

/-- The room follows the sessions in every state of a run, if and only if the run is orderly. -/
theorem room_follows_iff (kind : RoomKind) (es : List RoomEvent) :
    (∀ sofar, sofar <+: es → ∀ t, run (step kind) {} sofar = some t → Follows kind t) ↔
      Along (step kind) Orderly {} es := by
  have hkeyed : Keyed {} := ⟨List.nodup_nil, by simp, by simp⟩
  refine always_iff_along (I := fun s => Keyed s ∧ Follows kind s) (fun _ h => h.2) ?_ ?_
    ⟨hkeyed, follows_of_tied hkeyed (by simp)⟩ es
  · rintro s e s' ⟨h, hf⟩ ho hs
    exact ⟨step_keyed h hs, step_orderly h hf ho hs⟩
  · rintro s e ⟨h, -⟩ hnot
    exact step_breaks h hnot

/-- The session of a member closes, and its id cannot enter from another session. -/
def closingEvents : List RoomEvent := [.connect, .enter 0 7, .close 0, .connect, .enter 1 7]

theorem closing_member_stays (kind : RoomKind) : ∃ t, run (step kind) {} closingEvents = some t ∧
    t.members = [(7, 0)] ∧ t.owner 0 = some 0 ∧ (t.sessions 0).isOpen = false ∧
    t.sent = [(0, .enter true), (1, .enter false)] ∧ ¬Follows kind t := by
  refine ⟨_, rfl, rfl, rfl, rfl, rfl, fun hf => ?_⟩
  obtain ⟨other, ht⟩ := hf.tied (7, 0) List.mem_cons_self
  obtain rfl : 0 = other := Option.some.inj ht.owner
  cases ht.isOpen

theorem rooms_keep_closed_sessions :
    (∃ t, run (step .gameRoom) {} closingEvents = some t ∧ ¬Follows .gameRoom t) ∧
    (∃ t, run (step .chatRoom) {} closingEvents = some t ∧ ¬Follows .chatRoom t) := by
  obtain ⟨t, ht, -, -, -, -, hgame⟩ := closing_member_stays .gameRoom
  obtain ⟨u, hu, -, -, -, -, hchat⟩ := closing_member_stays .chatRoom
  exact ⟨⟨t, ht, hgame⟩, ⟨u, hu, hchat⟩⟩

end Room

end Game
