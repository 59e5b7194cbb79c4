import J1Server.Core.Link
import J1Server.Game.Room

/-! # The chat

The room of the ChatServer next to the connections of its sessions. The server runs on one thread: the
loop of `Broadcast` is over before the next request is handled. -/

namespace Game

open Lib Core

def RoomResponse.code : RoomResponse → Int16
  | .enter _ => 1
  | .leave _ => 3
  | .chat _ => 5

/-- A message comes in a packet. -/
def RoomResponse.Small : RoomResponse → Prop
  | .chat message => message.utf8ByteSize ≤ 32767
  | .enter _ | .leave _ => True

instance : (r : RoomResponse) → Decidable r.Small
  | .chat message => inferInstanceAs (Decidable (message.utf8ByteSize ≤ 32767))
  | .enter _ | .leave _ => isTrue trivial

/-- The responses that are sent under a code. -/
abbrev ChatMsg (code : Int16) : Type := { r : RoomResponse // r.code = code ∧ r.Small }

def RoomResponse.packet? (r : RoomResponse) : Option (Packet ChatMsg) :=
  if h : r.Small then some ⟨r.code, ⟨r, rfl, h⟩⟩ else none

def RoomResponse.message? : RoomResponse → Option String
  | .chat message => some message
  | .enter _ | .leave _ => none

/-- `log` has every message that was broadcast, and the sessions of the members at that time. -/
structure ChatServer where
  room : Room := {}
  links : Nat → Link ChatMsg := fun _ => {}
  log : List (String × List Nat) := []

inductive ChatEvent
  | room (e : RoomEvent)
  | link (i : Nat) (e : LinkEvent ChatMsg)

variable (P : ∀ code, Protobuf (ChatMsg code))

/-- What the room sends is all that a connection is offered. -/
def networkOnly : LinkEvent ChatMsg → Bool
  | .offer _ _ => false
  | .ended _ _ | .handler _ | .close | .carry _ | .hangUp => true

def InPacket : RoomEvent → Prop
  | .chat _ message => message.utf8ByteSize ≤ 32767
  | .connect | .enter _ _ | .leave _ _ | .close _ => True

instance : (e : RoomEvent) → Decidable (InPacket e)
  | .chat _ message => inferInstanceAs (Decidable (message.utf8ByteSize ≤ 32767))
  | .connect | .enter _ _ | .leave _ _ | .close _ => isTrue trivial

def Room.sentTo (s : Room) (i : Nat) : List RoomResponse := (s.sent.filter (·.1 = i)).map Prod.snd

namespace ChatServer

def broadcasts (s : ChatServer) : RoomEvent → List (String × List Nat)
  | .chat _ message => [(message, s.room.broadcast .chatRoom)]
  | _ => []

def step (s : ChatServer) : ChatEvent → Option ChatServer
  | .room e =>
    if InPacket e then
      (s.room.step .chatRoom e).map fun room =>
        let sent : Room := { room with sent := room.sent.drop s.room.sent.length }
        { room := room
          links := fun i => ((sent.sentTo i).filterMap RoomResponse.packet?).foldl (Link.offer P) (s.links i)
          log := s.log ++ s.broadcasts e }
    else none
  | .link i e =>
    if networkOnly e then
      ((s.links i).step P e).map fun link => { s with links := Function.update s.links i link }
    else none

/-- The messages that the client of a session was given. -/
def received (s : ChatServer) (i : Nat) : List String :=
  (s.links i).peer.state.filterMap fun d => d.2.bind fun r => r.val.message?

/-- A message for each member of the session at the time of the broadcast. -/
def addressed (s : ChatServer) (i : Nat) : List String :=
  s.log.flatMap fun b => List.replicate (b.2.count i) b.1

/-- A session that has a member in the room does not enter again, or it is refused. -/
def EntersOnce (s : ChatServer) : ChatEvent → Prop
  | .room (.enter session playerId) => s.room.find (keyOf playerId) = none → ¬s.room.Owns session
  | .room _ | .link _ _ => True

instance (s : ChatServer) : (e : ChatEvent) → Decidable (s.EntersOnce e)
  | .room (.enter session playerId) =>
    inferInstanceAs (Decidable (s.room.find (keyOf playerId) = none →
      ¬∃ entry ∈ s.room.members, s.room.owner entry.2 = some session))
  | .room .connect | .room (.leave _ _) | .room (.chat _ _) | .room (.close _) | .link _ _ => isTrue trivial

structure Broadcasting (s : ChatServer) : Prop where
  links : ∀ i, ∃ es, run (Link.step P) {} es = some (s.links i)
  small : ∀ x ∈ s.room.sent, x.2.Small
  offered : ∀ i, (s.links i).offered = (s.room.sentTo i).filterMap RoomResponse.packet?
  chats : ∀ i, (s.room.sentTo i).filterMap RoomResponse.message? = s.addressed i

end ChatServer

/-! ## What a step of the room sends -/

namespace Room

variable {s s' : Room} {kind : RoomKind} {e : RoomEvent}

theorem sentTo_append {sent : List (Nat × RoomResponse)} (h : s'.sent = s.sent ++ sent) (i : Nat) :
    s'.sentTo i = s.sentTo i ++ ({ s' with sent := sent } : Room).sentTo i := by
  simp [sentTo, h]

/-- What is sent, and it is no message. -/
def Answers (s s' : Room) : Prop := ∃ sent, s'.sent = s.sent ++ sent ∧ ∀ x ∈ sent, x.2.message? = none

theorem small_of_message?_eq_none {r : RoomResponse} (h : r.message? = none) : r.Small := by
  cases r with
  | chat message => cases h
  | enter | leave => trivial

theorem sendPacket_answers (s : Room) (session : Option Nat) (pkt : RoomResponse) (hpkt : pkt.message? = none) :
    s.Answers (s.sendPacket session pkt) := by
  cases session with
  | none => exact ⟨[], by simp [sendPacket], by simp⟩
  | some session => exact ⟨[(session, pkt)], rfl, by simpa using hpkt⟩

theorem enterPlayer_sent (s : Room) (player : Nat) : (s.enterPlayer player).1.sent = s.sent := by
  unfold enterPlayer
  dsimp only
  split <;> rfl

theorem handleReqEnter_answers (s : Room) (session : Nat) (playerId : Int32) :
    s.Answers (s.handleReqEnter session playerId) := by
  obtain ⟨sent, hsent, hnone⟩ := sendPacket_answers ((s.createPlayer session playerId).enterPlayer s.created).1
    (((s.createPlayer session playerId).enterPlayer s.created).1.players s.created).session
    (.enter ((s.createPlayer session playerId).enterPlayer s.created).2) rfl
  refine ⟨sent, hsent.trans ?_, hnone⟩
  rw [enterPlayer_sent]
  rfl

theorem leavePlayer_answers (s : Room) (playerId : Int32) : s.Answers (s.leavePlayer playerId).1 := by
  unfold leavePlayer
  dsimp only
  split
  · exact ⟨[], by simp, by simp⟩
  · rename_i player hfind
    obtain ⟨sent, hsent, hnone⟩ := sendPacket_answers
      ({ s with players := Function.update s.players player { s.players player with room := false } } : Room)
      (s.players player).session (.leave true) rfl
    exact ⟨sent, by simpa using hsent, hnone⟩

/-- A request is answered with what is no message. -/
theorem step_sent (hs : s.step kind e = some s') :
    (∃ session message, e = .chat session message ∧
      s'.sent = s.sent ++ (s.broadcast kind).map (·, .chat message)) ∨
    (∀ session message, e ≠ .chat session message) ∧ s.Answers s' := by
  obtain ⟨rfl, rfl⟩ | ⟨session, playerId, rfl, -, rfl⟩ | ⟨session, playerId, rfl, -, rfl⟩ |
    ⟨session, message, rfl, rfl⟩ | ⟨session, rfl, -, rfl⟩ := step_cases hs
  · right
    exact ⟨by simp, [], by simp, by simp⟩
  · right
    exact ⟨by simp, handleReqEnter_answers s session playerId⟩
  · right
    exact ⟨by simp, leavePlayer_answers _ playerId⟩
  · left
    exact ⟨session, message, rfl, rfl⟩
  · right
    exact ⟨by simp, [], by simp [close], by simp⟩

theorem step_sent_grows (hs : s.step kind e = some s') : ∃ sent, s'.sent = s.sent ++ sent := by
  obtain ⟨session, message, -, hsent⟩ | ⟨-, sent, hsent, -⟩ := step_sent hs
  · exact ⟨_, hsent⟩
  · exact ⟨sent, hsent⟩

/-! ## Who is sent a message -/

theorem mem_broadcast {session : Nat} : session ∈ s.broadcast .chatRoom ↔ s.Owns session := List.mem_filterMap

theorem handleReqEnter_broadcast (h : Keyed s) (session : Nat) (playerId : Int32) :
    (s.handleReqEnter session playerId).broadcast .chatRoom =
      s.broadcast .chatRoom ++ if s.find (keyOf playerId) = none then [session] else [] := by
  obtain ⟨hmembers, -, howner, -, -⟩ := handleReqEnter_spec s session playerId
  change (s.handleReqEnter session playerId).members.filterMap
    (fun entry => (s.handleReqEnter session playerId).owner entry.2) = _
  rw [hmembers, List.filterMap_append]
  congr 1
  · refine List.filterMap_congr fun entry hentry => ?_
    rw [howner, if_neg (Nat.ne_of_lt (h.fresh entry hentry))]
    rfl
  · split
    · simp [howner]
    · rfl

theorem handleReqLeave_broadcast (h : Keyed s) (session : Nat) (playerId : Int32) :
    ((s.handleReqLeave session playerId).broadcast .chatRoom).Sublist (s.broadcast .chatRoom) := by
  obtain ⟨hmembers, hplayers, -, -⟩ := handleReqLeave_spec s session playerId
  have hstay : (s.handleReqLeave session playerId).broadcast .chatRoom =
      (s.members.filter (·.1 ≠ keyOf playerId)).filterMap fun entry => s.owner entry.2 := by
    change (s.handleReqLeave session playerId).members.filterMap
      (fun entry => (s.handleReqLeave session playerId).owner entry.2) = _
    rw [hmembers]
    refine List.filterMap_congr fun entry hentry => ?_
    obtain ⟨hold, hkey⟩ : entry ∈ s.members ∧ entry.1 ≠ keyOf playerId := by simpa using hentry
    rw [owner, hplayers _ (stays_iff h hold hkey)]
    rfl
  rw [hstay]
  exact List.filter_sublist.filterMap _

end Room

/-! ## One step of the server -/

namespace ChatServer

variable {P} {s s' : ChatServer} {e : ChatEvent}

theorem step_cases (hs : step P s e = some s') :
    (∃ event room sent, e = .room event ∧ InPacket event ∧ s.room.step .chatRoom event = some room ∧
      room.sent = s.room.sent ++ sent ∧ s'.room = room ∧ s'.log = s.log ++ s.broadcasts event ∧
      ∀ i, s'.links i =
        ((({ room with sent := sent } : Room).sentTo i).filterMap RoomResponse.packet?).foldl (Link.offer P)
          (s.links i)) ∨
    (∃ i event link, e = .link i event ∧ networkOnly event = true ∧ (s.links i).step P event = some link ∧
      s' = { s with links := Function.update s.links i link }) := by
  cases e with
  | room event =>
    left
    obtain ⟨hpacket, hs⟩ := Option.ite_none_right_eq_some.mp hs
    obtain ⟨room, hroom, rfl⟩ := Option.map_eq_some_iff.mp hs
    obtain ⟨sent, hsent⟩ := Room.step_sent_grows hroom
    refine ⟨event, room, sent, rfl, hpacket, hroom, hsent, rfl, rfl, fun i => ?_⟩
    simp only [hsent, List.drop_left]
  | link i event =>
    right
    obtain ⟨hnetwork, hs⟩ := Option.ite_none_right_eq_some.mp hs
    obtain ⟨link, hlink, rfl⟩ := Option.map_eq_some_iff.mp hs
    exact ⟨i, event, link, rfl, hnetwork, hlink, rfl⟩

theorem offered_network {l l' : Link ChatMsg} {event : LinkEvent ChatMsg} (hnetwork : networkOnly event = true)
    (hs : l.step P event = some l') : l'.offered = l.offered := by
  cases event with
  | offer p shared => cases hnetwork
  | ended | handler | close =>
    obtain ⟨stream, -, rfl⟩ := Link.sending_eq hs
    exact List.append_nil _
  | carry bytes =>
    obtain ⟨-, hl'⟩ := Option.ite_none_right_eq_some.mp hs
    obtain rfl := Option.some.inj hl'
    rfl
  | hangUp =>
    obtain rfl := Option.some.inj hs
    rfl

theorem broadcast_messages (sessions : List Nat) (message : String) (i : Nat) :
    (((sessions.map (·, RoomResponse.chat message)).filter (·.1 = i)).map Prod.snd).filterMap
      RoomResponse.message? = List.replicate (sessions.count i) message := by
  induction sessions with
  | nil => rfl
  | cons session sessions ih =>
    by_cases hi : session = i
    · subst hi
      simpa [List.replicate_succ, RoomResponse.message?] using ih
    · simpa [hi] using ih

theorem chats_step (h : ∀ i, (s.room.sentTo i).filterMap RoomResponse.message? = s.addressed i) {event : RoomEvent}
    {room : Room} (hroom : s.room.step .chatRoom event = some room) (i : Nat) :
    (room.sentTo i).filterMap RoomResponse.message? =
      (s.log ++ s.broadcasts event).flatMap fun b => List.replicate (b.2.count i) b.1 := by
  rw [List.flatMap_append, ← addressed, ← h i]
  obtain ⟨session, message, rfl, hsent⟩ | ⟨hno, sent, hsent, hnone⟩ := Room.step_sent hroom
  · have hnew := broadcast_messages (s.room.broadcast .chatRoom) message i
    rw [Room.sentTo_append hsent, List.filterMap_append]
    simpa [broadcasts, Room.sentTo] using hnew
  · have hquiet : s.broadcasts event = [] := by
      cases event with
      | chat session message => exact absurd rfl (hno session message)
      | connect | enter | leave | close => rfl
    have hnew : (({ room with sent := sent } : Room).sentTo i).filterMap RoomResponse.message? = [] := by
      simp only [Room.sentTo, List.filterMap_map, List.filterMap_eq_nil_iff]
      intro x hx
      exact hnone x (List.mem_of_mem_filter hx)
    rw [Room.sentTo_append hsent, List.filterMap_append, hnew, hquiet]
    simp

theorem small_step (h : ∀ x ∈ s.room.sent, x.2.Small) {event : RoomEvent} (hpacket : InPacket event) {room : Room}
    (hroom : s.room.step .chatRoom event = some room) : ∀ x ∈ room.sent, x.2.Small := by
  obtain ⟨session, message, rfl, hsent⟩ | ⟨-, sent, hsent, hnone⟩ := Room.step_sent hroom
  · rw [hsent]
    intro x hx
    rcases List.mem_append.mp hx with hx | hx
    · exact h x hx
    · obtain ⟨i, -, rfl⟩ := List.mem_map.mp hx
      exact hpacket
  · rw [hsent]
    intro x hx
    rcases List.mem_append.mp hx with hx | hx
    · exact h x hx
    · exact Room.small_of_message?_eq_none (hnone x hx)

theorem step_broadcasting (h : Broadcasting P s) (hs : step P s e = some s') : Broadcasting P s' := by
  obtain ⟨event, room, sent, rfl, hpacket, hroom, hsent, rfl, hlog, hlinks⟩ |
    ⟨i, event, link, rfl, hnetwork, hlink, rfl⟩ := step_cases hs
  · refine ⟨fun i => ?_, small_step h.small hpacket hroom, fun i => ?_, fun i => ?_⟩
    · obtain ⟨es, hes⟩ := h.links i
      exact ⟨_, run_append.mpr ⟨_, hes, by rw [hlinks]; exact Link.offers_run _ _⟩⟩
    · rw [hlinks, Link.offers_offered, h.offered, Room.sentTo_append hsent, List.filterMap_append]
    · rw [chats_step h.chats hroom, addressed, hlog]
  · refine ⟨fun j => ?_, h.small, fun j => ?_, h.chats⟩
    · by_cases hj : j = i
      · subst hj
        obtain ⟨es, hes⟩ := h.links j
        refine ⟨es ++ [event], run_append.mpr ⟨_, hes, ?_⟩⟩
        simp [hlink]
      · simpa [hj] using h.links j
    · by_cases hj : j = i
      · subst hj
        simpa using (offered_network hnetwork hlink).trans (h.offered j)
      · simpa [hj] using h.offered j

/-- No session has two members in the room, and no broadcast went to one twice. -/
structure OneEach (s : ChatServer) : Prop where
  keyed : s.room.Keyed
  members : (s.room.broadcast .chatRoom).Nodup
  log : ∀ b ∈ s.log, b.2.Nodup

theorem OneEach.members_step (h : OneEach s) {event : RoomEvent} (ho : s.EntersOnce (.room event)) {room : Room}
    (hroom : s.room.step .chatRoom event = some room) : (room.broadcast .chatRoom).Nodup := by
  obtain ⟨rfl, rfl⟩ | ⟨session, playerId, rfl, -, rfl⟩ | ⟨session, playerId, rfl, -, rfl⟩ |
    ⟨session, message, rfl, rfl⟩ | ⟨session, rfl, -, rfl⟩ := Room.step_cases hroom
  · exact h.members
  · rw [Room.handleReqEnter_broadcast h.keyed]
    split
    · rename_i hfree
      have hnew : session ∉ s.room.broadcast .chatRoom := fun hin => ho hfree (Room.mem_broadcast.mp hin)
      refine List.nodup_append.mpr ⟨h.members, List.nodup_singleton _, ?_⟩
      rintro c hc c' hc' rfl
      exact hnew (List.mem_singleton.mp hc' ▸ hc)
    · simpa using h.members
  · exact h.members.sublist (Room.handleReqLeave_broadcast h.keyed session playerId)
  · exact h.members
  · exact h.members

theorem step_oneEach (h : OneEach s) (ho : s.EntersOnce e) (hs : step P s e = some s') : OneEach s' := by
  obtain ⟨event, room, sent, rfl, -, hroom, -, rfl, hlog, -⟩ | ⟨i, event, link, rfl, -, -, rfl⟩ := step_cases hs
  · refine ⟨Room.step_keyed h.keyed hroom, h.members_step ho hroom, fun b hb => ?_⟩
    rw [hlog, List.mem_append] at hb
    rcases hb with hb | hb
    · exact h.log b hb
    · cases event with
      | chat session message =>
        obtain rfl := List.mem_singleton.mp hb
        exact h.members
      | connect | enter | leave | close => cases hb
  · exact ⟨h.keyed, h.members, h.log⟩

theorem addressed_sublist (hone : ∀ b ∈ s.log, b.2.Nodup) (i : Nat) : (s.addressed i).Sublist (s.log.map Prod.fst) := by
  unfold addressed
  obtain ⟨room, links, log⟩ := s
  induction log with
  | nil => exact .slnil
  | cons b log ih =>
    obtain ⟨hb, hlog⟩ := List.forall_mem_cons.mp hone
    have hcount : b.2.count i ≤ 1 := List.nodup_iff_count_le_one.mp hb i
    have hfirst : (List.replicate (b.2.count i) b.1).Sublist [b.1] :=
      (List.replicate_sublist_replicate b.1).mpr hcount
    exact hfirst.append (ih hlog)

/-- The messages among the packets that a connection was offered. -/
theorem offered_messages (h : Broadcasting P s) (i : Nat) :
    ((s.links i).offered.map handed).filterMap (fun d => d.2.bind fun r => r.val.message?) = s.addressed i := by
  rw [h.offered, ← h.chats, List.filterMap_map, List.filterMap_filterMap]
  refine List.filterMap_congr fun r hr => ?_
  obtain ⟨x, hx, rfl⟩ := List.mem_map.mp hr
  have hsmall := h.small x (List.mem_of_mem_filter hx)
  simp [RoomResponse.packet?, hsmall, handed]

/-! ## Every run -/

/-- Every run: there is one order of the messages, and what the client of a session was given is the first
part of what was addressed to it, in that order, wherever its connection broke off; whenever both of its
ends are open and nothing is on the way, it is all of it. If no session is let in while it has a member in the
room, no client is given a message twice. -/
theorem chat_in_one_order (hP : ∀ code, (P code).Lawful) {es : List ChatEvent} {t : ChatServer}
    (h : run (step P) {} es = some t) (i : Nat)
    (hfits : ∀ p ∈ (t.links i).offered, (P p.1).byteSizeLong p.2 ≤ 32767) :
    t.received i <+: t.addressed i ∧
    (Link.Settled (t.links i) → t.received i = t.addressed i) ∧
    (Along (step P) EntersOnce {} es → (t.received i).Sublist (t.log.map Prod.fst)) := by
  have hb : Broadcasting P t :=
    run_invariant (fun _ _ _ => step_broadcasting) ⟨fun i => ⟨[], rfl⟩, by simp, fun i => rfl, fun i => rfl⟩ h
  obtain ⟨fs, hfs⟩ := hb.links i
  have hlinked := Link.linked_run hP hfs
  have hmessages := offered_messages hb i
  have hpart : t.received i <+: t.addressed i := by
    rw [← hmessages]
    exact (hlinked.delivered hP hfits).filterMap _
  refine ⟨hpart, fun hs => ?_, fun ho => ?_⟩
  · rw [← hmessages, received, (hlinked.settled hP hs hfits).state]
  · have hone : OneEach t := by
      have hstart : OneEach {} := ⟨⟨List.nodup_nil, by simp, by simp⟩, List.nodup_nil, by simp⟩
      exact run_along (fun _ _ _ => step_oneEach) hstart ho h
    exact hpart.sublist.trans (addressed_sublist hone.log i)

/-! ## Messages given by their encoding -/

def encode : RoomResponse → List UInt8
  | .enter result | .leave result => if result then [8, 1] else []
  | .chat message => 26 :: UInt8.ofNat message.utf8ByteSize :: message.toByteArray.data.toList

theorem encode_inj {r r' : RoomResponse} (hcode : r.code = r'.code) (h : encode r = encode r') : r = r' := by
  cases r with
  | enter result =>
    cases r' with
    | enter result' => cases result <;> cases result' <;> first | rfl | cases h
    | leave result' | chat message' => cases hcode
  | leave result =>
    cases r' with
    | leave result' => cases result <;> cases result' <;> first | rfl | cases h
    | enter result' | chat message' => cases hcode
  | chat message =>
    cases r' with
    | enter result' | leave result' => cases hcode
    | chat message' =>
      simp only [encode, List.cons.injEq, true_and] at h
      have hbytes : message.toByteArray = message'.toByteArray := by
        rw [ByteArray.ext_iff, ← Array.toList_inj]
        exact h.2
      rw [String.toByteArray_inj.mp hbytes]

/-- What may have been encoded so. -/
def candidates (bs : List UInt8) : List RoomResponse :=
  [.enter true, .enter false, .leave true, .leave false] ++
    ((String.fromUTF8? ⟨(bs.drop 2).toArray⟩).map .chat).toList

def encoded (code : Int16) : Protobuf (ChatMsg code) where
  byteSizeLong r := (encode r.val).length
  serialized r := encode r.val
  parseFromArray bs :=
    ((candidates bs).find? fun r => r.code = code ∧ encode r = bs).bind fun r =>
      if h : r.code = code ∧ r.Small then some ⟨r, h⟩ else none

theorem mem_candidates (r : RoomResponse) : r ∈ candidates (encode r) := by
  cases r with
  | enter result | leave result => cases result <;> simp [candidates]
  | chat message =>
    have hdecoded : String.fromUTF8? message.toByteArray = some message := by
      simp only [String.fromUTF8?, message.isValidUTF8, dite_true]
      rfl
    simp [candidates, encode, hdecoded]

theorem encoded_lawful (code : Int16) : (encoded code).Lawful where
  limit r := by
    obtain ⟨r, hcode, hsmall⟩ := r
    cases r with
    | enter result | leave result => cases result <;> simp [encoded, encode]
    | chat message =>
      have hsmall : message.utf8ByteSize ≤ 32767 := hsmall
      have hsize : message.toByteArray.data.toList.length = message.utf8ByteSize := rfl
      simp only [encoded, encode, List.length_cons, hsize]
      omega
  length_serialized _ := rfl
  parse_serialized r := by
    obtain ⟨r, hcode, hsmall⟩ := r
    simp only [encoded]
    cases hfind : (candidates (encode r)).find? fun r' => r'.code = code ∧ encode r' = encode r with
    | none =>
      have hno := List.find?_eq_none.mp hfind r (mem_candidates r)
      simp [hcode] at hno
    | some r' =>
      have hfound := List.find?_some hfind
      simp only [decide_eq_true_eq] at hfound
      obtain rfl := encode_inj (hfound.1.trans hcode.symm) hfound.2
      simp [hcode, hsmall]

/-- Two members, one message. The first session asks to leave with an id that is not its own, and disconnects before
the message reaches its client; the second connection delivers it. -/
def chatEvents : List ChatEvent :=
  [.room .connect, .room .connect, .room (.enter 0 7), .room (.enter 1 9), .room (.leave 0 8),
    .link 1 (.ended 0 false), .link 1 (.handler 0), .room (.chat 0 "hi"), .link 0 .close, .room (.close 0),
    .link 1 (.carry [2, 0, 1, 0, 8]), .link 1 (.ended 0 false), .link 1 (.handler 0),
    .link 1 (.carry [1, 4, 0, 5, 0, 26, 2, 104, 105])]

theorem chat_in_one_order_sample : ∃ t, run (step encoded) {} chatEvents = some t ∧
    t.log = [("hi", [0, 1])] ∧ t.received 0 <+: ["hi"] ∧ t.received 1 = ["hi"] ∧
    ∀ i ∈ [0, 1], (t.received i).Sublist ["hi"] := by
  obtain ⟨t, ht, hlog, hsettled, hfits⟩ : ∃ t, run (step encoded) {} chatEvents = some t ∧
      t.log = [("hi", [0, 1])] ∧ Link.Settled (t.links 1) ∧
      ∀ i ∈ [0, 1], ∀ p ∈ (t.links i).offered, (encoded p.1).byteSizeLong p.2 ≤ 32767 := by
    refine ⟨_, rfl, rfl, ⟨rfl, by decide, rfl, rfl⟩, by decide⟩
  have honce : Along (step encoded) EntersOnce {} chatEvents := by decide
  have haddressed : ∀ i ∈ [0, 1], t.addressed i = ["hi"] := by
    simp only [addressed, hlog]
    decide
  refine ⟨t, ht, hlog, ?_, ?_, fun i hi => ?_⟩
  · rw [← haddressed 0 (by simp)]
    exact (chat_in_one_order encoded_lawful ht 0 (hfits 0 (by simp))).1
  · rw [← haddressed 1 (by simp)]
    exact (chat_in_one_order encoded_lawful ht 1 (hfits 1 (by simp))).2.1 hsettled
  · have hpart := (chat_in_one_order encoded_lawful ht i (hfits i hi)).2.2 honce
    rwa [hlog] at hpart

end ChatServer

end Game
