import J1Server.Core.Framing
import J1Server.Core.SendStream

/-! # A connection

One session sends packets, TCP carries what was handed to `async_write`, a few bytes at a time, and the
session at the other end reads. Either end may break off, in the middle of a packet too. -/

namespace Core

open Lib

variable {Msg : Int16 → Type}

structure Link (Msg : Int16 → Type) where
  stream : Stream := {}
  /-- The packets that `SendPacket` and `SendShared` were called with, accepted or not. -/
  offered : List (Packet Msg) := []
  received : List UInt8 := []
  peer : ReadLoop (List (Delivery Msg)) := { state := [] }

inductive LinkEvent (Msg : Int16 → Type)
  | offer (p : Packet Msg) (shared : Bool)
  | ended (k : Nat) (err : Bool)
  | handler (k : Nat)
  | close
  | carry (bytes : List UInt8)
  /-- The read of the peer ends with an error. -/
  | hangUp

variable (P : ∀ code, Protobuf (Msg code))

def frame (p : Packet Msg) : Buffer := sendPacket (P p.1) p.2 p.1

def sendEvent (p : Packet Msg) (shared : Bool) : SendEvent :=
  if shared then .sendShared (some (frame P p)) else .send (frame P p)

namespace Link

def sending (l : Link Msg) (e : SendEvent) (packets : List (Packet Msg)) : Option (Link Msg) :=
  (l.stream.step e).map fun stream => { l with stream := stream, offered := l.offered ++ packets }

/-- What was handed over may still arrive when the socket is closed, or when its write has failed. -/
def step (l : Link Msg) : LinkEvent Msg → Option (Link Msg)
  | .offer p shared => l.sending (sendEvent P p shared) [p]
  | .ended k err => l.sending (.ended k err) []
  | .handler k => l.sending (.handler k) []
  | .close => l.sending .close []
  | .carry bytes =>
    if l.received ++ bytes <+: l.stream.handed.flatten then
      some { l with received := l.received ++ bytes, peer := onEvent (deliver P) l.peer (.segment bytes) }
    else none
  | .hangUp => some { l with peer := onEvent (deliver P) l.peer .error }

/-- `SendPacket`. -/
def offer (l : Link Msg) (p : Packet Msg) : Link Msg :=
  { l with
    stream := l.stream.after (.send (frame P p)) (l.stream.queue.enqueueSend (frame P p))
    offered := l.offered ++ [p] }

/-- The peer has read all that came in, or it broke off after a part of it. -/
def Reading (l : Link Msg) : Prop :=
  l.peer = recv (deliver P) { state := [] } l.received ∨
  ∃ x, x <+: l.received ∧ l.peer = onEvent (deliver P) (recv (deliver P) { state := [] } x) .error

structure Linked (l : Link Msg) : Prop where
  inOrder : Stream.InOrder l.stream
  accepted : l.stream.queue.closed = false → l.stream.accepted = l.offered.map (frame P)
  handed : l.stream.handed <+: l.offered.map (frame P)
  received : l.received <+: l.stream.handed.flatten
  reading : Reading P l

variable {P} {l l' : Link Msg} {e : LinkEvent Msg}

/-- What the stream is given: the frame of a packet, or nothing that it could accept. -/
def Gives (P : ∀ code, Protobuf (Msg code)) (event : SendEvent) (packets : List (Packet Msg)) : Prop :=
  (∃ p shared, event = sendEvent P p shared ∧ packets = [p]) ∨
  packets = [] ∧ ∀ s : SendQueue, s.accepts event = []

theorem sending_eq {event : SendEvent} {packets : List (Packet Msg)} (hs : l.sending event packets = some l') :
    ∃ stream, l.stream.step event = some stream ∧
      l' = { l with stream := stream, offered := l.offered ++ packets } := by
  obtain ⟨stream, hstream, rfl⟩ := Option.map_eq_some_iff.mp hs
  exact ⟨stream, hstream, rfl⟩

/-- What an event says to the stream. -/
theorem step_cases (hs : step P l e = some l') :
    (∃ event packets stream, Gives P event packets ∧ l.stream.step event = some stream ∧
      l' = { l with stream := stream, offered := l.offered ++ packets }) ∨
    (∃ bytes, l.received ++ bytes <+: l.stream.handed.flatten ∧
      l' = { l with received := l.received ++ bytes, peer := recv (deliver P) l.peer bytes }) ∨
    l' = { l with peer := onEvent (deliver P) l.peer .error } := by
  cases e with
  | offer p shared =>
    left
    obtain ⟨stream, hstream, rfl⟩ := sending_eq hs
    exact ⟨_, _, stream, .inl ⟨p, shared, rfl, rfl⟩, hstream, rfl⟩
  | ended k err =>
    left
    obtain ⟨stream, hstream, rfl⟩ := sending_eq hs
    exact ⟨_, _, stream, .inr ⟨rfl, fun _ => rfl⟩, hstream, rfl⟩
  | handler k =>
    left
    obtain ⟨stream, hstream, rfl⟩ := sending_eq hs
    exact ⟨.handler k, _, stream, .inr ⟨rfl, fun _ => rfl⟩, hstream, rfl⟩
  | close =>
    left
    obtain ⟨stream, hstream, rfl⟩ := sending_eq hs
    exact ⟨_, _, stream, .inr ⟨rfl, fun _ => rfl⟩, hstream, rfl⟩
  | carry bytes =>
    right; left
    obtain ⟨hcarried, hl'⟩ := Option.ite_none_right_eq_some.mp hs
    exact ⟨bytes, hcarried, (Option.some.inj hl').symm⟩
  | hangUp =>
    right; right
    exact (Option.some.inj hs).symm

theorem offers_run (l : Link Msg) (packets : List (Packet Msg)) :
    run (step P) l (packets.map (.offer · false)) = some (packets.foldl (offer P) l) := by
  induction packets generalizing l with
  | nil => rfl
  | cons p packets ih =>
    rw [List.map_cons, run_cons_iff]
    exact ⟨l.offer P p, rfl, ih _⟩

theorem offers_offered (l : Link Msg) (packets : List (Packet Msg)) :
    (packets.foldl (offer P) l).offered = l.offered ++ packets := by
  induction packets generalizing l with
  | nil => simp
  | cons p packets ih => simp [ih, offer]

/-! ## The sending side -/

theorem frame_ne_nil (hP : ∀ code, (P code).Lawful) (p : Packet Msg) : frame P p ≠ [] := by
  intro h
  have hlength := congrArg List.length h
  rw [frame, sendPacket_eq (hP _)] at hlength
  simp [PacketHeader.bytes, bytesOfShort] at hlength

/-- A shared buffer goes the same way as one of its own. -/
theorem sendEvent_spec (hP : ∀ code, (P code).Lawful) (s : SendQueue) (p : Packet Msg) (shared : Bool) :
    s.step (sendEvent P p shared) = some (s.enqueueSend (frame P p)) ∧
    s.accepts (sendEvent P p shared) = (if s.sendQueue.length < maxSendQueue then [frame P p] else []) := by
  cases shared with
  | false => exact ⟨rfl, rfl⟩
  | true =>
    obtain ⟨b, data, hframe⟩ := List.exists_cons_of_ne_nil (frame_ne_nil hP p)
    simp only [sendEvent, if_true, hframe]
    exact ⟨rfl, rfl⟩

/-- A packet is accepted as a whole or not at all, and if the socket is still open afterwards, it was accepted. -/
theorem Gives.accepts (hP : ∀ code, (P code).Lawful) {event : SendEvent} {packets : List (Packet Msg)}
    (h : Gives P event packets) {s queue : SendQueue} (hs : s.step event = some queue) :
    s.accepts event <+: packets.map (frame P) ∧
    (queue.closed = false → s.accepts event = packets.map (frame P)) := by
  rcases h with ⟨p, shared, rfl, rfl⟩ | ⟨rfl, hnone⟩
  · obtain ⟨hstep, haccepts⟩ := sendEvent_spec hP s p shared
    obtain rfl : s.enqueueSend (frame P p) = queue := Option.some.inj (hstep.symm.trans hs)
    rw [haccepts]
    by_cases hroom : s.sendQueue.length < maxSendQueue
    · rw [if_pos hroom]
      exact ⟨List.prefix_rfl, fun _ => rfl⟩
    · rw [if_neg hroom]
      refine ⟨List.nil_prefix, fun hopen => ?_⟩
      simp [SendQueue.enqueueSend, Nat.not_lt.mp hroom, SendQueue.close] at hopen
  · rw [hnone]
    exact ⟨List.prefix_rfl, fun _ => rfl⟩

theorem sending_linked (hP : ∀ code, (P code).Lawful) (h : Linked P l) {event : SendEvent}
    {packets : List (Packet Msg)} (hgives : Gives P event packets) {stream : Stream}
    (hs : l.stream.step event = some stream) :
    Linked P { l with stream := stream, offered := l.offered ++ packets } := by
  have hinOrder := Stream.step_inOrder h.inOrder hs
  obtain ⟨queue, hq, rfl⟩ := Stream.step_eq hs
  obtain ⟨hpart, hall⟩ := hgives.accepts hP hq
  refine ⟨hinOrder, fun hopen => ?_, ?_, ?_, h.reading⟩
  · have hbefore : l.stream.queue.closed = false := by
      by_contra hclosed
      simp [Stream.queue_closed hq (by simpa using hclosed), Stream.after] at hopen
    simp only [Stream.after, List.map_append]
    rw [h.accepted hbefore, hall hopen]
  · cases hbefore : l.stream.queue.closed with
    | true =>
      rw [(Stream.step_closed hs hbefore).2.1, List.map_append]
      exact h.handed.trans (List.prefix_append ..)
    | false =>
      refine hinOrder.handed.trans ?_
      simp only [Stream.after, List.map_append, h.accepted hbefore]
      exact (List.prefix_append_right_inj _).mpr hpart
  · refine h.received.trans ?_
    simp only [Stream.after, List.flatten_append]
    exact List.prefix_append ..

/-! ## The reading side -/

theorem recv_error (r : ReadLoop (List (Delivery Msg))) (bytes : List UInt8) :
    recv (deliver P) (onEvent (deliver P) r .error) bytes = onEvent (deliver P) r .error := by
  refine recv_stopped (fun b => ?_) bytes
  simp only [onEvent]
  split
  · rename_i hphase
    simp only [recvByte, hphase]
  · rfl

theorem error_error (r : ReadLoop (List (Delivery Msg))) :
    onEvent (deliver P) (onEvent (deliver P) r .error) .error = onEvent (deliver P) r .error := by
  cases hphase : r.phase <;> simp [onEvent, hphase]

theorem error_state (r : ReadLoop (List (Delivery Msg))) : (onEvent (deliver P) r .error).state = r.state := by
  cases hphase : r.phase <;> simp [onEvent, hphase]

theorem step_linked (hP : ∀ code, (P code).Lawful) (h : Linked P l) (hs : step P l e = some l') :
    Linked P l' := by
  obtain ⟨event, packets, stream, hgives, hstream, rfl⟩ | ⟨bytes, hcarried, rfl⟩ | rfl := step_cases hs
  · exact sending_linked hP h hgives hstream
  · refine ⟨h.inOrder, h.accepted, h.handed, hcarried, ?_⟩
    rcases h.reading with hall | ⟨x, hx, hpeer⟩
    · left
      simp only [recv_append, hall]
    · right
      refine ⟨x, hx.trans (List.prefix_append ..), ?_⟩
      simp only [hpeer, recv_error]
  · refine ⟨h.inOrder, h.accepted, h.handed, h.received, ?_⟩
    right
    rcases h.reading with hall | ⟨x, hx, hpeer⟩
    · exact ⟨l.received, List.prefix_rfl, by simp only [hall]⟩
    · exact ⟨x, hx, by simp only [hpeer, error_error]⟩

/-! ## Both sides -/

theorem flatten_frames (packets : List (Packet Msg)) : (packets.map (frame P)).flatten = wire P packets :=
  (List.flatMap_def ..).symm

theorem wire_inStep (hP : ∀ code, (P code).Lawful) {packets : List (Packet Msg)}
    (hfits : ∀ p ∈ packets, (P p.1).byteSizeLong p.2 ≤ 32767) {r : ReadLoop (List (Delivery Msg))}
    {deliveries : List (Delivery Msg)} (h : InStep r deliveries) :
    InStep (recv (deliver P) r (wire P packets)) (deliveries ++ packets.map Core.handed) := by
  induction packets generalizing r deliveries with
  | nil => simpa [wire] using h
  | cons p packets ih =>
    obtain ⟨hp, hrest⟩ := List.forall_mem_cons.mp hfits
    have := ih hrest (h.packet hP hp)
    rw [wire_cons hP, ← List.append_assoc, recv_append, List.map_cons]
    simpa using this

/-- What the peer makes of a part of what was handed over. -/
theorem part_delivered (hP : ∀ code, (P code).Lawful) {packets : List (Packet Msg)}
    (hfits : ∀ p ∈ packets, (P p.1).byteSizeLong p.2 ≤ 32767) {buffers : List Buffer}
    (hbuffers : buffers <+: packets.map (frame P)) {x : List UInt8} (hx : x <+: buffers.flatten) :
    (recv (deliver P) { state := [] } x).state <+: packets.map Core.handed := by
  obtain ⟨y, hy⟩ : x <+: wire P packets := by
    obtain ⟨rest, hrest⟩ := hbuffers
    rw [← flatten_frames, ← hrest, List.flatten_append]
    exact hx.trans (List.prefix_append ..)
  have hwhole := wire_inStep hP hfits (r := { state := [] }) ⟨rfl, rfl, rfl⟩
  rw [← hy, recv_append] at hwhole
  have hgrows := deliver_grows (P := P) (recv (deliver P) { state := [] } x) y
  rwa [hwhole.state] at hgrows

theorem Linked.delivered (hP : ∀ code, (P code).Lawful) (h : Linked P l)
    (hfits : ∀ p ∈ l.offered, (P p.1).byteSizeLong p.2 ≤ 32767) : l.peer.state <+: l.offered.map Core.handed := by
  obtain hall | ⟨x, hx, hpeer⟩ := h.reading
  · rw [hall]
    exact part_delivered hP hfits h.handed h.received
  · rw [hpeer, error_state]
    exact part_delivered hP hfits h.handed (hx.trans h.received)

/-- Neither end closed, nothing is being written, and nothing is on the way. -/
structure Settled (l : Link Msg) : Prop where
  isOpen : l.stream.queue.closed = false
  reads : l.peer.phase ≠ .closed
  written : l.stream.queue.writes = []
  carried : l.received = l.stream.handed.flatten

theorem Linked.carried (h : Linked P l) (hs : Settled l) : l.received = wire P l.offered := by
  rw [hs.carried, ← flatten_frames, ← h.accepted hs.isOpen]
  rcases h.inOrder.flowing hs.isOpen with ⟨-, -, -, hh, -⟩ | ⟨done, data, rest, error, -, -, hws, -⟩
  · rw [hh]
  · simp [hs.written] at hws

theorem Linked.settled (hP : ∀ code, (P code).Lawful) (h : Linked P l) (hs : Settled l)
    (hfits : ∀ p ∈ l.offered, (P p.1).byteSizeLong p.2 ≤ 32767) : InStep l.peer (l.offered.map Core.handed) := by
  have hwhole := wire_inStep hP hfits (r := { state := [] }) ⟨rfl, rfl, rfl⟩
  rw [← h.carried hs] at hwhole
  rcases h.reading with hall | ⟨x, ⟨y, hxy⟩, hpeer⟩
  · rwa [hall]
  · cases hphase : (recv (deliver P) { state := [] } x).phase with
    | raised e =>
      -- A peer that raised is out of step for good.
      rw [← hxy, recv_append, recv_raised hphase] at hwhole
      rw [hwhole.phase] at hphase
      cases hphase
    | headerRead | bodyRead header | closed =>
      exact absurd (by rw [hpeer]; simp [onEvent, hphase]) hs.reads

theorem linked_run (hP : ∀ code, (P code).Lawful) {es : List (LinkEvent Msg)} {t : Link Msg}
    (h : run (step P) {} es = some t) : Linked P t :=
  run_invariant (fun _ _ _ => step_linked hP)
    ⟨Stream.Flowing.inOrder (.inl ⟨rfl, rfl, rfl, rfl, rfl⟩), fun _ => rfl, List.prefix_rfl, List.prefix_rfl, .inl rfl⟩ h

/-- Every run: the peer is given the first packets that were sent, whole, once each and in order, wherever
TCP splits the bytes and wherever the connection breaks off. Whenever both ends are open and nothing is on
the way, it was given all of them. -/
theorem packets_arrive_in_order (hP : ∀ code, (P code).Lawful) {es : List (LinkEvent Msg)} {t : Link Msg}
    (h : run (step P) {} es = some t) (hfits : ∀ p ∈ t.offered, (P p.1).byteSizeLong p.2 ≤ 32767) :
    t.peer.state <+: t.offered.map Core.handed ∧
    (Settled t → InStep t.peer (t.offered.map Core.handed)) :=
  ⟨(linked_run hP h).delivered hP hfits, fun hs => (linked_run hP h).settled hP hs hfits⟩

/-- Two packets are handed over. The bytes of the second stop in the middle of its header. -/
def breakingEvents : List (LinkEvent fun _ => Encoded) :=
  samplePackets.map (.offer · true) ++
    [.carry [3, 0, 7], .ended 0 false, .handler 0, .carry [0, 8, 150, 1, 0, 0], .ended 0 true, .handler 0, .hangUp]

theorem packets_arrive_in_order_breaking : ∃ t, run (step fun _ => encoded) {} breakingEvents = some t ∧
    t.stream.queue.closed = true ∧ t.offered = samplePackets ∧ t.peer.state = (samplePackets.take 1).map Core.handed ∧
    t.peer.state <+: t.offered.map Core.handed := by
  obtain ⟨t, ht, hclosed, hoffered, hstate⟩ : ∃ t, run (step fun _ => encoded) {} breakingEvents = some t ∧
      t.stream.queue.closed = true ∧ t.offered = samplePackets ∧
      t.peer.state = (samplePackets.take 1).map Core.handed := ⟨_, rfl, rfl, rfl, rfl⟩
  have hfits : ∀ p ∈ t.offered, encoded.byteSizeLong p.2 ≤ 32767 := by
    rw [hoffered]
    decide
  exact ⟨t, ht, hclosed, hoffered, hstate, (packets_arrive_in_order (fun _ => encoded_lawful) ht hfits).1⟩

end Link

end Core
