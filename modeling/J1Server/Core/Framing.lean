import J1Server.Core.Receive

/-! # Framing

What one side passes to `SendPacket`, and what the read loop of the other side
makes of it. -/

namespace Core

/-- A code, and a message of the class that belongs to it. -/
abbrev Packet (Msg : Int16 → Type) := (code : Int16) × Msg code

/-- A code, and what `Parse` makes of the body. -/
abbrev Delivery (Msg : Int16 → Type) := (code : Int16) × Option (Msg code)

variable {Msg : Int16 → Type} (P : ∀ code, Protobuf (Msg code))

/-- The bytes of a connection on which these packets are sent. -/
def wire (packets : List (Packet Msg)) : List UInt8 := packets.flatMap fun p => sendPacket (P p.1) p.2 p.1

def handed (p : Packet Msg) : Delivery Msg := ⟨p.1, some p.2⟩

/-- The peer parses every body, and keeps a record. -/
def deliver : HandlePacket (List (Delivery Msg)) := fun header body deliveries =>
  .ok (deliveries ++ [⟨header.code, (parse (P header.code) body body.length 4).map Prod.fst⟩])

/-- The peer has `deliveries`, and waits for the next header with no byte of it read. -/
structure InStep (r : ReadLoop (List (Delivery Msg))) (deliveries : List (Delivery Msg)) : Prop where
  phase : r.phase = .headerRead
  buffer : r.buffer = []
  state : r.state = deliveries

variable {P} {r : ReadLoop (List (Delivery Msg))} {deliveries : List (Delivery Msg)}

theorem wire_cons (hP : ∀ code, (P code).Lawful) (p : Packet Msg) (packets : List (Packet Msg)) :
    wire P (p :: packets) =
      (headerOf (P p.1) p.1 p.2).bytes ++ ((P p.1).serialized p.2 ++ wire P packets) := by
  rw [wire, List.flatMap_cons, sendPacket_eq (hP _), List.append_assoc]
  rfl

theorem InStep.frame (h : InStep r deliveries) {header : PacketHeader} (hpos : 0 ≤ header.length.toInt)
    {body : List UInt8} (hlen : body.length = toSize header.length) :
    InStep (recv (deliver P) r (header.bytes ++ body))
      (deliveries ++ [⟨header.code, (P header.code).parseFromArray body⟩]) := by
  rw [recv_frame h.phase h.buffer hpos hlen]
  refine ⟨rfl, rfl, ?_⟩
  simp only [onBodyRead, deliver, asyncHeaderRead, h.state, parse, List.take_length, Option.map_map]
  congr 3
  exact Option.map_id'

theorem InStep.packet (hP : ∀ code, (P code).Lawful) (h : InStep r deliveries) {p : Packet Msg}
    (hfits : (P p.1).byteSizeLong p.2 ≤ 32767) :
    InStep (recv (deliver P) r ((headerOf (P p.1) p.1 p.2).bytes ++ (P p.1).serialized p.2))
      (deliveries ++ [handed p]) := by
  have hlength := (length_headerOf_eq_iff (hP p.1) p.2 p.1).mpr hfits
  have hpos : 0 ≤ (headerOf (P p.1) p.1 p.2).length.toInt := by
    rw [hlength]
    omega
  have hlen : ((P p.1).serialized p.2).length = toSize (headerOf (P p.1) p.1 p.2).length := by
    rw [toSize_eq hpos, hlength, (hP p.1).length_serialized, Int.toNat_natCast]
  have hframe := h.frame (P := P) hpos hlen
  have hparse : (P p.1).parseFromArray ((P p.1).serialized p.2) = some p.2 := (hP p.1).parse_serialized p.2
  have hcode : (⟨(headerOf (P p.1) p.1 p.2).code, (P (headerOf (P p.1) p.1 p.2).code).parseFromArray
      ((P p.1).serialized p.2)⟩ : Delivery Msg) = handed p := by
    rw [handed, ← hparse]
    rfl
  rwa [hcode] at hframe

theorem deliver_grows (r : ReadLoop (List (Delivery Msg))) (bytes : List UInt8) :
    r.state <+: (recv (deliver P) r bytes).state := by
  refine recv_related (R := fun a b => a <+: b) (fun _ => List.prefix_rfl) ?_
    (fun _ _ _ h h' => List.IsPrefix.trans h h') r bytes
  rintro header body s s' hs
  cases hs
  exact List.prefix_append ..

/-- A message that does not fit its header puts the peer out of step for good. -/
theorem InStep.lost (hP : ∀ code, (P code).Lawful) (hspare : ∀ code, (P code).NoneSpare)
    (h : InStep r deliveries) {p : Packet Msg} (hbig : 32767 < (P p.1).byteSizeLong p.2)
    (rest : List UInt8) (more : List (Delivery Msg)) :
    ¬InStep (recv (deliver P) r ((headerOf (P p.1) p.1 p.2).bytes ++ ((P p.1).serialized p.2 ++ rest)))
      (deliveries ++ handed p :: more) := by
  intro hend
  have hle := length_headerOf_le (P p.1) p.2 p.1
  have hne := mt (length_headerOf_eq_iff (hP p.1) p.2 p.1).mp (by omega)
  by_cases hneg : (headerOf (P p.1) p.1 p.2).length.toInt < 0
  · -- The length wrapped to a negative one: `resize` raises.
    have hphase := hend.phase
    rw [recv_append, recv_negative h.phase h.buffer hneg, recv_raised rfl] at hphase
    cases hphase
  · -- The length wrapped to a smaller one: only the first bytes are parsed.
    have hpos : 0 ≤ (headerOf (P p.1) p.1 p.2).length.toInt := by omega
    have hsize := toSize_eq hpos
    have hlen := (hP p.1).length_serialized p.2
    obtain ⟨body, tail, hsplit, hbody⟩ : ∃ body tail, (P p.1).serialized p.2 = body ++ tail ∧
        body.length = toSize (headerOf (P p.1) p.1 p.2).length :=
      ⟨_, _, (List.take_append_drop (toSize (headerOf (P p.1) p.1 p.2).length) _).symm, by
        rw [List.length_take]
        omega⟩
    have hframe := h.frame (P := P) hpos hbody
    have hgrows := deliver_grows (P := P) (recv (deliver P) r ((headerOf (P p.1) p.1 p.2).bytes ++ body))
      (tail ++ rest)
    rw [hframe.state, ← recv_append, List.append_assoc, ← List.append_assoc body, ← hsplit, hend.state,
      List.prefix_append_right_inj, List.cons_prefix_cons] at hgrows
    have hparse : (P p.1).parseFromArray body = some p.2 := eq_of_heq (Sigma.mk.inj hgrows.1).2
    have hwhole := hspare p.1 p.2 body ⟨tail, hsplit.symm⟩ hparse
    rw [hwhole] at hbody
    omega

/-! ## A whole connection -/

theorem wire_delivered_iff (hP : ∀ code, (P code).Lawful) (hspare : ∀ code, (P code).NoneSpare)
    (h : InStep r deliveries) (packets : List (Packet Msg)) :
    InStep (recv (deliver P) r (wire P packets)) (deliveries ++ packets.map handed) ↔
      ∀ p ∈ packets, (P p.1).byteSizeLong p.2 ≤ 32767 := by
  induction packets generalizing r deliveries with
  | nil => simpa [wire] using h
  | cons p packets ih =>
    rw [wire_cons hP]
    by_cases hfits : (P p.1).byteSizeLong p.2 ≤ 32767
    · have hrest := ih (h.packet hP hfits)
      rw [List.append_assoc, List.singleton_append, ← recv_append, List.append_assoc] at hrest
      rw [List.map_cons, hrest]
      simp [hfits]
    · have hlost := h.lost hP hspare (Nat.lt_of_not_le hfits) (wire P packets) (packets.map handed)
      rw [List.map_cons]
      simp [hlost, hfits]

/-- However TCP splits the stream, the peer gets exactly what was sent, if and only if every message
fits the length field of its header. -/
theorem framing_round_trip_iff (hP : ∀ code, (P code).Lawful) (hspare : ∀ code, (P code).NoneSpare)
    {packets : List (Packet Msg)} {segments : List (List UInt8)} (hwire : segments.flatten = wire P packets) :
    InStep (receive (deliver P) { state := [] } (segments.map .segment)) (packets.map handed) ↔
      ∀ p ∈ packets, (P p.1).byteSizeLong p.2 ≤ 32767 := by
  have hstart : InStep ({ state := [] } : ReadLoop (List (Delivery Msg))) [] := ⟨rfl, rfl, rfl⟩
  rw [receive_segments, hwire]
  exact wire_delivered_iff hP hspare hstart packets

/-! ## Messages given by their encoding -/

def Encoded : Type := { bs : List UInt8 // bs.length < 2 ^ 31 }

def encoded : Protobuf Encoded where
  byteSizeLong m := m.val.length
  serialized m := m.val
  parseFromArray bs := if h : bs.length < 2 ^ 31 then some ⟨bs, h⟩ else none

theorem encoded_lawful : encoded.Lawful where
  limit m := m.property
  length_serialized _ := rfl
  parse_serialized m := dif_pos m.property

theorem encoded_noneSpare : encoded.NoneSpare := by
  intro m bs _ h
  simp only [encoded] at h
  split at h
  · exact congrArg Subtype.val (Option.some.inj h)
  · cases h

/-- `{1: 150}` and `{}`. -/
def samplePackets : List (Packet fun _ => Encoded) := [⟨7, ⟨[8, 150, 1], by decide⟩⟩, ⟨9, ⟨[], by decide⟩⟩]

/-- The segments cut headers and bodies. -/
theorem framing_round_trip_sample :
    InStep (receive (deliver fun _ => encoded) { state := [] }
      ([[3], [0, 7, 0, 8], [150, 1, 0, 0], [9, 0]].map .segment)) (samplePackets.map handed) := by
  have hwire : [[3], [0, 7, 0, 8], [150, 1, 0, 0], [9, 0]].flatten = wire (fun _ => encoded) samplePackets :=
    rfl
  have hfits : ∀ p ∈ samplePackets, encoded.byteSizeLong p.2 ≤ 32767 := by decide
  exact (framing_round_trip_iff (fun _ => encoded_lawful) (fun _ => encoded_noneSpare) hwire).mpr hfits

theorem length_longBytes : ([10, 252, 255, 1] ++ List.replicate 32764 (65 : UInt8)).length = 32768 := by
  rw [List.length_append, List.length_replicate]
  rfl

/-- A message of 32768 bytes: one field with 32764 characters. -/
def longMessage : Encoded :=
  ⟨[10, 252, 255, 1] ++ List.replicate 32764 65, by rw [length_longBytes]; decide⟩

/-- Its packet never arrives: the length in its header is negative. -/
theorem long_message_lost :
    (receive (deliver fun _ => encoded) { state := [] }
      ([wire (fun _ => encoded) [⟨5, longMessage⟩]].map .segment)).phase = .raised .lengthError ∧
    ¬InStep (receive (deliver fun _ => encoded) { state := [] }
      ([wire (fun _ => encoded) [⟨5, longMessage⟩]].map .segment)) ([⟨5, longMessage⟩].map handed) := by
  have hneg : (headerOf encoded 5 longMessage).length.toInt < 0 := by
    have hsize : encoded.byteSizeLong longMessage = 32768 := length_longBytes
    rw [headerOf, hsize]
    decide
  have hphase : (receive (deliver fun _ => encoded) { state := [] }
      ([wire (fun _ => encoded) [⟨5, longMessage⟩]].map .segment)).phase = .raised .lengthError := by
    rw [receive_segments, List.flatten_singleton, wire_cons (fun _ => encoded_lawful), recv_append,
      recv_negative rfl rfl hneg, recv_raised rfl]
  refine ⟨hphase, fun h => ?_⟩
  have hcontra := h.phase
  rw [hphase] at hcontra
  cases hcontra

end Core
