import J1Server.Core.Dispatch
import J1Server.Core.Link

/-! # Requests

The table that `Init` fills, and a server that reads what a client sent: the loop that dispatches follows
the loop that keeps a record. -/

namespace Core

open Lib

variable {Msg : Int16 → Type} {σ : Type}

/-- The codes that `Init` registers, and their handlers. -/
abbrev Registered (Msg : Int16 → Type) (σ : Type) := ∀ code, Option (Msg code → σ → Except String σ)

def handleInvalid (_ : List UInt8) (s : σ) : Except String σ := .ok s

section Init

variable (P : ∀ code, Protobuf (Msg code)) (registered : Registered Msg σ)

def dispatchPacket {code : Int16} (func : Msg code → σ → Except String σ) (body : List UInt8) (s : σ) :
    Except String σ :=
  match parse (P code) body body.length 4 with
  | some (pkt, _) => func pkt s
  | none => .ok s

def entry (code : Int16) : List UInt8 → σ → Except String σ :=
  match registered code with
  | some func => dispatchPacket P func
  | none => handleInvalid

/-- A code is a `short`, so the upper half of the table stays as it is. -/
def init : HandlerTable σ := fun i => if i.val < 2 ^ 15 then entry P registered (Int16.ofNat i.val) else handleInvalid

/-- What becomes of a packet. -/
def exec (s : σ) (d : Delivery Msg) : Except String σ :=
  match registered d.1, d.2 with
  | some func, some msg => func msg s
  | _, _ => .ok s

end Init

variable {P : ∀ code, Protobuf (Msg code)} {registered : Registered Msg σ}

theorem entry_eq_exec (code : Int16) (body : List UInt8) (s : σ) :
    entry P registered code body s =
      exec registered s ⟨code, (parse (P code) body body.length 4).map Prod.fst⟩ := by
  unfold entry exec
  cases registered code with
  | none => rfl
  | some func =>
    simp only [dispatchPacket]
    cases parse (P code) body body.length 4 <;> rfl

/-- The table has the entry of a code where the code says. -/
theorem handlePacket_init (registered : Registered Msg σ) {header : PacketHeader} (hcode : 0 ≤ header.code.toInt)
    (body : List UInt8) (s : σ) :
    handlePacket (init P registered) header body s =
      (exec registered s ⟨header.code, (parse (P header.code) body body.length 4).map Prod.fst⟩).mapError
        .handler := by
  have hlt := header.code.toInt_lt
  have hsmall : header.code.toInt.toNat < 2 ^ 15 := by omega
  have hback : Int16.ofNat header.code.toInt.toNat = header.code := by
    rw [← Int16.toInt_inj, Int16.toInt_ofNat_of_lt hsmall, Int.toNat_of_nonneg hcode]
  simp only [handlePacket, PacketHeader.slot?, if_pos hcode, init, if_pos hsmall, hback, entry_eq_exec]
  cases exec registered s ⟨header.code, (parse (P header.code) body body.length 4).map Prod.fst⟩ <;> rfl

/-! ## The two loops -/

/-- The server has run what the record has, or it raised at one of the packets. -/
def Follows (registered : Registered Msg σ) (s₀ : σ) (r : ReadLoop σ) (q : ReadLoop (List (Delivery Msg))) : Prop :=
  (r.phase = q.phase ∧ r.buffer = q.buffer ∧ q.state.foldlM (exec registered) s₀ = .ok r.state) ∨
  (∃ e, r.phase = .raised e) ∧ ∃ done d, done ++ [d] <+: q.state ∧
    done.foldlM (exec registered) s₀ = .ok r.state ∧
    (d.1.toInt < 0 ∨ ∃ what, exec registered r.state d = .error what)

variable {s₀ : σ} {r : ReadLoop σ} {q : ReadLoop (List (Delivery Msg))}

theorem onBodyRead_follows {header : PacketHeader} (hbuffer : r.buffer = q.buffer)
    (hstate : q.state.foldlM (exec registered) s₀ = .ok r.state) :
    Follows registered s₀ (onBodyRead (handlePacket (init P registered)) header r)
      (onBodyRead (deliver P) header q) := by
  obtain ⟨d, hd⟩ : ∃ d : Delivery Msg,
      d = ⟨header.code, (parse (P header.code) q.buffer q.buffer.length 4).map Prod.fst⟩ := ⟨_, rfl⟩
  have hrecord : onBodyRead (deliver P) header q = asyncHeaderRead { q with state := q.state ++ [d] } := by
    simp only [onBodyRead, deliver, hd]
  have hcode : d.1 = header.code := by rw [hd]
  rw [hrecord]
  by_cases hneg : header.code.toInt < 0
  · right
    have hslot : header.slot? = none := if_neg (by omega)
    simp only [onBodyRead, handlePacket, hslot]
    exact ⟨⟨_, rfl⟩, q.state, d, List.prefix_rfl, hstate, .inl (hcode ▸ hneg)⟩
  · have hpacket := handlePacket_init (P := P) registered (by omega : 0 ≤ header.code.toInt) r.buffer
      r.state
    rw [hbuffer, ← hd] at hpacket
    cases hexec : exec registered r.state d with
    | ok s =>
      left
      have hok : handlePacket (init P registered) header q.buffer r.state = .ok s := by
        rw [hpacket, hexec]
        rfl
      simp only [onBodyRead, hbuffer, hok]
      refine ⟨rfl, rfl, ?_⟩
      simp only [asyncHeaderRead, List.foldlM_append, hstate, List.foldlM_cons, List.foldlM_nil]
      simp [hexec, bind, Except.bind, pure, Except.pure]
    | error what =>
      right
      have herror : handlePacket (init P registered) header q.buffer r.state = .error (.handler what) := by
        rw [hpacket, hexec]
        rfl
      simp only [onBodyRead, hbuffer, herror]
      exact ⟨⟨_, rfl⟩, q.state, d, List.prefix_rfl, hstate, .inr ⟨what, hexec⟩⟩

theorem onHeaderRead_follows (hbuffer : r.buffer = q.buffer)
    (hstate : q.state.foldlM (exec registered) s₀ = .ok r.state) :
    Follows registered s₀ (onHeaderRead (handlePacket (init P registered)) r) (onHeaderRead (deliver P) q) := by
  unfold onHeaderRead
  rw [hbuffer]
  cases parseHeader q.buffer 0 with
  | none => exact .inl ⟨rfl, rfl, hstate⟩
  | some found =>
    obtain ⟨header, offset⟩ := found
    simp only [asyncBodyRead]
    by_cases hmax : maxSize < toSize header.length
    · simp only [if_pos hmax]
      exact .inl ⟨rfl, rfl, hstate⟩
    · by_cases hzero : toSize header.length = 0
      · simp only [if_neg hmax, if_pos hzero]
        exact onBodyRead_follows rfl hstate
      · simp only [if_neg hmax, if_neg hzero]
        exact .inl ⟨rfl, rfl, hstate⟩

theorem recvByte_follows (h : Follows registered s₀ r q) (b : UInt8) :
    Follows registered s₀ (recvByte (handlePacket (init P registered)) r b) (recvByte (deliver P) q b) := by
  rcases h with ⟨hphase, hbuffer, hstate⟩ | ⟨⟨e, hraised⟩, done, d, hpart, hdone, hfails⟩
  · unfold recvByte
    rw [hphase, hbuffer]
    cases q.phase with
    | headerRead =>
      by_cases hshort : (q.buffer ++ [b]).length < headerBufferSize
      · simp only [if_pos hshort]
        exact .inl ⟨rfl, rfl, hstate⟩
      · simp only [if_neg hshort]
        exact onHeaderRead_follows rfl hstate
    | bodyRead header =>
      by_cases hshort : (q.buffer ++ [b]).length < toSize header.length
      · simp only [if_pos hshort]
        exact .inl ⟨rfl, rfl, hstate⟩
      · simp only [if_neg hshort]
        exact onBodyRead_follows rfl hstate
    | closed | raised e => exact .inl ⟨hphase, hbuffer, hstate⟩
  · right
    have hstays : recvByte (handlePacket (init P registered)) r b = r := by simp only [recvByte, hraised]
    rw [hstays]
    exact ⟨⟨e, hraised⟩, done, d, hpart.trans (deliver_grows q [b]), hdone, hfails⟩

theorem recv_follows (bytes : List UInt8) (h : Follows registered s₀ r q) :
    Follows registered s₀ (recv (handlePacket (init P registered)) r bytes) (recv (deliver P) q bytes) := by
  induction bytes generalizing r q with
  | nil => exact h
  | cons b bytes ih => exact ih (recvByte_follows h b)

/-! ## A server and its client -/

theorem foldlM_part {done more : List (Delivery Msg)} {s s' : σ} (h : done <+: more)
    (hall : more.foldlM (exec registered) s = .ok s') : ∃ s'', done.foldlM (exec registered) s = .ok s'' := by
  obtain ⟨rest, rfl⟩ := h
  rw [List.foldlM_append] at hall
  cases hdone : done.foldlM (exec registered) s with
  | ok s'' => exact ⟨s'', rfl⟩
  | error what =>
    rw [hdone] at hall
    cases hall

/-- Every run, with any handlers: a server runs the first packets that its client sent, once each and in
order, each with the message that was sent, wherever TCP splits the bytes and wherever the connection
breaks off. When all of them came in and none of the handlers raises, it has run them all. -/
theorem requests_run_in_order (hP : ∀ code, (P code).Lawful) (registered : Registered Msg σ)
    {es : List (LinkEvent Msg)} {t : Link Msg} (h : run (Link.step P) {} es = some t)
    (hfits : ∀ p ∈ t.offered, (P p.1).byteSizeLong p.2 ≤ 32767) (s₀ : σ) {x : List UInt8} (hx : x <+: t.received)
    {r : ReadLoop σ} (hr : r = recv (handlePacket (init P registered)) { state := s₀ } x) :
    (∃ k, ((t.offered.take k).map handed).foldlM (exec registered) s₀ = .ok r.state) ∧
    (Link.Settled t → x = t.received → (∀ p ∈ t.offered, 0 ≤ p.1.toInt) → ∀ s,
      (t.offered.map handed).foldlM (exec registered) s₀ = .ok s → r.phase = .headerRead ∧ r.state = s) := by
  have hlinked := Link.linked_run hP h
  have hpart := Link.part_delivered hP hfits hlinked.handed (hx.trans hlinked.received)
  have hfollows : Follows registered s₀ r (recv (deliver P) { state := [] } x) := by
    rw [hr]
    exact recv_follows x (.inl ⟨rfl, rfl, rfl⟩)
  constructor
  · have hprefix : ∃ done, done <+: t.offered.map handed ∧ done.foldlM (exec registered) s₀ = .ok r.state := by
      rcases hfollows with ⟨-, -, hstate⟩ | ⟨-, done, d, hdone, hstate, -⟩
      · exact ⟨_, hpart, hstate⟩
      · exact ⟨done, (List.prefix_append _ _).trans (hdone.trans hpart), hstate⟩
    obtain ⟨done, hdone, hstate⟩ := hprefix
    refine ⟨done.length, ?_⟩
    rwa [List.map_take, ← List.prefix_iff_eq_take.mp hdone]
  · intro hs hall hcodes s hexec
    have hwhole := Link.wire_inStep hP hfits (r := { state := [] }) ⟨rfl, rfl, rfl⟩
    rw [← hlinked.carried hs, ← hall] at hwhole
    rcases hfollows with ⟨hphase, -, hstate⟩ | ⟨-, done, d, hdone, hstate, hfails⟩
    · rw [hwhole.state, List.nil_append, hexec] at hstate
      exact ⟨hphase.trans hwhole.phase, (Except.ok.inj hstate).symm⟩
    · rw [hwhole.state, List.nil_append] at hdone
      obtain ⟨p, hp, rfl⟩ := List.mem_map.mp (hdone.subset (by simp : d ∈ done ++ [d]))
      obtain ⟨s', hs'⟩ := foldlM_part hdone hexec
      rcases hfails with hneg | ⟨what, herror⟩
      · have hpos := hcodes p hp
        have hneg : p.1.toInt < 0 := hneg
        omega
      · -- The fold would have stopped at this packet.
        simp only [List.foldlM_append, hstate, List.foldlM_cons, List.foldlM_nil] at hs'
        simp [herror, bind, Except.bind] at hs'

/-- Two packets, and the second one has no handler. -/
def requestEvents : List (LinkEvent fun _ => Encoded) :=
  samplePackets.map (.offer · false) ++
    [.ended 0 false, .handler 0, .carry [3, 0, 7], .ended 0 false, .handler 0, .carry [0, 8, 150, 1, 0, 0, 9, 0]]

def recording : Registered (fun _ => Encoded) (List (List UInt8)) := fun code =>
  if code = 7 then some fun msg s => .ok (s ++ [msg.val]) else none

theorem requests_run_in_order_sample : ∃ t, run (Link.step fun _ => encoded) {} requestEvents = some t ∧
    (recv (handlePacket (init (fun _ => encoded) recording)) { state := [] } t.received).state = [[8, 150, 1]] := by
  obtain ⟨t, ht, hoffered, hsettled⟩ : ∃ t, run (Link.step fun _ => encoded) {} requestEvents = some t ∧
      t.offered = samplePackets ∧ Link.Settled t := ⟨_, rfl, rfl, ⟨rfl, by decide, rfl, rfl⟩⟩
  have hfits : ∀ p ∈ t.offered, encoded.byteSizeLong p.2 ≤ 32767 := by
    rw [hoffered]
    decide
  have hrun := requests_run_in_order (fun _ => encoded_lawful) recording ht hfits [] List.prefix_rfl rfl
  refine ⟨t, ht, (hrun.2 hsettled rfl ?_ [[8, 150, 1]] ?_).2⟩
  · rw [hoffered]
    decide
  · rw [hoffered]
    rfl

end Core
