import J1Server.Lib.Runs
import Mathlib.Algebra.Order.Ring.Int

/-! # Auction requests and their responses

The GameServer relays the requests of its clients to the AuctionServer, under
the id of their session, and finds the session of a response by the id that
comes back. -/

namespace Game

open Lib

inductive Request
  | auctionList (mylist : Bool)
  | receiptList
  | registItem
  | purchaseItem
  deriving DecidableEq

/-- A request to the AuctionServer, or its response, which echoes `sessionId`. `asker` is not on the
wire: it is the client that asked, or `none` for a refresh of the cache. -/
structure Message where
  sessionId : Int64
  request : Request
  asker : Option Nat
  deriving DecidableEq

/-- Where a response is handed to. -/
inductive Route
  | cache
  | session (client : Nat)
  | nobody
  deriving DecidableEq

/-- `sessions` and `nextId` are those of the `GameSessionManager`. A client is a `GameSession` object,
and `sessionId` its id once it is registered. -/
structure Relay where
  nextId : UInt64 := 1
  sessions : UInt64 → Option Nat := fun _ => none
  sessionId : Nat → Option UInt64 := fun _ => none
  requests : List Message := []
  responses : List Message := []
  sent : List (Nat × Message) := []
  consumed : List Message := []

def kCacheSessionId : Int64 := 0

namespace Relay

/-! ## GameSessionManager -/

def register (s : Relay) (client : Nat) : Relay :=
  { s with
    nextId := s.nextId + 1
    sessions := Function.update s.sessions s.nextId (some client)
    sessionId := Function.update s.sessionId client (some s.nextId) }

def find (s : Relay) (id : UInt64) : Option Nat := s.sessions id

def unregister (s : Relay) (id : UInt64) : Relay := { s with sessions := Function.update s.sessions id none }

/-! ## Responses -/

def sendTo : Option Nat → Route
  | some client => .session client
  | none => .nobody

def handleResAuctionList (s : Relay) (pkt : Message) : Route :=
  if pkt.sessionId = 0 then .cache else sendTo (s.find pkt.sessionId.toUInt64)

def handleResReceiptList (s : Relay) (pkt : Message) : Route := sendTo (s.find pkt.sessionId.toUInt64)

/-- The id is kept in an `int`. -/
def handleResRegistItem (s : Relay) (pkt : Message) : Route :=
  let sessionId : Int32 := pkt.sessionId.toInt32
  sendTo (s.find sessionId.toInt64.toUInt64)

/-- The id is kept in an `int`. -/
def handleResPurchaseItem (s : Relay) (pkt : Message) : Route :=
  let sessionId : Int32 := pkt.sessionId.toInt32
  sendTo (s.find sessionId.toInt64.toUInt64)

def route (s : Relay) (pkt : Message) : Route :=
  match pkt.request with
  | .auctionList _ => s.handleResAuctionList pkt
  | .receiptList => s.handleResReceiptList pkt
  | .registItem => s.handleResRegistItem pkt
  | .purchaseItem => s.handleResPurchaseItem pkt

end Relay

/-- The requests that the cache may answer itself: a list, or a purchase that it rejects. -/
def Request.cacheable : Request → Bool
  | .auctionList mylist => !mylist
  | .purchaseItem => true
  | _ => false

inductive RelayEvent
  | connect (client : Nat)
  | close (client : Nat)
  | request (client : Nat) (request : Request) (cached : Bool)
  | refresh
  /-- The AuctionServer answers one of the requests. -/
  | answer (k : Nat)
  /-- One of the responses is handled. -/
  | handle (k : Nat)
  deriving DecidableEq

namespace Relay

def hand (s : Relay) (pkt : Message) : Route → Relay
  | .cache => { s with consumed := s.consumed ++ [pkt] }
  | .session client => { s with sent := s.sent ++ [(client, pkt)] }
  | .nobody => s

def step (s : Relay) : RelayEvent → Option Relay
  | .connect client =>
    match s.sessionId client with
    | none => some (s.register client)
    | some _ => none
  | .close client => (s.sessionId client).map s.unregister
  | .request client request cached =>
    match s.sessionId client with
    | some id =>
      let pkt : Message := ⟨id.toInt64, request, some client⟩
      if cached then
        if request.cacheable then some { s with sent := s.sent ++ [(client, pkt)] } else none
      else some { s with requests := s.requests ++ [pkt] }
    | none => none
  | .refresh => some { s with requests := s.requests ++ [⟨kCacheSessionId, .auctionList false, none⟩] }
  | .answer k =>
    match s.requests[k]? with
    | some pkt => some { s with requests := s.requests.eraseIdx k, responses := s.responses ++ [pkt] }
    | none => none
  | .handle k =>
    match s.responses[k]? with
    | some pkt =>
      let s := { s with responses := s.responses.eraseIdx k }
      some (s.hand pkt (s.route pkt))
    | none => none

def registered (s : Relay) (client : Nat) : Bool :=
  match s.sessionId client with
  | some id => s.sessions id = some client
  | none => false

/-- The response goes to the client that asked, if its session is still registered, and else to nobody. -/
def Right (s : Relay) (pkt : Message) : Prop :=
  s.route pkt = match pkt.asker with
    | none => .cache
    | some client => if s.registered client then .session client else .nobody

end Relay

/-! ## Ids in an `int` -/

/-- The requests whose response keeps the id in an `int`. -/
def Request.narrow : Request → Bool
  | .registItem => true
  | .purchaseItem => true
  | _ => false

/-- The ids that an `int` keeps, when it is cast back to 64 bits. -/
def FitsInt (id : UInt64) : Prop := id.toNat < 2 ^ 31 ∨ 2 ^ 64 - 2 ^ 31 ≤ id.toNat

theorem toInt_toInt64 (id : UInt64) : id.toInt64.toInt = (id.toNat : Int).bmod (2 ^ 64) := by
  rw [Int64.toInt, UInt64.toBitVec_toInt64, BitVec.toInt_eq_toNat_bmod]
  rfl

theorem toUInt64_toInt32_iff (id : UInt64) : id.toInt64.toInt32.toInt64.toUInt64 = id ↔ FitsInt id := by
  have hlt := id.toNat_lt
  have hcast : id.toInt64.toInt32.toInt64.toUInt64 = id ↔ id.toInt64.toInt32.toInt64 = id.toInt64 := by
    constructor
    · intro h
      rw [← Int64.toInt64_toUInt64 id.toInt64.toInt32.toInt64, h]
    · intro h
      rw [h, UInt64.toUInt64_toInt64]
  rw [hcast, ← Int64.toInt_inj, Int32.toInt_toInt64, Int64.toInt_toInt32, toInt_toInt64]
  simp only [FitsInt, Int.bmod_def]
  omega

namespace Relay

variable {s s' : Relay}

/-- Ids are counted up from 1, and as long as the counter did not wrap, none is used twice. -/
structure Inv (s : Relay) : Prop where
  issued : ∀ client id, s.sessionId client = some id → id ≠ 0 ∧ (s.nextId = 0 ∨ id < s.nextId)
  unique : ∀ client client' id, s.sessionId client = some id → s.sessionId client' = some id →
    client = client'
  table : ∀ id client, s.sessions id = some client → s.sessionId client = some id

/-- The message carries the id of the client that asked. -/
def Addressed (s : Relay) (pkt : Message) : Prop :=
  match pkt.asker with
  | none => pkt.sessionId = kCacheSessionId ∧ pkt.request = .auctionList false
  | some client => ∃ id, s.sessionId client = some id ∧ pkt.sessionId = id.toInt64 ∧
      (pkt.request.narrow = true → FitsInt id)

/-- The counter does not wrap, and the responses that keep an id in an `int` are only asked of the AuctionServer
under ids that fit. -/
def IdsFit (s : Relay) : RelayEvent → Prop
  | .connect _ => s.nextId ≠ 0
  | .request client request cached =>
    cached = false → request.narrow = true → ∀ id ∈ s.sessionId client, FitsInt id
  | .close _ | .refresh | .answer _ | .handle _ => True

instance (id : UInt64) : Decidable (FitsInt id) :=
  inferInstanceAs (Decidable (id.toNat < 2 ^ 31 ∨ 2 ^ 64 - 2 ^ 31 ≤ id.toNat))

instance (s : Relay) : (e : RelayEvent) → Decidable (IdsFit s e)
  | .connect _ => inferInstanceAs (Decidable (s.nextId ≠ 0))
  | .request client request cached =>
    have : Decidable (∀ id ∈ s.sessionId client, FitsInt id) := Option.decidableForallMem _
    inferInstanceAs (Decidable (cached = false → request.narrow = true → ∀ id ∈ s.sessionId client, FitsInt id))
  | .close _ | .refresh | .answer _ | .handle _ => isTrue trivial

theorem find_eq (h : Inv s) {client : Nat} {id : UInt64} (hid : s.sessionId client = some id) :
    sendTo (s.find id) = if s.registered client then .session client else .nobody := by
  have hreg : s.registered client = decide (s.sessions id = some client) := by
    unfold registered
    rw [hid]
  unfold find
  cases htable : s.sessions id with
  | none => simp [hreg, htable, sendTo]
  | some client' =>
    obtain rfl := h.unique _ _ _ (h.table id client' htable) hid
    simp [hreg, htable, sendTo]

theorem right_of_addressed (h : Inv s) {pkt : Message} (ha : Addressed s pkt) : Right s pkt := by
  obtain ⟨sessionId, request, asker⟩ := pkt
  unfold Addressed at ha
  unfold Right
  cases asker with
  | none =>
    obtain ⟨hzero, hlist⟩ := ha
    simp only at hzero hlist
    rw [hzero, hlist]
    rfl
  | some client =>
    obtain ⟨id, hid, hsession, hfits⟩ := ha
    simp only at hsession hfits
    subst hsession
    have hfind := find_eq h hid
    have hnarrow : request.narrow = true → id.toInt64.toInt32.toInt64.toUInt64 = id :=
      fun hn => (toUInt64_toInt32_iff id).mpr (hfits hn)
    cases request with
    | auctionList mylist =>
      have hne : id.toInt64 ≠ 0 := by
        intro hzero
        apply (h.issued client id hid).1
        rw [← UInt64.toUInt64_toInt64 id, hzero]
        rfl
      simp only [route, handleResAuctionList, if_neg hne, UInt64.toUInt64_toInt64]
      exact hfind
    | receiptList =>
      simp only [route, handleResReceiptList, UInt64.toUInt64_toInt64]
      exact hfind
    | registItem =>
      simp only [route, handleResRegistItem, hnarrow rfl]
      exact hfind
    | purchaseItem =>
      simp only [route, handleResPurchaseItem, hnarrow rfl]
      exact hfind

/-! ## One event -/

/-- Every message is addressed, and nothing went to anyone but its asker. -/
structure Routed (s : Relay) : Prop where
  inv : Inv s
  addressed : ∀ pkt ∈ s.requests ++ s.responses, Addressed s pkt
  sent : ∀ x ∈ s.sent, x.2.asker = some x.1
  consumed : ∀ pkt ∈ s.consumed, pkt.asker = none

theorem Addressed.mono (hid : ∀ client id, s.sessionId client = some id → s'.sessionId client = some id)
    {pkt : Message} (h : Addressed s pkt) : Addressed s' pkt := by
  unfold Addressed at h ⊢
  cases hasker : pkt.asker with
  | none =>
    rw [hasker] at h
    exact h
  | some client =>
    rw [hasker] at h
    obtain ⟨id, hclient, hrest⟩ := h
    exact ⟨id, hid client id hclient, hrest⟩

theorem register_sessionId {client : Nat} (hnew : s.sessionId client = none) (c : Nat) (id : UInt64)
    (h : s.sessionId c = some id) : (s.register client).sessionId c = some id := by
  have hne : c ≠ client := by
    rintro rfl
    rw [hnew] at h
    cases h
  simpa [register, Function.update_of_ne hne] using h

theorem inv_register (h : Inv s) {client : Nat} (hnew : s.sessionId client = none) (hwrap : s.nextId ≠ 0) :
    Inv (s.register client) := by
  have hbelow : ∀ c id, s.sessionId c = some id → id < s.nextId := fun c id hc =>
    (h.issued c id hc).2.resolve_left hwrap
  have hids : ∀ c id, (s.register client).sessionId c = some id ↔
      (c = client ∧ id = s.nextId) ∨ (c ≠ client ∧ s.sessionId c = some id) := by
    intro c id
    by_cases hc : c = client
    · subst hc
      simp [register, eq_comm]
    · simp [register, hc]
  refine ⟨fun c id hc => ?_, fun c c' id hc hc' => ?_, fun id c hc => ?_⟩
  · have hnext : (s.register client).nextId = s.nextId + 1 := rfl
    have hlast : s.nextId + 1 = 0 ∨ s.nextId < s.nextId + 1 := by
      rw [UInt64.lt_iff_toNat_lt, ← UInt64.toNat_inj, UInt64.toNat_add]
      have := s.nextId.toNat_lt
      simp
      omega
    rw [hnext]
    rcases (hids c id).mp hc with ⟨-, rfl⟩ | ⟨-, hold⟩
    · exact ⟨hwrap, hlast⟩
    · refine ⟨(h.issued c id hold).1, hlast.imp_right fun hlt => ?_⟩
      exact UInt64.lt_trans (hbelow c id hold) hlt
  · rcases (hids c id).mp hc with ⟨rfl, rfl⟩ | ⟨-, hold⟩ <;>
      rcases (hids c' _).mp hc' with ⟨rfl, heq⟩ | ⟨-, hold'⟩
    · rfl
    · exact absurd (hbelow _ _ hold') (UInt64.lt_irrefl _)
    · subst heq
      exact absurd (hbelow _ _ hold) (UInt64.lt_irrefl _)
    · exact h.unique _ _ _ hold hold'
  · rw [hids]
    by_cases hid : id = s.nextId
    · subst hid
      left
      simpa [register, eq_comm] using hc
    · have hold : s.sessions id = some c := by simpa [register, Function.update_of_ne hid] using hc
      have hsession := h.table id c hold
      right
      refine ⟨?_, hsession⟩
      rintro rfl
      rw [hnew] at hsession
      cases hsession

theorem inv_unregister (h : Inv s) (id : UInt64) : Inv (s.unregister id) := by
  refine ⟨h.issued, h.unique, fun id' client htable => h.table id' client ?_⟩
  by_cases hid : id' = id
  · subst hid
    simp [unregister] at htable
  · simpa [unregister, Function.update_of_ne hid] using htable

theorem Routed.erase (h : Routed s) (k : Nat) : Routed { s with responses := s.responses.eraseIdx k } := by
  refine ⟨⟨h.inv.issued, h.inv.unique, h.inv.table⟩, fun pkt hpkt => ?_, h.sent, h.consumed⟩
  apply h.addressed pkt
  rcases List.mem_append.mp hpkt with hpkt | hpkt
  · exact List.mem_append_left _ hpkt
  · exact List.mem_append_right _ (List.mem_of_mem_eraseIdx hpkt)

theorem routed_hand (h : Routed s) {pkt : Message} (ha : Addressed s pkt) :
    Routed (s.hand pkt (s.route pkt)) := by
  have hright := right_of_addressed h.inv ha
  unfold Right at hright
  rw [hright]
  cases hasker : pkt.asker with
  | none =>
    refine ⟨⟨h.inv.issued, h.inv.unique, h.inv.table⟩, h.addressed, h.sent, fun x hx => ?_⟩
    rcases List.mem_append.mp hx with hx | hx
    · exact h.consumed x hx
    · rw [List.mem_singleton.mp hx, hasker]
  | some client =>
    by_cases hreg : s.registered client = true
    · simp only [if_pos hreg]
      refine ⟨⟨h.inv.issued, h.inv.unique, h.inv.table⟩, h.addressed, fun x hx => ?_, h.consumed⟩
      rcases List.mem_append.mp hx with hx | hx
      · exact h.sent x hx
      · rw [List.mem_singleton.mp hx, hasker]
    · simp only [if_neg hreg]
      exact h

theorem Routed.ask (h : Routed s) {pkt : Message} (ha : Addressed s pkt) :
    Routed { s with requests := s.requests ++ [pkt] } := by
  refine ⟨⟨h.inv.issued, h.inv.unique, h.inv.table⟩, fun pkt' hpkt => ?_, h.sent, h.consumed⟩
  simp only [List.mem_append, List.mem_singleton] at hpkt
  rcases hpkt with (hpkt | rfl) | hpkt
  · exact h.addressed pkt' (List.mem_append_left _ hpkt)
  · exact ha
  · exact h.addressed pkt' (List.mem_append_right _ hpkt)

theorem routed_step {e : RelayEvent} (h : Routed s) (hfit : IdsFit s e) (hs : s.step e = some s') :
    Routed s' := by
  cases e with
  | connect client =>
    simp only [step] at hs
    split at hs
    · rename_i hnew
      obtain rfl := Option.some.inj hs
      refine ⟨inv_register h.inv hnew hfit, fun pkt hpkt => ?_, h.sent, h.consumed⟩
      exact (h.addressed pkt hpkt).mono (register_sessionId hnew)
    · cases hs
  | close client =>
    obtain ⟨id, -, rfl⟩ := Option.map_eq_some_iff.mp hs
    exact ⟨inv_unregister h.inv id, fun pkt hpkt => (h.addressed pkt hpkt).mono fun _ _ hc => hc, h.sent,
      h.consumed⟩
  | request client request cached =>
    simp only [step] at hs
    split at hs
    · rename_i id hid
      split at hs
      · split at hs
        · obtain rfl := Option.some.inj hs
          refine ⟨⟨h.inv.issued, h.inv.unique, h.inv.table⟩, h.addressed, fun x hx => ?_, h.consumed⟩
          rcases List.mem_append.mp hx with hx | hx
          · exact h.sent x hx
          · rw [List.mem_singleton.mp hx]
        · cases hs
      · rename_i huncached
        obtain rfl := Option.some.inj hs
        exact h.ask ⟨id, hid, rfl, fun hn => hfit (by simpa using huncached) hn id hid⟩
    · cases hs
  | refresh =>
    obtain rfl := Option.some.inj hs
    exact h.ask ⟨rfl, rfl⟩
  | answer k =>
    simp only [step] at hs
    split at hs
    · rename_i pkt hk
      obtain rfl := Option.some.inj hs
      refine ⟨⟨h.inv.issued, h.inv.unique, h.inv.table⟩, fun pkt' hpkt => ?_, h.sent, h.consumed⟩
      apply h.addressed pkt'
      simp only [List.mem_append, List.mem_singleton] at hpkt ⊢
      rcases hpkt with hpkt | hpkt | rfl
      · exact Or.inl (List.mem_of_mem_eraseIdx hpkt)
      · exact Or.inr hpkt
      · exact Or.inl (List.mem_of_getElem? hk)
    · cases hs
  | handle k =>
    simp only [step] at hs
    split at hs
    · rename_i pkt hk
      obtain rfl := Option.some.inj hs
      exact routed_hand (h.erase k) (h.addressed pkt (List.mem_append_right _ (List.mem_of_getElem? hk)))
    · cases hs

/-! ## Every run -/

theorem routed_start : Routed {} := by
  refine ⟨⟨?_, ?_, ?_⟩, ?_, ?_, ?_⟩ <;> simp

/-- If the counter does not wrap and the ids that are kept in an `int` fit: every response goes to the
client that asked, if its session is still registered, and else to nobody; and the cache gets its own
responses only. -/
theorem responses_reach_asker {es : List RelayEvent} (hfit : Along step IdsFit {} es) {s : Relay}
    (hr : run step {} es = some s) :
    (∀ pkt ∈ s.responses, Right s pkt) ∧ (∀ x ∈ s.sent, x.2.asker = some x.1) ∧
      ∀ pkt ∈ s.consumed, pkt.asker = none := by
  have h : Routed s := run_along (fun _ _ _ h hfit hs => routed_step h hfit hs) routed_start hfit hr
  exact ⟨fun pkt hpkt => right_of_addressed h.inv (h.addressed pkt (List.mem_append_right _ hpkt)), h.sent,
    h.consumed⟩

/-- The client asks, leaves, and another one comes; then the response arrives. -/
theorem responses_reach_asker_sample : ∃ s,
    run step {} [.connect 4, .request 4 .purchaseItem false, .close 4, .connect 5, .answer 0] = some s ∧
    ∀ pkt ∈ s.responses, Right s pkt := by
  have hsome : (run step {} [.connect 4, .request 4 .purchaseItem false, .close 4, .connect 5,
      .answer 0]).isSome = true := by decide
  obtain ⟨s, hs⟩ := Option.isSome_iff_exists.mp hsome
  exact ⟨s, hs, (responses_reach_asker (by decide) hs).1⟩

/-! ## An id that does not fit -/

theorem run_connects (n : Nat) (hn : n < 2 ^ 64) : ∃ s,
    run step {} ((List.range n).map .connect) = some s ∧ s.nextId = UInt64.ofNat (n + 1) ∧
    s.requests = [] ∧ s.responses = [] ∧ (∀ c, n ≤ c → s.sessionId c = none) ∧
    ∀ c, c < n → s.sessionId c = some (UInt64.ofNat (c + 1)) ∧ s.sessions (UInt64.ofNat (c + 1)) = some c := by
  induction n with
  | zero => exact ⟨{}, rfl, rfl, rfl, rfl, fun _ _ => rfl, fun c hc => absurd hc (Nat.not_lt_zero c)⟩
  | succ n ih =>
    obtain ⟨s, hs, hnext, hreq, hres, hnone, hall⟩ := ih (by omega)
    have hstep : step s (.connect n) = some (s.register n) := by simp only [step, hnone n (Nat.le_refl n)]
    refine ⟨s.register n, ?_, ?_, hreq, hres, fun c hc => ?_, fun c hc => ?_⟩
    · rw [List.range_succ, List.map_append, run_append]
      exact ⟨s, hs, by simp [hstep]⟩
    · change s.nextId + 1 = _
      rw [hnext, UInt64.ofNat_add (n + 1) 1]
      rfl
    · have hne : c ≠ n := by omega
      simpa [register, Function.update_of_ne hne] using hnone c (by omega)
    · by_cases hcn : c = n
      · subst hcn
        simp [register, hnext]
      · have hne : UInt64.ofNat (c + 1) ≠ s.nextId := by
          rw [hnext, ne_eq, ← UInt64.toNat_inj, UInt64.toNat_ofNat', UInt64.toNat_ofNat']
          omega
        obtain ⟨hid, htable⟩ := hall c (by omega)
        exact ⟨(Function.update_of_ne hcn _ _).trans hid, (Function.update_of_ne hne _ _).trans htable⟩

/-- Client `2 ^ 32` has the id `2 ^ 32 + 1`, of which an `int` keeps 1. -/
def narrowEvents : List RelayEvent :=
  (List.range (2 ^ 32 + 1)).map .connect ++ [.request (2 ^ 32) .registItem false, .answer 0]

/-- The response for that client goes to the first one. -/
theorem narrow_id_misroutes : ∃ s pkt, run step {} narrowEvents = some s ∧ pkt ∈ s.responses ∧
    pkt.asker = some (2 ^ 32) ∧ s.registered (2 ^ 32) = true ∧ s.route pkt = .session 0 ∧ ¬Right s pkt := by
  obtain ⟨s, hs, -, hreq, hres, -, hall⟩ := run_connects (2 ^ 32 + 1) (by omega)
  obtain ⟨hid, htable⟩ := hall (2 ^ 32) (by omega)
  obtain ⟨-, hfirst⟩ := hall 0 (by omega)
  have hask : step s (.request (2 ^ 32) .registItem false) = some { s with
      requests := [⟨(UInt64.ofNat (2 ^ 32 + 1)).toInt64, .registItem, some (2 ^ 32)⟩] } := by
    simp only [step, hid, hreq, List.nil_append, Bool.false_eq_true, if_false]
  have hroute : route { s with
      requests := [], responses := [⟨(UInt64.ofNat (2 ^ 32 + 1)).toInt64, .registItem, some (2 ^ 32)⟩] }
      ⟨(UInt64.ofNat (2 ^ 32 + 1)).toInt64, .registItem, some (2 ^ 32)⟩ = .session 0 := by
    change sendTo (s.sessions (UInt64.ofNat (0 + 1))) = _
    rw [hfirst]
    rfl
  have hreg : registered { s with
      requests := [], responses := [⟨(UInt64.ofNat (2 ^ 32 + 1)).toInt64, .registItem, some (2 ^ 32)⟩] }
      (2 ^ 32) = true := by
    simp only [registered, hid, htable, decide_true]
  refine ⟨_, _, ?_, List.mem_singleton.mpr rfl, rfl, hreg, hroute, fun hright => ?_⟩
  · rw [narrowEvents, run_append]
    refine ⟨s, hs, run_cons_iff.mpr ⟨_, hask, ?_⟩⟩
    simp [step, hres]
  · unfold Right at hright
    rw [hroute] at hright
    simp only [hreg, if_true] at hright
    cases hright

end Relay

end Game
