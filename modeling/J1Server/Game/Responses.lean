import J1Server.Game.Relay
import Mathlib.Data.List.Perm.Basic

/-! # Every request and its response

How many requests a client has made, and what became of them. -/

namespace Game

open Lib

/-- The event is a request `r` of `asker`, or of the cache. -/
def RelayEvent.asks (asker : Option Nat) (r : Request) : RelayEvent → Bool
  | .request client req _ => some client = asker ∧ req = r
  | .refresh => none = asker ∧ .auctionList false = r
  | .connect _ | .close _ | .answer _ | .handle _ => false

def Message.isOf (asker : Option Nat) (r : Request) (pkt : Message) : Bool := pkt.asker = asker ∧ pkt.request = r

namespace Relay

/-- The responses that were handed to the client, or to the cache. -/
def delivered (s : Relay) (asker : Option Nat) (r : Request) : Nat :=
  (s.sent.map Prod.snd).countP (Message.isOf asker r) + s.consumed.countP (Message.isOf asker r)

def onTheWay (s : Relay) (asker : Option Nat) (r : Request) : Nat :=
  s.requests.countP (Message.isOf asker r) + s.responses.countP (Message.isOf asker r)

/-- The client has an id, and is not found under it any more. -/
def Gone (s : Relay) (client : Nat) : Prop := ∃ id, s.sessionId client = some id ∧ s.sessions id ≠ some client

/-- A response is lost only if its client has gone. -/
structure Accounted (asker : Option Nat) (r : Request) (es : List RelayEvent) (s : Relay) : Prop where
  atMost : s.delivered asker r + s.onTheWay asker r ≤ es.countP (RelayEvent.asks asker r)
  lost : s.delivered asker r + s.onTheWay asker r < es.countP (RelayEvent.asks asker r) →
    ∃ client, asker = some client ∧ s.Gone client

variable {s s' : Relay} {asker : Option Nat} {r : Request} {es : List RelayEvent} {e : RelayEvent}

theorem countP_eraseIdx {α : Type} {l : List α} {k : Nat} {x : α} (h : l[k]? = some x) (p : α → Bool) :
    l.countP p = (l.eraseIdx k).countP p + if p x then 1 else 0 := by
  obtain ⟨hk, rfl⟩ := List.getElem?_eq_some_iff.mp h
  rw [← (List.getElem_cons_eraseIdx_perm hk).countP_eq p, List.countP_cons]

theorem step_cases (hs : s.step e = some s') :
    (∃ client, e = .connect client ∧ s.sessionId client = none ∧ s' = s.register client) ∨
    (∃ client id, e = .close client ∧ s' = s.unregister id) ∨
    (∃ client req cached id, e = .request client req cached ∧
      s' = if cached then { s with sent := s.sent ++ [(client, ⟨id, req, some client⟩)] }
        else { s with requests := s.requests ++ [⟨id, req, some client⟩] }) ∨
    (e = .refresh ∧ s' = { s with requests := s.requests ++ [⟨kCacheSessionId, .auctionList false, none⟩] }) ∨
    (∃ k pkt, e = .answer k ∧ s.requests[k]? = some pkt ∧
      s' = { s with requests := s.requests.eraseIdx k, responses := s.responses ++ [pkt] }) ∨
    (∃ k pkt, e = .handle k ∧ s.responses[k]? = some pkt ∧
      s' = hand { s with responses := s.responses.eraseIdx k } pkt (s.route pkt)) := by
  cases e with
  | connect client =>
    left
    simp only [step] at hs
    split at hs
    · rename_i hnew
      exact ⟨client, rfl, hnew, (Option.some.inj hs).symm⟩
    · cases hs
  | close client =>
    right; left
    obtain ⟨id, -, rfl⟩ := Option.map_eq_some_iff.mp hs
    exact ⟨client, id, rfl, rfl⟩
  | request client req cached =>
    right; right; left
    simp only [step] at hs
    split at hs
    · rename_i id hid
      refine ⟨client, req, cached, id.toInt64, rfl, ?_⟩
      cases cached with
      | true =>
        obtain ⟨-, hs⟩ := Option.ite_none_right_eq_some.mp hs
        exact (Option.some.inj hs).symm
      | false => exact (Option.some.inj hs).symm
    · cases hs
  | refresh =>
    right; right; right; left
    exact ⟨rfl, (Option.some.inj hs).symm⟩
  | answer k =>
    right; right; right; right; left
    simp only [step] at hs
    split at hs
    · rename_i pkt hk
      exact ⟨k, pkt, rfl, hk, (Option.some.inj hs).symm⟩
    · cases hs
  | handle k =>
    right; right; right; right; right
    simp only [step] at hs
    split at hs
    · rename_i pkt hk
      exact ⟨k, pkt, rfl, hk, (Option.some.inj hs).symm⟩
    · cases hs

theorem gone_of_same {client : Nat} (h : s.Gone client) (hid : s'.sessionId = s.sessionId)
    (hsessions : s'.sessions = s.sessions) : s'.Gone client := by
  obtain ⟨id, hclient, hnot⟩ := h
  exact ⟨id, hid ▸ hclient, hsessions ▸ hnot⟩

theorem gone_step (hs : s.step e = some s') {client : Nat} (h : s.Gone client) : s'.Gone client := by
  obtain ⟨other, rfl, hnew, rfl⟩ | ⟨other, id', rfl, rfl⟩ | ⟨other, req, cached, id, rfl, rfl⟩ | ⟨rfl, rfl⟩ |
    ⟨k, pkt, rfl, -, rfl⟩ | ⟨k, pkt, rfl, -, rfl⟩ := step_cases hs
  · obtain ⟨id, hid, hnot⟩ := h
    have hne : client ≠ other := by
      rintro rfl
      rw [hid] at hnew
      cases hnew
    refine ⟨id, register_sessionId hnew client id hid, ?_⟩
    by_cases hnext : id = s.nextId
    · simp [register, hnext, Ne.symm hne]
    · simpa [register, hnext] using hnot
  · obtain ⟨id, hid, hnot⟩ := h
    refine ⟨id, hid, ?_⟩
    by_cases hsame : id = id'
    · simp [unregister, hsame]
    · simpa [unregister, hsame] using hnot
  · cases cached <;> exact gone_of_same h rfl rfl
  · exact gone_of_same h rfl rfl
  · exact gone_of_same h rfl rfl
  · cases s.route pkt <;> exact gone_of_same h rfl rfl

/-! ## One step -/

/-- What a request adds, and what is lost. -/
theorem Accounted.snoc (h : Accounted asker r es s) (hs : s.step e = some s') (lost : Nat)
    (hcount : s'.delivered asker r + s'.onTheWay asker r + lost =
      s.delivered asker r + s.onTheWay asker r + if e.asks asker r then 1 else 0)
    (hlost : 0 < lost → ∃ client, asker = some client ∧ s'.Gone client) : Accounted asker r (es ++ [e]) s' := by
  have hasked : (es ++ [e]).countP (RelayEvent.asks asker r) =
      es.countP (RelayEvent.asks asker r) + if e.asks asker r then 1 else 0 := by
    simp [List.countP_append, List.countP_cons]
  have hatMost := h.atMost
  refine ⟨by omega, fun hlt => ?_⟩
  by_cases hnow : 0 < lost
  · exact hlost hnow
  · obtain ⟨client, hclient, hgone⟩ := h.lost (by omega)
    exact ⟨client, hclient, gone_step hs hgone⟩

theorem gone_of_unregistered {pkt : Message} (ha : Addressed s pkt) {client : Nat} (hasker : pkt.asker = some client)
    (hreg : s.registered client = false) : s.Gone client := by
  unfold Addressed at ha
  rw [hasker] at ha
  obtain ⟨id, hid, -⟩ := ha
  refine ⟨id, hid, ?_⟩
  simpa [registered, hid] using hreg

theorem step_accounted (h : Accounted asker r es s) (hr : Routed s) (hs : s.step e = some s') :
    Accounted asker r (es ++ [e]) s' := by
  obtain ⟨other, rfl, -, rfl⟩ | ⟨other, id', rfl, rfl⟩ | ⟨other, req, cached, id, rfl, rfl⟩ | ⟨rfl, rfl⟩ |
    ⟨k, pkt, rfl, hk, rfl⟩ | ⟨k, pkt, rfl, hk, rfl⟩ := step_cases hs
  · exact h.snoc hs 0 rfl (by omega)
  · exact h.snoc hs 0 rfl (by omega)
  · refine h.snoc hs 0 ?_ (by omega)
    cases cached <;>
      simp [delivered, onTheWay, RelayEvent.asks, Message.isOf, List.countP_append, List.countP_cons] <;> omega
  · refine h.snoc hs 0 ?_ (by omega)
    simp [delivered, onTheWay, RelayEvent.asks, Message.isOf, List.countP_append, List.countP_cons]
    omega
  · refine h.snoc hs 0 ?_ (by omega)
    have hrequests := countP_eraseIdx hk (Message.isOf asker r)
    simp only [delivered, onTheWay, RelayEvent.asks, List.countP_append, List.countP_singleton]
    simp
    omega
  · have ha := hr.addressed pkt (List.mem_append_right _ (List.mem_of_getElem? hk))
    have hright := right_of_addressed hr.inv ha
    have hresponses := countP_eraseIdx hk (Message.isOf asker r)
    have hasks : (RelayEvent.handle k).asks asker r = false := rfl
    unfold Right at hright
    cases hasker : pkt.asker with
    | none =>
      refine h.snoc hs 0 ?_ (by omega)
      rw [hright, hasker]
      simp only [hand, delivered, onTheWay, hasks, List.countP_append, List.countP_singleton]
      simp
      omega
    | some client =>
      rw [hasker] at hright
      by_cases hreg : s.registered client = true
      · refine h.snoc hs 0 ?_ (by omega)
        rw [hright]
        simp only [if_pos hreg, hand, delivered, onTheWay, hasks, List.map_append, List.countP_append,
          List.map_singleton, List.countP_singleton]
        simp
        omega
      · refine h.snoc hs (if Message.isOf asker r pkt then 1 else 0) ?_ fun hlost => ?_
        · rw [hright]
          simp only [if_neg hreg, hand, delivered, onTheWay, hasks]
          simp
          omega
        · have hof : Message.isOf asker r pkt = true := by
            by_contra hnot
            simp [hnot] at hlost
          have hclient : asker = some client := by
            simp only [Message.isOf, decide_eq_true_eq] at hof
            exact hof.1.symm.trans hasker
          exact ⟨client, hclient, gone_step hs (gone_of_unregistered ha hasker (by simpa using hreg))⟩

/-! ## Every run -/

/-- If the counter of ids does not wrap and the ids that are kept in an `int` fit: no client is given more
responses of a kind than it asked for; a client whose session is still registered has been given all of them,
but those that are on the way; and so has the cache. -/
theorem responses_answer_once {es : List RelayEvent} (hfit : Along step IdsFit {} es) {s : Relay}
    (hr : run step {} es = some s) (asker : Option Nat) (r : Request) :
    s.delivered asker r + s.onTheWay asker r ≤ es.countP (RelayEvent.asks asker r) ∧
    ((∀ client, asker = some client → s.registered client = true) →
      s.delivered asker r + s.onTheWay asker r = es.countP (RelayEvent.asks asker r)) := by
  obtain ⟨-, h⟩ := run_recorded_along (P := fun es s => Routed s ∧ Accounted asker r es s)
    ⟨routed_start, Nat.le_refl 0, fun hlt => absurd hlt (Nat.lt_irrefl 0)⟩
    (fun sofar p e q hp hcond hq => ⟨routed_step hp.1 hcond hq, step_accounted hp.2 hp.1 hq⟩) hfit hr
  refine ⟨h.atMost, fun hregistered => ?_⟩
  by_contra hne
  obtain ⟨client, hclient, id, hid, hnot⟩ := h.lost (Nat.lt_of_le_of_ne h.atMost hne)
  have hreg := hregistered client hclient
  simp [registered, hid, hnot] at hreg

/-- The first client leaves before its response arrives, the second one gets its own. -/
def responseEvents : List RelayEvent :=
  [.connect 4, .request 4 .receiptList false, .connect 5, .request 5 .registItem false, .answer 1, .close 4,
    .answer 0, .handle 1, .handle 0]

theorem responses_answer_once_sample : ∃ s, run step {} responseEvents = some s ∧
    s.delivered (some 4) .receiptList = 0 ∧ s.registered 4 = false ∧ s.delivered (some 5) .registItem = 1 := by
  obtain ⟨s, hs, hzero, hgone, hway, hreg⟩ : ∃ s, run step {} responseEvents = some s ∧
      s.delivered (some 4) .receiptList = 0 ∧ s.registered 4 = false ∧ s.onTheWay (some 5) .registItem = 0 ∧
      s.registered 5 = true := ⟨_, rfl, by decide, by decide, by decide, by decide⟩
  have hall := (responses_answer_once (by decide) hs (some 5) .registItem).2 (by rintro client ⟨⟩; exact hreg)
  rw [hway] at hall
  exact ⟨s, hs, hzero, hgone, hall⟩

end Relay

end Game
