import J1Server.Core.Receive
import J1Server.Core.SendStream
import J1Server.Game.Relay

/-! # The life of a session

`Close` may come from any handler on the strand of a `GameSession`: a read or a write that failed, a send
queue that overflows, a handler of a packet that sends too much. -/

namespace Game

open Lib Core

inductive ReadEnd
  | full (bytes : List UInt8)
  | failed
  deriving DecidableEq

/-- An `async_read` whose handler did not run yet, and how it ended. -/
inductive Reading
  | header (ended : Option ReadEnd)
  | body (header : PacketHeader) (ended : Option ReadEnd)
  deriving DecidableEq

/-- `posted` waits for the strand, and `closing` lies between the exchange of `_closed` and `Unregister`.
`late` counts the packets that were handled on a closed session. -/
structure GameSession where
  queue : SendQueue := {}
  reading : Option Reading := none
  posted : List Buffer := []
  closing : Bool := false
  late : Nat := 0

namespace GameSession

/-- `Close`, up to `Unregister`. -/
def close (x : GameSession) : GameSession :=
  if x.queue.closed then x else { x with queue := x.queue.close, closing := true }

/-- What becomes of the send queue, with the `Close` in it. -/
def setQueue (x : GameSession) (queue : SendQueue) : GameSession :=
  { x with queue := queue, closing := x.closing || (queue.closed && !x.queue.closed) }

def enqueueSend (x : GameSession) (data : Buffer) : GameSession := x.setQueue (x.queue.enqueueSend data)

def asyncHeaderRead (x : GameSession) : GameSession := { x with reading := some (.header none) }

/-- A read into an empty buffer ends at once, on a closed socket too. -/
def asyncBodyRead (header : PacketHeader) (x : GameSession) : Except Raised GameSession :=
  let size := toSize header.length
  if maxSize < size then .error .lengthError
  else if size = 0 then .ok { x with reading := some (.body header (some (.full []))) }
  else .ok { x with reading := some (.body header none) }

def onHeaderRead (x : GameSession) : ReadEnd → Except Raised GameSession
  | .full bytes =>
    match parseHeader bytes 0 with
    | some (header, _) => x.asyncBodyRead header
    | none => .ok x.close
  | .failed => .ok x.close

/-- How the read in progress may end. On a closed socket it fails. -/
def readEnds (x : GameSession) (ended : ReadEnd) : Option GameSession :=
  match x.reading, ended with
  | some (.header none), .failed => some { x with reading := some (.header (some .failed)) }
  | some (.body header none), .failed => some { x with reading := some (.body header (some .failed)) }
  | some (.header none), .full bytes =>
    if x.queue.closed = false ∧ bytes.length = headerBufferSize then
      some { x with reading := some (.header (some (.full bytes))) }
    else none
  | some (.body header none), .full bytes =>
    if x.queue.closed = false ∧ bytes.length = toSize header.length then
      some { x with reading := some (.body header (some (.full bytes))) }
    else none
  | _, _ => none

end GameSession

/-- `unregistered` has the session of every call of `Unregister`, and `down` what ended `io_context.run`. -/
structure GameServer (σ : Type) where
  relay : Relay := {}
  accepted : Nat := 0
  sessions : Nat → GameSession := fun _ => {}
  unregistered : List Nat := []
  down : Option Raised := none
  state : σ

/-- What `HandlePacket` does: it may raise, and it sends buffers to sessions. -/
abbrev SessionHandler (σ : Type) :=
  Nat → PacketHeader → List UInt8 → σ → Except Raised (σ × List (Nat × Buffer))

inductive SessionEvent
  | accept
  | readEnds (i : Nat) (ended : ReadEnd)
  | onRead (i : Nat)
  /-- A send that comes from another thread, or from the handler of another session. -/
  | post (i : Nat) (data : Buffer)
  | dispatch (i : Nat)
  | ended (i : Nat) (k : Nat) (err : Bool)
  | onWrite (i : Nat) (k : Nat)
  | unregister (i : Nat)
  deriving DecidableEq

namespace GameServer

variable {σ : Type}

def put (s : GameServer σ) (i : Nat) (x : GameSession) : GameServer σ :=
  { s with sessions := Function.update s.sessions i x }

/-- `Register`, `SetSessionId` and `Start`. -/
def onAccept (s : GameServer σ) : GameServer σ :=
  { s with
    relay := s.relay.register s.accepted
    accepted := s.accepted + 1
    sessions := Function.update s.sessions s.accepted (GameSession.asyncHeaderRead {}) }

/-- What the handler of session `i` sends is dispatched at once if it is for the same session. -/
def send (i : Nat) (s : GameServer σ) (x : Nat × Buffer) : GameServer σ :=
  let target := s.sessions x.1
  s.put x.1 (if x.1 = i then target.enqueueSend x.2 else { target with posted := target.posted ++ [x.2] })

def onBodyRead (handle : SessionHandler σ) (s : GameServer σ) (i : Nat) (header : PacketHeader)
    (bytes : List UInt8) : GameServer σ :=
  let x := s.sessions i
  match handle i header bytes s.state with
  | .ok (state, sends) =>
    let s := ({ s with state := state } : GameServer σ).put i
      { x with reading := none, late := if x.queue.closed then x.late + 1 else x.late }
    let s := sends.foldl (send i) s
    s.put i (s.sessions i).asyncHeaderRead
  | .error e => { s with down := some e }

def onRead (handle : SessionHandler σ) (s : GameServer σ) (i : Nat) : Option (GameServer σ) :=
  let x := s.sessions i
  match x.reading with
  | some (.header (some ended)) =>
    match GameSession.onHeaderRead { x with reading := none } ended with
    | .ok x => some (s.put i x)
    | .error e => some { s with down := some e }
  | some (.body header (some (.full bytes))) => some (s.onBodyRead handle i header bytes)
  | some (.body _ (some .failed)) => some (s.put i (GameSession.close { x with reading := none }))
  | _ => none

/-- The end of `Close`. -/
def unregister (s : GameServer σ) (i : Nat) : GameServer σ :=
  { s with
    relay := s.relay.unregister ((s.relay.sessionId i).getD 0)
    sessions := Function.update s.sessions i { s.sessions i with closing := false }
    unregistered := s.unregistered ++ [i] }

/-- A session whose strand is free. -/
def Free (s : GameServer σ) (i : Nat) : Prop := i < s.accepted ∧ (s.sessions i).closing = false

instance (s : GameServer σ) (i : Nat) : Decidable (s.Free i) := inferInstanceAs (Decidable (_ ∧ _))

def step (handle : SessionHandler σ) (s : GameServer σ) (e : SessionEvent) : Option (GameServer σ) :=
  if s.down.isSome then none
  else
    match e with
    | .accept => some s.onAccept
    | .readEnds i ended => if i < s.accepted then ((s.sessions i).readEnds ended).map (s.put i) else none
    | .onRead i => if s.Free i then s.onRead handle i else none
    | .post i data =>
      if i < s.accepted then some (s.put i { s.sessions i with posted := (s.sessions i).posted ++ [data] }) else none
    | .dispatch i =>
      match (s.sessions i).posted with
      | data :: posted =>
        if s.Free i then some (s.put i (GameSession.enqueueSend { s.sessions i with posted := posted } data)) else none
      | [] => none
    | .ended i k err =>
      if i < s.accepted then
        ((s.sessions i).queue.step (.ended k err)).map fun queue => s.put i ((s.sessions i).setQueue queue)
      else none
    | .onWrite i k =>
      if s.Free i then
        ((s.sessions i).queue.step (.handler k)).map fun queue => s.put i ((s.sessions i).setQueue queue)
      else none
    | .unregister i =>
      if i < s.accepted ∧ (s.sessions i).closing = true then some (s.unregister i) else none

end GameServer

/-! ## One session -/

namespace GameSession

/-- `Close` is over. -/
def gone (x : GameSession) : Bool := x.queue.closed && !x.closing

/-- The packet that a read in progress may still bring when the socket is closed. -/
def pending (x : GameSession) : Nat :=
  match x.reading with
  | some (.header (some (.full _))) | some (.body _ (some (.full _))) => 1
  | _ => 0

/-- An open session reads. A closed one handles one more packet at most. -/
structure Alive (x : GameSession) : Prop where
  reads : x.queue.closed = false → x.reading.isSome = true
  closing : x.closing = true → x.queue.closed = true
  early : x.queue.closed = false → x.late = 0
  late : x.queue.closed = true → x.late + x.pending ≤ 1

/-- What a step does that neither reads nor unregisters. -/
structure Keeps (x y : GameSession) : Prop where
  gone : y.gone = x.gone
  reading : y.reading = x.reading
  late : y.late = x.late
  closed : x.queue.closed = true → y.queue.closed = true
  closing : (x.closing = true → x.queue.closed = true) → y.closing = true → y.queue.closed = true

structure Moves (x y : GameSession) : Prop where
  gone : y.gone = x.gone
  alive : Alive x → Alive y

variable {x y : GameSession}

theorem pending_le (x : GameSession) : x.pending ≤ 1 := by
  unfold pending
  split <;> omega

theorem Keeps.refl (x : GameSession) : Keeps x x := ⟨rfl, rfl, rfl, id, id⟩

theorem Keeps.trans {z : GameSession} (h : Keeps x y) (h' : Keeps y z) : Keeps x z where
  gone := h'.gone.trans h.gone
  reading := h'.reading.trans h.reading
  late := h'.late.trans h.late
  closed hx := h'.closed (h.closed hx)
  closing hx := h'.closing (h.closing hx)

theorem Keeps.open (h : Keeps x y) (hy : y.queue.closed = false) : x.queue.closed = false := by
  cases hx : x.queue.closed with
  | false => rfl
  | true => rw [h.closed hx] at hy; cases hy

theorem Keeps.moves (h : Keeps x y) : Moves x y := by
  refine ⟨h.gone, fun ha => ⟨fun hy => ?_, h.closing ha.closing, fun hy => ?_, fun _ => ?_⟩⟩
  · rw [h.reading]
    exact ha.reads (h.open hy)
  · rw [h.late]
    exact ha.early (h.open hy)
  · have hpending : y.pending = x.pending := by simp only [pending, h.reading]
    rw [h.late, hpending]
    cases hx : x.queue.closed with
    | true => exact ha.late hx
    | false =>
      rw [ha.early hx, Nat.zero_add]
      exact pending_le x

theorem setQueue_keeps {queue : SendQueue} (hmono : x.queue.closed = true → queue.closed = true) :
    Keeps x (x.setQueue queue) := by
  refine ⟨?_, rfl, rfl, hmono, fun hx => ?_⟩
  · cases hx : x.queue.closed with
    | true => simp [setQueue, gone, hx, hmono hx]
    | false => cases hq : queue.closed <;> simp [setQueue, gone, hx, hq]
  · intro hclosing
    simp only [setQueue, Bool.or_eq_true, Bool.and_eq_true] at hclosing
    rcases hclosing with hclosing | ⟨hq, -⟩
    · exact hmono (hx hclosing)
    · exact hq

theorem enqueueSend_keeps (x : GameSession) (data : Buffer) : Keeps x (x.enqueueSend data) :=
  setQueue_keeps fun hx => Core.Stream.enqueueSend_closed hx data

theorem posted_keeps (x : GameSession) (posted : List Buffer) : Keeps x { x with posted := posted } :=
  ⟨rfl, rfl, rfl, id, id⟩

/-- A handler of a read that ends with `Close`. -/
theorem close_moves (x : GameSession) : Moves x (close { x with reading := none }) := by
  unfold close
  cases hx : x.queue.closed with
  | true =>
    refine ⟨by simp [gone, hx], fun ha => ⟨fun hy => ?_, fun _ => hx, fun hy => ?_, fun _ => ?_⟩⟩
    · simp [hx] at hy
    · simp [hx] at hy
    · have := ha.late hx
      simp only [if_true, pending]
      omega
  | false =>
    refine ⟨by simp [gone, hx, SendQueue.close], fun ha => ⟨fun hy => ?_, fun _ => ?_, fun hy => ?_, fun _ => ?_⟩⟩
    · simp [SendQueue.close] at hy
    · simp [SendQueue.close]
    · simp [SendQueue.close] at hy
    · simp [pending, ha.early hx]

/-- A read that goes on, or that ended, and brings no packet that was not on the way. -/
theorem reading_moves (r : Reading)
    (hpending : x.queue.closed = true → pending { x with reading := some r } ≤ x.pending) :
    Moves x { x with reading := some r } := by
  refine ⟨rfl, fun ha => ⟨fun _ => rfl, ha.closing, ha.early, fun hx => ?_⟩⟩
  exact Nat.le_trans (Nat.add_le_add_left (hpending hx) _) (ha.late hx)

theorem readEnds_moves {ended : ReadEnd} (h : x.readEnds ended = some y) : Moves x y := by
  unfold readEnds at h
  split at h
  · obtain rfl := Option.some.inj h
    exact reading_moves _ fun _ => Nat.zero_le _
  · obtain rfl := Option.some.inj h
    exact reading_moves _ fun _ => Nat.zero_le _
  · obtain ⟨⟨hopen, -⟩, hy⟩ := Option.ite_none_right_eq_some.mp h
    obtain rfl := Option.some.inj hy
    exact reading_moves _ fun hx => by simp [hopen] at hx
  · obtain ⟨⟨hopen, -⟩, hy⟩ := Option.ite_none_right_eq_some.mp h
    obtain rfl := Option.some.inj hy
    exact reading_moves _ fun hx => by simp [hopen] at hx
  · cases h

theorem onHeaderRead_moves {ended : ReadEnd} (hreading : x.reading = some (.header (some ended)))
    (h : onHeaderRead { x with reading := none } ended = .ok y) : Moves x y := by
  have hclose : Moves x (close { x with reading := none }) := close_moves _
  cases ended with
  | failed =>
    obtain rfl := Except.ok.inj h
    exact hclose
  | full bytes =>
    have hpending : x.pending = 1 := by simp [pending, hreading]
    simp only [onHeaderRead] at h
    split at h
    · rename_i header offset hheader
      unfold asyncBodyRead at h
      dsimp only at h
      split at h
      · cases h
      · split at h
        · obtain rfl := Except.ok.inj h
          exact reading_moves _ fun _ => hpending ▸ pending_le _
        · obtain rfl := Except.ok.inj h
          exact reading_moves _ fun _ => Nat.zero_le _
    · obtain rfl := Except.ok.inj h
      exact hclose

/-- The packet of a read, whatever its handler sends, and the next read. -/
theorem handled_moves {header : PacketHeader} {bytes : List UInt8}
    (hreading : x.reading = some (.body header (some (.full bytes))))
    (h : Keeps { x with reading := none, late := if x.queue.closed then x.late + 1 else x.late } y) :
    Moves x y.asyncHeaderRead := by
  refine ⟨h.gone, fun ha => ⟨fun _ => rfl, h.closing ha.closing, fun hy => ?_, fun _ => ?_⟩⟩
  · have hx := h.open hy
    have hlate := h.late
    simp only at hx hlate
    simp only [asyncHeaderRead, hlate, hx, Bool.false_eq_true, if_false]
    exact ha.early hx
  · have hpending : x.pending = 1 := by simp [pending, hreading]
    have hlate := h.late
    simp only at hlate
    cases hx : x.queue.closed with
    | true =>
      have := ha.late hx
      simp only [hx, if_true] at hlate
      simp only [asyncHeaderRead, pending]
      omega
    | false =>
      have := ha.early hx
      simp only [hx, Bool.false_eq_true, if_false] at hlate
      simp only [asyncHeaderRead, pending]
      omega

end GameSession

/-! ## One step -/

namespace GameServer

variable {σ : Type} {s s' : GameServer σ} {handle : SessionHandler σ} {e : SessionEvent}

@[simp] theorem put_same (s : GameServer σ) (i : Nat) (x : GameSession) : (s.put i x).sessions i = x := by
  simp [put]

theorem put_other {i j : Nat} (hne : j ≠ i) (s : GameServer σ) (x : GameSession) :
    (s.put i x).sessions j = s.sessions j := by
  simp [put, hne]

/-- What is the same after the handler of a read or a write. -/
structure Within (s s' : GameServer σ) : Prop where
  relay : s'.relay = s.relay
  accepted : s'.accepted = s.accepted
  unregistered : s'.unregistered = s.unregistered
  moves : s'.down = none → ∀ j, (s.sessions j).Moves (s'.sessions j)

theorem Within.put {i : Nat} {x : GameSession} (h : (s.sessions i).Moves x) : Within s (s.put i x) := by
  refine ⟨rfl, rfl, rfl, fun _ j => ?_⟩
  by_cases hj : j = i
  · subst hj
    rwa [put_same]
  · rw [put_other hj]
    exact (GameSession.Keeps.refl _).moves

theorem send_keeps (i : Nat) (s : GameServer σ) (x : Nat × Buffer) (j : Nat) :
    (s.sessions j).Keeps ((s.send i x).sessions j) := by
  unfold send
  dsimp only
  by_cases hj : j = x.1
  · subst hj
    rw [put_same]
    split
    · exact GameSession.enqueueSend_keeps _ _
    · exact GameSession.posted_keeps _ _
  · rw [put_other hj]
    exact .refl _

theorem sends_spec (i : Nat) (s : GameServer σ) (sends : List (Nat × Buffer)) :
    (sends.foldl (send i) s).relay = s.relay ∧ (sends.foldl (send i) s).accepted = s.accepted ∧
    (sends.foldl (send i) s).unregistered = s.unregistered ∧
    ∀ j, (s.sessions j).Keeps ((sends.foldl (send i) s).sessions j) := by
  induction sends generalizing s with
  | nil => exact ⟨rfl, rfl, rfl, fun _ => .refl _⟩
  | cons x sends ih =>
    obtain ⟨hrelay, haccepted, hunregistered, hkeeps⟩ := ih (s.send i x)
    exact ⟨hrelay, haccepted, hunregistered, fun j => (send_keeps i s x j).trans (hkeeps j)⟩

theorem onBodyRead_within {i : Nat} {header : PacketHeader} {bytes : List UInt8}
    (hreading : (s.sessions i).reading = some (.body header (some (.full bytes)))) :
    Within s (s.onBodyRead handle i header bytes) := by
  unfold onBodyRead
  dsimp only
  split
  · rename_i state sends hhandle
    obtain ⟨hrelay, haccepted, hunregistered, hkeeps⟩ := sends_spec i (({ s with state := state } : GameServer σ).put i
      { s.sessions i with
        reading := none
        late := if (s.sessions i).queue.closed then (s.sessions i).late + 1 else (s.sessions i).late }) sends
    refine ⟨hrelay, haccepted, hunregistered, fun _ j => ?_⟩
    by_cases hj : j = i
    · subst hj
      have hown := hkeeps j
      rw [put_same] at hown
      rw [put_same]
      exact GameSession.handled_moves hreading hown
    · have hother := hkeeps j
      rw [put_other hj] at hother ⊢
      exact hother.moves
  · refine ⟨rfl, rfl, rfl, fun hup => by simp at hup⟩

theorem onRead_within {i : Nat} (h : s.onRead handle i = some s') : Within s s' := by
  unfold onRead at h
  dsimp only at h
  split at h
  · rename_i ended hreading
    split at h
    · rename_i x hx
      obtain rfl := Option.some.inj h
      exact .put (GameSession.onHeaderRead_moves hreading hx)
    · obtain rfl := Option.some.inj h
      exact ⟨rfl, rfl, rfl, fun hup => by simp at hup⟩
  · rename_i header bytes hreading
    obtain rfl := Option.some.inj h
    exact onBodyRead_within hreading
  · obtain rfl := Option.some.inj h
    exact .put (GameSession.close_moves _)
  · cases h

theorem step_cases (hs : step handle s e = some s') : s.down = none ∧
    ((e = .accept ∧ s' = s.onAccept) ∨
      (∃ i, e = .unregister i ∧ i < s.accepted ∧ (s.sessions i).closing = true ∧ s' = s.unregister i) ∨
      Within s s') := by
  unfold step at hs
  cases hdown : s.down with
  | some raised => simp [hdown] at hs
  | none =>
    simp only [hdown, Option.isSome_none, Bool.false_eq_true, if_false] at hs
    refine ⟨rfl, ?_⟩
    cases e with
    | accept =>
      left
      exact ⟨rfl, (Option.some.inj hs).symm⟩
    | unregister i =>
      right; left
      obtain ⟨⟨hlt, hclosing⟩, hs⟩ := Option.ite_none_right_eq_some.mp hs
      exact ⟨i, rfl, hlt, hclosing, (Option.some.inj hs).symm⟩
    | readEnds i ended =>
      right; right
      obtain ⟨-, hs⟩ := Option.ite_none_right_eq_some.mp hs
      obtain ⟨x, hx, rfl⟩ := Option.map_eq_some_iff.mp hs
      exact .put (GameSession.readEnds_moves hx)
    | onRead i =>
      right; right
      obtain ⟨-, hs⟩ := Option.ite_none_right_eq_some.mp hs
      exact onRead_within hs
    | post i data =>
      right; right
      obtain ⟨-, hs⟩ := Option.ite_none_right_eq_some.mp hs
      obtain rfl := Option.some.inj hs
      exact .put (GameSession.posted_keeps _ _).moves
    | dispatch i =>
      right; right
      simp only at hs
      split at hs
      · obtain ⟨-, hs⟩ := Option.ite_none_right_eq_some.mp hs
        obtain rfl := Option.some.inj hs
        exact .put ((GameSession.posted_keeps _ _).trans (GameSession.enqueueSend_keeps _ _)).moves
      · cases hs
    | ended i k err =>
      right; right
      obtain ⟨-, hs⟩ := Option.ite_none_right_eq_some.mp hs
      obtain ⟨queue, hq, rfl⟩ := Option.map_eq_some_iff.mp hs
      exact .put (GameSession.setQueue_keeps fun hx => Core.Stream.queue_closed hq hx).moves
    | onWrite i k =>
      right; right
      obtain ⟨-, hs⟩ := Option.ite_none_right_eq_some.mp hs
      obtain ⟨queue, hq, rfl⟩ := Option.map_eq_some_iff.mp hs
      exact .put (GameSession.setQueue_keeps fun hx => Core.Stream.queue_closed hq hx).moves

/-! ## Every run -/

def idOf (i : Nat) : UInt64 := UInt64.ofNat (i + 1)

theorem idOf_inj {i j : Nat} (hi : i < 2 ^ 64 - 1) (hj : j < 2 ^ 64 - 1) (h : idOf i = idOf j) : i = j := by
  have heq := congrArg UInt64.toNat h
  simp only [idOf, UInt64.toNat_ofNat'] at heq
  omega

def ofSession : RelayEvent → Bool
  | .connect _ | .close _ => true
  | .request _ _ _ | .refresh | .answer _ | .handle _ => false

/-- The registry has the sessions whose `Close` is not over, and each of the others was unregistered once. -/
structure Tracked (s : GameServer σ) : Prop where
  nextId : s.relay.nextId = idOf s.accepted
  ids : ∀ i, s.relay.sessionId i = if i < s.accepted then some (idOf i) else none
  table : ∀ id i, s.relay.sessions id = some i ↔
    i < s.accepted ∧ id = idOf i ∧ (s.sessions i).gone = false
  unregistered : ∀ i, s.unregistered.count i = if i < s.accepted ∧ (s.sessions i).gone = true then 1 else 0
  alive : ∀ i < s.accepted, (s.sessions i).Alive

theorem accept_tracked (h : Tracked s) (hids : s.accepted + 1 < 2 ^ 64) : Tracked s.onAccept := by
  have hnew : (s.onAccept).sessions s.accepted = GameSession.asyncHeaderRead {} := by simp [onAccept]
  have hold : ∀ i, i ≠ s.accepted → (s.onAccept).sessions i = s.sessions i := fun i hi => by simp [onAccept, hi]
  have hnext : s.relay.nextId + 1 = idOf (s.accepted + 1) := by
    rw [h.nextId, idOf, idOf, UInt64.ofNat_add (s.accepted + 1) 1]
    rfl
  refine ⟨hnext, fun i => ?_, fun id i => ?_, fun i => ?_, fun i hi => ?_⟩
  · by_cases hi : i = s.accepted
    · subst hi
      simp [onAccept, Relay.register, h.nextId]
    · have hlt : i < s.accepted + 1 ↔ i < s.accepted := by omega
      simp [onAccept, Relay.register, hi, h.ids, hlt]
  · by_cases hid : id = idOf s.accepted
    · subst hid
      have hsome : (s.onAccept).relay.sessions (idOf s.accepted) = some s.accepted := by
        simp [onAccept, Relay.register, h.nextId]
      rw [hsome, Option.some_inj]
      constructor
      · rintro rfl
        refine ⟨Nat.lt_succ_self _, rfl, ?_⟩
        rw [hnew]
        rfl
      · rintro ⟨hlt, heq, -⟩
        have : i < s.accepted + 1 := hlt
        exact idOf_inj (by omega) (by omega) heq
    · have hsame : (s.onAccept).relay.sessions id = s.relay.sessions id := by
        simp [onAccept, Relay.register, h.nextId, hid]
      rw [hsame, h.table]
      by_cases hi : i = s.accepted
      · subst hi
        simp [hid]
      · have hlt : i < (s.onAccept).accepted ↔ i < s.accepted := by
          change i < s.accepted + 1 ↔ i < s.accepted
          omega
        rw [hlt, hold i hi]
  · change s.unregistered.count i = _
    rw [h.unregistered]
    by_cases hi : i = s.accepted
    · subst hi
      rw [hnew]
      simp [GameSession.gone, GameSession.asyncHeaderRead]
    · have hlt : i < (s.onAccept).accepted ↔ i < s.accepted := by
        change i < s.accepted + 1 ↔ i < s.accepted
        omega
      simp only [hold i hi, hlt]
  · by_cases hnow : i = s.accepted
    · subst hnow
      rw [hnew]
      exact ⟨fun _ => rfl, fun hc => by simp [GameSession.asyncHeaderRead] at hc, fun _ => rfl,
        fun hc => by simp [GameSession.asyncHeaderRead] at hc⟩
    · rw [hold i hnow]
      have : i < s.accepted + 1 := hi
      exact h.alive i (by omega)

theorem unregister_tracked (h : Tracked s) {i : Nat} (hlt : i < s.accepted) (hids : s.accepted < 2 ^ 64)
    (hclosing : (s.sessions i).closing = true) : Tracked (s.unregister i) := by
  have hclosed := (h.alive i hlt).closing hclosing
  have hbefore : (s.sessions i).gone = false := by simp [GameSession.gone, hclosing]
  have hafter : ((s.unregister i).sessions i).gone = true := by simp [unregister, GameSession.gone, hclosed]
  have hold : ∀ j, j ≠ i → (s.unregister i).sessions j = s.sessions j := fun j hj => by simp [unregister, hj]
  have hid : (s.relay.sessionId i).getD 0 = idOf i := by simp [h.ids, hlt]
  refine ⟨h.nextId, h.ids, fun id j => ?_, fun j => ?_, fun j hj => ?_⟩
  · change (s.relay.unregister ((s.relay.sessionId i).getD 0)).sessions id = some j ↔ _
    rw [hid]
    by_cases hj : j = i
    · subst hj
      rw [hafter]
      by_cases heq : id = idOf j
      · simp [Relay.unregister, heq]
      · simp [Relay.unregister, heq, h.table]
    · rw [hold j hj]
      change _ ↔ j < s.accepted ∧ _
      by_cases heq : id = idOf i
      · have hno : ¬(j < s.accepted ∧ id = idOf j ∧ (s.sessions j).gone = false) := by
          rintro ⟨hjlt, hjid, -⟩
          exact hj (idOf_inj (by omega) (by omega) (hjid.symm.trans heq))
        simpa [Relay.unregister, heq] using fun hjlt hjid hgone => hno ⟨hjlt, heq ▸ hjid, hgone⟩
      · simp [Relay.unregister, heq, h.table]
  · have haccepted : (s.unregister i).accepted = s.accepted := rfl
    change (s.unregistered ++ [i]).count j = _
    rw [List.count_append, h.unregistered]
    by_cases hj : j = i
    · subst hj
      simp [haccepted, hafter, hbefore, hlt]
    · simp [haccepted, hold j hj, Ne.symm hj]
  · by_cases hj' : j = i
    · subst hj'
      have ha := h.alive j hlt
      have hsame : (s.unregister j).sessions j = { s.sessions j with closing := false } := by simp [unregister]
      rw [hsame]
      exact ⟨ha.reads, fun hc => by simp at hc, ha.early, ha.late⟩
    · rw [hold j hj']
      exact h.alive j hj

theorem Within.tracked (hw : Within s s') (hup : s'.down = none) (h : Tracked s) : Tracked s' := by
  have hgone : ∀ j, (s'.sessions j).gone = (s.sessions j).gone := fun j => (hw.moves hup j).gone
  refine ⟨?_, ?_, ?_, ?_, fun i hi => ?_⟩
  · rw [hw.relay, hw.accepted]
    exact h.nextId
  · rw [hw.relay, hw.accepted]
    exact h.ids
  · intro id i
    rw [hw.relay, hw.accepted, hgone]
    exact h.table id i
  · intro i
    rw [hw.unregistered, hw.accepted, hgone]
    exact h.unregistered i
  · rw [hw.accepted] at hi
    exact (hw.moves hup i).alive (h.alive i hi)

theorem start_tracked (state : σ) : Tracked ({ state := state } : GameServer σ) where
  nextId := rfl
  ids _ := rfl
  table id i := by simp
  unregistered i := by simp
  alive i hi := absurd hi (Nat.not_lt_zero i)

/-- The registry takes the steps of the relay: the session connects, or it is closed. -/
theorem step_relay (h : Tracked s) (hs : step handle s e = some s') :
    ∃ fs, (∀ f ∈ fs, ofSession f = true) ∧ run Relay.step s.relay fs = some s'.relay := by
  obtain ⟨-, ⟨-, rfl⟩ | ⟨i, -, hlt, -, rfl⟩ | hw⟩ := step_cases hs
  · refine ⟨[.connect s.accepted], by simp [ofSession], ?_⟩
    have hnew : s.relay.sessionId s.accepted = none := by simp [h.ids]
    simp only [run_cons, run_nil, Relay.step, hnew, Option.bind_some]
    rfl
  · refine ⟨[.close i], by simp [ofSession], ?_⟩
    have hid : s.relay.sessionId i = some (idOf i) := by simp [h.ids, hlt]
    simp only [run_cons, run_nil, Relay.step, unregister, hid, Option.map_some, Option.bind_some, Option.getD_some]
  · exact ⟨[], by simp, by rw [hw.relay, run_nil]⟩

theorem step_tracked (h : Tracked s) (hids : s'.accepted < 2 ^ 64) (hup : s'.down = none)
    (hs : step handle s e = some s') : Tracked s' := by
  obtain ⟨-, ⟨-, rfl⟩ | ⟨i, -, hlt, hclosing, rfl⟩ | hw⟩ := step_cases hs
  · exact accept_tracked h hids
  · exact unregister_tracked h hlt hids hclosing
  · exact hw.tracked hup h

theorem step_accepted (hs : step handle s e = some s') : s.accepted ≤ s'.accepted := by
  obtain ⟨-, ⟨-, rfl⟩ | ⟨i, -, -, -, rfl⟩ | hw⟩ := step_cases hs
  · exact Nat.le_succ _
  · exact Nat.le_refl _
  · exact Nat.le_of_eq hw.accepted.symm

/-- Every run: the registry is that of a run of the relay in which sessions only connect and close. A session is
found under its id until its `Close` is over, whichever handler called it and how often, and it is unregistered
once; while it is open, a read is in progress, and after it has closed, one more packet is handled at most. -/
theorem registered_while_open {state : σ} {es : List SessionEvent} {t : GameServer σ}
    (h : run (step handle) { state := state } es = some t) (hids : t.accepted < 2 ^ 64) (hup : t.down = none) :
    (∃ fs, (∀ f ∈ fs, ofSession f = true) ∧ run Relay.step {} fs = some t.relay) ∧
    (∀ id i, t.relay.find id = some i ↔
      i < t.accepted ∧ t.relay.sessionId i = some id ∧ (t.sessions i).gone = false) ∧
    ∀ i < t.accepted, t.unregistered.count i = (if (t.sessions i).gone then 1 else 0) ∧
      ((t.sessions i).queue.closed = false → (t.sessions i).reading.isSome) ∧ (t.sessions i).late ≤ 1 := by
  have hall := run_invariant (P := fun s : GameServer σ => s.accepted < 2 ^ 64 → (s.down = none → Tracked s) ∧
      ∃ fs, (∀ f ∈ fs, ofSession f = true) ∧ run Relay.step {} fs = some s.relay) (fun s e s' ih hs hids => ?_)
    (fun _ => ⟨fun _ => start_tracked state, [], by simp, rfl⟩) h hids
  · obtain ⟨htracked, hrelay⟩ := hall
    have ht := htracked hup
    refine ⟨hrelay, fun id i => ?_, fun i hi => ⟨?_, (ht.alive i hi).reads, ?_⟩⟩
    · rw [Relay.find, ht.table, ht.ids]
      constructor
      · rintro ⟨hlt, rfl, hgone⟩
        exact ⟨hlt, if_pos hlt, hgone⟩
      · rintro ⟨hlt, hid, hgone⟩
        rw [if_pos hlt] at hid
        exact ⟨hlt, (Option.some.inj hid).symm, hgone⟩
    · rw [ht.unregistered]
      simp [hi]
    · cases hc : (t.sessions i).queue.closed with
      | true => exact Nat.le_of_add_right_le ((ht.alive i hi).late hc)
      | false => rw [(ht.alive i hi).early hc]; exact Nat.zero_le 1
  · obtain ⟨htracked, fs, hof, hfs⟩ := ih (Nat.lt_of_le_of_lt (step_accepted hs) hids)
    have ht := htracked (step_cases hs).1
    obtain ⟨gs, hof', hgs⟩ := step_relay ht hs
    exact ⟨fun hup => step_tracked ht hids hup hs, fs ++ gs, List.forall_mem_append.mpr ⟨hof, hof'⟩,
      run_append.mpr ⟨_, hfs, hgs⟩⟩

/-- A write of the first session fails while a header of it waits: its packet, without a body, is still
handled. The second session stays. -/
def lateEvents : List SessionEvent :=
  [.accept, .accept, .post 0 [1], .dispatch 0, .readEnds 0 (.full [0, 0, 7, 0]), .ended 0 0 true, .onWrite 0 0,
    .unregister 0, .onRead 0, .onRead 0, .readEnds 0 .failed, .onRead 0]

/-- A handler that counts, and sends to the second session. -/
def counting : SessionHandler Nat := fun _ _ _ n => .ok (n + 1, [(1, [5])])

theorem registered_while_open_late : ∃ t, run (step counting) { state := 0 } lateEvents = some t ∧
    t.state = 1 ∧ (t.sessions 0).gone = true ∧ (t.sessions 0).late = 1 ∧ (t.sessions 1).posted = [[5]] ∧
    t.unregistered.count 0 = 1 ∧ t.relay.find 2 = some 1 := by
  obtain ⟨t, ht, hstate, hgone, hlate, hposted, hopen, haccepted, hid, hup⟩ :
      ∃ t, run (step counting) { state := 0 } lateEvents = some t ∧ t.state = 1 ∧ (t.sessions 0).gone = true ∧
        (t.sessions 0).late = 1 ∧ (t.sessions 1).posted = [[5]] ∧ (t.sessions 1).gone = false ∧ t.accepted = 2 ∧
        t.relay.sessionId 1 = some 2 ∧ t.down = none := ⟨_, rfl, rfl, rfl, rfl, rfl, rfl, rfl, rfl, rfl⟩
  have hall := registered_while_open ht (by rw [haccepted]; decide) hup
  have hcount := (hall.2.2 0 (by rw [haccepted]; decide)).1
  rw [hgone] at hcount
  exact ⟨t, ht, hstate, hgone, hlate, hposted, hcount, (hall.2.1 2 1).mpr ⟨by rw [haccepted]; decide, hid, hopen⟩⟩

end GameServer

end Game
