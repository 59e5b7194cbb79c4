import J1Server.Lib.Runs

/-! # The send queue of a session

What runs on the strand, one handler after the other, and what the network does
to the writes in between. -/

namespace Core

open Lib

abbrev Buffer := List UInt8

/-- An `async_write` whose handler did not run yet, and how it ended. -/
structure Outstanding where
  data : Buffer
  error : Option Bool
  deriving DecidableEq

structure SendQueue where
  sendQueue : List Buffer := []
  writing : Bool := false
  closed : Bool := false
  writes : List Outstanding := []
  deriving DecidableEq

def maxSendQueue : Nat := 4096

namespace SendQueue

def close (s : SendQueue) : SendQueue := { s with closed := true }

/-- Called with a queue that is not empty: there is no front of an empty one. -/
def doWrite (s : SendQueue) : SendQueue :=
  { s with writing := true, writes := s.writes ++ (s.sendQueue.head?.map fun data => ⟨data, none⟩).toList }

def enqueueSend (s : SendQueue) (data : Buffer) : SendQueue :=
  if maxSendQueue ≤ s.sendQueue.length then close { s with sendQueue := [], writing := false }
  else
    let s := { s with sendQueue := s.sendQueue ++ [data] }
    if s.writing then s else s.doWrite

def sendShared (s : SendQueue) (buffer : Option Buffer) : SendQueue :=
  match buffer with
  | none | some [] => s
  | some data => s.enqueueSend data

def onWrite (s : SendQueue) (err : Bool) : SendQueue :=
  if err then close { s with sendQueue := [], writing := false }
  else
    let s := { s with sendQueue := s.sendQueue.tail }
    if s.sendQueue = [] then { s with writing := false } else s.doWrite

end SendQueue

inductive SendEvent
  | send (data : Buffer)
  | sendShared (buffer : Option Buffer)
  /-- A write ends, and its handler is queued. On a closed socket it ends with an error. -/
  | ended (k : Nat) (err : Bool)
  /-- The handler of a write runs. -/
  | handler (k : Nat)
  | close
  deriving DecidableEq

namespace SendQueue

def step (s : SendQueue) : SendEvent → Option SendQueue
  | .send data => some (s.enqueueSend data)
  | .sendShared buffer => some (s.sendShared buffer)
  | .ended k err =>
    match s.writes[k]? with
    | some ⟨data, none⟩ =>
      if err || !s.closed then some { s with writes := s.writes.set k ⟨data, some err⟩ } else none
    | _ => none
  | .handler k =>
    match s.writes[k]? with
    | some ⟨_, some err⟩ => some (({ s with writes := s.writes.eraseIdx k } : SendQueue).onWrite err)
    | _ => none
  | .close => some s.close

/-- One write at most, `_writing` tells whether there is one, and when its handler runs without an
error, it finds its buffer at the front. -/
structure Consistent (s : SendQueue) : Prop where
  one : s.writes.length ≤ 1
  writing : s.writing = true ↔ s.writes ≠ []
  front : ∀ w ∈ s.writes, w.error = some false → s.sendQueue.head? = some w.data

def NoOverflow (s : SendQueue) : SendEvent → Prop
  | .send _ | .sendShared (some (_ :: _)) => s.sendQueue.length < maxSendQueue
  | _ => True

/-- Nothing is queued and nothing is written, or the front is being written. -/
def Sending (s : SendQueue) : Prop :=
  (s.sendQueue = [] ∧ s.writing = false ∧ s.writes = []) ∨
  ∃ data rest error, s.sendQueue = data :: rest ∧ s.writing = true ∧ s.writes = [⟨data, error⟩]

variable {s s' : SendQueue}

theorem Sending.consistent (h : Sending s) : Consistent s := by
  rcases h with ⟨hq, hw, hws⟩ | ⟨data, rest, error, hq, hw, hws⟩
  · constructor <;> simp [hw, hws]
  · constructor <;> simp [hq, hw, hws]

/-! ## What an event can do -/

theorem step_ended {k : Nat} {err : Bool} (hs : s.step (.ended k err) = some s') :
    ∃ data, s.writes[k]? = some ⟨data, none⟩ ∧ (err = true ∨ s.closed = false) ∧
      s' = { s with writes := s.writes.set k ⟨data, some err⟩ } := by
  simp only [step] at hs
  split at hs
  · rename_i data hk
    split at hs
    · rename_i hopen
      exact ⟨data, hk, by simpa using hopen, (Option.some.inj hs).symm⟩
    · cases hs
  · cases hs

theorem step_handler {k : Nat} (hs : s.step (.handler k) = some s') :
    ∃ data err, s.writes[k]? = some ⟨data, some err⟩ ∧
      s' = ({ s with writes := s.writes.eraseIdx k } : SendQueue).onWrite err := by
  simp only [step] at hs
  split at hs
  · rename_i data err hk
    exact ⟨data, err, hk, (Option.some.inj hs).symm⟩
  · cases hs

/-! ## One handler -/

theorem enqueueSend_sending (h : Sending s) (hno : s.sendQueue.length < maxSendQueue) (data : Buffer) :
    Sending (s.enqueueSend data) := by
  unfold enqueueSend
  rw [if_neg (Nat.not_le.mpr hno)]
  rcases h with ⟨hq, hw, hws⟩ | ⟨front, rest, error, hq, hw, hws⟩
  · right
    exact ⟨data, [], none, by simp [hq, hw, hws, doWrite]⟩
  · right
    exact ⟨front, rest ++ [data], error, by simp [hq, hw, hws]⟩

theorem onWrite_sending {data : Buffer} {rest : List Buffer} (hq : s.sendQueue = data :: rest)
    (hws : s.writes = []) (err : Bool) : Sending (s.onWrite err) := by
  unfold onWrite
  cases err with
  | true =>
    left
    simp [close, hws]
  | false =>
    cases rest with
    | nil =>
      left
      simp [hq, hws]
    | cons next rest =>
      right
      exact ⟨next, rest, none, by simp [hq, hws, doWrite]⟩

theorem getElem?_one {w x : Outstanding} {k : Nat} (h : [w][k]? = some x) : k = 0 ∧ w = x := by
  rw [List.getElem?_singleton] at h
  split at h
  · rename_i hk
    exact ⟨hk, Option.some.inj h⟩
  · cases h

theorem step_sending {e : SendEvent} (h : Sending s) (hno : NoOverflow s e) (hs : s.step e = some s') :
    Sending s' := by
  cases e with
  | send data =>
    obtain rfl : s.enqueueSend data = s' := Option.some.inj hs
    exact enqueueSend_sending h hno data
  | sendShared buffer =>
    obtain rfl : s.sendShared buffer = s' := Option.some.inj hs
    match buffer with
    | none | some [] => exact h
    | some (b :: data) => exact enqueueSend_sending h hno (b :: data)
  | ended k err =>
    obtain ⟨data, hk, -, rfl⟩ := step_ended hs
    rcases h with ⟨-, -, hws⟩ | ⟨front, rest, error, hq, hw, hws⟩
    · simp [hws] at hk
    · rw [hws] at hk
      obtain ⟨rfl, hfront⟩ := getElem?_one hk
      obtain ⟨rfl, -⟩ := Outstanding.mk.inj hfront
      right
      exact ⟨front, rest, some err, hq, hw, by simp [hws]⟩
  | handler k =>
    obtain ⟨data, err, hk, rfl⟩ := step_handler hs
    rcases h with ⟨-, -, hws⟩ | ⟨front, rest, error, hq, hw, hws⟩
    · simp [hws] at hk
    · rw [hws] at hk
      obtain ⟨rfl, -⟩ := getElem?_one hk
      exact onWrite_sending (s := { s with writes := s.writes.eraseIdx 0 }) hq (by simp [hws]) err
  | close =>
    obtain rfl : s.close = s' := Option.some.inj hs
    exact h

theorem enqueueSend_overflow (h : Sending s) (hfull : maxSendQueue ≤ s.sendQueue.length) (data : Buffer) :
    ¬Consistent (s.enqueueSend data) := by
  unfold enqueueSend
  rw [if_pos hfull]
  rcases h with ⟨hq, -, -⟩ | ⟨front, rest, error, -, -, hws⟩
  · rw [hq] at hfull
    exact absurd hfull (by decide)
  · intro hc
    have hwriting := hc.writing
    simp [close, hws] at hwriting

theorem step_overflow {e : SendEvent} (h : Sending s) (hfull : ¬NoOverflow s e) :
    ∃ s', s.step e = some s' ∧ ¬Consistent s' := by
  match e with
  | .send data =>
    exact ⟨_, rfl, enqueueSend_overflow h (Nat.not_lt.mp hfull) data⟩
  | .sendShared (some (b :: data)) =>
    exact ⟨_, rfl, enqueueSend_overflow h (Nat.not_lt.mp hfull) (b :: data)⟩
  | .sendShared none | .sendShared (some []) | .ended _ _ | .handler _ | .close =>
    exact absurd trivial hfull

/-! ## Every run -/

/-- The queue is consistent in every state of a run, if and only if no buffer is sent while the queue is
full. -/
theorem send_queue_consistent_iff (es : List SendEvent) :
    (∀ sofar, sofar <+: es → ∀ t, run step {} sofar = some t → Consistent t) ↔ Along step NoOverflow {} es :=
  always_iff_along (I := Sending) (fun _ => Sending.consistent) (fun _ _ _ => step_sending)
    (fun _ _ => step_overflow) (Or.inl ⟨rfl, rfl, rfl⟩) es

/-! ## A queue that overflows -/

theorem run_sends (data : Buffer) (n : Nat) (hn : n + 1 ≤ maxSendQueue) :
    run step {} (List.replicate (n + 1) (.send data)) =
      some ⟨List.replicate (n + 1) data, true, false, [⟨data, none⟩]⟩ := by
  induction n with
  | zero => rfl
  | succ n ih =>
    have hroom : ¬maxSendQueue ≤ n + 1 := by omega
    rw [List.replicate_succ', run_append]
    refine ⟨_, ih (by omega), ?_⟩
    simp [step, enqueueSend, hroom, ← List.replicate_succ']

/-- The write ends, and before its handler runs, one buffer too many and then another one are sent. -/
def overflowEvents : List SendEvent :=
  List.replicate 4096 (.send [1]) ++ [.ended 0 false, .send [2], .send [3]]

/-- Two writes are outstanding, and the handler of the first will take the buffer of the second. -/
theorem overflow_forgets_write : ∃ s, run step {} overflowEvents = some s ∧
    s.writes = [⟨[1], some false⟩, ⟨[3], none⟩] ∧ s.sendQueue = [[3]] ∧ ¬Consistent s := by
  refine ⟨⟨[[3]], true, true, [⟨[1], some false⟩, ⟨[3], none⟩]⟩, ?_, rfl, rfl, fun h => ?_⟩
  · rw [overflowEvents, run_append]
    refine ⟨_, run_sends [1] 4095 (by decide), ?_⟩
    have hended : step ⟨List.replicate 4096 [1], true, false, [⟨[1], none⟩]⟩ (.ended 0 false) =
        some ⟨List.replicate 4096 [1], true, false, [⟨[1], some false⟩]⟩ := rfl
    have hoverflow : step ⟨List.replicate 4096 [1], true, false, [⟨[1], some false⟩]⟩ (.send [2]) =
        some ⟨[], false, true, [⟨[1], some false⟩]⟩ := by
      have hfull : maxSendQueue ≤ (List.replicate 4096 ([1] : Buffer)).length := by
        rw [List.length_replicate]
        exact Nat.le_refl 4096
      rw [step, enqueueSend, if_pos hfull]
      rfl
    rw [run_cons, hended, Option.bind_some, run_cons, hoverflow]
    rfl
  · have hfront := h.front ⟨[1], some false⟩ (by simp) rfl
    cases hfront

end SendQueue

end Core
