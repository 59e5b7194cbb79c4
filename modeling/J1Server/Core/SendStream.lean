import J1Server.Core.SendQueue

/-! # The outgoing stream of a session

The send queue next to the list it implements: the buffers it accepted, the ones it handed to
`async_write` while the socket was open, and the ones that went out. -/

namespace Core

open Lib

/-- What `EnqueueSend` puts into the queue. -/
def SendQueue.accepts (s : SendQueue) : SendEvent → List Buffer
  | .send data => if s.sendQueue.length < maxSendQueue then [data] else []
  | .sendShared (some (b :: data)) => if s.sendQueue.length < maxSendQueue then [b :: data] else []
  | _ => []

/-- How many of the outstanding writes are still outstanding after an event. -/
def SendQueue.keeps (s : SendQueue) : SendEvent → Nat
  | .handler _ => s.writes.length - 1
  | _ => s.writes.length

def SendQueue.transmits (s : SendQueue) : SendEvent → List Buffer
  | .ended k false => (s.writes[k]?.map Outstanding.data).toList
  | _ => []

structure Stream where
  queue : SendQueue := {}
  accepted : List Buffer := []
  handed : List Buffer := []
  transmitted : List Buffer := []
  deriving DecidableEq

namespace Stream

/-- The writes that an event starts are the last ones. On a closed socket they do not count. -/
def started (s s' : SendQueue) (e : SendEvent) : List Buffer :=
  if s.closed then [] else (s'.writes.drop (s.keeps e)).map Outstanding.data

def after (s : Stream) (e : SendEvent) (queue : SendQueue) : Stream where
  queue := queue
  accepted := s.accepted ++ s.queue.accepts e
  handed := s.handed ++ started s.queue queue e
  transmitted := s.transmitted ++ s.queue.transmits e

def step (s : Stream) (e : SendEvent) : Option Stream := (s.queue.step e).map (s.after e)

theorem step_eq {s s' : Stream} {e : SendEvent} (hs : step s e = some s') :
    ∃ queue, s.queue.step e = some queue ∧ s' = s.after e queue := by
  obtain ⟨queue, hq, rfl⟩ := Option.map_eq_some_iff.mp hs
  exact ⟨queue, hq, rfl⟩

/-- The machine is the queue, with a memory. -/
theorem run_queue {s t : Stream} {es : List SendEvent} (h : run step s es = some t) :
    run SendQueue.step s.queue es = some t.queue := by
  induction es generalizing s with
  | nil =>
    obtain rfl : s = t := Option.some.inj h
    rfl
  | cons e es ih =>
    obtain ⟨s', hs, h'⟩ := run_cons_iff.mp h
    obtain ⟨queue, hq, rfl⟩ := step_eq hs
    exact run_cons_iff.mpr ⟨queue, hq, ih h'⟩

/-- Nothing is on the way, or all that was handed over but the front went out, and what was not handed
over waits behind the front. -/
def Flowing (s : Stream) : Prop :=
  (s.queue.sendQueue = [] ∧ s.queue.writing = false ∧ s.queue.writes = [] ∧
    s.handed = s.accepted ∧ s.transmitted = s.handed) ∨
  ∃ done data rest error, s.queue.sendQueue = data :: rest ∧ s.queue.writing = true ∧
    s.queue.writes = [⟨data, error⟩] ∧ s.handed = done ++ [data] ∧
    s.accepted = done ++ data :: rest ∧
    s.transmitted = if error = some false then done ++ [data] else done

structure InOrder (s : Stream) : Prop where
  handed : s.handed <+: s.accepted
  transmitted : s.transmitted <+: s.handed
  flowing : s.queue.closed = false → Flowing s

variable {s s' : Stream} {e : SendEvent}

theorem Flowing.inOrder (h : Flowing s) : InOrder s := by
  refine ⟨?_, ?_, fun _ => h⟩
  · rcases h with ⟨-, -, -, hh, -⟩ | ⟨done, data, rest, error, -, -, -, hh, ha, -⟩
    · exact hh ▸ List.prefix_rfl
    · rw [hh, ha]
      exact ⟨rest, by simp⟩
  · rcases h with ⟨-, -, -, -, ht⟩ | ⟨done, data, rest, error, -, -, -, hh, -, ht⟩
    · exact ht ▸ List.prefix_rfl
    · rw [hh, ht]
      split
      · exact List.prefix_rfl
      · exact List.prefix_append _ _

/-! ## A closed socket -/

theorem enqueueSend_closed {s : SendQueue} (h : s.closed = true) (data : Buffer) :
    (s.enqueueSend data).closed = true := by
  unfold SendQueue.enqueueSend
  split
  · rfl
  · by_cases hw : s.writing <;> simp [hw, h, SendQueue.doWrite]

theorem onWrite_closed {s : SendQueue} (h : s.closed = true) (err : Bool) : (s.onWrite err).closed = true := by
  unfold SendQueue.onWrite
  split
  · rfl
  · by_cases hq : s.sendQueue.tail = [] <;> simp [hq, h, SendQueue.doWrite]

theorem queue_closed {s s' : SendQueue} (hs : s.step e = some s') (hc : s.closed = true) :
    s'.closed = true := by
  match e with
  | .send data =>
    obtain rfl : s.enqueueSend data = s' := Option.some.inj hs
    exact enqueueSend_closed hc data
  | .sendShared none | .sendShared (some []) =>
    obtain rfl : s = s' := Option.some.inj hs
    exact hc
  | .sendShared (some (b :: data)) =>
    obtain rfl : s.enqueueSend (b :: data) = s' := Option.some.inj hs
    exact enqueueSend_closed hc (b :: data)
  | .ended k err =>
    obtain ⟨data, -, -, rfl⟩ := SendQueue.step_ended hs
    exact hc
  | .handler k =>
    obtain ⟨data, err, -, rfl⟩ := SendQueue.step_handler hs
    apply onWrite_closed
    exact hc
  | .close =>
    obtain rfl : s.close = s' := Option.some.inj hs
    rfl

theorem transmits_closed {s s' : SendQueue} (hs : s.step e = some s') (hc : s.closed = true) :
    s.transmits e = [] := by
  match e with
  | .ended k false =>
    obtain ⟨data, -, hopen, -⟩ := SendQueue.step_ended hs
    simp [hc] at hopen
  | .ended k true | .send _ | .sendShared _ | .handler _ | .close => rfl

theorem step_closed (hs : step s e = some s') (hc : s.queue.closed = true) :
    s'.queue.closed = true ∧ s'.handed = s.handed ∧ s'.transmitted = s.transmitted := by
  obtain ⟨queue, hq, rfl⟩ := step_eq hs
  refine ⟨queue_closed hq hc, ?_, ?_⟩
  · simp [after, started, hc]
  · simp [after, transmits_closed hq hc]

theorem run_closed {t : Stream} {es : List SendEvent} (h : run step s es = some t)
    (hc : s.queue.closed = true) : t.handed = s.handed ∧ t.transmitted = s.transmitted := by
  have hall := run_invariant (P := fun x => x.queue.closed = true ∧ x.handed = s.handed ∧
      x.transmitted = s.transmitted) (fun a e b hp hs => ?_) ⟨hc, rfl, rfl⟩ h
  · exact hall.2
  · obtain ⟨hb, hh, ht⟩ := step_closed hs hp.1
    exact ⟨hb, hh.trans hp.2.1, ht.trans hp.2.2⟩

/-! ## An open socket -/

theorem after_closed (h : InOrder s) {queue : SendQueue} (hc : queue.closed = true)
    (hnew : started s.queue queue e = []) (hsent : s.queue.transmits e = []) :
    InOrder (s.after e queue) where
  handed := by
    simp only [after, hnew, List.append_nil]
    exact h.handed.trans (List.prefix_append _ _)
  transmitted := by
    simp only [after, hnew, hsent, List.append_nil]
    exact h.transmitted
  flowing hopen := by simp [after, hc] at hopen

/-- A buffer that is accepted, and by which event does not matter. -/
theorem enqueue_flowing (h : Flowing s) (hopen : s.queue.closed = false) {data : Buffer}
    (hroom : s.queue.sendQueue.length < maxSendQueue) (haccepts : s.queue.accepts e = [data])
    (hkeeps : s.queue.keeps e = s.queue.writes.length) (hsent : s.queue.transmits e = []) :
    Flowing (s.after e (s.queue.enqueueSend data)) := by
  unfold SendQueue.enqueueSend
  rw [if_neg (Nat.not_le.mpr hroom)]
  right
  rcases h with ⟨hq, hw, hws, hh, ht⟩ | ⟨done, front, rest, error, hq, hw, hws, hh, ha, ht⟩
  · refine ⟨s.accepted, data, [], none, ?_⟩
    simp [after, started, SendQueue.doWrite, hopen, haccepts, hkeeps, hsent, hq, hw, hws, hh, ht]
  · refine ⟨done, front, rest ++ [data], error, ?_⟩
    simp [after, started, hopen, haccepts, hkeeps, hsent, hq, hw, hws, hh, ha, ht]

theorem enqueue_inOrder (h : InOrder s) {data : Buffer}
    (haccepts : s.queue.accepts e = if s.queue.sendQueue.length < maxSendQueue then [data] else [])
    (hkeeps : s.queue.keeps e = s.queue.writes.length) (hsent : s.queue.transmits e = [])
    (hs : step s e = some (s.after e (s.queue.enqueueSend data))) :
    InOrder (s.after e (s.queue.enqueueSend data)) := by
  by_cases hopen : s.queue.closed = false
  · by_cases hroom : s.queue.sendQueue.length < maxSendQueue
    · rw [if_pos hroom] at haccepts
      exact (enqueue_flowing (h.flowing hopen) hopen hroom haccepts hkeeps hsent).inOrder
    · apply after_closed h
      · simp [SendQueue.enqueueSend, Nat.not_lt.mp hroom, SendQueue.close]
      · simp [started, SendQueue.enqueueSend, Nat.not_lt.mp hroom, SendQueue.close, hkeeps]
      · exact hsent
  · obtain ⟨hc, -, -⟩ := step_closed hs (by simpa using hopen)
    exact after_closed h hc (by simp [started, hopen]) hsent

theorem handler_flowing {done rest : List Buffer} {data : Buffer} (hopen : s.queue.closed = false)
    (hq : s.queue.sendQueue = data :: rest) (hws : s.queue.writes = [⟨data, some false⟩])
    (hh : s.handed = done ++ [data]) (ha : s.accepted = done ++ data :: rest)
    (ht : s.transmitted = done ++ [data]) :
    Flowing (s.after (.handler 0)
      (({ s.queue with writes := s.queue.writes.eraseIdx 0 } : SendQueue).onWrite false)) := by
  unfold SendQueue.onWrite
  cases rest with
  | nil =>
    left
    simp [after, started, SendQueue.accepts, SendQueue.transmits, SendQueue.keeps, hopen, hq, hws, hh, ha, ht]
  | cons next rest =>
    right
    refine ⟨done ++ [data], next, rest, none, ?_⟩
    simp [after, started, SendQueue.doWrite, SendQueue.accepts, SendQueue.transmits, SendQueue.keeps,
      hopen, hq, hws, hh, ha, ht]

theorem started_ended (s : SendQueue) (k : Nat) (err : Bool) (w : Outstanding) :
    started s { s with writes := s.writes.set k w } (.ended k err) = [] := by
  simp [started, SendQueue.keeps]

theorem ended_inOrder {k : Nat} {err : Bool} {data : Buffer} (h : InOrder s)
    (hk : s.queue.writes[k]? = some ⟨data, none⟩) (hopen : err = true ∨ s.queue.closed = false) :
    InOrder (s.after (.ended k err) { s.queue with writes := s.queue.writes.set k ⟨data, some err⟩ }) := by
  have hnew := started_ended s.queue k err ⟨data, some err⟩
  cases hc : s.queue.closed with
  | true =>
    obtain rfl : err = true := by simpa [hc] using hopen
    exact after_closed h hc hnew rfl
  | false =>
    rcases h.flowing hc with ⟨-, -, hws, -⟩ | ⟨done, front, rest, error, hq, hw, hws, hh, ha, ht⟩
    · simp [hws] at hk
    · rw [hws] at hk
      obtain ⟨rfl, hfront⟩ := SendQueue.getElem?_one hk
      obtain ⟨rfl, rfl⟩ := Outstanding.mk.inj hfront
      apply Flowing.inOrder
      right
      refine ⟨done, front, rest, some err, hq, hw, by simp [after, hws], ?_, ?_, ?_⟩
      · simp [after, hnew, hh]
      · simp [after, SendQueue.accepts, ha]
      · cases err <;> simp [after, SendQueue.transmits, hws, ht]

theorem handler_inOrder {k : Nat} {err : Bool} {data : Buffer} (h : InOrder s)
    (hk : s.queue.writes[k]? = some ⟨data, some err⟩) {queue : SendQueue}
    (hqueue : queue = ({ s.queue with writes := s.queue.writes.eraseIdx k } : SendQueue).onWrite err)
    (hs : s.queue.step (.handler k) = some queue) : InOrder (s.after (.handler k) queue) := by
  cases hc : s.queue.closed with
  | true => exact after_closed h (queue_closed hs hc) (by simp [started, hc]) rfl
  | false =>
    rcases h.flowing hc with ⟨-, -, hws, -⟩ | ⟨done, front, rest, error, hq, hw, hws, hh, ha, ht⟩
    · simp [hws] at hk
    · rw [hws] at hk
      obtain ⟨rfl, hfront⟩ := SendQueue.getElem?_one hk
      obtain ⟨rfl, rfl⟩ := Outstanding.mk.inj hfront
      subst hqueue
      cases err with
      | true =>
        apply after_closed h
        · simp [SendQueue.onWrite, SendQueue.close]
        · simp [started, SendQueue.onWrite, SendQueue.close, hws]
        · rfl
      | false => exact (handler_flowing hc hq hws hh ha ht).inOrder

theorem step_inOrder (h : InOrder s) (hs : step s e = some s') : InOrder s' := by
  obtain ⟨queue, hq, rfl⟩ := step_eq hs
  match e with
  | .send data =>
    obtain rfl : s.queue.enqueueSend data = queue := Option.some.inj hq
    exact enqueue_inOrder h rfl rfl rfl hs
  | .sendShared (some (b :: data)) =>
    obtain rfl : s.queue.enqueueSend (b :: data) = queue := Option.some.inj hq
    exact enqueue_inOrder h rfl rfl rfl hs
  | .sendShared none | .sendShared (some []) =>
    obtain rfl : s.queue = queue := Option.some.inj hq
    simpa [after, started, SendQueue.accepts, SendQueue.keeps, SendQueue.transmits] using h
  | .close =>
    obtain rfl : s.queue.close = queue := Option.some.inj hq
    exact after_closed h rfl (by simp [started, SendQueue.keeps, SendQueue.close]) rfl
  | .ended k err =>
    obtain ⟨data, hk, hopen, rfl⟩ := SendQueue.step_ended hq
    exact ended_inOrder h hk hopen
  | .handler k =>
    obtain ⟨data, err, hk, rfl⟩ := SendQueue.step_handler hq
    exact handler_inOrder h hk rfl hq

/-! ## A session that nothing disturbs -/

/-- No error, no overflow and no `Close`. -/
def Undisturbed (s : Stream) : SendEvent → Prop
  | .close | .ended _ true => False
  | e => s.queue.NoOverflow e

structure Healthy (s : SendQueue) : Prop where
  isOpen : s.closed = false
  writes : ∀ w ∈ s.writes, w.error ≠ some true

theorem doWrite_healthy {s : SendQueue} (h : Healthy s) : Healthy s.doWrite where
  isOpen := h.isOpen
  writes w hw := by
    simp only [SendQueue.doWrite, List.mem_append, Option.mem_toList, Option.map_eq_some_iff] at hw
    rcases hw with hw | ⟨data, -, rfl⟩
    · exact h.writes w hw
    · simp

theorem enqueueSend_healthy {s : SendQueue} (h : Healthy s) {data : Buffer}
    (hroom : s.sendQueue.length < maxSendQueue) : Healthy (s.enqueueSend data) := by
  rw [SendQueue.enqueueSend, if_neg (Nat.not_le.mpr hroom)]
  have hpushed : Healthy { s with sendQueue := s.sendQueue ++ [data] } := ⟨h.isOpen, h.writes⟩
  by_cases hw : s.writing
  · simpa [hw] using hpushed
  · simpa [hw] using doWrite_healthy hpushed

theorem onWrite_healthy {s : SendQueue} (h : Healthy s) : Healthy (s.onWrite false) := by
  have hpopped : Healthy { s with sendQueue := s.sendQueue.tail } := ⟨h.isOpen, h.writes⟩
  by_cases hq : s.sendQueue.tail = []
  · simpa [SendQueue.onWrite, hq] using (⟨h.isOpen, h.writes⟩ : Healthy { s with sendQueue := [], writing := false })
  · simpa [SendQueue.onWrite, hq] using doWrite_healthy hpopped

theorem step_healthy (h : Healthy s.queue) (hu : Undisturbed s e) (hs : step s e = some s') :
    Healthy s'.queue := by
  obtain ⟨queue, hq, rfl⟩ := step_eq hs
  match e with
  | .send data =>
    obtain rfl : s.queue.enqueueSend data = queue := Option.some.inj hq
    exact enqueueSend_healthy h hu
  | .sendShared none | .sendShared (some []) =>
    obtain rfl : s.queue = queue := Option.some.inj hq
    exact h
  | .sendShared (some (b :: data)) =>
    obtain rfl : s.queue.enqueueSend (b :: data) = queue := Option.some.inj hq
    exact enqueueSend_healthy h hu
  | .ended k false =>
    obtain ⟨data, -, -, rfl⟩ := SendQueue.step_ended hq
    refine ⟨h.isOpen, fun w hw => ?_⟩
    rcases List.mem_or_eq_of_mem_set hw with hw | rfl
    · exact h.writes w hw
    · simp
  | .handler k =>
    obtain ⟨data, err, hk, rfl⟩ := SendQueue.step_handler hq
    have herr : err = false := by
      simpa using h.writes _ (List.mem_of_getElem? hk)
    rw [herr]
    apply onWrite_healthy
    exact ⟨h.isOpen, fun w hw => h.writes w (List.mem_of_mem_eraseIdx hw)⟩

/-- Every run: what is handed over is the first part of what is accepted, what goes out is the first part
of what is handed over, an undisturbed session has handed over everything once nothing is being
written, and on a closed socket nothing more goes out. -/
theorem stream_in_order {es : List SendEvent} {t : Stream} (h : run step {} es = some t) :
    (∃ k, t.handed = t.accepted.take k) ∧ (∃ k, t.transmitted = t.handed.take k) ∧
    (Along step Undisturbed {} es → t.queue.writes = [] → t.handed = t.accepted ∧ t.transmitted = t.accepted) ∧
    (t.queue.closed = true → ∀ fs u, run step t fs = some u →
      u.handed = t.handed ∧ u.transmitted = t.transmitted) := by
  have hinitial : Flowing {} := Or.inl ⟨rfl, rfl, rfl, rfl, rfl⟩
  have hin : InOrder t := run_invariant (fun _ _ _ => step_inOrder) hinitial.inOrder h
  refine ⟨⟨_, List.prefix_iff_eq_take.mp hin.handed⟩, ⟨_, List.prefix_iff_eq_take.mp hin.transmitted⟩, ?_, ?_⟩
  · intro hu hdone
    have hhealthy : Healthy t.queue :=
      run_along (P := fun s : Stream => Healthy s.queue) (fun _ _ _ => step_healthy) ⟨rfl, by simp⟩ hu h
    rcases hin.flowing hhealthy.isOpen with ⟨-, -, -, hh, ht⟩ | ⟨done, data, rest, error, -, -, hws, -⟩
    · exact ⟨hh, ht.trans hh⟩
    · simp [hdone] at hws
  · intro hc fs u hu
    exact run_closed hu hc

/-- Two buffers, both written; a third one is accepted but the socket is closed before it is handed over. -/
theorem stream_in_order_closed :
    ∃ t, run step {} [.send [1], .sendShared (some [2]), .ended 0 false, .handler 0, .send [3], .close] = some t ∧
      t.accepted = [[1], [2], [3]] ∧ t.handed = [[1], [2]] ∧ t.transmitted = [[1]] ∧
      ∃ k, t.handed = t.accepted.take k := by
  have hrun : run step {} [.send [1], .sendShared (some [2]), .ended 0 false, .handler 0, .send [3], .close] =
    some ⟨⟨[[2], [3]], true, true, [⟨[2], none⟩]⟩, [[1], [2], [3]], [[1], [2]], [[1]]⟩ := rfl
  exact ⟨_, hrun, rfl, rfl, rfl, (stream_in_order hrun).1⟩

end Stream

end Core
