import J1Server.Game.ListPacket
import J1Server.Game.Relay
import J1Server.Lib.Runs
import J1Server.Lib.Timer

/-! # Refreshing the cache

What runs on the auction thread: the answers of the AuctionServer, `MarkDirty`, and the handlers of two
timers. The clock counts nanoseconds and is read once in a handler. -/

namespace Game

open Lib Core Auction

def kRefreshInterval : Int := 60 * 10 ^ 9
def kMinRefreshGap : Int := 3 * 10 ^ 9
def kRequestTimeout : Int := 5 * 10 ^ 9

def refreshRequest (requestId : Int32) : SsReqAuctionList := ⟨kCacheSessionId, requestId, 0, "", false⟩

/-- What becomes of the requests for a list, in the order in which it happens. -/
inductive RefreshLog
  | requested (requestId : Int32)
  | refreshed (requestId : Int32)
  | timedOut (requestId : Int32)
  deriving DecidableEq

/-- `auctionSession` and `timers` tell whether `GAuctionSession` and the two timers were made. -/
structure AuctionCache where
  auctionSession : Bool := false
  timers : Bool := false
  snapshot : Option Snapshot := none
  inFlight : Bool := false
  refreshSeq : Int32 := 0
  dirty : Bool := false
  lastRequestAt : Int := 0
  timer : Timer Unit := {}
  timeoutTimer : Timer Int32 := {}
  timerArmed : Bool := false
  timerTarget : Int := 0
  log : List RefreshLog := []

namespace AuctionCache

def requestRefresh (s : AuctionCache) (now : Int) : AuctionCache :=
  if s.inFlight || !s.auctionSession || !s.timers then s
  else
    let seq := s.refreshSeq + 1
    { s with
      inFlight := true
      refreshSeq := seq
      lastRequestAt := now
      log := s.log ++ [.requested seq]
      timeoutTimer := (s.timeoutTimer.expiresAt (now + kRequestTimeout)).asyncWait seq }

def armTimer (s : AuctionCache) (now delay : Int) : AuctionCache :=
  let target := now + delay
  if s.timerArmed ∧ s.timerTarget ≤ target then s
  else
    { s with
      timerArmed := true
      timerTarget := target
      timer := (s.timer.expiresAt target).asyncWait () }

def gapDelay (s : AuctionCache) (now : Int) : Int :=
  let elapsed := now - s.lastRequestAt
  if kMinRefreshGap ≤ elapsed then 0 else kMinRefreshGap - elapsed

def finishRefresh (pb : Protobuf ResAuctionList) (s : AuctionCache) (now : Int) (pkt : SsResAuctionList) :
    AuctionCache :=
  let s : AuctionCache := { s with
    snapshot := some (Game.finishRefresh pb now pkt.listinfo)
    inFlight := false
    log := s.log ++ [.refreshed pkt.requestId]
    timeoutTimer := s.timeoutTimer.cancel }
  if s.dirty then ({ s with dirty := false } : AuctionCache).armTimer now (s.gapDelay now)
  else s.armTimer now kRefreshInterval

def onRefreshResponse (pb : Protobuf ResAuctionList) (s : AuctionCache) (now : Int) (pkt : SsResAuctionList) :
    AuctionCache :=
  if !s.inFlight || pkt.requestId ≠ s.refreshSeq then s else s.finishRefresh pb now pkt

/-- `Handle_RES_AUCTION_LIST`: other lists are relayed to their sessions. -/
def handleResAuctionList (pb : Protobuf ResAuctionList) (s : AuctionCache) (now : Int) (pkt : SsResAuctionList) :
    AuctionCache :=
  if pkt.sessionId = 0 then s.onRefreshResponse pb now pkt else s

def onRequestTimeout (s : AuctionCache) (now : Int) : AuctionCache :=
  ({ s with inFlight := false, log := s.log ++ [.timedOut s.refreshSeq] } : AuctionCache).armTimer now kRefreshInterval

def onTimeoutTimer (s : AuctionCache) (now : Int) (ec : Bool) (seq : Int32) : AuctionCache :=
  if ec then s
  else if s.inFlight ∧ seq = s.refreshSeq then s.onRequestTimeout now
  else s

def markDirty (s : AuctionCache) (now : Int) : AuctionCache :=
  let s : AuctionCache := { s with dirty := true }
  if s.inFlight then s else s.armTimer now (s.gapDelay now)

def onTimer (s : AuctionCache) (now : Int) (ec : Bool) : AuctionCache :=
  if ec then s
  else
    let s := ({ s with timerArmed := false, dirty := false } : AuctionCache).requestRefresh now
    if s.inFlight then s else s.armTimer now kRefreshInterval

end AuctionCache

/-- The auction thread. `connected` tells whether `OnConnect` ran. -/
structure AuctionThread where
  now : Int
  connected : Bool := false
  cache : AuctionCache

/-- The thread starts after the session and the timers were made. -/
def AuctionThread.start (now : Int) : AuctionThread where
  now := now
  cache := { auctionSession := true, timers := true }

inductive ThreadEvent
  | onConnect
  | response (pkt : SsResAuctionList)
  | markDirty
  /-- A wait completes without an error, and its handler is queued. -/
  | expireTimer (k : Nat)
  | expireTimeout (k : Nat)
  /-- A handler that is queued runs. -/
  | runTimer (k : Nat)
  | runTimeout (k : Nat)
  | tick (nanoseconds : Nat)

namespace AuctionThread

def step (pb : Protobuf ResAuctionList) (s : AuctionThread) : ThreadEvent → Option AuctionThread
  | .onConnect =>
    if s.connected then none else some { s with connected := true, cache := s.cache.requestRefresh s.now }
  | .response pkt => some { s with cache := s.cache.handleResAuctionList pb s.now pkt }
  | .markDirty => some { s with cache := s.cache.markDirty s.now }
  | .expireTimer k => (s.cache.timer.expire s.now k).map fun timer => { s with cache := { s.cache with timer } }
  | .expireTimeout k =>
    (s.cache.timeoutTimer.expire s.now k).map fun timeoutTimer => { s with cache := { s.cache with timeoutTimer } }
  | .runTimer k =>
    (s.cache.timer.take k).map fun (_, ec, timer) =>
      { s with cache := ({ s.cache with timer } : AuctionCache).onTimer s.now ec }
  | .runTimeout k =>
    (s.cache.timeoutTimer.take k).map fun (seq, ec, timeoutTimer) =>
      { s with cache := ({ s.cache with timeoutTimer } : AuctionCache).onTimeoutTimer s.now ec seq }
  | .tick nanoseconds => some { s with now := s.now + nanoseconds }

end AuctionThread

namespace AuctionCache

variable {s : AuctionCache} {now : Int}

/-- A request in flight has its timeout. -/
def Watched (s : AuctionCache) : Prop :=
  s.inFlight = true → ∃ target, (s.refreshSeq, target) ∈ s.timeoutTimer.alive

/-- One wait for the target if the timer is armed, none if it is not. -/
def Armed (s : AuctionCache) : Prop := s.timer.alive = if s.timerArmed then [((), s.timerTarget)] else []

structure Timed (s : AuctionCache) (now : Int) : Prop where
  ready : s.auctionSession = true ∧ s.timers = true
  timely : s.timer.Timely now
  watched : s.Watched
  armed : s.Armed

/-- Of what has no request in flight, only `_timer` matters. -/
theorem Timed.idle (h : s.Timed now) {s' : AuctionCache} (hsession : s'.auctionSession = s.auctionSession)
    (htimers : s'.timers = s.timers) (htimer : s'.timer = s.timer) (harmed : s'.timerArmed = s.timerArmed)
    (htarget : s'.timerTarget = s.timerTarget) (hidle : s'.inFlight = false) : s'.Timed now where
  ready := by rw [hsession, htimers]; exact h.ready
  timely := htimer ▸ h.timely
  watched hflight := by rw [hidle] at hflight; cases hflight
  armed := by unfold Armed; rw [htimer, harmed, htarget]; exact h.armed

/-! ## The handlers -/

theorem gapDelay_nonneg (s : AuctionCache) (now : Int) : 0 ≤ s.gapDelay now := by
  unfold gapDelay
  dsimp only
  split <;> omega

theorem kRefreshInterval_nonneg : 0 ≤ kRefreshInterval := by decide

/-- A wait that is due is not replaced: its target is not after the new one. -/
theorem replaced_aborted (htimely : s.timer.Timely now) (harmed : s.Armed) {delay : Int} (hdelay : 0 ≤ delay)
    (hmove : ¬(s.timerArmed = true ∧ s.timerTarget ≤ now + delay)) : s.timer.cancel.alive = [] := by
  apply Timer.alive_cancel htimely
  intro p hp
  unfold Armed at harmed
  rw [harmed] at hp
  split at hp
  · rename_i hset
    rw [List.mem_singleton.mp hp]
    have : ¬s.timerTarget ≤ now + delay := fun hle => hmove ⟨hset, hle⟩
    omega
  · cases hp

theorem armTimer_armed (htimely : s.timer.Timely now) (harmed : s.Armed) {delay : Int} (hdelay : 0 ≤ delay) :
    (s.armTimer now delay).timer.Timely now ∧ (s.armTimer now delay).Armed := by
  unfold armTimer
  dsimp only
  split
  · exact ⟨htimely, harmed⟩
  · rename_i hmove
    have hnone := replaced_aborted htimely harmed hdelay hmove
    exact ⟨Timer.asyncWait_timely (Timer.expiresAt_timely htimely _) (), by simp [Armed, hnone]⟩

/-- The earlier of two targets stays, and the rest of the cache does. -/
theorem armTimer_eq (s : AuctionCache) (now delay : Int) : ∃ timer, s.armTimer now delay = { s with
    timer
    timerArmed := true
    timerTarget := if s.timerArmed then min s.timerTarget (now + delay) else now + delay } := by
  unfold armTimer
  dsimp only
  split
  · rename_i hkeep
    refine ⟨s.timer, ?_⟩
    rw [if_pos hkeep.1, min_eq_left hkeep.2, ← hkeep.1]
  · rename_i hmove
    have htarget : (if s.timerArmed then min s.timerTarget (now + delay) else now + delay) = now + delay := by
      split
      · rename_i hset
        have : ¬s.timerTarget ≤ now + delay := fun hle => hmove ⟨hset, hle⟩
        omega
      · rfl
    rw [htarget]
    exact ⟨_, rfl⟩

theorem armTimer_timed (h : s.Timed now) {delay : Int} (hdelay : 0 ≤ delay) :
    (s.armTimer now delay).Timed now ∧ (s.armTimer now delay).timerArmed = true := by
  obtain ⟨htimely, harmed⟩ := armTimer_armed h.timely h.armed hdelay
  obtain ⟨timer, heq⟩ := armTimer_eq s now delay
  rw [heq] at htimely harmed ⊢
  exact ⟨⟨h.ready, htimely, h.watched, harmed⟩, rfl⟩

theorem requestRefresh_timed (h : s.Timed now) :
    (s.requestRefresh now).Timed now ∧ (s.requestRefresh now).inFlight = true := by
  unfold requestRefresh
  split
  · rename_i hskip
    refine ⟨h, ?_⟩
    simpa [h.ready] using hskip
  · refine ⟨⟨h.ready, h.timely, fun _ => ?_, h.armed⟩, rfl⟩
    exact ⟨now + kRequestTimeout, by simp⟩

/-- A handler that starts with no request in flight ends with an armed timer, or with a request. -/
def Alive (s : AuctionCache) : Prop := s.inFlight = true ∨ s.timerArmed = true

theorem finishRefresh_timed (pb : Protobuf ResAuctionList) (h : s.Timed now) (pkt : SsResAuctionList) :
    (s.finishRefresh pb now pkt).Timed now ∧ (s.finishRefresh pb now pkt).timerArmed = true := by
  unfold finishRefresh
  dsimp only
  split
  · refine armTimer_timed ?_ (gapDelay_nonneg _ _)
    exact h.idle rfl rfl rfl rfl rfl rfl
  · refine armTimer_timed ?_ kRefreshInterval_nonneg
    exact h.idle rfl rfl rfl rfl rfl rfl

theorem handleResAuctionList_timed (pb : Protobuf ResAuctionList) (h : s.Timed now) (pkt : SsResAuctionList) :
    (s.handleResAuctionList pb now pkt).Timed now ∧ (s.Alive → (s.handleResAuctionList pb now pkt).Alive) := by
  unfold handleResAuctionList onRefreshResponse
  split
  · split
    · exact ⟨h, id⟩
    · obtain ⟨htimed, harmed⟩ := finishRefresh_timed pb h pkt
      exact ⟨htimed, fun _ => Or.inr harmed⟩
  · exact ⟨h, id⟩

theorem markDirty_timed (h : s.Timed now) : (s.markDirty now).Timed now ∧ (s.markDirty now).Alive := by
  unfold markDirty
  dsimp only
  split
  · rename_i hflight
    exact ⟨⟨h.ready, h.timely, h.watched, h.armed⟩, Or.inl hflight⟩
  · obtain ⟨htimed, harmed⟩ := armTimer_timed (s := { s with dirty := true })
      ⟨h.ready, h.timely, h.watched, h.armed⟩ (gapDelay_nonneg _ _)
    exact ⟨htimed, Or.inr harmed⟩

theorem onTimer_timed (ready : s.auctionSession = true ∧ s.timers = true) (timely : s.timer.Timely now)
    (watched : s.Watched) (hnone : s.timer.alive = []) :
    (s.onTimer now false).Timed now ∧ (s.onTimer now false).Alive := by
  have hfired : ({ s with timerArmed := false, dirty := false } : AuctionCache).Timed now :=
    ⟨ready, timely, watched, hnone⟩
  obtain ⟨htimed, hflight⟩ := requestRefresh_timed hfired
  unfold onTimer
  simp only [Bool.false_eq_true, if_false, hflight, if_true]
  exact ⟨htimed, Or.inl hflight⟩

/-! ## What the network and the clock do -/

theorem expireTimer_timed (h : s.Timed now) {k : Nat} {timer : Timer Unit} (hk : s.timer.expire now k = some timer) :
    ({ s with timer } : AuctionCache).Timed now where
  ready := h.ready
  timely := Timer.expire_timely h.timely hk
  watched := h.watched
  armed := (Timer.expire_alive hk).trans h.armed

theorem expireTimeout_timed (h : s.Timed now) {k : Nat} {timeoutTimer : Timer Int32}
    (hk : s.timeoutTimer.expire now k = some timeoutTimer) : ({ s with timeoutTimer } : AuctionCache).Timed now where
  ready := h.ready
  timely := h.timely
  watched hflight := by
    obtain ⟨target, hmem⟩ := h.watched hflight
    exact ⟨target, (Timer.expire_alive hk).symm ▸ hmem⟩
  armed := h.armed

theorem runTimer_timed (h : s.Timed now) {k : Nat} {ec : Bool} {timer : Timer Unit}
    (hk : s.timer.take k = some ((), ec, timer)) :
    (({ s with timer } : AuctionCache).onTimer now ec).Timed now ∧
      (s.Alive → (({ s with timer } : AuctionCache).onTimer now ec).Alive) := by
  have htimely := Timer.take_timely h.timely hk
  have harmed := h.armed
  cases ec with
  | true =>
    obtain ⟨-, halive⟩ := Timer.take_cases hk
    exact ⟨⟨h.ready, htimely, h.watched, Eq.trans halive harmed⟩, id⟩
  | false =>
    have hone : s.timer.alive.length ≤ 1 := by
      rw [harmed]
      split <;> simp
    obtain ⟨htimed, hal⟩ := onTimer_timed (s := { s with timer }) h.ready htimely h.watched (Timer.take_last hk hone)
    exact ⟨htimed, fun _ => hal⟩

/-- A timeout of another request leaves the one of the request in flight. -/
theorem runTimeout_timed (h : s.Timed now) {k : Nat} {ec : Bool} {seq : Int32} {timeoutTimer : Timer Int32}
    (hk : s.timeoutTimer.take k = some (seq, ec, timeoutTimer)) :
    (({ s with timeoutTimer } : AuctionCache).onTimeoutTimer now ec seq).Timed now ∧
      (s.Alive → (({ s with timeoutTimer } : AuctionCache).onTimeoutTimer now ec seq).Alive) := by
  unfold onTimeoutTimer onRequestTimeout
  have hleft (hother : s.inFlight = true → ec = true ∨ s.refreshSeq ≠ seq) :
      ({ s with timeoutTimer } : AuctionCache).Timed now := by
    refine ⟨h.ready, h.timely, fun hflight => ?_, h.armed⟩
    obtain ⟨target, hmem⟩ := h.watched hflight
    exact ⟨target, Timer.mem_take hk hmem (hother hflight)⟩
  split
  · rename_i hec
    exact ⟨hleft fun _ => Or.inl hec, id⟩
  · split
    · obtain ⟨htimed, harmed⟩ := armTimer_timed
        (s := { s with timeoutTimer, inFlight := false, log := s.log ++ [.timedOut s.refreshSeq] })
        (h.idle rfl rfl rfl rfl rfl rfl) kRefreshInterval_nonneg
      exact ⟨htimed, fun _ => Or.inr harmed⟩
    · rename_i hother
      refine ⟨hleft fun hflight => Or.inr fun heq => hother ⟨hflight, heq.symm⟩, id⟩

end AuctionCache

namespace AuctionThread

variable {pb : Protobuf ResAuctionList} {s s' : AuctionThread}

/-- What every step of the thread keeps: once it is connected, the loop is alive. -/
structure Looping (s : AuctionThread) : Prop where
  timed : s.cache.Timed s.now
  alive : s.connected = true → s.cache.Alive

theorem step_looping {e : ThreadEvent} (h : Looping s) (hs : step pb s e = some s') : Looping s' := by
  have hmove {cache : AuctionCache} (hc : cache.Timed s.now ∧ (s.cache.Alive → cache.Alive)) :
      Looping { s with cache } := ⟨hc.1, fun hcon => hc.2 (h.alive hcon)⟩
  cases e with
  | onConnect =>
    obtain ⟨-, rfl⟩ := by simpa [step] using hs
    obtain ⟨htimed, hflight⟩ := AuctionCache.requestRefresh_timed h.timed
    exact ⟨htimed, fun _ => Or.inl hflight⟩
  | response pkt =>
    obtain rfl := Option.some.inj hs
    exact hmove (AuctionCache.handleResAuctionList_timed pb h.timed pkt)
  | markDirty =>
    obtain rfl := Option.some.inj hs
    obtain ⟨htimed, hal⟩ := AuctionCache.markDirty_timed h.timed
    exact hmove ⟨htimed, fun _ => hal⟩
  | expireTimer k =>
    obtain ⟨timer, hk, rfl⟩ := Option.map_eq_some_iff.mp hs
    exact hmove ⟨AuctionCache.expireTimer_timed h.timed hk, id⟩
  | expireTimeout k =>
    obtain ⟨timer, hk, rfl⟩ := Option.map_eq_some_iff.mp hs
    exact hmove ⟨AuctionCache.expireTimeout_timed h.timed hk, id⟩
  | runTimer k =>
    obtain ⟨⟨⟨⟩, ec, timer⟩, hk, rfl⟩ := Option.map_eq_some_iff.mp hs
    exact hmove (AuctionCache.runTimer_timed h.timed hk)
  | runTimeout k =>
    obtain ⟨⟨seq, ec, timer⟩, hk, rfl⟩ := Option.map_eq_some_iff.mp hs
    exact hmove (AuctionCache.runTimeout_timed h.timed hk)
  | tick nanoseconds =>
    obtain rfl := Option.some.inj hs
    refine ⟨⟨h.timed.ready, h.timed.timely.mono ?_, h.timed.watched, h.timed.armed⟩, h.alive⟩
    dsimp only
    omega

theorem start_looping (now : Int) : Looping (start now) where
  timed := ⟨⟨rfl, rfl⟩, by rintro w ⟨⟩, by rintro ⟨⟩, rfl⟩
  alive := by rintro ⟨⟩

/-- After `OnConnect` a request is in flight and its timeout will come, or the next refresh is
armed and will come. -/
theorem refresh_never_stalls (pb : Protobuf ResAuctionList) {now : Int} {es : List ThreadEvent}
    (h : run (step pb) (start now) es = some s) (hconnected : s.connected = true) :
    (s.cache.inFlight = true ∧ ∃ target, (s.cache.refreshSeq, target) ∈ s.cache.timeoutTimer.alive) ∨
    (s.cache.timerArmed = true ∧ s.cache.timer.alive = [((), s.cache.timerTarget)]) := by
  have hl : Looping s := run_invariant (fun _ _ _ => step_looping) (start_looping now) h
  rcases hl.alive hconnected with hflight | harmed
  · left
    exact ⟨hflight, hl.timed.watched hflight⟩
  · right
    refine ⟨harmed, ?_⟩
    have hone := hl.timed.armed
    rwa [AuctionCache.Armed, if_pos harmed] at hone

/-- The AuctionServer does not answer, and the timeout arms the next refresh. -/
theorem refresh_never_stalls_unanswered :
    ∃ s, run (step countingProtobuf) (start 0)
        [.onConnect, .tick 5000000000, .expireTimeout 0, .runTimeout 0] = some s ∧
      s.cache.log = [.requested 1, .timedOut 1] ∧ s.cache.inFlight = false ∧ s.cache.timerTarget = 65000000000 ∧
      s.cache.timer.alive = [((), s.cache.timerTarget)] := by
  obtain ⟨s, hrun, hcon, hlog, hidle, htarget⟩ : ∃ s, run (step countingProtobuf) (start 0)
        [.onConnect, .tick 5000000000, .expireTimeout 0, .runTimeout 0] = some s ∧ s.connected = true ∧
      s.cache.log = [.requested 1, .timedOut 1] ∧ s.cache.inFlight = false ∧ s.cache.timerTarget = 65000000000 :=
    ⟨_, rfl, rfl, rfl, rfl, rfl⟩
  refine ⟨s, hrun, hlog, hidle, htarget, ?_⟩
  rcases refresh_never_stalls countingProtobuf hrun hcon with ⟨hflight, -⟩ | ⟨-, halive⟩
  · rw [hidle] at hflight
    cases hflight
  · exact halive

end AuctionThread

end Game
