import J1Server.Game.Refresh
import J1Server.Lib.Pacing

/-! # When the list is requested

The two timers and the flags of the cache keep one request at a time, and a gap between two of them. -/

namespace Game

open Lib Core Auction

def pacing : Pacing where
  gap := kMinRefreshGap
  interval := kRefreshInterval
  gap_le := by decide

def RefreshLog.event : RefreshLog → PacerEvent
  | .requested _ => .request
  | .refreshed _ => .answer
  | .timedOut _ => .giveUp

namespace AuctionCache

def pacer (c : AuctionCache) : Pacer where
  inFlight := c.inFlight
  dirty := c.dirty
  lastAt := c.lastRequestAt
  target := if c.timerArmed then some c.timerTarget else none

end AuctionCache

namespace AuctionThread

/-- A step marks the list, or logs what became of a request, or does neither. -/
def happened (s : AuctionThread) (e : ThreadEvent) (s' : AuctionThread) : List Paced :=
  match e with
  | .markDirty => [(s.now, .mark)]
  | _ => (s'.cache.log.drop s.cache.log.length).map fun entry => (s.now, entry.event)

def history (pb : Protobuf ResAuctionList) (s : AuctionThread) : List ThreadEvent → List Paced
  | [] => []
  | e :: es =>
    match step pb s e with
    | some s' => happened s e s' ++ history pb s' es
    | none => []

end AuctionThread

namespace AuctionCache

variable {c : AuctionCache} {now : Int}

/-! ## The handlers -/

theorem armTimer_pacer (c : AuctionCache) (now delay : Int) :
    (c.armTimer now delay).pacer = c.pacer.book (now + delay) := by
  obtain ⟨timer, heq⟩ := armTimer_eq c now delay
  rw [heq]
  unfold pacer Pacer.book
  cases harmed : c.timerArmed with
  | false => rfl
  | true => simp [min_comm]

theorem armTimer_log (c : AuctionCache) (now delay : Int) : (c.armTimer now delay).log = c.log := by
  obtain ⟨timer, heq⟩ := armTimer_eq c now delay
  rw [heq]

theorem gapDelay_soon (c : AuctionCache) (now : Int) : now + c.gapDelay now = c.pacer.soon pacing now := by
  unfold gapDelay Pacer.soon
  dsimp only [pacer, pacing]
  split <;> omega

theorem markDirty_pacer (c : AuctionCache) (now : Int) :
    Pacer.step pacing c.pacer (now, .mark) = some (c.markDirty now).pacer := by
  unfold markDirty
  dsimp only
  split
  · rename_i hflight
    exact Pacer.step_mark_inFlight hflight
  · rename_i hidle
    rw [Pacer.step_mark_idle (Bool.eq_false_iff.mpr hidle), armTimer_pacer, ← gapDelay_soon]
    rfl

theorem finishRefresh_pacer (pb : Protobuf ResAuctionList) (hflight : c.inFlight = true) (pkt : SsResAuctionList) :
    Pacer.step pacing c.pacer (now, .answer) = some (c.finishRefresh pb now pkt).pacer := by
  rw [Pacer.step_answer hflight]
  unfold finishRefresh
  dsimp only
  cases hdirty : c.dirty with
  | true =>
    rw [if_pos rfl, if_pos (show c.pacer.dirty = true from hdirty), armTimer_pacer, ← gapDelay_soon]
    rfl
  | false =>
    rw [if_neg Bool.false_ne_true, if_neg (show ¬c.pacer.dirty = true from ne_true_of_eq_false hdirty), armTimer_pacer]
    rfl

theorem finishRefresh_log (pb : Protobuf ResAuctionList) (c : AuctionCache) (now : Int) (pkt : SsResAuctionList) :
    (c.finishRefresh pb now pkt).log = c.log ++ [.refreshed pkt.requestId] := by
  unfold finishRefresh
  dsimp only
  split <;> rw [armTimer_log]

theorem onRequestTimeout_pacer (hflight : c.inFlight = true) :
    Pacer.step pacing c.pacer (now, .giveUp) = some (c.onRequestTimeout now).pacer := by
  rw [Pacer.step_giveUp hflight]
  unfold onRequestTimeout
  rw [armTimer_pacer]
  rfl

theorem onTimeoutTimer_cases (c : AuctionCache) (now : Int) (ec : Bool) (seq : Int32) :
    c.onTimeoutTimer now ec seq = c ∨
      (c.inFlight = true ∧ c.onTimeoutTimer now ec seq = c.onRequestTimeout now) := by
  unfold onTimeoutTimer
  split
  · exact Or.inl rfl
  · split
    · rename_i hmine
      exact Or.inr ⟨hmine.1, rfl⟩
    · exact Or.inl rfl

theorem onTimer_pacer (ready : c.auctionSession = true ∧ c.timers = true) (hidle : c.inFlight = false)
    (harmed : c.timerArmed = true) (hdue : c.timerTarget ≤ now) :
    Pacer.step pacing c.pacer (now, .request) = some (c.onTimer now false).pacer ∧
      (c.onTimer now false).log = c.log ++ [.requested (c.refreshSeq + 1)] := by
  obtain ⟨hsession, htimers⟩ := ready
  have htarget : c.pacer.target = some c.timerTarget := by simp [pacer, harmed]
  rw [Pacer.step_request htarget hdue]
  simp [onTimer, requestRefresh, pacer, hidle, hsession, htimers]

theorem Timed.due (h : c.Timed now) {k : Nat} {timer : Timer Unit} (hk : c.timer.take k = some ((), false, timer)) :
    c.timerArmed = true ∧ c.timerTarget ≤ now := by
  obtain ⟨target, hmem, hdue⟩ := Timer.take_due h.timely hk
  have harmed := h.armed
  unfold Armed at harmed
  rw [harmed] at hmem
  split at hmem
  · rename_i hset
    obtain ⟨-, rfl⟩ := by simpa using hmem
    exact ⟨hset, hdue⟩
  · cases hmem

end AuctionCache

namespace AuctionThread

variable {pb : Protobuf ResAuctionList} {s s' : AuctionThread}

/-! ## One step -/

theorem happened_append {e : ThreadEvent} (he : e ≠ .markDirty) {log : List RefreshLog}
    (hlog : s'.cache.log = s.cache.log ++ log) :
    happened s e s' = log.map fun entry => (s.now, entry.event) := by
  unfold happened
  split
  · exact absurd rfl he
  · rw [hlog, List.drop_left]

/-- The pacer follows the thread over what happened. -/
def Follows (s : AuctionThread) (hs : List Paced) (s' : AuctionThread) : Prop :=
  run (Pacer.step pacing) s.cache.pacer hs = some s'.cache.pacer

theorem follows_quiet {e : ThreadEvent} (he : e ≠ .markDirty) (hlog : s'.cache.log = s.cache.log)
    (hpacer : s'.cache.pacer = s.cache.pacer) : Follows s (happened s e s') s' := by
  have hnone : s'.cache.log = s.cache.log ++ [] := by simpa using hlog
  unfold Follows
  rw [happened_append he hnone, hpacer]
  rfl

theorem follows_logged {e : ThreadEvent} {entry : RefreshLog} (he : e ≠ .markDirty)
    (hlog : s'.cache.log = s.cache.log ++ [entry])
    (hpacer : Pacer.step pacing s.cache.pacer (s.now, entry.event) = some s'.cache.pacer) :
    Follows s (happened s e s') s' := by
  unfold Follows
  rw [happened_append he hlog]
  simpa using hpacer

theorem step_follows {e : ThreadEvent} (h : Looping s) (hp : s.cache.pacer.Spaced pacing) (hconnected : s.connected = true)
    (hs : step pb s e = some s') : Follows s (happened s e s') s' := by
  cases e with
  | onConnect => simp [step, hconnected] at hs
  | response pkt =>
    obtain rfl := Option.some.inj hs
    have hquiet : Follows s (happened s (.response pkt) s) s := follows_quiet (by rintro ⟨⟩) rfl rfl
    unfold AuctionCache.handleResAuctionList AuctionCache.onRefreshResponse
    split
    · split
      · exact hquiet
      · rename_i hmine
        rw [Bool.or_eq_true, not_or, Bool.not_eq_true', Bool.not_eq_false] at hmine
        have hlog := AuctionCache.finishRefresh_log pb s.cache s.now pkt
        exact follows_logged (by rintro ⟨⟩) hlog (AuctionCache.finishRefresh_pacer pb hmine.1 pkt)
    · exact hquiet
  | markDirty =>
    obtain rfl := Option.some.inj hs
    have hmark := AuctionCache.markDirty_pacer s.cache s.now
    simpa [Follows, happened] using hmark
  | expireTimer k =>
    obtain ⟨timer, -, rfl⟩ := Option.map_eq_some_iff.mp hs
    exact follows_quiet (by rintro ⟨⟩) rfl rfl
  | expireTimeout k =>
    obtain ⟨timer, -, rfl⟩ := Option.map_eq_some_iff.mp hs
    exact follows_quiet (by rintro ⟨⟩) rfl rfl
  | runTimer k =>
    obtain ⟨⟨⟨⟩, ec, timer⟩, hk, rfl⟩ := Option.map_eq_some_iff.mp hs
    cases ec with
    | true => exact follows_quiet (by rintro ⟨⟩) rfl rfl
    | false =>
      obtain ⟨harmed, hdue⟩ := h.timed.due hk
      have hidle : s.cache.inFlight = false := by
        by_contra hflight
        have hnone := hp.idle (Bool.not_eq_false _ ▸ hflight)
        simp [AuctionCache.pacer, harmed] at hnone
      obtain ⟨hpacer, hlog⟩ := AuctionCache.onTimer_pacer (c := { s.cache with timer }) h.timed.ready hidle harmed hdue
      exact follows_logged (by rintro ⟨⟩) hlog hpacer
  | runTimeout k =>
    obtain ⟨⟨seq, ec, timeoutTimer⟩, -, rfl⟩ := Option.map_eq_some_iff.mp hs
    rcases AuctionCache.onTimeoutTimer_cases { s.cache with timeoutTimer } s.now ec seq with hsame | ⟨hflight, hrun⟩
    · have hlog := congrArg AuctionCache.log hsame
      have hpacer := congrArg AuctionCache.pacer hsame
      exact follows_quiet (by rintro ⟨⟩) hlog hpacer
    · have hlog := (congrArg AuctionCache.log hrun).trans (AuctionCache.armTimer_log _ _ _)
      refine follows_logged (by rintro ⟨⟩) hlog ?_
      exact (AuctionCache.onRequestTimeout_pacer hflight).trans (congrArg (some ·.pacer) hrun.symm)
  | tick nanoseconds =>
    obtain rfl := Option.some.inj hs
    exact follows_quiet (by rintro ⟨⟩) rfl rfl

theorem step_frame {e : ThreadEvent} (hs : step pb s e = some s') :
    s.now ≤ s'.now ∧ (s.connected = true → s'.connected = true) := by
  cases e with
  | onConnect =>
    obtain ⟨-, rfl⟩ := by simpa [step] using hs
    exact ⟨Int.le_refl _, fun _ => rfl⟩
  | response pkt | markDirty =>
    obtain rfl := Option.some.inj hs
    exact ⟨Int.le_refl _, id⟩
  | expireTimer k | expireTimeout k | runTimer k | runTimeout k =>
    obtain ⟨_, -, rfl⟩ := Option.map_eq_some_iff.mp hs
    exact ⟨Int.le_refl _, id⟩
  | tick nanoseconds =>
    obtain rfl := Option.some.inj hs
    refine ⟨?_, id⟩
    dsimp only
    omega

theorem mem_happened {e : ThreadEvent} {x : Paced} (hx : x ∈ happened s e s') : x.1 = s.now := by
  unfold happened at hx
  split at hx
  · rw [List.mem_singleton.mp hx]
  · obtain ⟨entry, -, rfl⟩ := List.mem_map.mp hx
    rfl

/-! ## Every run -/

/-- A thread that is connected, with what its pacer needs. -/
structure Running (s : AuctionThread) : Prop where
  looping : Looping s
  connected : s.connected = true
  last : s.cache.lastRequestAt ≤ s.now
  spaced : s.cache.pacer.Spaced pacing

theorem step_running {e : ThreadEvent} (h : Running s) (hs : step pb s e = some s') :
    Running s' ∧ Follows s (happened s e s') s' := by
  have hfollows := step_follows h.looping h.spaced h.connected hs
  obtain ⟨hnow, hconnected⟩ := step_frame hs
  have htimes : (s.cache.pacer.lastAt :: (happened s e s').map Prod.fst).Pairwise (· ≤ ·) := by
    rw [List.pairwise_cons]
    constructor
    · intro t ht
      obtain ⟨x, hx, rfl⟩ := List.mem_map.mp ht
      exact mem_happened hx ▸ h.last
    · refine List.pairwise_map.mpr (List.pairwise_of_forall_mem_list fun x hx y hy => ?_)
      rw [mem_happened hx, mem_happened hy]
  obtain ⟨hspaced, hlast⟩ := Pacer.run_spaced h.spaced htimes hfollows
  have hlast := hlast s.now h.last fun x hx => Int.le_of_eq (mem_happened hx)
  exact ⟨⟨step_looping h.looping hs, hconnected h.connected, Int.le_trans hlast hnow, hspaced⟩, hfollows⟩

theorem run_follows {t : AuctionThread} {es : List ThreadEvent} (h : Running s) (hrun : run (step pb) s es = some t) :
    Running t ∧ Follows s (history pb s es) t := by
  induction es generalizing s with
  | nil =>
    obtain rfl := Option.some.inj hrun
    exact ⟨h, rfl⟩
  | cons e es ih =>
    obtain ⟨s', hs, hrest⟩ := run_cons_iff.mp hrun
    obtain ⟨h', hfirst⟩ := step_running h hs
    obtain ⟨ht, htail⟩ := ih h' hrest
    refine ⟨ht, ?_⟩
    unfold Follows history
    rw [hs]
    exact run_append.mpr ⟨_, hfirst, htail⟩

theorem history_from {s : AuctionThread} {es : List ThreadEvent} : ∀ x ∈ history pb s es, s.now ≤ x.1 := by
  induction es generalizing s with
  | nil => simp [history]
  | cons e es ih =>
    intro x hx
    unfold history at hx
    split at hx
    · rename_i s' hs
      rcases List.mem_append.mp hx with hx | hx
      · exact Int.le_of_eq (mem_happened hx).symm
      · exact Int.le_trans (step_frame hs).1 (ih x hx)
    · cases hx

theorem history_sorted {s : AuctionThread} {es : List ThreadEvent} : ((history pb s es).map Prod.fst).Pairwise (· ≤ ·) := by
  rw [List.pairwise_map]
  induction es generalizing s with
  | nil => exact List.Pairwise.nil
  | cons e es ih =>
    unfold history
    split
    · rename_i s' hs
      refine List.pairwise_append.mpr ⟨?_, ih, ?_⟩
      · refine List.pairwise_of_forall_mem_list fun x hx y hy => ?_
        rw [mem_happened hx, mem_happened hy]
      · intro x hx y hy
        rw [mem_happened hx]
        exact Int.le_trans (step_frame hs).1 (history_from y hy)
    · exact List.Pairwise.nil

theorem Running.times (h : Running s) (es : List ThreadEvent) :
    (s.cache.pacer.lastAt :: (history pb s es).map Prod.fst).Pairwise (· ≤ ·) := by
  refine List.pairwise_cons.mpr ⟨fun t ht => ?_, history_sorted⟩
  obtain ⟨x, hx, rfl⟩ := List.mem_map.mp ht
  exact Int.le_trans h.last (history_from x hx)

theorem run_onConnect {now : Int} {es : List ThreadEvent} (hrun : run (step pb) (start now) (.onConnect :: es) = some s) :
    ∃ s₁, s₁.now = now ∧ s₁.cache.pacer = ⟨true, false, now, none⟩ ∧ Running s₁ ∧
      history pb (start now) (.onConnect :: es) = (now, .request) :: history pb s₁ es ∧
      run (step pb) s₁ es = some s := by
  obtain ⟨s₁, hs, hrest⟩ := run_cons_iff.mp hrun
  have hlooping := step_looping (start_looping now) hs
  obtain rfl := Option.some.inj hs
  refine ⟨_, rfl, rfl, ⟨hlooping, rfl, Int.le_refl _, fun _ => rfl, ?_⟩, rfl, hrest⟩
  rintro target ⟨⟩

/-- At most one request is held at any time, and two consecutive ones are sent at least `kMinRefreshGap` apart. -/
theorem requests_rate_limited (pb : Protobuf ResAuctionList) {now : Int} {es : List ThreadEvent}
    (hrun : run (step pb) (start now) (.onConnect :: es) = some s) :
    Pacer.outstanding (history pb (start now) (.onConnect :: es)) ≤ 1 ∧
    (Pacer.requestTimes (history pb (start now) (.onConnect :: es))).IsChain (fun a b => a + kMinRefreshGap ≤ b) := by
  obtain ⟨s₁, -, hpacer, hrunning, hhistory, hrest⟩ := run_onConnect hrun
  obtain ⟨-, hfollows⟩ := run_follows hrunning hrest
  rw [hhistory]
  constructor
  · have hheld := Pacer.run_held hrunning.spaced (hrunning.times es) hfollows
    have hfirst := Pacer.outstanding_append [(now, .request)] (history pb s₁ es)
    have hle : s.cache.pacer.held ≤ 1 := Pacer.held_le _
    rw [hpacer] at hheld
    calc Pacer.outstanding ((now, .request) :: history pb s₁ es)
        = 1 + Pacer.outstanding (history pb s₁ es) := hfirst
      _ = s.cache.pacer.held := hheld.symm
      _ ≤ 1 := hle
  · have hchain := Pacer.requests_spaced hrunning.spaced (hrunning.times es) hfollows
    rw [hpacer] at hchain
    exact hchain

def emptyList (requestId : Int32) : SsResAuctionList := ⟨0, requestId, false, []⟩

def markedEvents : List ThreadEvent :=
  [.onConnect, .tick 1000000000, .markDirty, .response (emptyList 1), .tick 2000000000, .expireTimer 0, .runTimer 0]

theorem requests_rate_limited_marked :
    Pacer.requestTimes (history countingProtobuf (start 0) markedEvents) = [0, 3000000000] ∧
    Pacer.outstanding (history countingProtobuf (start 0) markedEvents) ≤ 1 := by
  refine ⟨rfl, ?_⟩
  obtain ⟨s, hrun⟩ : ∃ s, run (step countingProtobuf) (start 0) markedEvents = some s := ⟨_, rfl⟩
  exact (requests_rate_limited countingProtobuf hrun).1

/-- What happened since the last request of a run. -/
def recent (pb : Protobuf ResAuctionList) (now : Int) (es : List ThreadEvent) : List Paced :=
  Pacer.sinceRequest (history pb (start now) (.onConnect :: es))

/-- The list was marked since the last request, and no request is in flight: the timer is armed, in time if no
request timed out after a mark, and `_dirty` is set unless an answer came after the last mark. -/
theorem mark_kept (pb : Protobuf ResAuctionList) {now : Int} {es : List ThreadEvent}
    (hrun : run (step pb) (start now) (.onConnect :: es) = some s) (hidle : s.cache.inFlight = false)
    (hmark : ∃ x ∈ recent pb now es, x.2 = .mark) :
    s.cache.timerArmed = true ∧
    (∃ entered, Pacer.enteredAt (recent pb now es) = some entered ∧ (Pacer.Unmissed (recent pb now es) →
      s.cache.timerTarget ≤ max (s.cache.lastRequestAt + kMinRefreshGap) entered)) ∧
    (s.cache.dirty = true ↔ ∃ x ∈ Pacer.sinceAnswer (recent pb now es), x.2 = .mark) := by
  obtain ⟨s₁, -, hpacer, hrunning, hhistory, hrest⟩ := run_onConnect hrun
  obtain ⟨-, hfollows⟩ := run_follows hrunning hrest
  have hfirst : Pacer.Kept pacing (Pacer.sinceRequest [(now, .request)]) s₁.cache.pacer := by
    rw [hpacer]
    exact Pacer.request_kept
  have hkept := Pacer.run_kept hfirst hrunning.spaced (hrunning.times es) hfollows
  rw [List.singleton_append, ← hhistory] at hkept
  have harmed : s.cache.timerArmed = true := by
    simpa [AuctionCache.pacer] using hkept.armed hidle
  obtain ⟨entered, hentered⟩ := hkept.entered hidle hmark
  refine ⟨harmed, ⟨entered, hentered, fun hunmissed => ?_⟩, hkept.dirty⟩
  obtain ⟨target, htarget, hle⟩ := hkept.booked entered hentered hunmissed
  obtain rfl : s.cache.timerTarget = target := by simpa [AuctionCache.pacer, harmed] using htarget
  exact hle

/-- The answer comes a second after the mark, and the next request two seconds later. -/
theorem mark_kept_answered :
    ∃ s, run (step countingProtobuf) (start 0) [.onConnect, .markDirty, .tick 1000000000, .response (emptyList 1)] = some s ∧
      s.cache.timerArmed = true ∧ s.cache.timerTarget ≤ 3000000000 := by
  let es : List ThreadEvent := [.markDirty, .tick 1000000000, .response (emptyList 1)]
  obtain ⟨s, hrun, hidle, hlast⟩ : ∃ s, run (step countingProtobuf) (start 0) (.onConnect :: es) = some s ∧
      s.cache.inFlight = false ∧ s.cache.lastRequestAt = 0 := ⟨_, rfl, rfl, rfl⟩
  have hrecent : recent countingProtobuf 0 es = [(0, .mark), (1000000000, .answer)] := rfl
  obtain ⟨harmed, ⟨entered, hentered, hdeadline⟩, -⟩ := mark_kept countingProtobuf hrun hidle
    ⟨(0, .mark), by simp [hrecent], rfl⟩
  obtain rfl : 1000000000 = entered := by simpa [hrecent, Pacer.enteredAt, Pacer.firstAt, PacerEvent.ends] using hentered
  have hle := hdeadline (by rw [hrecent]; decide)
  rw [hlast] at hle
  exact ⟨s, hrun, harmed, hle⟩

/-- An answer clears `_dirty` as it arms the timer. A timeout arms the timer as if there were no mark. -/
theorem marks_not_kept :
    (∃ s, run (step countingProtobuf) (start 0) [.onConnect, .markDirty, .response (emptyList 1)] = some s ∧
      recent countingProtobuf 0 [.markDirty, .response (emptyList 1)] = [(0, .mark), (0, .answer)] ∧
      s.cache.inFlight = false ∧ s.cache.dirty = false) ∧
    (∃ s, run (step countingProtobuf) (start 0)
        [.onConnect, .markDirty, .tick 5000000000, .expireTimeout 0, .runTimeout 0] = some s ∧
      recent countingProtobuf 0 [.markDirty, .tick 5000000000, .expireTimeout 0, .runTimeout 0] =
        [(0, .mark), (5000000000, .giveUp)] ∧
      s.cache.inFlight = false ∧ s.cache.lastRequestAt + kMinRefreshGap = 3000000000 ∧
      s.cache.timerTarget = 65000000000) :=
  ⟨⟨_, rfl, rfl, rfl, rfl⟩, ⟨_, rfl, rfl, rfl, rfl, rfl⟩⟩

end AuctionThread

end Game
