import J1Server.Game.Refresh

/-! # Coalescing

However often `ArmTimer` is called, one wait is kept, for the earliest target; `OnTimer` runs once for all of
them. -/

namespace Game

open Lib Core Auction

/-- The cache, with what was asked of the timer. `targets` are those of the calls of `ArmTimer` since
`OnTimer` last ran without an error; `fired` has the targets and the time of each such run. -/
structure AlarmRun where
  now : Int := 0
  cache : AuctionCache := {}
  targets : List Int := []
  fired : List (List Int × Int) := []

inductive AlarmEvent
  | arm (delay : Int)
  /-- Whatever happens to the rest of the cache. -/
  | rest (cache : AuctionCache)
  | tick (nanoseconds : Nat)
  /-- A wait completes without an error, and its handler is queued. -/
  | expire (k : Nat)
  /-- A handler that is queued runs. -/
  | run (k : Nat)

namespace AuctionCache

/-- The other fields become those of `rest`. -/
def keepAlarm (s rest : AuctionCache) : AuctionCache :=
  { rest with timer := s.timer, timerArmed := s.timerArmed, timerTarget := s.timerTarget }

def SameAlarm (s rest : AuctionCache) : Prop :=
  rest.timer = s.timer ∧ rest.timerArmed = s.timerArmed ∧ rest.timerTarget = s.timerTarget

theorem SameAlarm.keepAlarm {s rest : AuctionCache} (h : SameAlarm s rest) : s.keepAlarm rest = rest := by
  obtain ⟨htimer, harmed, htarget⟩ := h
  unfold AuctionCache.keepAlarm
  rw [← htimer, ← harmed, ← htarget]

/-- What `OnTimer` asks for itself: where no request could be sent, it tries again later. -/
def retries (s : AuctionCache) (now : Int) : List Int :=
  if (({ s with timerArmed := false, dirty := false } : AuctionCache).requestRefresh now).inFlight then []
  else [now + kRefreshInterval]

/-- A request leaves the alarm alone. -/
theorem requestRefresh_alarm (s : AuctionCache) (now : Int) : s.SameAlarm (s.requestRefresh now) := by
  unfold requestRefresh
  split <;> exact ⟨rfl, rfl, rfl⟩

end AuctionCache

namespace AlarmRun

def step (s : AlarmRun) : AlarmEvent → Option AlarmRun
  | .arm delay =>
    if 0 ≤ delay then
      some { s with cache := s.cache.armTimer s.now delay, targets := s.targets ++ [s.now + delay] }
    else none
  | .rest cache => some { s with cache := s.cache.keepAlarm cache }
  | .tick nanoseconds => some { s with now := s.now + nanoseconds }
  | .expire k => (s.cache.timer.expire s.now k).map fun timer => { s with cache := { s.cache with timer } }
  | .run k => (s.cache.timer.take k).map fun (_, ec, timer) =>
    let cache : AuctionCache := { s.cache with timer }
    if ec then { s with cache := cache.onTimer s.now true }
    else
      { s with
        cache := cache.onTimer s.now false
        targets := cache.retries s.now
        fired := s.fired ++ [(s.targets, s.now)] }

variable {s s' : AlarmRun}

/-- The timer is armed for the earliest of the targets, if there is one. -/
structure Earliest (s : AlarmRun) : Prop where
  timely : s.cache.timer.Timely s.now
  armed : s.cache.Armed
  target : s.targets.min? = if s.cache.timerArmed then some s.cache.timerTarget else none
  fired : ∀ p ∈ s.fired, ∃ target, p.1.min? = some target ∧ target ≤ p.2

theorem Earliest.alive (h : Earliest s) : s.cache.timer.alive = s.targets.min?.toList.map ((), ·) := by
  have harmed := h.armed
  unfold AuctionCache.Armed at harmed
  rw [harmed, h.target]
  cases s.cache.timerArmed <;> rfl

/-! ## One step -/

theorem min_concat (targets : List Int) (target : Int) :
    (targets ++ [target]).min? = some (targets.min?.elim target (min · target)) := by
  cases targets with
  | nil => rfl
  | cons first targets =>
    rw [List.cons_append, List.min?_cons', List.min?_cons', List.foldl_append]
    rfl

theorem Earliest.arm (h : Earliest s) {delay : Int} (hdelay : 0 ≤ delay) :
    Earliest { s with cache := s.cache.armTimer s.now delay, targets := s.targets ++ [s.now + delay] } := by
  obtain ⟨htimely, harmed⟩ := AuctionCache.armTimer_armed h.timely h.armed hdelay
  obtain ⟨timer, heq⟩ := AuctionCache.armTimer_eq s.cache s.now delay
  rw [heq] at htimely harmed ⊢
  refine ⟨htimely, harmed, ?_, h.fired⟩
  dsimp only
  rw [if_pos rfl, min_concat, h.target]
  cases s.cache.timerArmed <;> rfl

/-- No more than the alarm matters. -/
theorem Earliest.of_alarm (h : Earliest s) {now : Int} {cache : AuctionCache} (hnow : s.now ≤ now)
    (htimely : cache.timer.Timely s.now) (halive : cache.timer.alive = s.cache.timer.alive)
    (harmed : cache.timerArmed = s.cache.timerArmed) (htarget : cache.timerTarget = s.cache.timerTarget) :
    Earliest { s with now, cache } := by
  refine ⟨htimely.mono hnow, ?_, ?_, h.fired⟩
  · unfold AuctionCache.Armed
    rw [halive, harmed, htarget]
    exact h.armed
  · rw [harmed, htarget]
    exact h.target

/-- The wait that ends without an error was the only one, and it was due. -/
theorem Earliest.due (h : Earliest s) {k : Nat} {timer : Timer Unit}
    (hk : s.cache.timer.take k = some ((), false, timer)) :
    timer.alive = [] ∧ ∃ target, s.targets.min? = some target ∧ target ≤ s.now := by
  have halive := h.alive
  refine ⟨Timer.take_last hk ?_, ?_⟩
  · rw [halive, List.length_map]
    cases s.targets.min? <;> simp
  · obtain ⟨target, hmem, hdue⟩ := Timer.take_due h.timely hk
    rw [halive, List.mem_map] at hmem
    obtain ⟨least, hleast, heq⟩ := hmem
    obtain rfl := congrArg Prod.snd heq
    exact ⟨least, Option.mem_toList.mp hleast, hdue⟩

theorem Earliest.fire (h : Earliest s) {k : Nat} {timer : Timer Unit}
    (hk : s.cache.timer.take k = some ((), false, timer)) :
    Earliest { s with
      cache := ({ s.cache with timer } : AuctionCache).onTimer s.now false
      targets := ({ s.cache with timer } : AuctionCache).retries s.now
      fired := s.fired ++ [(s.targets, s.now)] } := by
  obtain ⟨hnone, hdue⟩ := h.due hk
  have hfired : ∀ p ∈ s.fired ++ [(s.targets, s.now)], ∃ target, p.1.min? = some target ∧ target ≤ p.2 := by
    intro p hp
    rcases List.mem_append.mp hp with hp | hp
    · exact h.fired p hp
    · rw [List.mem_singleton.mp hp]
      exact hdue
  have htimely : timer.Timely s.now := Timer.take_timely h.timely hk
  obtain ⟨cleared, hcleared⟩ : ∃ cleared : AuctionCache, cleared =
      ({ s.cache with timer, timerArmed := false, dirty := false } : AuctionCache).requestRefresh s.now := ⟨_, rfl⟩
  obtain ⟨htimer, harmed, htarget⟩ := AuctionCache.requestRefresh_alarm
    { s.cache with timer, timerArmed := false, dirty := false } s.now
  have hidle : Earliest ⟨s.now, cleared, [], s.fired ++ [(s.targets, s.now)]⟩ := by
    rw [hcleared]
    refine ⟨htimer.symm ▸ htimely, ?_, ?_, hfired⟩
    · unfold AuctionCache.Armed
      rw [htimer, harmed]
      exact hnone
    · dsimp only
      rw [harmed]
      rfl
  unfold AuctionCache.onTimer AuctionCache.retries
  simp only [Bool.false_eq_true, if_false, ← hcleared]
  by_cases hflight : cleared.inFlight = true
  · rw [if_pos hflight, if_pos hflight]
    exact hidle
  · rw [if_neg hflight, if_neg hflight]
    exact hidle.arm AuctionCache.kRefreshInterval_nonneg

theorem step_earliest {e : AlarmEvent} (h : Earliest s) (hs : s.step e = some s') : Earliest s' := by
  cases e with
  | arm delay =>
    obtain ⟨hdelay, hs⟩ := Option.ite_none_right_eq_some.mp hs
    obtain rfl := Option.some.inj hs
    exact h.arm hdelay
  | rest cache =>
    obtain rfl := Option.some.inj hs
    exact h.of_alarm (le_refl _) h.timely rfl rfl rfl
  | tick nanoseconds =>
    obtain rfl := Option.some.inj hs
    exact h.of_alarm (by omega) h.timely rfl rfl rfl
  | expire k =>
    obtain ⟨timer, hk, rfl⟩ := Option.map_eq_some_iff.mp hs
    exact h.of_alarm (le_refl _) (Timer.expire_timely h.timely hk) (Timer.expire_alive hk) rfl rfl
  | run k =>
    obtain ⟨⟨⟨⟩, ec, timer⟩, hk, rfl⟩ := Option.map_eq_some_iff.mp hs
    cases ec with
    | true =>
      obtain ⟨-, halive⟩ := Timer.take_cases hk
      exact h.of_alarm (le_refl _) (Timer.take_timely h.timely hk) halive rfl rfl
    | false => exact h.fire hk

/-! ## Waits that were replaced -/

/-- What `ArmTimer` replaces is aborted, and one wait comes after. -/
theorem Earliest.replaced (h : Earliest s) {delay : Int} (hdelay : 0 ≤ delay) :
    s.cache.armTimer s.now delay = s.cache ∨
      ∃ aborted, (s.cache.armTimer s.now delay).timer.waits = aborted ++ [⟨(), s.now + delay, .pending⟩] ∧
        ∀ w ∈ aborted, w.completion = .aborted := by
  unfold AuctionCache.armTimer
  dsimp only
  split
  · exact Or.inl rfl
  · rename_i hmove
    right
    have hnone := AuctionCache.replaced_aborted h.timely h.armed hdelay hmove
    exact ⟨s.cache.timer.cancel.waits, rfl, fun w hw => Timer.aborted_of_alive_nil hnone hw⟩

theorem mem_armTimer (c : AuctionCache) (now delay : Int) {w : Wait Unit} (hw : w ∈ c.timer.waits)
    (ha : w.completion = .aborted) : w ∈ (c.armTimer now delay).timer.waits := by
  unfold AuctionCache.armTimer
  dsimp only
  split
  · exact hw
  · exact List.mem_append_left _ (Timer.mem_cancel_of_aborted hw ha)

theorem mem_onTimer (c : AuctionCache) (now : Int) {w : Wait Unit} (hw : w ∈ c.timer.waits)
    (ha : w.completion = .aborted) : w ∈ (c.onTimer now false).timer.waits := by
  have hrequest := (AuctionCache.requestRefresh_alarm { c with timerArmed := false, dirty := false } now).1
  unfold AuctionCache.onTimer
  simp only [Bool.false_eq_true, if_false]
  split
  · rw [hrequest]
    exact hw
  · refine mem_armTimer _ now _ ?_ ha
    rw [hrequest]
    exact hw

/-- The wait stays as it is until its handler runs, and the handler does nothing. -/
def Harmless (s : AlarmRun) (w : Wait Unit) : Prop :=
  ∀ e s', s.step e = some s' → w ∈ s'.cache.timer.waits ∨
    ∃ k timer, e = .run k ∧ s.cache.timer.waits[k]? = some w ∧
      s.cache.timer.take k = some ((), true, timer) ∧ s' = { s with cache := { s.cache with timer } }

theorem aborted_harmless {w : Wait Unit} (hw : w ∈ s.cache.timer.waits) (ha : w.completion = .aborted) :
    s.Harmless w := by
  intro e s' hs
  cases e with
  | arm delay =>
    obtain ⟨-, hs⟩ := Option.ite_none_right_eq_some.mp hs
    obtain rfl := Option.some.inj hs
    exact Or.inl (mem_armTimer s.cache s.now delay hw ha)
  | rest cache =>
    obtain rfl := Option.some.inj hs
    exact Or.inl hw
  | tick nanoseconds =>
    obtain rfl := Option.some.inj hs
    exact Or.inl hw
  | expire k =>
    obtain ⟨timer, hk, rfl⟩ := Option.map_eq_some_iff.mp hs
    exact Or.inl (Timer.mem_expire_of_aborted hk hw ha)
  | run k =>
    obtain ⟨⟨⟨⟩, ec, timer⟩, hk, rfl⟩ := Option.map_eq_some_iff.mp hs
    rcases Timer.mem_take_of_aborted hk hw ha with hleft | ⟨rfl, hi⟩
    · left
      cases ec with
      | true => exact hleft
      | false => exact mem_onTimer { s.cache with timer } s.now hleft ha
    · exact Or.inr ⟨k, timer, rfl, hi, hk, rfl⟩

/-! ## Every run -/

theorem step_run {k : Nat} {ec : Bool} {timer : Timer Unit} (hk : s.cache.timer.take k = some ((), ec, timer)) :
    ∃ s', s.step (.run k) = some s' ∧ s'.now = s.now ∧
      s'.cache = ({ s.cache with timer } : AuctionCache).onTimer s.now ec := by
  cases ec with
  | true => exact ⟨_, congrArg (Option.map _) hk, rfl, rfl⟩
  | false => exact ⟨_, congrArg (Option.map _) hk, rfl, rfl⟩

theorem run_fires {k : Nat} {target : Int} (hk : s.cache.timer.waits[k]? = some (Wait.mk () target .expired)) :
    ∃ t, s.step (.run k) = some t ∧ t.now = s.now ∧ t.fired = s.fired ++ [(s.targets, s.now)] :=
  ⟨_, congrArg (Option.map _) (Timer.take_of_expired hk), rfl, rfl⟩

/-- Time goes on, the wait completes, and its handler runs. -/
theorem Earliest.fires (h : Earliest s) (hasked : s.targets ≠ []) :
    ∃ es t, run step s es = some t ∧ t.fired = s.fired ++ [(s.targets, t.now)] := by
  obtain ⟨target, htarget⟩ := Option.ne_none_iff_exists'.mp (mt List.min?_eq_none_iff.mp hasked)
  have hmem : ((), target) ∈ s.cache.timer.alive := by
    rw [h.alive, htarget]
    exact List.mem_singleton_self _
  obtain ⟨k, hpending | hexpired⟩ := Timer.alive_cases hmem
  · have hlater : target ≤ s.now + (target - s.now).toNat := by omega
    obtain ⟨timer, hexpire, hk⟩ := Timer.expire_of_due hpending hlater
    let waited : AlarmRun := { s with now := s.now + (target - s.now).toNat }
    let queued : AlarmRun := { waited with cache := { s.cache with timer } }
    have hqueued : waited.step (.expire k) = some queued := congrArg (Option.map _) hexpire
    obtain ⟨t, hstep, hnow, hfired⟩ := run_fires (s := queued) hk
    refine ⟨[.tick (target - s.now).toNat, .expire k, .run k], t, ?_, hnow ▸ hfired⟩
    exact run_cons_iff.mpr ⟨waited, rfl, run_cons_iff.mpr ⟨queued, hqueued, run_cons_iff.mpr ⟨t, hstep, rfl⟩⟩⟩
  · obtain ⟨t, hstep, hnow, hfired⟩ := run_fires hexpired
    exact ⟨[.run k], t, run_cons_iff.mpr ⟨t, hstep, rfl⟩, hnow ▸ hfired⟩

/-- Before the first call of `ArmTimer`. -/
def start (now : Int) : AlarmRun where
  now := now

theorem start_earliest (now : Int) : Earliest (start now) where
  timely := by rintro w ⟨⟩
  armed := rfl
  target := rfl
  fired := by rintro p ⟨⟩

/-- One wait is kept, for the earliest of the targets; `ArmTimer` aborts what it replaces, and that is
harmless; and the wait that is kept runs `OnTimer` once, when it is due. -/
theorem alarm_keeps_earliest {now : Int} {es : List AlarmEvent} (h : run step (start now) es = some s) :
    s.cache.timer.alive = s.targets.min?.toList.map ((), ·) ∧
    (∀ delay, 0 ≤ delay → s.cache.armTimer s.now delay = s.cache ∨
      ∃ aborted, (s.cache.armTimer s.now delay).timer.waits = aborted ++ [⟨(), s.now + delay, .pending⟩] ∧
        ∀ w ∈ aborted, w.completion = .aborted) ∧
    (∀ w ∈ s.cache.timer.waits, w.completion = .aborted → s.Harmless w) ∧
    (∀ k timer, s.cache.timer.take k = some ((), false, timer) →
      timer.alive = [] ∧ ∃ target, s.targets.min? = some target ∧ target ≤ s.now) ∧
    (∀ p ∈ s.fired, ∃ target, p.1.min? = some target ∧ target ≤ p.2) ∧
    (s.targets ≠ [] → ∃ es t, run step s es = some t ∧ t.fired = s.fired ++ [(s.targets, t.now)]) := by
  have hearliest : Earliest s := run_invariant (fun _ _ _ => step_earliest) (start_earliest now) h
  refine ⟨hearliest.alive, fun delay => hearliest.replaced, fun w => aborted_harmless, fun k timer => hearliest.due,
    hearliest.fired, hearliest.fires⟩

/-- The second call replaces the wait of the first. The third comes when the wait has completed and
its handler is queued: it asks for a later time and changes nothing. -/
theorem alarm_keeps_earliest_race :
    ∃ s, run step (start 0)
        [.arm 100, .arm 50, .run 0, .tick 50, .expire 0, .arm 10, .rest { auctionSession := true, timers := true }] =
        some s ∧
      s.targets = [100, 50, 60] ∧ s.cache.timer.alive = [((), 50)] ∧
      ∃ es t, run step s es = some t ∧ t.fired = [([100, 50, 60], t.now)] := by
  obtain ⟨s, hrun, htargets, hfired⟩ : ∃ s, run step (start 0)
        [.arm 100, .arm 50, .run 0, .tick 50, .expire 0, .arm 10, .rest { auctionSession := true, timers := true }] =
        some s ∧ s.targets = [100, 50, 60] ∧ s.fired = [] := ⟨_, rfl, rfl, rfl⟩
  obtain ⟨halive, -, -, -, -, hfires⟩ := alarm_keeps_earliest hrun
  rw [htargets, hfired] at hfires
  refine ⟨s, hrun, htargets, ?_, hfires (by decide)⟩
  rw [halive, htargets]
  rfl

end AlarmRun

/-! ## The auction thread -/

namespace AuctionCache

variable {c : AuctionCache} {now : Int}

/-- The handlers other than `OnTimer` leave the alarm alone, or call `ArmTimer` at their end. -/
inductive Calls (c : AuctionCache) (now : Int) : AuctionCache → Prop
  | nothing {rest : AuctionCache} (h : SameAlarm c rest) : Calls c now rest
  | armTimer {rest : AuctionCache} {delay : Int} (h : SameAlarm c rest) (hdelay : 0 ≤ delay) :
    Calls c now (rest.armTimer now delay)

theorem finishRefresh_calls (pb : Protobuf ResAuctionList) (pkt : SsResAuctionList) :
    Calls c now (c.finishRefresh pb now pkt) := by
  unfold finishRefresh
  dsimp only
  split
  · exact .armTimer ⟨rfl, rfl, rfl⟩ (gapDelay_nonneg _ _)
  · exact .armTimer ⟨rfl, rfl, rfl⟩ kRefreshInterval_nonneg

theorem handleResAuctionList_calls (pb : Protobuf ResAuctionList) (pkt : SsResAuctionList) :
    Calls c now (c.handleResAuctionList pb now pkt) := by
  unfold handleResAuctionList onRefreshResponse
  split
  · split
    · exact .nothing ⟨rfl, rfl, rfl⟩
    · exact finishRefresh_calls pb pkt
  · exact .nothing ⟨rfl, rfl, rfl⟩

theorem markDirty_calls : Calls c now (c.markDirty now) := by
  unfold markDirty
  dsimp only
  split
  · exact .nothing ⟨rfl, rfl, rfl⟩
  · exact .armTimer ⟨rfl, rfl, rfl⟩ (gapDelay_nonneg _ _)

theorem onTimeoutTimer_calls (timeoutTimer : Timer Int32) (ec : Bool) (seq : Int32) :
    Calls c now (({ c with timeoutTimer } : AuctionCache).onTimeoutTimer now ec seq) := by
  unfold onTimeoutTimer onRequestTimeout
  split
  · exact .nothing ⟨rfl, rfl, rfl⟩
  · split
    · exact .armTimer ⟨rfl, rfl, rfl⟩ kRefreshInterval_nonneg
    · exact .nothing ⟨rfl, rfl, rfl⟩

end AuctionCache

namespace AuctionThread

variable {pb : Protobuf ResAuctionList} {t t' : AuctionThread} {s : AlarmRun}

/-- The alarm of the thread is that of the run. -/
def HasAlarm (t : AuctionThread) (s : AlarmRun) : Prop := s.now = t.now ∧ s.cache = t.cache

theorem calls_alarm (h : HasAlarm t s) {cache : AuctionCache} (hc : t.cache.Calls t.now cache) :
    ∃ es s', run AlarmRun.step s es = some s' ∧ HasAlarm { t with cache } s' := by
  obtain ⟨hnow, hcache⟩ := h
  rw [← hnow, ← hcache] at hc
  have hrest {rest : AuctionCache} (hsame : s.cache.SameAlarm rest) :
      s.step (.rest rest) = some { s with cache := rest } :=
    congrArg (fun cache => some (AlarmRun.mk s.now cache s.targets s.fired)) hsame.keepAlarm
  cases hc with
  | nothing hsame => exact ⟨[.rest cache], _, run_cons_iff.mpr ⟨_, hrest hsame, rfl⟩, hnow, rfl⟩
  | @armTimer rest delay hsame hdelay =>
    refine ⟨[.rest rest, .arm delay], _, run_cons_iff.mpr ⟨_, hrest hsame, run_cons_iff.mpr ⟨_, if_pos hdelay, rfl⟩⟩,
      hnow, rfl⟩

theorem step_alarm {e : ThreadEvent} (h : HasAlarm t s) (ht : step pb t e = some t') :
    ∃ es s', run AlarmRun.step s es = some s' ∧ HasAlarm t' s' := by
  obtain ⟨hnow, hcache⟩ := h
  cases e with
  | onConnect =>
    obtain ⟨-, rfl⟩ := by simpa [step] using ht
    exact calls_alarm ⟨hnow, hcache⟩ (.nothing (AuctionCache.requestRefresh_alarm _ _))
  | response pkt =>
    obtain rfl := Option.some.inj ht
    exact calls_alarm ⟨hnow, hcache⟩ (AuctionCache.handleResAuctionList_calls pb pkt)
  | markDirty =>
    obtain rfl := Option.some.inj ht
    exact calls_alarm ⟨hnow, hcache⟩ AuctionCache.markDirty_calls
  | expireTimer k =>
    obtain ⟨timer, hk, rfl⟩ := Option.map_eq_some_iff.mp ht
    rw [← hnow, ← hcache] at hk
    refine ⟨[.expire k], _, run_cons_iff.mpr ⟨_, congrArg (Option.map _) hk, rfl⟩, hnow, ?_⟩
    rw [← hcache]
  | expireTimeout k =>
    obtain ⟨timer, hk, rfl⟩ := Option.map_eq_some_iff.mp ht
    exact calls_alarm ⟨hnow, hcache⟩ (.nothing ⟨rfl, rfl, rfl⟩)
  | runTimer k =>
    obtain ⟨⟨⟨⟩, ec, timer⟩, hk, rfl⟩ := Option.map_eq_some_iff.mp ht
    rw [← hcache] at hk
    obtain ⟨s', hstep, hnow', hcache'⟩ := AlarmRun.step_run hk
    refine ⟨[.run k], s', run_cons_iff.mpr ⟨s', hstep, rfl⟩, hnow'.trans hnow, ?_⟩
    rw [hcache', hcache, hnow]
  | runTimeout k =>
    obtain ⟨⟨seq, ec, timer⟩, hk, rfl⟩ := Option.map_eq_some_iff.mp ht
    exact calls_alarm ⟨hnow, hcache⟩ (AuctionCache.onTimeoutTimer_calls timer ec seq)
  | tick nanoseconds =>
    obtain rfl := Option.some.inj ht
    exact ⟨[.tick nanoseconds], _, rfl, congrArg (· + (nanoseconds : Int)) hnow, hcache⟩

/-- In every state of the thread, the alarm is as in a run of its own. -/
theorem run_alarm {now : Int} {es : List ThreadEvent} (h : run (step pb) (start now) es = some t) :
    ∃ fs s, run AlarmRun.step (AlarmRun.start now) fs = some s ∧ HasAlarm t s := by
  let made : AlarmRun := { AlarmRun.start now with cache := { auctionSession := true, timers := true } }
  have hmade : HasAlarm (start now) made := ⟨rfl, rfl⟩
  obtain ⟨fs, s, hrun, halarm⟩ := run_simulated (fun _ _ _ _ => step_alarm) hmade h
  exact ⟨.rest { auctionSession := true, timers := true } :: fs, s, run_cons_iff.mpr ⟨made, rfl, hrun⟩, halarm⟩

end AuctionThread

end Game
