import J1Server.Game.MyList
import J1Server.Game.RefreshOrder
import J1Server.Game.Reject
import Mathlib.Data.List.Infix

/-! # How old a cached list is

The GameServer's cache with the workers of the AuctionServer behind it. Answers are handled at any time,
more than once or never. A list that the cache uses is what the tables had when the run was in some
earlier state, and that was not long ago. -/

namespace Game

open Lib Lib.Server Core Auction

/-! ## When a request was sent -/

namespace AuctionCache

variable {pb : Protobuf ResAuctionList} {s s' s'' : AuctionCache} {now : Int}

/-- The timeout of the request in flight waits for `kRequestTimeout` after it was sent. -/
def Due (s : AuctionCache) : Prop :=
  s.inFlight = true → (s.refreshSeq, s.lastRequestAt + kRequestTimeout) ∈ s.timeoutTimer.alive

/-- Nothing was sent, or a request now. -/
def Sends (now : Int) (s s' : AuctionCache) : Prop :=
  (s'.lastRequestAt = s.lastRequestAt ∧ requests s'.log = requests s.log) ∨
  (s'.lastRequestAt = now ∧ ∃ requestId, requests s'.log = requests s.log ++ [requestId])

structure Watches (now : Int) (s s' : AuctionCache) : Prop where
  due : s.Due → s'.Due
  sends : Sends now s s'

/-- What has no request in flight has none that is due. -/
theorem Watches.idle (hidle : s'.inFlight = false) (hat : s'.lastRequestAt = s.lastRequestAt)
    (hlog : requests s'.log = requests s.log) : Watches now s s' := by
  refine ⟨fun _ hflight => ?_, Or.inl ⟨hat, hlog⟩⟩
  rw [hidle] at hflight
  cases hflight

theorem Watches.refl (s : AuctionCache) : Watches now s s := ⟨id, Or.inl ⟨rfl, rfl⟩⟩

theorem armTimer_watches (h : Watches now s s') (delay : Int) : Watches now s (s'.armTimer now delay) := by
  obtain ⟨timer, heq⟩ := armTimer_eq s' now delay
  rw [heq]
  exact ⟨h.due, h.sends⟩

theorem requestRefresh_watches (s : AuctionCache) (now : Int) : Watches now s (s.requestRefresh now) := by
  unfold requestRefresh
  split
  · exact Watches.refl s
  · refine ⟨fun _ _ => ?_, Or.inr ⟨rfl, _, requests_requested _ _⟩⟩
    simp

theorem handleResAuctionList_watches (pb : Protobuf ResAuctionList) (s : AuctionCache) (now : Int)
    (pkt : SsResAuctionList) : Watches now s (s.handleResAuctionList pb now pkt) := by
  unfold handleResAuctionList onRefreshResponse
  split
  · split
    · exact Watches.refl s
    · unfold finishRefresh
      dsimp only
      split
      · refine armTimer_watches ?_ _
        exact Watches.idle rfl rfl (requests_refreshed _ _)
      · refine armTimer_watches ?_ _
        exact Watches.idle rfl rfl (requests_refreshed _ _)
  · exact Watches.refl s

theorem markDirty_watches (s : AuctionCache) (now : Int) : Watches now s (s.markDirty now) := by
  unfold markDirty
  dsimp only
  split
  · exact ⟨id, Or.inl ⟨rfl, rfl⟩⟩
  · refine armTimer_watches ?_ _
    exact ⟨id, Or.inl ⟨rfl, rfl⟩⟩

theorem onTimer_watches (s : AuctionCache) (now : Int) (ec : Bool) : Watches now s (s.onTimer now ec) := by
  unfold onTimer
  split
  · exact Watches.refl s
  · dsimp only
    have hrequest := requestRefresh_watches { s with timerArmed := false, dirty := false } now
    split
    · exact ⟨hrequest.due, hrequest.sends⟩
    · refine armTimer_watches ?_ _
      exact ⟨hrequest.due, hrequest.sends⟩

theorem runTimeout_watches {k : Nat} {ec : Bool} {seq : Int32} {timeoutTimer : Timer Int32}
    (hk : s.timeoutTimer.take k = some (seq, ec, timeoutTimer)) :
    Watches now s (({ s with timeoutTimer } : AuctionCache).onTimeoutTimer now ec seq) := by
  unfold onTimeoutTimer onRequestTimeout
  -- The handler of another request takes its own wait.
  have hleft (hother : s.inFlight = true → ec = true ∨ s.refreshSeq ≠ seq) :
      Watches now s ({ s with timeoutTimer } : AuctionCache) :=
    ⟨fun hdue hflight => Timer.mem_take hk (hdue hflight) (hother hflight), Or.inl ⟨rfl, rfl⟩⟩
  split
  · rename_i hec
    exact hleft fun _ => Or.inl hec
  · split
    · refine armTimer_watches ?_ _
      exact Watches.idle rfl rfl (requests_timedOut _ _)
    · rename_i hother
      exact hleft fun hflight => Or.inr fun heq => hother ⟨hflight, heq.symm⟩

end AuctionCache

namespace AuctionThread

open AuctionCache

variable {pb : Protobuf ResAuctionList} {s s' : AuctionThread}

theorem step_watches {e : ThreadEvent} (hs : s.step pb e = some s') :
    Watches s.now s.cache s'.cache ∧ s.now ≤ s'.now := by
  cases e with
  | onConnect =>
    obtain ⟨-, rfl⟩ := by simpa [step] using hs
    exact ⟨requestRefresh_watches s.cache s.now, Int.le_refl _⟩
  | response pkt =>
    obtain rfl := Option.some.inj hs
    exact ⟨handleResAuctionList_watches pb s.cache s.now pkt, Int.le_refl _⟩
  | markDirty =>
    obtain rfl := Option.some.inj hs
    exact ⟨markDirty_watches s.cache s.now, Int.le_refl _⟩
  | expireTimer k =>
    obtain ⟨timer, -, rfl⟩ := Option.map_eq_some_iff.mp hs
    exact ⟨⟨id, Or.inl ⟨rfl, rfl⟩⟩, Int.le_refl _⟩
  | expireTimeout k =>
    obtain ⟨timer, hk, rfl⟩ := Option.map_eq_some_iff.mp hs
    refine ⟨⟨fun hdue hflight => ?_, Or.inl ⟨rfl, rfl⟩⟩, Int.le_refl _⟩
    exact (Timer.expire_alive hk).symm ▸ hdue hflight
  | runTimer k =>
    obtain ⟨⟨⟨⟩, ec, timer⟩, -, rfl⟩ := Option.map_eq_some_iff.mp hs
    have hrun := onTimer_watches { s.cache with timer } s.now ec
    exact ⟨⟨hrun.due, hrun.sends⟩, Int.le_refl _⟩
  | runTimeout k =>
    obtain ⟨⟨seq, ec, timeoutTimer⟩, hk, rfl⟩ := Option.map_eq_some_iff.mp hs
    exact ⟨runTimeout_watches hk, Int.le_refl _⟩
  | tick nanoseconds =>
    obtain rfl := Option.some.inj hs
    refine ⟨Watches.refl s.cache, ?_⟩
    dsimp only
    omega

end AuctionThread

/-! ## The cache and the AuctionServer -/

/-- The auction thread of the GameServer, and the workers of the AuctionServer. -/
structure CachedMarket where
  thread : AuctionThread
  pool : Pool auctionDb Task (Option Response)

inductive CachedEvent
  /-- The auction thread, but for the answers to refreshes. -/
  | thread (e : ThreadEvent)
  /-- A read worker begins the task of a request that the cache has sent. -/
  | read (i request : Nat)
  /-- What the workers do for the clients, and every call. -/
  | pool (e : PoolEvent Task)
  /-- The answer of a finished task is handled. It may be handled again. -/
  | deliver (k : Nat)

/-- The packet of a list, as the GameServer reads it. -/
def listPacket : Option Response → Option SsResAuctionList
  | some (.auctionList sessionId requestId mylist items) =>
    some ⟨Int64.ofInt sessionId, Int32.ofInt requestId, mylist, items⟩
  | _ => none

/-- No client has the session id of the cache. -/
def forCache : Task → Bool
  | .auctionList pkt => pkt.sessionId = kCacheSessionId.toInt
  | _ => false

def clientsOwn (readers : Nat → Bool) : PoolEvent Task → Bool
  | .start i task => task.reads = readers i && !forCache task
  | _ => true

namespace CachedMarket

variable (law : Call auctionDb → Harm → Bool) (readers : Nat → Bool) (pb : Protobuf ResAuctionList)

def log (s : CachedMarket) : List RefreshLog := s.thread.cache.log

/-- What a query for all listings finds now. -/
def listing (s : CachedMarket) : List AuctionItemInfo :=
  (listingsOf s.pool.server.db s.pool.server.now false 0).map itemOf

def start (clock : Int) (db : Database) (now next : Int) : CachedMarket where
  thread := .start clock
  pool := .fresh (idle db now next)

def step (s : CachedMarket) : CachedEvent → Option CachedMarket
  | .thread e =>
    if e.answersRefresh then none else (s.thread.step pb e).map fun thread => { s with thread }
  | .read i request =>
    if readers i then
      (requests s.log)[request]?.bind fun requestId =>
        (Auction.handleReqAuctionList (refreshRequest requestId).received).bind fun task =>
          (s.pool.step law Task.process (.start i task)).map fun pool => { s with pool }
    else none
  | .pool e =>
    if clientsOwn readers e then (s.pool.step law Task.process e).map fun pool => { s with pool } else none
  | .deliver k =>
    s.pool.finished[k]?.bind fun x =>
      if forCache x.task then
        (listPacket x.result).bind fun pkt =>
          (s.thread.step pb (.response pkt)).map fun thread => { s with thread }
      else none

/-- The handler of a timeout runs at most `delay` after it is due. -/
def Prompt (delay : Int) (s : CachedMarket) (_ : CachedEvent) : Prop :=
  ∀ w ∈ s.thread.cache.timeoutTimer.alive, s.thread.now ≤ w.2 + delay

variable {law readers pb} {s s' m t : CachedMarket} {begun : CachedMarket} {sofar : List CachedEvent} {delay : Int}

/-- The task of a list for the cache is that of a request that was sent. -/
structure Begins (readers : Nat → Bool) (s : CachedMarket) (i : Nat) (task : Task) : Prop where
  reads : task.reads = readers i
  sent : forCache task = true → ∃ requestId ∈ requests s.log, task = .auctionList (refreshRequest requestId).received

theorem step_cases {e : CachedEvent} (hs : step law readers pb s e = some s') :
    (∃ te, te.answersRefresh = false ∧ s.thread.step pb te = some s'.thread ∧ s'.pool = s.pool) ∨
    (∃ pe, (∀ i task, pe = .start i task → Begins readers s i task) ∧
      s.pool.step law Task.process pe = some s'.pool ∧ s'.thread = s.thread) ∨
    (∃ x ∈ s.pool.finished, ∃ pkt, forCache x.task = true ∧ listPacket x.result = some pkt ∧
      s.thread.step pb (.response pkt) = some s'.thread ∧ s'.pool = s.pool) := by
  unfold step at hs
  cases e with
  | thread te =>
    dsimp only at hs
    split at hs
    · cases hs
    · rename_i hforeign
      obtain ⟨thread, hthread, rfl⟩ := Option.map_eq_some_iff.mp hs
      exact Or.inl ⟨te, by simpa using hforeign, hthread, rfl⟩
  | read i request =>
    dsimp only at hs
    split at hs
    · rename_i hreader
      obtain ⟨requestId, hrequest, hs⟩ := Option.bind_eq_some_iff.mp hs
      obtain ⟨task, htask, hs⟩ := Option.bind_eq_some_iff.mp hs
      obtain ⟨pool, hpool, rfl⟩ := Option.map_eq_some_iff.mp hs
      obtain rfl := Option.some.inj htask
      refine Or.inr (Or.inl ⟨_, ?_, hpool, rfl⟩)
      rintro j task heq
      obtain ⟨rfl, rfl⟩ := PoolEvent.start.inj heq
      exact ⟨hreader.symm, fun _ => ⟨requestId, List.mem_of_getElem? hrequest, rfl⟩⟩
    · cases hs
  | pool pe =>
    dsimp only at hs
    split at hs
    · rename_i hown
      obtain ⟨pool, hpool, rfl⟩ := Option.map_eq_some_iff.mp hs
      refine Or.inr (Or.inl ⟨pe, ?_, hpool, rfl⟩)
      rintro i task rfl
      simp only [clientsOwn, Bool.and_eq_true, decide_eq_true_eq, Bool.not_eq_true'] at hown
      refine ⟨hown.1, fun hcache => ?_⟩
      rw [hown.2] at hcache
      cases hcache
    · cases hs
  | deliver k =>
    obtain ⟨x, hx, hs⟩ := Option.bind_eq_some_iff.mp hs
    split at hs
    · rename_i hcache
      obtain ⟨pkt, hpkt, hs⟩ := Option.bind_eq_some_iff.mp hs
      obtain ⟨thread, hthread, rfl⟩ := Option.map_eq_some_iff.mp hs
      exact Or.inr (Or.inr ⟨x, List.mem_of_getElem? hx, pkt, hcache, hpkt, hthread, rfl⟩)
    · cases hs

/-! ## What only grows -/

structure Later (m s : CachedMarket) : Prop where
  now : m.thread.now ≤ s.thread.now
  log : requests m.log <+: requests s.log
  sentAt : (requests m.log).length = (requests s.log).length →
    s.thread.cache.lastRequestAt = m.thread.cache.lastRequestAt

theorem Later.refl (s : CachedMarket) : Later s s := ⟨Int.le_refl _, List.prefix_rfl, fun _ => rfl⟩

theorem Later.trans {a b c : CachedMarket} (h : Later a b) (h' : Later b c) : Later a c := by
  refine ⟨Int.le_trans h.now h'.now, h.log.trans h'.log, fun heq => ?_⟩
  have hab := h.log.length_le
  have hbc := h'.log.length_le
  rw [h'.sentAt (by omega), h.sentAt (by omega)]

theorem later_of_thread {te : ThreadEvent} (hs : s.thread.step pb te = some s'.thread) : Later s s' := by
  obtain ⟨hwatches, hnow⟩ := AuctionThread.step_watches hs
  rcases hwatches.sends with ⟨hat, hlog⟩ | ⟨-, requestId, hlog⟩
  · exact ⟨hnow, by rw [log, log, hlog], fun _ => hat⟩
  · refine ⟨hnow, by rw [log, log, hlog]; exact List.prefix_append _ _, fun heq => ?_⟩
    rw [log, log, hlog, List.length_append, List.length_singleton] at heq
    omega

theorem step_later {e : CachedEvent} (hs : step law readers pb s e = some s') : Later s s' := by
  rcases step_cases hs with ⟨te, -, hthread, -⟩ | ⟨pe, -, -, hthread⟩ | ⟨x, -, pkt, -, -, hthread, -⟩
  · exact later_of_thread hthread
  · exact ⟨by rw [hthread], by rw [log, log, hthread], fun _ => by rw [hthread]⟩
  · exact later_of_thread hthread

theorem run_later {es : List CachedEvent} (hr : run (step law readers pb) s es = some t) : Later s t :=
  run_related Later.refl (fun _ _ _ h h' => h.trans h') (fun _ _ _ hs => step_later hs) hr

/-! ## The request in flight -/

structure Dated (s : CachedMarket) : Prop where
  numbered : Numbered s.thread.cache
  due : s.thread.cache.Due
  sent : requests s.log ≠ [] → s.thread.cache.lastRequestAt ≤ s.thread.now

theorem start_dated (clock : Int) (db : Database) (now next : Int) : Dated (start clock db now next) where
  numbered := ⟨rfl, by rintro n requestId ⟨⟩, by simp [start, AuctionThread.start]⟩
  due := by rintro ⟨⟩
  sent h := absurd rfl h

theorem Dated.thread (h : Dated s) {te : ThreadEvent} (hs : s.thread.step pb te = some s'.thread) : Dated s' := by
  obtain ⟨hwatches, hnow⟩ := AuctionThread.step_watches hs
  refine ⟨?_, hwatches.due h.due, fun hne => ?_⟩
  · rcases AuctionThread.step_moves hs with hk | hr | ht | ⟨pkt, -, -, -, hr⟩
    · exact h.numbered.kept hk
    · exact h.numbered.requested hr
    · exact h.numbered.timedOut ht
    · exact h.numbered.refreshed hr
  · rcases hwatches.sends with ⟨hat, hlog⟩ | ⟨hat, -⟩
    · rw [hat]
      rw [log, hlog] at hne
      exact Int.le_trans (h.sent hne) hnow
    · rw [hat]
      exact hnow

theorem Dated.same (h : Dated s) (hthread : s'.thread = s.thread) : Dated s' := by
  obtain ⟨hnumbered, hdue, hsent⟩ := h
  rw [← hthread] at hnumbered hdue
  unfold log at hsent
  rw [← hthread] at hsent
  exact ⟨hnumbered, hdue, hsent⟩

theorem Dated.step (h : Dated s) {e : CachedEvent} (hs : step law readers pb s e = some s') : Dated s' := by
  rcases step_cases hs with ⟨te, -, hthread, -⟩ | ⟨pe, -, -, hthread⟩ | ⟨x, -, pkt, -, -, hthread, -⟩
  · exact h.thread hthread
  · exact h.same hthread
  · exact h.thread hthread

/-- An answer to the request in flight was read after this was sent: not longer ago than its timeout lets it be. -/
theorem Dated.recent (h : Dated s) (hm : Dated m) (hlater : Later m s) (hfew : (requests s.log).length < 2 ^ 31)
    (hbusy : s.thread.cache.inFlight = true) {requestId : Int32} (hsent : requestId ∈ requests m.log)
    (hid : requestId = s.thread.cache.refreshSeq) {e : CachedEvent} (hprompt : Prompt delay s e) :
    (requests m.log).length = (requests s.log).length ∧ s.thread.now ≤ m.thread.now + kRequestTimeout + delay := by
  obtain ⟨n, hn⟩ := List.mem_iff_getElem?.mp hsent
  obtain ⟨hlt, -⟩ := List.getElem?_eq_some_iff.mp hn
  have hle := hlater.log.length_le
  have hpos : 0 < (requests s.log).length := h.numbered.sent hbusy
  have hlast : n + 1 = (requests s.log).length := by
    have hnum := hm.numbered.ids n requestId hn
    rw [hid, h.numbered.seq] at hnum
    exact ofNat_inj (by omega) hfew hnum.symm
  have hlen : (requests m.log).length = (requests s.log).length := by omega
  refine ⟨hlen, ?_⟩
  have hne : requests m.log ≠ [] := List.ne_nil_of_mem hsent
  have hafter := hm.sent hne
  have hdue := hprompt _ (h.due hbusy)
  rw [hlater.sentAt hlen] at hdue
  dsimp only at hdue
  omega

/-! ## What the workers read -/

/-- The answer is the list of a moment of the run at which its request had been sent. -/
def ReadThen (law : Call auctionDb → Harm → Bool) (readers : Nat → Bool) (pb : Protobuf ResAuctionList)
    (begun : CachedMarket) (sofar : List CachedEvent) (r : Option Response) : Prop :=
  ∀ response, r = some response → ∃ requestId es m, Moment (step law readers pb) begun sofar es m ∧
    requestId ∈ requests m.log ∧ response = .auctionList 0 requestId.toInt false m.listing

/-- A task for the cache has not read yet, or what is left of it answers with what it has read. -/
structure Reading (law : Call auctionDb → Harm → Bool) (readers : Nat → Bool) (pb : Protobuf ResAuctionList)
    (begun : CachedMarket) (sofar : List CachedEvent) (log : List RefreshLog) (i : Nat)
    (job : Job auctionDb Task (Option Response)) : Prop where
  reads : job.task.reads = readers i
  forCache : forCache job.task = true → job.rest.Ends (ReadThen law readers pb begun sofar) ∨
    ∃ requestId ∈ requests log, job.rest = processAuctionList (refreshRequest requestId).received

structure Sourced (law : Call auctionDb → Harm → Bool) (readers : Nat → Bool) (pb : Protobuf ResAuctionList)
    (begun : CachedMarket) (sofar : List CachedEvent) (s : CachedMarket) : Prop where
  clean : ∀ i, readers i = true → Upheld law (fun s => (s.conns i).pending = []) (Clean i) (fun _ _ => True)
    (fun _ _ _ _ _ => True) s.pool
  jobs : ∀ i job, s.pool.jobs i = some job → Reading law readers pb begun sofar s.log i job
  finished : ∀ x ∈ s.pool.finished, Game.forCache x.task = true → ReadThen law readers pb begun sofar x.result

theorem ReadThen.mono {later : List CachedEvent} {r : Option Response} (h : ReadThen law readers pb begun sofar r)
    (hlater : sofar <+: later) : ReadThen law readers pb begun later r := by
  intro response hr
  obtain ⟨requestId, es, m, hm, hrest⟩ := h response hr
  exact ⟨requestId, es, m, hm.mono hlater, hrest⟩

theorem Reading.mono {later : List CachedEvent} {before after : List RefreshLog} {i : Nat}
    {job : Job auctionDb Task (Option Response)} (h : Reading law readers pb begun sofar before i job)
    (hlater : sofar <+: later) (hlog : requests before <+: requests after) :
    Reading law readers pb begun later after i job := by
  refine ⟨h.reads, fun hcache => ?_⟩
  rcases h.forCache hcache with hends | ⟨requestId, hsent, hrest⟩
  · exact Or.inl (hends.mono fun r hr => hr.mono hlater)
  · exact Or.inr ⟨requestId, hlog.subset hsent, hrest⟩

theorem start_sourced (clock : Int) (db : Database) (now next : Int) :
    Sourced law readers pb begun sofar (start clock db now next) where
  clean i _ := upheld_fresh (idle_wf (D := auctionDb) db now next) rfl fun _ => trivial
  jobs := by rintro i job ⟨⟩
  finished := by rintro x ⟨⟩

/-- While the thread moves on, what was read stays read. -/
theorem Sourced.keep (h : Sourced law readers pb begun sofar s) {later : List CachedEvent} (hlater : sofar <+: later)
    (hlog : requests s.log <+: requests s'.log) (hpool : s'.pool = s.pool) :
    Sourced law readers pb begun later s' := by
  refine ⟨fun i hi => ?_, fun i job hj => ?_, fun x hx hcache => ?_⟩
  · rw [hpool]
    exact h.clean i hi
  · rw [hpool] at hj
    exact (h.jobs i job hj).mono hlater hlog
  · rw [hpool] at hx
    exact (h.finished x hx hcache).mono hlater

/-- The query of a task for the cache. -/
theorem query_reads {i : Nat} (hnow : Moment (step law readers pb) begun sofar sofar s) {requestId : Int32}
    (hsent : requestId ∈ requests s.log) (hpending : (s.pool.server.conns i).pending = [])
    {c : Call auctionDb} {k : Except SqlException c.Reply → Prog (Sql auctionDb) (Option Response)}
    (hrest : processAuctionList (refreshRequest requestId).received = .call c k) {o : Except SqlException c.Reply}
    {server : Server auctionDb} (hs : Step law i c s.pool.server o server) :
    (k o).Ends (ReadThen law readers pb begun sofar) := by
  rw [processAuctionList_eq] at hrest
  cases hrest
  rcases hs.exec auctionDb_lawful with ⟨rfl, -, -, -⟩ | ⟨e, rfl, -⟩
  · intro o'
    cases o' with
    | ok u =>
      rintro response hr
      obtain rfl := Option.some.inj hr
      have hview : s.pool.server.view i = s.pool.server.db := by rw [view, hpending, applyAll_nil]
      refine ⟨requestId, sofar, s, hnow, hsent, ?_⟩
      rw [Server.effect, hview]
      rfl
    | error e => rintro response ⟨⟩
  · rintro response ⟨⟩

theorem forCache_reads {task : Task} (h : forCache task = true) : task.reads = true := by
  cases task with
  | auctionList pkt => rfl
  | receiptList pkt => rfl
  | registItem pkt h' => cases h
  | purchaseItem pkt h' => cases h

/-- A job that was not moved by the event is as it was. -/
theorem Sourced.others (h : Sourced law readers pb begun sofar s) {e : CachedEvent} {j : Nat}
    {job : Option (Job auctionDb Task (Option Response))}
    (hjob : ∀ x, job = some x → Reading law readers pb begun (sofar ++ [e]) s.log j x) :
    ∀ i x, Function.update s.pool.jobs j job i = some x → Reading law readers pb begun (sofar ++ [e]) s.log i x := by
  intro i x hx
  by_cases hi : i = j
  · subst hi
    rw [Function.update_self] at hx
    exact hjob x hx
  · rw [Function.update_of_ne hi] at hx
    exact (h.jobs i x hx).mono (List.prefix_append _ _) List.prefix_rfl

theorem Sourced.work (h : Sourced law readers pb begun sofar s) (hnow : run (step law readers pb) begun sofar = some s)
    {e : CachedEvent} {pe : PoolEvent Task} (hbegins : ∀ i task, pe = .start i task → Begins readers s i task)
    (hpool : s.pool.step law Task.process pe = some s'.pool) (hthread : s'.thread = s.thread) :
    Sourced law readers pb begun (sofar ++ [e]) s' := by
  have hclean : ∀ i, readers i = true → Upheld law (fun s => (s.conns i).pending = []) (Clean i) (fun _ _ => True)
      (fun _ _ _ _ _ => True) s'.pool := by
    intro i hi
    refine ((h.clean i hi).step (reader_contract i) ?_ hpool).1
    rintro j task rfl rfl
    rw [(hbegins j task rfl).reads, hi]
  have hlog : s'.log = s.log := by rw [log, log, hthread]
  have hfinished : ∀ x ∈ s.pool.finished, Game.forCache x.task = true →
      ReadThen law readers pb begun (sofar ++ [e]) x.result :=
    fun x hx hcache => (h.finished x hx hcache).mono (List.prefix_append _ _)
  cases pe with
  | start j task =>
    obtain ⟨-, heq⟩ := Pool.step_start hpool
    obtain ⟨hreads, hsent⟩ := hbegins j task rfl
    refine ⟨hclean, ?_, ?_⟩
    · rw [hlog, heq]
      refine h.others ?_
      rintro x ⟨⟩
      refine ⟨hreads, fun hcache => Or.inr ?_⟩
      obtain ⟨requestId, hmem, rfl⟩ := hsent hcache
      exact ⟨requestId, hmem, rfl⟩
    · rw [heq]
      exact hfinished
  | call j fault =>
    obtain ⟨task, c, k, o, server, hj, hcall, heq⟩ := Pool.step_call hpool
    have hreading := h.jobs j _ hj
    refine ⟨hclean, ?_, ?_⟩
    · rw [hlog, heq]
      refine h.others ?_
      rintro x ⟨⟩
      refine ⟨hreading.reads, fun hcache => Or.inl ?_⟩
      rcases hreading.forCache hcache with hends | ⟨requestId, hsent, hrest⟩
      · exact (hends o).mono fun r hr => hr.mono (List.prefix_append _ _)
      · have hreader : readers j = true := by rw [← hreading.reads, forCache_reads hcache]
        refine (query_reads (Moment.present hnow) hsent (h.clean j hreader).inv hrest.symm hcall).mono fun r hr => ?_
        exact hr.mono (List.prefix_append _ _)
    · rw [heq]
      exact hfinished
  | finish j =>
    obtain ⟨task, r, hj, heq⟩ := Pool.step_finish hpool
    have hreading := h.jobs j _ hj
    refine ⟨hclean, ?_, ?_⟩
    · rw [hlog, heq]
      refine h.others ?_
      rintro x ⟨⟩
    · rw [heq]
      intro x hx hcache
      rcases List.mem_append.mp hx with hx | hx
      · exact hfinished x hx hcache
      · obtain rfl := List.mem_singleton.mp hx
        rcases hreading.forCache hcache with hends | ⟨requestId, -, hrest⟩
        · have hread : ReadThen law readers pb begun sofar r := hends
          exact hread.mono (List.prefix_append _ _)
        · rw [processAuctionList_eq] at hrest
          cases hrest
  | tick d =>
    obtain heq : { s.pool with server := s.pool.server.tick d } = s'.pool := Option.some.inj hpool
    refine ⟨hclean, ?_, ?_⟩
    · rw [hlog, ← heq]
      exact fun i x hx => (h.jobs i x hx).mono (List.prefix_append _ _) List.prefix_rfl
    · rw [← heq]
      exact hfinished

theorem Sourced.step (h : Sourced law readers pb begun sofar s) (hnow : run (step law readers pb) begun sofar = some s)
    {e : CachedEvent} (hs : CachedMarket.step law readers pb s e = some s') :
    Sourced law readers pb begun (sofar ++ [e]) s' := by
  rcases step_cases hs with ⟨te, -, -, hpool⟩ | ⟨pe, hbegins, hpool, hthread⟩ | ⟨x, -, pkt, -, -, -, hpool⟩
  · exact h.keep (List.prefix_append _ _) (step_later hs).log hpool
  · exact h.work hnow hbegins hpool hthread
  · exact h.keep (List.prefix_append _ _) (step_later hs).log hpool

/-! ## The snapshot -/

/-- The snapshot is the list of the moment `es`, and it was received not long after that. A request that is
in flight was sent later. -/
structure Holds (law : Call auctionDb → Harm → Bool) (readers : Nat → Bool) (pb : Protobuf ResAuctionList)
    (begun : CachedMarket) (delay : Int) (sofar : List CachedEvent) (s : CachedMarket) (snap : Snapshot)
    (es : List CachedEvent) (m : CachedMarket) : Prop where
  moment : Moment (step law readers pb) begun sofar es m
  list : snap = finishRefresh pb snap.fetchedAt m.listing
  age : snap.fetchedAt ≤ m.thread.now + kRequestTimeout + delay
  older : s.thread.cache.inFlight = true → (requests m.log).length < (requests s.log).length

/-- Since the moment `base`, the snapshot was not of an earlier one. -/
structure Sound (law : Call auctionDb → Harm → Bool) (readers : Nat → Bool) (pb : Protobuf ResAuctionList)
    (begun : CachedMarket) (delay : Int) (base sofar : List CachedEvent) (s : CachedMarket) : Prop where
  reached : run (step law readers pb) begun sofar = some s
  dated : Dated s
  sourced : Sourced law readers pb begun sofar s
  missing : s.thread.cache.snapshot = none → base = []
  held : ∀ snap, s.thread.cache.snapshot = some snap →
    ∃ es m, base <+: es ∧ Holds law readers pb begun delay sofar s snap es m

variable {base : List CachedEvent} {snap : Snapshot} {es : List CachedEvent}

theorem Holds.later (h : Holds law readers pb begun delay sofar s snap es m)
    (hnow : run (step law readers pb) begun sofar = some s) : Later m s := by
  obtain ⟨fs, hfs⟩ := h.moment.rest hnow
  exact run_later hfs

theorem Holds.step (h : Holds law readers pb begun delay sofar s snap es m)
    (hnow : run (step law readers pb) begun sofar = some s) {e : CachedEvent}
    (hmoves : AuctionCache.Kept s.thread.cache s'.thread.cache ∨ AuctionCache.Requested s.thread.cache s'.thread.cache ∨
      AuctionCache.TimedOut s.thread.cache s'.thread.cache) :
    Holds law readers pb begun delay (sofar ++ [e]) s' snap es m := by
  refine ⟨h.moment.mono (List.prefix_append _ _), h.list, h.age, fun hbusy => ?_⟩
  have hle := (h.later hnow).log.length_le
  rcases hmoves with hk | hr | ht
  · have hlog : s'.log = s.log := hk.log
    rw [hlog]
    exact h.older (hk.inFlight ▸ hbusy)
  · have hlog : s'.log = s.log ++ [_] := hr.log
    rw [hlog, requests_requested, List.length_append, List.length_singleton]
    exact Nat.lt_succ_of_le hle
  · rw [ht.inFlight] at hbusy
    cases hbusy

/-- A snapshot that comes later is of a later moment. -/
theorem Holds.before (h : Holds law readers pb begun delay sofar s snap es m) (hbusy : s.thread.cache.inFlight = true)
    {es' : List CachedEvent} {m' : CachedMarket} (hm' : Moment (CachedMarket.step law readers pb) begun sofar es' m')
    (hlen : (requests m'.log).length = (requests s.log).length) : es <+: es' := by
  rcases List.prefix_or_prefix_of_prefix h.moment.before hm'.before with hle | hle
  · exact hle
  · obtain ⟨fs, hfs⟩ := hm'.between h.moment hle
    have hlog := (run_later hfs).log.length_le
    have holder := h.older hbusy
    omega

theorem Sound.moves (h : Sound law readers pb begun delay base sofar s) {e : CachedEvent}
    (hs : CachedMarket.step law readers pb s e = some s')
    (hmoves : AuctionCache.Kept s.thread.cache s'.thread.cache ∨ AuctionCache.Requested s.thread.cache s'.thread.cache ∨
      AuctionCache.TimedOut s.thread.cache s'.thread.cache) :
    Sound law readers pb begun delay base (sofar ++ [e]) s' := by
  have hsnap : s'.thread.cache.snapshot = s.thread.cache.snapshot := by
    rcases hmoves with hk | hr | ht
    · exact hk.snapshot
    · exact hr.snapshot
    · exact ht.snapshot
  refine ⟨run_append.mpr ⟨s, h.reached, by simp [hs]⟩, h.dated.step hs, h.sourced.step h.reached hs, fun hnone => ?_,
    fun snap hsome => ?_⟩
  · exact h.missing (hsnap ▸ hnone)
  · obtain ⟨es, m, hbase, hholds⟩ := h.held snap (hsnap ▸ hsome)
    exact ⟨es, m, hbase, hholds.step h.reached hmoves⟩

/-- An answer is the list of a moment of the run at which its request had been sent. -/
theorem Sourced.answer (h : Sourced law readers pb begun sofar s) {x : Finished Task (Option Response)}
    (hx : x ∈ s.pool.finished) (hcache : Game.forCache x.task = true) {pkt : SsResAuctionList}
    (hpkt : listPacket x.result = some pkt) :
    ∃ es m, Moment (CachedMarket.step law readers pb) begun sofar es m ∧ pkt.requestId ∈ requests m.log ∧
      pkt.listinfo = m.listing := by
  have hread := h.finished x hx hcache
  cases hresult : x.result with
  | none =>
    rw [hresult] at hpkt
    cases hpkt
  | some response =>
    obtain ⟨requestId, es, m, hm, hsent, rfl⟩ := hread response hresult
    rw [hresult] at hpkt
    obtain rfl := Option.some.inj hpkt
    refine ⟨es, m, hm, ?_, rfl⟩
    dsimp only
    rw [Int32.ofInt_toInt]
    exact hsent

theorem moment_dated (hbegun : Dated begun) (hm : Moment (step law readers pb) begun sofar es m) : Dated m :=
  run_invariant (P := Dated) (fun _ _ _ h hs => h.step hs) hbegun hm.reached

theorem Sound.step (hbegun : Dated begun) (h : Sound law readers pb begun delay base sofar s) {e : CachedEvent}
    (hprompt : Prompt delay s e) (hfew : (requests s.log).length < 2 ^ 31)
    (hs : CachedMarket.step law readers pb s e = some s') :
    Sound law readers pb begun delay base (sofar ++ [e]) s' := by
  have hstep := hs
  rcases step_cases hs with ⟨te, hforeign, hthread, -⟩ | ⟨pe, -, -, hthread⟩ | ⟨x, hx, pkt, hcache, hpkt, hthread, -⟩
  · rcases AuctionThread.step_moves hthread with hk | hr | ht | ⟨pkt, rfl, hsession, -, -⟩
    · exact h.moves hstep (Or.inl hk)
    · exact h.moves hstep (Or.inr (Or.inl hr))
    · exact h.moves hstep (Or.inr (Or.inr ht))
    · simp [ThreadEvent.answersRefresh, hsession] at hforeign
  · exact h.moves hstep (Or.inl (by rw [hthread]; exact ⟨rfl, rfl, rfl, rfl⟩))
  · rcases AuctionThread.step_moves hthread with hk | hr | ht | ⟨pkt', heq, -, hid, hr⟩
    · exact h.moves hstep (Or.inl hk)
    · exact h.moves hstep (Or.inr (Or.inl hr))
    · exact h.moves hstep (Or.inr (Or.inr ht))
    · obtain rfl := ThreadEvent.response.inj heq
      obtain ⟨es, m, hm, hsent, hlist⟩ := h.sourced.answer hx hcache hpkt
      have hlater : Later m s := by
        obtain ⟨fs, hfs⟩ := hm.rest h.reached
        exact run_later hfs
      obtain ⟨hlen, hage⟩ := h.dated.recent (moment_dated hbegun hm) hlater hfew hr.busy hsent hid hprompt
      refine ⟨run_append.mpr ⟨s, h.reached, by simp [hstep]⟩, h.dated.step hstep, h.sourced.step h.reached hstep,
        fun hnone => ?_, fun snap hsome => ?_⟩
      · rw [hr.snapshot] at hnone
        cases hnone
      · rw [hr.snapshot, hlist] at hsome
        obtain rfl := Option.some.inj hsome
        refine ⟨es, m, ?_, hm.mono (List.prefix_append _ _), rfl, hage, fun hbusy => ?_⟩
        · cases hold : s.thread.cache.snapshot with
          | none =>
            rw [h.missing hold]
            exact List.nil_prefix
          | some old =>
            obtain ⟨es₀, m₀, hbase, hholds⟩ := h.held old hold
            exact hbase.trans (hholds.before hr.busy hm hlen)
        · rw [hr.inFlight] at hbusy
          cases hbusy

/-! ## Every run -/

theorem Sound.run (hbegun : Dated begun) (h : Sound law readers pb begun delay base sofar s)
    (hprompt : Along (CachedMarket.step law readers pb) (Prompt delay) s es)
    (hrun : Lib.run (CachedMarket.step law readers pb) s es = some t) (hfew : (requests t.log).length < 2 ^ 31) :
    Sound law readers pb begun delay base (sofar ++ es) t := by
  induction es generalizing s sofar with
  | nil =>
    obtain rfl := Option.some.inj hrun
    rwa [List.append_nil]
  | cons e es ih =>
    obtain ⟨s', hs, hrest⟩ := run_cons_iff.mp hrun
    have hfew' : (requests s.log).length < 2 ^ 31 := Nat.lt_of_le_of_lt (run_later hrun).log.length_le hfew
    have hnext := ih (h.step hbegun hprompt.1 hfew' hs) (hprompt.2 s' hs) hrest
    rwa [List.append_assoc, List.singleton_append] at hnext

/-- The cache uses the snapshot: a client gets its list, or a purchase is checked against it. -/
structure Uses (s : CachedMarket) (snap : Snapshot) : Prop where
  held : s.thread.cache.snapshot = some snap
  used : (∃ session, (trySendList (some snap) s.thread.now session).2 = true) ∨
    ∃ listId count buyerId, validatePurchase (some snap) s.thread.now listId count buyerId ≠ .unknown

theorem Uses.fresh (h : Uses s snap) : s.thread.now - snap.fetchedAt < kStaleLimit := by
  have hfresh : isFresh snap s.thread.now = true := by
    rcases h.used with ⟨session, hsent⟩ | ⟨listId, count, buyerId, hverdict⟩
    · by_contra hstale
      have hmiss : trySendList (some snap) s.thread.now session = (session, false) := by
        unfold trySendList
        exact if_pos (Or.inr (by simpa using hstale))
      rw [hmiss] at hsent
      cases hsent
    · by_contra hstale
      simp [validatePurchase, hstale] at hverdict
  simpa [isFresh] using hfresh

/-- The snapshot is the list of the moment `es` of a run that is now in `s`, less than `age` ago. -/
structure AsOf (law : Call auctionDb → Harm → Bool) (readers : Nat → Bool) (pb : Protobuf ResAuctionList)
    (begun : CachedMarket) (age : Int) (sofar : List CachedEvent) (s : CachedMarket) (snap : Snapshot)
    (es : List CachedEvent) (m : CachedMarket) : Prop where
  moment : Moment (step law readers pb) begun sofar es m
  list : snap = finishRefresh pb snap.fetchedAt m.listing
  age : s.thread.now < m.thread.now + age

theorem Holds.asOf (h : Holds law readers pb begun delay sofar s snap es m) (huses : Uses s snap) :
    AsOf law readers pb begun (kStaleLimit + kRequestTimeout + delay) sofar s snap es m := by
  have hfresh := huses.fresh
  have hage := h.age
  exact ⟨h.moment, h.list, by omega⟩

variable {clock : Int} {db : Database} {now next : Int}

theorem start_sound (clock : Int) (db : Database) (now next : Int) :
    Sound law readers pb (start clock db now next) delay [] [] (start clock db now next) :=
  ⟨rfl, start_dated clock db now next, start_sourced clock db now next, fun _ => rfl, by rintro snap ⟨⟩⟩

/-- A list that a client gets from the cache, and one that a purchase is checked against, is what the tables
had not long ago; and what is used later is not of an earlier moment. -/
theorem cached_list_is_recent (hrun : Lib.run (step law readers pb) (start clock db now next) es = some s)
    (hprompt : Along (step law readers pb) (Prompt delay) (start clock db now next) es)
    (hfew : (requests s.log).length < 2 ^ 31) (huses : Uses s snap) :
    ∃ es₁ m, AsOf law readers pb (start clock db now next) (kStaleLimit + kRequestTimeout + delay) es s snap es₁ m ∧
      ∀ fs t snap', Lib.run (step law readers pb) s fs = some t → Along (step law readers pb) (Prompt delay) s fs →
        (requests t.log).length < 2 ^ 31 → Uses t snap' →
        ∃ es₂ m', es₁ <+: es₂ ∧
          AsOf law readers pb (start clock db now next) (kStaleLimit + kRequestTimeout + delay) (es ++ fs) t snap' es₂ m' := by
  have hbegun := start_dated clock db now next
  have hsound := (start_sound clock db now next).run hbegun hprompt hrun hfew
  rw [List.nil_append] at hsound
  obtain ⟨es₁, m, -, hholds⟩ := hsound.held snap huses.held
  refine ⟨es₁, m, hholds.asOf huses, fun fs t snap' hfs hprompt' hfew' huses' => ?_⟩
  -- From here on, the moment of the snapshot is the one to compare with.
  have hbased : Sound law readers pb (start clock db now next) delay es₁ es s := by
    refine ⟨hsound.reached, hsound.dated, hsound.sourced, fun hnone => ?_, fun old hold => ?_⟩
    · rw [huses.held] at hnone
      cases hnone
    · obtain rfl := Option.some.inj (huses.held.symm.trans hold)
      exact ⟨es₁, m, List.prefix_rfl, hholds⟩
  obtain ⟨es₂, m', hlater, hholds'⟩ := (hbased.run hbegun hprompt' hfs hfew').held snap' huses'.held
  exact ⟨es₂, m', hlater, hholds'.asOf huses'⟩

instance (delay : Int) (s : CachedMarket) (e : CachedEvent) : Decidable (Prompt delay s e) :=
  inferInstanceAs (Decidable (∀ w ∈ s.thread.cache.timeoutTimer.alive, s.thread.now ≤ w.2 + delay))

/-- Worker 2 reads, and worker 0 registers an item. The answer is handled a second after it was read. -/
def sampleRead : List CachedEvent :=
  [.thread .onConnect, .pool (.start 0 sampleRegist), .pool (.call 0 none), .pool (.call 0 none), .pool (.finish 0),
    .read 2 0, .pool (.call 2 none), .pool (.call 2 none), .pool (.finish 2), .thread (.tick 1000000000), .deliver 1,
    .thread (.tick 2000000000)]

theorem cached_list_is_recent_sample : ∃ s snap es m,
    run (step mysqlLaw (· = 2) countingProtobuf) (start 0 emptyMarket 0 1) sampleRead = some s ∧
    validatePurchase (some snap) s.thread.now 1 1 8 = .pass ∧
    AsOf mysqlLaw (· = 2) countingProtobuf (start 0 emptyMarket 0 1) 185000000000 sampleRead s snap es m := by
  obtain ⟨s, snap, hrun, hsnap, hfew, hverdict⟩ : ∃ s snap,
      run (step mysqlLaw (· = 2) countingProtobuf) (start 0 emptyMarket 0 1) sampleRead = some s ∧
      s.thread.cache.snapshot = some snap ∧ (requests s.log).length = 1 ∧
      validatePurchase (some snap) s.thread.now 1 1 8 = .pass := ⟨_, _, rfl, rfl, rfl, rfl⟩
  have hprompt : Along (step mysqlLaw (· = 2) countingProtobuf) (Prompt 0) (start 0 emptyMarket 0 1) sampleRead := by
    decide
  have huses : Uses s snap := ⟨hsnap, Or.inr ⟨1, 1, 8, by rw [hverdict]; decide⟩⟩
  obtain ⟨es, m, hasOf, -⟩ := cached_list_is_recent hrun hprompt (by omega) huses
  exact ⟨s, snap, es, m, hrun, hverdict, hasOf⟩

/-! ## What the cache rejects -/

theorem Prompt.mono {later : Int} (hle : delay ≤ later) {e : CachedEvent} (h : Prompt delay s e) :
    Prompt later s e := by
  intro w hw
  have hdue := h w hw
  omega

/-- In a run, no handler runs later than some delay. -/
theorem prompt_enough (s : CachedMarket) (es : List CachedEvent) :
    ∃ delay, ∀ later, delay ≤ later → Along (step law readers pb) (Prompt later) s es := by
  have hstate : ∀ (now : Int) (ws : List (Int32 × Int)), ∃ delay : Int, ∀ w ∈ ws, now ≤ w.2 + delay := by
    intro now ws
    induction ws with
    | nil => exact ⟨0, by simp⟩
    | cons w ws ih =>
      obtain ⟨delay, hdelay⟩ := ih
      refine ⟨max delay (now - w.2), fun x hx => ?_⟩
      rcases List.mem_cons.mp hx with rfl | hx
      · omega
      · have := hdelay x hx
        omega
  induction es generalizing s with
  | nil => exact ⟨0, fun _ _ => trivial⟩
  | cons e es ih =>
    obtain ⟨delay, hdelay⟩ := hstate s.thread.now s.thread.cache.timeoutTimer.alive
    have hthis : Prompt delay s e := hdelay
    cases hs : step law readers pb s e with
    | none =>
      refine ⟨delay, fun later hle => ⟨hthis.mono hle, fun s' hs' => ?_⟩⟩
      rw [hs] at hs'
      cases hs'
    | some s' =>
      obtain ⟨rest, hrest⟩ := ih s'
      refine ⟨max delay rest, fun later hle => ⟨hthis.mono (by omega), fun s'' hs' => ?_⟩⟩
      obtain rfl := Option.some.inj (hs.symm.trans hs')
      exact hrest later (by omega)

/-- What the AuctionServer's workers did in a run. -/
theorem run_pool (hrun : Lib.run (step law readers pb) s es = some t) :
    ∃ pes, Lib.run (Pool.step law Task.process) s.pool pes = some t.pool := by
  have hfollows : ∀ a e b pool, a.pool = pool → step law readers pb a e = some b →
      ∃ pes pool', Lib.run (Pool.step law Task.process) pool pes = some pool' ∧ b.pool = pool' := by
    rintro a e b pool rfl hs
    rcases step_cases hs with ⟨te, -, -, hsame⟩ | ⟨pe, -, hpe, -⟩ | ⟨x, -, pkt, -, -, -, hsame⟩
    · exact ⟨[], a.pool, rfl, hsame⟩
    · exact ⟨[pe], b.pool, by simp [hpe], rfl⟩
    · exact ⟨[], a.pool, rfl, hsame⟩
  obtain ⟨pes, pool, hpes, rfl⟩ := run_simulated hfollows rfl hrun
  exact ⟨pes, hpes⟩

/-- Whatever the refreshes have brought: a purchase that the cache rejects for a shortage, or as the buyer's
own, would throw on the tables as they are now, and commit nothing. -/
theorem rejections_stand (hkeys : ∀ l ∈ db.auctionListings.rows, l.listingId < next)
    (hrun : Lib.run (step law readers pb) (start clock db now next) es = some s) (hfew : (requests s.log).length < 2 ^ 31)
    (hshown : ∀ es₁ m, Moment (step law readers pb) (start clock db now next) es es₁ m →
      ∀ l ∈ m.pool.server.db.auctionListings.rows, Shown l)
    {info : AuctionItemInfo}
    (hreject : validatePurchase s.thread.cache.snapshot s.thread.now info.listId info.count info.playerId = .rejectShortage ∨
      validatePurchase s.thread.cache.snapshot s.thread.now info.listId info.count info.playerId = .rejectOwn)
    {i : Nat} (hidle : (s.pool.server.conns i).pending = []) {tr : List (Answered (Sql auctionDb))}
    {result : Except SqlException Unit × Int} {server : Server auctionDb}
    (hbuy : Exec Eq (Step law i) ((tryPurchase info).prog 0) s.pool.server tr result server) :
    (∃ e, result.1 = .error e) ∧ server.history = s.pool.server.history ∧ server.db = s.pool.server.db := by
  have hprompt : ∃ delay, ∀ later, delay ≤ later →
      Along (step law readers pb) (Prompt later) (start clock db now next) es := prompt_enough _ _
  obtain ⟨delay, hdelay⟩ := hprompt
  have hsound :=
    (start_sound clock db now next).run (start_dated clock db now next) (hdelay delay (le_refl _)) hrun hfew
  rw [List.nil_append] at hsound
  cases hsnap : s.thread.cache.snapshot with
  | none =>
    rw [hsnap] at hreject
    rcases hreject with hreject | hreject
    · cases hreject
    · cases hreject
  | some snap =>
    rw [hsnap] at hreject
    obtain ⟨es₁, m, -, hholds⟩ := hsound.held snap hsnap
    obtain ⟨before, hbefore⟩ := run_pool hholds.moment.reached
    obtain ⟨fs, hfs⟩ := hholds.moment.rest hrun
    obtain ⟨since, hsince⟩ := run_pool hfs
    have h₁ := rows_run (rowsKept_fresh db now next) hbefore
    have h₂ := rows_run h₁.1 hsince
    obtain ⟨l, hl⟩ := rejected_row hholds.list hreject
    have hlshown := hshown es₁ m hholds.moment l hl.mem
    have hno : ∀ row, ¬Sellable s.pool.server.db s.pool.server.now info row := by
      intro row hsell
      obtain ⟨hget, -⟩ := liveListing_eq_some.mp hsell.live
      have hid : row.listingId = l.listingId := by
        rw [Table.key_of_get? hget, ← hl.listId]
        exact (toInt32_eq_iff _).mpr hlshown.listingId
      have hheir := row_heir hkeys h₁.2 h₂.2 hl.mem (Table.get?_eq_some.mp hget).1 hid
      exact heir_not_sellable hl hlshown hheir hsell
    obtain ⟨hthrows, hkept⟩ := tryPurchase_throws h₂.1.wf hidle hno hbuy
    exact ⟨hthrows, hkept.history, hkept.db⟩

/-- Three units are listed, and four are asked for. -/
theorem rejections_stand_sample : ∃ s tr result server,
    run (step mysqlLaw (· = 2) countingProtobuf) (start 0 emptyMarket 0 1) sampleRead = some s ∧
    validatePurchase s.thread.cache.snapshot s.thread.now 1 4 8 = .rejectShortage ∧
    Exec Eq (Step mysqlLaw 3) ((tryPurchase greedyInfo).prog 0) s.pool.server tr result server ∧
    (∃ e, result.1 = .error e) ∧ server.history = s.pool.server.history ∧ server.db = s.pool.server.db := by
  obtain ⟨s, tr, result, server, hrun, hfew, hverdict, hidle, hbuy⟩ : ∃ s tr result server,
      run (step mysqlLaw (· = 2) countingProtobuf) (start 0 emptyMarket 0 1) sampleRead = some s ∧
      (requests s.log).length = 1 ∧
      validatePurchase s.thread.cache.snapshot s.thread.now 1 4 8 = .rejectShortage ∧
      (s.pool.server.conns 3).pending = [] ∧
      runAlone mysqlLaw 3 ((tryPurchase greedyInfo).prog 0) (List.replicate 10 none) s.pool.server =
        some (tr, result, server) := ⟨_, _, _, _, rfl, rfl, rfl, rfl, rfl⟩
  have hrows : ∀ es ∈ sampleRead.inits,
      (run (step mysqlLaw (· = 2) countingProtobuf) (start 0 emptyMarket 0 1) es).all fun m =>
        m.pool.server.db.auctionListings.rows.all fun l => l = ⟨1, 7, 5, 3, 10, 86400⟩ := by decide
  have hexec := runAlone_exec (fun _ => rfl) hbuy
  refine ⟨s, tr, result, server, hrun, hverdict, hexec, ?_⟩
  refine rejections_stand (by simp [emptyMarket]) hrun (by omega) (fun es m hm l hl => ?_) (Or.inl hverdict) hidle hexec
  have hall := hrows es ((List.mem_inits _ _).mpr hm.before)
  rw [hm.reached] at hall
  have hlisted := of_decide_eq_true (List.all_eq_true.mp hall l hl)
  rw [hlisted]
  constructor <;> simp [FitsInt32]

end CachedMarket

end Game
