import J1Server.Game.Refresh

/-! # Which answers a refresh installs

The cache with the AuctionServer behind it. An answer is handled at any time after it was read,
more than once or never. -/

namespace Game

open Lib Core Auction

/-- `ProcessAuctionList`: what is echoed, and the list that was read. -/
def processedAuctionList (req : SsReqAuctionList) (listinfo : List AuctionItemInfo) : SsResAuctionList :=
  ⟨req.sessionId, req.requestId, req.mylist, listinfo⟩

/-- An answer to the request of that number. Times count the events of the run. -/
structure RefreshAnswer where
  request : Nat
  pkt : SsResAuctionList
  readAt : Nat

structure Installed where
  request : Nat
  readAt : Nat
  receivedAt : Nat
  deriving DecidableEq

def requests (log : List RefreshLog) : List Int32 :=
  log.filterMap fun | .requested requestId => some requestId | _ => none

def refreshes (log : List RefreshLog) : Nat :=
  log.countP fun | .refreshed _ => true | _ => false

/-- The number of the request that waits for its answer: the last thing that happened is that it was sent. -/
def outstanding (log : List RefreshLog) : Option Nat :=
  match log.getLast? with
  | some (.requested _) => some ((requests log).length - 1)
  | _ => none

structure RefreshRun where
  stamp : Nat := 0
  thread : AuctionThread
  answers : List RefreshAnswer := []
  installed : List Installed := []

inductive RefreshEvent
  | thread (e : ThreadEvent)
  /-- The AuctionServer reads the database for a request. -/
  | answer (request : Nat) (listinfo : List AuctionItemInfo)
  /-- One of the answers is handled. It may be handled again. -/
  | deliver (k : Nat)

/-- A list that a client asked for is not an answer to a refresh. -/
def ThreadEvent.answersRefresh : ThreadEvent → Bool
  | .response pkt => pkt.sessionId = kCacheSessionId
  | _ => false

namespace RefreshRun

def log (s : RefreshRun) : List RefreshLog := s.thread.cache.log

def start (now : Int) : RefreshRun where
  thread := .start now

def step (pb : Protobuf ResAuctionList) (s : RefreshRun) : RefreshEvent → Option RefreshRun
  | .thread e =>
    if e.answersRefresh then none
    else (s.thread.step pb e).map fun thread => { s with stamp := s.stamp + 1, thread }
  | .answer request listinfo =>
    (requests s.log)[request]?.map fun requestId =>
      { s with
        stamp := s.stamp + 1
        answers := s.answers ++ [⟨request, processedAuctionList (refreshRequest requestId) listinfo, s.stamp⟩] }
  | .deliver k =>
    s.answers[k]?.bind fun answer =>
      (s.thread.step pb (.response answer.pkt)).map fun thread =>
        { s with
          stamp := s.stamp + 1
          thread
          installed :=
            if refreshes thread.cache.log = refreshes s.log then s.installed
            else s.installed ++ [⟨answer.request, answer.readAt, s.stamp⟩] }

end RefreshRun

namespace AuctionCache

variable {pb : Protobuf ResAuctionList} {s s' : AuctionCache} {now : Int}

/-! ## What a handler does -/

/-- What is on the way stays on the way. -/
structure Kept (s s' : AuctionCache) : Prop where
  log : s'.log = s.log
  inFlight : s'.inFlight = s.inFlight
  refreshSeq : s'.refreshSeq = s.refreshSeq
  snapshot : s'.snapshot = s.snapshot

structure Requested (s s' : AuctionCache) : Prop where
  idle : s.inFlight = false
  log : s'.log = s.log ++ [.requested (s.refreshSeq + 1)]
  inFlight : s'.inFlight = true
  refreshSeq : s'.refreshSeq = s.refreshSeq + 1
  snapshot : s'.snapshot = s.snapshot

structure TimedOut (s s' : AuctionCache) : Prop where
  busy : s.inFlight = true
  log : s'.log = s.log ++ [.timedOut s.refreshSeq]
  inFlight : s'.inFlight = false
  refreshSeq : s'.refreshSeq = s.refreshSeq
  snapshot : s'.snapshot = s.snapshot

structure Refreshed (pb : Protobuf ResAuctionList) (s : AuctionCache) (now : Int) (pkt : SsResAuctionList)
    (s' : AuctionCache) : Prop where
  busy : s.inFlight = true
  log : s'.log = s.log ++ [.refreshed pkt.requestId]
  inFlight : s'.inFlight = false
  refreshSeq : s'.refreshSeq = s.refreshSeq
  snapshot : s'.snapshot = some (Game.finishRefresh pb now pkt.listinfo)

theorem armTimer_kept (s : AuctionCache) (now delay : Int) : Kept s (s.armTimer now delay) := by
  obtain ⟨timer, heq⟩ := armTimer_eq s now delay
  rw [heq]
  exact ⟨rfl, rfl, rfl, rfl⟩

theorem requestRefresh_moves (s : AuctionCache) (now : Int) :
    Kept s (s.requestRefresh now) ∨ Requested s (s.requestRefresh now) := by
  unfold requestRefresh
  split
  · left
    exact ⟨rfl, rfl, rfl, rfl⟩
  · rename_i hidle
    right
    refine ⟨?_, rfl, rfl, rfl, rfl⟩
    simp only [Bool.or_eq_true, not_or] at hidle
    simpa using hidle.1.1

theorem Kept.trans {a b c : AuctionCache} (h₁ : Kept a b) (h₂ : Kept b c) : Kept a c where
  log := h₂.log.trans h₁.log
  inFlight := h₂.inFlight.trans h₁.inFlight
  refreshSeq := h₂.refreshSeq.trans h₁.refreshSeq
  snapshot := h₂.snapshot.trans h₁.snapshot

theorem finishRefresh_refreshed (hbusy : s.inFlight = true) (pkt : SsResAuctionList) :
    Refreshed pb s now pkt (s.finishRefresh pb now pkt) := by
  unfold finishRefresh
  dsimp only
  split
  · exact ⟨hbusy, (armTimer_kept _ _ _).log, (armTimer_kept _ _ _).inFlight, (armTimer_kept _ _ _).refreshSeq,
      (armTimer_kept _ _ _).snapshot⟩
  · exact ⟨hbusy, (armTimer_kept _ _ _).log, (armTimer_kept _ _ _).inFlight, (armTimer_kept _ _ _).refreshSeq,
      (armTimer_kept _ _ _).snapshot⟩

/-- An answer is installed when it is for a refresh that is in flight and carries its number. -/
theorem handleResAuctionList_moves (pb : Protobuf ResAuctionList) (s : AuctionCache) (now : Int) (pkt : SsResAuctionList) :
    (pkt.sessionId = kCacheSessionId ∧ pkt.requestId = s.refreshSeq ∧
      Refreshed pb s now pkt (s.handleResAuctionList pb now pkt)) ∨
    (¬(pkt.sessionId = kCacheSessionId ∧ s.inFlight = true ∧ pkt.requestId = s.refreshSeq) ∧
      s.handleResAuctionList pb now pkt = s) := by
  unfold handleResAuctionList onRefreshResponse
  split
  · rename_i hsession
    split
    · rename_i hskip
      right
      simp only [Bool.or_eq_true, Bool.not_eq_true', decide_eq_true_eq] at hskip
      refine ⟨?_, rfl⟩
      rintro ⟨-, hbusy, hid⟩
      rcases hskip with hskip | hskip
      · rw [hbusy] at hskip
        cases hskip
      · exact hskip hid
    · rename_i hgo
      left
      simp only [Bool.or_eq_true, Bool.not_eq_true', decide_eq_true_eq, not_or, Bool.not_eq_false, not_not] at hgo
      exact ⟨hsession, hgo.2, finishRefresh_refreshed hgo.1 pkt⟩
  · rename_i hsession
    right
    exact ⟨fun h => hsession h.1, rfl⟩

theorem onTimeoutTimer_moves (s : AuctionCache) (now : Int) (ec : Bool) (seq : Int32) :
    Kept s (s.onTimeoutTimer now ec seq) ∨ TimedOut s (s.onTimeoutTimer now ec seq) := by
  unfold onTimeoutTimer
  split
  · left
    exact ⟨rfl, rfl, rfl, rfl⟩
  · split
    · rename_i hdue
      right
      have hk := armTimer_kept { s with inFlight := false, log := s.log ++ [.timedOut s.refreshSeq] } now kRefreshInterval
      exact ⟨hdue.1, hk.log, hk.inFlight, hk.refreshSeq, hk.snapshot⟩
    · left
      exact ⟨rfl, rfl, rfl, rfl⟩

theorem markDirty_kept (s : AuctionCache) (now : Int) : Kept s (s.markDirty now) := by
  unfold markDirty
  dsimp only
  split
  · exact ⟨rfl, rfl, rfl, rfl⟩
  · exact ⟨(armTimer_kept _ _ _).log, (armTimer_kept _ _ _).inFlight, (armTimer_kept _ _ _).refreshSeq,
      (armTimer_kept _ _ _).snapshot⟩

theorem onTimer_moves (s : AuctionCache) (now : Int) (ec : Bool) :
    Kept s (s.onTimer now ec) ∨ Requested s (s.onTimer now ec) := by
  unfold onTimer
  split
  · left
    exact ⟨rfl, rfl, rfl, rfl⟩
  · dsimp only
    have hmoves := requestRefresh_moves { s with timerArmed := false, dirty := false } now
    split
    · refine hmoves.imp (fun h => ?_) (fun h => ?_)
      · exact ⟨h.log, h.inFlight, h.refreshSeq, h.snapshot⟩
      · exact ⟨h.idle, h.log, h.inFlight, h.refreshSeq, h.snapshot⟩
    · rename_i hidle
      rcases hmoves with h | h
      · left
        exact Kept.trans ⟨h.log, h.inFlight, h.refreshSeq, h.snapshot⟩ (armTimer_kept _ _ _)
      · exact absurd h.inFlight hidle

end AuctionCache

namespace AuctionThread

variable {pb : Protobuf ResAuctionList} {s s' : AuctionThread}

open AuctionCache

/-- What a step of the thread does to the requests. Only an answer brings a snapshot. -/
theorem step_moves {e : ThreadEvent} (hs : s.step pb e = some s') :
    Kept s.cache s'.cache ∨ Requested s.cache s'.cache ∨ TimedOut s.cache s'.cache ∨
      ∃ pkt, e = .response pkt ∧ pkt.sessionId = kCacheSessionId ∧ pkt.requestId = s.cache.refreshSeq ∧
        Refreshed pb s.cache s.now pkt s'.cache := by
  cases e with
  | onConnect =>
    obtain ⟨-, rfl⟩ := by simpa [step] using hs
    exact (requestRefresh_moves s.cache s.now).imp_right Or.inl
  | response pkt =>
    obtain rfl := Option.some.inj hs
    rcases handleResAuctionList_moves pb s.cache s.now pkt with ⟨hsession, hid, hr⟩ | ⟨-, hsame⟩
    · right; right; right
      exact ⟨pkt, rfl, hsession, hid, hr⟩
    · left
      dsimp only
      rw [hsame]
      exact ⟨rfl, rfl, rfl, rfl⟩
  | markDirty =>
    obtain rfl := Option.some.inj hs
    left
    exact markDirty_kept s.cache s.now
  | expireTimer k =>
    obtain ⟨timer, -, rfl⟩ := Option.map_eq_some_iff.mp hs
    left
    exact ⟨rfl, rfl, rfl, rfl⟩
  | expireTimeout k =>
    obtain ⟨timer, -, rfl⟩ := Option.map_eq_some_iff.mp hs
    left
    exact ⟨rfl, rfl, rfl, rfl⟩
  | runTimer k =>
    obtain ⟨⟨⟨⟩, ec, timer⟩, -, rfl⟩ := Option.map_eq_some_iff.mp hs
    refine (onTimer_moves { s.cache with timer } s.now ec).imp (fun h => ?_) (fun h => Or.inl ?_)
    · exact ⟨h.log, h.inFlight, h.refreshSeq, h.snapshot⟩
    · exact ⟨h.idle, h.log, h.inFlight, h.refreshSeq, h.snapshot⟩
  | runTimeout k =>
    obtain ⟨⟨seq, ec, timeoutTimer⟩, -, rfl⟩ := Option.map_eq_some_iff.mp hs
    refine (onTimeoutTimer_moves { s.cache with timeoutTimer } s.now ec seq).imp (fun h => ?_) (fun h => Or.inr (Or.inl ?_))
    · exact ⟨h.log, h.inFlight, h.refreshSeq, h.snapshot⟩
    · exact ⟨h.busy, h.log, h.inFlight, h.refreshSeq, h.snapshot⟩
  | tick nanoseconds =>
    obtain rfl := Option.some.inj hs
    left
    exact ⟨rfl, rfl, rfl, rfl⟩

end AuctionThread

/-! ## The numbers of the requests -/

/-- The `n`th request carries `n + 1`, and a request is in flight when it was the last thing to happen. -/
structure Numbered (s : AuctionCache) : Prop where
  seq : s.refreshSeq = Int32.ofNat (requests s.log).length
  ids : ∀ n requestId, (requests s.log)[n]? = some requestId → requestId = Int32.ofNat (n + 1)
  inFlight : s.inFlight = true ↔ ∃ requestId, s.log.getLast? = some (.requested requestId)

theorem ofNat_inj {m n : Nat} (hm : m < 2 ^ 31) (hn : n < 2 ^ 31) (h : Int32.ofNat m = Int32.ofNat n) : m = n := by
  have hint := congrArg Int32.toInt h
  rw [Int32.toInt_ofNat', Int32.toInt_ofNat', Int.bmod_def, Int.bmod_def] at hint
  simp only [Int32.size] at hint
  omega

@[simp] theorem requests_requested (log : List RefreshLog) (requestId : Int32) :
    requests (log ++ [.requested requestId]) = requests log ++ [requestId] := by
  simp [requests]

@[simp] theorem requests_refreshed (log : List RefreshLog) (requestId : Int32) :
    requests (log ++ [.refreshed requestId]) = requests log := by
  simp [requests]

@[simp] theorem requests_timedOut (log : List RefreshLog) (requestId : Int32) :
    requests (log ++ [.timedOut requestId]) = requests log := by
  simp [requests]

@[simp] theorem refreshes_requested (log : List RefreshLog) (requestId : Int32) :
    refreshes (log ++ [.requested requestId]) = refreshes log := by
  simp [refreshes]

@[simp] theorem refreshes_refreshed (log : List RefreshLog) (requestId : Int32) :
    refreshes (log ++ [.refreshed requestId]) = refreshes log + 1 := by
  simp [refreshes]

@[simp] theorem refreshes_timedOut (log : List RefreshLog) (requestId : Int32) :
    refreshes (log ++ [.timedOut requestId]) = refreshes log := by
  simp [refreshes]

namespace Numbered

open AuctionCache

variable {s s' : AuctionCache}

theorem kept (h : Numbered s) (hk : Kept s s') : Numbered s' where
  seq := by rw [hk.refreshSeq, hk.log, h.seq]
  ids := by rw [hk.log]; exact h.ids
  inFlight := by rw [hk.inFlight, hk.log]; exact h.inFlight

theorem requested (h : Numbered s) (hr : Requested s s') : Numbered s' where
  seq := by
    rw [hr.refreshSeq, hr.log, requests_requested, h.seq, List.length_append, List.length_singleton]
    exact (Int32.ofNat_add _ _).symm
  ids n requestId hn := by
    rw [hr.log, requests_requested, List.getElem?_append] at hn
    split at hn
    · exact h.ids n requestId hn
    · rw [List.getElem?_singleton] at hn
      split at hn
      · rename_i hge hlast
        obtain rfl : n = (requests s.log).length := by omega
        rw [← Option.some.inj hn, h.seq]
        exact (Int32.ofNat_add _ _).symm
      · cases hn
  inFlight := by simp [hr.inFlight, hr.log]

theorem timedOut (h : Numbered s) (ht : TimedOut s s') : Numbered s' where
  seq := by rw [ht.refreshSeq, ht.log, requests_timedOut, h.seq]
  ids := by rw [ht.log, requests_timedOut]; exact h.ids
  inFlight := by simp [ht.inFlight, ht.log]

theorem refreshed {pb : Protobuf ResAuctionList} {now : Int} {pkt : SsResAuctionList} (h : Numbered s)
    (hr : Refreshed pb s now pkt s') : Numbered s' where
  seq := by rw [hr.refreshSeq, hr.log, requests_refreshed, h.seq]
  ids := by rw [hr.log, requests_refreshed]; exact h.ids
  inFlight := by simp [hr.inFlight, hr.log]

theorem outstanding_eq (h : Numbered s) :
    outstanding s.log = if s.inFlight then some ((requests s.log).length - 1) else none := by
  unfold outstanding
  split
  · rename_i requestId hlast
    rw [if_pos (h.inFlight.mpr ⟨requestId, hlast⟩)]
  · rename_i hnot
    rw [if_neg]
    intro hflight
    obtain ⟨requestId, hlast⟩ := h.inFlight.mp hflight
    exact hnot requestId hlast

theorem sent (h : Numbered s) (hflight : s.inFlight = true) : 0 < (requests s.log).length := by
  obtain ⟨requestId, hlast⟩ := h.inFlight.mp hflight
  obtain ⟨log, hlog⟩ := List.getLast?_eq_some_iff.mp hlast
  rw [hlog, requests_requested]
  simp

end Numbered

/-! ## Answers -/

namespace RefreshRun

open AuctionCache

variable {pb : Protobuf ResAuctionList} {s s' : RefreshRun}

structure Ordered (s : RefreshRun) : Prop where
  numbered : Numbered s.thread.cache
  answers : ∀ a ∈ s.answers, a.request < (requests s.log).length ∧ a.pkt.sessionId = kCacheSessionId ∧
    a.pkt.requestId = Int32.ofNat (a.request + 1) ∧ a.readAt < s.stamp
  past : ∀ i ∈ s.installed, i.request < (requests s.log).length ∧ i.receivedAt < s.stamp
  waiting : s.thread.cache.inFlight = true → ∀ i ∈ s.installed, i.request + 1 < (requests s.log).length ∧
    ∀ a ∈ s.answers, a.request + 1 = (requests s.log).length → i.receivedAt < a.readAt
  order : s.installed.Pairwise fun i j => i.request < j.request ∧ i.receivedAt < j.readAt

theorem start_ordered (now : Int) : Ordered (start now) where
  numbered := ⟨rfl, by rintro n requestId ⟨⟩, by simp [start, AuctionThread.start]⟩
  answers := by rintro a ⟨⟩
  past := by rintro i ⟨⟩
  waiting := by rintro ⟨⟩
  order := List.Pairwise.nil

theorem moves_ordered (h : Ordered s) {thread : AuctionThread}
    (hm : Kept s.thread.cache thread.cache ∨ Requested s.thread.cache thread.cache ∨
      TimedOut s.thread.cache thread.cache) : Ordered { s with stamp := s.stamp + 1, thread } := by
  have hgrow (hle : (requests s.log).length ≤ (requests thread.cache.log).length) (hn : Numbered thread.cache)
      (hw : thread.cache.inFlight = true → ∀ i ∈ s.installed, i.request + 1 < (requests thread.cache.log).length ∧
        ∀ a ∈ s.answers, a.request + 1 = (requests thread.cache.log).length → i.receivedAt < a.readAt) :
      Ordered { s with stamp := s.stamp + 1, thread } := by
    refine ⟨hn, fun a ha => ?_, fun i hi => ?_, hw, h.order⟩
    · obtain ⟨hreq, hsession, hid, hread⟩ := h.answers a ha
      exact ⟨Nat.lt_of_lt_of_le hreq hle, hsession, hid, Nat.lt_succ_of_lt hread⟩
    · obtain ⟨hreq, hreceived⟩ := h.past i hi
      exact ⟨Nat.lt_of_lt_of_le hreq hle, Nat.lt_succ_of_lt hreceived⟩
  rcases hm with hk | hr | ht
  · refine hgrow ?_ (h.numbered.kept hk) fun hflight => ?_
    · rw [hk.log, log]
    · rw [hk.log]
      exact h.waiting (hk.inFlight ▸ hflight)
  · have hlen : (requests thread.cache.log).length = (requests s.log).length + 1 := by
      rw [hr.log, requests_requested, List.length_append, List.length_singleton, log]
    refine hgrow (by omega) (h.numbered.requested hr) fun _ i hi => ?_
    refine ⟨?_, fun a ha hlast => ?_⟩
    · have := (h.past i hi).1
      omega
    · have := (h.answers a ha).1
      omega
  · refine hgrow ?_ (h.numbered.timedOut ht) fun hflight => ?_
    · rw [ht.log, requests_timedOut, log]
    · rw [ht.inFlight] at hflight
      cases hflight

theorem answer_ordered (h : Ordered s) {request : Nat} {requestId : Int32} (listinfo : List AuctionItemInfo)
    (hsent : (requests s.log)[request]? = some requestId) :
    Ordered { s with
      stamp := s.stamp + 1
      answers := s.answers ++ [⟨request, processedAuctionList (refreshRequest requestId) listinfo, s.stamp⟩] } := by
  refine ⟨h.numbered, fun a ha => ?_, fun i hi => ?_, fun hflight i hi => ?_, h.order⟩
  · rcases List.mem_append.mp ha with ha | ha
    · obtain ⟨hreq, hsession, hid, hread⟩ := h.answers a ha
      exact ⟨hreq, hsession, hid, Nat.lt_succ_of_lt hread⟩
    · obtain rfl := List.mem_singleton.mp ha
      obtain ⟨hlt, -⟩ := List.getElem?_eq_some_iff.mp hsent
      exact ⟨hlt, rfl, h.numbered.ids request requestId hsent, Nat.lt_succ_self _⟩
  · obtain ⟨hreq, hreceived⟩ := h.past i hi
    exact ⟨hreq, Nat.lt_succ_of_lt hreceived⟩
  · obtain ⟨hreq, hfresh⟩ := h.waiting hflight i hi
    refine ⟨hreq, fun a ha hlast => ?_⟩
    rcases List.mem_append.mp ha with ha | ha
    · exact hfresh a ha hlast
    · obtain rfl := List.mem_singleton.mp ha
      exact (h.past i hi).2

/-! ## Handling an answer -/

/-- The numbers of an answer tell whether its request is the one that waits. -/
theorem answers_outstanding_iff (h : Ordered s) (hfew : (requests s.log).length < 2 ^ 31) {a : RefreshAnswer}
    (ha : a ∈ s.answers) :
    (s.thread.cache.inFlight = true ∧ a.pkt.requestId = s.thread.cache.refreshSeq) ↔
      outstanding s.log = some a.request := by
  obtain ⟨hreq, -, hid, -⟩ := h.answers a ha
  rw [log, h.numbered.outstanding_eq, hid, h.numbered.seq]
  rw [log] at hreq hfew
  cases hflight : s.thread.cache.inFlight with
  | false => simp
  | true =>
    simp only [true_and, if_true, Option.some.injEq]
    constructor
    · intro hseq
      have := ofNat_inj (by omega) hfew hseq
      omega
    · intro hlast
      rw [← hlast, Nat.sub_add_cancel (h.numbered.sent hflight)]

theorem deliver_eq {k : Nat} (hs : step pb s (.deliver k) = some s') :
    ∃ a, s.answers[k]? = some a ∧ s' = { s with
      stamp := s.stamp + 1
      thread := { s.thread with cache := s.thread.cache.handleResAuctionList pb s.thread.now a.pkt }
      installed :=
        if refreshes (s.thread.cache.handleResAuctionList pb s.thread.now a.pkt).log = refreshes s.log then s.installed
        else s.installed ++ [⟨a.request, a.readAt, s.stamp⟩] } := by
  obtain ⟨a, ha, hs⟩ := Option.bind_eq_some_iff.mp hs
  exact ⟨a, ha, (Option.some.inj hs).symm⟩

theorem deliver_cases (h : Ordered s) (hfew : (requests s.log).length < 2 ^ 31) {k : Nat}
    (hs : step pb s (.deliver k) = some s') :
    ∃ a, s.answers[k]? = some a ∧
      ((outstanding s.log = some a.request ∧ s'.installed = s.installed ++ [⟨a.request, a.readAt, s.stamp⟩] ∧
        Refreshed pb s.thread.cache s.thread.now a.pkt s'.thread.cache) ∨
       (outstanding s.log ≠ some a.request ∧ s'.installed = s.installed ∧ s'.thread = s.thread)) ∧
      s'.answers = s.answers ∧ s'.stamp = s.stamp + 1 := by
  obtain ⟨a, ha, rfl⟩ := deliver_eq hs
  have hmem := List.mem_of_getElem? ha
  obtain ⟨-, hsession, -, -⟩ := h.answers a hmem
  refine ⟨a, ha, ?_, rfl, rfl⟩
  rcases handleResAuctionList_moves pb s.thread.cache s.thread.now a.pkt with ⟨-, hid, hr⟩ | ⟨hnot, hsame⟩
  · left
    refine ⟨(answers_outstanding_iff h hfew hmem).mp ⟨hr.busy, hid⟩, ?_, hr⟩
    dsimp only
    rw [if_neg]
    rw [hr.log, refreshes_refreshed, log]
    omega
  · right
    refine ⟨fun hout => hnot ?_, ?_, ?_⟩
    · obtain ⟨hflight, hid⟩ := (answers_outstanding_iff h hfew hmem).mpr hout
      exact ⟨hsession, hflight, hid⟩
    · dsimp only
      rw [if_pos (by rw [hsame, log])]
    · dsimp only
      rw [hsame]

theorem deliver_ordered (h : Ordered s) (hfew : (requests s.log).length < 2 ^ 31) {k : Nat}
    (hs : step pb s (.deliver k) = some s') : Ordered s' := by
  obtain ⟨a, ha, hcases, hanswers, hstamp⟩ := deliver_cases h hfew hs
  have hmem := List.mem_of_getElem? ha
  rcases hcases with ⟨hout, hinstalled, hr⟩ | ⟨-, hinstalled, hthread⟩
  · have hlog : requests s'.log = requests s.log := by
      rw [log, hr.log, requests_refreshed, log]
    have hlast : a.request + 1 = (requests s.log).length := by
      have hpos := h.numbered.sent hr.busy
      rw [log, h.numbered.outstanding_eq, if_pos hr.busy] at hout
      rw [log]
      have := Option.some.inj hout
      omega
    refine ⟨h.numbered.refreshed hr, ?_, ?_, ?_, ?_⟩
    · rw [hanswers, hlog, hstamp]
      intro b hb
      obtain ⟨hreq, hsession, hid, hread⟩ := h.answers b hb
      exact ⟨hreq, hsession, hid, Nat.lt_succ_of_lt hread⟩
    · rw [hinstalled, hlog, hstamp]
      intro i hi
      rcases List.mem_append.mp hi with hi | hi
      · obtain ⟨hreq, hreceived⟩ := h.past i hi
        exact ⟨hreq, Nat.lt_succ_of_lt hreceived⟩
      · obtain rfl := List.mem_singleton.mp hi
        exact ⟨(h.answers a hmem).1, Nat.lt_succ_self _⟩
    · intro hflight
      rw [hr.inFlight] at hflight
      cases hflight
    · rw [hinstalled, List.pairwise_append]
      refine ⟨h.order, List.pairwise_singleton _ _, fun i hi j hj => ?_⟩
      obtain rfl := List.mem_singleton.mp hj
      obtain ⟨hreq, hfresh⟩ := h.waiting hr.busy i hi
      refine ⟨?_, hfresh a hmem hlast⟩
      dsimp only
      omega
  · have hkeep : Ordered { s with stamp := s.stamp + 1 } := moves_ordered h (Or.inl ⟨rfl, rfl, rfl, rfl⟩)
    have hsame : s' = { s with stamp := s.stamp + 1 } := by
      cases s'
      simp_all
    rw [hsame]
    exact hkeep

/-! ## Every run -/

theorem thread_moves {e : ThreadEvent} (hs : step pb s (.thread e) = some s') :
    ∃ thread, s' = { s with stamp := s.stamp + 1, thread } ∧
      (Kept s.thread.cache thread.cache ∨ Requested s.thread.cache thread.cache ∨
        TimedOut s.thread.cache thread.cache) := by
  simp only [step] at hs
  split at hs
  · cases hs
  · rename_i hnot
    obtain ⟨thread, hthread, rfl⟩ := Option.map_eq_some_iff.mp hs
    refine ⟨thread, rfl, ?_⟩
    rcases AuctionThread.step_moves hthread with hk | hr | ht | ⟨pkt, rfl, hsession, -⟩
    · exact Or.inl hk
    · exact Or.inr (Or.inl hr)
    · exact Or.inr (Or.inr ht)
    · simp [ThreadEvent.answersRefresh, hsession] at hnot

theorem answer_eq {request : Nat} {listinfo : List AuctionItemInfo}
    (hs : step pb s (.answer request listinfo) = some s') :
    ∃ requestId, (requests s.log)[request]? = some requestId ∧ s' = { s with
      stamp := s.stamp + 1
      answers := s.answers ++ [⟨request, processedAuctionList (refreshRequest requestId) listinfo, s.stamp⟩] } := by
  obtain ⟨requestId, hsent, rfl⟩ := Option.map_eq_some_iff.mp hs
  exact ⟨requestId, hsent, rfl⟩

theorem requests_grow {e : RefreshEvent} (hs : step pb s e = some s') :
    (requests s.log).length ≤ (requests s'.log).length := by
  cases e with
  | thread e =>
    obtain ⟨thread, rfl, hk | hr | ht⟩ := thread_moves hs
    · rw [log, log, hk.log]
    · rw [log, log, hr.log, requests_requested, List.length_append]
      omega
    · rw [log, log, ht.log, requests_timedOut]
  | answer request listinfo =>
    obtain ⟨requestId, -, rfl⟩ := answer_eq hs
    exact Nat.le_refl _
  | deliver k =>
    obtain ⟨a, -, rfl⟩ := deliver_eq hs
    rcases handleResAuctionList_moves pb s.thread.cache s.thread.now a.pkt with ⟨-, -, hr⟩ | ⟨-, hsame⟩
    · rw [log, log, hr.log, requests_refreshed]
    · rw [log, log, hsame]

theorem step_ordered {e : RefreshEvent} (h : Ordered s) (hfew : (requests s.log).length < 2 ^ 31)
    (hs : step pb s e = some s') : Ordered s' := by
  cases e with
  | thread e =>
    obtain ⟨thread, rfl, hmoves⟩ := thread_moves hs
    exact moves_ordered h hmoves
  | answer request listinfo =>
    obtain ⟨requestId, hsent, rfl⟩ := answer_eq hs
    exact answer_ordered h listinfo hsent
  | deliver k => exact deliver_ordered h hfew hs

theorem run_ordered {now : Int} {es : List RefreshEvent} (h : run (step pb) (start now) es = some s)
    (hfew : (requests s.log).length < 2 ^ 31) : Ordered s := by
  have hall := run_invariant (P := fun x : RefreshRun => (requests x.log).length < 2 ^ 31 → Ordered x)
    (fun x e y hx hs hy => ?_) (fun _ => start_ordered now) h
  · exact hall hfew
  · have hless : (requests x.log).length < 2 ^ 31 := Nat.lt_of_le_of_lt (requests_grow hs) hy
    exact step_ordered (hx hless) hless hs

theorem snapshot_kept {e : RefreshEvent} (hs : step pb s e = some s') (hnot : ∀ k, e ≠ .deliver k) :
    s'.thread.cache.snapshot = s.thread.cache.snapshot ∧ s'.installed = s.installed := by
  cases e with
  | thread e =>
    obtain ⟨thread, rfl, hk | hr | ht⟩ := thread_moves hs
    · exact ⟨hk.snapshot, rfl⟩
    · exact ⟨hr.snapshot, rfl⟩
    · exact ⟨ht.snapshot, rfl⟩
  | answer request listinfo =>
    obtain ⟨requestId, -, rfl⟩ := answer_eq hs
    exact ⟨rfl, rfl⟩
  | deliver k => exact absurd rfl (hnot k)

/-- Snapshots are installed in the order of their requests, each read after the one before was received;
and an answer is installed if and only if its request is the one that waits. -/
theorem refresh_installs_current (pb : Protobuf ResAuctionList) {now : Int} {es : List RefreshEvent}
    (h : run (step pb) (start now) es = some s) (hfew : (requests s.log).length < 2 ^ 31) :
    (s.installed.Pairwise fun i j => i.request < j.request ∧ i.receivedAt < j.readAt) ∧
    (∀ k s', step pb s (.deliver k) = some s' → ∃ a, s.answers[k]? = some a ∧
      (outstanding s.log = some a.request → s'.installed = s.installed ++ [⟨a.request, a.readAt, s.stamp⟩] ∧
        s'.thread.cache.snapshot = some (finishRefresh pb s.thread.now a.pkt.listinfo)) ∧
      (outstanding s.log ≠ some a.request → s'.installed = s.installed ∧ s'.thread = s.thread)) ∧
    ∀ e s', step pb s e = some s' → (∀ k, e ≠ .deliver k) →
      s'.thread.cache.snapshot = s.thread.cache.snapshot ∧ s'.installed = s.installed := by
  have ho : Ordered s := run_ordered h hfew
  refine ⟨ho.order, fun k s' hs => ?_, fun e s' hs hnot => snapshot_kept hs hnot⟩
  obtain ⟨a, ha, hcases, -, -⟩ := deliver_cases ho hfew hs
  refine ⟨a, ha, fun hout => ?_, fun hout => ?_⟩
  · rcases hcases with ⟨-, hinstalled, hr⟩ | ⟨hnot, -⟩
    · exact ⟨hinstalled, hr.snapshot⟩
    · exact absurd hout hnot
  · rcases hcases with ⟨heq, -⟩ | ⟨-, hinstalled, hthread⟩
    · exact absurd heq hout
    · exact ⟨hinstalled, hthread⟩

/-- The answer to the first request comes after its timeout, and twice: the second request is in flight, and
only its own answer is installed. -/
def lateAnswer : List RefreshEvent :=
  [.thread .onConnect, .answer 0 [], .thread (.tick 5000000000), .thread (.expireTimeout 0),
    .thread (.runTimeout 0), .thread (.tick 60000000000), .thread (.expireTimer 0), .thread (.runTimer 0),
    .answer 1 [], .deliver 0, .deliver 1, .deliver 1]

theorem refresh_installs_current_late : ∃ s, run (step countingProtobuf) (start 0) lateAnswer = some s ∧
    s.installed = [⟨1, 8, 10⟩] ∧
    s.installed.Pairwise fun i j => i.request < j.request ∧ i.receivedAt < j.readAt := by
  obtain ⟨s, hrun, hfew, hinstalled⟩ : ∃ s, run (step countingProtobuf) (start 0) lateAnswer = some s ∧
      (requests s.log).length = 2 ∧ s.installed = [⟨1, 8, 10⟩] := ⟨_, rfl, rfl, rfl⟩
  refine ⟨s, hrun, hinstalled, ?_⟩
  exact (refresh_installs_current countingProtobuf hrun (by omega)).1

end RefreshRun

end Game
