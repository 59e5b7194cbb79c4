import J1Server.Auction.WorkerStop

/-! # Order and draining of the workers

Tasks of one key are served in the order of the calls, and so are the reads that one
reader got, whatever the tasks throw and however the workers interleave; `Stop`
returns when all of them have run. -/

namespace Auction

open Lib Core

namespace WorkerPool

variable {α : Type} {p q : WorkerPool α} {w w' : Place} {readers writers : Nat} {conn : Place → Option Connection}

/-! ## Start -/

def fresh (connections : ConnectionPool) : WorkerPool α := { connections }

structure Started (p : WorkerPool α) : Prop where
  io : ∀ w, (p.worker w).io = {}
  conn : ∀ w, p.Has w → (p.worker w).conn ≠ none
  calls : p.calls = []
  log : p.log = []
  stopping : p.stopping = none

theorem Started.worker (h : Started p) {c : Connection} {connections : ConnectionPool} {r n : Nat}
    (hhas : ∀ w', ({ p with readers := r, writers := n } : WorkerPool α).Has w' → w' = w ∨ p.Has w') :
    Started (({ p with connections, readers := r, writers := n } : WorkerPool α).setWorker w ⟨{}, some c⟩) := by
  refine ⟨fun w' => ?_, fun w' hw' => ?_, h.calls, h.log, h.stopping⟩
  · by_cases hw : w' = w
    · simp [setWorker, hw]
    · simpa [setWorker, hw] using h.io w'
  · by_cases hw : w' = w
    · simp [setWorker, hw]
    · simpa [setWorker, hw] using h.conn w' ((hhas w' hw').resolve_left hw)

theorem spawn_started (h : Started p) {created : Option Connection} {side : Side}
    (hs : p.spawn created side = (true, q)) : Started q ∧
      q.readers = p.readers + [side].count .reading ∧ q.writers = p.writers + [side].count .writing := by
  unfold spawn at hs
  split at hs
  · obtain rfl := congrArg Prod.snd hs
    refine ⟨h.worker ?_, rfl, rfl⟩
    rintro (i | i) hi
    · rcases Nat.lt_succ_iff_lt_or_eq.mp hi with hlt | rfl
      · exact Or.inr hlt
      · exact Or.inl rfl
    · exact Or.inr hi
  · obtain rfl := congrArg Prod.snd hs
    refine ⟨h.worker ?_, rfl, rfl⟩
    rintro (i | i) hi
    · exact Or.inr hi
    · rcases Nat.lt_succ_iff_lt_or_eq.mp hi with hlt | rfl
      · exact Or.inr hlt
      · exact Or.inl rfl
  · cases congrArg Prod.fst hs

theorem spawnAll_started {sides : List Side} {created : Option Connection} (h : Started p)
    (hs : p.spawnAll created sides = (true, q)) : Started q ∧
      q.readers = p.readers + sides.count .reading ∧ q.writers = p.writers + sides.count .writing := by
  induction sides generalizing p with
  | nil =>
    obtain rfl := congrArg Prod.snd hs
    exact ⟨h, rfl, rfl⟩
  | cons side sides ih =>
    unfold spawnAll at hs
    split at hs
    · rename_i m hm
      obtain ⟨hstarted, hreaders, hwriters⟩ := spawn_started h hm
      obtain ⟨hq, hreaders', hwriters'⟩ := ih hstarted hs
      refine ⟨hq, ?_, ?_⟩
      · rw [hreaders', hreaders, Nat.add_assoc, ← List.count_append, List.singleton_append]
      · rw [hwriters', hwriters, Nat.add_assoc, ← List.count_append, List.singleton_append]
    · cases congrArg Prod.fst hs

theorem start_started {connections : ConnectionPool} {created : Option Connection} {r n : Nat}
    (hs : (fresh connections : WorkerPool α).start created r n = (true, q)) :
    Started q ∧ q.readers = max r 1 ∧ q.writers = max n 1 := by
  have hfresh : Started (fresh connections : WorkerPool α) := by
    refine ⟨fun _ => rfl, fun w hw => ?_, rfl, rfl, rfl⟩
    cases w <;> cases hw
  have h := spawnAll_started hfresh (by simpa [start, fresh] using hs)
  simpa [fresh, List.count_replicate] using h

theorem Started.inv (h : Started p) : Inv p.readers p.writers (fun w => (p.worker w).conn) p := by
  refine ⟨fun w => ?_, fun _ => Or.inl rfl, ?_, ⟨Nat.le_refl _, Nat.le_refl _⟩, ?_, ?_⟩
  · rw [h.io, h.calls, h.log]
    exact Loop.served_new
  · simp [h.log]
  · simp [h.calls]
  · unfold Phase
    rw [h.stopping]
    exact ⟨rfl, rfl, fun w => by rw [h.io]⟩

theorem Inv.draining (h : Inv readers writers conn p) : Draining p where
  healthy w := (h.served w).healthy
  done rest hs hne := by
    have hphase := h.phase
    unfold Phase at hphase
    rw [hs] at hphase
    obtain ⟨done, hsteps, hreset, -, hsizes⟩ := hphase
    obtain ⟨hreaders, hwriters⟩ := hsizes.resolve_left hne
    rw [hreaders, hwriters]
    exact ⟨done, hsteps, hreset⟩

/-! ## Order and draining -/

theorem log_filter (h : Inv readers writers conn p) (w : Place) :
    (logOf w p.log).map (LogEntry.mk w (conn w)) = p.log.filter (·.worker = w) := by
  have hlogged := h.logged
  unfold logOf
  generalize p.log = log at hlogged
  induction log with
  | nil => rfl
  | cons e log ih =>
    have hrest := ih fun x hx => hlogged x (List.mem_cons_of_mem _ hx)
    by_cases hw : e.worker = w
    · have hconn := (hlogged e List.mem_cons_self).2
      subst hw
      simp only [List.filterMap_cons, if_true, List.map_cons, decide_true, List.filter_cons_of_pos]
      rw [hrest, ← hconn]
    · simpa [hw] using hrest

theorem turn_worker (h : Inv readers writers conn p) {e : LogEntry} (he : e ∈ p.log) {no : Nat}
    (hturn : e.turn = .began no ∨ e.turn = .ended no) : no ∈ sentTo e.worker p.calls := by
  have hmem : e.turn ∈ logOf e.worker p.log := List.mem_filterMap.mpr ⟨e, he, if_pos rfl⟩
  apply (h.served e.worker).mem
  rcases hturn with hturn | hturn
  · exact Or.inl (hturn ▸ hmem)
  · exact Or.inr (hturn ▸ hmem)

def taken (p : WorkerPool α) (turn : Turn Nat) : Nat := p.log.countP fun e => e.turn = turn

theorem countP_logOf {log : List LogEntry} {turn : Turn Nat} (h : ∀ e ∈ log, e.turn = turn → e.worker = w) :
    (log.countP fun e => e.turn = turn) = (logOf w log).count turn := by
  induction log with
  | nil => rfl
  | cons e log ih =>
    have hrest := ih fun x hx => h x (List.mem_cons_of_mem _ hx)
    have hcons : logOf w (e :: log) = (if e.worker = w then [e.turn] else []) ++ logOf w log := by
      unfold logOf
      by_cases hw : e.worker = w <;> simp [hw]
    rw [List.countP_cons, hrest, hcons, List.count_append]
    by_cases hturn : e.turn = turn
    · simp [hturn, h e List.mem_cons_self hturn, Nat.add_comm]
    · by_cases hw : e.worker = w <;> simp [hturn, hw]

/-- The call with this number was `PostWrite(key, task)`. -/
def Wrote (p : WorkerPool α) (no key : Nat) (task : α) : Prop := ∃ c, p.calls[no]? = some c ∧ c.call = .write key task

/-- The call with this number was `PostRead(task)`. -/
def Read (p : WorkerPool α) (no : Nat) (task : α) : Prop := ∃ c, p.calls[no]? = some c ∧ c.call = .read task

theorem Inv.sent (h : Inv readers writers conn p) {no : Nat} {c : Posted α} (hc : p.calls[no]? = some c) :
    ∃ w, no ∈ sentTo w p.calls ∧ Routed readers writers w c.call := by
  obtain ⟨w, hw, hrouted⟩ := h.routed c (List.mem_of_getElem? hc)
  exact ⟨w, mem_sentTo.mpr ⟨c, hc, hw⟩, hrouted⟩

theorem Inv.wrote (h : Inv readers writers conn p) {no key : Nat} {task : α} (hw : p.Wrote no key task) :
    no ∈ sentTo (.writer (key % writers)) p.calls := by
  obtain ⟨c, hc, hcall⟩ := hw
  obtain ⟨w, hsent, hrouted⟩ := h.sent hc
  rw [hcall] at hrouted
  obtain rfl : w = .writer (key % writers) := hrouted
  exact hsent

theorem Inv.read (h : Inv readers writers conn p) {no : Nat} {task : α} (hr : p.Read no task) :
    ∃ i < readers, no ∈ sentTo (.reader i) p.calls := by
  obtain ⟨c, hc, hcall⟩ := hr
  obtain ⟨w, hsent, hrouted⟩ := h.sent hc
  rw [hcall] at hrouted
  obtain ⟨i, hi, rfl⟩ := hrouted
  exact ⟨i, hi, hsent⟩

theorem sentTo_unique {calls : List (Posted α)} {no : Nat} (h : no ∈ sentTo w calls) (h' : no ∈ sentTo w' calls) :
    w = w' := by
  obtain ⟨c, hc, hw⟩ := mem_sentTo.mp h
  obtain ⟨c', hc', hw'⟩ := mem_sentTo.mp h'
  rw [hc] at hc'
  obtain rfl := Option.some.inj hc'
  rw [hw] at hw'
  exact Option.some.inj hw'

theorem Inv.taken_eq (h : Inv readers writers conn p) {no : Nat} (hno : no ∈ sentTo w p.calls) :
    p.taken (.began no) = (logOf w p.log).count (.began no) ∧
    p.taken (.ended no) = (logOf w p.log).count (.ended no) :=
  ⟨countP_logOf fun _ he hturn => sentTo_unique (turn_worker h he (Or.inl hturn)) hno,
    countP_logOf fun _ he hturn => sentTo_unique (turn_worker h he (Or.inr hturn)) hno⟩

/-- Tasks of one worker are served in the order of the calls, each after the other has ended. -/
theorem Inv.in_order (h : Inv readers writers conn p) {k₁ k₂ : Nat} (hlt : k₁ < k₂) (h₁ : k₁ ∈ sentTo w p.calls)
    (h₂ : k₂ ∈ sentTo w p.calls) {e : LogEntry} (he : e ∈ p.log) (hturn : e.turn = .began k₂) :
    [⟨e.worker, e.conn, .began k₁⟩, ⟨e.worker, e.conn, .ended k₁⟩, e].Sublist p.log := by
  obtain rfl : e.worker = w := sentTo_unique (turn_worker h he (Or.inl hturn)) h₂
  have hmem : .began k₂ ∈ logOf e.worker p.log := by
    rw [← hturn]
    exact List.mem_filterMap.mpr ⟨e, he, if_pos rfl⟩
  have hlog := ((h.served e.worker).in_order (sentTo_nodup _ _) (sentTo_ordered hlt h₁ h₂) hmem).map
    (LogEntry.mk e.worker (conn e.worker))
  rw [log_filter h, List.map_cons, List.map_cons, List.map_cons, List.map_nil, ← (h.logged e he).2, ← hturn] at hlog
  exact hlog.trans List.filter_sublist

theorem Inv.once (h : Inv readers writers conn p) {no : Nat} (hno : no ∈ sentTo w p.calls) :
    p.taken (.began no) ≤ 1 := by
  rw [(h.taken_eq hno).1]
  exact (h.served w).began_once (sentTo_nodup _ _) no

theorem Routed.mem_places (hpos : 0 < writers) {call : PostCall α} (h : Routed readers writers w call) :
    w ∈ places readers writers := by
  rw [WorkerPool.mem_places]
  cases call with
  | read task =>
    obtain ⟨i, hi, rfl⟩ := h
    exact hi
  | write key task =>
    obtain rfl : w = .writer (key % writers) := h
    exact Nat.mod_lt _ hpos

/-- When `Stop` has returned, every task that was posted has run once. -/
theorem Inv.drained (h : Inv readers writers conn p) (hpos : 0 < writers) (hs : p.stopping = some [])
    {no : Nat} {c : Posted α} (hc : p.calls[no]? = some c) :
    p.taken (.began no) = 1 ∧ p.taken (.ended no) = 1 := by
  obtain ⟨w, hno, hrouted⟩ := h.sent hc
  have hphase := h.phase
  unfold Phase at hphase
  rw [hs] at hphase
  obtain ⟨done, hsteps, -, hjoin, -⟩ := hphase
  have hmem : StopStep.join w ∈ done := by
    rw [List.append_nil] at hsteps
    rw [← hsteps]
    simp [stopSteps, hrouted.mem_places hpos]
  rw [(h.taken_eq hno).1, (h.taken_eq hno).2]
  exact (h.served w).drained (sentTo_nodup _ _) (hjoin w hmem) hno

/-- Any calls, any turns of the workers, any exceptions: tasks of one key run on one connection, one after
the other, in the order of the calls, and so do the reads that one reader got; no task runs twice; `Stop` can
always be brought to its end, and when it has returned, every task has run. -/
theorem write_workers_ordered_and_drained {connections : ConnectionPool} {created : Option Connection}
    {readWorkers writeWorkers : Nat} (hstart : (fresh connections).start created readWorkers writeWorkers = (true, p))
    {es : List (PoolTurn α)} (hrun : Lib.run step p es = some q) :
    (∀ key k₁ k₂ t₁ t₂, k₁ < k₂ → q.Wrote k₁ key t₁ → q.Wrote k₂ key t₂ → ∀ e ∈ q.log, e.turn = .began k₂ →
      [⟨e.worker, e.conn, .began k₁⟩, ⟨e.worker, e.conn, .ended k₁⟩, e].Sublist q.log) ∧
    (∀ no task, q.Read no task → ∃ i < p.readers, no ∈ sentTo (.reader i) q.calls ∧
      ∀ k < no, k ∈ sentTo (.reader i) q.calls → ∀ e ∈ q.log, e.turn = .began no →
        [⟨e.worker, e.conn, .began k⟩, ⟨e.worker, e.conn, .ended k⟩, e].Sublist q.log) ∧
    (∀ e ∈ q.log, e.conn = (p.worker e.worker).conn ∧ e.conn ≠ none) ∧
    (∀ no c, q.calls[no]? = some c → q.taken (.began no) ≤ 1 ∧
      (q.stopping = some [] → q.taken (.began no) = 1 ∧ q.taken (.ended no) = 1)) ∧
    ∃ es' q', Lib.run step q es' = some q' ∧ q'.stopping = some [] := by
  obtain ⟨hstarted, hreaders, hwriters⟩ := start_started hstart
  have hpos : 0 < p.readers ∧ 0 < p.writers := by omega
  have h := hstarted.inv.run hpos hrun
  refine ⟨fun key k₁ k₂ t₁ t₂ hlt h₁ h₂ e he => h.in_order hlt (h.wrote h₁) (h.wrote h₂) he, fun no task hr => ?_,
    fun e he => ?_, fun no c hc => ?_, ?_⟩
  · obtain ⟨i, hi, hsent⟩ := h.read hr
    exact ⟨i, hi, hsent, fun k hlt hk e he => h.in_order hlt hk hsent he⟩
  · obtain ⟨hmem, hconn⟩ := h.logged e he
    refine ⟨hconn, ?_⟩
    rw [hconn]
    exact hstarted.conn _ (has_iff.mpr hmem)
  · obtain ⟨w, hsent, -⟩ := h.sent hc
    exact ⟨h.once hsent, fun hs => h.drained hpos.2 hs hc⟩
  · cases hs : q.stopping with
    | some rest =>
      obtain ⟨es', q', -, hrun', hend⟩ := h.draining.finishes hs
      exact ⟨es', q', hrun', hend⟩
    | none =>
      obtain ⟨es', q', -, hrun', hend⟩ := (h.stop hs).draining.finishes rfl
      refine ⟨.stop :: es', q', run_cons_iff.mpr ⟨_, ?_, hrun'⟩, hend⟩
      simp only [step, hs]

/-- Three tasks, two of them for the same worker: the first one throws, and the third one waits when
`Stop` is called, as does a read. -/
def drainEvents : List (PoolTurn Unit) :=
  [.postWrite 4 (), .postWrite 5 (), .postWrite 4 (), .postRead (), .begin (.writer 0), .begin (.writer 1),
    .finish (.writer 0) (some .sqlException), .stop, .stop, .stop, .stop, .begin (.reader 0),
    .finish (.reader 0) none, .ret (.reader 0), .stop, .begin (.writer 0), .finish (.writer 0) none,
    .ret (.writer 0), .finish (.writer 1) (some .other), .ret (.writer 1)] ++ List.replicate 6 .stop

theorem write_workers_ordered_and_drained_sample : ∃ p q : WorkerPool Unit,
    (fresh ⟨[10, 11, 12], []⟩).start none 1 2 = (true, p) ∧ Lib.run step p drainEvents = some q ∧
    q.stopping = some [] ∧ q.Wrote 2 4 () ∧ q.Read 3 () ∧ ∀ no ∈ [2, 3], q.taken (.ended no) = 1 := by
  have hdone : (Lib.run step ((fresh ⟨[10, 11, 12], []⟩).start none 1 2).2 drainEvents).map
      (fun q => (q.stopping, q.calls[2]?, q.calls[3]?, q.connections)) =
      some (some [], some ⟨.write 4 (), some (.writer 0)⟩, some ⟨.read (), some (.reader 0)⟩,
        ⟨[10, 11, 12], []⟩) := by decide
  obtain ⟨q, hq, hres⟩ := Option.map_eq_some_iff.mp hdone
  simp only [Prod.mk.injEq] at hres
  obtain ⟨hs, hwrite, hread, -⟩ := hres
  have hstart : (fresh ⟨[10, 11, 12], []⟩).start none 1 2 =
      (true, ((fresh ⟨[10, 11, 12], []⟩ : WorkerPool Unit).start none 1 2).2) := rfl
  obtain ⟨-, -, -, honce, -⟩ := write_workers_ordered_and_drained hstart hq
  refine ⟨_, q, hstart, hq, hs, ⟨_, hwrite, rfl⟩, ⟨_, hread, rfl⟩, fun no hno => ?_⟩
  rcases List.mem_pair.mp hno with rfl | rfl
  · exact ((honce 2 _ hwrite).2 hs).2
  · exact ((honce 3 _ hread).2 hs).2

end WorkerPool

end Auction
