import J1Server.Auction.WorkerOrder
import Mathlib.Data.List.Pairwise

/-! # The connections of the workers

`Start` and `Stop` are called in any order, any number of times. `Start` may end in the middle, when no
connection is left. -/

namespace Auction

open Lib Core

/-- The main thread. `starting` is what is left of `Start`, and `pool.stopping` what is left of `Stop`. -/
structure MainThread (α : Type) where
  pool : WorkerPool α
  starting : List WorkerPool.Side := []

inductive MainEvent (α : Type)
  | start (readWorkers writeWorkers : Nat)
  /-- `Start` goes on to its next worker. `created` is what the factory makes, if it is asked. -/
  | spawn (created : Option Connection)
  | stop
  /-- `Stop` goes on. -/
  | stopStep
  | post (call : PostCall α)
  /-- The worker threads. -/
  | begin (w : Place)
  | finish (w : Place) (thrown : Option WorkerPool.Thrown)
  | ret (w : Place)

namespace MainThread

open WorkerPool

variable {α : Type}

def new (conns : List Connection) : MainThread α := ⟨fresh ⟨conns, []⟩, []⟩

def idle (s : MainThread α) : Bool := s.starting.isEmpty && (s.pool.stopping.getD []).isEmpty

/-- The two loops of `Start`, unrolled. -/
def sides (readWorkers writeWorkers : Nat) : List Side :=
  List.replicate (max readWorkers 1) .reading ++ List.replicate (max writeWorkers 1) .writing

def turn (s : MainThread α) (e : PoolTurn α) : Option (MainThread α) :=
  (s.pool.step e).map fun pool => { s with pool }

/-- One call at a time. A `Spawn` that throws ends `Start`, and the workers that it made stay. -/
def step (s : MainThread α) : MainEvent α → Option (MainThread α)
  | .start readWorkers writeWorkers =>
    if s.idle then
      if s.pool.readers ≠ 0 ∨ s.pool.writers ≠ 0 then some s
      else some ⟨{ s.pool with stopping := none }, sides readWorkers writeWorkers⟩
    else none
  | .spawn created =>
    match s.starting with
    | side :: rest =>
      match s.pool.spawn created side with
      | (true, pool) => some ⟨pool, rest⟩
      | (false, pool) => some ⟨pool, []⟩
    | [] => none
  | .stop =>
    if s.idle then some { s with pool := { s.pool with stopping := some (stopSteps s.pool.readers s.pool.writers) } }
    else none
  | .stopStep =>
    match s.pool.stopping with
    | some (next :: rest) => (({ s.pool with stopping := some rest } : WorkerPool α).stopStep next).map fun pool =>
      { s with pool }
    | _ => none
  | .post (.read task) => if s.idle then some { s with pool := s.pool.postRead task } else none
  | .post (.write key task) => if s.idle then some { s with pool := s.pool.postWrite key task } else none
  | .begin w => s.turn (.begin w)
  | .finish w thrown => s.turn (.finish w thrown)
  | .ret w => s.turn (.ret w)

end MainThread

namespace WorkerPool

variable {α : Type} {p q : WorkerPool α} {w w' : Place}

/-- The connections that the workers hold. -/
def leases (p : WorkerPool α) : List Connection :=
  (places p.readers p.writers).filterMap fun w => (p.worker w).conn

/-! ## Places -/

theorem nodup_places (readers writers : Nat) : (places readers writers).Nodup := by
  unfold places
  refine List.nodup_append.mpr ⟨?_, ?_, ?_⟩
  · exact List.nodup_range.map fun _ _ h => Place.reader.inj h
  · exact List.nodup_range.map fun _ _ h => Place.writer.inj h
  · simp

/-- The place that `Spawn` fills. -/
def next (p : WorkerPool α) : Side → Place
  | .reading => .reader p.readers
  | .writing => .writer p.writers

theorem places_next (p : WorkerPool α) (side : Side) :
    (places (p.readers + [side].count .reading) (p.writers + [side].count .writing)).Perm
      (p.next side :: places p.readers p.writers) := by
  unfold places next
  cases side with
  | reading =>
    simp only [List.count_singleton_self, List.range_succ, List.map_append, List.map_singleton, List.append_assoc]
    exact List.perm_middle
  | writing =>
    simp only [List.count_singleton_self, List.range_succ, List.map_append, List.map_singleton, ← List.append_assoc]
    exact List.perm_append_singleton _ _

theorem next_fresh (p : WorkerPool α) (side : Side) : p.next side ∉ places p.readers p.writers := by
  rw [mem_places]
  cases side <;> simp [next]

/-! ## Connections -/

theorem mem_leases {c : Connection} : c ∈ p.leases ↔ ∃ w, p.Has w ∧ (p.worker w).conn = some c := by
  unfold leases
  simp [has_iff]

theorem held_iff {c : Connection} : p.held c = true ↔ c ∈ p.leases := by
  rw [mem_leases]
  unfold held
  simp only [Bool.or_eq_true, List.any_eq_true, List.mem_range, decide_eq_true_eq]
  constructor
  · rintro (⟨i, hi, hc⟩ | ⟨i, hi, hc⟩)
    · exact ⟨.reader i, hi, hc⟩
    · exact ⟨.writer i, hi, hc⟩
  · rintro ⟨i | i, hi, hc⟩
    · exact Or.inl ⟨i, hi, hc⟩
    · exact Or.inr ⟨i, hi, hc⟩

theorem leases_eq (hreaders : q.readers = p.readers) (hwriters : q.writers = p.writers)
    (hconn : ∀ w, (q.worker w).conn = (p.worker w).conn) : q.leases = p.leases := by
  unfold leases
  rw [hreaders, hwriters]
  exact List.filterMap_congr fun w _ => hconn w

/-- What is borrowed is held, and so nothing borrowed is replaced: a free connection is lent, or there is none. -/
theorem borrow_leased (h : p.connections.borrowed.Perm p.leases) (created : Option Connection) :
    p.connections.borrow p.held created =
      match p.connections.pool with
      | conn :: pool => (some conn, ⟨pool, conn :: p.connections.borrowed⟩)
      | [] => (none, p.connections) := by
  unfold ConnectionPool.borrow
  cases p.connections.pool with
  | cons conn pool => rfl
  | nil =>
    have hfind : p.connections.borrowed.find? (fun conn => !p.held conn) = none := by
      rw [List.find?_eq_none]
      intro conn hconn
      simp [held_iff.mpr (h.mem_iff.mp hconn)]
    rw [hfind]

/-- Every connection of `conns` is free or held by one worker, and what is held is listed as borrowed. -/
structure Leased (conns : List Connection) (p : WorkerPool α) : Prop where
  borrowed : p.connections.borrowed.Perm p.leases
  all : (p.connections.pool ++ p.leases).Perm conns

variable {conns : List Connection}

theorem Leased.of_eq (h : Leased conns p) (hconnections : q.connections = p.connections)
    (hleases : q.leases = p.leases) : Leased conns q := by
  refine ⟨?_, ?_⟩
  · rw [hconnections, hleases]
    exact h.borrowed
  · rw [hconnections, hleases]
    exact h.all

theorem spawn_eq (h : p.connections.borrowed.Perm p.leases) (created : Option Connection) (side : Side) :
    p.spawn created side =
      match p.connections.pool with
      | conn :: pool => (true, ({ p with
          connections := ⟨pool, conn :: p.connections.borrowed⟩
          readers := p.readers + [side].count .reading
          writers := p.writers + [side].count .writing } : WorkerPool α).setWorker (p.next side) ⟨{}, some conn⟩)
      | [] => (false, p) := by
  unfold spawn
  rw [borrow_leased h]
  cases p.connections.pool with
  | nil => cases side <;> rfl
  | cons conn pool => cases side <;> rfl

theorem leases_spawn (p : WorkerPool α) (side : Side) (connections : ConnectionPool) (conn : Connection) :
    (({ p with
        connections
        readers := p.readers + [side].count .reading
        writers := p.writers + [side].count .writing } : WorkerPool α).setWorker (p.next side)
      ⟨{}, some conn⟩).leases.Perm (conn :: p.leases) := by
  refine ((places_next p side).filterMap _).trans ?_
  rw [List.filterMap_cons_some (b := conn) (by simp [setWorker])]
  refine List.Perm.of_eq (congrArg (conn :: ·) (List.filterMap_congr fun w hw => ?_))
  have hne : w ≠ p.next side := fun heq => next_fresh p side (heq ▸ hw)
  simp [setWorker, hne]

theorem Leased.spawn (h : Leased conns p) {created : Option Connection} {side : Side} {made : Bool}
    (hs : p.spawn created side = (made, q)) : Leased conns q := by
  rw [spawn_eq h.borrowed] at hs
  have hall := h.all
  cases hpool : p.connections.pool with
  | nil =>
    rw [hpool] at hs
    obtain rfl := congrArg Prod.snd hs
    exact h
  | cons conn pool =>
    rw [hpool] at hs hall
    obtain rfl := congrArg Prod.snd hs
    have hleases := leases_spawn p side ⟨pool, conn :: p.connections.borrowed⟩ conn
    refine ⟨(h.borrowed.cons conn).trans hleases.symm, ?_⟩
    refine (hleases.append_left pool).trans ?_
    exact List.perm_middle.trans hall

/-- `Spawn` throws and nothing changes, or there is one worker more. -/
theorem spawn_cases (h : p.connections.borrowed.Perm p.leases) {created : Option Connection} {side : Side}
    {made : Bool} (hs : p.spawn created side = (made, q)) :
    (made = false ∧ q = p) ∨
    (made = true ∧ q.stopping = p.stopping ∧ (∀ w, q.Has w → w = p.next side ∨ p.Has w) ∧
      ∃ conn, ∀ w, q.worker w = if w = p.next side then ⟨{}, some conn⟩ else p.worker w) := by
  rw [spawn_eq h] at hs
  cases hpool : p.connections.pool with
  | nil =>
    rw [hpool] at hs
    exact Or.inl ⟨(congrArg Prod.fst hs).symm, (congrArg Prod.snd hs).symm⟩
  | cons conn pool =>
    rw [hpool] at hs
    obtain rfl := congrArg Prod.fst hs
    obtain rfl := congrArg Prod.snd hs
    refine Or.inr ⟨rfl, rfl, fun w hw => ?_, conn, fun w => Function.update_apply ..⟩
    rw [has_iff] at hw ⊢
    exact List.mem_cons.mp ((places_next p side).mem_iff.mp hw)

theorem leases_unborrow {conn : Connection} (hhas : p.Has w) (hconn : (p.worker w).conn = some conn)
    (connections : ConnectionPool) : p.leases.Perm
      (conn :: (({ p with connections } : WorkerPool α).setWorker w { p.worker w with conn := none }).leases) := by
  have hws := nodup_places p.readers p.writers
  have hsplit := List.perm_cons_erase (has_iff.mp hhas)
  refine (hsplit.filterMap _).trans ?_
  have hcons : ∀ ws : List Place, (w :: ws).filterMap (fun w => (p.worker w).conn) =
      conn :: ws.filterMap fun w => (p.worker w).conn := fun _ => List.filterMap_cons_some hconn
  rw [hcons]
  refine List.Perm.cons conn (List.Perm.symm ?_)
  refine (hsplit.filterMap _).trans ?_
  rw [List.filterMap_cons_none (by simp [setWorker])]
  refine List.Perm.of_eq (List.filterMap_congr fun w' hw' => ?_)
  have hne : w' ≠ w := fun heq => hws.not_mem_erase (heq ▸ hw')
  simp [setWorker, hne]

theorem Leased.unborrow (h : Leased conns p) {conn : Connection} (hhas : p.Has w)
    (hconn : (p.worker w).conn = some conn) :
    Leased conns (({ p with connections := p.connections.unborrow conn } : WorkerPool α).setWorker w
      { p.worker w with conn := none }) := by
  have hleases := leases_unborrow hhas hconn (p.connections.unborrow conn)
  have hborrowed : conn ∈ p.connections.borrowed := by
    rw [(h.borrowed.trans hleases).mem_iff]
    exact List.mem_cons_self
  have hpool : p.connections.unborrow conn = ⟨p.connections.pool ++ [conn], p.connections.borrowed.erase conn⟩ :=
    if_pos hborrowed
  refine ⟨?_, ?_⟩
  · change (p.connections.unborrow conn).borrowed.Perm _
    rw [hpool]
    have herase := (h.borrowed.trans hleases).erase conn
    rwa [List.erase_cons_head] at herase
  · change ((p.connections.unborrow conn).pool ++ _).Perm conns
    rw [hpool, List.append_assoc, List.singleton_append]
    exact (hleases.symm.append_left _).trans h.all

/-! ## What is left of Stop -/

/-- Who has not given back its connection yet will, and `Stop` ends without a worker. -/
structure Unwinding (p : WorkerPool α) (rest : List StopStep) : Prop where
  held : ∀ w, p.Has w → (p.worker w).conn = none ∨ .unborrow w ∈ rest
  ended : rest = [] → p.readers = 0 ∧ p.writers = 0

theorem unwinding_stop (p : WorkerPool α) : Unwinding p (stopSteps p.readers p.writers) where
  held w hw := Or.inr (by simpa [stopSteps] using has_iff.mp hw)
  ended h := by simp [stopSteps] at h

theorem more_left {readers writers : Nat} {done : List StopStep} {next : StopStep} {rest : List StopStep}
    (h : stopSteps readers writers = done ++ next :: rest) (hne : next ≠ .clear) : rest ≠ [] := by
  rintro rfl
  have hlast := congrArg List.getLast? h
  simp only [stopSteps, List.getLast?_append, List.getLast?_singleton, Option.some_or] at hlast
  exact hne (Option.some.inj hlast).symm

theorem Unwinding.steady {rest : List StopStep} (h : Unwinding p rest) (hs : Steady p q) : Unwinding q rest where
  held w hw := by
    rw [hs.conn]
    exact h.held w (hs.has_iff.mp hw)
  ended hnil := by
    rw [hs.readers, hs.writers]
    exact h.ended hnil

theorem Unwinding.next {done : List StopStep} {next : StopStep} {rest : List StopStep} (h : Unwinding p (next :: rest))
    (hsteps : stopSteps p.readers p.writers = done ++ next :: rest)
    (hq : Stopped { p with stopping := some rest } q next) : Unwinding q rest := by
  have hsizes := hq.sizes
  by_cases hlast : next = .clear
  · rw [if_pos hlast] at hsizes
    refine ⟨fun w hw => ?_, fun _ => hsizes⟩
    rw [has_iff, hsizes.1, hsizes.2] at hw
    cases hw
  · rw [if_neg hlast] at hsizes
    refine ⟨fun w hw => ?_, fun hnil => absurd hnil (more_left hsteps hlast)⟩
    rw [has_iff, hsizes.1, hsizes.2] at hw
    rw [hq.conn]
    rcases h.held w (has_iff.mpr hw) with hnone | hmem
    · exact Or.inl (by split <;> trivial)
    · rcases List.mem_cons.mp hmem with heq | hmem
      · exact Or.inl (if_pos heq.symm)
      · exact Or.inr hmem

theorem Leased.stopStep (h : Leased conns p) {done : List StopStep} {next : StopStep} {rest : List StopStep}
    (hu : Unwinding p (next :: rest)) (hsteps : stopSteps p.readers p.writers = done ++ next :: rest)
    (hq : ({ p with stopping := some rest } : WorkerPool α).stopStep next = some q) : Leased conns q := by
  have hconns := (stopStep_stopped hq).conn
  cases next with
  | resetGuard w =>
    obtain rfl := Option.some.inj hq
    exact h.of_eq rfl (leases_eq rfl rfl hconns)
  | join w =>
    obtain ⟨-, hq⟩ := Option.ite_none_right_eq_some.mp hq
    obtain rfl := Option.some.inj hq
    exact h.of_eq rfl rfl
  | unborrow w =>
    have hhas : p.Has w := by
      have hmem : StopStep.unborrow w ∈ stopSteps p.readers p.writers := by simp [hsteps]
      exact has_iff.mpr (by simpa [stopSteps] using hmem)
    unfold WorkerPool.stopStep at hq
    cases hconn : (p.worker w).conn with
    | none =>
      simp only [hconn] at hq
      obtain rfl := Option.some.inj hq
      exact h.of_eq rfl rfl
    | some conn =>
      simp only [hconn] at hq
      obtain rfl := Option.some.inj hq
      exact (h.unborrow hhas hconn).of_eq rfl rfl
  | clear =>
    obtain rfl := Option.some.inj hq
    obtain rfl := clear_last hsteps
    have hnone : p.leases = [] := by
      refine List.filterMap_eq_nil_iff.mpr fun w hw => ?_
      exact (hu.held w (has_iff.mpr hw)).resolve_right (by simp)
    refine h.of_eq rfl ?_
    rw [hnone]
    rfl

end WorkerPool

namespace MainThread

open WorkerPool

variable {α : Type} {s s' : MainThread α} {w : Place} {conns : List Connection}

/-! ## Each step keeps it -/

structure Lending (conns : List Connection) (s : MainThread α) : Prop where
  leased : Leased conns s.pool
  draining : Draining s.pool
  /-- Until `Stop` is called, every worker has its connection. -/
  full : s.pool.stopping = none → ∀ w, s.pool.Has w → (s.pool.worker w).conn ≠ none
  starting : s.starting ≠ [] → s.pool.stopping = none
  unwinding : ∀ rest, s.pool.stopping = some rest → Unwinding s.pool rest

theorem lending_new (conns : List Connection) : Lending conns (new conns : MainThread α) := by
  refine ⟨⟨List.Perm.nil, ?_⟩, ⟨fun _ => rfl, by rintro rest ⟨⟩⟩, fun _ w hw => ?_, fun h => absurd rfl h, ?_⟩
  · exact List.Perm.of_eq (List.append_nil conns)
  · cases w <;> exact absurd hw (Nat.not_lt_zero _)
  · rintro rest ⟨⟩

theorem idle_iff : s.idle = true ↔ s.starting = [] ∧ (s.pool.stopping = none ∨ s.pool.stopping = some []) := by
  unfold idle
  cases hs : s.pool.stopping <;> simp

theorem Lending.steady (h : Lending conns s) {pool : WorkerPool α} (hp : Steady s.pool pool) :
    Lending conns { s with pool } := by
  refine ⟨h.leased.of_eq hp.connections (leases_eq hp.readers hp.writers hp.conn), h.draining.steady hp,
    fun hnone w hw => ?_, fun hne => hp.stopping.trans (h.starting hne),
    fun rest hrest => (h.unwinding rest (hp.stopping.symm.trans hrest)).steady hp⟩
  rw [hp.conn]
  exact h.full (hp.stopping.symm.trans hnone) w (hp.has_iff.mp hw)

theorem Lending.spawn (h : Lending conns s) {side : Side} {rest : List Side} (hs : s.starting = side :: rest)
    {created : Option Connection} {made : Bool} {pool : WorkerPool α}
    (hspawn : s.pool.spawn created side = (made, pool)) : Lending conns ⟨pool, if made then rest else []⟩ := by
  have hrunning : s.pool.stopping = none := h.starting (by simp [hs])
  have hleased := h.leased.spawn hspawn
  rcases spawn_cases h.leased.borrowed hspawn with ⟨rfl, rfl⟩ | ⟨rfl, hstopping, hhas, conn, hworker⟩
  · exact ⟨hleased, h.draining, h.full, fun hne => absurd rfl hne, h.unwinding⟩
  · refine ⟨hleased, ⟨fun w => ?_, fun left hleft => ?_⟩, fun _ w hw => ?_, fun _ => hstopping.trans hrunning,
      fun left hleft => ?_⟩
    · change (pool.worker w).io.crashed = false
      rw [hworker]
      split
      · rfl
      · exact h.draining.healthy w
    · rw [hstopping, hrunning] at hleft
      cases hleft
    · change (pool.worker w).conn ≠ none
      rw [hworker]
      split
      · simp
      · rename_i hne
        exact h.full hrunning w ((hhas w hw).resolve_left hne)
    · rw [hstopping, hrunning] at hleft
      cases hleft

theorem Lending.start (h : Lending conns s) (hnone : s.pool.readers = 0 ∧ s.pool.writers = 0) (starting : List Side) :
    Lending conns ⟨{ s.pool with stopping := none }, starting⟩ := by
  refine ⟨h.leased.of_eq rfl rfl, ⟨h.draining.healthy, by rintro rest ⟨⟩⟩, fun _ w hw => ?_, fun _ => rfl, ?_⟩
  · rw [has_iff] at hw
    dsimp only at hw
    rw [hnone.1, hnone.2] at hw
    cases hw
  · rintro rest ⟨⟩

theorem Lending.stop (h : Lending conns s) (hidle : s.starting = []) :
    Lending conns { s with pool := { s.pool with stopping := some (stopSteps s.pool.readers s.pool.writers) } } := by
  refine ⟨h.leased.of_eq rfl rfl, ⟨h.draining.healthy, fun rest hrest _ => ?_⟩, ?_, fun hne => absurd hidle hne,
    fun rest hrest => ?_⟩
  · obtain rfl := Option.some.inj hrest
    exact ⟨[], rfl, by simp⟩
  · rintro ⟨⟩
  · obtain rfl := Option.some.inj hrest
    exact unwinding_stop _

theorem Lending.stopStep (h : Lending conns s) {next : StopStep} {rest : List StopStep}
    (hs : s.pool.stopping = some (next :: rest)) {pool : WorkerPool α}
    (hpool : ({ s.pool with stopping := some rest } : WorkerPool α).stopStep next = some pool) :
    Lending conns { s with pool } := by
  have hstopped := stopStep_stopped hpool
  have hstopping := hstopped.kept.2.2
  have hu := h.unwinding _ hs
  obtain ⟨done, hsteps, -⟩ := h.draining.done _ hs (List.cons_ne_nil _ _)
  refine ⟨h.leased.stopStep hu hsteps hpool, h.draining.next hs hstopped, fun hnone => ?_, fun hne => ?_,
    fun left hleft => ?_⟩
  · rw [hstopping] at hnone
    cases hnone
  · have hrunning := h.starting hne
    rw [hs] at hrunning
    cases hrunning
  · obtain rfl := Option.some.inj (hstopping.symm.trans hleft)
    exact hu.next hsteps hstopped

theorem step_lending {e : MainEvent α} (h : Lending conns s) (hs : s.step e = some s') : Lending conns s' := by
  cases e with
  | start readWorkers writeWorkers =>
    obtain ⟨-, hs⟩ := Option.ite_none_right_eq_some.mp hs
    by_cases hstarted : s.pool.readers ≠ 0 ∨ s.pool.writers ≠ 0
    · rw [if_pos hstarted] at hs
      obtain rfl := Option.some.inj hs
      exact h
    · rw [if_neg hstarted] at hs
      obtain rfl := Option.some.inj hs
      exact h.start (by omega) _
  | spawn created =>
    cases hstarting : s.starting with
    | nil =>
      simp only [step, hstarting] at hs
      cases hs
    | cons side rest =>
      obtain ⟨made, pool, hspawn⟩ : ∃ made pool, s.pool.spawn created side = (made, pool) := ⟨_, _, rfl⟩
      have hnext := h.spawn hstarting hspawn
      simp only [step, hstarting, hspawn] at hs
      cases made <;> (obtain rfl := Option.some.inj hs; exact hnext)
  | stop =>
    obtain ⟨hidle, hs⟩ := Option.ite_none_right_eq_some.mp hs
    obtain rfl := Option.some.inj hs
    exact h.stop (idle_iff.mp hidle).1
  | stopStep =>
    cases hstopping : s.pool.stopping with
    | none =>
      simp only [step, hstopping] at hs
      cases hs
    | some left =>
      cases left with
      | nil =>
        simp only [step, hstopping] at hs
        cases hs
      | cons next rest =>
        simp only [step, hstopping] at hs
        obtain ⟨pool, hpool, rfl⟩ := Option.map_eq_some_iff.mp hs
        exact h.stopStep hstopping hpool
  | post call =>
    cases call with
    | read task =>
      obtain ⟨-, hs⟩ := Option.ite_none_right_eq_some.mp hs
      obtain rfl := Option.some.inj hs
      exact h.steady (postRead_steady _ _)
    | write key task =>
      obtain ⟨-, hs⟩ := Option.ite_none_right_eq_some.mp hs
      obtain rfl := Option.some.inj hs
      exact h.steady (postWrite_steady _ _ _)
  | begin w =>
    obtain ⟨pool, hpool, rfl⟩ := Option.map_eq_some_iff.mp hs
    exact h.steady (begin_steady hpool)
  | finish w thrown =>
    obtain ⟨pool, hpool, rfl⟩ := Option.map_eq_some_iff.mp hs
    exact h.steady (finish_steady hpool)
  | ret w =>
    obtain ⟨pool, hpool, rfl⟩ := Option.map_eq_some_iff.mp hs
    exact h.steady (ret_steady hpool)

theorem run_lending {es : List (MainEvent α)} (h : Lending conns s) (hrun : run step s es = some s') :
    Lending conns s' :=
  run_invariant (P := Lending conns) (fun _ _ _ => step_lending) h hrun

/-! ## Stop comes to its end -/

/-- What a worker does, and what `Stop` does next. -/
def ofTurn : PoolTurn α → MainEvent α
  | .postRead task => .post (.read task)
  | .postWrite key task => .post (.write key task)
  | .stop => .stopStep
  | .begin w => .begin w
  | .finish w thrown => .finish w thrown
  | .ret w => .ret w

/-- While `Stop` is going on, the main thread and the workers do what the pool does. -/
theorem step_ofTurn {e : PoolTurn α} (hposts : e.posts = false) {rest : List StopStep}
    (hs : s.pool.stopping = some rest) {pool : WorkerPool α} (he : s.pool.step e = some pool) :
    s.step (ofTurn e) = some { s with pool } ∧ ∃ left, pool.stopping = some left := by
  cases e with
  | postRead task => cases hposts
  | postWrite key task => cases hposts
  | stop =>
    cases rest with
    | nil =>
      simp only [WorkerPool.step, hs] at he
      cases he
    | cons next rest =>
      simp only [WorkerPool.step, hs] at he
      refine ⟨?_, rest, (stopStep_stopped he).kept.2.2⟩
      simp only [ofTurn, step, hs, he, Option.map_some]
  | begin w => exact ⟨congrArg (Option.map _) he, rest, (begin_steady he).stopping.trans hs⟩
  | finish w thrown => exact ⟨congrArg (Option.map _) he, rest, (finish_steady he).stopping.trans hs⟩
  | ret w => exact ⟨congrArg (Option.map _) he, rest, (ret_steady he).stopping.trans hs⟩

theorem run_ofTurn {es : List (PoolTurn α)} (hposts : ∀ e ∈ es, e.posts = false) {rest : List StopStep}
    (hs : s.pool.stopping = some rest) {pool : WorkerPool α} (hrun : Lib.run WorkerPool.step s.pool es = some pool) :
    run step s (es.map ofTurn) = some { s with pool } := by
  induction es generalizing s rest with
  | nil =>
    obtain rfl := Option.some.inj hrun
    rfl
  | cons e es ih =>
    obtain ⟨m, hm, hrun⟩ := run_cons_iff.mp hrun
    obtain ⟨hfirst, hothers⟩ := List.forall_mem_cons.mp hposts
    obtain ⟨hstep, left, hleft⟩ := step_ofTurn hfirst hs hm
    exact run_cons_iff.mpr ⟨{ s with pool := m }, hstep, ih hothers hleft hrun⟩

theorem stop_ends (h : Lending conns s) {rest : List StopStep} (hs : s.pool.stopping = some rest) :
    ∃ es t, run step s es = some t ∧ t.pool.stopping = some [] := by
  obtain ⟨es, pool, hposts, hrun, hend⟩ := h.draining.finishes hs
  exact ⟨es.map ofTurn, { s with pool }, run_ofTurn hposts hs hrun, hend⟩

/-- `Start` as one call, worker by worker: it makes all its workers, or throws in the middle. -/
theorem spawnAll_run (p : WorkerPool α) (created : Option Connection) (sides : List Side) :
    ∃ es, run step ⟨p, sides⟩ es = some ⟨(p.spawnAll created sides).2, []⟩ := by
  induction sides generalizing p with
  | nil => exact ⟨[], rfl⟩
  | cons side rest ih =>
    obtain ⟨made, q, hspawn⟩ : ∃ made q, p.spawn created side = (made, q) := ⟨_, _, rfl⟩
    unfold spawnAll
    cases made with
    | false => exact ⟨[.spawn created], by simp [step, hspawn]⟩
    | true =>
      obtain ⟨es, hrun⟩ := ih q
      refine ⟨.spawn created :: es, run_cons_iff.mpr ⟨⟨q, rest⟩, ?_, ?_⟩⟩
      · simp only [step, hspawn]
      · rw [hrun, hspawn]

theorem spawn_stopping (p : WorkerPool α) (created : Option Connection) (side : Side) :
    (p.spawn created side).2.stopping = p.stopping := by
  unfold spawn
  split <;> rfl

theorem spawnAll_stopping (p : WorkerPool α) (created : Option Connection) (sides : List Side) :
    (p.spawnAll created sides).2.stopping = p.stopping := by
  induction sides generalizing p with
  | nil => rfl
  | cons side rest ih =>
    have hspawn := spawn_stopping p created side
    unfold spawnAll
    split
    · rename_i q hq
      rw [ih q, ← hspawn, hq]
    · rename_i q hq
      rw [← hspawn, hq]

theorem stopped_after (h : Lending conns s) : ∃ es t, run step s es = some t ∧ t.pool.stopping = some [] := by
  cases hstopping : s.pool.stopping with
  | some rest => exact stop_ends h hstopping
  | none =>
    obtain ⟨es, hrun⟩ := spawnAll_run s.pool none s.starting
    have hm := run_lending h hrun
    have hrunning := (spawnAll_stopping s.pool none s.starting).trans hstopping
    have hstop : step ⟨(s.pool.spawnAll none s.starting).2, []⟩ .stop = some _ :=
      if_pos (idle_iff.mpr ⟨rfl, Or.inl hrunning⟩)
    obtain ⟨es', t, hrun', hend⟩ := stop_ends (step_lending hm hstop) rfl
    exact ⟨es ++ .stop :: es', t, run_append.mpr ⟨_, hrun, run_cons_iff.mpr ⟨_, hstop, hrun'⟩⟩, hend⟩

/-! ## Every run -/

theorem Lending.distinct (h : Lending conns s) (hnodup : conns.Nodup) {w' : Place} {c : Connection}
    (hw : s.pool.Has w) (hw' : s.pool.Has w') (hc : (s.pool.worker w).conn = some c)
    (hc' : (s.pool.worker w').conn = some c) : w' = w := by
  have hleases : s.pool.leases.Nodup :=
    (List.nodup_append.mp (h.leased.all.nodup_iff.mpr hnodup)).2.1
  by_contra hne
  have hpairs := List.pairwise_filterMap.mp hleases
  have hsymm : Std.Symm fun w w' => ∀ b, (s.pool.worker w).conn = some b → ∀ b', (s.pool.worker w').conn = some b' →
      b ≠ b' := ⟨fun _ _ h b hb b' hb' => (h b' hb' b hb).symm⟩
  exact hpairs.forall (has_iff.mp hw') (has_iff.mp hw) hne c hc' c hc rfl

theorem Lending.stopped (h : Lending conns s) (hs : s.pool.stopping = some []) :
    s.pool.readers = 0 ∧ s.pool.writers = 0 ∧ s.pool.connections.borrowed = [] ∧
      s.pool.connections.pool.Perm conns := by
  obtain ⟨hreaders, hwriters⟩ := (h.unwinding [] hs).ended rfl
  have hnone : s.pool.leases = [] := by
    unfold leases
    rw [hreaders, hwriters]
    rfl
  have hborrowed := h.leased.borrowed
  have hall := h.leased.all
  rw [hnone] at hborrowed hall
  rw [List.append_nil] at hall
  exact ⟨hreaders, hwriters, hborrowed.eq_nil, hall⟩

/-- In every state of every run the workers hold distinct connections that are listed as borrowed, until `Stop` is
called each holds one, and when `Stop` has returned, there is no worker and every connection that one ever held is
in the pool once. `Stop` can be brought to its end from every state. -/
theorem workers_lease_connections (hnodup : conns.Nodup) {es : List (MainEvent α)}
    (hrun : run step (new conns) es = some s) :
    (∀ w c, s.pool.Has w → (s.pool.worker w).conn = some c → c ∈ s.pool.connections.borrowed ∧
      ∀ w', s.pool.Has w' → (s.pool.worker w').conn = some c → w' = w) ∧
    (s.pool.stopping = none → ∀ w, s.pool.Has w → (s.pool.worker w).conn ≠ none) ∧
    (∀ fs t, run step s fs = some t → t.pool.stopping = some [] →
      t.pool.readers = 0 ∧ t.pool.writers = 0 ∧ t.pool.connections.borrowed = [] ∧
      ∀ w c, s.pool.Has w → (s.pool.worker w).conn = some c → t.pool.connections.pool.count c = 1) ∧
    ∃ fs t, run step s fs = some t ∧ t.pool.stopping = some [] := by
  have h : Lending conns s := run_lending (lending_new conns) hrun
  refine ⟨fun w c hw hc => ⟨?_, fun w' hw' hc' => h.distinct hnodup hw hw' hc hc'⟩, h.full, fun fs t ht hstop => ?_,
    stopped_after h⟩
  · exact h.leased.borrowed.mem_iff.mpr (mem_leases.mpr ⟨w, hw, hc⟩)
  · obtain ⟨hreaders, hwriters, hborrowed, hpool⟩ := (run_lending h ht).stopped hstop
    refine ⟨hreaders, hwriters, hborrowed, fun w c hw hc => ?_⟩
    rw [hpool.count_eq]
    refine List.count_eq_one_of_mem hnodup (h.leased.all.mem_iff.mp ?_)
    exact List.mem_append_right _ (mem_leases.mpr ⟨w, hw, hc⟩)

/-- Two connections for three workers: `Start` throws at the writer, and `Stop` gives the two back. -/
def failedStart : List (MainEvent Nat) := [.start 2 1, .spawn none, .spawn none, .spawn none]

def stopAfterwards : List (MainEvent Nat) :=
  [.stop, .stopStep, .stopStep, .ret (.reader 0), .stopStep, .ret (.reader 1), .stopStep, .stopStep, .stopStep, .stopStep]

theorem workers_lease_connections_failed_start :
    ∃ s t, run step (new [5, 6]) failedStart = some s ∧ run step s stopAfterwards = some t ∧ s.starting = [] ∧
      s.pool.leases = [5, 6] ∧ t.pool.readers = 0 ∧ t.pool.connections.pool.count 5 = 1 := by
  obtain ⟨s, t, hs, ht, hended, hleases, hhas, hconn, hstopped⟩ : ∃ s t, run step (new [5, 6]) failedStart = some s ∧
      run step s stopAfterwards = some t ∧ s.starting = [] ∧ s.pool.leases = [5, 6] ∧ 0 < s.pool.readers ∧
      (s.pool.worker (.reader 0)).conn = some 5 ∧ t.pool.stopping = some [] :=
    ⟨_, _, rfl, rfl, rfl, rfl, by decide, rfl, rfl⟩
  obtain ⟨-, -, hback, -⟩ := workers_lease_connections (by decide) hs
  obtain ⟨hreaders, -, -, hcount⟩ := hback stopAfterwards t ht hstopped
  exact ⟨s, t, hs, ht, hended, hleases, hreaders, hcount (.reader 0) 5 hhas hconn⟩

end MainThread

end Auction
