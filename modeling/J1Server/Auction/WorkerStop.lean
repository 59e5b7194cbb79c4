import J1Server.Auction.WorkerPool

/-! # Stop comes to its end

Whatever workers there are and whatever is left of `Stop`: they run out of tasks and return, and it goes on. -/

namespace Auction

open Lib Core

namespace WorkerPool

variable {α : Type} {p q : WorkerPool α} {w : Place}

/-- A call of `PostRead` or `PostWrite`. -/
def PoolTurn.posts : PoolTurn α → Bool
  | .postRead _ => true
  | .postWrite _ _ => true
  | _ => false

theorem mem_places {readers writers : Nat} : w ∈ places readers writers ↔
    match w with
    | .reader i => i < readers
    | .writer i => i < writers := by
  unfold places
  cases w <;> simp

theorem has_iff : p.Has w ↔ w ∈ places p.readers p.writers := by
  rw [mem_places]
  cases w <;> rfl

/-! ## What the loops do -/

/-- Nothing changes but the loops, the calls and the log, and no guard is reset. -/
structure Steady (p q : WorkerPool α) : Prop where
  connections : q.connections = p.connections
  readers : q.readers = p.readers
  writers : q.writers = p.writers
  stopping : q.stopping = p.stopping
  conn : ∀ w, (q.worker w).conn = (p.worker w).conn
  guard : ∀ w, (q.worker w).io.guard = (p.worker w).io.guard
  crashed : ∀ w, (q.worker w).io.crashed = (p.worker w).io.crashed

theorem steady_setIo {io : Loop Nat} {log : List LogEntry} {calls : List (Posted α)} {readRoundRobin : Nat}
    (hguard : io.guard = (p.worker w).io.guard) (hcrashed : io.crashed = (p.worker w).io.crashed) :
    Steady p ({ p with log, calls, readRoundRobin }.setIo w io) where
  connections := rfl
  readers := rfl
  writers := rfl
  stopping := rfl
  conn := forall_setIo (p := p) (fun w' x => x.conn = (p.worker w').conn) rfl fun _ _ => rfl
  guard := forall_setIo (p := p) (fun w' x => x.io.guard = (p.worker w').io.guard) hguard fun _ _ => rfl
  crashed := forall_setIo (p := p) (fun w' x => x.io.crashed = (p.worker w').io.crashed) hcrashed fun _ _ => rfl

theorem steady_calls (p : WorkerPool α) (calls : List (Posted α)) : Steady p { p with calls } :=
  ⟨rfl, rfl, rfl, rfl, fun _ => rfl, fun _ => rfl, fun _ => rfl⟩

theorem postRead_steady (p : WorkerPool α) (task : α) : Steady p (p.postRead task) := by
  unfold postRead
  split
  · exact steady_calls p _
  · exact steady_setIo rfl rfl

theorem postWrite_steady (p : WorkerPool α) (key : Nat) (task : α) : Steady p (p.postWrite key task) := by
  unfold postWrite
  split
  · exact steady_calls p _
  · exact steady_setIo rfl rfl

theorem begin_steady (h : p.step (.begin w) = some q) : Steady p q := by
  obtain ⟨-, h⟩ := Option.ite_none_right_eq_some.mp h
  obtain ⟨⟨no, io⟩, hb, rfl⟩ := Option.map_eq_some_iff.mp h
  obtain ⟨-, -, _, -, rfl⟩ := Loop.begin_eq_some.mp hb
  exact steady_setIo rfl rfl

theorem finish_steady {thrown : Option Thrown} (h : p.step (.finish w thrown) = some q) : Steady p q := by
  obtain ⟨-, h⟩ := Option.ite_none_right_eq_some.mp h
  obtain ⟨⟨no, io⟩, hf, rfl⟩ := Option.map_eq_some_iff.mp h
  obtain ⟨-, rfl⟩ := Loop.finish_eq_some.mp hf
  exact steady_setIo rfl (by simp [escapes_eq])

theorem ret_steady (h : p.step (.ret w) = some q) : Steady p q := by
  obtain ⟨-, h⟩ := Option.ite_none_right_eq_some.mp h
  obtain ⟨io, hr, rfl⟩ := Option.map_eq_some_iff.mp h
  obtain ⟨-, -, -, -, rfl⟩ := Loop.ret_eq_some.mp hr
  exact steady_setIo rfl rfl

theorem Steady.refl (p : WorkerPool α) : Steady p p := ⟨rfl, rfl, rfl, rfl, fun _ => rfl, fun _ => rfl, fun _ => rfl⟩

theorem Steady.trans {r : WorkerPool α} (h : Steady p q) (h' : Steady q r) : Steady p r where
  connections := h'.connections.trans h.connections
  readers := h'.readers.trans h.readers
  writers := h'.writers.trans h.writers
  stopping := h'.stopping.trans h.stopping
  conn w := (h'.conn w).trans (h.conn w)
  guard w := (h'.guard w).trans (h.guard w)
  crashed w := (h'.crashed w).trans (h.crashed w)

theorem Steady.has_iff (h : Steady p q) : q.Has w ↔ p.Has w := by
  rw [WorkerPool.has_iff, WorkerPool.has_iff, h.readers, h.writers]

/-! ## One worker -/

def turnsLeft (io : Loop Nat) : Nat := 2 * io.queue.length + io.running.toList.length

/-- A worker whose guard is reset. -/
structure Returning (p : WorkerPool α) (w : Place) : Prop where
  has : p.Has w
  guard : (p.worker w).io.guard = false
  healthy : (p.worker w).io.crashed = false

theorem Returning.steady (h : Returning p w) (hs : Steady p q) : Returning q w where
  has := hs.has_iff.mpr h.has
  guard := (hs.guard w).trans h.guard
  healthy := (hs.crashed w).trans h.healthy

/-- It has a turn to take, until its thread ends. -/
theorem Returning.turn (h : Returning p w) (hret : (p.worker w).io.returned = false) :
    ∃ e q, e.posts = false ∧ p.step e = some q ∧ Steady p q ∧
      ((q.worker w).io.returned = true ∨ turnsLeft (q.worker w).io < turnsLeft (p.worker w).io) := by
  have hlive : (p.worker w).io.live = true := by
    unfold Loop.live
    simp [hret, h.healthy]
  cases hrunning : (p.worker w).io.running with
  | some no =>
    have hf : (p.worker w).io.finish (escapes none) = some (no, _) := Loop.finish_eq_some.mpr ⟨hrunning, rfl⟩
    have hstep : p.step (.finish w none) = some _ := (if_pos h.has).trans (congrArg (Option.map _) hf)
    refine ⟨.finish w none, _, rfl, hstep, finish_steady hstep, Or.inr ?_⟩
    simp [logTurn, turnsLeft, hrunning]
  | none =>
    cases hqueue : (p.worker w).io.queue with
    | cons no queue =>
      have hb := Loop.begin_eq_some.mpr ⟨hlive, hrunning, queue, hqueue, rfl⟩
      have hstep : p.step (.begin w) = some _ := (if_pos h.has).trans (congrArg (Option.map _) hb)
      refine ⟨.begin w, _, rfl, hstep, begin_steady hstep, Or.inr ?_⟩
      simp only [logTurn, turnsLeft, setIo_worker, if_true, hrunning, hqueue, List.length_cons, Option.toList_some,
        Option.toList_none, List.length_nil]
      omega
    | nil =>
      have hr := Loop.ret_eq_some.mpr ⟨hlive, hrunning, hqueue, h.guard, rfl⟩
      have hstep : p.step (.ret w) = some _ := (if_pos h.has).trans (congrArg (Option.map _) hr)
      refine ⟨.ret w, _, rfl, hstep, ret_steady hstep, Or.inl ?_⟩
      simp

theorem Returning.returns (h : Returning p w) {n : Nat} (hn : turnsLeft (p.worker w).io < n) :
    ∃ es q, (∀ e ∈ es, e.posts = false) ∧ Lib.run WorkerPool.step p es = some q ∧ Steady p q ∧
      (q.worker w).io.returned = true := by
  induction n generalizing p with
  | zero => omega
  | succ n ih =>
    cases hret : (p.worker w).io.returned with
    | true => exact ⟨[], p, by simp, rfl, .refl p, hret⟩
    | false =>
      obtain ⟨e, m, hturn, hstep, hsteady, hless⟩ := h.turn hret
      rcases hless with hend | hless
      · exact ⟨[e], m, by simpa using hturn, by simp [hstep], hsteady, hend⟩
      · obtain ⟨es, q, hturns, hrun, hsteady', hend⟩ := ih (h.steady hsteady) (by omega)
        exact ⟨e :: es, q, List.forall_mem_cons.mpr ⟨hturn, hturns⟩, run_cons_iff.mpr ⟨m, hstep, hrun⟩,
          hsteady.trans hsteady', hend⟩

/-! ## All of them -/

/-- What `Stop` has done so far was to the workers that there are. -/
structure Draining (p : WorkerPool α) : Prop where
  healthy : ∀ w, (p.worker w).io.crashed = false
  done : ∀ rest, p.stopping = some rest → rest ≠ [] → ∃ done, stopSteps p.readers p.writers = done ++ rest ∧
    ∀ w, .resetGuard w ∈ done → (p.worker w).io.guard = false

theorem Draining.steady (h : Draining p) (hs : Steady p q) : Draining q where
  healthy w := (hs.crashed w).trans (h.healthy w)
  done rest hrest hne := by
    obtain ⟨done, hsteps, hreset⟩ := h.done rest (hs.stopping.symm.trans hrest) hne
    rw [hs.readers, hs.writers]
    exact ⟨done, hsteps, fun w hw => (hs.guard w).trans (hreset w hw)⟩

theorem Draining.next (h : Draining p) {s : StopStep} {rest : List StopStep} (hs : p.stopping = some (s :: rest))
    (hq : Stopped { p with stopping := some rest } q s) : Draining q where
  healthy w := by
    rw [hq.io]
    split <;> exact h.healthy w
  done left hleft hne := by
    obtain rfl := Option.some.inj (hq.kept.2.2.symm.trans hleft)
    obtain ⟨done, hsteps, hreset⟩ := h.done _ hs (List.cons_ne_nil _ _)
    have hsizes := hq.sizes
    rw [if_neg fun hlast => hne (clear_last (hlast ▸ hsteps))] at hsizes
    refine ⟨done ++ [s], ?_, fun w hw => hq.guard ?_⟩
    · rw [hsizes.1, hsizes.2, hsteps, List.append_assoc, List.singleton_append]
    · rcases List.mem_append.mp hw with hw | hw
      · exact Or.inl (hreset w hw)
      · exact Or.inr (List.mem_singleton.mp hw).symm

/-- From any state, what is left of `Stop` can be done. -/
theorem Draining.finishes (h : Draining p) {rest : List StopStep} (hs : p.stopping = some rest) :
    ∃ es q, (∀ e ∈ es, e.posts = false) ∧ Lib.run WorkerPool.step p es = some q ∧ q.stopping = some [] := by
  induction rest generalizing p with
  | nil => exact ⟨[], p, by simp, rfl, hs⟩
  | cons s rest ih =>
    obtain ⟨done, hsteps, hreset⟩ := h.done _ hs (List.cons_ne_nil _ _)
    -- A state in which the step can be done, and the way there.
    have hready : ∃ es m, (∀ e ∈ es, e.posts = false) ∧ Lib.run WorkerPool.step p es = some m ∧ Steady p m ∧
        ∃ q, ({ m with stopping := some rest } : WorkerPool α).stopStep s = some q := by
      cases s with
      | join w =>
        obtain ⟨hw, hmem⟩ := reset_before hsteps
        obtain ⟨es, m, hturns, hrun, hsteady, hend⟩ :=
          Returning.returns ⟨has_iff.mpr hw, hreset w hmem, h.healthy w⟩ (Nat.lt_succ_self _)
        exact ⟨es, m, hturns, hrun, hsteady, _, if_pos hend⟩
      | resetGuard w => exact ⟨[], p, by simp, rfl, Steady.refl p, _, rfl⟩
      | unborrow w =>
        refine ⟨[], p, by simp, rfl, Steady.refl p, ?_⟩
        unfold stopStep
        cases hconn : (p.worker w).conn with
        | none => simp [hconn]
        | some conn => simp [hconn]
      | clear => exact ⟨[], p, by simp, rfl, Steady.refl p, _, rfl⟩
    obtain ⟨es, m, hturns, hrun, hsteady, m', hm'⟩ := hready
    have hstopping : m.stopping = some (s :: rest) := hsteady.stopping.trans hs
    have hstopped := stopStep_stopped hm'
    have hstep : m.step .stop = some m' := by
      simpa only [WorkerPool.step, hstopping] using hm'
    obtain ⟨es', q, hturns', hrun', hend⟩ := ih ((h.steady hsteady).next hstopping hstopped) hstopped.kept.2.2
    refine ⟨es ++ .stop :: es', q, ?_, run_append.mpr ⟨m, hrun, run_cons_iff.mpr ⟨m', hstep, hrun'⟩⟩, hend⟩
    exact List.forall_mem_append.mpr ⟨hturns, List.forall_mem_cons.mpr ⟨rfl, hturns'⟩⟩

end WorkerPool

end Auction
