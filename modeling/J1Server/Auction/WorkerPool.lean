import J1Server.Core.ConnectionPool
import J1Server.Lib.Loop
import J1Server.Lib.Runs
import Mathlib.Algebra.Order.Ring.Int
import Mathlib.Logic.Function.Basic

/-! # AuctionWorkerPool

Every worker has a queue, a thread and a connection of its own. The main thread
starts them, posts tasks to them, and in the end waits until their queues are
empty. -/

namespace Auction

open Lib Core

/-! ## State -/

/-- A place in `_readers` or in `_writers`. -/
inductive Place
  | reader (i : Nat)
  | writer (i : Nat)
  deriving DecidableEq

/-- A task is named by the number of the call that posted it. -/
structure Worker where
  io : Loop Nat := {}
  conn : Option Connection := none

inductive PostCall (α : Type)
  | read (task : α)
  | write (key : Nat) (task : α)
  deriving DecidableEq

/-- A call, and the worker that got its task. -/
structure Posted (α : Type) where
  call : PostCall α
  worker : Option Place
  deriving DecidableEq

/-- What is left to do in `Stop`. -/
inductive StopStep
  | resetGuard (w : Place)
  | join (w : Place)
  | unborrow (w : Place)
  | clear
  deriving DecidableEq

/-- A turn of a worker, and the connection that it had then. -/
structure LogEntry where
  worker : Place
  conn : Option Connection
  turn : Turn Nat
  deriving DecidableEq

structure WorkerPool (α : Type) where
  readers : Nat := 0
  writers : Nat := 0
  worker : Place → Worker := fun _ => {}
  readRoundRobin : Nat := 0
  connections : ConnectionPool
  calls : List (Posted α) := []
  /-- `none` before `Stop` is called, and nothing left when it has returned. -/
  stopping : Option (List StopStep) := none
  log : List LogEntry := []

namespace WorkerPool

variable {α : Type}

def Has (p : WorkerPool α) : Place → Prop
  | .reader i => i < p.readers
  | .writer i => i < p.writers

instance (p : WorkerPool α) (w : Place) : Decidable (p.Has w) :=
  match w with
  | .reader i => inferInstanceAs (Decidable (i < p.readers))
  | .writer i => inferInstanceAs (Decidable (i < p.writers))

def setWorker (p : WorkerPool α) (w : Place) (x : Worker) : WorkerPool α :=
  { p with worker := Function.update p.worker w x }

def setIo (p : WorkerPool α) (w : Place) (io : Loop Nat) : WorkerPool α :=
  p.setWorker w { p.worker w with io }

/-! ## Start and Stop -/

def held (p : WorkerPool α) (conn : Connection) : Bool :=
  (List.range p.readers).any (fun i => (p.worker (.reader i)).conn = some conn) ||
    (List.range p.writers).any fun i => (p.worker (.writer i)).conn = some conn

inductive Side
  | reading
  | writing
  deriving DecidableEq

/-- `Spawn`, and the `push_back` of what it returns. -/
def spawn (p : WorkerPool α) (created : Option Connection) (side : Side) : Bool × WorkerPool α :=
  match p.connections.borrow p.held created, side with
  | (some conn, connections), .reading => (true,
    { p with connections, readers := p.readers + 1 }.setWorker (.reader p.readers) ⟨{}, some conn⟩)
  | (some conn, connections), .writing => (true,
    { p with connections, writers := p.writers + 1 }.setWorker (.writer p.writers) ⟨{}, some conn⟩)
  | (none, connections), _ => (false, { p with connections })

def spawnAll (p : WorkerPool α) (created : Option Connection) : List Side → Bool × WorkerPool α
  | [] => (true, p)
  | side :: sides =>
    match p.spawn created side with
    | (true, p) => p.spawnAll created sides
    | (false, p) => (false, p)

def start (p : WorkerPool α) (created : Option Connection) (readWorkers writeWorkers : Nat) :
    Bool × WorkerPool α :=
  if p.readers ≠ 0 ∨ p.writers ≠ 0 then (true, p)
  else p.spawnAll created
    (List.replicate (max readWorkers 1) .reading ++ List.replicate (max writeWorkers 1) .writing)

def places (readers writers : Nat) : List Place :=
  (List.range readers).map .reader ++ (List.range writers).map .writer

/-- The loops of `Stop`, unrolled. -/
def stopSteps (readers writers : Nat) : List StopStep :=
  let ws := places readers writers
  ws.map .resetGuard ++ ws.map .join ++ ws.map .unborrow ++ [.clear]

/-- `join` waits until the thread of the worker has ended. -/
def stopStep (p : WorkerPool α) : StopStep → Option (WorkerPool α)
  | .resetGuard w => some (p.setIo w (p.worker w).io.reset)
  | .join w => if (p.worker w).io.returned then some p else none
  | .unborrow w =>
    match (p.worker w).conn with
    | some conn => some ({ p with connections := p.connections.unborrow conn }.setWorker w
        { p.worker w with conn := none })
    | none => some p
  | .clear => some { p with readers := 0, writers := 0 }

/-! ## Posting -/

inductive Thrown
  | sqlException
  | stdException
  | other
  deriving DecidableEq

/-- The handler that `Post` makes of a task catches and logs whatever the task throws. -/
def escapes : Option Thrown → Bool
  | none => false
  | some .sqlException => false
  | some .stdException => false
  | some .other => false

theorem escapes_eq (thrown : Option Thrown) : escapes thrown = false := by
  cases thrown with
  | none => rfl
  | some t => cases t <;> rfl

def post (p : WorkerPool α) (w : Place) (no : Nat) : WorkerPool α := p.setIo w ((p.worker w).io.post no)

def postRead (p : WorkerPool α) (task : α) : WorkerPool α :=
  if p.readers = 0 then { p with calls := p.calls ++ [⟨.read task, none⟩] }
  else
    let w := Place.reader (p.readRoundRobin % p.readers)
    let q : WorkerPool α := { p with readRoundRobin := (p.readRoundRobin + 1) % 2 ^ 64, calls := p.calls ++ [⟨.read task, some w⟩] }
    q.post w p.calls.length

def postWrite (p : WorkerPool α) (key : Nat) (task : α) : WorkerPool α :=
  if p.writers = 0 then { p with calls := p.calls ++ [⟨.write key task, none⟩] }
  else
    let w := Place.writer (key % p.writers)
    let q : WorkerPool α := { p with calls := p.calls ++ [⟨.write key task, some w⟩] }
    q.post w p.calls.length

/-! ## Runs -/

/-- The main thread posts and stops; a worker begins, finishes, and returns from `run()`. -/
inductive PoolTurn (α : Type)
  | postRead (task : α)
  | postWrite (key : Nat) (task : α)
  | stop
  | begin (w : Place)
  | finish (w : Place) (thrown : Option Thrown)
  | ret (w : Place)

def logTurn (p : WorkerPool α) (w : Place) (turn : Turn Nat) : WorkerPool α :=
  { p with log := p.log ++ [⟨w, (p.worker w).conn, turn⟩] }

def step (p : WorkerPool α) : PoolTurn α → Option (WorkerPool α)
  | .postRead task => if p.stopping.isNone then some (p.postRead task) else none
  | .postWrite key task => if p.stopping.isNone then some (p.postWrite key task) else none
  | .stop =>
    match p.stopping with
    | none => some { p with stopping := some (stopSteps p.readers p.writers) }
    | some [] => none
    | some (s :: rest) => { p with stopping := some rest }.stopStep s
  | .begin w =>
    if p.Has w then (p.worker w).io.begin.map fun r => (p.logTurn w (.began r.1)).setIo w r.2 else none
  | .finish w thrown =>
    if p.Has w then ((p.worker w).io.finish (escapes thrown)).map fun r =>
      (p.logTurn w (.ended r.1)).setIo w r.2 else none
  | .ret w => if p.Has w then (p.worker w).io.ret.map fun io => p.setIo w io else none

/-! ## What a state keeps -/

def logOf (w : Place) (log : List LogEntry) : List (Turn Nat) :=
  log.filterMap fun e => if e.worker = w then some e.turn else none

def sentTo (w : Place) (calls : List (Posted α)) : List Nat :=
  (List.range calls.length).filter fun no => (calls[no]?.bind Posted.worker) = some w

def Phase (readers writers : Nat) (p : WorkerPool α) : Prop :=
  match p.stopping with
  | none => p.readers = readers ∧ p.writers = writers ∧ ∀ w, (p.worker w).io.guard = true
  | some rest => ∃ done, stopSteps readers writers = done ++ rest ∧
      (∀ w, .resetGuard w ∈ done → (p.worker w).io.guard = false) ∧
      (∀ w, .join w ∈ done → (p.worker w).io.returned = true) ∧
      (rest = [] ∨ p.readers = readers ∧ p.writers = writers)

/-- The workers that may get the task of a call. -/
def Routed (readers writers : Nat) (w : Place) : PostCall α → Prop
  | .read _ => ∃ i < readers, w = .reader i
  | .write key _ => w = .writer (key % writers)

structure Inv (readers writers : Nat) (conn : Place → Option Connection) (p : WorkerPool α) : Prop where
  served : ∀ w, (p.worker w).io.Served (sentTo w p.calls) (logOf w p.log)
  conns : ∀ w, (p.worker w).conn = conn w ∨ (p.worker w).io.returned = true
  logged : ∀ e ∈ p.log, e.worker ∈ places readers writers ∧ e.conn = conn e.worker
  bounds : p.readers ≤ readers ∧ p.writers ≤ writers
  routed : ∀ c ∈ p.calls, ∃ w, c.worker = some w ∧ Routed readers writers w c.call
  phase : Phase readers writers p

variable {p q : WorkerPool α} {w w' : Place} {readers writers : Nat} {conn : Place → Option Connection}

@[simp] theorem setIo_worker (p : WorkerPool α) (w w' : Place) (io : Loop Nat) :
    (p.setIo w io).worker w' = if w' = w then { p.worker w with io } else p.worker w' :=
  Function.update_apply ..

theorem forall_setIo {p : WorkerPool α} {w : Place} {io : Loop Nat} (P : Place → Worker → Prop)
    (hself : P w { p.worker w with io }) (hothers : ∀ w', w' ≠ w → P w' (p.worker w')) (w' : Place) :
    P w' ((p.setIo w io).worker w') :=
  (Function.forall_update_iff p.worker P).mpr ⟨hself, hothers⟩ w'

@[simp] theorem setIo_calls (p : WorkerPool α) (w : Place) (io : Loop Nat) : (p.setIo w io).calls = p.calls := rfl
@[simp] theorem setIo_log (p : WorkerPool α) (w : Place) (io : Loop Nat) : (p.setIo w io).log = p.log := rfl
@[simp] theorem setIo_stopping (p : WorkerPool α) (w : Place) (io : Loop Nat) :
    (p.setIo w io).stopping = p.stopping := rfl

theorem logOf_append (log : List LogEntry) (e : LogEntry) :
    logOf w (log ++ [e]) = logOf w log ++ if e.worker = w then [e.turn] else [] := by
  unfold logOf
  rw [List.filterMap_append]
  by_cases h : e.worker = w <;> simp [h]

theorem sentTo_append (calls : List (Posted α)) (c : Posted α) :
    sentTo w (calls ++ [c]) = sentTo w calls ++ if c.worker = some w then [calls.length] else [] := by
  unfold sentTo
  rw [List.length_append, List.length_singleton, List.range_succ, List.filter_append]
  congr 1
  · apply List.filter_congr
    intro no hno
    rw [List.getElem?_append_left (List.mem_range.mp hno)]
  · by_cases h : c.worker = some w <;> simp [h]

theorem sentTo_nodup (w : Place) (calls : List (Posted α)) : (sentTo w calls).Nodup := List.nodup_range.filter _

theorem mem_sentTo {calls : List (Posted α)} {no : Nat} :
    no ∈ sentTo w calls ↔ ∃ c, calls[no]? = some c ∧ c.worker = some w := by
  unfold sentTo
  rw [List.mem_filter, List.mem_range, decide_eq_true_eq, Option.bind_eq_some_iff]
  constructor
  · exact fun h => h.2
  · rintro ⟨c, hc, hw⟩
    exact ⟨(List.getElem?_eq_some_iff.mp hc).1, c, hc, hw⟩

theorem sentTo_ordered {calls : List (Posted α)} {k₁ k₂ : Nat} (hlt : k₁ < k₂) (h₁ : k₁ ∈ sentTo w calls)
    (h₂ : k₂ ∈ sentTo w calls) : [k₁, k₂].Sublist (sentTo w calls) := by
  unfold sentTo at h₁ h₂ ⊢
  rw [List.mem_filter] at h₁ h₂
  have hrange : [k₁, k₂].Sublist (List.range calls.length) := by
    have hsucc : [k₁, k₂].Sublist (List.range (k₂ + 1)) := by
      rw [List.range_succ]
      exact (List.singleton_sublist.mpr (List.mem_range.mpr hlt)).append (List.Sublist.refl [k₂])
    exact hsucc.trans (List.range_sublist.mpr (List.mem_range.mp h₂.1))
  have hself : [k₁, k₂].filter (fun no => decide ((calls[no]?.bind Posted.worker) = some w)) = [k₁, k₂] := by
    rw [List.filter_eq_self]
    intro no hno
    rcases List.mem_pair.mp hno with rfl | rfl
    · exact h₁.2
    · exact h₂.2
  rw [← hself]
  exact hrange.filter _

/-! ## Each step keeps it -/

structure Going (p q : WorkerPool α) : Prop where
  stopping : q.stopping = p.stopping
  sizes : q.readers = p.readers ∧ q.writers = p.writers
  guard : ∀ w, (q.worker w).io.guard = (p.worker w).io.guard
  returned : ∀ w, (p.worker w).io.returned = true → (q.worker w).io.returned = true

theorem Phase.going (h : Phase readers writers p) (hg : Going p q) : Phase readers writers q := by
  unfold Phase at h ⊢
  rw [hg.stopping, hg.sizes.1, hg.sizes.2]
  cases hs : p.stopping with
  | none =>
    rw [hs] at h
    exact ⟨h.1, h.2.1, fun w => (hg.guard w).trans (h.2.2 w)⟩
  | some rest =>
    rw [hs] at h
    obtain ⟨done, hsteps, hreset, hjoin, hsizes⟩ := h
    exact ⟨done, hsteps, fun w hw => (hg.guard w).trans (hreset w hw), fun w hw => hg.returned w (hjoin w hw), hsizes⟩

theorem going_setIo {log : List LogEntry} {io : Loop Nat} (hguard : io.guard = (p.worker w).io.guard)
    (hret : (p.worker w).io.returned = true → io.returned = true) : Going p ({ p with log }.setIo w io) := by
  refine ⟨rfl, ⟨rfl, rfl⟩, ?_, ?_⟩
  · exact forall_setIo (fun w' x => x.io.guard = (p.worker w').io.guard) hguard fun _ _ => rfl
  · exact forall_setIo (fun w' x => (p.worker w').io.returned = true → x.io.returned = true) hret fun _ _ => id

theorem Inv.mem_places (h : Inv readers writers conn p) (hhas : p.Has w) : w ∈ places readers writers := by
  unfold places
  cases w with
  | reader i =>
    have hlt : i < readers := Nat.lt_of_lt_of_le hhas h.bounds.1
    simp [hlt]
  | writer i =>
    have hlt : i < writers := Nat.lt_of_lt_of_le hhas h.bounds.2
    simp [hlt]

theorem Inv.turn (h : Inv readers writers conn p) (hhas : p.Has w) {io : Loop Nat} {turn : Turn Nat}
    (hserved : io.Served (sentTo w p.calls) (logOf w p.log ++ [turn])) (hlive : (p.worker w).io.returned = false)
    (hguard : io.guard = (p.worker w).io.guard) :
    Inv readers writers conn ((p.logTurn w turn).setIo w io) := by
  have hconn : (p.worker w).conn = conn w := (h.conns w).resolve_right (by simp [hlive])
  refine ⟨?_, ?_, fun e he => ?_, h.bounds, h.routed, ?_⟩
  · refine forall_setIo (fun w' x => x.io.Served (sentTo w' p.calls) (logOf w' (p.logTurn w turn).log)) ?_ ?_
    · simpa [logTurn, logOf_append] using hserved
    · intro w' hw
      simpa [logTurn, logOf_append, Ne.symm hw] using h.served w'
  · exact forall_setIo (fun w' x => x.conn = conn w' ∨ x.io.returned = true) (Or.inl hconn) fun w' _ => h.conns w'
  · rcases List.mem_append.mp he with he | he
    · exact h.logged e he
    · obtain rfl := List.mem_singleton.mp he
      exact ⟨h.mem_places hhas, hconn⟩
  · exact h.phase.going (going_setIo hguard (by simp [hlive]))

theorem Inv.ret (h : Inv readers writers conn p) {io : Loop Nat} (hr : (p.worker w).io.ret = some io) :
    Inv readers writers conn (p.setIo w io) := by
  obtain ⟨-, -, -, -, rfl⟩ := Loop.ret_eq_some.mp hr
  refine ⟨?_, ?_, h.logged, h.bounds, h.routed, h.phase.going (going_setIo rfl fun _ => rfl)⟩
  · exact forall_setIo (fun w' x => x.io.Served (sentTo w' p.calls) (logOf w' p.log)) ((h.served w).ret hr)
      fun w' _ => h.served w'
  · exact forall_setIo (fun w' x => x.conn = conn w' ∨ x.io.returned = true) (Or.inr rfl) fun w' _ => h.conns w'

theorem Inv.post (h : Inv readers writers conn p) (hs : p.stopping = none) {call : PostCall α}
    {readRoundRobin : Nat} (hroute : Routed readers writers w call) :
    Inv readers writers conn
      (({ p with readRoundRobin, calls := p.calls ++ [⟨call, some w⟩] } : WorkerPool α).post w p.calls.length) := by
  have hphase := h.phase
  unfold Phase at hphase
  rw [hs] at hphase
  refine ⟨?_, ?_, h.logged, h.bounds, fun c hc => ?_, ?_⟩
  · refine forall_setIo (fun w' x => x.io.Served (sentTo w' (p.calls ++ [⟨call, some w⟩])) (logOf w' p.log)) ?_ ?_
    · simpa [sentTo_append] using (h.served w).post (hphase.2.2 w) p.calls.length
    · intro w' hw
      simpa [sentTo_append, Ne.symm hw] using h.served w'
  · exact forall_setIo (fun w' x => x.conn = conn w' ∨ x.io.returned = true) (h.conns w) fun w' _ => h.conns w'
  · rcases List.mem_append.mp hc with hc | hc
    · exact h.routed c hc
    · obtain rfl := List.mem_singleton.mp hc
      exact ⟨w, rfl, hroute⟩
  · unfold Phase
    change match p.stopping with | none => _ | some rest => _
    rw [hs]
    refine ⟨hphase.1, hphase.2.1, ?_⟩
    exact forall_setIo (fun _ x => x.io.guard = true) (hphase.2.2 w) fun w' _ => hphase.2.2 w'

/-! ## Stop -/

theorem mem_before {β : Type} {as bs done rest : List β} {x : β} (h : as ++ bs = done ++ x :: rest) (hx : x ∉ as) :
    ∀ y ∈ as, y ∈ done := by
  rcases List.append_eq_append_iff.mp h with ⟨mid, rfl, -⟩ | ⟨mid, rfl, hmid⟩
  · exact fun y hy => List.mem_append_left _ hy
  · cases mid with
    | nil => exact fun y hy => by simpa using hy
    | cons z mid =>
      obtain ⟨rfl, -⟩ := List.cons.inj hmid
      simp at hx

/-- A worker's thread has ended before its connection is given back. -/
theorem joined_before {done rest : List StopStep} (h : stopSteps readers writers = done ++ .unborrow w :: rest) :
    .join w ∈ done := by
  have hw : w ∈ places readers writers := by
    have hmem : StopStep.unborrow w ∈ stopSteps readers writers := by simp [h]
    simpa [stopSteps] using hmem
  unfold stopSteps at h
  rw [List.append_assoc] at h
  exact mem_before h (by simp) _ (by simp [hw])

theorem reset_before {done rest : List StopStep} (h : stopSteps readers writers = done ++ .join w :: rest) :
    w ∈ places readers writers ∧ .resetGuard w ∈ done := by
  have hw : w ∈ places readers writers := by
    have hmem : StopStep.join w ∈ stopSteps readers writers := by simp [h]
    simpa [stopSteps] using hmem
  unfold stopSteps at h
  rw [List.append_assoc, List.append_assoc] at h
  exact ⟨hw, mem_before h (by simp) _ (by simp [hw])⟩

theorem clear_last {done rest : List StopStep} (h : stopSteps readers writers = done ++ .clear :: rest) : rest = [] := by
  unfold stopSteps at h
  rcases List.append_eq_append_iff.mp h with ⟨mid, -, hmid⟩ | ⟨mid, hfirst, hmid⟩
  · cases mid with
    | nil => exact (List.cons.inj hmid).2.symm
    | cons z mid => simp at hmid
  · cases mid with
    | nil => exact (List.cons.inj hmid).2
    | cons z mid =>
      obtain ⟨rfl, -⟩ := List.cons.inj hmid
      have hmem : StopStep.clear ∈ (places readers writers).map StopStep.resetGuard ++
          (places readers writers).map .join ++ (places readers writers).map .unborrow := by simp [hfirst]
      simp at hmem

/-- What one step of `Stop` does to the workers. -/
structure Stopped (p q : WorkerPool α) (s : StopStep) : Prop where
  kept : q.calls = p.calls ∧ q.log = p.log ∧ q.stopping = p.stopping
  sizes : if s = .clear then q.readers = 0 ∧ q.writers = 0 else q.readers = p.readers ∧ q.writers = p.writers
  io : ∀ w, (q.worker w).io = if s = .resetGuard w then (p.worker w).io.reset else (p.worker w).io
  conn : ∀ w, (q.worker w).conn = if s = .unborrow w then none else (p.worker w).conn
  joined : ∀ w, s = .join w → (p.worker w).io.returned = true

theorem stopStep_stopped {s : StopStep} (hq : p.stopStep s = some q) : Stopped p q s := by
  cases s with
  | resetGuard w =>
    obtain rfl := Option.some.inj hq
    refine ⟨⟨rfl, rfl, rfl⟩, ⟨rfl, rfl⟩, fun w' => ?_, fun w' => ?_, by rintro w' ⟨⟩⟩
    · by_cases hw : w = w'
      · subst hw
        simp
      · simp [hw, Ne.symm hw]
    · by_cases hw : w' = w <;> simp [hw]
  | join w =>
    obtain ⟨hret, hq⟩ := Option.ite_none_right_eq_some.mp hq
    obtain rfl := Option.some.inj hq
    refine ⟨⟨rfl, rfl, rfl⟩, ⟨rfl, rfl⟩, fun _ => rfl, fun _ => rfl, fun w' hw => ?_⟩
    obtain rfl := StopStep.join.inj hw
    exact hret
  | unborrow w =>
    unfold stopStep at hq
    cases hconn : (p.worker w).conn with
    | none =>
      simp only [hconn] at hq
      obtain rfl := Option.some.inj hq
      refine ⟨⟨rfl, rfl, rfl⟩, ⟨rfl, rfl⟩, fun _ => rfl, fun w' => ?_, by rintro w' ⟨⟩⟩
      by_cases hw : w = w'
      · subst hw
        simp [hconn]
      · simp [hw]
    | some conn =>
      simp only [hconn] at hq
      obtain rfl := Option.some.inj hq
      refine ⟨⟨rfl, rfl, rfl⟩, ⟨rfl, rfl⟩, fun w' => ?_, fun w' => ?_, by rintro w' ⟨⟩⟩
      · by_cases hw : w' = w <;> simp [setWorker, hw]
      · by_cases hw : w = w'
        · subst hw
          simp [setWorker]
        · simp [setWorker, hw, Ne.symm hw]
  | clear =>
    obtain rfl := Option.some.inj hq
    exact ⟨⟨rfl, rfl, rfl⟩, ⟨rfl, rfl⟩, fun _ => rfl, fun _ => rfl, by rintro w' ⟨⟩⟩

theorem Stopped.guard {s : StopStep} (h : Stopped p q s) (hor : (p.worker w).io.guard = false ∨ s = .resetGuard w) :
    (q.worker w).io.guard = false := by
  rw [h.io]
  split
  · rfl
  · rename_i hne
    exact hor.resolve_right hne

theorem Stopped.returned {s : StopStep} (h : Stopped p q s) (w : Place) :
    (q.worker w).io.returned = (p.worker w).io.returned := by
  rw [h.io]
  split <;> rfl

theorem Phase.next (h : Phase readers writers p) {s : StopStep} {rest : List StopStep}
    (hs : p.stopping = some (s :: rest)) (hq : Stopped { p with stopping := some rest } q s) :
    Phase readers writers q := by
  unfold Phase at h ⊢
  rw [hs] at h
  rw [hq.kept.2.2]
  obtain ⟨done, hsteps, hreset, hjoin, hsizes⟩ := h
  refine ⟨done ++ [s], by simp [hsteps], fun w hw => hq.guard ?_, fun w hw => (hq.returned w).trans ?_, ?_⟩
  · rcases List.mem_append.mp hw with hw | hw
    · exact Or.inl (hreset w hw)
    · exact Or.inr (List.mem_singleton.mp hw).symm
  · rcases List.mem_append.mp hw with hw | hw
    · exact hjoin w hw
    · exact hq.joined w (List.mem_singleton.mp hw).symm
  · have hsizes' := hq.sizes
    by_cases hlast : s = .clear
    · exact Or.inl (clear_last (hlast ▸ hsteps))
    · rw [if_neg hlast] at hsizes'
      rw [hsizes'.1, hsizes'.2]
      exact Or.inr (hsizes.resolve_left (by simp))

theorem Inv.stopStep (h : Inv readers writers conn p) {s : StopStep} {rest : List StopStep}
    (hs : p.stopping = some (s :: rest)) (hq : ({ p with stopping := some rest } : WorkerPool α).stopStep s = some q) :
    Inv readers writers conn q ∧ q.stopping = some rest := by
  have hphase := h.phase
  unfold Phase at hphase
  rw [hs] at hphase
  obtain ⟨done, hsteps, -, hjoin, -⟩ := hphase
  have hstopped := stopStep_stopped hq
  obtain ⟨hcalls, hlog, hstopping⟩ := hstopped.kept
  refine ⟨⟨fun w => ?_, fun w => ?_, hlog.symm ▸ h.logged, ?_, hcalls.symm ▸ h.routed, h.phase.next hs hstopped⟩,
    hstopping⟩
  · rw [hstopped.io, hcalls, hlog]
    split
    · exact (h.served w).reset
    · exact h.served w
  · rw [hstopped.conn, hstopped.returned]
    split
    · -- Nobody uses the connection any more.
      rename_i hback
      exact Or.inr (hjoin w (joined_before (hback ▸ hsteps)))
    · exact h.conns w
  · have hsizes := hstopped.sizes
    split at hsizes
    · rw [hsizes.1, hsizes.2]
      exact ⟨Nat.zero_le _, Nat.zero_le _⟩
    · rw [hsizes.1, hsizes.2]
      exact h.bounds

theorem Inv.stop (h : Inv readers writers conn p) (hs : p.stopping = none) :
    Inv readers writers conn { p with stopping := some (stopSteps p.readers p.writers) } := by
  have hphase := h.phase
  unfold Phase at hphase
  rw [hs] at hphase
  obtain ⟨rfl, rfl, -⟩ := hphase
  exact ⟨h.served, h.conns, h.logged, h.bounds, h.routed, [], by simp, by simp, by simp, Or.inr ⟨rfl, rfl⟩⟩

/-! ## Every run -/

theorem begin_live {l l' : Loop Nat} {no : Nat} (h : l.begin = some (no, l')) : l.returned = false := by
  have hlive := (Loop.begin_eq_some.mp h).1
  unfold Loop.live at hlive
  cases hret : l.returned <;> simp_all

theorem Inv.step (h : Inv readers writers conn p) (hpos : 0 < readers ∧ 0 < writers) {e : PoolTurn α}
    (hq : p.step e = some q) : Inv readers writers conn q := by
  have hphase := h.phase
  unfold Phase at hphase
  cases e with
  | postRead task =>
    simp only [WorkerPool.step, Option.isNone_iff_eq_none] at hq
    split at hq
    · rename_i hs
      rw [hs] at hphase
      obtain rfl := Option.some.inj hq
      have hlt : p.readRoundRobin % p.readers < readers := by
        rw [hphase.1]
        exact Nat.mod_lt _ hpos.1
      have hroute : Routed readers writers (.reader (p.readRoundRobin % p.readers)) (PostCall.read task) :=
        ⟨_, hlt, rfl⟩
      rw [postRead, if_neg (by omega)]
      exact h.post hs hroute
    · cases hq
  | postWrite key task =>
    simp only [WorkerPool.step, Option.isNone_iff_eq_none] at hq
    split at hq
    · rename_i hs
      rw [hs] at hphase
      obtain rfl := Option.some.inj hq
      have hroute : Routed readers writers (.writer (key % p.writers)) (PostCall.write key task) := by
        rw [hphase.2.1]
        rfl
      rw [postWrite, if_neg (by omega)]
      exact h.post hs hroute
    · cases hq
  | stop =>
    simp only [WorkerPool.step] at hq
    split at hq
    · rename_i hs
      obtain rfl := Option.some.inj hq
      exact h.stop hs
    · cases hq
    · rename_i s rest hs
      exact (h.stopStep hs hq).1
  | begin w =>
    simp only [WorkerPool.step] at hq
    split at hq
    · rename_i hhas
      obtain ⟨⟨no, io⟩, hb, rfl⟩ := Option.map_eq_some_iff.mp hq
      obtain ⟨-, -, _, -, hio⟩ := Loop.begin_eq_some.mp hb
      exact h.turn hhas ((h.served w).begin hb) (begin_live hb) (by rw [hio])
    · cases hq
  | finish w thrown =>
    simp only [WorkerPool.step] at hq
    split at hq
    · rename_i hhas
      obtain ⟨⟨no, io⟩, hf, rfl⟩ := Option.map_eq_some_iff.mp hq
      rw [escapes_eq] at hf
      obtain ⟨hrunning, hio⟩ := Loop.finish_eq_some.mp hf
      have hlive : (p.worker w).io.returned = false := by
        by_contra hret
        have hidle := ((h.served w).rest (by simpa using hret)).2.1
        rw [hrunning] at hidle
        cases hidle
      exact h.turn hhas ((h.served w).finish hf) hlive (by rw [hio])
    · cases hq
  | ret w =>
    simp only [WorkerPool.step] at hq
    split at hq
    · obtain ⟨io, hr, rfl⟩ := Option.map_eq_some_iff.mp hq
      exact h.ret hr
    · cases hq

theorem Inv.run (h : Inv readers writers conn p) (hpos : 0 < readers ∧ 0 < writers) {es : List (PoolTurn α)}
    (hr : Lib.run WorkerPool.step p es = some q) : Inv readers writers conn q :=
  run_invariant (P := Inv readers writers conn) (fun _ _ _ hp hs => hp.step hpos hs) h hr

end WorkerPool

end Auction
