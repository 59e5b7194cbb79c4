import J1Server.Lib.Runs
import J1Server.Lobby.CharacterRequests

/-! # Runs of character requests

The handlers of the GameServer run on one thread, so one request follows another. A request may end with an
exception at any call; then its connection stays out of the pool, with whatever it had not committed. -/

namespace Lobby

open Lib Lib.Server Core

/-- A request that is being handled, the connection of its calls, and the server where it began. -/
structure CharacterJob where
  req : CharacterRequest
  conn : Option Connection
  before : Server lobbyDb
  rest : Prog (Sql lobbyDb) (Except SqlException (Option Response) × ConnectionPool)

/-- A request that is over, with its response or its exception. -/
structure Handled where
  req : CharacterRequest
  result : Except SqlException (Option Response)
  before : Server lobbyDb
  after : Server lobbyDb

structure CharacterService where
  server : Server lobbyDb
  connections : ConnectionPool
  job : Option CharacterJob
  handled : List Handled

inductive CharacterEvent
  | start (req : CharacterRequest) (alloc : Allocation)
  | call (fault : Option Fault)
  | finish
  /-- The server drops a connection that no handler is using. -/
  | drop (conn : Connection)
  | tick (seconds : Nat)

def CharacterEvent.isStart : CharacterEvent → Bool
  | .start .. => true
  | _ => false

namespace CharacterService

def fresh (db : Database) (now next : Int) (conns : List Connection) : CharacterService :=
  ⟨idle (D := lobbyDb) db now next, ⟨conns, []⟩, none, []⟩

def isFresh (m : CharacterService) (conn : Connection) : Bool :=
  conn ∉ m.connections.pool ++ m.connections.borrowed ∧ (m.server.conns conn).autocommit = true ∧
    (m.server.conns conn).pending.isEmpty = true

def step (law : Call lobbyDb → Harm → Bool) (m : CharacterService) : CharacterEvent → Option CharacterService
  | .start req alloc =>
    match m.job with
    | none =>
      if alloc.created.all m.isFresh then
        some { m with job := some ⟨req, (m.connections.borrow alloc.held alloc.created).1, m.server,
          (req.handle alloc).prog m.connections⟩ }
      else none
    | some _ => none
  | .call fault =>
    match m.job with
    | some ⟨req, some conn, before, .call c k⟩ =>
      (callUnder law conn c fault m.server).map fun r =>
        { m with server := r.2, job := some ⟨req, some conn, before, k r.1⟩ }
    | _ => none
  | .finish =>
    match m.job with
    | some ⟨req, _, before, .done (result, connections)⟩ =>
      some { m with connections, job := none, handled := m.handled ++ [⟨req, result, before, m.server⟩] }
    | _ => none
  | .drop conn =>
    if m.job.all (fun job => job.conn ≠ some conn) then some { m with server := m.server.hangUp conn } else none
  | .tick seconds => some { m with server := m.server.tick seconds }

variable {law : Call lobbyDb → Harm → Bool} {m m' : CharacterService}

/-! ## One step -/

theorem step_start {req : CharacterRequest} {alloc : Allocation} (h : step law m (.start req alloc) = some m') :
    m.job = none ∧ (∀ c, alloc.created = some c → m.isFresh c = true) ∧
      m' = { m with job := some ⟨req, (m.connections.borrow alloc.held alloc.created).1, m.server,
        (req.handle alloc).prog m.connections⟩ } := by
  simp only [step] at h
  split at h
  · rename_i hjob
    split at h
    · rename_i hfresh
      refine ⟨hjob, fun c hc => ?_, (Option.some.inj h).symm⟩
      rw [hc] at hfresh
      exact hfresh
    · cases h
  · cases h

theorem step_call {fault : Option Fault} (h : step law m (.call fault) = some m') :
    ∃ req conn before c k o s', m.job = some ⟨req, some conn, before, .call c k⟩ ∧ Step law conn c m.server o s' ∧
      m' = { m with server := s', job := some ⟨req, some conn, before, k o⟩ } := by
  simp only [step] at h
  split at h
  · rename_i req conn before c k hjob
    obtain ⟨⟨o, s'⟩, hcall, rfl⟩ := Option.map_eq_some_iff.mp h
    exact ⟨req, conn, before, c, k, o, s', hjob, callUnder_step hcall, rfl⟩
  · cases h

theorem step_finish (h : step law m .finish = some m') :
    ∃ req conn before result connections, m.job = some ⟨req, conn, before, .done (result, connections)⟩ ∧
      m' = { m with connections, job := none, handled := m.handled ++ [⟨req, result, before, m.server⟩] } := by
  simp only [step] at h
  split at h
  · rename_i req conn before result connections hjob
    exact ⟨req, conn, before, result, connections, hjob, (Option.some.inj h).symm⟩
  · cases h

theorem step_drop {conn : Connection} (h : step law m (.drop conn) = some m') :
    (∀ job, m.job = some job → job.conn ≠ some conn) ∧ m' = { m with server := m.server.hangUp conn } := by
  simp only [step] at h
  split at h
  · rename_i hunused
    refine ⟨fun job hjob => ?_, (Option.some.inj h).symm⟩
    rw [hjob] at hunused
    exact of_decide_eq_true hunused
  · cases h

/-! ## What holds after every run -/

abbrev AllClean (p : ConnectionPool) (s : Server lobbyDb) : Prop := Clean (fun _ => True) p s

/-- A request that has no call to make. -/
structure Refused (m : CharacterService) (job : CharacterJob) : Prop where
  rest : ∃ result, job.rest = .done (result, m.connections) ∧ ∀ resp, result ≠ .ok (some resp)
  still : Still job.before m.server
  clean : AllClean m.connections m.server

/-- A request that works on `conn`, which is out of the pool. -/
structure Working (law : Call lobbyDb → Harm → Bool) (m : CharacterService) (job : CharacterJob) (conn : Connection)
    (p : ConnectionPool) : Prop where
  uses : job.conn = some conn
  listed : ∃ rest, p.borrowed = conn :: rest
  clean : AllClean p m.server
  outcome : Still job.before m.server ∨ Made job.req job.before m.server
  safe : Safe (Alone conn) (Step law conn) (Commits job.req job.before) job.rest
    (fun _ => Replied job.req conn job.before p) m.server

end CharacterService

/-- A response tells whether the whole change was committed. -/
def Handled.Sound (x : Handled) : Prop :=
  (∀ resp, x.result = .ok (some resp) → resp = x.req.response true ∧ Made x.req x.before x.after ∨
    resp = x.req.response false ∧ Still x.before x.after) ∧
  (Still x.before x.after ∨ Made x.req x.before x.after)

namespace CharacterService

variable {law : Call lobbyDb → Harm → Bool} {m m' : CharacterService}

structure Sound (law : Call lobbyDb → Harm → Bool) (m : CharacterService) : Prop where
  wf : m.server.WF
  idle : m.job = none → AllClean m.connections m.server
  running : ∀ job, m.job = some job → Refused m job ∨ ∃ conn p, Working law m job conn p
  handled : ∀ x ∈ m.handled, x.Sound

theorem sound_fresh {conns : List Connection} (hconns : conns.Nodup) (db : Database) (now next : Int) :
    Sound law (fresh db now next conns) := by
  refine ⟨idle_wf (D := lobbyDb) db now next, fun _ => clean_filled hconns (fun _ _ => trivial) db now next, ?_, ?_⟩
  · intro job hjob
    cases hjob
  · intro x hx
    cases hx

theorem fresh_allocation {alloc : Allocation} (h : ∀ c, alloc.created = some c → m.isFresh c = true) :
    alloc.Fresh (fun _ => True) m.connections m.server := by
  intro c hc
  obtain ⟨hnew, hauto, hpending⟩ := of_decide_eq_true (h c hc)
  exact ⟨trivial, hnew, hauto, List.isEmpty_iff.mp hpending⟩

theorem prog_borrow_throws {α : Type} {a : Allocation} {p p₁ : ConnectionPool}
    (h : p.borrow a.held a.created = (none, p₁)) (f : Connection → Act (Sql lobbyDb) ConnectionPool α) :
    (borrow a >>= f).prog p = .done (.error connectionUnavailable, p) := by
  have hborrow : (borrow a).prog p = .done (.error connectionUnavailable, p) := by
    unfold borrow
    rw [Act.prog_get_bind, h]
    rfl
  rw [Act.prog_bind, hborrow]
  rfl

theorem Sound.start (hlaw : law .commit .replyLost = false) (h : Sound law m) {req : CharacterRequest}
    {alloc : Allocation} (hm : step law m (.start req alloc) = some m') : Sound law m' := by
  obtain ⟨hidle, hfresh, rfl⟩ := step_start hm
  have hclean := h.idle hidle
  refine ⟨h.wf, fun hnone => (by cases hnone), ?_, h.handled⟩
  rintro job hjob
  obtain rfl := Option.some.inj hjob
  cases hx : req.transaction with
  | none =>
    left
    refine ⟨⟨.ok none, ?_, by simp⟩, Still.refl _, hclean⟩
    rw [handle_refused hx]
    rfl
  | some x =>
    rw [handle_borrows hx]
    cases hborrow : m.connections.borrow alloc.held alloc.created with
    | mk found p =>
      cases found with
      | none =>
        left
        exact ⟨⟨_, prog_borrow_throws hborrow _, by simp⟩, Still.refl _, hclean⟩
      | some conn =>
        right
        have hlent := borrow_lent hclean (fresh_allocation hfresh) hborrow
        rw [prog_borrow_bind hborrow]
        exact ⟨conn, p, rfl, hlent.listed, hlent.clean, Or.inl (Still.refl _),
          replies_transaction hlaw hx h.wf hlent.closed⟩

theorem Sound.working (h : Sound law m) {req : CharacterRequest} {conn : Connection} {before : Server lobbyDb}
    {c : Call lobbyDb} {k : Except SqlException c.Reply → Prog (Sql lobbyDb) _}
    (hjob : m.job = some ⟨req, some conn, before, .call c k⟩) :
    ∃ p, Working law m ⟨req, some conn, before, .call c k⟩ conn p := by
  rcases h.running _ hjob with hrefused | ⟨i, p, hwork⟩
  · obtain ⟨result, hrest, -⟩ := hrefused.rest
    cases hrest
  · obtain rfl : conn = i := Option.some.inj hwork.uses
    exact ⟨p, hwork⟩

theorem Sound.call (h : Sound law m) {fault : Option Fault} (hm : step law m (.call fault) = some m') :
    Sound law m' := by
  obtain ⟨req, conn, before, c, k, o, s', hjob, hs, rfl⟩ := step_call hm
  refine ⟨hs.wf lobbyDb_lawful h.wf, fun hnone => (by cases hnone), ?_, h.handled⟩
  intro job hj
  obtain rfl := Option.some.inj hj
  obtain ⟨p, hwork⟩ := h.working hjob
  obtain ⟨hcommits, hsafe⟩ := hwork.safe m.server (alone_refl conn m.server) o s' hs
  refine Or.inr ⟨conn, p, rfl, hwork.listed, ?_, ?_, hsafe.mono fun _ _ _ hr => hr⟩
  · refine ⟨hwork.clean.distinct, hwork.clean.mine, fun c' hc' => ?_⟩
    have hne := hwork.clean.free_ne hwork.listed hc'
    exact (hwork.clean.closed c' hc').congr ((hs.moved lobbyDb_lawful).others c' hne)
  · rcases hcommits with hstill | ⟨-, hmade⟩
    · exact outcome_still hwork.outcome hstill
    · exact Or.inr hmade

theorem Sound.finish (h : Sound law m) (hm : step law m .finish = some m') : Sound law m' := by
  obtain ⟨req, conn, before, result, connections, hjob, rfl⟩ := step_finish hm
  have added : AllClean connections m.server → Handled.Sound ⟨req, result, before, m.server⟩ →
      Sound law { m with connections, job := none, handled := m.handled ++ [⟨req, result, before, m.server⟩] } := by
    intro hclean hsound
    refine ⟨h.wf, fun _ => hclean, fun job hj => (by cases hj), fun x hx => ?_⟩
    rcases List.mem_append.mp hx with hx | hx
    · exact h.handled x hx
    · obtain rfl := List.mem_singleton.mp hx
      exact hsound
  rcases h.running _ hjob with hrefused | ⟨i, p, hwork⟩
  · obtain ⟨result', hrest, hnone⟩ := hrefused.rest
    obtain ⟨rfl, rfl⟩ := Prod.mk.inj (Prog.done.inj hrest)
    exact added hrefused.clean ⟨fun b hb => absurd hb (hnone _), Or.inl hrefused.still⟩
  · have hreplied : Replied req i before p (result, connections) m.server := hwork.safe m.server (alone_refl i m.server)
    cases result with
    | error e =>
      obtain ⟨rfl, -⟩ := hreplied
      exact added hwork.clean ⟨fun b hb => (by cases hb), hwork.outcome⟩
    | ok resp =>
      obtain ⟨rfl, hclosed, hresp⟩ := hreplied
      have hlent : Lent (fun _ => True) i p m.server := ⟨hwork.clean, trivial, hclosed, hwork.listed⟩
      refine added (hlent.unborrow hclosed hwork.clean).1 ⟨fun sent hsent => ?_, hwork.outcome⟩
      obtain rfl := Except.ok.inj hsent
      exact hresp.imp (fun hr => ⟨Option.some.inj hr.1, hr.2⟩) fun hr => ⟨Option.some.inj hr.1, hr.2⟩

/-- What happens on the server outside the request. -/
theorem Sound.aside (h : Sound law m) {s : Server lobbyDb} (hw : s.WF) (hstill : Still m.server s)
    (hclosed : ∀ c, Closed c m.server → Closed c s)
    (hrely : ∀ job conn, m.job = some job → job.conn = some conn → Rely conn m.server s) :
    Sound law { m with server := s } := by
  have clean : ∀ {p}, AllClean p m.server → AllClean p s :=
    fun hp => ⟨hp.distinct, hp.mine, fun c hc => hclosed c (hp.closed c hc)⟩
  refine ⟨hw, fun hnone => clean (h.idle hnone), fun job hjob => ?_, h.handled⟩
  rcases h.running job hjob with hrefused | ⟨conn, p, hwork⟩
  · exact Or.inl ⟨hrefused.rest, hrefused.still.trans hstill, clean hrefused.clean⟩
  · have halone : Alone conn m.server s := ⟨hrely job conn hjob hwork.uses, hstill⟩
    refine Or.inr ⟨conn, p, hwork.uses, hwork.listed, clean hwork.clean, ?_, ?_⟩
    · exact outcome_still hwork.outcome hstill
    · exact hwork.safe.interfere (surroundings_alone conn job.req job.before).trans halone

theorem closed_hangUp {s : Server lobbyDb} {c conn : Connection} (h : Closed c s) : Closed c (s.hangUp conn) := by
  by_cases hc : c = conn
  · subst hc
    exact ⟨by simpa using h.autocommit, by simp⟩
  · exact h.congr ((moved_hangUp s conn).others c hc)

theorem Sound.step (hlaw : law .commit .replyLost = false) (h : Sound law m) {e : CharacterEvent}
    (hm : step law m e = some m') : Sound law m' := by
  cases e with
  | start req alloc => exact h.start hlaw hm
  | call fault => exact h.call hm
  | finish => exact h.finish hm
  | drop conn =>
    obtain ⟨hunused, rfl⟩ := step_drop hm
    have hw : (m.server.hangUp conn).WF := h.wf.of_cleared (moved_hangUp m.server conn) (by simp)
    refine h.aside hw (still_of_quiet (kept_hangUp conn m.server).toQuiet) (fun c => closed_hangUp) ?_
    intro job i hjob huses
    have hne : i ≠ conn := by
      rintro rfl
      exact hunused job hjob huses
    exact (moved_hangUp m.server conn).rely hne h.wf hw
  | tick seconds =>
    obtain rfl := Option.some.inj hm
    exact h.aside (h.wf.tick seconds) ⟨rfl, rfl, le_refl _⟩ (fun c hc => hc.congr rfl)
      fun _ _ _ _ => Rely.tick _ _ seconds

/-- What a step does to the committed state: nothing, or it commits the whole change of the request. -/
theorem Sound.commits (h : Sound law m) {e : CharacterEvent} (hm : CharacterService.step law m e = some m') :
    Still m.server m'.server ∨ ∃ job, m.job = some job ∧ Still job.before m.server ∧
      Made job.req job.before m'.server ∧ m.server.next ≤ m'.server.next := by
  cases e with
  | start req alloc =>
    obtain ⟨-, -, rfl⟩ := step_start hm
    exact Or.inl (Still.refl _)
  | call fault =>
    obtain ⟨req, conn, before, c, k, o, s', hjob, hs, rfl⟩ := step_call hm
    obtain ⟨p, hwork⟩ := h.working hjob
    rcases (hwork.safe m.server (alone_refl conn m.server) o s' hs).1 with hstill | ⟨hbefore, hmade⟩
    · exact Or.inl hstill
    · exact Or.inr ⟨_, hjob, hbefore, hmade, (hs.moved lobbyDb_lawful).next⟩
  | finish =>
    obtain ⟨req, conn, before, result, connections, hjob, rfl⟩ := step_finish hm
    exact Or.inl (Still.refl _)
  | drop conn =>
    obtain ⟨-, rfl⟩ := step_drop hm
    exact Or.inl (still_of_quiet (kept_hangUp conn m.server).toQuiet)
  | tick seconds =>
    obtain rfl := Option.some.inj hm
    exact Or.inl ⟨rfl, rfl, le_refl _⟩

theorem sound_run (hlaw : law .commit .replyLost = false) {es : List CharacterEvent} (hm : Sound law m)
    (hrun : run (step law) m es = some m') : Sound law m' :=
  run_invariant (fun _ _ _ h hstep => h.step hlaw hstep) hm hrun

theorem step_job {e : CharacterEvent} (hm : step law m e = some m') {job' : CharacterJob} (hjob : m'.job = some job') :
    (∃ alloc, e = .start job'.req alloc ∧ m.job = none ∧ job'.before = m.server) ∨
    ∃ job, m.job = some job ∧ job'.req = job.req ∧ job'.before = job.before := by
  cases e with
  | start req alloc =>
    obtain ⟨hidle, -, rfl⟩ := step_start hm
    obtain rfl := Option.some.inj hjob
    exact Or.inl ⟨alloc, rfl, hidle, rfl⟩
  | call fault =>
    obtain ⟨req, conn, before, c, k, o, s', hj, hs, rfl⟩ := step_call hm
    obtain rfl := Option.some.inj hjob
    exact Or.inr ⟨_, hj, rfl, rfl⟩
  | finish =>
    obtain ⟨req, conn, before, result, connections, hj, rfl⟩ := step_finish hm
    cases hjob
  | drop conn =>
    obtain ⟨-, rfl⟩ := step_drop hm
    exact Or.inr ⟨job', hjob, rfl, rfl⟩
  | tick seconds =>
    obtain rfl := Option.some.inj hm
    exact Or.inr ⟨job', hjob, rfl, rfl⟩

theorem step_handled {e : CharacterEvent} (hm : step law m e = some m') :
    m'.handled = m.handled ∨
    ∃ job x, m.job = some job ∧ x.req = job.req ∧ x.before = job.before ∧ m'.handled = m.handled ++ [x] := by
  cases e with
  | start req alloc =>
    obtain ⟨-, -, rfl⟩ := step_start hm
    exact Or.inl rfl
  | call fault =>
    obtain ⟨req, conn, before, c, k, o, s', hj, hs, rfl⟩ := step_call hm
    exact Or.inl rfl
  | finish =>
    obtain ⟨req, conn, before, result, connections, hj, rfl⟩ := step_finish hm
    exact Or.inr ⟨_, ⟨req, result, before, m.server⟩, hj, rfl, rfl, rfl⟩
  | drop conn =>
    obtain ⟨-, rfl⟩ := step_drop hm
    exact Or.inl rfl
  | tick seconds =>
    obtain rfl := Option.some.inj hm
    exact Or.inl rfl

end CharacterService

end Lobby
