import J1Server.Lib.Failures

/-!
# Programs in an environment

An environment answers every call, so a program has one run in it. On a server,
a connection that nobody disturbs and that has autocommit on is one: a statement
takes effect at once, or it is one of those that fail as foretold.
-/

namespace Lib

variable {I : Iface} {α β σ S : Type}

abbrev Env (I : Iface) (S : Type) := (c : I.Call) → S → Except I.Err (I.Reply c) × S

def Prog.play (h : Env I S) : Prog I α → S → α × S
  | .done a, s => (a, s)
  | .call c k, s => (k (h c s).1).play h (h c s).2

theorem Prog.play_bind (h : Env I S) (p : Prog I α) (f : α → Prog I β) (s : S) :
    (p.bind f).play h s = (f (p.play h s).1).play h (p.play h s).2 := by
  induction p generalizing s with
  | done a => rfl
  | call c k ih => exact ih _ _

namespace Act

variable {h : Env I S} {t t' : σ} {s s' : S}

def play (h : Env I S) (x : Act I σ α) (t : σ) (s : S) : (Except I.Err α × σ) × S := (x.prog t).play h s

@[simp] theorem play_pure (a : α) : (pure a : Act I σ α).play h t s = ((.ok a, t), s) := rfl

theorem play_bind {x : Act I σ α} {f : α → Act I σ β} {a : α} (hx : x.play h t s = ((.ok a, t'), s')) :
    (x >>= f).play h t s = (f a).play h t' s' := by
  unfold play at hx ⊢
  rw [prog_bind, Prog.play_bind, hx]

theorem play_bind_error {x : Act I σ α} {f : α → Act I σ β} {e : I.Err}
    (hx : x.play h t s = ((.error e, t'), s')) : (x >>= f).play h t s = ((.error e, t'), s') := by
  unfold play at hx ⊢
  rw [prog_bind, Prog.play_bind, hx]
  rfl

theorem play_call_bind {c : I.Call} {f : I.Reply c → Act I σ β} {a : I.Reply c} (hc : h c s = (.ok a, s')) :
    (call c >>= f).play h t s = (f a).play h t s' := by
  unfold play
  rw [prog_call_bind]
  simp only [Prog.play, hc]

theorem play_call_bind_error {c : I.Call} {f : I.Reply c → Act I σ β} {e : I.Err} (hc : h c s = (.error e, s')) :
    (call c >>= f).play h t s = ((.error e, t), s') := by
  unfold play
  rw [prog_call_bind]
  simp only [Prog.play, hc]

theorem play_tryCatch {x : Act I σ α} {f : I.Err → Act I σ α} {a : α} (hx : x.play h t s = ((.ok a, t'), s')) :
    (tryCatch x f).play h t s = ((.ok a, t'), s') := by
  unfold play at hx ⊢
  rw [prog_tryCatch, Prog.play_bind, hx]
  rfl

theorem play_tryCatch_error {x : Act I σ α} {f : I.Err → Act I σ α} {e : I.Err}
    (hx : x.play h t s = ((.error e, t'), s')) : (tryCatch x f).play h t s = (f e).play h t' s' := by
  unfold play at hx ⊢
  rw [prog_tryCatch, Prog.play_bind, hx]

end Act

/-! ## A connection on its own -/

namespace Server

variable {D : Schema} {i : Nat} {s : Server D}

/-- Autocommit is on, no transaction is open, and no lock is in the way. -/
structure Ready (i : Nat) (s : Server D) : Prop where
  closed : Closed i s
  alive : (s.conns i).alive = true
  free : ∀ r, s.free i r = true

theorem ready_idle (db : D.Db) (now next : Int) : Ready i (Server.idle db now next) :=
  ⟨⟨rfl, rfl⟩, rfl, fun _ => rfl⟩

/-- After a statement with autocommit on. -/
def autocommitted (s : Server D) (i : Nat) (st : D.Stmt) : Server D := (s.record i (s.effect i st)).publish i

theorem Ready.effect (h : Ready i s) (st : D.Stmt) : s.effect i st = D.effect st s.now s.next s.db := by
  rw [Server.effect, view, h.closed.pending, applyAll_nil]

theorem Ready.autocommitted (h : Ready i s) (st : D.Stmt) : Ready i (s.autocommitted i st) := by
  refine ⟨⟨?_, ?_⟩, ?_, fun r => ?_⟩
  · simpa [Server.autocommitted] using h.closed.autocommit
  · simp [Server.autocommitted]
  · simpa [Server.autocommitted] using h.alive
  · have hfree := h.free r
    let owned := (s.record i (s.effect i st)).owner r
    have howner : (s.autocommitted i st).owner r = if owned = some i then none else owned := rfl
    have howned : owned = if r ∈ (s.effect i st).locks then some i else s.owner r := rfl
    unfold Server.free at hfree ⊢
    rw [howner, howned]
    split
    · simp
    · split
      · simp
      · exact hfree

@[simp] theorem autocommitted_now (st : D.Stmt) : (s.autocommitted i st).now = s.now := rfl

theorem Ready.autocommitted_db (h : Ready i s) (st : D.Stmt) :
    (s.autocommitted i st).db = writeAll (D.effect st s.now s.next s.db).writes s.db := by
  rw [Server.autocommitted, publish_db, record_conn, h.closed.pending, record_db, h.effect, List.nil_append,
    applyAll_eq, tag, map_write_mk]

def respond (i : Nat) (c : Call D) (s : Server D) : Except SqlException c.Reply × Server D :=
  match s.answer i c with
  | some (r, s') => (.ok r, s')
  | none => (.error ⟨0, ""⟩, s)

def counts (counted : D.Stmt → Bool) : Call D → Bool
  | .exec st => counted st
  | _ => false

/-- Of the statements that `counted` tells, each fails as `outcomes` says of its number, and leaves nothing
behind. -/
def env (i : Nat) (counted : D.Stmt → Bool) (outcomes : Nat → Option SqlException) :
    Env (Sql D) (Server D × Nat) := fun c (s, k) =>
  if counts counted c then
    match outcomes k with
    | some e => (.error e, s, k + 1)
    | none => ((s.respond i c).1, (s.respond i c).2, k + 1)
  else ((s.respond i c).1, (s.respond i c).2, k)

variable {counted : D.Stmt → Bool} {outcomes : Nat → Option SqlException} {t : σ} {k : Nat} {st : D.Stmt}

theorem Ready.respond_exec (h : Ready i s) (st : D.Stmt) :
    s.respond i (.exec st) = (.ok (D.effect st s.now s.next s.db).reply, s.record i (s.effect i st)) := by
  have hfree : (s.effect i st).locks.all (s.free i) = true := List.all_eq_true.mpr fun r _ => h.free r
  have hanswer : s.answer i (.exec st) = some ((s.effect i st).reply, s.record i (s.effect i st)) := if_pos hfree
  unfold respond
  rw [hanswer, h.effect st]

theorem Ready.play_finish (h : Ready i s) (st : D.Stmt) (r : D.Reply st) :
    (do Act.call (I := Sql D) Call.finish; pure r : Act (Sql D) σ _).play (env i counted outcomes) t
      (s.record i (s.effect i st), k) = ((.ok r, t), s.autocommitted i st, k) := by
  have hfinish : env i counted outcomes Call.finish (s.record i (s.effect i st), k) =
      (.ok (), s.autocommitted i st, k) := by
    simp [env, counts, respond, answer, h.closed.autocommit, Server.autocommitted]
  exact Act.play_call_bind hfinish

theorem Ready.play_execute (h : Ready i s) (hst : counted st = false) :
    (execute st : Act (Sql D) σ _).play (env i counted outcomes) t (s, k) =
      ((.ok (D.effect st s.now s.next s.db).reply, t), s.autocommitted i st, k) := by
  have hexec : env i counted outcomes (Call.exec st) (s, k) =
      (.ok (D.effect st s.now s.next s.db).reply, s.record i (s.effect i st), k) := by
    simp [env, counts, hst, h.respond_exec]
  exact (Act.play_call_bind hexec).trans (h.play_finish st _)

theorem Ready.play_counted (h : Ready i s) (hst : counted st = true) (hk : outcomes k = none) :
    (execute st : Act (Sql D) σ _).play (env i counted outcomes) t (s, k) =
      ((.ok (D.effect st s.now s.next s.db).reply, t), s.autocommitted i st, k + 1) := by
  have hexec : env i counted outcomes (Call.exec st) (s, k) =
      (.ok (D.effect st s.now s.next s.db).reply, s.record i (s.effect i st), k + 1) := by
    simp [env, counts, hst, hk, h.respond_exec]
  exact (Act.play_call_bind hexec).trans (h.play_finish st _)

theorem play_fails {e : SqlException} (hst : counted st = true) (hk : outcomes k = some e) :
    (execute st : Act (Sql D) σ _).play (env i counted outcomes) t (s, k) = ((.error e, t), s, k + 1) := by
  have hexec : env i counted outcomes (Call.exec st) (s, k) = (.error e, s, k + 1) := by
    simp [env, counts, hst, hk]
  exact Act.play_call_bind_error hexec

/-! ## A transaction on its own -/

/-- The transaction has written `ws`, and no lock is in its way. -/
structure Writing (i : Nat) (ws : List D.Write) (s : Server D) : Prop where
  autocommit : (s.conns i).autocommit = false
  pending : (s.conns i).pending.map Entry.write = ws
  free : ∀ r, s.free i r = true

variable {ws : List D.Write}

theorem Writing.effect (h : Writing i ws s) (st : D.Stmt) :
    s.effect i st = D.effect st s.now s.next (writeAll ws s.db) := by
  rw [Server.effect, view, applyAll_eq, h.pending]

theorem Writing.record (h : Writing i ws s) (st : D.Stmt) :
    Writing i (ws ++ (s.effect i st).writes) (s.record i (s.effect i st)) := by
  refine ⟨?_, ?_, fun r => ?_⟩
  · simpa using h.autocommit
  · rw [record_conn, List.map_append, h.pending, tag, map_write_mk]
  · have hfree := h.free r
    unfold Server.free at hfree ⊢
    rw [owner_record]
    split
    · simp
    · exact hfree

theorem Ready.opened (h : Ready i s) : Writing i [] (s.setMode i false) :=
  ⟨by simp, by simp [h.closed.pending], h.free⟩

abbrev calm (i : Nat) : Env (Sql D) (Server D × Nat) := env i (fun _ => false) fun _ => none

/-- How an action ends when no call fails. -/
def outcome {α : Type} (i : Nat) (x : Act (Sql D) σ α) (t : σ) (s : Server D) : Except SqlException α :=
  (x.play (calm i) t (s, 0)).1.1

section Outcome

variable {α β : Type}

@[simp] theorem outcome_pure (a : α) : outcome i (pure a : Act (Sql D) σ α) t s = .ok a := rfl

@[simp] theorem outcome_throw (e : SqlException) : outcome i (throw e : Act (Sql D) σ α) t s = .error e := rfl

theorem outcome_set {t' : σ} {f : PUnit → Act (Sql D) σ β} : outcome i (set t' >>= f) t s = outcome i (f ⟨⟩) t' s := rfl

theorem outcome_open {f : Unit → Act (Sql D) σ β} :
    outcome i (Act.call (I := Sql D) (Call.setAutoCommit false) >>= f) t s = outcome i (f ()) t (s.setMode i false) := by
  have hopen : calm i (Call.setAutoCommit false) (s, 0) = (.ok (), s.setMode i false, 0) := rfl
  have hplay : (Act.call (I := Sql D) (Call.setAutoCommit false) >>= f).play (calm i) t (s, 0) =
      (f ()).play (calm i) t (s.setMode i false, 0) := Act.play_call_bind hopen
  exact congrArg (fun r => r.1.1) hplay

theorem Writing.outcome_execute (h : Writing i ws s) {f : D.Reply st → Act (Sql D) σ β} :
    outcome i (execute st >>= f) t s =
      outcome i (f (D.effect st s.now s.next (writeAll ws s.db)).reply) t (s.record i (s.effect i st)) := by
  have hfree : (s.effect i st).locks.all (s.free i) = true := List.all_eq_true.mpr fun r _ => h.free r
  have hanswer : s.answer i (.exec st) = some ((s.effect i st).reply, s.record i (s.effect i st)) := if_pos hfree
  have hexec : calm i (Call.exec st) (s, 0) = (.ok (s.effect i st).reply, s.record i (s.effect i st), 0) := by
    simp [env, counts, respond, hanswer]
  have hfinish : calm i Call.finish (s.record i (s.effect i st), 0) = (.ok (), s.record i (s.effect i st), 0) := by
    simp [env, counts, respond, answer, h.autocommit]
  have hplay : (execute st : Act (Sql D) σ _).play (calm i) t (s, 0) =
      ((.ok (s.effect i st).reply, t), s.record i (s.effect i st), 0) :=
    (Act.play_call_bind hexec).trans (Act.play_call_bind hfinish)
  unfold outcome
  rw [← h.effect st, Act.play_bind hplay]

theorem Writing.outcome_checked (h : Writing i ws s) {c : D.Reply st → Prop} {hc : DecidablePred c}
    {e : SqlException} {f : Act (Sql D) σ β} :
    outcome i (execute st >>= fun r => if c r then throw e else f) t s =
      if c (D.effect st s.now s.next (writeAll ws s.db)).reply then .error e
      else outcome i f t (s.record i (s.effect i st)) := by
  rw [h.outcome_execute]
  split <;> rfl

end Outcome

end Server

end Lib
