import J1Server.Lib.Prog
import Mathlib.Logic.Function.Basic
import Mathlib.Data.List.Basic
import Mathlib.Tactic.Tauto

/-!
# A transactional store

A database server with any number of connections. A transaction keeps its
writes to itself until it commits, and holds a lock on every row it touches
until it ends. With autocommit on, each statement is a transaction of its own:
`finish` is the end of the statement on the server. Any call may throw, and
`Harm` says what the failed call leaves behind.
-/

namespace Lib

/-- What a statement answers, writes and locks, and the counter after it. -/
structure Effect (Reply Write Row : Type) where
  reply : Reply
  writes : List Write
  locks : List Row
  next : Int

/-- The tables and statements of one database, with one `AUTO_INCREMENT` counter. -/
structure Schema where
  Db : Type
  Row : Type
  Val : Type
  Write : Type
  Stmt : Type
  Reply : Stmt → Type
  apply : Write → Db → Db
  look : Row → Db → Val
  /-- The row a write changes. Rows added to a log have no name. -/
  row? : Write → Option Row
  /-- The new key a write uses up. -/
  newId? : Write → Option Int
  effect : (st : Stmt) → (now next : Int) → Db → Effect (Reply st) Write Row
  decRow : DecidableEq Row

instance (D : Schema) : DecidableEq D.Row := D.decRow

/-- A write changes its own row only, and a statement locks what it writes. -/
structure Schema.Lawful (D : Schema) : Prop where
  look_other : ∀ w r db, D.row? w ≠ some r → D.look r (D.apply w db) = D.look r db
  look_congr : ∀ w r db db', D.look r db = D.look r db' →
    D.look r (D.apply w db) = D.look r (D.apply w db')
  locked : ∀ st now next db, ∀ w ∈ (D.effect st now next db).writes, ∀ r, D.row? w = some r →
    r ∈ (D.effect st now next db).locks
  next_le : ∀ st now next db, next ≤ (D.effect st now next db).next
  newId_new : ∀ st now next db, ∀ w ∈ (D.effect st now next db).writes, ∀ k, D.newId? w = some k →
    next ≤ k ∧ k < (D.effect st now next db).next
  newId_once : ∀ st now next db, ((D.effect st now next db).writes.filterMap D.newId?).Nodup

structure SqlException where
  code : Int
  what : String

/-- What a call that throws leaves behind. -/
inductive Harm
  /-- Nothing happened, and the connection can be used. -/
  | refused
  /-- The server rolled the transaction back. -/
  | aborted
  /-- The connection is gone, and its transaction with it. -/
  | lost
  /-- The call took effect, and then the connection was gone. -/
  | replyLost
  deriving DecidableEq

structure Fault where
  harm : Harm
  exc : SqlException

variable {D : Schema}

/-- A write, the connection that made it and the task it made it for. -/
structure Entry (D : Schema) where
  conn : Nat
  task : Nat
  write : D.Write

structure Conn (D : Schema) where
  autocommit : Bool := true
  alive : Bool := true
  task : Nat := 0
  pending : List (Entry D) := []

/-- The server. `history` lists every write committed so far, oldest first. -/
structure Server (D : Schema) where
  db : D.Db
  now : Int
  next : Int
  conns : Nat → Conn D
  owner : D.Row → Option Nat
  history : List (Entry D)

inductive Call (D : Schema)
  | setAutoCommit (on : Bool)
  | commit
  | rollback
  | exec (st : D.Stmt)
  | finish

def Call.Reply : Call D → Type
  | .exec st => D.Reply st
  | _ => Unit

abbrev Sql (D : Schema) : Iface := ⟨Call D, Call.Reply, SqlException⟩

def applyAll (es : List (Entry D)) (db : D.Db) : D.Db := es.foldl (fun db e => D.apply e.write db) db

@[simp] theorem applyAll_nil (db : D.Db) : applyAll [] db = db := rfl

theorem applyAll_append (es fs : List (Entry D)) (db : D.Db) :
    applyAll (es ++ fs) db = applyAll fs (applyAll es db) := List.foldl_append

namespace Server

def idle (db : D.Db) (now next : Int) : Server D where
  db := db
  now := now
  next := next
  conns _ := {}
  owner _ := none
  history := []

def setConn (s : Server D) (i : Nat) (c : Conn D) : Server D :=
  { s with conns := Function.update s.conns i c }

def release (s : Server D) (i : Nat) : Server D :=
  { s with owner := fun r => if s.owner r = some i then none else s.owner r }

def discard (s : Server D) (i : Nat) : Server D :=
  (s.setConn i { s.conns i with pending := [] }).release i

def hangUp (s : Server D) (i : Nat) : Server D :=
  (s.setConn i { s.conns i with pending := [], alive := false }).release i

def publish (s : Server D) (i : Nat) : Server D :=
  ({ s with db := applyAll (s.conns i).pending s.db, history := s.history ++ (s.conns i).pending }.setConn i
    { s.conns i with pending := [] }).release i

def setMode (s : Server D) (i : Nat) (on : Bool) : Server D :=
  s.setConn i { s.conns i with autocommit := on }

def beginTask (s : Server D) (i : Nat) : Server D :=
  s.setConn i { s.conns i with task := (s.conns i).task + 1 }

def tick (s : Server D) (d : Nat) : Server D := { s with now := s.now + d }

/-- What `i` sees: the committed rows under its own writes. -/
def view (s : Server D) (i : Nat) : D.Db := applyAll (s.conns i).pending s.db

def tag (s : Server D) (i : Nat) (ws : List D.Write) : List (Entry D) :=
  ws.map fun w => ⟨i, (s.conns i).task, w⟩

def record (s : Server D) (i : Nat) {R : Type} (e : Effect R D.Write D.Row) : Server D :=
  { s with
    next := e.next
    conns := Function.update s.conns i
      { s.conns i with pending := (s.conns i).pending ++ s.tag i e.writes }
    owner := fun r => if r ∈ e.locks then some i else s.owner r }

/-- No other connection holds the row. -/
def free (s : Server D) (i : Nat) (r : D.Row) : Bool := s.owner r = none ∨ s.owner r = some i

/-- A call that succeeds. A statement waits while a row it locks is held by another connection. -/
def answer (s : Server D) (i : Nat) : (c : Call D) → Option (c.Reply × Server D)
  | .setAutoCommit on => some ((), (if on then s.publish i else s).setMode i on)
  | .commit => some ((), s.publish i)
  | .rollback => some ((), s.discard i)
  | .exec st =>
    let e := D.effect st s.now s.next (s.view i)
    if e.locks.all (s.free i) then some (e.reply, s.record i e) else none
  | .finish => some ((), if (s.conns i).autocommit then s.publish i else s)

def isFinish : Call D → Bool
  | .finish => true
  | _ => false

/-- A call that throws. A statement that cannot be finished is undone when it was its own transaction. -/
def fail (s : Server D) (i : Nat) (c : Call D) : Harm → Option (Server D)
  | .refused => some (if isFinish c && (s.conns i).autocommit then s.discard i else s)
  | .aborted => some (s.discard i)
  | .lost => some (s.hangUp i)
  | .replyLost => (s.answer i c).map fun r => r.2.hangUp i

/-- One call of connection `i`, with the fault that befalls it. A dead connection only throws. -/
def perform (i : Nat) (c : Call D) (f : Option Fault) (s : Server D) :
    Option (Except SqlException c.Reply × Server D) :=
  match (s.conns i).alive, f with
  | true, none => (s.answer i c).map fun r => (.ok r.1, r.2)
  | true, some f => (s.fail i c f.harm).map fun s' => (.error f.exc, s')
  | false, some f => some (.error f.exc, s)
  | false, none => none

/-- The call, if `law` allows what befalls it: `law c h` tells whether `c` can fail with harm `h`. -/
def callUnder (law : Call D → Harm → Bool) (i : Nat) (c : Call D) (f : Option Fault) (s : Server D) :
    Option (Except SqlException c.Reply × Server D) :=
  if f.all (fun x => law c x.harm) then perform i c f s else none

theorem callUnder_none {law : Call D → Harm → Bool} {i : Nat} {c : Call D} {s s' : Server D}
    {o : Except SqlException c.Reply} (h : callUnder law i c none s = some (o, s')) : ∃ r, o = .ok r := by
  simp only [callUnder, Option.all_none, if_true, perform] at h
  cases halive : (s.conns i).alive with
  | true =>
    rw [halive] at h
    obtain ⟨⟨r, t⟩, -, heq⟩ := Option.map_eq_some_iff.mp h
    exact ⟨r, (congrArg Prod.fst heq).symm⟩
  | false =>
    rw [halive] at h
    cases h

theorem callUnder_ok {law : Call D → Harm → Bool} {i : Nat} {c : Call D} {f : Option Fault} {s s' : Server D}
    {r : c.Reply} (h : callUnder law i c f s = some (.ok r, s')) : f = none := by
  cases f with
  | none => rfl
  | some x =>
    unfold callUnder at h
    split at h
    · cases halive : (s.conns i).alive <;> simp [perform, halive] at h
    · cases h

def Step (law : Call D → Harm → Bool) (i : Nat) (c : Call D) (s : Server D)
    (o : Except SqlException c.Reply) (s' : Server D) : Prop :=
  ∃ f, (∀ x ∈ f, law c x.harm) ∧ perform i c f s = some (o, s')

theorem callUnder_step {law : Call D → Harm → Bool} {i : Nat} {c : Call D} {f : Option Fault}
    {s s' : Server D} {o : Except SqlException c.Reply} (h : callUnder law i c f s = some (o, s')) :
    Step law i c s o s' := by
  simp only [callUnder] at h
  split at h
  · rename_i hlaw
    refine ⟨f, ?_, h⟩
    rintro x rfl
    exact hlaw
  · cases h

def runAlone {α : Type} (law : Call D → Harm → Bool) (i : Nat) (p : Prog (Sql D) α)
    (faults : List (Option Fault)) (s : Server D) : Option (List (Answered (Sql D)) × α × Server D) :=
  p.eval (callUnder law i) faults s

theorem runAlone_exec {α : Type} {law : Call D → Harm → Bool} {i : Nat} {p : Prog (Sql D) α}
    {faults : List (Option Fault)} {s t : Server D} {tr : List (Answered (Sql D))} {a : α}
    {rely : Server D → Server D → Prop} (hrefl : ∀ s, rely s s)
    (h : runAlone law i p faults s = some (tr, a, t)) : Exec rely (Step law i) p s tr a t :=
  Prog.eval_exec hrefl (fun _ _ _ _ _ hc => callUnder_step hc) h

/-! ## What the operations change -/

section Fields

variable (s : Server D) (i j : Nat)

theorem conns_other {c : Conn D} (h : j ≠ i) : (s.setConn i c).conns j = s.conns j :=
  Function.update_of_ne h _ _

@[simp] theorem conns_self {c : Conn D} : (s.setConn i c).conns i = c := Function.update_self ..

@[simp] theorem setConn_db {c : Conn D} : (s.setConn i c).db = s.db := rfl
@[simp] theorem setConn_history {c : Conn D} : (s.setConn i c).history = s.history := rfl
@[simp] theorem setConn_owner {c : Conn D} : (s.setConn i c).owner = s.owner := rfl
@[simp] theorem setConn_next {c : Conn D} : (s.setConn i c).next = s.next := rfl
@[simp] theorem release_db : (s.release i).db = s.db := rfl
@[simp] theorem release_history : (s.release i).history = s.history := rfl
@[simp] theorem release_conns : (s.release i).conns = s.conns := rfl
@[simp] theorem discard_db : (s.discard i).db = s.db := rfl
@[simp] theorem discard_history : (s.discard i).history = s.history := rfl
@[simp] theorem discard_conn : (s.discard i).conns i = { s.conns i with pending := [] } := by simp [discard]
@[simp] theorem hangUp_db : (s.hangUp i).db = s.db := rfl
@[simp] theorem hangUp_history : (s.hangUp i).history = s.history := rfl
@[simp] theorem hangUp_conn :
    (s.hangUp i).conns i = { s.conns i with pending := [], alive := false } := by simp [hangUp]
@[simp] theorem publish_db : (s.publish i).db = applyAll (s.conns i).pending s.db := rfl
@[simp] theorem publish_history : (s.publish i).history = s.history ++ (s.conns i).pending := rfl
@[simp] theorem publish_conn : (s.publish i).conns i = { s.conns i with pending := [] } := by simp [publish]
@[simp] theorem setMode_db {on : Bool} : (s.setMode i on).db = s.db := rfl
@[simp] theorem setMode_history {on : Bool} : (s.setMode i on).history = s.history := rfl
@[simp] theorem setMode_owner {on : Bool} : (s.setMode i on).owner = s.owner := rfl
@[simp] theorem setMode_next {on : Bool} : (s.setMode i on).next = s.next := rfl
@[simp] theorem setMode_conn {on : Bool} :
    (s.setMode i on).conns i = { s.conns i with autocommit := on } := by simp [setMode]
@[simp] theorem beginTask_db : (s.beginTask i).db = s.db := rfl
@[simp] theorem beginTask_history : (s.beginTask i).history = s.history := rfl
@[simp] theorem beginTask_owner : (s.beginTask i).owner = s.owner := rfl
@[simp] theorem beginTask_next : (s.beginTask i).next = s.next := rfl
@[simp] theorem beginTask_conn :
    (s.beginTask i).conns i = { s.conns i with task := (s.conns i).task + 1 } := by simp [beginTask]

variable {R : Type} (e : Effect R D.Write D.Row)

@[simp] theorem record_db : (s.record i e).db = s.db := rfl
@[simp] theorem record_history : (s.record i e).history = s.history := rfl
@[simp] theorem record_next : (s.record i e).next = e.next := rfl
@[simp] theorem record_now : (s.record i e).now = s.now := rfl
@[simp] theorem record_conn : (s.record i e).conns i =
    { s.conns i with pending := (s.conns i).pending ++ s.tag i e.writes } := by simp [record]

theorem owner_record (r : D.Row) : (s.record i e).owner r = if r ∈ e.locks then some i else s.owner r := rfl

end Fields

end Server

end Lib
