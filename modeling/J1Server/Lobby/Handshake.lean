import J1Server.Lib.Pool
import J1Server.Lobby.TokenTasks

/-! # The token handshake

Sign-ins and token checks run on any number of connections, in any order. A
token that a check accepts was inserted by a sign-in, less than 30 minutes
before, and for an account whose password the sign-in had verified. -/

namespace Lobby

open Lib Lib.Server Core

/-! ## Runs -/

/-- The database that the servers start with, and how its calls can fail. -/
structure Deployment where
  law : Call lobbyDb → Harm → Bool
  bcrypt : BCrypt
  db : Database
  now : Int
  next : Int

abbrev TokenPool := Pool lobbyDb TokenTask TokenResult

namespace Deployment

variable (d : Deployment)

def After (es : List (PoolEvent TokenTask)) (p : TokenPool) : Prop :=
  run (Pool.step d.law (TokenTask.process d.bcrypt)) (Pool.fresh (idle (D := lobbyDb) d.db d.now d.next)) es = some p

/-- After `es`, the next call of `i` is the call `c` of its task. -/
def AboutTo (es : List (PoolEvent TokenTask)) (i : Nat) (task : TokenTask) (c : Call lobbyDb) (p : TokenPool) : Prop :=
  d.After es p ∧ ∃ k, p.jobs i = some ⟨task, .call c k⟩

/-- A sign-in with this id and password inserted the row, at the time `t`. -/
def Inserted (es : List (PoolEvent TokenTask)) (id pw : String) (accountId : Int) (token : String) (t : Int) : Prop :=
  ∃ before i rest p alloc connections first later, es = before ++ .call i none :: rest ∧
    d.AboutTo before i (.login alloc connections id pw first later) (.exec (.insertSession accountId token)) p ∧
    p.server.now = t

/-- A row that a sign-in inserted, 30 minutes before it expires, for an account that it verified. -/
def Issued (es : List (PoolEvent TokenTask)) (row : Session) : Prop :=
  ∃ id pw, d.Inserted es id pw row.accountId row.token (row.expiresAt - 30 * secondsPerMinute) ∧
    Granted d.bcrypt d.db id pw row.accountId

/-- Task `n` of `i` found a row that was issued, and not expired. -/
def Seen (es : List (PoolEvent TokenTask)) (i n : Nat) (task : TokenTask) (accountId : Int) (token : String) : Prop :=
  ∃ before rest p row, es = before ++ .call i none :: rest ∧
    d.AboutTo before i task (.exec (.selectToken accountId token)) p ∧ (p.server.conns i).task = n ∧
    d.Issued before row ∧ row.accountId = accountId ∧ row.token = token ∧ p.server.now < row.expiresAt

variable {d} {es : List (PoolEvent TokenTask)} {e : PoolEvent TokenTask}

theorem Issued.snoc {row : Session} (h : d.Issued es row) (e : PoolEvent TokenTask) : d.Issued (es ++ [e]) row := by
  obtain ⟨id, pw, ⟨before, i, rest, p, alloc, connections, first, later, rfl, habout, ht⟩, hgranted⟩ := h
  refine ⟨id, pw, ⟨before, i, rest ++ [e], p, alloc, connections, first, later, ?_, habout, ht⟩, hgranted⟩
  rw [List.append_assoc, List.cons_append]

theorem Seen.snoc {i n : Nat} {task : TokenTask} {accountId : Int} {token : String}
    (h : d.Seen es i n task accountId token) (e : PoolEvent TokenTask) :
    d.Seen (es ++ [e]) i n task accountId token := by
  obtain ⟨before, rest, p, row, rfl, habout, hn, hissued, hid, htoken, hlive⟩ := h
  refine ⟨before, rest ++ [e], p, row, ?_, habout, hn, hissued, hid, htoken, hlive⟩
  rw [List.append_assoc, List.cons_append]

end Deployment

/-! ## The tables -/

def Account.identity (a : Account) : Account := { a with lastLogin := none }

theorem credentialRow_congr {db db' : Database}
    (h : db'.account.rows.map Account.identity = db.account.rows.map Account.identity) (id : String) :
    credentialRow db' id = credentialRow db id := by
  have through : ∀ db : Database, credentialRow db id =
      ((db.account.rows.map Account.identity).find? fun a => a.isActive ∧ a.userId = id).map
        fun a => (a.accountId, a.userPassword) := by
    intro db
    rw [List.find?_map, Option.map_map]
    rfl
  rw [through, through, h]

namespace Deployment

def Legit (d : Deployment) (es : List (PoolEvent TokenTask)) : Write → Prop
  | .insertSession row => d.Issued es row
  | .updateAccount a => a.identity ∈ d.db.account.rows.map Account.identity
  | _ => False

/-- Tables in which every token was issued, and the accounts are those of the beginning. -/
structure Kept (d : Deployment) (es : List (PoolEvent TokenTask)) (db : Database) : Prop where
  sessions : ∀ row ∈ db.sessions, d.Issued es row
  accounts : db.account.rows.map Account.identity = d.db.account.rows.map Account.identity

variable {d : Deployment} {es : List (PoolEvent TokenTask)} {e : PoolEvent TokenTask} {db : Database}

theorem Legit.snoc {w : Write} (h : d.Legit es w) (e : PoolEvent TokenTask) : d.Legit (es ++ [e]) w := by
  cases w with
  | insertSession row => exact Issued.snoc h e
  | updateAccount a => exact h
  | _ => exact h

theorem Kept.snoc (h : d.Kept es db) (e : PoolEvent TokenTask) : d.Kept (es ++ [e]) db :=
  ⟨fun row hrow => (h.sessions row hrow).snoc e, h.accounts⟩

theorem Kept.apply (h : d.Kept es db) {w : Write} (hw : d.Legit es w) : d.Kept es (w.apply db) := by
  cases w with
  | insertSession row =>
    refine ⟨fun x hx => ?_, h.accounts⟩
    rcases List.mem_append.mp hx with hx | hx
    · exact h.sessions x hx
    · obtain rfl := List.mem_singleton.mp hx
      exact hw
  | updateAccount a =>
    refine ⟨h.sessions, ?_⟩
    have hmem : a.identity ∈ db.account.rows.map Account.identity := by
      rw [h.accounts]
      exact hw
    obtain ⟨x, hx, hidentity⟩ := List.mem_map.mp hmem
    rw [← h.accounts]
    change (Table.replaceRows Account.accountId a db.account.rows).map Account.identity = _
    rw [Table.replaceRows, List.map_map]
    apply List.map_congr_left
    intro y hy
    simp only [Function.comp_apply]
    split
    · rename_i hkey
      -- The row that is replaced is the account itself.
      have hyx : y = x := List.inj_on_of_nodup_map db.account.nodup hy hx
        (hkey.trans (congrArg Account.accountId hidentity).symm)
      rw [hyx, hidentity]
    · rfl
  | _ => exact hw.elim

theorem Kept.applyAll {entries : List (Entry lobbyDb)} (h : d.Kept es db) (hw : ∀ x ∈ entries, d.Legit es x.write) :
    d.Kept es (applyAll entries db) := by
  induction entries generalizing db with
  | nil => exact h
  | cons x entries ih => exact ih (h.apply (hw x List.mem_cons_self)) fun y hy => hw y (List.mem_cons_of_mem _ hy)

/-! ## What holds after every run -/

/-- Every task keeps to its calls, with the tokens that it has seen; what is committed and what is pending
was issued. -/
structure Sound (d : Deployment) (es : List (PoolEvent TokenTask)) (p : TokenPool) : Prop where
  jobs : ∀ i job, p.jobs i = some job → ∀ seen : Int → String → Prop,
    (∀ accountId token, d.Seen es i (p.server.conns i).task job.task accountId token → seen accountId token) →
      job.rest.Guided (Answers d.db seen) (job.task.Allowed d.bcrypt d.db) (job.task.Backed seen)
  finished : ∀ x ∈ p.finished, x.task.Backed (d.Seen es x.conn x.no x.task) x.result
  pending : ∀ i, ∀ x ∈ (p.server.conns i).pending, d.Legit es x.write
  tables : d.Kept es p.server.db

theorem Backed.mono {task : TokenTask} {seen seen' : Int → String → Prop} {r : TokenResult}
    (h : task.Backed seen r) (hseen : ∀ accountId token, seen accountId token → seen' accountId token) :
    task.Backed seen' r := by
  cases task with
  | login => exact h
  | checkTokenvalid alloc connections pkt => exact fun hr => hseen _ _ (h hr)

variable {p q : TokenPool} {i : Nat}

theorem Sound.view (h : d.Sound es p) (i : Nat) : d.Kept es (p.server.view i) := h.tables.applyAll (h.pending i)

theorem Sound.writes (h : d.Sound es p) {task : TokenTask} {st : Stmt} {w : Write}
    (habout : d.AboutTo es i task (.exec st) p) (hallowed : task.Allowed d.bcrypt d.db (.exec st))
    (hw : w ∈ (st.effect p.server.now p.server.next (p.server.view i)).writes) :
    d.Legit (es ++ [.call i none]) w := by
  cases task with
  | checkTokenvalid alloc connections pkt =>
    cases st with
    | selectToken accountId token => cases hw
    | _ => exact hallowed.elim
  | login alloc connections id pw first later =>
    cases st with
    | selectAccount user => cases hw
    | insertSession accountId token =>
      obtain rfl := List.mem_singleton.mp hw
      refine ⟨id, pw, ⟨es, i, [], p, alloc, connections, first, later, rfl, habout, ?_⟩, hallowed⟩
      dsimp only
      omega
    | updateLastLogin user =>
      obtain ⟨a, ha, rfl⟩ := List.mem_map.mp hw
      have hrow : a ∈ (p.server.view i).account.rows := (List.mem_filter.mp (List.mem_filter.mp ha).1).1
      have hmem : a.identity ∈ d.db.account.rows.map Account.identity := by
        rw [← (h.view i).accounts]
        exact List.mem_map_of_mem hrow
      exact hmem
    | _ => exact hallowed.elim

theorem Sound.answers (h : d.Sound es p) {task : TokenTask} {st : Stmt} {seen : Int → String → Prop}
    (habout : d.AboutTo es i task (.exec st) p)
    (hseen : ∀ accountId token, d.Seen (es ++ [.call i none]) i (p.server.conns i).task task accountId token →
      seen accountId token) :
    Answers d.db seen (.exec st) (.ok (st.effect p.server.now p.server.next (p.server.view i)).reply) := by
  cases st with
  | selectAccount id => exact credentialRow_congr (h.view i).accounts id
  | selectToken accountId token =>
    intro hfound
    obtain ⟨row, hrow, hmatch⟩ := List.any_eq_true.mp hfound
    obtain ⟨hid, htoken, hlive⟩ := of_decide_eq_true hmatch
    exact hseen _ _ ⟨es, [], p, row, rfl, habout, rfl, (h.view i).sessions row hrow, hid, htoken, hlive⟩
  | _ => trivial

/-- A step of one worker: what is left to say is what becomes of its job and its connection. -/
theorem Sound.worked (h : d.Sound es p) (hjobs : ∀ j, j ≠ i → q.jobs j = p.jobs j)
    (hothers : ∀ j, j ≠ i → q.server.conns j = p.server.conns j)
    (hjob : ∀ job, q.jobs i = some job → ∀ seen : Int → String → Prop,
      (∀ accountId token, d.Seen (es ++ [e]) i (q.server.conns i).task job.task accountId token → seen accountId token) →
        job.rest.Guided (Answers d.db seen) (job.task.Allowed d.bcrypt d.db) (job.task.Backed seen))
    (hfinished : ∀ x ∈ q.finished, x ∈ p.finished ∨ x.task.Backed (d.Seen es x.conn x.no x.task) x.result)
    (hpending : ∀ x ∈ (q.server.conns i).pending, d.Legit (es ++ [e]) x.write)
    (htables : d.Kept (es ++ [e]) q.server.db) : d.Sound (es ++ [e]) q := by
  refine ⟨fun j job hj seen hseen => ?_, fun x hx => ?_, fun j x hx => ?_, htables⟩
  · by_cases hji : j = i
    · subst hji
      exact hjob job hj seen hseen
    · rw [hjobs j hji] at hj
      rw [hothers j hji] at hseen
      exact h.jobs j job hj seen fun _ _ hx => hseen _ _ (hx.snoc _)
  · exact Backed.mono ((hfinished x hx).elim (h.finished x) id) fun _ _ hx' => hx'.snoc _
  · by_cases hji : j = i
    · subst hji
      exact hpending x hx
    · rw [hothers j hji] at hx
      exact (h.pending j x hx).snoc _

theorem Sound.call (h : d.Sound es p) (hafter : d.After es p) {fault : Option Fault}
    (he : Pool.step d.law (TokenTask.process d.bcrypt) p (.call i fault) = some q) :
    d.Sound (es ++ [.call i fault]) q := by
  obtain ⟨task, c, k, o, s', hj, hcall, rfl⟩ := Pool.step_called he
  have hs := callUnder_step hcall
  have habout : d.AboutTo es i task c p := ⟨hafter, k, hj⟩
  have hallowed : task.Allowed d.bcrypt d.db c := (h.jobs i _ hj _ fun _ _ hseen => hseen).1
  have hanswer : ∀ seen : Int → String → Prop, (∀ accountId token,
      d.Seen (es ++ [.call i fault]) i (p.server.conns i).task task accountId token → seen accountId token) →
      Answers d.db seen c o := by
    intro seen hseen
    cases o with
    | error x => exact answers_error c x
    | ok r =>
      obtain rfl := callUnder_ok hcall
      cases c with
      | exec st =>
        rcases hs.exec lobbyDb_lawful with ⟨hr, -⟩ | ⟨x, hr, -⟩
        · obtain rfl := Except.ok.inj hr
          exact h.answers habout hseen
        · cases hr
      | _ => trivial
  have hmoved := hs.moved lobbyDb_lawful
  refine h.worked (i := i) (fun j hji => Function.update_of_ne hji ..) hmoved.others ?_ (fun x hx => Or.inl hx) ?_ ?_
  · intro job hjob seen hseen
    dsimp only at hjob hseen
    rw [Function.update_self] at hjob
    obtain rfl := Option.some.inj hjob
    rw [hs.task] at hseen
    exact (h.jobs i _ hj seen fun _ _ hx => hseen _ _ (hx.snoc _)).2 o (hanswer seen hseen)
  · intro x hx
    rcases hs.pending hx with hx | ⟨st, rfl, hok, -, hw⟩
    · exact (h.pending i x hx).snoc _
    · cases o with
      | ok r =>
        obtain rfl := callUnder_ok hcall
        exact h.writes habout hallowed hw
      | error x => cases hok
  · dsimp only
    rcases hmoved.log with ⟨-, hdb⟩ | ⟨-, hdb⟩
    · rw [hdb]
      exact h.tables.snoc _
    · rw [hdb]
      exact (h.view i).snoc _

theorem Sound.start (h : d.Sound es p) {task : TokenTask}
    (he : Pool.step d.law (TokenTask.process d.bcrypt) p (.start i task) = some q) :
    d.Sound (es ++ [.start i task]) q := by
  obtain ⟨-, rfl⟩ := Pool.step_start he
  refine h.worked (i := i) (fun j hji => Function.update_of_ne hji ..) (moved_beginTask i p.server).others ?_
    (fun x hx => Or.inl hx) ?_ (h.tables.snoc _)
  · intro job hjob seen hseen
    dsimp only at hjob
    rw [Function.update_self] at hjob
    obtain rfl := Option.some.inj hjob
    exact process_guided task
  · intro x hx
    exact (h.pending i x (by simpa using hx)).snoc _

theorem Sound.finish (h : d.Sound es p)
    (he : Pool.step d.law (TokenTask.process d.bcrypt) p (.finish i) = some q) : d.Sound (es ++ [.finish i]) q := by
  obtain ⟨task, r, hj, rfl⟩ := Pool.step_finish he
  refine h.worked (i := i) (fun j hji => Function.update_of_ne hji ..) (fun j _ => rfl) ?_ ?_
    (fun x hx => (h.pending i x hx).snoc _) (h.tables.snoc _)
  · intro job hjob seen hseen
    dsimp only at hjob
    rw [Function.update_self] at hjob
    cases hjob
  · intro x hx
    rcases List.mem_append.mp hx with hx | hx
    · exact Or.inl hx
    · obtain rfl := List.mem_singleton.mp hx
      exact Or.inr (h.jobs i _ hj _ fun _ _ hx' => hx')

theorem sound_fresh (hdb : d.db.sessions = []) :
    d.Sound [] (Pool.fresh (idle (D := lobbyDb) d.db d.now d.next)) := by
  have hnone : ∀ row, row ∉ d.db.sessions := by simp [hdb]
  exact ⟨by simp [Pool.fresh], by simp [Pool.fresh], by simp [Pool.fresh, idle],
    fun row hrow => absurd hrow (hnone row), rfl⟩

theorem sound_run (hdb : d.db.sessions = []) (hrun : d.After es p) : d.Sound es p := by
  refine run_recorded (P := d.Sound) (sound_fresh hdb) ?_ hrun
  intro sofar p e q hafter h he
  cases e with
  | start i task => exact h.start he
  | call i fault => exact h.call hafter he
  | finish i => exact h.finish he
  | tick seconds =>
    obtain rfl := Option.some.inj he
    refine ⟨fun j job hjob seen hseen => h.jobs j job hjob seen fun _ _ hx => hseen _ _ (hx.snoc _),
      fun x hx => Backed.mono (h.finished x hx) fun _ _ hx' => hx'.snoc _, fun j x hx => (h.pending j x hx).snoc _,
      h.tables.snoc _⟩

theorem Inserted.granted (hdb : d.db.sessions = []) {id pw token : String} {accountId t : Int}
    (h : d.Inserted es id pw accountId token t) : Granted d.bcrypt d.db id pw accountId := by
  obtain ⟨before, i, rest, p, alloc, connections, first, later, -, ⟨hafter, k, hj⟩, -⟩ := h
  exact ((sound_run hdb hafter).jobs i _ hj (fun _ _ => True) fun _ _ _ => trivial).1

end Deployment

/-! ## Tokens that are accepted -/

/-- The id is that of the account: whoever is issued a token under its low 32 bits signed in to the account
with exactly this id. -/
def Plain (d : Deployment) (id : Nat) : Prop :=
  ∀ user pw, Granted d.bcrypt d.db user pw (toInt32 id) →
    toInt32 id = id ∧ ∃ account, activeAccount d.db user = some account ∧ account.accountId = id

/-- With account ids that fit an `int`, ids below `2 ^ 31` are plain. -/
theorem plain_of_lt {d : Deployment} (hids : ∀ a ∈ d.db.account.rows, toInt32 a.accountId = a.accountId) {id : Nat}
    (hid : id < 2 ^ 31) : Plain d id := by
  intro user pw hgranted
  have hint : toInt32 id = id := (toInt32_eq_iff id).mpr (by omega)
  refine ⟨hint, ?_⟩
  obtain ⟨-, heq⟩ := hgranted
  rw [hint] at heq
  unfold credentialRow at heq
  cases hfound : activeAccount d.db user with
  | none =>
    rw [hfound] at heq
    have hminus : (-1 : Int) = id := heq
    omega
  | some account =>
    rw [hfound] at heq
    have heq' : toInt32 account.accountId = id := heq
    refine ⟨account, rfl, ?_⟩
    rw [← heq', hids account (List.mem_of_find?_eq_some hfound)]

/-- Any sign-ins and token checks, in any order and with any faults. A check that accepts a plain id had at
that moment a row of exactly this id and token, which a sign-in had inserted less than 30 minutes before
for the account with this id, whose password it had verified. -/
theorem accepted_token_issued {d : Deployment} (hdb : d.db.sessions = []) {es : List (PoolEvent TokenTask)}
    {q : TokenPool} (hrun : d.After es q) {x : Finished TokenTask TokenResult} (hx : x ∈ q.finished)
    {alloc : Allocation} {connections : ConnectionPool} {pkt : ReqCheckTokenvalid}
    (htask : x.task = .checkTokenvalid alloc connections pkt) (haccepts : x.result.accepts = true)
    (hplain : Plain d pkt.id) :
    ∃ before rest p user pw account t, es = before ++ .call x.conn none :: rest ∧
      d.AboutTo before x.conn x.task (.exec (.selectToken pkt.id pkt.token)) p ∧ (p.server.conns x.conn).task = x.no ∧
      d.Inserted before user pw pkt.id pkt.token t ∧ p.server.now < t + 30 * secondsPerMinute ∧
      activeAccount d.db user = some account ∧ account.accountId = pkt.id ∧
      d.bcrypt.validatePassword pw account.userPassword = true := by
  have hbacked := (Deployment.sound_run hdb hrun).finished x hx
  have hseen : d.Seen es x.conn x.no x.task (toInt32 pkt.id) pkt.token := by
    rw [htask] at hbacked ⊢
    exact hbacked haccepts
  obtain ⟨before, rest, p, row, hes, habout, hno, ⟨user, pw, hinserted, hgranted⟩, hid, htoken, hlive⟩ := hseen
  rw [hid] at hinserted hgranted
  rw [htoken] at hinserted
  obtain ⟨hint, account, hfound, haccount⟩ := hplain user pw hgranted
  rw [hint] at habout hinserted
  refine ⟨before, rest, p, user, pw, account, _, hes, habout, hno, hinserted, by omega, hfound, haccount, ?_⟩
  obtain ⟨hvalid, -⟩ := hgranted
  unfold credentialRow at hvalid
  rwa [hfound] at hvalid

/-! ## An id of 33 bits -/

def sampleDeployment : Deployment where
  law _ _ := true
  bcrypt := ⟨fun pw hash => pw = hash, fun pw => pw⟩
  db := ⟨⟨[⟨7, "kim", "secret", true, none, 0⟩], List.nodup_singleton _⟩, [], Table.empty, 1, 0, [], [], []⟩
  now := 100
  next := 8

/-- A sign-in of account 7, and nearly 30 minutes later a check of its token under another id. -/
def checkedAs (id : Nat) : List (PoolEvent TokenTask) :=
  .start 0 (.login {} ⟨[0], []⟩ "kim" "secret" "5f" []) :: List.replicate 6 (.call 0 none) ++
    [.finish 0, .tick 1799, .start 1 (.checkTokenvalid {} ⟨[1], []⟩ ⟨id, "5f"⟩), .call 1 none, .call 1 none, .finish 1]

/-- A check that is finished, and whether it accepted. -/
def checkOf (x : Finished TokenTask TokenResult) : Option (Nat × String × Bool) :=
  match x.task with
  | .checkTokenvalid _ _ pkt => some (pkt.id, pkt.token, x.result.accepts)
  | .login .. => none

theorem checkOf_eq {x : Finished TokenTask TokenResult} {id : Nat} {token : String} {ok : Bool}
    (h : checkOf x = some (id, token, ok)) :
    ∃ alloc connections, x.task = .checkTokenvalid alloc connections ⟨id, token⟩ ∧ x.result.accepts = ok := by
  unfold checkOf at h
  split at h
  · rename_i alloc connections pkt htask
    simp only [Option.some.injEq, Prod.mk.injEq] at h
    obtain ⟨rfl, rfl, hok⟩ := h
    exact ⟨alloc, connections, htask, hok⟩
  · cases h

theorem checked_as (id : Nat) (h : (run (Pool.step sampleDeployment.law (TokenTask.process sampleDeployment.bcrypt))
      (Pool.fresh (idle (D := lobbyDb) sampleDeployment.db 100 8)) (checkedAs id)).map
      (fun q => q.finished.map checkOf) = some [none, some (id, "5f", true)]) :
    ∃ q x, sampleDeployment.After (checkedAs id) q ∧ x ∈ q.finished ∧ ∃ alloc connections,
      x.task = .checkTokenvalid alloc connections ⟨id, "5f"⟩ ∧ x.result.accepts = true := by
  obtain ⟨q, hq, hchecks⟩ := Option.map_eq_some_iff.mp h
  have hmem : some (id, "5f", true) ∈ q.finished.map checkOf := by simp [hchecks]
  obtain ⟨x, hx, hcheck⟩ := List.mem_map.mp hmem
  exact ⟨q, x, hq, hx, checkOf_eq hcheck⟩

theorem accepted_token_issued_sample : ∃ q x, sampleDeployment.After (checkedAs 7) q ∧ x ∈ q.finished ∧
    x.result.accepts = true ∧ ∃ before user pw t, sampleDeployment.Inserted before user pw 7 "5f" t := by
  obtain ⟨q, x, hq, hx, alloc, connections, htask, haccepts⟩ := checked_as 7 (by decide)
  have hplain : Plain sampleDeployment 7 := by
    refine plain_of_lt (fun a ha => ?_) (by omega)
    obtain rfl := List.mem_singleton.mp ha
    rfl
  obtain ⟨before, -, -, user, pw, -, t, -, -, -, hinserted, -⟩ :=
    accepted_token_issued rfl hq hx htask haccepts hplain
  exact ⟨q, x, hq, hx, haccepts, before, user, pw, t, hinserted⟩

/-- `int id` drops the upper half: account 7 is accepted under an id for which nobody ever got a token. -/
theorem wide_id_accepted : ∃ q x, sampleDeployment.After (checkedAs (7 + 2 ^ 32)) q ∧ x ∈ q.finished ∧
    (∃ alloc connections, x.task = .checkTokenvalid alloc connections ⟨7 + 2 ^ 32, "5f"⟩) ∧ x.result.accepts = true ∧
    ∀ before user pw token t, ¬sampleDeployment.Inserted before user pw ((7 + 2 ^ 32 : Nat) : Int) token t := by
  obtain ⟨q, x, hq, hx, alloc, connections, htask, haccepts⟩ := checked_as (7 + 2 ^ 32) (by decide)
  refine ⟨q, x, hq, hx, ⟨alloc, connections, htask⟩, haccepts, fun before user pw token t hinserted => ?_⟩
  have hid := (Deployment.Inserted.granted rfl hinserted).2
  have hint : (credentialsOf (credentialRow sampleDeployment.db user)).1 < 2 ^ 31 := by
    unfold credentialsOf
    split
    · exact (toInt32_bounds _).2
    · decide
  rw [hid] at hint
  omega

end Lobby
