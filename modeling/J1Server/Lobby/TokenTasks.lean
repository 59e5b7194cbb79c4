import J1Server.Lobby.Handlers

/-! # Sign-ins and token checks

The two requests that a token passes through: the LoginServer issues it, the
GameServer checks it. What each of them calls, as far as the answers decide it. -/

namespace Lobby

open Lib Core

/-! ## The requests -/

inductive TokenTask
  | login (alloc : Allocation) (connections : ConnectionPool) (id pw token : String) (tokens : List String)
  | checkTokenvalid (alloc : Allocation) (connections : ConnectionPool) (pkt : ReqCheckTokenvalid)

inductive TokenResult
  | login (result : Except SqlException (Option ResLogin))
  | checkTokenvalid (result : Except SqlException (Option Response))

def TokenTask.process (b : BCrypt) : TokenTask → Prog (Sql lobbyDb) TokenResult
  | .login alloc connections id pw token tokens => do
    let r ← (handleReqLogin b alloc id pw token tokens).prog connections
    pure (.login r.1)
  | .checkTokenvalid alloc connections pkt => do
    let r ← (handleReqCheckTokenvalid alloc pkt).prog connections
    pure (.checkTokenvalid r.1)

def TokenResult.accepts : TokenResult → Bool
  | .checkTokenvalid (.ok (some (.checkTokenvalid result))) => result
  | _ => false

/-! ## What a password proves -/

def credentialRow (db : Database) (id : String) : Option (Int × String) :=
  (activeAccount db id).map fun a => (a.accountId, a.userPassword)

/-- `TrySignIn` inserts a token for `accountId` when it is given this id and password. -/
def Granted (b : BCrypt) (db : Database) (id pw : String) (accountId : Int) : Prop :=
  b.validatePassword pw (credentialsOf (credentialRow db id)).2 = true ∧
    (credentialsOf (credentialRow db id)).1 = accountId

def TokenTask.Allowed (b : BCrypt) (db : Database) : TokenTask → Call lobbyDb → Prop
  | _, .finish => True
  | .login .., .exec (.selectAccount _) => True
  | .login _ _ id pw _ _, .exec (.insertSession accountId _) => Granted b db id pw accountId
  | .login .., .exec (.updateLastLogin _) => True
  | .checkTokenvalid .., .exec (.selectToken _ _) => True
  | _, _ => False

/-- The accounts are those of `db`, and a token is found only where `seen` holds. -/
def Answers (db : Database) (seen : Int → String → Prop) : (c : Call lobbyDb) → Except SqlException c.Reply → Prop
  | .exec (.selectAccount id), .ok row => row = credentialRow db id
  | .exec (.selectToken accountId token), .ok found => found = true → seen accountId token
  | _, _ => True

theorem answers_error {db : Database} {seen : Int → String → Prop} (c : Call lobbyDb) (e : SqlException) :
    Answers db seen c (.error e) := by
  cases c with
  | exec st => cases st <;> trivial
  | _ => trivial

/-- A check that accepts saw the token. -/
def TokenTask.Backed (seen : Int → String → Prop) : TokenTask → TokenResult → Prop
  | .checkTokenvalid _ _ pkt, r => r.accepts = true → seen (toInt32 pkt.id) pkt.token
  | _, r => r.accepts = false

/-! ## What the requests do -/

section

variable {b : BCrypt} {db : Database} {seen : Int → String → Prop} {alloc : Allocation} {p connections : ConnectionPool}
  {α : Type}

theorem guided_borrow {can : (c : Call lobbyDb) → Except SqlException c.Reply → Prop} {P : Call lobbyDb → Prop}
    {f : Connection → Act (Sql lobbyDb) ConnectionPool α} {Q : Except SqlException α × ConnectionPool → Prop}
    (hok : ∀ conn p', ((f conn).prog p').Guided can P Q) (herr : ∀ e, Q (.error e, p)) :
    ((borrow alloc >>= f).prog p).Guided can P Q := by
  have hborrow : ((borrow alloc).prog p).Guided can P fun r => ∀ e p', r = (.error e, p') → p' = p := by
    unfold borrow
    rw [Act.prog_get_bind]
    split
    · rintro e p' ⟨⟩
    · rintro e p' ⟨⟩
      rfl
  refine Act.guided_bind hborrow (fun conn p' _ => hok conn p') fun e p' hp => ?_
  rw [hp e p' rfl]
  exact herr e

section Login

variable {id pw first : String} {later : List String}

theorem insertTokens_guided {accountId : Int} (hgranted : Granted b db id pw accountId) (token : String)
    (tokens : List String) (result : Int × String) :
    ((insertTokens accountId token tokens result).prog p).Guided (Answers db seen)
      (TokenTask.Allowed b db (.login alloc connections id pw first later)) fun _ => True := by
  have hturn : ∀ token result p, ((insertToken accountId token result).prog p).Guided (Answers db seen)
      (TokenTask.Allowed b db (.login alloc connections id pw first later)) fun _ => True := by
    intro token result p
    refine Act.guided_tryCatch (R := fun _ => True) ?_ (fun _ _ _ => trivial) fun e p' _ => trivial
    refine Act.guided_bind (R := fun _ => True) ?_ (fun _ _ _ => trivial) fun _ _ _ => trivial
    exact guided_execute hgranted trivial (fun _ _ => trivial) fun _ => trivial
  induction tokens generalizing token result p with
  | nil =>
    unfold insertTokens
    refine Act.guided_bind (hturn _ _ _) (fun v p' _ => ?_) fun _ _ _ => trivial
    dsimp only
    split <;> trivial
  | cons next tokens ih =>
    unfold insertTokens
    refine Act.guided_bind (hturn _ _ _) (fun v p' _ => ?_) fun _ _ _ => trivial
    dsimp only
    split
    · exact ih _ _
    · trivial

theorem signIn_guided (token : String) (tokens : List String) :
    ((signIn b id pw token tokens).prog p).Guided (Answers db seen)
      (TokenTask.Allowed b db (.login alloc connections id pw first later)) fun _ => True := by
  unfold signIn
  refine Act.guided_bind (R := fun r => ∀ row, r.1 = .ok row → row = credentialRow db id) ?_ ?_ fun _ _ _ => trivial
  · refine guided_execute trivial trivial (fun row hrow => ?_) fun e => ?_
    · rintro _ ⟨⟩
      exact hrow
    · rintro _ ⟨⟩
  rintro row p' hrow
  obtain rfl : row = credentialRow db id := hrow row rfl
  dsimp only
  split
  · rename_i hvalid
    refine Act.guided_bind (insertTokens_guided ⟨hvalid, rfl⟩ token tokens _) (fun v p'' _ => ?_) fun _ _ _ => trivial
    cases v with
    | none => trivial
    | some result =>
      refine Act.guided_bind (R := fun _ => True) ?_ (fun _ _ _ => trivial) fun _ _ _ => trivial
      exact guided_execute trivial trivial (fun _ _ => trivial) fun _ => trivial
  · trivial

theorem login_guided :
    ((TokenTask.login alloc connections id pw first later).process b).Guided (Answers db seen)
      (TokenTask.Allowed b db (.login alloc connections id pw first later))
      (TokenTask.Backed seen (.login alloc connections id pw first later)) := by
  refine Prog.Guided.bind (R := fun _ => True) ?_ fun r _ => rfl
  unfold handleReqLogin trySignIn
  refine Act.guided_bind (R := fun _ => True) ?_ (fun _ _ _ => trivial) fun _ _ _ => trivial
  refine guided_borrow (fun conn p' => ?_) fun _ => trivial
  refine Act.guided_bind (signIn_guided first later) (fun v p'' _ => ?_) fun _ _ _ => trivial
  cases v <;> trivial

end Login

theorem checkTokenvalid_guided (pkt : ReqCheckTokenvalid) :
    ((TokenTask.checkTokenvalid alloc connections pkt).process b).Guided (Answers db seen)
      (TokenTask.Allowed b db (.checkTokenvalid alloc connections pkt))
      (TokenTask.Backed seen (.checkTokenvalid alloc connections pkt)) := by
  have hbacked : ∀ r : Except SqlException (Option Response) × ConnectionPool,
      ((TokenResult.checkTokenvalid r.1).accepts = true → seen (toInt32 pkt.id) pkt.token) →
      TokenTask.Backed seen (.checkTokenvalid alloc connections pkt) (.checkTokenvalid r.1) := fun r hr => hr
  refine Prog.Guided.bind ?_ hbacked
  unfold handleReqCheckTokenvalid
  have hthrown : ∀ (e : SqlException) (p : ConnectionPool), (TokenResult.checkTokenvalid (.error e)).accepts = true →
      seen (toInt32 pkt.id) pkt.token := by
    rintro e p ⟨⟩
  refine guided_borrow (fun conn p' => ?_) fun e => hthrown e connections
  refine Act.guided_bind (R := fun r => r.1 = .ok true → seen (toInt32 pkt.id) pkt.token) ?_ ?_
    fun e p _ => hthrown e p
  · refine guided_execute trivial trivial (fun found hfound => ?_) fun e => ?_
    · intro heq
      exact hfound (Except.ok.inj heq)
    · rintro ⟨⟩
  · intro found p'' hfound haccepts
    exact hfound (congrArg Except.ok haccepts)

/-- Every request keeps to its calls, and a check that accepts saw its token. -/
theorem process_guided (task : TokenTask) :
    (task.process b).Guided (Answers db seen) (task.Allowed b db) (task.Backed seen) := by
  cases task with
  | login alloc connections id pw token tokens => exact login_guided
  | checkTokenvalid alloc connections pkt => exact checkTokenvalid_guided pkt

end

end Lobby
