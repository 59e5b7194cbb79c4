import J1Server.Lobby.Directory

/-! # Tokens that are accepted

Sign-ups, sign-ins and checks of an id on the LoginServer, token checks on the
GameServer, on any number of connections at once. Who was given a token is let
in with it until it expires. -/

namespace Lobby

open Lib Lib.Server Core

/-! ## The requests -/

inductive HandshakeTask
  | account (task : AccountTask)
  | checkTokenvalid (alloc : Allocation) (connections : ConnectionPool) (pkt : ReqCheckTokenvalid)

inductive HandshakeResult
  | account (result : AccountResult)
  | checkTokenvalid (result : Except SqlException (Option Response))

def HandshakeTask.process (b : BCrypt) : HandshakeTask → Prog (Sql lobbyDb) HandshakeResult
  | .account task => do
    let r ← task.process b
    pure (.account r)
  | .checkTokenvalid alloc connections pkt => do
    let r ← (handleReqCheckTokenvalid alloc pkt).prog connections
    pure (.checkTokenvalid r.1)

/-! ## Sessions -/

/-- Rows of `sessions` are only added, and the clock does not go back. -/
structure Keeps (s s' : Server lobbyDb) : Prop where
  now : s.now ≤ s'.now
  sessions : s.db.sessions <+: s'.db.sessions

theorem sessions_apply (w : Write) (db : Database) : db.sessions <+: (w.apply db).sessions := by
  cases w with
  | insertSession row => exact ⟨[row], rfl⟩
  | _ => exact List.prefix_rfl

theorem sessions_applyAll (es : List (Entry lobbyDb)) (db : Database) : db.sessions <+: (applyAll es db).sessions := by
  induction es generalizing db with
  | nil => exact List.prefix_rfl
  | cons e es ih => exact (sessions_apply e.write db).trans (ih (e.write.apply db))

variable {i : Nat} {s s' : Server lobbyDb}

theorem autonomous_keeps : Autonomous (D := lobbyDb) (fun _ => True) Keeps where
  lawful := lobbyDb_lawful
  refl s := ⟨Int.le_refl _, List.prefix_rfl⟩
  trans _ _ _ h h' := ⟨Int.le_trans h.now h'.now, h.sessions.trans h'.sessions⟩
  quiet _ _ _ h := ⟨by rw [h.now], [], by rw [h.db, List.append_nil]⟩
  tick s d := ⟨by simp [Server.tick], List.prefix_rfl⟩
  begin_task s i := ⟨Int.le_refl _, List.prefix_rfl⟩
  inv _ _ _ _ := trivial
  publish i _ _ _ s₂ _ _ := by
    refine ⟨Int.le_refl _, ?_⟩
    rw [publish_db]
    exact sessions_applyAll _ _

/-- The token is there, to live for 30 minutes from `since` at least. -/
def Stored (since : Int) (result : Int × String) (s : Server lobbyDb) : Prop :=
  ∃ row ∈ s.db.sessions, row.accountId = result.1 ∧ row.token = result.2 ∧
    since + 30 * secondsPerMinute ≤ row.expiresAt

theorem Stored.keeps {since : Int} {result : Int × String} (h : Stored since result s) (hk : Keeps s s') :
    Stored since result s' := by
  obtain ⟨row, hrow, hrest⟩ := h
  exact ⟨row, hk.sessions.subset hrow, hrest⟩

/-- What the answer to a task says about tokens: one that was issued is stored, and one that is there and lives
is accepted. -/
def HandshakeTask.Honours (s₀ : Server lobbyDb) (task : HandshakeTask) (r : HandshakeResult) (s : Server lobbyDb) :
    Prop :=
  match task, r with
  | .account (.login ..), .account (.login (.ok (some result))) =>
    result = ⟨-1, ""⟩ ∨ Stored s₀.now (result.playerId, result.token) s
  | .checkTokenvalid _ _ pkt, .checkTokenvalid (.ok (some (.checkTokenvalid result))) =>
    ∀ row ∈ s₀.db.sessions, row.accountId = toInt32 pkt.id → row.token = pkt.token → s.now < row.expiresAt →
      result = true
  | _, _ => True

variable {b : BCrypt} {s₀ : Server lobbyDb} {task : HandshakeTask} {r : HandshakeResult}

theorem HandshakeTask.Honours.later (h : task.Honours s₀ r s) (hk : Keeps s s') : task.Honours s₀ r s' := by
  unfold HandshakeTask.Honours at h ⊢
  split at h
  · exact h.imp_right fun hstored => hstored.keeps hk
  · intro row hrow hid htoken hlive
    exact h row hrow hid htoken (Int.lt_of_le_of_lt hk.now hlive)
  · trivial

theorem HandshakeTask.Honours.earlier (h : task.Honours s r s') (hk : Keeps s₀ s) : task.Honours s₀ r s' := by
  unfold HandshakeTask.Honours at h ⊢
  split at h
  · refine h.imp_right fun ⟨row, hrow, hid, htoken, hexpires⟩ => ⟨row, hrow, hid, htoken, ?_⟩
    have hnow := hk.now
    omega
  · intro row hrow
    exact h row (hk.sessions.subset hrow)
  · trivial

/-! ## The requests, one after the other -/

section

variable {law : Call lobbyDb → Harm → Bool} {alloc : Allocation} {p : ConnectionPool} {id pw token : String}
  {tokens : List String}

abbrev Idling (i : Nat) (s : Server lobbyDb) : Prop := Resting (fun _ => True) i s

/-- The row of a token, once its insertion is committed. -/
theorem insertSession_stored {accountId : Int} {s₀ s₁ s₂ : Server lobbyDb}
    (hran : Ran (Others Keeps i) i (.insertSession accountId token) s₀ s₁ s₂) :
    Stored s₀.now (accountId, token) (s₂.publish i) := by
  refine ⟨⟨accountId, token, s₁.now + 30 * secondsPerMinute⟩, ?_, rfl, rfl, ?_⟩
  · rw [publish_db, hran.conn (autonomous_keeps.surroundings i)]
    exact List.mem_append_right _ (List.mem_singleton.mpr rfl)
  · have hnow := hran.before.2.now
    dsimp only
    omega

theorem login_stores (h : Idling i s) :
    Safe (Others Keeps i) (Step law i) Keeps ((handleReqLogin b alloc id pw token tokens).prog p) (fun _ r s' =>
      Idling i s' ∧ Keeps s s' ∧ ∀ result, r.1 = .ok (some result) →
        result = ⟨-1, ""⟩ ∨ Stored s.now (result.playerId, result.token) s') s := by
  have hstable : ∀ (result : Int × String) s₁ s₂, result = (-1, "") ∨ Stored s.now result s₁ → Keeps s₁ s₂ →
      result = (-1, "") ∨ Stored s.now result s₂ := fun result s₁ s₂ h hk => h.imp_right fun h => h.keeps hk
  refine (login_rule autonomous_keeps h ⟨hstable, fun _ _ _ _ _ => Or.inl rfl,
    fun s₁ hbefore _ x _ => ⟨hstable, fun s₀ s₂ s₃ hk hran _ => Or.inr ?_⟩⟩).mono ?_
  · obtain ⟨row, hrow, hid, htoken, hexpires⟩ := insertSession_stored hran
    have hfirst := hbefore.now
    have hthen := hk.now
    exact ⟨row, hrow, hid, htoken, by omega⟩
  · rintro tr r s' ⟨hidling, hk, hissued⟩
    refine ⟨hidling, hk, fun result hr => ?_⟩
    refine (hissued result hr).imp_left fun hnone => ?_
    obtain ⟨hid, htoken⟩ := Prod.mk.inj hnone
    cases result
    exact congrArg₂ ResLogin.mk hid htoken

theorem checkId_idles (h : Idling i s) :
    Safe (Others Keeps i) (Step law i) Keeps ((handleReqCheckId alloc id).prog p) (fun _ _ s' => Idling i s') s := by
  unfold handleReqCheckId tryCheckId
  refine safe_borrow autonomous_keeps h (fun conn p' => ?_) fun e s' hidling _ => hidling
  refine autonomous_keeps.safe_statement (.selectAccount id) h (fun s₁ s₂ _ _ _ hidling => ?_)
    fun e s' hidling _ => hidling
  exact autonomous_keeps.safe_done hidling fun s' hidling' _ => hidling'

theorem join_idles (h : Idling i s) :
    Safe (Others Keeps i) (Step law i) Keeps ((handleReqJoin b alloc id pw).prog p) (fun _ _ s' => Idling i s') s := by
  have hinsert : ∀ p' : ConnectionPool, Safe (Others Keeps i) (Step law i) Keeps
      ((executeUpdateGenKeys (.insertAccount id (b.generateHash pw)) fun key => key).prog p')
      (fun _ _ s' => Idling i s') s := by
    intro p'
    unfold executeUpdateGenKeys
    refine autonomous_keeps.safe_statement _ h (fun s₁ s₂ _ _ _ hidling => ?_) fun e s' hidling _ => hidling
    refine autonomous_keeps.safe_statement _ hidling (fun s₃ s₄ _ _ _ hidling' => ?_) fun e s' hidling' _ => hidling'
    exact autonomous_keeps.safe_done hidling' fun s' hidling'' _ => hidling''
  unfold handleReqJoin trySignUp
  refine safe_borrow autonomous_keeps h (fun conn p' => ?_) fun e s' hidling _ => hidling
  refine autonomous_keeps.safe_bind (hinsert _) (fun accountId t s' hidling => ?_) fun e t s' hidling => ?_
  · exact autonomous_keeps.safe_done hidling fun s'' hidling' _ => hidling'
  · exact autonomous_keeps.safe_done hidling fun s'' hidling' _ => hidling'

/-- The check runs in one moment; the rows of before are there, and the clock is not past the end. -/
theorem checkTokenvalid_accepts (h : Idling i s) (pkt : ReqCheckTokenvalid) :
    Safe (Others Keeps i) (Step law i) Keeps ((handleReqCheckTokenvalid alloc pkt).prog p) (fun _ r s' =>
      Idling i s' ∧ ∀ result, r.1 = .ok (some (.checkTokenvalid result)) →
        ∀ row ∈ s.db.sessions, row.accountId = toInt32 pkt.id → row.token = pkt.token → s'.now < row.expiresAt →
          result = true) s := by
  unfold handleReqCheckTokenvalid
  refine safe_borrow autonomous_keeps h (fun conn p' => ?_) fun e s' hidling _ => ⟨hidling, by rintro _ ⟨⟩⟩
  refine autonomous_keeps.safe_statement (.selectToken (toInt32 pkt.id) pkt.token) h
    (fun s₁ s₂ hran hbefore hafter hidling => ?_) fun e s' hidling _ => ⟨hidling, by rintro _ ⟨⟩⟩
  refine autonomous_keeps.safe_done hidling fun s' hidling' hk => ⟨hidling', ?_⟩
  rintro result ⟨⟩ row hrow hid htoken hlive
  have hnow : s₁.now ≤ s'.now := Int.le_trans hafter.now hk.now
  rw [Server.effect, hran.view]
  refine List.any_eq_true.mpr ⟨row, hbefore.sessions.subset hrow, decide_eq_true ⟨hid, htoken, ?_⟩⟩
  omega

theorem account_honours (h : Idling i s) (task : AccountTask) :
    Safe (Others Keeps i) (Step law i) Keeps (task.process b) (fun _ r s' =>
      Idling i s' ∧ (HandshakeTask.account task).Honours s (.account r) s') s := by
  have hrefl := (autonomous_keeps.surroundings i).refl
  cases task with
  | checkId alloc connections id =>
    refine Safe.bind ((checkId_idles h).mono ?_) hrefl
    rintro tr r s' hidling s'' ho
    exact ⟨autonomous_keeps.resting_others hidling ho, trivial⟩
  | join alloc connections id pw =>
    refine Safe.bind ((join_idles h).mono ?_) hrefl
    rintro tr r s' hidling s'' ho
    exact ⟨autonomous_keeps.resting_others hidling ho, trivial⟩
  | login alloc connections id pw token tokens =>
    refine Safe.bind ((login_stores h).mono ?_) hrefl
    rintro tr ⟨r, t⟩ s' ⟨hidling, -, hissued⟩ s'' ho
    refine ⟨autonomous_keeps.resting_others hidling ho, ?_⟩
    match r, hissued with
    | .ok (some result), hissued => exact (hissued result rfl).imp_right fun hstored => hstored.keeps ho.2
    | .ok none, _ => trivial
    | .error e, _ => trivial

theorem handshake_honours (h : Idling i s) (task : HandshakeTask) :
    Safe (Others Keeps i) (Step law i) Keeps (task.process b) (fun _ r s' => Idling i s' ∧ task.Honours s r s') s := by
  have hrefl := (autonomous_keeps.surroundings i).refl
  cases task with
  | account task =>
    refine Safe.bind ((account_honours h task).mono ?_) hrefl
    rintro tr r s' ⟨hidling, hhonours⟩ s'' ho
    exact ⟨autonomous_keeps.resting_others hidling ho, hhonours.later ho.2⟩
  | checkTokenvalid alloc connections pkt =>
    refine Safe.bind ((checkTokenvalid_accepts h pkt).mono ?_) hrefl
    rintro tr ⟨r, t⟩ s' ⟨hidling, haccepts⟩ s'' ho
    refine ⟨autonomous_keeps.resting_others hidling ho, HandshakeTask.Honours.later ?_ ho.2⟩
    unfold HandshakeTask.Honours
    split
    · trivial
    · rename_i htask hresult
      obtain ⟨rfl⟩ := HandshakeResult.checkTokenvalid.inj hresult
      cases htask
      exact haccepts _ rfl
    · trivial

end

/-! ## Every run -/

theorem handshake_serves (law : Call lobbyDb → Harm → Bool) (b : BCrypt) :
    Serves law (fun _ => True) Keeps (HandshakeTask.process b) fun s₀ task r s => task.Honours s₀ r s where
  toAutonomous := autonomous_keeps
  earlier _ _ _ _ _ hk h := h.earlier hk
  later _ _ _ _ _ h hk := h.later hk
  spec _ task _ h := handshake_honours h task

abbrev HandshakePool := Pool lobbyDb HandshakeTask HandshakeResult

variable {law : Call lobbyDb → Harm → Bool} {db : Database} {now next : Int}
  {es fs gs : List (PoolEvent HandshakeTask)} {o p q : HandshakePool}

/-- A sign-in that was begun after `o` gives a token; every check of it that is begun after the answer accepts it,
unless 30 minutes have passed since `o`. -/
theorem token_accepted_until_expiry
    (hstart : run (Pool.step law (HandshakeTask.process b)) (Pool.fresh (idle (D := lobbyDb) db now next)) es = some o)
    (hsign : run (Pool.step law (HandshakeTask.process b)) o fs = some p)
    (hrun : run (Pool.step law (HandshakeTask.process b)) p gs = some q)
    {x y : Finished HandshakeTask HandshakeResult} (hx : x ∈ p.finished) (hbegun : (o.server.conns x.conn).task < x.no)
    {alloc alloc' : Allocation} {connections connections' : ConnectionPool} {id pw token : String}
    {tokens : List String}
    (hlogin : x.task = .account (.login alloc connections id pw token tokens)) {issued : ResLogin}
    (hissued : x.result = .account (.login (.ok (some issued)))) (hgranted : issued ≠ ⟨-1, ""⟩)
    (hy : y ∈ q.finished) (hlater : (p.server.conns y.conn).task < y.no) {pkt : ReqCheckTokenvalid}
    (hcheck : y.task = .checkTokenvalid alloc' connections' pkt) (hid : toInt32 pkt.id = issued.playerId)
    (htoken : pkt.token = issued.token) {result : Bool}
    (hresult : y.result = .checkTokenvalid (.ok (some (.checkTokenvalid result))))
    (hlive : q.server.now < o.server.now + 30 * secondsPerMinute) : result = true := by
  have hserves := handshake_serves law b
  have hclosed : ∀ i, Closed i (idle (D := lobbyDb) db now next) := fun _ => ⟨rfl, rfl⟩
  have hmiddle : run (Pool.step law (HandshakeTask.process b)) (Pool.fresh (idle (D := lobbyDb) db now next))
      (es ++ fs) = some p := run_append.mpr ⟨o, hstart, hsign⟩
  have hstored := (hserves.begun_after (idle_wf ..) trivial hclosed hstart hsign).2 x hx hbegun
  have haccepted := (hserves.begun_after (idle_wf ..) trivial hclosed hmiddle hrun).2 y hy hlater
  rw [hlogin, hissued] at hstored
  rw [hcheck, hresult] at haccepted
  rcases hstored with hnone | ⟨row, hrow, haccount, hrowToken, hexpires⟩
  · exact absurd hnone hgranted
  · exact haccepted row hrow (haccount.trans hid.symm) (hrowToken.trans htoken.symm) (Int.lt_of_lt_of_le hlive hexpires)

def joinKim : List (PoolEvent HandshakeTask) :=
  .start 0 (.account (.join {} ⟨[0], []⟩ "kim" "secret")) :: List.replicate 4 (.call 0 none) ++ [.finish 0]

/-- The first insertion of a token fails; the sign-in draws another one. -/
def signInKim : List (PoolEvent HandshakeTask) :=
  [.start 1 (.account (.login {} ⟨[1], []⟩ "kim" "secret" "5f" ["60"])), .call 1 none, .call 1 none,
    .call 1 (some ⟨.refused, ⟨1062, "Duplicate entry"⟩⟩)] ++ List.replicate 4 (.call 1 none) ++ [.finish 1]

/-- The check begins 1799 seconds later, and somebody else joins meanwhile. -/
def checkKim : List (PoolEvent HandshakeTask) :=
  [.tick 1799, .start 1 (.account (.join {} ⟨[1], []⟩ "lee" "other")),
    .start 0 (.checkTokenvalid {} ⟨[0], []⟩ ⟨7, "60"⟩), .call 1 none, .call 0 none, .call 1 none, .call 0 none,
    .finish 0]

theorem token_accepted_until_expiry_sample : ∃ o p q y result,
    run (Pool.step (fun _ _ => true) (HandshakeTask.process samplePasswords))
      (Pool.fresh (idle (D := lobbyDb) emptyDb 100 7)) joinKim = some o ∧
    run (Pool.step (fun _ _ => true) (HandshakeTask.process samplePasswords)) o signInKim = some p ∧
    run (Pool.step (fun _ _ => true) (HandshakeTask.process samplePasswords)) p checkKim = some q ∧
    y ∈ q.finished ∧ y.result = .checkTokenvalid (.ok (some (.checkTokenvalid result))) ∧ result = true := by
  obtain ⟨o, p, q, w, x, y, result, ho, hp, hq, hx, hy, hlogin, hissued, hcheck, hanswer, hbegun, hlater, hlive⟩ :
      ∃ (o p q : HandshakePool) (w x y : Finished HandshakeTask HandshakeResult) (result : Bool),
      run (Pool.step (fun _ _ => true) (HandshakeTask.process samplePasswords))
        (Pool.fresh (idle (D := lobbyDb) emptyDb 100 7)) joinKim = some o ∧
      run (Pool.step (fun _ _ => true) (HandshakeTask.process samplePasswords)) o signInKim = some p ∧
      run (Pool.step (fun _ _ => true) (HandshakeTask.process samplePasswords)) p checkKim = some q ∧
      p.finished = [w, x] ∧ q.finished = [w, x, y] ∧
      x.task = .account (.login {} ⟨[1], []⟩ "kim" "secret" "5f" ["60"]) ∧
      x.result = .account (.login (.ok (some ⟨7, "60"⟩))) ∧ y.task = .checkTokenvalid {} ⟨[0], []⟩ ⟨7, "60"⟩ ∧
      y.result = .checkTokenvalid (.ok (some (.checkTokenvalid result))) ∧ (o.server.conns x.conn).task < x.no ∧
      (p.server.conns y.conn).task < y.no ∧ q.server.now < o.server.now + 30 * secondsPerMinute :=
    ⟨_, _, _, _, _, _, _, rfl, rfl, rfl, rfl, rfl, rfl, rfl, rfl, rfl, by decide, by decide, by decide⟩
  have hmem : y ∈ q.finished := by
    rw [hy]
    simp
  refine ⟨o, p, q, y, result, ho, hp, hq, hmem, hanswer, ?_⟩
  exact token_accepted_until_expiry ho hp hq (by rw [hx]; simp) hbegun hlogin hissued (by decide) hmem hlater hcheck
    (by decide) rfl hanswer hlive

end Lobby
