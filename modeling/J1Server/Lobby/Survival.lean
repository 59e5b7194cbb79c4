import J1Server.Lobby.Requests

/-! # What a SQL failure does to a request

Which of the requests that use the database survive which exceptions: the
request returns, and its connection is in the pool again, once and closed. -/

namespace Lobby

open Lib Lib.Server Core

section

variable {mine : Connection → Prop} {law : Call lobbyDb → Harm → Bool} {conn : Connection} {a : Allocation}
  {p p₁ p' : ConnectionPool} {s s' : Server lobbyDb} {tr : List (Answered (Sql lobbyDb))}

/-! ## What a request does with its connection -/

variable {α β : Type}

/-- The work ends as `finished` says if and only if its calls were `good`, and then the connection is closed. -/
def Works (mine : Connection → Prop) (law : Call lobbyDb → Harm → Bool) (conn : Connection)
    (x : Act (Sql lobbyDb) ConnectionPool α) (finished : α → Bool) (good : List (Answered (Sql lobbyDb)) → Prop) :
    Prop :=
  ∀ p s tr r p' s', Closed conn s → Exec (Elsewhere mine) (Step law conn) (x.prog p) s tr (r, p') s' →
    p' = p ∧ ((∃ v, r = .ok v ∧ finished v = true) ↔ good tr) ∧ (good tr → Closed conn s')

theorem prog_borrow_bind (h : p.borrow a.held a.created = (some conn, p₁))
    (f : Connection → Act (Sql lobbyDb) ConnectionPool α) : (borrow a >>= f).prog p = (f conn).prog p₁ := by
  have hborrow : (borrow a).prog p = .done (.ok conn, p₁) := by
    unfold borrow
    rw [Act.prog_get_bind, h]
    rfl
  rw [Act.prog_bind, hborrow]
  rfl

/-- A request that borrows a connection, works, and gives the connection back. -/
theorem Works.request {x : Act (Sql lobbyDb) ConnectionPool α}
    {giveBack : Connection → α → Act (Sql lobbyDb) ConnectionPool β} {finished : α → Bool} {returned : β → Bool}
    {good : List (Answered (Sql lobbyDb)) → Prop} (hx : Works mine law conn x finished good)
    (hback : ∀ v p, ∃ w, (giveBack conn v).prog p =
      .done (.ok w, if finished v = true then p.unborrow conn else p) ∧ returned w = finished v)
    (hp : Clean mine p s) (ha : a.Fresh mine p s) (hborrow : p.borrow a.held a.created = (some conn, p₁))
    {r : Except SqlException β}
    (h : Exec (Elsewhere mine) (Step law conn) ((borrow a >>= fun c => x >>= giveBack c).prog p) s tr (r, p') s') :
    ((∃ w, r = .ok w ∧ returned w = true) ∧ p'.pool.count conn = 1 ∧ conn ∉ p'.borrowed ∧ Closed conn s' ↔
      good tr) ∧ Clean mine p' s' := by
  have hlent := borrow_lent hp ha hborrow
  rw [prog_borrow_bind hborrow] at h
  have hclean := hlent.kept h
  rcases Act.of_bind elsewhere_refl h with ⟨e, m, rfl, hwork, -⟩ | ⟨v, p₂, m, tr₁, tr₂, hwork, hrest, rfl⟩
  · obtain ⟨rfl, hgood, -⟩ := hx _ _ _ _ _ _ hlent.closed hwork
    refine ⟨⟨?_, fun hg => ?_⟩, hclean⟩
    · rintro ⟨⟨w, hw, -⟩, -⟩
      cases hw
    · obtain ⟨v, hv, -⟩ := hgood.mpr hg
      cases hv
  · obtain ⟨rfl, hgood, hclosed⟩ := hx _ _ _ _ _ _ hlent.closed hwork
    obtain ⟨w, hprog, hreturned⟩ := hback v p₂
    rw [hprog] at hrest
    cases hrest with
    | done hm =>
      rw [List.append_nil]
      cases hfinished : finished v with
      | true =>
        rw [if_pos rfl]
        have hg : good tr₁ := hgood.mp ⟨v, rfl, hfinished⟩
        have hclosed' := (hclosed hg).congr (Elsewhere.own hlent.mine _ _ hm)
        obtain ⟨hclean', hcount, hnot⟩ := hlent.unborrow hclosed' hclean
        exact ⟨⟨fun _ => hg, fun _ => ⟨⟨w, rfl, hreturned.trans hfinished⟩, hcount, hnot, hclosed'⟩⟩, hclean'⟩
      | false =>
        refine ⟨⟨?_, fun hg => ?_⟩, hclean⟩
        · rintro ⟨⟨w', hw', hret⟩, -⟩
          obtain rfl := Except.ok.inj hw'
          rw [hreturned, hfinished] at hret
          cases hret
        · obtain ⟨v', hv', hf⟩ := hgood.mpr hg
          obtain rfl := Except.ok.inj hv'
          rw [hfinished] at hf
          cases hf

/-! ## Lookups -/

theorem works_failFast {x : Act (Sql lobbyDb) ConnectionPool α}
    (hfast : Act.FailFast (Elsewhere mine) (Step law conn) x) (hclosed : KeepsClosed (Elsewhere mine) law conn x) :
    Works mine law conn x (fun _ => true) fun tr => throws tr = 0 := by
  intro p s tr r p' s' hc h
  obtain ⟨rfl, hthrows⟩ := hfast _ _ _ _ _ _ h
  refine ⟨rfl, ?_, fun _ => hclosed _ _ _ _ _ _ hc h⟩
  dsimp only
  rw [hthrows]
  cases r with
  | ok v => exact ⟨fun _ => rfl, fun _ => ⟨v, rfl, rfl⟩⟩
  | error e => simp [Except.isOk, Except.toBool]

theorem works_query (hmine : mine conn) (st : Stmt) :
    Works mine law conn (executeQuery st) (fun _ => true) fun tr => throws tr = 0 :=
  works_failFast (failFast_execute elsewhere_refl)
    (keepsClosed_execute lobbyDb_lawful elsewhere_refl (Elsewhere.own hmine))

theorem works_findCharacters (hmine : mine conn) (id : Nat) :
    Works mine law conn (findCharacters id) (fun _ => true) fun tr => throws tr = 0 := by
  have hown := Elsewhere.own hmine
  unfold findCharacters
  refine works_failFast (Act.failFast_ite ?_ (Act.failFast_pure none)) (keepsClosed_ite ?_ (keepsClosed_pure hown none))
  · exact (failFast_execute elsewhere_refl).bind elsewhere_refl fun rows => Act.failFast_pure _
  · exact (keepsClosed_execute lobbyDb_lawful elsewhere_refl hown).bind elsewhere_refl hown
      fun rows => keepsClosed_pure hown _

/-! ## Transactions and sign-up -/

abbrev NoRestore (c : Call lobbyDb) : Prop := c ≠ .setAutoCommit true

theorem restores_iff {x : Answered (Sql lobbyDb)} : restores x = true ↔ x.call = Call.setAutoCommit (D := lobbyDb) true := by
  obtain ⟨c, o⟩ := x
  cases c with
  | setAutoCommit on => cases on <;> simp [restores]
  | _ => simp [restores]

/-- The first exception ends it, and it does not switch autocommit on. -/
structure TransactionBody (mine : Connection → Prop) (law : Call lobbyDb → Harm → Bool) (conn : Connection)
    (x : Act (Sql lobbyDb) ConnectionPool α) : Prop where
  failFast : Act.FailFast (Elsewhere mine) (Step law conn) x
  noRestore : ∀ p, (x.prog p).Calls NoRestore

theorem TransactionBody.bind {x : Act (Sql lobbyDb) ConnectionPool α} {f : α → Act (Sql lobbyDb) ConnectionPool β}
    (hx : TransactionBody mine law conn x) (hf : ∀ v, TransactionBody mine law conn (f v)) :
    TransactionBody mine law conn (x >>= f) where
  failFast := hx.failFast.bind elsewhere_refl fun v => (hf v).failFast
  noRestore p := Act.calls_bind (hx.noRestore p) fun v => (hf v).noRestore

theorem body_pure (v : α) : TransactionBody mine law conn (pure v) := ⟨Act.failFast_pure v, fun _ => trivial⟩

theorem body_ite {c : Prop} [Decidable c] {x y : Act (Sql lobbyDb) ConnectionPool α}
    (hx : TransactionBody mine law conn x) (hy : TransactionBody mine law conn y) :
    TransactionBody mine law conn (if c then x else y) where
  failFast := Act.failFast_ite hx.failFast hy.failFast
  noRestore p := Act.calls_ite (fun _ => hx.noRestore p) fun _ => hy.noRestore p

theorem body_call {c : Call lobbyDb} (hc : NoRestore c) :
    TransactionBody mine law conn (Act.call (I := Sql lobbyDb) c) :=
  ⟨Act.failFast_call (I := Sql lobbyDb) c, fun _ => Act.calls_call (I := Sql lobbyDb) hc⟩

theorem body_update (st : Stmt) : TransactionBody mine law conn (executeUpdate st) :=
  ⟨failFast_execute elsewhere_refl, fun _ => calls_statement (D := lobbyDb) (by simp [NoRestore]) (by simp [NoRestore])⟩

theorem body_genKeys (st : Stmt) (key : st.Reply → Int) :
    TransactionBody mine law conn (executeUpdateGenKeys st key) :=
  (body_update st).bind fun reply => (body_update (.selectLastInsertId (key reply))).bind fun _ => body_pure _

theorem body_rollback : TransactionBody mine law conn (do rollback; pure false) :=
  (body_call (by simp [NoRestore])).bind fun _ => body_pure false

theorem body_commit : TransactionBody mine law conn (do commit; pure true) :=
  (body_call (by simp [NoRestore])).bind fun _ => body_pure true

theorem works_inTransaction (hmine : mine conn) {x : Act (Sql lobbyDb) ConnectionPool Bool}
    (hx : TransactionBody mine law conn x) :
    Works mine law conn (inTransaction x) (fun _ => true)
      fun tr => throws tr ≤ 1 ∧ ∀ x ∈ tr, restores x = true → x.answer.isOk = true := by
  intro p s tr r p' s' hc h
  have hrollback : TransactionBody mine law conn (do rollback; pure false) := body_rollback
  unfold inTransaction at h
  rcases Act.of_bind elsewhere_refl h with ⟨e, m, rfl, htry, -⟩ | ⟨v, p₂, m, tr₁, tr₂, htry, hrest, rfl⟩
  · -- The catch block threw.
    obtain ⟨rfl, hok⟩ := hx.failFast.tryCatch elsewhere_refl (fun _ => hrollback.failFast) htry
    refine ⟨rfl, ⟨?_, fun hg => ?_⟩, fun hg => ?_⟩
    · rintro ⟨v, hv, -⟩
      cases hv
    · cases hok.mpr hg.1
    · cases hok.mpr hg.1
  obtain ⟨rfl, hok⟩ := hx.failFast.tryCatch elsewhere_refl (fun _ => hrollback.failFast) htry
  rcases Act.of_bind elsewhere_refl hrest with ⟨e, m₁, rfl, hcall, -⟩ | ⟨u, p₃, m₁, tr₃, tr₄, hcall, hdone, rfl⟩
  · -- Autocommit is still off.
    obtain ⟨rfl, rfl, -⟩ := Act.of_call hcall
    have hnot : ¬∀ x ∈ tr₁ ++ [⟨Call.setAutoCommit (D := lobbyDb) true, .error e⟩],
        restores x = true → x.answer.isOk = true := by
      intro hall
      cases hall _ (List.mem_append_right _ (List.mem_singleton_self _)) rfl
    refine ⟨rfl, ⟨?_, fun hg => absurd hg.2 hnot⟩, fun hg => absurd hg.2 hnot⟩
    rintro ⟨v, hv, -⟩
    cases hv
  · obtain ⟨rfl, rfl, s₁, s₂, -, hs, h₂⟩ := Act.of_call hcall
    obtain ⟨rfl, rfl, rfl, h₃⟩ := Act.of_pure hdone
    have hbody : ∀ x ∈ tr₁, NoRestore x.call := by
      refine Exec.calls htry ?_
      rw [Act.prog_tryCatch]
      refine (hx.noRestore _).bind ?_
      rintro ⟨o, p''⟩
      cases o with
      | ok b => trivial
      | error e => exact hrollback.noRestore p''
    refine ⟨rfl, ⟨fun _ => ⟨?_, ?_⟩, fun _ => ⟨v, rfl, rfl⟩⟩, fun _ => ?_⟩
    · simpa [throws_cons, Except.isOk, Except.toBool] using hok.mp rfl
    · intro x hx hrestores
      rcases List.mem_append.mp hx with hx | hx
      · exact absurd (restores_iff.mp hrestores) (hbody x hx)
      · rw [List.append_nil, List.mem_singleton] at hx
        rw [hx]
        rfl
    · have hown := Elsewhere.own hmine
      exact ((Step.setAutoCommit_closed hs).congr (hown _ _ h₂)).congr (hown _ _ h₃)

theorem works_createTransaction (hmine : mine conn) (accountId : Nat) (temp : LobbyCharacterInfo) :
    Works mine law conn (inTransaction (createTransaction accountId temp)) (fun _ => true)
      fun tr => throws tr ≤ 1 ∧ ∀ x ∈ tr, restores x = true → x.answer.isOk = true := by
  refine works_inTransaction hmine ?_
  refine (body_call (by simp [NoRestore])).bind fun _ => ?_
  refine (body_genKeys _ _).bind fun characterId => ?_
  refine (body_update _).bind fun (ccUpdate : Int) => ?_
  refine (body_update _).bind fun (csUpdate : Int) => ?_
  exact body_ite body_commit body_rollback

theorem works_deleteTransaction (hmine : mine conn) (pkt : ReqDeleteCharacter) :
    Works mine law conn (inTransaction (deleteTransaction pkt)) (fun _ => true)
      fun tr => throws tr ≤ 1 ∧ ∀ x ∈ tr, restores x = true → x.answer.isOk = true := by
  refine works_inTransaction hmine ?_
  refine (body_call (by simp [NoRestore])).bind fun _ => ?_
  refine (body_update _).bind fun ccUpdate => ?_
  refine (body_update _).bind fun csUpdate => ?_
  refine (body_update _).bind fun ciUpdate => ?_
  refine (body_update _).bind fun (cbUpdate : Int) => ?_
  exact body_ite body_rollback body_commit

theorem works_genKeys (hmine : mine conn) (st : Stmt) (key : st.Reply → Int) :
    Works mine law conn (executeUpdateGenKeys st key) (fun _ => true) fun tr => throws tr = 0 := by
  have hown := Elsewhere.own hmine
  refine works_failFast (body_genKeys st key).failFast ?_
  refine (keepsClosed_execute lobbyDb_lawful elsewhere_refl hown).bind elsewhere_refl hown fun reply => ?_
  exact (keepsClosed_execute lobbyDb_lawful elsewhere_refl hown).bind elsewhere_refl hown
    fun id => keepsClosed_pure hown _

/-! ## The sign-in -/

theorem of_insertToken {accountId : Int} {token : String} {result : Int × String}
    {r : Except SqlException (Int × Int × String)}
    (h : Exec (Elsewhere mine) (Step law conn) ((insertToken accountId token result).prog p) s tr (r, p') s') :
    p' = p ∧ ∃ ok : Bool, (∀ rest, statements (tr ++ rest) = (Stmt.insertSession accountId token, ok) :: statements rest) ∧
      r = .ok (if ok then (1, accountId, token) else (-1, result)) := by
  unfold insertToken at h
  rcases Act.of_tryCatch elsewhere_refl h with ⟨v, m, rfl, hbody, -⟩ | ⟨e, p₁, m, tr₁, tr₂, hbody, hcaught, rfl⟩
  · rcases Act.of_bind elsewhere_refl hbody with ⟨e, m', he, -⟩ | ⟨reply, p₁, m', tr₁, tr₂, hupdate, hdone, rfl⟩
    · cases he
    obtain ⟨rfl, hstatement, hreply⟩ := of_execute lobbyDb_lawful elsewhere_refl hupdate
    obtain ⟨hv, rfl, rfl, -⟩ := Act.of_pure hdone
    obtain ⟨s₁, rfl⟩ := hreply _ rfl
    refine ⟨rfl, true, fun rest => ?_, hv⟩
    rw [List.append_nil, hstatement]
    rfl
  · obtain ⟨rfl, rfl, rfl, -⟩ := Act.of_pure hcaught
    rcases Act.of_bind elsewhere_refl hbody with ⟨e', m', -, hupdate, -⟩ | ⟨reply, p₂, m', tr₂, tr₃, -, hdone, -⟩
    · obtain ⟨rfl, hstatement, -⟩ := of_execute lobbyDb_lawful elsewhere_refl hupdate
      refine ⟨rfl, false, fun rest => ?_, rfl⟩
      rw [List.append_nil, hstatement]
      rfl
    · cases (Act.of_pure hdone).1

theorem of_turn {accountId : Int} {token : String} {tokens : List String} {result : Int × String}
    {r : Except SqlException (Option (Int × String))}
    (h : Exec (Elsewhere mine) (Step law conn) ((insertTokens accountId token tokens result).prog p) s tr (r, p') s') :
    (p' = p ∧ r = .ok (some (accountId, token)) ∧
      ∀ rest, statements (tr ++ rest) = (Stmt.insertSession accountId token, true) :: statements rest) ∨
    ∃ m tr₁ tr₂, tr = tr₁ ++ tr₂ ∧
      (∀ rest, statements (tr₁ ++ rest) = (Stmt.insertSession accountId token, false) :: statements rest) ∧
      Exec (Elsewhere mine) (Step law conn)
        ((match tokens with
          | [] => pure none
          | token :: tokens => insertTokens accountId token tokens result : Act _ _ _).prog p) m tr₂ (r, p') s' := by
  unfold insertTokens at h
  rcases Act.of_bind elsewhere_refl h with ⟨e, m, rfl, hturn, -⟩ | ⟨v, p₁, m, tr₁, tr₂, hturn, hrest, rfl⟩
  · obtain ⟨-, ok, -, hr⟩ := of_insertToken hturn
    cases hr
  obtain ⟨rfl, ok, hstatement, hr⟩ := of_insertToken hturn
  obtain rfl := Except.ok.inj hr
  cases ok with
  | true =>
    obtain ⟨rfl, rfl, rfl, -⟩ := Act.of_pure hrest
    rw [List.append_nil]
    exact Or.inl ⟨rfl, rfl, hstatement⟩
  | false => exact Or.inr ⟨m, tr₁, tr₂, rfl, hstatement, hrest⟩

/-- The loop makes token `INSERT`s only, at least one, and ends with the first that returns. -/
theorem of_insertTokens {accountId : Int} {token : String} {tokens : List String} {result : Int × String}
    {r : Except SqlException (Option (Int × String))}
    (h : Exec (Elsewhere mine) (Step law conn) ((insertTokens accountId token tokens result).prog p) s tr (r, p') s') :
    p' = p ∧ ∃ sts v, (∀ rest, statements (tr ++ rest) = sts ++ statements rest) ∧ r = .ok v ∧ sts ≠ [] ∧
      (∀ x ∈ sts, insertsToken x.1 = true) ∧ (v.isSome = true ↔ ∃ x ∈ sts, x.2 = true) := by
  induction tokens generalizing token p s tr with
  | nil =>
    rcases of_turn h with ⟨rfl, rfl, hstatement⟩ | ⟨m, tr₁, tr₂, rfl, hstatement, hrest⟩
    · exact ⟨rfl, [(_, true)], _, hstatement, rfl, by simp, by simp [insertsToken], by simp⟩
    · obtain ⟨rfl, rfl, rfl, -⟩ := Act.of_pure hrest
      rw [List.append_nil]
      exact ⟨rfl, [(_, false)], none, hstatement, rfl, by simp, by simp [insertsToken], by simp⟩
  | cons next tokens ih =>
    rcases of_turn h with ⟨rfl, rfl, hstatement⟩ | ⟨m, tr₁, tr₂, rfl, hstatement, hrest⟩
    · exact ⟨rfl, [(_, true)], _, hstatement, rfl, by simp, by simp [insertsToken], by simp⟩
    · obtain ⟨rfl, sts, v, hsts, rfl, -, hinserts, hsome⟩ := ih hrest
      refine ⟨rfl, (.insertSession accountId token, false) :: sts, v, fun rest => ?_, rfl, by simp, ?_, ?_⟩
      · rw [List.append_assoc, hstatement, hsts, List.cons_append]
      · simpa [insertsToken] using hinserts
      · simpa using hsome

theorem keepsClosed_insertTokens (hmine : mine conn) (accountId : Int) (token : String) (tokens : List String)
    (result : Int × String) :
    KeepsClosed (Elsewhere mine) law conn (insertTokens accountId token tokens result) := by
  have hown := Elsewhere.own hmine
  have hturn : ∀ token result, KeepsClosed (Elsewhere mine) law conn (insertToken accountId token result) := by
    intro token result
    refine KeepsClosed.tryCatch elsewhere_refl hown ?_ fun _ => keepsClosed_pure hown _
    exact (keepsClosed_execute lobbyDb_lawful elsewhere_refl hown).bind elsewhere_refl hown
      fun reply => keepsClosed_pure hown _
  induction tokens generalizing token result with
  | nil =>
    unfold insertTokens
    refine (hturn token result).bind elsewhere_refl hown fun v => ?_
    exact keepsClosed_ite (keepsClosed_pure hown none) (keepsClosed_pure hown _)
  | cons next tokens ih =>
    unfold insertTokens
    refine (hturn token result).bind elsewhere_refl hown fun v => ?_
    exact keepsClosed_ite (ih next _) (keepsClosed_pure hown _)

theorem keepsClosed_signIn (hmine : mine conn) (b : BCrypt) (id pw token : String) (tokens : List String) :
    KeepsClosed (Elsewhere mine) law conn (signIn b id pw token tokens) := by
  have hown := Elsewhere.own hmine
  unfold signIn
  refine (keepsClosed_execute lobbyDb_lawful elsewhere_refl hown).bind elsewhere_refl hown
    fun (row : Option (Int × String)) => ?_
  refine keepsClosed_ite ?_ (keepsClosed_pure hown _)
  refine (keepsClosed_insertTokens hmine _ _ _ _).bind elsewhere_refl hown fun v => ?_
  cases v with
  | none => exact keepsClosed_pure hown none
  | some result =>
    exact (keepsClosed_execute lobbyDb_lawful elsewhere_refl hown).bind elsewhere_refl hown
      fun changed => keepsClosed_pure hown _

theorem signsIn_select (id : String) (sts : List (Stmt × Bool)) :
    SignsIn ((.selectAccount id, true) :: sts) ↔ SignsIn sts := by
  simp [SignsIn, insertsToken]

theorem signsIn_update (id : String) (ok : Bool) (sts : List (Stmt × Bool)) :
    SignsIn (sts ++ [(.updateLastLogin id, ok)]) ↔ SignsIn sts ∧ ok = true := by
  unfold SignsIn
  simp [insertsToken, or_and_right, exists_or, or_imp, forall_and]
  tauto

theorem signsIn_inserts {sts : List (Stmt × Bool)} (hne : sts ≠ []) (hinserts : ∀ x ∈ sts, insertsToken x.1 = true) :
    SignsIn sts ↔ ∃ x ∈ sts, x.2 = true := by
  obtain ⟨y, hy⟩ := List.exists_mem_of_ne_nil sts hne
  constructor
  · rintro ⟨-, hone⟩
    obtain ⟨x, hx, -, hok⟩ := hone ⟨y, hy, hinserts y hy⟩
    exact ⟨x, hx, hok⟩
  · rintro ⟨x, hx, hok⟩
    exact ⟨fun z hz => Or.inr (hinserts z hz), fun _ => ⟨x, hx, hinserts x hx, hok⟩⟩

theorem works_signIn (hmine : mine conn) (b : BCrypt) (id pw token : String) (tokens : List String) :
    Works mine law conn (signIn b id pw token tokens) Option.isSome fun tr => SignsIn (statements tr) := by
  intro p s tr r p' s' hc h
  have hclosed : Closed conn s' := keepsClosed_signIn hmine b id pw token tokens _ _ _ _ _ _ hc h
  refine and_assoc.mp ⟨?_, fun _ => hclosed⟩
  change p' = p ∧ ((∃ v, r = .ok v ∧ v.isSome = true) ↔ SignsIn (statements tr))
  unfold signIn at h
  rcases Act.of_bind elsewhere_refl h with ⟨e, m, rfl, hselect, -⟩ | ⟨row, p₁, m, tr₁, tr₂, hselect, hrest, rfl⟩
  · obtain ⟨rfl, hst, -⟩ := of_execute lobbyDb_lawful elsewhere_refl hselect
    have hsts : statements tr = [(.selectAccount id, false)] := by
      rw [← List.append_nil tr, hst]
      rfl
    refine ⟨rfl, ?_, fun hg => ?_⟩
    · rintro ⟨v, hv, -⟩
      cases hv
    · rw [hsts] at hg
      simpa [insertsToken] using hg.1 _ (List.mem_singleton_self _)
  obtain ⟨rfl, hst, -⟩ := of_execute lobbyDb_lawful elsewhere_refl hselect
  have hselected : ∀ rest, SignsIn (statements (tr₁ ++ rest)) ↔ SignsIn (statements rest) := by
    intro rest
    rw [hst]
    exact signsIn_select id _
  rw [hselected]
  generalize credentialsOf row = credentials at hrest
  obtain ⟨accountId, hashedPw⟩ := credentials
  dsimp only at hrest
  split at hrest
  · rcases Act.of_bind elsewhere_refl hrest with ⟨e, m', rfl, hloop, -⟩ | ⟨v, p₂, m', tr₃, tr₄, hloop, hlast, rfl⟩
    · obtain ⟨-, sts, v, -, hr, -⟩ := of_insertTokens hloop
      cases hr
    obtain ⟨rfl, sts, v', hsts, hv, hne, hinserts, hsome⟩ := of_insertTokens hloop
    obtain rfl := Except.ok.inj hv
    cases v with
    | none =>
      obtain ⟨rfl, rfl, rfl, -⟩ := Act.of_pure hlast
      rw [hsts, statements, List.append_nil, signsIn_inserts hne hinserts, ← hsome]
      simp
    | some result =>
      rcases Act.of_bind elsewhere_refl hlast with ⟨e, m₁, rfl, hupdate, -⟩ | ⟨c, p₃, m₁, tr₅, tr₆, hupdate, hdone, rfl⟩
      · obtain ⟨rfl, hupd, -⟩ := of_execute lobbyDb_lawful elsewhere_refl hupdate
        have hlater : statements tr₄ = [(Stmt.updateLastLogin id, false)] := by
          rw [← List.append_nil tr₄, hupd]
          rfl
        rw [hsts, hlater, signsIn_update]
        simp
      · obtain ⟨rfl, hupd, -⟩ := of_execute lobbyDb_lawful elsewhere_refl hupdate
        obtain ⟨rfl, rfl, rfl, -⟩ := Act.of_pure hdone
        have hlater : statements (tr₅ ++ []) = [(Stmt.updateLastLogin id, true)] := by
          rw [hupd]
          rfl
        rw [hsts, hlater, signsIn_update, signsIn_inserts hne hinserts, ← hsome]
        simp
  · obtain ⟨rfl, rfl, rfl, -⟩ := Act.of_pure hrest
    simp [statements, SignsIn]

/-! ## Every request -/

theorem refused {r : Except SqlException (Option Response)} (hp : Clean mine p s)
    (h : Exec (Elsewhere mine) (Step law conn)
      ((pure none : Act (Sql lobbyDb) ConnectionPool (Option Response)).prog p) s tr (r, p') s') :
    r = .ok none ∧ tr = [] ∧ Clean mine p' s' := by
  obtain ⟨rfl, rfl, rfl, hr⟩ := Act.of_pure h
  exact ⟨rfl, rfl, hp.elsewhere hr⟩

theorem harmless_nil : throws ([] : List (Answered (Sql lobbyDb))) ≤ 1 ∧
    ∀ x ∈ ([] : List (Answered (Sql lobbyDb))), restores x = true → x.answer.isOk = true :=
  ⟨Nat.zero_le 1, by simp⟩

/-- Whatever throws: a request that has borrowed a connection returns, with the connection in the pool
again, once and closed, if and only if the exceptions were harmless to it. No request puts a connection
into the pool that is not closed. -/
theorem survives_iff {b : BCrypt} {req : Request} {r : Except SqlException req.Result} (hp : Clean mine p s)
    (ha : a.Fresh mine p s) (hborrow : p.borrow a.held a.created = (some conn, p₁))
    (h : Exec (Elsewhere mine) (Step law conn) ((req.run b a).prog p) s tr (r, p') s') :
    (Survives req conn r p' s' ↔ req.Harmless tr) ∧ Clean mine p' s' := by
  have hmine := (borrow_lent hp ha hborrow).mine
  -- A request that borrows is `Works.request`; what is left to say is what its work survives.
  have borrowed : ∀ {P}, req.borrows = true →
      (((∃ w, r = .ok w ∧ req.returned w = true) ∧ p'.pool.count conn = 1 ∧ conn ∉ p'.borrowed ∧ Closed conn s' ↔ P) ∧
        Clean mine p' s') → (Survives req conn r p' s' ↔ P) ∧ Clean mine p' s' := by
    rintro P hb ⟨hiff, hclean⟩
    refine ⟨Iff.trans ⟨fun hs => ⟨hs.returned, hs.back hb⟩, fun hs => ⟨hs.1, fun _ => hs.2⟩⟩ hiff, hclean⟩
  have unborrowed : req.borrows = false → (∃ w, r = .ok w ∧ req.returned w = true) → Survives req conn r p' s' := by
    refine fun hb hreturned => ⟨hreturned, fun hb' => ?_⟩
    rw [hb] at hb'
    cases hb'
  cases req with
  | checkTokenvalid pkt =>
    exact borrowed rfl ((works_query hmine _).request (fun v p => ⟨_, rfl, rfl⟩) hp ha hborrow h)
  | characterList pkt =>
    exact borrowed rfl ((works_findCharacters hmine _).request (fun v p => ⟨_, rfl, rfl⟩) hp ha hborrow h)
  | checkNickname pkt =>
    exact borrowed rfl ((works_query hmine _).request (fun v p => ⟨_, rfl, rfl⟩) hp ha hborrow h)
  | createCharacter pkt =>
    obtain ⟨accountId, characters⟩ := pkt
    match characters with
    | [temp] =>
      exact borrowed rfl ((works_createTransaction hmine _ temp).request (fun v p => ⟨_, rfl, rfl⟩) hp ha hborrow h)
    | [] =>
      obtain ⟨hr, rfl, hclean⟩ := refused hp h
      exact ⟨⟨fun _ => harmless_nil, fun _ => unborrowed rfl ⟨none, hr, rfl⟩⟩, hclean⟩
    | _ :: _ :: _ =>
      obtain ⟨hr, rfl, hclean⟩ := refused hp h
      exact ⟨⟨fun _ => harmless_nil, fun _ => unborrowed (by simp [Request.borrows]) ⟨none, hr, rfl⟩⟩, hclean⟩
  | deleteCharacter pkt =>
    change Exec _ _ ((handleReqDeleteCharacter a pkt).prog p) s tr (r, p') s' at h
    unfold handleReqDeleteCharacter at h
    split at h
    · rename_i hids
      exact borrowed (decide_eq_true hids)
        ((works_deleteTransaction hmine pkt).request (fun v p => ⟨_, rfl, rfl⟩) hp ha hborrow h)
    · rename_i hids
      obtain ⟨hr, rfl, hclean⟩ := refused hp h
      exact ⟨⟨fun _ => harmless_nil, fun _ => unborrowed (decide_eq_false hids) ⟨none, hr, rfl⟩⟩, hclean⟩
  | checkId id =>
    exact borrowed rfl ((works_query hmine _).request (fun v p => ⟨_, rfl, rfl⟩) hp ha hborrow h)
  | signIn id pw token tokens =>
    refine borrowed rfl ((works_signIn hmine b id pw token tokens).request ?_ hp ha hborrow h)
    rintro (_ | result) p
    · exact ⟨none, rfl, rfl⟩
    · exact ⟨some result, rfl, rfl⟩
  | signUp id pw =>
    exact borrowed rfl ((works_genKeys hmine _ _).request (fun v p => ⟨_, rfl, rfl⟩) hp ha hborrow h)

end

/-! ## A name that is taken -/

def samplePasswords : BCrypt := ⟨fun pw hash => pw = hash, fun pw => pw⟩

def emptyDb : Database := ⟨Table.empty, [], Table.empty, 1, 0, [], [], []⟩

/-- The skin `INSERT` of a new character fails; then the transaction is rolled back. -/
def skinFails : List (Option Fault) :=
  List.replicate 7 none ++ [some ⟨.refused, ⟨1264, "Out of range value"⟩⟩] ++ List.replicate 2 none

def sampleCreate : Request := .createCharacter ⟨7, [⟨0, 0, "hero", 1, 0, 0, 1, 2, 3⟩]⟩

theorem survives_iff_skin_fails : ∃ tr r p s,
    Exec (Elsewhere fun _ => True) (Step (fun _ _ => true) 0) ((sampleCreate.run samplePasswords {}).prog ⟨[0, 1], []⟩)
      (idle emptyDb 0 1) tr (r, p) s ∧ throws tr = 1 ∧ Survives sampleCreate 0 r p s := by
  have hrun : (runAlone (fun _ _ => true) 0 ((sampleCreate.run samplePasswords {}).prog ⟨[0, 1], []⟩) skinFails
      (idle (D := lobbyDb) emptyDb 0 1)).map (fun x => (throws x.1, x.1.all fun y => !restores y || y.answer.isOk)) =
      some (1, true) := by decide
  obtain ⟨⟨tr, ⟨r, p⟩, s⟩, hsome, heq⟩ := Option.map_eq_some_iff.mp hrun
  obtain ⟨hthrows, hrestores⟩ := Prod.mk.inj heq
  have hexec : Exec (Elsewhere fun _ => True) (Step (fun _ _ => true) 0)
      ((sampleCreate.run samplePasswords {}).prog ⟨[0, 1], []⟩) (idle emptyDb 0 1) tr (r, p) s :=
    runAlone_exec elsewhere_refl hsome
  have hharmless : sampleCreate.Harmless tr := by
    refine ⟨hthrows.le, fun x hx hr => ?_⟩
    have hx' := List.all_eq_true.mp hrestores x hx
    rw [hr] at hx'
    exact hx'
  refine ⟨tr, r, p, s, hexec, hthrows, ((survives_iff ?_ ?_ rfl hexec).1).mpr hharmless⟩
  · exact clean_filled (by decide) (fun _ _ => trivial) emptyDb 0 1
  · intro c hc
    cases hc

def registeredDb : Database := { emptyDb with account := Table.empty.insert ⟨7, "kim", "secret", true, none, 0⟩ }

def takenSignUp : Request := .signUp "kim" "secret"

/-- The user id is taken: the `INSERT` of the account is refused. -/
theorem duplicate_sign_up_throws : ∃ tr r p s,
    Exec (Elsewhere fun _ => True) (Step (fun _ _ => true) 0) ((takenSignUp.run samplePasswords {}).prog ⟨[0, 1], []⟩)
      (idle registeredDb 0 8) tr (r, p) s ∧ r.isOk = false ∧ p = ⟨[1], [0]⟩ ∧ ¬Survives takenSignUp 0 r p s := by
  have hrun : (runAlone (fun _ _ => true) 0 ((takenSignUp.run samplePasswords {}).prog ⟨[0, 1], []⟩)
      [some ⟨.refused, ⟨1062, "Duplicate entry"⟩⟩] (idle (D := lobbyDb) registeredDb 0 8)).map
      (fun x => (x.2.1.1.isOk, x.2.1.2)) = some (false, ⟨[1], [0]⟩) := by decide
  obtain ⟨⟨tr, ⟨r, p⟩, s⟩, hsome, heq⟩ := Option.map_eq_some_iff.mp hrun
  obtain ⟨hr, hp⟩ := Prod.mk.inj heq
  refine ⟨tr, r, p, s, runAlone_exec elsewhere_refl hsome, hr, hp, fun hs => ?_⟩
  obtain ⟨v, hv, -⟩ := hs.returned
  rw [hv] at hr
  cases hr

end Lobby
