import J1Server.Lobby.Survival
import J1Server.Lobby.TokenTasks
import J1Server.Lib.Play

/-! # Signing in

`TrySignIn` on a connection of its own, when only `INSERT`s of a token fail. -/

namespace Lobby

open Lib Lib.Server Core

/-- The tokens that `GenerateToken` draws after the one of number `k`. -/
def later (tokens : Nat → String) (k n : Nat) : List String := (List.range' (k + 1) n).map tokens

section

variable (b : BCrypt) (a : Allocation) (tokens : Nat → String) (outcomes : Nat → Option SqlException)

/-- `TrySignIn` up to its `n`th retry: what it returns, `none` while it is in the loop, and the server then. -/
def playSignIn (conn : Connection) (id pw : String) (n : Nat) (p : ConnectionPool) (s : Server lobbyDb) :
    (Except SqlException (Option (Int × String)) × ConnectionPool) × Server lobbyDb × Nat :=
  (trySignIn b a id pw (tokens 0) (later tokens 0 n)).play (env conn insertsToken outcomes) p (s, 0)

def credentials (db : Database) (id : String) : Int × String := credentialsOf (credentialRow db id)

def verifies (db : Database) (id pw : String) : Bool := b.validatePassword pw (credentials db id).2

end

variable {b : BCrypt} {a : Allocation} {tokens : Nat → String} {outcomes : Nat → Option SqlException}
  {conn : Connection} {p p₁ : ConnectionPool} {s : Server lobbyDb} {id pw : String} {accountId : Int} {k n : Nat}

/-! ## The loop -/

theorem later_succ : later tokens k (n + 1) = tokens (k + 1) :: later tokens (k + 1) n := by
  unfold later
  rw [List.range'_succ]
  rfl

theorem play_insertToken (h : Ready conn s) (hk : outcomes k = none) (token : String) (result : Int × String) :
    (insertToken accountId token result).play (env conn insertsToken outcomes) p (s, k) =
      ((.ok (1, accountId, token), p), s.autocommitted conn (.insertSession accountId token), k + 1) :=
  Act.play_tryCatch (Act.play_bind (h.play_counted rfl hk))

theorem play_insertToken_fails {e : SqlException} (hk : outcomes k = some e) (token : String) (result : Int × String) :
    (insertToken accountId token result).play (env conn insertsToken outcomes) p (s, k) =
      ((.ok (-1, result), p), s, k + 1) :=
  Act.play_tryCatch_error (Act.play_bind_error (play_fails rfl hk))

theorem play_insertTokens (h : Ready conn s) {m : Nat} (hfrom : k ≤ m) (hto : m ≤ k + n)
    (hfails : ∀ l, k ≤ l → l < m → outcomes l ≠ none) (hdone : outcomes m = none) (result : Int × String) :
    (insertTokens accountId (tokens k) (later tokens k n) result).play (env conn insertsToken outcomes) p (s, k) =
      ((.ok (some (accountId, tokens m)), p), s.autocommitted conn (.insertSession accountId (tokens m)), m + 1) := by
  induction n generalizing k with
  | zero =>
    obtain rfl : k = m := by omega
    unfold insertTokens
    rw [Act.play_bind (play_insertToken h hdone (tokens k) result)]
    rfl
  | succ n ih =>
    rcases Nat.eq_or_lt_of_le hfrom with rfl | hlt
    · unfold insertTokens
      rw [Act.play_bind (play_insertToken h hdone (tokens k) result)]
      rfl
    · obtain ⟨e, he⟩ := Option.ne_none_iff_exists'.mp (hfails k (Nat.le_refl k) hlt)
      unfold insertTokens
      rw [later_succ, Act.play_bind (play_insertToken_fails he (tokens k) result)]
      exact ih hlt (by omega) fun l hl => hfails l (by omega)

theorem play_insertTokens_fails (hfails : ∀ l, k ≤ l → outcomes l ≠ none) (result : Int × String) :
    (insertTokens accountId (tokens k) (later tokens k n) result).play (env conn insertsToken outcomes) p (s, k) =
      ((.ok none, p), s, k + n + 1) := by
  obtain ⟨e, he⟩ := Option.ne_none_iff_exists'.mp (hfails k (Nat.le_refl k))
  induction n generalizing k e with
  | zero =>
    unfold insertTokens
    rw [Act.play_bind (play_insertToken_fails he (tokens k) result)]
    rfl
  | succ n ih =>
    obtain ⟨e', he'⟩ := Option.ne_none_iff_exists'.mp (hfails (k + 1) (Nat.le_succ k))
    unfold insertTokens
    rw [later_succ, Act.play_bind (play_insertToken_fails he (tokens k) result)]
    refine (ih (fun l hl => hfails l (by omega)) e' he').trans ?_
    rw [Nat.add_right_comm k 1 n, Nat.add_assoc k n 1]

/-! ## The whole request -/

/-- After a sign-in that was granted. -/
def granted (conn : Connection) (id token : String) (s : Server lobbyDb) : Server lobbyDb :=
  ((s.autocommitted conn (.selectAccount id)).autocommitted conn
    (.insertSession (credentials s.db id).1 token)).autocommitted conn (.updateLastLogin id)

/-- What follows the query, from the account id and the hash. -/
def checkPassword (b : BCrypt) (id pw token : String) (rest : List String) (credentials : Int × String) :
    Act (Sql lobbyDb) ConnectionPool (Option (Int × String)) :=
  if b.validatePassword pw credentials.2 then
    insertTokens credentials.1 token rest (-1, "") >>= fun
      | none => pure none
      | some result => executeUpdate (.updateLastLogin id) >>= fun _ => pure (some result)
  else pure (some (-1, ""))

theorem play_signIn (h : Ready conn s) (token : String) (rest : List String) :
    (signIn b id pw token rest).play (env conn insertsToken outcomes) p (s, 0) =
      (checkPassword b id pw token rest (credentials s.db id)).play (env conn insertsToken outcomes) p
        (s.autocommitted conn (.selectAccount id), 0) := by
  have hselect : (executeQuery (.selectAccount id) : Act (Sql lobbyDb) ConnectionPool _).play
      (env conn insertsToken outcomes) p (s, 0) =
      ((.ok (credentialRow s.db id), p),
        s.autocommitted conn (.selectAccount id), 0) := h.play_execute rfl
  exact Act.play_bind (f := fun row => checkPassword b id pw token rest (credentialsOf row)) hselect

theorem play_refused (h : Ready conn s) (hpw : verifies b s.db id pw = false) (token : String) (rest : List String) :
    (signIn b id pw token rest).play (env conn insertsToken outcomes) p (s, 0) =
      ((.ok (some (-1, "")), p), s.autocommitted conn (.selectAccount id), 0) := by
  have hpw : ¬b.validatePassword pw (credentials s.db id).2 = true := ne_true_of_eq_false hpw
  rw [play_signIn h, checkPassword, if_neg hpw, Act.play_pure]

theorem play_granted (h : Ready conn s) (hpw : verifies b s.db id pw = true) {m : Nat} (hm : m ≤ n)
    (hfails : ∀ l < m, outcomes l ≠ none) (hdone : outcomes m = none) :
    (signIn b id pw (tokens 0) (later tokens 0 n)).play (env conn insertsToken outcomes) p (s, 0) =
      ((.ok (some ((credentials s.db id).1, tokens m)), p), granted conn id (tokens m) s, m + 1) := by
  have hpw : b.validatePassword pw (credentials s.db id).2 = true := hpw
  have hready := h.autocommitted (.selectAccount id)
  have hloop : (insertTokens (credentials s.db id).1 (tokens 0) (later tokens 0 n) (-1, "")).play
      (env conn insertsToken outcomes) p (s.autocommitted conn (.selectAccount id), 0) = _ :=
    play_insertTokens hready (Nat.zero_le m) (by omega) (fun l _ => hfails l) hdone (-1, "")
  have hupdate : (executeUpdate (.updateLastLogin id) : Act (Sql lobbyDb) ConnectionPool _).play
      (env conn insertsToken outcomes) p
      ((s.autocommitted conn (.selectAccount id)).autocommitted conn
        (.insertSession (credentials s.db id).1 (tokens m)), m + 1) = _ :=
    (hready.autocommitted (.insertSession (credentials s.db id).1 (tokens m))).play_execute rfl
  rw [play_signIn h, checkPassword, if_pos hpw]
  exact (Act.play_bind hloop).trans (Act.play_bind hupdate)

theorem play_loops (h : Ready conn s) (hpw : verifies b s.db id pw = true) (hfails : ∀ l, outcomes l ≠ none) :
    (signIn b id pw (tokens 0) (later tokens 0 n)).play (env conn insertsToken outcomes) p (s, 0) =
      ((.ok none, p), s.autocommitted conn (.selectAccount id), n + 1) := by
  have hpw : b.validatePassword pw (credentials s.db id).2 = true := hpw
  have hloop : (insertTokens (credentials s.db id).1 (tokens 0) (later tokens 0 n) (-1, "")).play
      (env conn insertsToken outcomes) p (s.autocommitted conn (.selectAccount id), 0) = _ :=
    play_insertTokens_fails (fun l _ => hfails l) (-1, "")
  rw [play_signIn h, checkPassword, if_pos hpw]
  refine (Act.play_bind hloop).trans ?_
  rw [Nat.zero_add]
  rfl

theorem playSignIn_borrowed (hborrow : p.borrow a.held a.created = (some conn, p₁)) {result : Option (Int × String)}
    {s' : Server lobbyDb}
    (hsignIn : (signIn b id pw (tokens 0) (later tokens 0 n)).play (env conn insertsToken outcomes) p₁ (s, 0) =
      ((.ok result, p₁), s', k)) :
    playSignIn b a tokens outcomes conn id pw n p s =
      ((.ok result, if result.isSome then p₁.unborrow conn else p₁), s', k) := by
  unfold playSignIn trySignIn Act.play
  rw [prog_borrow_bind hborrow]
  refine (Act.play_bind hsignIn).trans ?_
  cases result <;> rfl

/-- `TrySignIn` returns after some number of retries, with a token that was inserted, or with none if the password
is wrong. -/
def Finishes (b : BCrypt) (a : Allocation) (tokens : Nat → String) (outcomes : Nat → Option SqlException)
    (conn : Connection) (id pw : String) (p : ConnectionPool) (s : Server lobbyDb) : Prop :=
  ∃ n r, (playSignIn b a tokens outcomes conn id pw n p s).1.1 = .ok (some r) ∧
    if verifies b s.db id pw then ∃ m, outcomes m = none ∧ r = ((credentials s.db id).1, tokens m) else r = (-1, "")

/-- A sign-in finishes if and only if the password is wrong, or an `INSERT` of a token returns at some time. -/
theorem sign_in_finishes_iff (h : Ready conn s) (hborrow : p.borrow a.held a.created = (some conn, p₁)) :
    Finishes b a tokens outcomes conn id pw p s ↔ verifies b s.db id pw = false ∨ ∃ m, outcomes m = none := by
  cases hpw : verifies b s.db id pw with
  | false =>
    refine iff_of_true ⟨0, (-1, ""), ?_, ?_⟩ (Or.inl rfl)
    · rw [playSignIn_borrowed hborrow (play_refused h hpw _ _)]
    · rw [hpw, if_neg Bool.false_ne_true]
  | true =>
    constructor
    · rintro ⟨n, r, hr, -⟩
      by_contra hnot
      push Not at hnot
      rw [playSignIn_borrowed hborrow (play_loops h hpw hnot.2)] at hr
      cases hr
    · rintro (hwrong | hsome)
      · cases hwrong
      -- The first of them ends the loop.
      have hmin (l : Nat) (hl : l < Nat.find hsome) : outcomes l ≠ none := Nat.find_min hsome hl
      have hdone := Nat.find_spec hsome
      refine ⟨Nat.find hsome, ((credentials s.db id).1, tokens (Nat.find hsome)), ?_, ?_⟩
      · rw [playSignIn_borrowed hborrow (play_granted h hpw (Nat.le_refl _) hmin hdone)]
      · rw [hpw, if_pos rfl]
        exact ⟨_, hdone, rfl⟩

theorem borrow_sample : ConnectionPool.borrow ⟨[0], []⟩ ({} : Allocation).held ({} : Allocation).created =
    (some 0, ⟨[], [0]⟩) := rfl

def sampleTokens (k : Nat) : String := if k = 0 then "5f" else "a0"

def firstTaken (k : Nat) : Option SqlException := if k = 0 then some ⟨1062, "Duplicate entry"⟩ else none

theorem sign_in_finishes_first_taken :
    Finishes samplePasswords {} sampleTokens firstTaken 0 "kim" "secret" ⟨[0], []⟩ (idle registeredDb 0 8) :=
  (sign_in_finishes_iff (ready_idle (D := lobbyDb) registeredDb 0 8) borrow_sample).mpr (Or.inr ⟨1, rfl⟩)

/-- The connection is lost, and every `INSERT` after that throws. -/
def connectionLost (_ : Nat) : Option SqlException := some ⟨2013, "Lost connection to MySQL server during query"⟩

theorem sign_in_never_finishes :
    (∀ n, (playSignIn samplePasswords {} sampleTokens connectionLost 0 "kim" "secret" n ⟨[0], []⟩
      (idle registeredDb 0 8)).1.1 = .ok none) ∧
    ¬Finishes samplePasswords {} sampleTokens connectionLost 0 "kim" "secret" ⟨[0], []⟩ (idle registeredDb 0 8) := by
  have hloops (n : Nat) : (playSignIn samplePasswords {} sampleTokens connectionLost 0 "kim" "secret" n ⟨[0], []⟩
      (idle registeredDb 0 8)).1.1 = .ok none := by
    have hready : Ready 0 (idle (D := lobbyDb) registeredDb 0 8) := ready_idle _ _ _
    rw [playSignIn_borrowed borrow_sample (play_loops hready rfl fun l => by simp [connectionLost])]
  refine ⟨hloops, ?_⟩
  rintro ⟨n, r, hr, -⟩
  rw [hloops n] at hr
  cases hr

/-! ## What a sign-in leaves behind -/

/-- The account whose password it is. -/
def Proves (b : BCrypt) (db : Database) (id pw : String) (accountId : Int) : Prop :=
  ∃ x ∈ db.account.rows, x.isActive = true ∧ x.userId = id ∧ x.accountId = accountId ∧
    b.validatePassword pw x.userPassword = true

def loggedIn (id : String) (now : Int) (x : Account) : Account :=
  if x.userId = id then { x with lastLogin := some now } else x

theorem writeAll_updateAccount (accounts : List Account) (db : Database) :
    writeAll (D := lobbyDb) (accounts.map .updateAccount) db =
      { db with account := accounts.foldl Table.replace db.account } := by
  induction accounts generalizing db with
  | nil => rfl
  | cons x accounts ih => exact ih _

/-- A row that has the time already is not written, and would not change. -/
theorem updateLastLogin_db (db : Database) (id : String) (now next : Int) :
    ∃ account, writeAll (D := lobbyDb) (Stmt.effect (.updateLastLogin id) now next db).writes db = { db with account } ∧
      account.rows = db.account.rows.map (loggedIn id now) := by
  let login : Account → Account := fun x => { x with lastLogin := some now }
  let changes : Account → Bool := fun x => decide (x.lastLogin ≠ some now) && decide (x.userId = id)
  have hwrites : (Stmt.effect (.updateLastLogin id) now next db).writes =
      (((db.account.rows.filter changes).map login).map .updateAccount) := by
    simp only [Stmt.effect, List.filter_filter, List.map_map]
    rfl
  refine ⟨_, ?_, Table.rows_replace_all login (fun _ => rfl) changes db.account |>.trans ?_⟩
  · rw [hwrites]
    exact writeAll_updateAccount _ db
  · refine List.map_congr_left fun x _ => ?_
    by_cases hid : x.userId = id
    · have hlogged : loggedIn id now x = login x := if_pos hid
      by_cases hlogin : x.lastLogin = some now
      · have hsame : login x = x := by
          cases x
          cases hlogin
          rfl
        rw [hlogged, hsame, ite_self]
      · rw [hlogged, if_pos (by simp [changes, hid, hlogin])]
    · simp [changes, loggedIn, hid]

theorem granted_db (h : Ready conn s) (token : String) :
    ∃ account, account.rows = s.db.account.rows.map (loggedIn id s.now) ∧
      (granted conn id token s).db = { s.db with
        sessions := s.db.sessions ++ [⟨(credentials s.db id).1, token, s.now + 30 * secondsPerMinute⟩]
        account } := by
  have hselected := h.autocommitted (.selectAccount id)
  have hinserted := hselected.autocommitted (.insertSession (credentials s.db id).1 token)
  have hdb := hinserted.autocommitted_db (.updateLastLogin id)
  rw [hselected.autocommitted_db, h.autocommitted_db] at hdb
  obtain ⟨account, hwrites, hrows⟩ := updateLastLogin_db
    { s.db with sessions := s.db.sessions ++ [⟨(credentials s.db id).1, token, s.now + 30 * secondsPerMinute⟩] } id s.now
    ((s.autocommitted conn (.selectAccount id)).autocommitted conn (.insertSession (credentials s.db id).1 token)).next
  exact ⟨account, hrows, hdb.trans hwrites⟩

theorem activeAccount_some {db : Database} {x : Account} (h : activeAccount db id = some x) :
    x ∈ db.account.rows ∧ x.isActive = true ∧ x.userId = id := by
  have hfound := List.find?_some h
  exact ⟨List.mem_of_find?_eq_some h, by simpa using hfound⟩

theorem activeAccount_of_mem {db : Database} (hunique : ∀ x ∈ db.account.rows, ∀ y ∈ db.account.rows,
    x.userId = y.userId → x = y) {x : Account} (hx : x ∈ db.account.rows) (hactive : x.isActive = true)
    (hid : x.userId = id) : activeAccount db id = some x := by
  cases hfound : activeAccount db id with
  | none =>
    have hnot := List.find?_eq_none.mp hfound x hx
    simp [hactive, hid] at hnot
  | some y =>
    obtain ⟨hy, -, hyid⟩ := activeAccount_some hfound
    rw [hunique y hy x hx (hyid.trans hid.symm)]

/-- The password is checked against the account that it must prove. -/
theorem proves_iff_granted {db : Database} (hunique : ∀ x ∈ db.account.rows, ∀ y ∈ db.account.rows, x.userId = y.userId → x = y)
    (hids : ∀ x ∈ db.account.rows, 0 < x.accountId ∧ x.accountId < 2147483648)
    (hempty : b.validatePassword pw "" = false) (accountId : Int) :
    Proves b db id pw accountId ↔ Granted b db id pw accountId := by
  constructor
  · rintro ⟨x, hx, hactive, hid, rfl, hpw⟩
    have hrow : credentialRow db id = some (x.accountId, x.userPassword) := by
      rw [credentialRow, activeAccount_of_mem hunique hx hactive hid]
      rfl
    obtain ⟨hpos, hlt⟩ := hids x hx
    rw [Granted, hrow]
    exact ⟨hpw, (toInt32_eq_iff _).mpr ⟨by omega, by omega⟩⟩
  · rintro ⟨hpw, hfirst⟩
    cases hfound : activeAccount db id with
    | none =>
      have hrow : credentialRow db id = none := by rw [credentialRow, hfound, Option.map_none]
      rw [hrow] at hpw
      exact absurd hpw (by simp [credentialsOf, hempty])
    | some x =>
      obtain ⟨hx, hactive, hid⟩ := activeAccount_some hfound
      have hrow : credentialRow db id = some (x.accountId, x.userPassword) := by
        rw [credentialRow, hfound, Option.map_some]
      rw [hrow] at hpw hfirst
      obtain ⟨hpos, hlt⟩ := hids x hx
      have hfits : toInt32 x.accountId = x.accountId := (toInt32_eq_iff _).mpr ⟨by omega, by omega⟩
      exact ⟨x, hx, hactive, hid, hfits.symm.trans hfirst, hpw⟩

/-- What a sign-in returns, and what it leaves in the tables: where the account ids fit in an `int`, it grants
exactly what the password proves. -/
theorem sign_in_grants (b : BCrypt) (a : Allocation) (tokens : Nat → String) (outcomes : Nat → Option SqlException)
    (id pw : String) (n : Nat) (h : Ready conn s) (hborrow : p.borrow a.held a.created = (some conn, p₁))
    (hunique : ∀ x ∈ s.db.account.rows, ∀ y ∈ s.db.account.rows, x.userId = y.userId → x = y)
    (hids : ∀ x ∈ s.db.account.rows, 0 < x.accountId ∧ x.accountId < 2147483648)
    (hempty : b.validatePassword pw "" = false) (hfails : ∀ l < n, outcomes l ≠ none) (hdone : outcomes n = none) :
    ∃ r s' k, playSignIn b a tokens outcomes conn id pw n p s = ((.ok (some r), p₁.unborrow conn), s', k) ∧
      (∀ accountId, r.1 = accountId ∧ accountId ≠ -1 ↔ Proves b s.db id pw accountId) ∧
      (r.1 ≠ -1 → ∃ account, account.rows = s.db.account.rows.map (loggedIn id s.now) ∧
        s'.db = { s.db with
          sessions := s.db.sessions ++ [⟨r.1, r.2, s.now + 30 * secondsPerMinute⟩]
          account }) ∧
      (r.1 = -1 → r = (-1, "") ∧ s'.db = s.db) := by
  have hproves (accountId : Int) : Proves b s.db id pw accountId ↔
      verifies b s.db id pw = true ∧ (credentials s.db id).1 = accountId :=
    proves_iff_granted hunique hids hempty accountId
  cases hpw : verifies b s.db id pw with
  | false =>
    refine ⟨_, _, _, playSignIn_borrowed hborrow (play_refused h hpw _ _), fun accountId => ?_, ?_, ?_⟩
    · rw [hproves, hpw]
      refine iff_of_false ?_ ?_
      · rintro ⟨rfl, hne⟩
        exact hne rfl
      · rintro ⟨⟨⟩, -⟩
    · intro hne
      exact absurd rfl hne
    · intro _
      refine ⟨rfl, ?_⟩
      rw [h.autocommitted_db]
      rfl
  | true =>
    obtain ⟨account, hrows, hdb⟩ := granted_db h (tokens n)
    have hgranted : (credentials s.db id).1 ≠ -1 := by
      obtain ⟨x, hx, -, -, hid, -⟩ := (hproves _).mpr ⟨hpw, rfl⟩
      have hpos := (hids x hx).1
      omega
    refine ⟨_, _, _, playSignIn_borrowed hborrow (play_granted h hpw (Nat.le_refl n) hfails hdone), fun accountId => ?_,
      fun _ => ⟨account, hrows, hdb⟩, ?_⟩
    · rw [hproves, hpw]
      constructor
      · rintro ⟨rfl, -⟩
        exact ⟨rfl, rfl⟩
      · rintro ⟨-, rfl⟩
        exact ⟨rfl, hgranted⟩
    · intro heq
      exact absurd heq hgranted

theorem sign_in_grants_kim : ∃ r s' k,
    playSignIn samplePasswords {} sampleTokens firstTaken 0 "kim" "secret" 1 ⟨[0], []⟩ (idle registeredDb 0 8) =
      ((.ok (some r), ⟨[0], []⟩), s', k) ∧ r.1 = 7 := by
  obtain ⟨r, s', k, hplay, hgrants, -, -⟩ := sign_in_grants samplePasswords {} sampleTokens firstTaken "kim" "secret" 1
    (ready_idle (D := lobbyDb) registeredDb 0 8) borrow_sample (by decide) (by decide) (by decide) (by decide) rfl
  have hproves : Proves samplePasswords registeredDb "kim" "secret" 7 := by
    unfold Proves
    decide
  exact ⟨r, s', k, hplay, ((hgrants 7).mpr hproves).1⟩

/-- The id of the account is cut to an `int`. -/
def wideDb : Database := { emptyDb with account := Table.empty.insert ⟨4294967303, "kim", "secret", true, none, 0⟩ }

theorem sign_in_wide_account :
    (playSignIn samplePasswords {} sampleTokens (fun _ => none) 0 "kim" "secret" 0 ⟨[0], []⟩ (idle wideDb 0 8)).1.1 =
      .ok (some (7, "5f")) ∧
    (∀ x ∈ wideDb.account.rows, 0 < x.accountId) ∧ ¬Proves samplePasswords wideDb "kim" "secret" 7 := by
  refine ⟨rfl, by decide, ?_⟩
  unfold Proves
  decide

end Lobby
