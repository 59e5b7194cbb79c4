import J1Server.Lobby.Handshake
import J1Server.Lobby.Rules
import J1Server.Lobby.Survival

/-! # The account directory

Sign-ups, sign-ins and checks of an id, on any number of connections at once.
Whatever throws, the accounts only become more, and every answer is that of the
accounts at one moment while its request ran. -/

namespace Lobby

open Lib Lib.Server Core

/-! ## Directory -/

/-- The accounts, but for the times of their logins. -/
def directory (db : Database) : List Account := db.account.rows.map Account.identity

/-- The account that an id belongs to. -/
def findActive (dir : List Account) (id : String) : Option Account := dir.find? fun a => a.isActive ∧ a.userId = id

def credentialsIn (dir : List Account) (id : String) : Int × String :=
  credentialsOf ((findActive dir id).map fun a => (a.accountId, a.userPassword))

theorem findActive_directory (db : Database) (id : String) :
    findActive (directory db) id = (activeAccount db id).map Account.identity := by
  unfold findActive directory activeAccount
  rw [List.find?_map]
  rfl

theorem credentialRow_directory (db : Database) (id : String) :
    credentialsOf (credentialRow db id) = credentialsIn (directory db) id := by
  rw [credentialsIn, findActive_directory, Option.map_map]
  rfl

/-! ## The requests -/

inductive AccountTask
  | checkId (alloc : Allocation) (connections : ConnectionPool) (id : String)
  | join (alloc : Allocation) (connections : ConnectionPool) (id pw : String)
  | login (alloc : Allocation) (connections : ConnectionPool) (id pw token : String) (tokens : List String)

/-- The result that the response has; a sign-in has none while it is in its loop. -/
inductive AccountResult
  | checkId (result : Except SqlException Bool)
  | join (result : Except SqlException Bool)
  | login (result : Except SqlException (Option ResLogin))

def handleReqCheckId (a : Allocation) (id : String) : Act (Sql lobbyDb) ConnectionPool Bool := do
  let success ← tryCheckId a id
  pure success

def handleReqJoin (b : BCrypt) (a : Allocation) (id pw : String) : Act (Sql lobbyDb) ConnectionPool Bool := do
  let success ← trySignUp b a id pw
  pure success

def AccountTask.process (b : BCrypt) : AccountTask → Prog (Sql lobbyDb) AccountResult
  | .checkId alloc connections id => do
    let r ← (handleReqCheckId alloc id).prog connections
    pure (.checkId r.1)
  | .join alloc connections id pw => do
    let r ← (handleReqJoin b alloc id pw).prog connections
    pure (.join r.1)
  | .login alloc connections id pw token tokens => do
    let r ← (handleReqLogin b alloc id pw token tokens).prog connections
    pure (.login r.1)

/-- What a directory says to a sign-in: the account, and one of the tokens that were drawn. -/
def SignedIn (b : BCrypt) (dir : List Account) (id pw : String) (tokens : List String) (result : ResLogin) : Prop :=
  if b.validatePassword pw (credentialsIn dir id).2 then
    result.playerId = (credentialsIn dir id).1 ∧ result.token ∈ tokens
  else result = ⟨-1, ""⟩

/-- The answer of a directory. A sign-up is answered by what it adds. -/
def AccountTask.AnsweredBy (b : BCrypt) (dir : List Account) : AccountTask → AccountResult → Prop
  | .checkId _ _ id, .checkId (.ok result) => result = (findActive dir id).isSome
  | .login _ _ id pw token tokens, .login (.ok (some result)) => SignedIn b dir id pw (token :: tokens) result
  | _, _ => True

def HasAccount (b : BCrypt) (dir : List Account) (id pw : String) : Prop :=
  ∃ a ∈ dir, a.isActive = true ∧ a.userId = id ∧ a.userPassword = b.generateHash pw

/-- A confirmed sign-up has its account. -/
def AccountTask.Recorded (b : BCrypt) (dir : List Account) : AccountTask → AccountResult → Prop
  | .join _ _ id pw, .join (.ok true) => HasAccount b dir id pw
  | _, _ => True

/-! ## What a statement changes -/

def Write.inserted? : Write → Option Account
  | .insertAccount a => some a.identity
  | _ => none

def inserted (es : List (Entry lobbyDb)) : List Account := es.filterMap fun e => e.write.inserted?

/-- No account is added, and none is changed but for its login. -/
def Write.Renews (dir : List Account) : Write → Prop
  | .insertAccount _ => False
  | .updateAccount a => a.identity ∈ dir
  | _ => True

theorem directory_renewed {db : Database} {w : Write} (h : w.Renews (directory db)) :
    directory (w.apply db) = directory db := by
  cases w with
  | insertAccount a => exact h.elim
  | updateAccount a =>
    obtain ⟨x, hx, hidentity⟩ := List.mem_map.mp h
    change (Table.replaceRows Account.accountId a db.account.rows).map Account.identity = _
    rw [Table.replaceRows, List.map_map]
    apply List.map_congr_left
    intro y hy
    simp only [Function.comp_apply]
    split
    · rename_i hkey
      have hyx : y = x := List.inj_on_of_nodup_map db.account.nodup hy hx
        (hkey.trans (congrArg Account.accountId hidentity).symm)
      rw [hyx, hidentity]
    · rfl
  | _ => rfl

theorem directory_applyAll {es : List (Entry lobbyDb)} {db : Database} (h : ∀ e ∈ es, e.write.Renews (directory db)) :
    directory (applyAll es db) = directory db := by
  induction es generalizing db with
  | nil => rfl
  | cons e es ih =>
    obtain ⟨he, hrest⟩ := List.forall_mem_cons.mp h
    have hsame := directory_renewed he
    refine (ih fun x hx => ?_).trans hsame
    rw [hsame]
    exact hrest x hx

theorem inserted_renewed {es : List (Entry lobbyDb)} {dir : List Account} (h : ∀ e ∈ es, e.write.Renews dir) :
    inserted es = [] := by
  unfold inserted
  rw [List.filterMap_eq_nil_iff]
  intro e he
  have hrenews := h e he
  cases hw : e.write with
  | insertAccount a =>
    rw [hw] at hrenews
    exact hrenews.elim
  | _ => rfl

/-- Only a sign-up adds an account. -/
theorem effect_renews {st : Stmt} (hst : ∀ userId userPassword, st ≠ .insertAccount userId userPassword)
    {now next : Int} {db : Database} {w : Write} (hw : w ∈ (st.effect now next db).writes) :
    w.Renews (directory db) := by
  cases st with
  | insertAccount userId userPassword => exact absurd rfl (hst userId userPassword)
  | updateLastLogin userId =>
    obtain ⟨a, ha, rfl⟩ := List.mem_map.mp hw
    have hrow : a ∈ db.account.rows := (List.mem_filter.mp (List.mem_filter.mp ha).1).1
    have hmem : a.identity ∈ directory db := List.mem_map_of_mem hrow
    exact hmem
  | deleteBase id accountId =>
    simp only [Stmt.effect] at hw
    split at hw
    · split at hw
      · obtain rfl := List.mem_singleton.mp hw
        trivial
      · cases hw
    · cases hw
  | insertSession | insertBase | insertCombat | insertSkin | deleteCombat | deleteSkin | deleteInventory =>
    obtain rfl := List.mem_singleton.mp hw
    trivial
  | selectAccount | selectToken | selectCharacters | selectNickname | selectLastInsertId => cases hw

/-! ## Growth -/

/-- The ids of the accounts have all been drawn. -/
def Keyed (s : Server lobbyDb) : Prop := ∀ a ∈ directory s.db, a.accountId < s.next

structure Grows (s s' : Server lobbyDb) : Prop where
  next : s.next ≤ s'.next
  keyed : Keyed s → Keyed s'
  log : ∃ ext, s'.history = s.history ++ ext ∧ directory s'.db = directory s.db ++ inserted ext

variable {i : Nat} {s s' s₁ s₂ : Server lobbyDb} {st : Stmt}

theorem Grows.of_renewed (ext : List (Entry lobbyDb)) (hnext : s.next ≤ s'.next)
    (hhistory : s'.history = s.history ++ ext) (hdb : directory s'.db = directory s.db) (hext : inserted ext = []) :
    Grows s s' := by
  refine ⟨hnext, fun hkeyed a ha => ?_, ext, hhistory, by rw [hdb, hext, List.append_nil]⟩
  rw [hdb] at ha
  exact Int.lt_of_lt_of_le (hkeyed a ha) hnext

theorem Grows.of_quiet (h : Quiet i s s') : Grows s s' :=
  Grows.of_renewed [] h.next (by simp [h.history]) (by rw [h.db]) rfl

theorem Grows.refl (s : Server lobbyDb) : Grows s s := Grows.of_quiet (Quiet.refl 0 s)

theorem Grows.trans {a b c : Server lobbyDb} (h : Grows a b) (h' : Grows b c) : Grows a c := by
  refine ⟨Int.le_trans h.next h'.next, fun hkeyed => h'.keyed (h.keyed hkeyed), ?_⟩
  obtain ⟨es, hh, hdb⟩ := h.log
  obtain ⟨fs, hh', hdb'⟩ := h'.log
  refine ⟨es ++ fs, by rw [hh', hh, List.append_assoc], ?_⟩
  rw [hdb', hdb, List.append_assoc, inserted, inserted, inserted, List.filterMap_append]

theorem Grows.directory (h : Grows s s') : directory s.db <+: directory s'.db := by
  obtain ⟨ext, -, hdb⟩ := h.log
  exact ⟨_, hdb.symm⟩

theorem surroundings_grows (i : Nat) : Surroundings (D := lobbyDb) i (Others Grows i) Grows Grows :=
  surroundings_others lobbyDb_lawful Grows.refl (fun _ _ _ h h' => h.trans h') fun _ _ h => Grows.of_quiet h

/-- Nobody else takes the id of a new account before it is committed. -/
theorem publish_grows (hkeyed : Keyed s) (hran : Ran (Others Grows i) i st s s₁ s₂) : Grows s₂ (s₂.publish i) := by
  have hS := surroundings_grows i
  have hkeyed₁ : Keyed s₁ := hran.before.2.keyed hkeyed
  have hgrows : Grows s₁ s₂ := hran.ran_during hS
  have hpending : (s₂.conns i).pending = s₁.tag i (st.effect s₁.now s₁.next s₁.db).writes := by
    rw [hran.conn hS, Server.effect, hran.view]
  have hdb : (s₂.publish i).db = applyAll (s₁.tag i (st.effect s₁.now s₁.next s₁.db).writes) s₂.db := by
    rw [publish_db, hpending]
  have hhistory : (s₂.publish i).history = s₂.history ++ s₁.tag i (st.effect s₁.now s₁.next s₁.db).writes := by
    rw [publish_history, hpending]
  by_cases hst : ∀ userId userPassword, st ≠ .insertAccount userId userPassword
  · have hrenews : ∀ e ∈ s₁.tag i (st.effect s₁.now s₁.next s₁.db).writes, e.write.Renews (directory s₂.db) := by
      intro e he
      obtain ⟨w, hw, rfl⟩ := List.mem_map.mp he
      have hbefore := effect_renews hst hw
      cases w with
      | updateAccount a => exact hgrows.directory.subset hbefore
      | _ => exact hbefore
    refine Grows.of_renewed _ (Int.le_refl _) hhistory ?_ (inserted_renewed hrenews)
    rw [hdb, directory_applyAll hrenews]
  · simp only [not_forall, not_not] at hst
    obtain ⟨userId, userPassword, rfl⟩ := hst
    have hnone : s₁.db.account.get? s₁.next = none := by
      rw [Table.get?_eq_none]
      intro a ha hid
      have hlt := hkeyed₁ a.identity (List.mem_map_of_mem ha)
      change a.accountId < s₁.next at hlt
      omega
    have hheld : Held i [] (RowKey.account s₁.next) (RowValue.account none) s₂ :=
      hS.locked List.mem_cons_self (congrArg RowValue.account hnone) hran.between
    have hfree : s₂.db.account.get? s₁.next = none := RowValue.account.inj hheld.look
    have hrows : directory (s₂.publish i).db =
        directory s₂.db ++ [⟨s₁.next, userId, userPassword, true, none, s₁.now⟩] := by
      rw [hdb]
      change ((s₂.db.account.insert ⟨s₁.next, userId, userPassword, true, none, s₁.now⟩).rows).map Account.identity = _
      rw [Table.rows_insert hfree, List.map_append]
      rfl
    refine ⟨Int.le_refl _, fun hkeyed₂ a ha => ?_, _, hhistory, hrows⟩
    rw [hrows] at ha
    rcases List.mem_append.mp ha with ha | ha
    · exact hkeyed₂ a ha
    · obtain rfl := List.mem_singleton.mp ha
      have hnext : s₁.next + 1 ≤ s₂.next := hran.between.1.next
      change s₁.next < s₂.next
      omega

theorem autonomous_grows : Autonomous Keyed Grows where
  lawful := lobbyDb_lawful
  refl := Grows.refl
  trans _ _ _ h h' := h.trans h'
  quiet _ _ _ h := Grows.of_quiet h
  tick s _ := Grows.of_renewed [] (Int.le_refl _) (by simp [Server.tick]) rfl rfl
  begin_task s i := Grows.of_renewed [] (Int.le_refl _) (by simp) rfl rfl
  inv _ _ h hg := hg.keyed h
  publish _ _ _ _ _ hkeyed hran := publish_grows hkeyed hran

/-! ## Between two statements -/

variable {law : Call lobbyDb → Harm → Bool} {α σ : Type} {t : σ}

/-- The statement runs in `s₁`, and the accounts that it inserts are there in `s'`. -/
theorem safe_statement (st : Stmt) (h : Resting Keyed i s) {f : st.Reply → Act (Sql lobbyDb) σ α}
    {Q : Except SqlException α × σ → Server lobbyDb → Prop}
    (hok : ∀ s₁ s', Grows s s₁ → Grows s₁ s' → Resting Keyed i s' →
      (∀ w ∈ (st.effect s₁.now s₁.next s₁.db).writes, ∀ a, w.inserted? = some a → a ∈ directory s'.db) →
      Safe (Others Grows i) (Step law i) Grows ((f (st.effect s₁.now s₁.next s₁.db).reply).prog t) (fun _ => Q) s')
    (herr : ∀ e s', Resting Keyed i s' → Grows s s' → Q (.error e, t) s') :
    Safe (Others Grows i) (Step law i) Grows ((execute (D := lobbyDb) st >>= f).prog t) (fun _ => Q) s := by
  refine autonomous_grows.safe_statement st h (fun s₁ s₂ hran hbefore hafter hresting => ?_) herr
  have heffect : s₁.effect i st = st.effect s₁.now s₁.next s₁.db := by rw [Server.effect, hran.view]
  rw [heffect]
  refine hok s₁ _ hbefore hafter hresting fun w hw a ha => ?_
  obtain ⟨ext, hhistory, hdb⟩ := (publish_grows h.inv hran).log
  have hpending : (s₂.conns i).pending = ext := List.append_cancel_left hhistory
  rw [hran.conn (surroundings_grows i), heffect] at hpending
  rw [hdb, ← hpending]
  exact List.mem_append_right _ (List.mem_filterMap.mpr ⟨_, List.mem_map_of_mem hw, ha⟩)

/-! ## The requests, one after the other -/

/-- Between `s` and `s'`, the accounts were `dir`. -/
def Passed (s s' : Server lobbyDb) (dir : List Account) : Prop := directory s.db <+: dir ∧ dir <+: directory s'.db

theorem Passed.grows {dir : List Account} {s'' : Server lobbyDb} (h : Passed s s' dir) (hg : Grows s' s'') :
    Passed s s'' dir := ⟨h.1, h.2.trans hg.directory⟩

section

variable {b : BCrypt} {alloc : Allocation} {connections p : ConnectionPool} {id pw : String}

theorem checkId_safe (h : Resting Keyed i s) :
    Safe (Others Grows i) (Step law i) Grows ((handleReqCheckId alloc id).prog p) (fun _ r s' => Resting Keyed i s' ∧
      Grows s s' ∧ ∀ result, r.1 = .ok result → ∃ dir, Passed s s' dir ∧ result = (findActive dir id).isSome) s := by
  unfold handleReqCheckId tryCheckId
  refine safe_borrow autonomous_grows h (fun conn p' => ?_) ?_
  · refine safe_statement (.selectAccount id) h (fun s₁ s' hbefore hafter hresting _ => ?_) ?_
    · refine autonomous_grows.safe_done hresting fun s'' hresting' hg =>
        ⟨hresting', hbefore.trans (hafter.trans hg), ?_⟩
      rintro result ⟨⟩
      refine ⟨directory s₁.db, ⟨hbefore.directory, (hafter.trans hg).directory⟩, ?_⟩
      rw [findActive_directory]
      simp [Stmt.effect]
    · rintro e s' hresting hg
      exact ⟨hresting, hg, by rintro _ ⟨⟩⟩
  · rintro e s' hresting hg
    exact ⟨hresting, hg, by rintro _ ⟨⟩⟩

theorem insertAccount_safe (h : Resting Keyed i s) :
    Safe (Others Grows i) (Step law i) Grows
      ((executeUpdateGenKeys (.insertAccount id (b.generateHash pw)) fun key => key).prog p) (fun _ r s' =>
        Resting Keyed i s' ∧ Grows s s' ∧ (r.1.isOk = true → HasAccount b (directory s'.db) id pw)) s := by
  unfold executeUpdateGenKeys
  refine safe_statement (.insertAccount id (b.generateHash pw)) h (fun s₁ s' hbefore hafter hresting hadded => ?_) ?_
  · have hmem := hadded _ (List.mem_singleton.mpr rfl) _ rfl
    refine safe_statement _ hresting (fun s₂ s'' hbefore' hafter' hresting' _ => ?_) ?_
    · refine autonomous_grows.safe_done hresting' fun s₃ hresting₃ hg => ?_
      have hrest : Grows s' s₃ := hbefore'.trans (hafter'.trans hg)
      exact ⟨hresting₃, hbefore.trans (hafter.trans hrest), fun _ => ⟨_, hrest.directory.subset hmem, rfl, rfl, rfl⟩⟩
    · rintro e s'' hresting' hg
      exact ⟨hresting', hbefore.trans (hafter.trans hg), by rintro ⟨⟩⟩
  · rintro e s' hresting hg
    exact ⟨hresting, hg, by rintro ⟨⟩⟩

theorem join_safe (h : Resting Keyed i s) :
    Safe (Others Grows i) (Step law i) Grows ((handleReqJoin b alloc id pw).prog p) (fun _ r s' => Resting Keyed i s' ∧
      Grows s s' ∧ (r.1 = .ok true → HasAccount b (directory s'.db) id pw)) s := by
  unfold handleReqJoin trySignUp
  refine safe_borrow autonomous_grows h (fun conn p' => ?_) ?_
  · refine autonomous_grows.safe_bind (insertAccount_safe h) (fun accountId t' s' hP => ?_) fun e t' s' hP => ?_
    · obtain ⟨hresting, hg, hmade⟩ := hP
      exact autonomous_grows.safe_done hresting fun s'' hresting' hg' =>
        ⟨hresting', hg.trans hg', fun _ => (hmade rfl).imp fun _ ha => ⟨hg'.directory.subset ha.1, ha.2⟩⟩
    · exact autonomous_grows.safe_done hP.1 fun s'' hresting' hg' => ⟨hresting', hP.2.1.trans hg', by rintro ⟨⟩⟩
  · rintro e s' hresting hg
    exact ⟨hresting, hg, by rintro ⟨⟩⟩

theorem login_safe (h : Resting Keyed i s) {token : String} {tokens : List String} :
    Safe (Others Grows i) (Step law i) Grows ((handleReqLogin b alloc id pw token tokens).prog p) (fun _ r s' =>
      Resting Keyed i s' ∧ Grows s s' ∧ ∀ result, r.1 = .ok (some result) →
        ∃ dir, Passed s s' dir ∧ SignedIn b dir id pw (token :: tokens) result) s := by
  have hstable : ∀ (result : Int × String) s₁ s₂,
      (∃ dir, Passed s s₁ dir ∧ SignedIn b dir id pw (token :: tokens) ⟨result.1, result.2⟩) → Grows s₁ s₂ →
      ∃ dir, Passed s s₂ dir ∧ SignedIn b dir id pw (token :: tokens) ⟨result.1, result.2⟩ :=
    fun result s₁ s₂ h hg => h.imp fun dir hdir => ⟨hdir.1.grows hg, hdir.2⟩
  refine login_rule autonomous_grows h ⟨hstable, fun s₁ s' hbefore hafter hinvalid => ?_,
    fun s₁ hbefore hvalid x hx => ⟨hstable, fun s₀ s₂ s₃ hg _ hinserted => ?_⟩⟩
  · refine ⟨directory s₁.db, ⟨hbefore.directory, hafter.directory⟩, ?_⟩
    rw [credentialRow_directory] at hinvalid
    rw [SignedIn, hinvalid]
    rfl
  · refine ⟨directory s₁.db, ⟨hbefore.directory, (hg.trans hinserted).directory⟩, ?_⟩
    rw [credentialRow_directory] at hvalid ⊢
    rw [SignedIn, if_pos hvalid]
    exact ⟨rfl, hx⟩

theorem process_safe (h : Resting Keyed i s) (task : AccountTask) :
    Safe (Others Grows i) (Step law i) Grows (task.process b) (fun _ r s' => Resting Keyed i s' ∧
      task.Recorded b (directory s'.db) r ∧ ∃ dir, Passed s s' dir ∧ task.AnsweredBy b dir r) s := by
  have hrefl := (autonomous_grows.surroundings i).refl
  cases task with
  | checkId alloc connections id =>
    refine Safe.bind ((checkId_safe h).mono ?_) hrefl
    rintro tr ⟨r, t'⟩ s' ⟨hresting, hg, hanswer⟩
    refine autonomous_grows.safe_done hresting fun s'' hresting' hg' => ⟨hresting', trivial, ?_⟩
    cases r with
    | ok result =>
      obtain ⟨dir, hpassed, hresult⟩ := hanswer result rfl
      exact ⟨dir, hpassed.grows hg', hresult⟩
    | error e => exact ⟨directory s.db, ⟨List.prefix_rfl, (hg.trans hg').directory⟩, trivial⟩
  | join alloc connections id pw =>
    refine Safe.bind ((join_safe h).mono ?_) hrefl
    rintro tr ⟨r, t'⟩ s' ⟨hresting, hg, hmade⟩
    refine autonomous_grows.safe_done hresting fun s'' hresting' hg' => ⟨hresting', ?_, directory s.db,
      ⟨List.prefix_rfl, (hg.trans hg').directory⟩, trivial⟩
    match r, hmade with
    | .ok true, hmade => exact (hmade rfl).imp fun _ ha => ⟨hg'.directory.subset ha.1, ha.2⟩
    | .ok false, _ => trivial
    | .error e, _ => trivial
  | login alloc connections id pw token tokens =>
    refine Safe.bind ((login_safe h).mono ?_) hrefl
    rintro tr ⟨r, t'⟩ s' ⟨hresting, hg, hsigned⟩
    refine autonomous_grows.safe_done hresting fun s'' hresting' hg' => ⟨hresting', trivial, ?_⟩
    match r, hsigned with
    | .ok (some result), hsigned =>
      obtain ⟨dir, hpassed, hresult⟩ := hsigned result rfl
      exact ⟨dir, hpassed.grows hg', hresult⟩
    | .ok none, _ => exact ⟨directory s.db, ⟨List.prefix_rfl, (hg.trans hg').directory⟩, trivial⟩
    | .error e, _ => exact ⟨directory s.db, ⟨List.prefix_rfl, (hg.trans hg').directory⟩, trivial⟩

end

/-! ## Every run -/

section

variable {b : BCrypt}

theorem Recorded.grows {dir dir' : List Account} {task : AccountTask} {r : AccountResult} (h : task.Recorded b dir r)
    (hdir : dir <+: dir') : task.Recorded b dir' r := by
  unfold AccountTask.Recorded at h ⊢
  split at h
  · exact h.imp fun _ ha => ⟨hdir.subset ha.1, ha.2⟩
  · trivial

theorem account_serves (law : Call lobbyDb → Harm → Bool) (b : BCrypt) :
    Serves law Keyed Grows (AccountTask.process b) (fun s₀ task r s =>
      task.Recorded b (directory s.db) r ∧ ∃ dir, Passed s₀ s dir ∧ task.AnsweredBy b dir r) where
  toAutonomous := autonomous_grows
  earlier _ _ _ _ _ hg h := h.imp_right fun ⟨dir, hpassed, hanswer⟩ =>
    ⟨dir, ⟨hg.directory.trans hpassed.1, hpassed.2⟩, hanswer⟩
  later _ _ _ _ _ h hg :=
    ⟨Recorded.grows h.1 hg.directory, h.2.imp fun _ hdir => ⟨hdir.1.grows hg, hdir.2⟩⟩
  spec _ task _ h := process_safe h task

abbrev AccountPool := Pool lobbyDb AccountTask AccountResult

variable {db : Database} {now next : Int} {es fs : List (PoolEvent AccountTask)} {p q : AccountPool}

theorem keyed_idle (hkeys : ∀ a ∈ db.account.rows, a.accountId < next) : Keyed (idle (D := lobbyDb) db now next) := by
  intro a ha
  obtain ⟨x, hx, rfl⟩ := List.mem_map.mp ha
  exact hkeys x hx

theorem findActive_unique {dir dir' : List Account} (hunique : (dir'.map Account.userId).Nodup) (hdir : dir <+: dir')
    {a : Account} (ha : a ∈ dir) (hactive : a.isActive = true) : findActive dir a.userId = some a := by
  cases hfound : findActive dir a.userId with
  | none =>
    have hnot := List.find?_eq_none.mp hfound a ha
    simp [hactive] at hnot
  | some x =>
    have hx := List.find?_some hfound
    simp only [decide_eq_true_eq] at hx
    have hmem := hdir.subset (List.mem_of_find?_eq_some hfound)
    rw [List.inj_on_of_nodup_map hunique hmem (hdir.subset ha) hx.2]

/-- Where every account has an id of its own, who has joined finds the id taken and can sign in, from then on,
with that password and no other, whatever else goes on. -/
theorem joined_can_sign_in (hkeys : ∀ a ∈ db.account.rows, a.accountId < next)
    (hstart : run (Pool.step law (AccountTask.process b)) (Pool.fresh (idle (D := lobbyDb) db now next)) es = some p)
    (hrun : run (Pool.step law (AccountTask.process b)) p fs = some q)
    (hunique : (q.server.db.account.rows.map Account.userId).Nodup) {x : Finished AccountTask AccountResult}
    (hx : x ∈ p.finished) {alloc : Allocation} {connections : ConnectionPool} {id pw : String}
    (htask : x.task = .join alloc connections id pw) (hconfirmed : x.result = .join (.ok true)) :
    ∃ a ∈ q.server.db.account.rows, a.userId = id ∧ a.userPassword = b.generateHash pw ∧
      ∀ y ∈ q.finished, (p.server.conns y.conn).task < y.no →
        (∀ alloc connections result, y.task = .checkId alloc connections id → y.result = .checkId (.ok result) →
          result = true) ∧
        (∀ alloc connections pw' token tokens result, y.task = .login alloc connections id pw' token tokens →
          y.result = .login (.ok (some result)) →
          if b.validatePassword pw' a.userPassword then
            result.playerId = toInt32 a.accountId ∧ result.token ∈ token :: tokens
          else result = ⟨-1, ""⟩) := by
  have hkeyed : Keyed (idle (D := lobbyDb) db now next) := keyed_idle hkeys
  have hserves := account_serves law b
  have hclosed : ∀ i, Closed i (idle (D := lobbyDb) db now next) := fun _ => ⟨rfl, rfl⟩
  have hrecorded := ((hserves.upheld (idle_wf ..) hkeyed hclosed hstart).done x hx).1
  rw [htask, hconfirmed] at hrecorded
  obtain ⟨a, ha, hactive, rfl, hpw⟩ := hrecorded
  obtain ⟨hgrows, hsince⟩ := hserves.begun_after (idle_wf ..) hkeyed hclosed hstart hrun
  have hids : ((directory q.server.db).map Account.userId).Nodup := by
    rw [directory, List.map_map]
    exact hunique
  obtain ⟨row, hrow, rfl⟩ := List.mem_map.mp (hgrows.directory.subset ha)
  refine ⟨row, hrow, rfl, hpw, fun y hy hlater => ?_⟩
  obtain ⟨-, seen, ⟨hbefore, hafter⟩, hanswer⟩ := hsince y hy hlater
  have hfound := findActive_unique hids hafter (hbefore.subset ha) hactive
  refine ⟨fun alloc connections result htask hresult => ?_,
    fun alloc connections pw' token tokens result htask hresult => ?_⟩
  · rw [htask, hresult] at hanswer
    have htaken : result = (findActive seen row.identity.userId).isSome := hanswer
    rw [htaken, hfound]
    rfl
  · rw [htask, hresult] at hanswer
    have hcredentials : credentialsIn seen row.identity.userId = (toInt32 row.accountId, row.userPassword) := by
      rw [credentialsIn, hfound]
      rfl
    have hsigned : SignedIn b seen row.identity.userId pw' (token :: tokens) result := hanswer
    rwa [SignedIn, hcredentials] at hsigned

end

def joinEvents : List (PoolEvent AccountTask) :=
  .start 0 (.join {} ⟨[0], []⟩ "kim" "secret") :: List.replicate 4 (.call 0 none) ++ [.finish 0]

/-- The sign-in goes on while somebody else joins. -/
def signInEvents : List (PoolEvent AccountTask) :=
  [.start 1 (.login {} ⟨[1], []⟩ "kim" "secret" "5f" []), .start 0 (.join {} ⟨[0], []⟩ "lee" "other"), .call 0 none,
    .call 1 none, .call 0 none] ++ List.replicate 5 (.call 1 none) ++ [.finish 1]

theorem joined_can_sign_in_sample : ∃ p q y playerId,
    run (Pool.step (fun _ _ => true) (AccountTask.process samplePasswords))
      (Pool.fresh (idle (D := lobbyDb) emptyDb 100 7)) joinEvents = some p ∧
    run (Pool.step (fun _ _ => true) (AccountTask.process samplePasswords)) p signInEvents = some q ∧
    y ∈ q.finished ∧ y.result = .login (.ok (some ⟨playerId, "5f"⟩)) ∧
    ∃ a ∈ q.server.db.account.rows, a.userId = "kim" ∧ playerId = toInt32 a.accountId := by
  obtain ⟨p, q, x, y, playerId, hp, hq, hx, hy, hjoin, hconfirmed, hlogin, hresult, hconn, hno, hbegun, hunique⟩ :
      ∃ (p q : AccountPool) (x y : Finished AccountTask AccountResult) (playerId : Int),
      run (Pool.step (fun _ _ => true) (AccountTask.process samplePasswords))
        (Pool.fresh (idle (D := lobbyDb) emptyDb 100 7)) joinEvents = some p ∧
      run (Pool.step (fun _ _ => true) (AccountTask.process samplePasswords)) p signInEvents = some q ∧
      p.finished = [x] ∧ q.finished = [x, y] ∧ x.task = .join {} ⟨[0], []⟩ "kim" "secret" ∧
      x.result = .join (.ok true) ∧ y.task = .login {} ⟨[1], []⟩ "kim" "secret" "5f" [] ∧
      y.result = .login (.ok (some ⟨playerId, "5f"⟩)) ∧ y.conn = 1 ∧ y.no = 1 ∧ (p.server.conns 1).task = 0 ∧
      q.server.db.account.rows.map Account.userId = ["kim", "lee"] :=
    ⟨_, _, _, _, _, rfl, rfl, rfl, rfl, rfl, rfl, rfl, rfl, rfl, rfl, rfl, rfl⟩
  have hkeys : ∀ a ∈ emptyDb.account.rows, a.accountId < (7 : Int) := by
    rintro a ⟨⟩
  obtain ⟨a, ha, hid, hpw, hall⟩ := joined_can_sign_in hkeys hp hq (by rw [hunique]; decide)
    (by rw [hx]; exact List.mem_singleton.mpr rfl) hjoin hconfirmed
  have hlater : (p.server.conns y.conn).task < y.no := by
    rw [hconn, hbegun, hno]
    exact Nat.zero_lt_one
  have hmem : y ∈ q.finished := by
    rw [hy]
    exact List.mem_cons_of_mem _ (List.mem_singleton.mpr rfl)
  have hsigned := (hall y hmem hlater).2 _ _ _ _ _ _ hlogin hresult
  rw [hpw] at hsigned
  exact ⟨p, q, y, playerId, hp, hq, hmem, hresult, a, ha, hid, hsigned.1⟩

end Lobby
