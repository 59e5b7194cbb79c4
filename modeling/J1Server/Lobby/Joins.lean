import J1Server.Lib.Books
import J1Server.Lobby.Directory

/-! # Accounts and sign-ups

No account appears that no sign-up asked for, and no sign-up makes two. Where the
answer is a success there is an account of its own, and where a statement threw
there may be one all the same. -/

namespace Lobby

open Lib Lib.Server Core

/-- The id and the hash of an account, and whether it is active. -/
def Account.enrolled (a : Account) : String × String × Bool := (a.userId, a.userPassword, a.isActive)

/-- The account that a sign-up asks for. -/
def AccountTask.asked (b : BCrypt) : AccountTask → Option (String × String × Bool)
  | .join _ _ id pw => some (id, b.generateHash pw, true)
  | _ => none

/-- The account that its client was told of. -/
def AccountTask.confirmed (b : BCrypt) (task : AccountTask) : AccountResult → Option (String × String × Bool)
  | .join (.ok true) => task.asked b
  | _ => none

def enrolled (es : List (Entry lobbyDb)) : List (String × String × Bool) := (inserted es).map Account.enrolled

/-- A task makes the account that it asked for, or none; and it makes it, where it was confirmed. -/
structure Enrolls (b : BCrypt) (task : AccountTask) (r : AccountResult) (part : List (Entry lobbyDb)) : Prop where
  asked : (enrolled part).Sublist (task.asked b).toList
  confirmed : (task.confirmed b r).toList.Sublist (enrolled part)

/-! ## One statement -/

def Stmt.enrolled? : Stmt → Option (String × String × Bool)
  | .insertAccount userId userPassword => some (userId, userPassword, true)
  | _ => none

/-- The connection has made these accounts so far. -/
def Adds (i : Nat) (accounts : List (String × String × Bool)) (s₀ s : Server lobbyDb) : Prop :=
  ∃ part, Committed i part s₀ s ∧ enrolled part = accounts

variable {law : Call lobbyDb → Harm → Bool} {i : Nat} {s₀ s s' : Server lobbyDb} {α σ : Type} {t : σ}
  {accounts accounts' : List (String × String × Bool)}

theorem enrolled_append (es fs : List (Entry lobbyDb)) : enrolled (es ++ fs) = enrolled es ++ enrolled fs := by
  unfold enrolled inserted
  rw [List.filterMap_append, List.map_append]

theorem enrolled_tag (s : Server lobbyDb) (st : Stmt) :
    enrolled (s.tag i (s.effect i st).writes) = st.enrolled?.toList := by
  by_cases hst : ∀ userId userPassword, st ≠ .insertAccount userId userPassword
  · have hrenews : ∀ e ∈ s.tag i (s.effect i st).writes, e.write.Renews (directory (s.view i)) := by
      intro e he
      obtain ⟨w, hw, rfl⟩ := List.mem_map.mp he
      exact effect_renews hst hw
    rw [enrolled, inserted_renewed hrenews]
    cases st with
    | insertAccount userId userPassword => exact absurd rfl (hst userId userPassword)
    | _ => rfl
  · simp only [not_forall, not_not] at hst
    obtain ⟨userId, userPassword, rfl⟩ := hst
    rfl

theorem Adds.rely (h : Adds i accounts s₀ s) (hr : Rely i s s') : Adds i accounts s₀ s' := by
  obtain ⟨part, hcommitted, hpart⟩ := h
  exact ⟨part, by simpa using hcommitted.trans hr.committed, hpart⟩

theorem Adds.trans (h : Adds i accounts s₀ s) {part : List (Entry lobbyDb)} (hc : Committed i part s s') :
    Adds i (accounts ++ enrolled part) s₀ s' := by
  obtain ⟨before, hcommitted, rfl⟩ := h
  exact ⟨before ++ part, hcommitted.trans hc, enrolled_append before part⟩

/-- A statement that throws may have been committed all the same. -/
theorem enroll_statement (st : Stmt) (hw : s.WF) (hclosed : Closed i s) (h : Adds i accounts s₀ s)
    {f : st.Reply → Act (Sql lobbyDb) σ α} {Q : Except SqlException α × σ → Server lobbyDb → Prop}
    (hok : ∀ reply s', s'.WF → Closed i s' → Adds i (accounts ++ st.enrolled?.toList) s₀ s' →
      Safe (Rely i) (Step law i) (fun _ _ => True) ((f reply).prog t) (fun _ => Q) s')
    (herr : ∀ e s' more, more.Sublist st.enrolled?.toList → Adds i (accounts ++ more) s₀ s' → Q (.error e, t) s') :
    Safe (Rely i) (Step law i) (fun _ _ => True) ((execute (D := lobbyDb) st >>= f).prog t) (fun _ => Q) s := by
  have hS : Surroundings (D := lobbyDb) i (Rely i) (fun _ _ => True) fun _ _ => True := surroundings_any lobbyDb_lawful
  refine hS.autocommitted hw hclosed (fun _ _ _ _ _ => ⟨trivial, trivial⟩) (fun s₁ s₂ hran => ?_) fun e s' hthrew => ?_
  · obtain ⟨hwf, hclosed'⟩ := hran.published hS
    have hmade := h.trans (hran.committed hS)
    rw [enrolled_tag] at hmade
    exact hok _ _ hwf hclosed' hmade
  · rcases hthrew.committed with hnone | ⟨s₁, s₂, -, hall⟩
    · exact herr e s' [] (List.nil_sublist _) (h.trans hnone)
    · have hmade := h.trans hall
      rw [enrolled_tag] at hmade
      exact herr e s' _ (List.Sublist.refl _) hmade

/-! ## One task -/

variable {b : BCrypt}

/-- Without a sign-up, nothing that a task writes is an account. -/
abbrev Enrolling (c : Call lobbyDb) : Prop := Records (D := lobbyDb) (fun w => Write.inserted? w = none) c

theorem calls_execute {st : Stmt} (hst : st.enrolled? = none) :
    ((execute (D := lobbyDb) st : Act (Sql lobbyDb) σ _).prog t).Calls Enrolling := by
  refine calls_statement ?_ (by rintro _ ⟨⟩)
  rintro _ ⟨⟩ now next db w hw
  have hrenews : w.Renews (directory db) := effect_renews (by rintro userId userPassword rfl; cases hst) hw
  cases w with
  | insertAccount a => exact hrenews.elim
  | _ => rfl

theorem borrow_calls {alloc : Allocation} {p : ConnectionPool} : ((borrow alloc).prog p).Calls Enrolling := by
  unfold borrow
  rw [Act.prog_get_bind]
  split <;> trivial

theorem insertTokens_calls (accountId : Int) (token : String) (tokens : List String) (result : Int × String)
    (p : ConnectionPool) : ((insertTokens accountId token tokens result).prog p).Calls Enrolling := by
  have hinsert : ∀ token result p, ((insertToken accountId token result).prog p).Calls Enrolling := by
    intro token result p
    unfold insertToken
    rw [Act.prog_tryCatch]
    refine Prog.Calls.bind (Act.calls_bind (calls_execute rfl) fun _ _ => trivial) ?_
    rintro ⟨r, p'⟩
    cases r <;> trivial
  induction tokens generalizing token result p with
  | nil =>
    unfold insertTokens
    refine Act.calls_bind (hinsert token result p) fun v p' => ?_
    dsimp only
    split <;> trivial
  | cons next tokens ih =>
    unfold insertTokens
    refine Act.calls_bind (hinsert token result p) fun v p' => ?_
    dsimp only
    split
    · exact ih next _ p'
    · trivial

theorem process_calls {task : AccountTask} (htask : task.asked b = none) : (task.process b).Calls Enrolling := by
  cases task with
  | join alloc connections id pw => cases htask
  | checkId alloc connections id =>
    refine Prog.Calls.bind ?_ fun _ => trivial
    have hcheck : ((tryCheckId alloc id).prog connections).Calls Enrolling :=
      Act.calls_bind borrow_calls fun conn p => Act.calls_bind (calls_execute rfl) fun _ _ => trivial
    exact hcheck
  | login alloc connections id pw token tokens =>
    have hsign : ∀ p, ((signIn b id pw token tokens).prog p).Calls Enrolling := by
      intro p
      refine Act.calls_bind (calls_execute rfl) fun row p' => ?_
      dsimp only
      split
      · refine Act.calls_bind (insertTokens_calls ..) fun v p'' => ?_
        cases v with
        | none => trivial
        | some result => exact Act.calls_bind (calls_execute rfl) fun _ _ => trivial
      · trivial
    have htry : ((trySignIn b alloc id pw token tokens).prog connections).Calls Enrolling :=
      Act.calls_bind borrow_calls fun conn p => Act.calls_bind (hsign p) fun v p' => by cases v <;> trivial
    exact Prog.Calls.bind (Act.calls_bind htry fun _ _ => trivial) fun _ => trivial

/-- The account of a sign-up: it is made where nothing was thrown, else it may be. -/
def Asked (b : BCrypt) (i : Nat) (s₀ : Server lobbyDb) (id pw : String) (done : Bool) (s : Server lobbyDb) : Prop :=
  ∃ accounts, Adds i accounts s₀ s ∧ accounts.Sublist [(id, b.generateHash pw, true)] ∧
    (done = true → accounts = [(id, b.generateHash pw, true)])

theorem Asked.rely {id pw : String} {done : Bool} (h : Asked b i s₀ id pw done s) (hr : Rely i s s') :
    Asked b i s₀ id pw done s' := by
  obtain ⟨accounts, hmade, hrest⟩ := h
  exact ⟨accounts, hmade.rely hr, hrest⟩

variable {alloc : Allocation} {connections p : ConnectionPool} {id pw : String}

theorem insertAccount_asked (hw : s.WF) (hclosed : Closed i s) (h : Adds i [] s₀ s) :
    Safe (Rely i) (Step law i) (fun _ _ => True)
      ((executeUpdateGenKeys (.insertAccount id (b.generateHash pw)) fun key => key).prog p)
      (fun _ r s' => Asked b i s₀ id pw r.1.isOk s') s := by
  unfold executeUpdateGenKeys
  refine enroll_statement (.insertAccount id (b.generateHash pw)) hw hclosed h (fun key s₁ hw₁ hclosed₁ h₁ => ?_) ?_
  · refine enroll_statement _ hw₁ hclosed₁ h₁ (fun row s₂ _ _ h₂ => ?_) ?_
    · exact fun s₃ hr => ⟨_, h₂.rely hr, List.Sublist.refl _, fun _ => rfl⟩
    · rintro e s₂ more hmore h₂
      obtain rfl := List.sublist_nil.mp hmore
      exact ⟨_, h₂, List.Sublist.refl _, fun _ => rfl⟩
  · rintro e s' more hmore h'
    exact ⟨_, h', hmore, by rintro ⟨⟩⟩

theorem trySignUp_asked (hw : s.WF) (hclosed : Closed i s) (h : Adds i [] s₀ s) :
    Safe (Rely i) (Step law i) (fun _ _ => True) ((trySignUp b alloc id pw).prog p)
      (fun _ r s' => ∃ done, Asked b i s₀ id pw done s' ∧ (r.1 = .ok true → done = true)) s := by
  unfold trySignUp borrow
  rw [bind_assoc, Act.prog_get_bind]
  split
  · rw [bind_assoc, Act.prog_set_bind, pure_bind, Act.prog_bind]
    refine Safe.bind ((insertAccount_asked hw hclosed h).mono ?_) (Rely.refl i)
    rintro tr ⟨r, p'⟩ s₁ hasked
    cases r with
    | ok accountId => exact fun s₂ hr => ⟨true, hasked.rely hr, fun _ => rfl⟩
    | error e => exact fun s₂ hr => ⟨false, hasked.rely hr, by rintro ⟨⟩⟩
  · exact fun s' hr => ⟨false, ⟨[], h.rely hr, List.nil_sublist _, by rintro ⟨⟩⟩, by rintro ⟨⟩⟩

theorem join_enrolls (hw : s.WF) (hclosed : Closed i s) (h : Adds i [] s₀ s) :
    Safe (Rely i) (Step law i) (fun _ _ => True) ((AccountTask.join alloc connections id pw).process b) (fun _ r s' =>
      ∃ part, Committed i part s₀ s' ∧ Enrolls b (.join alloc connections id pw) r part) s := by
  refine Safe.bind ((trySignUp_asked hw hclosed h).mono ?_) (Rely.refl i)
  rintro tr ⟨r, p⟩ s₁ ⟨done, hasked, hdone⟩ s₂ hr
  obtain ⟨accounts, ⟨part, hcommitted, rfl⟩, hsub, hall⟩ := hasked.rely hr
  refine ⟨part, hcommitted, hsub, ?_⟩
  match r, hdone with
  | .ok true, hdone =>
    rw [hall (hdone rfl)]
    exact List.Sublist.refl _
  | .ok false, _ => exact List.nil_sublist _
  | .error e, _ => exact List.nil_sublist _

theorem enrolls_bookkeeping (b : BCrypt) :
    Bookkeeping law (AccountTask.process b) (fun s i _ => Closed i s) (fun _ _ => True) (Enrolls b) where
  lawful := lobbyDb_lawful
  idle _ _ _ _ _ := trivial
  spec i task s hw _ hclosed := by
    have hclosed' : Closed i (s.beginTask i) := ⟨by simpa using hclosed.autocommit, by simpa using hclosed.pending⟩
    have hw' := hw.beginTask i
    cases htask : task.asked b with
    | none =>
      refine (plain_safe lobbyDb_lawful (process_calls htask) hw' (by simp [hclosed.pending])).mono ?_
      rintro tr r s' ⟨-, -, part, hcommitted, hpart⟩
      have hnone : enrolled part = [] := by
        rw [enrolled, inserted, List.filterMap_eq_nil_iff.mpr hpart]
        rfl
      have hconfirmed : task.confirmed b r = none := by
        unfold AccountTask.confirmed
        split
        · exact htask
        · rfl
      refine ⟨trivial, part, by simpa using (committed_beginTask s i).trans hcommitted, ?_, ?_⟩
      · rw [hnone]
        exact List.nil_sublist _
      · rw [hconfirmed]
        exact List.nil_sublist _
    | some account =>
      cases task with
      | join alloc connections id pw =>
        refine (join_enrolls hw' hclosed' ⟨[], committed_beginTask s i, rfl⟩).mono ?_
        rintro tr r s' ⟨part, hcommitted, hpart⟩
        exact ⟨trivial, part, hcommitted, hpart⟩
      | checkId alloc connections id => cases htask
      | login alloc connections id pw token tokens => cases htask

/-! ## Every run -/

variable {db : Database} {now next : Int} {es : List (PoolEvent AccountTask)} {q : AccountPool}

/-- The accounts that the finished sign-ups asked for. -/
def askedIn (b : BCrypt) (q : AccountPool) : List (String × String × Bool) :=
  q.finished.filterMap fun x => x.task.asked b

/-- The accounts that their clients were told of. -/
def confirmedIn (b : BCrypt) (q : AccountPool) : List (String × String × Bool) :=
  q.finished.filterMap fun x => x.task.confirmed b x.result

def enrolledBy (e : Entry lobbyDb) : List (String × String × Bool) := (e.write.inserted?.map Account.enrolled).toList

theorem enrolled_eq (es : List (Entry lobbyDb)) : enrolled es = es.flatMap enrolledBy := by
  rw [enrolled, inserted, List.map_filterMap, List.filterMap_eq_flatMap_toList]
  rfl

theorem booked_joins (hkeys : ∀ a ∈ db.account.rows, a.accountId < next)
    (hrun : run (Pool.step law (AccountTask.process b)) (Pool.fresh (idle (D := lobbyDb) db now next)) es = some q)
    {i : Nat} (hi : q.jobs i = none) :
    Booked (Enrolls b) (q.finished.filter fun x => x.conn = i) (q.server.history.filter fun e => e.conn = i) := by
  have hcontract := (account_serves law b).contract (idle (D := lobbyDb) db now next) fun _ _ => True
  refine booked_run (enrolls_bookkeeping b) (fun p e q h he => (h.step hcontract (fun _ _ _ => trivial) he).1)
    (fun p i task h hj => ?_) (idle_wf ..) (fun _ => trivial) rfl
    (upheld_fresh (idle_wf ..) ⟨keyed_idle hkeys, Grows.refl _⟩ fun _ => ⟨rfl, rfl⟩) hrun hi
  have hworking := h.working i
  rw [hj] at hworking
  exact hworking

/-- Whatever throws and however the requests interleave: the accounts that are new once no request runs are
those of the confirmed sign-ups, and of some that threw; each sign-up has one at most. -/
theorem accounts_follow_joins (hkeys : ∀ a ∈ db.account.rows, a.accountId < next)
    (hrun : run (Pool.step law (AccountTask.process b)) (Pool.fresh (idle (D := lobbyDb) db now next)) es = some q)
    (hquiet : ∀ i, q.jobs i = none) :
    ∃ joined, directory q.server.db = directory db ++ joined ∧
      (confirmedIn b q).Subperm (joined.map Account.enrolled) ∧
      (joined.map Account.enrolled).Subperm (askedIn b q) := by
  obtain ⟨ext, hhistory, hdb⟩ := ((account_serves law b).begun_after (idle_wf ..) (keyed_idle hkeys)
    (fun _ => ⟨rfl, rfl⟩) (run_nil _) hrun).1.log
  obtain rfl : q.server.history = ext := hhistory
  have hbooked := fun i => booked_joins hkeys hrun (hquiet i)
  refine ⟨inserted q.server.history, hdb, ?_, ?_⟩
  · change (confirmedIn b q).Subperm (enrolled q.server.history)
    rw [enrolled_eq, confirmedIn, List.filterMap_eq_flatMap_toList]
    refine @subperm_of_keys _ _ _ _ _ Finished.conn Entry.conn _ _ _ _ fun i => List.Sublist.subperm ?_
    refine (hbooked i).related (R := fun as bs => bs.Sublist as) (f := enrolledBy)
      (g := fun task r => (task.confirmed b r).toList) (List.Sublist.refl _) (fun _ _ _ _ h h' => h.append h')
      fun task r part hpart => ?_
    rw [← enrolled_eq]
    exact hpart.confirmed
  · change (enrolled q.server.history).Subperm (askedIn b q)
    rw [enrolled_eq, askedIn, List.filterMap_eq_flatMap_toList]
    refine @subperm_of_keys _ _ _ _ _ Entry.conn Finished.conn _ _ _ _ fun i => List.Sublist.subperm ?_
    refine (hbooked i).related (R := List.Sublist) (f := enrolledBy) (g := fun task _ => (task.asked b).toList)
      (List.Sublist.refl _) (fun _ _ _ _ h h' => h.append h') fun task r part hpart => ?_
    rw [← enrolled_eq]
    exact hpart.asked

/-- The reply to the first sign-up's commit is lost: its account is there, though the client was not told. -/
def lostReplyEvents : List (PoolEvent AccountTask) :=
  [.start 0 (.join {} ⟨[0], []⟩ "kim" "secret"), .start 1 (.join {} ⟨[1], []⟩ "lee" "other"), .call 1 none,
    .call 0 none, .call 0 (some ⟨.replyLost, ⟨2013, "Lost connection to MySQL server during query"⟩⟩), .finish 0] ++
    List.replicate 3 (.call 1 none) ++ [.finish 1]

theorem accounts_follow_joins_sample : ∃ q,
    run (Pool.step (fun _ _ => true) (AccountTask.process samplePasswords))
      (Pool.fresh (idle (D := lobbyDb) emptyDb 100 7)) lostReplyEvents = some q ∧
    confirmedIn samplePasswords q = [("lee", samplePasswords.generateHash "other", true)] ∧
    ∃ joined, directory q.server.db = directory emptyDb ++ joined ∧
      (confirmedIn samplePasswords q).Subperm (joined.map Account.enrolled) ∧
      (joined.map Account.enrolled).Subperm (askedIn samplePasswords q) := by
  obtain ⟨q, hq, hzero, hone, hconfirmed⟩ : ∃ q : AccountPool,
      run (Pool.step (fun _ _ => true) (AccountTask.process samplePasswords))
        (Pool.fresh (idle (D := lobbyDb) emptyDb 100 7)) lostReplyEvents = some q ∧ q.jobs 0 = none ∧ q.jobs 1 = none ∧
      confirmedIn samplePasswords q = [("lee", samplePasswords.generateHash "other", true)] :=
    ⟨_, rfl, rfl, rfl, rfl⟩
  have hquiet : ∀ i, q.jobs i = none := by
    intro i
    match i with
    | 0 => exact hzero
    | 1 => exact hone
    | i + 2 => exact unstarted hq (by simp [Pool.startsOn, lostReplyEvents])
  have hkeys : ∀ a ∈ emptyDb.account.rows, a.accountId < (7 : Int) := by
    rintro a ⟨⟩
  exact ⟨q, hq, hconfirmed, accounts_follow_joins hkeys hq hquiet⟩

end Lobby
