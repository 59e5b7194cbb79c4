import J1Server.Lobby.CharacterTables
import J1Server.Lobby.Survival

/-! # Creating and deleting a character

The two transactions, call by call: whatever throws, a request commits its whole change or nothing. -/

namespace Lobby

open Lib Lib.Server Core

inductive CharacterRequest
  | create (pkt : ReqCreateCharacter)
  | delete (pkt : ReqDeleteCharacter)

def CharacterRequest.handle (a : Allocation) :
    CharacterRequest → Act (Sql lobbyDb) ConnectionPool (Option Response)
  | .create pkt => handleReqCreateCharacter a pkt
  | .delete pkt => handleReqDeleteCharacter a pkt

def CharacterRequest.response : CharacterRequest → Bool → Response
  | .create _, result => .createCharacter result
  | .delete _, result => .deleteCharacter result

/-! ## What a request may do -/

structure Still (s s' : Server lobbyDb) : Prop where
  db : s'.db = s.db
  history : s'.history = s.history
  next : s.next ≤ s'.next

theorem Still.refl (s : Server lobbyDb) : Still s s := ⟨rfl, rfl, Int.le_refl _⟩

theorem Still.trans {a b c : Server lobbyDb} (h : Still a b) (h' : Still b c) : Still a c :=
  ⟨h'.db.trans h.db, h'.history.trans h.history, Int.le_trans h.next h'.next⟩

theorem still_of_quiet {i : Nat} {s s' : Server lobbyDb} (h : Quiet i s s') : Still s s' := ⟨h.db, h.history, h.next⟩

/-- The change that `req` makes: a new character has a key that was drawn after `s₀`, and a character that is
deleted is one of the account. -/
def Makes (s₀ s : Server lobbyDb) (ch : Change) : CharacterRequest → Prop
  | .create pkt => ∃ temp key, pkt.characters = [temp] ∧ s₀.next ≤ key ∧ key < s.next ∧ 0 < toInt32 key ∧
      ch = .create
        ⟨key, pkt.accountId, temp.slotId, temp.name, temp.classtype, s₀.db.defaultLevel, s₀.db.defaultGold⟩
        ⟨toInt32 key, temp.upperskinid, temp.lowerskinid, temp.weaponskinid⟩
  | .delete pkt =>
    (∃ c, s₀.db.characterBase.get? pkt.characterId = some c ∧ c.accountId = pkt.accountId) ∧
      ch = .delete pkt.characterId

/-- The whole change is committed, and nothing else. -/
def Made (req : CharacterRequest) (s₀ s : Server lobbyDb) : Prop :=
  ∃ ch, Makes s₀ s ch req ∧ s.db = ch.apply s₀.db ∧ s.history.map Entry.write = s₀.history.map Entry.write ++ ch.writes

theorem Makes.still {req : CharacterRequest} {s₀ s s' : Server lobbyDb} {ch : Change} (h : Makes s₀ s ch req)
    (hs : Still s s') : Makes s₀ s' ch req := by
  cases req with
  | create pkt =>
    obtain ⟨temp, key, hone, hdrawn, hkey, hpos, rfl⟩ := h
    exact ⟨temp, key, hone, hdrawn, Int.lt_of_lt_of_le hkey hs.next, hpos, rfl⟩
  | delete pkt => exact h

theorem Made.still {req : CharacterRequest} {s₀ s s' : Server lobbyDb} (h : Made req s₀ s) (hs : Still s s') :
    Made req s₀ s' := by
  obtain ⟨ch, hmakes, hdb, hhistory⟩ := h
  exact ⟨ch, hmakes.still hs, hs.db.trans hdb, by rw [hs.history, hhistory]⟩

theorem outcome_still {req : CharacterRequest} {s₀ s s' : Server lobbyDb} (h : Still s₀ s ∨ Made req s₀ s)
    (hs : Still s s') : Still s₀ s' ∨ Made req s₀ s' :=
  h.imp (fun hstill => hstill.trans hs) fun hmade => hmade.still hs

/-- The server is idle but for the connection `i`. -/
def Alone (i : Nat) (s s' : Server lobbyDb) : Prop := Rely i s s' ∧ Still s s'

/-- A step of a request that began in `s₀`. -/
def Commits (req : CharacterRequest) (s₀ s s' : Server lobbyDb) : Prop :=
  Still s s' ∨ Still s₀ s ∧ Made req s₀ s'

theorem alone_refl (i : Nat) (s : Server lobbyDb) : Alone i s s := ⟨Rely.refl i s, Still.refl s⟩

variable {law : Call lobbyDb → Harm → Bool} {i n : Nat} {s₀ s s' : Server lobbyDb} {req : CharacterRequest}
  {p : ConnectionPool}

theorem surroundings_alone (i : Nat) (req : CharacterRequest) (s₀ : Server lobbyDb) :
    Surroundings (D := lobbyDb) i (Alone i) Still (Commits req s₀) where
  lawful := lobbyDb_lawful
  rely _ _ h := h.1
  refl := alone_refl i
  trans _ _ _ h h' := ⟨h.1.trans h'.1, h.2.trans h'.2⟩
  during _ _ h := h.2
  during_trans _ _ _ := Still.trans
  quiet _ _ := still_of_quiet
  guar _ _ h := Or.inl (still_of_quiet h)

/-! ## Inside the transaction -/

/-- How the body of a transaction ends. -/
def Decided (req : CharacterRequest) (i : Nat) (s₀ : Server lobbyDb) (p : ConnectionPool)
    (r : Except SqlException Bool × ConnectionPool) (s : Server lobbyDb) : Prop :=
  r.2 = p ∧
  match r.1 with
  | .ok true => Made req s₀ s ∧ (s.conns i).pending = []
  | .ok false => Still s₀ s ∧ (s.conns i).pending = []
  | .error _ => Still s₀ s

/-- The request keeps to its steps and ends in `Decided`. -/
def Decides (law : Call lobbyDb → Harm → Bool) (req : CharacterRequest) (i : Nat) (s₀ : Server lobbyDb)
    (p : ConnectionPool) (x : Act (Sql lobbyDb) ConnectionPool Bool) (s : Server lobbyDb) : Prop :=
  Safe (Alone i) (Step law i) (Commits req s₀) (x.prog p) (fun _ => Decided req i s₀ p) s

theorem decided_failed (h : Failed i n Still s s') (hs : Still s₀ s) (e : SqlException) :
    Decided req i s₀ p (.error e, p) s' := ⟨rfl, hs.trans h.during⟩

theorem decides_execute {st : Stmt} {f : st.Reply → Act (Sql lobbyDb) ConnectionPool Bool} {ws : List Write}
    (hin : InTx (D := lobbyDb) i n [] ws s) (hs : Still s₀ s)
    (hok : ∀ now next s', s.next ≤ next →
      (st.effect now next (writeAll (D := lobbyDb) ws s₀.db)).next ≤ s'.next →
      InTx (D := lobbyDb) i n [] (ws ++ (st.effect now next (writeAll (D := lobbyDb) ws s₀.db)).writes) s' →
      Still s₀ s' → Decides law req i s₀ p (f (st.effect now next (writeAll (D := lobbyDb) ws s₀.db)).reply) s') :
    Decides law req i s₀ p (executeUpdate st >>= f) s := by
  have hS := surroundings_alone i req s₀
  refine hS.execute (fun _ _ _ _ _ _ h => h) hin ?_ fun e s' hf => decided_failed hf hs e
  intro reply s₁ he
  have hs₁ := hs.trans (he.during hS)
  obtain ⟨s₂, h₂, in₂, rfl, hrec, in₁⟩ := he.inTx hS hin
  have hview : s₂.effect i st = st.effect s₂.now s₂.next (writeAll (D := lobbyDb) ws s₀.db) := by
    rw [Server.effect, in₂.view, applyAll_nil, h₂.2.db, hs.db]
  rw [hview] at in₁ hrec ⊢
  exact hok s₂.now s₂.next s₁ h₂.2.next hrec.2.next in₁ hs₁

/-- Whatever becomes of a rollback, nothing is committed, and if it returns nothing is pending. -/
theorem decides_rollback (hs : Still s₀ s) : Decides law req i s₀ p (do rollback; pure false) s := by
  change Safe _ _ _ (Prog.call (I := Sql lobbyDb) Call.rollback _) _ _
  intro s₁ h₁ o s₂ hs₂
  have hs₁ := hs.trans h₁.2
  cases o with
  | ok u =>
    obtain ⟨-, hr⟩ := hs₂.ok
    cases hr
    have hstill : Still s₁ (s₁.discard i) := still_of_quiet (kept_discard i s₁).toQuiet
    refine ⟨Or.inl hstill, fun s₃ h₃ => ⟨rfl, (hs₁.trans hstill).trans h₃.2, ?_⟩⟩
    rw [h₃.1.conn, discard_conn]
  | error e =>
    have hstill : Still s₁ s₂ := by
      rcases hs₂.error with hk | ⟨-, r, t, hr, rfl⟩
      · exact still_of_quiet hk.toQuiet
      · cases hr
        exact still_of_quiet (kept_discard i s₁).toQuiet.hangUp.toQuiet
    exact ⟨Or.inl hstill, fun s₃ h₃ => ⟨rfl, (hs₁.trans hstill).trans h₃.2⟩⟩

theorem made_publish {ch : Change} (hin : InTx (D := lobbyDb) i n [] ch.writes s) (hs : Still s₀ s)
    (hmakes : Makes s₀ s ch req) : Made req s₀ (s.publish i) := by
  refine ⟨ch, ?_, ?_, ?_⟩
  · cases req with
    | create pkt => exact hmakes
    | delete pkt => exact hmakes
  · rw [publish_db, hin.conn, List.nil_append, applyAll_eq, map_write_mk, hs.db]
    rfl
  · rw [publish_history, hin.conn, List.nil_append, List.map_append, map_write_mk, hs.history]

/-- A commit that returns has committed the change, and one that throws has not. -/
theorem decides_commit (hlaw : law .commit .replyLost = false) {ch : Change}
    (hin : InTx (D := lobbyDb) i n [] ch.writes s) (hs : Still s₀ s) (hmakes : Makes s₀ s ch req) :
    Decides law req i s₀ p (do commit; pure true) s := by
  change Safe _ _ _ (Prog.call (I := Sql lobbyDb) Call.commit _) _ _
  intro s₁ h₁ o s₂ hs₂
  have hs₁ := hs.trans h₁.2
  rcases hs₂.commit with ⟨rfl, rfl⟩ | ⟨e, rfl, hk⟩ | ⟨e, -, hlost, -⟩
  · have hmade : Made req s₀ (s₁.publish i) := made_publish (hin.rely h₁.1) hs₁ (hmakes.still h₁.2)
    refine ⟨Or.inr ⟨hs₁, hmade⟩, fun s₃ h₃ => ⟨rfl, hmade.still h₃.2, ?_⟩⟩
    rw [h₃.1.conn, publish_conn]
  · have hstill : Still s₁ s₂ := still_of_quiet hk.toQuiet
    exact ⟨Or.inl hstill, fun s₃ h₃ => ⟨rfl, (hs₁.trans hstill).trans h₃.2⟩⟩
  · rw [hlaw] at hlost
    cases hlost

theorem decides_genKeys {st : Stmt} {key : st.Reply → Int} {f : Int → Act (Sql lobbyDb) ConnectionPool Bool}
    (h : Decides law req i s₀ p (executeUpdate st >>= fun reply =>
      executeUpdate (.selectLastInsertId (key reply)) >>= fun id : Int => f (toInt32 id)) s) :
    Decides law req i s₀ p (executeUpdateGenKeys st key >>= f) s := by
  have hsplit : executeUpdateGenKeys st key >>= f = executeUpdate st >>= fun reply =>
      executeUpdate (.selectLastInsertId (key reply)) >>= fun id : Int => f (toInt32 id) := by
    unfold executeUpdateGenKeys
    rw [bind_assoc]
    congr 1
    funext reply
    exact bind_assoc _ _ _
  rw [hsplit]
  exact h

theorem decides_begin {f : Unit → Act (Sql lobbyDb) ConnectionPool Bool} (hw : s.WF) (hclosed : Closed i s)
    (hs : Still s₀ s)
    (hok : ∀ s', InTx (D := lobbyDb) i (s.conns i).task [] [] s' → Still s₀ s' → Decides law req i s₀ p (f ()) s') :
    Decides law req i s₀ p (setAutoCommit false >>= f) s := by
  refine (surroundings_alone i req s₀).open hw rfl hclosed.pending (fun s' hin h => hok s' hin (hs.trans h)) ?_
  exact fun e s' hf => decided_failed hf hs e

/-! ## The two transactions -/

theorem decides_createTransaction (hlaw : law .commit .replyLost = false) {pkt : ReqCreateCharacter}
    {temp : LobbyCharacterInfo} (hone : pkt.characters = [temp]) (hw : s.WF) (hclosed : Closed i s) :
    Decides law (.create pkt) i s p (createTransaction pkt.accountId temp) s := by
  unfold createTransaction
  refine decides_begin hw hclosed (Still.refl s) fun s₁ in₁ hs₁ => ?_
  refine decides_genKeys (decides_execute in₁ hs₁ fun now key s₂ hkey hdrawn in₂ hs₂ => ?_)
  refine decides_execute in₂ hs₂ fun _ _ s₃ hle₃ hnext₃ in₃ hs₃ => ?_
  refine decides_execute in₃ hs₃ fun _ _ s₄ hle₄ hnext₄ in₄ hs₄ => ?_
  refine decides_execute in₄ hs₄ fun _ _ s₅ hle₅ hnext₅ in₅ hs₅ => ?_
  split
  · rename_i hpos
    refine decides_commit hlaw in₅ hs₅ ⟨temp, key, hone, ?_, ?_, hpos.1, rfl⟩
    · exact Int.le_trans hs₁.next hkey
    · have h₂ : key + 1 ≤ s₂.next := hdrawn
      have h₃ : s₂.next ≤ s₃.next := Int.le_trans hle₃ hnext₃
      have h₄ : s₃.next ≤ s₄.next := Int.le_trans hle₄ hnext₄
      have h₅ : s₄.next ≤ s₅.next := Int.le_trans hle₅ hnext₅
      omega
  · exact decides_rollback hs₅

/-- The last statement of a deletion removes the character only if it is one of the account. -/
theorem deleteBase_found {id accountId now next : Int} {db : Database}
    (h : ((Stmt.deleteBase id accountId).effect now next db).reply ≠ (0 : Int)) :
    (∃ c, db.characterBase.get? id = some c ∧ c.accountId = accountId) ∧
      ((Stmt.deleteBase id accountId).effect now next db).writes = [.deleteBase id] := by
  unfold Stmt.effect at h ⊢
  dsimp only at h ⊢
  cases hrow : db.characterBase.get? id with
  | none =>
    rw [hrow] at h
    exact absurd rfl h
  | some c =>
    rw [hrow] at h
    dsimp only at h ⊢
    split at h
    · rename_i hc
      rw [if_pos hc]
      exact ⟨⟨c, rfl, hc⟩, rfl⟩
    · exact absurd rfl h

theorem decides_deleteTransaction (hlaw : law .commit .replyLost = false) (pkt : ReqDeleteCharacter) (hw : s.WF)
    (hclosed : Closed i s) : Decides law (.delete pkt) i s p (deleteTransaction pkt) s := by
  unfold deleteTransaction
  refine decides_begin hw hclosed (Still.refl s) fun s₁ in₁ hs₁ => ?_
  refine decides_execute in₁ hs₁ fun _ _ s₂ _ _ in₂ hs₂ => ?_
  refine decides_execute in₂ hs₂ fun _ _ s₃ _ _ in₃ hs₃ => ?_
  refine decides_execute in₃ hs₃ fun _ _ s₄ _ _ in₄ hs₄ => ?_
  have in₄' : InTx (D := lobbyDb) i (s.conns i).task [] [.deleteCombat pkt.characterId, .deleteSkin pkt.characterId,
      .deleteInventory pkt.characterId] s₄ := in₄
  refine decides_execute in₄' hs₄ fun now next s₅ _ _ in₅ hs₅ => ?_
  split
  · exact decides_rollback hs₅
  · rename_i hreply
    obtain ⟨hrow, hwrites⟩ := deleteBase_found hreply
    rw [hwrites] at in₅
    have hmakes : Makes s s₅ (.delete pkt.characterId) (.delete pkt) := ⟨hrow, rfl⟩
    exact decides_commit hlaw in₅ hs₅ hmakes

/-! ## The whole request -/

def Settled (req : CharacterRequest) (i : Nat) (s₀ : Server lobbyDb) (p : ConnectionPool)
    (r : Except SqlException Bool × ConnectionPool) (s : Server lobbyDb) : Prop :=
  r.2 = p ∧
  match r.1 with
  | .ok true => Made req s₀ s ∧ Closed i s
  | .ok false => Still s₀ s ∧ Closed i s
  | .error _ => Still s₀ s ∨ Made req s₀ s

theorem Decided.alone {r : Except SqlException Bool × ConnectionPool} (h : Decided req i s₀ p r s)
    (ha : Alone i s s') : Decided req i s₀ p r s' := by
  obtain ⟨r, p'⟩ := r
  obtain ⟨hp, h⟩ := h
  refine ⟨hp, ?_⟩
  cases r with
  | error e => exact h.trans ha.2
  | ok b =>
    cases b with
    | true => exact ⟨h.1.still ha.2, by rw [ha.1.conn]; exact h.2⟩
    | false => exact ⟨h.1.trans ha.2, by rw [ha.1.conn]; exact h.2⟩

theorem decides_caught {x : Act (Sql lobbyDb) ConnectionPool Bool} (hx : Decides law req i s₀ p x s) :
    Decides law req i s₀ p (tryCatch x fun _ => do rollback; pure false) s := by
  unfold Decides at *
  rw [Act.prog_tryCatch]
  refine (hx.mono ?_).bind (alone_refl i)
  rintro tr ⟨r, p'⟩ s' ⟨rfl, hr⟩
  cases r with
  | ok b =>
    have hd : Decided req i s₀ p' (.ok b, p') s' := ⟨rfl, hr⟩
    exact fun s'' ha => hd.alone ha
  | error e => exact decides_rollback hr

theorem settles_autocommit {b : Bool} (h : Decided req i s₀ p (.ok b, p) s) :
    Safe (Alone i) (Step law i) (Commits req s₀) ((do setAutoCommit true; pure b : Act _ _ _).prog p)
      (fun _ => Settled req i s₀ p) s := by
  change Safe _ _ _ (Prog.call (I := Sql lobbyDb) (Call.setAutoCommit true) _) _ _
  intro s₁ h₁ o s₂ hs₂
  obtain ⟨-, hd⟩ := h.alone h₁
  have hpending : (s₁.conns i).pending = [] := by
    cases b with
    | true => exact hd.2
    | false => exact hd.2
  have hstill : Still s₁ s₂ := still_of_quiet (hs₂.setAutoCommit_on hpending).toQuiet
  refine ⟨Or.inl hstill, ?_⟩
  cases o with
  | ok u =>
    intro s₃ h₃
    have hclosed : Closed i s₃ := hs₂.setAutoCommit_closed.congr h₃.1.conn
    cases b with
    | true => exact ⟨rfl, hd.1.still (hstill.trans h₃.2), hclosed⟩
    | false => exact ⟨rfl, hd.1.trans (hstill.trans h₃.2), hclosed⟩
  | error e =>
    intro s₃ h₃
    cases b with
    | true => exact ⟨rfl, Or.inr (hd.1.still (hstill.trans h₃.2))⟩
    | false => exact ⟨rfl, Or.inl (hd.1.trans (hstill.trans h₃.2))⟩

theorem settles_inTransaction {x : Act (Sql lobbyDb) ConnectionPool Bool} (hx : Decides law req i s₀ p x s) :
    Safe (Alone i) (Step law i) (Commits req s₀) ((inTransaction x).prog p) (fun _ => Settled req i s₀ p) s := by
  unfold inTransaction
  rw [Act.prog_bind]
  refine ((decides_caught hx).mono ?_).bind (alone_refl i)
  rintro tr ⟨r, p'⟩ s' ⟨rfl, hr⟩
  cases r with
  | ok b => exact settles_autocommit ⟨rfl, hr⟩
  | error e => exact fun s'' ha => ⟨rfl, Or.inl (hr.trans ha.2)⟩

def CharacterRequest.transaction : CharacterRequest → Option (Act (Sql lobbyDb) ConnectionPool Bool)
  | .create pkt =>
    match pkt.characters with
    | [temp] => some (createTransaction pkt.accountId temp)
    | _ => none
  | .delete pkt => if pkt.accountId ≠ 0 ∧ pkt.characterId ≠ 0 then some (deleteTransaction pkt) else none

theorem decides_transaction (hlaw : law .commit .replyLost = false) {x : Act (Sql lobbyDb) ConnectionPool Bool}
    (hx : req.transaction = some x) (hw : s.WF) (hclosed : Closed i s) : Decides law req i s p x s := by
  cases req with
  | create pkt =>
    obtain ⟨accountId, characters⟩ := pkt
    match characters with
    | [temp] =>
      obtain rfl := Option.some.inj hx
      exact decides_createTransaction hlaw rfl hw hclosed
    | [] => cases hx
    | _ :: _ :: _ => cases hx
  | delete pkt =>
    unfold CharacterRequest.transaction at hx
    dsimp only at hx
    by_cases hids : pkt.accountId ≠ 0 ∧ pkt.characterId ≠ 0
    · rw [if_pos hids] at hx
      obtain rfl := Option.some.inj hx
      exact decides_deleteTransaction hlaw pkt hw hclosed
    · rw [if_neg hids] at hx
      cases hx

theorem handle_refused {a : Allocation} (h : req.transaction = none) : req.handle a = pure none := by
  cases req with
  | create pkt =>
    obtain ⟨accountId, characters⟩ := pkt
    match characters with
    | [temp] => cases h
    | [] => rfl
    | _ :: _ :: _ => rfl
  | delete pkt =>
    unfold CharacterRequest.transaction at h
    unfold CharacterRequest.handle handleReqDeleteCharacter
    dsimp only at h ⊢
    by_cases hids : pkt.accountId ≠ 0 ∧ pkt.characterId ≠ 0
    · rw [if_pos hids] at h
      cases h
    · rw [if_neg hids]

theorem handle_borrows {a : Allocation} {x : Act (Sql lobbyDb) ConnectionPool Bool} (h : req.transaction = some x) :
    req.handle a = (do
      let conn ← borrow a
      let result ← inTransaction x
      unborrow conn
      pure (some (req.response result))) := by
  cases req with
  | create pkt =>
    obtain ⟨accountId, characters⟩ := pkt
    match characters with
    | [temp] =>
      obtain rfl := Option.some.inj h
      rfl
    | [] => cases h
    | _ :: _ :: _ => cases h
  | delete pkt =>
    unfold CharacterRequest.transaction at h
    unfold CharacterRequest.handle handleReqDeleteCharacter
    dsimp only at h ⊢
    by_cases hids : pkt.accountId ≠ 0 ∧ pkt.characterId ≠ 0
    · rw [if_pos hids] at h ⊢
      obtain rfl := Option.some.inj h
      rfl
    · rw [if_neg hids] at h
      cases h

/-- How a request that has borrowed a connection ends. -/
def Replied (req : CharacterRequest) (i : Nat) (s₀ : Server lobbyDb) (p : ConnectionPool)
    (r : Except SqlException (Option Response) × ConnectionPool) (s : Server lobbyDb) : Prop :=
  match r.1 with
  | .ok resp => r.2 = p.unborrow i ∧ Closed i s ∧
    (resp = some (req.response true) ∧ Made req s₀ s ∨ resp = some (req.response false) ∧ Still s₀ s)
  | .error _ => r.2 = p ∧ (Still s₀ s ∨ Made req s₀ s)

theorem Replied.alone {r : Except SqlException (Option Response) × ConnectionPool} (h : Replied req i s₀ p r s)
    (ha : Alone i s s') : Replied req i s₀ p r s' := by
  obtain ⟨r, p'⟩ := r
  cases r with
  | ok resp =>
    obtain ⟨hp, hclosed, hmade | hstill⟩ := h
    · exact ⟨hp, hclosed.congr ha.1.conn, Or.inl ⟨hmade.1, hmade.2.still ha.2⟩⟩
    · exact ⟨hp, hclosed.congr ha.1.conn, Or.inr ⟨hstill.1, hstill.2.trans ha.2⟩⟩
  | error e =>
    obtain ⟨hp, houtcome⟩ := h
    exact ⟨hp, outcome_still houtcome ha.2⟩

theorem replies_transaction (hlaw : law .commit .replyLost = false) {x : Act (Sql lobbyDb) ConnectionPool Bool}
    (hx : req.transaction = some x) (hw : s.WF) (hclosed : Closed i s) :
    Safe (Alone i) (Step law i) (Commits req s)
      ((inTransaction x >>= fun result => do
        unborrow i
        pure (some (req.response result)) : Act (Sql lobbyDb) ConnectionPool (Option Response)).prog p)
      (fun _ => Replied req i s p) s := by
  rw [Act.prog_bind]
  refine ((settles_inTransaction (decides_transaction hlaw hx hw hclosed)).mono ?_).bind (alone_refl i)
  rintro tr ⟨r, p'⟩ s' ⟨rfl, hr⟩
  have hreplied : ∀ {b : Bool}, r = .ok b → Replied req i s p' (.ok (some (req.response b)), p'.unborrow i) s' := by
    rintro b rfl
    cases b with
    | true => exact ⟨rfl, hr.2, Or.inl ⟨rfl, hr.1⟩⟩
    | false => exact ⟨rfl, hr.2, Or.inr ⟨rfl, hr.1⟩⟩
  cases r with
  | ok b => exact fun s'' ha => (hreplied rfl).alone ha
  | error e =>
    have hfailed : Replied req i s p' (.error e, p') s' := ⟨rfl, hr⟩
    exact fun s'' ha => hfailed.alone ha

end Lobby
