import J1Server.Auction.Data

/-! # The account and character tables

The tables that the LoginServer and the lobby of the GameServer read and write,
and their SQL statements. -/

namespace Lobby

open Lib
open Auction (CharacterBase)

/-! ## Rows -/

/-- `NULL` is `none`. -/
structure Account where
  accountId : Int
  userId : String
  userPassword : String
  isActive : Bool
  lastLogin : Option Int
  createdAt : Int
  deriving DecidableEq

structure Session where
  accountId : Int
  token : String
  expiresAt : Int
  deriving DecidableEq

structure CharacterSkin where
  characterId : Int
  upperSkin : Int
  lowerSkin : Int
  weaponSkin : Int
  deriving DecidableEq

/-- Of the combat and inventory rows, only the character is used. `level` and `gold` of a new character
are column defaults. -/
structure Database where
  account : Table Account.accountId
  sessions : List Session
  characterBase : Table CharacterBase.characterId
  defaultLevel : Int
  defaultGold : Int
  characterCombat : List Int
  characterSkin : List CharacterSkin
  characterInventory : List Int

/-! ## Writes -/

/-- What is found under a key: one row, or the rows of one character. -/
inductive RowKey
  | account (accountId : Int)
  | base (characterId : Int)
  | combat (characterId : Int)
  | skin (characterId : Int)
  | inventory (characterId : Int)
  deriving DecidableEq

inductive RowValue
  | account (row : Option Account)
  | base (row : Option CharacterBase)
  | combat (rows : List Int)
  | skin (rows : List CharacterSkin)
  | inventory (rows : List Int)

inductive Write
  | insertAccount (row : Account)
  | updateAccount (row : Account)
  | insertSession (row : Session)
  | insertBase (row : CharacterBase)
  | deleteBase (characterId : Int)
  | insertCombat (characterId : Int)
  | deleteCombat (characterId : Int)
  | insertSkin (row : CharacterSkin)
  | deleteSkin (characterId : Int)
  | deleteInventory (characterId : Int)
  deriving DecidableEq

def Write.apply (w : Write) (db : Database) : Database :=
  match w with
  | .insertAccount a => { db with account := db.account.insert a }
  | .updateAccount a => { db with account := db.account.replace a }
  | .insertSession s => { db with sessions := db.sessions ++ [s] }
  | .insertBase c => { db with characterBase := db.characterBase.insert c }
  | .deleteBase id => { db with characterBase := db.characterBase.erase id }
  | .insertCombat id => { db with characterCombat := db.characterCombat ++ [id] }
  | .deleteCombat id => { db with characterCombat := db.characterCombat.filter (· ≠ id) }
  | .insertSkin s => { db with characterSkin := db.characterSkin ++ [s] }
  | .deleteSkin id => { db with characterSkin := db.characterSkin.filter (·.characterId ≠ id) }
  | .deleteInventory id => { db with characterInventory := db.characterInventory.filter (· ≠ id) }

def Write.row? : Write → Option RowKey
  | .insertAccount a => some (.account a.accountId)
  | .updateAccount a => some (.account a.accountId)
  | .insertSession _ => none
  | .insertBase c => some (.base c.characterId)
  | .deleteBase id => some (.base id)
  | .insertCombat id => some (.combat id)
  | .deleteCombat id => some (.combat id)
  | .insertSkin s => some (.skin s.characterId)
  | .deleteSkin id => some (.skin id)
  | .deleteInventory id => some (.inventory id)

/-- Two tables draw their keys from the counter. -/
def Write.newId? : Write → Option Int
  | .insertAccount a => some a.accountId
  | .insertBase c => some c.characterId
  | _ => none

def look (r : RowKey) (db : Database) : RowValue :=
  match r with
  | .account id => .account (db.account.get? id)
  | .base id => .base (db.characterBase.get? id)
  | .combat id => .combat (db.characterCombat.filter (· = id))
  | .skin id => .skin (db.characterSkin.filter (·.characterId = id))
  | .inventory id => .inventory (db.characterInventory.filter (· = id))

/-! ## Statements -/

inductive Stmt
  /-- `SELECT account_id, user_password FROM account WHERE is_active = 1 AND user_id = ?` -/
  | selectAccount (userId : String)
  /-- `INSERT INTO sessions (account_id, token, expires_at) VALUES(?, ?, NOW() + INTERVAL 30 MINUTE)` -/
  | insertSession (accountId : Int) (token : String)
  /-- `UPDATE account SET last_login = NOW() WHERE user_id = ?` -/
  | updateLastLogin (userId : String)
  /-- `INSERT INTO account (user_id, user_password, created_at, is_active) VALUES(?, ?, NOW(), 1)` -/
  | insertAccount (userId userPassword : String)
  /-- `SELECT 1 FROM sessions WHERE account_id = ? AND token = ? AND expires_at > NOW() LIMIT 1` -/
  | selectToken (accountId : Int) (token : String)
  /-- `SELECT .. FROM character_base cb JOIN character_combat cc .. JOIN character_skin cs ..
  WHERE cb.account_id = ? ORDER BY cb.slot_index` -/
  | selectCharacters (accountId : Int)
  /-- `SELECT 1 FROM character_base WHERE nickname = ? LIMIT 1` -/
  | selectNickname (nickname : String)
  /-- `INSERT INTO character_base (account_id, slot_index, nickname, class_type) VALUES (?, ?, ?, ?)` -/
  | insertBase (accountId slotIndex : Int) (nickname : String) (classType : Int)
  /-- `INSERT INTO character_combat (character_id) VALUES (?)` -/
  | insertCombat (characterId : Int)
  /-- `INSERT INTO character_skin (character_id, upper_skin, lower_skin, weapon_skin) VALUES (?, ?, ?, ?)` -/
  | insertSkin (row : CharacterSkin)
  /-- `DELETE FROM character_combat WHERE character_id = ?` -/
  | deleteCombat (characterId : Int)
  /-- `DELETE FROM character_skin WHERE character_id = ?` -/
  | deleteSkin (characterId : Int)
  /-- `DELETE FROM character_inventory WHERE character_id = ?` -/
  | deleteInventory (characterId : Int)
  /-- `DELETE FROM character_base WHERE character_id = ? AND account_id = ?` -/
  | deleteBase (characterId accountId : Int)
  /-- `SELECT LAST_INSERT_ID()`: the connection got `last` from its latest `INSERT`. -/
  | selectLastInsertId (last : Int)

/-- A row, whether there is one, the new key of an `INSERT` that draws one, or the number of rows changed. -/
def Stmt.Reply : Stmt → Type
  | .selectAccount _ => Option (Int × String)
  | .selectToken .. => Bool
  | .selectCharacters _ => List (CharacterBase × CharacterSkin)
  | .selectNickname _ => Bool
  | _ => Int

/-- The accounts that a client can sign in to. -/
def activeAccount (db : Database) (userId : String) : Option Account :=
  db.account.rows.find? fun a => a.isActive ∧ a.userId = userId

def bySlotIndex (a b : CharacterBase × CharacterSkin) : Prop := a.1.slotIndex ≤ b.1.slotIndex

instance : DecidableRel bySlotIndex := fun a b => inferInstanceAs (Decidable (a.1.slotIndex ≤ b.1.slotIndex))

/-- The inner join: a character once for every pair of its combat and skin rows. -/
def charactersOf (db : Database) (accountId : Int) : List (CharacterBase × CharacterSkin) :=
  ((db.characterBase.rows.filter fun cb => cb.accountId = accountId).flatMap fun cb =>
    (db.characterCombat.filter (· = cb.characterId)).flatMap fun _ =>
      (db.characterSkin.filter (·.characterId = cb.characterId)).map fun cs => (cb, cs)).insertionSort bySlotIndex

def secondsPerMinute : Int := 60

/-- A row that keeps its value is locked, and not counted as changed. -/
def Stmt.effect : (st : Stmt) → (now next : Int) → Database → Effect st.Reply Write RowKey
  | .selectAccount userId, _, next, db =>
    ⟨(activeAccount db userId).map fun a => (a.accountId, a.userPassword), [], [], next⟩
  | .insertSession accountId token, now, next, _ =>
    ⟨(1 : Int), [.insertSession ⟨accountId, token, now + 30 * secondsPerMinute⟩], [], next⟩
  | .updateLastLogin userId, now, next, db =>
    let scanned := db.account.rows.filter fun a => a.userId = userId
    let changed := scanned.filter fun a => a.lastLogin ≠ some now
    ⟨(changed.length : Int), changed.map fun a => .updateAccount { a with lastLogin := some now },
      scanned.map fun a => .account a.accountId, next⟩
  | .insertAccount userId userPassword, now, next, _ =>
    ⟨next, [.insertAccount ⟨next, userId, userPassword, true, none, now⟩], [.account next], next + 1⟩
  | .selectToken accountId token, now, next, db =>
    ⟨db.sessions.any fun s => s.accountId = accountId ∧ s.token = token ∧ now < s.expiresAt, [], [], next⟩
  | .selectCharacters accountId, _, next, db => ⟨charactersOf db accountId, [], [], next⟩
  | .selectNickname nickname, _, next, db =>
    ⟨db.characterBase.rows.any fun c => c.nickname = nickname, [], [], next⟩
  | .insertBase accountId slotIndex nickname classType, _, next, db =>
    ⟨next, [.insertBase ⟨next, accountId, slotIndex, nickname, classType, db.defaultLevel, db.defaultGold⟩],
      [.base next], next + 1⟩
  | .insertCombat id, _, next, _ => ⟨(1 : Int), [.insertCombat id], [.combat id], next⟩
  | .insertSkin row, _, next, _ => ⟨(1 : Int), [.insertSkin row], [.skin row.characterId], next⟩
  | .deleteCombat id, _, next, db =>
    ⟨(db.characterCombat.countP (· = id) : Int), [.deleteCombat id], [.combat id], next⟩
  | .deleteSkin id, _, next, db =>
    ⟨(db.characterSkin.countP (·.characterId = id) : Int), [.deleteSkin id], [.skin id], next⟩
  | .deleteInventory id, _, next, db =>
    ⟨(db.characterInventory.countP (· = id) : Int), [.deleteInventory id], [.inventory id], next⟩
  | .deleteBase id accountId, _, next, db =>
    match db.characterBase.get? id with
    | some c => if c.accountId = accountId then ⟨(1 : Int), [.deleteBase id], [.base id], next⟩
      else ⟨(0 : Int), [], [.base id], next⟩
    | none => ⟨(0 : Int), [], [], next⟩
  | .selectLastInsertId last, _, next, _ => ⟨last, [], [], next⟩

/-- The database `J1_DB`, as far as accounts and characters go. -/
abbrev lobbyDb : Schema where
  Db := Database
  Row := RowKey
  Val := RowValue
  Write := Write
  Stmt := Stmt
  Reply := Stmt.Reply
  apply := Write.apply
  look := look
  row? := Write.row?
  newId? := Write.newId?
  effect := Stmt.effect
  decRow := inferInstance

/-! ## A write changes its own row -/

theorem filter_other {α : Type} {f : α → Int} {k k' : Int} (h : k ≠ k') (l : List α) :
    (l.filter fun x => f x ≠ k).filter (fun x => f x = k') = l.filter fun x => f x = k' := by
  rw [List.filter_filter]
  apply List.filter_congr
  intro x _
  by_cases hx : f x = k'
  · simp [hx, Ne.symm h]
  · simp [hx]

theorem filter_append_other {α : Type} {f : α → Int} {k' : Int} {x : α} (h : f x ≠ k') (l : List α) :
    (l ++ [x]).filter (fun x => f x = k') = l.filter fun x => f x = k' := by
  simp [h]

theorem look_apply_other (w : Write) (r : RowKey) (db : Database) (h : w.row? ≠ some r) :
    look r (w.apply db) = look r db := by
  cases w with
  | insertAccount a =>
    cases r with
    | account id =>
      have hne : a.accountId ≠ id := fun hc => h (by rw [Write.row?, hc])
      simp [look, Write.apply, Table.get?_insert, hne]
    | _ => rfl
  | updateAccount a =>
    cases r with
    | account id =>
      have hne : a.accountId ≠ id := fun hc => h (by rw [Write.row?, hc])
      simp [look, Write.apply, Table.get?_replace, hne]
    | _ => rfl
  | insertSession s => cases r <;> rfl
  | insertBase c =>
    cases r with
    | base id =>
      have hne : c.characterId ≠ id := fun hc => h (by rw [Write.row?, hc])
      simp [look, Write.apply, Table.get?_insert, hne]
    | _ => rfl
  | deleteBase k =>
    cases r with
    | base id =>
      have hne : k ≠ id := fun hc => h (by rw [Write.row?, hc])
      simp [look, Write.apply, Table.get?_erase, hne]
    | _ => rfl
  | insertCombat k =>
    cases r with
    | combat id =>
      have hne : k ≠ id := fun hc => h (by rw [Write.row?, hc])
      exact congrArg RowValue.combat (filter_append_other (f := fun x => x) hne _)
    | _ => rfl
  | deleteCombat k =>
    cases r with
    | combat id =>
      have hne : k ≠ id := fun hc => h (by rw [Write.row?, hc])
      exact congrArg RowValue.combat (filter_other hne _)
    | _ => rfl
  | insertSkin s =>
    cases r with
    | skin id =>
      have hne : s.characterId ≠ id := fun hc => h (by rw [Write.row?, hc])
      exact congrArg RowValue.skin (filter_append_other hne _)
    | _ => rfl
  | deleteSkin k =>
    cases r with
    | skin id =>
      have hne : k ≠ id := fun hc => h (by rw [Write.row?, hc])
      exact congrArg RowValue.skin (filter_other hne _)
    | _ => rfl
  | deleteInventory k =>
    cases r with
    | inventory id =>
      have hne : k ≠ id := fun hc => h (by rw [Write.row?, hc])
      exact congrArg RowValue.inventory (filter_other hne _)
    | _ => rfl

theorem look_apply_congr (w : Write) (r : RowKey) (db db' : Database) (h : look r db = look r db') :
    look r (w.apply db) = look r (w.apply db') := by
  cases r with
  | account id =>
    have hid : db.account.get? id = db'.account.get? id := RowValue.account.inj h
    cases w with
    | insertAccount a => simp [look, Write.apply, Table.get?_insert, hid]
    | updateAccount a => simp [look, Write.apply, Table.get?_replace, hid]
    | _ => exact h
  | base id =>
    have hid : db.characterBase.get? id = db'.characterBase.get? id := RowValue.base.inj h
    cases w with
    | insertBase c => simp [look, Write.apply, Table.get?_insert, hid]
    | deleteBase k => simp [look, Write.apply, Table.get?_erase, hid]
    | _ => exact h
  | combat id =>
    have hid : db.characterCombat.filter (· = id) = db'.characterCombat.filter (· = id) := RowValue.combat.inj h
    cases w with
    | insertCombat k => simp only [look, Write.apply, List.filter_append, hid]
    | deleteCombat k =>
      simp only [look, Write.apply]
      rw [List.filter_comm, hid, List.filter_comm]
    | _ => exact h
  | skin id =>
    have hid : db.characterSkin.filter (·.characterId = id) = db'.characterSkin.filter (·.characterId = id) :=
      RowValue.skin.inj h
    cases w with
    | insertSkin s => simp only [look, Write.apply, List.filter_append, hid]
    | deleteSkin k =>
      simp only [look, Write.apply]
      rw [List.filter_comm, hid, List.filter_comm]
    | _ => exact h
  | inventory id =>
    have hid : db.characterInventory.filter (· = id) = db'.characterInventory.filter (· = id) :=
      RowValue.inventory.inj h
    cases w with
    | deleteInventory k =>
      simp only [look, Write.apply]
      rw [List.filter_comm, hid, List.filter_comm]
    | _ => exact h

theorem effect_newIds (st : Stmt) (now next : Int) (db : Database) :
    (st.effect now next db).next = next ∧ (st.effect now next db).writes.filterMap Write.newId? = [] ∨
    (st.effect now next db).next = next + 1 ∧
      (st.effect now next db).writes.filterMap Write.newId? = [next] := by
  cases st with
  | insertAccount userId userPassword => exact Or.inr ⟨rfl, rfl⟩
  | insertBase accountId slotIndex nickname classType => exact Or.inr ⟨rfl, rfl⟩
  | updateLastLogin userId => left; simp [Stmt.effect, Write.newId?]
  | deleteBase id accountId =>
    left
    cases h : db.characterBase.get? id with
    | none => simp [Stmt.effect, h]
    | some c => by_cases hc : c.accountId = accountId <;> simp [Stmt.effect, h, hc, Write.newId?]
  | _ => exact Or.inl ⟨rfl, rfl⟩

theorem effect_locked (st : Stmt) (now next : Int) (db : Database) (w : Write)
    (hw : w ∈ (st.effect now next db).writes) (r : RowKey) (hr : w.row? = some r) :
    r ∈ (st.effect now next db).locks := by
  have single : ∀ {w' : Write}, w ∈ [w'] → ∀ k, w'.row? = some k → r ∈ [k] := by
    intro w' hw' k hk
    obtain rfl := List.mem_singleton.mp hw'
    exact List.mem_singleton.mpr (Option.some.inj (hr.symm.trans hk))
  cases st with
  | insertSession accountId token =>
    obtain rfl := List.mem_singleton.mp hw
    cases hr
  | updateLastLogin userId =>
    simp only [Stmt.effect, List.mem_map, List.mem_filter] at hw ⊢
    obtain ⟨a, ⟨ha, -⟩, rfl⟩ := hw
    exact ⟨a, ha, Option.some.inj hr⟩
  | insertAccount userId userPassword => exact single hw _ rfl
  | insertBase accountId slotIndex nickname classType => exact single hw _ rfl
  | insertCombat id => exact single hw _ rfl
  | insertSkin row => exact single hw _ rfl
  | deleteCombat id => exact single hw _ rfl
  | deleteSkin id => exact single hw _ rfl
  | deleteInventory id => exact single hw _ rfl
  | deleteBase id accountId =>
    cases h : db.characterBase.get? id with
    | none => simp [Stmt.effect, h] at hw
    | some c =>
      by_cases hc : c.accountId = accountId
      · simp only [Stmt.effect, h, if_pos hc] at hw ⊢
        exact single hw _ rfl
      · simp [Stmt.effect, h, hc] at hw
  | _ => cases hw

theorem lobbyDb_lawful : lobbyDb.Lawful where
  look_other := look_apply_other
  look_congr := look_apply_congr
  locked := effect_locked
  next_le st now next db := by
    change next ≤ (st.effect now next db).next
    rcases effect_newIds st now next db with ⟨h, -⟩ | ⟨h, -⟩ <;> omega
  newId_new st now next db w hw k hk := by
    have hmem : k ∈ (st.effect now next db).writes.filterMap Write.newId? := List.mem_filterMap.mpr ⟨w, hw, hk⟩
    change next ≤ k ∧ k < (st.effect now next db).next
    rcases effect_newIds st now next db with ⟨-, h⟩ | ⟨hnext, h⟩
    · rw [h] at hmem
      cases hmem
    · rw [h, List.mem_singleton] at hmem
      omega
  newId_once st now next db := by
    change ((st.effect now next db).writes.filterMap Write.newId?).Nodup
    rcases effect_newIds st now next db with ⟨-, h⟩ | ⟨-, h⟩ <;> simp [h]

end Lobby
