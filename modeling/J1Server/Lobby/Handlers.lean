import J1Server.Core.ConnectionPool
import J1Server.Lobby.Data
import J1Server.Lib.Transaction

/-! # Lobby and sign-in requests

The database handlers of the GameServer's lobby, and the SignManager of the
LoginServer. A handler keeps the process's connection pool in its cell, so that
the pool is known also after an exception. -/

namespace Lobby

open Lib Core
open Auction (CharacterBase)

/-! ## ConnectionPool -/

/-- What `borrow` meets when no connection is free: who still holds one, and what the factory makes. -/
structure Allocation where
  held : Connection → Bool := fun _ => false
  created : Option Connection := none

def connectionUnavailable : SqlException := ⟨0, "Unable to allocate connection"⟩

def borrow (a : Allocation) : Act (Sql lobbyDb) ConnectionPool Connection := do
  let pool ← get
  match pool.borrow a.held a.created with
  | (some conn, pool') => do
    set pool'
    pure conn
  | (none, _) => throw connectionUnavailable

def unborrow (conn : Connection) : Act (Sql lobbyDb) ConnectionPool Unit := do
  let pool ← get
  set (pool.unborrow conn)

/-! ## SqlUtils -/

def executeQuery {σ : Type} (st : Stmt) : Act (Sql lobbyDb) σ st.Reply := execute (D := lobbyDb) st

def executeUpdate {σ : Type} (st : Stmt) : Act (Sql lobbyDb) σ st.Reply := execute (D := lobbyDb) st

def executeUpdateGenKeys {σ : Type} (st : Stmt) (key : st.Reply → Int) : Act (Sql lobbyDb) σ Int := do
  let reply ← executeUpdate st
  let id : Int ← executeQuery (.selectLastInsertId (key reply))
  pure (toInt32 id)

/-- The password functions: `validatePassword` and `generateHash`. -/
structure BCrypt where
  validatePassword : String → String → Bool
  generateHash : String → String

/-! ## MySQLConnection -/

def setAutoCommit {σ : Type} (start : Bool) : Act (Sql lobbyDb) σ Unit :=
  Act.call (I := Sql lobbyDb) (Call.setAutoCommit start)

def commit {σ : Type} : Act (Sql lobbyDb) σ Unit := Act.call (I := Sql lobbyDb) Call.commit

def rollback {σ : Type} : Act (Sql lobbyDb) σ Unit := Act.call (I := Sql lobbyDb) Call.rollback

/-! ## Packets -/

structure LobbyCharacterInfo where
  characterId : Nat
  slotId : Nat
  name : String
  classtype : Nat
  level : Nat
  gold : Nat
  upperskinid : Nat
  lowerskinid : Nat
  weaponskinid : Nat
  deriving DecidableEq

structure ReqCheckTokenvalid where
  id : Nat
  token : String

structure ReqCharacterList where
  id : Nat

structure ReqCheckNickname where
  name : String

structure ReqCreateCharacter where
  accountId : Nat
  characters : List LobbyCharacterInfo

structure ReqDeleteCharacter where
  accountId : Nat
  characterId : Nat

inductive Response
  | checkTokenvalid (result : Bool)
  | characterList (result : Bool) (characters : List LobbyCharacterInfo)
  | checkNickname (result : Bool)
  | createCharacter (result : Bool)
  | deleteCharacter (result : Bool)
  deriving DecidableEq

/-! ## LobbyPacketHandler

A handler that returns true has sent a response; `none` is a handler that returns false. -/

section LobbyPacketHandler

variable (a : Allocation)

def handleReqCheckTokenvalid (pkt : ReqCheckTokenvalid) : Act (Sql lobbyDb) ConnectionPool (Option Response) := do
  let conn ← borrow a
  let id : Int := toInt32 pkt.id
  let result : Bool ← executeQuery (.selectToken id pkt.token)
  unborrow conn
  pure (some (.checkTokenvalid result))

def characterInfoOf (row : CharacterBase × CharacterSkin) : LobbyCharacterInfo where
  characterId := toUInt64 (toInt32 row.1.characterId)
  slotId := toUInt64 (toInt32 row.1.slotIndex)
  name := row.1.nickname
  classtype := toUInt64 (toInt32 row.1.classType)
  level := toUInt64 (toInt32 row.1.level)
  gold := toUInt64 (toInt32 row.1.gold)
  upperskinid := toUInt64 (toInt32 row.2.upperSkin)
  lowerskinid := toUInt64 (toInt32 row.2.lowerSkin)
  weaponskinid := toUInt64 (toInt32 row.2.weaponSkin)

def findCharacters (id : Nat) :
    Act (Sql lobbyDb) ConnectionPool (Option (List (CharacterBase × CharacterSkin))) :=
  if 0 < id then do
    let rows : List (CharacterBase × CharacterSkin) ← executeQuery (.selectCharacters id)
    pure (some rows)
  else pure none

def handleReqCharacterList (pkt : ReqCharacterList) : Act (Sql lobbyDb) ConnectionPool (Option Response) := do
  let conn ← borrow a
  let found ← findCharacters pkt.id
  unborrow conn
  pure (some (.characterList found.isSome ((found.getD []).map characterInfoOf)))

def handleReqCheckNickname (pkt : ReqCheckNickname) : Act (Sql lobbyDb) ConnectionPool (Option Response) := do
  let conn ← borrow a
  let result : Bool ← executeQuery (.selectNickname pkt.name)
  unborrow conn
  pure (some (.checkNickname result))

/-- The transaction of a new character, up to the catch block. -/
def createTransaction (accountId : Nat) (temp : LobbyCharacterInfo) : Act (Sql lobbyDb) ConnectionPool Bool := do
  setAutoCommit false
  let characterId ← executeUpdateGenKeys (.insertBase accountId temp.slotId temp.name temp.classtype) fun key => key
  let ccUpdate : Int ← executeUpdate (.insertCombat characterId)
  let csUpdate : Int ← executeUpdate
    (.insertSkin ⟨characterId, temp.upperskinid, temp.lowerskinid, temp.weaponskinid⟩)
  if 0 < characterId ∧ 0 < ccUpdate ∧ 0 < csUpdate then do
    commit
    pure true
  else do
    rollback
    pure false

def deleteTransaction (pkt : ReqDeleteCharacter) : Act (Sql lobbyDb) ConnectionPool Bool := do
  setAutoCommit false
  let _ccUpdate ← executeUpdate (.deleteCombat pkt.characterId)
  let _csUpdate ← executeUpdate (.deleteSkin pkt.characterId)
  let _ciUpdate ← executeUpdate (.deleteInventory pkt.characterId)
  let cbUpdate : Int ← executeUpdate (.deleteBase pkt.characterId pkt.accountId)
  if cbUpdate = 0 then do
    rollback
    pure false
  else do
    commit
    pure true

/-- The transaction with its catch block, and autocommit after it. -/
def inTransaction (transaction : Act (Sql lobbyDb) ConnectionPool Bool) : Act (Sql lobbyDb) ConnectionPool Bool := do
  let result ← tryCatch transaction fun _ => do
    rollback
    pure false
  setAutoCommit true
  pure result

def handleReqCreateCharacter (pkt : ReqCreateCharacter) : Act (Sql lobbyDb) ConnectionPool (Option Response) :=
  match pkt.characters with
  | [temp] => do
    let conn ← borrow a
    let result ← inTransaction (createTransaction pkt.accountId temp)
    unborrow conn
    pure (some (.createCharacter result))
  | _ => pure none

def handleReqDeleteCharacter (pkt : ReqDeleteCharacter) : Act (Sql lobbyDb) ConnectionPool (Option Response) :=
  if pkt.accountId ≠ 0 ∧ pkt.characterId ≠ 0 then do
    let conn ← borrow a
    let result ← inTransaction (deleteTransaction pkt)
    unborrow conn
    pure (some (.deleteCharacter result))
  else pure none

end LobbyPacketHandler

/-! ## SignManager -/

section SignManager

variable (b : BCrypt) (a : Allocation)

def tryCheckId (id : String) : Act (Sql lobbyDb) ConnectionPool Bool := do
  let conn ← borrow a
  let row : Option (Int × String) ← executeQuery (.selectAccount id)
  unborrow conn
  pure row.isSome

/-- One turn of the loop: `successInsert`, and what `result` is after it. -/
def insertToken (accountId : Int) (token : String) (result : Int × String) :
    Act (Sql lobbyDb) ConnectionPool (Int × Int × String) :=
  tryCatch
    (do
      let successInsert : Int ← executeUpdate (.insertSession accountId token)
      pure (successInsert, accountId, token))
    fun _ => pure (-1, result)

/-- The loop: `token` is the next string that `GenerateToken` draws, and `tokens` what it would draw after
that. When they are used up, the loop still runs. -/
def insertTokens (accountId : Int) (token : String) (tokens : List String) (result : Int × String) :
    Act (Sql lobbyDb) ConnectionPool (Option (Int × String)) := do
  let (successInsert, result) ← insertToken accountId token result
  if successInsert < 0 then
    match tokens with
    | [] => pure none
    | token :: tokens => insertTokens accountId token tokens result
  else pure (some result)

def credentialsOf : Option (Int × String) → Int × String
  | some (accountId, hash) => (toInt32 accountId, hash)
  | none => (-1, "")

/-- All that `TrySignIn` does while it has the connection. -/
def signIn (id pw token : String) (tokens : List String) :
    Act (Sql lobbyDb) ConnectionPool (Option (Int × String)) := do
  let row : Option (Int × String) ← executeQuery (.selectAccount id)
  let (accountId, hashedPw) := credentialsOf row
  if b.validatePassword pw hashedPw then do
    match ← insertTokens accountId token tokens (-1, "") with
    | none => pure none
    | some result => do
      let _successUpdate ← executeUpdate (.updateLastLogin id)
      pure (some result)
  else pure (some (-1, ""))

/-- `none` while it has not returned. -/
def trySignIn (id pw token : String) (tokens : List String) :
    Act (Sql lobbyDb) ConnectionPool (Option (Int × String)) := do
  let conn ← borrow a
  match ← signIn b id pw token tokens with
  | none => pure none
  | some result => do
    unborrow conn
    pure (some result)

def trySignUp (id pw : String) : Act (Sql lobbyDb) ConnectionPool Bool := do
  let conn ← borrow a
  let accountId ← executeUpdateGenKeys (.insertAccount id (b.generateHash pw)) fun key => key
  unborrow conn
  pure (decide (accountId ≠ -1))

/-! ## LoginPacketHandler -/

structure ResLogin where
  playerId : Int
  token : String
  deriving DecidableEq

def handleReqLogin (id pw token : String) (tokens : List String) :
    Act (Sql lobbyDb) ConnectionPool (Option ResLogin) := do
  let loginResult ← trySignIn b a id pw token tokens
  pure (loginResult.map fun result => ⟨result.1, result.2⟩)

end SignManager

end Lobby
