import J1Server.Auction.Answers
import J1Server.Game.Cache
import J1Server.Lobby.Handlers

/-! # The elements that are read

From the handlers of the GameServer to the service of the AuctionServer: who looks at the size of a repeated
field, and who reads its element at 0. -/

open Lib Core

/-! ## AuctionServer

The handlers and the service, with the reads as the source has them. -/

namespace Auction.Unchecked

def handleReqRegistItem (pkt : ReqRegistItem) : Except RepeatedField (Option (Nat × Request)) :=
  if pkt.registinfo.length = 0 then pure none
  else do
    let info ← element .registinfo pkt.registinfo
    pure (some (writeKey info.playerId, .registItem pkt))

def handleReqPurchaseItem (pkt : ReqPurchaseItem) : Except RepeatedField (Option (Nat × Request)) :=
  if pkt.purchaseinfo.length = 0 then pure none
  else do
    let info ← element .purchaseinfo pkt.purchaseinfo
    pure (some (writeKey info.listId, .purchaseItem pkt))

def processRegistItem (pkt : ReqRegistItem) : Except RepeatedField (Prog (Sql auctionDb) (Option Response)) := do
  let info ← element .registinfo pkt.registinfo
  pure (do
    let r ← (regist info).prog ()
    pure (caught r fun ok => .registItem ok pkt.sessionId))

def processPurchaseItem (pkt : ReqPurchaseItem) : Except RepeatedField (Prog (Sql auctionDb) (Option Response)) := do
  let info ← element .purchaseinfo pkt.purchaseinfo
  pure (do
    let result ← purchase info
    pure (some (.purchaseItem result.success pkt.sessionId result.totalPrice)))

/-- The packet that a handler takes over and posts; `none` is a handler that returns false. -/
def handle : Request → Except RepeatedField (Option Request)
  | .auctionList pkt => pure (some (.auctionList pkt))
  | .receiptList pkt => pure (some (.receiptList pkt))
  | .registItem pkt => do
    let posted ← handleReqRegistItem pkt
    pure (posted.map Prod.snd)
  | .purchaseItem pkt => do
    let posted ← handleReqPurchaseItem pkt
    pure (posted.map Prod.snd)

def process : Request → Except RepeatedField (Prog (Sql auctionDb) (Option Response))
  | .auctionList pkt => pure (processAuctionList pkt)
  | .receiptList pkt => pure (processReceiptList pkt)
  | .registItem pkt => processRegistItem pkt
  | .purchaseItem pkt => processPurchaseItem pkt

/-- A request of the GameServer up to the database, and what runs there. -/
def serve (req : Request) : Except RepeatedField (Option (Prog (Sql auctionDb) (Option Response))) := do
  match ← handle req with
  | some posted => do
    let work ← process posted
    pure (some work)
  | none => pure none

/-- The service reads only what the handlers let through, whoever sent it. -/
theorem serve_eq (req : Request) : serve req = .ok (req.handle.map Task.process) := by
  cases req with
  | auctionList pkt => rfl
  | receiptList pkt => rfl
  | registItem pkt =>
    obtain ⟨sessionId, registinfo⟩ := pkt
    cases registinfo <;> rfl
  | purchaseItem pkt =>
    obtain ⟨sessionId, purchaseinfo⟩ := pkt
    cases purchaseinfo <;> rfl

end Auction.Unchecked

/-! ## Lobby -/

namespace Lobby.Unchecked

variable (a : Allocation)

/-- The rest of the transaction, after the character was read. -/
def insertCharacter (accountId : Nat) (temp : LobbyCharacterInfo) : Act (Sql lobbyDb) ConnectionPool Bool := do
  let characterId ← executeUpdateGenKeys (.insertBase accountId temp.slotId temp.name temp.classtype) fun key => key
  let ccUpdate : Int ← executeUpdate (.insertCombat characterId)
  let csUpdate : Int ← executeUpdate
    (.insertSkin ⟨characterId, temp.upperskinid, temp.lowerskinid, temp.weaponskinid⟩)
  if 0 < characterId ∧ 0 < ccUpdate ∧ 0 < csUpdate then do
    commit
    pure true
  else do
    rollback
    pure false

def createTransaction (pkt : ReqCreateCharacter) :
    Act (Sql lobbyDb) ConnectionPool (Except RepeatedField Bool) := do
  setAutoCommit false
  match element .characters pkt.characters with
  | .ok temp => do
    let result ← insertCharacter pkt.accountId temp
    pure (.ok result)
  | .error field => pure (.error field)

def handleReqCreateCharacter (pkt : ReqCreateCharacter) :
    Act (Sql lobbyDb) ConnectionPool (Except RepeatedField (Option Response)) :=
  if pkt.characters.length ≠ 1 then pure (.ok none)
  else do
    let conn ← borrow a
    let read ← tryCatch (createTransaction pkt) fun _ => do
      rollback
      pure (.ok false)
    match read with
    | .ok result => do
      setAutoCommit true
      unborrow conn
      pure (.ok (some (.createCharacter result)))
    | .error field => pure (.error field)

theorem handleReqCreateCharacter_eq (pkt : ReqCreateCharacter) :
    handleReqCreateCharacter a pkt = (Lobby.handleReqCreateCharacter a pkt >>= fun r => pure (.ok r)) := by
  obtain ⟨accountId, characters⟩ := pkt
  match characters with
  | [] => rfl
  | _ :: _ :: _ => rfl
  | [temp] =>
    have htransaction : createTransaction ⟨accountId, [temp]⟩ =
        (Lobby.createTransaction accountId temp >>= fun result => pure (.ok result)) := by
      change _ = ((setAutoCommit false >>= fun _ => insertCharacter accountId temp) >>= fun result =>
        pure (Except.ok result))
      rw [bind_assoc]
      rfl
    have hcatch : (tryCatch (createTransaction ⟨accountId, [temp]⟩) fun _ => do
          rollback
          pure (.ok false)) =
        ((tryCatch (Lobby.createTransaction accountId temp) fun _ => do
          rollback
          pure false) >>= fun result => pure (Except.ok result)) := by
      rw [htransaction, ← Act.tryCatch_map]
      simp only [bind_assoc, pure_bind]
    unfold handleReqCreateCharacter Lobby.handleReqCreateCharacter inTransaction
    simp only [List.length_singleton, ne_eq, not_true_eq_false, if_false, hcatch, bind_assoc, pure_bind]

end Lobby.Unchecked

/-! ## GameServer -/

namespace Game

open Auction

structure ReqRegistItem where
  registinfo : List AuctionItemInfo
  deriving DecidableEq

structure ReqPurchaseItem where
  purchaseinfo : List AuctionItemInfo
  deriving DecidableEq

structure ResPurchaseItem where
  result : Bool
  gold : Int
  deriving DecidableEq

/-- What a handler returns, and what it sends: a request to the AuctionServer, or a response to the client. -/
structure Handled where
  result : Bool
  forwarded : Option Auction.Request := none
  response : Option ResPurchaseItem := none

section Handlers

variable (snap : Option Snapshot) (now : Int) (sessionId : UInt64) (auctionSession : Bool)

/-- It does not look at the size. A field that is not set is zero. -/
def handleReqRegistItem (pkt : ReqRegistItem) : Except RepeatedField Handled := do
  let info ← element .registinfo pkt.registinfo
  let temp : AuctionItemInfo := ⟨0, info.playerId, 0, info.itemId, info.count, info.price, info.expiredAt⟩
  let registPkt : Auction.ReqRegistItem := ⟨sessionId.toInt64.toInt, [temp]⟩
  pure { result := true, forwarded := if auctionSession then some (.registItem registPkt) else none }

def handleReqPurchaseItem (pkt : ReqPurchaseItem) : Except RepeatedField Handled :=
  if pkt.purchaseinfo.length = 0 then pure { result := false }
  else do
    let info ← element .purchaseinfo pkt.purchaseinfo
    let verdict := validatePurchase snap now info.listId info.count info.playerId
    if verdict ≠ .pass ∧ verdict ≠ .unknown then pure { result := true, response := some ⟨false, 0⟩ }
    else do
      let copied ← element .purchaseinfo pkt.purchaseinfo
      let purchasePkt : Auction.ReqPurchaseItem := ⟨sessionId.toInt64.toInt, [copied]⟩
      pure { result := true, forwarded := if auctionSession then some (.purchaseItem purchasePkt) else none }

end Handlers

/-! ## The whole path -/

/-- The requests of a client that carry a repeated field. -/
inductive ClientRequest
  | registItem (pkt : ReqRegistItem)
  | purchaseItem (pkt : ReqPurchaseItem)
  | createCharacter (pkt : Lobby.ReqCreateCharacter)

/-- What a handler did, and what runs on the database for it. -/
abbrev Journey := Handled × Option (Prog (Sql auctionDb) (Option Auction.Response))

def relayed (handled : Handled) : Except RepeatedField Journey :=
  match handled.forwarded with
  | some req => do
    let work ← Auction.Unchecked.serve req
    pure (handled, work)
  | none => pure (handled, none)

/-- Every read finds its element, and if the field is empty, the handler returns false and nothing else is done. -/
def Guarded (field : List AuctionItemInfo) (journey : Except RepeatedField Journey) : Prop :=
  ∃ handled work, journey = .ok (handled, work) ∧
    (field = [] → handled.result = false ∧ handled.forwarded = none ∧ work = none)

section Path

variable (a : Lobby.Allocation) (snap : Option Snapshot) (now : Int) (sessionId : UInt64) (auctionSession : Bool)

/-- `Guarded`, for each of the requests. A character is created whatever the database answers. -/
def ReadsElements : ClientRequest → Prop
  | .registItem pkt => Guarded pkt.registinfo (handleReqRegistItem sessionId auctionSession pkt >>= relayed)
  | .purchaseItem pkt =>
    Guarded pkt.purchaseinfo (handleReqPurchaseItem snap now sessionId auctionSession pkt >>= relayed)
  | .createCharacter pkt => ∀ pool,
    (((Lobby.Unchecked.handleReqCreateCharacter a pkt).prog pool).Ends fun r => ∀ field, r.1 ≠ .ok (.error field)) ∧
    (pkt.characters = [] → (Lobby.Unchecked.handleReqCreateCharacter a pkt).prog pool = .done (.ok (.ok none), pool))

variable {a snap now sessionId auctionSession}

/-- What is forwarded has an element, or the AuctionServer refuses it. -/
theorem guarded_of_ok {field : List AuctionItemInfo} (hfield : field ≠ []) (handled : Handled) :
    Guarded field (Except.ok handled >>= relayed) := by
  obtain ⟨work, hwork⟩ : ∃ work, relayed handled = .ok (handled, work) := by
    obtain ⟨result, forwarded, response⟩ := handled
    unfold relayed
    cases forwarded with
    | none => exact ⟨none, rfl⟩
    | some req =>
      dsimp only
      rw [Auction.Unchecked.serve_eq]
      exact ⟨_, rfl⟩
  exact ⟨handled, work, hwork, fun hempty => absurd hempty hfield⟩

theorem registItem_guarded_iff (pkt : ReqRegistItem) :
    Guarded pkt.registinfo (handleReqRegistItem sessionId auctionSession pkt >>= relayed) ↔ pkt.registinfo ≠ [] := by
  constructor
  · rintro ⟨handled, work, hjourney, -⟩ hempty
    unfold handleReqRegistItem at hjourney
    rw [hempty] at hjourney
    cases hjourney
  · intro hne
    unfold handleReqRegistItem
    rw [element_bind _ hne]
    exact guarded_of_ok hne _

theorem purchaseItem_guarded (pkt : ReqPurchaseItem) :
    Guarded pkt.purchaseinfo (handleReqPurchaseItem snap now sessionId auctionSession pkt >>= relayed) := by
  unfold handleReqPurchaseItem
  by_cases hempty : pkt.purchaseinfo = []
  · rw [if_pos (by rw [hempty]; rfl)]
    exact ⟨{ result := false }, none, rfl, fun _ => ⟨rfl, rfl, rfl⟩⟩
  · rw [if_neg (by simpa using hempty)]
    -- Both reads find the same element; the verdict says who gets a packet.
    simp only [element_bind _ hempty]
    split
    · exact guarded_of_ok hempty _
    · exact guarded_of_ok hempty _

theorem createCharacter_guarded (pkt : Lobby.ReqCreateCharacter) :
    ReadsElements a snap now sessionId auctionSession (.createCharacter pkt) := by
  intro pool
  refine ⟨?_, fun hempty => ?_⟩
  · rw [Lobby.Unchecked.handleReqCreateCharacter_eq]
    refine (Act.ends_map _ _ pool).mono ?_
    intro r hr field hfield
    obtain ⟨answer, hanswer⟩ := hr _ hfield
    cases hanswer
  · unfold Lobby.Unchecked.handleReqCreateCharacter
    rw [hempty]
    rfl

/-- Every element that is read is there, and an empty packet is refused, for every request but the registration
without an item. -/
theorem reads_elements_iff (req : ClientRequest) :
    ReadsElements a snap now sessionId auctionSession req ↔ req ≠ .registItem ⟨[]⟩ := by
  cases req with
  | registItem pkt =>
    refine (registItem_guarded_iff pkt).trans (not_congr ?_)
    obtain ⟨registinfo⟩ := pkt
    simp
  | purchaseItem pkt => exact iff_of_true (purchaseItem_guarded pkt) (by rintro ⟨⟩)
  | createCharacter pkt => exact iff_of_true (createCharacter_guarded pkt) (by rintro ⟨⟩)

end Path

/-- The same empty packet for a purchase is refused. -/
theorem empty_regist_crashes :
    handleReqRegistItem 1 true ⟨[]⟩ = .error .registinfo ∧
    ¬ReadsElements {} none 0 1 true (.registItem ⟨[]⟩) ∧
    (handleReqPurchaseItem none 0 1 true ⟨[]⟩ >>= relayed) = .ok ({ result := false }, none) := by
  refine ⟨rfl, ?_, rfl⟩
  rintro ⟨handled, work, ⟨⟩, -⟩

end Game
