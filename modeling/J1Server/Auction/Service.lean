import J1Server.Auction.Data
import J1Server.Lib.Transaction

/-! # AuctionService

The requests of the AuctionServer, as a worker runs them on its connection. -/

namespace Auction

open Lib Core

structure AuctionItemInfo where
  listId : Int
  playerId : Int
  receiptType : Int
  itemId : Int
  count : Int
  price : Int
  expiredAt : String
  deriving DecidableEq

def kMaxTxAttempts : Nat := 3
def kErrLockWaitTimeout : Int := 1205
def kErrDeadlock : Int := 1213

/-- `sql::SQLException(reason)`: an exception of the program's own has no error code. -/
def sqlException (reason : String) : SqlException := ⟨0, reason⟩

/-! ## SqlUtils -/

def executeQuery {σ : Type} (st : Stmt) : Act (Sql auctionDb) σ st.Reply := execute (D := auctionDb) st

def executeUpdate {σ : Type} (st : Stmt) : Act (Sql auctionDb) σ st.Reply := execute (D := auctionDb) st

/-! ## Lookup -/

def itemOf (l : Listing) : AuctionItemInfo where
  listId := toInt32 l.listingId
  playerId := toInt32 l.sellerId
  receiptType := 0
  itemId := toInt32 l.itemId
  count := toInt32 l.remainingQuantity
  price := toInt32 l.price
  expiredAt := datetimeText l.expiredAt

def getListings (mine : Bool) (playerId : Int) : Act (Sql auctionDb) Unit (List AuctionItemInfo) := do
  let rows : List Listing ← executeQuery (.selectListings mine playerId)
  pure (rows.map itemOf)

/-- `getInt` of a `NULL` is 0. -/
def receiptOf (r : Receipt × Nat) : AuctionItemInfo where
  listId := toInt32 r.2
  playerId := 0
  receiptType := toInt32 r.1.receiptType
  itemId := toInt32 (r.1.itemId.getD 0)
  count := toInt32 (r.1.quantity.getD 0)
  price := toInt32 (r.1.goldAmount.getD 0)
  expiredAt := ""

def getReceipts (playerId : Nat) : Act (Sql auctionDb) Unit (List AuctionItemInfo) := do
  let rows : List (Receipt × Nat) ← executeQuery (.selectReceipts playerId)
  pure (rows.map receiptOf)

/-! ## Registration -/

def hoursOf (info : AuctionItemInfo) : Int := if info.expiredAt = "24" then 24 else 48

def regist (info : AuctionItemInfo) : Act (Sql auctionDb) Unit Bool := do
  let affected : Int ← executeUpdate
    (.insertListing info.playerId info.itemId info.count info.price (hoursOf info))
  pure (decide (0 < affected))

/-! ## Purchase -/

/-- The end of `TryPurchase`: the transaction and the two receipts are written, and all is committed. -/
def recordSale (info : AuctionItemInfo) (row : Listing) (totalPrice : Int) :
    Act (Sql auctionDb) Int Unit := do
  let affected : Int ← executeUpdate (.insertTransaction ⟨toInt32 row.itemId, info.count, totalPrice⟩)
  if affected = 0 then throw (sqlException "transaction update failed")
  else do
    let affected : Int ← executeUpdate (.insertReceipts
      [⟨info.playerId, 3, none, some (toInt32 row.itemId), some info.count, info.listId⟩,
        ⟨toInt64 row.sellerId, 1, some totalPrice, none, none, info.listId⟩])
    if affected ≠ 2 then throw (sqlException "receipt update failed")
    else Act.call (I := Sql auctionDb) Call.commit

/-- The last units delete the listing; otherwise the quantity is guarded by the `UPDATE` itself. -/
def takeStock (info : AuctionItemInfo) (row : Listing) (totalPrice : Int) :
    Act (Sql auctionDb) Int Unit := do
  let puchaseresult : Int ←
    if toInt32 row.remainingQuantity = info.count then executeUpdate (.deleteListing info.listId)
    else executeUpdate (.updateQuantity info.count info.listId info.count)
  if puchaseresult = 0 then throw (sqlException "quantity update failed")
  else recordSale info row totalPrice

def chargeGold (info : AuctionItemInfo) (row : Listing) (totalPrice : Int) :
    Act (Sql auctionDb) Int Unit := do
  let affected : Int ← executeUpdate (.updateGold totalPrice info.playerId totalPrice)
  if affected = 0 then throw (sqlException "not enough gold")
  else takeStock info row totalPrice

/-- One attempt. The cell is the caller's `totalPrice`. -/
def tryPurchase (info : AuctionItemInfo) : Act (Sql auctionDb) Int Unit := do
  Act.call (I := Sql auctionDb) (Call.setAutoCommit false)
  if info.count ≤ 0 then throw (sqlException "invalid count")
  else do
    let found : Option Listing ← executeQuery (.selectListingForUpdate info.listId)
    match found with
    | none => throw (sqlException "listing not found or expired")
    | some row => do
      let totalPrice := toInt64 (toInt64 row.price * info.count)
      set totalPrice
      if toInt64 row.sellerId = info.playerId then throw (sqlException "own listing")
      else chargeGold info row totalPrice

structure PurchaseResult where
  success : Bool := false
  totalPrice : Int := 0
  deriving DecidableEq

def safeRollback : Prog (Sql auctionDb) Unit := do
  let _ ← Prog.perform (I := Sql auctionDb) Call.rollback
  pure ()

def safeRestoreAutoCommit : Prog (Sql auctionDb) Unit := do
  let _ ← Prog.perform (I := Sql auctionDb) (Call.setAutoCommit true)
  pure ()

def retryable (e : SqlException) (attempt : Nat) : Bool :=
  (e.code = kErrDeadlock ∨ e.code = kErrLockWaitTimeout) ∧ attempt < kMaxTxAttempts

/-- The loop of `Purchase`, with `left` attempts to go. -/
def purchaseFrom (info : AuctionItemInfo) (left attempt : Nat) (result : PurchaseResult) :
    Prog (Sql auctionDb) PurchaseResult :=
  match left with
  | 0 => pure result
  | left + 1 => do
    let (outcome, totalPrice) ← (tryPurchase info).prog 0
    match outcome with
    | .ok _ => do
      safeRestoreAutoCommit
      pure ⟨true, totalPrice⟩
    | .error e => do
      safeRollback
      safeRestoreAutoCommit
      if retryable e attempt then purchaseFrom info left (attempt + 1) ⟨false, totalPrice⟩
      else pure ⟨false, totalPrice⟩

def purchase (info : AuctionItemInfo) : Prog (Sql auctionDb) PurchaseResult :=
  purchaseFrom info kMaxTxAttempts 1 {}

/-! ## Requests and responses -/

structure ReqAuctionList where
  sessionId : Int
  requestId : Int
  playerId : Int
  mylist : Bool

structure ReqReceiptList where
  sessionId : Int
  playerId : Nat

structure ReqRegistItem where
  sessionId : Int
  registinfo : List AuctionItemInfo

structure ReqPurchaseItem where
  sessionId : Int
  purchaseinfo : List AuctionItemInfo

inductive Response
  | auctionList (sessionId requestId : Int) (mylist : Bool) (listinfo : List AuctionItemInfo)
  | receiptList (sessionId : Int) (receiptlist : List AuctionItemInfo)
  | registItem (result : Bool) (sessionId : Int)
  | purchaseItem (result : Bool) (sessionId gold : Int)
  deriving DecidableEq

/-- A task of the worker pool. The handlers drop a packet without an item. -/
inductive Task
  | auctionList (pkt : ReqAuctionList)
  | receiptList (pkt : ReqReceiptList)
  | registItem (pkt : ReqRegistItem) (nonempty : pkt.registinfo ≠ [])
  | purchaseItem (pkt : ReqPurchaseItem) (nonempty : pkt.purchaseinfo ≠ [])

/-- `PostRead`: a task of the read workers. -/
def Task.reads : Task → Bool
  | .auctionList _ => true
  | .receiptList _ => true
  | .registItem .. => false
  | .purchaseItem .. => false

def writeKey (id : Int) : Nat := (id % 2 ^ 64).toNat

def handleReqAuctionList (pkt : ReqAuctionList) : Option Task := some (.auctionList pkt)

def handleReqReceiptList (pkt : ReqReceiptList) : Option Task := some (.receiptList pkt)

def handleReqRegistItem (pkt : ReqRegistItem) : Option (Nat × Task) :=
  if h : pkt.registinfo = [] then none
  else some (writeKey (pkt.registinfo.head h).playerId, .registItem pkt h)

def handleReqPurchaseItem (pkt : ReqPurchaseItem) : Option (Nat × Task) :=
  if h : pkt.purchaseinfo = [] then none
  else some (writeKey (pkt.purchaseinfo.head h).listId, .purchaseItem pkt h)

def caught {α : Type} (r : Except SqlException α × Unit) (respond : α → Response) : Option Response :=
  match r.1 with
  | .ok a => some (respond a)
  | .error _ => none

def processAuctionList (pkt : ReqAuctionList) : Prog (Sql auctionDb) (Option Response) := do
  let r ← (getListings pkt.mylist pkt.playerId).prog ()
  pure (caught r fun items => .auctionList pkt.sessionId pkt.requestId pkt.mylist items)

def processReceiptList (pkt : ReqReceiptList) : Prog (Sql auctionDb) (Option Response) := do
  let r ← (getReceipts pkt.playerId).prog ()
  pure (caught r fun items => .receiptList pkt.sessionId items)

def processRegistItem (pkt : ReqRegistItem) (h : pkt.registinfo ≠ []) :
    Prog (Sql auctionDb) (Option Response) := do
  let r ← (regist (pkt.registinfo.head h)).prog ()
  pure (caught r fun ok => .registItem ok pkt.sessionId)

def processPurchaseItem (pkt : ReqPurchaseItem) (h : pkt.purchaseinfo ≠ []) :
    Prog (Sql auctionDb) (Option Response) := do
  let result ← purchase (pkt.purchaseinfo.head h)
  pure (some (.purchaseItem result.success pkt.sessionId result.totalPrice))

def Task.process : Task → Prog (Sql auctionDb) (Option Response)
  | .auctionList pkt => processAuctionList pkt
  | .receiptList pkt => processReceiptList pkt
  | .registItem pkt h => processRegistItem pkt h
  | .purchaseItem pkt h => processPurchaseItem pkt h

/-- A task of one statement: a call that throws leaves no response. -/
def oneStatement (st : Stmt) (respond : st.Reply → Response) : Prog (Sql auctionDb) (Option Response) :=
  Prog.call (I := Sql auctionDb) (Call.exec st) fun o =>
    match o with
    | .ok reply => Prog.call (I := Sql auctionDb) Call.finish fun o' =>
      match o' with
      | .ok _ => .done (some (respond reply))
      | .error _ => .done none
    | .error _ => .done none

theorem caught_eq {α : Type} (st : Stmt) (f : st.Reply → α) (respond : α → Response) :
    ((do
      let reply ← execute (D := auctionDb) st
      pure (f reply) : Act (Sql auctionDb) Unit α).prog () >>= fun r => pure (caught r respond)) =
      oneStatement st fun reply => respond (f reply) := by
  refine congrArg (Prog.call (I := Sql auctionDb) _) (funext fun o => ?_)
  cases o with
  | ok reply =>
    refine congrArg (Prog.call (I := Sql auctionDb) Call.finish) (funext fun o' => ?_)
    cases o' <;> rfl
  | error e => rfl

end Auction
