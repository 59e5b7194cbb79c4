import J1Server.Game.Cache
import J1Server.Core.SendQueue

/-! # The list that a client gets

From the snapshot, or through the AuctionServer. -/

namespace Game

open Core Auction

structure ReqAuctionListClient where
  playerId : UInt64
  searchItem : String
  mylist : Bool
  deriving DecidableEq

/-- `SS_Auction::REQ_AUCTION_LIST`. A field that is not set is zero. -/
structure SsReqAuctionList where
  sessionId : Int64
  requestId : Int32
  playerId : Int32
  searchItem : String
  mylist : Bool
  deriving DecidableEq

structure SsResAuctionList where
  sessionId : Int64
  requestId : Int32
  mylist : Bool
  listinfo : List AuctionItemInfo

/-- The session's queue after the call, and what the call returns. -/
def trySendList (snap : Option Snapshot) (now : Int) (session : SendQueue) : SendQueue × Bool :=
  match snap with
  | none => (session, false)
  | some snap =>
    if snap.listPacket = none ∨ isFresh snap now = false then (session, false)
    else (session.sendShared snap.listPacket, true)

/-- The session's queue, and what is sent to the AuctionServer. -/
def handleReqAuctionList (snap : Option Snapshot) (now : Int) (sessionId : UInt64) (auctionSession : Bool)
    (session : SendQueue) (pkt : ReqAuctionListClient) : SendQueue × Option SsReqAuctionList :=
  let forwarded : Option SsReqAuctionList :=
    if auctionSession then
      some ⟨sessionId.toInt64, 0, pkt.playerId.toInt64.toInt32, pkt.searchItem, pkt.mylist⟩
    else none
  if pkt.mylist then (session, forwarded)
  else
    match trySendList snap now session with
    | (session, true) => (session, none)
    | (session, false) => (session, forwarded)

/-- `Handle_RES_AUCTION_LIST`, for the session that `Find` gives. -/
def relayAuctionList (pb : Protobuf ResAuctionList) (pkt : SsResAuctionList) (session : SendQueue) : SendQueue :=
  session.enqueueSend (sendPacket pb ⟨pkt.mylist, pkt.listinfo⟩ pktResAuctionList)

variable {pb : Protobuf ResAuctionList} {items : List AuctionItemInfo} {buf : List UInt8}

/-! ## The packet of a snapshot -/

theorem buildClientPacket_eq_some (h : buildClientPacket pb items = some buf) :
    serialize pb (List.replicate (requiredSize pb ⟨false, items.take kClientListMax⟩) 0) pktResAuctionList
      ⟨false, items.take kClientListMax⟩ = (true, buf) := by
  unfold buildClientPacket at h
  dsimp only at h
  split at h
  · cases h
  · split at h
    · rename_i hwritten
      rw [hwritten, Option.some.inj h]
    · cases h

/-- A packet that is built is the one that `SendPacket` would make. -/
theorem sendPacket_eq_packet (h : buildClientPacket pb items = some buf) :
    sendPacket pb ⟨false, items.take kClientListMax⟩ pktResAuctionList = buf := by
  rw [sendPacket, buildClientPacket_eq_some h]

theorem serialize_length {M : Type} {P : Protobuf M} {buffer written : List UInt8} {code : Int16} {msg : M}
    (h : serialize P buffer code msg = (true, written)) : sizeofPacketHeader ≤ written.length := by
  unfold serialize at h
  split at h
  · cases h
  · dsimp only at h
    split at h
    · obtain ⟨-, rfl⟩ := Prod.mk.inj h
      obtain ⟨b₀, b₁, b₂, b₃, hbytes, -⟩ := headerOf_bytes (headerOf P code msg)
      rw [hbytes]
      simp [sizeofPacketHeader]
    · cases h

theorem buildClientPacket_ne_nil (h : buildClientPacket pb items = some buf) : buf ≠ [] := by
  rintro rfl
  have hheader := serialize_length (buildClientPacket_eq_some h)
  cases hheader

theorem sendShared_some (s : SendQueue) (h : buf ≠ []) : s.sendShared (some buf) = s.enqueueSend buf := by
  cases buf with
  | nil => exact absurd rfl h
  | cons b buf => rfl

/-! ## Both paths -/

/-- A list that is sent from the snapshot is queued as the bytes that the relay would queue, and a
snapshot without a packet sends nothing: the request goes to the AuctionServer. -/
theorem cached_list_eq_relayed (pb : Protobuf ResAuctionList) (pkt : SsResAuctionList) (received : Int)
    (hmylist : pkt.mylist = false) (hlen : pkt.listinfo.length ≤ kClientListMax) (session : SendQueue) (now : Int) :
    let snap := finishRefresh pb received pkt.listinfo
    (∀ buf, snap.listPacket = some buf →
      relayAuctionList pb pkt session = session.enqueueSend buf ∧
      (isFresh snap now → trySendList (some snap) now session = (relayAuctionList pb pkt session, true))) ∧
    ((snap.listPacket = none ∨ ¬isFresh snap now) → trySendList (some snap) now session = (session, false) ∧
      ∀ sessionId req, handleReqAuctionList (some snap) now sessionId true session req =
        (session, some ⟨sessionId.toInt64, 0, req.playerId.toInt64.toInt32, req.searchItem, req.mylist⟩)) := by
  intro snap
  have hwhole : pkt.listinfo.take kClientListMax = pkt.listinfo := List.take_of_length_le hlen
  constructor
  · intro buf hbuf
    have hbytes := sendPacket_eq_packet hbuf
    rw [hwhole] at hbytes
    have hrelay : relayAuctionList pb pkt session = session.enqueueSend buf := by
      rw [relayAuctionList, hmylist, hbytes]
    refine ⟨hrelay, fun hfresh => ?_⟩
    have hne : buf ≠ [] := buildClientPacket_ne_nil hbuf
    simp [trySendList, hbuf, hfresh, sendShared_some session hne, hrelay]
  · intro hmiss
    have hnothing : trySendList (some snap) now session = (session, false) := by
      unfold trySendList
      exact if_pos (hmiss.imp_right (by simp))
    refine ⟨hnothing, fun sessionId req => ?_⟩
    simp [handleReqAuctionList, hnothing]

def countingProtobuf : Protobuf ResAuctionList where
  byteSizeLong pkt := pkt.itemlist.length
  serialized pkt := List.replicate pkt.itemlist.length 1
  parseFromArray _ := none

theorem cached_list_eq_relayed_one_item :
    let pkt : SsResAuctionList := ⟨7, 0, false, [⟨1, 2, 0, 3, 4, 5, "2030-01-01 00:00:00"⟩]⟩
    trySendList (some (finishRefresh countingProtobuf 0 pkt.listinfo)) 1 {} =
      (relayAuctionList countingProtobuf pkt {}, true) ∧
    (relayAuctionList countingProtobuf pkt {}).sendQueue = [[1, 0, 161, 15, 1]] := by
  intro pkt
  have hpacket : (finishRefresh countingProtobuf 0 pkt.listinfo).listPacket = some [1, 0, 161, 15, 1] := by
    decide +kernel
  refine ⟨?_, by decide +kernel⟩
  have hboth := cached_list_eq_relayed countingProtobuf pkt 0 rfl (by decide) {} 1
  exact (hboth.1 _ hpacket).2 rfl

end Game
