import J1Server.Auction.Service
import J1Server.Core.Packet
import Mathlib.Data.List.FinRange

/-! # AuctionCache

The GameServer keeps the last list that it got from the AuctionServer, and checks
purchases against it. -/

namespace Game

open Core Auction

inductive Verdict
  | pass
  | unknown
  | rejectNotFound
  | rejectShortage
  | rejectOwn
  deriving DecidableEq

structure ResAuctionList where
  mylist : Bool
  itemlist : List AuctionItemInfo

/-- The index of a list of items: an id, and a place in the list. -/
abbrev Index (items : List AuctionItemInfo) := Int → Option (Fin items.length)

structure Snapshot where
  items : List AuctionItemInfo
  index : Index items
  listPacket : Option (List UInt8)
  maxListId : Int
  fetchedAt : Int

/-- The clock counts nanoseconds. -/
def kStaleLimit : Int := 3 * 60 * 10 ^ 9

def kClientListMax : Nat := 100

def pktResAuctionList : Int16 := 4001

/-! ## Refreshing -/

/-- An id that is in the index keeps its place. -/
def emplace {items : List AuctionItemInfo} (index : Index items) (i : Fin items.length) : Index items :=
  fun id => (index id).or (if id = items[i].listId then some i else none)

def indexItem (items : List AuctionItemInfo) (acc : Index items × Int) (i : Fin items.length) :
    Index items × Int :=
  (emplace acc.1 i, if acc.2 < items[i].listId then items[i].listId else acc.2)

def indexItems (items : List AuctionItemInfo) : Index items × Int :=
  (List.finRange items.length).foldl (indexItem items) (fun _ => none, 0)

/-- The packet is made once, for all clients; a list that does not fit its header has none. -/
def buildClientPacket (pb : Protobuf ResAuctionList) (items : List AuctionItemInfo) : Option (List UInt8) :=
  let pkt : ResAuctionList := ⟨false, items.take kClientListMax⟩
  if 32767 < pb.byteSizeLong pkt then none
  else
    match serialize pb (List.replicate (requiredSize pb pkt) 0) pktResAuctionList pkt with
    | (true, buf) => some buf
    | (false, _) => none

def finishRefresh (pb : Protobuf ResAuctionList) (now : Int) (listinfo : List AuctionItemInfo) : Snapshot where
  items := listinfo
  index := (indexItems listinfo).1
  listPacket := buildClientPacket pb listinfo
  maxListId := (indexItems listinfo).2
  fetchedAt := now

/-! ## Checking a purchase -/

def isFresh (s : Snapshot) (now : Int) : Bool := now - s.fetchedAt < kStaleLimit

def validatePurchase (snap : Option Snapshot) (now listId count buyerId : Int) : Verdict :=
  match snap with
  | none => .unknown
  | some snap =>
    if !isFresh snap now then .unknown
    else
      match snap.index listId with
      | none => if snap.maxListId < listId then .unknown else .rejectNotFound
      | some i =>
        let item := snap.items[i]
        if count ≤ 0 ∨ item.count < count then .rejectShortage
        else if item.playerId = buyerId then .rejectOwn
        else .pass

/-! ## What the index says -/

variable {items : List AuctionItemInfo}

/-- What the loop knows after the places `done`. -/
structure Indexed (items : List AuctionItemInfo) (done : List (Fin items.length)) (acc : Index items × Int) :
    Prop where
  sound : ∀ id i, acc.1 id = some i → items[i].listId = id
  complete : ∀ i ∈ done, acc.1 items[i].listId ≠ none
  above : ∀ i ∈ done, items[i].listId ≤ acc.2
  nonneg : 0 ≤ acc.2
  attained : acc.2 = 0 ∨ ∃ i : Fin items.length, items[i].listId = acc.2

theorem emplace_eq_some {index : Index items} {i j : Fin items.length} {id : Int}
    (h : emplace index i id = some j) : index id = some j ∨ (id = items[i].listId ∧ j = i) := by
  unfold emplace at h
  rcases Option.or_eq_some_iff.mp h with h | ⟨-, h⟩
  · exact Or.inl h
  · split at h
    · rename_i hid
      exact Or.inr ⟨hid, (Option.some.inj h).symm⟩
    · cases h

theorem emplace_eq_none {index : Index items} {i : Fin items.length} {id : Int}
    (h : emplace index i id = none) : index id = none ∧ id ≠ items[i].listId := by
  unfold emplace at h
  obtain ⟨hindex, hid⟩ := Option.or_eq_none_iff.mp h
  refine ⟨hindex, ?_⟩
  rintro rfl
  simp at hid

theorem Indexed.step {done : List (Fin items.length)} {acc : Index items × Int} (h : Indexed items done acc)
    (i : Fin items.length) : Indexed items (done ++ [i]) (indexItem items acc i) := by
  have hmax : acc.2 ≤ (indexItem items acc i).2 ∧ items[i].listId ≤ (indexItem items acc i).2 := by
    unfold indexItem
    dsimp only
    split <;> omega
  refine ⟨fun id j hj => ?_, fun j hj => ?_, fun j hj => ?_, h.nonneg.trans hmax.1, ?_⟩
  · rcases emplace_eq_some hj with hj | ⟨hid, rfl⟩
    · exact h.sound id j hj
    · exact hid.symm
  · intro hnone
    obtain ⟨hindex, hid⟩ := emplace_eq_none hnone
    rcases List.mem_append.mp hj with hj | hj
    · exact h.complete j hj hindex
    · exact hid (by rw [List.mem_singleton.mp hj])
  · rcases List.mem_append.mp hj with hj | hj
    · exact (h.above j hj).trans hmax.1
    · rw [List.mem_singleton.mp hj]
      exact hmax.2
  · unfold indexItem
    dsimp only
    split
    · exact Or.inr ⟨i, rfl⟩
    · exact h.attained

theorem indexItems_indexed (items : List AuctionItemInfo) :
    Indexed items (List.finRange items.length) (indexItems items) := by
  have hloop : ∀ (todo done : List (Fin items.length)) (acc : Index items × Int), Indexed items done acc →
      Indexed items (done ++ todo) (todo.foldl (indexItem items) acc) := by
    intro todo
    induction todo with
    | nil =>
      intro done acc h
      rwa [List.append_nil]
    | cons i todo ih =>
      intro done acc h
      have := ih (done ++ [i]) _ (h.step i)
      rwa [List.append_assoc] at this
  exact hloop _ [] _ ⟨by simp, by simp, by simp, le_refl 0, Or.inl rfl⟩

theorem index_none {id : Int} (h : (indexItems items).1 id = none) : ∀ item ∈ items, item.listId ≠ id := by
  rintro item hitem rfl
  obtain ⟨n, hn, rfl⟩ := List.mem_iff_getElem.mp hitem
  exact (indexItems_indexed items).complete ⟨n, hn⟩ (List.mem_finRange _) h

theorem maxListId_attained (h : 0 < (indexItems items).2) : ∃ item ∈ items, item.listId = (indexItems items).2 := by
  rcases (indexItems_indexed items).attained with hzero | ⟨i, hi⟩
  · omega
  · exact ⟨items[i], List.getElem_mem _, hi⟩

theorem maxListId_lt {id : Int} (hpos : 0 < id) (h : ∀ item ∈ items, item.listId < id) :
    (indexItems items).2 < id := by
  rcases (indexItems_indexed items).attained with hzero | ⟨i, hi⟩
  · omega
  · rw [← hi]
    exact h _ (List.getElem_mem _)

/-- What a purchase is rejected for, when its listing is not found. -/
theorem validatePurchase_notFound {snap : Snapshot} {now listId count buyerId : Int}
    (h : validatePurchase (some snap) now listId count buyerId = .rejectNotFound) :
    snap.index listId = none ∧ listId ≤ snap.maxListId := by
  unfold validatePurchase at h
  dsimp only at h
  split at h
  · cases h
  · split at h
    · rename_i hnone
      split at h
      · cases h
      · exact ⟨hnone, by omega⟩
    · split at h
      · cases h
      · split at h <;> cases h

end Game
