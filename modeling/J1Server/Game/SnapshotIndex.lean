import J1Server.Game.Cache

/-! # The index of a snapshot

A look into the index answers what a walk through the list would. -/

namespace Game

open Core Auction

variable {items : List AuctionItemInfo}

/-- What a snapshot of `listinfo` has to know: the items in their order, the first place of every id and
of no other, and the largest id. -/
structure Searches (listinfo : List AuctionItemInfo) (snap : Snapshot) : Prop where
  items : snap.items = listinfo
  first : ∀ id i, snap.index id = some i ↔
    (snap.items.get i).listId = id ∧ ∀ j < i, (snap.items.get j).listId ≠ id
  absent : ∀ id, snap.index id = none ↔ ∀ item ∈ listinfo, item.listId ≠ id
  maxListId : (0 :: listinfo.map AuctionItemInfo.listId).max? = some snap.maxListId

/-- The check of a purchase against a list that was received `age` ago, without an index. -/
def scanPurchase (listinfo : List AuctionItemInfo) (age listId count buyerId : Int) : Verdict :=
  if kStaleLimit ≤ age then .unknown
  else
    match listinfo.find? (·.listId = listId) with
    | none => if 0 < listId ∧ ∀ item ∈ listinfo, item.listId < listId then .unknown else .rejectNotFound
    | some item =>
      if count ≤ 0 ∨ item.count < count then .rejectShortage
      else if item.playerId = buyerId then .rejectOwn
      else .pass

/-! ## The loop -/

theorem finRange_find {α : Type} (p : α → Bool) (l : List α) :
    (List.finRange l.length).find? (fun i => p (l.get i)) = l.findFinIdx? p := by
  induction l with
  | nil => rfl
  | cons a l ih =>
    change (List.finRange (l.length + 1)).find? _ = _
    rw [List.finRange_succ, List.find?_cons, List.findFinIdx?_cons, ← ih, List.find?_map]
    cases hp : p a with
    | true => simp [hp]
    | false =>
      simp only [List.get_cons_zero, hp, Bool.false_eq_true, if_false]
      rfl

theorem find_findFinIdx {α : Type} (p : α → Bool) (l : List α) : l.find? p = (l.findFinIdx? p).map l.get := by
  induction l with
  | nil => rfl
  | cons a l ih =>
    rw [List.find?_cons, List.findFinIdx?_cons]
    cases p a with
    | true => rfl
    | false =>
      simp only [Bool.false_eq_true, if_false, ih, Option.map_map]
      rfl

/-- Every step of the loop looks at one more place. -/
theorem foldl_index (todo : List (Fin items.length)) (acc : Index items × Int) (id : Int) :
    (todo.foldl (indexItem items) acc).1 id =
      (acc.1 id).or (todo.find? fun i => decide ((items.get i).listId = id)) := by
  induction todo generalizing acc with
  | nil => simp
  | cons i todo ih =>
    have hstep : (indexItem items acc i).1 id = (acc.1 id).or (if id = (items.get i).listId then some i else none) :=
      rfl
    rw [List.foldl_cons, ih, hstep, Option.or_assoc, List.find?_cons]
    by_cases hid : (items.get i).listId = id
    · simp only [hid, decide_true, if_true, Option.some_or]
    · simp only [hid, Ne.symm hid, decide_false, if_false, Option.none_or]

theorem foldl_maxListId (todo : List (Fin items.length)) (acc : Index items × Int) :
    (todo.foldl (indexItem items) acc).2 = (todo.map fun i => (items.get i).listId).foldl max acc.2 := by
  induction todo generalizing acc with
  | nil => rfl
  | cons i todo ih =>
    have hstep : (indexItem items acc i).2 = max acc.2 (items.get i).listId := by
      change (if acc.2 < (items.get i).listId then (items.get i).listId else acc.2) = _
      omega
    rw [List.foldl_cons, ih, hstep, List.map_cons, List.foldl_cons]

theorem indexItems_index (items : List AuctionItemInfo) (id : Int) :
    (indexItems items).1 id = items.findFinIdx? fun item => decide (item.listId = id) := by
  unfold indexItems
  rw [foldl_index, Option.none_or]
  exact finRange_find (fun item => decide (item.listId = id)) items

theorem indexItems_maxListId (items : List AuctionItemInfo) :
    (indexItems items).2 = (items.map AuctionItemInfo.listId).foldl max 0 := by
  unfold indexItems
  rw [foldl_maxListId]
  have hids : ((List.finRange items.length).map fun i => (items.get i).listId) = items.map AuctionItemInfo.listId := by
    calc ((List.finRange items.length).map fun i => (items.get i).listId)
        = ((List.finRange items.length).map items.get).map AuctionItemInfo.listId := by rw [List.map_map]; rfl
      _ = items.map AuctionItemInfo.listId := by rw [List.map_get_finRange]
  rw [hids]

theorem index_eq_some_iff (items : List AuctionItemInfo) (id : Int) (i : Fin items.length) :
    (indexItems items).1 id = some i ↔ (items.get i).listId = id ∧ ∀ j < i, (items.get j).listId ≠ id := by
  rw [indexItems_index, List.findFinIdx?_eq_some_iff]
  simp

theorem index_eq_none_iff (items : List AuctionItemInfo) (id : Int) :
    (indexItems items).1 id = none ↔ ∀ item ∈ items, item.listId ≠ id := by
  rw [indexItems_index, List.findFinIdx?_eq_none_iff]
  simp

/-! ## Every list -/

theorem finishRefresh_searches (pb : Protobuf ResAuctionList) (now : Int) (listinfo : List AuctionItemInfo) :
    Searches listinfo (finishRefresh pb now listinfo) where
  items := rfl
  first := index_eq_some_iff listinfo
  absent := index_eq_none_iff listinfo
  maxListId := by
    change _ = some (indexItems listinfo).2
    rw [indexItems_maxListId]
    rfl

/-- An id above the largest one is above 0 and above every id. -/
theorem maxListId_lt_iff (items : List AuctionItemInfo) (id : Int) :
    (indexItems items).2 < id ↔ 0 < id ∧ ∀ item ∈ items, item.listId < id := by
  have h := indexItems_indexed items
  constructor
  · intro hlt
    refine ⟨by have := h.nonneg; omega, fun item hitem => ?_⟩
    obtain ⟨n, hn, rfl⟩ := List.mem_iff_getElem.mp hitem
    have hle : items[n].listId ≤ (indexItems items).2 := h.above ⟨n, hn⟩ (List.mem_finRange _)
    omega
  · rintro ⟨hpos, hall⟩
    exact maxListId_lt hpos hall

/-- A search through the list finds what the index points to. -/
theorem find_eq_index (items : List AuctionItemInfo) (id : Int) :
    items.find? (·.listId = id) = ((indexItems items).1 id).map items.get := by
  rw [indexItems_index]
  exact find_findFinIdx _ items

theorem validatePurchase_scan (pb : Protobuf ResAuctionList) (fetchedAt : Int) (listinfo : List AuctionItemInfo)
    (now listId count buyerId : Int) :
    validatePurchase (some (finishRefresh pb fetchedAt listinfo)) now listId count buyerId =
      scanPurchase listinfo (now - fetchedAt) listId count buyerId := by
  have hfresh : isFresh (finishRefresh pb fetchedAt listinfo) now = decide (now - fetchedAt < kStaleLimit) := rfl
  unfold validatePurchase scanPurchase
  dsimp only
  rw [hfresh, find_eq_index]
  by_cases hstale : kStaleLimit ≤ now - fetchedAt
  · rw [if_pos hstale, decide_eq_false (by omega), Bool.not_false, if_pos rfl]
  · rw [if_neg hstale, decide_eq_true (by omega), Bool.not_true, if_neg Bool.false_ne_true]
    cases hindex : (indexItems listinfo).1 listId with
    | some i =>
      have hfound : (finishRefresh pb fetchedAt listinfo).index listId = some i := hindex
      rw [hfound]
      rfl
    | none =>
      have hmissing : (finishRefresh pb fetchedAt listinfo).index listId = none := hindex
      have hmax : (finishRefresh pb fetchedAt listinfo).maxListId = (indexItems listinfo).2 := rfl
      rw [hmissing]
      dsimp only [Option.map_none]
      rw [hmax]
      by_cases hlarge : (indexItems listinfo).2 < listId
      · rw [if_pos hlarge, if_pos ((maxListId_lt_iff listinfo listId).mp hlarge)]
      · rw [if_neg hlarge, if_neg (mt (maxListId_lt_iff listinfo listId).mpr hlarge)]

/-- The snapshot of any list knows its items, their first places and the largest id, and a purchase is judged as
by a search through the list. -/
theorem snapshot_searches_list (pb : Protobuf ResAuctionList) (fetchedAt : Int) (listinfo : List AuctionItemInfo) :
    Searches listinfo (finishRefresh pb fetchedAt listinfo) ∧
    ∀ now listId count buyerId,
      validatePurchase (some (finishRefresh pb fetchedAt listinfo)) now listId count buyerId =
        scanPurchase listinfo (now - fetchedAt) listId count buyerId :=
  ⟨finishRefresh_searches pb fetchedAt listinfo, validatePurchase_scan pb fetchedAt listinfo⟩

end Game
