import J1Server.Game.Reject
import J1Server.Lib.Play

/-! # The cache and the server agree

While nobody changes the tables, a purchase that the cache lets pass is one whose listing the AuctionServer
can sell, and no other. -/

namespace Game

open Lib Lib.Server Core Auction

variable {i : Nat} {s : Server auctionDb} {info : AuctionItemInfo} {row : Listing}

/-! ## An attempt that nothing disturbs -/

def goldAffected (db : Database) (now next : Int) (info : AuctionItemInfo) (row : Listing) : Int :=
  let totalPrice := toInt64 (toInt64 row.price * info.count)
  (Stmt.effect (.updateGold totalPrice info.playerId totalPrice) now next db).reply

def quantityAffected (db : Database) (now next : Int) (info : AuctionItemInfo) (row : Listing) : Int :=
  if toInt32 row.remainingQuantity = info.count then (Stmt.effect (.deleteListing info.listId) now next db).reply
  else (Stmt.effect (.updateQuantity info.count info.listId info.count) now next db).reply

/-- The checks of `TryPurchase`, in its order. -/
def attempt (db : Database) (now next : Int) (info : AuctionItemInfo) : Except SqlException Unit :=
  if info.count ≤ 0 then .error (sqlException "invalid count")
  else
    match liveListing db now info.listId with
    | none => .error (sqlException "listing not found or expired")
    | some row =>
      if toInt64 row.sellerId = info.playerId then .error (sqlException "own listing")
      else if goldAffected db now next info row = 0 then .error (sqlException "not enough gold")
      else if quantityAffected db now next info row = 0 then .error (sqlException "quantity update failed")
      else .ok ()

theorem updateGold_listings (amount account now next : Int) (db : Database) :
    (Server.writeAll (D := auctionDb) (Stmt.effect (.updateGold amount account amount) now next db).writes
      db).auctionListings = db.auctionListings := by
  have hwrites : ∀ (cs : List CharacterBase) (db : Database), (Server.writeAll (D := auctionDb)
      (cs.map fun c => Write.updateCharacter (c.charge amount)) db).auctionListings = db.auctionListings := by
    intro cs
    induction cs with
    | nil => exact fun _ => rfl
    | cons c cs ih => exact fun db => ih _
  exact hwrites _ db

theorem quantityAffected_congr {db db' : Database} {now next next' : Int}
    (h : db'.auctionListings = db.auctionListings) :
    quantityAffected db' now next' info row = quantityAffected db now next info row := by
  unfold quantityAffected
  simp only [Stmt.effect, h]
  cases db.auctionListings.get? info.listId with
  | none => rfl
  | some l => by_cases hleft : info.count < l.remainingQuantity ∧ info.count ≠ 0 <;> simp [hleft]

variable {ws : List Write} {total t : Int}

theorem outcome_recordSale (h : Writing (D := auctionDb) i ws s) :
    outcome i (recordSale info row total) t s = .ok () := by
  unfold recordSale executeUpdate
  exact h.outcome_execute.trans (h.record _).outcome_execute

theorem outcome_takeStock (h : Writing (D := auctionDb) i ws s) :
    outcome i (takeStock info row total) t s =
      if quantityAffected (Server.writeAll (D := auctionDb) ws s.db) s.now s.next info row = 0 then
        .error (sqlException "quantity update failed")
      else .ok () := by
  unfold takeStock executeUpdate
  by_cases hlast : toInt32 row.remainingQuantity = info.count
  · have hquantity : quantityAffected (Server.writeAll (D := auctionDb) ws s.db) s.now s.next info row = _ :=
      if_pos hlast
    rw [if_pos hlast, hquantity]
    refine h.outcome_checked.trans ?_
    rw [outcome_recordSale (h.record _)]
  · have hquantity : quantityAffected (Server.writeAll (D := auctionDb) ws s.db) s.now s.next info row = _ :=
      if_neg hlast
    rw [if_neg hlast, hquantity]
    refine h.outcome_checked.trans ?_
    rw [outcome_recordSale (h.record _)]

theorem outcome_chargeGold (h : Writing (D := auctionDb) i [] s) :
    outcome i (chargeGold info row (toInt64 (toInt64 row.price * info.count))) t s =
      if goldAffected s.db s.now s.next info row = 0 then .error (sqlException "not enough gold")
      else if quantityAffected s.db s.now s.next info row = 0 then .error (sqlException "quantity update failed")
      else .ok () := by
  -- The gold `UPDATE` leaves the listings as they are.
  have hsame : ∀ amount account, quantityAffected (Server.writeAll (D := auctionDb)
      ([] ++ (s.effect i (.updateGold amount account amount)).writes) s.db) s.now
      (s.effect i (.updateGold amount account amount)).next info row = quantityAffected s.db s.now s.next info row := by
    intro amount account
    apply quantityAffected_congr
    rw [h.effect]
    exact updateGold_listings amount account s.now s.next s.db
  unfold chargeGold executeUpdate
  refine h.outcome_checked.trans ?_
  rw [outcome_takeStock (h.record _), ← hsame]
  rfl

theorem outcome_tryPurchase (h : Ready i s) :
    outcome i (tryPurchase info) t s = attempt s.db s.now s.next info := by
  unfold tryPurchase attempt
  refine outcome_open.trans ?_
  split
  · rfl
  unfold executeQuery
  refine h.opened.outcome_execute.trans ?_
  have hread := h.opened.record (.selectListingForUpdate info.listId)
  have hreply : (Stmt.effect (.selectListingForUpdate info.listId) (s.setMode i false).now (s.setMode i false).next
    (Server.writeAll (D := auctionDb) [] (s.setMode i false).db)).reply = liveListing s.db s.now info.listId := rfl
  simp only [hreply]
  cases hlive : liveListing s.db s.now info.listId with
  | none => rfl
  | some row =>
    dsimp only
    refine outcome_set.trans ?_
    split
    · rfl
    · exact outcome_chargeGold hread

/-! ## What the cache decides -/

structure ListingChecks (db : Database) (now next : Int) (info : AuctionItemInfo) (row : Listing) : Prop where
  count : 0 < info.count
  live : liveListing db now info.listId = some row
  notOwn : toInt64 row.sellerId ≠ info.playerId
  quantity : quantityAffected db now next info row ≠ 0

def Pays (db : Database) (now next : Int) (info : AuctionItemInfo) : Prop :=
  ∀ row, liveListing db now info.listId = some row → goldAffected db now next info row ≠ 0

theorem quantityAffected_ne_zero {db : Database} {now next : Int}
    (hget : db.auctionListings.get? info.listId = some row) :
    quantityAffected db now next info row ≠ 0 ↔
      toInt32 row.remainingQuantity = info.count ∨ info.count < row.remainingQuantity ∧ info.count ≠ 0 := by
  unfold quantityAffected
  simp only [Stmt.effect, hget]
  by_cases hlast : toInt32 row.remainingQuantity = info.count
  · simp [hlast]
  · by_cases hleft : info.count < row.remainingQuantity ∧ info.count ≠ 0 <;> simp [hlast, hleft]

theorem attempt_ok_iff {db : Database} {now next : Int} (hpays : Pays db now next info) :
    attempt db now next info = .ok () ↔ ∃ row, ListingChecks db now next info row := by
  unfold attempt
  constructor
  · intro h
    split at h
    · cases h
    · split at h
      · cases h
      · rename_i hcount row hlive
        split at h
        · cases h
        · rename_i hown
          split at h
          · cases h
          · split at h
            · cases h
            · rename_i hquantity
              exact ⟨row, by omega, hlive, hown, hquantity⟩
  · rintro ⟨row, hrow⟩
    have hcount := hrow.count
    rw [if_neg (by omega), hrow.live]
    dsimp only
    rw [if_neg hrow.notOwn, if_neg (hpays row hrow.live), if_neg hrow.quantity]

theorem validatePurchase_found {snap : Snapshot} {now listId count buyerId : Int} {j : Fin snap.items.length}
    {item : AuctionItemInfo} (hfresh : isFresh snap now = true) (hj : snap.index listId = some j)
    (hitem : snap.items.get j = item) :
    validatePurchase (some snap) now listId count buyerId =
      if count ≤ 0 ∨ item.count < count then .rejectShortage
      else if item.playerId = buyerId then .rejectOwn
      else .pass := by
  simp [validatePurchase, hfresh, hj, ← hitem]

theorem validatePurchase_absent {snap : Snapshot} {now listId count buyerId : Int} (hfresh : isFresh snap now = true)
    (hnone : snap.index listId = none) (hle : listId ≤ snap.maxListId) :
    validatePurchase (some snap) now listId count buyerId = .rejectNotFound := by
  simp [validatePurchase, hfresh, hnone, hle]

theorem index_live {db : Database} {now playerId listId : Int} (hshown : ∀ l ∈ db.auctionListings.rows, Shown l)
    {j : Fin ((listingsOf db now false playerId).map itemOf).length}
    (hj : (indexItems ((listingsOf db now false playerId).map itemOf)).1 listId = some j) :
    ∃ l ∈ db.auctionListings.rows, liveListing db now listId = some l ∧
      ((listingsOf db now false playerId).map itemOf)[j] = itemOf l := by
  have hlist := (indexItems_indexed ((listingsOf db now false playerId).map itemOf)).sound listId j hj
  obtain ⟨l, hl, hitem⟩ := List.mem_map.mp (List.getElem_mem j.isLt)
  obtain ⟨hmem, hlive⟩ := listingsOf_live hl
  have hid : toInt32 l.listingId = listId := by
    change (itemOf l).listId = _
    rw [hitem]
    exact hlist
  rw [(toInt32_eq_iff _).mpr (hshown l hmem).listingId] at hid
  exact ⟨l, hmem, liveListing_eq_some.mpr ⟨Table.get?_eq_some.mpr ⟨hmem, hid⟩, hlive⟩, hitem.symm⟩

theorem outcome_getListings {mine : Bool} {playerId : Int} (h : Ready i s) :
    outcome i (getListings mine playerId) () s = .ok ((listingsOf s.db s.now mine playerId).map itemOf) := by
  have hselect : (executeQuery (.selectListings mine playerId) : Act (Sql auctionDb) Unit _).play (calm i) () (s, 0) =
      ((.ok (listingsOf s.db s.now mine playerId), ()), s.autocommitted i (.selectListings mine playerId), 0) :=
    h.play_execute rfl
  have hplay : (getListings mine playerId).play (calm i) () (s, 0) =
      ((.ok ((listingsOf s.db s.now mine playerId).map itemOf), ()),
        s.autocommitted i (.selectListings mine playerId), 0) := Act.play_bind hselect
  unfold outcome
  rw [hplay]

theorem verdict_iff {db : Database} {now next playerId fetched clock : Int} {pb : Protobuf ResAuctionList}
    {snap : Snapshot} (hpos : ∀ l ∈ db.auctionListings.rows, 0 < l.listingId)
    (hshown : ∀ l ∈ db.auctionListings.rows, Shown l)
    (hsnap : snap = finishRefresh pb fetched ((listingsOf db now false playerId).map itemOf))
    (hfresh : isFresh snap clock = true) (hle : info.listId ≤ snap.maxListId) :
    (validatePurchase (some snap) clock info.listId info.count info.playerId = .pass ↔
      ∃ row, ListingChecks db now next info row) ∧
    validatePurchase (some snap) clock info.listId info.count info.playerId ≠ .unknown := by
  cases hindex : snap.index info.listId with
  | none =>
    -- Not in the snapshot: then it is not live.
    have hreject : validatePurchase (some snap) clock info.listId info.count info.playerId = .rejectNotFound :=
      validatePurchase_absent hfresh hindex hle
    have hnone : ¬∃ row, ListingChecks db now next info row := by
      rintro ⟨row, hrow⟩
      obtain ⟨hget, hlive⟩ := liveListing_eq_some.mp hrow.live
      rw [hsnap] at hreject
      have hgone := reject_not_live hpos hreject (Table.get?_eq_some.mp hget).1 (Table.key_of_get? hget)
      omega
    rw [hreject]
    simp [hnone]
  | some j =>
    subst hsnap
    obtain ⟨l, hmem, hlive, hitem⟩ := index_live hshown hindex
    have hget := (liveListing_eq_some.mp hlive).1
    obtain ⟨-, hseller, hremaining⟩ := hshown l hmem
    have hseller' : toInt64 l.sellerId = l.sellerId := by
      unfold FitsInt32 at hseller
      exact (toInt64_eq_iff _).mpr (by omega)
    rw [FitsInt32, ← toInt32_eq_iff] at hseller hremaining
    have hchecks : (∃ row, ListingChecks db now next info row) ↔
        0 < info.count ∧ info.count ≤ l.remainingQuantity ∧ l.sellerId ≠ info.playerId := by
      constructor
      · rintro ⟨row, hrow⟩
        obtain rfl : l = row := Option.some.inj (hlive.symm.trans hrow.live)
        have hquantity := (quantityAffected_ne_zero hget).mp hrow.quantity
        have hown := hrow.notOwn
        have hcount := hrow.count
        rw [hseller'] at hown
        omega
      · rintro ⟨hcount, hleft, hown⟩
        refine ⟨l, hcount, hlive, by rwa [hseller'], (quantityAffected_ne_zero hget).mpr ?_⟩
        omega
    rw [validatePurchase_found hfresh hindex hitem, hchecks]
    unfold itemOf
    dsimp only
    rw [hseller, hremaining]
    split
    · simp
      omega
    · split
      · simp
        omega
      · simp
        omega

/-- A purchase is checked against the list of the tables as they are: the cache lets it pass exactly if the
listing can be sold, and otherwise it rejects it. -/
theorem validatePurchase_agrees {reader writer : Nat} (hreader : Ready reader s) (hwriter : Ready writer s)
    (hpos : ∀ l ∈ s.db.auctionListings.rows, 0 < l.listingId) (hshown : ∀ l ∈ s.db.auctionListings.rows, Shown l)
    {playerId fetched clock : Int} {items : List AuctionItemInfo} {pb : Protobuf ResAuctionList} {snap : Snapshot}
    (hitems : outcome reader (getListings false playerId) () s = .ok items) (hsnap : snap = finishRefresh pb fetched items)
    (hfresh : isFresh snap clock = true) (hle : info.listId ≤ snap.maxListId) {verdict : Verdict}
    (hverdict : verdict = validatePurchase (some snap) clock info.listId info.count info.playerId) :
    (verdict = .pass ↔ ∃ row, ListingChecks s.db s.now s.next info row) ∧
    (verdict ≠ .pass → verdict = .rejectNotFound ∨ verdict = .rejectShortage ∨ verdict = .rejectOwn) ∧
    (Pays s.db s.now s.next info → (verdict = .pass ↔ outcome writer (tryPurchase info) 0 s = .ok ())) := by
  rw [outcome_getListings hreader] at hitems
  rw [← Except.ok.inj hitems] at hsnap
  obtain ⟨hpass, hknown⟩ : (_ ↔ ∃ row, ListingChecks s.db s.now s.next info row) ∧ _ :=
    verdict_iff hpos hshown hsnap hfresh hle
  rw [← hverdict] at hpass hknown
  refine ⟨hpass, fun hnot => ?_, fun hpays => ?_⟩
  · cases verdict <;> simp_all
  · rw [hpass, outcome_tryPurchase hwriter, attempt_ok_iff hpays]

/-- A buyer with enough gold asks for two of the three units. -/
theorem validatePurchase_agrees_sample : ∃ items,
    outcome 0 (getListings false 0) () (idle sampleDb 0 2) = .ok items ∧
    (validatePurchase (some (finishRefresh emptyPacket 0 items)) 1 1 2 8 = .pass ↔
      outcome 1 (tryPurchase sampleInfo) 0 (idle sampleDb 0 2) = .ok ()) := by
  have hpos : ∀ l ∈ sampleDb.auctionListings.rows, 0 < l.listingId := by decide
  have hshown : ∀ l ∈ sampleDb.auctionListings.rows, Shown l := by
    intro l hl
    simp [sampleDb] at hl
    rw [hl]
    constructor <;> simp [FitsInt32]
  have hpays : Pays sampleDb 0 2 sampleInfo := by
    intro row hlive
    obtain rfl : _ = row := Option.some.inj hlive
    decide
  have hreader : Ready 0 (idle (D := auctionDb) sampleDb 0 2) :=
    ready_idle (D := auctionDb) sampleDb 0 2
  have hwriter : Ready 1 (idle (D := auctionDb) sampleDb 0 2) :=
    ready_idle (D := auctionDb) sampleDb 0 2
  have hitems : outcome 0 (getListings false 0) () (idle sampleDb 0 2) =
      .ok ((listingsOf sampleDb 0 false 0).map itemOf) := outcome_getListings hreader
  have hle : sampleInfo.listId ≤
      (finishRefresh emptyPacket 0 ((listingsOf sampleDb 0 false 0).map itemOf)).maxListId := by decide +kernel
  exact ⟨_, hitems, (validatePurchase_agrees hreader hwriter hpos hshown hitems rfl rfl hle rfl).2.2 hpays⟩

end Game
