import J1Server.Game.ListPacket
import J1Server.Game.NotFound

/-! # The list of a player's own listings

A client asks with an unsigned id of 64 bits, and the GameServer asks the AuctionServer with 32 bits of it. -/

namespace Game

open Lib Lib.Server Core Auction

/-- The packet as the AuctionServer reads it. It does not use `search_item`. -/
def SsReqAuctionList.received (req : SsReqAuctionList) : ReqAuctionList :=
  ⟨req.sessionId.toInt, req.requestId.toInt, req.playerId.toInt, req.mylist⟩

/-- The client's list: what the GameServer forwards, and what a worker of the AuctionServer answers from `s`. -/
def Lists (law : Call auctionDb → Harm → Bool) (i : Nat) (s : Server auctionDb) (pkt : ReqAuctionListClient)
    (items : List AuctionItemInfo) : Prop :=
  ∃ snap clock session sessionId req task tr t,
    (handleReqAuctionList snap clock sessionId true session pkt).2 = some req ∧
    Auction.handleReqAuctionList req.received = some task ∧
    Exec Eq (Step law i) task.process s tr
      (some (.auctionList sessionId.toInt64.toInt 0 pkt.mylist items)) t

/-- The rows of a seller that are not expired, by id and each once. -/
def Exactly (db : Database) (now sellerId : Int) (items : List AuctionItemInfo) : Prop :=
  ∃ rows : List Listing, items = rows.map itemOf ∧ rows.Pairwise (fun l l' => l.listingId < l'.listingId) ∧
    ∀ l, l ∈ rows ↔ l ∈ db.auctionListings.rows ∧ now < l.expiredAt ∧ l.sellerId = sellerId

variable {law : Call auctionDb → Harm → Bool} {i : Nat} {s : Server auctionDb} {pkt : ReqAuctionListClient}
  {items : List AuctionItemInfo}

/-! ## The query -/

theorem toInt_narrowed (playerId : UInt64) : playerId.toInt64.toInt32.toInt = toInt32 playerId.toNat := by
  have hbits : playerId.toInt64.toInt = Int.bmod playerId.toNat (2 ^ 64) := BitVec.toInt_eq_toNat_bmod _
  rw [Int64.toInt_toInt32, hbits, toInt32]
  exact Int.bmod_bmod_of_dvd (by decide)

theorem toInt32_toNat_iff (n : Nat) : toInt32 n = n ↔ n < 2147483648 := by
  rw [toInt32_eq_iff]
  omega

theorem exec_auctionList {req : ReqAuctionList} {t : Server auctionDb} {tr : List (Answered (Sql auctionDb))}
    {r : Option Response} (hpending : (s.conns i).pending = [])
    (h : Exec Eq (Step law i) (processAuctionList req) s tr r t) : ReadFrom s.db s.now req r := by
  have hview : s.view i = s.db := by rw [view, hpending, applyAll_nil]
  rw [processAuctionList_eq] at h
  cases h with
  | call hr hs hrest =>
    subst hr
    rcases hs.exec auctionDb_lawful with ⟨rfl, -, -, -⟩ | ⟨e, rfl, -⟩
    · refine Prog.Ends.exec ?_ hrest
      intro o
      rcases o with e | u
      · rintro sessionId requestId mylist items ⟨⟩
      · rintro sessionId requestId mylist items ⟨⟩
        refine ⟨rfl, ?_⟩
        rw [Server.effect, hview]
        rfl
    · refine Prog.Ends.exec ?_ hrest
      rintro sessionId requestId mylist items ⟨⟩

theorem exec_auctionList_some (req : ReqAuctionList) (hpending : (s.conns i).pending = [])
    (halive : (s.conns i).alive = true) : ∃ tr t, Exec Eq (Step law i) (processAuctionList req) s tr
      (some (.auctionList req.sessionId req.requestId req.mylist
        ((listingsOf s.db s.now req.mylist req.playerId).map itemOf))) t := by
  have hview : s.view i = s.db := by rw [view, hpending, applyAll_nil]
  let effect := s.effect i (.selectListings req.mylist req.playerId)
  have hreply : effect.reply = listingsOf s.db s.now req.mylist req.playerId := by
    simp only [effect, Server.effect, hview]
    rfl
  have hquery : Step law i (.exec (.selectListings req.mylist req.playerId)) s (.ok effect.reply) (s.record i effect) :=
    Step.of_answer halive rfl
  have halive' : ((s.record i effect).conns i).alive = true := by simpa using halive
  rw [processAuctionList_eq, ← hreply]
  exact ⟨_, _, .call rfl hquery (.call rfl (Step.of_answer (c := Call.finish) halive' rfl) (.done rfl))⟩

/-- The client's list is what the query finds under 32 bits of its id. -/
theorem lists_iff (hpending : (s.conns i).pending = []) (halive : (s.conns i).alive = true) (hmine : pkt.mylist = true) :
    Lists law i s pkt items ↔
      items = (listingsOf s.db s.now true pkt.playerId.toInt64.toInt32.toInt).map itemOf := by
  have hforwarded (snap clock session) (sessionId : UInt64) :
      (handleReqAuctionList snap clock sessionId true session pkt).2 =
        some ⟨sessionId.toInt64, 0, pkt.playerId.toInt64.toInt32, pkt.searchItem, true⟩ := by
    simp [handleReqAuctionList, hmine]
  constructor
  · rintro ⟨snap, clock, session, sessionId, req, task, tr, t, hreq, htask, hexec⟩
    obtain rfl := Option.some.inj ((hforwarded snap clock session sessionId).symm.trans hreq)
    obtain rfl := Option.some.inj htask
    exact (exec_auctionList hpending hexec _ _ _ _ rfl).2
  · rintro rfl
    let req : ReqAuctionList := ⟨0, 0, pkt.playerId.toInt64.toInt32.toInt, true⟩
    obtain ⟨tr, t, hexec⟩ : ∃ tr t, Exec Eq (Step law i) (processAuctionList req) s tr _ t :=
      exec_auctionList_some req hpending halive
    refine ⟨none, 0, {}, 0, _, _, tr, t, hforwarded none 0 {} 0, rfl, ?_⟩
    rw [hmine]
    exact hexec

/-! ## The rows of one seller -/

theorem mem_listingsOf_mine {db : Database} {now sellerId : Int} {l : Listing} :
    l ∈ listingsOf db now true sellerId ↔
      l ∈ db.auctionListings.rows ∧ now < l.expiredAt ∧ l.sellerId = sellerId := by
  simp only [listingsOf, if_true, List.mem_insertionSort, List.mem_filter, decide_eq_true_eq]
  tauto

theorem listingsOf_mine (db : Database) (now sellerId : Int) :
    Exactly db now sellerId ((listingsOf db now true sellerId).map itemOf) := by
  refine ⟨_, rfl, ?_, fun l => mem_listingsOf_mine⟩
  have hsorted : (listingsOf db now true sellerId).Pairwise byListingId := by
    simp only [listingsOf, if_true]
    exact List.pairwise_insertionSort byListingId _
  have hkeys : ((listingsOf db now true sellerId).map Listing.listingId).Nodup := by
    simp only [listingsOf, if_true]
    refine ((List.perm_insertionSort byListingId _).map _).nodup_iff.mpr ?_
    exact db.auctionListings.nodup.sublist ((List.filter_sublist.trans List.filter_sublist).map _)
  refine (hsorted.and (List.pairwise_map.mp hkeys)).imp ?_
  rintro l l' ⟨hle, hne⟩
  exact lt_of_le_of_ne hle hne

/-- The client gets exactly its own listings if and only if its id fits in 31 bits, or nothing is for sale of
the player that the rest of the id names. -/
theorem my_list_exact_iff (hpending : (s.conns i).pending = []) (halive : (s.conns i).alive = true)
    (hsellers : ∀ l ∈ s.db.auctionListings.rows, toInt32 l.sellerId = l.sellerId) (hmine : pkt.mylist = true) :
    (∀ items, Lists law i s pkt items → Exactly s.db s.now pkt.playerId.toNat items) ↔
      pkt.playerId.toNat < 2147483648 ∨
      ∀ l ∈ s.db.auctionListings.rows, s.now < l.expiredAt → l.sellerId ≠ toInt32 pkt.playerId.toNat := by
  have hlists (items : List AuctionItemInfo) : Lists law i s pkt items ↔
      items = (listingsOf s.db s.now true (toInt32 pkt.playerId.toNat)).map itemOf := by
    rw [lists_iff hpending halive hmine, toInt_narrowed]
  constructor
  · intro hexact
    by_contra hnot
    push Not at hnot
    obtain ⟨hwide, l, hl, hlive, hseller⟩ := hnot
    obtain ⟨rows, hrows, -, hmem⟩ := hexact _ ((hlists _).mpr rfl)
    have hshown : itemOf l ∈ rows.map itemOf := by
      rw [← hrows]
      exact List.mem_map_of_mem (mem_listingsOf_mine.mpr ⟨hl, hlive, hseller⟩)
    obtain ⟨row, hrow, -⟩ := List.mem_map.mp hshown
    obtain ⟨hrow, -, hown⟩ := (hmem row).mp hrow
    -- A seller id of 32 bits is not the client's id.
    have hbounds := (toInt32_eq_iff _).mp (hsellers row hrow)
    omega
  · rintro hfits items hlisted
    rw [hlists] at hlisted
    rw [hlisted]
    by_cases hnarrow : pkt.playerId.toNat < 2147483648
    · rw [(toInt32_toNat_iff _).mpr hnarrow]
      exact listingsOf_mine _ _ _
    · have hnone := hfits.resolve_left hnarrow
      have hempty : listingsOf s.db s.now true (toInt32 pkt.playerId.toNat) = [] := by
        rw [List.eq_nil_iff_forall_not_mem]
        intro l hl
        obtain ⟨hl, hlive, hseller⟩ := mem_listingsOf_mine.mp hl
        exact hnone l hl hlive hseller
      refine ⟨[], by rw [hempty, List.map_nil], List.Pairwise.nil, fun l => iff_of_false List.not_mem_nil ?_⟩
      rintro ⟨hl, -, hown⟩
      have hbounds := (toInt32_eq_iff _).mp (hsellers l hl)
      omega

def listingOfSeven : Database where
  auctionListings := Table.empty.insert ⟨1, 7, 2, 3, 10, 100⟩
  characterBase := Table.empty
  auctionTransactions := []
  auctionReceipts := []

theorem my_list_exact_seven : ∃ items,
    Lists (fun _ _ => true) 0 (Server.idle listingOfSeven 0 2) ⟨7, "", true⟩ items ∧ Exactly listingOfSeven 0 7 items := by
  have hlists : Lists (fun _ _ => true) 0 (Server.idle listingOfSeven 0 2) ⟨7, "", true⟩ _ := (lists_iff rfl rfl rfl).mpr rfl
  have hsellers : ∀ l ∈ listingOfSeven.auctionListings.rows, toInt32 l.sellerId = l.sellerId := by decide
  exact ⟨_, hlists, (my_list_exact_iff rfl rfl hsellers rfl).mpr (Or.inl (by decide)) _ hlists⟩

/-- The list of player 2³² + 7 is the list of player 7. -/
theorem my_list_shows_another :
    Lists (fun _ _ => true) 0 (Server.idle listingOfSeven 0 2) ⟨4294967303, "", true⟩
      [⟨1, 7, 0, 2, 3, 10, datetimeText 100⟩] ∧
    ¬Exactly listingOfSeven 0 4294967303 [⟨1, 7, 0, 2, 3, 10, datetimeText 100⟩] := by
  refine ⟨(lists_iff rfl rfl rfl).mpr rfl, ?_⟩
  rintro ⟨rows, hrows, -, hmem⟩
  obtain ⟨row, rfl⟩ : ∃ row, rows = [row] := List.length_eq_one_iff.mp (by simpa using (congrArg List.length hrows).symm)
  obtain ⟨hrow, -, hseller⟩ := (hmem row).mp List.mem_cons_self
  obtain rfl : row = ⟨1, 7, 2, 3, 10, 100⟩ := List.mem_singleton.mp hrow
  cases hseller

end Game
