import J1Server.Auction.Rows
import J1Server.Game.NotFound

/-! # A rejection from an old list

The cache rejects a purchase for a shortage, or for the buyer's own listing. However
old its list is, the purchase would fail on the tables as they are. -/

namespace Game

open Lib Lib.Server Core Auction

variable {law : Call auctionDb → Harm → Bool} {key : Int} {info : AuctionItemInfo}

/-! ## What a rejection says -/

theorem validatePurchase_rejects {snap : Snapshot} {now listId count buyerId : Int}
    (h : validatePurchase (some snap) now listId count buyerId = .rejectShortage ∨
      validatePurchase (some snap) now listId count buyerId = .rejectOwn) :
    ∃ i, snap.index listId = some i ∧
      (count ≤ 0 ∨ (snap.items.get i).count < count ∨ (snap.items.get i).playerId = buyerId) := by
  unfold validatePurchase at h
  dsimp only at h
  split at h
  · simp at h
  · split at h
    · split at h <;> simp at h
    · rename_i i hi
      refine ⟨i, hi, ?_⟩
      split at h
      · rename_i hshort
        exact hshort.imp_right Or.inl
      · split at h
        · rename_i hown
          exact Or.inr (Or.inr hown)
        · simp at h

structure Rejected (db : Database) (info : AuctionItemInfo) (l : Listing) : Prop where
  mem : l ∈ db.auctionListings.rows
  listId : toInt32 l.listingId = info.listId
  reason : info.count ≤ 0 ∨ toInt32 l.remainingQuantity < info.count ∨ toInt32 l.sellerId = info.playerId

theorem rejected_row {db : Database} {now playerId fetched clock : Int} {pb : Protobuf ResAuctionList}
    {snap : Snapshot} (hsnap : snap = finishRefresh pb fetched ((listingsOf db now false playerId).map itemOf))
    (h : validatePurchase (some snap) clock info.listId info.count info.playerId = .rejectShortage ∨
      validatePurchase (some snap) clock info.listId info.count info.playerId = .rejectOwn) :
    ∃ l, Rejected db info l := by
  subst hsnap
  obtain ⟨i, hi, hreason⟩ := validatePurchase_rejects h
  have hlist := (indexItems_indexed ((listingsOf db now false playerId).map itemOf)).sound info.listId i hi
  obtain ⟨l, hl, hitem⟩ := List.mem_map.mp (List.getElem_mem i.isLt)
  refine ⟨l, (listingsOf_live hl).1, ?_, ?_⟩
  · change (itemOf l).listId = _
    rw [hitem]
    exact hlist
  · change _ ∨ (itemOf l).count < _ ∨ (itemOf l).playerId = _
    rw [hitem]
    exact hreason

/-- What a list shows of a row is the row: its columns fit in 32 bits. -/
structure Shown (l : Listing) : Prop where
  listingId : FitsInt32 l.listingId
  sellerId : FitsInt32 l.sellerId
  remainingQuantity : FitsInt32 l.remainingQuantity

theorem heir_not_sellable {db db' : Database} {now : Int} {l row : Listing} (hl : Rejected db info l)
    (hshown : Shown l) (hheir : Heir db row l) : ¬Sellable db' now info row := by
  intro hsell
  have hcount := hsell.count
  have hremaining : toInt32 l.remainingQuantity = l.remainingQuantity :=
    (toInt32_eq_iff _).mpr hshown.remainingQuantity
  have hseller : toInt32 l.sellerId = l.sellerId := (toInt32_eq_iff _).mpr hshown.sellerId
  have hfits := hshown.remainingQuantity
  have hfits' := hshown.sellerId
  unfold FitsInt32 at hfits hfits'
  rcases hl.reason with hzero | hshort | hown
  · omega
  · -- Of fewer units than asked for, not more are left.
    have hleft : row.remainingQuantity ≤ l.remainingQuantity ∧ toInt32 row.remainingQuantity = row.remainingQuantity := by
      rcases hheir.left with rfl | hless
      · exact ⟨le_refl _, hremaining⟩
      · exact ⟨hless.2.le, (toInt32_eq_iff _).mpr (by omega)⟩
    have hstock := hsell.stock
    omega
  · apply hsell.notOwn
    rw [← hheir.sellerId, (toInt64_eq_iff _).mpr (by omega), ← hseller, hown]

/-! ## Every run -/

theorem key_taken {db : Database} {s : Server auctionDb} {now next : Int}
    (hkeys : ∀ l ∈ db.auctionListings.rows, l.listingId < next)
    (hgrown : Grown (Admissible next) (idle db now next) s) {l : Listing}
    (hl : l ∈ s.db.auctionListings.rows) : l.listingId < next ∨ l.listingId ∈ newIds s.history := by
  obtain ⟨es, hhistory, hdb, hchain, -⟩ := hgrown.log
  rw [hdb, applyAll_eq] at hl
  rcases chain_heirs hchain l hl with ⟨row, hrow, hid⟩ | ⟨l₀, hheir⟩
  · right
    obtain ⟨e, he, hwrite⟩ := List.mem_map.mp hrow
    rw [hhistory, newIds_append]
    refine List.mem_append_right _ (List.mem_filterMap.mpr ⟨e, he, ?_⟩)
    change e.write.newId? = _
    rw [hwrite, ← hid]
    rfl
  · left
    rw [← hheir.listingId]
    exact hkeys l₀ hheir.mem

theorem row_heir {db : Database} {s s' : Server auctionDb} {now next : Int}
    (hkeys : ∀ l ∈ db.auctionListings.rows, l.listingId < next)
    (hgrown : Grown (Admissible next) (idle db now next) s) (hgrown' : Grown (Admissible next) s s')
    {l row : Listing} (hl : l ∈ s.db.auctionListings.rows) (hrow : row ∈ s'.db.auctionListings.rows)
    (hid : row.listingId = l.listingId) : Heir s.db row l := by
  have htaken := key_taken hkeys hgrown hl
  obtain ⟨es, hhistory, hdb, hchain, hnew⟩ := hgrown'.log
  rw [hdb, applyAll_eq] at hrow
  rcases chain_heirs hchain row hrow with ⟨new, hmem, hnid⟩ | ⟨l₀, hheir⟩
  · exfalso
    -- A registration after `s` uses a key that `s` has not used.
    have habove := chain_inserts hchain hmem
    obtain ⟨e, he, hwrite⟩ := List.mem_map.mp hmem
    have hunused : new.listingId ∉ newIds s.history := by
      refine hnew _ (List.mem_filterMap.mpr ⟨e, he, ?_⟩)
      change e.write.newId? = _
      rw [hwrite]
      rfl
    rw [hnid, hid] at habove hunused
    rcases htaken with hlt | hold
    · omega
    · exact hunused hold
  · obtain rfl : l₀ = l :=
      List.inj_on_of_nodup_map s.db.auctionListings.nodup hheir.mem hl (hheir.listingId.trans hid)
    exact hheir

/-- A worker reads the list at `p`, its response is ready at `r`, and a purchase is checked against it
at `q`: if it is rejected for a shortage, or as the buyer's own, it would have thrown at `q`, and
committed nothing. -/
theorem reject_stays_correct {db : Database} {now next : Int}
    (hkeys : ∀ l ∈ db.auctionListings.rows, l.listingId < next) {es₁ es₂ es₃ : List (PoolEvent Task)}
    {p r q : Pool auctionDb Task (Option Response)} {reader : Nat}
    (hreads : ∀ task, .start reader task ∈ es₁ → task.reads = true)
    (hp : run (Pool.step law Task.process) (Pool.fresh (idle db now next)) es₁ = some p)
    (hshown : ∀ l ∈ p.server.db.auctionListings.rows, Shown l)
    {req : ReqAuctionList} (hquery : p.jobs reader = some ⟨.auctionList req, processAuctionList req⟩)
    {fault : Option Fault} (hsame : ∀ task, .start reader task ∉ es₂)
    (hr : run (Pool.step law Task.process) p (.call reader fault :: es₂) = some r)
    {sessionId requestId : Int} {items : List AuctionItemInfo}
    (hresponse : (r.jobs reader).bind Job.result? =
      some (some (.auctionList sessionId requestId false items)))
    (hq : run (Pool.step law Task.process) r es₃ = some q)
    {pb : Protobuf ResAuctionList} {fetched clock : Int} {snap : Snapshot}
    (hsnap : snap = finishRefresh pb fetched items)
    (hreject : validatePurchase (some snap) clock info.listId info.count info.playerId = .rejectShortage ∨
      validatePurchase (some snap) clock info.listId info.count info.playerId = .rejectOwn)
    {i : Nat} (hidle : (q.server.conns i).pending = []) {tr : List (Answered (Sql auctionDb))}
    {result : Except SqlException Unit × Int} {q' : Server auctionDb}
    (hbuy : Exec Eq (Step law i) ((tryPurchase info).prog 0) q.server tr result q') :
    (∃ e, result.1 = .error e) ∧ q'.history = q.server.history ∧ q'.db = q.server.db := by
  have h₁ := rows_run (rowsKept_fresh db now next) hp
  have h₂ := rows_run h₁.1 (run_append.mpr ⟨r, hr, hq⟩)
  rw [list_committed hreads hp hquery hsame hr hresponse] at hsnap
  obtain ⟨l, hl⟩ := rejected_row hsnap hreject
  have hno : ∀ row, ¬Sellable q.server.db q.server.now info row := by
    intro row hsell
    obtain ⟨hget, -⟩ := liveListing_eq_some.mp hsell.live
    have hid : row.listingId = l.listingId := by
      rw [Table.key_of_get? hget, ← hl.listId]
      exact (toInt32_eq_iff _).mpr (hshown l hl.mem).listingId
    have hheir := row_heir hkeys h₁.2 h₂.2 hl.mem (Table.get?_eq_some.mp hget).1 hid
    exact heir_not_sellable hl (hshown l hl.mem) hheir hsell
  obtain ⟨hthrows, hkept⟩ := tryPurchase_throws h₂.1.wf hidle hno hbuy
  exact ⟨hthrows, hkept.history, hkept.db⟩

/-! ## A listing that is partly sold -/

def listedItem : AuctionItemInfo := ⟨1, 7, 0, 5, 3, 10, "1970-01-02 00:00:00"⟩

def listedEvents : List (PoolEvent Task) :=
  [.start 0 sampleRegist, .call 0 none, .call 0 none, .finish 0, .start 2 (.auctionList sampleList)]

/-- Buyer 8 asks for four of three units. -/
def greedyInfo : AuctionItemInfo := ⟨1, 8, 0, 0, 4, 0, ""⟩

/-- The list is read, two units are sold, and then four are asked for. -/
theorem reject_stays_correct_partly_sold : ∃ q,
    run (Pool.step mysqlLaw Task.process) (Pool.fresh (idle emptyMarket 0 1))
      (listedEvents ++ .call 2 none :: .call 2 none :: .start 1 (samplePurchase 2) ::
        List.replicate 13 (.call 1 none)) = some q ∧
    validatePurchase (some (finishRefresh emptyPacket 0 [listedItem])) 1 1 4 8 = .rejectShortage ∧
    ∃ tr result q', Exec Eq (Step mysqlLaw 3) ((tryPurchase greedyInfo).prog 0) q.server tr result q' ∧
      (∃ e, result.1 = .error e) ∧ q'.history = q.server.history ∧ q'.db = q.server.db := by
  have hrun : ((run (Pool.step mysqlLaw Task.process) (Pool.fresh (idle emptyMarket 0 1)) listedEvents).bind
      fun p => (run (Pool.step mysqlLaw Task.process) p [.call 2 none, .call 2 none]).bind fun r =>
        (run (Pool.step mysqlLaw Task.process) r
          (.start 1 (samplePurchase 2) :: List.replicate 13 (.call 1 none))).bind fun q =>
          (runAlone mysqlLaw 3 ((tryPurchase greedyInfo).prog 0) (List.replicate 10 none) q.server).map
            fun _ => ((r.jobs 2).bind Job.result?, p.server.db.auctionListings.rows,
              (q.server.conns 3).pending.length)) =
      some (some (some (.auctionList 0 1 false [listedItem])), [⟨1, 7, 5, 3, 10, 86400⟩], 0) := by
    decide +kernel
  obtain ⟨p, hp, hrun⟩ := Option.bind_eq_some_iff.mp hrun
  obtain ⟨r, hr, hrun⟩ := Option.bind_eq_some_iff.mp hrun
  obtain ⟨q, hq, hrun⟩ := Option.bind_eq_some_iff.mp hrun
  obtain ⟨⟨tr, result, q'⟩, hbuy, hres⟩ := Option.map_eq_some_iff.mp hrun
  simp only [Prod.mk.injEq, List.length_eq_zero_iff] at hres
  obtain ⟨hresponse, hrows, hidle⟩ := hres
  have hquery : p.jobs 2 = some ⟨.auctionList sampleList, processAuctionList sampleList⟩ := by
    rw [← List.take_append_drop 4 listedEvents] at hp
    obtain ⟨m, -, hlast⟩ := run_append.mp hp
    obtain ⟨p', hstart, heq⟩ := run_cons_iff.mp hlast
    obtain rfl : p' = p := Option.some.inj heq
    obtain ⟨-, rfl⟩ := Pool.step_start hstart
    simp [Task.process]
  have hshown : ∀ l ∈ p.server.db.auctionListings.rows, Shown l := by
    intro l hl
    rw [hrows, List.mem_singleton] at hl
    rw [hl]
    constructor <;> simp [FitsInt32]
  have hreads : ∀ task, PoolEvent.start 2 task ∈ listedEvents → task.reads = true := by
    intro task he
    simp [listedEvents] at he
    rw [he]
    rfl
  have hverdict : validatePurchase (some (finishRefresh emptyPacket 0 [listedItem])) 1 1 4 8 =
      .rejectShortage := by decide
  have hexec := runAlone_exec (fun _ => rfl) hbuy
  refine ⟨q, ?_, hverdict, tr, result, q', hexec, ?_⟩
  · exact run_append.mpr ⟨p, hp, run_append.mpr ⟨r, hr, hq⟩⟩
  · exact reject_stays_correct (by simp [emptyMarket]) hreads hp hshown hquery (by simp) hr hresponse hq rfl
      (Or.inl hverdict) hidle hexec

end Game
