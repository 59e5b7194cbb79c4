import J1Server.Auction.Workers

/-! # Stock

No listing is oversold and none loses stock: what buyers got receipts for and
what is left add up to what was registered. -/

namespace Auction

open Lib Lib.Server Core

/-- Units of a listing that buyers have receipts for. -/
def soldUnits (db : Database) (listingId : Int) : Int :=
  ((db.auctionReceipts.filter fun r => r.receiptType = 3 ∧ r.sourceListingId = listingId).map
    fun r => r.quantity.getD 0).sum

/-- Units that are left: none, when the listing is deleted. -/
def unitsLeft (db : Database) (listingId : Int) : Int :=
  match db.auctionListings.get? listingId with
  | some l => l.remainingQuantity
  | none => 0

def Registered (history : List Write) (listingId : Int) : Prop :=
  ∃ row, Write.insertListing row ∈ history ∧ row.listingId = listingId

def FitsInt32 (x : Int) : Prop := -2 ^ 31 ≤ x ∧ x < 2 ^ 31

/-- The books of the market are in order. -/
structure Stock (m : Market) : Prop where
  listings : ∀ l ∈ m.db.auctionListings.rows, Registered m.history l.listingId
  receipts : ∀ r ∈ m.db.auctionReceipts, Registered m.history r.sourceListingId
  fits : ∀ l ∈ m.db.auctionListings.rows, FitsInt32 l.remainingQuantity
  balance : ∀ row, Write.insertListing row ∈ m.history →
    soldUnits m.db row.listingId + unitsLeft m.db row.listingId = row.remainingQuantity

/-- Quantities are stored in an `INT` column. -/
def StockDeal : Deal → Prop
  | .regist row => FitsInt32 row.remainingQuantity
  | .sale _ => True

theorem Registered.mono {history ws : List Write} {id : Int} (h : Registered history id) :
    Registered (history ++ ws) id := by
  obtain ⟨row, hrow, hid⟩ := h
  exact ⟨row, List.mem_append_left _ hrow, hid⟩

/-! ## A registration -/

theorem stock_regist {m : Market} {row : Listing} (hm : Stock m)
    (hfits : FitsInt32 row.remainingQuantity) (hnew : Unused m.history row.listingId) :
    Stock (m.write (Deal.regist row).writes) := by
  have hnone : ∀ id, Registered m.history id → row.listingId ≠ id := by
    rintro id ⟨row', hrow', rfl⟩ heq
    exact hnew row' hrow' heq.symm
  have hget : m.db.auctionListings.get? row.listingId = none := by
    rw [Table.get?_eq_none]
    exact fun l hl heq => hnone _ (hm.listings l hl) heq.symm
  refine ⟨fun l hl => ?_, fun r hr => (hm.receipts r hr).mono, fun l hl => ?_, fun row' hrow' => ?_⟩
  · rcases Table.mem_insert hl with rfl | hl
    · exact ⟨l, by simp [Market.write, Deal.writes], rfl⟩
    · exact (hm.listings l hl).mono
  · rcases Table.mem_insert hl with rfl | hl
    · exact hfits
    · exact hm.fits l hl
  · have hsold : ∀ id, soldUnits (m.write (Deal.regist row).writes).db id = soldUnits m.db id :=
      fun _ => rfl
    have hleft : ∀ id, unitsLeft (m.write (Deal.regist row).writes).db id =
        if row.listingId = id then row.remainingQuantity else unitsLeft m.db id := by
      intro id
      simp only [unitsLeft, Market.write, Deal.writes, writeAll_cons, writeAll_nil, Write.apply,
        Table.get?_insert]
      by_cases hid : row.listingId = id
      · subst hid
        simp [hget]
      · simp [hid]
    rw [hsold, hleft]
    rcases List.mem_append.mp hrow' with hrow' | hrow'
    · rw [if_neg (hnew row' hrow').symm]
      exact hm.balance row' hrow'
    · -- Nothing was sold under a key that did not exist.
      obtain rfl : row' = row := by simpa [Deal.writes] using hrow'
      rw [if_pos rfl]
      have hzero : soldUnits m.db row'.listingId = 0 := by
        simp only [soldUnits]
        rw [List.filter_eq_nil_iff.mpr]
        · rfl
        · intro r hr
          have := hnone _ (hm.receipts r hr)
          simp only [decide_eq_true_eq, not_and]
          exact fun _ heq => this heq.symm
      omega

/-! ## A sale -/

theorem soldUnits_sale (s : Sale) (db : Database) (id : Int) :
    soldUnits (writeAll s.writes db) id =
      soldUnits db id + if s.info.listId = id then s.info.count else 0 := by
  rw [writeAll_sale]
  simp only [soldUnits, List.filter_append, List.map_append, List.sum_append]
  congr 1
  by_cases hid : s.info.listId = id <;> simp [Sale.buyerReceipt, Sale.sellerReceipt, hid]

theorem unitsLeft_sale {s : Sale} {db : Database} (hok : s.Ok db)
    (hfits : FitsInt32 s.row.remainingQuantity) (id : Int) :
    unitsLeft (writeAll s.writes db) id =
      unitsLeft db id - if s.info.listId = id then s.info.count else 0 := by
  have hrow := hok.row
  have hint : toInt32 s.row.remainingQuantity = s.row.remainingQuantity := (toInt32_eq_iff _).mpr hfits
  simp only [unitsLeft, listing_after hok]
  by_cases hid : s.info.listId = id
  · subst hid
    simp only [if_true, hrow]
    split
    · rename_i l hl
      split at hl
      · cases hl
      · obtain rfl := Option.some.inj hl
        rfl
    · rename_i hnone
      split at hnone
      · omega
      · cases hnone
  · simp [hid, Ne.symm hid]

theorem stock_sale {m : Market} {s : Sale} (hm : Stock m) (hok : s.Ok m.db) :
    Stock (m.write (Deal.sale s).writes) := by
  have hmem := row_mem hok
  have hrow := hm.fits s.row hmem
  have hreg : Registered m.history s.info.listId := by
    rw [← row_key hok]
    exact hm.listings s.row hmem
  have hcount := hok.count
  refine ⟨fun l hl => ?_, fun r hr => ?_, fun l hl => ?_, fun row hrow' => ?_⟩
  · rcases listing_left hok hl with hl | ⟨rfl, -⟩
    · exact (hm.listings l hl).mono
    · exact (hm.listings s.row hmem).mono
  · rw [Market.write, Deal.writes, writeAll_sale] at hr
    rcases List.mem_append.mp hr with hr | hr
    · exact (hm.receipts r hr).mono
    · have hsource : r.sourceListingId = s.info.listId := by
        rcases List.mem_cons.mp hr with rfl | hr
        · rfl
        · obtain rfl := List.mem_singleton.mp hr
          rfl
      rw [hsource]
      exact hreg.mono
  · rcases listing_left hok hl with hl | ⟨rfl, hlt⟩
    · exact hm.fits l hl
    · simp only [FitsInt32, Listing.take] at hrow ⊢
      omega
  · have hold : Write.insertListing row ∈ m.history := by
      rcases List.mem_append.mp hrow' with h | h
      · exact h
      · simp [Deal.writes, Sale.writes, Sale.payments, Sale.stock] at h
        split at h <;> cases h
    have := hm.balance row hold
    simp only [Market.write, Deal.writes]
    rw [soldUnits_sale, unitsLeft_sale hok hrow]
    omega

theorem stock_invariant : Invariant StockDeal Stock := by
  rintro m (row | s) hm hd hok
  · exact stock_regist hm hd hok
  · exact stock_sale hm hok

/-! ## Every run -/

/-- Any requests, on any number of connections, interleaved and failing in any way: for every listing
that was ever registered, what was sold and what is left is what was registered. -/
theorem stock_kept {law : Call auctionDb → Harm → Bool} (hlaw : law .rollback .refused = false)
    {db : Database} {now next : Int} (hlistings : db.auctionListings.rows = [])
    (hreceipts : db.auctionReceipts = []) {es : List (PoolEvent Task)}
    (hint : ∀ i pkt h, .start i (.registItem pkt h) ∈ es → FitsInt32 (pkt.registinfo.head h).count)
    {q : Pool auctionDb Task (Option Response)}
    (hrun : run (Pool.step law Task.process) (Pool.fresh (idle db now next)) es = some q)
    {row : Listing} (hrow : Write.insertListing row ∈ (market q.server).history) :
    soldUnits q.server.db row.listingId + unitsLeft q.server.db row.listingId = row.remainingQuantity ∧
    (q.server.db.auctionListings.get? row.listingId = none →
      soldUnits q.server.db row.listingId = row.remainingQuantity) := by
  have hstock : Stock (market (idle db now next)) := by
    refine ⟨?_, ?_, ?_, by simp [market, idle]⟩ <;> simp [market, idle, hlistings, hreceipts]
  have hallowed : ∀ i task, PoolEvent.start i task ∈ es → Admits StockDeal next task := by
    intro i task he
    cases task with
    | auctionList pkt => trivial
    | receiptList pkt => trivial
    | registItem pkt h => exact fun _ _ _ => hint i pkt h he
    | purchaseItem pkt h => exact fun _ _ => trivial
  have hend : Stock (market q.server) :=
    (worker_run stock_invariant hlaw (kept_fresh (idle_wf ..) hstock fun _ => rfl) hallowed hrun).1.inv.2
  have hbalance : soldUnits q.server.db row.listingId + unitsLeft q.server.db row.listingId =
      row.remainingQuantity := hend.balance row hrow
  refine ⟨hbalance, fun hnone => ?_⟩
  have hleft : unitsLeft q.server.db row.listingId = 0 := by rw [unitsLeft, hnone]
  omega

def sampleRegist : Task :=
  .registItem ⟨1, [⟨0, 7, 0, 5, 3, 10, "24"⟩]⟩ (by simp)

def samplePurchase (sessionId : Int) : Task :=
  .purchaseItem ⟨sessionId, [⟨1, 8, 0, 0, 2, 0, ""⟩]⟩ (by simp)

def emptyMarket : Database :=
  { sampleDb with auctionListings := ⟨[], by decide⟩ }

/-- Two purchases at the same time: the second waits for the row, and then finds too few units. -/
def sampleEvents : List (PoolEvent Task) :=
  [.start 0 sampleRegist, .call 0 none, .call 0 none, .finish 0, .start 1 (samplePurchase 2),
    .start 2 (samplePurchase 3), .call 2 none] ++
    List.replicate 13 (.call 1 none) ++ [.finish 1] ++ List.replicate 8 (.call 2 none) ++ [.finish 2]

theorem stock_kept_sample : ∃ q,
    run (Pool.step mysqlLaw Task.process) (Pool.fresh (idle emptyMarket 0 1)) sampleEvents = some q ∧
    soldUnits q.server.db 1 = 2 ∧ soldUnits q.server.db 1 + unitsLeft q.server.db 1 = 3 := by
  have hrun : (run (Pool.step mysqlLaw Task.process) (Pool.fresh (idle emptyMarket 0 1))
      sampleEvents).map (fun q => (soldUnits q.server.db 1, (market q.server).history.head?)) =
      some (2, some (.insertListing ⟨1, 7, 5, 3, 10, 86400⟩)) := by decide
  obtain ⟨q, hq, hres⟩ := Option.map_eq_some_iff.mp hrun
  simp only [Prod.mk.injEq] at hres
  refine ⟨q, hq, hres.1, ?_⟩
  have hint : ∀ i pkt h, PoolEvent.start i (Task.registItem pkt h) ∈ sampleEvents →
      FitsInt32 (pkt.registinfo.head h).count := by
    intro i pkt h he
    simp only [sampleEvents, sampleRegist, samplePurchase, List.mem_append, List.mem_cons,
      List.mem_replicate, PoolEvent.start.injEq, Task.registItem.injEq, reduceCtorEq, List.not_mem_nil,
      and_false, or_false] at he
    obtain ⟨-, rfl⟩ := he
    simp [FitsInt32]
  exact (stock_kept rfl rfl rfl hint hq (List.mem_of_head? hres.2)).1

end Auction
