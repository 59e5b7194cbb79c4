import J1Server.Auction.Ledger
import Mathlib.Tactic.Linarith

/-! # Prices

A registration may name any price. As long as nobody buys at a negative price, or
so much that the total overflows, a purchase only takes gold away. -/

namespace Auction

open Lib Lib.Server Core

/-! ## What listings cost -/

/-- A listing that the database had, or that was registered since. -/
def Listed (db : Database) (history : List Write) (row : Listing) : Prop :=
  row ∈ db.auctionListings.rows ∨ Write.insertListing row ∈ history

/-- No purchase in the run has a negative total, or one that overflows, at the price of the listing that it
names. -/
def TotalsFit (db : Database) (history : List Write) (es : List (PoolEvent Task)) : Prop :=
  ∀ i pkt h, PoolEvent.start i (.purchaseItem pkt h) ∈ es → ∀ row, Listed db history row →
    row.listingId = (pkt.purchaseinfo.head h).listId → 0 < (pkt.purchaseinfo.head h).count →
    0 ≤ row.price ∧ row.price * (pkt.purchaseinfo.head h).count < 2 ^ 63

/-- On the way to `history`, what is left of a listing has its price. -/
def Priced (db : Database) (history : List Write) (m : Market) : Prop :=
  m.history <+: history → ∀ l ∈ m.db.auctionListings.rows,
    ∃ row, Listed db history row ∧ row.listingId = l.listingId ∧ row.price = l.price

variable {db : Database} {history : List Write} {es : List (PoolEvent Task)}

theorem priced_invariant : Invariant (Requested es) (Priced db history) := by
  rintro m d hm - hok hhistory l hl
  have hold := hm ((List.prefix_append _ _).trans hhistory)
  cases d with
  | regist row =>
    rcases Table.mem_insert hl with rfl | hl
    · exact ⟨_, Or.inr (hhistory.subset (List.mem_append_right _ List.mem_cons_self)), rfl, rfl⟩
    · exact hold l hl
  | sale s =>
    rcases listing_left hok hl with hl | ⟨rfl, -⟩
    · exact hold l hl
    · exact hold s.row (row_mem hok)

theorem total_nonneg {m : Market} {s : Sale} (hm : Priced db history m) (hhistory : m.history <+: history)
    (hok : s.Ok m.db) (hasked : Requested es (.sale s)) (hfits : TotalsFit db history es) : 0 ≤ s.total := by
  obtain ⟨row, hlisted, hid, heq⟩ := hm hhistory s.row (row_mem hok)
  have hpos := hok.count
  obtain ⟨hprice, hlt⟩ : 0 ≤ s.row.price ∧ s.row.price * s.info.count < 2 ^ 63 := by
    obtain ⟨i, pkt, h, he, hi⟩ := hasked
    rw [hi] at hpos ⊢
    rw [← heq]
    exact hfits i pkt h he row hlisted (by rw [hid, row_key hok, hi]) hpos
  have hexact : toInt64 s.row.price = s.row.price := by
    rw [toInt64_eq_iff]
    constructor <;> nlinarith
  have hmul : 0 ≤ s.row.price * s.info.count := mul_nonneg hprice hpos.le
  have htotal : s.total = s.row.price * s.info.count := by
    rw [Sale.total, hexact, toInt64_eq_iff]
    exact ⟨by omega, hlt⟩
  omega

/-! ## What a sale takes -/

/-- From `db` to `db'` no character gained gold, and none fell below zero. -/
def GoldFalls (db db' : Database) : Prop :=
  ∀ id c, db.characterBase.get? id = some c → ∃ c', db'.characterBase.get? id = some c' ∧
    c'.gold ≤ c.gold ∧ (0 ≤ c.gold → 0 ≤ c'.gold)

theorem goldFalls_refl (db : Database) : GoldFalls db db :=
  fun _ c hc => ⟨c, hc, le_refl _, id⟩

theorem goldFalls_sale {db₀ : Database} {m : Market} {s : Sale} (h : GoldFalls db₀ m.db)
    (hok : s.Ok m.db) (ht : 0 ≤ s.total) : GoldFalls db₀ (writeAll s.writes m.db) := by
  intro id c hc
  obtain ⟨c₁, hc₁, hle, hpos⟩ := h id c hc
  obtain ⟨c', hc', hcase⟩ := character_after hok hc₁
  refine ⟨c', hc', ?_⟩
  rcases hcase with rfl | ⟨rfl, -, hgold⟩
  · exact ⟨hle, hpos⟩
  · simp only [CharacterBase.charge]
    constructor <;> intros <;> omega

theorem trades_gold {m m' : Market} (hfits : TotalsFit db m'.history es) (h : Trades (Requested es) m m')
    (hm : Priced db m'.history m) : GoldFalls m.db m'.db := by
  have hend := h.invariant
    (P := fun x => Priced db m'.history x ∧ (x.history <+: m'.history → GoldFalls m.db x.db)) ?_
    ⟨hm, fun _ => goldFalls_refl _⟩
  · exact hend.2 List.prefix_rfl
  rintro x d ⟨hx, hgold⟩ hd hok
  refine ⟨priced_invariant x d hx hd hok, fun hhistory => ?_⟩
  have hbefore := (List.prefix_append _ _).trans hhistory
  cases d with
  | regist row => exact hgold hbefore
  | sale s => exact goldFalls_sale (hgold hbefore) hok (total_nonneg hx hbefore hok hd hfits)

/-! ## Every run -/

/-- In a run where no purchase has a negative total, or one that overflows, at the price of the listing that it
names: between any two states no character gains gold or falls below zero, and every successful purchase charged
a total that is not negative. -/
theorem purchase_never_pays {law : Call auctionDb → Harm → Bool} (hlaw : law .rollback .refused = false)
    {now next : Int} {es₁ es₂ : List (PoolEvent Task)} {p q : Pool auctionDb Task (Option Response)}
    (hp : run (Pool.step law Task.process) (Pool.fresh (idle db now next)) es₁ = some p)
    (hq : run (Pool.step law Task.process) p es₂ = some q)
    (hfits : TotalsFit db (market q.server).history (es₁ ++ es₂)) :
    GoldFalls p.server.db q.server.db ∧
    ∀ x ∈ q.finished, ∀ sessionId gold,
      x.result = some (.purchaseItem true sessionId gold) → 0 ≤ gold := by
  have hstart : Priced db (market q.server).history (market (idle db now next)) :=
    fun _ l hl => ⟨l, Or.inl hl, rfl, rfl⟩
  have h₁ := worker_run priced_invariant hlaw (kept_fresh (idle_wf ..) hstart fun _ => rfl)
    (fun i task he => requested_admits (List.mem_append_left es₂ he)) hp
  have h₂ := worker_run priced_invariant hlaw h₁.1
    (fun i task he => requested_admits (List.mem_append_right es₁ he)) hq
  refine ⟨trades_gold hfits h₂.2.trades h₁.1.inv.2, ?_⟩
  intro x hx sessionId gold hres
  obtain ⟨m, sale, hm, hasked, hok, rfl, htrades⟩ := h₂.1.done x hx sessionId gold hres
  exact total_nonneg hm ((List.prefix_append _ _).trans htrades.history) hok hasked hfits

/-! ## Prices that a client chose -/

/-- A seller registers at `price`, and buyer 8 buys two units. -/
def priceEvents (price : Int) : List (PoolEvent Task) :=
  [.start 0 (.registItem ⟨1, [⟨0, 7, 0, 5, 3, price, "24"⟩]⟩ (by simp)), .call 0 none, .call 0 none,
    .finish 0, .start 1 (samplePurchase 2)] ++ List.replicate 13 (.call 1 none) ++ [.finish 1]

theorem negative_price_pays : ∃ q,
    run (Pool.step mysqlLaw Task.process) (Pool.fresh (idle emptyMarket 0 1)) (priceEvents (-10)) = some q ∧
    (∃ x ∈ q.finished, x.result = some (.purchaseItem true 2 (-20))) ∧
    ¬GoldFalls emptyMarket q.server.db := by
  have hrun : (run (Pool.step mysqlLaw Task.process) (Pool.fresh (idle emptyMarket 0 1))
      (priceEvents (-10))).map (fun q => (q.finished.map Finished.result,
        (q.server.db.characterBase.get? 2).map CharacterBase.gold)) =
      some ([some (.registItem true 1), some (.purchaseItem true 2 (-20))], some 120) := by decide
  obtain ⟨q, hq, hres⟩ := Option.map_eq_some_iff.mp hrun
  simp only [Prod.mk.injEq] at hres
  refine ⟨q, hq, ?_, fun hfalls => ?_⟩
  · have hmem : some (Response.purchaseItem true 2 (-20)) ∈ q.finished.map Finished.result := by
      rw [hres.1]
      simp
    exact List.mem_map.mp hmem
  · obtain ⟨c', hc', hle, -⟩ := hfalls 2 sampleBuyer (by decide)
    rw [hc'] at hres
    have hgold : c'.gold = 120 := Option.some.inj hres.2
    simp only [sampleBuyer] at hle
    omega

theorem purchase_never_pays_sample : ∃ q,
    run (Pool.step mysqlLaw Task.process) (Pool.fresh (idle emptyMarket 0 1)) (priceEvents 10) = some q ∧
    GoldFalls emptyMarket q.server.db := by
  have hrun : (run (Pool.step mysqlLaw Task.process) (Pool.fresh (idle emptyMarket 0 1))
      (priceEvents 10)).map (fun q => (market q.server).history.filter fun w => w.newId?.isSome) =
      some [.insertListing ⟨1, 7, 5, 3, 10, 86400⟩] := by decide
  obtain ⟨q, hq, hregistered⟩ := Option.map_eq_some_iff.mp hrun
  have hfits : TotalsFit emptyMarket (market q.server).history ([] ++ priceEvents 10) := by
    rintro i pkt h he row (hrow | hrow) - -
    · cases hrow
    · have hmem : Write.insertListing row ∈ (market q.server).history.filter fun w => w.newId?.isSome :=
        List.mem_filter.mpr ⟨hrow, rfl⟩
      rw [hregistered, List.mem_singleton] at hmem
      obtain rfl := Write.insertListing.inj hmem
      simp only [priceEvents, samplePurchase, List.nil_append, List.mem_append, List.mem_cons,
        List.mem_replicate, PoolEvent.start.injEq, Task.purchaseItem.injEq, reduceCtorEq,
        List.not_mem_nil, and_false, or_false, false_or] at he
      obtain ⟨-, rfl⟩ := he
      norm_num
  have hstart : run (Pool.step mysqlLaw Task.process) (Pool.fresh (idle emptyMarket 0 1)) [] =
      some (Pool.fresh (idle emptyMarket 0 1)) := rfl
  exact ⟨q, hq, (purchase_never_pays rfl hstart hq hfits).1⟩

end Auction
