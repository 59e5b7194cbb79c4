import J1Server.Auction.Conservation
import J1Server.Auction.Stock
import J1Server.Lib.Failures

/-! # The price of a purchase

`TryPurchase` multiplies the price of the listing by the count of the request, before anything bounds the
count. -/

namespace Auction

open Lib Lib.Server Core

variable {law : Call auctionDb → Harm → Bool} {i : Nat} {s s' : Server auctionDb} {info : AuctionItemInfo}
  {row : Listing} {total t : Int}

/-- What is deducted, recorded and paid out is `amount`. -/
def Amounts (amount : Int) : Call auctionDb → Prop
  | .exec (.updateGold charged _ atLeast) => charged = amount ∧ atLeast = amount
  | .exec (.insertTransaction row) => row.totalPrice = amount
  | .exec (.insertReceipts rows) => ∀ row ∈ rows, ∀ gold, row.goldAmount = some gold → gold = amount
  | _ => True

/-- The attempt has read `row`, and goes on to form the product. -/
def Reads (info : AuctionItemInfo) (row : Listing) (tr : List (Answered (Sql auctionDb))) : Prop :=
  [⟨Call.setAutoCommit false, .ok ()⟩, ⟨Call.exec (.selectListingForUpdate info.listId), .ok (some row)⟩,
    ⟨Call.finish, .ok ()⟩] <+: tr

theorem reads_of_take {tr : List (Answered (Sql auctionDb))}
    (h : tr.take 3 = [⟨Call.setAutoCommit false, .ok ()⟩,
      ⟨Call.exec (.selectListingForUpdate info.listId), .ok (some row)⟩, ⟨Call.finish, .ok ()⟩]) : Reads info row tr := by
  unfold Reads
  rw [← h]
  exact List.take_prefix 3 tr

structure ChargedExactly (amount : Int) (tr : List (Answered (Sql auctionDb))) (r : Except SqlException Unit × Int) : Prop where
  inRange : -2 ^ 63 ≤ amount ∧ amount < 2 ^ 63
  formed : r.2 = amount
  amounts : ∀ x ∈ tr, Amounts amount x.call

/-- A bound on the count, for a given price. -/
def CountFits (price count : Int) : Prop :=
  (0 < price → count ≤ (2 ^ 63 - 1) / price) ∧ (price < 0 → count ≤ 2 ^ 63 / -price)

theorem countFits_iff {price count : Int} (hcount : 0 < count) :
    CountFits price count ↔ -2 ^ 63 ≤ price * count ∧ price * count < 2 ^ 63 := by
  unfold CountFits
  rcases lt_trichotomy price 0 with hneg | rfl | hpos
  · have hprod : price * count < 0 := mul_neg_of_neg_of_pos hneg hcount
    have hbound : count ≤ 2 ^ 63 / -price ↔ count * -price ≤ 2 ^ 63 := Int.le_ediv_iff_mul_le (by omega)
    have hflip : count * -price = -(price * count) := by ring
    rw [hbound, hflip]
    omega
  · omega
  · have hprod : 0 < price * count := mul_pos hpos hcount
    have hbound : count ≤ (2 ^ 63 - 1) / price ↔ count * price ≤ 2 ^ 63 - 1 := Int.le_ediv_iff_mul_le hpos
    rw [hbound, mul_comm count]
    omega

/-! ## From the row on -/

/-- From here on every call is about `total`, and the cell stays as it is. -/
def Charges (total t : Int) (x : Act (Sql auctionDb) Int Unit) : Prop :=
  (x.prog t).Guided (fun _ _ => True) (Amounts total) fun r => r.2 = t

theorem charges_throw (e : SqlException) : Charges total t (throw e) := rfl

theorem charges_ite {c : Prop} {hc : Decidable c} {x y : Act (Sql auctionDb) Int Unit} (hx : Charges total t x)
    (hy : Charges total t y) : Charges total t (if c then x else y) := by
  split
  · exact hx
  · exact hy

theorem charges_execute {st : Stmt} {f : st.Reply → Act (Sql auctionDb) Int Unit} (hst : Amounts total (.exec st))
    (hf : ∀ reply, Charges total t (f reply)) : Charges total t (execute (D := auctionDb) st >>= f) := by
  refine Act.guided_bind (R := fun r => r.2 = t) (guided_execute hst trivial (fun _ _ => rfl) fun _ => rfl) ?_
    fun _ _ h => h
  rintro reply t' rfl
  exact hf reply

theorem charges_recordSale : Charges total t (recordSale info row total) := by
  refine charges_execute rfl fun affected => charges_ite (charges_throw _) ?_
  refine charges_execute ?_ fun affected => charges_ite (charges_throw _) ⟨trivial, ?_⟩
  · simp [Amounts]
  · rintro (e | u) -
    · rfl
    · rfl

theorem charges_takeStock : Charges total t (takeStock info row total) := by
  unfold takeStock
  dsimp only
  split
  · exact charges_execute trivial fun affected => charges_ite (charges_throw _) charges_recordSale
  · exact charges_execute trivial fun affected => charges_ite (charges_throw _) charges_recordSale

theorem charges_chargeGold : Charges total t (chargeGold info row total) :=
  charges_execute ⟨rfl, rfl⟩ fun _ => charges_ite (charges_throw _) charges_takeStock

/-! ## Every run -/

/-- After the row is read, everything is about the product as the code forms it. -/
theorem exec_charges {R : Server auctionDb → Server auctionDb → Prop} {tr : List (Answered (Sql auctionDb))}
    {r : Except SqlException Unit × Int} (h : Exec R (Step law i) ((tryPurchase info).prog t) s tr r s')
    (hread : Reads info row tr) : 0 < info.count ∧ r.2 = toInt64 (toInt64 row.price * info.count) ∧
      ∀ x ∈ tr, Amounts (toInt64 (toInt64 row.price * info.count)) x.call := by
  obtain ⟨rest, rfl⟩ := hread
  obtain ⟨s₁, h₁⟩ := Act.of_call_bind h
  by_cases hcount : info.count ≤ 0
  · rw [if_pos hcount] at h₁
    cases h₁
  rw [if_neg hcount] at h₁
  obtain ⟨s₂, h₂⟩ := of_execute_bind h₁
  have hcharges : Charges (toInt64 (toInt64 row.price * info.count)) (toInt64 (toInt64 row.price * info.count))
      (if toInt64 row.sellerId = info.playerId then throw (sqlException "own listing")
        else chargeGold info row (toInt64 (toInt64 row.price * info.count))) :=
    charges_ite (charges_throw _) charges_chargeGold
  obtain ⟨hcalls, hcell⟩ := Prog.Guided.exec hcharges (fun _ _ _ _ _ => trivial) h₂
  refine ⟨by omega, hcell, fun x hx => ?_⟩
  rcases List.mem_append.mp hx with hx | hx
  · simp only [List.mem_cons, List.not_mem_nil, or_false] at hx
    rcases hx with rfl | rfl | rfl <;> trivial
  · exact hcalls x hx

/-- An attempt that has read its row charges, records and pays exactly price times count if and only if the
count is within the bound that the price sets. -/
theorem charged_exactly_iff {R : Server auctionDb → Server auctionDb → Prop} {tr : List (Answered (Sql auctionDb))}
    {r : Except SqlException Unit × Int} (h : Exec R (Step law i) ((tryPurchase info).prog t) s tr r s')
    (hread : Reads info row tr) : ChargedExactly (row.price * info.count) tr r ↔ CountFits row.price info.count := by
  obtain ⟨hcount, hcell, hcalls⟩ := exec_charges h hread
  have hexact : toInt64 (toInt64 row.price * info.count) = row.price * info.count ↔
      -2 ^ 63 ≤ row.price * info.count ∧ row.price * info.count < 2 ^ 63 :=
    @total_exact ⟨info, row, []⟩ hcount
  rw [countFits_iff hcount, ← hexact]
  constructor
  · intro hx
    rw [← hcell, hx.formed]
  · intro heq
    rw [heq] at hcell hcalls
    exact ⟨hexact.mp heq, hcell, hcalls⟩

/-- Two units at a price of 10. -/
theorem charged_exactly_iff_sample : ∃ tr r s',
    Exec Eq (Step mysqlLaw 0) ((tryPurchase sampleInfo).prog 0) (idle sampleDb 0 2) tr r s' ∧
    ChargedExactly 20 tr r := by
  have hrun : (runAlone mysqlLaw 0 ((tryPurchase sampleInfo).prog 0) (List.replicate 12 none) (idle sampleDb 0 2)).map
      (fun x => x.1.take 3) =
      some [⟨Call.setAutoCommit false, .ok ()⟩,
        ⟨Call.exec (.selectListingForUpdate 1), .ok (some ⟨1, 7, 5, 3, 10, 1000⟩)⟩, ⟨Call.finish, .ok ()⟩] := rfl
  obtain ⟨⟨tr, r, s'⟩, hx, htake⟩ := Option.map_eq_some_iff.mp hrun
  have hread : Reads sampleInfo ⟨1, 7, 5, 3, 10, 1000⟩ tr := reads_of_take htake
  have hexec : Exec Eq (Step mysqlLaw 0) ((tryPurchase sampleInfo).prog 0) (idle sampleDb 0 2) tr r s' :=
    runAlone_exec (fun _ => rfl) hx
  exact ⟨tr, r, s', hexec, (charged_exactly_iff hexec hread).mpr (by simp [CountFits, sampleInfo])⟩

/-! ## A price that wraps around -/

def wrappingPrice : Int := 6148914691236517212

def wrappingEvents : List (PoolEvent Task) :=
  [.start 0 (.registItem ⟨1, [⟨0, 7, 0, 5, 3, wrappingPrice, "24"⟩]⟩ (by simp)), .call 0 none, .call 0 none, .finish 0]

def wrappingInfo : AuctionItemInfo := ⟨1, 8, 0, 0, 3, 0, ""⟩

theorem product_wraps_around : ∃ q tr r s',
    run (Pool.step mysqlLaw Task.process) (Pool.fresh (idle emptyMarket 0 1)) wrappingEvents = some q ∧
    Exec Eq (Step mysqlLaw 1) ((tryPurchase wrappingInfo).prog 0) q.server tr r s' ∧
    Reads wrappingInfo ⟨1, 7, 5, 3, wrappingPrice, 86400⟩ tr ∧ r.1.isOk = true ∧
    s'.db.auctionTransactions = [⟨5, 3, 20⟩] ∧
    ¬ChargedExactly (wrappingPrice * wrappingInfo.count) tr r := by
  have hrun : (run (Pool.step mysqlLaw Task.process) (Pool.fresh (idle emptyMarket 0 1)) wrappingEvents).bind
      (fun q => (runAlone mysqlLaw 1 ((tryPurchase wrappingInfo).prog 0) (List.replicate 12 none) q.server).map
        fun x => (x.1.take 3, x.2.1.1.isOk, x.2.1.2, x.2.2.db.auctionTransactions)) =
      some ([⟨Call.setAutoCommit false, .ok ()⟩,
        ⟨Call.exec (.selectListingForUpdate 1), .ok (some ⟨1, 7, 5, 3, wrappingPrice, 86400⟩)⟩,
        ⟨Call.finish, .ok ()⟩], true, 20, [⟨5, 3, 20⟩]) := rfl
  obtain ⟨q, hq, hrun⟩ := Option.bind_eq_some_iff.mp hrun
  obtain ⟨⟨tr, r, s'⟩, hx, hres⟩ := Option.map_eq_some_iff.mp hrun
  obtain ⟨htake, hres⟩ := Prod.mk.inj hres
  simp only [Prod.mk.injEq] at hres
  obtain ⟨hok, htotal, hrecorded⟩ := hres
  have hread : Reads wrappingInfo ⟨1, 7, 5, 3, wrappingPrice, 86400⟩ tr := reads_of_take htake
  refine ⟨q, tr, r, s', hq, runAlone_exec (fun _ => rfl) hx, hread, hok, hrecorded, fun hexact => ?_⟩
  have hformed := hexact.formed
  rw [htotal] at hformed
  simp [wrappingPrice, wrappingInfo] at hformed

end Auction
