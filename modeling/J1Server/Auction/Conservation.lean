import J1Server.Auction.Atomicity
import Mathlib.Tactic.Linarith

/-! # Gold in a purchase

What a successful purchase does to the gold of all characters: the gold update
matches by account, so every character of the buyer's account that can pay does. -/

namespace Auction

open Lib Lib.Server Core

variable {law : Call auctionDb → Harm → Bool} {i : Nat}

/-- Gold is conserved by a purchase: one character pays, and what it pays is the price of the listing times
the count. The same amount is recorded for the listing's item, and credited to the listing's seller. -/
structure Conserved (info : AuctionItemInfo) (result : PurchaseResult) (db db' : Database) : Prop where
  rows : db'.characterBase.rows.map CharacterBase.characterId =
    db.characterBase.rows.map CharacterBase.characterId
  one : (db.characterBase.rows.filter fun c =>
    db'.characterBase.get? c.characterId ≠ some c).length = 1
  gold : db'.characterBase.sum CharacterBase.gold =
    db.characterBase.sum CharacterBase.gold - result.totalPrice
  booked : ∃ row, db.auctionListings.get? info.listId = some row ∧ result.totalPrice = row.price * info.count ∧
    db'.auctionTransactions =
      db.auctionTransactions ++ [⟨toInt32 row.itemId, info.count, result.totalPrice⟩] ∧
    db'.auctionReceipts = db.auctionReceipts ++
      [⟨info.playerId, 3, none, some (toInt32 row.itemId), some info.count, info.listId⟩,
        ⟨toInt64 row.sellerId, 1, some result.totalPrice, none, none, info.listId⟩]

/-! ## What a successful purchase did -/

/-- Alone on the server, a successful purchase is one sale, in which everybody who could pay paid. -/
theorem purchase_sale {info : AuctionItemInfo} {s t : Server auctionDb}
    {tr : List (Answered (Sql auctionDb))} {result : PurchaseResult} (hw : s.WF)
    (hp : (s.conns i).pending = []) (hrollback : law .rollback .refused = false)
    (hcommit : law .commit .replyLost = false)
    (h : Exec Eq (Step law i) (purchase info) s tr result t) (hs : result.success = true) :
    ∃ sale : Sale, sale.info = info ∧ result.totalPrice = sale.total ∧ sale.Ok s.db ∧
      sale.charged = payers s.db sale.total info.playerId ∧ t.db = writeAll sale.writes s.db := by
  have hS : Surroundings (D := auctionDb) i Eq (fun s s' => s'.db = s.db) (fun _ _ => True) :=
    { lawful := auctionDb_lawful
      rely := by rintro s _ rfl; exact Rely.refl i s
      refl := fun _ => rfl
      trans := fun _ _ _ h h' => h.trans h'
      during := by rintro s _ rfl; rfl
      during_trans := fun _ _ _ h h' => h'.trans h
      quiet := fun _ _ h => h.db
      guar := fun _ _ _ => trivial }
  have hu : Undone law i (fun pre => pre = []) (fun s s' : Server auctionDb => s'.db = s.db)
      (fun _ _ => True) := ⟨rfl, Or.inl hrollback⟩
  have safe : Safe Eq (Step law i) (fun _ _ => True) (purchase info)
      (Completed i (s.conns i).task (fun pre => pre = []) (fun s s' => s'.db = s.db) s info
        kMaxTxAttempts) s :=
    purchaseFrom_safe hS hu (fun _ _ _ _ _ _ => mayCommit_of_law hcommit) kMaxTxAttempts 1 rfl ⟨rfl, hw, rfl⟩ hp
  obtain ⟨-, -, -, -, hr⟩ := safe.exec h
  rw [hs] at hr
  obtain ⟨-, -, pre, sale, s₁, rfl, hi, ht, sold, hd⟩ := hr
  obtain ⟨s₂, hd₂, hcharged⟩ := sold.charged
  have hdb : s₁.db = s.db := sold.during
  refine ⟨sale, hi, ht, ?_, ?_, ?_⟩
  · have := sold.ok
    rwa [applyAll_nil, hdb] at this
  · rw [hcharged, applyAll_nil, hd₂, hi]
  · have hpub : (s₁.publish i).db = writeAll sale.writes s.db := by
      rw [publish_db, sold.inTx.conn, applyAll_eq, ← hdb]
      simp [Lib.Server.writeAll, writeAll, Function.comp_def]
    rw [hd, hpub]

/-! ## The sums -/

theorem characters_after {sale : Sale} {db : Database}
    (hcharged : sale.charged = payers db sale.total sale.info.playerId) :
    (writeAll sale.writes db).characterBase.rows = db.characterBase.rows.map fun c =>
      if c.accountId = sale.info.playerId ∧ sale.total ≤ c.gold then c.charge sale.total else c := by
  rw [writeAll_sale]
  simp only [hcharged, payers]
  rw [Table.rows_replace_all (CharacterBase.charge sale.total) (fun _ => rfl)]
  simp

theorem gold_after {sale : Sale} {db : Database}
    (hcharged : sale.charged = payers db sale.total sale.info.playerId) :
    (writeAll sale.writes db).characterBase.sum CharacterBase.gold =
      db.characterBase.sum CharacterBase.gold - sale.charged.length * sale.total := by
  have hrows := characters_after hcharged
  have hsum := Table.sum_map_eq (f := CharacterBase.gold) (g := CharacterBase.charge sale.total)
    (p := fun c => decide (c.accountId = sale.info.playerId ∧ sale.total ≤ c.gold)) db.characterBase.rows
  simp only [decide_eq_true_eq] at hsum
  rw [Table.sum, hrows, hsum, Table.sum, hcharged, payers]
  have hloss : ∀ l : List CharacterBase,
      (l.map fun c => (CharacterBase.charge sale.total c).gold - c.gold).sum = -(l.length * sale.total) := by
    intro l
    have hone : ∀ c : CharacterBase, (CharacterBase.charge sale.total c).gold - c.gold = -sale.total := by
      intro c
      simp only [CharacterBase.charge]
      ring
    simp only [hone, List.map_const', List.sum_replicate, nsmul_eq_mul, mul_neg]
  rw [hloss]
  ring

theorem changed_after {sale : Sale} {db : Database} (hok : sale.Ok db)
    (hcharged : sale.charged = payers db sale.total sale.info.playerId) :
    (db.characterBase.rows.filter fun c =>
      (writeAll sale.writes db).characterBase.get? c.characterId ≠ some c) = sale.charged := by
  have hget : ∀ c ∈ db.characterBase.rows,
      (writeAll sale.writes db).characterBase.get? c.characterId = some (
        if c.accountId = sale.info.playerId ∧ sale.total ≤ c.gold then c.charge sale.total else c) := by
    intro c hc
    rw [Table.get?_eq_some]
    refine ⟨?_, by split <;> rfl⟩
    rw [characters_after hcharged]
    exact List.mem_map.mpr ⟨c, hc, rfl⟩
  rw [hcharged, payers]
  apply List.filter_congr
  intro c hc
  rw [hget c hc]
  by_cases hpays : c.accountId = sale.info.playerId ∧ sale.total ≤ c.gold
  · -- A charge of a total other than zero changes the row.
    have hne : c.charge sale.total ≠ c := by
      intro heq
      have hgold : c.gold - sale.total = c.gold := congrArg CharacterBase.gold heq
      exact hok.nonzero (by omega)
    simp [hpays, hne]
  · simp [hpays]

theorem total_exact {sale : Sale} (hcount : 0 < sale.info.count) :
    sale.total = sale.row.price * sale.info.count ↔
      -2 ^ 63 ≤ sale.row.price * sale.info.count ∧ sale.row.price * sale.info.count < 2 ^ 63 := by
  constructor
  · intro h
    rw [← h]
    exact toInt64_bounds _
  · rintro ⟨hlo, hhi⟩
    have hprice : toInt64 sale.row.price = sale.row.price := by
      rw [toInt64_eq_iff]
      constructor <;> nlinarith
    rw [Sale.total, hprice, toInt64_eq_iff]
    exact ⟨hlo, hhi⟩

/-! ## When gold is conserved -/

/-- The purchase of `count` units at `row`'s price is within `int64`, and one character pays for it. -/
def OnePayer (info : AuctionItemInfo) (db : Database) : Prop :=
  ∃ row, db.auctionListings.get? info.listId = some row ∧
    -2 ^ 63 ≤ row.price * info.count ∧ row.price * info.count < 2 ^ 63 ∧
    (payers db (row.price * info.count) info.playerId).length = 1

theorem purchase_conserved_iff {info : AuctionItemInfo} {s t : Server auctionDb}
    {tr : List (Answered (Sql auctionDb))} {result : PurchaseResult} (hw : s.WF)
    (hp : (s.conns i).pending = []) (hrollback : law .rollback .refused = false)
    (hcommit : law .commit .replyLost = false)
    (h : Exec Eq (Step law i) (purchase info) s tr result t) (hs : result.success = true) :
    Conserved info result s.db t.db ↔ OnePayer info s.db := by
  obtain ⟨sale, hi, htotal, hok, hcharged, hdb⟩ := purchase_sale hw hp hrollback hcommit h hs
  subst hi
  have hcharged' : sale.charged = payers s.db sale.total sale.info.playerId := hcharged
  constructor
  · intro hc
    obtain ⟨row, hrow, hprice, -⟩ := hc.booked
    obtain rfl : sale.row = row := Option.some.inj (hok.row.symm.trans hrow)
    rw [htotal] at hprice
    obtain ⟨hlo, hhi⟩ := (total_exact hok.count).mp hprice
    refine ⟨sale.row, hrow, hlo, hhi, ?_⟩
    have hone := hc.one
    rw [hdb, changed_after hok hcharged'] at hone
    rw [← hprice, ← hcharged, hone]
  · rintro ⟨row, hrow, hlo, hhi, hone⟩
    obtain rfl : sale.row = row := Option.some.inj (hok.row.symm.trans hrow)
    have hprice := (total_exact hok.count).mpr ⟨hlo, hhi⟩
    rw [← hprice, ← hcharged] at hone
    refine ⟨?_, ?_, ?_, sale.row, hrow, htotal.trans hprice, ?_, ?_⟩
    · rw [hdb, characters_after hcharged', List.map_map]
      apply List.map_congr_left
      intro c _
      simp only [Function.comp]
      split <;> rfl
    · rw [hdb, changed_after hok hcharged', hone]
    · rw [hdb, gold_after hcharged', hone, htotal]
      simp
    · rw [hdb, writeAll_sale, htotal]
      rfl
    · rw [hdb, writeAll_sale, htotal]
      rfl

/-! ## An account with two characters -/

def sampleAlt : CharacterBase := ⟨3, 8, 1, "alt", 0, 1, 100⟩

def twoCharacters : Database :=
  { sampleDb with characterBase := ⟨[sampleSeller, sampleBuyer, sampleAlt], by decide⟩ }

/-- Both characters of the account pay. -/
theorem purchase_charges_twice : ∃ tr result t,
    Exec Eq (Step mysqlLaw 0) (purchase sampleInfo) (idle twoCharacters 0 2) tr result t ∧
    result.success = true ∧ ¬Conserved sampleInfo result twoCharacters t.db := by
  have hrun : (runAlone mysqlLaw 0 (purchase sampleInfo) (List.replicate 13 none)
      (idle twoCharacters 0 2)).map (fun x => (x.2.1, x.2.2.db.characterBase.rows.map (·.gold))) =
      some (⟨true, 20⟩, [0, 80, 80]) := by decide
  obtain ⟨⟨tr, result, t⟩, hx, hres⟩ := Option.map_eq_some_iff.mp hrun
  simp only [Prod.mk.injEq] at hres
  refine ⟨tr, result, t, runAlone_exec (fun _ => rfl) hx, by rw [hres.1], fun hc => ?_⟩
  have hgold := hc.gold
  rw [Table.sum, hres.2, hres.1] at hgold
  revert hgold
  decide

theorem purchase_conserved_one_character : ∃ tr result t,
    Exec Eq (Step mysqlLaw 0) (purchase sampleInfo) (idle sampleDb 0 2) tr result t ∧
    (Conserved sampleInfo result sampleDb t.db ↔ OnePayer sampleInfo sampleDb) := by
  have hrun : (runAlone mysqlLaw 0 (purchase sampleInfo) (List.replicate 13 none)
      (idle sampleDb 0 2)).map (fun x => x.2.1) = some ⟨true, 20⟩ := by decide
  obtain ⟨⟨tr, result, t⟩, hx, hres⟩ := Option.map_eq_some_iff.mp hrun
  simp only at hres
  have hexec : Exec Eq (Step mysqlLaw 0) (purchase sampleInfo) (idle sampleDb 0 2) tr result t :=
    runAlone_exec (fun _ => rfl) hx
  exact ⟨tr, result, t, hexec,
    purchase_conserved_iff (idle_wf sampleDb 0 2) rfl rfl rfl hexec (by rw [hres])⟩

end Auction
