import J1Server.Auction.Stock

/-! # The books of the market

Whatever the workers do at the same time, the committed tables are what one deal
after the other leaves: the transactions and receipts are those of the sales, in
the order of their commits, and the gold that is gone is what they charged. -/

namespace Auction

open Lib Lib.Server Core

/-! ## One deal after the other -/

def Market.after (m : Market) (deals : List Deal) : Market := deals.foldl (fun m d => m.write d.writes) m

/-- Each deal is allowed, and valid on the market that the deals before it leave. -/
def Serial (allowed : Deal → Prop) : Market → List Deal → Prop
  | _, [] => True
  | m, d :: deals => allowed d ∧ d.Ok m ∧ Serial allowed (m.write d.writes) deals

def Deal.sale? : Deal → Option Sale
  | .regist _ => none
  | .sale s => some s

def sales (deals : List Deal) : List Sale := deals.filterMap Deal.sale?

/-- Gold that the characters have. -/
def goldHeld (db : Database) : Int := db.characterBase.sum CharacterBase.gold

/-- What a sale takes from the characters that it charges. -/
def Sale.taken (s : Sale) : Int := s.charged.length * s.total

variable {allowed : Deal → Prop} {m m' : Market}

@[simp] theorem after_nil (m : Market) : m.after [] = m := rfl

@[simp] theorem after_cons (m : Market) (d : Deal) (deals : List Deal) :
    m.after (d :: deals) = (m.write d.writes).after deals := rfl

theorem after_snoc (m : Market) (deals : List Deal) (d : Deal) :
    m.after (deals ++ [d]) = (m.after deals).write d.writes := by
  simp [Market.after]

theorem serial_snoc {deals : List Deal} {d : Deal} (h : Serial allowed m deals) (hd : allowed d)
    (hok : d.Ok (m.after deals)) : Serial allowed m (deals ++ [d]) := by
  induction deals generalizing m with
  | nil => exact ⟨hd, hok, trivial⟩
  | cons x deals ih => exact ⟨h.1, h.2.1, ih h.2.2 hok⟩

theorem Trades.serial (h : Trades allowed m m') : ∃ deals, Serial allowed m deals ∧ m' = m.after deals := by
  induction h with
  | refl => exact ⟨[], trivial, rfl⟩
  | step d _ hd hok ih =>
    obtain ⟨deals, hserial, rfl⟩ := ih
    exact ⟨deals ++ [d], serial_snoc hserial hd hok, (after_snoc m deals d).symm⟩

/-! ## What a deal enters -/

theorem transactions_write (m : Market) (d : Deal) :
    (m.write d.writes).db.auctionTransactions = m.db.auctionTransactions ++ d.sale?.toList.map Sale.transaction := by
  cases d with
  | regist row => simp [Market.write, Deal.writes, Deal.sale?, Write.apply]
  | sale s => simp [Market.write, Deal.writes, Deal.sale?, writeAll_sale]

theorem receipts_write (m : Market) (d : Deal) :
    (m.write d.writes).db.auctionReceipts = m.db.auctionReceipts ++
      d.sale?.toList.flatMap fun s => [s.buyerReceipt, s.sellerReceipt] := by
  cases d with
  | regist row => simp [Market.write, Deal.writes, Deal.sale?, Write.apply]
  | sale s => simp [Market.write, Deal.writes, Deal.sale?, writeAll_sale]

theorem gold_charged {cs : List CharacterBase} {total : Int} (t : Table CharacterBase.characterId)
    (hdistinct : (cs.map CharacterBase.characterId).Nodup) (hget : ∀ c ∈ cs, t.get? c.characterId = some c) :
    ((cs.map (·.charge total)).foldl Table.replace t).sum CharacterBase.gold =
      t.sum CharacterBase.gold - cs.length * total := by
  induction cs generalizing t with
  | nil => simp
  | cons c cs ih =>
    rw [List.map_cons, List.nodup_cons] at hdistinct
    have hstill : ∀ c' ∈ cs, (t.replace (c.charge total)).get? c'.characterId = some c' := by
      intro c' hc'
      have hne : c.characterId ≠ c'.characterId := fun heq => hdistinct.1 (heq ▸ List.mem_map_of_mem hc')
      rw [Table.get?_replace, if_neg (by simpa [CharacterBase.charge] using hne)]
      exact hget c' (by simp [hc'])
    have hone : (t.replace (c.charge total)).sum CharacterBase.gold = t.sum CharacterBase.gold - total := by
      have hkey : t.get? (c.charge total).characterId = some c := hget c (by simp)
      rw [Table.sum_replace hkey]
      simp only [CharacterBase.charge]
      ring
    rw [List.map_cons, List.foldl_cons, ih _ hdistinct.2 hstill, hone, List.length_cons]
    push_cast
    ring

theorem gold_sale {s : Sale} {db : Database} (hok : s.Ok db) :
    goldHeld (writeAll s.writes db) = goldHeld db - s.taken := by
  rw [goldHeld, writeAll_sale]
  exact gold_charged db.characterBase hok.distinct fun c hc => (hok.payers c hc).1

theorem gold_write {d : Deal} (hok : d.Ok m) :
    goldHeld (m.write d.writes).db = goldHeld m.db - (d.sale?.toList.map Sale.taken).sum := by
  cases d with
  | regist row => simp [Market.write, Deal.writes, Deal.sale?, Write.apply, goldHeld]
  | sale s => simpa [Deal.sale?, Market.write, Deal.writes] using gold_sale hok

/-! ## The books -/

/-- The tables of `db'` are those of `db`, with these sales entered. -/
structure Entered (db db' : Database) (sold : List Sale) : Prop where
  transactions : db'.auctionTransactions = db.auctionTransactions ++ sold.map Sale.transaction
  receipts : db'.auctionReceipts = db.auctionReceipts ++ sold.flatMap fun s => [s.buyerReceipt, s.sellerReceipt]
  gold : goldHeld db' = goldHeld db - (sold.map Sale.taken).sum

theorem sales_cons (d : Deal) (deals : List Deal) : sales (d :: deals) = d.sale?.toList ++ sales deals := by
  cases d <;> rfl

theorem Serial.entered {deals : List Deal} (h : Serial allowed m deals) :
    Entered m.db (m.after deals).db (sales deals) := by
  induction deals generalizing m with
  | nil => exact ⟨by simp [sales], by simp [sales], by simp [sales]⟩
  | cons d deals ih =>
    obtain ⟨htransactions, hreceipts, hgold⟩ := ih h.2.2
    rw [after_cons, sales_cons]
    refine ⟨?_, ?_, ?_⟩
    · rw [htransactions, transactions_write, List.map_append, List.append_assoc]
    · rw [hreceipts, receipts_write, List.flatMap_append, List.append_assoc]
    · rw [hgold, gold_write h.2.1, List.map_append, List.sum_append]
      ring

/-! ## Every run -/

/-- A started task asks for the deal: for a registration of this item, or for a purchase of this kind. -/
def Requested (es : List (PoolEvent Task)) : Deal → Prop
  | .regist row => ∃ i pkt h id expiredAt, PoolEvent.start i (.registItem pkt h) ∈ es ∧
      row = listingOf (pkt.registinfo.head h) id expiredAt
  | .sale s => ∃ i pkt h, PoolEvent.start i (.purchaseItem pkt h) ∈ es ∧ s.info = pkt.purchaseinfo.head h

theorem requested_admits {es : List (PoolEvent Task)} {key : Int} {i : Nat} {task : Task}
    (he : PoolEvent.start i task ∈ es) : Admits (Requested es) key task := by
  cases task with
  | auctionList pkt => trivial
  | receiptList pkt => trivial
  | registItem pkt h => exact fun id expiredAt _ => ⟨i, pkt, h, id, expiredAt, he, rfl⟩
  | purchaseItem pkt h => exact fun sale hi => ⟨i, pkt, h, he, hi⟩

/-- Any requests, on any number of connections, interleaved and failing in any way: the committed
database is what some deals that were asked for leave, made one after the other, each valid on what
the deals before it left. The books hold exactly their sales, in this order. -/
theorem runs_are_serial {law : Call auctionDb → Harm → Bool} (hlaw : law .rollback .refused = false)
    {db : Database} {now next : Int} {es : List (PoolEvent Task)} {q : Pool auctionDb Task (Option Response)}
    (hrun : run (Pool.step law Task.process) (Pool.fresh (idle db now next)) es = some q) :
    ∃ deals, Serial (Requested es) ⟨db, []⟩ deals ∧ market q.server = Market.after ⟨db, []⟩ deals ∧
      Entered db q.server.db (sales deals) := by
  have hend := worker_run (M := fun _ => True) (fun _ _ _ _ _ => trivial) hlaw
    (kept_fresh (idle_wf db now next) trivial fun _ => rfl) (fun i task he => requested_admits he) hrun
  obtain ⟨deals, hserial, hafter⟩ := hend.2.trades.serial
  have hentered := hserial.entered
  rw [← hafter] at hentered
  exact ⟨deals, hserial, hafter, hentered⟩

theorem runs_are_serial_sample : ∃ q deals,
    run (Pool.step mysqlLaw Task.process) (Pool.fresh (idle emptyMarket 0 1)) sampleEvents = some q ∧
    Serial (Requested sampleEvents) ⟨emptyMarket, []⟩ deals ∧
    market q.server = Market.after ⟨emptyMarket, []⟩ deals ∧ (sales deals).map Sale.total = [20] := by
  have hrun : (run (Pool.step mysqlLaw Task.process) (Pool.fresh (idle emptyMarket 0 1)) sampleEvents).map
      (fun q => q.server.db.auctionTransactions) = some [⟨5, 2, 20⟩] := by decide
  obtain ⟨q, hq, hres⟩ := Option.map_eq_some_iff.mp hrun
  obtain ⟨deals, hserial, hafter, hentered⟩ := runs_are_serial rfl hq
  refine ⟨q, deals, hq, hserial, hafter, ?_⟩
  have hbooks := congrArg (List.map Transaction.totalPrice) hentered.transactions
  rw [hres] at hbooks
  simpa [Sale.transaction, emptyMarket, sampleDb] using hbooks.symm

/-! ## Gold that is not lost -/

/-- Gold that the receipts of sellers promise. -/
def credited (db : Database) : Int :=
  ((db.auctionReceipts.filter fun r => r.receiptType = 1).map fun r => r.goldAmount.getD 0).sum

/-- No account has two characters. -/
def OneCharacterEach (db : Database) : Prop := (db.characterBase.rows.map CharacterBase.accountId).Nodup

theorem credited_write (d : Deal) :
    credited (m.write d.writes).db = credited m.db + (d.sale?.toList.map Sale.total).sum := by
  rw [credited, receipts_write, List.filter_append, List.map_append, List.sum_append, credited]
  cases d <;> simp [Deal.sale?, Sale.buyerReceipt, Sale.sellerReceipt]

theorem accounts_charged {cs : List CharacterBase} {total : Int} (t : Table CharacterBase.characterId)
    (hdistinct : (cs.map CharacterBase.characterId).Nodup) (hget : ∀ c ∈ cs, t.get? c.characterId = some c) :
    ((cs.map (·.charge total)).foldl Table.replace t).rows.map CharacterBase.accountId =
      t.rows.map CharacterBase.accountId := by
  rw [Table.rows_foldl_replace _ _ (by simpa [Function.comp_def, CharacterBase.charge] using hdistinct), List.map_map]
  apply List.map_congr_left
  intro r hr
  rw [Function.comp_apply]
  cases hfind : (cs.map (·.charge total)).find? fun x => x.characterId = r.characterId with
  | none => rfl
  | some x =>
    obtain ⟨c, hc, rfl⟩ := List.mem_map.mp (List.mem_of_find?_eq_some hfind)
    have hkey : (c.charge total).characterId = r.characterId := by simpa using List.find?_some hfind
    change c.characterId = r.characterId at hkey
    -- The row that is charged is this one.
    have hrow := hget c hc
    rw [hkey, Table.get?_of_mem hr] at hrow
    obtain rfl := Option.some.inj hrow
    rfl

theorem one_payer {s : Sale} {db : Database} (hone : OneCharacterEach db) (hok : s.Ok db) : s.taken = s.total := by
  have hsame : ∀ c ∈ s.charged, ∀ c' ∈ s.charged, c = c' := by
    intro c hc c' hc'
    obtain ⟨hget, haccount, -⟩ := hok.payers c hc
    obtain ⟨hget', haccount', -⟩ := hok.payers c' hc'
    exact List.inj_on_of_nodup_map hone (Table.get?_eq_some.mp hget).1 (Table.get?_eq_some.mp hget').1
      (haccount.trans haccount'.symm)
  have hdistinct := hok.distinct.of_map
  have hlength : s.charged.length = 1 := by
    match hcs : s.charged with
    | [] => exact absurd hcs hok.paid
    | [c] => rfl
    | c :: c' :: cs =>
      rw [hcs] at hsame hdistinct
      obtain rfl := hsame c (by simp) c' (by simp)
      simp at hdistinct
  rw [Sale.taken, hlength]
  ring

theorem wealth_invariant (total : Int) : Invariant (fun _ => True) fun m =>
    OneCharacterEach m.db ∧ goldHeld m.db + credited m.db = total := by
  rintro m d ⟨hone, htotal⟩ - hok
  refine ⟨?_, ?_⟩
  · cases d with
    | regist row => simpa [OneCharacterEach, Market.write, Deal.writes, Write.apply] using hone
    | sale s =>
      rw [OneCharacterEach, Market.write, Deal.writes, writeAll_sale]
      simp only
      rw [accounts_charged _ hok.distinct fun c hc => (hok.payers c hc).1]
      exact hone
  · rw [gold_write hok, credited_write]
    cases d with
    | regist row => simpa [Deal.sale?] using htotal
    | sale s =>
      simp only [Deal.sale?, Option.toList_some, List.map_cons, List.map_nil, List.sum_cons, List.sum_nil]
      rw [one_payer hone hok]
      omega

/-- While every account has one character, no gold is made or lost, whatever the workers do: what the
characters have and what sellers are promised stays the same. -/
theorem gold_kept {law : Call auctionDb → Harm → Bool} (hlaw : law .rollback .refused = false)
    {db : Database} {now next : Int} (hone : OneCharacterEach db) {es : List (PoolEvent Task)}
    {q : Pool auctionDb Task (Option Response)}
    (hrun : run (Pool.step law Task.process) (Pool.fresh (idle db now next)) es = some q) :
    goldHeld q.server.db + credited q.server.db = goldHeld db + credited db := by
  have hadmits : ∀ i task, PoolEvent.start i task ∈ es → Admits (fun _ => True) next task := by
    rintro i (pkt | pkt | ⟨pkt, h⟩ | ⟨pkt, h⟩) -
    · trivial
    · trivial
    · exact fun _ _ _ => trivial
    · exact fun _ _ => trivial
  have hstart : OneCharacterEach (market (idle db now next)).db ∧
      goldHeld (market (idle db now next)).db + credited (market (idle db now next)).db =
        goldHeld db + credited db := ⟨hone, rfl⟩
  exact (worker_run (wealth_invariant (goldHeld db + credited db)) hlaw
    (kept_fresh (idle_wf db now next) hstart fun _ => rfl) hadmits hrun).1.inv.2.2

theorem gold_kept_sample : ∃ q,
    run (Pool.step mysqlLaw Task.process) (Pool.fresh (idle emptyMarket 0 1)) sampleEvents = some q ∧
    credited q.server.db = 20 ∧ goldHeld q.server.db + 20 = 100 := by
  have hrun : (run (Pool.step mysqlLaw Task.process) (Pool.fresh (idle emptyMarket 0 1)) sampleEvents).map
      (fun q => credited q.server.db) = some 20 := by decide
  obtain ⟨q, hq, hcredited⟩ := Option.map_eq_some_iff.mp hrun
  refine ⟨q, hq, hcredited, ?_⟩
  have hkept := gold_kept rfl (by simp [OneCharacterEach, emptyMarket, sampleDb, sampleSeller, sampleBuyer]) hq
  rw [hcredited] at hkept
  rw [hkept]
  decide

end Auction
