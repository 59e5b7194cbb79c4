import J1Server.Auction.Answers
import J1Server.Auction.Ledger
import J1Server.Lib.Books

/-! # The books are the answers

A buyer who is told of a purchase finds it in the books, and nothing else is in
them: once no worker runs a task, the new transactions and receipts are those of
the purchases that were answered with success, one for each. -/

namespace Auction

open Lib Lib.Server Core

variable {law : Call auctionDb → Harm → Bool} {i : Nat}

/-- Entries that only register listings. -/
abbrev Registrations (es : List (Entry auctionDb)) : Prop := Leftover (fun _ => True) es

/-- What a task commits: registrations, and the sale that its answer speaks of. -/
def Settled (task : Task) (r : Option Response) (part : List (Entry auctionDb)) : Prop :=
  match bought task r with
  | none => Registrations part
  | some (info, gold) => ∃ (pre : List (Entry auctionDb)) (sale : Sale), Registrations pre ∧ sale.info = info ∧
      sale.total = gold ∧ part.map Entry.write = pre.map Entry.write ++ sale.writes

/-! ## One task -/

/-- A call that writes registrations only, if anything. -/
abbrev Registers (c : Call auctionDb) : Prop := Records (fun w => ∃ row, w = Write.insertListing row ∧ True) c

theorem onlyLogged_registers {task : Task} (h : task.onlyLogged = true) : task.process.Calls Registers := by
  have finish : Registers .finish := by rintro st ⟨⟩
  have statement : ∀ {st : Stmt} {respond : st.Reply → Response},
      (∀ now next db, ∀ w ∈ (st.effect now next db).writes, ∃ row, w = Write.insertListing row ∧ True) →
      (oneStatement st respond).Calls Registers := by
    intro st respond hst
    refine ⟨?_, fun o => ?_⟩
    · rintro _ ⟨⟩
      exact hst
    · cases o with
      | error e => trivial
      | ok reply => exact ⟨finish, fun o' => by cases o' <;> trivial⟩
  cases task with
  | auctionList pkt =>
    have heq : (Task.auctionList pkt).process = oneStatement _ _ := caught_eq _ _ _
    rw [heq]
    exact statement fun now next db w hw => by cases hw
  | receiptList pkt =>
    have heq : (Task.receiptList pkt).process = oneStatement _ _ := caught_eq _ _ _
    rw [heq]
    exact statement fun now next db w hw => by cases hw
  | registItem pkt nonempty =>
    have heq : (Task.registItem pkt nonempty).process = oneStatement _ _ := caught_eq _ _ _
    rw [heq]
    exact statement fun now next db w hw => ⟨_, List.mem_singleton.mp hw, trivial⟩
  | purchaseItem pkt h => cases h

theorem settled_bookkeeping (hrollback : law .rollback .refused = false) (hcommit : law .commit .replyLost = false) :
    Bookkeeping law Task.process (fun _ _ _ => True) (fun i s => Registrations (s.conns i).pending) Settled where
  lawful := auctionDb_lawful
  idle i s s' h hr := by
    rw [hr.conn]
    exact h
  spec i task s hw hidle _ := by
    have hw' := hw.beginTask i
    have hidle' : Registrations ((s.beginTask i).conns i).pending := by simpa using hidle
    have plain : task.onlyLogged = true → Safe (Rely i) (Step law i) (fun _ _ => True) task.process
        (fun _ r s' => Registrations (s'.conns i).pending ∧ ∃ part, Committed i part s s' ∧ Settled task r part)
        (s.beginTask i) := by
      intro honly
      refine (plain_safe auctionDb_lawful (onlyLogged_registers honly) hw' hidle').mono ?_
      rintro tr r s' ⟨-, hpending, part, hcommitted, hpart⟩
      refine ⟨hpending, part, by simpa using (committed_beginTask s i).trans hcommitted, ?_⟩
      cases task with
      | purchaseItem pkt h => cases honly
      | auctionList pkt => exact hpart
      | receiptList pkt => exact hpart
      | registItem pkt h => exact hpart
    cases task with
    | auctionList pkt => exact plain rfl
    | receiptList pkt => exact plain rfl
    | registItem pkt h => exact plain rfl
    | purchaseItem pkt h =>
      have hu : Undone law i Registrations (Committed i []) (fun _ _ => True) := ⟨leftover_nil, Or.inl hrollback⟩
      refine Safe.bind ((purchaseFrom_safe (surroundings_rely i) hu (fun _ _ _ _ _ _ => mayCommit_of_law hcommit)
        kMaxTxAttempts 1 rfl ⟨Committed.refl i _, hw', rfl⟩ hidle').mono ?_) (Rely.refl i)
      rintro tr ⟨success, total⟩ s₁ ⟨-, -, -, hpending, hr⟩ s₂ hrely
      refine ⟨by rw [hrely.conn]; exact hpending, ?_⟩
      have hstart := committed_beginTask s i
      cases success with
      | false =>
        have hnone : Settled (.purchaseItem pkt h) (some (.purchaseItem false pkt.sessionId total)) [] := by
          simp [Settled, bought, leftover_nil]
        refine ⟨[], ?_, hnone⟩
        simpa using (hstart.trans hr.2).trans hrely.committed
      | true =>
        obtain ⟨-, -, pre, sale, s₃, hpre, hi, ht, hsold, hd⟩ := hr
        have hpub := committed_publish hsold.inTx.wf i
        rw [hsold.inTx.conn] at hpub
        refine ⟨pre ++ sale.writes.map (Entry.mk i ((s.beginTask i).conns i).task), ?_, ?_⟩
        · simpa using ((hstart.trans hsold.during).trans hpub).trans (hd.trans hrely.committed)
        · refine ⟨pre, sale, hpre, hi, ht.symm, ?_⟩
          rw [List.map_append, map_write_mk]

/-! ## What was entered -/

theorem settled_flatMap {γ : Type} {f : Write → List γ} {g : AuctionItemInfo × Int → γ}
    (hregist : ∀ row, f (.insertListing row) = [])
    (hsale : ∀ sale : Sale, sale.writes.flatMap f = [g (sale.info, sale.total)])
    {task : Task} {r : Option Response} {part : List (Entry auctionDb)} (h : Settled task r part) :
    part.flatMap (fun e => f e.write) = (bought task r).toList.map g := by
  have hnone : ∀ {es}, Registrations es → (es.map Entry.write).flatMap f = [] := by
    intro es hes
    rw [List.flatMap_eq_nil_iff]
    intro w hw
    obtain ⟨e, he, rfl⟩ := List.mem_map.mp hw
    obtain ⟨row, hrow, -⟩ := hes e he
    rw [hrow, hregist]
  rw [← List.flatMap_map]
  unfold Settled at h
  split at h
  · rename_i hb
    rw [hnone h, hb]
    rfl
  · rename_i info gold hb
    obtain ⟨pre, sale, hpre, rfl, rfl, hpart⟩ := h
    rw [hpart, List.flatMap_append, hnone hpre, hsale, hb]
    rfl

def Write.transaction? : Write → Option Transaction
  | .insertTransaction t => some t
  | _ => none

def Write.receipt? : Write → Option Receipt
  | .insertReceipt r => some r
  | _ => none

theorem transactions_writeAll (ws : List Write) (db : Database) :
    (writeAll ws db).auctionTransactions = db.auctionTransactions ++ ws.filterMap Write.transaction? := by
  induction ws generalizing db with
  | nil => simp
  | cons w ws ih =>
    rw [writeAll_cons, ih]
    cases w <;> simp [Write.apply, Write.transaction?, List.filterMap_cons]

theorem receipts_writeAll (ws : List Write) (db : Database) :
    (writeAll ws db).auctionReceipts = db.auctionReceipts ++ ws.filterMap Write.receipt? := by
  induction ws generalizing db with
  | nil => simp
  | cons w ws ih =>
    rw [writeAll_cons, ih]
    cases w <;> simp [Write.apply, Write.receipt?, List.filterMap_cons]

/-! ## Every run -/

/-- The purchases that were answered with success. -/
def answers (q : Pool auctionDb Task (Option Response)) : List (AuctionItemInfo × Int) :=
  q.finished.filterMap fun x => bought x.task x.result

def Quiescent (q : Pool auctionDb Task (Option Response)) : Prop := ∀ i, q.jobs i = none

/-- From `db` on, the history has each of the sales, valid where it was made, and the new rows of the books
are one transaction, one buyer's and one seller's receipt for each of them. -/
structure BooksMatch (db : Database) (history : List (Entry auctionDb)) (db' : Database) (sold : List Sale) :
    Prop where
  valid : ∀ s ∈ sold, ∃ i n, MadeIn db i n history s
  transactions : ∃ rows, db'.auctionTransactions = db.auctionTransactions ++ rows ∧
    rows.Perm (sold.map Sale.transaction)
  receipts : ∃ rows, db'.auctionReceipts = db.auctionReceipts ++ rows ∧
    rows.Perm (sold.flatMap fun s => [s.buyerReceipt, s.sellerReceipt])

/-- What the history holds of a kind of row is one row for each answer. -/
theorem history_perm (hrollback : law .rollback .refused = false) (hcommit : law .commit .replyLost = false)
    {db : Database} {now next : Int} {es : List (PoolEvent Task)} {q : Pool auctionDb Task (Option Response)}
    (hrun : run (Pool.step law Task.process) (Pool.fresh (idle db now next)) es = some q) (hquiet : Quiescent q)
    {γ : Type} {f : Write → List γ} {g : AuctionItemInfo × Int → γ} (hregist : ∀ row, f (.insertListing row) = [])
    (hsale : ∀ sale : Sale, sale.writes.flatMap f = [g (sale.info, sale.total)]) :
    ((market q.server).history.flatMap f).Perm ((answers q).map g) := by
  have hb := settled_bookkeeping hrollback hcommit
  have hkeys : ∀ i, ((q.server.history.filter fun e => e.conn = i).flatMap fun e => f e.write) =
      (q.finished.filter fun x => x.conn = i).flatMap fun x => (bought x.task x.result).toList.map g := by
    intro i
    have hbooked := @booked_run _ _ _ _ _ _ _ _ _ hb (fun _ => True) (fun _ _ _ _ _ => trivial)
      (fun _ _ _ _ _ => trivial) _ (idle_wf db now next) (fun _ => leftover_nil) rfl trivial _ hrun _ (hquiet i)
    exact hbooked.related rfl (fun _ _ _ _ h h' => by rw [h, h']) fun _ _ _ hpart => settled_flatMap hregist hsale hpart
  have hperm : (q.server.history.flatMap fun e => f e.write).Perm
      (q.finished.flatMap fun x => (bought x.task x.result).toList.map g) :=
    perm_of_keys fun i => List.Perm.of_eq (hkeys i)
  rw [market, List.flatMap_map]
  refine hperm.trans (List.Perm.of_eq ?_)
  rw [answers, List.map_filterMap, List.filterMap_eq_flatMap_toList]
  congr 1
  funext x
  cases bought x.task x.result <;> rfl

theorem map_filterMap_eq {γ : Type} {h : Write → Option Receipt} {c : Receipt → Bool} {proj : Receipt → γ}
    (ws : List Write) : ((ws.filterMap h).filter c).map proj = ws.flatMap fun w => ((h w).toList.filter c).map proj := by
  induction ws with
  | nil => rfl
  | cons w ws ih =>
    rw [List.filterMap_cons, List.flatMap_cons, ← ih]
    cases h w with
    | none => rfl
    | some r => by_cases hc : c r = true <;> simp [hc]

theorem sale_transactions (s : Sale) : s.writes.filterMap Write.transaction? = [s.transaction] := by
  simp only [Sale.writes, Sale.payments, Sale.stock]
  split <;> simp [Write.transaction?, List.filterMap_cons, List.filterMap_map, Function.comp_def]

theorem sale_receipts (s : Sale) : s.writes.filterMap Write.receipt? = [s.buyerReceipt, s.sellerReceipt] := by
  simp only [Sale.writes, Sale.payments, Sale.stock]
  split <;> simp [Write.receipt?, List.filterMap_cons, List.filterMap_map, Function.comp_def]

/-- What was committed, as one list of writes. -/
theorem db_eq_writeAll {db : Database} {now next : Int} {es : List (PoolEvent Task)}
    {q : Pool auctionDb Task (Option Response)}
    (hrun : run (Pool.step law Task.process) (Pool.fresh (idle db now next)) es = some q) :
    q.server.db = writeAll (market q.server).history db := by
  have hgrows : Grows (idle db now next) q.server :=
    run_related (R := fun a b : Pool auctionDb Task (Option Response) => Grows a.server b.server)
      (fun _ => Grows.refl _) (fun _ _ _ h h' => h.trans h') (fun _ _ _ h => step_grows h) hrun
  obtain ⟨made, hhistory, hmade⟩ := hgrows
  rw [hmade, applyAll_eq, market, hhistory]
  rfl

theorem transactions_booked (hrollback : law .rollback .refused = false) (hcommit : law .commit .replyLost = false)
    {db : Database} {now next : Int} {es : List (PoolEvent Task)} {q : Pool auctionDb Task (Option Response)}
    (hrun : run (Pool.step law Task.process) (Pool.fresh (idle db now next)) es = some q) (hquiet : Quiescent q) :
    ∃ rows, q.server.db.auctionTransactions = db.auctionTransactions ++ rows ∧
      (rows.map fun t => (t.quantity, t.totalPrice)).Perm ((answers q).map fun a => (a.1.count, a.2)) := by
  refine ⟨_, by rw [db_eq_writeAll hrun, transactions_writeAll], ?_⟩
  rw [List.map_filterMap, List.filterMap_eq_flatMap_toList]
  refine history_perm hrollback hcommit hrun hquiet (fun _ => rfl) fun sale => ?_
  rw [← List.filterMap_eq_flatMap_toList, ← List.map_filterMap, sale_transactions]
  rfl

theorem receipts_booked (hrollback : law .rollback .refused = false) (hcommit : law .commit .replyLost = false)
    {db : Database} {now next : Int} {es : List (PoolEvent Task)} {q : Pool auctionDb Task (Option Response)}
    (hrun : run (Pool.step law Task.process) (Pool.fresh (idle db now next)) es = some q) (hquiet : Quiescent q) :
    ∃ rows, q.server.db.auctionReceipts = db.auctionReceipts ++ rows ∧
      ((rows.filter fun r => r.receiptType = 3).map fun r => (r.ownerPlayerId, r.sourceListingId, r.quantity)).Perm
        ((answers q).map fun a => (a.1.playerId, a.1.listId, some a.1.count)) ∧
      ((rows.filter fun r => r.receiptType ≠ 3).map fun r => (r.receiptType, r.sourceListingId, r.goldAmount)).Perm
        ((answers q).map fun a => (1, a.1.listId, some a.2)) := by
  refine ⟨_, by rw [db_eq_writeAll hrun, receipts_writeAll], ?_, ?_⟩
  all_goals
    rw [map_filterMap_eq]
    refine history_perm hrollback hcommit hrun hquiet (fun _ => rfl) fun sale => ?_
    rw [← map_filterMap_eq, sale_receipts]
    rfl

/-! ## The sales of the answers -/

/-- What is answered with success was sold as it says, whatever mode the registrations find. -/
theorem sold_contract (law : Call auctionDb → Harm → Bool) (db : Database) :
    Contract law Task.process (fun _ _ _ => True) (Replayed db) Grows (fun _ _ => True)
      (fun i n task r s => ∀ info gold, bought task r = some (info, gold) → SoldAs db i n info gold s) where
  lawful := auctionDb_lawful
  refl := Grows.refl
  trans _ _ _ h h' := h.trans h'
  tick := (durability_contract law db).tick
  begin_task := (durability_contract law db).begin_task
  inv _ _ h hg := h.grows hg
  idle _ _ _ _ _ := trivial
  done _ _ _ _ _ _ h hg _ info gold hb := (h info gold hb).grows hg
  spec i task s hw hreplayed _ _ := by
    cases task with
    | auctionList pkt => exact (task_grows _).mono fun _ _ _ _ => ⟨trivial, by rintro info gold ⟨⟩⟩
    | receiptList pkt => exact (task_grows _).mono fun _ _ _ _ => ⟨trivial, by rintro info gold ⟨⟩⟩
    | registItem pkt h => exact (task_grows _).mono fun _ _ _ _ => ⟨trivial, by rintro info gold ⟨⟩⟩
    | purchaseItem pkt h =>
      refine (purchaseItem_durable pkt h hw hreplayed).mono ?_
      rintro tr r s' hd
      refine ⟨trivial, fun info gold hb => ?_⟩
      unfold bought at hb
      split at hb
      · rename_i heq
        cases heq
        obtain ⟨rfl, rfl⟩ := Prod.mk.inj (Option.some.inj hb)
        exact hd.2
      · cases hb

/-- Every answer has a sale of its own in the history. -/
theorem sales_found {db : Database} {now next : Int} {es : List (PoolEvent Task)}
    {q : Pool auctionDb Task (Option Response)}
    (hrun : run (Pool.step law Task.process) (Pool.fresh (idle db now next)) es = some q) :
    Pool.Numbered q ∧ ∃ saleOf : Finished Task (Option Response) → Option Sale, ∀ x ∈ q.finished,
      (saleOf x).map (fun s => (s.info, s.total)) = bought x.task x.result ∧
      ∀ s ∈ saleOf x, MadeIn db x.conn x.no q.server.history s := by
  have hstart : Replayed db (idle db now next) := rfl
  have hup := (contract_run (sold_contract law db) (upheld_fresh (idle_wf db now next) hstart fun _ => trivial)
    (along_of_forall _ fun _ _ _ _ _ _ => trivial) hrun).1
  refine ⟨hup.numbered, ?_⟩
  have hfound : ∀ x : Finished Task (Option Response), ∃ sale : Option Sale, x ∈ q.finished →
      sale.map (fun s => (s.info, s.total)) = bought x.task x.result ∧
      ∀ s ∈ sale, MadeIn db x.conn x.no q.server.history s := by
    intro x
    by_cases hx : x ∈ q.finished
    · cases hb : bought x.task x.result with
      | none => exact ⟨none, fun _ => ⟨rfl, by simp⟩⟩
      | some answer =>
        obtain ⟨sale, hi, ht, hmade⟩ := hup.done x hx answer.1 answer.2 hb
        refine ⟨some sale, fun _ => ⟨by rw [Option.map_some, hi, ht], ?_⟩⟩
        rintro s ⟨⟩
        exact hmade
    · exact ⟨none, fun h => absurd h hx⟩
  choose saleOf hsaleOf using hfound
  exact ⟨saleOf, hsaleOf⟩

/-- What is entered for the sales of the answers was entered, once for each. -/
theorem sold_subperm {γ : Type} {f : Write → Option γ} {db : Database} {q : Pool auctionDb Task (Option Response)}
    {saleOf : Finished Task (Option Response) → Option Sale} (hnumbered : Pool.Numbered q)
    (hmade : ∀ x ∈ q.finished, ∀ s ∈ saleOf x, MadeIn db x.conn x.no q.server.history s) :
    ((q.finished.filterMap saleOf).flatMap fun s => s.writes.filterMap f).Subperm
      ((market q.server).history.filterMap f) := by
  -- Each sale is in the history in one piece, under the number of its task.
  have hpieces : ∀ x ∈ q.finished, ((saleOf x).toList.flatMap Sale.writes).map (Entry.mk x.conn x.no) <:+:
      q.server.history := by
    intro x hx
    cases hs : saleOf x with
    | none => exact List.nil_infix
    | some s =>
      obtain ⟨before, after, hhistory, -⟩ := hmade x hx s hs
      exact ⟨before, after, by simpa using hhistory.symm⟩
  have hsubperm := numbered_subperm (f := fun w => (f w).toList) hnumbered hpieces
  rw [market, List.filterMap_map, List.filterMap_eq_flatMap_toList, List.filterMap_eq_flatMap_toList,
    List.flatMap_assoc]
  simpa only [List.flatMap_assoc, List.filterMap_eq_flatMap_toList, Function.comp_def] using hsubperm

/-- Any requests, on any number of connections, interleaved in any way; every call may fail in every way
that MySQL documents. Once no task runs, the new rows of the books are those of the sales that were answered
with success, one sale for each answer: none is missing, none is there twice, and nothing was sold without an
answer. -/
theorem answers_are_booked (hrollback : law .rollback .refused = false) (hcommit : law .commit .replyLost = false)
    {db : Database} {now next : Int} {es : List (PoolEvent Task)} {q : Pool auctionDb Task (Option Response)}
    (hrun : run (Pool.step law Task.process) (Pool.fresh (idle db now next)) es = some q) (hquiet : Quiescent q) :
    ∃ sold : List Sale, (sold.map fun s => (s.info, s.total)) = answers q ∧
      BooksMatch db q.server.history q.server.db sold := by
  obtain ⟨hnumbered, saleOf, hsaleOf⟩ := sales_found hrun
  have hanswers : ((q.finished.filterMap saleOf).map fun s => (s.info, s.total)) = answers q := by
    rw [List.map_filterMap]
    exact List.filterMap_congr fun x hx => (hsaleOf x hx).1
  have hmade := fun x hx => (hsaleOf x hx).2
  have hlength : (answers q).length = (q.finished.filterMap saleOf).length := by
    rw [← hanswers, List.length_map]
  have hdb := db_eq_writeAll hrun
  refine ⟨q.finished.filterMap saleOf, hanswers, fun s hs => ?_, ?_, ?_⟩
  · obtain ⟨x, hx, hs⟩ := List.mem_filterMap.mp hs
    exact ⟨x.conn, x.no, hmade x hx s hs⟩
  · obtain ⟨rows, hrows, hperm⟩ := transactions_booked hrollback hcommit hrun hquiet
    have hentered : rows = (market q.server).history.filterMap Write.transaction? := by
      rw [hdb, transactions_writeAll] at hrows
      exact (List.append_cancel_left hrows).symm
    have hsold := sold_subperm (f := Write.transaction?) hnumbered hmade
    simp only [sale_transactions, ← hentered, ← List.map_eq_flatMap] at hsold
    refine ⟨rows, hrows, (hsold.perm_of_length_le ?_).symm⟩
    have hcount := hperm.length_eq
    simp only [List.length_map] at hcount ⊢
    omega
  · obtain ⟨rows, hrows, hbuyers, hsellers⟩ := receipts_booked hrollback hcommit hrun hquiet
    have hentered : rows = (market q.server).history.filterMap Write.receipt? := by
      rw [hdb, receipts_writeAll] at hrows
      exact (List.append_cancel_left hrows).symm
    have hsold := sold_subperm (f := Write.receipt?) hnumbered hmade
    simp only [sale_receipts, ← hentered] at hsold
    refine ⟨rows, hrows, (hsold.perm_of_length_le ?_).symm⟩
    -- Half of the rows are buyers' receipts, and half are not.
    have hhalves := List.length_eq_length_filter_add (l := rows) fun r => decide (r.receiptType = 3)
    have hbuyers' := hbuyers.length_eq
    have hsellers' := hsellers.length_eq
    simp only [List.length_map, ne_eq, decide_not] at hbuyers' hsellers'
    have htwo : ((q.finished.filterMap saleOf).flatMap fun s => [s.buyerReceipt, s.sellerReceipt]).length =
        2 * (q.finished.filterMap saleOf).length := by
      simp [List.length_flatMap, Nat.mul_comm]
    omega

/-- The two buyers of the sample run: one is answered with success, and the books hold one sale, to this buyer,
of the item and the seller of the listing. -/
theorem answers_are_booked_sample : ∃ q sale,
    run (Pool.step mysqlLaw Task.process) (Pool.fresh (idle emptyMarket 0 1)) sampleEvents = some q ∧
    BooksMatch emptyMarket q.server.history q.server.db [sale] ∧ sale.transaction = ⟨5, 2, 20⟩ ∧
    sale.buyerReceipt.ownerPlayerId = 8 ∧ sale.sellerReceipt.ownerPlayerId = 7 := by
  have hrun : (run (Pool.step mysqlLaw Task.process) (Pool.fresh (idle emptyMarket 0 1)) sampleEvents).map
      (fun q => (answers q, (List.range 3).map (fun i => (q.jobs i).isNone), q.server.db.auctionTransactions,
        q.server.db.auctionReceipts.map Receipt.ownerPlayerId)) =
      some ([(⟨1, 8, 0, 0, 2, 0, ""⟩, 20)], [true, true, true], [⟨5, 2, 20⟩], [8, 7]) := by decide
  obtain ⟨q, hq, hres⟩ := Option.map_eq_some_iff.mp hrun
  simp only [Prod.mk.injEq] at hres
  obtain ⟨hanswers, hjobs, htransactions, howners⟩ := hres
  have hquiet : Quiescent q := by
    intro i
    by_cases hi : i < 3
    · have hnone : (q.jobs i).isNone = true := by
        have hmem : (q.jobs i).isNone ∈ (List.range 3).map fun i => (q.jobs i).isNone :=
          List.mem_map_of_mem (List.mem_range.mpr hi)
        rw [hjobs] at hmem
        simpa using hmem
      exact Option.isNone_iff_eq_none.mp hnone
    · -- Worker `i` was never given a task.
      have hne : ∀ k, k < 3 → ¬k = i := by
        rintro k hk rfl
        exact hi hk
      exact unstarted hq (by simp [Pool.startsOn, sampleEvents, hne 0, hne 1, hne 2])
  obtain ⟨sold, hsold, hbooks⟩ := answers_are_booked rfl rfl hq hquiet
  rw [hanswers] at hsold
  obtain ⟨sale, rfl, hsale⟩ := List.map_eq_singleton_iff.mp hsold
  obtain ⟨rows, hrows, hentered⟩ := hbooks.transactions
  obtain ⟨rows', hrows', hreceipts⟩ := hbooks.receipts
  rw [htransactions] at hrows
  obtain rfl : [⟨5, 2, 20⟩] = rows := hrows
  rw [hrows'] at howners
  have howners' := hreceipts.map Receipt.ownerPlayerId
  rw [show rows'.map Receipt.ownerPlayerId = [8, 7] from howners] at howners'
  have hbuyer : sale.buyerReceipt.ownerPlayerId = 8 := congrArg (fun a => a.1.playerId) hsale
  refine ⟨q, sale, hq, hbooks, (List.singleton_perm_singleton.mp hentered).symm, hbuyer, ?_⟩
  simp only [List.flatMap_singleton, List.map_cons, List.map_nil, hbuyer, List.perm_cons,
    List.singleton_perm_singleton] at howners'
  exact howners'.symm

end Auction
