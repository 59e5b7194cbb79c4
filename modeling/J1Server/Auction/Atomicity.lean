import J1Server.Auction.Purchase

/-! # A purchase is all or nothing

Whatever fails and whatever other connections commit in between: `Purchase`
commits one sale and says so, or commits nothing and says so. -/

namespace Auction

open Lib Lib.Server Core

variable {law : Call auctionDb → Harm → Bool} {i : Nat}

theorem surroundings_rely (i : Nat) :
    Surroundings (D := auctionDb) i (Rely i) (Committed i []) (fun _ _ => True) where
  lawful := auctionDb_lawful
  rely _ _ h := h
  refl := Rely.refl i
  trans _ _ _ h h' := h.trans h'
  during _ _ h := h.committed
  during_trans _ _ _ h h' := by simpa using h.trans h'
  quiet _ _ h := h.committed
  guar _ _ _ := trivial

/-- Where a `COMMIT` that throws did not commit, every commit may happen. -/
theorem mayCommit_of_law {During : Server auctionDb → Server auctionDb → Prop} {s : Server auctionDb}
    (hcommit : law .commit .replyLost = false) : MayCommit law i During (fun _ _ => True) s :=
  ⟨trivial, trivial, fun hl => by rw [hcommit] at hl; cases hl⟩

/-- Task `n` of `i`, which began at `s₀`, is about to commit `sale` on top of `pre`. The sale is valid where it
is committed, and it charges everybody who could pay when gold was taken. -/
structure Closing (i n : Nat) (pre : List (Entry auctionDb)) (s₀ : Server auctionDb) (sale : Sale)
    (s : Server auctionDb) : Prop where
  since : Committed i [] s₀ s
  pending : (s.conns i).pending = pre ++ sale.writes.map (Entry.mk i n)
  ok : sale.Ok (applyAll pre s.db)
  charged : ∃ s₁, Committed i [] s₀ s₁ ∧
    sale.charged = payers (applyAll pre s₁.db) sale.total sale.info.playerId

theorem Sold.closing {n : Nat} {pre : List (Entry auctionDb)} {s₀ s : Server auctionDb} {sale : Sale}
    (h : Sold i n pre (Committed i []) s₀ sale s) : Closing i n pre s₀ sale s where
  since := h.during
  pending := by rw [h.inTx.conn]
  ok := h.ok
  charged := h.charged

/-- What `Purchase` leaves behind: at most `kMaxTxAttempts` transactions were opened, and one was
committed exactly when it says so: a valid sale at the total that is answered, whose writes are all that the
purchase has committed. Writes that earlier tasks left pending may be committed with it. -/
theorem purchase_all_or_nothing {info : AuctionItemInfo} {s t : Server auctionDb}
    {tr : List (Answered (Sql auctionDb))} {result : PurchaseResult} (hw : s.WF)
    (hrollback : law .rollback .refused = false) (hcommit : law .commit .replyLost = false)
    (h : Exec (Rely i) (Step law i) (purchase info) s tr result t) :
    begins tr ≤ kMaxTxAttempts ∧ (result.success = true ↔ commits tr = 1) ∧
    (result.success = true → ∃ (pre : List (Entry auctionDb)) (sale : Sale) (s₁ : Server auctionDb),
      (pre = (s.conns i).pending ∨ pre = []) ∧ sale.info = info ∧ result.totalPrice = sale.total ∧
      Closing i (s.conns i).task pre s sale s₁ ∧ Committed i [] (s₁.publish i) t ∧
      Committed i (pre ++ sale.writes.map (Entry.mk i (s.conns i).task)) s t) ∧
    (result.success = false → commits tr = 0 ∧ Committed i [] s t) := by
  have hS := surroundings_rely i
  have hu : Undone law i (fun pre => pre = (s.conns i).pending ∨ pre = []) (Committed i [])
      (fun _ _ => True) := ⟨Or.inr rfl, Or.inl hrollback⟩
  have safe : Safe (Rely i) (Step law i) (fun _ _ => True) (purchase info)
      (Completed i (s.conns i).task (fun pre => pre = (s.conns i).pending ∨ pre = [])
        (Committed i []) s info kMaxTxAttempts) s :=
    purchaseFrom_safe hS hu (fun _ _ _ _ _ _ => mayCommit_of_law hcommit) kMaxTxAttempts 1 rfl
      ⟨Committed.refl i s, hw, rfl⟩ (Or.inl rfl)
  obtain ⟨hb, -, -, -, hr⟩ := safe.exec h
  cases hsucc : result.success with
  | true =>
    rw [hsucc] at hr
    obtain ⟨hc, -, pre, sale, s₁, hpre, hi, ht, sold, hd⟩ := hr
    refine ⟨hb, by simp [hc], fun _ => ⟨pre, sale, s₁, hpre, hi, ht, sold.closing, hd, ?_⟩, by simp⟩
    have hpub := committed_publish sold.inTx.wf i
    rw [sold.inTx.conn] at hpub
    simpa using (sold.during.trans hpub).trans hd
  | false =>
    rw [hsucc] at hr
    obtain ⟨hc, hd⟩ := hr
    exact ⟨hb, by simp [hc], by simp, fun _ => ⟨hc, hd⟩⟩

/-! ## A purchase that is retried -/

def sampleSeller : CharacterBase := ⟨1, 7, 0, "seller", 0, 1, 0⟩
def sampleBuyer : CharacterBase := ⟨2, 8, 0, "buyer", 0, 1, 100⟩

def sampleDb : Database where
  characterBase := ⟨[sampleSeller, sampleBuyer], by decide⟩
  auctionListings := ⟨[⟨1, 7, 5, 3, 10, 1000⟩], by decide⟩
  auctionTransactions := []
  auctionReceipts := []

def sampleInfo : AuctionItemInfo := ⟨1, 8, 0, 0, 2, 0, ""⟩

/-- Anything can fail, in any way that MySQL documents. -/
def mysqlLaw (c : Call auctionDb) (h : Harm) : Bool :=
  match c, h with
  | .rollback, .refused => false
  | .commit, .replyLost => false
  | _, _ => true

/-- The gold update of the first attempt runs into a lock timeout. -/
def lockTimeout : List (Option Fault) :=
  [none, none, none, some ⟨.refused, ⟨kErrLockWaitTimeout, "Lock wait timeout exceeded"⟩⟩] ++
    List.replicate 15 none

theorem purchase_all_or_nothing_retried : ∃ tr result t,
    Exec (Rely 0) (Step mysqlLaw 0) (purchase sampleInfo) (idle sampleDb 0 2) tr result t ∧
    begins tr = 2 ∧ commits tr = 1 ∧ result.totalPrice = 20 ∧
    ∃ (pre : List (Entry auctionDb)) (sale : Sale) (s₁ : Server auctionDb), sale.info = sampleInfo ∧
      Closing 0 0 pre (idle sampleDb 0 2) sale s₁ ∧
      Committed 0 (pre ++ sale.writes.map (Entry.mk 0 0)) (idle sampleDb 0 2) t := by
  have hrun : (runAlone mysqlLaw 0 (purchase sampleInfo) lockTimeout (idle sampleDb 0 2)).map
      (fun x => (begins x.1, x.2.1)) = some (2, ⟨true, 20⟩) := by decide
  obtain ⟨⟨tr, result, t⟩, hx, hres⟩ := Option.map_eq_some_iff.mp hrun
  simp only [Prod.mk.injEq] at hres
  have hexec := runAlone_exec (Rely.refl 0) hx
  obtain ⟨-, hiff, hsucc, -⟩ := purchase_all_or_nothing (idle_wf sampleDb 0 2) rfl rfl hexec
  have htrue : result.success = true := by rw [hres.2]
  obtain ⟨pre, sale, s₁, -, hi, -, hclosing, -, hc⟩ := hsucc htrue
  exact ⟨tr, result, t, hexec, hres.1, hiff.mp htrue, by rw [hres.2], pre, sale, s₁, hi, hclosing, hc⟩

end Auction
