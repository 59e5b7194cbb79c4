import J1Server.Auction.Market

/-! # One attempt of a purchase

`TryPurchase`, statement by statement, while other connections work: it ends
with the writes of one valid sale committed together, or it throws. -/

namespace Auction

open Lib Lib.Server Core

/-- How far a purchase has come: it has written `ws`, and holds every row that the sale is about. -/
structure Progress (i n : Nat) (pre : List (Entry auctionDb))
    (During : Server auctionDb → Server auctionDb → Prop) (s₀ : Server auctionDb) (sale : Sale)
    (ws : List Write) (s : Server auctionDb) : Prop where
  inTx : InTx i n pre ws s
  during : During s₀ s
  count : 0 < sale.info.count
  notOwn : toInt64 sale.row.sellerId ≠ sale.info.playerId
  listing : Held i pre (.listing sale.info.listId) (.listing (some sale.row)) s
  found : ∃ s₁, During s₀ s₁ ∧ s₁.now < sale.row.expiredAt ∧
    (applyAll pre s₁.db).auctionListings.get? sale.info.listId = some sale.row
  payers : ∀ c ∈ sale.charged, Held i pre (.character c.characterId) (.character (some c)) s

structure Paid (i n : Nat) (pre : List (Entry auctionDb))
    (During : Server auctionDb → Server auctionDb → Prop) (s₀ : Server auctionDb) (sale : Sale)
    (ws : List Write) (s : Server auctionDb) : Prop extends Progress i n pre During s₀ sale ws s where
  paid : sale.charged ≠ []
  nonzero : sale.total ≠ 0
  charged : ∃ s₁, During s₀ s₁ ∧
    sale.charged = Auction.payers (applyAll pre s₁.db) sale.total sale.info.playerId

def EnoughStock (sale : Sale) : Prop :=
  toInt32 sale.row.remainingQuantity = sale.info.count ∨ sale.info.count < sale.row.remainingQuantity

structure Sold (i n : Nat) (pre : List (Entry auctionDb))
    (During : Server auctionDb → Server auctionDb → Prop) (s₀ : Server auctionDb) (sale : Sale)
    (s : Server auctionDb) : Prop extends Paid i n pre During s₀ sale sale.writes s where
  stock : EnoughStock sale

/-- The commit of `i` is within what its calls are allowed to do. -/
structure MayCommit (law : Call auctionDb → Harm → Bool) (i : Nat)
    (During G : Server auctionDb → Server auctionDb → Prop) (s : Server auctionDb) : Prop where
  publish : G s (s.publish i)
  lost : G s ((s.publish i).hangUp i)
  during : law .commit .replyLost = true → During s ((s.publish i).hangUp i)

/-- How the attempt ends, with `b` transactions opened: committed, or thrown. -/
def Outcome (i n : Nat) (pre : List (Entry auctionDb))
    (R During : Server auctionDb → Server auctionDb → Prop) (s₀ : Server auctionDb)
    (info : AuctionItemInfo) (b : Nat) (tr : List (Answered (Sql auctionDb)))
    (r : Except SqlException Unit × Int) (s : Server auctionDb) : Prop :=
  begins tr = b ∧
  match r.1 with
  | .ok _ => commits tr = 1 ∧ ∃ sale s₁, sale.info = info ∧ r.2 = sale.total ∧
      Sold i n pre During s₀ sale s₁ ∧ R (s₁.publish i) s
  | .error _ => commits tr = 0 ∧ Failed i n During s₀ s

theorem mem_payers {db : Database} {amount account : Int} {c : CharacterBase} :
    c ∈ payers db amount account ↔ c ∈ db.characterBase.rows ∧ c.accountId = account ∧ amount ≤ c.gold := by
  simp [payers]

theorem payers_distinct (db : Database) (amount account : Int) :
    ((payers db amount account).map CharacterBase.characterId).Nodup :=
  db.characterBase.nodup.sublist (List.filter_sublist.map _)

section

variable {law : Call auctionDb → Harm → Bool} {i n : Nat} {pre : List (Entry auctionDb)}
  {R During G : Server auctionDb → Server auctionDb → Prop} {s₀ s s' : Server auctionDb} {sale : Sale}
  {ws : List Write}

theorem Sold.ok (h : Sold i n pre During s₀ sale s) : sale.Ok (applyAll pre s.db) where
  count := h.count
  row := RowValue.listing.inj h.listing.look
  notOwn := h.notOwn
  distinct := by
    obtain ⟨s₁, -, hc⟩ := h.charged
    rw [hc]
    exact payers_distinct ..
  payers c hc := by
    obtain ⟨s₁, -, heq⟩ := h.charged
    have hmem := hc
    rw [heq, mem_payers] at hmem
    exact ⟨RowValue.character.inj (h.payers c hc).look, hmem.2⟩
  paid := h.paid
  nonzero := h.nonzero
  stock := h.stock

theorem outcome_blind {info : AuctionItemInfo} {b : Nat} :
    Blind (Outcome i n pre R During s₀ info b) := by
  rintro tr tr' ⟨r, t⟩ s hb hc ⟨hb', h⟩
  refine ⟨by simp [hb, hb'], ?_⟩
  cases r with
  | ok u =>
    obtain ⟨hc', h⟩ := h
    exact ⟨by simp [hc, hc'], h⟩
  | error e =>
    obtain ⟨hc', h⟩ := h
    exact ⟨by simp [hc, hc'], h⟩

variable (hS : Surroundings i R During G)

theorem Progress.here (h : Progress i n pre During s₀ sale ws s) : Failed i n During s₀ s :=
  ⟨h.during, h.inTx.wf, by rw [h.inTx.conn]⟩

/-- The listing as the transaction sees it, after the payments. -/
theorem Progress.listing_row (h : Progress i n pre During s₀ sale sale.payments s) :
    (writeAll sale.payments (applyAll pre s.db)).auctionListings.get? sale.info.listId =
      some sale.row := by
  rw [writeAll_payments]
  exact RowValue.listing.inj h.listing.look

include hS

theorem Progress.failed (h : Progress i n pre During s₀ sale ws s)
    (hf : Failed i n During s s') : Failed i n During s₀ s' :=
  ⟨hS.during_trans _ _ _ h.during hf.during, hf.wf, hf.task⟩

theorem Progress.rely (h : Progress i n pre During s₀ sale ws s) (hr : R s s') :
    Progress i n pre During s₀ sale ws s' where
  inTx := h.inTx.rely (hS.rely _ _ hr)
  during := hS.during_trans _ _ _ h.during (hS.during _ _ hr)
  count := h.count
  notOwn := h.notOwn
  listing := h.listing.rely hS.lawful (hS.rely _ _ hr)
  found := h.found
  payers c hc := (h.payers c hc).rely hS.lawful (hS.rely _ _ hr)

theorem Progress.execute {st : Stmt} {reply : st.Reply} (h : Progress i n pre During s₀ sale ws s)
    (he : Executed (D := auctionDb) R i st s reply s') :
    ∃ s₁, Progress i n pre During s₀ sale ws s₁ ∧
      reply = (st.effect s₁.now s₁.next (writeAll ws (applyAll pre s₁.db))).reply ∧
      R (s₁.record i (s₁.effect i st)) s' ∧
      Progress i n pre During s₀ sale
        (ws ++ (st.effect s₁.now s₁.next (writeAll ws (applyAll pre s₁.db))).writes) s' := by
  obtain ⟨s₁, h₁, in₁, hreply, h₂, in'⟩ := he.inTx hS h.inTx
  have view : s₁.effect i st = st.effect s₁.now s₁.next (writeAll ws (applyAll pre s₁.db)) := by
    rw [Server.effect, in₁.view]
    rfl
  refine ⟨s₁, h.rely hS h₁, ?_⟩
  rw [← view]
  refine ⟨hreply, h₂, in', ?_, h.count, h.notOwn, he.held hS h.listing, h.found, ?_⟩
  · exact hS.during_trans _ _ _ h.during (he.during hS)
  · exact fun c hc => he.held hS (h.payers c hc)

theorem Paid.execute {st : Stmt} {reply : st.Reply} (h : Paid i n pre During s₀ sale ws s)
    (he : Executed (D := auctionDb) R i st s reply s') :
    ∃ s₁, Paid i n pre During s₀ sale ws s₁ ∧
      reply = (st.effect s₁.now s₁.next (writeAll ws (applyAll pre s₁.db))).reply ∧
      Paid i n pre During s₀ sale
        (ws ++ (st.effect s₁.now s₁.next (writeAll ws (applyAll pre s₁.db))).writes) s' := by
  obtain ⟨s₁, p₁, hreply, -, p'⟩ := h.toProgress.execute hS he
  exact ⟨s₁, ⟨p₁, h.paid, h.nonzero, h.charged⟩, hreply, ⟨p', h.paid, h.nonzero, h.charged⟩⟩

variable {info : AuctionItemInfo} (hcommit : ∀ sale s₁, sale.info = info →
    Sold i n pre During s₀ sale s₁ → MayCommit law i During G s₁)

include hcommit

theorem commit_safe {t : Int} (hi : sale.info = info) (ht : t = sale.total) (h : Sold i n pre During s₀ sale s) :
    Safe R (Step law i) G
      ((Act.call (I := Sql auctionDb) Call.commit : Act (Sql auctionDb) Int Unit).prog t)
      (Outcome i n pre R During s₀ info 0) s := by
  intro s₁ h₁ o s₂ hs₂
  have p₁ := h.toProgress.rely hS h₁
  have sold₁ : Sold i n pre During s₀ sale s₁ := ⟨⟨p₁, h.paid, h.nonzero, h.charged⟩, h.stock⟩
  rcases Step.commit hs₂ with ⟨rfl, rfl⟩ | ⟨e, rfl, hk⟩ | ⟨e, rfl, hl, rfl⟩
  · refine ⟨(hcommit sale s₁ hi sold₁).publish, fun s₃ h₃ => ⟨rfl, rfl, ?_⟩⟩
    exact ⟨sale, s₁, hi, ht, sold₁, h₃⟩
  · refine ⟨hS.guar _ _ hk.toQuiet, fun s₃ h₃ => ⟨rfl, rfl, ?_⟩⟩
    exact p₁.failed hS (hS.failed p₁.inTx.wf p₁.here.task (hS.refl _) hs₂ (hS.quiet _ _ hk.toQuiet) h₃)
  · refine ⟨(hcommit sale s₁ hi sold₁).lost, fun s₃ h₃ => ⟨rfl, rfl, ?_⟩⟩
    exact p₁.failed hS (hS.failed p₁.inTx.wf p₁.here.task (hS.refl _) hs₂
      ((hcommit sale s₁ hi sold₁).during hl) h₃)

theorem recordSale_safe {t : Int} (hi : sale.info = info) (ht : t = sale.total) (hstock : EnoughStock sale)
    (h : Paid i n pre During s₀ sale (sale.payments ++ [sale.stock]) s) :
    Safe R (Step law i) G ((recordSale sale.info sale.row t).prog t)
      (Outcome i n pre R During s₀ info 0) s := by
  refine hS.execute outcome_blind h.inTx ?_ fun e s' hf => ⟨rfl, rfl, h.failed hS hf⟩
  intro reply s₁ he
  obtain ⟨_, -, rfl, h₁⟩ := h.execute hS he
  refine hS.execute outcome_blind h₁.inTx ?_ fun e s' hf => ⟨rfl, rfl, h₁.failed hS hf⟩
  intro reply s₂ he
  obtain ⟨_, -, rfl, h₂⟩ := h₁.execute hS he
  refine commit_safe hS hcommit hi ht ⟨?_, hstock⟩
  subst ht
  simpa [Sale.writes, Stmt.effect, Sale.transaction, Sale.buyerReceipt, Sale.sellerReceipt] using h₂

theorem takeStock_safe {t : Int} (hi : sale.info = info) (ht : t = sale.total)
    (h : Paid i n pre During s₀ sale sale.payments s) :
    Safe R (Step law i) G ((takeStock sale.info sale.row t).prog t)
      (Outcome i n pre R During s₀ info 0) s := by
  have hcount := h.count
  by_cases hall : toInt32 sale.row.remainingQuantity = sale.info.count
  · -- The last units: `DELETE`.
    simp only [takeStock, if_pos hall]
    refine hS.execute outcome_blind h.inTx ?_ fun e s' hf => ⟨rfl, rfl, h.failed hS hf⟩
    intro reply s₁ he
    obtain ⟨s₂, p₂, rfl, p₁⟩ := h.execute hS he
    have hrow := p₂.listing_row
    simp only [Stmt.effect, hrow] at p₁ ⊢
    refine recordSale_safe hS hcommit hi ht (Or.inl hall) ?_
    simpa [Sale.stock, hall] using p₁
  · simp only [takeStock, if_neg hall]
    refine hS.execute outcome_blind h.inTx ?_ fun e s' hf => ⟨rfl, rfl, h.failed hS hf⟩
    intro reply s₁ he
    obtain ⟨s₂, p₂, rfl, p₁⟩ := h.execute hS he
    have hrow := p₂.listing_row
    by_cases hmore : sale.info.count < sale.row.remainingQuantity
    · have hguard : sale.info.count < sale.row.remainingQuantity ∧ sale.info.count ≠ 0 := ⟨hmore, by omega⟩
      simp only [Stmt.effect, hrow, if_pos hguard] at p₁ ⊢
      refine recordSale_safe hS hcommit hi ht (Or.inr hmore) ?_
      simpa [Sale.stock, hall] using p₁
    · have hguard : ¬(sale.info.count < sale.row.remainingQuantity ∧ sale.info.count ≠ 0) := fun hc => hmore hc.1
      simp only [Stmt.effect, hrow, if_neg hguard] at p₁ ⊢
      exact Safe.done fun s₃ h₃ => ⟨rfl, rfl, (p₁.rely hS h₃).here⟩

theorem chargeGold_safe {row : Listing} {t : Int}
    (ht : t = Sale.total ⟨info, row, []⟩) (h : Progress i n pre During s₀ ⟨info, row, []⟩ [] s) :
    Safe R (Step law i) G ((chargeGold info row t).prog t)
      (Outcome i n pre R During s₀ info 0) s := by
  refine hS.execute outcome_blind h.inTx ?_ fun e s' hf => ⟨rfl, rfl, h.failed hS hf⟩
  intro (affected : Int) s₁ he
  obtain ⟨s₂, p₂, hreply, hrec, p₁⟩ := h.execute hS he
  have haffected : affected =
      ((if t = 0 then [] else payers (applyAll pre s₂.db) t info.playerId).length : Int) := hreply
  by_cases hzero : affected = 0
  · simp only [if_pos hzero]
    exact Safe.done fun s₃ h₃ => ⟨rfl, rfl, (p₁.rely hS h₃).here⟩
  simp only [if_neg hzero]
  have ht0 : t ≠ 0 := by
    rintro rfl
    exact hzero (by rw [haffected]; rfl)
  rw [if_neg ht0] at haffected
  have hpaid : payers (applyAll pre s₂.db) t info.playerId ≠ [] := by
    intro hnil
    rw [hnil] at haffected
    exact hzero haffected
  -- Every payer is locked, so it stays as it was charged.
  have hheld : ∀ c ∈ payers (applyAll pre s₂.db) t info.playerId,
      Held i pre (.character c.characterId) (.character (some c)) s₁ := by
    intro c hc
    rw [mem_payers] at hc
    have hlock : RowKey.character c.characterId ∈
        (s₂.effect i (Stmt.updateGold t info.playerId t : Stmt)).locks := by
      rw [Server.effect, p₂.inTx.view]
      exact List.mem_map.mpr ⟨c, List.mem_filter.mpr ⟨hc.1, decide_eq_true hc.2.1⟩, rfl⟩
    have hlook : look (.character c.characterId) (applyAll pre s₂.db) = .character (some c) := by
      rw [look, Table.get?_of_mem hc.1]
    exact hS.locked hlock hlook hrec
  have htotal : t = Sale.total ⟨info, row, payers (applyAll pre s₂.db) t info.playerId⟩ := ht
  have charged : Paid i n pre During s₀ ⟨info, row, payers (applyAll pre s₂.db) t info.playerId⟩
      (Sale.payments ⟨info, row, payers (applyAll pre s₂.db) t info.playerId⟩) s₁ := by
    refine ⟨⟨?_, p₁.during, p₁.count, p₁.notOwn, p₁.listing, p₁.found, hheld⟩, hpaid, ?_, s₂, p₂.during, ?_⟩
    · have hwrites : Sale.payments ⟨info, row, payers (applyAll pre s₂.db) t info.playerId⟩ =
          (Stmt.effect (.updateGold t info.playerId t) s₂.now s₂.next
            (writeAll [] (applyAll pre s₂.db))).writes := by
        simp only [Stmt.effect, writeAll_nil, if_neg ht0, Sale.payments]
        rw [← htotal]
      rw [hwrites]
      exact p₁.inTx
    · exact fun hc => ht0 (htotal.trans hc)
    · rw [← htotal]
  have safe := takeStock_safe hS hcommit rfl htotal charged
  exact safe

/-- From any state, whatever is still pending: one valid sale is committed, or the attempt throws. -/
theorem tryPurchase_safe {t : Int} (hw : s.WF)
    (hn : (s.conns i).task = n) (hp : (s.conns i).pending = pre) (hs₀ : During s₀ s) :
    Safe R (Step law i) G ((tryPurchase info).prog t) (Outcome i n pre R During s₀ info 1) s := by
  have failed : ∀ s', Failed i n During s s' → Failed i n During s₀ s' :=
    fun s' hf => ⟨hS.during_trans _ _ _ hs₀ hf.during, hf.wf, hf.task⟩
  refine hS.open hw hn hp ?_ fun e s' hf => ⟨rfl, rfl, failed s' hf⟩
  intro s₁ in₁ hd₁
  have opened : ∀ {p : Prog (Sql auctionDb) (Except SqlException Unit × Int)},
      Safe R (Step law i) G p (Outcome i n pre R During s₀ info 0) s₁ →
      Safe R (Step law i) G p (fun tr => Outcome i n pre R During s₀ info 1
        (⟨Call.setAutoCommit false, .ok ()⟩ :: tr)) s₁ := by
    intro p hsafe
    refine hsafe.mono fun tr r s' ⟨hb, hr⟩ => ⟨?_, ?_⟩
    · rw [begins_cons, hb]
      rfl
    · simpa [commits_cons, isCommitted] using hr
  have thrown : ∀ {s₂ : Server auctionDb}, InTx i n pre [] s₂ → During s s₂ → ∀ e t',
      Safe R (Step law i) G (.done (.error e, t')) (Outcome i n pre R During s₀ info 0) s₂ := by
    intro s₂ in₂ hd₂ e t' s₃ h₃
    refine ⟨rfl, rfl, failed s₃ ⟨hS.during_trans _ _ _ hd₂ (hS.during _ _ h₃), ?_, ?_⟩⟩
    · exact (in₂.rely (hS.rely _ _ h₃)).wf
    · rw [(in₂.rely (hS.rely _ _ h₃)).conn]
  apply opened
  by_cases hcount : info.count ≤ 0
  · simp only [if_pos hcount]
    exact thrown in₁ hd₁ _ _
  simp only [if_neg hcount]
  refine hS.execute outcome_blind in₁ ?_ fun e s' hf =>
    ⟨rfl, rfl, failed s' ⟨hS.during_trans _ _ _ hd₁ hf.during, hf.wf, hf.task⟩⟩
  intro (found : Option Listing) s₂ he
  obtain ⟨s₃, h₃, in₃, hreply, hrec, in₂⟩ := he.inTx hS in₁
  have hd₂ : During s s₂ := hS.during_trans _ _ _ hd₁ (he.during hS)
  have hd₃ : During s₀ s₃ :=
    hS.during_trans _ _ _ hs₀ (hS.during_trans _ _ _ hd₁ (hS.during _ _ h₃))
  have view : s₃.effect i (Stmt.selectListingForUpdate info.listId : Stmt) =
      Stmt.effect (.selectListingForUpdate info.listId) s₃.now s₃.next (applyAll pre s₃.db) := by
    rw [Server.effect, in₃.view]
    rfl
  have nothing : (s₃.effect i (Stmt.selectListingForUpdate info.listId : Stmt)).writes = [] := by
    rw [view]
    rfl
  rw [nothing, List.append_nil] at in₂
  have hfound : found = liveListing (applyAll pre s₃.db) s₃.now info.listId := by
    rw [hreply, view]
    rfl
  cases found with
  | none => exact thrown in₂ hd₂ _ _
  | some row =>
    obtain ⟨hget, hlive⟩ := liveListing_eq_some.mp hfound.symm
    simp only [Act.prog_set_bind]
    by_cases hown : toInt64 row.sellerId = info.playerId
    · simp only [if_pos hown]
      exact thrown in₂ hd₂ _ _
    simp only [if_neg hown]
    have hlock : RowKey.listing info.listId ∈
        (s₃.effect i (Stmt.selectListingForUpdate info.listId : Stmt)).locks := by
      rw [view]
      simp [Stmt.effect, hget]
    have hlook : look (.listing info.listId) (applyAll pre s₃.db) = .listing (some row) := by
      rw [look, hget]
    exact chargeGold_safe hS hcommit rfl ⟨in₂, hS.during_trans _ _ _ hs₀ hd₂,
      Int.not_le.mp hcount, hown, hS.locked hlock hlook hrec, ⟨s₃, hd₃, hlive, hget⟩, by simp⟩

end

end Auction
