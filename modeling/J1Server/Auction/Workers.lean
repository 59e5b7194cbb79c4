import J1Server.Auction.Atomicity
import J1Server.Lib.Pool

/-! # The worker pool keeps a market

The tasks of the AuctionServer on any number of connections: whatever commits
between two states is a run of the market, in which every deal is allowed by the
requests that were started. -/

namespace Auction

open Lib Lib.Server Core

def market (s : Server auctionDb) : Market := ⟨s.db, s.history.map Entry.write⟩

/-- The market went on, and neither the clock nor the counter went back. -/
structure Advance (allowed : Deal → Prop) (s s' : Server auctionDb) : Prop where
  next : s.next ≤ s'.next
  now : s.now ≤ s'.now
  trades : Trades allowed (market s) (market s')

/-- Pending writes of finished tasks are registrations: autocommit was off when they were made. -/
def Leftover (allowed : Deal → Prop) (pre : List (Entry auctionDb)) : Prop :=
  ∀ e ∈ pre, ∃ row, e.write = .insertListing row ∧ allowed (.regist row)

variable {allowed : Deal → Prop} {law : Call auctionDb → Harm → Bool} {i : Nat}
  {s s' : Server auctionDb}

theorem Advance.refl (s : Server auctionDb) : Advance allowed s s :=
  ⟨le_refl _, le_refl _, .refl _⟩

theorem Advance.trans {a b c : Server auctionDb} (h : Advance allowed a b) (h' : Advance allowed b c) :
    Advance allowed a c :=
  ⟨h.next.trans h'.next, h.now.trans h'.now, h.trades.trans h'.trades⟩

theorem Advance.tick (s : Server auctionDb) (d : Nat) : Advance allowed s (s.tick d) :=
  ⟨le_refl _, by simp [Server.tick], .refl _⟩

theorem advance_of_quiet (h : Quiet i s s') : Advance allowed s s' where
  next := h.next
  now := h.now.ge
  trades := by
    rw [market, market, h.db, h.history]
    exact .refl _

theorem leftover_nil : Leftover allowed [] := by simp [Leftover]

/-! ## A commit is a run of the market -/

theorem leftover_rows {pre : List (Entry auctionDb)} (h : Leftover allowed pre) :
    ∃ rows : List Listing, pre.map Entry.write = rows.map .insertListing ∧
      ∀ row ∈ rows, allowed (.regist row) := by
  induction pre with
  | nil => exact ⟨[], rfl, by simp⟩
  | cons e pre ih =>
    obtain ⟨rows, hrows, hall⟩ := ih fun x hx => h x (by simp [hx])
    obtain ⟨row, hw, hrow⟩ := h e (by simp)
    refine ⟨row :: rows, by simp [hw, hrows], ?_⟩
    rintro r (_ | ⟨_, hr⟩)
    · exact hrow
    · exact hall r hr

theorem newIds_eq {pre : List (Entry auctionDb)} {rows : List Listing}
    (h : pre.map Entry.write = rows.map .insertListing) :
    newIds pre = rows.map Listing.listingId := by
  have hcomp : newIds pre = (pre.map Entry.write).filterMap Write.newId? := by
    simp [newIds, List.filterMap_map]
  rw [hcomp, h, List.filterMap_map]
  simp [Function.comp_def, Write.newId?]

theorem trades_leftover {pre es : List (Entry auctionDb)} (hw : s.WF)
    (hp : (s.conns i).pending = pre ++ es) (h : Leftover allowed pre) :
    Trades allowed (market s) ((market s).write (pre.map Entry.write)) := by
  obtain ⟨rows, hrows, hall⟩ := leftover_rows h
  have hids := newIds_eq hrows
  rw [hrows]
  apply trades_regist hall
  · intro row hrow row' hrow' heq
    have hmem : row.listingId ∈ newIds (s.conns i).pending := by
      rw [hp, newIds_append, hids]
      exact List.mem_append_left _ (List.mem_map_of_mem hrow)
    apply hw.once i _ hmem
    obtain ⟨e, he, hew⟩ := List.mem_map.mp hrow'
    refine List.mem_filterMap.mpr ⟨e, he, ?_⟩
    rw [hew, ← heq]
    rfl
  · have := hw.distinct i
    rw [hp, newIds_append, hids] at this
    exact (List.nodup_append.mp this).1

theorem market_publish (s : Server auctionDb) (i : Nat) :
    market (s.publish i) = (market s).write ((s.conns i).pending.map Entry.write) := by
  simp [market, Market.write, applyAll_eq, Lib.Server.writeAll, writeAll]

theorem publish_leftover (hw : s.WF) (h : Leftover allowed (s.conns i).pending) :
    Advance allowed s (s.publish i) where
  next := le_refl _
  now := le_refl _
  trades := by
    rw [market_publish]
    exact trades_leftover hw (List.append_nil (s.conns i).pending).symm h

/-- The market in which a sale is made: leftover registrations are committed with it. -/
theorem sale_market {n : Nat} {pre : List (Entry auctionDb)} {sale : Sale}
    {During : Server auctionDb → Server auctionDb → Prop} {s₀ : Server auctionDb}
    (hsold : Sold i n pre During s₀ sale s) (hpre : Leftover allowed pre) :
    ∃ m, Trades allowed (market s) m ∧ sale.Ok m.db ∧ market (s.publish i) = m.write sale.writes := by
  have hp : (s.conns i).pending = pre ++ sale.writes.map (Entry.mk i n) := by rw [hsold.inTx.conn]
  refine ⟨_, trades_leftover hsold.inTx.wf hp hpre, ?_, ?_⟩
  · have hok := hsold.ok
    rw [applyAll_eq] at hok
    exact hok
  · rw [market_publish, hp, List.map_append, map_write_mk, write_append]

theorem publish_sale {n : Nat} {pre : List (Entry auctionDb)} {sale : Sale}
    {During : Server auctionDb → Server auctionDb → Prop} {s₀ : Server auctionDb}
    (hsold : Sold i n pre During s₀ sale s) (hpre : Leftover allowed pre) (hs : allowed (.sale sale)) :
    Advance allowed s (s.publish i) where
  next := le_refl _
  now := le_refl _
  trades := by
    obtain ⟨m, hm, hok, heq⟩ := sale_market hsold hpre
    rw [heq]
    exact .step (.sale sale) hm hs hok

theorem hangUp_advance (h : Advance allowed s (s'.publish i)) :
    Advance allowed s ((s'.publish i).hangUp i) := ⟨h.next, h.now, h.trades⟩

/-! ## One statement with autocommit -/

/-- Statements that write registrations only, under any autocommit mode. -/
theorem statement_safe {α : Type} {st : Stmt} {f : st.Reply → α}
    {Q : List (Answered (Sql auctionDb)) → Except SqlException α × Unit → Server auctionDb → Prop}
    (hst : ∀ now next db, s.next ≤ next → ∀ w ∈ (st.effect now next db).writes,
      ∃ row, w = .insertListing row ∧ allowed (.regist row))
    (hw : s.WF) (hp : Leftover allowed (s.conns i).pending)
    (hQ : ∀ tr r s', Leftover allowed (s'.conns i).pending → Q tr r s') :
    Safe (Others (Advance allowed) i) (Step law i) (Advance allowed)
      ((execute (D := auctionDb) st >>= fun r => pure (f r) : Act (Sql auctionDb) Unit α).prog ()) Q s := by
  rw [execute_bind]
  have kept : ∀ {a b : Server auctionDb}, Kept i a b → Leftover allowed (a.conns i).pending →
      Leftover allowed (b.conns i).pending := by
    intro a b hk ha
    rcases hk.pending with h | h <;> rw [h]
    · exact ha
    · exact leftover_nil
  have done : ∀ {a : Server auctionDb} {r} tr, Leftover allowed (a.conns i).pending →
      Safe (Others (Advance allowed) i) (Step law i) (Advance allowed)
        (.done (r, ())) (fun tr' => Q (tr ++ tr')) a := by
    intro a r tr ha b hab
    exact hQ _ _ _ (by rw [hab.1.conn]; exact ha)
  intro s₁ h₁ o s₂ hs₂
  have hw₁ := h₁.1.wf hw
  have hp₁ : Leftover allowed (s₁.conns i).pending := by rw [h₁.1.conn]; exact hp
  rcases hs₂.exec auctionDb_lawful with ⟨rfl, -, hfree, rfl⟩ | ⟨e, rfl, hk⟩
  · refine ⟨advance_of_quiet (quiet_record i s₁ _ (auctionDb_lawful.next_le ..)), ?_⟩
    have hp₂ : Leftover allowed ((s₁.record i (s₁.effect i st)).conns i).pending := by
      rw [record_conn]
      intro x hx
      rcases List.mem_append.mp hx with hx | hx
      · exact hp₁ x hx
      · obtain ⟨w, hwr, rfl⟩ := List.mem_map.mp hx
        exact hst _ _ _ h₁.1.next w hwr
    intro s₃ h₃ o' s₄ hs₄
    have hw₃ := h₃.1.wf (hs₂.wf auctionDb_lawful hw₁)
    have hp₃ : Leftover allowed (s₃.conns i).pending := by rw [h₃.1.conn]; exact hp₂
    have ended : Advance allowed s₃ s₄ ∧ Leftover allowed (s₄.conns i).pending := by
      cases hmode : (s₃.conns i).autocommit with
      | false =>
        rcases hs₄.finish_off hmode with ⟨-, rfl⟩ | ⟨e, -, hk⟩
        · exact ⟨Advance.refl _, hp₃⟩
        · exact ⟨advance_of_quiet hk.toQuiet, kept hk hp₃⟩
      | true =>
        rcases hs₄.finish_on hmode with ⟨-, rfl⟩ | ⟨e, -, hk⟩ | ⟨e, -, rfl⟩
        · exact ⟨publish_leftover hw₃ hp₃, by simpa using leftover_nil⟩
        · exact ⟨advance_of_quiet hk.toQuiet, kept hk hp₃⟩
        · exact ⟨hangUp_advance (publish_leftover hw₃ hp₃), by simpa using leftover_nil⟩
    refine ⟨ended.1, ?_⟩
    cases o' <;> exact done [_, _] ended.2
  · exact ⟨advance_of_quiet hk.toQuiet, done [_] (kept hk hp₁)⟩

/-! ## The tasks -/

/-- The row that a registration stores, under the key and the time that it gets. -/
def listingOf (info : AuctionItemInfo) (listingId expiredAt : Int) : Listing :=
  ⟨listingId, info.playerId, info.itemId, info.count, info.price, expiredAt⟩

/-- The deals that a request asks for are allowed, under any key from `key` on. -/
def Admits (allowed : Deal → Prop) (key : Int) : Task → Prop
  | .auctionList _ => True
  | .receiptList _ => True
  | .registItem pkt h => ∀ id expiredAt, key ≤ id →
      allowed (.regist (listingOf (pkt.registinfo.head h) id expiredAt))
  | .purchaseItem pkt h => ∀ sale : Sale, sale.info = pkt.purchaseinfo.head h → allowed (.sale sale)

/-- Only a purchase answers with a purchase, and it sold what it says, on a market where `M` holds. The market
went on from there. -/
def Answer (allowed : Deal → Prop) (M : Market → Prop) (r : Option Response) (s : Server auctionDb) : Prop :=
  ∀ sessionId gold, r = some (.purchaseItem true sessionId gold) →
    ∃ (m : Market) (sale : Sale), M m ∧ allowed (.sale sale) ∧ sale.Ok m.db ∧ gold = sale.total ∧
      Trades allowed (m.write sale.writes) (market s)

/-- `M` holds of the market, whatever allowed deals are made. -/
def Invariant (allowed : Deal → Prop) (M : Market → Prop) : Prop :=
  ∀ m d, M m → allowed d → d.Ok m → M (m.write d.writes)

theorem surroundings_advance (allowed : Deal → Prop) (i : Nat) :
    Surroundings (D := auctionDb) i (Others (Advance allowed) i) (Advance allowed) (Advance allowed) where
  lawful := auctionDb_lawful
  rely _ _ h := h.1
  refl s := ⟨Rely.refl i s, Advance.refl s⟩
  trans _ _ _ h h' := ⟨h.1.trans h'.1, h.2.trans h'.2⟩
  during _ _ h := h.2
  during_trans _ _ _ h h' := h.trans h'
  quiet _ _ h := advance_of_quiet h
  guar _ _ h := advance_of_quiet h

theorem Advance.invariant {M : Market → Prop} (hM : Invariant allowed M) (h : Advance allowed s s')
    (hs : M (market s)) : M (market s') := h.trades.invariant hM hs

theorem Answer.advance {M : Market → Prop} {r : Option Response} (h : Answer allowed M r s)
    (hadv : Advance allowed s s') : Answer allowed M r s' := by
  intro sessionId gold hr
  obtain ⟨m, sale, hm, hallowed, hok, ht, htrades⟩ := h sessionId gold hr
  exact ⟨m, sale, hm, hallowed, hok, ht, htrades.trans hadv.trades⟩

theorem answer_caught {α : Type} {M : Market → Prop} {r : Except SqlException α × Unit}
    {respond : α → Response} (h : ∀ a, ∀ s g, respond a ≠ .purchaseItem true s g) :
    Answer allowed M (caught r respond) s := by
  intro sessionId gold heq
  rcases r with ⟨e | a, u⟩
  · cases heq
  · exact absurd (Option.some.inj heq) (h a sessionId gold)

theorem answered_safe {α : Type} {M : Market → Prop} {st : Stmt} {f : st.Reply → α} {respond : α → Response}
    (hst : ∀ now next db, s.next ≤ next → ∀ w ∈ (st.effect now next db).writes,
      ∃ row, w = .insertListing row ∧ allowed (.regist row))
    (hw : s.WF) (hp : Leftover allowed (s.conns i).pending) (h : ∀ a, ∀ s g, respond a ≠ .purchaseItem true s g) :
    Safe (Others (Advance allowed) i) (Step law i) (Advance allowed)
      (((execute (D := auctionDb) st >>= fun r => pure (f r) : Act (Sql auctionDb) Unit α).prog ()).bind
        fun r => .done (caught r respond))
      (fun _ r s' => Leftover allowed (s'.conns i).pending ∧ Answer allowed M r s') s := by
  refine Safe.bind (statement_safe hst hw hp ?_) (surroundings_advance allowed i).refl
  intro tr r s₁ hs₁ s₂ h₂
  exact ⟨by rw [h₂.1.conn]; exact hs₁, answer_caught h⟩

theorem worker_contract {M : Market → Prop} {key : Int} (hM : Invariant allowed M)
    (hlaw : law .rollback .refused = false) :
    Contract law Task.process (fun _ _ task => Admits allowed key task) (fun s => key ≤ s.next ∧ M (market s))
      (Advance allowed) (fun i s => Leftover allowed (s.conns i).pending)
      (fun _ _ _ r s => Answer allowed M r s) where
  lawful := auctionDb_lawful
  refl := Advance.refl
  trans _ _ _ h h' := h.trans h'
  tick := Advance.tick
  begin_task s i := ⟨le_refl _, le_refl _, .refl _⟩
  inv _ _ hs h := ⟨hs.1.trans h.next, h.invariant hM hs.2⟩
  idle i s s' hs h := by
    rw [h.1.conn]
    exact hs
  done _ _ _ _ _ _ h hadv _ := h.advance hadv
  spec i task s hw hinv hidle hallowed := by
    have hw' := hw.beginTask i
    have hidle' : Leftover allowed ((s.beginTask i).conns i).pending := by simpa using hidle
    have hS := surroundings_advance allowed i
    cases task with
    | auctionList pkt =>
      refine answered_safe ?_ hw' hidle' fun _ => by simp
      intro now next db hnext w hwr
      cases hwr
    | receiptList pkt =>
      refine answered_safe ?_ hw' hidle' fun _ => by simp
      intro now next db hnext w hwr
      cases hwr
    | registItem pkt h =>
      refine answered_safe ?_ hw' hidle' fun _ => by simp
      intro now next db hnext w hwr
      obtain rfl := List.mem_singleton.mp hwr
      exact ⟨_, rfl, hallowed _ _ (hinv.1.trans hnext)⟩
    | purchaseItem pkt h =>
      have hu : Undone law i (Leftover allowed) (Advance allowed) (Advance allowed) :=
        ⟨leftover_nil, Or.inl hlaw⟩
      refine Safe.bind (Safe.mono (purchaseFrom_safe hS hu ?_ kMaxTxAttempts 1 rfl
        ⟨Advance.refl _, hw', rfl⟩ hidle') ?_) hS.refl
      · intro pre sale s₁ hpre hi hsold
        have hadv := publish_sale hsold hpre (hallowed sale hi)
        exact ⟨hadv, hangUp_advance hadv, fun _ => hangUp_advance hadv⟩
      · rintro tr result s₁ ⟨-, -, -, hp₁, hr⟩ s₂ h₂
        refine ⟨by rw [h₂.1.conn]; exact hp₁, ?_⟩
        rintro sessionId gold heq
        simp only [Option.some.injEq, Response.purchaseItem.injEq] at heq
        obtain ⟨hs, -, rfl⟩ := heq
        rw [hs] at hr
        obtain ⟨-, -, pre, sale, s₃, hpre, hi, ht, hsold, hadv⟩ := hr
        obtain ⟨m, hm, hok, hmarket⟩ := sale_market hsold hpre
        have hinv₃ : M (market s₃) := hsold.during.invariant hM hinv.2
        refine ⟨m, sale, hm.invariant hM hinv₃, hallowed sale hi, hok, ht, ?_⟩
        rw [← hmarket]
        exact (hadv.trans h₂.2).trades

def Kept (law : Call auctionDb → Harm → Bool) (allowed : Deal → Prop) (key : Int) (M : Market → Prop) :
    Pool auctionDb Task (Option Response) → Prop :=
  Upheld law (fun s => key ≤ s.next ∧ M (market s)) (Advance allowed) (fun i s => Leftover allowed (s.conns i).pending)
    (fun _ _ _ r s => Answer allowed M r s)

theorem kept_fresh {M : Market → Prop} (hw : s.WF) (hinv : M (market s))
    (hidle : ∀ i, (s.conns i).pending = []) : Kept law allowed s.next M (Pool.fresh s) :=
  upheld_fresh hw ⟨le_refl _, hinv⟩ fun i => by rw [hidle i]; exact leftover_nil

/-- Any run of requests that `allowed` admits is a run of the market. -/
theorem worker_run {M : Market → Prop} {key : Int} (hM : Invariant allowed M)
    (hlaw : law .rollback .refused = false) {p q : Pool auctionDb Task (Option Response)}
    (hp : Kept law allowed key M p) {es : List (PoolEvent Task)}
    (hallowed : ∀ i task, .start i task ∈ es → Admits allowed key task)
    (hr : run (Pool.step law Task.process) p es = some q) :
    Kept law allowed key M q ∧ Advance allowed p.server q.server :=
  contract_run (worker_contract hM hlaw) hp
    (along_of_forall _ fun _ he _ i task heq => hallowed i task (heq ▸ he)) hr

end Auction
