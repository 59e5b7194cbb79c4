import J1Server.Auction.Attempt

/-! # The loop of a purchase

`Purchase` tries up to `kMaxTxAttempts` times, rolls a failed attempt back, and
switches autocommit on again after each. -/

namespace Auction

open Lib Lib.Server Core

/-- How a purchase ends after at most `left` more attempts. `P` is what is known of the writes that
are still pending when an attempt starts. -/
def Completed (i n : Nat) (P : List (Entry auctionDb) → Prop)
    (During : Server auctionDb → Server auctionDb → Prop) (s₀ : Server auctionDb)
    (info : AuctionItemInfo) (left : Nat) (tr : List (Answered (Sql auctionDb)))
    (result : PurchaseResult) (s : Server auctionDb) : Prop :=
  begins tr ≤ left ∧ s.WF ∧ (s.conns i).task = n ∧ P (s.conns i).pending ∧
  match result.success with
  | true => commits tr = 1 ∧ (s.conns i).pending = [] ∧ ∃ pre sale s₁, P pre ∧ sale.info = info ∧
      result.totalPrice = sale.total ∧ Sold i n pre During s₀ sale s₁ ∧ During (s₁.publish i) s
  | false => commits tr = 0 ∧ During s₀ s

/-- A failed attempt is undone by the rollback, or it does not matter what is left of it. -/
structure Undone (law : Call auctionDb → Harm → Bool) (i : Nat) (P : List (Entry auctionDb) → Prop)
    (During G : Server auctionDb → Server auctionDb → Prop) : Prop where
  nil : P []
  undo : law .rollback .refused = false ∨ (∀ l, P l) ∧
    ∀ c s o s', Step law i c s o s' → During s s' ∧ G s s'

section

variable {law : Call auctionDb → Harm → Bool} {i n : Nat} {P : List (Entry auctionDb) → Prop}
  {R During G : Server auctionDb → Server auctionDb → Prop} {s₀ s s' : Server auctionDb}
  {info : AuctionItemInfo}

theorem completed_mono {left left' b : Nat} {tr tr' : List (Answered (Sql auctionDb))}
    {result : PurchaseResult} (hb : begins tr = b) (hc : commits tr = 0) (hle : b + left ≤ left')
    (h : Completed i n P During s₀ info left tr' result s) :
    Completed i n P During s₀ info left' (tr ++ tr') result s := by
  obtain ⟨hb', hw, hn, hp, h⟩ := h
  refine ⟨?_, hw, hn, hp, ?_⟩
  · rw [begins_append]
    omega
  · rw [commits_append, hc, Nat.zero_add]
    exact h

theorem completed_congr {left : Nat} {tr tr' : List (Answered (Sql auctionDb))}
    {result : PurchaseResult} (hb : begins tr' = begins tr) (hc : commits tr' = commits tr)
    (h : Completed i n P During s₀ info left tr result s) :
    Completed i n P During s₀ info left tr' result s := by
  rw [Completed, hb, hc]
  exact h

variable (hS : Surroundings i R During G)

include hS

/-- After a commit: autocommit is switched on again, or is not. -/
theorem restore_safe {α : Type} {a : α} {Q : List (Answered (Sql auctionDb)) → α → Server auctionDb → Prop}
    (hw : s.WF) (hn : (s.conns i).task = n) (hp : (s.conns i).pending = [])
    (hQ : ∀ o s', s'.WF → (s'.conns i).task = n → (s'.conns i).pending = [] → During s s' →
      Q [⟨Call.setAutoCommit true, o⟩] a s') :
    Safe R (Step law i) G (safeRestoreAutoCommit.bind fun _ => .done a) Q s := by
  intro s₁ h₁ o s₂ hs₂
  have hconn := (hS.rely _ _ h₁).conn
  have hk : Kept i s₁ s₂ := Step.setAutoCommit_on hs₂ (by rw [hconn, hp])
  refine ⟨hS.guar _ _ hk.toQuiet, fun s₃ h₃ => ?_⟩
  have hconn₃ := (hS.rely _ _ h₃).conn
  apply hQ
  · exact (hS.rely _ _ h₃).wf (hs₂.wf hS.lawful ((hS.rely _ _ h₁).wf hw))
  · rw [hconn₃, hs₂.task, hconn, hn]
  · rw [hconn₃]
    rcases hk.pending with hpk | hpk
    · rw [hpk, hconn, hp]
    · exact hpk
  · exact hS.during_trans _ _ _ (hS.during _ _ h₁)
      (hS.during_trans _ _ _ (hS.quiet _ _ hk.toQuiet) (hS.during _ _ h₃))

/-- After a failure: the transaction is rolled back, and the connection is ready again. -/
theorem rollback_safe {α : Type} {p : Prog (Sql auctionDb) α}
    {Q : List (Answered (Sql auctionDb)) → α → Server auctionDb → Prop} (hu : Undone law i P During G)
    (hQ : Blind Q) (h : Failed i n During s₀ s)
    (hp : ∀ s', Failed i n During s₀ s' → P (s'.conns i).pending → Safe R (Step law i) G p Q s') :
    Safe R (Step law i) G (safeRollback.bind fun _ => safeRestoreAutoCommit.bind fun _ => p) Q s := by
  intro s₁ h₁ o s₂ hs₂
  have hrely₁ := hS.rely _ _ h₁
  have hw₁ := hrely₁.wf h.wf
  have hw₂ := hs₂.wf hS.lawful hw₁
  have hundo : G s₁ s₂ ∧ During s₁ s₂ ∧ ((∀ l, P l) ∨ (s₂.conns i).pending = []) := by
    rcases hu.undo with hlaw | ⟨hall, hany⟩
    · obtain ⟨hquiet, hnil⟩ := Step.rollback hs₂ hlaw hw₁
      exact ⟨hS.guar _ _ hquiet, hS.quiet _ _ hquiet, Or.inr hnil⟩
    · exact ⟨(hany _ _ _ _ hs₂).2, (hany _ _ _ _ hs₂).1, Or.inl hall⟩
  obtain ⟨hG₂, hd₂, hnil₂⟩ := hundo
  refine ⟨hG₂, fun s₃ h₃ o' s₄ hs₄ => ?_⟩
  have hrely₃ := hS.rely _ _ h₃
  have hw₃ := hrely₃.wf hw₂
  have hrest : G s₃ s₄ ∧ During s₃ s₄ ∧ P (s₄.conns i).pending := by
    rcases hu.undo with hlaw | ⟨hall, hany⟩
    · have hnil : (s₃.conns i).pending = [] := by
        rw [hrely₃.conn]
        exact (Step.rollback hs₂ hlaw hw₁).2
      have hk : Kept i s₃ s₄ := Step.setAutoCommit_on hs₄ hnil
      refine ⟨hS.guar _ _ hk.toQuiet, hS.quiet _ _ hk.toQuiet, ?_⟩
      have hnil₄ : (s₄.conns i).pending = [] := by
        rcases hk.pending with hpk | hpk
        · rw [hpk, hnil]
        · exact hpk
      rw [hnil₄]
      exact hu.nil
    · exact ⟨(hany _ _ _ _ hs₄).2, (hany _ _ _ _ hs₄).1, hall _⟩
  obtain ⟨hG₄, hd₄, hp₄⟩ := hrest
  have failed : Failed i n During s₀ s₄ := by
    refine ⟨?_, hs₄.wf hS.lawful hw₃, ?_⟩
    · exact hS.during_trans _ _ _ h.during (hS.during_trans _ _ _ (hS.during _ _ h₁)
        (hS.during_trans _ _ _ hd₂ (hS.during_trans _ _ _ (hS.during _ _ h₃) hd₄)))
    · rw [hs₄.task, hrely₃.conn, hs₂.task, hrely₁.conn, h.task]
  refine ⟨hG₄, (hp s₄ failed hp₄).mono fun tr a s' hq => ?_⟩
  exact hQ [_, _] tr a s' rfl rfl hq

variable (hu : Undone law i P During G)
  (hcommit : ∀ pre sale s₁, P pre → sale.info = info → Sold i n pre During s₀ sale s₁ →
    MayCommit law i During G s₁)

include hu hcommit

theorem purchaseFrom_safe (left attempt : Nat) {result : PurchaseResult}
    (hresult : result.success = false) (h : Failed i n During s₀ s) (hp : P (s.conns i).pending) :
    Safe R (Step law i) G (purchaseFrom info left attempt result)
      (Completed i n P During s₀ info left) s := by
  induction left generalizing attempt result s with
  | zero =>
    intro s₁ h₁
    have hrely := hS.rely _ _ h₁
    refine ⟨le_refl 0, hrely.wf h.wf, by rw [hrely.conn, h.task], by rw [hrely.conn]; exact hp, ?_⟩
    rw [hresult]
    exact ⟨rfl, hS.during_trans _ _ _ h.during (hS.during _ _ h₁)⟩
  | succ left ih =>
    refine Safe.bind ((tryPurchase_safe hS (fun sale s₁ => hcommit _ sale s₁ hp) h.wf h.task rfl
      h.during).mono ?_) hS.refl
    rintro tr ⟨r, total⟩ s₁ ⟨hb, hr⟩
    cases r with
    | ok u =>
      obtain ⟨hc, sale, s₂, hi, ht, sold, hR⟩ := hr
      have hrely := hS.rely _ _ hR
      have hpub : (s₂.publish i).WF := sold.inTx.wf.of_cleared (moved_publish s₂ i) (by simp)
      refine restore_safe hS (n := n) (hrely.wf hpub) ?_ ?_ ?_
      · rw [hrely.conn, publish_conn, sold.inTx.conn]
      · rw [hrely.conn, publish_conn]
      · intro o s₃ hw₃ hn₃ hnil hd₃
        refine ⟨?_, hw₃, hn₃, by rw [hnil]; exact hu.nil, ?_, hnil, ?_⟩
        · rw [begins_append, hb, begins_cons]
          simp [isBegin, begins]
        · rw [commits_append, hc, commits_cons]
          simp [isCommitted, commits]
        · exact ⟨_, sale, s₂, hp, hi, ht, sold, hS.during_trans _ _ _ (hS.during _ _ hR) hd₃⟩
    | error e =>
      obtain ⟨hc, hf⟩ := hr
      refine rollback_safe hS hu ?_ hf ?_
      · intro tr₁ tr₂ a s' hb₁ hc₁ hq
        exact completed_congr (by simp [hb₁]) (by simp [hc₁]) hq
      · intro s₂ hf₂ hp₂
        split
        · refine (ih (attempt + 1) rfl hf₂ hp₂).mono fun tr' a s' hq => ?_
          exact completed_mono hb hc (by omega) hq
        · intro s₃ h₃
          have hrely := hS.rely _ _ h₃
          refine completed_mono hb hc (Nat.le_add_left 1 left) ⟨le_refl 0, hrely.wf hf₂.wf, ?_, ?_, ?_⟩
          · rw [hrely.conn, hf₂.task]
          · rw [hrely.conn]
            exact hp₂
          · exact ⟨rfl, hS.during_trans _ _ _ hf₂.during (hS.during _ _ h₃)⟩

end

end Auction
