import J1Server.Auction.Stock
import Mathlib.Data.List.Infix

/-! # Acknowledged writes

A response that says `true` promises that the request is committed. `Regist`
never commits by itself: it relies on the autocommit mode it finds. -/

namespace Auction

open Lib Lib.Server Core

variable {law : Call auctionDb → Harm → Bool} {i : Nat} {s s' : Server auctionDb}

/-- More writes were committed, and none was lost. -/
def Grows (s s' : Server auctionDb) : Prop :=
  ∃ es, s'.history = s.history ++ es ∧ s'.db = applyAll es s.db

def registered (i n : Nat) (row : Listing) : Entry auctionDb := ⟨i, n, Write.insertListing row⟩

/-- No write of the task is still pending. -/
def NonePending (i n : Nat) (s : Server auctionDb) : Prop := ∀ e ∈ (s.conns i).pending, e.task ≠ n

/-- From `db` on, the history has the sale as task `n` of `i` committed it, valid on what came before it. -/
def MadeIn (db : Database) (i n : Nat) (history : List (Entry auctionDb)) (sale : Sale) : Prop :=
  ∃ before after, history = before ++ sale.writes.map (Entry.mk i n) ++ after ∧ sale.Ok (applyAll before db)

/-- The task has committed a sale of this kind, for this much gold. -/
def SoldAs (db : Database) (i n : Nat) (info : AuctionItemInfo) (gold : Int) (s : Server auctionDb) : Prop :=
  ∃ sale : Sale, sale.info = info ∧ sale.total = gold ∧ MadeIn db i n s.history sale

/-- What a client was told that it bought, and for how much. -/
def bought (task : Task) (r : Option Response) : Option (AuctionItemInfo × Int) :=
  match task, r with
  | .purchaseItem pkt h, some (.purchaseItem true _ gold) => some (pkt.purchaseinfo.head h, gold)
  | _, _ => none

/-- The writes that a response with `result = true` stands for are committed, and none is pending. -/
def Durable (db : Database) (i n : Nat) (task : Task) (r : Option Response) (s : Server auctionDb) : Prop :=
  match task, r with
  | .registItem pkt h, some (.registItem true _) => NonePending i n s ∧ ∃ id expiredAt,
      registered i n (listingOf (pkt.registinfo.head h) id expiredAt) ∈ s.history
  | .purchaseItem pkt h, some (.purchaseItem true _ gold) => NonePending i n s ∧
      SoldAs db i n (pkt.purchaseinfo.head h) gold s
  | _, _ => True

def AutocommitOn (s : Server auctionDb) (i : Nat) : Task → Prop
  | .registItem _ _ => (s.conns i).autocommit = true
  | _ => True

theorem Grows.refl (s : Server auctionDb) : Grows s s := ⟨[], by simp, rfl⟩

theorem Grows.trans {a b c : Server auctionDb} (h : Grows a b) (h' : Grows b c) : Grows a c := by
  obtain ⟨es, hh, hdb⟩ := h
  obtain ⟨fs, hh', hdb'⟩ := h'
  exact ⟨es ++ fs, by rw [hh', hh, List.append_assoc], by rw [hdb', hdb, applyAll_append]⟩

theorem Grows.history (h : Grows s s') : s.history <+: s'.history := by
  obtain ⟨es, hh, -⟩ := h
  exact ⟨es, hh.symm⟩

theorem grows_of_moved (h : Moved i s s') : Grows s s' := by
  rcases h.log with ⟨hh, hdb⟩ | ⟨hh, hdb⟩
  · exact ⟨[], by simp [hh], hdb⟩
  · exact ⟨_, hh, hdb⟩

theorem grows_of_quiet (h : Quiet i s s') : Grows s s' := ⟨[], by simp [h.history], h.db⟩

/-- The tables are what the history says, from `db` on. -/
def Replayed (db : Database) (s : Server auctionDb) : Prop := s.db = applyAll s.history db

variable {db : Database} {n : Nat} {info : AuctionItemInfo} {gold : Int} {task : Task} {r : Option Response}

theorem Replayed.grows (h : Replayed db s) (hg : Grows s s') : Replayed db s' := by
  obtain ⟨es, hh, hdb⟩ := hg
  rw [Replayed, hdb, hh, applyAll_append, ← h]

theorem NonePending.over (h : NonePending i n s) (ho : Pool.Over i n s s') : NonePending i n s' := by
  intro e he
  rcases ho e he with hold | hlater
  · exact h e hold
  · exact hlater.ne'

theorem nonePending_nil (h : (s.conns i).pending = []) : NonePending i n s := by
  simp [NonePending, h]

theorem SoldAs.grows (h : SoldAs db i n info gold s) (hg : Grows s s') : SoldAs db i n info gold s' := by
  obtain ⟨sale, hi, ht, before, after, hh, hok⟩ := h
  obtain ⟨es, hh', -⟩ := hg
  exact ⟨sale, hi, ht, before, after ++ es, by rw [hh', hh, List.append_assoc], hok⟩

theorem Durable.grows (h : Durable db i n task r s) (hg : Grows s s') (ho : Pool.Over i n s s') :
    Durable db i n task r s' := by
  unfold Durable at h ⊢
  split at h
  · obtain ⟨hnone, id, expiredAt, hmem⟩ := h
    exact ⟨hnone.over ho, id, expiredAt, hg.history.subset hmem⟩
  · obtain ⟨hnone, hsold⟩ := h
    exact ⟨hnone.over ho, hsold.grows hg⟩
  · trivial

theorem surroundings_grows (i : Nat) :
    Surroundings (D := auctionDb) i (Others Grows i) Grows Grows where
  lawful := auctionDb_lawful
  rely _ _ h := h.1
  refl s := ⟨Rely.refl i s, Grows.refl s⟩
  trans _ _ _ h h' := ⟨h.1.trans h'.1, h.2.trans h'.2⟩
  during _ _ h := h.2
  during_trans _ _ _ h h' := h.trans h'
  quiet _ _ h := grows_of_quiet h
  guar _ _ h := grows_of_quiet h

/-! ## The tasks -/

/-- With autocommit on, a statement that returns has committed its writes. -/
theorem statement_durable {α : Type} {st : Stmt} {f : st.Reply → α}
    (hon : (s.conns i).autocommit = true) :
    Safe (Others Grows i) (Step law i) Grows
      ((execute (D := auctionDb) st >>= fun r => pure (f r) : Act (Sql auctionDb) Unit α).prog ())
      (fun _ r s' => ∀ a, r.1 = .ok a → (s'.conns i).pending = [] ∧ ∃ now next db, ∀ w ∈ (st.effect now next db).writes,
        Entry.mk (D := auctionDb) i (s.conns i).task w ∈ s'.history) s := by
  rw [execute_bind]
  intro s₁ h₁ o s₂ hs₂
  refine ⟨grows_of_moved (hs₂.moved auctionDb_lawful), ?_⟩
  rcases hs₂.exec auctionDb_lawful with ⟨rfl, -, -, rfl⟩ | ⟨e, rfl, -⟩
  · intro s₃ h₃ o' s₄ hs₄
    refine ⟨grows_of_moved (hs₄.moved auctionDb_lawful), ?_⟩
    have hconn := h₃.1.conn
    rw [record_conn, h₁.1.conn] at hconn
    rcases hs₄.finish_on (by rw [hconn]; exact hon) with ⟨rfl, rfl⟩ | ⟨e, rfl, -⟩ | ⟨e, rfl, -⟩
    · intro s₅ h₅ a _
      refine ⟨by rw [h₅.1.conn, publish_conn], s₁.now, s₁.next, s₁.view i, fun w hw => h₅.2.history.subset ?_⟩
      have hmem : Entry.mk (D := auctionDb) i (s.conns i).task w ∈ s₁.tag i (s₁.effect i st).writes := by
        rw [tag, h₁.1.conn]
        exact List.mem_map_of_mem hw
      rw [publish_history, hconn]
      exact List.mem_append_right _ (List.mem_append_right _ hmem)
    · rintro s₅ h₅ a ⟨⟩
    · rintro s₅ h₅ a ⟨⟩
  · rintro s₃ h₃ a ⟨⟩

/-- A purchase that succeeds is committed, whatever is still pending around it. -/
theorem purchase_durable (hw : s.WF) (hn : (s.conns i).task = n) (hreplayed : Replayed db s) :
    Safe (Others Grows i) (Step law i) Grows (purchase info)
      (fun _ r s' => r.success = true → (s'.conns i).pending = [] ∧ SoldAs db i n info r.totalPrice s') s := by
  have hu : Undone law i (fun _ => True) Grows Grows :=
    ⟨trivial, Or.inr ⟨fun _ => trivial, fun _ _ _ _ h =>
      ⟨grows_of_moved (h.moved auctionDb_lawful), grows_of_moved (h.moved auctionDb_lawful)⟩⟩⟩
  refine (purchaseFrom_safe (surroundings_grows i) hu ?_ kMaxTxAttempts 1 rfl ⟨Grows.refl s, hw, hn⟩
    trivial).mono ?_
  · intro pre sale s₁ _ _ _
    have hpub := grows_of_moved (moved_publish s₁ i)
    exact ⟨hpub, hpub, fun _ => hpub⟩
  · rintro tr r s' ⟨-, -, -, -, hr⟩ hs
    rw [hs] at hr
    obtain ⟨-, hnil, pre, sale, s₁, -, hi, ht, hsold, hgrows⟩ := hr
    refine ⟨hnil, SoldAs.grows ⟨sale, hi, ht.symm, s₁.history ++ pre, [], ?_, ?_⟩ hgrows⟩
    · rw [publish_history, hsold.inTx.conn, List.append_nil, List.append_assoc]
    · rw [applyAll_append, ← hreplayed.grows hsold.during]
      exact hsold.ok

theorem purchaseItem_durable (pkt : ReqPurchaseItem) (h : pkt.purchaseinfo ≠ []) (hw : s.WF)
    (hreplayed : Replayed db s) :
    Safe (Others Grows i) (Step law i) Grows (Task.purchaseItem pkt h).process
      (fun _ r s' => Durable db i ((s.conns i).task + 1) (.purchaseItem pkt h) r s') (s.beginTask i) := by
  refine Safe.bind ((purchase_durable (n := (s.conns i).task + 1) (hw.beginTask i) (by simp) hreplayed).mono ?_)
    (surroundings_grows i).refl
  rintro tr ⟨success, total⟩ s₁ hr s₂ h₂
  cases success with
  | true =>
    obtain ⟨hnil, hsold⟩ := hr rfl
    exact ⟨nonePending_nil (by rw [h₂.1.conn, hnil]), hsold.grows h₂.2⟩
  | false => trivial

/-- Any task keeps what is committed. -/
theorem task_grows (task : Task) :
    Safe (Others Grows i) (Step law i) Grows task.process (fun _ _ _ => True) s :=
  Safe.of_steps (fun _ _ _ _ hs => grows_of_moved (hs.moved auctionDb_lawful)) _ _

theorem durability_contract (law : Call auctionDb → Harm → Bool) (db : Database) :
    Contract law Task.process AutocommitOn (Replayed db) Grows (fun _ _ => True) (Durable db) where
  lawful := auctionDb_lawful
  refl := Grows.refl
  trans _ _ _ h h' := h.trans h'
  tick _ _ := ⟨[], by simp [Server.tick], rfl⟩
  begin_task _ _ := ⟨[], by simp, rfl⟩
  inv _ _ h hg := h.grows hg
  idle _ _ _ _ _ := trivial
  done _ _ _ _ _ _ h hg ho := h.grows hg ho
  spec i task s hw hreplayed _ hon := by
    cases task with
    | auctionList pkt => exact (task_grows _).mono fun _ r _ _ => ⟨trivial, by cases r <;> trivial⟩
    | receiptList pkt => exact (task_grows _).mono fun _ r _ _ => ⟨trivial, by cases r <;> trivial⟩
    | registItem pkt h =>
      have honTask : ((s.beginTask i).conns i).autocommit = true := by
        rw [beginTask_conn]
        exact hon
      refine Safe.bind ((statement_durable honTask).mono ?_) (surroundings_grows i).refl
      rintro tr ⟨r, u⟩ s₁ hr s₂ h₂
      refine ⟨trivial, ?_⟩
      cases r with
      | error e => trivial
      | ok ok =>
        obtain ⟨hnil, now, next, db, hall⟩ := hr ok rfl
        cases ok with
        | true =>
          refine ⟨nonePending_nil (by rw [h₂.1.conn, hnil]), next,
            now + hoursOf (pkt.registinfo.head h) * secondsPerHour, h₂.2.history.subset ?_⟩
          have hmem := hall _ (List.mem_singleton.mpr rfl)
          rw [beginTask_conn] at hmem
          exact hmem
        | false => trivial
    | purchaseItem pkt h => exact (purchaseItem_durable pkt h hw hreplayed).mono fun _ _ _ hd => ⟨trivial, hd⟩

/-! ## Every run -/

theorem step_grows {p q : Pool auctionDb Task (Option Response)} {e : PoolEvent Task}
    (h : p.step law Task.process e = some q) : Grows p.server q.server := by
  cases e with
  | start i task =>
    obtain ⟨-, rfl⟩ := Pool.step_start h
    exact (durability_contract law p.server.db).begin_task _ i
  | call i fault =>
    obtain ⟨task, c, k, o, s', -, hs, rfl⟩ := Pool.step_call h
    exact grows_of_moved (hs.moved auctionDb_lawful)
  | finish i =>
    obtain ⟨task, r, -, rfl⟩ := Pool.step_finish h
    exact Grows.refl _
  | tick d =>
    obtain rfl : _ = q := Option.some.inj h
    exact (durability_contract law p.server.db).tick _ d

/-- If every registration starts with autocommit on, then what was acknowledged at any point of a run
is committed there and no longer pending, and stays so whatever follows. -/
theorem acknowledged_durable {now next : Int} {es₁ es₂ : List (PoolEvent Task)}
    (hon : Along (Pool.step law Task.process) (Admitted AutocommitOn) (Pool.fresh (idle db now next)) es₁)
    {p q : Pool auctionDb Task (Option Response)}
    (hp : run (Pool.step law Task.process) (Pool.fresh (idle db now next)) es₁ = some p)
    (hq : run (Pool.step law Task.process) p es₂ = some q) :
    (∀ x ∈ p.finished, Durable db x.conn x.no x.task x.result p.server ∧
      Durable db x.conn x.no x.task x.result q.server) ∧
    p.server.db = applyAll p.server.history db ∧ q.server.db = applyAll q.server.history db := by
  have hstart : Replayed db (idle db now next) := rfl
  have hup := (contract_run (durability_contract law db) (upheld_fresh (idle_wf db now next) hstart
    fun _ => trivial) hon hp).1
  have hgrows : Grows p.server q.server :=
    run_related (R := fun a b : Pool auctionDb Task (Option Response) => Grows a.server b.server)
      (fun _ => Grows.refl _) (fun _ _ _ h h' => h.trans h') (fun _ _ _ h => step_grows h) hq
  have hover := (Pool.numbered_run auctionDb_lawful hup.numbered hq).2
  exact ⟨fun x hx => ⟨hup.done x hx, (hup.done x hx).grows hgrows (hover x hx).2⟩, hup.inv, hup.inv.grows hgrows⟩

theorem acknowledged_durable_sample : ∃ p q,
    run (Pool.step mysqlLaw Task.process) (Pool.fresh (idle emptyMarket 0 1)) (sampleEvents.take 4) = some p ∧
    run (Pool.step mysqlLaw Task.process) p (sampleEvents.drop 4) = some q ∧
    ∃ x ∈ p.finished, Durable emptyMarket x.conn x.no x.task x.result q.server := by
  have hsome : ((run (Pool.step mysqlLaw Task.process) (Pool.fresh (idle emptyMarket 0 1))
      (sampleEvents.take 4)).bind fun p => (run (Pool.step mysqlLaw Task.process) p
        (sampleEvents.drop 4)).map fun _ => p.finished.length) = some 1 := by decide
  obtain ⟨p, hp, hrest⟩ := Option.bind_eq_some_iff.mp hsome
  obtain ⟨q, hq, hlen⟩ := Option.map_eq_some_iff.mp hrest
  obtain ⟨x, hx⟩ := List.exists_mem_of_length_pos (by omega : 0 < p.finished.length)
  have hon : Along (Pool.step mysqlLaw Task.process) (Admitted AutocommitOn)
      (Pool.fresh (idle emptyMarket 0 1)) (sampleEvents.take 4) := by
    refine ⟨?_, fun s _ => along_of_forall s fun e he t i task heq => ?_⟩
    · rintro i task heq
      obtain ⟨rfl, rfl⟩ := PoolEvent.start.inj heq
      rfl
    · subst heq
      simp at he
  exact ⟨p, q, hp, hq, x, hx, ((acknowledged_durable hon hp hq).1 x hx).2⟩

/-! ## An autocommit switch that fails -/

/-- The purchase fails, its rollback succeeds, and then autocommit cannot be switched on again. The
registration joins an open transaction, which the next rollback discards. -/
def lostEvents : List (PoolEvent Task) :=
  [.start 0 (samplePurchase 2), .call 0 none, .call 0 none, .call 0 none, .call 0 none,
    .call 0 (some ⟨.refused, ⟨2006, ""⟩⟩), .finish 0, .start 0 sampleRegist, .call 0 none, .call 0 none,
    .finish 0]

def rollbackEvents : List (PoolEvent Task) :=
  [.start 0 (samplePurchase 3), .call 0 none, .call 0 (some ⟨.refused, ⟨2013, ""⟩⟩), .call 0 none]

def isRegist : Task → Bool
  | .registItem _ _ => true
  | _ => false

theorem acknowledged_lost : ∃ p q,
    run (Pool.step mysqlLaw Task.process) (Pool.fresh (idle emptyMarket 0 1)) lostEvents = some p ∧
    run (Pool.step mysqlLaw Task.process) p rollbackEvents = some q ∧
    (∃ x ∈ p.finished, x.result = some (.registItem true 1) ∧
      ¬Durable emptyMarket x.conn x.no x.task x.result p.server) ∧
    (q.server.conns 0).pending = [] ∧ q.server.history = [] := by
  have hrun : ((run (Pool.step mysqlLaw Task.process) (Pool.fresh (idle emptyMarket 0 1)) lostEvents).bind
      fun p => (run (Pool.step mysqlLaw Task.process) p rollbackEvents).map fun q =>
        (p.finished.map fun x => (isRegist x.task, x.result), p.server.history.length,
          (q.server.conns 0).pending.length, q.server.history.length)) =
      some ([(false, some (.purchaseItem false 2 0)), (true, some (.registItem true 1))], 0, 0, 0) := by
    decide
  obtain ⟨p, hp, hrest⟩ := Option.bind_eq_some_iff.mp hrun
  obtain ⟨q, hq, hres⟩ := Option.map_eq_some_iff.mp hrest
  simp only [Prod.mk.injEq, List.length_eq_zero_iff] at hres
  obtain ⟨hfinished, hnone, hpending, hhistory⟩ := hres
  refine ⟨p, q, hp, hq, ?_, hpending, hhistory⟩
  have hmem : (true, some (Response.registItem true 1)) ∈
      p.finished.map fun x => (isRegist x.task, x.result) := by
    rw [hfinished]
    simp
  obtain ⟨⟨i, n, task, result⟩, hx, heq⟩ := List.mem_map.mp hmem
  simp only [Prod.mk.injEq] at heq
  obtain ⟨htask, rfl⟩ := heq
  refine ⟨_, hx, rfl, ?_⟩
  cases task with
  | registItem pkt h => simp [Durable, hnone]
  | auctionList pkt => cases htask
  | receiptList pkt => cases htask
  | purchaseItem pkt h => cases htask

end Auction
