import J1Server.Auction.Durability

/-! # Answers

Every request that a handler accepts becomes one task, and the task answers the
session that asked. A list or a registration whose SQL throws is only logged by
the worker, and nobody gets an answer. -/

namespace Auction

open Lib Lib.Server Core

/-! ## Requests -/

inductive Request
  | auctionList (pkt : ReqAuctionList)
  | receiptList (pkt : ReqReceiptList)
  | registItem (pkt : ReqRegistItem)
  | purchaseItem (pkt : ReqPurchaseItem)

/-- The task that the handler of the request posts, if it returns true. -/
def Request.handle : Request → Option Task
  | .auctionList pkt => handleReqAuctionList pkt
  | .receiptList pkt => handleReqReceiptList pkt
  | .registItem pkt => (handleReqRegistItem pkt).map Prod.snd
  | .purchaseItem pkt => (handleReqPurchaseItem pkt).map Prod.snd

/-- A request that a session sent and a handler accepted. -/
structure Accepted where
  session : Nat
  request : Request
  task : Task
  accepted : request.handle = some task

/-- The response, and the session that `ReplyPacket` passes it to. -/
def Accepted.process (a : Accepted) : Prog (Sql auctionDb) (Option (Nat × Response)) :=
  a.task.process.bind fun r => .done (r.map fun response => (a.session, response))

/-- The response is of the kind of the request, and carries its ids. -/
def Request.AnsweredBy (response : Response) : Request → Prop
  | .auctionList pkt => ∃ items, response = .auctionList pkt.sessionId pkt.requestId pkt.mylist items
  | .receiptList pkt => ∃ items, response = .receiptList pkt.sessionId items
  | .registItem pkt => ∃ result, response = .registItem result pkt.sessionId
  | .purchaseItem pkt => ∃ result gold, response = .purchaseItem result pkt.sessionId gold

/-- An exception of the task reaches the worker: only `Purchase` catches its own. -/
def Task.onlyLogged : Task → Bool
  | .purchaseItem .. => false
  | _ => true

theorem registItem_handle {pkt : ReqRegistItem} {task : Task} (h : (Request.registItem pkt).handle = some task) :
    ∃ nonempty, task = .registItem pkt nonempty := by
  simp only [Request.handle, handleReqRegistItem] at h
  split at h
  · cases h
  · exact ⟨_, (Option.some.inj h).symm⟩

theorem purchaseItem_handle {pkt : ReqPurchaseItem} {task : Task}
    (h : (Request.purchaseItem pkt).handle = some task) : ∃ nonempty, task = .purchaseItem pkt nonempty := by
  simp only [Request.handle, handleReqPurchaseItem] at h
  split at h
  · cases h
  · exact ⟨_, (Option.some.inj h).symm⟩

/-! ## One task -/

theorem onlyLogged_eq {task : Task} (h : task.onlyLogged = true) :
    ∃ st respond, task.process = oneStatement st respond := by
  cases task with
  | auctionList pkt => exact ⟨_, _, caught_eq _ _ _⟩
  | receiptList pkt => exact ⟨_, _, caught_eq _ _ _⟩
  | registItem pkt h => exact ⟨_, _, caught_eq _ _ _⟩
  | purchaseItem pkt h => cases h

/-- A list or a registration is answered if and only if none of its calls throws. -/
theorem onlyLogged_answered_iff {R : Server auctionDb → Server auctionDb → Prop} {law : Call auctionDb → Harm → Bool}
    {i : Nat} {task : Task} (h : task.onlyLogged = true) {s s' : Server auctionDb}
    {tr : List (Answered (Sql auctionDb))} {r : Option Response} (hexec : Exec R (Step law i) task.process s tr r s') :
    r.isSome = true ↔ ∀ x ∈ tr, x.answer.isOk = true := by
  obtain ⟨st, respond, heq⟩ := onlyLogged_eq h
  rw [heq] at hexec
  cases hexec with
  | call hr hs hrest =>
    rename_i tr o
    cases o with
    | error e =>
      cases hrest
      simp [Except.isOk, Except.toBool]
    | ok reply =>
      cases hrest with
      | call hr' hs' hdone =>
        rename_i tr o'
        cases o' <;> cases hdone <;> simp [Except.isOk, Except.toBool]

/-! ## Every run -/

theorem process_onTrack (a : Accepted) : Pool.OnTrack (D := auctionDb) (fun a : Accepted => a.task.onlyLogged)
    (fun a r => ∃ response, r = some (a.session, response) ∧ a.request.AnsweredBy response) ⟨a, a.process⟩ := by
  obtain ⟨session, request, task, haccepted⟩ := a
  cases request with
  | auctionList pkt =>
    obtain rfl := Option.some.inj haccepted
    exact fun rows u => ⟨_, rfl, _, rfl⟩
  | receiptList pkt =>
    obtain rfl := Option.some.inj haccepted
    exact fun rows u => ⟨_, rfl, _, rfl⟩
  | registItem pkt =>
    obtain ⟨nonempty, rfl⟩ := registItem_handle haccepted
    exact fun rows u => ⟨_, rfl, _, rfl⟩
  | purchaseItem pkt =>
    obtain ⟨nonempty, rfl⟩ := purchaseItem_handle haccepted
    -- Whatever the purchase runs into, it ends in a result.
    have hends : (purchase (pkt.purchaseinfo.head nonempty)).Ends fun _ => True := Prog.ends_trivial _
    refine Prog.Ends.bind (Prog.Ends.bind hends ?_) ?_ (P := fun r => ∃ result gold,
      r = some (.purchaseItem result pkt.sessionId gold))
    · exact fun result _ => ⟨_, _, rfl⟩
    · rintro r ⟨result, gold, rfl⟩
      exact ⟨_, rfl, _, _, rfl⟩

/-- A registration starts with autocommit on. -/
def Ready (s : Server auctionDb) (i : Nat) (a : Accepted) : Prop := AutocommitOn s i a.task

/-- What is promised to a session was committed. -/
def Honoured (db : Database) (i n : Nat) (a : Accepted) (r : Option (Nat × Response)) (s : Server auctionDb) : Prop :=
  Durable db i n a.task (r.map Prod.snd) s

theorem honoured_contract (law : Call auctionDb → Harm → Bool) (db : Database) :
    Contract law Accepted.process Ready (Replayed db) Grows (fun _ _ => True) (Honoured db) := by
  refine (durability_contract law db).wrap (f := Accepted.task) (g := fun a r => r.map fun x => (a.session, x)) ?_ ?_
  · intro i n a r s h
    simpa [Honoured, Function.comp_def] using h
  · exact fun i n a r s s' h hg ho => Durable.grows h hg ho

/-- Any requests, on any number of workers, interleaved in any way. If no call of a list or a registration
throws, and every registration starts with autocommit on, then every task that a worker took is finished
once or still runs, and a finished one has answered its session: with a response of the kind of the
request, under its ids, and with `true` for a write only when it is committed. -/
theorem requests_answered {law : Call auctionDb → Harm → Bool} {db : Database} {now next : Int}
    {es : List (PoolEvent Accepted)} {q : Pool auctionDb Accepted (Option (Nat × Response))}
    (hcalm : Along (Pool.step law Accepted.process) (Pool.Undisturbed fun a => a.task.onlyLogged)
      (Pool.fresh (idle db now next)) es)
    (hready : Along (Pool.step law Accepted.process) (Admitted Ready) (Pool.fresh (idle db now next)) es)
    (hrun : run (Pool.step law Accepted.process) (Pool.fresh (idle db now next)) es = some q) :
    (∀ x ∈ q.finished, ∃ response, x.result = some (x.task.session, response) ∧
      x.task.request.AnsweredBy response ∧ Durable db x.conn x.no x.task.task (some response) q.server) ∧
    ∀ i, (q.finished.filter fun x => x.conn = i).map Finished.task ++ (q.jobs i).toList.map Job.task =
      Pool.startsOn i es := by
  have htracked := Pool.tracked_run process_onTrack hcalm hrun
  have hstart : Replayed db (idle db now next) := rfl
  have hhonoured := contract_run (honoured_contract law db) (upheld_fresh (idle_wf db now next) hstart
    fun _ => trivial) hready hrun
  refine ⟨fun x hx => ?_, fun i => ?_⟩
  · obtain ⟨response, hresult, hanswered⟩ := htracked.finished x hx
    refine ⟨response, hresult, hanswered, ?_⟩
    have hdurable := hhonoured.1.done x hx
    rwa [Honoured, hresult] at hdurable
  · have htaken := Pool.takenBy_run hrun i
    simpa [Pool.takenBy, Pool.fresh] using htaken

/-! ## A registration and a list -/

def askedRegist : Accepted :=
  ⟨3, .registItem ⟨1, [⟨0, 7, 0, 5, 3, 10, "24"⟩]⟩,
    .registItem ⟨1, [⟨0, 7, 0, 5, 3, 10, "24"⟩]⟩ (List.cons_ne_nil _ _), rfl⟩

def askedList : Accepted := ⟨5, .auctionList ⟨7, 1, 8, true⟩, .auctionList ⟨7, 1, 8, true⟩, rfl⟩

def answeredEvents : List (PoolEvent Accepted) :=
  [.start 0 askedRegist, .call 0 none, .start 1 askedList, .call 1 none, .call 0 none, .finish 0, .call 1 none,
    .finish 1]

theorem requests_answered_two_sessions : ∃ q,
    run (Pool.step mysqlLaw Accepted.process) (Pool.fresh (idle emptyMarket 0 1)) answeredEvents = some q ∧
    q.finished.length = 2 ∧
    ∀ x ∈ q.finished, ∃ response, x.result = some (x.task.session, response) ∧ x.task.request.AnsweredBy response := by
  have hsome : (run (Pool.step mysqlLaw Accepted.process) (Pool.fresh (idle emptyMarket 0 1)) answeredEvents).map
      (fun q => q.finished.length) = some 2 := by decide
  obtain ⟨q, hq, hlen⟩ := Option.map_eq_some_iff.mp hsome
  have hcalm : Along (Pool.step mysqlLaw Accepted.process) (Pool.Undisturbed fun a => a.task.onlyLogged)
      (Pool.fresh (idle emptyMarket 0 1)) answeredEvents := by
    refine along_of_forall _ fun e he s i fault heq j hj _ => ?_
    subst heq
    simp [answeredEvents] at he
    tauto
  have hready : Along (Pool.step mysqlLaw Accepted.process) (Admitted Ready)
      (Pool.fresh (idle emptyMarket 0 1)) answeredEvents := by
    refine ⟨?_, fun s _ => along_of_forall s fun e he t i a heq => ?_⟩
    · rintro i a heq
      obtain ⟨rfl, rfl⟩ := PoolEvent.start.inj heq
      rfl
    · subst heq
      simp at he
      obtain ⟨-, rfl⟩ := he
      trivial
  refine ⟨q, hq, hlen, fun x hx => ?_⟩
  obtain ⟨response, hresult, hanswered, -⟩ := (requests_answered hcalm hready hq).1 x hx
  exact ⟨response, hresult, hanswered⟩

/-! ## A list that nobody gets -/

/-- The connection is lost during the query. -/
def failedListEvents : List (PoolEvent Accepted) :=
  [.start 0 askedList, .call 0 (some ⟨.lost, ⟨2013, ""⟩⟩), .finish 0]

theorem failed_list_unanswered : ∃ q x,
    run (Pool.step mysqlLaw Accepted.process) (Pool.fresh (idle emptyMarket 0 1)) failedListEvents = some q ∧
    q.finished = [x] ∧ x.task.session = 5 ∧ x.result = none := by
  have hrun : (run (Pool.step mysqlLaw Accepted.process) (Pool.fresh (idle emptyMarket 0 1)) failedListEvents).map
      (fun q => q.finished.map fun x => (x.task.session, x.result)) = some [(5, none)] := by decide
  obtain ⟨q, hq, hres⟩ := Option.map_eq_some_iff.mp hrun
  obtain ⟨x, hx, heq⟩ := List.map_eq_singleton_iff.mp hres
  simp only [Prod.mk.injEq] at heq
  exact ⟨q, x, hq, hx, heq⟩

end Auction
