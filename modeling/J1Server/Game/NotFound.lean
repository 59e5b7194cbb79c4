import J1Server.Auction.Stock
import J1Server.Game.Cache
import J1Server.Lib.Chain

/-! # A listing that the cache does not have

The cache takes a listing for gone when its id is at most the largest id of the
snapshot, and not in it. -/

namespace Game

open Lib Lib.Server Core Auction

variable {law : Call auctionDb → Harm → Bool} {i : Nat} {s s' : Server auctionDb}

/-! ## What the list query reads -/

theorem processAuctionList_eq (pkt : ReqAuctionList) : processAuctionList pkt =
    oneStatement (.selectListings pkt.mylist pkt.playerId) fun rows : List Listing =>
      .auctionList pkt.sessionId pkt.requestId pkt.mylist (rows.map itemOf) := caught_eq _ _ _

def Clean (i : Nat) (s s' : Server auctionDb) : Prop :=
  (s.conns i).pending = [] → (s'.conns i).pending = []

theorem clean_of_moved {j : Nat} (h : Moved j s s') (hij : i ≠ j) : Clean i s s' := by
  unfold Clean
  rw [h.others i hij]
  exact id

def Harmless (c : Call auctionDb) : Prop :=
  ∀ st, c = .exec st → ∀ now next db, (st.effect now next db).writes = []

theorem reads_harmless {task : Task} (hreads : task.reads = true) : task.process.Calls Harmless := by
  have finish : Harmless .finish := by rintro st ⟨⟩
  cases task with
  | auctionList pkt =>
    refine Prog.Calls.bind (Act.calls_bind (calls_statement ?_ finish) fun _ _ => trivial) fun _ => trivial
    rintro st ⟨⟩ now next db
    rfl
  | receiptList pkt =>
    refine Prog.Calls.bind (Act.calls_bind (calls_statement ?_ finish) fun _ _ => trivial) fun _ => trivial
    rintro st ⟨⟩ now next db
    rfl
  | registItem pkt h => cases hreads
  | purchaseItem pkt h => cases hreads

def ReadsOnly (reader : Nat) : Server auctionDb → Nat → Task → Prop :=
  fun _ i task => i = reader → task.reads = true

theorem reader_contract (reader : Nat) :
    Contract law Task.process (ReadsOnly reader) (fun s => (s.conns reader).pending = []) (Clean reader)
      (fun _ _ => True) (fun _ _ _ _ _ => True) where
  lawful := auctionDb_lawful
  refl _ := id
  trans _ _ _ h h' := h' ∘ h
  tick _ _ := id
  begin_task s i := by
    by_cases hi : reader = i
    · subst hi
      simp [Clean]
    · exact clean_of_moved (moved_beginTask i s) hi
  inv _ _ h h' := h' h
  idle _ _ _ _ _ := trivial
  done _ _ _ _ _ _ _ _ _ := trivial
  spec i task s _ _ _ hallowed := by
    by_cases hi : reader = i
    · subst hi
      have hsafe : Safe (Others (Clean reader) reader) (Step law reader) (Clean reader) task.process
          (fun _ _ _ => True) (s.beginTask reader) := by
        refine Safe.of_calls (J := fun _ => True) (fun _ _ _ _ => trivial) ?_ (reads_harmless (hallowed rfl)) trivial
        intro c a o b hc _ hs
        exact ⟨hs.pending_nil fun st heq => hc st heq _ _ _, trivial⟩
      exact hsafe.mono fun _ _ _ _ => ⟨trivial, trivial⟩
    · refine (Safe.of_steps (fun _ _ _ _ h => ?_) _ _).mono fun _ _ _ _ => ⟨trivial, trivial⟩
      exact clean_of_moved (h.moved auctionDb_lawful) hi

/-- What a response says of the tables that its query saw. -/
def ReadFrom (db : Database) (now : Int) (pkt : ReqAuctionList) (r : Option Response) : Prop :=
  ∀ sessionId requestId mylist items, r = some (.auctionList sessionId requestId mylist items) →
    pkt.mylist = mylist ∧ items = (listingsOf db now pkt.mylist pkt.playerId).map itemOf

theorem query_ends {p q : Pool auctionDb Task (Option Response)} {pkt : ReqAuctionList}
    {fault : Option Fault} (hpending : (p.server.conns i).pending = [])
    (hquery : p.jobs i = some ⟨.auctionList pkt, processAuctionList pkt⟩)
    (h : p.step law Task.process (.call i fault) = some q) :
    ∀ j, q.jobs i = some j → j.rest.Ends (ReadFrom p.server.db p.server.now pkt) := by
  obtain ⟨task, c, k, o, s', hjob, hs, rfl⟩ := Pool.step_call h
  rw [hquery, processAuctionList_eq] at hjob
  cases hjob
  rintro j hj
  simp only [Function.update_self] at hj
  obtain rfl := Option.some.inj hj
  rcases hs.exec auctionDb_lawful with ⟨rfl, -, -, -⟩ | ⟨e, rfl, -⟩
  · intro o'
    cases o' with
    | ok u =>
      rintro sessionId requestId mylist items heq
      obtain ⟨-, -, hmine, rfl⟩ := Response.auctionList.inj (Option.some.inj heq)
      have hview : p.server.view i = p.server.db := by rw [view, hpending, applyAll_nil]
      refine ⟨hmine, ?_⟩
      rw [Server.effect, hview]
      rfl
    | error e => rintro sessionId requestId mylist items ⟨⟩
  · rintro sessionId requestId mylist items ⟨⟩

/-! ## A purchase of a listing that is gone -/

structure Unchanged (s s' : Server auctionDb) : Prop where
  db : s'.db = s.db
  history : s'.history = s.history
  now : s'.now = s.now

theorem unchanged_of_quiet (h : Quiet i s s') : Unchanged s s' := ⟨h.db, h.history, h.now⟩

theorem surroundings_unchanged (i : Nat) :
    Surroundings (D := auctionDb) i Eq Unchanged (fun _ _ => True) where
  lawful := auctionDb_lawful
  rely s _ h := h ▸ Rely.refl i s
  refl _ := rfl
  trans _ _ _ h h' := h.trans h'
  during _ _ h := h ▸ ⟨rfl, rfl, rfl⟩
  during_trans _ _ _ h h' := ⟨h'.db.trans h.db, h'.history.trans h.history, h'.now.trans h.now⟩
  quiet _ _ h := unchanged_of_quiet h
  guar _ _ _ := trivial

/-- A listing that no purchase can find. -/
def Gone (db : Database) (now listingId : Int) : Prop := liveListing db now listingId = none

/-- A listing from which the buyer can have what he asks for. -/
structure Sellable (db : Database) (now : Int) (info : AuctionItemInfo) (row : Listing) : Prop where
  live : liveListing db now info.listId = some row
  count : 0 < info.count
  notOwn : toInt64 row.sellerId ≠ info.playerId
  stock : toInt32 row.remainingQuantity = info.count ∨ info.count < row.remainingQuantity

theorem tryPurchase_throws (hw : s.WF) (hpending : (s.conns i).pending = []) {info : AuctionItemInfo}
    (hno : ∀ row, ¬Sellable s.db s.now info row) {tr : List (Answered (Sql auctionDb))}
    {r : Except SqlException Unit × Int}
    (hexec : Exec Eq (Step law i) ((tryPurchase info).prog 0) s tr r s') :
    (∃ e, r.1 = .error e) ∧ Unchanged s s' := by
  -- Every sale was possible where it found its listing, and this one is not.
  have hnone : ∀ sale s₁, sale.info = info → ¬Sold i (s.conns i).task [] Unchanged s sale s₁ := by
    rintro sale s₁ rfl hsold
    obtain ⟨s₂, h₂, hlive, hget⟩ := hsold.found
    rw [applyAll_nil, h₂.db] at hget
    rw [h₂.now] at hlive
    exact hno sale.row ⟨liveListing_eq_some.mpr ⟨hget, hlive⟩, hsold.count, hsold.notOwn, hsold.stock⟩
  have hS := surroundings_unchanged i
  have hsafe : Safe Eq (Step law i) (fun _ _ => True) ((tryPurchase info).prog 0)
      (Outcome i (s.conns i).task [] Eq Unchanged s info 1) s :=
    tryPurchase_safe hS (fun sale s₁ hi hsold => absurd hsold (hnone sale s₁ hi)) hw rfl hpending
      (hS.during _ _ rfl)
  obtain ⟨-, hr⟩ := hsafe.exec hexec
  cases hres : r.1 with
  | ok u =>
    rw [hres] at hr
    obtain ⟨-, sale, s₁, hi, -, hsold, -⟩ := hr
    exact absurd hsold (hnone sale s₁ hi)
  | error e =>
    rw [hres] at hr
    exact ⟨⟨e, rfl⟩, hr.2.during⟩

/-! ## What the market does to a listing -/

instance : Std.Total byListingId := ⟨fun a b => le_total a.listingId b.listingId⟩

instance : IsTrans Listing byListingId := ⟨fun _ _ _ h h' => le_trans (α := Int) h h'⟩

/-- The list is a prefix by id: an id up to that of one of its rows is the id of one of its rows. -/
theorem mem_listingsOf {db : Database} {now playerId : Int} {l last : Listing}
    (hl : l ∈ db.auctionListings.rows) (hlive : now < l.expiredAt)
    (hlast : last ∈ listingsOf db now false playerId) (hle : l.listingId ≤ last.listingId) :
    ∃ row ∈ listingsOf db now false playerId, row.listingId = l.listingId := by
  have hsorted := List.pairwise_insertionSort byListingId
    (db.auctionListings.rows.filter fun x => now < x.expiredAt)
  have hmem : l ∈ (db.auctionListings.rows.filter fun x => now < x.expiredAt).insertionSort byListingId :=
    (List.mem_insertionSort _).mpr (List.mem_filter.mpr ⟨hl, decide_eq_true hlive⟩)
  simp only [listingsOf, Bool.false_eq_true, if_false] at hlast ⊢
  rw [← List.take_append_drop 100 (List.insertionSort _ _)] at hsorted hmem
  rcases List.mem_append.mp hmem with hmem | hmem
  · exact ⟨l, hmem, rfl⟩
  · -- Behind the first hundred: then the last one has the same id.
    have hbehind : last.listingId ≤ l.listingId :=
      (List.pairwise_append.mp hsorted).2.2 last hlast l hmem
    exact ⟨last, hlast, le_antisymm hbehind hle⟩

theorem listingsOf_live {db : Database} {now playerId : Int} {l : Listing}
    (h : l ∈ listingsOf db now false playerId) : l ∈ db.auctionListings.rows ∧ now < l.expiredAt := by
  simp only [listingsOf, Bool.false_eq_true, if_false] at h
  have hmem := (List.mem_insertionSort _).mp (List.mem_of_mem_take h)
  simpa using List.mem_filter.mp hmem

/-- A listing that is live, and rejected as not found, is not one of those that the snapshot was made
of. -/
theorem reject_not_live {db : Database} {now playerId fetched clock listId count buyerId : Int}
    {pb : Protobuf ResAuctionList} (hpos : ∀ l ∈ db.auctionListings.rows, 0 < l.listingId)
    (hv : validatePurchase
      (some (finishRefresh pb fetched ((listingsOf db now false playerId).map itemOf))) clock listId count
      buyerId = .rejectNotFound)
    {l : Listing} (hl : l ∈ db.auctionListings.rows) (hid : l.listingId = listId) :
    l.expiredAt ≤ now := by
  by_contra hexpired
  have hlive : now < l.expiredAt := by omega
  have hlpos := hpos l hl
  obtain ⟨hnone, hle⟩ := validatePurchase_notFound hv
  simp only [finishRefresh] at hnone hle
  have hmaxpos : 0 < (indexItems ((listingsOf db now false playerId).map itemOf)).2 := by omega
  obtain ⟨item, hitem, hmax⟩ := maxListId_attained hmaxpos
  obtain ⟨last, hlast, rfl⟩ := List.mem_map.mp hitem
  have hcut : toInt32 last.listingId ≤ last.listingId :=
    toInt32_le (hpos last (listingsOf_live hlast).1).le
  have hbound := toInt32_bounds last.listingId
  change toInt32 last.listingId = _ at hmax
  obtain ⟨row, hrow, hrid⟩ := mem_listingsOf hl hlive hlast (by omega)
  apply index_none hnone (itemOf row) (List.mem_map_of_mem hrow)
  change toInt32 row.listingId = listId
  rw [hrid, hid, toInt32_eq_iff]
  constructor <;> omega

/-! ## Every run -/

/-- A list that a reader asks for is what was committed when its query ran. -/
theorem list_committed {db : Database} {now next : Int} {es₁ es₂ : List (PoolEvent Task)}
    {p r : Pool auctionDb Task (Option Response)} {reader : Nat}
    (hreads : ∀ task, .start reader task ∈ es₁ → task.reads = true)
    (hp : run (Pool.step law Task.process) (Pool.fresh (idle db now next)) es₁ = some p)
    {req : ReqAuctionList} (hquery : p.jobs reader = some ⟨.auctionList req, processAuctionList req⟩)
    {fault : Option Fault} (hsame : ∀ task, .start reader task ∉ es₂)
    (hr : run (Pool.step law Task.process) p (.call reader fault :: es₂) = some r)
    {sessionId requestId : Int} {items : List AuctionItemInfo}
    (hresponse : (r.jobs reader).bind Job.result? =
      some (some (.auctionList sessionId requestId false items))) :
    items = (listingsOf p.server.db p.server.now false req.playerId).map itemOf := by
  have hpending : (p.server.conns reader).pending = [] := by
    refine (contract_run (reader_contract reader) (upheld_fresh (idle_wf db now next) rfl fun _ => trivial)
      (along_of_forall _ ?_) hp).1.inv
    rintro e he s i task rfl rfl
    exact hreads task he
  obtain ⟨p₁, hcall, hrest⟩ := run_cons_iff.mp hr
  obtain ⟨hmine, hitems⟩ := Pool.run_result (query_ends hpending hquery hcall) hsame hrest hresponse _ _ _ _ rfl
  rwa [hmine] at hitems

def sampleList : ReqAuctionList := ⟨0, 1, 0, false⟩

def emptyPacket : Protobuf ResAuctionList := ⟨fun _ => 0, fun _ => [], fun _ => none⟩

/-- The first registration has its id, and is not finished when the second one is. -/
def lateEvents : List (PoolEvent Task) :=
  [.start 0 sampleRegist, .call 0 none, .start 1 sampleRegist, .call 1 none, .call 1 none, .finish 1,
    .start 2 (.auctionList sampleList)]

end Game
