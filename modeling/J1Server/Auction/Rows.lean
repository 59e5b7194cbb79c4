import J1Server.Auction.Service
import J1Server.Lib.Chain

/-! # What becomes of a listing

Whatever the tasks of the AuctionServer do, and whatever fails: a listing keeps its seller and its time,
and only loses units. -/

namespace Auction

open Lib Lib.Server Core

/-- Keys are used from `key` on, and an update leaves fewer units, but some. -/
def Admissible (key : Int) (db : Database) : Write → Prop
  | .insertListing row => key ≤ row.listingId
  | .updateListing row => ∃ l count, db.auctionListings.get? row.listingId = some l ∧ 0 < count ∧
      count < l.remainingQuantity ∧ row = l.take count
  | _ => True

theorem admissible_local (key : Int) : Local (D := auctionDb) (Admissible key) := by
  intro w db db' hrows h
  cases w with
  | updateListing row =>
    have hrow : look (.listing row.listingId) db = look (.listing row.listingId) db' := hrows _ rfl
    have hget : db.auctionListings.get? row.listingId = db'.auctionListings.get? row.listingId :=
      RowValue.listing.inj hrow
    obtain ⟨l, count, hl, hcount⟩ := h
    exact ⟨l, count, hget ▸ hl, hcount⟩
  | insertListing row => exact h
  | updateCharacter c => trivial
  | deleteListing id => trivial
  | insertTransaction row => trivial
  | insertReceipt row => trivial

/-! ## The statements -/

def Guarded : Stmt → Prop
  | .updateQuantity count _ moreThan => 0 < count ∧ count ≤ moreThan
  | _ => True

theorem guarded_writes {st : Stmt} (h : Guarded st) (key : Int) : Writes (D := auctionDb) (Admissible key) key st := by
  intro now next db hkey
  cases st with
  | selectListings mine seller => trivial
  | selectReceipts owner => trivial
  | selectListingForUpdate id => trivial
  | insertListing seller item quantity price hours => exact ⟨hkey, trivial⟩
  | updateGold amount account atLeast =>
    refine chain_of_forall fun w hw _ => ?_
    obtain ⟨c, -, rfl⟩ := List.mem_map.mp hw
    trivial
  | deleteListing id =>
    cases hget : db.auctionListings.get? id with
    | none => simp [Stmt.effect, hget, Chain]
    | some l => simp [Stmt.effect, hget, Chain, Admissible]
  | updateQuantity count id moreThan =>
    obtain ⟨hpos, hle⟩ := h
    cases hget : db.auctionListings.get? id with
    | none => simp [Stmt.effect, hget, Chain]
    | some l =>
      by_cases hmore : moreThan < l.remainingQuantity ∧ count ≠ 0
      · simp only [Stmt.effect, hget, if_pos hmore]
        have hid : l.listingId = id := Table.key_of_get? hget
        refine ⟨⟨l, count, hid.symm ▸ hget, hpos, ?_, rfl⟩, trivial⟩
        omega
      · simp [Stmt.effect, hget, if_neg hmore, Chain]
  | insertTransaction row => exact ⟨trivial, trivial⟩
  | insertReceipts rows =>
    refine chain_of_forall fun w hw _ => ?_
    obtain ⟨r, -, rfl⟩ := List.mem_map.mp hw
    trivial

/-! ## The tasks -/

abbrev Permitted (key : Int) : Call auctionDb → Prop := WritesOnly (D := auctionDb) (Admissible key) key

variable {key : Int} {info : AuctionItemInfo}

theorem statement_calls {σ α : Type} {st : Stmt} {f : st.Reply → Act (Sql auctionDb) σ α} {t : σ} (hst : Guarded st)
    (hf : ∀ r t, ((f r).prog t).Calls (Permitted key)) :
    ((execute (D := auctionDb) st >>= f).prog t).Calls (Permitted key) :=
  Act.calls_bind (calls_statement (guarded_writes hst key) trivial) hf

theorem recordSale_calls (row : Listing) (total t : Int) :
    ((recordSale info row total).prog t).Calls (Permitted key) := by
  refine statement_calls trivial fun (affected : Int) t => ?_
  refine Act.calls_ite (fun _ => trivial) fun _ => ?_
  refine statement_calls trivial fun (receipts : Int) t => ?_
  refine Act.calls_ite (fun _ => trivial) fun _ => ?_
  exact ⟨trivial, fun o => by cases o <;> trivial⟩

theorem takeStock_calls (hcount : 0 < info.count) (row : Listing) (total t : Int) :
    ((takeStock info row total).prog t).Calls (Permitted key) := by
  have rest (changed t : Int) : ((if changed = 0 then throw (sqlException "quantity update failed")
      else recordSale info row total : Act (Sql auctionDb) Int Unit).prog t).Calls (Permitted key) :=
    Act.calls_ite (fun _ => trivial) fun _ => recordSale_calls row total t
  by_cases hall : toInt32 row.remainingQuantity = info.count
  · simp only [takeStock, if_pos hall]
    exact statement_calls trivial rest
  · simp only [takeStock, if_neg hall]
    exact statement_calls ⟨hcount, le_refl _⟩ rest

theorem tryPurchase_calls (t : Int) : ((tryPurchase info).prog t).Calls (Permitted key) := by
  refine Act.calls_bind (Act.calls_call trivial) fun _ t => ?_
  refine Act.calls_ite (fun _ => trivial) fun hcount => ?_
  refine statement_calls trivial fun (found : Option Listing) t => ?_
  cases found with
  | none => trivial
  | some row =>
    simp only [Act.prog_set_bind]
    refine Act.calls_ite (fun _ => trivial) fun _ => ?_
    refine statement_calls trivial fun (charged : Int) t => ?_
    exact Act.calls_ite (fun _ => trivial) fun _ => takeStock_calls (by omega) row _ _

theorem purchaseFrom_calls (left attempt : Nat) (result : PurchaseResult) :
    (purchaseFrom info left attempt result).Calls (Permitted key) := by
  induction left generalizing attempt result with
  | zero => trivial
  | succ left ih =>
    refine Prog.Calls.bind (tryPurchase_calls 0) ?_
    rintro ⟨outcome, total⟩
    cases outcome with
    | ok u => exact ⟨trivial, fun _ => trivial⟩
    | error e =>
      refine ⟨trivial, fun _ => ⟨trivial, fun _ => ?_⟩⟩
      by_cases hretry : retryable e attempt
      · simpa [hretry] using ih (attempt + 1) ⟨false, total⟩
      · simp [hretry, Prog.Calls]

theorem process_calls (task : Task) : task.process.Calls (Permitted key) := by
  cases task with
  | auctionList pkt => exact Prog.Calls.bind (statement_calls trivial fun _ _ => trivial) fun _ => trivial
  | receiptList pkt => exact Prog.Calls.bind (statement_calls trivial fun _ _ => trivial) fun _ => trivial
  | registItem pkt h => exact Prog.Calls.bind (statement_calls trivial fun _ _ => trivial) fun _ => trivial
  | purchaseItem pkt h => exact Prog.Calls.bind (purchaseFrom_calls _ _ _) fun _ => trivial

/-! ## Every run -/

variable {law : Call auctionDb → Harm → Bool}

def RowsKept (law : Call auctionDb → Harm → Bool) (key : Int) : Pool auctionDb Task (Option Response) → Prop :=
  Upheld law (fun s => key ≤ s.next) (Grown (Admissible key))
    (fun i s => s.WF ∧ Chain (D := auctionDb) (Admissible key) (pendingWrites s i) s.db) fun _ _ _ _ _ => True

theorem rowsKept_fresh (db : Database) (now next : Int) : RowsKept law next (Pool.fresh (idle db now next)) := by
  have hw : (idle db now next : Server auctionDb).WF := idle_wf (D := auctionDb) db now next
  exact upheld_fresh hw (le_refl _) fun _ => ⟨hw, trivial⟩

theorem rows_run {p q : Pool auctionDb Task (Option Response)} (hp : RowsKept law key p)
    {es : List (PoolEvent Task)} (hr : run (Pool.step law Task.process) p es = some q) :
    RowsKept law key q ∧ Grown (Admissible key) p.server q.server :=
  contract_run (chain_contract auctionDb_lawful (admissible_local key) process_calls) hp
    (along_of_forall _ fun _ _ _ _ _ _ => trivial) hr

/-! ## What becomes of a row -/

/-- `l'` is what became of `l`, a row of `db`. -/
structure Heir (db : Database) (l' l : Listing) : Prop where
  mem : l ∈ db.auctionListings.rows
  listingId : l.listingId = l'.listingId
  sellerId : l.sellerId = l'.sellerId
  left : l' = l ∨ 0 < l'.remainingQuantity ∧ l'.remainingQuantity < l.remainingQuantity

theorem heir_self {db : Database} {l : Listing} (h : l ∈ db.auctionListings.rows) : Heir db l l :=
  ⟨h, rfl, rfl, Or.inl rfl⟩

theorem Heir.trans {db db' : Database} {l l' l'' : Listing} (h : Heir db l' l) (h' : Heir db' l'' l') :
    Heir db l'' l := by
  refine ⟨h.mem, h.listingId.trans h'.listingId, h.sellerId.trans h'.sellerId, ?_⟩
  rcases h'.left with rfl | hless
  · exact h.left
  · rcases h.left with rfl | hless'
    · exact Or.inr hless
    · exact Or.inr ⟨hless.1, hless.2.trans hless'.2⟩

theorem write_heirs {w : Write} {db : Database} (hw : Admissible key db w) {l' : Listing}
    (hl' : l' ∈ (w.apply db).auctionListings.rows) : w = .insertListing l' ∨ ∃ l, Heir db l' l := by
  cases w with
  | insertListing row =>
    rcases Table.mem_insert hl' with rfl | hl'
    · exact Or.inl rfl
    · exact Or.inr ⟨l', heir_self hl'⟩
  | updateListing row =>
    obtain ⟨l, count, hget, hpos, hless, rfl⟩ := hw
    rcases Table.mem_replace.mp hl' with ⟨rfl, -⟩ | ⟨hl', -⟩
    · refine Or.inr ⟨l, (Table.get?_eq_some.mp hget).1, rfl, rfl, Or.inr ?_⟩
      simp only [Listing.take]
      omega
    · exact Or.inr ⟨l', heir_self hl'⟩
  | deleteListing id => exact Or.inr ⟨l', heir_self (List.mem_filter.mp hl').1⟩
  | updateCharacter c => exact Or.inr ⟨l', heir_self hl'⟩
  | insertTransaction row => exact Or.inr ⟨l', heir_self hl'⟩
  | insertReceipt row => exact Or.inr ⟨l', heir_self hl'⟩

/-- A row after a run of writes was registered there, or it is what became of a row. -/
theorem chain_heirs {ws : List Write} {db : Database} (h : Chain (D := auctionDb) (Admissible key) ws db) :
    ∀ l' ∈ (writeAll ws db).auctionListings.rows,
      (∃ row, Write.insertListing row ∈ ws ∧ row.listingId = l'.listingId) ∨ ∃ l, Heir db l' l := by
  induction ws generalizing db with
  | nil => exact fun l' hl' => Or.inr ⟨l', heir_self hl'⟩
  | cons w ws ih =>
    intro l' hl'
    rcases ih h.2 l' hl' with ⟨row, hrow, hid⟩ | ⟨l, hheir⟩
    · exact Or.inl ⟨row, List.mem_cons_of_mem _ hrow, hid⟩
    · rcases write_heirs h.1 hheir.mem with rfl | ⟨l₀, hheir₀⟩
      · exact Or.inl ⟨l, List.mem_cons_self, hheir.listingId⟩
      · exact Or.inr ⟨l₀, hheir₀.trans hheir⟩

theorem chain_inserts {ws : List Write} {db : Database} (h : Chain (D := auctionDb) (Admissible key) ws db)
    {row : Listing} (hrow : Write.insertListing row ∈ ws) : key ≤ row.listingId := by
  obtain ⟨before, after, rfl⟩ := List.append_of_mem hrow
  exact (chain_append.mp h).2.1

end Auction
