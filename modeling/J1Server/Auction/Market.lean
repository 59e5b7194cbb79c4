import J1Server.Auction.Service
import Mathlib.Data.List.Induction

/-! # The market

What the auction is for, with no connection and no transaction in sight: a
listing is registered, and units of it are sold. Each deal is a list of writes
that take effect together. -/

namespace Auction

open Lib Core

/-! ## A sale -/

/-- A purchase, the listing it found and the characters it charged, as they were before. -/
structure Sale where
  info : AuctionItemInfo
  row : Listing
  charged : List CharacterBase

namespace Sale

def total (s : Sale) : Int := toInt64 (toInt64 s.row.price * s.info.count)

def payments (s : Sale) : List Write := s.charged.map fun c => .updateCharacter (c.charge s.total)

def stock (s : Sale) : Write :=
  if toInt32 s.row.remainingQuantity = s.info.count then .deleteListing s.info.listId
  else .updateListing (s.row.take s.info.count)

def transaction (s : Sale) : Transaction := ⟨toInt32 s.row.itemId, s.info.count, s.total⟩

def buyerReceipt (s : Sale) : Receipt :=
  ⟨s.info.playerId, 3, none, some (toInt32 s.row.itemId), some s.info.count, s.info.listId⟩

def sellerReceipt (s : Sale) : Receipt :=
  ⟨toInt64 s.row.sellerId, 1, some s.total, none, none, s.info.listId⟩

def writes (s : Sale) : List Write :=
  s.payments ++ [s.stock, .insertTransaction s.transaction, .insertReceipt s.buyerReceipt,
    .insertReceipt s.sellerReceipt]

/-- What the statements of a purchase have checked by the time it commits. -/
structure Ok (s : Sale) (db : Database) : Prop where
  count : 0 < s.info.count
  row : db.auctionListings.get? s.info.listId = some s.row
  notOwn : toInt64 s.row.sellerId ≠ s.info.playerId
  distinct : (s.charged.map CharacterBase.characterId).Nodup
  payers : ∀ c ∈ s.charged, db.characterBase.get? c.characterId = some c ∧
    c.accountId = s.info.playerId ∧ s.total ≤ c.gold
  paid : s.charged ≠ []
  nonzero : s.total ≠ 0
  stock : toInt32 s.row.remainingQuantity = s.info.count ∨ s.info.count < s.row.remainingQuantity

end Sale

/-! ## What a sale leaves -/

theorem writeAll_payments (s : Sale) (db : Database) :
    writeAll s.payments db =
      { db with characterBase := (s.charged.map (·.charge s.total)).foldl Table.replace db.characterBase } := by
  unfold Sale.payments
  generalize s.charged = cs
  induction cs generalizing db with
  | nil => rfl
  | cons c cs ih =>
    rw [List.map_cons, writeAll_cons, ih]
    rfl

def Sale.listingsAfter (s : Sale) (db : Database) : Table Listing.listingId :=
  if toInt32 s.row.remainingQuantity = s.info.count then db.auctionListings.erase s.info.listId
  else db.auctionListings.replace (s.row.take s.info.count)

theorem writeAll_sale (s : Sale) (db : Database) :
    writeAll s.writes db =
      { characterBase := (s.charged.map (·.charge s.total)).foldl Table.replace db.characterBase
        auctionListings := s.listingsAfter db
        auctionTransactions := db.auctionTransactions ++ [s.transaction]
        auctionReceipts := db.auctionReceipts ++ [s.buyerReceipt, s.sellerReceipt] } := by
  rw [Sale.writes, writeAll_append, writeAll_payments]
  simp only [writeAll_cons, writeAll_nil, Sale.stock, Sale.listingsAfter]
  split <;> simp [Write.apply]

theorem charged_keys (s : Sale) :
    (s.charged.map (·.charge s.total)).map CharacterBase.characterId =
      s.charged.map CharacterBase.characterId := by
  simp [Function.comp_def, CharacterBase.charge]

theorem character_after {s : Sale} {db : Database} (h : s.Ok db) {id : Int} {c : CharacterBase}
    (hc : db.characterBase.get? id = some c) :
    ∃ c', (writeAll s.writes db).characterBase.get? id = some c' ∧
      (c' = c ∨ (c' = c.charge s.total ∧ c.accountId = s.info.playerId ∧ s.total ≤ c.gold)) := by
  rw [writeAll_sale]
  simp only
  rw [Table.get?_foldl_replace _ _ (by rw [charged_keys]; exact h.distinct), hc]
  refine ⟨_, rfl, ?_⟩
  cases hf : (s.charged.map (·.charge s.total)).find? fun x => x.characterId = id with
  | none => exact Or.inl rfl
  | some x =>
    right
    obtain ⟨y, hy, rfl⟩ := List.mem_map.mp (List.mem_of_find?_eq_some hf)
    have hid : (y.charge s.total).characterId = id := by simpa using List.find?_some hf
    change y.characterId = id at hid
    obtain ⟨hyget, hacc, hgold⟩ := h.payers y hy
    rw [hid, hc] at hyget
    obtain rfl := Option.some.inj hyget
    exact ⟨rfl, hacc, hgold⟩

theorem row_key {s : Sale} {db : Database} (h : s.Ok db) : s.row.listingId = s.info.listId :=
  Table.key_of_get? h.row

theorem listing_after {s : Sale} {db : Database} (h : s.Ok db) (id : Int) :
    (writeAll s.writes db).auctionListings.get? id =
      if id = s.info.listId then
        if toInt32 s.row.remainingQuantity = s.info.count then none else some (s.row.take s.info.count)
      else db.auctionListings.get? id := by
  have hkey := row_key h
  rw [writeAll_sale]
  simp only [Sale.listingsAfter]
  by_cases hid : id = s.info.listId
  · subst hid
    split
    · simp [Table.get?_erase]
    · simp [Table.get?_replace, Listing.take, hkey, h.row]
  · split
    · simp [Table.get?_erase, Ne.symm hid]
    · simp [Table.get?_replace, Listing.take, hkey, Ne.symm hid]

theorem row_mem {s : Sale} {db : Database} (h : s.Ok db) : s.row ∈ db.auctionListings.rows :=
  (Table.get?_eq_some.mp h.row).1

/-- A row that is there after a sale is an old row, or what is left of the listing. -/
theorem listing_left {s : Sale} {db : Database} (h : s.Ok db) {l : Listing}
    (hl : l ∈ (writeAll s.writes db).auctionListings.rows) :
    l ∈ db.auctionListings.rows ∨
      (l = s.row.take s.info.count ∧ s.info.count < s.row.remainingQuantity) := by
  have hget := Table.get?_of_mem hl
  rw [listing_after h] at hget
  split at hget
  · split at hget
    · cases hget
    · rename_i hmore
      rcases h.stock with hlast | hlt
      · exact absurd hlast hmore
      · exact Or.inr ⟨(Option.some.inj hget).symm, hlt⟩
  · exact Or.inl (Table.get?_eq_some.mp hget).1

/-! ## Deals -/

/-- The committed database, with every write it was made of. -/
structure Market where
  db : Database
  history : List Write

inductive Deal
  | regist (row : Listing)
  | sale (s : Sale)

def Deal.writes : Deal → List Write
  | .regist row => [.insertListing row]
  | .sale s => s.writes

def Unused (history : List Write) (id : Int) : Prop :=
  ∀ row, Write.insertListing row ∈ history → row.listingId ≠ id

def Deal.Ok (m : Market) : Deal → Prop
  | .regist row => Unused m.history row.listingId
  | .sale s => s.Ok m.db

def Market.write (m : Market) (ws : List Write) : Market :=
  ⟨writeAll ws m.db, m.history ++ ws⟩

inductive Trades (allowed : Deal → Prop) : Market → Market → Prop
  | refl (m : Market) : Trades allowed m m
  | step {m m' : Market} (d : Deal) :
      Trades allowed m m' → allowed d → d.Ok m' → Trades allowed m (m'.write d.writes)

theorem write_append (m : Market) (ws ws' : List Write) :
    m.write (ws ++ ws') = (m.write ws).write ws' := by
  simp [Market.write, writeAll_append]

variable {allowed : Deal → Prop} {m m' m'' : Market}

theorem Trades.trans (h : Trades allowed m m') (h' : Trades allowed m' m'') : Trades allowed m m'' := by
  induction h' with
  | refl => exact h
  | step d _ hd hok ih => exact .step d ih hd hok

theorem Trades.invariant {P : Market → Prop}
    (hstep : ∀ m d, P m → allowed d → d.Ok m → P (m.write d.writes)) (h : Trades allowed m m')
    (hm : P m) : P m' := by
  induction h with
  | refl => exact hm
  | step d _ hd hok ih => exact hstep _ d ih hd hok

theorem Trades.history (h : Trades allowed m m') : m.history <+: m'.history := by
  induction h with
  | refl => exact List.prefix_rfl
  | step d _ _ _ ih => exact ih.trans (List.prefix_append _ _)

/-- Registrations with ids of their own, one after the other. -/
theorem trades_regist {rows : List Listing} (hrows : ∀ row ∈ rows, allowed (.regist row))
    (hunused : ∀ row ∈ rows, Unused m.history row.listingId)
    (hdistinct : (rows.map Listing.listingId).Nodup) :
    Trades allowed m (m.write (rows.map .insertListing)) := by
  induction rows using List.reverseRecOn with
  | nil =>
    have hrefl : Trades allowed m m := .refl m
    simpa [Market.write] using hrefl
  | append_singleton rows row ih =>
    rw [List.map_append, List.nodup_append] at hdistinct
    rw [List.map_append, write_append]
    refine .step (.regist row) (ih (fun r hr => hrows r (by simp [hr]))
      (fun r hr => hunused r (by simp [hr])) hdistinct.1) (hrows row (by simp)) ?_
    intro r hr
    rcases List.mem_append.mp hr with hr | hr
    · exact hunused row (by simp) r hr
    · obtain ⟨r', hr', hrr⟩ := List.mem_map.mp hr
      cases hrr
      exact hdistinct.2.2 _ (List.mem_map_of_mem hr') _ (by simp)

end Auction
