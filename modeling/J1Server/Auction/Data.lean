import J1Server.Core.Words
import J1Server.Lib.Table
import J1Server.Lib.Store
import Mathlib.Data.List.Sort

/-! # The auction tables

The tables that `AuctionService` reads and writes, and its SQL statements. A
`DATETIME` is a number of seconds. -/

namespace Auction

open Lib

/-! ## Rows -/

structure CharacterBase where
  characterId : Int
  accountId : Int
  slotIndex : Int
  nickname : String
  classType : Int
  level : Int
  gold : Int
  deriving DecidableEq

structure Listing where
  listingId : Int
  sellerId : Int
  itemId : Int
  remainingQuantity : Int
  price : Int
  expiredAt : Int
  deriving DecidableEq

structure Transaction where
  itemId : Int
  quantity : Int
  totalPrice : Int
  deriving DecidableEq

/-- A row of `auction_receipts`. `NULL` is `none`. -/
structure Receipt where
  ownerPlayerId : Int
  receiptType : Int
  goldAmount : Option Int
  itemId : Option Int
  quantity : Option Int
  sourceListingId : Int
  deriving DecidableEq

structure Database where
  characterBase : Table CharacterBase.characterId
  auctionListings : Table Listing.listingId
  auctionTransactions : List Transaction
  auctionReceipts : List Receipt

/-! ## Writes -/

inductive RowKey
  | character (characterId : Int)
  | listing (listingId : Int)
  deriving DecidableEq

inductive RowValue
  | character (row : Option CharacterBase)
  | listing (row : Option Listing)

inductive Write
  | updateCharacter (row : CharacterBase)
  | insertListing (row : Listing)
  | updateListing (row : Listing)
  | deleteListing (listingId : Int)
  | insertTransaction (row : Transaction)
  | insertReceipt (row : Receipt)
  deriving DecidableEq

def Write.apply (w : Write) (db : Database) : Database :=
  match w with
  | .updateCharacter c => { db with characterBase := db.characterBase.replace c }
  | .insertListing l => { db with auctionListings := db.auctionListings.insert l }
  | .updateListing l => { db with auctionListings := db.auctionListings.replace l }
  | .deleteListing id => { db with auctionListings := db.auctionListings.erase id }
  | .insertTransaction t => { db with auctionTransactions := db.auctionTransactions ++ [t] }
  | .insertReceipt r => { db with auctionReceipts := db.auctionReceipts ++ [r] }

def writeAll (ws : List Write) (db : Database) : Database := ws.foldl (fun db w => w.apply db) db

@[simp] theorem writeAll_nil (db : Database) : writeAll [] db = db := rfl

@[simp] theorem writeAll_cons (w : Write) (ws : List Write) (db : Database) :
    writeAll (w :: ws) db = writeAll ws (w.apply db) := rfl

theorem writeAll_append (ws ws' : List Write) (db : Database) :
    writeAll (ws ++ ws') db = writeAll ws' (writeAll ws db) := List.foldl_append

def Write.row? : Write → Option RowKey
  | .updateCharacter c => some (.character c.characterId)
  | .insertListing l => some (.listing l.listingId)
  | .updateListing l => some (.listing l.listingId)
  | .deleteListing id => some (.listing id)
  | .insertTransaction _ => none
  | .insertReceipt _ => none

def Write.newId? : Write → Option Int
  | .insertListing l => some l.listingId
  | _ => none

def look (r : RowKey) (db : Database) : RowValue :=
  match r with
  | .character id => .character (db.characterBase.get? id)
  | .listing id => .listing (db.auctionListings.get? id)

/-! ## DATETIME as text -/

/-- Year, month and day of a day counted from 1970-01-01. -/
def civil (days : Int) : Int × Int × Int :=
  let z := days + 719468
  let era := z / 146097
  let doe := z % 146097
  let yoe := (doe - doe / 1460 + doe / 36524 - doe / 146096) / 365
  let doy := doe - (365 * yoe + yoe / 4 - yoe / 100)
  let mp := (5 * doy + 2) / 153
  let month := if mp < 10 then mp + 3 else mp - 9
  (yoe + era * 400 + (if month ≤ 2 then 1 else 0), month, doy - (153 * mp + 2) / 5 + 1)

def twoDigits (n : Int) : String := (if n < 10 then "0" else "") ++ toString n

def datetimeText (t : Int) : String :=
  let (year, month, day) := civil (t / 86400)
  let s := t % 86400
  toString year ++ "-" ++ twoDigits month ++ "-" ++ twoDigits day ++ " " ++ twoDigits (s / 3600) ++ ":" ++
    twoDigits (s / 60 % 60) ++ ":" ++ twoDigits (s % 60)

example : datetimeText 951827696 = "2000-02-29 12:34:56" := by decide +kernel

/-! ## Statements -/

inductive Stmt
  /-- `SELECT * FROM auction_listings WHERE expired_at > NOW() ..` -/
  | selectListings (mine : Bool) (sellerId : Int)
  /-- `SELECT * FROM auction_receipts WHERE owner_player_id = ? .. LIMIT 100` -/
  | selectReceipts (ownerPlayerId : Int)
  /-- `SELECT .. FROM auction_listings WHERE listing_id = ? AND expired_at > NOW() FOR UPDATE` -/
  | selectListingForUpdate (listingId : Int)
  /-- `INSERT INTO auction_listings .. VALUES(?, ?, ?, ?, NOW() + INTERVAL ? HOUR)` -/
  | insertListing (sellerId itemId remainingQuantity price hours : Int)
  /-- `UPDATE character_base SET gold = gold - ? WHERE account_id = ? AND gold >= ?` -/
  | updateGold (amount accountId atLeast : Int)
  /-- `DELETE FROM auction_listings WHERE listing_id = ?` -/
  | deleteListing (listingId : Int)
  /-- `UPDATE auction_listings SET remaining_quantity = remaining_quantity - ?
  WHERE listing_id = ? AND remaining_quantity > ?` -/
  | updateQuantity (count listingId moreThan : Int)
  /-- `INSERT INTO auction_transactions .. VALUES(?, ?, ?)` -/
  | insertTransaction (row : Transaction)
  /-- `INSERT INTO auction_receipts .. VALUE ..` -/
  | insertReceipts (rows : List Receipt)

/-- Rows of a `SELECT`, or the number of rows an update changed. -/
def Stmt.Reply : Stmt → Type
  | .selectListings .. => List Listing
  | .selectReceipts _ => List (Receipt × Nat)
  | .selectListingForUpdate _ => Option Listing
  | _ => Int

def byListingId (a b : Listing) : Prop := a.listingId ≤ b.listingId

instance : DecidableRel byListingId := fun a b => inferInstanceAs (Decidable (a.listingId ≤ b.listingId))

/-- `ORDER BY listing_id ASC`, and `LIMIT 100` when the list is not the player's own. -/
def listingsOf (db : Database) (now : Int) (mine : Bool) (sellerId : Int) : List Listing :=
  let rows := db.auctionListings.rows.filter fun l => now < l.expiredAt
  if mine then (rows.filter fun l => l.sellerId = sellerId).insertionSort byListingId
  else (rows.insertionSort byListingId).take 100

/-- Each receipt comes with its `receipt_id`, its place in the table. -/
def receiptsOf (db : Database) (ownerPlayerId : Int) : List (Receipt × Nat) :=
  ((db.auctionReceipts.zipIdx 1).filter fun r => r.1.ownerPlayerId = ownerPlayerId).take 100

/-- The row of one listing that is not expired. -/
def liveListing (db : Database) (now listingId : Int) : Option Listing :=
  (db.auctionListings.get? listingId).filter fun l => now < l.expiredAt

theorem liveListing_eq_some {db : Database} {now listingId : Int} {l : Listing} :
    liveListing db now listingId = some l ↔
      db.auctionListings.get? listingId = some l ∧ now < l.expiredAt := by
  simp [liveListing, Option.filter_eq_some_iff]

def payers (db : Database) (amount accountId : Int) : List CharacterBase :=
  db.characterBase.rows.filter fun c => c.accountId = accountId ∧ amount ≤ c.gold

def CharacterBase.charge (amount : Int) (c : CharacterBase) : CharacterBase :=
  { c with gold := c.gold - amount }

def Listing.take (count : Int) (l : Listing) : Listing :=
  { l with remainingQuantity := l.remainingQuantity - count }

def secondsPerHour : Int := 3600

/-- A row that keeps its value is locked, and not counted as changed. -/
def Stmt.effect : (st : Stmt) → (now next : Int) → Database → Effect st.Reply Write RowKey
  | .selectListings mine sellerId, now, next, db => ⟨listingsOf db now mine sellerId, [], [], next⟩
  | .selectReceipts owner, _, next, db => ⟨receiptsOf db owner, [], [], next⟩
  | .selectListingForUpdate id, now, next, db =>
    ⟨liveListing db now id, [], (db.auctionListings.get? id).toList.map fun _ => .listing id, next⟩
  | .insertListing seller item quantity price hours, now, next, _ =>
    let row : Listing := ⟨next, seller, item, quantity, price, now + hours * secondsPerHour⟩
    ⟨(1 : Int), [.insertListing row], [.listing next], next + 1⟩
  | .updateGold amount account atLeast, _, next, db =>
    let changed := if amount = 0 then [] else payers db atLeast account
    let scanned := db.characterBase.rows.filter fun c => c.accountId = account
    ⟨(changed.length : Int), changed.map fun c => .updateCharacter (c.charge amount),
      scanned.map fun c => .character c.characterId, next⟩
  | .deleteListing id, _, next, db =>
    match db.auctionListings.get? id with
    | some _ => ⟨(1 : Int), [.deleteListing id], [.listing id], next⟩
    | none => ⟨(0 : Int), [], [], next⟩
  | .updateQuantity count id moreThan, _, next, db =>
    match db.auctionListings.get? id with
    | some l =>
      if moreThan < l.remainingQuantity ∧ count ≠ 0 then
        ⟨(1 : Int), [.updateListing (l.take count)], [.listing id], next⟩
      else ⟨(0 : Int), [], [.listing id], next⟩
    | none => ⟨(0 : Int), [], [], next⟩
  | .insertTransaction row, _, next, _ => ⟨(1 : Int), [.insertTransaction row], [], next⟩
  | .insertReceipts rows, _, next, _ => ⟨(rows.length : Int), rows.map .insertReceipt, [], next⟩

/-- The database `J1_DB`, as far as the auction uses it. -/
abbrev auctionDb : Schema where
  Db := Database
  Row := RowKey
  Val := RowValue
  Write := Write
  Stmt := Stmt
  Reply := Stmt.Reply
  apply := Write.apply
  look := look
  row? := Write.row?
  newId? := Write.newId?
  effect := Stmt.effect
  decRow := inferInstance

/-! ## A write changes its own row -/

theorem look_apply_other (w : Write) (r : RowKey) (db : Database) (h : w.row? ≠ some r) :
    look r (w.apply db) = look r db := by
  cases w with
  | updateCharacter c =>
    cases r with
    | character id =>
      have hne : c.characterId ≠ id := fun hc => h (by rw [Write.row?, hc])
      simp [look, Write.apply, Table.get?_replace, hne]
    | listing id => rfl
  | insertListing l =>
    cases r with
    | character id => rfl
    | listing id =>
      have hne : l.listingId ≠ id := fun hc => h (by rw [Write.row?, hc])
      simp [look, Write.apply, Table.get?_insert, hne]
  | updateListing l =>
    cases r with
    | character id => rfl
    | listing id =>
      have hne : l.listingId ≠ id := fun hc => h (by rw [Write.row?, hc])
      simp [look, Write.apply, Table.get?_replace, hne]
  | deleteListing k =>
    cases r with
    | character id => rfl
    | listing id =>
      have hne : k ≠ id := fun hc => h (by rw [Write.row?, hc])
      simp [look, Write.apply, Table.get?_erase, hne]
  | insertTransaction t => cases r <;> rfl
  | insertReceipt t => cases r <;> rfl

theorem look_apply_congr (w : Write) (r : RowKey) (db db' : Database) (h : look r db = look r db') :
    look r (w.apply db) = look r (w.apply db') := by
  cases r with
  | character id =>
    have hid : db.characterBase.get? id = db'.characterBase.get? id := RowValue.character.inj h
    cases w with
    | updateCharacter c => simp [look, Write.apply, Table.get?_replace, hid]
    | insertListing l => exact h
    | updateListing l => exact h
    | deleteListing k => exact h
    | insertTransaction t => exact h
    | insertReceipt t => exact h
  | listing id =>
    have hid : db.auctionListings.get? id = db'.auctionListings.get? id := RowValue.listing.inj h
    cases w with
    | updateCharacter c => exact h
    | insertListing l => simp [look, Write.apply, Table.get?_insert, hid]
    | updateListing l => simp [look, Write.apply, Table.get?_replace, hid]
    | deleteListing k => simp [look, Write.apply, Table.get?_erase, hid]
    | insertTransaction t => exact h
    | insertReceipt t => exact h

theorem effect_locked (st : Stmt) (now next : Int) (db : Database) (w : Write)
    (hw : w ∈ (st.effect now next db).writes) (r : RowKey) (hr : w.row? = some r) :
    r ∈ (st.effect now next db).locks := by
  cases st with
  | selectListings mine seller => cases hw
  | selectReceipts owner => cases hw
  | selectListingForUpdate id => cases hw
  | insertListing seller item quantity price hours =>
    simp only [Stmt.effect, List.mem_singleton] at hw ⊢
    subst hw
    exact (Option.some.inj hr).symm
  | updateGold amount account atLeast =>
    simp only [Stmt.effect, List.mem_map] at hw ⊢
    obtain ⟨c, hc, rfl⟩ := hw
    refine ⟨c, ?_, Option.some.inj hr⟩
    split at hc
    · cases hc
    · simp only [payers, List.mem_filter, decide_eq_true_eq] at hc ⊢
      exact ⟨hc.1, hc.2.1⟩
  | deleteListing id =>
    cases hg : db.auctionListings.get? id with
    | none => simp [Stmt.effect, hg] at hw
    | some l =>
      simp only [Stmt.effect, hg, List.mem_singleton] at hw ⊢
      subst hw
      exact (Option.some.inj hr).symm
  | updateQuantity count id moreThan =>
    cases hg : db.auctionListings.get? id with
    | none => simp [Stmt.effect, hg] at hw
    | some l =>
      by_cases hlt : moreThan < l.remainingQuantity ∧ count ≠ 0
      · simp only [Stmt.effect, hg, if_pos hlt, List.mem_singleton] at hw ⊢
        subst hw
        have hkey := Table.key_of_get? hg
        rw [← Option.some.inj hr]
        simp [Listing.take, hkey]
      · simp [Stmt.effect, hg, hlt] at hw
  | insertTransaction row =>
    simp only [Stmt.effect, List.mem_singleton] at hw
    subst hw
    cases hr
  | insertReceipts rows =>
    simp only [Stmt.effect, List.mem_map] at hw
    obtain ⟨x, -, rfl⟩ := hw
    cases hr

theorem effect_next (st : Stmt) (now next : Int) (db : Database) :
    (st.effect now next db).next = next ∨
    (st.effect now next db).next = next + 1 ∧ ∃ seller item quantity price hours,
      st = .insertListing seller item quantity price hours := by
  cases st with
  | insertListing seller item quantity price hours => exact Or.inr ⟨rfl, _, _, _, _, _, rfl⟩
  | selectListingForUpdate id => exact Or.inl rfl
  | deleteListing id => left; simp only [Stmt.effect]; split <;> rfl
  | updateQuantity count id moreThan => left; simp only [Stmt.effect]; split <;> (try split) <;> rfl
  | selectListings mine seller => exact Or.inl rfl
  | selectReceipts owner => exact Or.inl rfl
  | updateGold amount account atLeast => exact Or.inl rfl
  | insertTransaction row => exact Or.inl rfl
  | insertReceipts rows => exact Or.inl rfl

theorem effect_newIds (st : Stmt) (now next : Int) (db : Database) :
    (st.effect now next db).writes.filterMap Write.newId? =
      if (st.effect now next db).next = next then [] else [next] := by
  cases st with
  | insertListing seller item quantity price hours =>
    have hne : ¬next + 1 = next := by omega
    simp [Stmt.effect, Write.newId?, hne]
  | selectListings mine seller => simp [Stmt.effect]
  | selectReceipts owner => simp [Stmt.effect]
  | selectListingForUpdate id => simp [Stmt.effect]
  | updateGold amount account atLeast => simp [Stmt.effect, Write.newId?]
  | deleteListing id => cases h : db.auctionListings.get? id <;> simp [Stmt.effect, h, Write.newId?]
  | updateQuantity count id moreThan =>
    cases h : db.auctionListings.get? id with
    | none => simp [Stmt.effect, h]
    | some l =>
      by_cases hlt : moreThan < l.remainingQuantity ∧ count ≠ 0 <;>
        simp [Stmt.effect, h, hlt, Write.newId?]
  | insertTransaction row => simp [Stmt.effect, Write.newId?]
  | insertReceipts rows => simp [Stmt.effect, Write.newId?]

theorem auctionDb_lawful : auctionDb.Lawful where
  look_other := look_apply_other
  look_congr := look_apply_congr
  locked := effect_locked
  next_le st now next db := by
    rcases effect_next st now next db with h | ⟨h, -⟩
    · exact h.ge
    · change next ≤ (st.effect now next db).next
      omega
  newId_new st now next db w hw k hk := by
    have hmem : k ∈ (st.effect now next db).writes.filterMap Write.newId? :=
      List.mem_filterMap.mpr ⟨w, hw, hk⟩
    rw [effect_newIds] at hmem
    change next ≤ k ∧ k < (st.effect now next db).next
    rcases effect_next st now next db with h | ⟨h, -⟩
    · rw [if_pos h] at hmem
      cases hmem
    · rw [if_neg (by omega), List.mem_singleton] at hmem
      omega
  newId_once st now next db := by
    change ((st.effect now next db).writes.filterMap Write.newId?).Nodup
    rw [effect_newIds]
    split <;> simp

end Auction
