import J1Server.Lobby.Handlers

/-! # The tables of a character

A character has one row in `character_base`, one in `character_combat` and one in `character_skin`, and the
list of an account joins the three. -/

namespace Lobby

open Lib Lib.Server Core
open Auction (CharacterBase)

/-! ## Rows of one character -/

def baseRows (db : Database) (id : Int) : Nat := db.characterBase.rows.countP fun c => c.characterId = id

def combatRows (db : Database) (id : Int) : Nat := db.characterCombat.countP fun c => c = id

def skinRows (db : Database) (id : Int) : Nat := db.characterSkin.countP fun s => s.characterId = id

def InStep (db : Database) : Prop := ∀ id, baseRows db id = 1 ↔ combatRows db id = 1 ∧ skinRows db id = 1

def Used (db : Database) (id : Int) : Prop := 0 < baseRows db id ∨ 0 < combatRows db id ∨ 0 < skinRows db id

theorem baseRows_of_mem {db : Database} {c : CharacterBase} (hc : c ∈ db.characterBase.rows) :
    baseRows db c.characterId = 1 := by
  have hcount : baseRows db c.characterId = (db.characterBase.rows.map CharacterBase.characterId).count c.characterId := by
    rw [List.count, List.countP_map, baseRows]
    exact List.countP_congr (by simp)
  have hle := List.nodup_iff_count_le_one.mp db.characterBase.nodup c.characterId
  have hpos : 0 < baseRows db c.characterId := List.countP_pos_iff.mpr ⟨c, hc, by simp⟩
  omega

/-! ## Changes -/

inductive Change
  | create (row : CharacterBase) (skin : CharacterSkin)
  | delete (characterId : Int)

def Change.writes : Change → List Write
  | .create row skin => [.insertBase row, .insertCombat skin.characterId, .insertSkin skin]
  | .delete id => [.deleteCombat id, .deleteSkin id, .deleteInventory id, .deleteBase id]

def Change.apply (ch : Change) (db : Database) : Database := writeAll (D := lobbyDb) ch.writes db

theorem rows_create {db : Database} {row : CharacterBase} (hunused : ¬Used db row.characterId) (skin : CharacterSkin)
    (id : Int) :
    baseRows ((Change.create row skin).apply db) id = baseRows db id + (if row.characterId = id then 1 else 0) ∧
    combatRows ((Change.create row skin).apply db) id = combatRows db id + (if skin.characterId = id then 1 else 0) ∧
    skinRows ((Change.create row skin).apply db) id = skinRows db id + (if skin.characterId = id then 1 else 0) := by
  have hnew : db.characterBase.get? row.characterId = none := by
    rw [Table.get?_eq_none]
    rintro c hc hid
    apply hunused
    left
    rw [← hid, baseRows_of_mem hc]
    exact Nat.one_pos
  refine ⟨?_, ?_, ?_⟩
  · change ((db.characterBase.insert row).rows.countP _) = _
    rw [Table.rows_insert hnew, List.countP_append, List.countP_singleton]
    simp [baseRows]
  · change ((db.characterCombat ++ [skin.characterId]).countP _) = _
    rw [List.countP_append, List.countP_singleton]
    simp [combatRows]
  · change ((db.characterSkin ++ [skin]).countP _) = _
    rw [List.countP_append, List.countP_singleton]
    simp [skinRows]

theorem countP_filter_ne {α : Type} (f : α → Int) (k id : Int) (l : List α) :
    (l.filter fun x => f x ≠ k).countP (fun x => f x = id) = if k = id then 0 else l.countP fun x => f x = id := by
  rw [List.countP_filter]
  split
  · rename_i hk
    subst hk
    simp
  · rename_i hk
    apply List.countP_congr
    intro x _
    simp
    omega

theorem rows_delete (db : Database) (k id : Int) :
    baseRows ((Change.delete k).apply db) id = (if k = id then 0 else baseRows db id) ∧
    combatRows ((Change.delete k).apply db) id = (if k = id then 0 else combatRows db id) ∧
    skinRows ((Change.delete k).apply db) id = (if k = id then 0 else skinRows db id) :=
  ⟨countP_filter_ne CharacterBase.characterId k id _, countP_filter_ne (fun x => x) k id _,
    countP_filter_ne CharacterSkin.characterId k id _⟩

theorem inStep_create {db : Database} (h : InStep db) {row : CharacterBase} {skin : CharacterSkin}
    (hunused : ¬Used db row.characterId) (hid : skin.characterId = row.characterId) :
    InStep ((Change.create row skin).apply db) := by
  intro id
  obtain ⟨hbase, hcombat, hskin⟩ := rows_create hunused skin id
  rw [hbase, hcombat, hskin, hid]
  by_cases hrow : row.characterId = id
  · subst hrow
    unfold Used at hunused
    simp
    omega
  · simpa [hrow] using h id

theorem inStep_delete {db : Database} (h : InStep db) (k : Int) : InStep ((Change.delete k).apply db) := by
  intro id
  obtain ⟨hbase, hcombat, hskin⟩ := rows_delete db k id
  rw [hbase, hcombat, hskin]
  by_cases hk : k = id
  · simp [hk]
  · simpa [hk] using h id

/-! ## The list of an account -/

/-- The join has every character of the account, once. -/
theorem charactersOf_complete {db : Database} (h : InStep db) (accountId : Int) :
    ((charactersOf db accountId).map Prod.fst).Perm
      (db.characterBase.rows.filter fun c => c.accountId = accountId) := by
  unfold charactersOf
  refine ((List.perm_insertionSort bySlotIndex _).map Prod.fst).trans (List.Perm.of_eq ?_)
  rw [List.map_flatMap]
  have hone : ∀ cb ∈ db.characterBase.rows.filter fun c => c.accountId = accountId,
      ((db.characterCombat.filter (· = cb.characterId)).flatMap fun _ =>
        (db.characterSkin.filter (·.characterId = cb.characterId)).map fun cs => (cb, cs)).map Prod.fst = [cb] := by
    intro cb hcb
    obtain ⟨hcombat, hskin⟩ := (h cb.characterId).mp (baseRows_of_mem (List.mem_filter.mp hcb).1)
    rw [combatRows, List.countP_eq_length_filter] at hcombat
    rw [skinRows, List.countP_eq_length_filter] at hskin
    obtain ⟨id, hid⟩ := List.length_eq_one_iff.mp hcombat
    obtain ⟨cs, hcs⟩ := List.length_eq_one_iff.mp hskin
    rw [hid, hcs]
    rfl
  rw [List.flatMap_congr hone]
  exact List.flatMap_singleton' _

end Lobby
