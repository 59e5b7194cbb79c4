import Mathlib.Data.List.Nodup
import Mathlib.Algebra.BigOperators.Group.List.Basic
import Mathlib.Tactic.Ring

/-!
# Keyed tables

A table is a list of rows with distinct keys. The operations are the row
operations of a database: look a row up, change it in place, add it, drop it.
-/

namespace Lib

/-- Rows with distinct keys, in storage order. -/
structure Table {α κ : Type} (key : α → κ) where
  rows : List α
  nodup : (rows.map key).Nodup

namespace Table

variable {α κ : Type} [DecidableEq κ] {key : α → κ}

def empty : Table key := ⟨[], by simp⟩

def get? (t : Table key) (k : κ) : Option α := t.rows.find? fun r => key r = k

/-- The row with `x`'s key becomes `x`. -/
def replaceRows (key : α → κ) (x : α) (l : List α) : List α :=
  l.map fun r => if key r = key x then x else r

theorem map_replaceRows (x : α) (l : List α) : (replaceRows key x l).map key = l.map key := by
  simp only [replaceRows, List.map_map]
  apply List.map_congr_left
  intro r _
  by_cases h : key r = key x <;> simp [h]

/-- `UPDATE` of one row: nothing happens when no row has `x`'s key. -/
def replace (t : Table key) (x : α) : Table key :=
  ⟨replaceRows key x t.rows, by rw [map_replaceRows]; exact t.nodup⟩

/-- `INSERT`: a row whose key is taken is not stored. -/
def insert (t : Table key) (x : α) : Table key :=
  if h : key x ∈ t.rows.map key then t
  else ⟨t.rows ++ [x], by
    rw [List.map_append]
    exact t.nodup.append (by simp) (by simpa using h)⟩

def erase (t : Table key) (k : κ) : Table key :=
  ⟨t.rows.filter fun r => key r ≠ k, (t.nodup.sublist (List.filter_sublist.map key))⟩

/-! ## Looking up -/

theorem get?_eq_some {t : Table key} {k : κ} {r : α} : t.get? k = some r ↔ r ∈ t.rows ∧ key r = k := by
  constructor
  · intro h
    have hk := List.find?_some h
    exact ⟨List.mem_of_find?_eq_some h, of_decide_eq_true hk⟩
  · rintro ⟨hr, rfl⟩
    have found : (t.get? (key r)).isSome := List.find?_isSome.mpr ⟨r, hr, decide_eq_true rfl⟩
    obtain ⟨y, hy⟩ := Option.isSome_iff_exists.mp found
    have hk := List.find?_some hy
    -- Both rows have the key, and keys are distinct.
    have hyr : y = r := List.inj_on_of_nodup_map t.nodup (List.mem_of_find?_eq_some hy) hr
      (of_decide_eq_true hk)
    rw [hy, hyr]

theorem get?_eq_none {t : Table key} {k : κ} : t.get? k = none ↔ ∀ r ∈ t.rows, key r ≠ k := by
  simp [get?, List.find?_eq_none]

theorem key_of_get? {t : Table key} {k : κ} {r : α} (h : t.get? k = some r) : key r = k :=
  (get?_eq_some.mp h).2

theorem get?_of_mem {t : Table key} {r : α} (h : r ∈ t.rows) : t.get? (key r) = some r :=
  get?_eq_some.mpr ⟨h, rfl⟩

theorem mem_replace {t : Table key} {x r : α} :
    r ∈ (t.replace x).rows ↔ (r = x ∧ ∃ y ∈ t.rows, key y = key x) ∨ (r ∈ t.rows ∧ key r ≠ key x) := by
  simp only [replace, replaceRows, List.mem_map]
  constructor
  · rintro ⟨y, hy, rfl⟩
    by_cases h : key y = key x
    · simp only [h, if_true]; exact Or.inl ⟨trivial, y, hy, h⟩
    · simp only [h, if_false]; exact Or.inr ⟨hy, h⟩
  · rintro (⟨rfl, y, hy, h⟩ | ⟨hr, h⟩)
    · exact ⟨y, hy, by simp [h]⟩
    · exact ⟨r, hr, by simp [h]⟩

theorem get?_replace (t : Table key) (x : α) (k : κ) :
    (t.replace x).get? k = if key x = k then (t.get? k).map fun _ => x else t.get? k := by
  apply Option.ext
  intro r
  rw [get?_eq_some, mem_replace]
  split
  · rename_i hk
    cases h : t.get? k with
    | none =>
      simp only [Option.map_none, reduceCtorEq, iff_false]
      rintro ⟨⟨rfl, y, hy, hyx⟩ | ⟨hr, hne⟩, hrk⟩
      · exact get?_eq_none.mp h y hy (hyx.trans hk)
      · exact hne (hrk.trans hk.symm)
    | some y =>
      obtain ⟨hy, hyk⟩ := get?_eq_some.mp h
      simp only [Option.map_some, Option.some.injEq]
      constructor
      · rintro ⟨⟨rfl, -⟩ | ⟨-, hne⟩, hrk⟩
        · rfl
        · exact absurd (hrk.trans hk.symm) hne
      · rintro rfl
        exact ⟨Or.inl ⟨rfl, y, hy, hyk.trans hk.symm⟩, hk⟩
  · rename_i hk
    rw [get?_eq_some]
    constructor
    · rintro ⟨⟨rfl, -⟩ | ⟨hr, -⟩, hrk⟩
      · exact absurd hrk hk
      · exact ⟨hr, hrk⟩
    · rintro ⟨hr, hrk⟩
      exact ⟨Or.inr ⟨hr, fun h => hk (h.symm.trans hrk)⟩, hrk⟩

theorem rows_insert {t : Table key} {x : α} (h : t.get? (key x) = none) :
    (t.insert x).rows = t.rows ++ [x] := by
  have : key x ∉ t.rows.map key := by
    simp only [List.mem_map, not_exists, not_and]
    exact fun r hr => get?_eq_none.mp h r hr
  simp [insert, this]

theorem insert_taken {t : Table key} {x : α} (h : t.get? (key x) ≠ none) : t.insert x = t := by
  have : key x ∈ t.rows.map key := by
    by_contra hc
    apply h
    rw [get?_eq_none]
    intro r hr hk
    exact hc (List.mem_map.mpr ⟨r, hr, hk⟩)
  simp [insert, this]

theorem get?_insert (t : Table key) (x : α) (k : κ) :
    (t.insert x).get? k = if key x = k ∧ t.get? k = none then some x else t.get? k := by
  cases h : t.get? (key x) with
  | some y =>
    rw [insert_taken (by simp [h])]
    split
    · rename_i hk
      obtain ⟨rfl, hk⟩ := hk
      simp [h] at hk
    · rfl
  | none =>
    simp only [get?, rows_insert h, List.find?_append]
    by_cases hk : key x = k
    · subst hk
      have : t.rows.find? (fun r => key r = key x) = none := h
      simp [this]
    · simp [hk]

theorem get?_erase (t : Table key) (k k' : κ) :
    (t.erase k).get? k' = if k = k' then none else t.get? k' := by
  apply Option.ext
  intro r
  rw [get?_eq_some]
  simp only [erase, List.mem_filter, decide_eq_true_eq]
  split
  · rename_i h
    subst h
    simp
  · rename_i h
    rw [get?_eq_some]
    constructor
    · rintro ⟨⟨hr, -⟩, hk⟩; exact ⟨hr, hk⟩
    · rintro ⟨hr, rfl⟩; exact ⟨⟨hr, fun hc => h hc.symm⟩, rfl⟩

theorem mem_insert {t : Table key} {x r : α} (h : r ∈ (t.insert x).rows) : r = x ∨ r ∈ t.rows := by
  have hr := get?_of_mem h
  rw [get?_insert] at hr
  split at hr
  · exact Or.inl (Option.some.inj hr).symm
  · exact Or.inr (get?_eq_some.mp hr).1

/-! ## Sums over a table -/

def sum (t : Table key) (f : α → Int) : Int := (t.rows.map f).sum

theorem sum_map_eq {f : α → Int} {g : α → α} {p : α → Bool} (l : List α) :
    ((l.map fun r => if p r then g r else r).map f).sum =
      (l.map f).sum + ((l.filter p).map fun r => f (g r) - f r).sum := by
  induction l with
  | nil => simp
  | cons r l ih =>
    by_cases h : p r = true
    · simp only [List.map_cons, List.sum_cons, ih, h, if_true, List.filter_cons_of_pos]
      ring
    · simp only [List.map_cons, List.sum_cons, ih, h, Bool.false_eq_true, if_false, not_false_eq_true,
        List.filter_cons_of_neg]
      ring

theorem filter_key {l : List α} (hl : (l.map key).Nodup) {y : α} (hy : y ∈ l) :
    l.filter (fun r => key r = key y) = [y] := by
  induction l with
  | nil => cases hy
  | cons r l ih =>
    rw [List.map_cons, List.nodup_cons] at hl
    rcases List.mem_cons.mp hy with rfl | hy
    · have hnone : l.filter (fun r => key r = key y) = [] := by
        rw [List.filter_eq_nil_iff]
        intro r hr
        simp only [decide_eq_true_eq]
        exact fun hk => hl.1 (hk ▸ List.mem_map_of_mem hr)
      simp [hnone]
    · have hne : ¬key r = key y := fun hk => hl.1 (hk ▸ List.mem_map_of_mem hy)
      simp [hne, ih hl.2 hy]

theorem sum_replace {t : Table key} {x y : α} (h : t.get? (key x) = some y) (f : α → Int) :
    (t.replace x).sum f = t.sum f + (f x - f y) := by
  obtain ⟨hy, hk⟩ := get?_eq_some.mp h
  have hsum := sum_map_eq (f := f) (g := fun _ => x) (p := fun r => decide (key r = key x)) t.rows
  rw [← hk, filter_key t.nodup hy] at hsum
  simpa [sum, replace, replaceRows, hk] using hsum

theorem rows_foldl_replace (xs : List α) (t : Table key) (hxs : (xs.map key).Nodup) :
    (xs.foldl replace t).rows = t.rows.map fun r => (xs.find? fun x => key x = key r).getD r := by
  induction xs generalizing t with
  | nil => simp
  | cons x xs ih =>
    rw [List.map_cons, List.nodup_cons] at hxs
    rw [List.foldl_cons, ih _ hxs.2]
    simp only [replace, replaceRows, List.map_map]
    apply List.map_congr_left
    intro r _
    by_cases hr : key r = key x
    · -- The row is `x` now, and no later row has its key.
      have : xs.find? (fun y => key y = key x) = none := by
        rw [List.find?_eq_none]
        intro y hy
        simp only [decide_eq_true_eq]
        exact fun hyx => hxs.1 (List.mem_map.mpr ⟨y, hy, hyx⟩)
      simp [hr, this]
    · simp [hr, Ne.symm hr]

theorem get?_foldl_replace (xs : List α) (t : Table key) (hxs : (xs.map key).Nodup) (k : κ) :
    (xs.foldl replace t).get? k = (t.get? k).map fun r => (xs.find? fun x => key x = k).getD r := by
  induction xs generalizing t with
  | nil => simp
  | cons x xs ih =>
    rw [List.map_cons, List.nodup_cons] at hxs
    rw [List.foldl_cons, ih _ hxs.2, get?_replace]
    by_cases hk : key x = k
    · have : xs.find? (fun y => key y = k) = none := by
        rw [List.find?_eq_none]
        intro y hy
        simp only [decide_eq_true_eq]
        exact fun hyk => hxs.1 (List.mem_map.mpr ⟨y, hy, hyk.trans hk.symm⟩)
      simp [hk, this, Function.comp_def]
    · simp [hk]

/-- One `UPDATE` of the rows `p` to `g`, done row by row. -/
theorem rows_replace_all (g : α → α) (hg : ∀ r, key (g r) = key r) (p : α → Bool) (t : Table key) :
    (((t.rows.filter p).map g).foldl replace t).rows = t.rows.map fun r => if p r then g r else r := by
  have hmap : (((t.rows.filter p).map g).map key) = (t.rows.filter p).map key := by
    simp [Function.comp_def, hg]
  rw [rows_foldl_replace _ _ (by rw [hmap]; exact t.nodup.sublist (List.filter_sublist.map key))]
  apply List.map_congr_left
  intro r hr
  have hkeys : (fun c => decide (key c = key r)) ∘ g = fun c => decide (key c = key r) :=
    funext fun c => by rw [Function.comp_apply, hg]
  rw [List.find?_map, hkeys]
  by_cases hp : p r = true
  · have hfound : (t.rows.filter p).find? (fun c => key c = key r) = some r := by
      have hget := get?_eq_some (t := ⟨t.rows.filter p, t.nodup.sublist (List.filter_sublist.map key)⟩)
        (k := key r) (r := r)
      exact hget.mpr ⟨List.mem_filter.mpr ⟨hr, hp⟩, rfl⟩
    rw [hfound, if_pos hp]
    rfl
  · have hnone : (t.rows.filter p).find? (fun c => key c = key r) = none := by
      rw [List.find?_eq_none]
      intro c hc
      rw [List.mem_filter] at hc
      simp only [decide_eq_true_eq]
      intro hk
      exact hp (List.inj_on_of_nodup_map t.nodup hc.1 hr hk ▸ hc.2)
    rw [hnone, if_neg hp]
    rfl

end Table

end Lib
