import Mathlib.Data.List.Nodup
import Mathlib.Data.List.Count

/-!
# An event loop that one thread runs

Handlers are posted to a queue and run one after the other, in the order in
which they were posted. The loop returns when nothing is left to do and nobody
holds its guard. A handler that lets an exception escape ends it.
-/

namespace Lib

variable {α : Type}

structure Loop (α : Type) where
  queue : List α := []
  running : Option α := none
  guard : Bool := true
  returned : Bool := false
  crashed : Bool := false

/-- The begin or the end of a handler. -/
inductive Turn (α : Type)
  | began (x : α)
  | ended (x : α)
  deriving DecidableEq

namespace Loop

def post (l : Loop α) (x : α) : Loop α := { l with queue := l.queue ++ [x] }

def reset (l : Loop α) : Loop α := { l with guard := false }

def live (l : Loop α) : Bool := !l.returned && !l.crashed

def begin (l : Loop α) : Option (α × Loop α) :=
  match l.live, l.running, l.queue with
  | true, none, x :: queue => some (x, { l with running := some x, queue })
  | _, _, _ => none

def finish (l : Loop α) (escapes : Bool) : Option (α × Loop α) :=
  match l.running with
  | some x => some (x, { l with running := none, crashed := l.crashed || escapes })
  | none => none

def ret (l : Loop α) : Option (Loop α) :=
  match l.live, l.running, l.queue, l.guard with
  | true, none, [], false => some { l with returned := true }
  | _, _, _, _ => none

/-! ## What each step does -/

variable {l l' : Loop α} {x y : α} {posted : List α} {log : List (Turn α)}

theorem begin_eq_some : l.begin = some (x, l') ↔
    l.live = true ∧ l.running = none ∧ ∃ queue, l.queue = x :: queue ∧ l' = { l with running := some x, queue } := by
  unfold begin
  constructor
  · intro h
    split at h
    · rename_i hlive hidle hqueue
      simp only [Option.some.injEq, Prod.mk.injEq] at h
      obtain ⟨rfl, rfl⟩ := h
      exact ⟨hlive, hidle, _, hqueue, rfl⟩
    · cases h
  · rintro ⟨hlive, hidle, queue, hqueue, rfl⟩
    rw [hlive, hidle, hqueue]

theorem finish_eq_some {escapes : Bool} : l.finish escapes = some (x, l') ↔
    l.running = some x ∧ l' = { l with running := none, crashed := l.crashed || escapes } := by
  unfold finish
  constructor
  · intro h
    split at h
    · rename_i hrunning
      simp only [Option.some.injEq, Prod.mk.injEq] at h
      obtain ⟨rfl, rfl⟩ := h
      exact ⟨hrunning, rfl⟩
    · cases h
  · rintro ⟨hrunning, rfl⟩
    rw [hrunning]

theorem ret_eq_some : l.ret = some l' ↔
    l.live = true ∧ l.running = none ∧ l.queue = [] ∧ l.guard = false ∧ l' = { l with returned := true } := by
  unfold ret
  constructor
  · intro h
    split at h
    · rename_i hlive hidle hqueue hguard
      exact ⟨hlive, hidle, hqueue, hguard, (Option.some.inj h).symm⟩
    · cases h
  · rintro ⟨hlive, hidle, hqueue, hguard, rfl⟩
    rw [hlive, hidle, hqueue, hguard]

/-! ## Handlers are served in order -/

/-- The turns of handlers that ran one after the other. -/
def turns (done : List α) : List (Turn α) := done.flatMap fun x => [.began x, .ended x]

/-- What was posted is done, running or waiting, and the log says so. -/
structure Served (posted : List α) (log : List (Turn α)) (l : Loop α) : Prop where
  split : ∃ done, posted = done ++ l.running.toList ++ l.queue ∧ log = turns done ++ l.running.toList.map .began
  healthy : l.crashed = false
  rest : l.returned = true → l.guard = false ∧ l.running = none ∧ l.queue = []

theorem served_new : Served [] [] ({} : Loop α) := ⟨⟨[], rfl, rfl⟩, rfl, by simp⟩

theorem Served.post (h : Served posted log l) (hguard : l.guard = true) (x : α) :
    Served (posted ++ [x]) log (l.post x) := by
  obtain ⟨done, hposted, hlog⟩ := h.split
  refine ⟨⟨done, ?_, hlog⟩, h.healthy, fun hret => ?_⟩
  · rw [hposted]
    simp [Loop.post]
  · have := (h.rest hret).1
    rw [hguard] at this
    cases this

theorem Served.reset (h : Served posted log l) : Served posted log l.reset :=
  ⟨h.split, h.healthy, fun hret => ⟨rfl, (h.rest hret).2⟩⟩

theorem Served.begin (h : Served posted log l) (hb : l.begin = some (x, l')) :
    Served posted (log ++ [.began x]) l' := by
  obtain ⟨hlive, hidle, queue, hqueue, rfl⟩ := begin_eq_some.mp hb
  obtain ⟨done, hposted, hlog⟩ := h.split
  refine ⟨⟨done, ?_, ?_⟩, h.healthy, fun hret => ?_⟩
  · rw [hposted, hidle, hqueue]
    simp
  · rw [hlog, hidle]
    simp
  · change l.returned = true at hret
    rw [live, hret] at hlive
    cases hlive

theorem Served.finish (h : Served posted log l) (hf : l.finish false = some (x, l')) :
    Served posted (log ++ [.ended x]) l' := by
  obtain ⟨hrunning, rfl⟩ := finish_eq_some.mp hf
  obtain ⟨done, hposted, hlog⟩ := h.split
  refine ⟨⟨done ++ [x], ?_, ?_⟩, by simp [h.healthy], fun hret => ?_⟩
  · rw [hposted, hrunning]
    simp
  · rw [hlog, hrunning]
    simp [turns]
  · have := (h.rest hret).2.1
    rw [hrunning] at this
    cases this

theorem Served.ret (h : Served posted log l) (hr : l.ret = some l') : Served posted log l' := by
  obtain ⟨-, hidle, hqueue, hguard, rfl⟩ := ret_eq_some.mp hr
  exact ⟨h.split, h.healthy, fun _ => ⟨hguard, hidle, hqueue⟩⟩

/-! ## What the log says -/

theorem Served.mem (h : Served posted log l) (hx : .began x ∈ log ∨ .ended x ∈ log) : x ∈ posted := by
  obtain ⟨done, rfl, rfl⟩ := h.split
  have hbegun : x ∈ done ++ l.running.toList := by
    rcases hx with hx | hx
    · simpa [turns] using hx
    · have hdone : x ∈ done := by simpa [turns] using hx
      exact List.mem_append_left _ hdone
  exact List.mem_append_left _ hbegun

theorem turns_sublist {done done' : List α} (h : done.Sublist done') : (turns done).Sublist (turns done') := by
  induction h with
  | slnil => exact List.Sublist.refl _
  | cons y _ ih => exact (ih.cons _).cons _
  | cons_cons y _ ih => exact (ih.cons_cons _).cons_cons _

/-- Two elements in this order, the second of them in the first part, are both in the first part. -/
theorem pair_sublist_left {as bs : List α} (h : [x, y].Sublist (as ++ bs)) (hy : y ∉ bs) : [x, y].Sublist as := by
  obtain ⟨l₁, l₂, heq, h₁, h₂⟩ := List.sublist_append_iff.mp h
  rcases List.eq_nil_or_concat l₂ with rfl | ⟨init, z, rfl⟩
  · rwa [heq, List.append_nil]
  · exfalso
    have hlast : y = z := by simpa using congrArg List.getLast? heq
    exact hy (h₂.subset (by simp [hlast]))

/-- Of two handlers, the one that was posted first ends before the other one begins. -/
theorem Served.in_order (h : Served posted log l) (hnodup : posted.Nodup) (hxy : [x, y].Sublist posted)
    (hy : .began y ∈ log) : [.began x, .ended x, .began y].Sublist log := by
  obtain ⟨done, rfl, rfl⟩ := h.split
  have hbegun : y ∈ done ++ l.running.toList := by simpa [turns] using hy
  have hwaits : y ∉ l.queue := fun hq => (List.disjoint_of_nodup_append hnodup) hbegun hq
  have hboth := pair_sublist_left hxy hwaits
  by_cases hruns : l.running = some y
  · -- `y` runs, and so `x` is done.
    have hx : x ∈ done := by
      rw [hruns] at hboth
      obtain ⟨l₁, l₂, heq, h₁, h₂⟩ := List.sublist_append_iff.mp hboth
      have hlen : l₂.length ≤ 1 := h₂.length_le
      rcases l₁ with _ | ⟨z, l₁⟩
      · rw [List.nil_append] at heq
        rw [← heq] at hlen
        simp at hlen
      · obtain ⟨rfl, -⟩ := List.cons.inj heq
        exact h₁.subset List.mem_cons_self
    have hturns : [Turn.began x, .ended x].Sublist (turns done) := turns_sublist (List.singleton_sublist.mpr hx)
    rw [hruns]
    exact hturns.append (List.Sublist.refl [Turn.began y])
  · have hdone : [x, y].Sublist done := by
      apply pair_sublist_left hboth
      simpa [eq_comm] using hruns
    have hturns : [Turn.began x, .ended x, .began y, .ended y].Sublist (turns done) := turns_sublist hdone
    refine List.Sublist.trans ?_ (hturns.trans (List.sublist_append_left _ _))
    exact List.sublist_append_left [Turn.began x, .ended x, .began y] [.ended y]

section Count

variable [DecidableEq α]

theorem count_turns (done : List α) (x : α) :
    (turns done).count (.began x) = done.count x ∧ (turns done).count (.ended x) = done.count x := by
  induction done with
  | nil => simp [turns]
  | cons y done ih =>
    have hcons : turns (y :: done) = .began y :: .ended y :: turns done := rfl
    obtain ⟨hb, he⟩ := ih
    rw [hcons]
    by_cases hyx : y = x <;> simp [hb, he, hyx]

theorem Served.began_once (h : Served posted log l) (hnodup : posted.Nodup) (x : α) :
    log.count (.began x) ≤ 1 := by
  obtain ⟨done, rfl, rfl⟩ := h.split
  have hmap : (l.running.toList.map Turn.began).count (.began x) = l.running.toList.count x := by
    cases l.running with
    | none => simp
    | some y => by_cases hyx : y = x <;> simp [hyx]
  have hone := List.nodup_iff_count_le_one.mp hnodup x
  rw [List.count_append, List.count_append] at hone
  rw [List.count_append, (count_turns done x).1, hmap]
  omega

/-- When the loop has returned, every handler has run once. -/
theorem Served.drained (h : Served posted log l) (hnodup : posted.Nodup) (hret : l.returned = true)
    (hx : x ∈ posted) : log.count (.began x) = 1 ∧ log.count (.ended x) = 1 := by
  obtain ⟨done, rfl, rfl⟩ := h.split
  obtain ⟨-, hidle, hqueue⟩ := h.rest hret
  simp only [hidle, hqueue, Option.toList_none, List.append_nil, List.map_nil] at hnodup hx ⊢
  rw [(count_turns done x).1, (count_turns done x).2, List.count_eq_one_of_mem hnodup hx]
  simp

end Count

end Loop

end Lib
