import J1Server.Core.ConnectionPool
import J1Server.Lib.Runs
import Mathlib.Data.List.Perm.Subperm

/-! # Lent connections

A pool and the clients that hold its connections. A client gives a connection
back, or lets go of it when it is bad; then the pool replaces it, as long as the
factory can make new ones. -/

namespace Core

open Lib

namespace ConnectionPool

/-! ## Init -/

/-- The loop that fills the pool. `made` counts the calls of the factory. -/
def fill (poolSize : Nat) (create : Nat → Connection) (pool : List Connection) (made : Nat) :
    List Connection × Nat :=
  if pool.length < poolSize then fill poolSize create (pool ++ [create made]) (made + 1) else (pool, made)
termination_by poolSize - pool.length
decreasing_by
  simp only [List.length_append, List.length_singleton]
  omega

/-- The constructor fills the pool, and then `Init` fills it again. -/
def init (poolSize : Nat) (create : Nat → Connection) : ConnectionPool :=
  let constructed := fill poolSize create [] 0
  ⟨(fill poolSize create constructed.1 constructed.2).1, []⟩

theorem fill_eq (poolSize : Nat) (create : Nat → Connection) {n : Nat} (hn : n ≤ poolSize) :
    fill poolSize create ((List.range n).map create) n = ((List.range poolSize).map create, poolSize) := by
  obtain ⟨missing, rfl⟩ := Nat.exists_eq_add_of_le hn
  clear hn
  induction missing generalizing n with
  | zero =>
    rw [fill]
    simp
  | succ missing ih =>
    have hmap : (List.range n).map create ++ [create n] = (List.range (n + 1)).map create := by
      rw [List.range_succ, List.map_append]
      rfl
    rw [fill, List.length_map, List.length_range, if_pos (by omega), hmap]
    have hrest := ih (n := n + 1)
    rwa [show n + 1 + missing = n + (missing + 1) by omega] at hrest

/-- The second loop finds the pool full. -/
theorem init_eq (poolSize : Nat) (create : Nat → Connection) :
    init poolSize create = ⟨(List.range poolSize).map create, []⟩ := by
  have hconstructed : fill poolSize create [] 0 = ((List.range poolSize).map create, poolSize) :=
    fill_eq poolSize create (Nat.zero_le poolSize)
  rw [init, hconstructed, fill_eq poolSize create (Nat.le_refl poolSize)]

end ConnectionPool

/-! ## Clients -/

/-- `out` lists the connections that clients hold. -/
structure Lending where
  connections : ConnectionPool
  out : List Connection := []
  deriving DecidableEq

inductive LendingEvent
  /-- `created` is what the factory makes if it is asked, or `none` if it throws. -/
  | borrow (created : Option Connection)
  | unborrow (conn : Connection)
  /-- The connection goes out of scope. -/
  | drop (conn : Connection)
  deriving DecidableEq

namespace Lending

def held (s : Lending) (conn : Connection) : Bool := conn ∈ s.out

/-- A new connection has an address that no other has. -/
def Unused (s : Lending) (created : Option Connection) : Prop :=
  ∀ conn ∈ created, conn ∉ s.connections.pool ++ s.connections.borrowed

instance (s : Lending) (created : Option Connection) : Decidable (s.Unused created) :=
  Option.decidableForallMem _

/-- A client gives back what it holds, and it may do so once more while nobody was lent the connection. -/
def step (s : Lending) : LendingEvent → Option Lending
  | .borrow created =>
    if s.Unused created then
      let (conn, connections) := s.connections.borrow s.held created
      some ⟨connections, conn.toList ++ s.out⟩
    else none
  | .unborrow conn =>
    if conn ∈ s.out ∨ conn ∉ s.connections.borrowed then some ⟨s.connections.unborrow conn, s.out.erase conn⟩
    else none
  | .drop conn => if conn ∈ s.out then some { s with out := s.out.erase conn } else none

/-- There are `poolSize` connections, each free or listed as borrowed. A client holds a borrowed one, and
no other client holds it. -/
structure Lent (poolSize : Nat) (s : Lending) : Prop where
  slots : s.connections.pool.length + s.connections.borrowed.length = poolSize
  distinct : (s.connections.pool ++ s.connections.borrowed).Nodup
  once : s.out.Nodup
  borrowed : s.out ⊆ s.connections.borrowed

variable {poolSize : Nat} {s s' : Lending} {created : Option Connection}

theorem Lent.out_le (h : Lent poolSize s) : s.out.length ≤ s.connections.borrowed.length :=
  (h.once.subperm h.borrowed).length_le

/-! ## One event -/

theorem subset_erase {conns conns' : List Connection} {conn : Connection} (h : conns ⊆ conns')
    (hconn : conn ∉ conns) : conns ⊆ conns'.erase conn := by
  intro c hc
  have hne : c ≠ conn := by
    rintro rfl
    exact hconn hc
  exact (List.mem_erase_of_ne hne).mpr (h hc)

/-- A free connection is lent, or one that nobody holds is replaced; else the borrower gets none. -/
theorem borrow_cases (s : Lending) (created : Option Connection) :
    (∃ conn pool, s.connections.pool = conn :: pool ∧
      s.connections.borrow s.held created = (some conn, ⟨pool, conn :: s.connections.borrowed⟩)) ∨
    (∃ conn lost, s.connections.pool = [] ∧ created = some conn ∧ lost ∈ s.connections.borrowed ∧ lost ∉ s.out ∧
      s.connections.borrow s.held created = (some conn, ⟨[], conn :: s.connections.borrowed.erase lost⟩)) ∨
    (s.connections.pool = [] ∧ (s.connections.borrowed ⊆ s.out ∨ created = none) ∧
      s.connections.borrow s.held created = (none, s.connections)) := by
  unfold ConnectionPool.borrow
  cases hpool : s.connections.pool with
  | cons conn pool => exact Or.inl ⟨conn, pool, rfl, rfl⟩
  | nil =>
    right
    dsimp only
    cases hfind : s.connections.borrowed.find? fun conn => !s.held conn with
    | none =>
      right
      refine ⟨rfl, Or.inl fun conn hconn => ?_, rfl⟩
      simpa [held] using List.find?_eq_none.mp hfind conn hconn
    | some lost =>
      cases created with
      | none => exact Or.inr ⟨rfl, Or.inr rfl, rfl⟩
      | some conn =>
        have hlost := List.find?_some hfind
        exact Or.inl ⟨conn, lost, rfl, rfl, List.mem_of_find?_eq_some hfind, by simpa [held] using hlost, rfl⟩

theorem Lent.borrow (h : Lent poolSize s) (hunused : s.Unused created) :
    Lent poolSize ⟨(s.connections.borrow s.held created).2,
      (s.connections.borrow s.held created).1.toList ++ s.out⟩ := by
  have hslots := h.slots
  have hdistinct := h.distinct
  rcases borrow_cases s created with ⟨conn, pool, hpool, heq⟩ | ⟨conn, lost, hpool, rfl, hlost, hfree, heq⟩ |
    ⟨-, -, heq⟩ <;> rw [heq]
  · rw [hpool] at hslots hdistinct
    refine ⟨?_, ?_, ?_, ?_⟩
    · simp only [List.length_cons] at hslots ⊢
      omega
    · exact List.perm_middle.nodup_iff.mpr hdistinct
    · refine List.nodup_cons.mpr ⟨fun hout => ?_, h.once⟩
      rw [List.cons_append, List.nodup_cons] at hdistinct
      exact hdistinct.1 (List.mem_append_right _ (h.borrowed hout))
    · exact List.cons_subset_cons conn h.borrowed
  · rw [hpool, List.nil_append] at hdistinct
    have hnew : conn ∉ s.connections.borrowed := by simpa [hpool] using hunused conn rfl
    refine ⟨?_, ?_, ?_, ?_⟩
    · have hpos := List.length_pos_of_mem hlost
      rw [hpool, List.length_nil] at hslots
      rw [List.length_cons, List.length_erase_of_mem hlost, List.length_nil]
      omega
    · exact List.nodup_cons.mpr ⟨fun hin => hnew (List.mem_of_mem_erase hin), hdistinct.erase lost⟩
    · exact List.nodup_cons.mpr ⟨fun hout => hnew (h.borrowed hout), h.once⟩
    · exact List.cons_subset_cons conn (subset_erase h.borrowed hfree)
  · exact h

theorem Lent.unborrow (h : Lent poolSize s) {conn : Connection} (hconn : conn ∈ s.out) :
    Lent poolSize ⟨s.connections.unborrow conn, s.out.erase conn⟩ := by
  have hborrowed := h.borrowed hconn
  have hslots := h.slots
  have hpos := List.length_pos_of_mem hborrowed
  rw [ConnectionPool.unborrow, if_pos hborrowed]
  refine ⟨?_, ?_, h.once.erase conn, ?_⟩
  · rw [List.length_append, List.length_singleton, List.length_erase_of_mem hborrowed]
    omega
  · have hperm : (s.connections.pool ++ [conn] ++ s.connections.borrowed.erase conn).Perm
        (s.connections.pool ++ s.connections.borrowed) := by
      rw [List.append_assoc]
      exact (List.perm_cons_erase hborrowed).symm.append_left _
    exact hperm.nodup_iff.mpr h.distinct
  · exact subset_erase (fun c hc => h.borrowed (List.mem_of_mem_erase hc)) fun hc =>
      (h.once.mem_erase_iff.mp hc).1 rfl

/-- A second `unborrow` does nothing. -/
theorem Lent.unborrow_again (h : Lent poolSize s) {conn : Connection} (hconn : conn ∉ s.connections.borrowed) :
    (⟨s.connections.unborrow conn, s.out.erase conn⟩ : Lending) = s := by
  rw [ConnectionPool.unborrow, if_neg hconn, List.erase_of_not_mem fun hout => hconn (h.borrowed hout)]

theorem step_lent {e : LendingEvent} (h : Lent poolSize s) (hs : s.step e = some s') : Lent poolSize s' := by
  cases e with
  | borrow created =>
    simp only [step] at hs
    split at hs
    · rename_i hunused
      obtain rfl := Option.some.inj hs
      exact h.borrow hunused
    · cases hs
  | unborrow conn =>
    simp only [step] at hs
    split at hs
    · rename_i hconn
      obtain rfl := Option.some.inj hs
      rcases hconn with hheld | hreturned
      · exact h.unborrow hheld
      · rw [h.unborrow_again hreturned]
        exact h
    · cases hs
  | drop conn =>
    simp only [step] at hs
    split at hs
    · obtain rfl := Option.some.inj hs
      exact ⟨h.slots, h.distinct, h.once.erase conn, fun c hc => h.borrowed (List.mem_of_mem_erase hc)⟩
    · cases hs

/-! ## Every run -/

theorem init_lent {create : Nat → Connection} (hcreate : Function.Injective create) :
    Lent poolSize ⟨ConnectionPool.init poolSize create, []⟩ := by
  rw [ConnectionPool.init_eq]
  refine ⟨by simp, ?_, List.nodup_nil, List.nil_subset _⟩
  rw [List.append_nil]
  exact List.nodup_range.map hcreate

/-- Whatever clients borrow, give back, once or again, and drop: no connection has two holders, and none of
the `poolSize` connections is lost. A borrower gets a connection that nobody holds; while the factory works
it gets one unless clients hold all of them, and without the factory unless none is free. -/
theorem connections_lent_once {create : Nat → Connection} (hcreate : Function.Injective create)
    {es : List LendingEvent} (hr : run step ⟨ConnectionPool.init poolSize create, []⟩ es = some s) :
    Lent poolSize s ∧ ∀ created, s.Unused created →
      (∀ conn, (s.connections.borrow s.held created).1 = some conn → conn ∉ s.out) ∧
      ((s.connections.borrow s.held created).1.isSome ↔
        if created.isSome then s.out.length < poolSize else s.connections.pool ≠ []) := by
  have h : Lent poolSize s := run_invariant (fun _ _ _ => step_lent) (init_lent hcreate) hr
  refine ⟨h, fun created hunused => ⟨fun conn hconn hout => ?_, ?_⟩⟩
  · have hlent := (h.borrow hunused).once
    rw [hconn] at hlent
    exact (List.nodup_cons.mp hlent).1 hout
  · have hslots := h.slots
    have hle := h.out_le
    rcases borrow_cases s created with ⟨conn, pool, hpool, heq⟩ | ⟨conn, lost, hpool, rfl, hlost, hfree, heq⟩ |
      ⟨hpool, hall, heq⟩ <;> rw [heq]
    · rw [hpool, List.length_cons] at hslots
      have hroom : s.out.length < poolSize := by omega
      split <;> simp [hpool, hroom]
    · have hlt := (h.once.subperm (subset_erase h.borrowed hfree)).length_le
      rw [List.length_erase_of_mem hlost] at hlt
      have hpos := List.length_pos_of_mem hlost
      rw [hpool, List.length_nil] at hslots
      have hroom : s.out.length < poolSize := by omega
      simp [hroom]
    · rw [hpool, List.length_nil] at hslots
      rcases hall with hall | rfl
      · have hfull := (h.distinct.of_append_right.subperm hall).length_le
        have hnot : ¬s.out.length < poolSize := by omega
        split <;> simp [hpool, hnot]
      · simp [hpool]

/-- Both connections are lent, one is dropped, and a new one takes its place. The other is given back twice. -/
def lendingEvents : List LendingEvent :=
  [.borrow none, .borrow none, .drop 0, .borrow none, .borrow (some 7), .unborrow 1, .unborrow 1]

theorem connections_lent_once_sample : ∃ s,
    run step ⟨ConnectionPool.init 2 id, []⟩ lendingEvents = some s ∧ s.connections.pool = [1] ∧ s.out = [7] ∧
      Lent 2 s := by
  have hrun : run step ⟨⟨[0, 1], []⟩, []⟩ lendingEvents = some ⟨⟨[1], [7]⟩, [7]⟩ := by decide
  have hinit : ConnectionPool.init 2 id = ⟨[0, 1], []⟩ := ConnectionPool.init_eq 2 id
  rw [← hinit] at hrun
  exact ⟨_, hrun, rfl, rfl, (connections_lent_once (fun _ _ h => h) hrun).1⟩

end Lending

end Core
