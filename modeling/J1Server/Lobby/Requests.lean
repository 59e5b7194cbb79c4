import J1Server.Lib.Failures
import J1Server.Lobby.Handlers

/-! # Requests and their connection

The requests of both servers that use the database, what it means for one to
survive an exception, and the connection pool that they share. -/

namespace Lobby

open Lib Lib.Server Core

/-! ## Requests -/

inductive Request
  | checkTokenvalid (pkt : ReqCheckTokenvalid)
  | characterList (pkt : ReqCharacterList)
  | checkNickname (pkt : ReqCheckNickname)
  | createCharacter (pkt : ReqCreateCharacter)
  | deleteCharacter (pkt : ReqDeleteCharacter)
  | checkId (id : String)
  | signIn (id pw token : String) (tokens : List String)
  | signUp (id pw : String)

def Request.Result : Request → Type
  | .checkId _ => Bool
  | .signIn .. => Option (Int × String)
  | .signUp .. => Bool
  | _ => Option Response

def Request.run (b : BCrypt) (a : Allocation) : (req : Request) → Act (Sql lobbyDb) ConnectionPool req.Result
  | .checkTokenvalid pkt => handleReqCheckTokenvalid a pkt
  | .characterList pkt => handleReqCharacterList a pkt
  | .checkNickname pkt => handleReqCheckNickname a pkt
  | .createCharacter pkt => handleReqCreateCharacter a pkt
  | .deleteCharacter pkt => handleReqDeleteCharacter a pkt
  | .checkId id => tryCheckId a id
  | .signIn id pw token tokens => trySignIn b a id pw token tokens
  | .signUp id pw => trySignUp b a id pw

/-- The request is over: a sign-in may still be in its loop. -/
def Request.returned : (req : Request) → req.Result → Bool
  | .signIn .., result => Option.isSome result
  | _, _ => true

/-- A packet that its handler refuses borrows nothing. -/
def Request.borrows : Request → Bool
  | .createCharacter pkt => pkt.characters.length = 1
  | .deleteCharacter pkt => pkt.accountId ≠ 0 ∧ pkt.characterId ≠ 0
  | _ => true

/-- The request returned, and the connection that it borrowed is in the pool again. -/
structure Survives (req : Request) (conn : Connection) (r : Except SqlException req.Result) (p : ConnectionPool)
    (s : Server lobbyDb) : Prop where
  returned : ∃ v, r = .ok v ∧ req.returned v = true
  back : req.borrows = true → p.pool.count conn = 1 ∧ conn ∉ p.borrowed ∧ Closed conn s

/-! ## Which exceptions do no harm -/

def insertsToken : Stmt → Bool
  | .insertSession .. => true
  | _ => false

def restores : Answered (Sql lobbyDb) → Bool
  | ⟨.setAutoCommit true, _⟩ => true
  | _ => false

/-- Only token `INSERT`s throw, and one of them succeeds if there is any. -/
def SignsIn (sts : List (Stmt × Bool)) : Prop :=
  (∀ x ∈ sts, x.2 = true ∨ insertsToken x.1 = true) ∧
  ((∃ x ∈ sts, insertsToken x.1 = true) → ∃ x ∈ sts, insertsToken x.1 = true ∧ x.2 = true)

/-- The lookups and the sign-up survive no exception. A transaction survives one, unless it is the call
that switches autocommit on again. The sign-in survives the exceptions of its token `INSERT`s, as soon as
one of them succeeds. -/
def Request.Harmless : Request → List (Answered (Sql lobbyDb)) → Prop
  | .createCharacter _, tr => throws tr ≤ 1 ∧ ∀ x ∈ tr, restores x = true → x.answer.isOk = true
  | .deleteCharacter _, tr => throws tr ≤ 1 ∧ ∀ x ∈ tr, restores x = true → x.answer.isOk = true
  | .signIn .., tr => SignsIn (statements tr)
  | _, tr => throws tr = 0

/-! ## The pool of a process -/

/-- What the other processes do to the server, on connections of their own. -/
def Elsewhere (mine : Connection → Prop) (s s' : Server lobbyDb) : Prop := ∀ c, mine c → Rely c s s'

/-- No connection is in the pool twice, and those that are free are closed. -/
structure Clean (mine : Connection → Prop) (p : ConnectionPool) (s : Server lobbyDb) : Prop where
  distinct : (p.pool ++ p.borrowed).Nodup
  mine : ∀ c ∈ p.pool, mine c
  closed : ∀ c ∈ p.pool, Closed c s

/-- The factory makes a connection that did not exist. -/
def Allocation.Fresh (mine : Connection → Prop) (a : Allocation) (p : ConnectionPool) (s : Server lobbyDb) : Prop :=
  ∀ c, a.created = some c → mine c ∧ c ∉ p.pool ++ p.borrowed ∧ Closed c s

theorem clean_filled {mine : Connection → Prop} {conns : List Connection} (hconns : conns.Nodup)
    (hmine : ∀ c ∈ conns, mine c) (db : Database) (now next : Int) :
    Clean mine ⟨conns, []⟩ (idle (D := lobbyDb) db now next) :=
  ⟨by simpa using hconns, hmine, fun _ _ => ⟨rfl, rfl⟩⟩

section

variable {mine : Connection → Prop} {law : Call lobbyDb → Harm → Bool} {conn : Connection} {a : Allocation}
  {p p₁ p' : ConnectionPool} {s s' : Server lobbyDb} {tr : List (Answered (Sql lobbyDb))}

theorem elsewhere_refl (s : Server lobbyDb) : Elsewhere mine s s := fun c _ => Rely.refl c s

theorem Elsewhere.own (hmine : mine conn) : ∀ s s', Elsewhere mine s s' → s'.conns conn = s.conns conn :=
  fun _ _ h => (h conn hmine).conn

structure Lent (mine : Connection → Prop) (conn : Connection) (p : ConnectionPool) (s : Server lobbyDb) : Prop where
  clean : Clean mine p s
  mine : mine conn
  closed : Closed conn s
  listed : ∃ rest, p.borrowed = conn :: rest

theorem borrow_lent (hp : Clean mine p s) (ha : a.Fresh mine p s)
    (h : p.borrow a.held a.created = (some conn, p₁)) : Lent mine conn p₁ s := by
  obtain ⟨pool, borrowed⟩ := p
  have hdistinct := hp.distinct
  unfold ConnectionPool.borrow at h
  cases pool with
  | cons c pool =>
    obtain ⟨hc, rfl⟩ := Prod.mk.inj h
    obtain rfl := Option.some.inj hc
    refine ⟨⟨?_, fun x hx => hp.mine x (by simp [hx]), fun x hx => hp.closed x (by simp [hx])⟩,
      hp.mine c (by simp), hp.closed c (by simp), borrowed, rfl⟩
    exact (List.perm_middle.nodup_iff).mpr hdistinct
  | nil =>
    dsimp only at h
    split at h
    · rename_i lost c _ hcreated
      obtain ⟨hmine, hnew, hclosed⟩ := ha c hcreated
      obtain ⟨hc, rfl⟩ := Prod.mk.inj h
      obtain rfl := Option.some.inj hc
      refine ⟨⟨?_, by simp, by simp⟩, hmine, hclosed, _, rfl⟩
      simp only [List.nil_append, List.nodup_cons] at hdistinct hnew ⊢
      exact ⟨fun hx => hnew (List.mem_of_mem_erase hx), hdistinct.erase lost⟩
    · cases (Prod.mk.inj h).1

theorem Clean.free_ne (hp : Clean mine p s) (hlisted : ∃ rest, p.borrowed = conn :: rest) {c : Connection}
    (hc : c ∈ p.pool) : c ≠ conn := by
  obtain ⟨rest, hrest⟩ := hlisted
  have hdistinct := hp.distinct
  rw [hrest] at hdistinct
  rintro rfl
  exact List.disjoint_of_nodup_append hdistinct hc List.mem_cons_self

/-- The free connections stay closed while another one works. -/
theorem Lent.kept (hl : Lent mine conn p s) {α : Type} {x : Prog (Sql lobbyDb) α} {r : α}
    (h : Exec (Elsewhere mine) (Step law conn) x s tr r s') : Clean mine p s' := by
  refine ⟨hl.clean.distinct, hl.clean.mine, fun c hc => ?_⟩
  have hne := hl.clean.free_ne hl.listed hc
  refine (hl.clean.closed c hc).congr (Exec.related (P := fun s s' => s'.conns c = s.conns c) ?_ ?_ ?_ h)
  · exact fun _ _ _ h₁ h₂ => h₂.trans h₁
  · exact fun _ _ hr => (hr c (hl.clean.mine c hc)).conn
  · exact fun _ _ _ _ hs => (hs.moved lobbyDb_lawful).others c hne

theorem Lent.unborrow (hl : Lent mine conn p s) (hclosed : Closed conn s') (hclean : Clean mine p s') :
    Clean mine (p.unborrow conn) s' ∧ (p.unborrow conn).pool.count conn = 1 ∧
      conn ∉ (p.unborrow conn).borrowed := by
  obtain ⟨pool, borrowed⟩ := p
  obtain ⟨rest, rfl⟩ : ∃ rest, borrowed = conn :: rest := hl.listed
  have hdistinct : (conn :: (pool ++ rest)).Nodup := (List.perm_middle.nodup_iff).mp hl.clean.distinct
  rw [List.nodup_cons, List.mem_append, not_or] at hdistinct
  obtain ⟨⟨hpool, hrest⟩, hnodup⟩ := hdistinct
  have hback : ConnectionPool.unborrow ⟨pool, conn :: rest⟩ conn = ⟨pool ++ [conn], rest⟩ := by
    simp [ConnectionPool.unborrow]
  rw [hback]
  refine ⟨⟨?_, ?_, ?_⟩, ?_, hrest⟩
  · rw [List.append_assoc]
    exact (List.perm_middle.nodup_iff).mpr (List.nodup_cons.mpr ⟨by simp [hpool, hrest], hnodup⟩)
  · intro c hc
    rcases List.mem_append.mp hc with hc | hc
    · exact hclean.mine c hc
    · obtain rfl := List.mem_singleton.mp hc
      exact hl.mine
  · intro c hc
    rcases List.mem_append.mp hc with hc | hc
    · exact hclean.closed c hc
    · obtain rfl := List.mem_singleton.mp hc
      exact hclosed
  · rw [List.count_append, List.count_eq_zero.mpr hpool, List.count_singleton_self]

theorem Clean.elsewhere (hp : Clean mine p s) (h : Elsewhere mine s s') : Clean mine p s' :=
  ⟨hp.distinct, hp.mine, fun c hc => (hp.closed c hc).congr (h c (hp.mine c hc)).conn⟩

end

end Lobby
