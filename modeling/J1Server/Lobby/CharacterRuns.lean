import J1Server.Lobby.Characters

/-! # Characters over whole runs

The character tables stay in step, a response tells what was committed, and a deletion stays within the
account that asks for it. -/

namespace Lobby

open Lib Lib.Server Core

/-! ## The tables -/

/-- Every id in the tables was drawn from the counter. -/
structure Numbered (s : Server lobbyDb) : Prop where
  positive : 0 < s.next
  used : ∀ id, Used s.db id → id < s.next
  inStep : s.next ≤ 2 ^ 31 → InStep s.db

theorem Numbered.still {s s' : Server lobbyDb} (h : Numbered s) (hs : Still s s') : Numbered s' where
  positive := Int.lt_of_lt_of_le h.positive hs.next
  used id hid := by
    rw [hs.db] at hid
    exact Int.lt_of_lt_of_le (h.used id hid) hs.next
  inStep hkeys := by
    rw [hs.db]
    exact h.inStep (Int.le_trans hs.next hkeys)

theorem Numbered.create {s₀ s : Server lobbyDb} (h : Numbered s₀) {row : Auction.CharacterBase} {skin : CharacterSkin}
    (hdrawn : s₀.next ≤ row.characterId) (hkey : row.characterId < s.next)
    (hskin : skin.characterId = toInt32 row.characterId) (hdb : s.db = (Change.create row skin).apply s₀.db) :
    Numbered s := by
  have hpositive := h.positive
  have hunused : ¬Used s₀.db row.characterId := fun hused => absurd (h.used _ hused) (by omega)
  have hle : toInt32 row.characterId ≤ row.characterId := toInt32_le (by omega)
  refine ⟨by omega, fun id hid => ?_, fun hkeys => ?_⟩
  · obtain ⟨hbase, hcombat, hskins⟩ := rows_create hunused skin id
    by_cases hrow : row.characterId = id
    · omega
    by_cases hskinId : skin.characterId = id
    · omega
    rw [hdb] at hid
    unfold Used at hid
    rw [hbase, hcombat, hskins, if_neg hrow, if_neg hskinId] at hid
    have := h.used id hid
    omega
  · rw [hdb]
    refine inStep_create (h.inStep (by omega)) hunused ?_
    rw [hskin]
    exact (toInt32_eq_iff _).mpr (by omega)

theorem Numbered.delete {s₀ s : Server lobbyDb} (h : Numbered s₀) (k : Int) (hnext : s₀.next ≤ s.next)
    (hdb : s.db = (Change.delete k).apply s₀.db) : Numbered s := by
  refine ⟨Int.lt_of_lt_of_le h.positive hnext, fun id hid => ?_, fun hkeys => ?_⟩
  · obtain ⟨hbase, hcombat, hskin⟩ := rows_delete s₀.db k id
    rw [hdb] at hid
    unfold Used at hid
    rw [hbase, hcombat, hskin] at hid
    by_cases hk : k = id
    · simp [hk] at hid
    · rw [if_neg hk, if_neg hk, if_neg hk] at hid
      exact Int.lt_of_lt_of_le (h.used id hid) hnext
  · rw [hdb]
    exact inStep_delete (h.inStep (Int.le_trans hnext hkeys)) k

theorem Numbered.made {req : CharacterRequest} {s₀ s : Server lobbyDb} (h : Numbered s₀) (hmade : Made req s₀ s)
    (hnext : s₀.next ≤ s.next) : Numbered s := by
  obtain ⟨ch, hmakes, hdb, -⟩ := hmade
  cases req with
  | create pkt =>
    obtain ⟨temp, key, -, hdrawn, hkey, -, rfl⟩ := hmakes
    exact h.create hdrawn hkey rfl hdb
  | delete pkt =>
    obtain ⟨-, rfl⟩ := hmakes
    exact h.delete _ hnext hdb

namespace CharacterService

variable {law : Call lobbyDb → Harm → Bool} {m m' : CharacterService}

structure Tabled (m : CharacterService) : Prop where
  now : Numbered m.server
  before : ∀ job, m.job = some job → Numbered job.before

theorem Tabled.step (h : Tabled m) (hsound : Sound law m) {e : CharacterEvent} (hm : step law m e = some m') :
    Tabled m' := by
  refine ⟨?_, fun job' hjob' => ?_⟩
  · rcases hsound.commits hm with hstill | ⟨job, hjob, hbefore, hmade, hnext⟩
    · exact h.now.still hstill
    · exact (h.before job hjob).made hmade (Int.le_trans hbefore.next hnext)
  · rcases step_job hm hjob' with ⟨alloc, -, -, hstarted⟩ | ⟨job, hjob, -, hsame⟩
    · rw [hstarted]
      exact h.now
    · rw [hsame]
      exact h.before job hjob

theorem tabled_run (hlaw : law .commit .replyLost = false) {es : List CharacterEvent} (hsound : Sound law m)
    (hm : Tabled m) (hrun : run (CharacterService.step law) m es = some m') : Sound law m' ∧ Tabled m' :=
  run_invariant (P := fun m => Sound law m ∧ Tabled m)
    (fun _ _ _ h hstep => ⟨h.1.step hlaw hstep, h.2.step h.1 hstep⟩) ⟨hsound, hm⟩ hrun

/-! ## The list of characters -/

/-- The list handler, between two other requests, sends the characters. -/
def Lists (law : Call lobbyDb → Harm → Bool) (m : CharacterService) (pkt : ReqCharacterList)
    (characters : List LobbyCharacterInfo) : Prop :=
  m.job = none ∧ ∃ alloc conn p tr p' s', alloc.created.all m.isFresh = true ∧
    m.connections.borrow alloc.held alloc.created = (some conn, p) ∧
    Exec (Alone conn) (Step law conn) ((handleReqCharacterList alloc pkt).prog m.connections) m.server tr
      (.ok (some (.characterList true characters)), p') s'

theorem closed_query {st : Stmt} {conn : Connection} {p p' : ConnectionPool} {s s' : Server lobbyDb}
    {tr : List (Answered (Sql lobbyDb))} {reply : st.Reply} (hclosed : Closed conn s)
    (h : Exec (Alone conn) (Step law conn) ((executeQuery st).prog p) s tr (.ok reply, p') s') :
    ∃ now next, reply = (st.effect now next s.db).reply := by
  have hrefl : ∀ s, Alone conn s s := alone_refl conn
  rcases Act.of_bind hrefl h with ⟨e, m, he, -⟩ | ⟨r, p₁, m, tr₁, tr₂, hcall, hrest, -⟩
  · cases he
  obtain ⟨rfl, -, s₁, s₂, h₁, hs, -⟩ := Act.of_call hcall
  have hreply : r = reply := by
    rcases Act.of_bind hrefl hrest with ⟨e, m', he, -⟩ | ⟨u, p₂, m', tr₃, tr₄, -, hdone, -⟩
    · cases he
    · exact (Except.ok.inj (Act.of_pure hdone).1).symm
  rcases hs.exec lobbyDb_lawful with ⟨hok, -⟩ | ⟨e, he, -⟩
  · refine ⟨s₁.now, s₁.next, ?_⟩
    rw [← hreply, Except.ok.inj hok, Server.effect, Server.view, h₁.1.conn, hclosed.pending, applyAll_nil, h₁.2.db]
  · cases he

theorem Lists.rows (hsound : Sound law m) {pkt : ReqCharacterList} {characters : List LobbyCharacterInfo}
    (h : Lists law m pkt characters) : characters = (charactersOf m.server.db pkt.id).map characterInfoOf := by
  obtain ⟨hidle, alloc, conn, p, tr, p', s', hfresh, hborrow, hexec⟩ := h
  have hfresh' : ∀ c, alloc.created = some c → m.isFresh c = true := by
    intro c hc
    rw [hc] at hfresh
    exact hfresh
  have hlent := borrow_lent (hsound.idle hidle) (fresh_allocation hfresh') hborrow
  unfold handleReqCharacterList at hexec
  rw [prog_borrow_bind hborrow] at hexec
  rcases Act.of_bind (alone_refl conn) hexec with ⟨e, m', he, -⟩ | ⟨found, p₁, m', tr₁, tr₂, hfound, hrest, -⟩
  · cases he
  have hresponse : (Except.ok (some (Response.characterList true characters)) : Except SqlException _) =
      .ok (some (.characterList found.isSome ((found.getD []).map characterInfoOf))) := by
    refine Prog.Ends.exec (Q := fun r : Except SqlException (Option Response) × ConnectionPool => r.1 = _) ?_ hrest
    exact rfl
  obtain ⟨hsome, rfl⟩ := Response.characterList.inj (Option.some.inj (Except.ok.inj hresponse))
  obtain ⟨rows, rfl⟩ := Option.isSome_iff_exists.mp hsome.symm
  have hrows : rows = charactersOf m.server.db pkt.id := by
    unfold findCharacters at hfound
    split at hfound
    · rcases Act.of_bind (alone_refl conn) hfound with ⟨e, m₁, he, -⟩ | ⟨reply, p₂, m₁, tr₃, tr₄, hquery, hdone, -⟩
      · cases he
      · obtain ⟨now, next, rfl⟩ := closed_query hlent.closed hquery
        exact Option.some.inj (Except.ok.inj (Act.of_pure hdone).1)
    · cases (Act.of_pure hfound).1
  rw [hrows]
  rfl

structure TablesKept (law : Call lobbyDb → Harm → Bool) (m : CharacterService) : Prop where
  inStep : InStep m.server.db
  told : ∀ x ∈ m.handled, ∀ resp, x.result = .ok (some resp) →
    resp = x.req.response true ∧ Made x.req x.before x.after ∨ resp = x.req.response false ∧ Still x.before x.after
  listed : ∀ pkt characters, Lists law m pkt characters → ∃ rows : List (Auction.CharacterBase × CharacterSkin),
    (rows.map Prod.fst).Perm (m.server.db.characterBase.rows.filter fun c => c.accountId = pkt.id) ∧
      characters = rows.map characterInfoOf

/-- Whatever throws, a character has all of its rows or none of them, and a response tells whether the
whole change was committed. -/
theorem character_tables_in_step (hlaw : law .commit .replyLost = false) {db : Database} {now next : Int}
    {conns : List Connection} (hconns : conns.Nodup) (hstep : InStep db) (hnext : 0 < next)
    (hused : ∀ id, Used db id → id < next) {es : List CharacterEvent}
    (hrun : run (step law) (fresh db now next conns) es = some m) (hkeys : m.server.next ≤ 2 ^ 31) :
    TablesKept law m := by
  have hfresh : Tabled (fresh db now next conns) :=
    ⟨⟨hnext, hused, fun _ => hstep⟩, fun job hjob => (by cases hjob)⟩
  obtain ⟨hsound, htabled⟩ := tabled_run hlaw (sound_fresh hconns db now next) hfresh hrun
  have hin := htabled.now.inStep hkeys
  refine ⟨hin, fun x hx => (hsound.handled x hx).1, fun pkt characters hlists => ?_⟩
  exact ⟨_, charactersOf_complete hin _, hlists.rows hsound⟩

/-- Every call may fail, but a commit that throws did not commit. -/
def commitsOrThrows : Call lobbyDb → Harm → Bool
  | .commit, .replyLost => false
  | _, _ => true

def sampleHero : CharacterRequest := .create ⟨7, [⟨0, 0, "hero", 1, 0, 0, 1, 2, 3⟩]⟩

/-- A creation whose skin row is refused, and then one that is committed. -/
def sampleCreations : List CharacterEvent :=
  [.start sampleHero {}] ++ skinFails.map .call ++ [.finish] ++
    [.start sampleHero {}] ++ (List.replicate 11 none).map .call ++ [.finish]

/-- The one that was created is listed; the first one used up a key. -/
theorem character_tables_in_step_sample : ∃ m,
    run (step commitsOrThrows) (fresh emptyDb 0 1 [0, 1]) sampleCreations = some m ∧
      m.handled.map (fun x => x.result.toOption) = [some (some (.createCharacter false)),
        some (some (.createCharacter true))] ∧
      Lists commitsOrThrows m ⟨7⟩ [⟨2, 0, "hero", 1, 1, 0, 1, 2, 3⟩] ∧ TablesKept commitsOrThrows m := by
  have hrun : (run (step commitsOrThrows) (fresh emptyDb 0 1 [0, 1]) sampleCreations).bind
      (fun m => (runAlone commitsOrThrows 0 ((handleReqCharacterList {} ⟨7⟩).prog m.connections)
        (List.replicate 2 none) m.server).map fun x => (m.handled.map fun x => x.result.toOption, m.server.next,
          m.job.isNone, m.connections, x.2.1.1.toOption)) =
      some ([some (some (.createCharacter false)), some (some (.createCharacter true))], 3, true, ⟨[0, 1], []⟩,
        some (some (.characterList true [⟨2, 0, "hero", 1, 1, 0, 1, 2, 3⟩]))) := rfl
  obtain ⟨m, hm, hlist⟩ := Option.bind_eq_some_iff.mp hrun
  obtain ⟨⟨tr, ⟨result, p⟩, s⟩, hlisted, heq⟩ := Option.map_eq_some_iff.mp hlist
  simp only [Prod.mk.injEq] at heq
  obtain ⟨hhandled, hnext, hidle, hconnections, hresult⟩ := heq
  refine ⟨m, hm, hhandled, ?_, character_tables_in_step rfl (by decide) ?_ (by decide) ?_ hm (by rw [hnext]; decide)⟩
  · cases result with
    | error e => cases hresult
    | ok resp =>
      obtain rfl := Option.some.inj hresult
      refine ⟨Option.isNone_iff_eq_none.mp hidle, {}, 0, ⟨[1], [0]⟩, tr, p, s, rfl, ?_, ?_⟩
      · rw [hconnections]
        rfl
      · exact runAlone_exec (alone_refl 0) hlisted
  · intro id
    simp [baseRows, combatRows, skinRows, emptyDb, Table.empty]
  · intro id hid
    simp [Used, baseRows, combatRows, skinRows, emptyDb, Table.empty] at hid

/-! ## One deletion -/

/-- From `p` on, the deletion is the only request. -/
structure OnlyDelete (pkt : ReqDeleteCharacter) (p q : CharacterService) : Prop where
  job : ∀ job, q.job = some job → job.req = .delete pkt ∧ job.before = p.server
  outcome : Still p.server q.server ∨ Made (.delete pkt) p.server q.server
  handled : ∃ new, q.handled = p.handled ++ new ∧ ∀ x ∈ new, x.req = .delete pkt ∧ x.before = p.server

theorem onlyDelete_start {pkt : ReqDeleteCharacter} {alloc : Allocation}
    (hm : step law m (.start (.delete pkt) alloc) = some m') : OnlyDelete pkt m m' := by
  obtain ⟨-, -, rfl⟩ := step_start hm
  refine ⟨fun job hjob => ?_, Or.inl (Still.refl _), [], (List.append_nil _).symm, by simp⟩
  obtain rfl := Option.some.inj hjob
  exact ⟨rfl, rfl⟩

theorem OnlyDelete.step {pkt : ReqDeleteCharacter} {p : CharacterService} (h : OnlyDelete pkt p m)
    (hsound : Sound law m) {e : CharacterEvent} (he : e.isStart = false) (hm : step law m e = some m') :
    OnlyDelete pkt p m' := by
  refine ⟨fun job' hjob' => ?_, ?_, ?_⟩
  · rcases step_job hm hjob' with ⟨alloc, rfl, -⟩ | ⟨job, hjob, hreq, hbefore⟩
    · cases he
    · rw [hreq, hbefore]
      exact h.job job hjob
  · rcases hsound.commits hm with hstill | ⟨job, hjob, -, hmade, -⟩
    · exact outcome_still h.outcome hstill
    · obtain ⟨hreq, hbefore⟩ := h.job job hjob
      rw [hreq, hbefore] at hmade
      exact Or.inr hmade
  · obtain ⟨new, hnew, hall⟩ := h.handled
    rcases step_handled hm with hsame | ⟨job, x, hjob, hreq, hbefore, hadded⟩
    · exact ⟨new, hsame.trans hnew, hall⟩
    · obtain ⟨hjobReq, hjobBefore⟩ := h.job job hjob
      refine ⟨new ++ [x], by rw [hadded, hnew, List.append_assoc], fun y hy => ?_⟩
      rcases List.mem_append.mp hy with hy | hy
      · exact hall y hy
      · obtain rfl := List.mem_singleton.mp hy
        exact ⟨hreq.trans hjobReq, hbefore.trans hjobBefore⟩

theorem onlyDelete_run (hlaw : law .commit .replyLost = false) {pkt : ReqDeleteCharacter} {alloc : Allocation}
    {es : List CharacterEvent} (hsound : Sound law m) (hes : ∀ e ∈ es, e.isStart = false)
    (hrun : run (CharacterService.step law) m (.start (.delete pkt) alloc :: es) = some m') :
    Sound law m' ∧ OnlyDelete pkt m m' := by
  obtain ⟨m₁, hstart, hrest⟩ := run_cons_iff.mp hrun
  refine run_along (P := fun x => Sound law x ∧ OnlyDelete pkt m x) ?_
    ⟨hsound.step hlaw hstart, onlyDelete_start hstart⟩ (along_of_forall m₁ fun e he _ => hes e he) hrest
  exact fun s e s' hs he hstep => ⟨hs.1.step hlaw hstep, hs.2.step hs.1 he hstep⟩

def rowsOf (id : Int) : List RowKey := [.base id, .combat id, .skin id, .inventory id]

theorem look_delete (db : Database) {k id : Int} (hne : k ≠ id) {r : RowKey} (hr : r ∈ rowsOf id) :
    look r ((Change.delete k).apply db) = look r db := by
  refine look_writeAll_other lobbyDb_lawful fun w hw hrow => hne ?_
  simp only [Change.writes, rowsOf, List.mem_cons, List.not_mem_nil, or_false] at hw hr
  rcases hw with rfl | rfl | rfl | rfl <;> obtain rfl := Option.some.inj hrow <;> simpa using hr

def Owns (db : Database) (accountId characterId : Int) : Prop :=
  ∃ c, db.characterBase.get? characterId = some c ∧ c.accountId = accountId

/-- What a deletion can do, from `p` to `q`. -/
structure WithinAccount (pkt : ReqDeleteCharacter) (p q : CharacterService) : Prop where
  others : ∀ accountId id : Int, accountId ≠ pkt.accountId → Owns p.server.db accountId id →
    ∀ r ∈ rowsOf id, look r q.server.db = look r p.server.db
  foreign : ¬Owns p.server.db pkt.accountId pkt.characterId →
    q.server.db = p.server.db ∧ q.server.history = p.server.history
  told : ¬Owns p.server.db pkt.accountId pkt.characterId → ∀ x ∈ q.handled.drop p.handled.length,
    ∀ resp, x.result = .ok (some resp) → resp = .deleteCharacter false

/-- Whatever throws, a deletion leaves the characters of every other account alone, and a character that is not
of the account is not deleted. -/
theorem delete_within_account (hlaw : law .commit .replyLost = false) {db : Database} {now next : Int}
    {conns : List Connection} (hconns : conns.Nodup) {before es : List CharacterEvent} {p q : CharacterService}
    (hreach : run (step law) (fresh db now next conns) before = some p) {pkt : ReqDeleteCharacter}
    {alloc : Allocation} (hes : ∀ e ∈ es, e.isStart = false)
    (hrun : run (step law) p (.start (.delete pkt) alloc :: es) = some q) : WithinAccount pkt p q := by
  have hsound := sound_run hlaw (sound_fresh hconns db now next) hreach
  obtain ⟨hsound', honly⟩ := onlyDelete_run hlaw hsound hes hrun
  refine ⟨fun accountId id hother howns r hr => ?_, fun hforeign => ?_, fun hforeign x hx resp hresp => ?_⟩
  · rcases honly.outcome with hstill | ⟨ch, ⟨⟨c, hc, haccount⟩, rfl⟩, hdb, -⟩
    · rw [hstill.db]
    · obtain ⟨c', hc', haccount'⟩ := howns
      have hne : (pkt.characterId : Int) ≠ id := by
        rintro rfl
        obtain rfl := Option.some.inj (hc'.symm.trans hc)
        exact hother (haccount'.symm.trans haccount)
      rw [hdb, look_delete _ hne hr]
  · rcases honly.outcome with hstill | ⟨ch, ⟨howns, -⟩, -⟩
    · exact ⟨hstill.db, hstill.history⟩
    · exact absurd howns hforeign
  · obtain ⟨new, hnew, hall⟩ := honly.handled
    rw [hnew, List.drop_left] at hx
    obtain ⟨hreq, hbefore⟩ := hall x hx
    have htold := (hsound'.handled x (by rw [hnew]; exact List.mem_append_right _ hx)).1 resp hresp
    rw [hreq, hbefore] at htold
    rcases htold with ⟨-, ch, ⟨howns, -⟩, -⟩ | ⟨hfalse, -⟩
    · exact absurd howns hforeign
    · exact hfalse

def heroDb : Database :=
  { emptyDb with
    characterBase := Table.empty.insert ⟨5, 7, 0, "hero", 1, 1, 0⟩
    characterCombat := [5]
    characterSkin := [⟨5, 1, 2, 3⟩]
    characterInventory := [5, 5] }

def sampleDeletion : List CharacterEvent := (List.replicate 11 none).map .call ++ [.finish]

/-- Account 8 asks for the character of account 7. -/
theorem delete_within_account_foreign : ∃ q,
    run (step commitsOrThrows) (fresh heroDb 0 6 [0, 1]) (.start (.delete ⟨8, 5⟩) {} :: sampleDeletion) = some q ∧
      q.handled.map (fun x => x.result.toOption) = [some (some (.deleteCharacter false))] ∧
      WithinAccount ⟨8, 5⟩ (fresh heroDb 0 6 [0, 1]) q := by
  have hrun : (run (step commitsOrThrows) (fresh heroDb 0 6 [0, 1])
      (.start (.delete ⟨8, 5⟩) {} :: sampleDeletion)).map (fun q => q.handled.map fun x => x.result.toOption) =
      some [some (some (.deleteCharacter false))] := by decide
  obtain ⟨q, hq, hhandled⟩ := Option.map_eq_some_iff.mp hrun
  have hreach : run (step commitsOrThrows) (fresh heroDb 0 6 [0, 1]) [] = some (fresh heroDb 0 6 [0, 1]) := rfl
  refine ⟨q, hq, hhandled, delete_within_account rfl (by decide) hreach ?_ hq⟩
  simp [sampleDeletion, CharacterEvent.isStart]

end CharacterService

end Lobby
