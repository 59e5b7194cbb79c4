import J1Server.Lobby.CharacterRuns

/-! # The roster

What the character tables are for: every account has its characters, in the order of their slots. A request
adds one character, or removes one. -/

namespace Lobby

open Lib Lib.Server Core
open Auction (CharacterBase)

/-! ## Characters and who has them -/

/-- `issued` is the last id that was given out. The defaults are what a new character starts with. -/
structure Roster where
  characters : List (CharacterBase × CharacterSkin)
  issued : Int
  defaultLevel : Int
  defaultGold : Int

inductive RosterChange
  | add (character : CharacterBase × CharacterSkin)
  | remove (characterId : Int)

namespace Roster

def apply (r : Roster) : RosterChange → Roster
  | .add character => { r with characters := r.characters ++ [character], issued := character.1.characterId }
  | .remove characterId => { r with characters := r.characters.filter fun c => c.1.characterId ≠ characterId }

def list (r : Roster) (accountId : Int) : List (CharacterBase × CharacterSkin) :=
  (r.characters.filter fun c => c.1.accountId = accountId).insertionSort bySlotIndex

/-- A new character has what the request asks for, and a new id. Only an own character can be removed. -/
def Allows (r : Roster) : CharacterRequest → RosterChange → Prop
  | .create pkt, ch => ∃ temp key, pkt.characters = [temp] ∧ r.issued < key ∧
      ch = .add (⟨key, pkt.accountId, temp.slotId, temp.name, temp.classtype, r.defaultLevel, r.defaultGold⟩,
        ⟨key, temp.upperskinid, temp.lowerskinid, temp.weaponskinid⟩)
  | .delete pkt, ch => (∃ c ∈ r.characters, c.1.characterId = pkt.characterId ∧ c.1.accountId = pkt.accountId) ∧
      ch = .remove pkt.characterId

end Roster

def Handled.Confirmed (x : Handled) : Prop := x.result = .ok (some (x.req.response true))

def Handled.Unrefused (x : Handled) : Prop := x.Confirmed ∨ ∃ e, x.result = .error e

/-- The roster after these requests. One that is confirmed made its change, one that is refused made none, and
one that ended with an exception made its change or none. -/
inductive Follows (start : Roster) : List Handled → Roster → Prop
  | start : Follows start [] start
  | kept {xs : List Handled} {r : Roster} {x : Handled} (before : Follows start xs r) (unconfirmed : ¬x.Confirmed) :
      Follows start (xs ++ [x]) r
  | made {xs : List Handled} {r : Roster} {x : Handled} {ch : RosterChange} (before : Follows start xs r)
      (unrefused : x.Unrefused) (allowed : r.Allows x.req ch) :
      Follows start (xs ++ [x]) (r.apply ch)

namespace Roster

/-- No id is given out twice. -/
structure Ok (r : Roster) : Prop where
  distinct : (r.characters.map fun c => c.1.characterId).Nodup
  issued : ∀ c ∈ r.characters, c.1.characterId ≤ r.issued

variable {r : Roster} {req : CharacterRequest} {ch : RosterChange}

theorem Ok.apply (h : r.Ok) (hallows : r.Allows req ch) : (r.apply ch).Ok := by
  cases req with
  | create pkt =>
    obtain ⟨temp, key, -, hnew, rfl⟩ := hallows
    refine ⟨?_, fun c hc => ?_⟩
    · rw [Roster.apply, List.map_append, List.map_singleton, ← List.concat_eq_append]
      refine List.Nodup.concat (fun hold => ?_) h.distinct
      obtain ⟨c, hc, hkey⟩ := List.mem_map.mp hold
      have hsame : c.1.characterId = key := hkey
      have hle := h.issued c hc
      omega
    · rcases List.mem_append.mp hc with hc | hc
      · exact Int.le_of_lt (Int.lt_of_le_of_lt (h.issued c hc) hnew)
      · obtain rfl := List.mem_singleton.mp hc
        exact Int.le_refl key
  | delete pkt =>
    obtain ⟨-, rfl⟩ := hallows
    exact ⟨h.distinct.sublist (List.filter_sublist.map _), fun c hc => h.issued c (List.mem_filter.mp hc).1⟩

/-- Only a deletion by its account takes a character from the roster. -/
theorem Ok.stays (h : r.Ok) (hallows : r.Allows req ch) {c : CharacterBase × CharacterSkin} (hc : c ∈ r.characters)
    (hnot : ∀ pkt, req = .delete pkt → (pkt.characterId : Int) = c.1.characterId → pkt.accountId ≠ c.1.accountId) :
    c ∈ (r.apply ch).characters := by
  cases req with
  | create pkt =>
    obtain ⟨temp, key, -, -, rfl⟩ := hallows
    exact List.mem_append_left _ hc
  | delete pkt =>
    obtain ⟨⟨c', hc', hid, haccount⟩, rfl⟩ := hallows
    refine List.mem_filter.mpr ⟨hc, by_contra fun hsame => ?_⟩
    have hkey : c.1.characterId = pkt.characterId := by simpa using hsame
    obtain rfl := List.inj_on_of_nodup_map h.distinct hc' hc (hid.trans hkey.symm)
    exact hnot pkt rfl hid.symm haccount.symm

end Roster

namespace Follows

variable {start r : Roster} {xs ys : List Handled}

theorem ok (h : Follows start xs r) (hok : start.Ok) : r.Ok := by
  induction h with
  | start => exact hok
  | kept _ _ ih => exact ih
  | made _ _ hallows ih => exact ih.apply hallows

theorem snoc_cases {x : Handled} (h : Follows start (xs ++ [x]) r) :
    ∃ before, Follows start xs before ∧ (¬x.Confirmed ∧ r = before ∨
      x.Unrefused ∧ ∃ ch, before.Allows x.req ch ∧ r = before.apply ch) := by
  generalize hall : xs ++ [x] = all at h
  cases h with
  | start => simp at hall
  | kept hbefore hunconfirmed =>
    obtain ⟨rfl, rfl⟩ := List.append_singleton_inj.mp hall
    exact ⟨r, hbefore, Or.inl ⟨hunconfirmed, rfl⟩⟩
  | made hbefore hunrefused hallows =>
    obtain ⟨rfl, rfl⟩ := List.append_singleton_inj.mp hall
    exact ⟨_, hbefore, Or.inr ⟨hunrefused, _, hallows, rfl⟩⟩

theorem split (h : Follows start (xs ++ ys) r) : ∃ mid, Follows start xs mid ∧ Follows mid ys r := by
  induction ys using List.reverseRecOn generalizing r with
  | nil => exact ⟨r, by simpa using h, .start⟩
  | append_singleton ys y ih =>
    rw [← List.append_assoc] at h
    obtain ⟨before, hbefore, hlast⟩ := h.snoc_cases
    obtain ⟨mid, hfirst, hrest⟩ := ih hbefore
    refine ⟨mid, hfirst, ?_⟩
    rcases hlast with ⟨hunconfirmed, rfl⟩ | ⟨hunrefused, ch, hallows, rfl⟩
    · exact hrest.kept hunconfirmed
    · exact hrest.made hunrefused hallows

theorem stays (h : Follows start xs r) (hok : start.Ok) {c : CharacterBase × CharacterSkin}
    (hc : c ∈ start.characters) (hnot : ∀ x ∈ xs, x.Unrefused → ∀ pkt, x.req = .delete pkt →
      (pkt.characterId : Int) = c.1.characterId → pkt.accountId ≠ c.1.accountId) : c ∈ r.characters := by
  induction h with
  | start => exact hc
  | kept _ _ ih => exact ih fun x hx => hnot x (List.mem_append_left _ hx)
  | made hbefore hunrefused hallows ih =>
    have hbefore' := ih fun x hx => hnot x (List.mem_append_left _ hx)
    exact (hbefore.ok hok).stays hallows hbefore' (hnot _ (by simp) hunrefused)

end Follows

/-! ## The tables -/

/-- The join of the list query, for all accounts. -/
def joined (db : Database) : List (CharacterBase × CharacterSkin) :=
  db.characterBase.rows.flatMap fun cb =>
    (db.characterCombat.filter (· = cb.characterId)).flatMap fun _ =>
      (db.characterSkin.filter (·.characterId = cb.characterId)).map fun cs => (cb, cs)

def rosterOf (db : Database) (issued : Int) : Roster := ⟨joined db, issued, db.defaultLevel, db.defaultGold⟩

theorem charactersOf_eq (db : Database) (accountId : Int) :
    charactersOf db accountId = ((joined db).filter fun c => c.1.accountId = accountId).insertionSort bySlotIndex := by
  unfold charactersOf joined
  congr 1
  rw [List.filter_flatMap]
  induction db.characterBase.rows with
  | nil => rfl
  | cons cb rows ih =>
    rw [List.flatMap_cons, ← ih, List.filter_flatMap]
    by_cases hcb : cb.accountId = accountId
    · rw [List.filter_cons_of_pos (by simpa using hcb), List.flatMap_cons]
      congr 1
      apply List.flatMap_congr
      intro _ _
      simp [List.filter_map, Function.comp_def, hcb]
    · rw [List.filter_cons_of_neg (by simpa using hcb)]
      simp [List.filter_map, Function.comp_def, hcb]

/-- A character that has all of its rows is joined once. -/
theorem map_joined {db : Database} (h : InStep db) : (joined db).map Prod.fst = db.characterBase.rows := by
  unfold joined
  rw [List.map_flatMap]
  have hone : ∀ cb ∈ db.characterBase.rows, ((db.characterCombat.filter (· = cb.characterId)).flatMap fun _ =>
      (db.characterSkin.filter (·.characterId = cb.characterId)).map fun cs => (cb, cs)).map Prod.fst = [cb] := by
    intro cb hcb
    obtain ⟨hcombat, hskin⟩ := (h cb.characterId).mp (baseRows_of_mem hcb)
    rw [combatRows, List.countP_eq_length_filter] at hcombat
    rw [skinRows, List.countP_eq_length_filter] at hskin
    obtain ⟨id, hid⟩ := List.length_eq_one_iff.mp hcombat
    obtain ⟨cs, hcs⟩ := List.length_eq_one_iff.mp hskin
    rw [hid, hcs]
    rfl
  rw [List.flatMap_congr hone]
  exact List.flatMap_singleton' _

theorem joined_create {db : Database} {row : CharacterBase} {skin : CharacterSkin}
    (hunused : ¬Used db row.characterId) (hskin : skin.characterId = row.characterId) :
    joined ((Change.create row skin).apply db) = joined db ++ [(row, skin)] := by
  simp only [Used, not_or, Nat.not_lt, Nat.le_zero] at hunused
  obtain ⟨hbase, hcombat, hskins⟩ := hunused
  have hbases : ∀ cb ∈ db.characterBase.rows, row.characterId ≠ cb.characterId := by
    intro cb hcb heq
    have hone := baseRows_of_mem hcb
    rw [← heq, hbase] at hone
    cases hone
  have hnew : db.characterBase.get? row.characterId = none :=
    Table.get?_eq_none.mpr fun cb hcb heq => hbases cb hcb heq.symm
  have hnone : db.characterCombat.filter (· = row.characterId) = [] ∧
      db.characterSkin.filter (·.characterId = row.characterId) = [] :=
    ⟨List.countP_eq_zero.mp hcombat |> List.filter_eq_nil_iff.mpr,
      List.countP_eq_zero.mp hskins |> List.filter_eq_nil_iff.mpr⟩
  change ((db.characterBase.insert row).rows.flatMap fun cb =>
    ((db.characterCombat ++ [skin.characterId]).filter (· = cb.characterId)).flatMap fun _ =>
      ((db.characterSkin ++ [skin]).filter (·.characterId = cb.characterId)).map fun cs => (cb, cs)) = _
  rw [Table.rows_insert hnew, List.flatMap_append, List.flatMap_singleton]
  congr 1
  · apply List.flatMap_congr
    intro cb hcb
    have hne : skin.characterId ≠ cb.characterId := hskin ▸ hbases cb hcb
    rw [filter_append_other (f := fun x => x) hne, filter_append_other hne]
  · simp [List.filter_append, hnone, hskin]

theorem joined_delete (db : Database) (k : Int) :
    joined ((Change.delete k).apply db) = (joined db).filter fun c => c.1.characterId ≠ k := by
  change ((db.characterBase.rows.filter fun cb => cb.characterId ≠ k).flatMap fun cb =>
    ((db.characterCombat.filter (· ≠ k)).filter (· = cb.characterId)).flatMap fun _ =>
      ((db.characterSkin.filter (·.characterId ≠ k)).filter (·.characterId = cb.characterId)).map fun cs => (cb, cs)) = _
  unfold joined
  rw [List.filter_flatMap]
  induction db.characterBase.rows with
  | nil => rfl
  | cons cb rows ih =>
    rw [List.flatMap_cons, ← ih, List.filter_flatMap]
    by_cases hcb : cb.characterId = k
    · rw [List.filter_cons_of_neg (by simpa using hcb)]
      simp [List.filter_map, Function.comp_def, hcb]
    · rw [List.filter_cons_of_pos (by simpa using hcb), List.flatMap_cons,
        filter_other (f := fun x => x) (Ne.symm hcb), filter_other (Ne.symm hcb)]
      congr 1
      apply List.flatMap_congr
      intro _ _
      simp [List.filter_map, Function.comp_def, hcb]

/-! ## One request -/

/-- The tables of the server hold this roster. -/
structure Holds (s : Server lobbyDb) (r : Roster) : Prop where
  roster : rosterOf s.db r.issued = r
  issued : r.issued < s.next

theorem Holds.still {s s' : Server lobbyDb} {r : Roster} (h : Holds s r) (hs : Still s s') : Holds s' r where
  roster := by rw [hs.db]; exact h.roster
  issued := Int.lt_of_lt_of_le h.issued hs.next

theorem Holds.made {s₀ s : Server lobbyDb} {r : Roster} {req : CharacterRequest} (h : Holds s₀ r) (hn : Numbered s₀)
    (hkeys : s.next ≤ 2 ^ 31) (hnext : s₀.next ≤ s.next) (hmade : Made req s₀ s) :
    ∃ ch, r.Allows req ch ∧ Holds s (r.apply ch) := by
  obtain ⟨ch, hmakes, hdb, -⟩ := hmade
  obtain ⟨hroster, hissued⟩ := h
  cases req with
  | create pkt =>
    obtain ⟨temp, key, hone, hdrawn, hkey, -, rfl⟩ := hmakes
    have hpositive := hn.positive
    have hskin : toInt32 key = key := (toInt32_eq_iff _).mpr (by omega)
    have hunused : ¬Used s₀.db key := fun hused => absurd (hn.used _ hused) (by omega)
    refine ⟨_, ⟨temp, key, hone, by omega, rfl⟩, ?_, hkey⟩
    rw [hdb, hskin, rosterOf, joined_create hunused rfl, ← hroster]
    rfl
  | delete pkt =>
    obtain ⟨⟨cb, hcb, haccount⟩, rfl⟩ := hmakes
    obtain ⟨hmem, hid⟩ := Table.get?_eq_some.mp hcb
    rw [← map_joined (hn.inStep (by omega))] at hmem
    obtain ⟨c, hc, rfl⟩ := List.mem_map.mp hmem
    refine ⟨_, ⟨⟨c, ?_, hid, haccount⟩, rfl⟩, ?_, by exact Int.lt_of_lt_of_le hissued hnext⟩
    · rw [← hroster]
      exact hc
    · rw [hdb, rosterOf, joined_delete, ← hroster]
      rfl

theorem response_ne (req : CharacterRequest) : req.response false ≠ req.response true := by
  cases req <;> simp [CharacterRequest.response]

namespace CharacterService

variable {law : Call lobbyDb → Harm → Bool} {m m' : CharacterService} {start : Roster}

/-- A request that is over made its change, or none, and what it answered is not the opposite. -/
theorem Sound.finished (h : Sound law m) (hm : CharacterService.step law m .finish = some m') :
    ∃ job x, m.job = some job ∧ x.req = job.req ∧ m'.job = none ∧ m'.server = m.server ∧
      m'.handled = m.handled ++ [x] ∧ (Still job.before m.server ∧ ¬x.Confirmed ∨
        Made job.req job.before m.server ∧ x.Unrefused) := by
  obtain ⟨req, conn, before, result, connections, hjob, rfl⟩ := step_finish hm
  refine ⟨_, ⟨req, result, before, m.server⟩, hjob, rfl, rfl, rfl, rfl, ?_⟩
  rcases h.running _ hjob with hrefused | ⟨i, p, hwork⟩
  · obtain ⟨result', hrest, hnone⟩ := hrefused.rest
    obtain ⟨rfl, -⟩ := Prod.mk.inj (Prog.done.inj hrest)
    exact Or.inl ⟨hrefused.still, hnone _⟩
  · have hreplied : Replied req i before p (result, connections) m.server := hwork.safe m.server (alone_refl i m.server)
    cases result with
    | error e => exact hwork.outcome.imp (fun hs => ⟨hs, by rintro ⟨⟩⟩) fun hmade => ⟨hmade, Or.inr ⟨e, rfl⟩⟩
    | ok resp =>
      obtain ⟨-, -, ⟨rfl, hmade⟩ | ⟨rfl, hstill⟩⟩ := hreplied
      · exact Or.inr ⟨hmade, Or.inl rfl⟩
      · refine Or.inl ⟨hstill, fun hconfirmed => response_ne req ?_⟩
        exact Option.some.inj (Except.ok.inj hconfirmed)

/-! ## Every run -/

/-- Between requests the tables hold the roster; during one, they held it where it began. -/
structure Rostered (start : Roster) (m : CharacterService) : Prop where
  idle : m.job = none → ∃ r, Follows start m.handled r ∧ Holds m.server r
  running : ∀ job, m.job = some job → job.before.next ≤ m.server.next ∧
    ∃ r, Follows start m.handled r ∧ Holds job.before r

theorem Rostered.step (h : Rostered start m) (hsound : Sound law m) (htabled : Tabled m)
    {e : CharacterEvent} (hm : CharacterService.step law m e = some m') (hkeys : m.server.next ≤ 2 ^ 31) :
    Rostered start m' := by
  have haside {s : Server lobbyDb} (hs : Still m.server s) : Rostered start { m with server := s } :=
    ⟨fun hnone => (h.idle hnone).imp fun _ hr => ⟨hr.1, hr.2.still hs⟩,
      fun job hjob => (h.running job hjob).imp_left fun hle => Int.le_trans hle hs.next⟩
  cases e with
  | start req alloc =>
    obtain ⟨hidle, -, rfl⟩ := step_start hm
    refine ⟨fun hnone => (by cases hnone), fun job hjob => ?_⟩
    obtain rfl := Option.some.inj hjob
    exact ⟨Int.le_refl _, h.idle hidle⟩
  | call fault =>
    obtain ⟨req, conn, before, c, k, o, s', hjob, hs, rfl⟩ := step_call hm
    refine ⟨fun hnone => (by cases hnone), fun job hj => ?_⟩
    obtain rfl := Option.some.inj hj
    obtain ⟨hle, hfollows⟩ := h.running _ hjob
    exact ⟨Int.le_trans hle (hs.moved lobbyDb_lawful).next, hfollows⟩
  | finish =>
    obtain ⟨job, x, hjob, hreq, hidle, hserver, hhandled, hcases⟩ := hsound.finished hm
    obtain ⟨hle, r, hfollows, hholds⟩ := h.running job hjob
    refine ⟨fun _ => ?_, fun job' hjob' => by rw [hidle] at hjob'; cases hjob'⟩
    rw [hhandled, hserver]
    rcases hcases with ⟨hstill, hunconfirmed⟩ | ⟨hmade, hunrefused⟩
    · exact ⟨r, hfollows.kept hunconfirmed, hholds.still hstill⟩
    · obtain ⟨ch, hallows, hnow⟩ := hholds.made (htabled.before job hjob) hkeys hle hmade
      exact ⟨_, hfollows.made hunrefused (hreq ▸ hallows), hnow⟩
  | drop conn =>
    obtain ⟨-, rfl⟩ := step_drop hm
    exact haside (still_of_quiet (kept_hangUp conn m.server).toQuiet)
  | tick seconds =>
    obtain rfl := Option.some.inj hm
    exact haside ⟨rfl, rfl, le_refl _⟩

theorem step_next (hsound : Sound law m) {e : CharacterEvent} (hm : CharacterService.step law m e = some m') :
    m.server.next ≤ m'.server.next := by
  rcases hsound.commits hm with hstill | ⟨job, -, -, -, hnext⟩
  · exact hstill.next
  · exact hnext

theorem rostered_run (hlaw : law .commit .replyLost = false) {db : Database} {now next : Int}
    {conns : List Connection} (hconns : conns.Nodup) (hstep : InStep db) (hnext : 0 < next)
    (hused : ∀ id, Used db id → id < next) {es : List CharacterEvent}
    (hrun : run (step law) (fresh db now next conns) es = some m) (hkeys : m.server.next ≤ 2 ^ 31) :
    Sound law m ∧ Tabled m ∧ Rostered (rosterOf db (next - 1)) m := by
  have hall := run_invariant (P := fun m => Sound law m ∧ Tabled m ∧
      (m.server.next ≤ 2 ^ 31 → Rostered (rosterOf db (next - 1)) m)) ?_ ?_ hrun
  · exact ⟨hall.1, hall.2.1, hall.2.2 hkeys⟩
  · rintro m e m' ⟨hsound, htabled, hrostered⟩ hm
    have hle := step_next hsound hm
    exact ⟨hsound.step hlaw hm, htabled.step hsound hm, fun hkeys => (hrostered (Int.le_trans hle hkeys)).step hsound
      htabled hm (Int.le_trans hle hkeys)⟩
  · refine ⟨sound_fresh hconns db now next,
      ⟨⟨hnext, hused, fun _ => hstep⟩, fun job hjob => (by cases hjob)⟩, fun _ => ?_⟩
    refine ⟨fun _ => ⟨_, .start, rfl, ?_⟩, fun job hjob => (by cases hjob)⟩
    exact Int.sub_lt_self next Int.one_pos

theorem Lists.roster (hsound : Sound law m) {r : Roster} (hholds : Holds m.server r) {pkt : ReqCharacterList}
    {characters : List LobbyCharacterInfo} (h : Lists law m pkt characters) :
    characters = (r.list pkt.id).map characterInfoOf := by
  rw [h.rows hsound, charactersOf_eq, Roster.list, ← hholds.roster]
  rfl

/-- Whatever throws, the tables hold the roster that the requests lead to, one after the other, and a list is the
list of that roster. While a request is under way, its change may be made already. -/
theorem roster_follows_requests (hlaw : law .commit .replyLost = false) {db : Database} {now next : Int}
    {conns : List Connection} (hconns : conns.Nodup) (hstep : InStep db) (hnext : 0 < next)
    (hused : ∀ id, Used db id → id < next) {es : List CharacterEvent}
    (hrun : run (step law) (fresh db now next conns) es = some m) (hkeys : m.server.next ≤ 2 ^ 31) :
    ∃ r, Follows (rosterOf db (next - 1)) m.handled r ∧
      (rosterOf m.server.db r.issued = r ∨ ∃ job ch, m.job = some job ∧ r.Allows job.req ch ∧
        rosterOf m.server.db (r.apply ch).issued = r.apply ch) ∧
      ∀ pkt characters, Lists law m pkt characters → characters = (r.list pkt.id).map characterInfoOf := by
  obtain ⟨hsound, htabled, hrostered⟩ := rostered_run hlaw hconns hstep hnext hused hrun hkeys
  cases hjob : m.job with
  | none =>
    obtain ⟨r, hfollows, hholds⟩ := hrostered.idle hjob
    exact ⟨r, hfollows, Or.inl hholds.roster, fun pkt characters hlists => hlists.roster hsound hholds⟩
  | some job =>
    obtain ⟨hle, r, hfollows, hholds⟩ := hrostered.running job hjob
    refine ⟨r, hfollows, ?_, fun pkt characters hlists => by rw [hlists.1] at hjob; cases hjob⟩
    have houtcome : Still job.before m.server ∨ Made job.req job.before m.server := by
      rcases hsound.running job hjob with hrefused | ⟨conn, p, hwork⟩
      · exact Or.inl hrefused.still
      · exact hwork.outcome
    rcases houtcome with hstill | hmade
    · exact Or.inl (hholds.still hstill).roster
    · obtain ⟨ch, hallows, hnow⟩ := hholds.made (htabled.before job hjob) hkeys hle hmade
      exact Or.inr ⟨job, ch, rfl, hallows, hnow.roster⟩

/-- The creation that was refused is followed by the one that was confirmed, and account 7 has its hero. -/
theorem sampleCreations_run : ∃ m x y, run (step commitsOrThrows) (fresh emptyDb 0 1 [0, 1]) sampleCreations = some m ∧
    m.handled = [x] ++ y :: [] ∧ y.req = sampleHero ∧ y.Confirmed ∧ m.server.next = 3 ∧
    Lists commitsOrThrows m ⟨7⟩ [⟨2, 0, "hero", 1, 1, 0, 1, 2, 3⟩] := by
  obtain ⟨m, x, y, tr, p, s, hm, hx, hreq, hconfirmed, hnext, hidle, hconnections, hlisted⟩ : ∃ m x y tr p s,
      run (step commitsOrThrows) (fresh emptyDb 0 1 [0, 1]) sampleCreations = some m ∧ m.handled = [x] ++ y :: [] ∧
      y.req = sampleHero ∧ y.Confirmed ∧ m.server.next = 3 ∧ m.job.isNone = true ∧ m.connections = ⟨[0, 1], []⟩ ∧
      runAlone commitsOrThrows 0 ((handleReqCharacterList {} ⟨7⟩).prog ⟨[0, 1], []⟩) (List.replicate 2 none) m.server =
        some (tr, (.ok (some (.characterList true [⟨2, 0, "hero", 1, 1, 0, 1, 2, 3⟩])), p), s) :=
    ⟨_, _, _, _, _, _, rfl, rfl, rfl, rfl, rfl, rfl, rfl, rfl⟩
  refine ⟨m, x, y, hm, hx, hreq, hconfirmed, hnext, Option.isNone_iff_eq_none.mp hidle, {}, 0, ⟨[1], [0]⟩, tr, p, s,
    rfl, by rw [hconnections]; rfl, ?_⟩
  rw [hconnections]
  exact runAlone_exec (alone_refl 0) hlisted

theorem emptyDb_inStep : InStep emptyDb := by
  intro id
  simp [baseRows, combatRows, skinRows, emptyDb, Table.empty]

theorem emptyDb_unused (id : Int) : ¬Used emptyDb id := by
  simp [Used, baseRows, combatRows, skinRows, emptyDb, Table.empty]

theorem roster_follows_requests_sample : ∃ m r,
    run (step commitsOrThrows) (fresh emptyDb 0 1 [0, 1]) sampleCreations = some m ∧
    Follows (rosterOf emptyDb 0) m.handled r ∧ rosterOf m.server.db r.issued = r ∧
    (r.list 7).map characterInfoOf = [⟨2, 0, "hero", 1, 1, 0, 1, 2, 3⟩] := by
  obtain ⟨m, x, y, hm, -, -, -, hnext, hlists⟩ := sampleCreations_run
  obtain ⟨r, hfollows, hroster, hlist⟩ := roster_follows_requests rfl (by decide) emptyDb_inStep (by decide)
    (fun id hused => absurd hused (emptyDb_unused id)) hm (by rw [hnext]; decide)
  refine ⟨m, r, hm, hfollows, hroster.resolve_right ?_, (hlist _ _ hlists).symm⟩
  rintro ⟨job, -, hjob, -⟩
  rw [hlists.1] at hjob
  cases hjob

end CharacterService

end Lobby
