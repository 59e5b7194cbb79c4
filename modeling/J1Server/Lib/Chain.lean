import J1Server.Lib.Pool

/-!
# Chains of admissible writes

`A db w` says that a write may be applied to `db`. If it depends on the row of
the write alone, and statements write only what is admissible in their view,
then whatever is committed is a chain of admissible writes: the rows that a
transaction has written are locked until it ends.
-/

namespace Lib

open Server

variable {D : Schema} {τ ρ : Type}

/-- Each write is admissible where it is applied. -/
def Chain (A : D.Db → D.Write → Prop) : List D.Write → D.Db → Prop
  | [], _ => True
  | w :: ws, db => A db w ∧ Chain A ws (D.apply w db)

/-- What a write may be depends on its own row. -/
def Local (A : D.Db → D.Write → Prop) : Prop :=
  ∀ w db db', (∀ r, D.row? w = some r → D.look r db = D.look r db') → A db w → A db' w

variable {A : D.Db → D.Write → Prop} {ws ws' : List D.Write} {db db' : D.Db}

theorem chain_append : Chain A (ws ++ ws') db ↔ Chain A ws db ∧ Chain A ws' (writeAll ws db) := by
  induction ws generalizing db with
  | nil => simp [Chain]
  | cons w ws ih => simp [Chain, ih, and_assoc]

theorem chain_of_forall (h : ∀ w ∈ ws, ∀ db, A db w) : Chain A ws db := by
  induction ws generalizing db with
  | nil => trivial
  | cons w ws ih => exact ⟨h w (by simp) db, ih fun x hx => h x (by simp [hx])⟩

theorem chain_congr (hD : D.Lawful) (hA : Local A)
    (hrows : ∀ w ∈ ws, ∀ r, D.row? w = some r → D.look r db = D.look r db') (h : Chain A ws db) :
    Chain A ws db' := by
  induction ws generalizing db db' with
  | nil => trivial
  | cons w ws ih =>
    refine ⟨hA w db db' (hrows w (by simp)) h.1, ih (fun x hx r hr => ?_) h.2⟩
    exact hD.look_congr _ _ _ _ (hrows x (by simp [hx]) r hr)

/-! ## A server whose transactions are chains -/

variable {law : Call D → Harm → Bool} {i : Nat} {s s' : Server D}

def pendingWrites (s : Server D) (i : Nat) : List D.Write := (s.conns i).pending.map Entry.write

/-- The tables went on by admissible writes, with new keys. -/
structure Grown (A : D.Db → D.Write → Prop) (s s' : Server D) : Prop where
  next : s.next ≤ s'.next
  log : ∃ es, s'.history = s.history ++ es ∧ s'.db = applyAll es s.db ∧ Chain A (es.map Entry.write) s.db ∧
    ∀ k ∈ newIds es, k ∉ newIds s.history

/-- The statement writes what is admissible, if new keys start at `key`. -/
def Writes (A : D.Db → D.Write → Prop) (key : Int) (st : D.Stmt) : Prop :=
  ∀ now next db, key ≤ next → Chain A (D.effect st now next db).writes db

def WritesOnly (A : D.Db → D.Write → Prop) (key : Int) : Call D → Prop
  | .exec st => Writes A key st
  | _ => True

theorem Grown.refl (s : Server D) : Grown A s s := ⟨le_refl _, [], by simp, rfl, trivial, by simp⟩

theorem Grown.trans {a b c : Server D} (h : Grown A a b) (h' : Grown A b c) : Grown A a c := by
  refine ⟨h.next.trans h'.next, ?_⟩
  obtain ⟨es, hh, hdb, hchain, hnew⟩ := h.log
  obtain ⟨es', hh', hdb', hchain', hnew'⟩ := h'.log
  refine ⟨es ++ es', by rw [hh', hh, List.append_assoc], by rw [hdb', hdb, applyAll_append], ?_, ?_⟩
  · rw [List.map_append, chain_append, ← applyAll_eq, ← hdb]
    exact ⟨hchain, hchain'⟩
  · intro k hk
    rw [newIds_append] at hk
    rcases List.mem_append.mp hk with hk | hk
    · exact hnew k hk
    · intro hold
      apply hnew' k hk
      rw [hh, newIds_append]
      exact List.mem_append_left _ hold

theorem grown_of_quiet (h : Quiet i s s') : Grown A s s' :=
  ⟨h.next, [], by simp [h.history], h.db, trivial, by simp⟩

theorem grown_publish (hw : s.WF) (hp : Chain A (pendingWrites s i) s.db) : Grown A s (s.publish i) :=
  ⟨le_refl _, _, rfl, rfl, hp, hw.once i⟩

theorem Grown.hangUp (h : Grown A s s') (i : Nat) : Grown A s (s'.hangUp i) := ⟨h.next, h.log⟩

theorem chain_rely (hD : D.Lawful) (hA : Local A) (hw : s.WF) (h : Chain A (pendingWrites s i) s.db)
    (hr : Rely i s s') : Chain A (pendingWrites s' i) s'.db := by
  rw [pendingWrites, hr.conn]
  refine chain_congr hD hA (fun w hwr r hrow => ?_) h
  obtain ⟨e, he, rfl⟩ := List.mem_map.mp hwr
  exact (hr.look hD (hw.locked i e he r hrow)).symm

theorem chain_kept (h : Chain A (pendingWrites s i) s.db) (hk : Kept i s s') :
    Chain A (pendingWrites s' i) s'.db := by
  rw [hk.db]
  rcases hk.pending with hp | hp
  · rwa [pendingWrites, hp]
  · rw [pendingWrites, hp]
    trivial

theorem chain_record {key : Int} {st : D.Stmt} (hst : Writes A key st) (hkey : key ≤ s.next)
    (h : Chain A (pendingWrites s i) s.db) :
    Chain A (pendingWrites (s.record i (s.effect i st)) i) (s.record i (s.effect i st)).db := by
  have hpending : pendingWrites (s.record i (s.effect i st)) i = pendingWrites s i ++ (s.effect i st).writes := by
    simp [pendingWrites, tag, Function.comp_def]
  rw [hpending, record_db, chain_append]
  refine ⟨h, ?_⟩
  rw [pendingWrites, ← applyAll_eq]
  exact hst _ _ _ hkey

theorem answer_grown (hD : D.Lawful) {key : Int} (hw : s.WF) (hkey : key ≤ s.next)
    (h : Chain A (pendingWrites s i) s.db) {c : Call D} (hc : WritesOnly A key c) {r : c.Reply}
    (hr : s.answer i c = some (r, s')) : Grown A s s' ∧ Chain A (pendingWrites s' i) s'.db := by
  have hnil {t : Server D} (hp : (t.conns i).pending = []) : Chain A (pendingWrites t i) t.db := by
    rw [pendingWrites, hp]
    trivial
  cases c with
  | setAutoCommit on =>
    obtain rfl : _ = s' := congrArg Prod.snd (Option.some.inj hr)
    cases on with
    | true => exact ⟨⟨le_refl _, (grown_publish hw h).log⟩, hnil (by simp)⟩
    | false =>
      refine ⟨grown_of_quiet (quiet_setMode i s false), ?_⟩
      simpa [pendingWrites] using h
  | commit =>
    cases hr
    exact ⟨grown_publish hw h, hnil (by simp)⟩
  | rollback =>
    cases hr
    exact ⟨grown_of_quiet (kept_discard i s).toQuiet, hnil (by simp)⟩
  | exec st =>
    simp only [answer] at hr
    split at hr
    · cases hr
      exact ⟨grown_of_quiet (quiet_record i s _ (hD.next_le ..)), chain_record hc hkey h⟩
    · cases hr
  | finish =>
    obtain rfl : _ = s' := congrArg Prod.snd (Option.some.inj hr)
    split
    · exact ⟨grown_publish hw h, hnil (by simp)⟩
    · exact ⟨Grown.refl s, h⟩

theorem step_grown (hD : D.Lawful) {key : Int} (hw : s.WF) (hkey : key ≤ s.next)
    (h : Chain A (pendingWrites s i) s.db) {c : Call D} (hc : WritesOnly A key c)
    {o : Except SqlException c.Reply} (hs : Step law i c s o s') :
    Grown A s s' ∧ Chain A (pendingWrites s' i) s'.db := by
  cases o with
  | ok r => exact answer_grown hD hw hkey h hc hs.ok.2
  | error e =>
    rcases hs.error with hk | ⟨-, r, t, hr, rfl⟩
    · exact ⟨grown_of_quiet hk.toQuiet, chain_kept h hk⟩
    · refine ⟨(answer_grown hD hw hkey h hc hr).1.hangUp i, ?_⟩
      rw [pendingWrites, hangUp_conn]
      trivial

/-! ## Every run -/

/-- Tasks that write only what is admissible, on any number of connections and whatever fails. -/
theorem chain_contract (hD : D.Lawful) (hA : Local A) {key : Int} {code : τ → Prog (Sql D) ρ}
    (hcalls : ∀ task, (code task).Calls (WritesOnly A key)) :
    Contract law code (fun _ _ _ => True) (fun s => key ≤ s.next) (Grown A)
      (fun i s => s.WF ∧ Chain A (pendingWrites s i) s.db) (fun _ _ _ _ _ => True) where
  lawful := hD
  refl := Grown.refl
  trans _ _ _ h h' := h.trans h'
  tick s d := ⟨le_refl _, [], by simp [Server.tick], rfl, trivial, by simp⟩
  begin_task s i := ⟨le_refl _, [], by simp, rfl, trivial, by simp⟩
  inv _ _ hkey h := hkey.trans h.next
  idle i s s' h ho := ⟨ho.1.wf h.1, chain_rely hD hA h.1 h.2 ho.1⟩
  done _ _ _ _ _ _ _ _ _ := trivial
  spec i task s hw hkey hidle _ := by
    have hsafe : Safe (Others (Grown A) i) (Step law i) (Grown A) (code task)
        (fun _ _ s' => key ≤ s'.next ∧ s'.WF ∧ Chain A (pendingWrites s' i) s'.db) (s.beginTask i) := by
      refine Safe.of_calls ?_ ?_ (hcalls task) ⟨hkey, hw.beginTask i, ?_⟩
      · rintro a b ⟨hk, hwa, ha⟩ ho
        exact ⟨hk.trans ho.2.next, ho.1.wf hwa, chain_rely hD hA hwa ha ho.1⟩
      · rintro c a o b hc ⟨hk, hwa, ha⟩ hs
        obtain ⟨hgrown, hb⟩ := step_grown hD hwa hk ha hc hs
        exact ⟨hgrown, hk.trans hgrown.next, hs.wf hD hwa, hb⟩
      · simpa [pendingWrites] using hidle.2
    exact hsafe.mono fun _ _ _ h => ⟨h.2, trivial⟩

end Lib
