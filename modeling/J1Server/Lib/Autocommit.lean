import J1Server.Lib.Failures
import J1Server.Lib.Pool

/-!
# Statements that commit by themselves

With autocommit on, a statement runs and is committed by two calls, and other
connections may come between them. `Surroundings.autocommitted` is the rule for
such a statement in a program, `Growing` the interference that an invariant of
the committed data has to bear.
-/

namespace Lib

open Server

variable {D : Schema} {law : Call D → Harm → Bool} {i : Nat} {s s' s₁ s₂ : Server D} {st : D.Stmt}
  {R During G : Server D → Server D → Prop}

/-- The statement runs in `s₁`, and `s₂` is what it is committed to. -/
structure Ran (R : Server D → Server D → Prop) (i : Nat) (st : D.Stmt) (s s₁ s₂ : Server D) : Prop where
  before : R s s₁
  wf : s₁.WF
  closed : Closed i s₁
  alive : (s₁.conns i).alive = true
  free : (s₁.effect i st).locks.all (s₁.free i) = true
  between : R (s₁.record i (s₁.effect i st)) s₂

/-- The commit is allowed, also when the connection is lost with its reply. -/
def CommitsWithin (During G : Server D → Server D → Prop) (i : Nat) (s : Server D) : Prop :=
  ∀ s', s' = s.publish i ∨ s' = (s.publish i).hangUp i → During s s' ∧ G s s'

/-- The statement threw. Nothing happened, or it was committed all the same. -/
structure Threw (R During : Server D → Server D → Prop) (i : Nat) (st : D.Stmt) (s s' : Server D) : Prop where
  wf : s'.WF
  closed : Closed i s'
  during : During s s'
  committed : Committed i [] s s' ∨ ∃ s₁ s₂, Ran R i st s s₁ s₂ ∧
    Committed i (s₁.tag i (s₁.effect i st).writes) s s'

/-- What the others do, where each keeps to `G`. -/
theorem surroundings_others (hD : D.Lawful) (hrefl : ∀ s, G s s) (htrans : ∀ a b c, G a b → G b c → G a c)
    (hquiet : ∀ s s', Quiet i s s' → G s s') : Surroundings i (Others G i) G G where
  lawful := hD
  rely _ _ h := h.1
  refl s := ⟨Rely.refl i s, hrefl s⟩
  trans _ _ _ h h' := ⟨h.1.trans h'.1, htrans _ _ _ h.2 h'.2⟩
  during _ _ h := h.2
  during_trans := htrans
  quiet := hquiet
  guar := hquiet

/-- What the others do, whatever it is. -/
theorem surroundings_any (hD : D.Lawful) : Surroundings (D := D) i (Rely i) (fun _ _ => True) fun _ _ => True where
  lawful := hD
  rely _ _ h := h
  refl := Rely.refl i
  trans _ _ _ h h' := h.trans h'
  during _ _ _ := trivial
  during_trans _ _ _ _ _ := trivial
  quiet _ _ _ := trivial
  guar _ _ _ := trivial

namespace Ran

theorem view (h : Ran R i st s s₁ s₂) : s₁.view i = s₁.db := by
  rw [Server.view, h.closed.pending, applyAll_nil]

section

variable (h : Ran R i st s s₁ s₂) (hS : Surroundings i R During G)

include h hS

theorem conn : s₂.conns i = { s₁.conns i with pending := s₁.tag i (s₁.effect i st).writes } := by
  rw [(hS.rely _ _ h.between).conn, record_conn, h.closed.pending, List.nil_append]

theorem recorded : (s₁.record i (s₁.effect i st)).WF := h.wf.record hS.lawful h.alive h.free

theorem wf₂ : s₂.WF := (hS.rely _ _ h.between).wf (h.recorded hS)

theorem ran_during : During s₁ s₂ :=
  hS.during_trans _ _ _ (hS.quiet _ _ (quiet_record i s₁ _ (hS.lawful.next_le ..))) (hS.during _ _ h.between)

theorem published : (s₂.publish i).WF ∧ Closed i (s₂.publish i) := by
  refine ⟨(h.wf₂ hS).of_cleared (moved_publish s₂ i) (by simp), ⟨?_, by simp⟩⟩
  rw [publish_conn, h.conn hS]
  exact h.closed.autocommit

theorem committed : Committed i (s₁.tag i (s₁.effect i st).writes) s (s₂.publish i) := by
  have hpublish := committed_publish (h.wf₂ hS) i
  rw [h.conn hS] at hpublish
  have hrecord : Committed i [] s₁ (s₁.record i (s₁.effect i st)) :=
    (quiet_record i s₁ _ (hS.lawful.next_le ..)).committed
  simpa using ((hS.rely _ _ h.before).committed.trans (hrecord.trans (hS.rely _ _ h.between).committed)).trans hpublish

end

end Ran

/-- The rule of a statement with autocommit on. -/
theorem Surroundings.autocommitted (hS : Surroundings i R During G) {α σ : Type} {f : D.Reply st → Act (Sql D) σ α}
    {t : σ} {Q : Except SqlException α × σ → Server D → Prop} (hw : s.WF) (hc : Closed i s)
    (hcommits : ∀ s₁ s₂, Ran R i st s s₁ s₂ → CommitsWithin During G i s₂)
    (hok : ∀ s₁ s₂, Ran R i st s s₁ s₂ →
      Safe R (Step law i) G ((f (s₁.effect i st).reply).prog t) (fun _ => Q) (s₂.publish i))
    (herr : ∀ e s', Threw R During i st s s' → Q (.error e, t) s') :
    Safe R (Step law i) G ((Lib.execute st >>= f).prog t) (fun _ => Q) s := by
  have hD := hS.lawful
  rw [execute_bind]
  intro s₁ h₁ o m hm
  have hw₁ := (hS.rely _ _ h₁).wf hw
  have hc₁ := hc.congr (hS.rely _ _ h₁).conn
  -- Whoever threw, the others may go on before the exception is seen.
  have thrown : ∀ {e} {a b : Server D}, R a b → a.WF → Closed i a → During s a →
      (Committed i [] s a ∨ ∃ s₁ s₂, Ran R i st s s₁ s₂ ∧ Committed i (s₁.tag i (s₁.effect i st).writes) s a) →
      Q (.error e, t) b := by
    intro e a b hab hwa hca hda hcommitted
    refine herr e b ⟨(hS.rely _ _ hab).wf hwa, hca.congr (hS.rely _ _ hab).conn,
      hS.during_trans _ _ _ hda (hS.during _ _ hab), ?_⟩
    have hrest := (hS.rely _ _ hab).committed
    rcases hcommitted with hnone | ⟨s₁, s₂, hran, hall⟩
    · exact Or.inl (by simpa using hnone.trans hrest)
    · exact Or.inr ⟨s₁, s₂, hran, by simpa using hall.trans hrest⟩
  rcases hm.exec hD with ⟨rfl, halive, hfree, rfl⟩ | ⟨e, rfl, hk⟩
  · have quiet := quiet_record i s₁ (s₁.effect i st) (hD.next_le ..)
    refine ⟨hS.guar _ _ quiet, ?_⟩
    intro s₂ h₂ o' s₃ hs₃
    have hran : Ran R i st s s₁ s₂ := ⟨h₁, hw₁, hc₁, halive, hfree, h₂⟩
    have hconn := hran.conn hS
    have hd₂ : During s s₂ := hS.during_trans _ _ _ (hS.during _ _ h₁) (hran.ran_during hS)
    have hon : (s₂.conns i).autocommit = true := by
      rw [hconn]
      exact hc₁.autocommit
    have hc₃ : Closed i s₃ := hs₃.finish_closed hon (by rw [hconn]; exact halive)
    rcases hs₃.finish_on hon with ⟨rfl, rfl⟩ | ⟨e, rfl, hk⟩ | ⟨e, rfl, rfl⟩
    · exact ⟨(hcommits _ _ hran _ (Or.inl rfl)).2, hok _ _ hran⟩
    · refine ⟨hS.guar _ _ hk.toQuiet, fun s₄ h₄ => ?_⟩
      refine thrown h₄ (hs₃.wf hD (hran.wf₂ hS)) hc₃ (hS.during_trans _ _ _ hd₂ (hS.quiet _ _ hk.toQuiet)) (Or.inl ?_)
      simpa using (hS.rely _ _ h₁).committed.trans (quiet.committed.trans
        ((hS.rely _ _ h₂).committed.trans hk.toQuiet.committed))
    · obtain ⟨hd₃, hg₃⟩ := hcommits _ _ hran _ (Or.inr rfl)
      refine ⟨hg₃, fun s₄ h₄ => ?_⟩
      refine thrown h₄ (hs₃.wf hD (hran.wf₂ hS)) hc₃ (hS.during_trans _ _ _ hd₂ hd₃) (Or.inr ⟨s₁, s₂, hran, ?_⟩)
      have hlost : Committed i [] (s₂.publish i) ((s₂.publish i).hangUp i) := (kept_hangUp i _).toQuiet.committed
      simpa using (hran.committed hS).trans hlost
  · refine ⟨hS.guar _ _ hk.toQuiet, fun s₃ h₃ => ?_⟩
    refine thrown h₃ (hm.wf hD hw₁) ⟨(hm.mode fun on => by simp).trans hc₁.autocommit, ?_⟩
      (hS.during_trans _ _ _ (hS.during _ _ h₁) (hS.quiet _ _ hk.toQuiet)) (Or.inl ?_)
    · exact hk.pending.elim (fun heq => heq.trans hc₁.pending) id
    · simpa using (hS.rely _ _ h₁).committed.trans hk.toQuiet.committed

/-! ## Connections that commit every statement -/

/-- Whatever a connection does and commits is in `G`, which keeps `Inv`. -/
structure Autonomous (Inv : Server D → Prop) (G : Server D → Server D → Prop) : Prop where
  lawful : D.Lawful
  refl : ∀ s, G s s
  trans : ∀ a b c, G a b → G b c → G a c
  quiet : ∀ i s s', Quiet i s s' → G s s'
  tick : ∀ s d, G s (s.tick d)
  begin_task : ∀ s i, G s (s.beginTask i)
  inv : ∀ s s', Inv s → G s s' → Inv s'
  publish : ∀ i st s s₁ s₂, Inv s → Ran (Others G i) i st s s₁ s₂ → G s₂ (s₂.publish i)

/-- A connection between two statements. -/
structure Resting (Inv : Server D → Prop) (i : Nat) (s : Server D) : Prop where
  wf : s.WF
  closed : Closed i s
  inv : Inv s

namespace Autonomous

variable {Inv : Server D → Prop} (hA : Autonomous Inv G) {α β σ : Type} {t : σ}

include hA

theorem surroundings (i : Nat) : Surroundings i (Others G i) G G :=
  surroundings_others hA.lawful hA.refl hA.trans (hA.quiet i)

theorem resting_others (h : Resting Inv i s) (ho : Others G i s s') : Resting Inv i s' :=
  ⟨ho.1.wf h.wf, h.closed.congr ho.1.conn, hA.inv _ _ h.inv ho.2⟩

/-- What others do at the end of a program. -/
theorem safe_done {a : α} {Q : α → Server D → Prop} (h : Resting Inv i s)
    (hQ : ∀ s', Resting Inv i s' → G s s' → Q a s') :
    Safe (Others G i) (Step law i) G (.done a : Prog (Sql D) α) (fun _ => Q) s :=
  fun s' ho => hQ s' (hA.resting_others h ho) ho.2

theorem safe_bind {x : Act (Sql D) σ α} {f : α → Act (Sql D) σ β} {P : Except SqlException α × σ → Server D → Prop}
    {Q : Except SqlException β × σ → Server D → Prop}
    (hx : Safe (Others G i) (Step law i) G (x.prog t) (fun _ => P) s)
    (hok : ∀ a t' s', P (.ok a, t') s' → Safe (Others G i) (Step law i) G ((f a).prog t') (fun _ => Q) s')
    (herr : ∀ e t' s', P (.error e, t') s' →
      Safe (Others G i) (Step law i) G (.done (.error e, t') : Prog (Sql D) _) (fun _ => Q) s') :
    Safe (Others G i) (Step law i) G ((x >>= f).prog t) (fun _ => Q) s := by
  rw [Act.prog_bind]
  refine Safe.bind (hx.mono ?_) (hA.surroundings i).refl
  rintro tr ⟨r, t'⟩ s' hP
  cases r with
  | ok a => exact hok a t' s' hP
  | error e => exact herr e t' s' hP

/-- The statement runs in `s₁`, and what it wrote is published in `s₂`. -/
theorem safe_statement (st : D.Stmt) (h : Resting Inv i s) {f : D.Reply st → Act (Sql D) σ α}
    {Q : Except SqlException α × σ → Server D → Prop}
    (hok : ∀ s₁ s₂, Ran (Others G i) i st s s₁ s₂ → G s s₁ → G s₁ (s₂.publish i) → Resting Inv i (s₂.publish i) →
      Safe (Others G i) (Step law i) G ((f (s₁.effect i st).reply).prog t) (fun _ => Q) (s₂.publish i))
    (herr : ∀ e s', Resting Inv i s' → G s s' → Q (.error e, t) s') :
    Safe (Others G i) (Step law i) G ((execute st >>= f).prog t) (fun _ => Q) s := by
  have hS := hA.surroundings i
  refine hS.autocommitted h.wf h.closed (fun s₁ s₂ hran => ?_) (fun s₁ s₂ hran => ?_) fun e s' hthrew =>
    herr e s' ⟨hthrew.wf, hthrew.closed, hA.inv _ _ h.inv hthrew.during⟩ hthrew.during
  · have hpublish := hA.publish _ _ _ _ _ h.inv hran
    rintro s' (rfl | rfl)
    · exact ⟨hpublish, hpublish⟩
    · have hlost := hA.trans _ _ _ hpublish (hA.quiet i _ _ (kept_hangUp i (s₂.publish i)).toQuiet)
      exact ⟨hlost, hlost⟩
  · have hg : G s₁ (s₂.publish i) := hA.trans _ _ _ (hran.ran_during hS) (hA.publish _ _ _ _ _ h.inv hran)
    obtain ⟨hwf, hclosed⟩ := hran.published hS
    exact hok s₁ s₂ hran hran.before.2 hg ⟨hwf, hclosed, hA.inv _ _ h.inv (hA.trans _ _ _ hran.before.2 hg)⟩

end Autonomous

/-! ## Their tasks -/

/-- A task does `Done` between two states, which stays true when more time passes before or after it. -/
structure Serves {τ ρ : Type} (law : Call D → Harm → Bool) (Inv : Server D → Prop) (G : Server D → Server D → Prop)
    (code : τ → Prog (Sql D) ρ) (Done : Server D → τ → ρ → Server D → Prop) : Prop extends Autonomous Inv G where
  earlier : ∀ s₀ s₁ task r s, G s₀ s₁ → Done s₁ task r s → Done s₀ task r s
  later : ∀ s₀ task r s s', Done s₀ task r s → G s s' → Done s₀ task r s'
  spec : ∀ i task s, Resting Inv i s → Safe (Others G i) (Step law i) G (code task)
    (fun _ r s' => Resting Inv i s' ∧ Done s task r s') s

namespace Serves

variable {τ ρ : Type} {Inv : Server D → Prop} {code : τ → Prog (Sql D) ρ} {Done : Server D → τ → ρ → Server D → Prop}

/-- The contract of the tasks that are begun after `s₀`. -/
theorem contract (h : Serves law Inv G code Done) (s₀ : Server D) (begun : Nat → Nat → Prop) :
    Contract law code (fun _ _ _ => True) (fun s => Inv s ∧ G s₀ s) G Closed
      (fun i n task r s => begun i n → Done s₀ task r s) where
  lawful := h.lawful
  refl := h.refl
  trans := h.trans
  tick := h.tick
  begin_task := h.begin_task
  inv s s' hinv hg := ⟨h.inv _ _ hinv.1 hg, h.trans _ _ _ hinv.2 hg⟩
  idle i s s' hclosed ho := hclosed.congr ho.1.conn
  done i n task r s s' hdone hg _ hbegun := h.later _ _ _ _ _ (hdone hbegun) hg
  spec i task s hw hinv hclosed _ := by
    have hg := h.begin_task s i
    have hresting : Resting Inv i (s.beginTask i) :=
      ⟨hw.beginTask i, ⟨by simpa using hclosed.autocommit, by simpa using hclosed.pending⟩, h.inv _ _ hinv.1 hg⟩
    refine (h.spec i task _ hresting).mono ?_
    rintro tr r s' ⟨hresting', hdone⟩
    exact ⟨hresting'.closed, fun _ => h.earlier _ _ _ _ _ (h.trans _ _ _ hinv.2 hg) hdone⟩

variable {s₀ : Server D} {es fs : List (PoolEvent τ)} {p q : Pool D τ ρ}

theorem upheld (h : Serves law Inv G code Done) (hw : s₀.WF) (hinv : Inv s₀) (hclosed : ∀ i, Closed i s₀)
    (hrun : run (Pool.step law code) (Pool.fresh s₀) es = some p) :
    Upheld law (fun s => Inv s ∧ G s₀ s) G Closed (fun _ _ task r s => Done s₀ task r s) p := by
  have hupheld := (contract_run (h.contract s₀ fun _ _ => True) (upheld_fresh hw ⟨hinv, h.refl _⟩ hclosed)
    (along_of_forall _ fun _ _ _ _ _ _ => trivial) hrun).1
  exact hupheld.mono hupheld.inv (fun _ _ hdone => hdone trivial) fun _ _ _ _ hdone => hdone trivial

/-- What a task that was begun after `p` did, and what all of them did since. -/
theorem begun_after (h : Serves law Inv G code Done) (hw : s₀.WF) (hinv : Inv s₀) (hclosed : ∀ i, Closed i s₀)
    (hstart : run (Pool.step law code) (Pool.fresh s₀) es = some p) (hrun : run (Pool.step law code) p fs = some q) :
    G p.server q.server ∧ ∀ x ∈ q.finished, (p.server.conns x.conn).task < x.no →
      Done p.server x.task x.result q.server := by
  have hupheld := h.upheld hw hinv hclosed hstart
  have hfrom : Upheld law (fun s => Inv s ∧ G p.server s) G Closed
      (fun i n task r s => (p.server.conns i).task < n → Done p.server task r s) p := by
    refine hupheld.mono ⟨hupheld.inv.1, h.refl _⟩ (fun x hx _ hlt => ?_) fun i task r s _ hlt => ?_
    · exact absurd (hupheld.numbered.reached x hx) (Nat.not_le.mpr hlt)
    · exact absurd hlt (Nat.lt_irrefl _)
  obtain ⟨hafter, hg⟩ := contract_run (h.contract p.server fun i n => (p.server.conns i).task < n) hfrom
    (along_of_forall _ fun _ _ _ _ _ _ => trivial) hrun
  exact ⟨hg, hafter.done⟩

end Serves

end Lib
