import J1Server.Lib.Transaction

/-!
# Calls that throw

How an execution of a program with exceptions splits at its sequencing and its
catch blocks, how many of its calls threw, and what a statement leaves behind
on a connection with autocommit on.
-/

namespace Lib

variable {I : Iface} {α β σ S : Type} {rely : S → S → Prop}
  {step : (c : I.Call) → S → Except I.Err (I.Reply c) → S → Prop}

/-! ## Counting -/

def throws (tr : List (Answered I)) : Nat := tr.countP fun x => !x.answer.isOk

@[simp] theorem throws_nil : throws ([] : List (Answered I)) = 0 := rfl

@[simp] theorem throws_append (tr tr' : List (Answered I)) : throws (tr ++ tr') = throws tr + throws tr' :=
  List.countP_append

theorem throws_cons (x : Answered I) (tr : List (Answered I)) :
    throws (x :: tr) = throws tr + if x.answer.isOk then 0 else 1 := by
  unfold throws
  rw [List.countP_cons]
  cases x.answer.isOk <;> rfl

/-! ## Splitting an execution -/

theorem Exec.of_bind (hrefl : ∀ s, rely s s) {p : Prog I α} {f : α → Prog I β} {s t : S} {tr : List (Answered I)}
    {b : β} (h : Exec rely step (p.bind f) s tr b t) :
    ∃ tr₁ a m tr₂, Exec rely step p s tr₁ a m ∧ Exec rely step (f a) m tr₂ b t ∧ tr = tr₁ ++ tr₂ := by
  induction p generalizing s tr with
  | done a => exact ⟨[], a, s, tr, .done (hrefl s), h, rfl⟩
  | call c k ih =>
    cases h with
    | call hr hs hrest =>
      obtain ⟨tr₁, a, m, tr₂, hp, hf, rfl⟩ := ih _ hrest
      exact ⟨_, a, m, tr₂, .call hr hs hp, hf, rfl⟩

theorem Exec.related {P : S → S → Prop} (htrans : ∀ a b c, P a b → P b c → P a c) (hrely : ∀ s s', rely s s' → P s s')
    (hstep : ∀ c s o s', step c s o s' → P s s') {p : Prog I α} {s t : S} {tr : List (Answered I)} {a : α}
    (h : Exec rely step p s tr a t) : P s t := by
  induction h with
  | done hr => exact hrely _ _ hr
  | call hr hs _ ih => exact htrans _ _ _ (hrely _ _ hr) (htrans _ _ _ (hstep _ _ _ _ hs) ih)

theorem Exec.calls {P : I.Call → Prop} {p : Prog I α} {s t : S} {tr : List (Answered I)} {a : α}
    (h : Exec rely step p s tr a t) (hp : p.Calls P) : ∀ x ∈ tr, P x.call := by
  induction h with
  | done => simp
  | call _ _ _ ih =>
    rintro x (_ | ⟨_, hx⟩)
    · exact hp.1
    · exact ih (hp.2 _) x hx

namespace Act

variable {t t' : σ} {s s' : S} {tr : List (Answered I)}

theorem of_pure {a : α} {r : Except I.Err α} (h : Exec rely step ((pure a : Act I σ α).prog t) s tr (r, t') s') :
    r = .ok a ∧ t' = t ∧ tr = [] ∧ rely s s' := by
  cases h with
  | done hr => exact ⟨rfl, rfl, rfl, hr⟩

theorem of_call {c : I.Call} {r : Except I.Err (I.Reply c)}
    (h : Exec rely step ((call c : Act I σ _).prog t) s tr (r, t') s') :
    t' = t ∧ tr = [⟨c, r⟩] ∧ ∃ s₁ s₂, rely s s₁ ∧ step c s₁ r s₂ ∧ rely s₂ s' := by
  cases h with
  | call hr hs hrest =>
    cases hrest with
    | done hr' => exact ⟨rfl, rfl, _, _, hr, hs, hr'⟩

theorem of_bind (hrefl : ∀ s, rely s s) {x : Act I σ α} {f : α → Act I σ β} {r : Except I.Err β}
    (h : Exec rely step ((x >>= f).prog t) s tr (r, t') s') :
    (∃ e m, r = .error e ∧ Exec rely step (x.prog t) s tr (.error e, t') m ∧ rely m s') ∨
    ∃ a t₁ m tr₁ tr₂, Exec rely step (x.prog t) s tr₁ (.ok a, t₁) m ∧
      Exec rely step ((f a).prog t₁) m tr₂ (r, t') s' ∧ tr = tr₁ ++ tr₂ := by
  rw [prog_bind] at h
  obtain ⟨tr₁, ⟨o, t₁⟩, m, tr₂, hx, hf, rfl⟩ := Exec.of_bind hrefl h
  cases o with
  | ok a => exact Or.inr ⟨a, t₁, m, tr₁, tr₂, hx, hf, rfl⟩
  | error e =>
    cases hf with
    | done hr =>
      rw [List.append_nil]
      exact Or.inl ⟨e, m, rfl, hx, hr⟩

theorem of_tryCatch (hrefl : ∀ s, rely s s) {x : Act I σ α} {h : I.Err → Act I σ α} {r : Except I.Err α}
    (hexec : Exec rely step ((tryCatch x h).prog t) s tr (r, t') s') :
    (∃ a m, r = .ok a ∧ Exec rely step (x.prog t) s tr (.ok a, t') m ∧ rely m s') ∨
    ∃ e t₁ m tr₁ tr₂, Exec rely step (x.prog t) s tr₁ (.error e, t₁) m ∧
      Exec rely step ((h e).prog t₁) m tr₂ (r, t') s' ∧ tr = tr₁ ++ tr₂ := by
  rw [prog_tryCatch] at hexec
  obtain ⟨tr₁, ⟨o, t₁⟩, m, tr₂, hx, hf, rfl⟩ := Exec.of_bind hrefl hexec
  cases o with
  | ok a =>
    cases hf with
    | done hr =>
      rw [List.append_nil]
      exact Or.inl ⟨a, m, rfl, hx, hr⟩
  | error e => exact Or.inr ⟨e, t₁, m, tr₁, tr₂, hx, hf, rfl⟩

theorem of_call_bind {c : I.Call} {f : I.Reply c → Act I σ β} {a : I.Reply c} {r : Except I.Err β × σ}
    (h : Exec rely step ((call c >>= f).prog t) s (⟨c, .ok a⟩ :: tr) r s') :
    ∃ m, Exec rely step ((f a).prog t) m tr r s' := by
  rw [prog_call_bind] at h
  cases h with
  | call _ _ hrest => exact ⟨_, hrest⟩

/-! ## Stopping at the first exception -/

/-- The cell stays as it is, and the action throws if and only if a call of it threw, its last one. -/
def FailFast (rely : S → S → Prop) (step : (c : I.Call) → S → Except I.Err (I.Reply c) → S → Prop)
    (x : Act I σ α) : Prop :=
  ∀ t s tr r t' s', Exec rely step (x.prog t) s tr (r, t') s' → t' = t ∧ throws tr = if r.isOk then 0 else 1

theorem failFast_pure (a : α) : FailFast rely step (pure a : Act I σ α) := by
  intro t s tr r t' s' h
  obtain ⟨rfl, rfl, rfl, -⟩ := of_pure h
  exact ⟨rfl, rfl⟩

theorem failFast_call (c : I.Call) : FailFast rely step (call c : Act I σ _) := by
  intro t s tr r t' s' h
  obtain ⟨rfl, rfl, -⟩ := of_call h
  refine ⟨rfl, ?_⟩
  rw [throws_cons, throws_nil, Nat.zero_add]

theorem FailFast.bind (hrefl : ∀ s, rely s s) {x : Act I σ α} {f : α → Act I σ β} (hx : FailFast rely step x)
    (hf : ∀ a, FailFast rely step (f a)) : FailFast rely step (x >>= f) := by
  intro t s tr r t' s' h
  rcases of_bind hrefl h with ⟨e, m, rfl, hexec, -⟩ | ⟨a, t₁, m, tr₁, tr₂, hexec, hrest, rfl⟩
  · exact hx _ _ _ _ _ _ hexec
  · obtain ⟨rfl, h₁⟩ := hx _ _ _ _ _ _ hexec
    obtain ⟨rfl, h₂⟩ := hf a _ _ _ _ _ _ hrest
    refine ⟨rfl, ?_⟩
    rw [throws_append, h₁, h₂]
    exact Nat.zero_add _

theorem failFast_ite {c : Prop} [Decidable c] {x y : Act I σ α} (hx : FailFast rely step x)
    (hy : FailFast rely step y) : FailFast rely step (if c then x else y) := by
  split
  · exact hx
  · exact hy

theorem FailFast.tryCatch (hrefl : ∀ s, rely s s) {x : Act I σ α} {h : I.Err → Act I σ α}
    (hx : FailFast rely step x) (hh : ∀ e, FailFast rely step (h e)) {r : Except I.Err α}
    (hexec : Exec rely step ((MonadExcept.tryCatch x h).prog t) s tr (r, t') s') :
    t' = t ∧ (r.isOk = true ↔ throws tr ≤ 1) := by
  rcases of_tryCatch hrefl hexec with ⟨a, m, rfl, hbody, -⟩ | ⟨e, t₁, m, tr₁, tr₂, hbody, hrest, rfl⟩
  · obtain ⟨rfl, h₁⟩ := hx _ _ _ _ _ _ hbody
    refine ⟨rfl, fun _ => ?_, fun _ => rfl⟩
    rw [h₁]
    exact Nat.zero_le 1
  · obtain ⟨rfl, h₁⟩ := hx _ _ _ _ _ _ hbody
    obtain ⟨rfl, h₂⟩ := hh e _ _ _ _ _ _ hrest
    rw [throws_append, h₁, h₂]
    cases r <;> simp [Except.isOk, Except.toBool]

end Act

/-! ## Autocommit -/

namespace Server

variable {D : Schema} {law : Call D → Harm → Bool} {i : Nat} {s s' : Server D}

/-- Autocommit is on, and no transaction is open. -/
structure Closed (i : Nat) (s : Server D) : Prop where
  autocommit : (s.conns i).autocommit = true
  pending : (s.conns i).pending = []

theorem Closed.congr (h : Closed i s) (hconn : s'.conns i = s.conns i) : Closed i s' :=
  ⟨by rw [hconn]; exact h.autocommit, by rw [hconn]; exact h.pending⟩

theorem answer_mode {c : Call D} {r : c.Reply} (h : s.answer i c = some (r, s')) (hc : ∀ on, c ≠ .setAutoCommit on) :
    (s'.conns i).autocommit = (s.conns i).autocommit := by
  cases c with
  | setAutoCommit on => exact absurd rfl (hc on)
  | commit => cases h; simp
  | rollback => cases h; simp
  | exec st =>
    simp only [answer] at h
    split at h
    · cases h; simp
    · cases h
  | finish =>
    obtain rfl : _ = s' := congrArg Prod.snd (Option.some.inj h)
    split <;> simp

/-- The mode of a connection is changed by one call only. -/
theorem Step.mode {c : Call D} {o : Except SqlException c.Reply} (h : Step law i c s o s')
    (hc : ∀ on, c ≠ .setAutoCommit on) : (s'.conns i).autocommit = (s.conns i).autocommit := by
  obtain ⟨f, -, hf⟩ := h
  rcases perform_cases hf with ⟨r, -, -, hr, -⟩ | ⟨x, -, -, hx, -⟩ | ⟨x, -, -, rfl, -⟩
  · exact answer_mode hr hc
  · cases hharm : x.harm <;> rw [hharm] at hx
    case refused =>
      obtain rfl := Option.some.inj hx
      split <;> simp
    case aborted => cases hx; simp
    case lost => cases hx; simp
    case replyLost =>
      obtain ⟨⟨r, t⟩, hr, rfl⟩ := Option.map_eq_some_iff.mp hx
      simpa using answer_mode hr hc
  · rfl

theorem Step.setAutoCommit_closed (h : Step law i (.setAutoCommit true) s (.ok ()) s') : Closed i s' := by
  obtain ⟨-, hr⟩ := h.ok
  cases hr
  exact ⟨by simp, by simp⟩

/-- Whatever becomes of it, a statement that is finished with autocommit on leaves nothing pending. -/
theorem Step.finish_closed {o : Except SqlException Unit} (h : Step law i .finish s o s')
    (hon : (s.conns i).autocommit = true) (halive : (s.conns i).alive = true) : Closed i s' := by
  refine ⟨(h.mode fun on => by simp).trans hon, ?_⟩
  obtain ⟨f, -, hf⟩ := h
  rcases perform_cases hf with ⟨r, -, -, hr, -⟩ | ⟨x, -, -, hx, -⟩ | ⟨x, -, hdead, -, -⟩
  · obtain rfl : _ = s' := congrArg Prod.snd (Option.some.inj hr)
    simp [hon]
  · cases hharm : x.harm <;> rw [hharm] at hx
    case refused =>
      obtain rfl := Option.some.inj hx
      simp [isFinish, hon]
    case aborted => cases hx; simp
    case lost => cases hx; simp
    case replyLost => cases hx; simp
  · rw [halive] at hdead
    cases hdead

end Server

section Execute

open Server

variable {D : Schema} {law : Call D → Harm → Bool} {i : Nat} {R : Server D → Server D → Prop} {s s' : Server D}
  {t t' : σ} {tr : List (Answered (Sql D))} {st : D.Stmt}

theorem failFast_execute (hrefl : ∀ s, R s s) : Act.FailFast R (Step law i) (execute st : Act (Sql D) σ _) := by
  refine (Act.failFast_call (I := Sql D) _).bind hrefl fun r => ?_
  exact (Act.failFast_call (I := Sql D) _).bind hrefl fun _ => Act.failFast_pure r

/-- A statement with autocommit on, from one state without a transaction to the next. -/
theorem closed_execute (hD : D.Lawful) (hrefl : ∀ s, R s s) (hconn : ∀ s s', R s s' → s'.conns i = s.conns i)
    {r : Except SqlException (D.Reply st)}
    (h : Exec R (Step law i) ((execute st : Act (Sql D) σ _).prog t) s tr (r, t') s') (hc : Closed i s) :
    Closed i s' := by
  rcases Act.of_bind hrefl h with ⟨e, m, rfl, hcall, hm⟩ | ⟨a, t₁, m, tr₁, tr₂, hcall, hrest, rfl⟩
  · obtain ⟨rfl, rfl, s₁, s₂, h₁, hs, h₂⟩ := Act.of_call hcall
    have hc₁ := hc.congr (hconn _ _ h₁)
    rcases hs.exec hD with ⟨hok, -⟩ | ⟨e', -, hk⟩
    · cases hok
    · refine (Closed.congr ⟨?_, ?_⟩ (hconn _ _ h₂)).congr (hconn _ _ hm)
      · exact (hs.mode fun on => by simp).trans hc₁.autocommit
      · exact hk.pending.elim (fun heq => heq.trans hc₁.pending) id
  · obtain ⟨rfl, rfl, s₁, s₂, h₁, hs, h₂⟩ := Act.of_call hcall
    have hon : (m.conns i).autocommit = true := by
      rw [hconn _ _ h₂, hs.mode fun on => by simp]
      exact (hc.congr (hconn _ _ h₁)).autocommit
    have halive : (m.conns i).alive = true := by
      rw [hconn _ _ h₂]
      rcases hs.exec hD with ⟨-, ha, -, rfl⟩ | ⟨e', hok, -⟩
      · simpa using ha
      · cases hok
    have finished : ∀ {m' m'' o}, Step law i .finish m' o m'' → m'.conns i = m.conns i → Closed i m'' := by
      intro m' m'' o hs' hm'
      exact hs'.finish_closed (by rw [hm']; exact hon) (by rw [hm']; exact halive)
    rcases Act.of_bind hrefl hrest with ⟨e, m₁, rfl, hcall', hm₁⟩ | ⟨b, t₂, m₁, tr₃, tr₄, hcall', hrest', rfl⟩
    · obtain ⟨rfl, rfl, s₃, s₄, h₃, hs', h₄⟩ := Act.of_call hcall'
      exact ((finished hs' (hconn _ _ h₃)).congr (hconn _ _ h₄)).congr (hconn _ _ hm₁)
    · obtain ⟨rfl, rfl, s₃, s₄, h₃, hs', h₄⟩ := Act.of_call hcall'
      obtain ⟨-, -, -, h₅⟩ := Act.of_pure hrest'
      exact ((finished hs' (hconn _ _ h₃)).congr (hconn _ _ h₄)).congr (hconn _ _ h₅)

theorem of_execute_bind {β : Type} {f : D.Reply st → Act (Sql D) σ β} {a : D.Reply st}
    {r : Except SqlException β × σ} (h : Exec R (Step law i) ((execute st >>= f).prog t) s
      (⟨Call.exec st, .ok a⟩ :: ⟨Call.finish, .ok ()⟩ :: tr) r s') :
    ∃ m, Exec R (Step law i) ((f a).prog t) m tr r s' := by
  rw [execute_bind] at h
  cases h with
  | call _ _ hrest =>
    cases hrest with
    | call _ _ hrest => exact ⟨_, hrest⟩

/-- The statements of an execution, each with whether it returned. -/
def statements : List (Answered (Sql D)) → List (D.Stmt × Bool)
  | ⟨.exec st, .ok _⟩ :: ⟨.finish, o⟩ :: rest => (st, o.isOk) :: statements rest
  | ⟨.exec st, .error _⟩ :: rest => (st, false) :: statements rest
  | _ :: rest => statements rest
  | [] => []

theorem of_execute (hD : D.Lawful) (hrefl : ∀ s, R s s) {r : Except SqlException (D.Reply st)}
    (h : Exec R (Step law i) ((execute st : Act (Sql D) σ _).prog t) s tr (r, t') s') :
    t' = t ∧ (∀ rest, statements (tr ++ rest) = (st, r.isOk) :: statements rest) ∧
      ∀ reply, r = .ok reply → ∃ s₁ : Server D, reply = (s₁.effect i st).reply := by
  rcases Act.of_bind hrefl h with ⟨e, m, rfl, hcall, -⟩ | ⟨a, t₁, m, tr₁, tr₂, hcall, hrest, rfl⟩
  · obtain ⟨rfl, rfl, -⟩ := Act.of_call hcall
    exact ⟨rfl, fun rest => rfl, fun reply hr => by cases hr⟩
  obtain ⟨rfl, rfl, s₁, s₂, -, hs, -⟩ := Act.of_call hcall
  have hreply : a = (s₁.effect i st).reply := by
    rcases hs.exec hD with ⟨hok, -⟩ | ⟨e, hok, -⟩
    · exact Except.ok.inj hok
    · cases hok
  rcases Act.of_bind hrefl hrest with ⟨e, m₁, rfl, hcall', -⟩ | ⟨b, t₂, m₁, tr₃, tr₄, hcall', hdone, rfl⟩
  · obtain ⟨rfl, rfl, -⟩ := Act.of_call hcall'
    exact ⟨rfl, fun rest => rfl, fun reply hr => by cases hr⟩
  · obtain ⟨rfl, rfl, -⟩ := Act.of_call hcall'
    obtain ⟨rfl, rfl, rfl, -⟩ := Act.of_pure hdone
    refine ⟨rfl, fun rest => rfl, fun reply hr => ⟨s₁, ?_⟩⟩
    rw [← Except.ok.inj hr]
    exact hreply

/-- From one state without a transaction to the next, whatever throws. -/
def KeepsClosed (R : Server D → Server D → Prop) (law : Call D → Harm → Bool) (i : Nat) (x : Act (Sql D) σ α) : Prop :=
  ∀ t s tr r t' s', Closed i s → Exec R (Step law i) (x.prog t) s tr (r, t') s' → Closed i s'

theorem keepsClosed_execute (hD : D.Lawful) (hrefl : ∀ s, R s s) (hconn : ∀ s s', R s s' → s'.conns i = s.conns i) :
    KeepsClosed R law i (execute st : Act (Sql D) σ _) :=
  fun _ _ _ _ _ _ hc h => closed_execute hD hrefl hconn h hc

theorem keepsClosed_pure (hconn : ∀ s s', R s s' → s'.conns i = s.conns i) (a : α) :
    KeepsClosed R law i (pure a : Act (Sql D) σ α) := by
  intro t s tr r t' s' hc h
  obtain ⟨-, -, -, hr⟩ := Act.of_pure h
  exact hc.congr (hconn _ _ hr)

theorem KeepsClosed.bind (hrefl : ∀ s, R s s) (hconn : ∀ s s', R s s' → s'.conns i = s.conns i)
    {x : Act (Sql D) σ α} {f : α → Act (Sql D) σ β} (hx : KeepsClosed R law i x)
    (hf : ∀ a, KeepsClosed R law i (f a)) : KeepsClosed R law i (x >>= f) := by
  intro t s tr r t' s' hc h
  rcases Act.of_bind hrefl h with ⟨e, m, -, hexec, hm⟩ | ⟨a, t₁, m, tr₁, tr₂, hexec, hrest, -⟩
  · exact (hx _ _ _ _ _ _ hc hexec).congr (hconn _ _ hm)
  · exact hf a _ _ _ _ _ _ (hx _ _ _ _ _ _ hc hexec) hrest

theorem KeepsClosed.tryCatch (hrefl : ∀ s, R s s) (hconn : ∀ s s', R s s' → s'.conns i = s.conns i)
    {x : Act (Sql D) σ α} {h : SqlException → Act (Sql D) σ α} (hx : KeepsClosed R law i x)
    (hh : ∀ e, KeepsClosed R law i (h e)) : KeepsClosed R law i (MonadExcept.tryCatch x h) := by
  intro t s tr r t' s' hc hexec
  rcases Act.of_tryCatch hrefl hexec with ⟨a, m, -, hbody, hm⟩ | ⟨e, t₁, m, tr₁, tr₂, hbody, hrest, -⟩
  · exact (hx _ _ _ _ _ _ hc hbody).congr (hconn _ _ hm)
  · exact hh e _ _ _ _ _ _ (hx _ _ _ _ _ _ hc hbody) hrest

theorem keepsClosed_ite {c : Prop} [Decidable c] {x y : Act (Sql D) σ α} (hx : KeepsClosed R law i x)
    (hy : KeepsClosed R law i y) : KeepsClosed R law i (if c then x else y) := by
  split
  · exact hx
  · exact hy

end Execute

end Lib
