import J1Server.Lib.Isolation

/-!
# Transactions, call by call

What each call of a connection does, success and failure, and the rules for a
program that runs inside an open transaction while other connections work.
-/

namespace Lib

variable {D : Schema} {law : Call D → Harm → Bool} {i : Nat} {s s' : Server D}

namespace Server

/-- A call that commits nothing. -/
structure Quiet (i : Nat) (s s' : Server D) : Prop where
  db : s'.db = s.db
  history : s'.history = s.history
  now : s'.now = s.now
  next : s.next ≤ s'.next
  task : (s'.conns i).task = (s.conns i).task

/-- A call that commits nothing and leaves the open transaction as it was, or ends it. -/
structure Kept (i : Nat) (s s' : Server D) : Prop extends Quiet i s s' where
  pending : (s'.conns i).pending = (s.conns i).pending ∨ (s'.conns i).pending = []

theorem Quiet.refl (i : Nat) (s : Server D) : Quiet i s s := ⟨rfl, rfl, rfl, le_refl _, rfl⟩

theorem Quiet.committed {j : Nat} (h : Quiet i s s') : Committed j [] s s' :=
  ⟨[], by simp [h.history], h.db, rfl⟩

theorem Kept.refl (i : Nat) (s : Server D) : Kept i s s := ⟨Quiet.refl i s, Or.inl rfl⟩

theorem kept_discard (i : Nat) (s : Server D) : Kept i s (s.discard i) :=
  ⟨⟨rfl, rfl, rfl, le_refl _, by simp⟩, Or.inr (by simp)⟩

theorem kept_hangUp (i : Nat) (s : Server D) : Kept i s (s.hangUp i) :=
  ⟨⟨rfl, rfl, rfl, le_refl _, by simp⟩, Or.inr (by simp)⟩

theorem Quiet.hangUp (h : Quiet i s s') : Kept i s (s'.hangUp i) :=
  ⟨⟨h.db, h.history, h.now, h.next, by simpa using h.task⟩, Or.inr (by simp)⟩

theorem quiet_setMode (i : Nat) (s : Server D) (on : Bool) : Quiet i s (s.setMode i on) :=
  ⟨rfl, rfl, rfl, le_refl _, by simp⟩

theorem quiet_record (i : Nat) (s : Server D) {R : Type} (e : Effect R D.Write D.Row)
    (h : s.next ≤ e.next) : Quiet i s (s.record i e) :=
  ⟨rfl, rfl, rfl, h, by simp⟩

/-! ## The outcomes of a call -/

theorem Step.ok {c : Call D} {r : c.Reply} (h : Step law i c s (.ok r) s') :
    (s.conns i).alive = true ∧ s.answer i c = some (r, s') := by
  obtain ⟨f, -, hf⟩ := h
  rcases perform_cases hf with ⟨r', -, ha, hr, ho⟩ | ⟨x, -, -, -, ho⟩ | ⟨x, -, -, -, ho⟩
  · cases ho; exact ⟨ha, hr⟩
  · cases ho
  · cases ho

theorem Step.of_answer {c : Call D} {r : c.Reply} (ha : (s.conns i).alive = true) (h : s.answer i c = some (r, s')) :
    Step law i c s (.ok r) s' := by
  refine ⟨none, by simp, ?_⟩
  simp only [perform, ha, h]
  rfl

/-- A call that throws did nothing lasting, unless it took effect and only its reply was lost. -/
theorem Step.error {c : Call D} {e : SqlException} (h : Step law i c s (.error e) s') :
    Kept i s s' ∨ law c .replyLost = true ∧ ∃ r t, s.answer i c = some (r, t) ∧ s' = t.hangUp i := by
  obtain ⟨f, hlaw, hf⟩ := h
  rcases perform_cases hf with ⟨r', -, -, -, ho⟩ | ⟨x, rfl, ha, hx, -⟩ | ⟨x, -, -, rfl, -⟩
  · cases ho
  · have hx' := hlaw x rfl
    cases hharm : x.harm <;> rw [hharm] at hx hx'
    case refused =>
      obtain rfl : _ = s' := Option.some.inj hx
      left
      split
      · exact kept_discard i s
      · exact Kept.refl i s
    case aborted => cases hx; exact Or.inl (kept_discard i s)
    case lost => cases hx; exact Or.inl (kept_hangUp i s)
    case replyLost =>
      obtain ⟨⟨r, t⟩, hr, rfl⟩ := Option.map_eq_some_iff.mp hx
      exact Or.inr ⟨hx', r, t, hr, rfl⟩
  · exact Or.inl (Kept.refl i _)

theorem Step.wf (hD : D.Lawful) {c : Call D} {o : Except SqlException c.Reply}
    (h : Step law i c s o s') (hw : s.WF) : s'.WF := by
  obtain ⟨f, -, hf⟩ := h
  exact perform_wf hD hw hf

theorem Step.moved (hD : D.Lawful) {c : Call D} {o : Except SqlException c.Reply}
    (h : Step law i c s o s') : Moved i s s' := by
  obtain ⟨f, -, hf⟩ := h
  exact perform_moved hD hf

theorem answer_task {c : Call D} {r : c.Reply} (h : s.answer i c = some (r, s')) :
    (s'.conns i).task = (s.conns i).task := by
  cases c with
  | setAutoCommit on =>
    obtain rfl : _ = s' := congrArg Prod.snd (Option.some.inj h)
    cases on <;> simp
  | commit => cases h; simp
  | rollback => cases h; simp
  | exec st =>
    simp only [answer] at h
    split at h
    · cases h; simp
    · cases h
  | finish =>
    obtain rfl : _ = s' := congrArg Prod.snd (Option.some.inj h)
    split <;> simp

theorem Step.task {c : Call D} {o : Except SqlException c.Reply} (h : Step law i c s o s') :
    (s'.conns i).task = (s.conns i).task := by
  cases o with
  | ok r => exact answer_task h.ok.2
  | error e =>
    rcases h.error with hk | ⟨-, r, t, hr, rfl⟩
    · exact hk.task
    · simpa using answer_task hr

theorem Step.setAutoCommit_off {o : Except SqlException Unit}
    (h : Step law i (.setAutoCommit false) s o s') :
    (o = .ok () ∧ (s.conns i).alive = true ∧ s' = s.setMode i false) ∨
    (∃ e, o = .error e ∧ Kept i s s') := by
  cases o with
  | ok r =>
    obtain ⟨ha, hr⟩ := h.ok
    cases hr
    exact Or.inl ⟨rfl, ha, rfl⟩
  | error e =>
    refine Or.inr ⟨e, rfl, ?_⟩
    rcases h.error with hk | ⟨-, r, t, hr, rfl⟩
    · exact hk
    · cases hr
      exact (quiet_setMode i s false).hangUp

theorem Step.setAutoCommit_on {o : Except SqlException Unit}
    (h : Step law i (.setAutoCommit true) s o s') (hp : (s.conns i).pending = []) : Kept i s s' := by
  have quiet : Quiet i s ((s.publish i).setMode i true) :=
    ⟨by simp [hp], by simp [hp], rfl, le_refl _, by simp⟩
  cases o with
  | ok r =>
    obtain ⟨-, hr⟩ := h.ok
    cases hr
    exact ⟨quiet, Or.inr (by simp)⟩
  | error e =>
    rcases h.error with hk | ⟨-, r, t, hr, rfl⟩
    · exact hk
    · cases hr
      exact quiet.hangUp

theorem Step.rollback {o : Except SqlException Unit} (h : Step law i .rollback s o s')
    (hlaw : law .rollback .refused = false) (hw : s.WF) :
    Quiet i s s' ∧ (s'.conns i).pending = [] := by
  obtain ⟨f, hf, hp⟩ := h
  rcases perform_cases hp with ⟨r, -, -, hr, -⟩ | ⟨x, rfl, -, hx, -⟩ | ⟨x, -, hd, rfl, -⟩
  · cases hr
    exact ⟨(kept_discard i s).toQuiet, by simp⟩
  · have hx' := hf x rfl
    cases hharm : x.harm <;> rw [hharm] at hx hx'
    case refused => rw [hlaw] at hx'; cases hx'
    case aborted => cases hx; exact ⟨(kept_discard i s).toQuiet, by simp⟩
    case lost => cases hx; exact ⟨(kept_hangUp i s).toQuiet, by simp⟩
    case replyLost =>
      cases hx
      exact ⟨((kept_discard i s).toQuiet.hangUp).toQuiet, by simp⟩
  · exact ⟨Quiet.refl i _, hw.dead i hd⟩

theorem Step.commit {o : Except SqlException Unit} (h : Step law i .commit s o s') :
    (o = .ok () ∧ s' = s.publish i) ∨ (∃ e, o = .error e ∧ Kept i s s') ∨
    (∃ e, o = .error e ∧ law .commit .replyLost = true ∧ s' = (s.publish i).hangUp i) := by
  cases o with
  | ok r =>
    obtain ⟨-, hr⟩ := h.ok
    cases hr
    exact Or.inl ⟨rfl, rfl⟩
  | error e =>
    rcases h.error with hk | ⟨hl, r, t, hr, rfl⟩
    · exact Or.inr (Or.inl ⟨e, rfl, hk⟩)
    · cases hr
      exact Or.inr (Or.inr ⟨e, rfl, hl, rfl⟩)

def effect (s : Server D) (i : Nat) (st : D.Stmt) : Effect (D.Reply st) D.Write D.Row :=
  D.effect st s.now s.next (s.view i)

theorem Step.exec (hD : D.Lawful) {st : D.Stmt} {o : Except SqlException (D.Reply st)}
    (h : Step law i (.exec st) s o s') :
    (o = .ok (s.effect i st).reply ∧ (s.conns i).alive = true ∧
      (s.effect i st).locks.all (s.free i) = true ∧ s' = s.record i (s.effect i st)) ∨
    (∃ e, o = .error e ∧ Kept i s s') := by
  have executed : ∀ {r t}, s.answer i (.exec st) = some (r, t) →
      r = (s.effect i st).reply ∧ (s.effect i st).locks.all (s.free i) = true ∧
        t = s.record i (s.effect i st) := by
    intro r t hr
    simp only [answer] at hr
    split at hr
    · rename_i hfree
      cases hr
      exact ⟨rfl, hfree, rfl⟩
    · cases hr
  cases o with
  | ok r =>
    obtain ⟨ha, hr⟩ := h.ok
    obtain ⟨rfl, hfree, rfl⟩ := executed hr
    exact Or.inl ⟨rfl, ha, hfree, rfl⟩
  | error e =>
    refine Or.inr ⟨e, rfl, ?_⟩
    rcases h.error with hk | ⟨-, r, t, hr, rfl⟩
    · exact hk
    · obtain ⟨-, -, rfl⟩ := executed hr
      exact (quiet_record i s _ (hD.next_le ..)).hangUp

theorem Step.finish_off {o : Except SqlException Unit} (h : Step law i .finish s o s')
    (hoff : (s.conns i).autocommit = false) :
    (o = .ok () ∧ s' = s) ∨ (∃ e, o = .error e ∧ Kept i s s') := by
  cases o with
  | ok r =>
    obtain ⟨-, hr⟩ := h.ok
    obtain rfl : _ = s' := congrArg Prod.snd (Option.some.inj hr)
    exact Or.inl ⟨rfl, by simp [hoff]⟩
  | error e =>
    refine Or.inr ⟨e, rfl, ?_⟩
    rcases h.error with hk | ⟨-, r, t, hr, rfl⟩
    · exact hk
    · obtain rfl : _ = t := congrArg Prod.snd (Option.some.inj hr)
      simpa [hoff] using kept_hangUp i s

theorem Step.finish_on {o : Except SqlException Unit} (h : Step law i .finish s o s')
    (hon : (s.conns i).autocommit = true) :
    (o = .ok () ∧ s' = s.publish i) ∨ (∃ e, o = .error e ∧ Kept i s s') ∨
    (∃ e, o = .error e ∧ s' = (s.publish i).hangUp i) := by
  cases o with
  | ok r =>
    obtain ⟨-, hr⟩ := h.ok
    obtain rfl : _ = s' := congrArg Prod.snd (Option.some.inj hr)
    exact Or.inl ⟨rfl, by simp [hon]⟩
  | error e =>
    rcases h.error with hk | ⟨-, r, t, hr, rfl⟩
    · exact Or.inr (Or.inl ⟨e, rfl, hk⟩)
    · obtain rfl : _ = t := congrArg Prod.snd (Option.some.inj hr)
      exact Or.inr (Or.inr ⟨e, rfl, by simp [hon]⟩)

/-- What is pending after a call was pending before, or a statement wrote it that was answered. -/
theorem Step.pending {c : Call D} {o : Except SqlException c.Reply} (h : Step law i c s o s') {e : Entry D}
    (he : e ∈ (s'.conns i).pending) :
    e ∈ (s.conns i).pending ∨
      ∃ st, c = .exec st ∧ o.isOk = true ∧ e.task = (s.conns i).task ∧ e.write ∈ (s.effect i st).writes := by
  cases o with
  | ok r =>
    have hr := h.ok.2
    cases c with
    | setAutoCommit on =>
      obtain rfl : _ = s' := congrArg Prod.snd (Option.some.inj hr)
      cases on
      · exact Or.inl (by simpa using he)
      · simp at he
    | commit => cases hr; simp at he
    | rollback => cases hr; simp at he
    | exec st =>
      simp only [answer] at hr
      split at hr
      · cases hr
        rw [record_conn] at he
        rcases List.mem_append.mp he with he | he
        · exact Or.inl he
        · obtain ⟨w, hw, rfl⟩ := List.mem_map.mp he
          exact Or.inr ⟨st, rfl, rfl, rfl, hw⟩
      · cases hr
    | finish =>
      obtain rfl : _ = s' := congrArg Prod.snd (Option.some.inj hr)
      split at he
      · simp at he
      · exact Or.inl he
  | error x =>
    rcases h.error with hk | ⟨-, r, t, -, rfl⟩
    · rcases hk.pending with heq | hnil
      · exact Or.inl (heq ▸ he)
      · rw [hnil] at he
        cases he
    · simp at he

/-- Where nothing is pending, only a statement that writes changes that. -/
theorem Step.pending_nil {c : Call D} {o : Except SqlException c.Reply} (h : Step law i c s o s')
    (hc : ∀ st, c = .exec st → (s.effect i st).writes = []) (hp : (s.conns i).pending = []) :
    (s'.conns i).pending = [] := by
  refine List.eq_nil_iff_forall_not_mem.mpr fun e he => ?_
  rcases h.pending he with he | ⟨st, hst, -, -, hw⟩
  · rw [hp] at he
    cases he
  · rw [hc st hst] at hw
    cases hw

/-! ## Inside a transaction -/

def writeAll (ws : List D.Write) (db : D.Db) : D.Db := ws.foldl (fun db w => D.apply w db) db

@[simp] theorem writeAll_nil (db : D.Db) : writeAll [] db = db := rfl

@[simp] theorem writeAll_cons (w : D.Write) (ws : List D.Write) (db : D.Db) :
    writeAll (w :: ws) db = writeAll ws (D.apply w db) := rfl

theorem applyAll_eq (es : List (Entry D)) (db : D.Db) :
    applyAll es db = writeAll (es.map Entry.write) db := by
  rw [applyAll, writeAll, List.foldl_map]

theorem look_writeAll_other (hD : D.Lawful) {r : D.Row} {ws : List D.Write} {db : D.Db}
    (h : ∀ w ∈ ws, D.row? w ≠ some r) : D.look r (writeAll ws db) = D.look r db := by
  induction ws generalizing db with
  | nil => rfl
  | cons w ws ih =>
    rw [writeAll_cons, ih fun x hx => h x (List.mem_cons_of_mem _ hx)]
    exact hD.look_other _ _ _ (h w List.mem_cons_self)

theorem map_write_mk (i n : Nat) (ws : List D.Write) :
    (ws.map (Entry.mk i n)).map Entry.write = ws := by
  simp [Function.comp_def]

/-- Task `n` of `i` has an open transaction that wrote `ws`, on top of what was already pending. -/
structure InTx (i n : Nat) (pre : List (Entry D)) (ws : List D.Write) (s : Server D) : Prop where
  wf : s.WF
  conn : s.conns i = ⟨false, true, n, pre ++ ws.map (Entry.mk i n)⟩

/-- Under the writes of its own transaction, `i` sees `v` in a row that it has locked. -/
structure Held (i : Nat) (pre : List (Entry D)) (r : D.Row) (v : D.Val) (s : Server D) : Prop where
  owner : s.owner r = some i
  look : D.look r (applyAll pre s.db) = v

variable {n : Nat} {pre : List (Entry D)} {ws : List D.Write} {r : D.Row} {v : D.Val}

theorem InTx.view (h : InTx i n pre ws s) : s.view i = writeAll ws (applyAll pre s.db) := by
  rw [Server.view, h.conn, applyAll_append, applyAll_eq (ws.map _), map_write_mk]

theorem InTx.rely (h : InTx i n pre ws s) (hr : Rely i s s') : InTx i n pre ws s' :=
  ⟨hr.wf h.wf, hr.conn.trans h.conn⟩

theorem Held.rely (hD : D.Lawful) (h : Held i pre r v s) (hr : Rely i s s') : Held i pre r v s' where
  owner := (hr.held r).mpr h.owner
  look := by
    rw [← h.look]
    exact look_applyAll_congr hD pre (hr.look hD h.owner)

theorem InTx.record (hD : D.Lawful) {st : D.Stmt} (h : InTx i n pre ws s)
    (hfree : (s.effect i st).locks.all (s.free i) = true) :
    InTx i n pre (ws ++ (s.effect i st).writes) (s.record i (s.effect i st)) where
  wf := h.wf.record hD (by rw [h.conn]) hfree
  conn := by
    rw [record_conn]
    simp [h.conn, tag]

theorem Held.record (h : Held i pre r v s) {R : Type} (e : Effect R D.Write D.Row) :
    Held i pre r v (s.record i e) where
  owner := by
    rw [owner_record]
    split
    · rfl
    · exact h.owner
  look := h.look

end Server

/-! ## Statements in a program -/

open Server

def execute {σ : Type} (st : D.Stmt) : Act (Sql D) σ (D.Reply st) := do
  let r ← Act.call (I := Sql D) (Call.exec st)
  Act.call (I := Sql D) Call.finish
  pure r

theorem execute_bind {α σ : Type} (st : D.Stmt) (f : D.Reply st → Act (Sql D) σ α) (t : σ) :
    (execute st >>= f).prog t = Prog.call (I := Sql D) (Call.exec st) fun o =>
      match o with
      | .ok r => Prog.call (I := Sql D) Call.finish fun o' =>
        match o' with
        | .ok _ => (f r).prog t
        | .error e => .done (.error e, t)
      | .error e => .done (.error e, t) := by
  rw [Act.prog_bind]
  refine congrArg (Prog.call (I := Sql D) (Call.exec st)) (funext fun o => ?_)
  cases o with
  | ok r =>
    refine congrArg (Prog.call (I := Sql D) Call.finish) (funext fun o' => ?_)
    cases o' <;> rfl
  | error e => rfl

theorem calls_statement {P : Call D → Prop} {σ : Type} {st : D.Stmt} {t : σ} (hst : P (.exec st))
    (hfinish : P .finish) : ((execute st : Act (Sql D) σ _).prog t).Calls P := by
  refine ⟨hst, fun o => ?_⟩
  cases o with
  | ok r => exact ⟨hfinish, fun o' => by cases o' <;> trivial⟩
  | error e => trivial

theorem guided_execute {can : (c : Call D) → Except SqlException c.Reply → Prop} {P : Call D → Prop} {σ : Type}
    {st : D.Stmt} {t : σ} {Q : Except SqlException (D.Reply st) × σ → Prop} (hst : P (.exec st)) (hfinish : P .finish)
    (hok : ∀ r, can (.exec st) (.ok r) → Q (.ok r, t)) (herr : ∀ e, Q (.error e, t)) :
    ((execute st : Act (Sql D) σ _).prog t).Guided can P Q := by
  refine ⟨hst, fun o ho => ?_⟩
  cases o with
  | ok r =>
    refine ⟨hfinish, fun o' _ => ?_⟩
    cases o' with
    | ok u => exact hok r ho
    | error e => exact herr e
  | error e => exact herr e

def isBegin : Answered (Sql D) → Bool
  | ⟨.setAutoCommit false, _⟩ => true
  | _ => false

def isCommitted : Answered (Sql D) → Bool
  | ⟨.commit, .ok _⟩ => true
  | _ => false

def begins (tr : List (Answered (Sql D))) : Nat := tr.countP isBegin

def commits (tr : List (Answered (Sql D))) : Nat := tr.countP isCommitted

@[simp] theorem begins_append (tr tr' : List (Answered (Sql D))) :
    begins (tr ++ tr') = begins tr + begins tr' := List.countP_append

@[simp] theorem commits_append (tr tr' : List (Answered (Sql D))) :
    commits (tr ++ tr') = commits tr + commits tr' := List.countP_append

theorem begins_cons (x : Answered (Sql D)) (tr : List (Answered (Sql D))) :
    begins (x :: tr) = begins tr + if isBegin x then 1 else 0 := List.countP_cons

theorem commits_cons (x : Answered (Sql D)) (tr : List (Answered (Sql D))) :
    commits (x :: tr) = commits tr + if isCommitted x then 1 else 0 := List.countP_cons

/-- A condition on the calls made that does not see statements. -/
def Blind {α : Type} (Q : List (Answered (Sql D)) → α → Server D → Prop) : Prop :=
  ∀ tr tr' a s, begins tr = 0 → commits tr = 0 → Q tr' a s → Q (tr ++ tr') a s

/-- What surrounds a transaction of `i`: `R` is the interference, `During` relates any two moments
of the transaction, and `G` is what the calls are allowed to do. -/
structure Surroundings (i : Nat) (R During G : Server D → Server D → Prop) : Prop where
  lawful : D.Lawful
  rely : ∀ s s', R s s' → Rely i s s'
  refl : ∀ s, R s s
  trans : ∀ a b c, R a b → R b c → R a c
  during : ∀ s s', R s s' → During s s'
  during_trans : ∀ a b c, During a b → During b c → During a c
  quiet : ∀ s s', Quiet i s s' → During s s'
  guar : ∀ s s', Quiet i s s' → G s s'

/-- `st` was answered with `reply`, somewhere between `s` and `s'`. -/
def Executed (R : Server D → Server D → Prop) (i : Nat) (st : D.Stmt) (s : Server D)
    (reply : D.Reply st) (s' : Server D) : Prop :=
  ∃ s₁, R s s₁ ∧ (s₁.effect i st).locks.all (s₁.free i) = true ∧ reply = (s₁.effect i st).reply ∧
    R (s₁.record i (s₁.effect i st)) s'

/-- A transaction that failed: the exception is on its way to the caller. -/
structure Failed (i n : Nat) (During : Server D → Server D → Prop) (s s' : Server D) : Prop where
  during : During s s'
  wf : s'.WF
  task : (s'.conns i).task = n

section

variable {R During G : Server D → Server D → Prop} (hS : Surroundings i R During G) {n : Nat}
  {pre : List (Entry D)} {ws : List D.Write}

include hS

theorem Surroundings.failed (hw : s.WF) (hn : (s.conns i).task = n) {s₁ s₂ : Server D}
    {c : Call D} {o : Except SqlException c.Reply} (h₁ : R s s₁) (h : Step law i c s₁ o s₂)
    (hd : During s₁ s₂) (h₂ : R s₂ s') : Failed i n During s s' where
  during := hS.during_trans _ _ _ (hS.during _ _ h₁) (hS.during_trans _ _ _ hd (hS.during _ _ h₂))
  wf := (hS.rely _ _ h₂).wf (h.wf hS.lawful ((hS.rely _ _ h₁).wf hw))
  task := by rw [(hS.rely _ _ h₂).conn, h.task, (hS.rely _ _ h₁).conn, hn]

/-- The rule of a statement inside a transaction. -/
theorem Surroundings.execute {α σ : Type} {st : D.Stmt} {f : D.Reply st → Act (Sql D) σ α} {t : σ}
    {Q : List (Answered (Sql D)) → Except SqlException α × σ → Server D → Prop} (hQ : Blind Q)
    (hin : InTx i n pre ws s)
    (hok : ∀ reply s', Executed R i st s reply s' → Safe R (Step law i) G ((f reply).prog t) Q s')
    (herr : ∀ e s', Failed i n During s s' → Q [] (.error e, t) s') :
    Safe R (Step law i) G ((Lib.execute st >>= f).prog t) Q s := by
  have hD := hS.lawful
  rw [execute_bind]
  intro s₁ h₁ o s₂ hs₂
  have in₁ := hin.rely (hS.rely _ _ h₁)
  have hn : (s.conns i).task = n := by rw [hin.conn]
  rcases hs₂.exec hD with ⟨rfl, -, hfree, rfl⟩ | ⟨e, rfl, hk⟩
  · have quiet := quiet_record i s₁ (s₁.effect i st) (hD.next_le ..)
    refine ⟨hS.guar _ _ quiet, ?_⟩
    intro s₃ h₃ o' s₄ hs₄
    have in₃ := (in₁.record hD hfree).rely (hS.rely _ _ h₃)
    rcases hs₄.finish_off (by rw [in₃.conn]) with ⟨rfl, rfl⟩ | ⟨e, rfl, hk⟩
    · refine ⟨hS.guar _ _ (Quiet.refl i _), ?_⟩
      exact (hok _ _ ⟨s₁, h₁, hfree, rfl, h₃⟩).mono fun tr a s' hq =>
        hQ [_, _] tr a s' rfl rfl hq
    · refine ⟨hS.guar _ _ hk.toQuiet, fun s₅ h₅ => ?_⟩
      have h₀₃ : During s s₃ := hS.during_trans _ _ _ (hS.during _ _ h₁)
        (hS.during_trans _ _ _ (hS.quiet _ _ quiet) (hS.during _ _ h₃))
      refine hQ [_, _] [] _ s₅ rfl rfl (herr e s₅ ⟨?_, ?_, ?_⟩)
      · exact hS.during_trans _ _ _ h₀₃
          (hS.during_trans _ _ _ (hS.quiet _ _ hk.toQuiet) (hS.during _ _ h₅))
      · exact (hS.rely _ _ h₅).wf (hs₄.wf hD in₃.wf)
      · rw [(hS.rely _ _ h₅).conn, hs₄.task, in₃.conn]
  · refine ⟨hS.guar _ _ hk.toQuiet, fun s₃ h₃ => ?_⟩
    exact hQ [_] [] _ s₃ rfl rfl
      (herr e s₃ (hS.failed hin.wf hn h₁ hs₂ (hS.quiet _ _ hk.toQuiet) h₃))

/-- The rule of the call that opens the transaction. -/
theorem Surroundings.open {α σ : Type} {f : Unit → Act (Sql D) σ α} {t : σ}
    {Q : List (Answered (Sql D)) → Except SqlException α × σ → Server D → Prop} (hw : s.WF)
    (hn : (s.conns i).task = n) (hp : (s.conns i).pending = pre)
    (hok : ∀ s', InTx i n pre [] s' → During s s' →
      Safe R (Step law i) G ((f ()).prog t) (fun tr => Q (⟨Call.setAutoCommit false, .ok ()⟩ :: tr)) s')
    (herr : ∀ e s', Failed i n During s s' →
      Q [⟨Call.setAutoCommit false, .error e⟩] (.error e, t) s') :
    Safe R (Step law i) G
      ((Act.call (I := Sql D) (Call.setAutoCommit false) >>= f).prog t) Q s := by
  have shape := Act.prog_call_bind (I := Sql D) (Call.setAutoCommit false) f t
  rw [shape]
  intro s₁ h₁ o s₂ hs₂
  have hw₁ := (hS.rely _ _ h₁).wf hw
  have hconn := (hS.rely _ _ h₁).conn
  rcases hs₂.setAutoCommit_off with ⟨rfl, halive, rfl⟩ | ⟨e, rfl, hk⟩
  · have quiet := quiet_setMode i s₁ false
    refine ⟨hS.guar _ _ quiet, hok _ ⟨hw₁.setMode i false, ?_⟩ ?_⟩
    · rw [setMode_conn, List.map_nil, List.append_nil]
      cases hc : s₁.conns i with
      | mk autocommit alive task pending =>
        rw [hc] at halive
        rw [← hconn, hc] at hn hp
        simp only at halive hn hp
        simp [halive, hn, hp]
    · exact hS.during_trans _ _ _ (hS.during _ _ h₁) (hS.quiet _ _ quiet)
  · refine ⟨hS.guar _ _ hk.toQuiet, fun s₃ h₃ => herr e s₃ ?_⟩
    exact hS.failed hw hn h₁ hs₂ (hS.quiet _ _ hk.toQuiet) h₃

theorem Executed.inTx {st : D.Stmt} {reply : D.Reply st} (he : Executed R i st s reply s')
    (h : InTx i n pre ws s) : ∃ s₁, R s s₁ ∧ InTx i n pre ws s₁ ∧ reply = (s₁.effect i st).reply ∧
      R (s₁.record i (s₁.effect i st)) s' ∧ InTx i n pre (ws ++ (s₁.effect i st).writes) s' := by
  obtain ⟨s₁, h₁, hfree, hr, h₂⟩ := he
  have in₁ := h.rely (hS.rely _ _ h₁)
  exact ⟨s₁, h₁, in₁, hr, h₂, (in₁.record hS.lawful hfree).rely (hS.rely _ _ h₂)⟩

theorem Executed.during {st : D.Stmt} {reply : D.Reply st} (he : Executed R i st s reply s') :
    During s s' := by
  obtain ⟨s₁, h₁, -, -, h₂⟩ := he
  exact hS.during_trans _ _ _ (hS.during _ _ h₁) (hS.during_trans _ _ _
    (hS.quiet _ _ (quiet_record i s₁ _ (hS.lawful.next_le ..))) (hS.during _ _ h₂))

/-- A row that a statement locks keeps the value that it had there. -/
theorem Surroundings.locked {st : D.Stmt} {r : D.Row} {v : D.Val} (hr : r ∈ (s.effect i st).locks)
    (hv : D.look r (applyAll pre s.db) = v) (h : R (s.record i (s.effect i st)) s') :
    Held i pre r v s' := by
  have held : Held i pre r v (s.record i (s.effect i st)) := ⟨by rw [owner_record, if_pos hr], hv⟩
  exact held.rely hS.lawful (hS.rely _ _ h)

theorem Executed.held {st : D.Stmt} {reply : D.Reply st} (he : Executed R i st s reply s')
    {r : D.Row} {v : D.Val} (h : Held i pre r v s) : Held i pre r v s' := by
  obtain ⟨s₁, h₁, -, -, h₂⟩ := he
  exact ((h.rely hS.lawful (hS.rely _ _ h₁)).record _).rely hS.lawful (hS.rely _ _ h₂)

end

end Lib
