import J1Server.Lib.Pool
import Mathlib.Data.List.Perm.Subperm

/-!
# What each task committed

A worker has its connection to itself, so what the connection committed is what
its tasks did, one after the other. `Bookkeeping` says what one task may commit;
`booked_run` finds it in the history again, task by task, after every run.
-/

namespace Lib

variable {D : Schema} {τ ρ : Type}

open Server Pool

/-- What connection `i` committed, oldest first. -/
def madeBy (i : Nat) (s : Server D) : List (Entry D) := s.history.filter fun e => e.conn = i

theorem Server.Committed.madeBy {i : Nat} {es : List (Entry D)} {s s' : Server D} (h : Committed i es s s') :
    madeBy i s' = madeBy i s ++ es := by
  obtain ⟨ext, hhistory, -, rfl⟩ := h
  rw [Lib.madeBy, hhistory, List.filter_append, Lib.madeBy]

/-- A call commits nothing, or what was pending. -/
theorem Server.Moved.committed {i : Nat} {s s' : Server D} (h : Moved i s s') (hw : s.WF) :
    Committed i [] s s' ∨ Committed i (s.conns i).pending s s' := by
  rcases h.log with ⟨hhistory, hdb⟩ | ⟨hhistory, hdb⟩
  · exact Or.inl ⟨[], by simp [hhistory], hdb, rfl⟩
  · obtain ⟨ext, hext, -, hfilter⟩ := committed_publish hw i
    obtain rfl := List.append_cancel_left hext
    exact Or.inr ⟨_, hhistory, hdb, hfilter⟩

/-- Entries that finished tasks may have committed, task by task. -/
inductive Booked (Part : τ → ρ → List (Entry D) → Prop) : List (Finished τ ρ) → List (Entry D) → Prop
  | nil : Booked Part [] []
  | snoc {xs : List (Finished τ ρ)} {es part : List (Entry D)} {x : Finished τ ρ} :
      Booked Part xs es → Part x.task x.result part → Booked Part (xs ++ [x]) (es ++ part)

/-- How each part is related to its task, the whole is to all of them. -/
theorem Booked.related {γ : Type} {R : List γ → List γ → Prop} {Part : τ → ρ → List (Entry D) → Prop}
    {f : Entry D → List γ} {g : τ → ρ → List γ} (hnil : R [] [])
    (happend : ∀ as bs cs ds, R as bs → R cs ds → R (as ++ cs) (bs ++ ds))
    (hpart : ∀ task r part, Part task r part → R (part.flatMap f) (g task r)) {xs : List (Finished τ ρ)}
    {es : List (Entry D)} (h : Booked Part xs es) : R (es.flatMap f) (xs.flatMap fun x => g x.task x.result) := by
  induction h with
  | nil => exact hnil
  | snoc _ hx ih =>
    rw [List.flatMap_append, List.flatMap_append, List.flatMap_singleton]
    exact happend _ _ _ _ ih (hpart _ _ _ hx)

/-- What every task that starts under `Pre` commits by the time it ends is a `Part` of it and its result. -/
structure Bookkeeping (law : Call D → Harm → Bool) (code : τ → Prog (Sql D) ρ) (Pre : Server D → Nat → τ → Prop)
    (Idle : Nat → Server D → Prop) (Part : τ → ρ → List (Entry D) → Prop) : Prop where
  lawful : D.Lawful
  idle : ∀ i s s', Idle i s → Rely i s s' → Idle i s'
  spec : ∀ i task s, s.WF → Idle i s → Pre s i task →
    Safe (Rely i) (Step law i) (fun _ _ => True) (code task)
      (fun _ r s' => Idle i s' ∧ ∃ part, Committed i part s s' ∧ Part task r part) (s.beginTask i)

variable {law : Call D → Harm → Bool} {code : τ → Prog (Sql D) ρ} {Pre : Server D → Nat → τ → Prop}
  {Idle : Nat → Server D → Prop} {Part : τ → ρ → List (Entry D) → Prop} {p q : Pool D τ ρ}

/-- Connection `i` has committed `es` for its finished tasks, and what is left of its job adds its part. -/
def Keeping (law : Call D → Harm → Bool) (Idle : Nat → Server D → Prop)
    (Part : τ → ρ → List (Entry D) → Prop) (s : Server D) (i : Nat) (es : List (Entry D)) :
    Option (Job D τ ρ) → Prop
  | none => Idle i s ∧ madeBy i s = es
  | some ⟨task, rest⟩ => Safe (Rely i) (Step law i) (fun _ _ => True) rest
      (fun _ r s' => Idle i s' ∧ ∃ part, madeBy i s' = es ++ part ∧ Part task r part) s

structure Balanced (law : Call D → Harm → Bool) (Idle : Nat → Server D → Prop)
    (Part : τ → ρ → List (Entry D) → Prop) (p : Pool D τ ρ) : Prop where
  wf : p.server.WF
  worker : ∀ i, ∃ es, Booked Part (p.finished.filter fun x => x.conn = i) es ∧
    Keeping law Idle Part p.server i es (p.jobs i)

theorem Keeping.rely (hb : Bookkeeping law code Pre Idle Part) {s s' : Server D} {i : Nat} {es : List (Entry D)}
    {job : Option (Job D τ ρ)} (h : Keeping law Idle Part s i es job) (hr : Rely i s s') :
    Keeping law Idle Part s' i es job := by
  cases job with
  | none => exact ⟨hb.idle i s s' h.1 hr, by rw [hr.committed.madeBy, h.2, List.append_nil]⟩
  | some j => exact Safe.interfere h (fun _ _ _ => Rely.trans) hr

/-- A worker moves on; what the others have committed stays as it is. -/
theorem Balanced.move (hb : Bookkeeping law code Pre Idle Part) (h : Balanced law Idle Part p) {i : Nat} {s' : Server D}
    {job : Option (Job D τ ρ)} (hm : Moved i p.server s') (hw : s'.WF)
    (hjob : ∀ es, Keeping law Idle Part p.server i es (p.jobs i) → Keeping law Idle Part s' i es job) :
    Balanced law Idle Part { p with server := s', jobs := Function.update p.jobs i job } := by
  refine ⟨hw, fun j => ?_⟩
  obtain ⟨es, hbooked, hkeeping⟩ := h.worker j
  refine ⟨es, hbooked, ?_⟩
  by_cases hj : j = i
  · subst hj
    simpa using hjob es hkeeping
  · simpa [Function.update_of_ne hj] using hkeeping.rely hb (hm.rely hj h.wf hw)

theorem Balanced.step (hb : Bookkeeping law code Pre Idle Part) (h : Balanced law Idle Part p) {e : PoolEvent τ}
    (hpre : ∀ i task, p.jobs i = none → Pre p.server i task) (he : p.step law code e = some q) :
    Balanced law Idle Part q := by
  cases e with
  | start i task =>
    obtain ⟨hj, rfl⟩ := step_start he
    refine h.move hb (moved_beginTask i _) (h.wf.beginTask i) fun es hkeeping => ?_
    rw [hj] at hkeeping
    obtain ⟨hidle, hmade⟩ := hkeeping
    refine (hb.spec i task p.server h.wf hidle (hpre i task hj)).mono ?_
    rintro tr r s' ⟨hidle', part, hcommitted, hpart⟩
    exact ⟨hidle', part, by rw [hcommitted.madeBy, hmade], hpart⟩
  | call i fault =>
    obtain ⟨task, c, k, o, s', hj, hs, rfl⟩ := step_call he
    refine h.move hb (hs.moved hb.lawful) (hs.wf hb.lawful h.wf) fun es hkeeping => ?_
    rw [hj] at hkeeping
    exact (hkeeping _ (Rely.refl i _) o s' hs).2
  | finish i =>
    obtain ⟨task, r, hj, rfl⟩ := step_finish he
    refine ⟨h.wf, fun j => ?_⟩
    obtain ⟨es, hbooked, hkeeping⟩ := h.worker j
    by_cases hji : j = i
    · subst hji
      rw [hj] at hkeeping
      obtain ⟨hidle, part, hmade, hpart⟩ := hkeeping _ (Rely.refl j _)
      refine ⟨es ++ part, ?_, ?_⟩
      · simpa using hbooked.snoc (x := ⟨j, (p.server.conns j).task, task, r⟩) hpart
      · simpa [Keeping] using And.intro hidle hmade
    · exact ⟨es, by simpa [Ne.symm hji] using hbooked, by simpa [Function.update_of_ne hji] using hkeeping⟩
  | tick d =>
    obtain rfl : { p with server := p.server.tick d } = q := Option.some.inj he
    refine ⟨h.wf.tick d, fun i => ?_⟩
    obtain ⟨es, hbooked, hkeeping⟩ := h.worker i
    exact ⟨es, hbooked, hkeeping.rely hb (Rely.tick i _ d)⟩

/-- After every run, what an idle worker's connection committed is the parts of its finished tasks. `Inv` is
what is known of the states of the run. -/
theorem booked_run (hb : Bookkeeping law code Pre Idle Part) {Inv : Pool D τ ρ → Prop}
    (hinv : ∀ p e q, Inv p → p.step law code e = some q → Inv q)
    (hpre : ∀ p i task, Inv p → p.jobs i = none → Pre p.server i task) {s : Server D} (hw : s.WF)
    (hidle : ∀ i, Idle i s) (hfresh : s.history = []) (hstart : Inv (fresh s)) {es : List (PoolEvent τ)}
    (hr : run (Pool.step law code) (fresh s) es = some q) {i : Nat} (hi : q.jobs i = none) :
    Booked Part (q.finished.filter fun x => x.conn = i) (madeBy i q.server) := by
  have hbalanced : Balanced law Idle Part (fresh s : Pool D τ ρ) :=
    ⟨hw, fun j => ⟨[], .nil, hidle j, by simp [madeBy, fresh, hfresh]⟩⟩
  have hrun := run_invariant (P := fun p => Balanced law Idle Part p ∧ Inv p)
    (fun p e q h he => ⟨h.1.step hb (fun i task => hpre p i task h.2) he, hinv p e q h.2 he⟩) ⟨hbalanced, hstart⟩ hr
  obtain ⟨made, hbooked, hkeeping⟩ := hrun.1.worker i
  rw [hi] at hkeeping
  rw [hkeeping.2]
  exact hbooked

theorem committed_beginTask (s : Server D) (i : Nat) : Committed i [] s (s.beginTask i) :=
  ⟨[], by simp, rfl, rfl⟩

/-! ## Writes that do not count -/

/-- A call that writes only what `ok` allows, if anything. -/
def Records (ok : D.Write → Prop) (c : Call D) : Prop :=
  ∀ st, c = .exec st → ∀ now next db, ∀ w ∈ (D.effect st now next db).writes, ok w

/-- So far nothing else was committed, and nothing else is pending. -/
structure Plain (ok : D.Write → Prop) (i : Nat) (s₀ s : Server D) : Prop where
  wf : s.WF
  pending : ∀ e ∈ (s.conns i).pending, ok e.write
  committed : ∃ part, Committed i part s₀ s ∧ ∀ e ∈ part, ok e.write

variable {ok : D.Write → Prop} {i : Nat} {s₀ s s' : Server D}

theorem Plain.rely (h : Plain ok i s₀ s) (hr : Rely i s s') : Plain ok i s₀ s' := by
  obtain ⟨part, hcommitted, hpart⟩ := h.committed
  refine ⟨hr.wf h.wf, by rw [hr.conn]; exact h.pending, part, ?_, hpart⟩
  simpa using hcommitted.trans hr.committed

theorem Plain.step (hD : D.Lawful) {c : Call D} {o : Except SqlException c.Reply} (h : Plain ok i s₀ s)
    (hc : Records ok c) (hs : Step law i c s o s') : Plain ok i s₀ s' := by
  obtain ⟨part, hcommitted, hpart⟩ := h.committed
  refine ⟨hs.wf hD h.wf, fun e he => ?_, ?_⟩
  · rcases hs.pending he with he | ⟨st, hst, -, -, hw⟩
    · exact h.pending e he
    · exact hc st hst _ _ _ _ hw
  · rcases (hs.moved hD).committed h.wf with hnone | hall
    · exact ⟨part, by simpa using hcommitted.trans hnone, hpart⟩
    · refine ⟨_, hcommitted.trans hall, fun e he => ?_⟩
      rcases List.mem_append.mp he with he | he
      · exact hpart e he
      · exact h.pending e he

/-- A program of such calls commits nothing else. -/
theorem plain_safe {α : Type} (hD : D.Lawful) {prog : Prog (Sql D) α} (hcalls : prog.Calls (Records ok)) (hw : s.WF)
    (hpending : ∀ e ∈ (s.conns i).pending, ok e.write) :
    Safe (Rely i) (Step law i) (fun _ _ => True) prog (fun _ _ s' => Plain ok i s s') s :=
  Safe.of_calls (J := Plain ok i s) (fun _ _ h hr => h.rely hr) (fun _ _ _ _ hc h hs => ⟨trivial, h.step hD hc hs⟩) hcalls
    ⟨hw, hpending, [], Committed.refl i s, by simp⟩

/-! ## All connections together -/

/-- What is contained key by key, up to order, is contained altogether. -/
theorem subperm_of_keys {α β γ κ : Type} [DecidableEq κ] {key : α → κ} {key' : β → κ} {f : α → List γ} {g : β → List γ}
    {xs : List α} {ys : List β}
    (h : ∀ k, ((xs.filter fun x => key x = k).flatMap f).Subperm ((ys.filter fun y => key' y = k).flatMap g)) :
    (xs.flatMap f).Subperm (ys.flatMap g) := by
  obtain ⟨n, hn⟩ : ∃ n, xs.length + ys.length ≤ n := ⟨_, le_refl _⟩
  induction n generalizing xs ys with
  | zero =>
    obtain rfl := List.length_eq_zero_iff.mp (by omega : xs.length = 0)
    obtain rfl := List.length_eq_zero_iff.mp (by omega : ys.length = 0)
    exact List.nil_subperm
  | succ n ih =>
    -- One key is taken out of both lists, and the rest is shorter.
    have split : ∀ k, (xs.filter fun x => ¬key x = k).length + (ys.filter fun y => ¬key' y = k).length ≤ n →
        (xs.flatMap f).Subperm (ys.flatMap g) := by
      intro k hlen
      have hrest : ∀ j, (((xs.filter fun x => ¬key x = k).filter fun x => key x = j).flatMap f).Subperm
          (((ys.filter fun y => ¬key' y = k).filter fun y => key' y = j).flatMap g) := by
        intro j
        simp only [List.filter_filter]
        by_cases hj : j = k
        · subst hj
          simp
        · have hx : (fun x => decide (key x = j) && decide ¬key x = k) = fun x => decide (key x = j) := by
            funext x
            by_cases hxj : key x = j <;> simp [hxj, hj]
          have hy : (fun y => decide (key' y = j) && decide ¬key' y = k) = fun y => decide (key' y = j) := by
            funext y
            by_cases hyj : key' y = j <;> simp [hyj, hj]
          rw [hx, hy]
          exact h j
      have hxs := (List.filter_append_perm (fun x => decide (key x = k)) xs).flatMap_right f
      have hys := (List.filter_append_perm (fun y => decide (key' y = k)) ys).flatMap_right g
      rw [List.flatMap_append] at hxs hys
      refine hxs.symm.subperm.trans (((h k).append ?_).trans hys.subperm)
      simpa using ih hrest hlen
    cases xs with
    | cons x xs =>
      refine split (key x) ?_
      have hle := List.length_filter_le (fun y => decide ¬key y = key x) xs
      have hle' := List.length_filter_le (fun y => decide ¬key' y = key x) ys
      simp only [List.length_cons] at hn
      simp only [not_true_eq_false, decide_false, Bool.false_eq_true, not_false_eq_true, List.filter_cons_of_neg]
      omega
    | nil =>
      cases ys with
      | nil => exact List.nil_subperm
      | cons y ys =>
        refine split (key' y) ?_
        have hle := List.length_filter_le (fun z => decide ¬key' z = key' y) ys
        simp only [List.length_cons, List.length_nil] at hn
        simp only [not_true_eq_false, decide_false, Bool.false_eq_true, not_false_eq_true, List.filter_cons_of_neg,
          List.filter_nil, List.length_nil]
        omega

/-- Two lists that agree key by key, up to order, agree altogether. -/
theorem perm_of_keys {α β γ κ : Type} [DecidableEq κ] {key : α → κ} {key' : β → κ} {f : α → List γ} {g : β → List γ}
    {xs : List α} {ys : List β}
    (h : ∀ k, ((xs.filter fun x => key x = k).flatMap f).Perm ((ys.filter fun y => key' y = k).flatMap g)) :
    (xs.flatMap f).Perm (ys.flatMap g) :=
  (subperm_of_keys fun k => (h k).subperm).antisymm (subperm_of_keys fun k => (h k).symm.subperm)

/-- What finished tasks have committed in one piece is in the history, once for each of them. -/
theorem numbered_subperm {γ : Type} {f : D.Write → List γ} {ws : Finished τ ρ → List D.Write} (h : Numbered p)
    {history : List (Entry D)} (hws : ∀ x ∈ p.finished, (ws x).map (Entry.mk x.conn x.no) <:+: history) :
    (p.finished.flatMap fun x => (ws x).flatMap f).Subperm (history.flatMap fun e => f e.write) := by
  refine @subperm_of_keys _ _ _ _ _ (fun x => (x.conn, x.no)) (fun e => (e.conn, e.task)) _ _ _ _ fun k => ?_
  have honce : ((p.finished.filter fun x => (x.conn, x.no) = k).map fun x => (x.conn, x.no)).Nodup :=
    h.distinct.sublist (List.filter_sublist.map _)
  have hmem : ∀ x ∈ p.finished.filter fun x => (x.conn, x.no) = k, x ∈ p.finished ∧ (x.conn, x.no) = k :=
    fun x hx => by simpa using hx
  generalize (p.finished.filter fun x => (x.conn, x.no) = k) = xs at honce hmem
  match xs with
  | [] => exact List.nil_subperm
  | [x] =>
    obtain ⟨hx, rfl⟩ := hmem x List.mem_cons_self
    obtain ⟨before, after, rfl⟩ := hws x hx
    have hall : ((ws x).map (Entry.mk x.conn x.no)).filter (fun e => (e.conn, e.task) = (x.conn, x.no)) =
        (ws x).map (Entry.mk x.conn x.no) := by
      simp
    rw [List.filter_append, List.filter_append, hall, List.flatMap_append, List.flatMap_append, List.flatMap_map]
    simpa using ((List.sublist_append_right _ _).trans (List.sublist_append_left _ _)).subperm
  | x :: y :: xs =>
    -- Two tasks with one number.
    obtain ⟨-, hx⟩ := hmem x List.mem_cons_self
    obtain ⟨-, hy⟩ := hmem y (List.mem_cons_of_mem _ List.mem_cons_self)
    simp [hx, hy] at honce

/-! ## The tasks that were run -/

def PoolEvent.task? : PoolEvent τ → Option τ
  | .start _ task => some task
  | _ => none

def PoolEvent.conn : PoolEvent τ → Nat
  | .start i _ | .call i _ | .finish i => i
  | .tick _ => 0

theorem startsOn_flatMap {γ : Type} (f : τ → List γ) (i : Nat) (es : List (PoolEvent τ)) :
    (startsOn i es).flatMap f = (es.filter fun e => e.conn = i).flatMap fun e => e.task?.toList.flatMap f := by
  induction es with
  | nil => rfl
  | cons e es ih =>
    unfold startsOn at ih ⊢
    rw [List.filterMap_cons, List.filter_cons]
    cases e with
    | start k task => by_cases hk : k = i <;> simp [PoolEvent.conn, PoolEvent.task?, hk, ih]
    | call k fault => by_cases hk : k = i <;> simp [PoolEvent.conn, PoolEvent.task?, hk, ih]
    | finish k => by_cases hk : k = i <;> simp [PoolEvent.conn, PoolEvent.task?, hk, ih]
    | tick seconds => by_cases hi : 0 = i <;> simp [PoolEvent.conn, PoolEvent.task?, hi, ih]

/-- A worker that was given no task runs none. -/
theorem unstarted {law : Call D → Harm → Bool} {code : τ → Prog (Sql D) ρ} {s : Server D} {q : Pool D τ ρ}
    {es : List (PoolEvent τ)} (hr : run (Pool.step law code) (fresh s) es = some q) {i : Nat} (hi : startsOn i es = []) :
    q.jobs i = none := by
  have htaken := takenBy_run hr i
  rw [hi] at htaken
  simp only [takenBy, fresh, List.filter_nil, List.map_nil, Option.toList_none, List.append_nil,
    List.append_eq_nil_iff, List.map_eq_nil_iff, Option.toList_eq_nil_iff] at htaken
  exact htaken.2

/-- When no task runs, every task that was started is finished, once. -/
theorem finished_perm {law : Call D → Harm → Bool} {code : τ → Prog (Sql D) ρ} {s : Server D} {q : Pool D τ ρ}
    {es : List (PoolEvent τ)} (hr : run (Pool.step law code) (fresh s) es = some q) (hquiet : ∀ i, q.jobs i = none)
    {γ : Type} (f : τ → List γ) :
    (q.finished.flatMap fun x => f x.task).Perm (es.flatMap fun e => e.task?.toList.flatMap f) := by
  refine @perm_of_keys _ _ _ _ _ Finished.conn PoolEvent.conn _ _ _ _ fun i => List.Perm.of_eq ?_
  have htaken := takenBy_run hr i
  simp only [takenBy, hquiet i, fresh, List.filter_nil, List.map_nil, Option.toList_none, List.append_nil,
    List.nil_append] at htaken
  rw [← startsOn_flatMap, ← htaken, List.flatMap_map]

end Lib
