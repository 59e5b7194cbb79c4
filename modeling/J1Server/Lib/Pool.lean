import J1Server.Lib.Runs
import J1Server.Lib.Transaction

/-!
# A pool of workers over one server

Every worker has a connection of its own and runs one task after the other on
it. Between two calls of a task, the other workers go on. `Contract` is what
one task has to keep, whatever the others do; `contract_run` is what then holds
in every state of every run.
-/

namespace Lib

variable {D : Schema} {τ ρ : Type}

/-- A task that a worker is running, and what is left of it. -/
structure Job (D : Schema) (τ ρ : Type) where
  task : τ
  rest : Prog (Sql D) ρ

def Job.result? (j : Job D τ ρ) : Option ρ :=
  match j.rest with
  | .done r => some r
  | .call _ _ => none

/-- A task that is finished, with its worker, its number there and its result. -/
structure Finished (τ ρ : Type) where
  conn : Nat
  no : Nat
  task : τ
  result : ρ

structure Pool (D : Schema) (τ ρ : Type) where
  server : Server D
  jobs : Nat → Option (Job D τ ρ)
  finished : List (Finished τ ρ)

inductive PoolEvent (τ : Type)
  | start (i : Nat) (task : τ)
  | call (i : Nat) (fault : Option Fault)
  | finish (i : Nat)
  | tick (seconds : Nat)

namespace Pool

open Server

/-- One event of a pool whose tasks are the programs `code`. -/
def step (law : Call D → Harm → Bool) (code : τ → Prog (Sql D) ρ) (p : Pool D τ ρ) :
    PoolEvent τ → Option (Pool D τ ρ)
  | .start i task =>
    match p.jobs i with
    | none => some { p with
        server := p.server.beginTask i, jobs := Function.update p.jobs i (some ⟨task, code task⟩) }
    | some _ => none
  | .call i fault =>
    match p.jobs i with
    | some ⟨task, .call c k⟩ => (callUnder law i c fault p.server).map fun r =>
        { p with server := r.2, jobs := Function.update p.jobs i (some ⟨task, k r.1⟩) }
    | _ => none
  | .finish i =>
    match p.jobs i with
    | some ⟨task, .done r⟩ => some { p with
        jobs := Function.update p.jobs i none
        finished := p.finished ++ [⟨i, (p.server.conns i).task, task, r⟩] }
    | _ => none
  | .tick d => some { p with server := p.server.tick d }

def fresh (s : Server D) : Pool D τ ρ := ⟨s, fun _ => none, []⟩

variable {law : Call D → Harm → Bool} {code : τ → Prog (Sql D) ρ} {p q : Pool D τ ρ}

/-! ## What an event can do -/

theorem step_start {i : Nat} {task : τ} (h : p.step law code (.start i task) = some q) :
    p.jobs i = none ∧ q = { p with
      server := p.server.beginTask i, jobs := Function.update p.jobs i (some ⟨task, code task⟩) } := by
  simp only [step] at h
  split at h
  · rename_i hj
    exact ⟨hj, (Option.some.inj h).symm⟩
  · cases h

theorem step_called {i : Nat} {fault : Option Fault} (h : p.step law code (.call i fault) = some q) :
    ∃ task c k o s', p.jobs i = some ⟨task, .call c k⟩ ∧ callUnder law i c fault p.server = some (o, s') ∧
      q = { p with server := s', jobs := Function.update p.jobs i (some ⟨task, k o⟩) } := by
  simp only [step] at h
  split at h
  · rename_i task c k hj
    obtain ⟨⟨o, s'⟩, hp, rfl⟩ := Option.map_eq_some_iff.mp h
    exact ⟨task, c, k, o, s', hj, hp, rfl⟩
  · cases h

theorem step_call {i : Nat} {fault : Option Fault} (h : p.step law code (.call i fault) = some q) :
    ∃ task c k o s', p.jobs i = some ⟨task, .call c k⟩ ∧ Step law i c p.server o s' ∧
      q = { p with server := s', jobs := Function.update p.jobs i (some ⟨task, k o⟩) } := by
  obtain ⟨task, c, k, o, s', hj, hcall, rfl⟩ := step_called h
  exact ⟨task, c, k, o, s', hj, callUnder_step hcall, rfl⟩

theorem step_finish {i : Nat} (h : p.step law code (.finish i) = some q) :
    ∃ task r, p.jobs i = some ⟨task, .done r⟩ ∧ q = { p with
      jobs := Function.update p.jobs i none
      finished := p.finished ++ [⟨i, (p.server.conns i).task, task, r⟩] } := by
  simp only [step] at h
  split at h
  · rename_i task r hj
    exact ⟨task, r, hj, (Option.some.inj h).symm⟩
  · cases h

/-! ## One job -/

theorem step_ends {Q : ρ → Prop} {i : Nat} (hp : ∀ j, p.jobs i = some j → j.rest.Ends Q)
    {e : PoolEvent τ} (hstart : ∀ task, e ≠ .start i task) (h : p.step law code e = some q) :
    ∀ j, q.jobs i = some j → j.rest.Ends Q := by
  have other : ∀ {k} {job : Option (Job D τ ρ)}, i ≠ k → ∀ j,
      Function.update p.jobs k job i = some j → j.rest.Ends Q := by
    intro k job hik j hj
    rw [Function.update_of_ne hik] at hj
    exact hp j hj
  cases e with
  | start k task =>
    obtain ⟨-, rfl⟩ := step_start h
    exact other fun hik => hstart task (by rw [hik])
  | call k fault =>
    obtain ⟨task, c, f, o, s', hjob, -, rfl⟩ := step_call h
    by_cases hik : i = k
    · subst hik
      rintro j hj
      simp only [Function.update_self] at hj
      obtain rfl := Option.some.inj hj
      exact hp _ hjob o
    · exact other hik
  | finish k =>
    obtain ⟨task, r, -, rfl⟩ := step_finish h
    by_cases hik : i = k
    · subst hik
      rintro j hj
      simp only [Function.update_self, reduceCtorEq] at hj
    · exact other hik
  | tick d =>
    obtain rfl : { p with server := p.server.tick d } = q := Option.some.inj h
    exact hp

theorem run_result {Q : ρ → Prop} {i : Nat} (hp : ∀ j, p.jobs i = some j → j.rest.Ends Q)
    {es : List (PoolEvent τ)} (hstart : ∀ task, .start i task ∉ es)
    (hr : run (Pool.step law code) p es = some q) {r : ρ} (hres : (q.jobs i).bind Job.result? = some r) :
    Q r := by
  have hcond : Along (Pool.step law code) (fun _ e => ∀ task, e ≠ .start i task) p es :=
    along_of_forall p fun e he _ task heq => hstart task (heq ▸ he)
  have hends := run_along (P := fun x : Pool D τ ρ => ∀ j, x.jobs i = some j → j.rest.Ends Q)
    (fun _ _ _ h he hs => step_ends h he hs) hp hcond hr
  obtain ⟨⟨task, rest⟩, hjob, hdone⟩ := Option.bind_eq_some_iff.mp hres
  have hrest := hends _ hjob
  cases rest with
  | done a =>
    obtain rfl := Option.some.inj hdone
    exact hrest
  | call c k => cases hdone

/-! ## Jobs on their way -/

/-- The job will end in `Q`: whatever its calls answer, or, if its task is `strict`, where none of them
throws. -/
def OnTrack (strict : τ → Bool) (Q : τ → ρ → Prop) (j : Job D τ ρ) : Prop :=
  if strict j.task then j.rest.Succeeds (Q j.task) else j.rest.Ends (Q j.task)

/-- No call of a `strict` task throws. -/
def Undisturbed (strict : τ → Bool) (p : Pool D τ ρ) (e : PoolEvent τ) : Prop :=
  ∀ i fault, e = .call i fault → ∀ j, p.jobs i = some j → strict j.task = true → fault = none

variable {strict : τ → Bool} {Q : τ → ρ → Prop}

theorem OnTrack.call {task : τ} {i : Nat} {c : Call D} {k : Except SqlException c.Reply → Prog (Sql D) ρ}
    (h : OnTrack strict Q (⟨task, .call c k⟩ : Job D τ ρ)) {fault : Option Fault}
    (hcalm : strict task = true → fault = none) {s s' : Server D} {o : Except SqlException c.Reply}
    (hc : callUnder law i c fault s = some (o, s')) : OnTrack strict Q (⟨task, k o⟩ : Job D τ ρ) := by
  unfold OnTrack at h ⊢
  dsimp only at h ⊢
  split
  · rename_i hstrict
    rw [if_pos hstrict] at h
    rw [hcalm hstrict] at hc
    obtain ⟨r, rfl⟩ := callUnder_none hc
    exact h r
  · rename_i hstrict
    rw [if_neg hstrict] at h
    exact h o

/-- Every job is on its way to `Q`, and every finished task ended there. -/
structure Tracked (strict : τ → Bool) (Q : τ → ρ → Prop) (p : Pool D τ ρ) : Prop where
  jobs : ∀ i j, p.jobs i = some j → OnTrack strict Q j
  finished : ∀ x ∈ p.finished, Q x.task x.result

theorem Tracked.update (h : Tracked strict Q p) {i : Nat} {job : Option (Job D τ ρ)} {s : Server D}
    (hjob : ∀ j, job = some j → OnTrack strict Q j) :
    Tracked strict Q { p with server := s, jobs := Function.update p.jobs i job } := by
  refine ⟨fun k j hk => ?_, h.finished⟩
  dsimp only at hk
  by_cases hik : k = i
  · subst hik
    rw [Function.update_self] at hk
    exact hjob j hk
  · rw [Function.update_of_ne hik] at hk
    exact h.jobs k j hk

theorem Tracked.step (hcode : ∀ task, OnTrack strict Q (⟨task, code task⟩ : Job D τ ρ)) (h : Tracked strict Q p)
    {e : PoolEvent τ} (hcalm : Undisturbed strict p e) (he : p.step law code e = some q) : Tracked strict Q q := by
  cases e with
  | start i task =>
    obtain ⟨-, rfl⟩ := step_start he
    refine h.update ?_
    rintro j ⟨⟩
    exact hcode task
  | call i fault =>
    obtain ⟨task, c, k, o, s', hj, hc, rfl⟩ := step_called he
    refine h.update ?_
    rintro j ⟨⟩
    exact (h.jobs i _ hj).call (hcalm i fault rfl _ hj) hc
  | finish i =>
    obtain ⟨task, r, hj, rfl⟩ := step_finish he
    have hdone : Q task r := by
      have := h.jobs i _ hj
      unfold OnTrack at this
      split at this <;> exact this
    have hleft : Tracked strict Q { p with server := p.server, jobs := Function.update p.jobs i none } :=
      h.update fun _ hj => by cases hj
    refine ⟨hleft.jobs, fun x hx => ?_⟩
    rcases List.mem_append.mp hx with hx | hx
    · exact h.finished x hx
    · obtain rfl := List.mem_singleton.mp hx
      exact hdone
  | tick d =>
    obtain rfl : { p with server := p.server.tick d } = q := Option.some.inj he
    exact ⟨h.jobs, h.finished⟩

theorem tracked_run (hcode : ∀ task, OnTrack strict Q (⟨task, code task⟩ : Job D τ ρ)) {s : Server D}
    {es : List (PoolEvent τ)} (hcalm : Along (Pool.step law code) (Undisturbed strict) (fresh s) es)
    (hr : run (Pool.step law code) (fresh s) es = some q) : Tracked strict Q q :=
  run_along (P := Tracked strict Q) (fun _ _ _ hp he hs => hp.step hcode he hs)
    ⟨by simp [fresh], by simp [fresh]⟩ hcalm hr

/-! ## What becomes of the tasks -/

def startsOn (i : Nat) (es : List (PoolEvent τ)) : List τ :=
  es.filterMap fun
    | .start k task => if k = i then some task else none
    | _ => none

/-- The tasks that a worker has finished, and the one that it runs. -/
def takenBy (p : Pool D τ ρ) (i : Nat) : List τ :=
  (p.finished.filter fun x => x.conn = i).map Finished.task ++ (p.jobs i).toList.map Job.task

theorem takenBy_step {e : PoolEvent τ} (he : p.step law code e = some q) (i : Nat) :
    q.takenBy i = p.takenBy i ++ startsOn i [e] := by
  unfold takenBy startsOn
  cases e with
  | start k task =>
    obtain ⟨hidle, rfl⟩ := step_start he
    by_cases hk : k = i
    · subst hk
      simp [hidle]
    · simp [hk, Function.update_of_ne (Ne.symm hk)]
  | call k fault =>
    obtain ⟨task, c, f, o, s', hj, -, rfl⟩ := step_call he
    by_cases hk : k = i
    · subst hk
      simp [hj]
    · simp [Function.update_of_ne (Ne.symm hk)]
  | finish k =>
    obtain ⟨task, r, hj, rfl⟩ := step_finish he
    by_cases hk : k = i
    · subst hk
      simp [hj]
    · simp [hk, Function.update_of_ne (Ne.symm hk)]
  | tick d =>
    obtain rfl : { p with server := p.server.tick d } = q := Option.some.inj he
    simp

/-- No task is lost, and none is run twice. -/
theorem takenBy_run {es : List (PoolEvent τ)} (hr : run (Pool.step law code) p es = some q) (i : Nat) :
    q.takenBy i = p.takenBy i ++ startsOn i es := by
  induction es generalizing p with
  | nil =>
    obtain rfl := Option.some.inj hr
    simp [startsOn]
  | cons e es ih =>
    obtain ⟨m, hm, hrest⟩ := run_cons_iff.mp hr
    rw [ih hrest, takenBy_step hm, List.append_assoc]
    congr 1
    unfold startsOn
    rw [← List.filterMap_append, List.singleton_append]

/-! ## The numbers of the tasks -/

/-- Finished tasks have numbers of their own. Their workers have reached them, and passed them when they run
a task. -/
structure Numbered (p : Pool D τ ρ) : Prop where
  distinct : (p.finished.map fun x => (x.conn, x.no)).Nodup
  reached : ∀ x ∈ p.finished, x.no ≤ (p.server.conns x.conn).task
  passed : ∀ x ∈ p.finished, (p.jobs x.conn).isSome = true → x.no < (p.server.conns x.conn).task

/-- Task `n` of `i` is over: what is newly pending there is of a later task. -/
def Over (i n : Nat) (s s' : Server D) : Prop :=
  ∀ e ∈ (s'.conns i).pending, e ∈ (s.conns i).pending ∨ n < e.task

theorem numbered_fresh (s : Server D) : Numbered (fresh s : Pool D τ ρ) :=
  ⟨by simp [fresh], by simp [fresh], by simp [fresh]⟩

theorem over_of_eq {i n : Nat} {s s' : Server D} (h : (s'.conns i).pending = (s.conns i).pending) : Over i n s s' :=
  fun _ he => Or.inl (h ▸ he)

theorem Over.trans {i n : Nat} {a b c : Server D} (h : Over i n a b) (h' : Over i n b c) : Over i n a c :=
  fun e he => (h' e he).elim (h e) Or.inr

theorem Numbered.move (h : Numbered p) {i : Nat} {s' : Server D} {job : Option (Job D τ ρ)}
    (hothers : ∀ j, j ≠ i → s'.conns j = p.server.conns j)
    (hpassed : ∀ x ∈ p.finished, x.conn = i → x.no < (s'.conns i).task) :
    Numbered { p with server := s', jobs := Function.update p.jobs i job } where
  distinct := h.distinct
  reached x hx := by
    by_cases hi : x.conn = i
    · simpa [hi] using (hpassed x hx hi).le
    · simpa [hothers _ hi] using h.reached x hx
  passed x hx hjob := by
    by_cases hi : x.conn = i
    · simpa [hi] using hpassed x hx hi
    · simp only [Function.update_of_ne hi] at hjob
      simpa [hothers _ hi] using h.passed x hx hjob

theorem Numbered.finish (h : Numbered p) {i : Nat} (hbusy : (p.jobs i).isSome = true) (task : τ) (r : ρ) :
    Numbered { p with
      jobs := Function.update p.jobs i none
      finished := p.finished ++ [⟨i, (p.server.conns i).task, task, r⟩] } where
  distinct := by
    rw [List.map_append, List.nodup_append]
    refine ⟨h.distinct, by simp, ?_⟩
    rintro k hk k' hk' rfl
    -- A task that was finished before had a smaller number.
    obtain ⟨x, hx, heq⟩ := List.mem_map.mp hk
    obtain rfl := List.mem_singleton.mp hk'
    obtain ⟨rfl, hno⟩ := Prod.mk.inj heq
    exact absurd hno (h.passed x hx hbusy).ne
  reached x hx := by
    rcases List.mem_append.mp hx with hx | hx
    · exact h.reached x hx
    · obtain rfl := List.mem_singleton.mp hx
      exact Nat.le_refl _
  passed x hx hjob := by
    have hne : x.conn ≠ i := by
      rintro rfl
      simp at hjob
    simp only [Function.update_of_ne hne] at hjob
    rcases List.mem_append.mp hx with hx | hx
    · exact h.passed x hx hjob
    · obtain rfl := List.mem_singleton.mp hx
      exact absurd rfl hne

theorem Numbered.step (hD : D.Lawful) (h : Numbered p) {e : PoolEvent τ} (he : p.step law code e = some q) :
    Numbered q ∧ ∀ x ∈ p.finished, x ∈ q.finished ∧ Over x.conn x.no p.server q.server := by
  cases e with
  | start i task =>
    obtain ⟨-, rfl⟩ := step_start he
    refine ⟨h.move (fun j hj => conns_other _ _ _ hj) fun x hx hi => ?_, fun x hx => ⟨hx, over_of_eq ?_⟩⟩
    · subst hi
      simpa using Nat.lt_succ_of_le (h.reached x hx)
    · by_cases hi : x.conn = i
      · simp [hi]
      · rw [Server.beginTask, conns_other _ _ _ hi]
  | call i fault =>
    obtain ⟨task, c, k, o, s', hj, hs, rfl⟩ := step_call he
    have hpassed : ∀ x ∈ p.finished, x.conn = i → x.no < (p.server.conns i).task := by
      rintro x hx rfl
      exact h.passed x hx (by rw [hj, Option.isSome_some])
    refine ⟨h.move (hs.moved hD).others fun x hx hi => ?_, fun x hx => ⟨hx, ?_⟩⟩
    · rw [hs.task]
      exact hpassed x hx hi
    · by_cases hi : x.conn = i
      · intro w hw
        rw [hi] at hw ⊢
        rcases hs.pending hw with hold | ⟨-, -, -, htask, -⟩
        · exact Or.inl hold
        · exact Or.inr (htask ▸ hpassed x hx hi)
      · exact over_of_eq (by rw [(hs.moved hD).others _ hi])
  | finish i =>
    obtain ⟨task, r, hj, rfl⟩ := step_finish he
    have hbusy : (p.jobs i).isSome = true := by rw [hj, Option.isSome_some]
    exact ⟨h.finish hbusy task r, fun x hx => ⟨List.mem_append_left _ hx, over_of_eq rfl⟩⟩
  | tick d =>
    obtain rfl : { p with server := p.server.tick d } = q := Option.some.inj he
    exact ⟨⟨h.distinct, h.reached, h.passed⟩, fun x hx => ⟨hx, over_of_eq rfl⟩⟩

theorem numbered_run (hD : D.Lawful) (h : Numbered p) {es : List (PoolEvent τ)}
    (hr : run (Pool.step law code) p es = some q) :
    Numbered q ∧ ∀ x ∈ p.finished, x ∈ q.finished ∧ Over x.conn x.no p.server q.server := by
  induction es generalizing p with
  | nil =>
    obtain rfl := Option.some.inj hr
    exact ⟨h, fun x hx => ⟨hx, over_of_eq rfl⟩⟩
  | cons e es ih =>
    obtain ⟨m, hm, hrest⟩ := run_cons_iff.mp hr
    obtain ⟨hnumbered, hstep⟩ := h.step hD hm
    obtain ⟨hend, hlater⟩ := ih hnumbered hrest
    refine ⟨hend, fun x hx => ?_⟩
    obtain ⟨hx', hover⟩ := hstep x hx
    obtain ⟨hx'', hover'⟩ := hlater x hx'
    exact ⟨hx'', hover.trans hover'⟩

end Pool

/-! ## Contracts -/

open Server Pool

/-- What the other workers do around a call of `i`: each keeps to `G`. -/
def Others (G : Server D → Server D → Prop) (i : Nat) (s s' : Server D) : Prop := Rely i s s' ∧ G s s'

/-- A task started under `Pre` keeps every call in `G` and ends in `Done`, on a connection that is
`Idle` again. `Inv` is what `G` keeps of the server as a whole. -/
structure Contract (law : Call D → Harm → Bool) (code : τ → Prog (Sql D) ρ)
    (Pre : Server D → Nat → τ → Prop) (Inv : Server D → Prop) (G : Server D → Server D → Prop)
    (Idle : Nat → Server D → Prop) (Done : Nat → Nat → τ → ρ → Server D → Prop) : Prop where
  lawful : D.Lawful
  refl : ∀ s, G s s
  trans : ∀ a b c, G a b → G b c → G a c
  tick : ∀ s d, G s (s.tick d)
  begin_task : ∀ s i, G s (s.beginTask i)
  inv : ∀ s s', Inv s → G s s' → Inv s'
  idle : ∀ i s s', Idle i s → Others G i s s' → Idle i s'
  done : ∀ i n task r s s', Done i n task r s → G s s' → Over i n s s' → Done i n task r s'
  spec : ∀ i task s, s.WF → Inv s → Idle i s → Pre s i task →
    Safe (Others G i) (Step law i) G (code task)
      (fun _ r s' => Idle i s' ∧ Done i ((s.conns i).task + 1) task r s') (s.beginTask i)

section Contract

variable {law : Call D → Harm → Bool} {code : τ → Prog (Sql D) ρ}
  {Pre : Server D → Nat → τ → Prop} {Inv : Server D → Prop} {G : Server D → Server D → Prop}
  {Idle : Nat → Server D → Prop} {Done : Nat → Nat → τ → ρ → Server D → Prop}

/-- A worker is idle, or what is left of its task keeps to the contract. -/
def Working (law : Call D → Harm → Bool) (G : Server D → Server D → Prop)
    (Idle : Nat → Server D → Prop) (Done : Nat → Nat → τ → ρ → Server D → Prop) (s : Server D)
    (i : Nat) : Option (Job D τ ρ) → Prop
  | none => Idle i s
  | some ⟨task, rest⟩ => Safe (Others G i) (Step law i) G rest
      (fun _ r s' => Idle i s' ∧ Done i (s.conns i).task task r s') s

/-- Every worker keeps to the contract, and every finished task is `Done`. -/
structure Upheld (law : Call D → Harm → Bool) (Inv : Server D → Prop)
    (G : Server D → Server D → Prop) (Idle : Nat → Server D → Prop)
    (Done : Nat → Nat → τ → ρ → Server D → Prop) (p : Pool D τ ρ) : Prop where
  wf : p.server.WF
  inv : Inv p.server
  working : ∀ i, Working law G Idle Done p.server i (p.jobs i)
  numbered : Numbered p
  done : ∀ x ∈ p.finished, Done x.conn x.no x.task x.result p.server

theorem upheld_fresh {s : Server D} (hw : s.WF) (hinv : Inv s) (hidle : ∀ i, Idle i s) :
    Upheld law Inv G Idle Done (fresh s : Pool D τ ρ) :=
  ⟨hw, hinv, hidle, numbered_fresh s, by simp [fresh]⟩

theorem Others.refl (hc : Contract law code Pre Inv G Idle Done) (i : Nat) (s : Server D) :
    Others G i s s := ⟨Rely.refl i s, hc.refl s⟩

theorem Others.trans (hc : Contract law code Pre Inv G Idle Done) {i : Nat} {a b c : Server D}
    (h : Others G i a b) (h' : Others G i b c) : Others G i a c :=
  ⟨h.1.trans h'.1, hc.trans _ _ _ h.2 h'.2⟩

theorem Working.others (hc : Contract law code Pre Inv G Idle Done) {s s' : Server D} {i : Nat}
    {job : Option (Job D τ ρ)} (h : Working law G Idle Done s i job) (ho : Others G i s s') :
    Working law G Idle Done s' i job := by
  cases job with
  | none => exact hc.idle i s s' h ho
  | some j =>
    have hconn : s'.conns i = s.conns i := ho.1.conn
    simp only [Working, hconn]
    exact Safe.interfere h (fun _ _ _ => Others.trans hc) ho

theorem moved_beginTask (i : Nat) (s : Server D) : Moved i s (s.beginTask i) :=
  ⟨fun _ hj => conns_other _ _ _ hj, fun _ _ _ => Iff.rfl, rfl, le_refl _, Or.inl ⟨rfl, rfl⟩⟩

/-- A worker moves on, within `G`; the others keep to the contract. -/
theorem Upheld.move (hc : Contract law code Pre Inv G Idle Done)
    (h : Upheld law Inv G Idle Done p) {i : Nat} {s' : Server D} {job : Option (Job D τ ρ)}
    (hm : Moved i p.server s') (hw : s'.WF) (hG : G p.server s')
    (hnumbered : Numbered { p with server := s', jobs := Function.update p.jobs i job })
    (hover : ∀ x ∈ p.finished, Over x.conn x.no p.server s') (hjob : Working law G Idle Done s' i job) :
    Upheld law Inv G Idle Done { p with server := s', jobs := Function.update p.jobs i job } where
  wf := hw
  inv := hc.inv _ _ h.inv hG
  numbered := hnumbered
  working j := by
    by_cases hj : j = i
    · subst hj
      simpa using hjob
    · simp only [Function.update_of_ne hj]
      exact (h.working j).others hc ⟨hm.rely hj h.wf hw, hG⟩
  done x hx := hc.done _ _ _ _ _ _ (h.done x hx) hG (hover x hx)

theorem Upheld.step (hc : Contract law code Pre Inv G Idle Done)
    (h : Upheld law Inv G Idle Done p) {e : PoolEvent τ}
    (hallowed : ∀ i task, e = .start i task → Pre p.server i task)
    (he : p.step law code e = some q) : Upheld law Inv G Idle Done q ∧ G p.server q.server := by
  obtain ⟨hnumbered, hkept⟩ := h.numbered.step hc.lawful he
  cases e with
  | start i task =>
    obtain ⟨hj, rfl⟩ := step_start he
    have hidle := h.working i
    rw [hj] at hidle
    refine ⟨h.move hc (moved_beginTask i _) (h.wf.beginTask i) (hc.begin_task _ i) hnumbered
      (fun x hx => (hkept x hx).2) ?_, hc.begin_task _ i⟩
    have := hc.spec i task p.server h.wf h.inv hidle (hallowed i task rfl)
    simpa [Working] using this
  | call i fault =>
    obtain ⟨task, c, k, o, s', hj, hs, rfl⟩ := step_call he
    have hjob := h.working i
    rw [hj] at hjob
    obtain ⟨hG, hrest⟩ := hjob _ (Others.refl hc i _) o s' hs
    refine ⟨h.move hc (hs.moved hc.lawful) (hs.wf hc.lawful h.wf) hG hnumbered (fun x hx => (hkept x hx).2) ?_, hG⟩
    simp only [Working, hs.task]
    exact hrest
  | finish i =>
    obtain ⟨task, r, hj, rfl⟩ := step_finish he
    have hjob := h.working i
    rw [hj] at hjob
    obtain ⟨hidle, hdone⟩ := hjob _ (Others.refl hc i _)
    refine ⟨⟨h.wf, h.inv, fun j => ?_, hnumbered, fun x hx => ?_⟩, hc.refl _⟩
    · by_cases hji : j = i
      · subst hji
        simpa [Working] using hidle
      · simpa [Function.update_of_ne hji] using h.working j
    · rcases List.mem_append.mp hx with hx | hx
      · exact h.done x hx
      · obtain rfl := List.mem_singleton.mp hx
        exact hdone
  | tick d =>
    obtain rfl : { p with server := p.server.tick d } = q := Option.some.inj he
    refine ⟨⟨h.wf.tick d, hc.inv _ _ h.inv (hc.tick _ d), fun i => ?_, hnumbered, fun x hx => ?_⟩, hc.tick _ d⟩
    · exact (h.working i).others hc ⟨Rely.tick i _ d, hc.tick _ d⟩
    · exact hc.done _ _ _ _ _ _ (h.done x hx) (hc.tick _ d) (over_of_eq rfl)

/-- Another contract takes over. -/
theorem Upheld.mono {Inv' : Server D → Prop} {Done' : Nat → Nat → τ → ρ → Server D → Prop}
    (h : Upheld law Inv G Idle Done p) (hinv : Inv' p.server)
    (hfinished : ∀ x ∈ p.finished,
      Done x.conn x.no x.task x.result p.server → Done' x.conn x.no x.task x.result p.server)
    (hjobs : ∀ i task r s, Done i (p.server.conns i).task task r s → Done' i (p.server.conns i).task task r s) :
    Upheld law Inv' G Idle Done' p := by
  refine ⟨h.wf, hinv, fun i => ?_, h.numbered, fun x hx => hfinished x hx (h.done x hx)⟩
  have hworking := h.working i
  cases hj : p.jobs i with
  | none =>
    rw [hj] at hworking
    exact hworking
  | some job =>
    rw [hj] at hworking
    refine Safe.mono hworking ?_
    rintro tr r s ⟨hidle, hdone⟩
    exact ⟨hidle, hjobs i _ r s hdone⟩

/-- The tasks that a run starts are admitted where they start. -/
def Admitted (Pre : Server D → Nat → τ → Prop) (p : Pool D τ ρ) (e : PoolEvent τ) : Prop :=
  ∀ i task, e = .start i task → Pre p.server i task

/-- What holds in every state of every run. -/
theorem contract_run (hc : Contract law code Pre Inv G Idle Done)
    (h : Upheld law Inv G Idle Done p) {es : List (PoolEvent τ)}
    (hallowed : Along (Pool.step law code) (Admitted Pre) p es)
    (hr : run (Pool.step law code) p es = some q) :
    Upheld law Inv G Idle Done q ∧ G p.server q.server :=
  run_along (P := fun x => Upheld law Inv G Idle Done x ∧ G p.server x.server)
    (fun _ _ _ hp he hs =>
      have hstep := hp.1.step hc he hs
      ⟨hstep.1, hc.trans _ _ _ hp.2 hstep.2⟩)
    ⟨h, hc.refl _⟩ hallowed hr

/-- A contract for tasks that wrap other tasks, and their results. -/
theorem Contract.wrap {τ' ρ' : Type} {f : τ' → τ} {g : τ' → ρ → ρ'} {Done' : Nat → Nat → τ' → ρ' → Server D → Prop}
    (hc : Contract law code Pre Inv G Idle Done)
    (hdone : ∀ i n task r s, Done i n (f task) r s → Done' i n task (g task r) s)
    (hgrow : ∀ i n task r s s', Done' i n task r s → G s s' → Over i n s s' → Done' i n task r s') :
    Contract law (fun task => (code (f task)).bind fun r => .done (g task r)) (fun s i task => Pre s i (f task)) Inv G
      Idle Done' where
  lawful := hc.lawful
  refl := hc.refl
  trans := hc.trans
  tick := hc.tick
  begin_task := hc.begin_task
  inv := hc.inv
  idle := hc.idle
  done := hgrow
  spec i task s hw hinv hidle hpre := by
    refine Safe.bind ((hc.spec i (f task) s hw hinv hidle hpre).mono ?_) (Others.refl hc i)
    rintro tr r s₁ ⟨hi, hd⟩ s₂ ho
    exact ⟨hc.idle i s₁ s₂ hi ho, hgrow _ _ _ _ _ _ (hdone _ _ _ _ _ hd) ho.2 (over_of_eq (by rw [ho.1.conn]))⟩

end Contract

end Lib
