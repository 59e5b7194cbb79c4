import Mathlib.Data.List.Induction

/-!
# Runs of a partial step function

A machine is `step : σ → ε → Option σ`: an event either happens, or cannot.
A run is a list of events that all happen, one after the other.
-/

namespace Lib

variable {σ ε : Type*} {step : σ → ε → Option σ}

def run (step : σ → ε → Option σ) (s : σ) (es : List ε) : Option σ := es.foldlM step s

@[simp] theorem run_nil (s : σ) : run step s [] = some s := rfl

@[simp] theorem run_cons (s : σ) (e : ε) (es : List ε) :
    run step s (e :: es) = (step s e).bind fun s' => run step s' es := rfl

theorem run_cons_iff {s t : σ} {e : ε} {es : List ε} :
    run step s (e :: es) = some t ↔ ∃ s', step s e = some s' ∧ run step s' es = some t := by
  simp [Option.bind_eq_some_iff]

theorem run_append {s t : σ} {es fs : List ε} :
    run step s (es ++ fs) = some t ↔ ∃ m, run step s es = some m ∧ run step m fs = some t := by
  induction es generalizing s with
  | nil => simp
  | cons e es ih =>
    simp only [List.cons_append, run_cons_iff, ih]
    constructor
    · rintro ⟨s', hs, m, hm, ht⟩
      exact ⟨m, ⟨s', hs, hm⟩, ht⟩
    · rintro ⟨m, ⟨s', hs, hm⟩, ht⟩
      exact ⟨s', hs, m, hm, ht⟩

/-- What holds of every beginning of a run and of the state it leads to. -/
theorem run_recorded {P : List ε → σ → Prop} {s : σ} (hs : P [] s)
    (hstep : ∀ sofar p e q, run step s sofar = some p → P sofar p → step p e = some q → P (sofar ++ [e]) q)
    {es : List ε} {t : σ} (h : run step s es = some t) : P es t := by
  induction es using List.reverseRecOn generalizing t with
  | nil =>
    obtain rfl := Option.some.inj h
    exact hs
  | append_singleton es e ih =>
    obtain ⟨m, hm, hlast⟩ := run_append.mp h
    obtain ⟨t', ht', hnil⟩ := run_cons_iff.mp hlast
    obtain rfl := Option.some.inj hnil
    exact hstep es m e t' hm (ih hm) ht'

/-- `cond` holds at every step of a run, of the state before the step and of its event. -/
def Along (step : σ → ε → Option σ) (cond : σ → ε → Prop) : σ → List ε → Prop
  | _, [] => True
  | s, e :: es => cond s e ∧ ∀ s', step s e = some s' → Along step cond s' es

theorem along_cons_iff {cond : σ → ε → Prop} {s s' : σ} {e : ε} {es : List ε} (h : step s e = some s') :
    Along step cond s (e :: es) ↔ cond s e ∧ Along step cond s' es := by
  simp [Along, h]

theorem along_stuck_iff {cond : σ → ε → Prop} {s : σ} {e : ε} {es : List ε} (h : step s e = none) :
    Along step cond s (e :: es) ↔ cond s e := by
  simp [Along, h]

instance decidableAlong (step : σ → ε → Option σ) (cond : σ → ε → Prop) [∀ s e, Decidable (cond s e)] :
    (s : σ) → (es : List ε) → Decidable (Along step cond s es)
  | _, [] => isTrue trivial
  | s, e :: es =>
    match h : step s e with
    | none => decidable_of_iff _ (along_stuck_iff h).symm
    | some s' =>
      have := decidableAlong step cond s' es
      decidable_of_iff _ (along_cons_iff h).symm

theorem along_true (s : σ) (es : List ε) : Along step (fun _ _ => True) s es := by
  induction es generalizing s with
  | nil => trivial
  | cons e es ih => exact ⟨trivial, fun s' _ => ih s'⟩

theorem along_of_forall {cond : σ → ε → Prop} (s : σ) {es : List ε} (h : ∀ e ∈ es, ∀ s, cond s e) :
    Along step cond s es := by
  induction es generalizing s with
  | nil => trivial
  | cons e es ih => exact ⟨h e (by simp) s, fun s' _ => ih s' fun f hf => h f (by simp [hf])⟩

theorem along_congr {P Q : σ → ε → Prop} (h : ∀ s e, P s e ↔ Q s e) (s : σ) (es : List ε) :
    Along step P s es ↔ Along step Q s es := by
  have heq : P = Q := funext fun s => funext fun e => propext (h s e)
  rw [heq]

/-- Two conditions that agree wherever a run can be hold along the same runs. -/
theorem along_congr_under {I : σ → Prop} {P Q : σ → ε → Prop}
    (hkeep : ∀ s e s', I s → step s e = some s' → I s') (h : ∀ s e, I s → (P s e ↔ Q s e)) {s : σ}
    (hs : I s) (es : List ε) : Along step P s es ↔ Along step Q s es := by
  induction es generalizing s with
  | nil => exact Iff.rfl
  | cons e es ih =>
    refine and_congr (h s e hs) (forall_congr' fun s' => ?_)
    exact imp_congr_right fun hs' => ih (hkeep s e s' hs hs')

theorem along_append {cond : σ → ε → Prop} {s : σ} {es fs : List ε} (h : Along step cond s (es ++ fs)) :
    Along step cond s es := by
  induction es generalizing s with
  | nil => trivial
  | cons e es ih => exact ⟨h.1, fun s' hs => ih (h.2 s' hs)⟩

/-- What every step under `cond` preserves, every run under `cond` preserves. -/
theorem run_along {P : σ → Prop} {cond : σ → ε → Prop}
    (hstep : ∀ s e s', P s → cond s e → step s e = some s' → P s') {s t : σ} {es : List ε}
    (hs : P s) (hc : Along step cond s es) (h : run step s es = some t) : P t := by
  induction es generalizing s with
  | nil => cases h; exact hs
  | cons e es ih =>
    obtain ⟨s', hs', h'⟩ := run_cons_iff.mp h
    exact ih (hstep s e s' hs hc.1 hs') (hc.2 s' hs') h'

/-- What every step preserves, every run preserves. -/
theorem run_invariant {P : σ → Prop} (hstep : ∀ s e s', P s → step s e = some s' → P s')
    {s t : σ} {es : List ε} (hs : P s) (h : run step s es = some t) : P t :=
  run_along (fun s e s' hp _ => hstep s e s' hp) hs (along_true s es) h

theorem along_last {cond : σ → ε → Prop} {s m : σ} {es : List ε} {e : ε} (h : Along step cond s (es ++ [e]))
    (hm : run step s es = some m) : cond m e := by
  induction es generalizing s with
  | nil =>
    obtain rfl := Option.some.inj hm
    exact h.1
  | cons f es ih =>
    obtain ⟨s', hs', hm'⟩ := run_cons_iff.mp hm
    exact ih (h.2 s' hs') hm'

/-- What holds of every beginning of a run under `cond` and of the state it leads to. -/
theorem run_recorded_along {P : List ε → σ → Prop} {cond : σ → ε → Prop} {s : σ} (hs : P [] s)
    (hstep : ∀ sofar p e q, P sofar p → cond p e → step p e = some q → P (sofar ++ [e]) q)
    {es : List ε} {t : σ} (hc : Along step cond s es) (h : run step s es = some t) : P es t := by
  induction es using List.reverseRecOn generalizing t with
  | nil =>
    obtain rfl := Option.some.inj h
    exact hs
  | append_singleton es e ih =>
    obtain ⟨m, hm, hlast⟩ := run_append.mp h
    obtain ⟨t', ht', hnil⟩ := run_cons_iff.mp hlast
    obtain rfl := Option.some.inj hnil
    exact hstep es m e t' (ih (along_append hc) hm) (along_last hc hm) ht'

/-- What is good in every state of a run: steps under `cond` keep it so, and a step outside `cond` can
happen and breaks it. -/
theorem always_iff_along {I good : σ → Prop} {cond : σ → ε → Prop} (hgood : ∀ s, I s → good s)
    (hkeep : ∀ s e s', I s → cond s e → step s e = some s' → I s')
    (hbreak : ∀ s e, I s → ¬cond s e → ∃ s', step s e = some s' ∧ ¬good s') {s : σ} (hs : I s)
    (es : List ε) :
    (∀ sofar, sofar <+: es → ∀ t, run step s sofar = some t → good t) ↔ Along step cond s es := by
  constructor
  · intro hall
    induction es generalizing s with
    | nil => trivial
    | cons e es ih =>
      have hcond : cond s e := by
        by_contra hnot
        obtain ⟨s', hs', hbad⟩ := hbreak s e hs hnot
        refine hbad (hall [e] ⟨es, rfl⟩ s' ?_)
        simp [hs']
      refine ⟨hcond, fun s' hs' => ih (hkeep s e s' hs hcond hs') ?_⟩
      intro sofar hsofar t ht
      refine hall (e :: sofar) ((List.prefix_cons_inj e).mpr hsofar) t ?_
      exact run_cons_iff.mpr ⟨s', hs', ht⟩
  · rintro halong sofar ⟨rest, rfl⟩ t ht
    exact hgood t (run_along hkeep hs (along_append halong) ht)

/-- A preorder that every step respects relates the two ends of a run. -/
theorem run_related {R : σ → σ → Prop} (hrefl : ∀ s, R s s)
    (htrans : ∀ a b c, R a b → R b c → R a c) (hstep : ∀ s e s', step s e = some s' → R s s')
    {s t : σ} {es : List ε} (h : run step s es = some t) : R s t :=
  run_invariant (P := fun x => R s x) (fun a e b hab hb => htrans _ _ _ hab (hstep a e b hb))
    (hrefl s) h

/-- A machine whose every step another one follows in some steps: its runs are followed too. -/
theorem run_simulated {σ' ε' : Type*} {step' : σ' → ε' → Option σ'} {R : σ → σ' → Prop}
    (hstep : ∀ s e t s', R s s' → step s e = some t → ∃ es' t', run step' s' es' = some t' ∧ R t t')
    {s t : σ} {s' : σ'} {es : List ε} (hs : R s s') (h : run step s es = some t) :
    ∃ es' t', run step' s' es' = some t' ∧ R t t' := by
  refine run_invariant (P := fun x => ∃ es' x', run step' s' es' = some x' ∧ R x x') ?_ ⟨[], s', rfl, hs⟩ h
  rintro x e y ⟨es', x', hx', hx⟩ he
  obtain ⟨fs', y', hy', hy⟩ := hstep x e y x' hx he
  exact ⟨es' ++ fs', y', run_append.mpr ⟨x', hx', hy'⟩, hy⟩

/-! ## Moments of a run -/

/-- The run of `sofar` was in the state `m` after `es`. -/
structure Moment (step : σ → ε → Option σ) (s : σ) (sofar es : List ε) (m : σ) : Prop where
  before : es <+: sofar
  reached : run step s es = some m

namespace Moment

variable {s m m' t : σ} {sofar later es es' : List ε}

theorem present (h : run step s es = some t) : Moment step s es es t := ⟨List.prefix_rfl, h⟩

theorem mono (h : Moment step s sofar es m) (hlater : sofar <+: later) : Moment step s later es m :=
  ⟨h.before.trans hlater, h.reached⟩

/-- From a moment of a run, the run goes on to its end. -/
theorem rest (h : Moment step s sofar es m) (hr : run step s sofar = some t) : ∃ fs, run step m fs = some t := by
  obtain ⟨fs, rfl⟩ := h.before
  obtain ⟨m', hm', ht⟩ := run_append.mp hr
  obtain rfl := Option.some.inj (h.reached.symm.trans hm')
  exact ⟨fs, ht⟩

/-- Of two moments, the run leads from the earlier one to the other. -/
theorem between (h : Moment step s sofar es m) (h' : Moment step s sofar es' m') (hle : es <+: es') :
    ∃ fs, run step m fs = some m' :=
  rest ⟨hle, h.reached⟩ h'.reached

end Moment

end Lib
