import J1Server.Lib.Runs
import Mathlib.Data.List.Chain
import Mathlib.Data.List.DropRight

/-!
# Pacing

One request at a time, and no two within `gap`. A mark asks for the next request as soon as the gap allows;
without a mark it is due after `interval`.
-/

namespace Lib

structure Pacing where
  gap : Int
  interval : Int
  gap_le : gap ≤ interval

/-- `target` is when the next request is due, if that is settled. -/
structure Pacer where
  inFlight : Bool
  dirty : Bool
  lastAt : Int
  target : Option Int
  deriving DecidableEq

inductive PacerEvent
  | mark
  | request
  | answer
  | giveUp
  deriving DecidableEq

namespace PacerEvent

/-- No request is in flight after it. -/
def ends : PacerEvent → Bool
  | .answer | .giveUp => true
  | .mark | .request => false

end PacerEvent

abbrev Paced := Int × PacerEvent

namespace Pacer

/-- Two targets make the earlier one. -/
def book (p : Pacer) (target : Int) : Pacer := { p with target := some (p.target.elim target (min target)) }

/-- The earliest time from `now` on that the gap allows. -/
def soon (g : Pacing) (p : Pacer) (now : Int) : Int := max now (p.lastAt + g.gap)

def step (g : Pacing) (p : Pacer) : Paced → Option Pacer
  | (now, .mark) =>
    let marked := { p with dirty := true }
    some (if p.inFlight then marked else marked.book (p.soon g now))
  | (now, .answer) =>
    if p.inFlight then
      some (book { p with inFlight := false, dirty := false } (if p.dirty then p.soon g now else now + g.interval))
    else none
  | (now, .giveUp) => if p.inFlight then some (book { p with inFlight := false } (now + g.interval)) else none
  | (now, .request) =>
    p.target.bind fun target => if target ≤ now then some ⟨true, false, now, none⟩ else none

variable {g : Pacing} {p q : Pacer} {now : Int}

/-- What is due is not due within the gap, and nothing is due while a request is in flight. -/
structure Spaced (g : Pacing) (p : Pacer) : Prop where
  idle : p.inFlight = true → p.target = none
  gap : ∀ target, p.target = some target → p.lastAt + g.gap ≤ target

/-! ## One step -/

theorem le_soon (g : Pacing) (p : Pacer) (now : Int) : p.lastAt + g.gap ≤ p.soon g now := Int.le_max_right _ _

theorem book_target (p : Pacer) (target : Int) :
    ∃ booked, (p.book target).target = some booked ∧ booked ≤ target ∧
      (∀ old, p.target = some old → booked ≤ old) ∧ (booked = target ∨ p.target = some booked) := by
  cases h : p.target with
  | none => exact ⟨target, by simp [book, h], Int.le_refl _, by simp, Or.inl rfl⟩
  | some old =>
    refine ⟨min target old, by simp [book, h], Int.min_le_left _ _, ?_, ?_⟩
    · rintro _ ⟨⟩
      exact Int.min_le_right _ _
    · rcases Int.le_total target old with hle | hle
      · exact Or.inl (Int.min_eq_left hle)
      · exact Or.inr (by rw [Int.min_eq_right hle])

theorem book_armed (p : Pacer) (target : Int) : (p.book target).target ≠ none := Option.some_ne_none _

theorem book_spaced {target : Int} (hidle : p.inFlight = false)
    (hgap : ∀ old, p.target = some old → p.lastAt + g.gap ≤ old) (hle : p.lastAt + g.gap ≤ target) :
    (p.book target).Spaced g where
  idle hflight := by
    rw [show (p.book target).inFlight = p.inFlight from rfl, hidle] at hflight
    cases hflight
  gap booked hbooked := by
    obtain ⟨target', htarget', -, -, hcases⟩ := p.book_target target
    obtain rfl := Option.some.inj (htarget'.symm.trans hbooked)
    rcases hcases with rfl | hold
    · exact hle
    · exact hgap _ hold

theorem step_mark_inFlight (h : p.inFlight = true) : step g p (now, .mark) = some { p with dirty := true } :=
  congrArg some (if_pos h)

theorem step_mark_idle (h : p.inFlight = false) :
    step g p (now, .mark) = some (book { p with dirty := true } (p.soon g now)) :=
  congrArg some (if_neg (ne_true_of_eq_false h))

theorem step_answer (h : p.inFlight = true) :
    step g p (now, .answer) =
      some (book { p with inFlight := false, dirty := false } (if p.dirty then p.soon g now else now + g.interval)) :=
  if_pos h

theorem step_giveUp (h : p.inFlight = true) :
    step g p (now, .giveUp) = some (book { p with inFlight := false } (now + g.interval)) :=
  if_pos h

theorem step_request {target : Int} (h : p.target = some target) (hdue : target ≤ now) :
    step g p (now, .request) = some ⟨true, false, now, none⟩ := by
  simp [step, h, hdue]

theorem step_cases {e : PacerEvent} (hs : step g p (now, e) = some q) :
    (e = .mark ∧ p.inFlight = true ∧ q = { p with dirty := true }) ∨
    (e = .mark ∧ p.inFlight = false ∧ q = book { p with dirty := true } (p.soon g now)) ∨
    (e = .answer ∧ p.inFlight = true ∧
      q = book { p with inFlight := false, dirty := false } (if p.dirty then p.soon g now else now + g.interval)) ∨
    (e = .giveUp ∧ p.inFlight = true ∧ q = book { p with inFlight := false } (now + g.interval)) ∨
    (e = .request ∧ ∃ target, p.target = some target ∧ target ≤ now ∧ q = ⟨true, false, now, none⟩) := by
  cases e with
  | mark =>
    obtain rfl := Option.some.inj hs
    cases hflight : p.inFlight with
    | true => exact Or.inl ⟨rfl, rfl, by simp⟩
    | false => exact Or.inr (Or.inl ⟨rfl, rfl, by simp⟩)
  | answer =>
    obtain ⟨hflight, heq⟩ := Option.ite_none_right_eq_some.mp hs
    exact Or.inr (Or.inr (Or.inl ⟨rfl, hflight, (Option.some.inj heq).symm⟩))
  | giveUp =>
    obtain ⟨hflight, heq⟩ := Option.ite_none_right_eq_some.mp hs
    exact Or.inr (Or.inr (Or.inr (Or.inl ⟨rfl, hflight, (Option.some.inj heq).symm⟩)))
  | request =>
    right; right; right; right
    refine ⟨rfl, ?_⟩
    obtain ⟨target, htarget, hs⟩ := Option.bind_eq_some_iff.mp hs
    obtain ⟨hdue, heq⟩ := Option.ite_none_right_eq_some.mp hs
    exact ⟨target, htarget, hdue, (Option.some.inj heq).symm⟩

theorem step_spaced {e : PacerEvent} (h : p.Spaced g) (hnow : p.lastAt ≤ now) (hs : step g p (now, e) = some q) :
    q.Spaced g := by
  have hinterval : p.lastAt + g.gap ≤ now + g.interval := by
    have := g.gap_le
    omega
  obtain ⟨-, hflight, rfl⟩ | ⟨-, hidle, rfl⟩ | ⟨-, hflight, rfl⟩ | ⟨-, hflight, rfl⟩ | ⟨-, target, -, -, rfl⟩ :=
    step_cases hs
  · exact ⟨h.idle, h.gap⟩
  · exact book_spaced hidle h.gap (p.le_soon g now)
  · refine book_spaced rfl h.gap ?_
    split
    · exact p.le_soon g now
    · exact hinterval
  · exact book_spaced rfl h.gap hinterval
  · exact ⟨fun _ => rfl, by rintro _ ⟨⟩⟩

theorem step_lastAt {e : PacerEvent} (h : p.Spaced g) (hs : step g p (now, e) = some q) :
    if e = .request then q.lastAt = now ∧ p.lastAt + g.gap ≤ now else q.lastAt = p.lastAt := by
  obtain ⟨rfl, -, rfl⟩ | ⟨rfl, -, rfl⟩ | ⟨rfl, -, rfl⟩ | ⟨rfl, -, rfl⟩ | ⟨rfl, target, htarget, hdue, rfl⟩ :=
    step_cases hs
  · rfl
  · rfl
  · rfl
  · rfl
  · exact ⟨rfl, Int.le_trans (h.gap target htarget) hdue⟩

/-! ## Runs

The times of a run do not decrease. -/

theorem times_tail {x : Paced} {h : List Paced} (hs : step g p x = some q)
    (htimes : (p.lastAt :: (x :: h).map Prod.fst).Pairwise (· ≤ ·)) :
    p.lastAt ≤ x.1 ∧ (q.lastAt :: h.map Prod.fst).Pairwise (· ≤ ·) := by
  obtain ⟨now, e⟩ := x
  simp only [List.map_cons, List.pairwise_cons, List.mem_cons, forall_eq_or_imp] at htimes ⊢
  obtain ⟨⟨hnow, hlast⟩, hfrom, htail⟩ := htimes
  refine ⟨hnow, fun t ht => ?_, htail⟩
  obtain ⟨-, -, rfl⟩ | ⟨-, -, rfl⟩ | ⟨-, -, rfl⟩ | ⟨-, -, rfl⟩ | ⟨-, target, -, -, rfl⟩ := step_cases hs
  · exact hlast t ht
  · exact hlast t ht
  · exact hlast t ht
  · exact hlast t ht
  · exact hfrom t ht

theorem run_spaced {h : List Paced} (hp : p.Spaced g) (htimes : (p.lastAt :: h.map Prod.fst).Pairwise (· ≤ ·))
    (hrun : run (step g) p h = some q) : q.Spaced g ∧ ∀ now, p.lastAt ≤ now → (∀ x ∈ h, x.1 ≤ now) → q.lastAt ≤ now := by
  induction h generalizing p with
  | nil =>
    obtain rfl := Option.some.inj hrun
    exact ⟨hp, fun _ hnow _ => hnow⟩
  | cons x h ih =>
    obtain ⟨p', hs, hrest⟩ := run_cons_iff.mp hrun
    obtain ⟨hnow, htail⟩ := times_tail hs htimes
    obtain ⟨hq, hlast⟩ := ih (step_spaced hp hnow hs) htail hrest
    refine ⟨hq, fun now hle hall => hlast now ?_ fun y hy => hall y (List.mem_cons_of_mem _ hy)⟩
    have hstep := step_lastAt hp hs
    split at hstep
    · rw [hstep.1]
      exact hall x List.mem_cons_self
    · rwa [hstep]

/-- What every step keeps of a spaced pacer, together with what happened so far, every run keeps. -/
theorem run_timed {P : List Paced → Pacer → Prop}
    (hstep : ∀ before p now e q, P before p → p.Spaced g → step g p (now, e) = some q → P (before ++ [(now, e)]) q)
    {before h : List Paced} (hP : P before p) (hp : p.Spaced g)
    (htimes : (p.lastAt :: h.map Prod.fst).Pairwise (· ≤ ·)) (hrun : run (step g) p h = some q) :
    P (before ++ h) q := by
  induction h generalizing p before with
  | nil =>
    obtain rfl := Option.some.inj hrun
    rwa [List.append_nil]
  | cons x h ih =>
    obtain ⟨p', hs, hrest⟩ := run_cons_iff.mp hrun
    obtain ⟨hnow, htail⟩ := times_tail hs htimes
    rw [List.append_cons]
    exact ih (hstep before p x.1 x.2 p' hP hp hs) (step_spaced hp hnow hs) htail hrest

/-! ## The requests of a run -/

def requestTimes (h : List Paced) : List Int := (h.filter (·.2 = .request)).map Prod.fst

/-- How many requests are neither answered nor given up. -/
def outstanding (h : List Paced) : Int := h.countP (·.2 = .request) - h.countP (·.2.ends)

theorem requests_spaced {h : List Paced} (hp : p.Spaced g) (htimes : (p.lastAt :: h.map Prod.fst).Pairwise (· ≤ ·))
    (hrun : run (step g) p h = some q) :
    (p.lastAt :: requestTimes h).IsChain (fun a b => a + g.gap ≤ b) := by
  induction h generalizing p with
  | nil => exact List.isChain_singleton _
  | cons x h ih =>
    obtain ⟨p', hs, hrest⟩ := run_cons_iff.mp hrun
    obtain ⟨hnow, htail⟩ := times_tail hs htimes
    have hchain := ih (step_spaced hp hnow hs) htail hrest
    have hlast := step_lastAt hp hs
    by_cases hx : x.2 = .request
    · rw [if_pos hx] at hlast
      have hsplit : requestTimes (x :: h) = x.1 :: requestTimes h := by simp [requestTimes, hx]
      rw [hsplit, List.isChain_cons_cons]
      exact ⟨hlast.2, hlast.1 ▸ hchain⟩
    · rw [if_neg hx] at hlast
      have hskip : requestTimes (x :: h) = requestTimes h := by simp [requestTimes, hx]
      rw [hskip]
      exact hlast ▸ hchain

theorem outstanding_append (h₁ h₂ : List Paced) : outstanding (h₁ ++ h₂) = outstanding h₁ + outstanding h₂ := by
  unfold outstanding
  rw [List.countP_append, List.countP_append]
  omega

def held (p : Pacer) : Int := if p.inFlight then 1 else 0

theorem held_le (p : Pacer) : p.held ≤ 1 := by
  unfold held
  split <;> omega

theorem step_held {e : PacerEvent} (h : p.Spaced g) (hs : step g p (now, e) = some q) :
    q.held = p.held + outstanding [(now, e)] := by
  obtain ⟨rfl, hflight, rfl⟩ | ⟨rfl, hidle, rfl⟩ | ⟨rfl, hflight, rfl⟩ | ⟨rfl, hflight, rfl⟩ |
    ⟨rfl, target, htarget, -, rfl⟩ := step_cases hs
  · simp [held, outstanding, PacerEvent.ends, hflight]
  · simp [held, outstanding, PacerEvent.ends, book, hidle]
  · simp [held, outstanding, PacerEvent.ends, book, hflight]
  · simp [held, outstanding, PacerEvent.ends, book, hflight]
  · have hidle : p.inFlight = false := by
      by_contra hflight
      rw [h.idle (Bool.not_eq_false _ ▸ hflight)] at htarget
      cases htarget
    simp [held, outstanding, PacerEvent.ends, hidle]

theorem run_held {h : List Paced} (hp : p.Spaced g) (htimes : (p.lastAt :: h.map Prod.fst).Pairwise (· ≤ ·))
    (hrun : run (step g) p h = some q) : q.held = p.held + outstanding h := by
  have hnone : p.held = p.held + outstanding [] := by simp [outstanding]
  refine run_timed (P := fun h q => q.held = p.held + outstanding h) ?_ hnone hp htimes hrun
  · intro before p' now e q' hheld hp' hs
    rw [step_held hp' hs, hheld, outstanding_append]
    omega

/-! ## The marks of a run -/

def sinceRequest (h : List Paced) : List Paced := h.rtakeWhile (·.2 ≠ .request)

def sinceAnswer (h : List Paced) : List Paced := h.rtakeWhile (·.2 ≠ .answer)

def firstAt (cond : PacerEvent → Bool) (h : List Paced) : Option Int := (h.find? fun x => cond x.2).map Prod.fst

/-- When the pacer came to be dirty with no request in flight, of what happened since the last request: at the
first mark or at the end of the request, whichever is later. -/
def enteredAt (r : List Paced) : Option Int :=
  (firstAt (· = .mark) r).bind fun mark => (firstAt PacerEvent.ends r).map (max mark)

/-- No request is given up after a mark. -/
def Unmissed (r : List Paced) : Prop := r.Pairwise fun a b => a.2 = .mark → b.2 ≠ .giveUp

instance (r : List Paced) : Decidable (Unmissed r) := by unfold Unmissed; infer_instance

/-- What is known of a pacer from what happened since the last request. -/
structure Kept (g : Pacing) (r : List Paced) (p : Pacer) : Prop where
  flight : p.inFlight = true ↔ firstAt PacerEvent.ends r = none
  armed : p.inFlight = false → p.target ≠ none
  dirty : p.dirty = true ↔ ∃ x ∈ sinceAnswer r, x.2 = .mark
  booked : ∀ entered, enteredAt r = some entered → Unmissed r →
    ∃ target, p.target = some target ∧ target ≤ max (p.lastAt + g.gap) entered

theorem sinceRequest_snoc (h : List Paced) (x : Paced) :
    sinceRequest (h ++ [x]) = if x.2 = .request then [] else sinceRequest h ++ [x] := by
  unfold sinceRequest
  rw [List.rtakeWhile_concat]
  by_cases hx : x.2 = .request <;> simp [hx]

theorem sinceAnswer_snoc (r : List Paced) (x : Paced) :
    sinceAnswer (r ++ [x]) = if x.2 = .answer then [] else sinceAnswer r ++ [x] := by
  unfold sinceAnswer
  rw [List.rtakeWhile_concat]
  by_cases hx : x.2 = .answer <;> simp [hx]

theorem firstAt_snoc (cond : PacerEvent → Bool) (r : List Paced) (x : Paced) :
    firstAt cond (r ++ [x]) = (firstAt cond r).or (if cond x.2 then some x.1 else none) := by
  unfold firstAt
  rw [List.find?_append]
  cases h : r.find? (fun x => cond x.2) with
  | some y => rfl
  | none => cases hx : cond x.2 <;> simp [hx]

theorem firstAt_none {cond : PacerEvent → Bool} {r : List Paced} : firstAt cond r = none ↔ ∀ x ∈ r, cond x.2 = false := by
  simp [firstAt]

theorem sinceAnswer_unended {r : List Paced} (h : firstAt PacerEvent.ends r = none) : sinceAnswer r = r := by
  unfold sinceAnswer
  rw [List.rtakeWhile_eq_self_iff]
  intro x hx
  have hends := firstAt_none.mp h x hx
  simp only [ne_eq, decide_not, Bool.not_eq_eq_eq_not, Bool.not_true, decide_eq_false_iff_not]
  intro hanswer
  rw [hanswer] at hends
  cases hends

theorem enteredAt_some {r : List Paced} {entered : Int} (h : enteredAt r = some entered) :
    ∃ mark ended, firstAt (· = .mark) r = some mark ∧ firstAt PacerEvent.ends r = some ended ∧
      entered = max mark ended := by
  obtain ⟨mark, hmark, h⟩ := Option.bind_eq_some_iff.mp h
  obtain ⟨ended, hended, rfl⟩ := Option.map_eq_some_iff.mp h
  exact ⟨mark, ended, hmark, hended, rfl⟩

theorem Unmissed.left {r₁ r₂ : List Paced} (h : Unmissed (r₁ ++ r₂)) : Unmissed r₁ := (List.pairwise_append.mp h).1

theorem mark_of_firstAt {r : List Paced} {at' : Int} (h : firstAt (· = .mark) r = some at') :
    ∃ x ∈ r, x.2 = .mark := by
  obtain ⟨x, hx, -⟩ := Option.map_eq_some_iff.mp h
  exact ⟨x, List.mem_of_find?_eq_some hx, by simpa using List.find?_some hx⟩

theorem mark_dirty {r : List Paced} : ∃ x ∈ sinceAnswer (r ++ [(now, .mark)]), x.2 = .mark := by
  rw [sinceAnswer_snoc]
  exact ⟨(now, .mark), by simp, rfl⟩

theorem markInFlight_kept {r : List Paced} (h : Kept g r p) (hflight : p.inFlight = true) :
    Kept g (r ++ [(now, .mark)]) { p with dirty := true } where
  flight := by simp [h.flight, firstAt_snoc, PacerEvent.ends]
  armed := h.armed
  dirty := iff_of_true rfl mark_dirty
  booked entered hentered := by
    obtain ⟨mark, ended, -, hended, -⟩ := enteredAt_some hentered
    simp [firstAt_snoc, h.flight.mp hflight, PacerEvent.ends] at hended

theorem markIdle_kept {r : List Paced} (h : Kept g r p) :
    Kept g (r ++ [(now, .mark)]) (book { p with dirty := true } (p.soon g now)) where
  flight := by simp [book, h.flight, firstAt_snoc, PacerEvent.ends]
  armed _ := book_armed _ _
  dirty := iff_of_true rfl mark_dirty
  booked entered hentered hunmissed := by
    obtain ⟨mark, ended, hmark, hended, rfl⟩ := enteredAt_some hentered
    obtain ⟨booked, hbooked, hsoon, hearlier, -⟩ := book_target { p with dirty := true } (p.soon g now)
    refine ⟨booked, hbooked, ?_⟩
    change booked ≤ max (p.lastAt + g.gap) (max mark ended)
    rw [firstAt_snoc] at hmark hended
    cases hfirst : firstAt (· = .mark) r with
    | none =>
      -- The state is entered now.
      obtain rfl : now = mark := by simpa [hfirst] using hmark
      unfold soon at hsoon
      omega
    | some first =>
      -- It was entered earlier, and the target moves only forward.
      obtain rfl : first = mark := by simpa [hfirst] using hmark
      have hends : firstAt PacerEvent.ends r = some ended := by simpa [PacerEvent.ends] using hended
      obtain ⟨old, hold, hle⟩ := h.booked (max first ended) (by simp [enteredAt, hfirst, hends]) hunmissed.left
      exact Int.le_trans (hearlier old hold) hle

theorem answer_kept {r : List Paced} (h : Kept g r p) (hp : p.Spaced g) (hflight : p.inFlight = true) :
    Kept g (r ++ [(now, .answer)])
      (book { p with inFlight := false, dirty := false }
        (if p.dirty then p.soon g now else now + g.interval)) where
  flight := by simp [book, firstAt_snoc, PacerEvent.ends]
  armed _ := book_armed _ _
  dirty := by simp [book, sinceAnswer_snoc]
  booked entered hentered _ := by
    obtain ⟨mark, ended, hmark, hended, rfl⟩ := enteredAt_some hentered
    have hnone := h.flight.mp hflight
    rw [firstAt_snoc] at hmark hended
    obtain rfl : now = ended := by simpa [hnone, PacerEvent.ends] using hended
    have hfirst : firstAt (· = .mark) r = some mark := by simpa using hmark
    obtain ⟨x, hx, hxmark⟩ := mark_of_firstAt hfirst
    have hdirty : p.dirty = true := h.dirty.mpr ⟨x, by rwa [sinceAnswer_unended hnone], hxmark⟩
    rw [if_pos hdirty]
    refine ⟨p.soon g now, by simp [book, hp.idle hflight], ?_⟩
    change p.soon g now ≤ max (p.lastAt + g.gap) (max mark now)
    unfold soon
    omega

theorem giveUp_kept {r : List Paced} (h : Kept g r p) :
    Kept g (r ++ [(now, .giveUp)]) (book { p with inFlight := false } (now + g.interval)) where
  flight := by simp [book, firstAt_snoc, PacerEvent.ends]
  armed _ := book_armed _ _
  dirty := by simp [book, sinceAnswer_snoc, h.dirty, or_and_right, exists_or]
  booked entered hentered hunmissed := by
    obtain ⟨mark, ended, hmark, -, -⟩ := enteredAt_some hentered
    rw [firstAt_snoc] at hmark
    have hfirst : firstAt (· = .mark) r = some mark := by simpa using hmark
    obtain ⟨x, hx, hxmark⟩ := mark_of_firstAt hfirst
    have hmissed := (List.pairwise_append.mp hunmissed).2.2 x hx (now, .giveUp) List.mem_cons_self hxmark
    exact absurd rfl hmissed

theorem request_kept : Kept g [] ⟨true, false, now, none⟩ where
  flight := iff_of_true rfl rfl
  armed := by rintro ⟨⟩
  dirty := by simp [sinceAnswer]
  booked := by rintro entered ⟨⟩

theorem Kept.entered {r : List Paced} (h : Kept g r p) (hidle : p.inFlight = false) (hmark : ∃ x ∈ r, x.2 = .mark) :
    ∃ entered, enteredAt r = some entered := by
  obtain ⟨x, hx, hxmark⟩ := hmark
  have hfirst : firstAt (· = .mark) r ≠ none := fun hnone => by
    simpa [hxmark] using firstAt_none.mp hnone x hx
  have hends : firstAt PacerEvent.ends r ≠ none := fun hnone => by
    rw [h.flight.mpr hnone] at hidle
    cases hidle
  obtain ⟨mark, hmark⟩ := Option.ne_none_iff_exists'.mp hfirst
  obtain ⟨ended, hended⟩ := Option.ne_none_iff_exists'.mp hends
  exact ⟨max mark ended, by simp [enteredAt, hmark, hended]⟩

theorem step_kept {r : List Paced} {e : PacerEvent} (h : Kept g r p) (hp : p.Spaced g)
    (hs : step g p (now, e) = some q) : Kept g (if e = .request then [] else r ++ [(now, e)]) q := by
  obtain ⟨rfl, hflight, rfl⟩ | ⟨rfl, -, rfl⟩ | ⟨rfl, hflight, rfl⟩ | ⟨rfl, -, rfl⟩ | ⟨rfl, target, -, -, rfl⟩ :=
    step_cases hs
  · exact markInFlight_kept h hflight
  · exact markIdle_kept h
  · exact answer_kept h hp hflight
  · exact giveUp_kept h
  · exact request_kept

theorem run_kept {before h : List Paced} (hk : Kept g (sinceRequest before) p) (hp : p.Spaced g)
    (htimes : (p.lastAt :: h.map Prod.fst).Pairwise (· ≤ ·)) (hrun : run (step g) p h = some q) :
    Kept g (sinceRequest (before ++ h)) q := by
  refine run_timed (P := fun h q => Kept g (sinceRequest h) q) ?_ hk hp htimes hrun
  intro before p' now e q' hk' hp' hs
  rw [sinceRequest_snoc]
  exact step_kept hk' hp' hs

end Pacer

end Lib
