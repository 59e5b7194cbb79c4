import Mathlib.Data.List.Basic

/-!
# Timers

A timer has an expiry and waits. A wait completes at or after its expiry, or it is aborted when the
expiry is moved or the timer is cancelled. Its handler is then queued, and a handler that is queued runs:
nothing takes it back.
-/

namespace Lib

inductive Completion
  | pending
  | expired
  | aborted
  deriving DecidableEq

/-- `tag` is what the handler of the wait was given, and `target` the expiry it waits for. -/
structure Wait (τ : Type) where
  tag : τ
  target : Int
  completion : Completion := .pending
  deriving DecidableEq

structure Timer (τ : Type) where
  expiry : Int := 0
  waits : List (Wait τ) := []
  deriving DecidableEq

namespace Wait

variable {τ : Type}

def abort (w : Wait τ) : Wait τ :=
  match w.completion with
  | .pending => { w with completion := .aborted }
  | _ => w

/-- Its handler will run, or runs already, without an error. -/
def live (w : Wait τ) : Bool := w.completion ≠ .aborted

end Wait

namespace Timer

variable {τ : Type}

def cancel (t : Timer τ) : Timer τ := { t with waits := t.waits.map Wait.abort }

def expiresAt (t : Timer τ) (target : Int) : Timer τ := { t.cancel with expiry := target }

def asyncWait (t : Timer τ) (tag : τ) : Timer τ := { t with waits := t.waits ++ [⟨tag, t.expiry, .pending⟩] }

def expire (t : Timer τ) (now : Int) (k : Nat) : Option (Timer τ) :=
  match t.waits[k]? with
  | some ⟨tag, target, .pending⟩ =>
    if target ≤ now then some { t with waits := t.waits.set k ⟨tag, target, .expired⟩ } else none
  | _ => none

/-- The handler of the `k`th wait leaves the queue: what it was given, and whether it was aborted. -/
def take (t : Timer τ) (k : Nat) : Option (τ × Bool × Timer τ) :=
  match t.waits[k]? with
  | some ⟨tag, _, .expired⟩ => some (tag, false, { t with waits := t.waits.eraseIdx k })
  | some ⟨tag, _, .aborted⟩ => some (tag, true, { t with waits := t.waits.eraseIdx k })
  | _ => none

def aliveIn (waits : List (Wait τ)) : List (τ × Int) := (waits.filter Wait.live).map fun w => (w.tag, w.target)

def alive (t : Timer τ) : List (τ × Int) := aliveIn t.waits

/-- What expired was due. -/
def Timely (t : Timer τ) (now : Int) : Prop := ∀ w ∈ t.waits, w.completion = .expired → w.target ≤ now

variable {t t' : Timer τ} {now : Int}

theorem Timely.mono {later : Int} (h : t.Timely now) (hle : now ≤ later) : t.Timely later :=
  fun w hw he => Int.le_trans (h w hw he) hle

/-! ## Operations -/

theorem aliveIn_split (before after : List (Wait τ)) (w : Wait τ) :
    aliveIn (before ++ w :: after) =
      aliveIn before ++ ((if w.live then [(w.tag, w.target)] else []) ++ aliveIn after) := by
  cases h : w.live <;> simp [aliveIn, h]

theorem aliveIn_append (before after : List (Wait τ)) : aliveIn (before ++ after) = aliveIn before ++ aliveIn after := by
  simp [aliveIn]

theorem abort_expired {w : Wait τ} (h : w.abort.completion = .expired) : w.abort = w ∧ w.completion = .expired := by
  cases hc : w.completion with
  | pending => simp [Wait.abort, hc] at h
  | expired => exact ⟨by simp [Wait.abort, hc], rfl⟩
  | aborted => simp [Wait.abort, hc] at h

theorem abort_live {w : Wait τ} (h : w.abort.live = true) : w.abort = w ∧ w.completion = .expired := by
  cases hc : w.completion with
  | pending => simp [Wait.abort, Wait.live, hc] at h
  | expired => exact ⟨by simp [Wait.abort, hc], rfl⟩
  | aborted => simp [Wait.abort, Wait.live, hc] at h

theorem cancel_timely (h : t.Timely now) : t.cancel.Timely now := by
  intro w hw he
  obtain ⟨w, hmem, rfl⟩ := List.mem_map.mp hw
  obtain ⟨hsame, hexpired⟩ := abort_expired he
  rw [hsame]
  exact h w hmem hexpired

theorem expiresAt_timely (h : t.Timely now) (target : Int) : (t.expiresAt target).Timely now := cancel_timely h

theorem asyncWait_timely (h : t.Timely now) (tag : τ) : (t.asyncWait tag).Timely now := by
  intro w hw he
  rcases List.mem_append.mp hw with hw | hw
  · exact h w hw he
  · obtain rfl := List.mem_singleton.mp hw
    cases he

@[simp] theorem alive_asyncWait (t : Timer τ) (tag : τ) : (t.asyncWait tag).alive = t.alive ++ [(tag, t.expiry)] := by
  simp [alive, aliveIn, asyncWait, Wait.live]

@[simp] theorem expiry_expiresAt (t : Timer τ) (target : Int) : (t.expiresAt target).expiry = target := rfl

@[simp] theorem alive_expiresAt (t : Timer τ) (target : Int) : (t.expiresAt target).alive = t.cancel.alive := rfl

theorem alive_cancel (h : t.Timely now) (hlater : ∀ p ∈ t.alive, now < p.2) : t.cancel.alive = [] := by
  unfold alive aliveIn
  rw [List.map_eq_nil_iff, List.filter_eq_nil_iff]
  intro w hw hlive
  obtain ⟨w, hmem, rfl⟩ := List.mem_map.mp hw
  obtain ⟨hsame, hexpired⟩ := abort_live hlive
  rw [hsame] at hlive
  have hdue := h w hmem hexpired
  have hfuture := hlater (w.tag, w.target) (List.mem_map.mpr ⟨w, List.mem_filter.mpr ⟨hmem, hlive⟩, rfl⟩)
  omega

theorem aborted_of_alive_nil (h : t.alive = []) {w : Wait τ} (hw : w ∈ t.waits) : w.completion = .aborted := by
  unfold alive aliveIn at h
  have hdead := List.filter_eq_nil_iff.mp (List.map_eq_nil_iff.mp h) w hw
  simpa [Wait.live] using hdead

theorem mem_cancel_of_aborted {w : Wait τ} (hw : w ∈ t.waits) (ha : w.completion = .aborted) :
    w ∈ t.cancel.waits := by
  have hsame : w.abort = w := by simp [Wait.abort, ha]
  exact hsame ▸ List.mem_map_of_mem hw

/-! ## What happens to a wait -/

theorem expire_eq {k : Nat} (h : t.expire now k = some t') :
    ∃ tag target, t.waits[k]? = some ⟨tag, target, .pending⟩ ∧ target ≤ now ∧
      t' = { t with waits := t.waits.set k ⟨tag, target, .expired⟩ } := by
  unfold expire at h
  split at h
  · rename_i tag target hk
    split at h
    · rename_i hdue
      exact ⟨tag, target, hk, hdue, (Option.some.inj h).symm⟩
    · cases h
  · cases h

theorem expire_timely {k : Nat} (ht : t.Timely now) (h : t.expire now k = some t') : t'.Timely now := by
  obtain ⟨tag, target, -, hdue, rfl⟩ := expire_eq h
  intro w hw he
  rcases List.mem_or_eq_of_mem_set hw with hw | rfl
  · exact ht w hw he
  · exact hdue

theorem split_at {α : Type} {l : List α} {k : Nat} {a : α} (h : l[k]? = some a) :
    l = l.take k ++ a :: l.drop (k + 1) := by
  obtain ⟨hk, rfl⟩ := List.getElem?_eq_some_iff.mp h
  rw [← List.drop_eq_getElem_cons hk, List.take_append_drop]

theorem expire_alive {k : Nat} (h : t.expire now k = some t') : t'.alive = t.alive := by
  obtain ⟨tag, target, hk, -, rfl⟩ := expire_eq h
  have hlt : k < t.waits.length := (List.getElem?_eq_some_iff.mp hk).choose
  calc aliveIn (t.waits.set k ⟨tag, target, .expired⟩)
      = aliveIn (t.waits.take k ++ ⟨tag, target, .expired⟩ :: t.waits.drop (k + 1)) := by
        rw [List.set_eq_take_append_cons_drop, if_pos hlt]
    _ = aliveIn (t.waits.take k ++ ⟨tag, target, .pending⟩ :: t.waits.drop (k + 1)) := by
        rw [aliveIn_split, aliveIn_split]
        rfl
    _ = aliveIn t.waits := by rw [← split_at hk]

/-- A handler that runs with an error takes nothing that was alive. -/
theorem take_cases {k : Nat} {tag : τ} {ec : Bool} (h : t.take k = some (tag, ec, t')) :
    t'.waits.Sublist t.waits ∧
      if ec then t'.alive = t.alive
      else ∃ before target after, t.alive = before ++ (tag, target) :: after ∧ t'.alive = before ++ after := by
  unfold take at h
  split at h
  · rename_i tag target hk
    obtain ⟨rfl, rfl, rfl⟩ := by simpa using h
    refine ⟨List.eraseIdx_sublist .., aliveIn (t.waits.take k), target, aliveIn (t.waits.drop (k + 1)), ?_, ?_⟩
    · have hsplit := aliveIn_split (t.waits.take k) (t.waits.drop (k + 1)) ⟨tag, target, .expired⟩
      rwa [← split_at hk] at hsplit
    · rw [alive, List.eraseIdx_eq_take_drop_succ, aliveIn_append]
  · rename_i tag target hk
    obtain ⟨rfl, rfl, rfl⟩ := by simpa using h
    refine ⟨List.eraseIdx_sublist .., ?_⟩
    have hsplit := aliveIn_split (t.waits.take k) (t.waits.drop (k + 1)) ⟨tag, target, .aborted⟩
    rw [← split_at hk] at hsplit
    rw [if_pos rfl, alive, List.eraseIdx_eq_take_drop_succ, aliveIn_append]
    exact hsplit.symm
  · cases h

theorem take_due {k : Nat} {tag : τ} (ht : t.Timely now) (h : t.take k = some (tag, false, t')) :
    ∃ target, (tag, target) ∈ t.alive ∧ target ≤ now := by
  unfold take at h
  split at h
  · rename_i tag' target hk
    obtain ⟨rfl, -⟩ := by simpa using h
    have hmem := List.mem_of_getElem? hk
    refine ⟨target, ?_, ht _ hmem rfl⟩
    exact List.mem_map.mpr ⟨_, List.mem_filter.mpr ⟨hmem, rfl⟩, rfl⟩
  · simp at h
  · cases h

/-- What is alive is pending or has expired. -/
theorem alive_cases {p : τ × Int} (h : p ∈ t.alive) :
    ∃ k : Nat, t.waits[k]? = some (Wait.mk p.1 p.2 .pending) ∨ t.waits[k]? = some (Wait.mk p.1 p.2 .expired) := by
  obtain ⟨w, hw, rfl⟩ := List.mem_map.mp h
  obtain ⟨hmem, hlive⟩ := List.mem_filter.mp hw
  obtain ⟨k, hk⟩ := List.mem_iff_getElem?.mp hmem
  obtain ⟨tag, target, completion⟩ := w
  refine ⟨k, ?_⟩
  cases completion with
  | pending => exact Or.inl hk
  | expired => exact Or.inr hk
  | aborted => cases hlive

theorem expire_of_due {k : Nat} {tag : τ} {target : Int} (hk : t.waits[k]? = some (Wait.mk tag target .pending))
    (hdue : target ≤ now) : ∃ t', t.expire now k = some t' ∧ t'.waits[k]? = some (Wait.mk tag target .expired) := by
  have hlt : k < t.waits.length := (List.getElem?_eq_some_iff.mp hk).choose
  refine ⟨{ t with waits := t.waits.set k ⟨tag, target, .expired⟩ }, ?_, by simp [hlt]⟩
  unfold expire
  rw [hk]
  exact if_pos hdue

theorem take_of_expired {k : Nat} {tag : τ} {target : Int} (hk : t.waits[k]? = some (Wait.mk tag target .expired)) :
    t.take k = some (tag, false, { t with waits := t.waits.eraseIdx k }) := by
  unfold take
  rw [hk]

theorem mem_expire_of_aborted {k : Nat} (h : t.expire now k = some t') {w : Wait τ} (hw : w ∈ t.waits)
    (ha : w.completion = .aborted) : w ∈ t'.waits := by
  obtain ⟨tag, target, hk, -, rfl⟩ := expire_eq h
  obtain ⟨i, hi⟩ := List.mem_iff_getElem?.mp hw
  have hne : k ≠ i := by
    rintro rfl
    rw [hk] at hi
    obtain rfl := Option.some.inj hi
    cases ha
  exact List.mem_of_getElem? ((List.getElem?_set_ne hne).trans hi)

/-- A wait that was aborted stays until its handler runs, with an error. -/
theorem mem_take_of_aborted {k : Nat} {tag : τ} {ec : Bool} (h : t.take k = some (tag, ec, t')) {w : Wait τ}
    (hw : w ∈ t.waits) (ha : w.completion = .aborted) : w ∈ t'.waits ∨ ec = true ∧ t.waits[k]? = some w := by
  obtain ⟨i, hi⟩ := List.mem_iff_getElem?.mp hw
  unfold take at h
  by_cases hik : i = k
  · subst hik
    obtain ⟨wtag, target, completion⟩ := w
    obtain rfl : completion = .aborted := ha
    rw [hi] at h
    obtain ⟨-, rfl, -⟩ := by simpa using h
    exact Or.inr ⟨rfl, hi⟩
  · left
    have hleft : w ∈ t.waits.eraseIdx k := List.mem_eraseIdx_iff_getElem?.mpr ⟨i, hik, hi⟩
    split at h
    · obtain ⟨-, -, rfl⟩ := by simpa using h
      exact hleft
    · obtain ⟨-, -, rfl⟩ := by simpa using h
      exact hleft
    · cases h

theorem take_timely {k : Nat} {tag : τ} {ec : Bool} (ht : t.Timely now) (h : t.take k = some (tag, ec, t')) :
    t'.Timely now := by
  obtain ⟨hsub, -⟩ := take_cases h
  exact fun w hw he => ht w (hsub.subset hw) he

theorem take_last {k : Nat} {tag : τ} (h : t.take k = some (tag, false, t')) (hone : t.alive.length ≤ 1) :
    t'.alive = [] := by
  obtain ⟨-, before, target, after, hbefore, hafter⟩ := take_cases h
  rw [hbefore] at hone
  simp only [List.length_append, List.length_cons] at hone
  rw [hafter, List.append_eq_nil_iff, ← List.length_eq_zero_iff, ← List.length_eq_zero_iff]
  omega

theorem mem_take {k : Nat} {tag : τ} {ec : Bool} (h : t.take k = some (tag, ec, t')) {p : τ × Int}
    (hp : p ∈ t.alive) (hother : ec = true ∨ p.1 ≠ tag) : p ∈ t'.alive := by
  obtain ⟨-, hcases⟩ := take_cases h
  cases ec with
  | true => exact (show t'.alive = t.alive from hcases) ▸ hp
  | false =>
    obtain ⟨before, target, after, hbefore, hafter⟩ := hcases
    rw [hbefore, List.mem_append, List.mem_cons] at hp
    rw [hafter, List.mem_append]
    rcases hp with hp | rfl | hp
    · exact Or.inl hp
    · simp at hother
    · exact Or.inr hp

end Timer

end Lib
