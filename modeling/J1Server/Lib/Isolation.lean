import J1Server.Lib.Store
import Mathlib.Algebra.Order.Ring.Int

/-!
# What one connection can count on

`Rely i` is what the other connections can do between two calls of `i`: they
commit writes of their own, to rows that `i` does not hold. Every call of one
connection is within the `Rely` of every other.
-/

namespace Lib

variable {D : Schema}

namespace Server

def newIds (es : List (Entry D)) : List Int := es.filterMap fun e => D.newId? e.write

/-- Pending writes belong to their connection, which holds the rows they change. A new key is used
up once, by one connection. -/
structure WF (s : Server D) : Prop where
  conn : ∀ i, ∀ e ∈ (s.conns i).pending, e.conn = i
  locked : ∀ i, ∀ e ∈ (s.conns i).pending, ∀ r, D.row? e.write = some r → s.owner r = some i
  fresh : ∀ i, ∀ k ∈ newIds (s.conns i).pending, k < s.next
  past : ∀ k ∈ newIds s.history, k < s.next
  once : ∀ i, ∀ k ∈ newIds (s.conns i).pending, k ∉ newIds s.history
  apart : ∀ i j, i ≠ j → ∀ k ∈ newIds (s.conns i).pending, k ∉ newIds (s.conns j).pending
  distinct : ∀ i, (newIds (s.conns i).pending).Nodup
  dead : ∀ i, (s.conns i).alive = false → (s.conns i).pending = []

/-- What others may do around connection `i`. -/
structure Rely (i : Nat) (s s' : Server D) : Prop where
  conn : s'.conns i = s.conns i
  held : ∀ r, s'.owner r = some i ↔ s.owner r = some i
  now : s.now ≤ s'.now
  next : s.next ≤ s'.next
  log : ∃ ext, s'.history = s.history ++ ext ∧ s'.db = applyAll ext s.db ∧
    ∀ e ∈ ext, e.conn ≠ i ∧ ∀ r, D.row? e.write = some r → s.owner r ≠ some i
  wf : s.WF → s'.WF

/-- What a call of connection `i` changes. -/
structure Moved (i : Nat) (s s' : Server D) : Prop where
  others : ∀ j, j ≠ i → s'.conns j = s.conns j
  held : ∀ r j, j ≠ i → (s'.owner r = some j ↔ s.owner r = some j)
  now : s'.now = s.now
  next : s.next ≤ s'.next
  log : (s'.history = s.history ∧ s'.db = s.db) ∨
    (s'.history = s.history ++ (s.conns i).pending ∧ s'.db = applyAll (s.conns i).pending s.db)

/-! ## Interference composes -/

theorem Rely.refl (i : Nat) (s : Server D) : Rely i s s :=
  ⟨rfl, fun _ => Iff.rfl, le_refl _, le_refl _, ⟨[], by simp, rfl, by simp⟩, id⟩

theorem Rely.trans {i : Nat} {a b c : Server D} (h : Rely i a b) (h' : Rely i b c) : Rely i a c where
  conn := h'.conn.trans h.conn
  held r := (h'.held r).trans (h.held r)
  now := h.now.trans h'.now
  next := h.next.trans h'.next
  log := by
    obtain ⟨e, he, hdb, hf⟩ := h.log
    obtain ⟨e', he', hdb', hf'⟩ := h'.log
    refine ⟨e ++ e', by rw [he', he, List.append_assoc], by rw [hdb', hdb, applyAll_append], ?_⟩
    intro x hx
    rcases List.mem_append.mp hx with hx | hx
    · exact hf x hx
    · exact ⟨(hf' x hx).1, fun r hr => mt (h.held r).mpr ((hf' x hx).2 r hr)⟩
  wf hw := h'.wf (h.wf hw)

theorem WF.tick {s : Server D} (h : s.WF) (d : Nat) : (s.tick d).WF :=
  ⟨h.conn, h.locked, h.fresh, h.past, h.once, h.apart, h.distinct, h.dead⟩

theorem Rely.tick (i : Nat) (s : Server D) (d : Nat) : Rely i s (s.tick d) :=
  ⟨rfl, fun _ => Iff.rfl, by simp [Server.tick], le_refl _,
    ⟨[], by simp [Server.tick], rfl, by simp⟩, fun h => h.tick d⟩

/-- A call of `j` is interference for `i`. -/
theorem Moved.rely {i j : Nat} {s s' : Server D} (h : Moved j s s') (hij : i ≠ j) (hw : s.WF)
    (hw' : s'.WF) : Rely i s s' where
  conn := h.others i hij
  held r := h.held r i hij
  now := h.now.ge
  next := h.next
  log := by
    rcases h.log with ⟨hh, hdb⟩ | ⟨hh, hdb⟩
    · exact ⟨[], by simp [hh], hdb, by simp⟩
    · refine ⟨_, hh, hdb, fun e he => ⟨?_, fun r hr => ?_⟩⟩
      · rw [hw.conn j e he]; exact hij.symm
      · rw [hw.locked j e he r hr]
        exact fun h => hij (Option.some.inj h).symm
  wf _ := hw'

/-! ## Rows a connection holds keep their value -/

theorem look_applyAll_other (hD : D.Lawful) {r : D.Row} {es : List (Entry D)} {db : D.Db}
    (h : ∀ e ∈ es, D.row? e.write ≠ some r) : D.look r (applyAll es db) = D.look r db := by
  induction es generalizing db with
  | nil => rfl
  | cons e es ih =>
    rw [applyAll, List.foldl_cons, ← applyAll, ih fun x hx => h x (by simp [hx])]
    exact hD.look_other _ _ _ (h e (by simp))

theorem look_applyAll_congr (hD : D.Lawful) {r : D.Row} (es : List (Entry D)) {db db' : D.Db}
    (h : D.look r db = D.look r db') : D.look r (applyAll es db) = D.look r (applyAll es db') := by
  induction es generalizing db db' with
  | nil => exact h
  | cons e es ih => exact ih (hD.look_congr _ _ _ _ h)

theorem Rely.look (hD : D.Lawful) {i : Nat} {s s' : Server D} (h : Rely i s s') {r : D.Row}
    (hr : s.owner r = some i) : D.look r s'.db = D.look r s.db := by
  obtain ⟨ext, -, hdb, hext⟩ := h.log
  rw [hdb]
  exact look_applyAll_other hD fun e he hrow => (hext e he).2 r hrow hr

/-! ## What was committed between two states -/

/-- From `s` to `s'`, connection `i` committed just `es`; the tables are what the history says. -/
def Committed (i : Nat) (es : List (Entry D)) (s s' : Server D) : Prop :=
  ∃ ext, s'.history = s.history ++ ext ∧ s'.db = applyAll ext s.db ∧ ext.filter (·.conn = i) = es

theorem Committed.refl (i : Nat) (s : Server D) : Committed i [] s s := ⟨[], by simp, rfl, rfl⟩

theorem Committed.trans {i : Nat} {es es' : List (Entry D)} {a b c : Server D}
    (h : Committed i es a b) (h' : Committed i es' b c) : Committed i (es ++ es') a c := by
  obtain ⟨ext, hh, hdb, rfl⟩ := h
  obtain ⟨ext', hh', hdb', rfl⟩ := h'
  exact ⟨ext ++ ext', by rw [hh', hh, List.append_assoc], by rw [hdb', hdb, applyAll_append],
    List.filter_append ..⟩

theorem Rely.committed {i : Nat} {s s' : Server D} (h : Rely i s s') : Committed i [] s s' := by
  obtain ⟨ext, hh, hdb, hext⟩ := h.log
  refine ⟨ext, hh, hdb, ?_⟩
  rw [List.filter_eq_nil_iff]
  intro e he
  simp [(hext e he).1]

theorem committed_publish {s : Server D} (hw : s.WF) (i : Nat) :
    Committed i (s.conns i).pending s (s.publish i) := by
  refine ⟨(s.conns i).pending, rfl, rfl, ?_⟩
  rw [List.filter_eq_self]
  intro e he
  simp [hw.conn i e he]

/-! ## What a call changes -/

theorem held_release (s : Server D) (i j : Nat) (r : D.Row) (h : j ≠ i) :
    (s.release i).owner r = some j ↔ s.owner r = some j := by
  simp only [release]
  by_cases hr : s.owner r = some i
  · simp only [hr, if_true, reduceCtorEq, Option.some.injEq, false_iff]; exact h.symm
  · simp only [hr, if_false]

theorem moved_refl (s : Server D) (i : Nat) : Moved i s s :=
  ⟨fun _ _ => rfl, fun _ _ _ => Iff.rfl, rfl, le_refl _, Or.inl ⟨rfl, rfl⟩⟩

theorem moved_discard (s : Server D) (i : Nat) : Moved i s (s.discard i) :=
  ⟨fun _ hj => conns_other _ _ _ hj, fun _ _ hj => held_release _ _ _ _ hj, rfl, le_refl _,
    Or.inl ⟨rfl, rfl⟩⟩

theorem moved_hangUp (s : Server D) (i : Nat) : Moved i s (s.hangUp i) :=
  ⟨fun _ hj => conns_other _ _ _ hj, fun _ _ hj => held_release _ _ _ _ hj, rfl, le_refl _,
    Or.inl ⟨rfl, rfl⟩⟩

theorem moved_publish (s : Server D) (i : Nat) : Moved i s (s.publish i) :=
  ⟨fun _ hj => conns_other _ _ _ hj, fun _ _ hj => held_release _ _ _ _ hj, rfl, le_refl _,
    Or.inr ⟨rfl, rfl⟩⟩

theorem Moved.setMode {i : Nat} {s s' : Server D} (h : Moved i s s') (on : Bool) :
    Moved i s (s'.setMode i on) :=
  ⟨fun j hj => (conns_other _ _ _ hj).trans (h.others j hj), h.held, h.now, h.next, h.log⟩

theorem Moved.hangUp {i : Nat} {s s' : Server D} (h : Moved i s s') : Moved i s (s'.hangUp i) :=
  ⟨fun j hj => (conns_other _ _ _ hj).trans (h.others j hj),
    fun r j hj => (held_release _ _ _ _ hj).trans (h.held r j hj), h.now, h.next, h.log⟩

theorem moved_record (s : Server D) (i : Nat) {R : Type} (e : Effect R D.Write D.Row)
    (hnext : s.next ≤ e.next) (hfree : e.locks.all (s.free i) = true) : Moved i s (s.record i e) where
  others j hj := Function.update_of_ne hj _ _
  held r j hj := by
    rw [owner_record]
    split
    · rename_i hr
      have := List.all_eq_true.mp hfree r hr
      simp only [free, Bool.decide_or, Bool.or_eq_true, decide_eq_true_eq] at this
      rcases this with h | h <;> simp [h, Ne.symm hj]
    · exact Iff.rfl
  now := rfl
  next := hnext
  log := Or.inl ⟨rfl, rfl⟩

theorem answer_moved (hD : D.Lawful) {s s' : Server D} {i : Nat} {c : Call D} {r : c.Reply}
    (h : s.answer i c = some (r, s')) : Moved i s s' := by
  cases c with
  | setAutoCommit on =>
    obtain rfl : _ = s' := congrArg Prod.snd (Option.some.inj h)
    split
    · exact (moved_publish s i).setMode on
    · exact (moved_refl s i).setMode on
  | commit => cases h; exact moved_publish s i
  | rollback => cases h; exact moved_discard s i
  | exec st =>
    simp only [answer] at h
    split at h
    · rename_i hfree
      cases h
      exact moved_record s i _ (hD.next_le ..) hfree
    · cases h
  | finish =>
    obtain rfl : _ = s' := congrArg Prod.snd (Option.some.inj h)
    split
    · exact moved_publish s i
    · exact moved_refl s i

theorem fail_moved (hD : D.Lawful) {s s' : Server D} {i : Nat} {c : Call D} {harm : Harm}
    (h : s.fail i c harm = some s') : Moved i s s' := by
  cases harm with
  | refused =>
    simp only [fail, Option.some.injEq] at h
    rw [← h]
    split
    · exact moved_discard s i
    · exact moved_refl s i
  | aborted => cases h; exact moved_discard s i
  | lost => cases h; exact moved_hangUp s i
  | replyLost =>
    obtain ⟨⟨r, t⟩, ha, rfl⟩ := Option.map_eq_some_iff.mp h
    exact (answer_moved hD ha).hangUp

theorem perform_cases {s s' : Server D} {i : Nat} {c : Call D} {f : Option Fault}
    {o : Except SqlException c.Reply} (h : perform i c f s = some (o, s')) :
    (∃ r, f = none ∧ (s.conns i).alive = true ∧ s.answer i c = some (r, s') ∧ o = .ok r) ∨
    (∃ x, f = some x ∧ (s.conns i).alive = true ∧ s.fail i c x.harm = some s' ∧ o = .error x.exc) ∨
    (∃ x, f = some x ∧ (s.conns i).alive = false ∧ s' = s ∧ o = .error x.exc) := by
  unfold perform at h
  split at h
  · rename_i ha
    obtain ⟨⟨r, t⟩, hr, heq⟩ := Option.map_eq_some_iff.mp h
    cases heq
    exact Or.inl ⟨r, rfl, ha, hr, rfl⟩
  · rename_i x ha
    obtain ⟨t, hr, heq⟩ := Option.map_eq_some_iff.mp h
    cases heq
    exact Or.inr (Or.inl ⟨x, rfl, ha, hr, rfl⟩)
  · rename_i x ha
    cases h
    exact Or.inr (Or.inr ⟨x, rfl, ha, rfl, rfl⟩)
  · cases h

theorem perform_moved (hD : D.Lawful) {s s' : Server D} {i : Nat} {c : Call D} {f : Option Fault}
    {o : Except SqlException c.Reply} (h : perform i c f s = some (o, s')) : Moved i s s' := by
  rcases perform_cases h with ⟨r, -, -, hr, -⟩ | ⟨x, -, -, hx, -⟩ | ⟨x, -, -, rfl, -⟩
  · exact answer_moved hD hr
  · exact fail_moved hD hx
  · exact moved_refl _ i

/-! ## Well-formedness is kept -/

@[simp] theorem newIds_nil : newIds ([] : List (Entry D)) = [] := rfl

theorem newIds_append (es fs : List (Entry D)) : newIds (es ++ fs) = newIds es ++ newIds fs :=
  List.filterMap_append

theorem idle_wf (db : D.Db) (now next : Int) : (idle db now next : Server D).WF := by
  constructor <;> simp [idle, newIds]

/-- What only depends on the connections, the locks, the counter and the history. -/
theorem WF.congr {s s' : Server D} (h : s.WF) (howner : s'.owner = s.owner) (hnext : s'.next = s.next)
    (hhistory : s'.history = s.history) (hpending : ∀ j, (s'.conns j).pending = (s.conns j).pending)
    (halive : ∀ j, (s'.conns j).alive = (s.conns j).alive) : s'.WF := by
  refine ⟨fun j => ?_, fun j => ?_, fun j => ?_, ?_, fun j => ?_, fun j j' => ?_, fun j => ?_, fun j => ?_⟩
  · rw [hpending]; exact h.conn j
  · rw [hpending, howner]; exact h.locked j
  · rw [hpending, hnext]; exact h.fresh j
  · rw [hhistory, hnext]; exact h.past
  · rw [hpending, hhistory]; exact h.once j
  · rw [hpending, hpending]; exact h.apart j j'
  · rw [hpending]; exact h.distinct j
  · rw [hpending, halive]; exact h.dead j

theorem WF.setMode {s : Server D} (h : s.WF) (i : Nat) (on : Bool) : (s.setMode i on).WF := by
  refine h.congr rfl rfl rfl ?_ ?_ <;> intro j <;> by_cases hj : j = i
  · subst hj; simp
  · rw [Server.setMode, conns_other _ _ _ hj]
  · subst hj; simp
  · rw [Server.setMode, conns_other _ _ _ hj]

theorem WF.beginTask {s : Server D} (h : s.WF) (i : Nat) : (s.beginTask i).WF := by
  refine h.congr rfl rfl rfl ?_ ?_ <;> intro j <;> by_cases hj : j = i
  · subst hj; simp
  · rw [Server.beginTask, conns_other _ _ _ hj]
  · subst hj; simp
  · rw [Server.beginTask, conns_other _ _ _ hj]

/-- The new keys of the history after a call: those of the caller's transaction may join it. -/
theorem Moved.newIds_history {s s' : Server D} {i : Nat} (hm : Moved i s s') {k : Int}
    (hk : k ∈ newIds s'.history) : k ∈ newIds s.history ∨ k ∈ newIds (s.conns i).pending := by
  rcases hm.log with ⟨hh, -⟩ | ⟨hh, -⟩ <;> rw [hh] at hk
  · exact Or.inl hk
  · rw [newIds_append] at hk
    exact List.mem_append.mp hk

/-- What is left to say of a call is what becomes of the caller's own writes. -/
theorem WF.of_moved {s s' : Server D} {i : Nat} (h : s.WF) (hm : Moved i s s')
    (hconn : ∀ e ∈ (s'.conns i).pending, e.conn = i)
    (hlocked : ∀ e ∈ (s'.conns i).pending, ∀ r, D.row? e.write = some r → s'.owner r = some i)
    (hfresh : ∀ k ∈ newIds (s'.conns i).pending, k < s'.next)
    (honce : ∀ k ∈ newIds (s'.conns i).pending, k ∉ newIds s'.history)
    (hapart : ∀ j, j ≠ i → ∀ k ∈ newIds (s'.conns i).pending, k ∉ newIds (s.conns j).pending)
    (hdistinct : (newIds (s'.conns i).pending).Nodup)
    (hdead : (s'.conns i).alive = false → (s'.conns i).pending = []) : s'.WF := by
  have hother : ∀ j, j ≠ i → (s'.conns j).pending = (s.conns j).pending :=
    fun j hj => by rw [hm.others j hj]
  have forall_conn : ∀ {P : Nat → Prop}, P i → (∀ j, j ≠ i → P j) → ∀ j, P j := by
    intro P hself hothers j
    by_cases hj : j = i
    · exact hj ▸ hself
    · exact hothers j hj
  refine ⟨forall_conn hconn fun j hj => ?_, forall_conn hlocked fun j hj => ?_, forall_conn hfresh fun j hj => ?_,
    fun k hk => lt_of_lt_of_le ?_ hm.next, forall_conn honce fun j hj => ?_, fun j j' hjj => ?_,
    forall_conn hdistinct fun j hj => ?_, forall_conn hdead fun j hj => ?_⟩
  · rw [hother j hj]
    exact h.conn j
  · rw [hother j hj]
    exact fun e he r hr => (hm.held r j hj).mpr (h.locked j e he r hr)
  · rw [hother j hj]
    exact fun k hk => lt_of_lt_of_le (h.fresh j k hk) hm.next
  · rcases hm.newIds_history hk with hk | hk
    · exact h.past k hk
    · exact h.fresh i k hk
  · rw [hother j hj]
    intro k hk hkh
    rcases hm.newIds_history hkh with hkh | hkh
    · exact h.once j k hk hkh
    · exact h.apart j i hj k hk hkh
  · by_cases hj : j = i
    · subst hj
      rw [hother j' hjj.symm]
      exact hapart j' hjj.symm
    · rw [hother j hj]
      by_cases hj' : j' = i
      · subst hj'
        exact fun k hk hk' => hapart j hj k hk' hk
      · rw [hother j' hj']
        exact h.apart j j' hjj
  · rw [hother j hj]
    exact h.distinct j
  · rw [hm.others j hj]
    exact h.dead j

theorem WF.of_cleared {s s' : Server D} {i : Nat} (h : s.WF) (hm : Moved i s s')
    (hpending : (s'.conns i).pending = []) : s'.WF := by
  refine h.of_moved hm ?_ ?_ ?_ ?_ ?_ ?_ fun _ => hpending
  all_goals simp [hpending]

theorem newIds_tag (hD : D.Lawful) (s : Server D) (i : Nat) (st : D.Stmt) {k : Int}
    (hk : k ∈ newIds (s.tag i (D.effect st s.now s.next (s.view i)).writes)) :
    s.next ≤ k ∧ k < (D.effect st s.now s.next (s.view i)).next := by
  obtain ⟨e, he, hke⟩ := List.mem_filterMap.mp hk
  obtain ⟨w, hw, rfl⟩ := List.mem_map.mp he
  exact hD.newId_new _ _ _ _ w hw k hke

theorem newIds_tag_nodup (hD : D.Lawful) (s : Server D) (i : Nat) (st : D.Stmt) :
    (newIds (s.tag i (D.effect st s.now s.next (s.view i)).writes)).Nodup := by
  have := hD.newId_once st s.now s.next (s.view i)
  simpa [newIds, tag, List.filterMap_map, Function.comp_def] using this

theorem WF.record (hD : D.Lawful) {s : Server D} (h : s.WF) {i : Nat} {st : D.Stmt}
    (halive : (s.conns i).alive = true)
    (hfree : (D.effect st s.now s.next (s.view i)).locks.all (s.free i) = true) :
    (s.record i (D.effect st s.now s.next (s.view i))).WF := by
  have hm := moved_record s i _ (hD.next_le st s.now s.next (s.view i)) hfree
  have hown : ((s.record i (D.effect st s.now s.next (s.view i))).conns i).pending =
      (s.conns i).pending ++ s.tag i (D.effect st s.now s.next (s.view i)).writes := by
    rw [record_conn]
  have hnew : ∀ {k}, k ∈ newIds (s.tag i (D.effect st s.now s.next (s.view i)).writes) → s.next ≤ k :=
    fun hk => (newIds_tag hD s i st hk).1
  refine h.of_moved hm ?_ ?_ ?_ ?_ (fun j hj => ?_) ?_ fun hd => ?_
  · rw [hown]
    intro e he
    rcases List.mem_append.mp he with he | he
    · exact h.conn i e he
    · obtain ⟨w, -, rfl⟩ := List.mem_map.mp he
      rfl
  · rw [hown]
    intro e he r hr
    rw [owner_record]
    split
    · rfl
    · rename_i hrl
      rcases List.mem_append.mp he with he | he
      · exact h.locked i e he r hr
      · obtain ⟨w, hw, rfl⟩ := List.mem_map.mp he
        exact absurd (hD.locked _ _ _ _ w hw r hr) hrl
  · rw [hown, newIds_append]
    intro k hk
    rcases List.mem_append.mp hk with hk | hk
    · exact lt_of_lt_of_le (h.fresh i k hk) hm.next
    · exact (newIds_tag hD s i st hk).2
  · rw [hown, newIds_append]
    intro k hk hkh
    rcases List.mem_append.mp hk with hk | hk
    · exact h.once i k hk hkh
    · exact absurd (h.past k hkh) (not_lt.mpr (hnew hk))
  · -- Keys that are new now are above all that others have used.
    rw [hown, newIds_append]
    intro k hk hk'
    rcases List.mem_append.mp hk with hk | hk
    · exact h.apart i j hj.symm k hk hk'
    · exact absurd (h.fresh j k hk') (not_lt.mpr (hnew hk))
  · rw [hown, newIds_append]
    refine List.nodup_append.mpr ⟨h.distinct i, newIds_tag_nodup hD s i st, ?_⟩
    rintro k hk _ hk' rfl
    exact absurd (h.fresh i k hk) (not_lt.mpr (hnew hk'))
  · rw [record_conn] at hd
    simp [halive] at hd

theorem answer_wf (hD : D.Lawful) {s s' : Server D} {i : Nat} {c : Call D} {r : c.Reply} (hw : s.WF)
    (halive : (s.conns i).alive = true) (h : s.answer i c = some (r, s')) : s'.WF := by
  have hm := answer_moved hD h
  cases c with
  | setAutoCommit on =>
    obtain rfl : _ = s' := congrArg Prod.snd (Option.some.inj h)
    apply WF.setMode
    split
    · exact hw.of_cleared (moved_publish s i) (by simp)
    · exact hw
  | commit => cases h; exact hw.of_cleared hm (by simp)
  | rollback => cases h; exact hw.of_cleared hm (by simp)
  | exec st =>
    simp only [answer] at h
    split at h
    · rename_i hfree
      cases h
      exact hw.record hD halive hfree
    · cases h
  | finish =>
    obtain rfl : _ = s' := congrArg Prod.snd (Option.some.inj h)
    split
    · exact hw.of_cleared (moved_publish s i) (by simp)
    · exact hw

theorem perform_wf (hD : D.Lawful) {s s' : Server D} {i : Nat} {c : Call D} {f : Option Fault}
    {o : Except SqlException c.Reply} (hw : s.WF) (h : perform i c f s = some (o, s')) : s'.WF := by
  have hm := perform_moved hD h
  rcases perform_cases h with ⟨r, -, ha, hr, -⟩ | ⟨x, -, ha, hx, -⟩ | ⟨x, -, -, rfl, -⟩
  · exact answer_wf hD hw ha hr
  · cases hharm : x.harm <;> rw [hharm] at hx
    case refused =>
      simp only [fail, Option.some.injEq] at hx
      rw [← hx]
      split
      · exact hw.of_cleared (moved_discard s i) (by simp)
      · exact hw
    case aborted => cases hx; exact hw.of_cleared hm (by simp)
    case lost => cases hx; exact hw.of_cleared hm (by simp)
    case replyLost =>
      obtain ⟨⟨r, t⟩, -, rfl⟩ := Option.map_eq_some_iff.mp hx
      exact hw.of_cleared hm (by simp)
  · exact hw

end Server

end Lib
