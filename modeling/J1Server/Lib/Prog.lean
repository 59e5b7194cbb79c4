import Mathlib.Init

/-!
# Programs that call a server

A program is a tree of calls. Each call is answered by a value or by an
exception, and the program goes on from the answer. Between two calls of a
program other parties may act: `rely` says what they can do. `Safe` is the
weakest precondition of a program under such interference; it also says, with
`guar`, what each single step of the program does to the shared state.
-/

namespace Lib

/-- The calls a program can make, the answer of each, and its exceptions. -/
structure Iface where
  Call : Type
  Reply : Call → Type
  Err : Type

inductive Prog (I : Iface) (α : Type) where
  | done (a : α)
  | call (c : I.Call) (k : Except I.Err (I.Reply c) → Prog I α)

structure Answered (I : Iface) where
  call : I.Call
  answer : Except I.Err (I.Reply call)

variable {I : Iface} {α β S : Type}

namespace Prog

def bind (p : Prog I α) (f : α → Prog I β) : Prog I β :=
  match p with
  | done a => f a
  | call c k => call c fun o => (k o).bind f

instance : Monad (Prog I) where
  pure := done
  bind := bind

@[simp] theorem pure_eq (a : α) : (pure a : Prog I α) = done a := rfl
@[simp] theorem bind_eq (p : Prog I α) (f : α → Prog I β) : p >>= f = p.bind f := rfl
@[simp] theorem done_bind (a : α) (f : α → Prog I β) : (done a : Prog I α).bind f = f a := rfl
@[simp] theorem call_bind (c : I.Call) (k : Except I.Err (I.Reply c) → Prog I α) (f : α → Prog I β) :
    (call c k).bind f = call c fun o => (k o).bind f := rfl

theorem bind_assoc {γ : Type} (p : Prog I α) (f : α → Prog I β) (g : β → Prog I γ) :
    (p.bind f).bind g = p.bind fun a => (f a).bind g := by
  induction p with
  | done a => rfl
  | call c k ih => exact congrArg (call c) (funext fun o => ih o)

theorem bind_done (p : Prog I α) : p.bind done = p := by
  induction p with
  | done a => rfl
  | call c k ih => exact congrArg (call c) (funext fun o => ih o)

instance : LawfulMonad (Prog I) :=
  LawfulMonad.mk' _ (fun p => bind_done p) (fun _ _ => rfl) fun p f g => bind_assoc p f g

/-- Whatever the calls answer, the program ends in `Q`. -/
def Ends (Q : α → Prop) : Prog I α → Prop
  | done a => Q a
  | call _ k => ∀ o, (k o).Ends Q

/-- Where no call throws, the program ends in `Q`. -/
def Succeeds (Q : α → Prop) : Prog I α → Prop
  | done a => Q a
  | call _ k => ∀ r, (k (.ok r)).Succeeds Q

theorem ends_trivial (p : Prog I α) : p.Ends fun _ => True := by
  induction p with
  | done a => trivial
  | call c k ih => exact fun o => ih o

theorem Ends.mono {P Q : α → Prop} {p : Prog I α} (h : p.Ends P) (hQ : ∀ a, P a → Q a) : p.Ends Q := by
  induction p with
  | done a => exact hQ a h
  | call c k ih => exact fun o => ih o (h o)

theorem Ends.bind {P : α → Prop} {Q : β → Prop} {p : Prog I α} {f : α → Prog I β} (h : p.Ends P)
    (hf : ∀ a, P a → (f a).Ends Q) : (p.bind f).Ends Q := by
  induction p with
  | done a => exact hf a h
  | call c k ih => exact fun o => ih o (h o)

/-- Every call that the program can make is in `P`. -/
def Calls (P : I.Call → Prop) : Prog I α → Prop
  | done _ => True
  | call c k => P c ∧ ∀ o, (k o).Calls P

theorem Calls.bind {P : I.Call → Prop} {p : Prog I α} {f : α → Prog I β} (h : p.Calls P)
    (hf : ∀ a, (f a).Calls P) : (p.bind f).Calls P := by
  induction p with
  | done a => exact hf a
  | call c k ih => exact ⟨h.1, fun o => ih o (h.2 o)⟩

/-- As long as the answers are as `can` says, every call is in `P`, and the program ends in `Q`. -/
def Guided (can : (c : I.Call) → Except I.Err (I.Reply c) → Prop) (P : I.Call → Prop) (Q : α → Prop) :
    Prog I α → Prop
  | done a => Q a
  | call c k => P c ∧ ∀ o, can c o → (k o).Guided can P Q

theorem Guided.bind {can : (c : I.Call) → Except I.Err (I.Reply c) → Prop} {P : I.Call → Prop} {R : α → Prop}
    {Q : β → Prop} {p : Prog I α} {f : α → Prog I β} (h : p.Guided can P R)
    (hf : ∀ a, R a → (f a).Guided can P Q) : (p.bind f).Guided can P Q := by
  induction p with
  | done a => exact hf a h
  | call c k ih => exact ⟨h.1, fun o ho => ih o (h.2 o ho)⟩

def perform (c : I.Call) : Prog I (Except I.Err (I.Reply c)) := call c done

end Prog

/-! ## Complete executions -/

/-- `p` ends in `a` and `t`, after the calls `tr`, from `s`. -/
inductive Exec (rely : S → S → Prop) (step : (c : I.Call) → S → Except I.Err (I.Reply c) → S → Prop) :
    Prog I α → S → List (Answered I) → α → S → Prop
  | done {a : α} {s t : S} : rely s t → Exec rely step (.done a) s [] a t
  | call {c : I.Call} {k : Except I.Err (I.Reply c) → Prog I α} {s s₁ s₂ t : S}
      {o : Except I.Err (I.Reply c)} {tr : List (Answered I)} {a : α} :
      rely s s₁ → step c s₁ o s₂ → Exec rely step (k o) s₂ tr a t →
      Exec rely step (.call c k) s (⟨c, o⟩ :: tr) a t

theorem Prog.Ends.exec {rely : S → S → Prop} {step : (c : I.Call) → S → Except I.Err (I.Reply c) → S → Prop}
    {Q : α → Prop} {p : Prog I α} {s t : S} {tr : List (Answered I)} {a : α} (hp : p.Ends Q)
    (h : Exec rely step p s tr a t) : Q a := by
  induction h with
  | done => exact hp
  | call _ _ _ ih => exact ih (hp _)

/-- An execution whose answers are as `can` says made only calls in `P`, and ended in `Q`. -/
theorem Prog.Guided.exec {rely : S → S → Prop} {step : (c : I.Call) → S → Except I.Err (I.Reply c) → S → Prop}
    {can : (c : I.Call) → Except I.Err (I.Reply c) → Prop} {P : I.Call → Prop} {Q : α → Prop} {p : Prog I α}
    {s t : S} {tr : List (Answered I)} {a : α} (hp : p.Guided can P Q)
    (hcan : ∀ c s o s', step c s o s' → can c o) (h : Exec rely step p s tr a t) : (∀ x ∈ tr, P x.call) ∧ Q a := by
  induction h with
  | done => exact ⟨by simp, hp⟩
  | call _ hs _ ih =>
    obtain ⟨hcalls, hend⟩ := ih (hp.2 _ (hcan _ _ _ _ hs))
    exact ⟨List.forall_mem_cons.mpr ⟨hp.1, hcalls⟩, hend⟩

/-- The execution that a list of choices picks, with nobody else acting. -/
def Prog.eval {F : Type} (h : (c : I.Call) → F → S → Option (Except I.Err (I.Reply c) × S)) :
    Prog I α → List F → S → Option (List (Answered I) × α × S)
  | .done a, _, s => some ([], a, s)
  | .call _ _, [], _ => none
  | .call c k, f :: fs, s =>
    (h c f s).bind fun r => ((k r.1).eval h fs r.2).map fun x => (⟨c, r.1⟩ :: x.1, x.2)

theorem Prog.eval_exec {F : Type} {h : (c : I.Call) → F → S → Option (Except I.Err (I.Reply c) × S)}
    {rely : S → S → Prop} {step : (c : I.Call) → S → Except I.Err (I.Reply c) → S → Prop}
    (hr : ∀ s, rely s s) (hs : ∀ c f s o s', h c f s = some (o, s') → step c s o s')
    {p : Prog I α} {fs : List F} {s t : S} {tr : List (Answered I)} {a : α}
    (he : p.eval h fs s = some (tr, a, t)) : Exec rely step p s tr a t := by
  induction p generalizing fs s tr with
  | done a' =>
    simp only [Prog.eval, Option.some.injEq, Prod.mk.injEq] at he
    obtain ⟨rfl, rfl, rfl⟩ := he
    exact .done (hr _)
  | call c k ih =>
    cases fs with
    | nil => simp [Prog.eval] at he
    | cons f fs =>
      simp only [Prog.eval, Option.bind_eq_some_iff, Option.map_eq_some_iff] at he
      obtain ⟨⟨o, s'⟩, hc, ⟨tr', a', t'⟩, hk, heq⟩ := he
      simp only [Prod.mk.injEq] at heq
      obtain ⟨rfl, rfl, rfl⟩ := heq
      exact .call (hr _) (hs _ _ _ _ _ hc) (ih _ hk)

/-! ## Safe programs -/

/-- From `s`, under `rely`, every step of `p` is in `guar`, and every end of `p` is in `Q`. -/
def Safe (rely : S → S → Prop) (step : (c : I.Call) → S → Except I.Err (I.Reply c) → S → Prop)
    (guar : S → S → Prop) : Prog I α → (List (Answered I) → α → S → Prop) → S → Prop
  | .done a, Q, s => ∀ s', rely s s' → Q [] a s'
  | .call c k, Q, s => ∀ s₁, rely s s₁ → ∀ o s₂, step c s₁ o s₂ →
      guar s₁ s₂ ∧ Safe rely step guar (k o) (fun tr => Q (⟨c, o⟩ :: tr)) s₂

section Safe

variable {rely guar : S → S → Prop} {step : (c : I.Call) → S → Except I.Err (I.Reply c) → S → Prop}

theorem Safe.done {a : α} {Q : List (Answered I) → α → S → Prop} {s : S}
    (h : ∀ s', rely s s' → Q [] a s') : Safe rely step guar (.done a) Q s := h

theorem Safe.of_steps (hstep : ∀ c s o s', step c s o s' → guar s s') (p : Prog I α) (s : S) :
    Safe rely step guar p (fun _ _ _ => True) s := by
  induction p generalizing s with
  | done a => exact fun _ _ => trivial
  | call c k ih => exact fun s₁ _ o s₂ hs => ⟨hstep c s₁ o s₂ hs, ih o s₂⟩

theorem Safe.of_calls {P : I.Call → Prop} {J : S → Prop} (hrely : ∀ s s', J s → rely s s' → J s')
    (hstep : ∀ c s o s', P c → J s → step c s o s' → guar s s' ∧ J s') {p : Prog I α} (h : p.Calls P) {s : S}
    (hs : J s) : Safe rely step guar p (fun _ _ s' => J s') s := by
  induction p generalizing s with
  | done a => exact fun s' hr => hrely s s' hs hr
  | call c k ih =>
    intro s₁ hr o s₂ hs₂
    obtain ⟨hguar, hJ⟩ := hstep c s₁ o s₂ h.1 (hrely s s₁ hs hr) hs₂
    exact ⟨hguar, ih o (h.2 o) hJ⟩

/-- The rule of consequence. -/
theorem Safe.mono {p : Prog I α} {Q Q' : List (Answered I) → α → S → Prop} {s : S}
    (h : Safe rely step guar p Q s) (hQ : ∀ tr a s', Q tr a s' → Q' tr a s') :
    Safe rely step guar p Q' s := by
  induction p generalizing Q Q' s with
  | done a => exact fun s' hr => hQ _ _ _ (h s' hr)
  | call c k ih =>
    intro s₁ hr o s₂ hs
    exact ⟨(h s₁ hr o s₂ hs).1, ih o (h s₁ hr o s₂ hs).2 fun _ _ _ => hQ _ _ _⟩

/-- The rule of sequencing. -/
theorem Safe.bind {p : Prog I α} {f : α → Prog I β} {Q : List (Answered I) → β → S → Prop} {s : S}
    (h : Safe rely step guar p
      (fun tr a s' => Safe rely step guar (f a) (fun tr' => Q (tr ++ tr')) s') s)
    (hrefl : ∀ s, rely s s) : Safe rely step guar (p.bind f) Q s := by
  induction p generalizing Q s with
  | done a => exact h s (hrefl s)
  | call c k ih =>
    intro s₁ hr o s₂ hs
    exact ⟨(h s₁ hr o s₂ hs).1, ih o (h s₁ hr o s₂ hs).2⟩

/-- Interference does not make a safe program unsafe. -/
theorem Safe.interfere {p : Prog I α} {Q : List (Answered I) → α → S → Prop} {s s' : S}
    (h : Safe rely step guar p Q s) (htrans : ∀ a b c, rely a b → rely b c → rely a c)
    (hr : rely s s') : Safe rely step guar p Q s' := by
  cases p with
  | done a => exact fun s'' hr' => h s'' (htrans _ _ _ hr hr')
  | call c k => exact fun s₁ hr₁ => h s₁ (htrans _ _ _ hr hr₁)

/-- A safe program ends only where its postcondition holds. -/
theorem Safe.exec {p : Prog I α} {Q : List (Answered I) → α → S → Prop} {s t : S}
    {tr : List (Answered I)} {a : α} (h : Safe rely step guar p Q s)
    (he : Exec rely step p s tr a t) : Q tr a t := by
  induction he generalizing Q with
  | done hr => exact h _ hr
  | call hr hs _ ih => exact ih (h _ hr _ _ hs).2

end Safe

/-! ## Programs with exceptions and an output cell -/

/-- A function that may throw, with one cell `σ` that survives the exception. -/
abbrev Act (I : Iface) (σ α : Type) := ExceptT I.Err (StateT σ (Prog I)) α

namespace Act

variable {σ : Type}

def prog (x : Act I σ α) (t : σ) : Prog I (Except I.Err α × σ) := (ExceptT.run x).run t

def call (c : I.Call) : Act I σ (I.Reply c) :=
  ExceptT.mk fun t => Prog.call c fun o => .done (o, t)

@[simp] theorem prog_pure (a : α) (t : σ) : (pure a : Act I σ α).prog t = .done (.ok a, t) := rfl

@[simp] theorem prog_throw (e : I.Err) (t : σ) :
    (throw e : Act I σ α).prog t = .done (.error e, t) := rfl

@[simp] theorem prog_call (c : I.Call) (t : σ) :
    (call c : Act I σ _).prog t = Prog.call c fun o => .done (o, t) := rfl

@[simp] theorem prog_get (t : σ) : (get : Act I σ σ).prog t = .done (.ok t, t) := rfl

@[simp] theorem prog_get_bind (f : σ → Act I σ β) (t : σ) : (get >>= f).prog t = (f t).prog t := rfl

@[simp] theorem prog_set (t t' : σ) : (set t' : Act I σ PUnit).prog t = .done (.ok ⟨⟩, t') := rfl

theorem prog_bind (x : Act I σ α) (f : α → Act I σ β) (t : σ) :
    (x >>= f).prog t = (x.prog t).bind fun r =>
      match r with
      | (.ok a, t') => (f a).prog t'
      | (.error e, t') => .done (.error e, t') := by
  change (x.prog t).bind _ = (x.prog t).bind _
  congr 1
  funext ⟨r, t'⟩
  cases r <;> rfl

theorem prog_tryCatch (x : Act I σ α) (h : I.Err → Act I σ α) (t : σ) :
    (tryCatch x h).prog t = (x.prog t).bind fun r =>
      match r with
      | (.ok a, t') => .done (.ok a, t')
      | (.error e, t') => (h e).prog t' := by
  change (x.prog t).bind _ = (x.prog t).bind _
  congr 1
  funext ⟨r, t'⟩
  cases r <;> rfl

@[simp] theorem prog_pure_bind (a : α) (f : α → Act I σ β) (t : σ) :
    (pure a >>= f).prog t = (f a).prog t := rfl

@[simp] theorem prog_throw_bind (e : I.Err) (f : α → Act I σ β) (t : σ) :
    (throw e >>= f).prog t = .done (.error e, t) := rfl

@[simp] theorem prog_set_bind (t t' : σ) (f : PUnit → Act I σ β) :
    (set t' >>= f).prog t = (f ⟨⟩).prog t' := rfl

@[simp] theorem prog_call_bind (c : I.Call) (f : I.Reply c → Act I σ β) (t : σ) :
    (call c >>= f).prog t = Prog.call c fun o =>
      match o with
      | .ok a => (f a).prog t
      | .error e => .done (.error e, t) := by
  rw [prog_bind, prog_call, Prog.call_bind]
  congr 1
  funext o
  cases o <;> rfl

section Guided

variable {can : (c : I.Call) → Except I.Err (I.Reply c) → Prop} {P : I.Call → Prop} {t : σ}

theorem guided_bind {x : Act I σ α} {f : α → Act I σ β} {R : Except I.Err α × σ → Prop}
    {Q : Except I.Err β × σ → Prop} (hx : (x.prog t).Guided can P R)
    (hok : ∀ a t', R (.ok a, t') → ((f a).prog t').Guided can P Q)
    (herr : ∀ e t', R (.error e, t') → Q (.error e, t')) : ((x >>= f).prog t).Guided can P Q := by
  rw [prog_bind]
  refine hx.bind ?_
  rintro ⟨o, t'⟩ hR
  cases o with
  | ok a => exact hok a t' hR
  | error e => exact herr e t' hR

theorem guided_tryCatch {x : Act I σ α} {h : I.Err → Act I σ α} {R Q : Except I.Err α × σ → Prop}
    (hx : (x.prog t).Guided can P R) (hok : ∀ a t', R (.ok a, t') → Q (.ok a, t'))
    (herr : ∀ e t', R (.error e, t') → ((h e).prog t').Guided can P Q) :
    ((tryCatch x h).prog t).Guided can P Q := by
  rw [prog_tryCatch]
  refine hx.bind ?_
  rintro ⟨o, t'⟩ hR
  cases o with
  | ok a => exact hok a t' hR
  | error e => exact herr e t' hR

end Guided

/-- A result that is only passed on can be passed on after the catch block. -/
theorem tryCatch_map (f : α → β) (x : Act I σ α) (h : I.Err → Act I σ α) :
    tryCatch (x >>= fun a => pure (f a)) (fun e => h e >>= fun a => pure (f a)) =
      (tryCatch x h >>= fun a => pure (f a)) := by
  refine funext fun t => ?_
  change (tryCatch (x >>= fun a => pure (f a)) fun e => h e >>= fun a => pure (f a)).prog t =
    (tryCatch x h >>= fun a => pure (f a)).prog t
  rw [prog_tryCatch, prog_bind, prog_bind, prog_tryCatch, Prog.bind_assoc, Prog.bind_assoc]
  congr 1
  funext ⟨r, t'⟩
  cases r with
  | ok a => rfl
  | error e => exact prog_bind (h e) _ t'

theorem ends_map (f : α → β) (x : Act I σ α) (t : σ) :
    ((x >>= fun a => pure (f a)).prog t).Ends fun r => ∀ b, r.1 = .ok b → ∃ a, b = f a := by
  rw [prog_bind]
  refine (Prog.ends_trivial _).bind ?_
  rintro ⟨r, t'⟩ -
  cases r with
  | ok a =>
    rintro b hb
    exact ⟨a, (Except.ok.inj hb).symm⟩
  | error e =>
    rintro b ⟨⟩

theorem calls_ite {P : I.Call → Prop} {c : Prop} [Decidable c] {x y : Act I σ α} {t : σ}
    (hx : c → (x.prog t).Calls P) (hy : ¬c → (y.prog t).Calls P) : ((if c then x else y).prog t).Calls P := by
  split
  · rename_i h
    exact hx h
  · rename_i h
    exact hy h

theorem calls_bind {P : I.Call → Prop} {x : Act I σ α} {f : α → Act I σ β} {t : σ} (hx : (x.prog t).Calls P)
    (hf : ∀ a t, ((f a).prog t).Calls P) : ((x >>= f).prog t).Calls P := by
  rw [prog_bind]
  refine hx.bind fun r => ?_
  obtain ⟨o, t'⟩ := r
  cases o with
  | ok a => exact hf a t'
  | error e => trivial

theorem calls_call {P : I.Call → Prop} {c : I.Call} {t : σ} (hc : P c) : ((call c : Act I σ _).prog t).Calls P :=
  ⟨hc, fun _ => trivial⟩

end Act

end Lib
