import J1Server.Lib.Autocommit
import J1Server.Lobby.TokenTasks

/-! # Rules for requests that commit every statement

What a request does on a connection with autocommit on, whatever the other
connections keep to: the rule for `borrow`, and the rule for a sign-in. -/

namespace Lobby

open Lib Lib.Server Core

variable {Inv : Server lobbyDb → Prop} {G : Server lobbyDb → Server lobbyDb → Prop} {law : Call lobbyDb → Harm → Bool}
  {i : Nat} {s : Server lobbyDb} {alloc : Allocation} {p : ConnectionPool} {α : Type}

theorem safe_borrow (hA : Autonomous Inv G) {f : Connection → Act (Sql lobbyDb) ConnectionPool α}
    {Q : Except SqlException α × ConnectionPool → Server lobbyDb → Prop} (h : Resting Inv i s)
    (hok : ∀ conn p', Safe (Others G i) (Step law i) G ((f conn).prog p') (fun _ => Q) s)
    (herr : ∀ e s', Resting Inv i s' → G s s' → Q (.error e, p) s') :
    Safe (Others G i) (Step law i) G ((borrow alloc >>= f).prog p) (fun _ => Q) s := by
  unfold borrow
  rw [bind_assoc, Act.prog_get_bind]
  split
  · exact hok _ _
  · exact hA.safe_done h fun s' hs hg => herr _ s' hs hg

/-! ## Sign-ins -/

/-- What others do keeps `P`, and an insertion of this token that begins after `s` makes it true. -/
structure Inserts (G : Server lobbyDb → Server lobbyDb → Prop) (P : Int × String → Server lobbyDb → Prop) (i : Nat)
    (accountId : Int) (s : Server lobbyDb) (token : String) : Prop where
  stable : ∀ result s s', P result s → G s s' → P result s'
  inserted : ∀ s₀ s₁ s₂, G s s₀ → Ran (Others G i) i (.insertSession accountId token) s₀ s₁ s₂ →
    G s₀ (s₂.publish i) → P (accountId, token) (s₂.publish i)

variable {P : Int × String → Server lobbyDb → Prop} {accountId : Int} {token : String} {tokens : List String}

theorem Inserts.later (hA : Autonomous Inv G) (h : Inserts G P i accountId s token) {s' : Server lobbyDb}
    (hg : G s s') : Inserts G P i accountId s' token :=
  ⟨h.stable, fun s₀ s₁ s₂ hbefore => h.inserted s₀ s₁ s₂ (hA.trans _ _ _ hg hbefore)⟩

/-- What was begun in `s` is over, and a result that it has is `P`. -/
def Ends (Inv : Server lobbyDb → Prop) (G : Server lobbyDb → Server lobbyDb → Prop)
    (P : Int × String → Server lobbyDb → Prop) (i : Nat) (s : Server lobbyDb)
    (r : Except SqlException (Option (Int × String)) × ConnectionPool) (s' : Server lobbyDb) : Prop :=
  Resting Inv i s' ∧ G s s' ∧ ∀ result, r.1 = .ok (some result) → P result s'

variable {s' : Server lobbyDb}

theorem Ends.earlier (hA : Autonomous Inv G) (hg : G s s')
    {r : Except SqlException (Option (Int × String)) × ConnectionPool} {s'' : Server lobbyDb}
    (h : Ends Inv G P i s' r s'') : Ends Inv G P i s r s'' :=
  ⟨h.1, hA.trans _ _ _ hg h.2.1, h.2.2⟩

theorem safe_ends (hA : Autonomous Inv G) (hstable : ∀ result s s', P result s → G s s' → P result s')
    (h : Resting Inv i s') (hg : G s s') {r : Except SqlException (Option (Int × String))}
    (hr : ∀ result, r = .ok (some result) → P result s') :
    Safe (Others G i) (Step law i) G (.done (r, p) : Prog (Sql lobbyDb) _) (fun _ => Ends Inv G P i s) s' :=
  hA.safe_done h fun _ hresting hg' =>
    ⟨hresting, hA.trans _ _ _ hg hg', fun result heq => hstable _ _ _ (hr result heq) hg'⟩

/-- One turn: where nothing was thrown, the token is inserted. -/
theorem insertToken_rule (hA : Autonomous Inv G) (h : Resting Inv i s) (hinsert : Inserts G P i accountId s token)
    (result : Int × String) :
    Safe (Others G i) (Step law i) G ((insertToken accountId token result).prog p) (fun _ r s' =>
      Resting Inv i s' ∧ G s s' ∧ ∃ n kept, r.1 = .ok (n, kept) ∧ (¬n < 0 → P kept s')) s := by
  have hstatement : Safe (Others G i) (Step law i) G
      ((executeUpdate (.insertSession accountId token) >>= fun successInsert : Int =>
        pure (successInsert, accountId, token) : Act (Sql lobbyDb) ConnectionPool _).prog p) (fun _ r s' =>
        Resting Inv i s' ∧ G s s' ∧ ∀ v, r.1 = .ok v → P v.2 s') s := by
    refine hA.safe_statement (.insertSession accountId token) h (fun s₁ s₂ hran hbefore hafter hresting => ?_) ?_
    · have hdone : G s (s₂.publish i) := hA.trans _ _ _ hbefore hafter
      have hP : P (accountId, token) (s₂.publish i) := hinsert.inserted s s₁ s₂ (hA.refl s) hran hdone
      refine hA.safe_done hresting fun s' hresting' hg => ⟨hresting', hA.trans _ _ _ hdone hg, ?_⟩
      rintro v ⟨⟩
      exact hinsert.stable _ _ _ hP hg
    · rintro e s' hresting hg
      exact ⟨hresting, hg, by rintro _ ⟨⟩⟩
  unfold insertToken
  rw [Act.prog_tryCatch]
  refine Safe.bind (hstatement.mono ?_) (hA.surroundings i).refl
  rintro tr ⟨r, t'⟩ s' ⟨hresting, hg, hkept⟩
  cases r with
  | ok v =>
    refine hA.safe_done hresting fun s'' hresting' hg' =>
      ⟨hresting', hA.trans _ _ _ hg hg', v.1, v.2, rfl, fun _ => ?_⟩
    exact hinsert.stable _ _ _ (hkept v rfl) hg'
  | error e =>
    refine hA.safe_done hresting fun s'' hresting' hg' =>
      ⟨hresting', hA.trans _ _ _ hg hg', -1, result, rfl, fun hneg => ?_⟩
    omega

/-- The loop: what it ends with was inserted. -/
theorem insertTokens_rule (hA : Autonomous Inv G) (h : Resting Inv i s)
    (hinsert : ∀ x ∈ token :: tokens, Inserts G P i accountId s x) (result : Int × String) :
    Safe (Others G i) (Step law i) G ((insertTokens accountId token tokens result).prog p)
      (fun _ => Ends Inv G P i s) s := by
  obtain ⟨hfirst, hrest⟩ := List.forall_mem_cons.mp hinsert
  induction tokens generalizing s p token result with
  | nil =>
    unfold insertTokens
    refine hA.safe_bind (insertToken_rule hA h hfirst result) (fun v t' s' hP => ?_) fun e t' s' hP => ?_
    · obtain ⟨hresting, hg, n, kept, heq, hkept⟩ := hP
      obtain rfl := Except.ok.inj heq
      dsimp only
      split
      · exact safe_ends hA hfirst.stable hresting hg (by rintro _ ⟨⟩)
      · rename_i hn
        refine safe_ends hA hfirst.stable hresting hg ?_
        rintro _ ⟨⟩
        exact hkept hn
    · obtain ⟨-, -, n, kept, heq, -⟩ := hP
      cases heq
  | cons next tokens ih =>
    unfold insertTokens
    refine hA.safe_bind (insertToken_rule hA h hfirst result) (fun v t' s' hP => ?_) fun e t' s' hP => ?_
    · obtain ⟨hresting, hg, n, kept, heq, hkept⟩ := hP
      obtain rfl := Except.ok.inj heq
      dsimp only
      split
      · have hnext : ∀ x ∈ next :: tokens, Inserts G P i accountId s' x := fun x hx => (hrest x hx).later hA hg
        obtain ⟨hsecond, hothers⟩ := List.forall_mem_cons.mp hnext
        exact (ih hresting hnext kept hsecond hothers).mono fun _ _ _ hends => hends.earlier hA hg
      · rename_i hn
        refine safe_ends hA hfirst.stable hresting hg ?_
        rintro _ ⟨⟩
        exact hkept hn
    · obtain ⟨-, -, n, kept, heq, -⟩ := hP
      cases heq

variable {b : BCrypt} {id pw : String}

/-- What is shown of a sign-in that begins in `s`: the accounts are read in `s₁`, and then the password is refused,
or a token is inserted after that. -/
structure Authenticates (G : Server lobbyDb → Server lobbyDb → Prop) (P : Int × String → Server lobbyDb → Prop)
    (b : BCrypt) (i : Nat) (id pw : String) (tokens : List String) (s : Server lobbyDb) : Prop where
  stable : ∀ result s s', P result s → G s s' → P result s'
  refused : ∀ s₁ s', G s s₁ → G s₁ s' →
    b.validatePassword pw (credentialsOf (credentialRow s₁.db id)).2 = false → P (-1, "") s'
  granted : ∀ s₁, G s s₁ → b.validatePassword pw (credentialsOf (credentialRow s₁.db id)).2 = true →
    ∀ token ∈ tokens, Inserts G P i (credentialsOf (credentialRow s₁.db id)).1 s₁ token

theorem signIn_rule (hA : Autonomous Inv G) (h : Resting Inv i s)
    (hd : Authenticates G P b i id pw (token :: tokens) s) :
    Safe (Others G i) (Step law i) G ((signIn b id pw token tokens).prog p) (fun _ => Ends Inv G P i s) s := by
  unfold signIn
  refine hA.safe_statement (.selectAccount id) h (fun s₁ s₂ hran hbefore hafter hresting => ?_) ?_
  · have hreply : (s₁.effect i (.selectAccount id)).reply = credentialRow s₁.db id := by
      rw [Server.effect, hran.view]
      rfl
    have hg₂ : G s (s₂.publish i) := hA.trans _ _ _ hbefore hafter
    rw [hreply]
    dsimp only
    split
    · rename_i hvalid
      have hinsert : ∀ x ∈ token :: tokens, Inserts G P i (credentialsOf (credentialRow s₁.db id)).1 (s₂.publish i) x :=
        fun x hx => (hd.granted s₁ hbefore hvalid x hx).later hA hafter
      refine hA.safe_bind (insertTokens_rule hA hresting hinsert (-1, "")) (fun v t' s₃ hends => ?_)
        fun e t' s₃ hends => ?_
      · obtain ⟨hresting₃, hg₃, hdrawn⟩ := hends.earlier hA hg₂
        cases v with
        | none => exact safe_ends hA hd.stable hresting₃ hg₃ (by rintro _ ⟨⟩)
        | some result =>
          refine hA.safe_statement (.updateLastLogin id) hresting₃ (fun s₄ s₅ _ hbefore₄ hafter₄ hresting₅ => ?_) ?_
          · have hg₅ : G s₃ (s₅.publish i) := hA.trans _ _ _ hbefore₄ hafter₄
            refine safe_ends hA hd.stable hresting₅ (hA.trans _ _ _ hg₃ hg₅) ?_
            rintro _ ⟨⟩
            exact hd.stable _ _ _ (hdrawn result rfl) hg₅
          · rintro e s' hresting' hg'
            exact ⟨hresting', hA.trans _ _ _ hg₃ hg', by rintro _ ⟨⟩⟩
      · obtain ⟨hresting₃, hg₃, -⟩ := hends.earlier hA hg₂
        exact safe_ends hA hd.stable hresting₃ hg₃ (by rintro _ ⟨⟩)
    · rename_i hinvalid
      refine safe_ends hA hd.stable hresting hg₂ ?_
      rintro _ ⟨⟩
      exact hd.refused s₁ _ hbefore hafter (Bool.eq_false_of_not_eq_true hinvalid)
  · rintro e s' hresting hg
    exact ⟨hresting, hg, by rintro _ ⟨⟩⟩

theorem trySignIn_rule (hA : Autonomous Inv G) (h : Resting Inv i s)
    (hd : Authenticates G P b i id pw (token :: tokens) s) :
    Safe (Others G i) (Step law i) G ((trySignIn b alloc id pw token tokens).prog p) (fun _ => Ends Inv G P i s) s := by
  unfold trySignIn
  refine safe_borrow hA h (fun conn p' => ?_) ?_
  · refine hA.safe_bind (signIn_rule hA h hd) (fun v t' s' hends => ?_) fun e t' s' hends => ?_
    · obtain ⟨hresting, hg, hsigned⟩ := hends
      cases v with
      | none => exact safe_ends hA hd.stable hresting hg (by rintro _ ⟨⟩)
      | some result =>
        refine safe_ends hA hd.stable hresting hg ?_
        rintro _ ⟨⟩
        exact hsigned _ rfl
    · exact safe_ends hA hd.stable hends.1 hends.2.1 (by rintro _ ⟨⟩)
  · rintro e s' hresting hg
    exact ⟨hresting, hg, by rintro _ ⟨⟩⟩

theorem login_rule (hA : Autonomous Inv G) (h : Resting Inv i s)
    (hd : Authenticates G P b i id pw (token :: tokens) s) :
    Safe (Others G i) (Step law i) G ((handleReqLogin b alloc id pw token tokens).prog p) (fun _ r s' =>
      Resting Inv i s' ∧ G s s' ∧
      ∀ result : ResLogin, r.1 = .ok (some result) → P (result.playerId, result.token) s') s := by
  unfold handleReqLogin
  refine hA.safe_bind (trySignIn_rule hA h hd) (fun v t' s' hends => ?_) fun e t' s' hends => ?_
  · obtain ⟨hresting, hg, hsigned⟩ := hends
    refine hA.safe_done hresting fun s'' hresting' hg' => ⟨hresting', hA.trans _ _ _ hg hg', ?_⟩
    intro result hr
    obtain ⟨signed, rfl, rfl⟩ := Option.map_eq_some_iff.mp (Except.ok.inj hr)
    exact hd.stable _ _ _ (hsigned _ rfl) hg'
  · exact hA.safe_done hends.1 fun s'' hresting' hg' => ⟨hresting', hA.trans _ _ _ hends.2.1 hg', by rintro _ ⟨⟩⟩

end Lobby
