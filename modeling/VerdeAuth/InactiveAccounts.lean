import VerdeAuth.SecondFactorGate

/-!
# Tokens of deactivated accounts

`refresh` looks at `isActive` before it hands out tokens. A login and the three
verifications do not: they refuse a deactivated account for other reasons only.
-/

namespace VerdeAuth.InactiveAccounts

open JsonTexts KeyedTables IamTables IamOperations ResumptionPrograms UsersService TokenServices
open MfaServices AuthService MfaController IamEndpoints IamRules IamAssumptions UserRowChanges
open RequestEndings RequestRuns SecondFactorGate

variable {N : Type} {env : Env N} {w : World} {q : Timed N} {u : User}

/-- The answer holds an access or refresh token of the user. -/
def CarriesToken (res : Except Failure Reply) (i : UserId) : Prop :=
  ∃ reply tokens, res = .ok reply ∧ reply.tokens? = some tokens ∧
    (tokens.accessToken.payload.sub = i ∨ tokens.refreshToken.payload.sub = i)

theorem carriesToken_of_for {reply : Reply} {tokens : TokenPair} {i : UserId}
    (h : reply.tokens? = some tokens) (ht : TokensFor i tokens) : CarriesToken (.ok reply) i :=
  ⟨reply, tokens, rfl, h, Or.inl ht.1⟩

theorem id_of_carriesToken {reply : Reply} {tokens : TokenPair} {i j : UserId}
    (h : CarriesToken (.ok reply) i) (hr : reply.tokens? = some tokens) (ht : TokensFor j tokens) :
    j = i := by
  obtain ⟨reply', tokens', heq, hr', hsub⟩ := h
  cases heq
  rw [hr] at hr'
  cases hr'
  rcases hsub with hsub | hsub
  · exact ht.1.symm.trans hsub
  · exact ht.2.symm.trans hsub

theorem not_carriesToken_error {e : Failure} {i : UserId} : ¬ CarriesToken (.error e) i := by
  rintro ⟨reply, tokens, heq, -⟩
  cases heq

theorem not_carriesToken_none {reply : Reply} {i : UserId} (h : reply.tokens? = none) :
    ¬ CarriesToken (.ok reply) i := by
  rintro ⟨reply', tokens, heq, hr, -⟩
  cases heq
  rw [h] at hr
  cases hr

/-- Tokens from `refresh` are made out to an active user. -/
def ToActive (w : World) : Except Failure Reply → World → Prop := fun res _ =>
  ∀ i, CarriesToken res i → ∃ u ∈ w.users.rows, u.id = i ∧ u.isActive = true

theorem toActive_error {e : Failure} {w' : World} : ToActive w (.error e) w' := by
  intro i h
  exact absurd h not_carriesToken_error

theorem holds_refresh (token : JsonField N) (ip device : String) :
    (refresh env token ip device).Holds (exec env) (fun _ => True) (ToActive w) w := by
  rw [refresh]
  apply holds_quiet_bind (quiet_verifyToken _ token) (fun _ _ => trivial)
    (fun _ _ _ => toActive_error)
  intro payload w₁ h₁
  cases payload with
  | none => exact ⟨trivial, toActive_error⟩
  | some payload =>
    apply holds_quiet_bind (quiet_validateRefreshToken _ token) (fun _ _ => trivial)
      (fun _ _ _ => toActive_error)
    intro valid w₂ h₂
    cases valid with
    | false => exact ⟨trivial, toActive_error⟩
    | true =>
      apply holds_findById_bind payload.sub _ trivial
      cases hu : w₂.users.get? payload.sub with
      | none => exact ⟨trivial, toActive_error⟩
      | some u =>
        have hrow : u ∈ w.users.rows := by
          rw [(h₁.trans h₂).1] at hu
          exact Table.mem_rows_of_get? hu
        simp only
        by_cases ha : u.isActive = true
        · rw [if_pos ha]
          apply holds_quietResult_bind (quietResult_generateAccessToken u.id u.email)
            (fun _ _ => trivial)
          intro a w₃ hsub _
          apply holds_quietResult_bind (quietResult_generateRefreshToken u.id)
            (fun _ _ => trivial)
          intro t w₄ hsub' _
          apply holds_quiet_bind (quiet_revokeSession _ token) (fun _ _ => trivial)
            (fun _ _ _ => toActive_error)
          intro _ w₅ _
          apply holds_quietResult_bind (quietResult_createRefreshToken u.id device ip)
            (fun _ _ => trivial)
          intro _ w₆ _ _
          apply holds_quietResult_bind (quietResult_log ..) (fun _ _ => trivial)
          intro _ w₇ _ _
          refine ⟨trivial, fun i h => ⟨u, hrow, ?_, ha⟩⟩
          exact id_of_carriesToken h rfl ⟨hsub, hsub'⟩
        · rw [if_neg ha]
          exact ⟨trivial, toActive_error⟩

variable [JsNumber N] [DecidableEq N]

/-- The requests that can hand out tokens. -/
inductive Issuing : Route N → Prop
  | login (dto : LoginDto N) : Issuing (.login dto)
  | refresh (t : JsonField N) : Issuing (.refresh t)
  | verification {route : Route N} {t : JsonField N} (h : presented route = some t) : Issuing route

/-- The request brings the right password of the user, who has no MFA, or a live
temporary token of the user with a factor that passes. -/
inductive Admitted (env : Env N) (w : World) (route : Route N) (u : User) : Prop
  | password {dto} (hr : route = .login dto) (h : LoginChecked env w dto true u)
      (hm : u.mfaEnabled = false) : Admitted env w route u
  | factor (h : FactorChecked env w route true u) : Admitted env w route u

theorem carriesToken_of_admitted (h : Admitted env { w with clock := q.1 } q.2.route u) :
    CarriesToken (serve env q.1 q.2 w).1 u.id := by
  cases h with
  | password hr h hm =>
    obtain ⟨t, hres, ht⟩ := (login_of_route env hr w).session_of_checked h hm
    rw [hres]
    exact carriesToken_of_for rfl ht
  | factor h =>
    obtain ⟨token, hp, -⟩ := h.selected
    obtain ⟨t, hres, ht⟩ := (factor_of_route env hp w).verified_of_checked h
    rw [hres]
    exact carriesToken_of_for rfl ht

/-- The tokens a login or a verification hands out are those of the user admitted. -/
theorem admitted_of_carriesToken (hroute : Issuing q.2.route) (hu : u ∈ w.users.rows)
    (hinactive : u.isActive = false) (h : CarriesToken (serve env q.1 q.2 w).1 u.id) :
    Admitted env { w with clock := q.1 } q.2.route u := by
  generalize hr : q.2.route = route at hroute
  cases hroute with
  | login dto =>
    have hending := login_of_route env hr w
    generalize (serve env q.1 q.2 w).1 = res at hending h
    generalize (serve env q.1 q.2 w).2 = w' at hending
    cases hending with
    | unknown => exact absurd h not_carriesToken_error
    | locked => exact absurd h not_carriesToken_error
    | broken => exact absurd h not_carriesToken_error
    | refused => exact absurd h not_carriesToken_error
    | pending => exact absurd h (not_carriesToken_none rfl)
    | session t hc hm hw ht =>
      have hrow := mem_of_findUser hc.selected
      obtain rfl := Table.eq_of_key_eq hrow hu (id_of_carriesToken h rfl ht)
      exact .password rfl hc hm
  | refresh t =>
    have hrun : (refresh env t q.2.ip q.2.device).Holds (exec env) (fun _ => True)
        (ToActive { w with clock := q.1 }) { w with clock := q.1 } := holds_refresh t _ _
    rw [serve, handle, hr] at h
    obtain ⟨v, hv, hid, hactive⟩ := hrun.final u.id h
    rw [Table.eq_of_key_eq hv hu hid, hinactive] at hactive
    cases hactive
  | verification hp =>
    subst hr
    have hending := factor_of_route env hp w
    generalize (serve env q.1 q.2 w).1 = res at hending h
    generalize (serve env q.1 q.2 w).2 = w' at hending
    cases hending with
    | rejected => exact absurd h (not_carriesToken_none rfl)
    | broken => exact absurd h not_carriesToken_error
    | refused => exact absurd h (not_carriesToken_none rfl)
    | accepted t hc hw ht =>
      obtain ⟨token, -, hs⟩ := hc.selected
      have hrow := mem_of_findUser hs
      obtain rfl := Table.eq_of_key_eq hrow hu (id_of_carriesToken h rfl ht)
      exact .factor hc

/-- In every state, a deactivated user gets no token exactly when the request does
not bring what an active one would get tokens for. -/
theorem no_tokens_iff (env : Env N) (w : World) (q : Timed N) (hroute : Issuing q.2.route)
    (u : User) (hu : u ∈ w.users.rows) (hinactive : u.isActive = false) :
    ¬ CarriesToken (serve env q.1 q.2 w).1 u.id ↔
      ¬ Admitted env { w with clock := q.1 } q.2.route u := by
  constructor
  · intro h hadmitted
    exact h (carriesToken_of_admitted hadmitted)
  · intro h hcarries
    exact h (admitted_of_carriesToken hroute hu hinactive hcarries)

/-- Ana without MFA, deactivated. -/
def dismissed : User := { User.create 1 "ana@verde.ec" "$2b$clave" with isActive := false }

def dismissedWorld : World := World.empty.saveUser dismissed

def dismissedLogin (password : String) : Timed ℕ :=
  (1000, ⟨.login ⟨some (.str "ana@verde.ec"), some (.str password)⟩, .undefined, none, none, "::1"⟩)

theorem dismissed_gets_tokens : dismissed ∈ dismissedWorld.users.rows ∧
    dismissed.isActive = false ∧ Issuing (dismissedLogin "clave").2.route ∧
    CarriesToken (serve (plainEnv []) 1000 (dismissedLogin "clave").2 dismissedWorld).1 1 :=
  ⟨List.mem_singleton.mpr rfl, rfl, .login _, _, _, rfl, rfl, Or.inl rfl⟩

theorem no_tokens_iff_dismissed :
    ¬ CarriesToken (serve (plainEnv []) 1000 (dismissedLogin "otra").2 dismissedWorld).1 1 ↔
      ¬ Admitted (plainEnv []) { dismissedWorld with clock := 1000 }
        (dismissedLogin "otra").2.route dismissed :=
  no_tokens_iff (plainEnv []) dismissedWorld (dismissedLogin "otra") (.login _) dismissed
    (List.mem_singleton.mpr rfl) rfl

end VerdeAuth.InactiveAccounts
