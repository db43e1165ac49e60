import VerdeAuth.IamAssumptions
import VerdeAuth.RequestRuns

/-!
# The refresh token of a login

What a chain of refreshes and a logout should do with the token a login hands
out, and why no chain does it: the session store keeps the hash of a token of
its own.
-/

namespace VerdeAuth.RefreshTokenChain

open JsonTexts KeyedTables IamTables IamOperations ResumptionPrograms UsersService TokenServices
open MfaServices AuthService MfaController IamEndpoints IamRules IamAssumptions UserRowChanges
open RequestEndings RequestRuns

variable {N : Type}

/-- No signed token reads like a token of the session store. -/
def SessionTokensUnsigned (env : Env N) : Prop :=
  ∀ key payload a b c d,
    env.jwtSign key payload ≠ env.random36 a ++ env.random36 b ++ env.random36 c ++ env.random36 d

/-- The text of a refresh token whose id is made of two draws. -/
def refreshText (env : Env N) (i : UserId) (a b : ℕ) (t : Time) : String :=
  env.jwtSign (refreshKey env) (refreshPayload env i (env.random36 a ++ env.random36 b) t)

/-- No stored session belongs to a refresh token whose id is yet to be drawn. -/
def FreshRefreshTokens (env : Env N) (w : World) : Prop :=
  ∀ s ∈ w.sessions.rows, ∀ i a b t, w.drawn ≤ a →
    env.bcryptCompare (refreshText env i a b t) s.refreshToken = false

/-- No stored session belongs to the token. -/
def Unknown (env : Env N) (w : World) (token : String) : Prop :=
  ∀ s ∈ w.sessions.rows, env.bcryptCompare token s.refreshToken = false

section Runs

variable {env : Env N} {w : World} {u : User}

theorem run_login_of_checked {dto : LoginDto N} (h : LoginChecked env w dto true u)
    (ip device : String) : (login env dto ip device).run (exec env) w =
      (completeLogin env u ip device).run (exec env) w := by
  obtain ⟨s, hs, hc⟩ := h.password
  simp [login, findByEmail, exec, h.selected, run_isLocked, h.unlocked, validatePassword,
    UsersService.compare, hs, hc]

theorem run_completeLogin (env : Env N) (w : World) (hm : u.mfaEnabled = false)
    (ip device : String) :
    ∃ access session w', (completeLogin env u ip device).run (exec env) w =
        (.ok (.session ⟨access, ⟨refreshPayload env u.id
          (env.random36 w.drawn ++ env.random36 (w.drawn + 1)) w.clock,
          refreshText env u.id w.drawn (w.drawn + 1) w.clock⟩, 900⟩), w') ∧
      w'.sessions = w.sessions.put session ∧
      ∃ salt a b c d, session.refreshToken = env.bcryptHash salt
        (env.random36 a ++ env.random36 b ++ env.random36 c ++ env.random36 d) := by
  rw [completeLogin, hm]
  exact ⟨_, _, _, rfl, rfl, _, _, _, _, _, rfl⟩

theorem anyValid_unknown {token : String} (ss : List Session)
    (h : ∀ s ∈ ss, env.bcryptCompare token s.refreshToken = false) (w : World) :
    (anyValid (some (.str token)) ss : Iam N Bool).run (exec env) w = (.ok false, w) := by
  induction ss with
  | nil => rfl
  | cons s ss ih =>
    have hs := h s (List.mem_cons_self)
    simp [anyValid, UsersService.compare, exec, hs,
      ih fun s' hs' => h s' (List.mem_cons_of_mem s hs')]

theorem mem_findSessions {i : Option UserId} {s : Session} (h : s ∈ w.findSessions i) :
    s ∈ w.sessions.rows := (List.mem_filter.mp h).1

/-- A token no session belongs to is refused. -/
theorem refresh_unknown {token : String} (h : Unknown env w token) (ip device : String) :
    ∃ e, ((refresh env (some (.str token)) ip device).run (exec env) w).1 = .error e := by
  cases hv : env.jwtVerify (refreshKey env) token w.clock with
  | none =>
    refine ⟨.unauthorized "Refresh token inválido", ?_⟩
    simp [refresh, verifyRefreshToken, verifyToken, now, exec, hv]
  | some payload =>
    refine ⟨.unauthorized "Refresh token inválido o expirado", ?_⟩
    have hnone := anyValid_unknown (w.findSessions (some payload.sub))
      (fun s hs => h s (mem_findSessions hs)) w
    simp [refresh, verifyRefreshToken, verifyToken, now, exec, hv, validateRefreshToken,
      findSessions, hnone]

end Runs

/-- When and from where a call is made. -/
structure Call where
  time : Time
  userAgent : Option String
  ip : String

variable [JsNumber N] [DecidableEq N]

def Call.send (c : Call) (env : Env N) (route : Route N) (userId : IdParam) (w : World) :
    Except Failure Reply × World :=
  serve env c.time ⟨route, userId, none, c.userAgent, c.ip⟩ w

def Call.refresh (c : Call) (env : Env N) (token : String) (w : World) :
    Except Failure Reply × World := c.send env (.refresh (some (.str token))) .undefined w

def Call.logout (c : Call) (env : Env N) (token : Jwt) (w : World) :
    Except Failure Reply × World :=
  c.send env (.logout (some (.str token.text))) (.uuid token.payload.sub) w

/-- From now on no refresh takes the token. -/
def Refused (env : Env N) (w : World) (token : String) : Prop :=
  ∀ c : Call, ∃ e, (c.refresh env token w).1 = .error e

/-- The logout revokes the session the token belongs to and no other. -/
def LogoutOk (env : Env N) (w : World) (token : Jwt) (c : Call) : Prop :=
  ∃ s ∈ w.sessions.rows, s.isRevoked = false ∧
    env.bcryptCompare token.text s.refreshToken = true ∧
    (c.logout env token w).2.sessions = w.sessions.put { s with isRevoked := true }

/-- Refreshing along the calls, each with the token the one before returned,
succeeds with new tokens, consumed tokens are refused, and a logout with the last
token revokes its session. -/
def ChainOk (env : Env N) (last : Call) : List Jwt → World → Jwt → List Call → Prop
  | consumed, w, token, [] => (∀ t ∈ consumed, Refused env w t.text) ∧ LogoutOk env w token last
  | consumed, w, token, c :: calls => (∀ t ∈ consumed, Refused env w t.text) ∧
      ∃ tokens, (c.refresh env token.text w).1 = .ok (.session tokens) ∧
        tokens.refreshToken ≠ token ∧
        ChainOk env last (token :: consumed) (c.refresh env token.text w).2 tokens.refreshToken
          calls

variable {env : Env N} {w : World}

theorem not_chainOk_of_unknown {token : Jwt} (h : Unknown env w token.text) (last : Call)
    (consumed : List Jwt) (calls : List Call) : ¬ ChainOk env last consumed w token calls := by
  cases calls with
  | nil =>
    rintro ⟨-, s, hs, -, hbelongs, -⟩
    rw [h s hs] at hbelongs
    cases hbelongs
  | cons c calls =>
    rintro ⟨-, tokens, hok, -⟩
    have hunknown : Unknown env { w with clock := c.time } token.text := h
    obtain ⟨e, he⟩ := refresh_unknown hunknown c.ip (orUnknown (c.userAgent.getD ""))
    have heq : (c.refresh env token.text w).1 = .error e := he
    rw [heq] at hok
    cases hok

/-- The refresh token of a login belongs to no session. -/
theorem unknown_of_login (hbcrypt : IdealBcrypt env) (hunsigned : SessionTokensUnsigned env)
    (hfresh : FreshRefreshTokens env w) {t : Time} {r : Request N} {dto : LoginDto N}
    (hr : r.route = .login dto) {tokens : TokenPair}
    (hok : (serve env t r w).1 = .ok (.session tokens)) :
    Unknown env (serve env t r w).2 tokens.refreshToken.text := by
  have hhandle : serve env t r w = (login env dto r.ip r.device).run (exec env)
      { w with clock := t } := by rw [serve, handle, hr]
  have hending : LoginEnding env { w with clock := t } dto (serve env t r w).1
      (serve env t r w).2 := by
    rw [hhandle]
    exact (holds_login hr r.ip r.device).final
  generalize hres : (serve env t r w).1 = res at hending hok
  cases hending with
  | session tokens' hchecked hm =>
    cases hok
    obtain ⟨access, session, w', hrun, hsessions, salt, a, b, c, d, hhash⟩ :=
      run_completeLogin env { w with clock := t } hm r.ip r.device
    have hserve := hhandle.trans ((run_login_of_checked hchecked r.ip r.device).trans hrun)
    rw [hserve] at hres ⊢
    cases hres
    intro s hs
    rw [hsessions] at hs
    rcases Table.mem_put hs with rfl | ⟨hold, -⟩
    · rw [hhash]
      exact Bool.eq_false_iff.mpr fun he => hunsigned _ _ a b c d ((hbcrypt _ _ _).mp he)
    · exact hfresh s hold _ _ _ _ (Nat.le_refl _)
  | pending => cases hok
  | unknown => cases hok
  | locked => cases hok
  | broken => cases hok
  | refused => cases hok

/-- No chain after any login without MFA is as it should be. -/
theorem no_chain_ok (env : Env N) (hbcrypt : IdealBcrypt env)
    (hunsigned : SessionTokensUnsigned env) (w : World) (hfresh : FreshRefreshTokens env w)
    (t : Time) (r : Request N) (dto : LoginDto N) (hr : r.route = .login dto)
    (tokens : TokenPair) (hok : (serve env t r w).1 = .ok (.session tokens)) (calls : List Call)
    (last : Call) : ¬ ChainOk env last [] (serve env t r w).2 tokens.refreshToken calls :=
  not_chainOk_of_unknown (unknown_of_login hbcrypt hunsigned hfresh hr hok) last [] calls

/-- Eva has no MFA. -/
def eva : User := User.create 3 "eva@verde.ec" "$2b$clave"

def evaWorld : World := World.empty.saveUser eva

def evaLogin : Request ℕ :=
  ⟨.login ⟨some (.str "eva@verde.ec"), some (.str "clave")⟩, .undefined, none, none, "::1"⟩

/-- The payload of the refresh token her login signs. -/
def evaPayload : JwtPayload := ⟨3, none, some "bab", .refresh, 1, 61⟩

def evaEnv : Env ℕ := plainEnv [evaPayload]

def evaToken : Jwt := ⟨evaPayload, plainEnv.plainSign "refresh" evaPayload⟩

/-- The state her login leaves. -/
def evaSignedIn : World := (serve evaEnv 1000 evaLogin evaWorld).2

def evaCall (t : Time) : Call := ⟨t, none, "::1"⟩

/-- Two seconds after her login the token is refused: the chain of this one refresh
fails. -/
theorem refresh_after_login_refused :
    (∃ access, (serve evaEnv 1000 evaLogin evaWorld).1 =
        .ok (.session ⟨access, evaToken, 900⟩)) ∧
      ((evaCall 3000).refresh evaEnv evaToken.text evaSignedIn).1 =
        .error (.unauthorized "Refresh token inválido o expirado") ∧
      ((evaCall 4000).logout evaEnv evaToken evaSignedIn).2.sessions = evaSignedIn.sessions ∧
      ¬ ChainOk evaEnv (evaCall 4000) [] evaSignedIn evaToken [evaCall 3000] := by
  have hrefused : ((evaCall 3000).refresh evaEnv evaToken.text evaSignedIn).1 =
      .error (.unauthorized "Refresh token inválido o expirado") := by rfl
  refine ⟨⟨_, rfl⟩, hrefused, by rfl, ?_⟩
  rintro ⟨-, tokens, hok, -⟩
  have habsurd := hrefused.symm.trans hok
  cases habsurd

theorem sessionTokensUnsigned_plainEnv (issued : List JwtPayload) :
    SessionTokensUnsigned (plainEnv issued) := by
  intro key payload a b c d h
  have hdot : ∀ n, '.' ∉ (tally n).toList := by
    intro n
    simp [tally]
  have hsigned : '.' ∈ ((plainEnv issued).jwtSign key payload).toList := by
    simp [plainEnv, plainEnv.plainSign]
  rw [h] at hsigned
  simp [plainEnv, hdot] at hsigned

theorem no_chain_ok_eva :
    ¬ ChainOk evaEnv (evaCall 5000) [] evaSignedIn evaToken [evaCall 3000, evaCall 4000] := by
  have hfresh : FreshRefreshTokens evaEnv evaWorld := by
    intro s hs
    cases hs
  exact no_chain_ok evaEnv (idealBcrypt_plainEnv _) (sessionTokensUnsigned_plainEnv _) evaWorld
    hfresh 1000 evaLogin _ rfl _ rfl [evaCall 3000, evaCall 4000] (evaCall 5000)

end VerdeAuth.RefreshTokenChain
