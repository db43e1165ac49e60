import VerdeAuth.RequestContracts
import VerdeAuth.IamAssumptions

/-!
# Tokens in a race

A reply with tokens shows that credentials of the user were checked against states
the interleaving passed through. The states may differ from check to check: nothing
holds them still between one operation and the next.
-/

namespace VerdeAuth.EarnedTokens

open JsonTexts KeyedTables IamTables IamOperations ResumptionPrograms InterleavedPools UsersService
open TokenServices MfaServices AuthService IamEndpoints IamAssumptions UserRowChanges
open RequestFootprints ResponseContracts RequestContracts

variable {N : Type}

/-- A state an interleaving has passed through, read off its log. -/
def Passed (env : Env N) (w : World) (log : List (Event (Res N) Time)) (w' : World) : Prop :=
  ∃ before after, log = before ++ after ∧ w' = Pool.replay (exec env) tick w before

section Credentials

variable [JsNumber N] [DecidableEq N] (env : Env N) (P : World → Prop)

/-- The lock had run out in one of the states. -/
def OpenSometime (lock : Option Time) : Prop := ∀ l, lock = some l → ∃ w, P w ∧ l ≤ w.clock

/-- The right password of a user without MFA, while the account was not locked. -/
structure PasswordGiven (r : Request N) (u : User) : Prop where
  intro ::
  found : ∃ dto s w, r.route = .login dto ∧ dto.password = some (.str s) ∧ P w ∧
    w.findUser (.email (criterion env dto.email)) = some u ∧
    env.bcryptCompare s u.passwordHash = true
  single : u.mfaEnabled = false
  unlocked : OpenSometime P u.lockedUntil

/-- A refresh token of an active user that verified, with its unexpired session. -/
structure SessionGiven (r : Request N) (u : User) : Prop where
  intro ::
  found : ∃ x p w, r.route = .refresh (some (.str x)) ∧
    (∃ w, P w ∧ env.jwtVerify (refreshKey env) x w.clock = some p) ∧
    (P w ∧ w.users.get? p.sub = some u) ∧
    ∃ s w₁ w₂, (P w₁ ∧ s ∈ w₁.sessions.rows ∧ s.userId = p.sub ∧ s.isRevoked = false) ∧
      env.bcryptCompare x s.refreshToken = true ∧ P w₂ ∧ w₂.clock < s.expiresAt
  active : u.isActive = true

/-- A live temporary token, that of the first row where the request presents none, with a
factor that passes, while MFA was not locked. -/
structure FactorGiven (r : Request N) (u : User) : Prop where
  found : ∃ token w, presented r.route = some token ∧ P w ∧
    w.findUser (.mfaTempToken (criterion env token)) = some u
  fresh : ∃ w, P w ∧ w.clock ≤ u.mfaTempTokenExpires.getD 0
  unlocked : ∃ w, P w ∧ ∀ v, w.users.get? u.id = some v → OpenSometime P v.mfaLockedUntil
  factor : ∃ v w, (v = u ∨ ∃ w, P w ∧ w.users.get? u.id = some v) ∧ P w ∧
    factorResult env w.clock v r.route = some true

inductive Credentials (r : Request N) (u : User) : Prop
  | password (h : PasswordGiven env P r u)
  | session (h : SessionGiven env P r u)
  | factor (h : FactorGiven env P r u)

end Credentials

/-- Both tokens are made out to the user and signed with their own keys. -/
structure SignedFor (env : Env N) (u : User) (t : TokenPair) : Prop where
  access : t.accessToken.text = env.jwtSign env.jwtAccessSecret t.accessToken.payload ∧
    t.accessToken.payload.sub = u.id ∧ t.accessToken.payload.type = .access
  refresh : t.refreshToken.text = env.jwtSign (refreshKey env) t.refreshToken.payload ∧
    t.refreshToken.payload.sub = u.id ∧ t.refreshToken.payload.type = .refresh

section Seen

variable {env : Env N} {w : World} {log : List (Event (Res N) Time)} {r : Request N} {u : User}

theorem findUser_of_seen {c : UserWhere} {row : Option User}
    (h : Seen (exec env) tick w log (.findUser c) row) :
    ∃ w', Passed env w log w' ∧ w'.findUser c = row := by
  obtain ⟨before, after, hlog, hr⟩ := h
  exact ⟨_, ⟨before, after, hlog, rfl⟩, hr.symm⟩

theorem clock_of_seen {t : Time} (h : Seen (exec env) tick w log .now t) :
    ∃ w', Passed env w log w' ∧ w'.clock = t := by
  obtain ⟨before, after, hlog, hr⟩ := h
  exact ⟨_, ⟨before, after, hlog, rfl⟩, hr.symm⟩

theorem compare_of_seen {data hash : String} {b : Bool}
    (h : Seen (exec env) tick w log (.bcryptCompare data hash) b) :
    env.bcryptCompare data hash = b := by
  obtain ⟨_, _, _, hr⟩ := h
  exact hr.symm

theorem openSometime_of_seen {lock : Option Time}
    (h : Unlocked (Seen (exec env) tick w log) lock) :
    OpenSometime (Passed env w log) lock := by
  intro l hl
  obtain ⟨t, ht, hle⟩ := h l hl
  obtain ⟨w', hp, rfl⟩ := clock_of_seen ht
  exact ⟨w', hp, hle⟩

theorem passwordGiven_of_seen {dto : LoginDto N} (hr : r.route = .login dto)
    (h : LoginSeen env (Seen (exec env) tick w log) dto true u) (hm : u.mfaEnabled = false) :
    PasswordGiven env (Passed env w log) r u := by
  obtain ⟨s, hs, hc⟩ := h.password
  obtain ⟨w', hp, hu⟩ := findUser_of_seen h.selected
  exact ⟨⟨dto, s, w', hr, hs, hp, hu, compare_of_seen hc⟩, hm, openSometime_of_seen h.unlocked⟩

theorem sessionGiven_of_seen {token : JsonField N} (hr : r.route = .refresh token)
    (h : RefreshSeen env (Seen (exec env) tick w log) token u) :
    SessionGiven env (Passed env w log) r u := by
  obtain ⟨⟨p, ⟨x, t, rfl, ht, hv⟩, hu, ss, s, t', hss, hs, ⟨x', hx, hc⟩, ht', hlt⟩, ha⟩ := h
  cases hx
  obtain ⟨w₀, hp₀, rfl⟩ := clock_of_seen ht
  obtain ⟨w₁, hp₁, hget⟩ := findUser_of_seen hu
  obtain ⟨before, after, hlog, hfound⟩ := hss
  obtain ⟨w₃, hp₃, rfl⟩ := clock_of_seen ht'
  rw [hfound] at hs
  obtain ⟨hmem, hlive⟩ := List.mem_filter.mp hs
  simp only [Bool.and_eq_true, Bool.not_eq_true', Option.all_some, decide_eq_true_eq] at hlive
  exact ⟨⟨x, p, w₁, hr, ⟨w₀, hp₀, hv⟩, ⟨hp₁, hget⟩, s, _, w₃,
    ⟨⟨before, after, hlog, rfl⟩, hmem, hlive.2, hlive.1⟩, compare_of_seen hc, hp₃, hlt⟩, ha⟩

variable [JsNumber N] [DecidableEq N]

theorem factorResult_of_seen {route : Route N}
    (h : FactorOutcome env (Seen (exec env) tick w log) u route true) :
    ∃ v w', (v = u ∨ ∃ w', Passed env w log w' ∧ w'.users.get? u.id = some v) ∧
      Passed env w log w' ∧ factorResult env w'.clock v route = some true := by
  generalize hb : true = b at h
  cases h with
  | totp h =>
    subst hb
    obtain ⟨s, hs, before, after, hlog, hv⟩ := h
    refine ⟨u, _, .inl rfl, ⟨before, after, hlog, rfl⟩, ?_⟩
    rw [factorResult, totpResult, hs]
    exact hv.symm
  | backup ht h =>
    obtain ⟨w', hp, rfl⟩ := clock_of_seen ht
    refine ⟨u, w', .inl rfl, hp, ?_⟩
    rw [factorResult, h, Option.map_some, ← hb]
  | biometric hv =>
    obtain ⟨w', hp, hget⟩ := findUser_of_seen hv
    refine ⟨_, w', .inr ⟨w', hp, hget⟩, hp, ?_⟩
    rw [factorResult, ← hb]
  | gone hv => cases hb

theorem factorGiven_of_seen (h : FactorSeen env (Seen (exec env) tick w log) r.route true u) :
    FactorGiven env (Passed env w log) r u := by
  obtain ⟨token, hp, hu⟩ := h.selected
  obtain ⟨w₁, hp₁, hfound⟩ := findUser_of_seen hu
  obtain ⟨t, ht, hle⟩ := h.fresh
  obtain ⟨w₂, hp₂, rfl⟩ := clock_of_seen ht
  obtain ⟨row, hrow, hopen⟩ := h.unlocked
  obtain ⟨w₃, hp₃, hget⟩ := findUser_of_seen hrow
  refine ⟨⟨token, w₁, hp, hp₁, hfound⟩, ⟨w₂, hp₂, hle⟩, ⟨w₃, hp₃, fun v hv => ?_⟩,
    factorResult_of_seen h.factor⟩
  exact openSometime_of_seen (hopen v (hget.symm.trans hv))

omit [JsNumber N] [DecidableEq N] in
theorem signedFor_of_minted {A : Contract N} {t : TokenPair} (h : Minted env A u t) :
    SignedFor env u t := by
  obtain ⟨⟨s, -, ha⟩, ⟨a, b, s', -, -, -, hr⟩, -⟩ := h
  exact ⟨by rw [ha]; exact ⟨rfl, rfl, rfl⟩, by rw [hr]; exact ⟨rfl, rfl, rfl⟩⟩

theorem credentials_of_earned {t : TokenPair}
    (h : Earned env (Seen (exec env) tick w log) r t) :
    ∃ u, Credentials env (Passed env w log) r u ∧ SignedFor env u t := by
  cases h with
  | granted h ht =>
    cases h with
    | login hr h hm => exact ⟨_, .password (passwordGiven_of_seen hr h hm), signedFor_of_minted ht⟩
    | refresh hr h => exact ⟨_, .session (sessionGiven_of_seen hr h), signedFor_of_minted ht⟩
  | verified h ht => exact ⟨_, .factor (factorGiven_of_seen h), signedFor_of_minted ht⟩

end Seen

/-- However requests interleave, one that is answered with tokens had a user's
credentials checked on the way, and the tokens are signed for that user. -/
theorem tokens_earned [JsNumber N] [DecidableEq N] (env : Env N) (w : World)
    (rs : List (Request N)) (sched : List (Turn Time)) (i : ℕ) (r : Request N) (y : Reply)
    (t : TokenPair) (hi : rs[i]? = some r)
    (hend : (together env w rs sched).threads[i]? = some (.ret y)) (ht : y.tokens? = some t) :
    ∃ u, Credentials env (Passed env w (together env w rs sched).log) r u ∧ SignedFor env u t := by
  have hp : (rs.map (handle env))[i]? = some (handle env r) := by simp [hi]
  have hunder : Serves env (Seen (exec env) tick w (together env w rs sched).log) r (.ret y) :=
    under_seen (rs.map (handle env)) w sched hp (serves_handle env _ r) hend
  exact credentials_of_earned (hunder y t rfl ht)

/-- Ana without a second factor signs in while her setup is begun. -/
def setupAmidSession : Pool (Res ℕ) Failure Reply World Time :=
  together anaEnv (anaWorld.saveUser { ana with mfaEnabled := false })
    [⟨.login ⟨some (.str "ana@verde.ec"), some (.str "clave")⟩, .undefined, none, none, "::1"⟩,
      anaRequest .setup]
    ((List.replicate 16 [.thread 0, .thread 1]).flatten)

theorem tokens_earned_setupAmidSession : ∃ y t, setupAmidSession.threads[0]? = some (.ret y) ∧
    y.tokens? = some t ∧
    ∃ u, Credentials anaEnv (Passed anaEnv (anaWorld.saveUser { ana with mfaEnabled := false })
      setupAmidSession.log)
      ⟨.login ⟨some (.str "ana@verde.ec"), some (.str "clave")⟩, .undefined, none, none, "::1"⟩ u ∧
      SignedFor anaEnv u t := by
  have hend : ∃ t, setupAmidSession.threads[0]? = some (.ret (.session t)) := ⟨_, by rfl⟩
  obtain ⟨t, ht⟩ := hend
  exact ⟨.session t, t, ht, rfl, tokens_earned anaEnv _ _ _ 0 _ (.session t) t rfl ht rfl⟩

end VerdeAuth.EarnedTokens
