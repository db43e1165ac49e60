import VerdeAuth.IamAssumptions
import VerdeAuth.IamRules
import VerdeAuth.JsonRoundTrip

/-!
# Access tokens and refresh tokens

Both kinds are signed by the same service and no verifier looks at the kind a
payload names. The kinds are apart exactly where the two keys are.
-/

namespace VerdeAuth.TokenKinds

open JsonTexts IamTables IamOperations ResumptionPrograms TokenServices AuthService
open IamEndpoints IamRules IamAssumptions

variable {N : Type}

/-- A signed payload verifies with the key it was signed with, until it expires, and
with no other. -/
def IdealSignature (env : Env N) : Prop :=
  ∀ key key' p t, env.jwtVerify key' (env.jwtSign key p) t =
    if key' = key ∧ t / 1000 < p.exp then some p else none

/-- From its signature on, no token is accepted where the other kind is expected: by
`verifyAccessToken`, by the `JwtStrategy` in front of a handler, and by
`verifyRefreshToken`. -/
structure KindsApart (env : Env N) : Prop where
  access : ∀ i w w' token, ((generateRefreshToken env i).run (exec env) w).1 = .ok token →
    w.clock ≤ w'.clock →
    ((verifyAccessToken env (some (.str token.text))).run (exec env) w').1 = .ok none
  strategy : ∀ i w w' token, ((generateRefreshToken env i).run (exec env) w).1 = .ok token →
    w.clock ≤ w'.clock → ∀ header, env.bearerToken header = some token.text → ∀ handler,
    ((guarded env (some header) handler).run (exec env) w').1 =
      .error (.unauthorized "Unauthorized")
  refresh : ∀ i email w w' token,
    ((generateAccessToken env i email).run (exec env) w).1 = .ok token → w.clock ≤ w'.clock →
    ((verifyRefreshToken env (some (.str token.text))).run (exec env) w').1 = .ok none

/-- The refresh secret is set, to another value than the access secret. -/
def OwnSecret (env : Env N) : Prop :=
  ∃ s, env.jwtRefreshSecret = some s ∧ s ≠ env.jwtAccessSecret

/-- Neither kind of token is ever valid. -/
def BornExpired (env : Env N) : Prop := env.jwtAccessExpires = 0 ∧ env.jwtRefreshExpires = 0

section Tokens

variable {env : Env N} {w : World}

theorem refreshKey_ne_iff : refreshKey env ≠ env.jwtAccessSecret ↔ OwnSecret env := by
  cases h : env.jwtRefreshSecret with
  | none => simp [refreshKey, OwnSecret, h]
  | some s => simp [refreshKey, OwnSecret, h]

theorem run_verifyToken (key token : String) (w : World) :
    (verifyToken env key (some (.str token))).run (exec env) w =
      (.ok (env.jwtVerify key token w.clock), w) := rfl

theorem text_of_generateRefreshToken {i : UserId} {token : Jwt}
    (h : ((generateRefreshToken env i).run (exec env) w).1 = .ok token) :
    ∃ jti, token.text = env.jwtSign (refreshKey env) (refreshPayload env i jti w.clock) := by
  cases h
  exact ⟨_, rfl⟩

theorem text_of_generateAccessToken {i : UserId} {email : String} {token : Jwt}
    (h : ((generateAccessToken env i email).run (exec env) w).1 = .ok token) :
    token.text = env.jwtSign env.jwtAccessSecret (accessPayload env i email w.clock) := by
  cases h
  rfl

/-- A payload without a lifetime is never valid after it was signed. -/
theorem expired {t t' lifetime : ℕ} (ht : t ≤ t') (h : lifetime = 0) :
    ¬ t' / 1000 < t / 1000 + lifetime := by
  have hdiv := Nat.div_le_div_right (c := 1000) ht
  omega

theorem refreshToken_unverified (hs : IdealSignature env) (h : OwnSecret env ∨ BornExpired env)
    {i : UserId} {jti : String} {t t' : Time} (ht : t ≤ t') :
    env.jwtVerify env.jwtAccessSecret
      (env.jwtSign (refreshKey env) (refreshPayload env i jti t)) t' = none := by
  rw [hs, if_neg]
  rintro ⟨hkey, hlt⟩
  rcases h with h | h
  · exact refreshKey_ne_iff.mpr h hkey.symm
  · exact expired ht h.2 hlt

theorem accessToken_unverified (hs : IdealSignature env) (h : OwnSecret env ∨ BornExpired env)
    {i : UserId} {email : String} {t t' : Time} (ht : t ≤ t') :
    env.jwtVerify (refreshKey env)
      (env.jwtSign env.jwtAccessSecret (accessPayload env i email t)) t' = none := by
  rw [hs, if_neg]
  rintro ⟨hkey, hlt⟩
  rcases h with h | h
  · exact refreshKey_ne_iff.mpr h hkey
  · exact expired ht h.1 hlt

/-- Under one key, a token with a lifetime is valid when it is signed. -/
theorem verified_at_once (hs : IdealSignature env) (key : String) {p : JwtPayload} {t lifetime : ℕ}
    (hp : p.exp = t / 1000 + lifetime) (hlife : 0 < lifetime) :
    env.jwtVerify key (env.jwtSign key p) t = some p := by
  rw [hs, if_pos]
  refine ⟨rfl, ?_⟩
  rw [hp]
  exact Nat.lt_add_of_pos_right hlife

end Tokens

/-- The two kinds are never interchanged exactly when the refresh secret is another
one than the access secret, or both lifetimes are zero. -/
theorem kinds_apart_iff (env : Env N) (hs : IdealSignature env) :
    KindsApart env ↔ OwnSecret env ∨ BornExpired env := by
  constructor
  · intro h
    by_contra hnot
    obtain ⟨hsecret, hlife⟩ := not_or.mp hnot
    have hkey : refreshKey env = env.jwtAccessSecret := by
      by_contra hne
      exact hsecret (refreshKey_ne_iff.mp hne)
    by_cases hrefresh : env.jwtRefreshExpires = 0
    · have haccess : 0 < env.jwtAccessExpires := by
        apply Nat.pos_of_ne_zero
        intro hzero
        exact hlife ⟨hzero, hrefresh⟩
      have hnone := h.refresh 0 "" World.empty World.empty _ rfl (Nat.le_refl _)
      rw [verifyRefreshToken, run_verifyToken, hkey] at hnone
      have hsome := verified_at_once hs env.jwtAccessSecret
        (p := accessPayload env 0 "" 0) rfl haccess
      have hboth := (Except.ok.inj hnone).symm.trans hsome
      cases hboth
    · have hnone := h.access 0 World.empty World.empty _ rfl (Nat.le_refl _)
      rw [verifyAccessToken, run_verifyToken, ← hkey] at hnone
      have hsome := verified_at_once hs (refreshKey env)
        (p := refreshPayload env 0 (env.random36 0 ++ env.random36 1) 0) rfl
        (Nat.pos_of_ne_zero hrefresh)
      have hboth := (Except.ok.inj hnone).symm.trans hsome
      cases hboth
  · intro h
    constructor
    · intro i w w' token htoken ht
      obtain ⟨jti, htext⟩ := text_of_generateRefreshToken htoken
      rw [verifyAccessToken, run_verifyToken, htext, refreshToken_unverified hs h ht]
    · intro i w w' token htoken ht header hheader handler
      obtain ⟨jti, htext⟩ := text_of_generateRefreshToken htoken
      refine congrArg Prod.fst (run_guarded_of_unverified ?_ handler)
      rw [Option.bind_some, hheader, Option.bind_some, htext]
      exact refreshToken_unverified hs h ht
    · intro i email w w' token htoken ht
      have htext := text_of_generateAccessToken htoken
      rw [verifyRefreshToken, run_verifyToken, htext, accessToken_unverified hs h ht]

/-! Signatures that show what they sign -/

def optionalText : Option String → Json ℕ
  | none => .null
  | some s => .str s

def ofOptionalText : Json ℕ → Option String
  | .str s => some s
  | _ => none

def signedValue (key : String) (p : JwtPayload) : Json ℕ :=
  .arr [.str key, .num p.sub, optionalText p.email, optionalText p.jti, .bool (p.type = .access),
    .num p.iat, .num p.exp]

def readSigned (key : String) (t : Time) : Json ℕ → Option JwtPayload
  | .arr [.str key', .num sub, email, jti, .bool isAccess, .num iat, .num exp] =>
    if key = key' ∧ t / 1000 < exp then
      some ⟨sub, ofOptionalText email, ofOptionalText jti, if isAccess then .access else .refresh,
        iat, exp⟩
    else none
  | _ => none

/-- A configuration whose signatures are the signed values themselves. -/
def openEnv (refreshSecret : Option String) : Env ℕ :=
  { plainEnv [] with
    jwtRefreshSecret := refreshSecret
    jwtSign := fun key p => String.ofList (text (signedValue key p))
    jwtVerify := fun key s t => (parseText s.toList).bind (readSigned key t) }

theorem readSigned_signedValue (key key' : String) (t : Time) (p : JwtPayload) :
    readSigned key' t (signedValue key p) =
      if key' = key ∧ t / 1000 < p.exp then some p else none := by
  obtain ⟨sub, email, jti, type, iat, exp⟩ := p
  cases email <;> cases jti <;> cases type <;>
    simp [readSigned, signedValue, optionalText, ofOptionalText]

theorem wf_signedValue (key : String) (p : JwtPayload) : (signedValue key p).Wf := by
  obtain ⟨sub, email, jti, type, iat, exp⟩ := p
  cases email <;> cases jti <;> simp [signedValue, optionalText, Json.Wf, Json.WfElems]

theorem idealSignature_openEnv (refreshSecret : Option String) :
    IdealSignature (openEnv refreshSecret) := by
  intro key key' p t
  have hread := parseText_text (signedValue key p) (wf_signedValue key p)
  simp [openEnv, hread, readSigned_signedValue]

/-- The refresh secret is not set: Ana's refresh token is accepted as an access token
and by the guard, and her access token as a refresh token. -/
theorem kinds_interchanged :
    let env := openEnv none
    (∃ token payload, ((generateRefreshToken env 1).run (exec env) World.empty).1 = .ok token ∧
      ((verifyAccessToken env (some (.str token.text))).run (exec env) World.empty).1 =
        .ok (some payload) ∧
      ∀ handler, (guarded env (some ("Bearer " ++ token.text)) handler).run (exec env)
        World.empty = handler.run (exec env) World.empty) ∧
    ∃ token payload, ((generateAccessToken env 1 "ana@verde.ec").run (exec env)
        World.empty).1 = .ok token ∧
      ((verifyRefreshToken env (some (.str token.text))).run (exec env) World.empty).1 =
        .ok (some payload) := by
  intro env
  have hs : IdealSignature env := idealSignature_openEnv none
  constructor
  · have hvalid := verified_at_once hs env.jwtAccessSecret (t := 0)
      (p := refreshPayload env 1 (env.random36 0 ++ env.random36 1) 0) rfl (by decide)
    refine ⟨_, _, rfl, congrArg Except.ok hvalid, fun handler => ?_⟩
    have hheader : ∀ s, env.bearerToken ("Bearer " ++ s) = some s := by
      intro s
      simp [env, openEnv, plainEnv, startsWith]
    rw [guarded, Option.bind_some, hheader, Option.map_some, verifyAccessToken, Prog.run_bind,
      run_verifyToken]
    exact congrArg (fun v => (Prog.andThen _ (exec env) (Except.ok v, World.empty))) hvalid
  · have hvalid := verified_at_once hs env.jwtAccessSecret (t := 0)
      (p := accessPayload env 1 "ana@verde.ec" 0) rfl (by decide)
    exact ⟨_, _, rfl, congrArg Except.ok hvalid⟩

theorem kinds_apart_iff_openEnv :
    KindsApart (openEnv (some "refresh")) ↔
      OwnSecret (openEnv (some "refresh")) ∨ BornExpired (openEnv (some "refresh")) :=
  kinds_apart_iff (openEnv (some "refresh")) (idealSignature_openEnv _)

end VerdeAuth.TokenKinds
