import VerdeAuth.RequestFootprints
import VerdeAuth.ForetoldLogs

/-!
# What a request may ask for

`Asks` lists the operations of a request, each with the responses that led to it;
`Earned` the ways to a pair of tokens. Both speak of the responses alone, so they
hold of a request served on its own and of one interleaved with others.
-/

namespace VerdeAuth.RequestContracts

open JsonTexts KeyedTables IamTables IamOperations ResumptionPrograms InterleavedPools UsersService
open TokenServices MfaServices AuthService MfaController IamEndpoints UserRowChanges
open RequestFootprints RequestEndings ResponseContracts ForetoldLogs

variable {N : Type}

/-- The responses a run may give. -/
abbrev Contract (N : Type) := (o : Op N) → Res N o → Prop

/-- The routes that look a user up by email. -/
def emailOf : Route N → Option (JsonField N)
  | .login dto => some dto.email
  | .unlockUser email => some email
  | .resetUser email => some email
  | _ => none

/-- The routes that look a user up by the header. -/
def takesHeader : Route N → Bool
  | .setup => true
  | .verifySetup _ => true
  | .disable _ _ => true
  | .status => true
  | .enableBiometric _ => true
  | .disableBiometric => true
  | _ => false

/-- The refresh token a request presents. -/
def exchanged : Route N → Option (JsonField N)
  | .refresh token => some token
  | .logout token => some token
  | _ => none

/-- The token of a session, of four draws. -/
def sessionToken (env : Env N) (a b c d : ℕ) : String :=
  env.random36 a ++ env.random36 b ++ env.random36 c ++ env.random36 d

/-- What a query by the header compares. -/
def headerWhere : IdParam → Option UserWhere
  | .undefined => some (.id none)
  | .invalid => none
  | .uuid i => some (.id (some i))

section Responses

variable (env : Env N) (A : Contract N)

/-- A reading of the clock found the lock run out. -/
def Unlocked (lock : Option Time) : Prop := ∀ l, lock = some l → ∃ t, A .now t ∧ l ≤ t

structure LoginSeen (dto : LoginDto N) (valid : Bool) (u : User) : Prop where
  selected : A (.findUser (.email (criterion env dto.email))) (some u)
  unlocked : Unlocked A u.lockedUntil
  password : ∃ s, dto.password = some (.str s) ∧ A (.bcryptCompare s u.passwordHash) valid

/-- A token that verified at a reading of the clock. -/
def TokenSeen (key : String) (token : JsonField N) (p : JwtPayload) : Prop :=
  ∃ s t, token = some (.str s) ∧ A .now t ∧ env.jwtVerify key s t = some p

/-- The guard let the request pass. -/
def BearerSeen (r : Request N) : Prop :=
  ∃ p, TokenSeen env A env.jwtAccessSecret
    ((r.authorization.bind env.bearerToken).map Json.str) p

/-- A one-time code was checked against a stored secret. -/
def TotpSeen (secret : Option String) (code : JsonField N) (valid : Bool) : Prop :=
  ∃ s, secret.bind env.decrypt = some s ∧ A (.totpVerify s code) (some valid)

/-- A session matched the token. -/
def Matched (token : JsonField N) (s : Session) : Prop :=
  ∃ x, token = some (.str x) ∧ A (.bcryptCompare x s.refreshToken) true

structure RefreshSeen (token : JsonField N) (u : User) : Prop where
  intro ::
  verified : ∃ p, TokenSeen env A (refreshKey env) token p ∧
    A (.findUser (.id (some p.sub))) (some u) ∧
    ∃ ss s t, A (.findSessions (some p.sub)) ss ∧ s ∈ ss ∧ Matched A token s ∧ A .now t ∧
      t < s.expiresAt
  active : u.isActive = true

/-- A pair signed for the user. -/
structure Minted (u : User) (t : TokenPair) : Prop where
  access : ∃ s, A .now s ∧ t.accessToken =
    ⟨accessPayload env u.id u.email s,
      env.jwtSign env.jwtAccessSecret (accessPayload env u.id u.email s)⟩
  refresh : ∃ a b s, A .draw a ∧ A .draw b ∧ A .now s ∧ t.refreshToken =
    ⟨refreshPayload env u.id (env.random36 a ++ env.random36 b) s,
      env.jwtSign (refreshKey env) (refreshPayload env u.id (env.random36 a ++ env.random36 b) s)⟩
  expiresIn : t.expiresIn = 900

end Responses

variable [JsNumber N] [DecidableEq N]

section Factors

variable (env : Env N) (A : Contract N)

/-- How the presented factor came out against the row. -/
inductive FactorOutcome (u : User) : Route N → Bool → Prop
  | totp {token code valid} (h : TotpSeen env A u.mfaSecret code valid) :
      FactorOutcome u (.verify token code) valid
  | backup {token code marked t} (ht : A .now t)
      (h : backupResult env t u.mfaBackupCodes code = some marked) :
      FactorOutcome u (.verifyBackup token code) marked.isSome
  | biometric {token device v} (hv : A (.findUser (.id (some u.id))) (some v)) :
      FactorOutcome u (.verifyBiometric token device) (v.biometricEnabled &&
        Json.strictEq (some (columnValue v.deviceBiometricId)) device)
  | gone {token device} (hv : A (.findUser (.id (some u.id))) none) :
      FactorOutcome u (.verifyBiometric token device) false

structure FactorSeen (route : Route N) (valid : Bool) (u : User) : Prop where
  selected : ∃ token, presented route = some token ∧
    A (.findUser (.mfaTempToken (criterion env token))) (some u)
  fresh : ∃ t, A .now t ∧ t ≤ u.mfaTempTokenExpires.getD 0
  unlocked : ∃ row, A (.findUser (.id (some u.id))) row ∧
    ∀ v, row = some v → Unlocked A v.mfaLockedUntil
  factor : FactorOutcome env A u route valid

end Factors

/-- The users a request may look up by id, besides the one its header names. -/
inductive Subject (env : Env N) (A : Contract N) (r : Request N) : UserId → Prop
  | holder {u : User} {token} (hp : presented r.route = some token)
      (hu : A (.findUser (.mfaTempToken (criterion env token))) (some u)) : Subject env A r u.id
  | refreshed {token p} (hr : r.route = .refresh token)
      (hp : TokenSeen env A (refreshKey env) token p) : Subject env A r p.sub
  | bearer {header p} (hr : r.route = .me) (hh : r.authorization = some header)
      (hp : TokenSeen env A env.jwtAccessSecret
        (some (.str (String.ofList (header.toList.drop 7)))) p) : Subject env A r p.sub

/-- What a request looks a user with a second factor up by. -/
inductive Looks (env : Env N) (r : Request N) : UserWhere → Prop
  | header {c} (hr : takesHeader r.route = true) (hc : headerWhere r.userId = some c) :
      Looks env r c
  | token {token} (hp : presented r.route = some token) :
      Looks env r (.mfaTempToken (criterion env token))

/-- A request that is given a session for the user. -/
inductive Grants (env : Env N) (A : Contract N) (r : Request N) (u : User) : Prop
  | login {dto} (hr : r.route = .login dto) (h : LoginSeen env A dto true u)
      (hm : u.mfaEnabled = false)
  | refresh {token} (hr : r.route = .refresh token) (h : RefreshSeen env A token u)

inductive Asks (env : Env N) (A : Contract N) (r : Request N) : Op N → Prop
  | now : Asks env A r .now
  | draw : Asks env A r .draw
  | compare (data hash : String) : Asks env A r (.bcryptCompare data hash)
  | totp {c} {u : User} {s code} (hc : Looks env r c) (hu : A (.findUser c) (some u))
      (hs : u.mfaSecret.bind env.decrypt = some s) : Asks env A r (.totpVerify s code)
  | audit (a : AuditLog) : Asks env A r (.insertAuditLog a)
  | event (e : SecurityEvent) : Asks env A r (.logSecurity e)
  | byEmail {email} (hr : emailOf r.route = some email) :
      Asks env A r (.findUser (.email (criterion env email)))
  | byToken {token} (hp : presented r.route = some token) :
      Asks env A r (.findUser (.mfaTempToken (criterion env token)))
  | byHeader {c} (hr : takesHeader r.route = true) (hc : headerWhere r.userId = some c) :
      Asks env A r (.findUser c)
  | byId {i} (hi : Subject env A r i) : Asks env A r (.findUser (.id (some i)))
  | attemptFailed {dto u t} (hr : r.route = .login dto) (h : LoginSeen env A dto false u)
      (ht : u.failedAttempts + 1 ≥ 5 → A .now t) :
      Asks env A r (.saveUser (attemptFailed t u))
  | attemptsReset {dto u} (hr : r.route = .login dto) (h : LoginSeen env A dto true u) :
      Asks env A r (.saveUser (attemptsReset u))
  | mfaAttemptFailed {u v t} (h : FactorSeen env A r.route false u)
      (hv : A (.findUser (.id (some u.id))) (some v))
      (ht : v.mfaFailedAttempts + 1 ≥ 3 → A .now t) :
      Asks env A r (.saveUser (mfaAttemptFailed t v))
  | tempToken {dto u n t} (hr : r.route = .login dto) (h : LoginSeen env A dto true u)
      (hm : u.mfaEnabled = true) (hn : A .draw n) (ht : A .now t) :
      Asks env A r (.updateUser u.id
        { mfaTempToken := some (some (env.randomHex n 32))
          mfaTempTokenExpires := some (some (t + mfaTempTokenMs)) })
  | secret {i} {u : User} {n m} (hr : r.route = .setup) (hi : r.userId = .uuid i)
      (hu : A (.findUser (.id (some i))) (some u)) (hn : A .draw n) :
      Asks env A r (.updateUser i { mfaSecret := some (some (env.encrypt m (env.totpSecret n))) })
  | enabled {code i} {u : User} {c} (hr : r.route = .verifySetup code) (hb : BearerSeen env A r)
      (hi : r.userId = .uuid i) (hu : A (.findUser (.id (some i))) (some u))
      (hc : TotpSeen env A u.mfaSecret code true) :
      Asks env A r (.updateUser i
        { mfaEnabled := some true, mfaBackupCodes := some (some c) })
  | disabled {password code i} {u : User} {s} (hr : r.route = .disable password code)
      (hb : BearerSeen env A r) (hi : r.userId = .uuid i)
      (hu : A (.findUser (.id (some i))) (some u)) (hs : password = some (.str s))
      (hp : A (.bcryptCompare s u.passwordHash) true)
      (hc : TotpSeen env A u.mfaSecret code true) :
      Asks env A r (.updateUser i
        { mfaEnabled := some false
          mfaSecret := some none
          mfaBackupCodes := some none
          mfaTempToken := some none
          mfaTempTokenExpires := some none
          mfaFailedAttempts := some 0
          mfaLockedUntil := some none })
  | biometricEnabled {device i} {u : User} (hr : r.route = .enableBiometric device)
      (hb : BearerSeen env A r) (hi : r.userId = .uuid i)
      (hu : A (.findUser (.id (some i))) (some u)) (hm : u.mfaEnabled = true) :
      Asks env A r (.updateUser i
        { biometricEnabled := some true
          deviceBiometricId := columnUpdate env device
          preferredMfaMethod := some .biometric })
  | biometricDisabled {i} (hr : r.route = .disableBiometric) (hb : BearerSeen env A r)
      (hi : r.userId = .uuid i) :
      Asks env A r (.updateUser i
        { biometricEnabled := some false
          deviceBiometricId := some none
          preferredMfaMethod := some .totp })
  | factorAccepted {u} (h : FactorSeen env A r.route true u) :
      Asks env A r (.updateUser u.id { mfaFailedAttempts := some 0, mfaLockedUntil := some none })
  | codesSpent {u t codes n} (h : FactorSeen env A r.route true u) (ht : A .now t)
      (hc : spentCodes env t u r.route = some codes) (hn : A .draw n) :
      Asks env A r (.updateUser u.id { mfaBackupCodes := some (some (env.encrypt n codes)) })
  | tokenCleared {u t} (h : FactorSeen env A r.route true u) (ht : A .now t) :
      Asks env A r (.updateUser u.id
        { mfaTempToken := some none
          mfaTempTokenExpires := some none
          mfaLastVerified := some (some t) })
  | unlocked {email} {u : User} (hr : r.route = .unlockUser email)
      (hu : A (.findUser (.email (criterion env email))) (some u)) :
      Asks env A r (.updateUser u.id unlockPatch)
  | reset {email} {u : User} (hr : r.route = .resetUser email)
      (hu : A (.findUser (.email (criterion env email))) (some u)) :
      Asks env A r (.updateUser u.id resetPatch)
  | sessionsOf {i} (hi : Subject env A r i) : Asks env A r (.findSessions (some i))
  | sessionsOfUser {token u} (hr : r.route = .refresh token) (h : RefreshSeen env A token u) :
      Asks env A r (.findSessions (some u.id))
  | sessionsOfHeader {token} (hr : r.route = .logout token) (hi : r.userId ≠ .invalid) :
      Asks env A r (.findSessions (auditId r.userId))
  | newSession {u a b c d salt t} (h : Grants env A r u) (ht : A .now t) :
      Asks env A r (.insertSession u.id (env.bcryptHash salt (sessionToken env a b c d))
        (some r.device) (some r.ip) (t + sessionMs))
  | revoked {token i ss s} (hr : exchanged r.route = some token) (hss : A (.findSessions i) ss)
      (hs : s ∈ ss) (hm : Matched A token s) :
      Asks env A r (.saveSession { s with isRevoked := true })

/-- The ways to a pair of tokens. -/
inductive Earned (env : Env N) (A : Contract N) (r : Request N) : TokenPair → Prop
  | granted {u t} (h : Grants env A r u) (ht : Minted env A u t) : Earned env A r t
  | verified {u t} (h : FactorSeen env A r.route true u) (ht : Minted env A u t) :
      Earned env A r t

/-- A request that ends with tokens has earned them. -/
def Ends (env : Env N) (A : Contract N) (r : Request N) (res : Except Failure Reply) : Prop :=
  ∀ y t, res = .ok y → y.tokens? = some t → Earned env A r t

variable {env : Env N} {A : Contract N} {r : Request N} {α : Type}

/-- The rest of a request. -/
abbrev Serves (env : Env N) (A : Contract N) (r : Request N) (p : Iam N Reply) : Prop :=
  Under A (Asks env A r) (Ends env A r) p

theorem serves_throw (e : Failure) : Serves env A r (.throw e) := by
  rintro y t ⟨⟩

theorem serves_ret {y : Reply} (h : ∀ t, y.tokens? = some t → Earned env A r t) :
    Serves env A r (.ret y) := by
  rintro _ t ⟨⟩ ht
  exact h t ht

theorem serves_plain {y : Reply} (h : y.tokens? = none) : Serves env A r (.ret y) :=
  serves_ret fun t ht => by
    rw [h] at ht
    cases ht

section Rules

theorem serves_now {f : Time → Iam N Reply} (hf : ∀ t, A .now t → Serves env A r (f t)) :
    Serves env A r (now >>= f) := ⟨.now, hf⟩

theorem serves_draw {f : ℕ → Iam N Reply} (hf : ∀ n, A .draw n → Serves env A r (f n)) :
    Serves env A r (draw >>= f) := ⟨.draw, hf⟩

theorem serves_orThrow {v : Option α} {f : α → Iam N Reply}
    (hf : ∀ a, v = some a → Serves env A r (f a)) : Serves env A r (orThrow v >>= f) := by
  cases v with
  | none => exact serves_throw _
  | some a => exact hf a rfl

theorem serves_compare {data : JsonField N} {hash : String} {f : Bool → Iam N Reply}
    (hf : ∀ s b, data = some (.str s) → A (.bcryptCompare s hash) b → Serves env A r (f b)) :
    Serves env A r (compare data hash >>= f) := by
  rcases data with _ | (_ | _ | _ | s | _ | _)
  case some.str => exact ⟨.compare s hash, fun b hb => hf s b rfl hb⟩
  all_goals exact serves_throw _

theorem serves_isLocked {lock : Option Time} {f : Bool → Iam N Reply}
    (htrue : Serves env A r (f true)) (hfalse : Unlocked A lock → Serves env A r (f false)) :
    Serves env A r (isLocked lock >>= f) := by
  cases lock with
  | none => exact hfalse fun l hl => by cases hl
  | some l =>
    rw [isLocked, bind_assoc]
    refine serves_now fun t ht => ?_
    by_cases hlt : t < l
    · simpa [hlt] using htrue
    · have hle : l ≤ t := Nat.le_of_not_lt hlt
      simpa [hlt] using hfalse fun l' hl' => ⟨t, ht, by cases hl'; exact hle⟩

theorem serves_log {action : String} {i : Option UserId} {ip device : String} {success : Bool}
    {f : Unit → Iam N Reply} (hf : Serves env A r (f ())) :
    Serves env A r (log env action i ip device success >>= f) :=
  ⟨.audit _, fun _ _ => ⟨.event _, fun _ _ => hf⟩⟩

theorem serves_verifyToken {key : String} {token : JsonField N}
    {f : Option JwtPayload → Iam N Reply} (hnone : Serves env A r (f none))
    (hsome : ∀ p, TokenSeen env A key token p → Serves env A r (f (some p))) :
    Serves env A r (verifyToken env key token >>= f) := by
  rcases token with _ | (_ | _ | _ | s | _ | _)
  case some.str =>
    refine ⟨.now, fun t ht => ?_⟩
    change Serves env A r (f (env.jwtVerify key s t))
    cases hv : env.jwtVerify key s t with
    | none => exact hnone
    | some p => exact hsome p ⟨s, t, rfl, ht, hv⟩
  all_goals exact hnone

theorem serves_generateTokens {u : User} {f : Jwt → Jwt → Iam N Reply}
    (hf : ∀ a t, Minted env A u ⟨a, t, 900⟩ → Serves env A r (f a t)) :
    Serves env A r (generateAccessToken env u.id u.email >>= fun a =>
      generateRefreshToken env u.id >>= f a) := by
  refine ⟨.now, fun s hs => ⟨.draw, fun a ha => ⟨.draw, fun b hb => ⟨.now, fun s' hs' => ?_⟩⟩⟩⟩
  exact hf _ _ ⟨⟨s, hs, rfl⟩, ⟨a, b, s', ha, hb, hs', rfl⟩, rfl⟩

theorem serves_createRefreshToken {u : User} (h : Grants env A r u) {f : String → Iam N Reply}
    (hf : ∀ token, Serves env A r (f token)) :
    Serves env A r (createRefreshToken env u.id r.device r.ip >>= f) := by
  refine ⟨.draw, fun a _ => ⟨.draw, fun b _ => ⟨.draw, fun c _ => ⟨.draw, fun d _ => ?_⟩⟩⟩⟩
  exact ⟨.draw, fun salt _ => ⟨.now, fun t ht => ⟨.newSession h ht, fun _ _ => hf _⟩⟩⟩

theorem serves_anyValid {token : JsonField N} {f : Bool → Iam N Reply} (ss : List Session)
    (hfalse : Serves env A r (f false))
    (htrue : ∀ s t, s ∈ ss → Matched A token s → A .now t → t < s.expiresAt →
      Serves env A r (f true)) : Serves env A r (anyValid token ss >>= f) := by
  induction ss with
  | nil => exact hfalse
  | cons s ss ih =>
    have hrest : Serves env A r (anyValid token ss >>= f) :=
      ih fun s' t hs' => htrue s' t (List.mem_cons_of_mem _ hs')
    rw [anyValid, bind_assoc]
    refine serves_compare fun x b hx hb => ?_
    cases b with
    | false => exact hrest
    | true =>
      simp only [if_true, bind_assoc]
      refine serves_now fun t ht => ?_
      by_cases hlt : t < s.expiresAt
      · simpa [hlt] using htrue s t List.mem_cons_self ⟨x, hx, hb⟩ ht hlt
      · simpa [hlt] using hrest

theorem serves_revokeFirst {token : JsonField N} (hr : exchanged r.route = some token)
    {f : Unit → Iam N Reply} {i : Option UserId} {ss : List Session} (hss : A (.findSessions i) ss)
    (hf : Serves env A r (f ())) :
    ∀ ss', (∀ s ∈ ss', s ∈ ss) → Serves env A r (revokeFirst token ss' >>= f) := by
  intro ss' hmem
  induction ss' with
  | nil => exact hf
  | cons s ss' ih =>
    rw [revokeFirst, bind_assoc]
    refine serves_compare fun x b hx hb => ?_
    cases b with
    | false => exact ih fun s' hs' => hmem s' (List.mem_cons_of_mem _ hs')
    | true =>
      have hs : s ∈ ss := hmem s List.mem_cons_self
      exact ⟨.revoked hr hss hs ⟨x, hx, hb⟩, fun _ _ => hf⟩

theorem serves_decryptSecret {secret : Option String} {f : String → Iam N Reply}
    (hf : ∀ s, secret.bind env.decrypt = some s → Serves env A r (f s)) :
    Serves env A r (decryptSecret env secret >>= f) := by
  cases secret with
  | none => exact serves_throw _
  | some c => exact serves_orThrow (v := env.decrypt c) fun s hs => hf s hs

/-- A one-time code against the stored secret. -/
theorem serves_totp {c : UserWhere} {u : User} (hc : Looks env r c) (hu : A (.findUser c) (some u))
    {code : JsonField N} {f : Bool → Iam N Reply}
    (hf : ∀ b, TotpSeen env A u.mfaSecret code b → Serves env A r (f b)) :
    Serves env A r (decryptSecret env u.mfaSecret >>= fun s => verifyTotp s code >>= f) := by
  refine serves_decryptSecret fun s hs => ⟨.totp hc hu hs, fun res hres => ?_⟩
  refine serves_orThrow fun b hb => hf b ⟨s, hs, ?_⟩
  rw [← hb]
  exact hres

theorem serves_encrypt {s : String} {f : String → Iam N Reply}
    (hf : ∀ n, A .draw n → Serves env A r (f (env.encrypt n s))) :
    Serves env A r (encrypt env s >>= f) := ⟨.draw, hf⟩

omit [JsNumber N] [DecidableEq N] in
theorem every_generateCodes {P : Op N → Prop} (hd : P .draw) (n : ℕ) :
    Prog.Every P (fun _ => True) (generateCodes env n) := by
  induction n with
  | zero => trivial
  | succ n ih =>
    have hdraw : Prog.Every P (fun _ => True) (draw : Iam N ℕ) := ⟨hd, fun _ => trivial⟩
    exact Prog.Every.seq hdraw fun _ => Prog.Every.seq ih fun _ => trivial

theorem serves_of_every {p : Iam N α} {f : α → Iam N Reply}
    (hp : Prog.Every (Asks env A r) (fun _ => True) p) (hf : ∀ a, Serves env A r (f a)) :
    Serves env A r (p >>= f) := by
  have hunder : Under A (Asks env A r) (Continues (fun _ => True) (Ends env A r)) p := by
    refine (under_of_every hp).mono (fun _ _ h => h) (fun _ h => h) fun res _ => ?_
    cases res with
    | ok a => trivial
    | error e => exact serves_throw e
  exact hunder.bind fun a _ => hf a

theorem serves_findHolder {u : User} {token : JsonField N} (hp : presented r.route = some token)
    (hu : A (.findUser (.mfaTempToken (criterion env token))) (some u))
    {f : Option User → Iam N Reply}
    (hf : ∀ row, A (.findUser (.id (some u.id))) row → Serves env A r (f row)) :
    Serves env A r (findById (.uuid u.id) >>= f) := ⟨.byId (.holder hp hu), hf⟩

theorem serves_requireUser (hr : takesHeader r.route = true) {f : User → Iam N Reply}
    (hf : ∀ u c, headerWhere r.userId = some c → A (.findUser c) (some u) →
      Serves env A r (f u)) : Serves env A r (requireUser r.userId >>= f) := by
  rw [requireUser, bind_assoc]
  cases hi : r.userId with
  | invalid => exact serves_throw _
  | undefined =>
    refine ⟨.byHeader hr (by rw [hi]; rfl), fun row hrow => serves_orThrow fun u hu => ?_⟩
    exact hf u _ (by rw [hi]; rfl) (hu ▸ hrow)
  | uuid i =>
    refine ⟨.byHeader hr (by rw [hi]; rfl), fun row hrow => serves_orThrow fun u hu => ?_⟩
    exact hf u _ (by rw [hi]; rfl) (hu ▸ hrow)

theorem serves_update {p : UserPatch} {f : Unit → Iam N Reply} (i : IdParam)
    (hp : ∀ j, i = .uuid j → Asks env A r (.updateUser j p)) (hf : Serves env A r (f ())) :
    Serves env A r (update i p >>= f) := by
  cases i with
  | uuid j => exact ⟨hp j rfl, fun _ _ => hf⟩
  | _ => exact serves_throw _

theorem serves_guarded {handler : Iam N Reply}
    (hf : BearerSeen env A r → Serves env A r handler) :
    Serves env A r (guarded env r.authorization handler) := by
  rw [guarded, verifyAccessToken]
  exact serves_verifyToken (serves_throw _) fun p hp => hf ⟨p, hp⟩

end Rules

section Handlers

theorem serves_completeLogin {dto : LoginDto N} {u : User} (hr : r.route = .login dto)
    (h : LoginSeen env A dto true u) : Serves env A r (completeLogin env u r.ip r.device) := by
  refine ⟨.attemptsReset hr h, fun _ _ => ?_⟩
  cases hm : u.mfaEnabled with
  | true =>
    refine serves_draw fun n hn => serves_now fun t ht => ?_
    refine serves_update _ (fun j hj => ?_) (serves_log (serves_plain rfl))
    cases hj
    exact .tempToken hr h hm hn ht
  | false =>
    have hg : Grants env A r u := .login hr h hm
    refine serves_generateTokens fun a t hminted => ?_
    refine serves_createRefreshToken hg fun _ => serves_log (serves_ret ?_)
    rintro t' ⟨⟩
    exact .granted hg hminted

theorem serves_incrementFailedAttempts {dto : LoginDto N} {u : User} (hr : r.route = .login dto)
    (h : LoginSeen env A dto false u) {f : Unit → Iam N Reply} (hf : Serves env A r (f ())) :
    Serves env A r (incrementFailedAttempts u >>= f) := by
  rw [incrementFailedAttempts]
  by_cases h5 : u.failedAttempts + 1 ≥ 5
  · rw [if_pos h5, bind_assoc]
    refine serves_now fun t ht => ⟨?_, fun _ _ => hf⟩
    have hrow := Asks.attemptFailed (t := t) hr h fun _ => ht
    rwa [attemptFailed, if_pos h5] at hrow
  · rw [if_neg h5]
    have hrow := Asks.attemptFailed (A := A) (t := 0) hr h fun h5' => absurd h5' h5
    rw [attemptFailed, if_neg h5] at hrow
    exact ⟨hrow, fun _ _ => hf⟩

theorem serves_login {dto : LoginDto N} (hr : r.route = .login dto) :
    Serves env A r (login env dto r.ip r.device) := by
  refine ⟨.byEmail (by rw [hr]; rfl), fun row hrow => ?_⟩
  cases row with
  | none => exact serves_log (serves_throw _)
  | some u =>
    refine serves_isLocked (serves_log (serves_throw _)) fun hl => ?_
    refine serves_compare fun s b hs hb => ?_
    have h : LoginSeen env A dto b u := ⟨hrow, hl, s, hs, hb⟩
    cases b with
    | true => exact serves_completeLogin hr h
    | false => exact serves_incrementFailedAttempts hr h (serves_log (serves_throw _))

theorem serves_refresh {token : JsonField N} (hr : r.route = .refresh token) :
    Serves env A r (refresh env token r.ip r.device) := by
  rw [refresh, verifyRefreshToken]
  refine serves_verifyToken (serves_throw _) fun p hp => ?_
  have hsub : Subject env A r p.sub := .refreshed hr hp
  refine ⟨.sessionsOf hsub, fun ss hss => ?_⟩
  refine serves_anyValid ss (serves_throw _) fun s t hs hm ht hlt => ?_
  refine ⟨.byId hsub, fun row hrow => ?_⟩
  cases row with
  | none => exact serves_throw _
  | some u =>
    change Serves env A r (if u.isActive then _ else _)
    by_cases ha : u.isActive = true
    · rw [if_pos ha]
      have hseen : RefreshSeen env A token u := ⟨⟨p, hp, hrow, ss, s, t, hss, hs, hm, ht, hlt⟩, ha⟩
      have hg : Grants env A r u := .refresh hr hseen
      refine serves_generateTokens fun a t hminted => ?_
      rw [revokeSession, findSessions, bind_assoc]
      refine ⟨.sessionsOfUser hr hseen, fun ss' hss' => ?_⟩
      refine serves_revokeFirst (by rw [hr]; rfl) hss' ?_ ss' fun _ h => h
      refine serves_createRefreshToken hg fun _ => serves_log (serves_ret ?_)
      rintro t' ⟨⟩
      exact .granted hg hminted
    · rw [if_neg ha]
      exact serves_throw _

theorem serves_logout {token : JsonField N} (hr : r.route = .logout token) :
    Serves env A r (logout env token r.userId r.ip r.device) := by
  have hquery : ∀ i, auditId r.userId = i → r.userId ≠ .invalid →
      Serves env A r (Prog.perform (.findSessions i) >>= fun ss =>
        revokeFirst token ss >>= fun _ =>
          log env "LOGOUT" (auditId r.userId) r.ip r.device true >>= fun _ =>
            .ret (.message true "Sesión cerrada correctamente")) := by
    rintro i rfl hi
    refine ⟨.sessionsOfHeader hr hi, fun ss hss => ?_⟩
    exact serves_revokeFirst (by rw [hr]; rfl) hss (serves_log (serves_plain rfl)) ss fun _ h => h
  rw [logout, revokeSession, bind_assoc]
  cases hi : r.userId with
  | invalid => exact serves_throw _
  | undefined =>
    have hrun := hquery none (by rw [hi]; rfl) (by simp [hi])
    rwa [hi] at hrun
  | uuid i =>
    have hrun := hquery (some i) (by rw [hi]; rfl) (by simp [hi])
    rwa [hi] at hrun

theorem serves_me (hr : r.route = .me) : Serves env A r (me env r.authorization) := by
  unfold me
  cases hh : r.authorization with
  | none => exact serves_plain rfl
  | some header =>
    change Serves env A r (if startsWith header "Bearer " then _ else _)
    split
    · refine serves_verifyToken (serves_plain rfl) fun p hp => ?_
      refine ⟨.byId (.bearer hr hh hp), fun row _ => ?_⟩
      cases row with
      | none => exact serves_plain rfl
      | some u => exact serves_plain rfl
    · exact serves_plain rfl

theorem serves_verify (token : JsonField N) : Serves env A r (AuthService.verify env token) :=
  serves_verifyToken (serves_plain rfl) fun _ _ => serves_plain rfl

theorem serves_setup (hr : r.route = .setup) :
    Serves env A r (MfaController.setup env r.userId) := by
  refine serves_requireUser (by rw [hr]; rfl) fun u c hc hu => ?_
  refine ⟨.draw, fun n hn => serves_encrypt fun m _ => ?_⟩
  refine serves_update _ (fun j hj => ?_) (serves_plain rfl)
  rw [hj] at hc
  cases hc
  exact .secret hr hj hu hn

theorem serves_verifySetup {code : JsonField N} (hr : r.route = .verifySetup code)
    (hb : BearerSeen env A r) : Serves env A r (MfaController.verifySetup env r.userId code) := by
  have hheader : takesHeader r.route = true := by rw [hr]; rfl
  refine serves_requireUser hheader fun u c hc hu => ?_
  refine serves_totp (.header hheader hc) hu fun b htotp => ?_
  cases b with
  | false => exact serves_plain rfl
  | true =>
    refine serves_of_every (every_generateCodes .draw codeCount) fun codes => ?_
    refine serves_encrypt fun m _ => serves_update _ (fun j hj => ?_) (serves_plain rfl)
    rw [hj] at hc
    cases hc
    exact .enabled hr hb hj hu htotp

theorem serves_disable {password code : JsonField N} (hr : r.route = .disable password code)
    (hb : BearerSeen env A r) :
    Serves env A r (MfaController.disable env r.userId password code) := by
  have hheader : takesHeader r.route = true := by rw [hr]; rfl
  refine serves_requireUser hheader fun u c hc hu => serves_compare fun s b hs hp => ?_
  cases b with
  | false => exact serves_plain rfl
  | true =>
    refine serves_totp (.header hheader hc) hu fun b htotp => ?_
    cases b with
    | false => exact serves_plain rfl
    | true =>
      refine serves_update _ (fun j hj => ?_) (serves_plain rfl)
      rw [hj] at hc
      cases hc
      exact .disabled hr hb hj hu hs hp htotp

theorem serves_getStatus (hr : r.route = .status) :
    Serves env A r (MfaController.getStatus r.userId) := by
  refine serves_requireUser (by rw [hr]; rfl) fun u c _ _ => ?_
  cases hm : u.mfaEnabled with
  | false => exact serves_plain rfl
  | true => exact serves_orThrow fun _ _ => serves_plain rfl

theorem serves_enableBiometric {device : JsonField N} (hr : r.route = .enableBiometric device)
    (hb : BearerSeen env A r) :
    Serves env A r (MfaController.enableBiometric env r.userId device) := by
  refine serves_requireUser (by rw [hr]; rfl) fun u c hc hu => ?_
  cases hm : u.mfaEnabled with
  | false => exact serves_plain rfl
  | true =>
    refine serves_update _ (fun j hj => ?_) (serves_plain rfl)
    rw [hj] at hc
    cases hc
    exact .biometricEnabled hr hb hj hu hm

theorem serves_disableBiometric (hr : r.route = .disableBiometric) (hb : BearerSeen env A r) :
    Serves env A r (MfaController.disableBiometric r.userId) :=
  serves_update _ (fun _ hj => .biometricDisabled hr hb hj) (serves_plain rfl)

theorem serves_adminUpdate {email : JsonField N} {p : UserPatch} {done : String}
    (hr : emailOf r.route = some email)
    (hp : ∀ u : User, A (.findUser (.email (criterion env email))) (some u) →
      Asks env A r (.updateUser u.id p)) : Serves env A r (adminUpdate env email p done) := by
  refine ⟨.byEmail hr, fun row hrow => ?_⟩
  cases row with
  | none => exact serves_plain rfl
  | some u => exact ⟨hp u hrow, fun _ _ => serves_orThrow fun _ _ => serves_plain rfl⟩

/-- The check of the factor that belongs to the route. -/
def ChecksFactor (env : Env N) (A : Contract N) (r : Request N)
    (check : User → Iam N (Option (Iam N Unit))) : Prop :=
  ∀ (u : User) (f : Option (Iam N Unit) → Iam N Reply),
    (∃ token, presented r.route = some token ∧
      A (.findUser (.mfaTempToken (criterion env token))) (some u)) →
    (FactorOutcome env A u r.route false → Serves env A r (f none)) →
    (∀ commit t, FactorOutcome env A u r.route true → Commits env t u r.route commit →
      (spentCodes env t u r.route ≠ none → A .now t) → Serves env A r (f (some commit))) →
    Serves env A r (check u >>= f)

theorem serves_totpCheck {token code : JsonField N} (hr : r.route = .verify token code) :
    ChecksFactor env A r (totpCheck env code) := by
  rintro u f ⟨t, hp, hu⟩ hfalse htrue
  rw [hr] at hfalse htrue
  rw [totpCheck, plainCheck, bind_assoc, bind_assoc]
  refine serves_totp (.token hp) hu fun b hb => ?_
  cases b with
  | false => exact hfalse (.totp hb)
  | true => exact htrue _ 0 (.totp hb) (.inl ⟨rfl, rfl⟩) fun hne => absurd rfl hne

theorem serves_biometricCheck {token device : JsonField N}
    (hr : r.route = .verifyBiometric token device) :
    ChecksFactor env A r (biometricCheck device) := by
  rintro u f ⟨t, hp, hu⟩ hfalse htrue
  rw [hr] at hfalse htrue
  rw [biometricCheck, plainCheck, validateBiometric, bind_assoc, bind_assoc]
  refine serves_findHolder hp hu fun row hrow => ?_
  cases row with
  | none => exact hfalse (.gone hrow)
  | some v =>
    have hv : FactorOutcome env A u (.verifyBiometric token device) _ := .biometric hrow
    cases hb : v.biometricEnabled &&
        Json.strictEq (some (columnValue v.deviceBiometricId)) device with
    | false =>
      rw [hb] at hv
      simpa [hb] using hfalse hv
    | true =>
      rw [hb] at hv
      simpa [hb] using htrue _ 0 hv (.inl ⟨rfl, rfl⟩) fun hne => absurd rfl hne

theorem serves_backupCheck {token code : JsonField N} (hr : r.route = .verifyBackup token code) :
    ChecksFactor env A r (backupCheck env code) := by
  intro u f _ hfalse htrue
  rw [hr] at hfalse htrue
  rw [backupCheck, bind_assoc]
  rcases code with _ | (_ | _ | _ | input | _ | _)
  case some.str =>
    rw [validateBackupCode]
    cases hp : (parseBackupCodes u.mfaBackupCodes : Json N) with
    | arr cs =>
      simp only [bind_assoc]
      refine serves_now fun t ht => ?_
      have hresult : backupResult env t u.mfaBackupCodes (some (.str input)) =
          markFirst (env.toUpperCase input) (env.toISOString t) cs := by
        simp [backupResult, hp]
      rcases hm : markFirst (env.toUpperCase input) (env.toISOString t) cs with _ | _ | cs'
      · exact serves_throw _
      · have hout : FactorOutcome env A u (.verifyBackup token (some (.str input))) false :=
          .backup ht (hresult.trans hm)
        exact hfalse hout
      · have hspent : spentCodes env t u (.verifyBackup token (some (.str input))) =
            some (stringifyBackupCodes (.arr cs')) := by
          simp [spentCodes, hresult, hm]
        have hout : FactorOutcome env A u (.verifyBackup token (some (.str input))) true :=
          .backup ht (hresult.trans hm)
        exact htrue _ t hout (.inr ⟨_, hspent, rfl⟩) fun _ => ht
    | _ => exact serves_throw _
  all_goals exact serves_throw _

theorem serves_completeVerification {u : User} (h : FactorSeen env A r.route true u) {t : Time}
    {commit : Iam N Unit} (hc : Commits env t u r.route commit)
    (ht : spentCodes env t u r.route ≠ none → A .now t) :
    Serves env A r (completeVerification env u commit) := by
  have hrest : Serves env A r (clearMfaTempToken (.uuid u.id) >>= fun _ =>
      generateTokens env u.id u.email >>= fun t => .ret (.verified t)) := by
    refine ⟨.now, fun t ht => ⟨.tokenCleared h ht, fun _ _ => ?_⟩⟩
    change Serves env A r (generateTokens env u.id u.email >>= fun t => .ret (.verified t))
    simp only [generateTokens, bind_assoc]
    refine serves_generateTokens fun a t' hminted => serves_ret ?_
    rintro t'' ⟨⟩
    exact .verified h hminted
  refine ⟨.factorAccepted h, fun _ _ => ?_⟩
  rcases hc with ⟨-, rfl⟩ | ⟨codes, hspent, rfl⟩
  · exact hrest
  · refine ⟨.draw, fun n hn => ⟨?_, fun _ _ => hrest⟩⟩
    exact .codesSpent h (ht (by simp [hspent])) hspent hn

theorem serves_isMfaLocked {u : User} {token : JsonField N} (hp : presented r.route = some token)
    (hu : A (.findUser (.mfaTempToken (criterion env token))) (some u)) {f : Bool → Iam N Reply}
    (htrue : Serves env A r (f true))
    (hfalse : ∀ row, A (.findUser (.id (some u.id))) row →
      (∀ v, row = some v → Unlocked A v.mfaLockedUntil) → Serves env A r (f false)) :
    Serves env A r (isMfaLocked (.uuid u.id) >>= f) := by
  rw [isMfaLocked, bind_assoc]
  refine serves_findHolder hp hu fun row hrow => ?_
  cases row with
  | none => exact hfalse none hrow (by simp)
  | some v =>
    have hopen : Unlocked A v.mfaLockedUntil → Serves env A r (f false) := by
      intro hl
      refine hfalse (some v) hrow ?_
      rintro v' ⟨⟩
      exact hl
    cases hl : v.mfaLockedUntil with
    | none =>
      rw [hl] at hopen
      simpa [hl] using hopen (by simp [Unlocked])
    | some l =>
      simp only [hl, bind_assoc]
      refine serves_now fun t ht => ?_
      by_cases hlt : t < l
      · simpa [hlt] using htrue
      · rw [hl] at hopen
        have hle : l ≤ t := Nat.le_of_not_lt hlt
        simpa [hlt] using hopen fun l' hl' => ⟨t, ht, by cases hl'; exact hle⟩

theorem serves_incrementMfaFailedAttempts {u : User} (h : FactorSeen env A r.route false u)
    {f : Unit → Iam N Reply} (hf : Serves env A r (f ())) :
    Serves env A r (incrementMfaFailedAttempts (.uuid u.id) >>= f) := by
  obtain ⟨token, hp, hu⟩ := h.selected
  rw [incrementMfaFailedAttempts, bind_assoc]
  refine serves_findHolder hp hu fun row hrow => ?_
  cases row with
  | none => exact hf
  | some v =>
    simp only
    by_cases h3 : v.mfaFailedAttempts + 1 ≥ 3
    · rw [if_pos h3, bind_assoc]
      refine serves_now fun t ht => ⟨?_, fun _ _ => hf⟩
      have hsave := Asks.mfaAttemptFailed (t := t) h hrow fun _ => ht
      rwa [mfaAttemptFailed, if_pos h3] at hsave
    · rw [if_neg h3]
      have hsave := Asks.mfaAttemptFailed (t := 0) h hrow fun h3' => absurd h3' h3
      rw [mfaAttemptFailed, if_neg h3] at hsave
      exact ⟨hsave, fun _ _ => hf⟩

theorem serves_verifyFactor {token : JsonField N} {refusal : String}
    {check : User → Iam N (Option (Iam N Unit))} (hp : presented r.route = some token)
    (hcheck : ChecksFactor env A r check) :
    Serves env A r (verifyFactor env token refusal check) := by
  refine ⟨.byToken hp, fun row hu => ?_⟩
  cases row with
  | none => exact serves_plain rfl
  | some u =>
    refine serves_now fun t ht => ?_
    by_cases hexp : u.mfaTempTokenExpires.getD 0 < t
    · simpa [hexp] using serves_plain rfl
    · rw [if_neg hexp]
      have hfresh : t ≤ u.mfaTempTokenExpires.getD 0 := Nat.le_of_not_lt hexp
      refine serves_isMfaLocked hp hu (serves_plain rfl) fun row hrow hl => ?_
      have hseen : ∀ {b}, FactorOutcome env A u r.route b → FactorSeen env A r.route b u :=
        fun hb => ⟨⟨token, hp, hu⟩, ⟨t, ht, hfresh⟩, ⟨row, hrow, hl⟩, hb⟩
      refine hcheck u _ ⟨token, hp, hu⟩ (fun hb => ?_) fun commit t' hb hc ht' => ?_
      · exact serves_incrementMfaFailedAttempts (hseen hb) (serves_plain rfl)
      · exact serves_completeVerification (hseen hb) hc ht'

end Handlers

/-- Every request asks only for the listed operations, and has earned the tokens it
ends with. -/
theorem serves_handle (env : Env N) (A : Contract N) (r : Request N) :
    Serves env A r (handle env r) := by
  rw [handle]
  cases hr : r.route with
  | login dto => exact serves_login hr
  | refresh token => exact serves_refresh hr
  | logout token => exact serves_logout hr
  | verifyToken token => exact serves_verify token
  | me => exact serves_me hr
  | setup => exact serves_setup hr
  | verifySetup code => exact serves_guarded fun hb => serves_verifySetup hr hb
  | disable password code => exact serves_guarded fun hb => serves_disable hr hb
  | status => exact serves_guarded fun _ => serves_getStatus hr
  | verify token code =>
    have hp : presented r.route = some token := by rw [hr]; rfl
    exact serves_verifyFactor hp (serves_totpCheck hr)
  | verifyBackup token code =>
    have hp : presented r.route = some token := by rw [hr]; rfl
    exact serves_verifyFactor hp (serves_backupCheck hr)
  | enableBiometric device => exact serves_guarded fun hb => serves_enableBiometric hr hb
  | disableBiometric => exact serves_guarded fun hb => serves_disableBiometric hr hb
  | verifyBiometric token device =>
    have hp : presented r.route = some token := by rw [hr]; rfl
    exact serves_verifyFactor hp (serves_biometricCheck hr)
  | unlockUser email =>
    exact serves_adminUpdate (by rw [hr]; rfl) fun u hu => .unlocked hr hu
  | resetUser email =>
    exact serves_adminUpdate (by rw [hr]; rfl) fun u hu => .reset hr hu

theorem under_asks {P P' : Op N → Prop} {R : Except Failure Reply → Prop}
    (hasks : ∀ o, Asks env A r o → P o) (hown : Under A P' R (handle env r)) :
    Under A (fun o => P o ∧ P' o) R (handle env r) :=
  ((serves_handle env A r).and hown).mono (fun _ _ ha => ha)
    (fun o ho => ⟨hasks o ho.1, ho.2⟩) fun _ h => h.2

/-- Requests in a race, under contracts that an invariant and the log of the race bear out. -/
theorem under_together {A : ℕ → Contract N} {P : ℕ → Op N → Prop}
    {R : ℕ → Except Failure Reply → Prop} {I : World → Prop} {w : World} {rs : List (Request N)}
    (sched : List (Turn Time)) (hstep : ∀ k o w', I w' → P k o →
      .op k o (exec env o w').1 ∈ (together env w rs sched).log →
        A k o (exec env o w').1 ∧ I (exec env o w').2)
    (htick : ∀ t w', .outside t ∈ sched → I w' → I (tick t w')) (hw : I w)
    (hrs : ∀ (k : ℕ) r, rs[k]? = some r → Under (A k) (P k) (R k) (handle env r)) :
    let c := together env w rs sched
    I c.state ∧ (∀ (k : ℕ) p, c.threads[k]? = some p → Under (A k) (P k) (R k) p) ∧
      ∀ k o r, .op k o r ∈ c.log → P k o := by
  refine foretold_exec (c := Pool.start (rs.map (handle env)) w) hstep htick (fun _ hx => hx) hw ?_ ?_
  · intro k p hp
    obtain ⟨r, hr, rfl⟩ : ∃ r, rs[k]? = some r ∧ handle env r = p := by
      simpa [Pool.start] using hp
    exact hrs k r hr
  · simp [Pool.start]

end VerdeAuth.RequestContracts
