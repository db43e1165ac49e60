import VerdeAuth.IamRules

/-!
# What a request can do to a user row

A request changes at most one user row. `RowChange` lists the states that row
passes through, each with the guards under which the request brings it there,
all read off the row as the request finds it.
-/

namespace VerdeAuth.UserRowChanges

open JsonTexts KeyedTables IamTables IamOperations ResumptionPrograms UsersService TokenServices
open MfaServices AuthService MfaController IamEndpoints IamRules

variable {N : Type}

def attemptFailed (t : Time) (u : User) : User :=
  { u with
    failedAttempts := u.failedAttempts + 1
    lockedUntil := if u.failedAttempts + 1 ≥ 5 then some (t + lockoutMs) else u.lockedUntil }

def mfaAttemptFailed (t : Time) (u : User) : User :=
  { u with
    mfaFailedAttempts := u.mfaFailedAttempts + 1
    mfaLockedUntil :=
      if u.mfaFailedAttempts + 1 ≥ 3 then some (t + lockoutMs) else u.mfaLockedUntil }

def mfaAttemptsReset (u : User) : User := { u with mfaFailedAttempts := 0, mfaLockedUntil := none }

def tempTokenSet (token : String) (expires : Time) (u : User) : User :=
  { u with mfaTempToken := some token, mfaTempTokenExpires := some expires }

def tempTokenCleared (t : Time) (u : User) : User :=
  { u with mfaTempToken := none, mfaTempTokenExpires := none, mfaLastVerified := some t }

def secretSet (secret : String) (u : User) : User := { u with mfaSecret := some secret }

def mfaEnabledWith (codes : String) (u : User) : User :=
  { u with mfaEnabled := true, mfaBackupCodes := some codes }

def mfaDisabled (u : User) : User :=
  { u with
    mfaEnabled := false
    mfaSecret := none
    mfaBackupCodes := none
    mfaTempToken := none
    mfaTempTokenExpires := none
    mfaFailedAttempts := 0
    mfaLockedUntil := none }

def biometricEnabledWith (device : Option (Option String)) (u : User) : User :=
  { u with
    biometricEnabled := true
    deviceBiometricId := device.getD u.deviceBiometricId
    preferredMfaMethod := .biometric }

def biometricDisabled (u : User) : User :=
  { u with biometricEnabled := false, deviceBiometricId := none, preferredMfaMethod := .totp }

/-- The row a login with MFA leaves. -/
def pendingRow (env : Env N) (w : World) (u : User) : User :=
  tempTokenSet (env.randomHex w.drawn 32) (w.clock + mfaTempTokenMs) (attemptsReset u)

def setupRow (env : Env N) (w : World) (u : User) : User :=
  secretSet (env.encrypt (w.drawn + 1) (env.totpSecret w.drawn)) u

/-- The temporary token a verification presents. -/
def presented : Route N → Option (JsonField N)
  | .verify tempToken _ => some tempToken
  | .verifyBackup tempToken _ => some tempToken
  | .verifyBiometric tempToken _ => some tempToken
  | _ => none

def totpResult (env : Env N) (t : Time) (secret : Option String) (code : JsonField N) : Option Bool :=
  (secret.bind env.decrypt).bind fun s => env.totpVerify s code t

section Factors

variable [JsNumber N] [DecidableEq N]

/-- Checking a backup code; `none` where it throws, else the records it leaves
when it is accepted. -/
def backupResult (env : Env N) (t : Time) (stored : Option String) (code : JsonField N) :
    Option (Option (List (Json N))) :=
  match code, (parseBackupCodes stored : Json N) with
  | some (.str input), .arr cs => markFirst (env.toUpperCase input) (env.toISOString t) cs
  | _, _ => none

/-- Whether the presented factor passes against the row; `none` where it throws. -/
def factorResult (env : Env N) (t : Time) (u : User) : Route N → Option Bool
  | .verify _ code => totpResult env t u.mfaSecret code
  | .verifyBackup _ code => (backupResult env t u.mfaBackupCodes code).map Option.isSome
  | .verifyBiometric _ device => some (u.biometricEnabled &&
      Json.strictEq (some (columnValue u.deviceBiometricId)) device)
  | _ => none

/-- The backup codes an accepted factor writes back. -/
def spentCodes (env : Env N) (t : Time) (u : User) : Route N → Option String
  | .verifyBackup _ code =>
    ((backupResult env t u.mfaBackupCodes code).bind id).map fun cs => stringifyBackupCodes (.arr cs)
  | _ => none

/-- The row after an accepted factor, before its temporary token is cleared. -/
def factorWritten (env : Env N) (w : World) (route : Route N) (u : User) : User :=
  { mfaAttemptsReset u with
    mfaBackupCodes := match spentCodes env w.clock u route with
      | some codes => some (env.encrypt w.drawn codes)
      | none => u.mfaBackupCodes }

/-- The row an accepted setup leaves, with the codes it hands out. -/
def enabledRow (env : Env N) (w : World) (u : User) : User :=
  mfaEnabledWith (env.encrypt (w.drawn + codeCount)
    (stringifyBackupCodes (freshCodes (drawnCodes env w.drawn codeCount) : Json N))) u

structure LoginChecked (env : Env N) (w : World) (dto : LoginDto N) (valid : Bool) (u : User) :
    Prop where
  selected : w.findUser (.email (criterion env dto.email)) = some u
  unlocked : lockedAt w.clock u.lockedUntil = false
  password : ∃ s, dto.password = some (.str s) ∧ env.bcryptCompare s u.passwordHash = valid

/-- The row a verification finds by its temporary token. -/
def FactorSelected (env : Env N) (w : World) (route : Route N) (u : User) : Prop :=
  ∃ token, presented route = some token ∧
    w.findUser (.mfaTempToken (criterion env token)) = some u

structure FactorChecked (env : Env N) (w : World) (route : Route N) (valid : Bool) (u : User) :
    Prop where
  selected : FactorSelected env w route u
  fresh : w.clock ≤ u.mfaTempTokenExpires.getD 0
  unlocked : lockedAt w.clock u.mfaLockedUntil = false
  factor : factorResult env w.clock u route = some valid

omit [JsNumber N] [DecidableEq N] in
/-- A login checks one password, of one user. -/
theorem LoginChecked.unique {env : Env N} {w : World} {u u' : User} {valid valid' : Bool}
    {dto : LoginDto N} (h : LoginChecked env w dto valid u)
    (h' : LoginChecked env w dto valid' u') : u' = u ∧ valid' = valid := by
  have hu : u' = u := Option.some.inj (h'.selected.symm.trans h.selected)
  obtain ⟨s, hs, hvalid⟩ := h.password
  obtain ⟨s', hs', hvalid'⟩ := h'.password
  rw [hs] at hs'
  cases hs'
  exact ⟨hu, by rw [← hvalid', hu, hvalid]⟩

omit [JsNumber N] [DecidableEq N] in
theorem FactorSelected.unique {env : Env N} {w : World} {u u' : User} {route : Route N}
    (h : FactorSelected env w route u)
    (h' : FactorSelected env w route u') : u' = u := by
  obtain ⟨token, htoken, hu⟩ := h
  obtain ⟨token', htoken', hu'⟩ := h'
  rw [htoken] at htoken'
  cases htoken'
  exact Option.some.inj (hu'.symm.trans hu)

theorem FactorChecked.unique {env : Env N} {w : World} {u u' : User} {valid valid' : Bool}
    {route : Route N} (h : FactorChecked env w route valid u)
    (h' : FactorChecked env w route valid' u') : u' = u ∧ valid' = valid := by
  have hu : u' = u := h.selected.unique h'.selected
  have hfactor := h'.factor
  rw [hu, h.factor] at hfactor
  exact ⟨hu, (Option.some.inj hfactor).symm⟩

/-- The header names the row. -/
structure Addressed (w : World) (r : Request N) (u : User) : Prop where
  header : r.userId = .uuid u.id
  row : w.users.get? u.id = some u

def addressed (w : World) (r : Request N) : Option User :=
  match r.userId with
  | .uuid i => w.users.get? i
  | _ => none

omit [JsNumber N] [DecidableEq N] in
theorem addressed_eq_some {w : World} {r : Request N} {u : User} :
    addressed w r = some u ↔ Addressed w r u := by
  unfold addressed
  constructor
  · intro h
    split at h
    · next i hi =>
      have hid := Table.key_of_get? h
      exact ⟨hid ▸ hi, hid ▸ h⟩
    · cases h
  · rintro ⟨hi, hu⟩
    simp [hi, hu]

/-- The payload of the bearer token, where that is a valid access token. -/
def bearerPayload (env : Env N) (w : World) (r : Request N) : Option JwtPayload :=
  (r.authorization.bind env.bearerToken).bind fun s =>
    env.jwtVerify env.jwtAccessSecret s w.clock

def Authorized (env : Env N) (w : World) (r : Request N) : Prop :=
  (bearerPayload env w r).isSome = true

inductive RowChange (env : Env N) (w : World) (r : Request N) : User → User → Prop
  | loginRefused {dto u} (hr : r.route = .login dto) (h : LoginChecked env w dto false u) :
      RowChange env w r u (attemptFailed w.clock u)
  | loginAccepted {dto u} (hr : r.route = .login dto) (h : LoginChecked env w dto true u) :
      RowChange env w r u (attemptsReset u)
  | loginPending {dto u} (hr : r.route = .login dto) (h : LoginChecked env w dto true u)
      (hm : u.mfaEnabled = true) : RowChange env w r u (pendingRow env w u)
  | secretSet {u} (hr : r.route = .setup) (hu : Addressed w r u) :
      RowChange env w r u (setupRow env w u)
  | mfaEnabled {code u} (hr : r.route = .verifySetup code) (ha : Authorized env w r)
      (hu : Addressed w r u) (hc : totpResult env w.clock u.mfaSecret code = some true) :
      RowChange env w r u (enabledRow env w u)
  | mfaDisabled {password code u} {s : String} (hr : r.route = .disable password code)
      (ha : Authorized env w r) (hu : Addressed w r u) (hs : password = some (.str s))
      (hp : env.bcryptCompare s u.passwordHash = true)
      (hc : totpResult env w.clock u.mfaSecret code = some true) :
      RowChange env w r u (mfaDisabled u)
  | biometricEnabled {device u} (hr : r.route = .enableBiometric device)
      (ha : Authorized env w r) (hu : Addressed w r u) (hm : u.mfaEnabled = true) :
      RowChange env w r u (biometricEnabledWith (columnUpdate env device) u)
  | biometricDisabled {u} (hr : r.route = .disableBiometric) (ha : Authorized env w r)
      (hu : Addressed w r u) : RowChange env w r u (biometricDisabled u)
  | factorRefused {u} (h : FactorChecked env w r.route false u) :
      RowChange env w r u (mfaAttemptFailed w.clock u)
  | factorAccepted {u} (h : FactorChecked env w r.route true u) :
      RowChange env w r u (mfaAttemptsReset u)
  | codesSpent {u} (h : FactorChecked env w r.route true u) :
      RowChange env w r u (factorWritten env w r.route u)
  | factorCompleted {u} (h : FactorChecked env w r.route true u) :
      RowChange env w r u (tempTokenCleared w.clock (factorWritten env w r.route u))
  | unlocked {email u} (hr : r.route = .unlockUser email)
      (hu : w.findUser (.email (criterion env email)) = some u) :
      RowChange env w r u (unlockPatch.apply u)
  | reset {email u} (hr : r.route = .resetUser email)
      (hu : w.findUser (.email (criterion env email)) = some u) :
      RowChange env w r u (resetPatch.apply u)

variable {env : Env N} {w w' : World} {r : Request N} {u u' : User}

theorem RowChange.row (h : RowChange env w r u u') : w.users.get? u.id = some u := by
  have hfind : ∀ {c : UserWhere}, w.findUser c = some u → w.users.get? u.id = some u :=
    get?_of_findUser
  cases h with
  | secretSet hr hu => exact hu.row
  | mfaEnabled hr ha hu hc => exact hu.row
  | mfaDisabled hr ha hu hs hp hc => exact hu.row
  | biometricEnabled hr ha hu hm => exact hu.row
  | biometricDisabled hr ha hu => exact hu.row
  | unlocked hr hu => exact hfind hu
  | reset hr hu => exact hfind hu
  | loginRefused hr h => exact hfind h.selected
  | loginAccepted hr h => exact hfind h.selected
  | loginPending hr h hm => exact hfind h.selected
  | factorRefused h =>
    obtain ⟨_, -, hs⟩ := h.selected
    exact hfind hs
  | factorAccepted h =>
    obtain ⟨_, -, hs⟩ := h.selected
    exact hfind hs
  | codesSpent h =>
    obtain ⟨_, -, hs⟩ := h.selected
    exact hfind hs
  | factorCompleted h =>
    obtain ⟨_, -, hs⟩ := h.selected
    exact hfind hs

theorem RowChange.id_eq (h : RowChange env w r u u') : u'.id = u.id := by
  cases h <;> rfl

/-- The users a request has brought about so far: those it found, or those with
one row changed. -/
def Visited (env : Env N) (w : World) (r : Request N) (w' : World) : Prop :=
  w'.clock = w.clock ∧
    (w'.users = w.users ∨ ∃ u u', RowChange env w r u u' ∧ w'.users = w.users.put u')

theorem visited_sameUsers (h : SameUsers w w') : Visited env w r w' := ⟨h.2, Or.inl h.1⟩

theorem visited_put (h : RowChange env w r u u') (hc : w'.clock = w.clock)
    (hu : w'.users = w.users.put u') : Visited env w r w' := ⟨hc, Or.inr ⟨u, u', h, hu⟩⟩

def loginRow (env : Env N) (w : World) (dto : LoginDto N) : Option User :=
  (w.findUser (.email (criterion env dto.email))).bind fun u =>
    if lockedAt w.clock u.lockedUntil then none
    else match dto.password with
      | some (.str s) =>
        if env.bcryptCompare s u.passwordHash then
          some (if u.mfaEnabled then pendingRow env w u else attemptsReset u)
        else some (attemptFailed w.clock u)
      | _ => none

def factorRow (env : Env N) (w : World) (route : Route N) (tempToken : JsonField N) :
    Option User :=
  (w.findUser (.mfaTempToken (criterion env tempToken))).bind fun u =>
    if u.mfaTempTokenExpires.getD 0 < w.clock then none
    else if lockedAt w.clock u.mfaLockedUntil then none
    else match factorResult env w.clock u route with
      | none => none
      | some true => some (tempTokenCleared w.clock (factorWritten env w route u))
      | some false => some (mfaAttemptFailed w.clock u)

def disabledRow (env : Env N) (w : World) (password code : JsonField N) (u : User) : Option User :=
  match password with
  | some (.str s) =>
    if env.bcryptCompare s u.passwordHash && totpResult env w.clock u.mfaSecret code = some true
    then some (mfaDisabled u)
    else none
  | _ => none

/-- What a guarded handler makes of the row the header names. -/
def guardedRow (env : Env N) (w : World) (r : Request N) (f : User → Option User) : Option User :=
  if (bearerPayload env w r).isSome then (addressed w r).bind f else none

omit [JsNumber N] [DecidableEq N] in
theorem guardedRow_of_authorized (ha : Authorized env w r) (hu : Addressed w r u)
    (f : User → Option User) : guardedRow env w r f = f u := by
  have hsome : (bearerPayload env w r).isSome = true := ha
  rw [guardedRow, if_pos hsome, addressed_eq_some.mpr hu]
  rfl

/-- The row a request leaves changed at its end, if any. -/
def finalRow (env : Env N) (w : World) (r : Request N) : Option User :=
  match r.route with
  | .login dto => loginRow env w dto
  | .setup => (addressed w r).bind fun u => some (setupRow env w u)
  | .verifySetup code => guardedRow env w r fun u =>
    if totpResult env w.clock u.mfaSecret code = some true then
      some (enabledRow (N := N) env w u)
    else none
  | .disable password code => guardedRow env w r (disabledRow env w password code)
  | .enableBiometric device => guardedRow env w r fun u =>
    if u.mfaEnabled then some (biometricEnabledWith (columnUpdate env device) u) else none
  | .disableBiometric => guardedRow env w r fun u => some (biometricDisabled u)
  | .verify tempToken _ => factorRow env w r.route tempToken
  | .verifyBackup tempToken _ => factorRow env w r.route tempToken
  | .verifyBiometric tempToken _ => factorRow env w r.route tempToken
  | .unlockUser email => (w.findUser (.email (criterion env email))).map unlockPatch.apply
  | .resetUser email => (w.findUser (.email (criterion env email))).map resetPatch.apply
  | _ => none

end Factors

end VerdeAuth.UserRowChanges
