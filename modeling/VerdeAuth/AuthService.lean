import VerdeAuth.TokenServices

/-!
# Login, refresh and logout

`AuditLogService.log` and `AuthService`. A login with MFA mints a temporary token
and hands out no signed tokens.
-/

namespace VerdeAuth.AuthService

open JsonTexts IamTables IamOperations ResumptionPrograms UsersService TokenServices

variable {N : Type}

def includes (s sub : String) : Bool := s.toList.tails.any (sub.toList.isPrefixOf ·)

def getEventType (env : Env N) (action : String) (success : Bool) : String :=
  let actionLower := env.toLowerCase action
  if includes actionLower "login" then if success then "login_success" else "login_failed"
  else if includes actionLower "logout" then "logout"
  else if includes actionLower "refresh" then "token_refresh"
  else if includes actionLower "mfa" && includes actionLower "enable" then "mfa_enabled"
  else if includes actionLower "lock" then "account_locked"
  else if includes actionLower "password" then "password_changed"
  else actionLower

def orUnknown (s : String) : String := if s = "" then "unknown" else s

/-- `AuditLogService.log`: the row, then the event for the security logger. -/
def log (env : Env N) (action : String) (userId : Option UserId) (ip device : String)
    (success : Bool) : Iam N Unit := do
  Prog.perform (Op.insertAuditLog ⟨userId, action, some ip, some device, success⟩)
  Prog.perform (Op.logSecurity
    { message := action ++ " - " ++ (if success then "SUCCESS" else "FAILED")
      eventType := getEventType env action success
      userId := userId
      action := action
      ip := orUnknown ip
      device := orUnknown device
      success := success })

/-- What a handler answers with. -/
inductive Reply where
  /-- `{ success: true, data: { accessToken, refreshToken, expiresIn } }` -/
  | session (tokens : TokenPair)
  /-- `{ success: true, accessToken, refreshToken, expiresIn }` -/
  | verified (tokens : TokenPair)
  /-- `{ success: true, needsMfa: true, tempToken, … }` -/
  | needsMfa (tempToken : String) (preferredMfaMethod : MfaMethod) (biometricEnabled : Bool)
  | message (success : Bool) (text : String)
  /-- `{ success: true }` -/
  | done
  | setup (secret otpauthUri qrCodeUrl : String)
  | backupCodes (codes : List String)
  | status (mfaEnabled : Bool) (backupCodesRemaining : ℕ) (lastVerified : Option Time)
  | me (userId : UserId) (email : String) (mfaEnabled biometricEnabled : Bool)
      (preferredMfaMethod : MfaMethod)
  | tokenStatus (payload : Option JwtPayload)
  deriving DecidableEq

/-- The signed tokens a reply hands out. -/
def Reply.tokens? : Reply → Option TokenPair
  | .session t => some t
  | .verified t => some t
  | _ => none

structure LoginDto (N : Type) where
  email : JsonField N
  password : JsonField N

def mfaTempTokenMs : Time := 5 * 60 * 1000

/-- `user.lockedUntil && new Date(user.lockedUntil) > new Date()` -/
def isLocked (lockedUntil : Option Time) : Iam N Bool :=
  match lockedUntil with
  | none => return false
  | some t => do return (← now) < t

/-- The part of `login` behind the password check. -/
def completeLogin (env : Env N) (user : User) (ip device : String) : Iam N Reply := do
  resetFailedAttempts user
  if user.mfaEnabled then
    let tempToken := env.randomHex (← draw) 32
    let expiresAt := (← now) + mfaTempTokenMs
    setMfaTempToken (.uuid user.id) tempToken expiresAt
    log env "MFA_PENDING" (some user.id) ip device true
    return .needsMfa tempToken user.preferredMfaMethod user.biometricEnabled
  else
    let accessToken ← generateAccessToken env user.id user.email
    let refreshToken ← generateRefreshToken env user.id
    let _ ← createRefreshToken env user.id device ip
    log env "LOGIN_SUCCESS" (some user.id) ip device true
    return .session ⟨accessToken, refreshToken, 900⟩

def login (env : Env N) (dto : LoginDto N) (ip device : String) : Iam N Reply := do
  match ← findByEmail env dto.email with
  | none =>
    log env "LOGIN_FAILED" none ip device false
    Prog.throw (.unauthorized "Credenciales inválidas")
  | some user =>
    if ← isLocked user.lockedUntil then
      log env "LOGIN_LOCKED" (some user.id) ip device false
      Prog.throw (.forbidden "Cuenta bloqueada. Intente más tarde.")
    else if ← validatePassword user dto.password then
      completeLogin env user ip device
    else
      incrementFailedAttempts user
      log env "LOGIN_FAILED" (some user.id) ip device false
      Prog.throw (.unauthorized "Credenciales inválidas")

def refresh (env : Env N) (refreshToken : JsonField N) (ip device : String) : Iam N Reply := do
  match ← verifyRefreshToken env refreshToken with
  | none => Prog.throw (.unauthorized "Refresh token inválido")
  | some payload =>
    if ← validateRefreshToken (.uuid payload.sub) refreshToken then
      match ← findById (.uuid payload.sub) with
      | none => Prog.throw (.unauthorized "Usuario no encontrado o inactivo")
      | some user =>
        if user.isActive then
          let accessToken ← generateAccessToken env user.id user.email
          let newRefreshToken ← generateRefreshToken env user.id
          revokeSession (.uuid user.id) refreshToken
          let _ ← createRefreshToken env user.id device ip
          log env "TOKEN_REFRESH" (some user.id) ip device true
          return .session ⟨accessToken, newRefreshToken, 900⟩
        else Prog.throw (.unauthorized "Usuario no encontrado o inactivo")
    else Prog.throw (.unauthorized "Refresh token inválido o expirado")

/-- The user id of the audit row is the header; an invalid one has already thrown. -/
def auditId : IdParam → Option UserId
  | .uuid i => some i
  | _ => none

def logout (env : Env N) (refreshToken : JsonField N) (userId : IdParam) (ip device : String) :
    Iam N Reply := do
  revokeSession userId refreshToken
  log env "LOGOUT" (auditId userId) ip device true
  return .message true "Sesión cerrada correctamente"

/-- The token is taken as base64 of its text; where that throws, as it is. -/
def decodeToken (env : Env N) (token : JsonField N) : JsonField N :=
  match token.bind env.base64Ascii with
  | some s => some (.str s)
  | none => token

def verify (env : Env N) (token : JsonField N) : Iam N Reply := do
  let payload ← verifyAccessToken env (decodeToken env token)
  return .tokenStatus payload

end VerdeAuth.AuthService
