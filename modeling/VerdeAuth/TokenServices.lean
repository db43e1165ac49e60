import VerdeAuth.UsersService

/-!
# Signed tokens and refresh sessions

`JwtAuthService` signs and verifies tokens; `SessionsService` keeps the hashes
of the refresh tokens it makes itself.
-/

namespace VerdeAuth.TokenServices

open JsonTexts IamTables IamOperations ResumptionPrograms UsersService

variable {N : Type}

/-- A signed token: its text and the payload that was signed. -/
structure Jwt where
  payload : JwtPayload
  text : String
  deriving DecidableEq

structure TokenPair where
  accessToken : Jwt
  refreshToken : Jwt
  expiresIn : ℕ
  deriving DecidableEq

/-- The module's secret stands in where the refresh secret is not set. -/
def refreshKey (env : Env N) : String := env.jwtRefreshSecret.getD env.jwtAccessSecret

def accessPayload (env : Env N) (userId : UserId) (email : String) (t : Time) : JwtPayload where
  sub := userId
  email := some email
  jti := none
  type := .access
  iat := t / 1000
  exp := t / 1000 + env.jwtAccessExpires

def refreshPayload (env : Env N) (userId : UserId) (jti : String) (t : Time) : JwtPayload where
  sub := userId
  email := none
  jti := some jti
  type := .refresh
  iat := t / 1000
  exp := t / 1000 + env.jwtRefreshExpires

def generateAccessToken (env : Env N) (userId : UserId) (email : String) : Iam N Jwt := do
  let payload := accessPayload env userId email (← now)
  return ⟨payload, env.jwtSign env.jwtAccessSecret payload⟩

def generateRefreshToken (env : Env N) (userId : UserId) : Iam N Jwt := do
  let a ← draw
  let b ← draw
  let payload := refreshPayload env userId (env.random36 a ++ env.random36 b) (← now)
  return ⟨payload, env.jwtSign (refreshKey env) payload⟩

def verifyToken (env : Env N) (secret : String) (token : JsonField N) : Iam N (Option JwtPayload) :=
  match token with
  | some (.str s) => do return env.jwtVerify secret s (← now)
  | _ => .ret none

def verifyAccessToken (env : Env N) (token : JsonField N) : Iam N (Option JwtPayload) :=
  verifyToken env env.jwtAccessSecret token

def verifyRefreshToken (env : Env N) (token : JsonField N) : Iam N (Option JwtPayload) :=
  verifyToken env (refreshKey env) token

def generateTokens (env : Env N) (userId : UserId) (email : String) : Iam N TokenPair := do
  let accessToken ← generateAccessToken env userId email
  let refreshToken ← generateRefreshToken env userId
  return ⟨accessToken, refreshToken, 900⟩

/-! `SessionsService` -/

def sessionMs : Time := 7 * 24 * 60 * 60 * 1000

def generateToken (env : Env N) : Iam N String := do
  let a ← draw
  let b ← draw
  let c ← draw
  let d ← draw
  return env.random36 a ++ env.random36 b ++ env.random36 c ++ env.random36 d

def createRefreshToken (env : Env N) (userId : UserId) (deviceInfo ipAddress : String) :
    Iam N String := do
  let refreshToken ← generateToken env
  let salt ← draw
  let t ← now
  Prog.perform (Op.insertSession userId (env.bcryptHash salt refreshToken) (some deviceInfo)
    (some ipAddress) (t + sessionMs))
  return refreshToken

/-- `sessionRepository.find` of the sessions of a user that are not revoked. -/
def findSessions (userId : IdParam) : Iam N (List Session) :=
  match userId with
  | .undefined => Prog.perform (Op.findSessions none)
  | .invalid => .throw .internal
  | .uuid i => Prog.perform (Op.findSessions (some i))

def anyValid (refreshToken : JsonField N) : List Session → Iam N Bool
  | [] => return false
  | s :: ss => do
    if ← compare refreshToken s.refreshToken then
      if (← now) < s.expiresAt then return true
      else anyValid refreshToken ss
    else anyValid refreshToken ss

def validateRefreshToken (userId : IdParam) (refreshToken : JsonField N) : Iam N Bool := do
  let sessions ← findSessions userId
  anyValid refreshToken sessions

def revokeFirst (refreshToken : JsonField N) : List Session → Iam N Unit
  | [] => return
  | s :: ss => do
    if ← compare refreshToken s.refreshToken then
      Prog.perform (Op.saveSession { s with isRevoked := true })
    else revokeFirst refreshToken ss

def revokeSession (userId : IdParam) (refreshToken : JsonField N) : Iam N Unit := do
  let sessions ← findSessions userId
  revokeFirst refreshToken sessions

def revokeAllUserSessions (userId : UserId) : Iam N Unit := Prog.perform (Op.revokeSessions userId)

def cleanupExpiredSessions : Iam N Unit := do
  let t ← now
  Prog.perform (Op.deleteSessions t)

end VerdeAuth.TokenServices
