import VerdeAuth.MfaController

/-!
# Endpoints and requests

`AdminController`, `AuthController` and the routing of requests to handlers, with
the guard of the endpoints that have one. Requests served one at a time form a
run.
-/

namespace VerdeAuth.IamEndpoints

open JsonTexts IamTables IamOperations ResumptionPrograms UsersService TokenServices AuthService

variable {N : Type}

/-! `AdminController` -/

section Admin

variable [JsNumber N]

/-- The endpoint: the columns set on the user with the email, and the message. -/
def adminUpdate (env : Env N) (email : JsonField N) (p : UserPatch) (done : String) :
    Iam N Reply := do
  match ← findByEmail env email with
  | none => return .message false "User not found"
  | some user =>
    update (.uuid user.id) p
    let text ← orThrow (Json.templateText email)
    return .message true ("User " ++ text ++ done)

def unlockPatch : UserPatch where
  failedAttempts := some 0
  lockedUntil := some none
  mfaFailedAttempts := some 0
  mfaLockedUntil := some none

def resetPatch : UserPatch where
  failedAttempts := some 0
  lockedUntil := some none
  mfaEnabled := some false
  mfaSecret := some none
  mfaBackupCodes := some none
  mfaTempToken := some none
  mfaTempTokenExpires := some none
  mfaLastVerified := some none
  mfaFailedAttempts := some 0
  mfaLockedUntil := some none

def unlockUser (env : Env N) (email : JsonField N) : Iam N Reply :=
  adminUpdate env email unlockPatch " has been unlocked"

def resetUser (env : Env N) (email : JsonField N) : Iam N Reply :=
  adminUpdate env email resetPatch " has been reset"

end Admin

/-! `AuthController` -/

def startsWith (s start : String) : Bool := start.toList.isPrefixOf s.toList

def me (env : Env N) (authorization : Option String) : Iam N Reply :=
  match authorization with
  | none => return .message false "Token no proporcionado"
  | some header =>
    if startsWith header "Bearer " then do
      let token := String.ofList (header.toList.drop 7)
      match ← verifyAccessToken env (some (.str token)) with
      | none => return .message false "Token inválido"
      | some payload => match ← findById (.uuid payload.sub) with
        | none => return .message false "Usuario no encontrado"
        | some user =>
          return .me user.id user.email user.mfaEnabled user.biometricEnabled user.preferredMfaMethod
    else return .message false "Token no proporcionado"

/-- `AuthGuard('jwt')`: the bearer token has to be a valid access token. -/
def guarded (env : Env N) (authorization : Option String) (handler : Iam N Reply) :
    Iam N Reply := do
  let token := authorization.bind env.bearerToken
  match ← verifyAccessToken env (token.map Json.str) with
  | none => Prog.throw (.unauthorized "Unauthorized")
  | some _ => handler

/-- The route of a request with the fields its handler reads. -/
inductive Route (N : Type) where
  | login (dto : LoginDto N)
  | refresh (refreshToken : JsonField N)
  | logout (refreshToken : JsonField N)
  | verifyToken (token : JsonField N)
  | me
  | setup
  | verifySetup (code : JsonField N)
  | disable (password code : JsonField N)
  | status
  | verify (tempToken code : JsonField N)
  | verifyBackup (tempToken backupCode : JsonField N)
  | enableBiometric (deviceBiometricId : JsonField N)
  | disableBiometric
  | verifyBiometric (tempToken deviceBiometricId : JsonField N)
  | unlockUser (email : JsonField N)
  | resetUser (email : JsonField N)

structure Request (N : Type) where
  route : Route N
  /-- The headers `x-user-id`, `authorization` and `user-agent`. -/
  userId : IdParam
  authorization : Option String
  userAgent : Option String
  ip : String

def Request.device (r : Request N) : String := orUnknown (r.userAgent.getD "")

variable [JsNumber N] [DecidableEq N]

def handle (env : Env N) (r : Request N) : Iam N Reply :=
  match r.route with
  | .login dto => login env dto r.ip r.device
  | .refresh t => refresh env t r.ip r.device
  | .logout t => logout env t r.userId r.ip r.device
  | .verifyToken t => AuthService.verify env t
  | .me => me env r.authorization
  | .setup => MfaController.setup env r.userId
  | .verifySetup code =>
    guarded env r.authorization (MfaController.verifySetup env r.userId code)
  | .disable password code =>
    guarded env r.authorization (MfaController.disable env r.userId password code)
  | .status => guarded env r.authorization (MfaController.getStatus r.userId)
  | .verify t code => MfaController.verify env t code
  | .verifyBackup t code => MfaController.verifyBackup env t code
  | .enableBiometric d =>
    guarded env r.authorization (MfaController.enableBiometric env r.userId d)
  | .disableBiometric => guarded env r.authorization (MfaController.disableBiometric r.userId)
  | .verifyBiometric t d => MfaController.verifyBiometric env t d
  | .unlockUser email => unlockUser env email
  | .resetUser email => resetUser env email

/-- A request served on its own, at one reading of the clock. -/
def serve (env : Env N) (t : Time) (r : Request N) (w : World) :
    Except Failure Reply × World := (handle env r).run (exec env) { w with clock := t }

/-- A request and the time it is served at. -/
abbrev Timed (N : Type) := Time × Request N

/-- The state after requests served one at a time. -/
def serveAll (env : Env N) (w : World) (rs : List (Timed N)) : World :=
  rs.foldl (fun w r => (serve env r.1 r.2 w).2) w

end VerdeAuth.IamEndpoints
