import VerdeAuth.IamTables
import VerdeAuth.JavaScriptCoercions
import VerdeAuth.ResumptionPrograms

/-!
# Operations of the identity service

What the handlers ask of their surroundings: queries and writes of the
repositories, the clock, random values and the checks of passwords and one-time
codes. What is outside the repository is given by an environment.
-/

namespace VerdeAuth.IamOperations

open JsonTexts KeyedTables IamTables ResumptionPrograms

/-- A field of a JSON body; `none` is `undefined`. -/
abbrev JsonField (N : Type) := Option (Json N)

inductive TokenType where
  | access
  | refresh
  deriving DecidableEq

/-- The payload of a signed token. -/
structure JwtPayload where
  sub : UserId
  email : Option String
  jti : Option String
  type : TokenType
  iat : ℕ
  exp : ℕ
  deriving DecidableEq

/-- Configuration, libraries and the random source. Random functions take the
number of the draw. -/
structure Env (N : Type) where
  jwtAccessSecret : String
  /-- `none` where it is not set or empty. -/
  jwtRefreshSecret : Option String
  /-- `JWT_ACCESS_EXPIRES` and `JWT_REFRESH_EXPIRES`, in seconds. -/
  jwtAccessExpires : ℕ
  jwtRefreshExpires : ℕ
  jwtSign : String → JwtPayload → String
  jwtVerify : String → String → Time → Option JwtPayload
  /-- The token that `fromAuthHeaderAsBearerToken` extracts. -/
  bearerToken : String → Option String
  bcryptHash : ℕ → String → String
  bcryptCompare : String → String → Bool
  totpSecret : ℕ → String
  /-- `none` where the library throws. -/
  totpVerify : String → JsonField N → Time → Option Bool
  totpUri : String → String → String
  qrDataUrl : String → String
  encrypt : ℕ → String → String
  /-- `none` where it throws. -/
  decrypt : String → Option String
  /-- `randomBytes(n).toString('hex')` -/
  randomHex : ℕ → ℕ → String
  /-- `Math.random().toString(36).substring(2, 15)` -/
  random36 : ℕ → String
  toUpperCase : String → String
  toLowerCase : String → String
  toISOString : Time → String
  /-- The text the database driver makes of a value that is not a string. -/
  sqlText : Json N → String
  /-- `Buffer.from(v, 'base64').toString('ascii')`, `none` where it throws. -/
  base64Ascii : Json N → Option String

inductive Op (N : Type) where
  | findUser (c : UserWhere)
  | insertUser (email passwordHash : String)
  | updateUser (id : UserId) (p : UserPatch)
  | saveUser (u : User)
  /-- The sessions of a user that are not revoked. -/
  | findSessions (userId : Option UserId)
  | insertSession (userId : UserId) (refreshToken : String) (deviceInfo ipAddress : Option String)
      (expiresAt : Time)
  | saveSession (s : Session)
  | revokeSessions (userId : UserId)
  | deleteSessions (before : Time)
  | insertAuditLog (a : AuditLog)
  | logSecurity (e : SecurityEvent)
  | now
  | draw
  | bcryptCompare (data hash : String)
  | totpVerify (secret : String) (code : JsonField N)

abbrev Res (N : Type) : Op N → Type
  | .findUser _ => Option User
  | .insertUser _ _ => User
  | .findSessions _ => List Session
  | .now => Time
  | .draw => ℕ
  | .bcryptCompare _ _ => Bool
  | .totpVerify _ _ => Option Bool
  | _ => Unit

/-- What a handler throws; anything but an HTTP exception is a status of 500. -/
inductive Failure where
  | unauthorized (message : String)
  | forbidden (message : String)
  | internal
  deriving DecidableEq

abbrev Iam (N α : Type) := Prog (Res N) Failure α

variable {N : Type}

def exec (env : Env N) : Semantics (Res N) World
  | .findUser c, w => (w.findUser c, w)
  | .insertUser email passwordHash, w =>
    let u := User.create (freshId w.users) email passwordHash
    (u, w.saveUser u)
  | .updateUser i p, w => ((), w.updateUser i p)
  | .saveUser u, w => ((), w.saveUser u)
  | .findSessions i, w => (w.findSessions i, w)
  | .insertSession userId refreshToken deviceInfo ipAddress expiresAt, w =>
    let s := Session.mk (freshId w.sessions) userId refreshToken deviceInfo ipAddress expiresAt false
    ((), w.saveSession s)
  | .saveSession s, w => ((), w.saveSession s)
  | .revokeSessions i, w => ((), w.revokeSessions i)
  | .deleteSessions t, w => ((), w.deleteSessions t)
  | .insertAuditLog a, w => ((), { w with auditLog := w.auditLog ++ [a] })
  | .logSecurity e, w => ((), { w with securityLog := w.securityLog ++ [e] })
  | .now, w => (w.clock, w)
  | .draw, w => (w.drawn, { w with drawn := w.drawn + 1 })
  | .bcryptCompare data hash, w => (env.bcryptCompare data hash, w)
  | .totpVerify secret code, w => (env.totpVerify secret code w.clock, w)

/-- `x-user-id` as the database takes it: absent, no UUID, or the UUID of an id. -/
inductive IdParam where
  | undefined
  | invalid
  | uuid (i : UserId)
  deriving DecidableEq

def now : Iam N Time := Prog.perform Op.now

def draw : Iam N ℕ := Prog.perform Op.draw

/-- The value of a column, where code that gets `null` throws. -/
def orThrow {α : Type} (v : Option α) : Iam N α :=
  match v with
  | some a => .ret a
  | none => .throw .internal

end VerdeAuth.IamOperations
