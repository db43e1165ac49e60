import VerdeAuth.KeyedTables

/-!
# Rows of the identity service

The user, session and audit rows with the columns the service reads or writes,
and the partial updates of a user row. Times are milliseconds, ids are opaque.
-/

namespace VerdeAuth.IamTables

open KeyedTables

abbrev Time := ℕ

abbrev UserId := ℕ

inductive MfaMethod where
  | totp
  | biometric
  deriving DecidableEq

structure User where
  id : UserId
  email : String
  passwordHash : String
  isActive : Bool
  failedAttempts : ℕ
  lockedUntil : Option Time
  mfaEnabled : Bool
  mfaSecret : Option String
  mfaBackupCodes : Option String
  mfaTempToken : Option String
  mfaTempTokenExpires : Option Time
  mfaLastVerified : Option Time
  mfaFailedAttempts : ℕ
  mfaLockedUntil : Option Time
  biometricEnabled : Bool
  deviceBiometricId : Option String
  preferredMfaMethod : MfaMethod
  deriving DecidableEq

/-- A new row, with the defaults of its columns. -/
def User.create (id : UserId) (email passwordHash : String) : User where
  id := id
  email := email
  passwordHash := passwordHash
  isActive := true
  failedAttempts := 0
  lockedUntil := none
  mfaEnabled := false
  mfaSecret := none
  mfaBackupCodes := none
  mfaTempToken := none
  mfaTempTokenExpires := none
  mfaLastVerified := none
  mfaFailedAttempts := 0
  mfaLockedUntil := none
  biometricEnabled := false
  deviceBiometricId := none
  preferredMfaMethod := .totp

/-- The columns a partial update sets; `none` leaves a column alone. -/
structure UserPatch where
  failedAttempts : Option ℕ := none
  lockedUntil : Option (Option Time) := none
  mfaEnabled : Option Bool := none
  mfaSecret : Option (Option String) := none
  mfaBackupCodes : Option (Option String) := none
  mfaTempToken : Option (Option String) := none
  mfaTempTokenExpires : Option (Option Time) := none
  mfaLastVerified : Option (Option Time) := none
  mfaFailedAttempts : Option ℕ := none
  mfaLockedUntil : Option (Option Time) := none
  biometricEnabled : Option Bool := none
  deviceBiometricId : Option (Option String) := none
  preferredMfaMethod : Option MfaMethod := none

def UserPatch.apply (p : UserPatch) (u : User) : User :=
  { u with
    failedAttempts := p.failedAttempts.getD u.failedAttempts
    lockedUntil := p.lockedUntil.getD u.lockedUntil
    mfaEnabled := p.mfaEnabled.getD u.mfaEnabled
    mfaSecret := p.mfaSecret.getD u.mfaSecret
    mfaBackupCodes := p.mfaBackupCodes.getD u.mfaBackupCodes
    mfaTempToken := p.mfaTempToken.getD u.mfaTempToken
    mfaTempTokenExpires := p.mfaTempTokenExpires.getD u.mfaTempTokenExpires
    mfaLastVerified := p.mfaLastVerified.getD u.mfaLastVerified
    mfaFailedAttempts := p.mfaFailedAttempts.getD u.mfaFailedAttempts
    mfaLockedUntil := p.mfaLockedUntil.getD u.mfaLockedUntil
    biometricEnabled := p.biometricEnabled.getD u.biometricEnabled
    deviceBiometricId := p.deviceBiometricId.getD u.deviceBiometricId
    preferredMfaMethod := p.preferredMfaMethod.getD u.preferredMfaMethod }

@[simp] theorem UserPatch.apply_id (p : UserPatch) (u : User) : (p.apply u).id = u.id := rfl

structure Session where
  id : ℕ
  userId : UserId
  refreshToken : String
  deviceInfo : Option String
  ipAddress : Option String
  expiresAt : Time
  isRevoked : Bool
  deriving DecidableEq

structure AuditLog where
  userId : Option UserId
  action : String
  ip : Option String
  device : Option String
  success : Bool
  deriving DecidableEq

/-- An event sent to the security logger. -/
structure SecurityEvent where
  message : String
  eventType : String
  userId : Option UserId
  action : String
  ip : String
  device : String
  success : Bool
  deriving DecidableEq

/-- The database, the security log, the wall clock and the number of random
values drawn so far. -/
structure World where
  users : Table User.id
  sessions : Table Session.id
  auditLog : List AuditLog
  securityLog : List SecurityEvent
  clock : Time
  drawn : ℕ

/-- A database without rows, before anything happened. -/
def World.empty : World := ⟨Table.empty, Table.empty, [], [], 0, 0⟩

/-- What a query for one user compares; a condition whose value is `undefined`
or `null` is dropped, and then the first row answers. -/
inductive UserWhere where
  | id (v : Option UserId)
  | email (v : Option String)
  | mfaTempToken (v : Option String)
  deriving DecidableEq

def UserWhere.matches (c : UserWhere) (u : User) : Bool :=
  match c with
  | .id (some v) => u.id = v
  | .email (some v) => u.email = v
  | .mfaTempToken (some v) => u.mfaTempToken = some v
  | _ => true

def World.findUser (w : World) (c : UserWhere) : Option User := w.users.findOne c.matches

theorem mem_of_findUser {w : World} {c : UserWhere} {u : User} (h : w.findUser c = some u) :
    u ∈ w.users.rows := Table.mem_of_findOne h

theorem get?_of_findUser {w : World} {c : UserWhere} {u : User} (h : w.findUser c = some u) :
    w.users.get? u.id = some u := Table.get?_of_findOne h

theorem matches_of_findUser {w : World} {c : UserWhere} {u : User} (h : w.findUser c = some u) :
    c.matches u = true := Table.prop_of_findOne h

def World.updateUser (w : World) (i : UserId) (p : UserPatch) : World :=
  { w with users := w.users.modify i p.apply p.apply_id }

def World.saveUser (w : World) (u : User) : World := { w with users := w.users.put u }

/-- The sessions of a user that are not revoked; all of them for `undefined`. -/
def World.findSessions (w : World) (userId : Option UserId) : List Session :=
  w.sessions.rows.filter fun s => !s.isRevoked && userId.all (s.userId = ·)

def World.saveSession (w : World) (s : Session) : World := { w with sessions := w.sessions.put s }

def World.revokeSessions (w : World) (i : UserId) : World :=
  let revoke := fun s : Session => if s.userId = i then { s with isRevoked := true } else s
  { w with sessions := w.sessions.mapRows revoke fun s => by unfold revoke; split <;> rfl }

def World.deleteSessions (w : World) (t : Time) : World :=
  { w with sessions := w.sessions.remove fun s => s.expiresAt < t }

end VerdeAuth.IamTables
