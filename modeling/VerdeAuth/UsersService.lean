import VerdeAuth.IamOperations

/-!
# User rows

`UsersService`: queries, whole-entity saves and column updates of user rows.
-/

namespace VerdeAuth.UsersService

open JsonTexts IamTables IamOperations ResumptionPrograms

variable {N : Type}

/-- The value a query compares a column with; `undefined` and `null` drop the condition. -/
def criterion (env : Env N) : JsonField N → Option String
  | none => none
  | some .null => none
  | some (.str s) => some s
  | some v => some (env.sqlText v)

/-- The value an update sets a text column to; `undefined` leaves it alone. -/
def columnUpdate (env : Env N) : JsonField N → Option (Option String)
  | none => none
  | some .null => some none
  | some (.str s) => some (some s)
  | some v => some (some (env.sqlText v))

def findByEmail (env : Env N) (email : JsonField N) : Iam N (Option User) :=
  Prog.perform (Op.findUser (.email (criterion env email)))

def findById (id : IdParam) : Iam N (Option User) :=
  match id with
  | .undefined => Prog.perform (Op.findUser (.id none))
  | .invalid => .throw .internal
  | .uuid i => Prog.perform (Op.findUser (.id (some i)))

/-- `userRepository.update`; criteria that are empty or no UUID throw. -/
def update (userId : IdParam) (p : UserPatch) : Iam N Unit :=
  match userId with
  | .uuid i => Prog.perform (Op.updateUser i p)
  | _ => .throw .internal

def save (user : User) : Iam N Unit := Prog.perform (Op.saveUser user)

def create (env : Env N) (email password : String) : Iam N User := do
  let n ← draw
  Prog.perform (Op.insertUser email (env.bcryptHash n password))

/-- `bcrypt.compare`, which throws for data that is no string. -/
def compare (data : JsonField N) (hash : String) : Iam N Bool :=
  match data with
  | some (.str s) => Prog.perform (Op.bcryptCompare s hash)
  | _ => .throw .internal

def validatePassword (user : User) (password : JsonField N) : Iam N Bool :=
  compare password user.passwordHash

def lockoutMs : Time := 15 * 60 * 1000

def incrementFailedAttempts (user : User) : Iam N Unit :=
  let user := { user with failedAttempts := user.failedAttempts + 1 }
  if user.failedAttempts ≥ 5 then do
    let t ← now
    save { user with lockedUntil := some (t + lockoutMs) }
  else save user

/-- The entity after `resetFailedAttempts`. -/
def attemptsReset (user : User) : User := { user with failedAttempts := 0, lockedUntil := none }

def resetFailedAttempts (user : User) : Iam N Unit := save (attemptsReset user)

def findByMfaTempToken (env : Env N) (tempToken : JsonField N) : Iam N (Option User) :=
  Prog.perform (Op.findUser (.mfaTempToken (criterion env tempToken)))

def enableMfa (userId : IdParam) (encryptedBackupCodes : String) : Iam N Unit :=
  update userId { mfaEnabled := some true, mfaBackupCodes := some (some encryptedBackupCodes) }

def disableMfa (userId : IdParam) : Iam N Unit :=
  update userId
    { mfaEnabled := some false
      mfaSecret := some none
      mfaBackupCodes := some none
      mfaTempToken := some none
      mfaTempTokenExpires := some none
      mfaFailedAttempts := some 0
      mfaLockedUntil := some none }

def clearMfaTempToken (userId : IdParam) : Iam N Unit := do
  let t ← now
  update userId
    { mfaTempToken := some none
      mfaTempTokenExpires := some none
      mfaLastVerified := some (some t) }

def updateBackupCodes (userId : IdParam) (encryptedCodes : String) : Iam N Unit :=
  update userId { mfaBackupCodes := some (some encryptedCodes) }

def setMfaTempToken (userId : IdParam) (tempToken : String) (expiresAt : Time) : Iam N Unit :=
  update userId
    { mfaTempToken := some (some tempToken), mfaTempTokenExpires := some (some expiresAt) }

def setMfaSecret (userId : IdParam) (encryptedSecret : String) : Iam N Unit :=
  update userId { mfaSecret := some (some encryptedSecret) }

def incrementMfaFailedAttempts (userId : IdParam) : Iam N Unit := do
  match ← findById userId with
  | none => return
  | some user =>
    let user := { user with mfaFailedAttempts := user.mfaFailedAttempts + 1 }
    if user.mfaFailedAttempts ≥ 3 then
      let t ← now
      save { user with mfaLockedUntil := some (t + lockoutMs) }
    else save user

def resetMfaFailedAttempts (userId : IdParam) : Iam N Unit :=
  update userId { mfaFailedAttempts := some 0, mfaLockedUntil := some none }

def isMfaLocked (userId : IdParam) : Iam N Bool := do
  match ← findById userId with
  | none => return false
  | some user => match user.mfaLockedUntil with
    | none => return false
    | some t => return (← now) < t

def enableBiometric (env : Env N) (userId : IdParam) (deviceBiometricId : JsonField N) :
    Iam N Unit :=
  update userId
    { biometricEnabled := some true
      deviceBiometricId := columnUpdate env deviceBiometricId
      preferredMfaMethod := some .biometric }

def disableBiometric (userId : IdParam) : Iam N Unit :=
  update userId
    { biometricEnabled := some false
      deviceBiometricId := some none
      preferredMfaMethod := some .totp }

/-- A nullable text column as a JavaScript value. -/
def columnValue : Option String → Json N
  | none => .null
  | some s => .str s

def validateBiometric [DecidableEq N] (userId : IdParam) (deviceBiometricId : JsonField N) :
    Iam N Bool := do
  match ← findById userId with
  | none => return false
  | some user => return user.biometricEnabled &&
      Json.strictEq (some (columnValue user.deviceBiometricId)) deviceBiometricId

end VerdeAuth.UsersService
