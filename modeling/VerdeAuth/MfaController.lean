import VerdeAuth.AuthService
import VerdeAuth.MfaServices

/-!
# MFA endpoints

`MfaController`. The user of a request is the one named by its `x-user-id`
header, or for the three verifications the one holding the temporary token.
-/

namespace VerdeAuth.MfaController

open JsonTexts IamTables IamOperations ResumptionPrograms UsersService TokenServices AuthService
open MfaServices

variable {N : Type}

/-- A query whose missing row is dereferenced. -/
def requireUser (userId : IdParam) : Iam N User := do
  let user ← findById userId
  orThrow user

def setup (env : Env N) (userId : IdParam) : Iam N Reply := do
  let user ← requireUser userId
  let response ← generateSetupResponse env user.email
  let encryptedSecret ← encryptSecret env response.secret
  setMfaSecret userId encryptedSecret
  return .setup response.secret response.otpauthUri response.qrCodeUrl

section Controller

variable [JsNumber N] [DecidableEq N]

def verifySetup (env : Env N) (userId : IdParam) (code : JsonField N) : Iam N Reply := do
  let user ← requireUser userId
  let decryptedSecret ← decryptSecret env user.mfaSecret
  if ← verifyTotp decryptedSecret code then
    let codes ← generateBackupCodes env
    let encryptedBackupCodes ← encrypt env (stringifyBackupCodes (freshCodes codes : Json N))
    enableMfa userId encryptedBackupCodes
    return .backupCodes codes
  else return .message false "Código inválido"

omit [JsNumber N] [DecidableEq N] in
def disable (env : Env N) (userId : IdParam) (password code : JsonField N) : Iam N Reply := do
  let user ← requireUser userId
  if ← validatePassword user password then
    let decryptedSecret ← decryptSecret env user.mfaSecret
    if ← verifyTotp decryptedSecret code then
      disableMfa userId
      return .done
    else return .message false "Código MFA incorrecto"
  else return .message false "Contraseña incorrecta"

def getStatus (userId : IdParam) : Iam N Reply := do
  let user ← requireUser userId
  if user.mfaEnabled then
    let remaining ← orThrow (countRemainingCodes (N := N) user.mfaBackupCodes)
    return .status user.mfaEnabled remaining user.mfaLastVerified
  else return .status user.mfaEnabled 0 user.mfaLastVerified

/-- The part of a verification behind its factor check. -/
def completeVerification (env : Env N) (user : User) (commit : Iam N Unit) : Iam N Reply := do
  resetMfaFailedAttempts (.uuid user.id)
  commit
  clearMfaTempToken (.uuid user.id)
  return .verified (← generateTokens env user.id user.email)

/-- The course the three verifications share: `check` gives what else the
success of the factor has to write, or `none` for a wrong factor. -/
def verifyFactor (env : Env N) (tempToken : JsonField N) (refusal : String)
    (check : User → Iam N (Option (Iam N Unit))) : Iam N Reply := do
  match ← findByMfaTempToken env tempToken with
  | none => return .message false "Sesión MFA expirada o inválida"
  | some user =>
    if user.mfaTempTokenExpires.getD 0 < (← now) then
      return .message false "Sesión MFA expirada"
    else if ← isMfaLocked (.uuid user.id) then
      return .message false "MFA bloqueado por demasiados intentos fallidos"
    else match ← check user with
      | none =>
        incrementMfaFailedAttempts (.uuid user.id)
        return .message false refusal
      | some commit => completeVerification env user commit

/-- A factor whose success writes nothing of its own. -/
def plainCheck (valid : Iam N Bool) : Iam N (Option (Iam N Unit)) := do
  return if ← valid then some (return) else none

def totpCheck (env : Env N) (code : JsonField N) (user : User) : Iam N (Option (Iam N Unit)) :=
  plainCheck do
    let decryptedSecret ← decryptSecret env user.mfaSecret
    verifyTotp decryptedSecret code

def backupCheck (env : Env N) (backupCode : JsonField N) (user : User) :
    Iam N (Option (Iam N Unit)) := do
  let validation ← validateBackupCode env user.mfaBackupCodes backupCode
  return if validation.valid then some do
    let encryptedCodes ← encrypt env (stringifyBackupCodes validation.remainingCodes)
    updateBackupCodes (.uuid user.id) encryptedCodes
  else none

def biometricCheck (deviceBiometricId : JsonField N) (user : User) : Iam N (Option (Iam N Unit)) :=
  plainCheck (validateBiometric (.uuid user.id) deviceBiometricId)

def verify (env : Env N) (tempToken code : JsonField N) : Iam N Reply :=
  verifyFactor env tempToken "Código MFA incorrecto" (totpCheck env code)

def verifyBackup (env : Env N) (tempToken backupCode : JsonField N) : Iam N Reply :=
  verifyFactor env tempToken "Código de backup inválido" (backupCheck env backupCode)

def verifyBiometric (env : Env N) (tempToken deviceBiometricId : JsonField N) : Iam N Reply :=
  verifyFactor env tempToken "Biométrico no válido para este dispositivo"
    (biometricCheck deviceBiometricId)

def enableBiometric (env : Env N) (userId : IdParam) (deviceBiometricId : JsonField N) :
    Iam N Reply := do
  let user ← requireUser userId
  if user.mfaEnabled then
    UsersService.enableBiometric env userId deviceBiometricId
    return .message true "Biométrico habilitado"
  else return .message false "MFA debe estar habilitado primero"

def disableBiometric (userId : IdParam) : Iam N Reply := do
  UsersService.disableBiometric userId
  return .message true "Biométrico deshabilitado"

end Controller

end VerdeAuth.MfaController
