import VerdeAuth.UsersService

/-!
# One-time codes and backup codes

`MfaService` and `BackupCodesService`. Stored backup codes are read as whatever
JSON they are; what is no list of objects throws where its members are read.
-/

namespace VerdeAuth.MfaServices

open JsonTexts IamTables IamOperations ResumptionPrograms

variable {N : Type}

def verifyTotp (secret : String) (code : JsonField N) : Iam N Bool := do
  let result ← Prog.perform (Op.totpVerify secret code)
  orThrow result

def encrypt (env : Env N) (plaintext : String) : Iam N String := do
  let iv ← draw
  return env.encrypt iv plaintext

def decrypt (env : Env N) (ciphertext : Option String) : Iam N String := do
  let c ← orThrow ciphertext
  orThrow (env.decrypt c)

def encryptSecret (env : Env N) (secret : String) : Iam N String := encrypt env secret

def decryptSecret (env : Env N) (encrypted : Option String) : Iam N String := decrypt env encrypted

structure MfaSetupResponse where
  secret : String
  otpauthUri : String
  qrCodeUrl : String
  deriving DecidableEq

def generateSetupResponse (env : Env N) (email : String) : Iam N MfaSetupResponse := do
  let secret := env.totpSecret (← draw)
  let otpauthUri := env.totpUri secret email
  return ⟨secret, otpauthUri, env.qrDataUrl otpauthUri⟩

/-! `BackupCodesService` -/

def codeLength : ℕ := 8

def codeCount : ℕ := 8

/-- `randomBytes(CODE_LENGTH).toString('hex').substring(0, CODE_LENGTH).toUpperCase()` -/
def randomCode (env : Env N) (k : ℕ) : String :=
  env.toUpperCase (String.ofList ((env.randomHex k codeLength).toList.take codeLength))

def generateCodes (env : Env N) : ℕ → Iam N (List String)
  | 0 => return []
  | n + 1 => do
    let code := randomCode env (← draw)
    let codes ← generateCodes env n
    return code :: codes

def generateBackupCodes (env : Env N) : Iam N (List String) := generateCodes env codeCount

variable [JsNumber N] [DecidableEq N]

/-- The column is parsed as text, `null` as the text of that name; a text that is
no JSON gives an empty list. -/
def parseBackupCodes (storedCodes : Option String) : Json N :=
  match storedCodes with
  | none => .null
  | some s => (parseText s.toList).getD (.arr [])

def stringifyBackupCodes (codes : Json N) : String := String.ofList (text codes)

/-- `codes.map((code) => ({ code, used: false }))` -/
def freshCodes (codes : List String) : Json N :=
  .arr (codes.map fun code => .obj [("code", .str code), ("used", .bool false)])

/-- `!c.used`, which throws for `null`. -/
def unused : Json N → Option Bool
  | .null => none
  | c => some (!Json.truthy (c.get? "used"))

/-- `c.code === upperInput && !c.used`, which throws for `null`. -/
def isUnusedCode (upperInput : String) : Json N → Option Bool
  | .null => none
  | c => some (Json.strictEq (c.get? "code") (some (.str upperInput)) &&
      !Json.truthy (c.get? "used"))

/-- `{ ...c, used: true, usedAt }` -/
def markUsed (usedAt : String) : Json N → Json N
  | .obj ps => .obj (setMember (setMember ps "used" (.bool true)) "usedAt" (.str usedAt))
  | c => c

/-- The list with the first unused record of the code marked, when there is one;
the outer `none` is a TypeError. -/
def markFirst (upperInput usedAt : String) : List (Json N) → Option (Option (List (Json N)))
  | [] => some none
  | c :: cs => match isUnusedCode upperInput c with
    | none => none
    | some true => some (some (markUsed usedAt c :: cs))
    | some false => (markFirst upperInput usedAt cs).map fun r => r.map (c :: ·)

structure BackupValidation (N : Type) where
  valid : Bool
  remainingCodes : Json N

def validateBackupCode (env : Env N) (storedCodes : Option String) (inputCode : JsonField N) :
    Iam N (BackupValidation N) := do
  let codes : Json N := parseBackupCodes storedCodes
  match inputCode with
  | some (.str input) => match codes with
    | .arr cs => do
      let t ← now
      match markFirst (env.toUpperCase input) (env.toISOString t) cs with
      | none => .throw .internal
      | some none => return ⟨false, codes⟩
      | some (some cs) => return ⟨true, .arr cs⟩
    | _ => .throw .internal
  | _ => .throw .internal

def countUnused : List (Json N) → Option ℕ
  | [] => some 0
  | c :: cs => match unused c, countUnused cs with
    | some b, some n => some (if b then n + 1 else n)
    | _, _ => none

def countRemainingCodes (storedCodes : Option String) : Option ℕ :=
  match (parseBackupCodes storedCodes : Json N) with
  | .arr cs => countUnused cs
  | _ => none

end VerdeAuth.MfaServices
