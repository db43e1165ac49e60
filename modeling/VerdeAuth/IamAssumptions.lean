import VerdeAuth.IamEndpoints

/-!
# Assumptions on the libraries

What results assume of the hashing, signing and encrypting libraries and of
random values, and an environment in which all of it holds.
-/

namespace VerdeAuth.IamAssumptions

open JsonTexts IamTables IamOperations MfaServices IamEndpoints

variable {N : Type}

/-- A hash matches exactly the text it was made from. bcrypt reads no more than 72
bytes of a text; of longer ones this is an idealisation. -/
def IdealBcrypt (env : Env N) : Prop :=
  ∀ salt t t', env.bcryptCompare t (env.bcryptHash salt t') = true ↔ t = t'

/-- Decryption undoes encryption. -/
def Decrypts (env : Env N) : Prop := ∀ iv s, env.decrypt (env.encrypt iv s) = some s

/-- No ciphertext is a JSON text. -/
def CiphertextsNotJson [JsNumber N] (env : Env N) : Prop :=
  ∀ iv s, (parseText (env.encrypt iv s).toList : Option (Json N)) = none

/-- No ciphertext is the JSON text of a list. -/
def CiphertextsNoList [JsNumber N] (env : Env N) : Prop :=
  ∀ iv s codes, (parseText (env.encrypt iv s).toList : Option (Json N)) ≠ some (.arr codes)

/-- A code that can be checked is wrong for some secret. -/
def SelectiveTotp (env : Env N) : Prop :=
  ∀ secret code t result, env.totpVerify secret code t = some result →
    ∃ secret', env.totpVerify secret' code t = some false

/-- `toLowerCase` on texts in ASCII. -/
def LowersAscii (env : Env N) : Prop :=
  ∀ s : String, (∀ c ∈ s.toList, c.toNat < 128) →
    env.toLowerCase s = String.ofList (s.toList.map Char.toLower)

/-- A text of a number, the same in no two. -/
def tally (n : ℕ) : String := String.ofList (List.replicate n 'a' ++ ['b'])

def sixDigits (s : String) : Bool := s.toList.length = 6 && s.toList.all Char.isDigit

/-- The code of a secret: its length in six digits. -/
def codeOf (secret : String) : String :=
  let digits := decimal (secret.toList.length % 1000000)
  String.ofList (List.replicate (6 - digits.length) '0' ++ digits)

/-- Hashes and ciphertexts show their text; the given payloads are the ones that
verify; checking a code that is not six digits throws. -/
def plainEnv (issued : List JwtPayload) : Env ℕ where
  jwtAccessSecret := "access"
  jwtRefreshSecret := some "refresh"
  jwtAccessExpires := 9
  jwtRefreshExpires := 60
  jwtSign := plainSign
  jwtVerify key s t := issued.find? fun p => plainSign key p = s && t / 1000 < p.exp
  bearerToken header :=
    if startsWith header "Bearer " then some (String.ofList (header.toList.drop 7)) else none
  bcryptHash _ s := "$2b$" ++ s
  bcryptCompare s hash := "$2b$" ++ s = hash
  totpSecret := tally
  totpVerify secret code _ := match code with
    | some (.str c) => if sixDigits c then some (c = codeOf secret) else none
    | _ => none
  totpUri secret email := "otpauth://totp/" ++ email ++ "?secret=" ++ secret
  qrDataUrl uri := "data:" ++ uri
  encrypt iv s := tally iv ++ s
  decrypt c := some (String.ofList (c.toList.dropWhile (· = 'a')).tail)
  randomHex n _ := String.ofList (decimal n)
  random36 := tally
  toUpperCase s := String.ofList (s.toList.map Char.toUpper)
  toLowerCase s := String.ofList (s.toList.map Char.toLower)
  toISOString _ := "2025-06-30T09:00:00.000Z"
  sqlText v := String.ofList (text v)
  base64Ascii _ := none
where
  plainSign (key : String) (p : JwtPayload) : String :=
    key ++ "." ++ tally p.sub ++ "." ++ p.jti.getD "" ++ "." ++ tally p.exp

variable (issued : List JwtPayload)

theorem idealBcrypt_plainEnv : IdealBcrypt (plainEnv issued) := by
  intro salt t t'
  simp [plainEnv]

theorem decrypts_plainEnv : Decrypts (plainEnv issued) := by
  intro iv s
  have hdrop : ∀ n, (List.replicate n 'a' ++ 'b' :: s.toList).dropWhile (· = 'a') =
      'b' :: s.toList := by
    intro n
    induction n with
    | zero => rfl
    | succ n ih => simp [List.replicate_succ, ih]
  simp [plainEnv, tally, hdrop]

theorem ciphertextsNotJson_plainEnv : CiphertextsNotJson (plainEnv issued) := by
  intro iv s
  have hhead : ∀ (c : Char) (cs : List Char), c = 'a' ∨ c = 'b' →
      (parseText (c :: cs) : Option (Json ℕ)) = none := by
    rintro c cs (rfl | rfl) <;>
      simp [parseText, parseValue, skipSpace, isSpace, parseNumber, isNumeric, NumberFormat.read,
        readDecimal]
  cases iv with
  | zero => simpa [plainEnv, tally] using hhead 'b' s.toList (Or.inr rfl)
  | succ n => simpa [plainEnv, tally, List.replicate_succ] using hhead 'a' _ (Or.inl rfl)

theorem lowersAscii_plainEnv : LowersAscii (plainEnv issued) := fun _ _ => rfl

theorem selectiveTotp_plainEnv : SelectiveTotp (plainEnv issued) := by
  rintro secret (_ | _ | _ | _ | code | _ | _) t result h
  case some.str =>
    have hsix : sixDigits code = true := by
      by_contra hnot
      simp [plainEnv, hnot] at h
    by_cases hcode : code = codeOf ""
    · have hne : code ≠ codeOf "a" := hcode ▸ by decide
      exact ⟨"a", by simp [plainEnv, hsix, hne]⟩
    · exact ⟨"", by simp [plainEnv, hsix, hcode]⟩
  all_goals cases h

theorem randomHex_plainEnv (m n k : ℕ)
    (h : (plainEnv issued).randomHex m k = (plainEnv issued).randomHex n k) : m = n := by
  have hdigits : decimal m = decimal n := String.ofList_injective h
  have hread := readDecimal_decimal m
  rw [hdigits, readDecimal_decimal] at hread
  exact (Option.some.inj hread).symm

theorem encrypt_plainEnv_ne {n : ℕ} (hn : 0 < n) (s : String) {c : String}
    (hc : c.toList.head? = some 'b') : c ≠ (plainEnv issued).encrypt n s := by
  rintro rfl
  obtain ⟨k, rfl⟩ := Nat.exists_eq_succ_of_ne_zero (Nat.ne_of_gt hn)
  simp [plainEnv, tally, List.replicate_succ] at hc

/-- A user with MFA. -/
def ana : User :=
  { User.create 1 "ana@verde.ec" "$2b$clave" with
    mfaEnabled := true
    mfaSecret := some "bsecreto"
    mfaBackupCodes := some "b[]" }

def anaWorld : World := { World.empty.saveUser ana with drawn := 2 }

def anaPayload : JwtPayload := ⟨1, some "ana@verde.ec", none, .access, 1, 9⟩

def anaEnv : Env ℕ := plainEnv [anaPayload]

/-- A request of hers, with her access token. -/
def anaRequest (route : Route ℕ) : Request ℕ where
  route := route
  userId := .uuid 1
  authorization := some ("Bearer " ++ plainEnv.plainSign "access" anaPayload)
  userAgent := none
  ip := "::1"

end VerdeAuth.IamAssumptions
