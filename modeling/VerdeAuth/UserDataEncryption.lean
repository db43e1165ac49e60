import VerdeAuth.TokenEnvelope

/-!
# Encrypted user data

`EncryptionService` encrypts the fields of a record one by one. A field is tested
for being truthy, so the empty string is taken for an absent field.
-/

namespace VerdeAuth.UserDataEncryption

open ByteTexts TokenEnvelope

structure UserData where
  email : Option String
  firstName : Option String
  lastName : Option String
  phone : Option String
  address : Option String
  deriving DecidableEq

def UserData.fields (data : UserData) : List (Option String) :=
  [data.email, data.firstName, data.lastName, data.phone, data.address]

/-- `if (field) … = await f(field)` -/
def whenTruthy {m : Type → Type} [Monad m] (f : String → m String) :
    Option String → m (Option String)
  | none => return none
  | some s => if s = "" then return none else return some (← f s)

/-- A field the code tests for being truthy. -/
def truthy : Option String → Option String
  | none => none
  | some s => if s = "" then none else some s

section Service

variable (crypto : Crypto) (encryptionKey : String)

/-- The state counts the vectors drawn so far. -/
def encryptField (ivs : ℕ → Iv) (data : String) : StateM ℕ String :=
  fun n => (encrypt crypto encryptionKey (ivs n) data, n + 1)

def decryptField (encryptedData : String) : Option String :=
  decrypt crypto encryptionKey encryptedData

def encryptUserData (ivs : ℕ → Iv) (data : UserData) : StateM ℕ UserData := do
  let email ← whenTruthy (encryptField crypto encryptionKey ivs) data.email
  let firstName ← whenTruthy (encryptField crypto encryptionKey ivs) data.firstName
  let lastName ← whenTruthy (encryptField crypto encryptionKey ivs) data.lastName
  let phone ← whenTruthy (encryptField crypto encryptionKey ivs) data.phone
  let address ← whenTruthy (encryptField crypto encryptionKey ivs) data.address
  return ⟨email, firstName, lastName, phone, address⟩

def decryptUserData (encryptedData : UserData) : Option UserData := do
  let email ← whenTruthy (decryptField crypto encryptionKey) encryptedData.email
  let firstName ← whenTruthy (decryptField crypto encryptionKey) encryptedData.firstName
  let lastName ← whenTruthy (decryptField crypto encryptionKey) encryptedData.lastName
  let phone ← whenTruthy (decryptField crypto encryptionKey) encryptedData.phone
  let address ← whenTruthy (decryptField crypto encryptionKey) encryptedData.address
  return ⟨email, firstName, lastName, phone, address⟩

/-- The field cipher gives every string back. -/
def RoundTrips : Prop := ∀ iv s,
  decrypt crypto encryptionKey (encrypt crypto encryptionKey iv s) = some s

end Service

section RoundTrip

variable {crypto : Crypto} {encryptionKey : String}

/-- A field through both directions. -/
theorem decrypt_encrypt_field (h : RoundTrips crypto encryptionKey) (ivs : ℕ → Iv)
    (field : Option String) (n : ℕ) :
    whenTruthy (decryptField crypto encryptionKey)
        (whenTruthy (encryptField crypto encryptionKey ivs) field n).1 =
      some (truthy field) := by
  cases field with
  | none => rfl
  | some s =>
    by_cases hs : s = ""
    · subst hs
      rfl
    · have hencrypted : (whenTruthy (encryptField crypto encryptionKey ivs) (some s) n).1 =
          some (encrypt crypto encryptionKey (ivs n) s) := by
        simp only [whenTruthy, hs, if_false]
        rfl
      have hne := encrypt_ne_empty crypto encryptionKey (ivs n) s
      rw [hencrypted]
      simp [whenTruthy, hne, decryptField, h (ivs n) s, truthy, hs]

theorem decrypt_encrypt_data (h : RoundTrips crypto encryptionKey) (ivs : ℕ → Iv)
    (data : UserData) (n : ℕ) :
    decryptUserData crypto encryptionKey (encryptUserData crypto encryptionKey ivs data n).1 =
      some ⟨truthy data.email, truthy data.firstName, truthy data.lastName, truthy data.phone,
        truthy data.address⟩ := by
  have hfields : ∃ n₁ n₂ n₃ n₄, (encryptUserData crypto encryptionKey ivs data n).1 =
      ⟨(whenTruthy (encryptField crypto encryptionKey ivs) data.email n).1,
        (whenTruthy (encryptField crypto encryptionKey ivs) data.firstName n₁).1,
        (whenTruthy (encryptField crypto encryptionKey ivs) data.lastName n₂).1,
        (whenTruthy (encryptField crypto encryptionKey ivs) data.phone n₃).1,
        (whenTruthy (encryptField crypto encryptionKey ivs) data.address n₄).1⟩ :=
    ⟨_, _, _, _, rfl⟩
  obtain ⟨n₁, n₂, n₃, n₄, hfields⟩ := hfields
  rw [hfields, decryptUserData]
  simp only [decrypt_encrypt_field h]
  rfl

theorem truthy_eq_self {field : Option String} : truthy field = field ↔ field ≠ some "" := by
  cases field with
  | none => simp [truthy]
  | some s => by_cases hs : s = "" <;> simp [truthy, hs]

end RoundTrip

/-- A record is given back as it was exactly when no field holds the empty string. -/
theorem fields_kept_iff (crypto : Crypto) (encryptionKey : String)
    (h : RoundTrips crypto encryptionKey) (ivs : ℕ → Iv) (n : ℕ) (data : UserData) :
    decryptUserData crypto encryptionKey (encryptUserData crypto encryptionKey ivs data n).1 =
      some data ↔ ∀ field ∈ data.fields, field ≠ some "" := by
  rw [decrypt_encrypt_data h]
  cases data with
  | mk email firstName lastName phone address =>
    simp only [Option.some.injEq, UserData.mk.injEq, truthy_eq_self, UserData.fields,
      List.mem_cons, List.not_mem_nil, or_false, forall_eq_or_imp, forall_eq]

def lucia : UserData := ⟨some "lucia@verde.ec", some "Lucía", none, some "", none⟩

theorem roundTrips_maskCrypto : RoundTrips maskCrypto "clave" := by
  intro iv s
  exact decrypt_of_envelope idealGcm_maskCrypto (base64Bytes_encrypt iv s)

/-- Lucía's phone is the empty string, and comes back as no phone. -/
theorem empty_field_lost : RoundTrips maskCrypto "clave" ∧
    decryptUserData maskCrypto "clave"
        (encryptUserData maskCrypto "clave" (fun _ => zeroIv) lucia 0).1 =
      some { lucia with phone := none } ∧
    decryptUserData maskCrypto "clave"
        (encryptUserData maskCrypto "clave" (fun _ => zeroIv) lucia 0).1 ≠ some lucia := by
  have hlost : decryptUserData maskCrypto "clave"
      (encryptUserData maskCrypto "clave" (fun _ => zeroIv) lucia 0).1 =
        some { lucia with phone := none } := by
    rw [decrypt_encrypt_data roundTrips_maskCrypto]
    rfl
  refine ⟨roundTrips_maskCrypto, hlost, ?_⟩
  rw [hlost]
  simp [lucia]

theorem fields_kept_iff_lucia :
    decryptUserData maskCrypto "clave"
        (encryptUserData maskCrypto "clave" (fun _ => zeroIv) lucia 0).1 = some lucia ↔
      ∀ field ∈ lucia.fields, field ≠ some "" :=
  fields_kept_iff maskCrypto "clave" roundTrips_maskCrypto (fun _ => zeroIv) 0 lucia

end VerdeAuth.UserDataEncryption
