import Mathlib.Data.UInt
import VerdeAuth.ByteTexts
import VerdeAuth.IamAssumptions
import VerdeAuth.JsonPrefixes

/-!
# The envelope of an encrypted text

`TokenCryptService` seals a text with AES-256-GCM and writes the initialisation
vector, the tag and the ciphertext one after the other, in base64.
-/

namespace VerdeAuth.TokenEnvelope

open JsonTexts IamOperations IamAssumptions ByteTexts

/-- Node's `crypto`. -/
structure Crypto where
  /-- `scrypt(password, salt, keylen)` -/
  scrypt : String → String → ℕ → Bytes
  /-- The ciphertext of a plaintext under a key and an initialisation vector, and its tag. -/
  cipher : Bytes → Bytes → Bytes → Bytes × Bytes
  /-- The plaintext of a tag and a ciphertext; `none` where `final` throws. -/
  decipher : Bytes → Bytes → Bytes → Bytes → Option Bytes

def keyLength : ℕ := 32

def ivLength : ℕ := 16

def authTagLength : ℕ := 16

def salt : String := "BancoVerdeMFA2024"

/-- What `randomBytes(ivLength)` draws. -/
abbrev Iv := { bytes : Bytes // bytes.length = ivLength }

section Service

variable (crypto : Crypto) (encryptionKey : String)

def deriveKey : Bytes := crypto.scrypt encryptionKey salt keyLength

/-- The bytes `encrypt` writes. -/
def envelope (iv : Iv) (plaintext : String) : Bytes :=
  let sealedText := crypto.cipher (deriveKey crypto encryptionKey) iv (utf8Bytes plaintext)
  iv ++ sealedText.2 ++ sealedText.1

/-- With the random bytes that were drawn for it. -/
def encrypt (iv : Iv) (plaintext : String) : String :=
  base64Text (envelope crypto encryptionKey iv plaintext)

/-- `createDecipheriv` takes no empty vector, and `setAuthTag` no tag of another length. -/
def decrypt (ciphertext : String) : Option String :=
  let buffer := base64Bytes ciphertext
  let iv := buffer.take ivLength
  let authTag := (buffer.drop ivLength).take authTagLength
  let encrypted := buffer.drop (ivLength + authTagLength)
  if iv = [] then none
  else if authTag.length ≠ authTagLength then none
  else (crypto.decipher (deriveKey crypto encryptionKey) iv authTag encrypted).map utf8Text

end Service

/-- Tags have the length asked for, and opening succeeds exactly on what the service
has sealed: a text in UTF-8, under the key, the initialisation vector and the tag. -/
structure IdealGcm (crypto : Crypto) : Prop where
  tag : ∀ key iv plaintext, (crypto.cipher key iv plaintext).2.length = authTagLength
  opens : ∀ key iv tag encrypted plaintext,
    crypto.decipher key iv tag encrypted = some plaintext ↔
      ∃ text, plaintext = utf8Bytes text ∧ crypto.cipher key iv plaintext = (encrypted, tag)

section Envelopes

variable {crypto : Crypto} {encryptionKey : String}

theorem base64Bytes_encrypt (iv : Iv) (plaintext : String) :
    base64Bytes (encrypt crypto encryptionKey iv plaintext) =
      envelope crypto encryptionKey iv plaintext := base64Bytes_base64Text _

/-- No text is encrypted as the empty one. -/
theorem encrypt_ne_empty (crypto : Crypto) (encryptionKey : String) (iv : Iv)
    (plaintext : String) : encrypt crypto encryptionKey iv plaintext ≠ "" := by
  intro hempty
  have hread : base64Bytes (encrypt crypto encryptionKey iv plaintext) =
      envelope crypto encryptionKey iv plaintext := base64Bytes_encrypt iv plaintext
  have hlength := congrArg List.length hread
  rw [hempty, envelope, List.length_append, List.length_append, iv.2] at hlength
  change 0 = ivLength + _ + _ at hlength
  simp only [ivLength] at hlength
  omega

/-- The offsets of `decrypt` take an envelope apart. -/
theorem envelope_parts (hg : IdealGcm crypto) (encryptionKey : String) (iv : Iv)
    (plaintext : String) :
    let sealedText := crypto.cipher (deriveKey crypto encryptionKey) iv (utf8Bytes plaintext)
    let buffer := envelope crypto encryptionKey iv plaintext
    buffer.take ivLength = iv ∧ (buffer.drop ivLength).take authTagLength = sealedText.2 ∧
      buffer.drop (ivLength + authTagLength) = sealedText.1 := by
  intro sealedText buffer
  have htag : sealedText.2.length = authTagLength := hg.tag _ _ _
  have hbuffer : buffer = iv ++ (sealedText.2 ++ sealedText.1) := List.append_assoc _ _ _
  have hrest : buffer.drop ivLength = sealedText.2 ++ sealedText.1 := by
    rw [hbuffer, List.drop_left' iv.2]
  refine ⟨?_, ?_, ?_⟩
  · rw [hbuffer, List.take_left' iv.2]
  · rw [hrest, List.take_left' htag]
  · rw [← List.drop_drop, hrest, List.drop_left' htag]

/-- Bytes long enough are put together again from the parts that `decrypt` makes. -/
theorem append_parts (buffer : Bytes) :
    buffer.take ivLength ++ (buffer.drop ivLength).take authTagLength ++
      buffer.drop (ivLength + authTagLength) = buffer := by
  rw [← List.drop_drop, List.append_assoc, List.take_append_drop, List.take_append_drop]

theorem decrypt_of_envelope (hg : IdealGcm crypto) {iv : Iv} {c text : String}
    (hc : base64Bytes c = envelope crypto encryptionKey iv text) :
    decrypt crypto encryptionKey c = some text := by
  obtain ⟨htake, htag, hdrop⟩ := envelope_parts hg encryptionKey iv text
  have hne : iv.1 ≠ [] := by
    intro hnil
    have hlength := iv.2
    rw [hnil] at hlength
    cases hlength
  have hopen : crypto.decipher (deriveKey crypto encryptionKey) iv
      (crypto.cipher (deriveKey crypto encryptionKey) iv (utf8Bytes text)).2
      (crypto.cipher (deriveKey crypto encryptionKey) iv (utf8Bytes text)).1 =
        some (utf8Bytes text) := (hg.opens _ _ _ _ _).mpr ⟨text, rfl, rfl⟩
  simp only [decrypt, hc, htake, htag, hdrop]
  rw [if_neg hne, if_neg (not_not.mpr (hg.tag _ _ _)), hopen, Option.map_some,
    utf8Text_utf8Bytes]

theorem envelope_of_decrypt (hg : IdealGcm crypto) {c text : String}
    (h : decrypt crypto encryptionKey c = some text) :
    ∃ iv, base64Bytes c = envelope crypto encryptionKey iv text := by
  simp only [decrypt] at h
  split_ifs at h with hiv htag
  obtain ⟨plaintext, hopen, hread⟩ := Option.map_eq_some_iff.mp h
  obtain ⟨sealedText, rfl, hsealed⟩ := (hg.opens _ _ _ _ _).mp hopen
  rw [utf8Text_utf8Bytes] at hread
  subst hread
  have hlength : ((base64Bytes c).take ivLength).length = ivLength := by
    have htag := not_not.mp htag
    rw [List.length_take, List.length_drop] at htag
    rw [List.length_take]
    simp only [ivLength, authTagLength] at htag ⊢
    omega
  refine ⟨⟨(base64Bytes c).take ivLength, hlength⟩, ?_⟩
  rw [envelope, hsealed]
  exact (append_parts _).symm

/-- Too few bytes for a vector and a tag. -/
theorem decrypt_of_short {c : String} (h : (base64Bytes c).length < ivLength + authTagLength) :
    decrypt crypto encryptionKey c = none := by
  have hlength : (((base64Bytes c).drop ivLength).take authTagLength).length ≠ authTagLength := by
    rw [List.length_take, List.length_drop]
    simp only [ivLength, authTagLength] at h ⊢
    omega
  simp only [decrypt, if_pos hlength, ite_self]

/-- A text decrypts to what it is an envelope of, and every other text throws. -/
theorem envelope_exact (crypto : Crypto) (hg : IdealGcm crypto) (encryptionKey : String) :
    (∀ iv plaintext,
      decrypt crypto encryptionKey (encrypt crypto encryptionKey iv plaintext) = some plaintext) ∧
    (∀ c text, decrypt crypto encryptionKey c = some text ↔
      ∃ iv, base64Bytes c = base64Bytes (encrypt crypto encryptionKey iv text)) ∧
    ∀ c, (base64Bytes c).length < 32 → decrypt crypto encryptionKey c = none := by
  refine ⟨?_, ?_, ?_⟩
  · intro iv plaintext
    exact decrypt_of_envelope hg (base64Bytes_encrypt iv plaintext)
  · intro c text
    simp only [base64Bytes_encrypt]
    constructor
    · exact envelope_of_decrypt hg
    · rintro ⟨iv, hc⟩
      exact decrypt_of_envelope hg hc
  · intro c hc
    exact decrypt_of_short hc

/-- A cipher that masks every byte, with a sum of all there is for a tag. -/
def maskCrypto : Crypto where
  scrypt password salt _ := utf8Bytes (password ++ salt)
  cipher key iv plaintext :=
    (plaintext.map (· ^^^ 0x5A), List.replicate authTagLength (key ++ iv ++ plaintext).sum)
  decipher key iv tag encrypted :=
    let plaintext := encrypted.map (· ^^^ 0x5A)
    if utf8Bytes (utf8Text plaintext) = plaintext ∧
        tag = List.replicate authTagLength (key ++ iv ++ plaintext).sum then some plaintext
    else none

theorem idealGcm_maskCrypto : IdealGcm maskCrypto := by
  have hmask : ∀ bytes : Bytes, (bytes.map (· ^^^ 0x5A)).map (· ^^^ 0x5A) = bytes := by
    intro bytes
    rw [List.map_map]
    refine (List.map_congr_left fun b _ => ?_).trans (List.map_id bytes)
    change b ^^^ 0x5A ^^^ 0x5A = b
    rw [UInt8.xor_assoc, UInt8.xor_self, UInt8.xor_zero]
  constructor
  · intro key iv plaintext
    exact List.length_replicate
  · intro key iv tag encrypted plaintext
    simp only [maskCrypto]
    constructor
    · intro h
      split_ifs at h with hvalid
      cases h
      exact ⟨_, hvalid.1.symm, by rw [hmask, hvalid.2]⟩
    · rintro ⟨text, rfl, hsealed⟩
      cases hsealed
      rw [hmask, utf8Text_utf8Bytes]
      simp

def zeroIv : Iv := ⟨List.replicate ivLength 0, List.length_replicate⟩

theorem envelope_exact_maskCrypto :
    decrypt maskCrypto "clave" (encrypt maskCrypto "clave" zeroIv "ñandú") = some "ñandú" ∧
      decrypt maskCrypto "clave" (encrypt maskCrypto "clave" zeroIv "") = some "" ∧
      decrypt maskCrypto "clave" "eA==" = none := by
  obtain ⟨hround, -, hshort⟩ := envelope_exact maskCrypto idealGcm_maskCrypto "clave"
  exact ⟨hround zeroIv _, hround zeroIv _, hshort "eA==" (by decide)⟩

/-! What the identity service assumes of its cipher -/

variable {N : Type}

/-- An environment that encrypts with the service, each time with a vector of its own. -/
def withTokenCrypt (env : Env N) (crypto : Crypto) (encryptionKey : String) (ivs : ℕ → Iv) :
    Env N :=
  { env with
    encrypt := fun n => encrypt crypto encryptionKey (ivs n)
    decrypt := decrypt crypto encryptionKey }

theorem decrypts_withTokenCrypt (env : Env N) (hg : IdealGcm crypto) (ivs : ℕ → Iv) :
    Decrypts (withTokenCrypt env crypto encryptionKey ivs) := by
  intro n text
  simp only [withTokenCrypt]
  exact decrypt_of_envelope hg (base64Bytes_encrypt (ivs n) text)

theorem ciphertextsNoList_withTokenCrypt [JsNumber N] (env : Env N) (ivs : ℕ → Iv) :
    CiphertextsNoList (withTokenCrypt env crypto encryptionKey ivs) := by
  intro n text codes
  exact parseText_ne_arr (bracket_notMem_base64Text _) codes

end Envelopes

end VerdeAuth.TokenEnvelope
