import Mathlib.Data.ZMod.Basic
import VerdeAuth.KeyAgreement
import VerdeAuth.RequestContracts
import VerdeAuth.IamAssumptions

/-!
# The encryption endpoints

`KeyManagementService` and `EncryptionController`, beside the requests of the identity
service. A pair of keys is handed out with its private key encrypted; whoever has that
decrypted can agree on a secret with the holder of any other pair.
-/

namespace VerdeAuth.KeyManagement

open ByteTexts JsonTexts IamTables IamOperations ResumptionPrograms InterleavedPools
open TokenServices MfaServices AuthService IamEndpoints IamAssumptions RequestFootprints
open ResponseContracts KeyAgreement

variable {N α : Type} {G : Type} [AddCommGroup G]

/-- What `createECDH('secp256k1')` computes with. -/
structure Ecdh (G : Type) [AddCommGroup G] where
  base : G
  order : ℕ
  addOrderOf_base : addOrderOf base = order
  prime : order.Prime
  /-- The private key that random bytes make. -/
  randomKey : ℕ → { d : ℕ // 0 < d ∧ d < order }
  /-- A point as bytes; `none` where bytes are no point. -/
  pointBytes : G → Bytes
  readPoint : Bytes → Option G
  readPoint_pointBytes : ∀ P, readPoint (pointBytes P) = some P
  /-- The coordinate of a point that is the secret. -/
  xBytes : G → Bytes

structure AsymmetricKeyPair where
  publicKey : String
  privateKey : String

structure UserKeyPair where
  publicKey : String
  encryptedPrivateKey : String

/-! `KeyManagementService` -/

section Service

variable (env : Env N) (ecdh : Ecdh G)

/-- The texts of a private key and of the public key that belongs to it. -/
def keyPair (d : ℕ) : AsymmetricKeyPair :=
  ⟨base64Text (ecdh.pointBytes (d • ecdh.base)), base64Text (bigEndian d)⟩

def generateECDHKeyPair : Iam N AsymmetricKeyPair := do
  return keyPair ecdh (ecdh.randomKey (← draw))

def encryptPrivateKey (privateKey : String) : Iam N String := encrypt env privateKey

def decryptPrivateKey (encryptedPrivateKey : String) : Iam N String :=
  decrypt env (some encryptedPrivateKey)

def generateAndEncryptKeyPair : Iam N UserKeyPair := do
  let pair ← generateECDHKeyPair ecdh
  let encryptedPrivateKey ← encrypt env pair.privateKey
  return ⟨pair.publicKey, encryptedPrivateKey⟩

/-- A number that is no private key of the curve throws, as do bytes that are no point. -/
def deriveSharedSecret [DecidableEq G] (privateKey publicKey : String) : Option Bytes := do
  let d := fromBigEndian (base64Bytes privateKey)
  let P ← if 0 < d ∧ d < ecdh.order then ecdh.readPoint (base64Bytes publicKey) else none
  return ecdh.xBytes (← shared d P)

end Service

/-! `EncryptionController` -/

/-- The route of a request with the fields its handler reads. -/
inductive EncryptionRoute (N : Type) where
  | encrypt (data : JsonField N)
  | decrypt (encryptedData : JsonField N)
  | generateKeyPair
  | health

structure EncryptionRequest (N : Type) where
  route : EncryptionRoute N
  authorization : Option String

inductive EncryptionReply where
  | encrypted (encryptedData : String)
  | decrypted (data : String)
  | keyPair (publicKey encryptedPrivateKey : String)
  | health (status algorithm keyDerivation : String)

/-- `AuthGuard('jwt')` before a handler of this controller. -/
def authGuard (env : Env N) (authorization : Option String) (handler : Iam N α) : Iam N α := do
  let token := authorization.bind env.bearerToken
  match ← verifyAccessToken env (token.map Json.str) with
  | none => Prog.throw (.unauthorized "Unauthorized")
  | some _ => handler

theorem authGuard_eq_guarded : authGuard (α := Reply) = guarded (N := N) := rfl

section Controller

variable (env : Env N)

/-- The vector is drawn before the cipher throws at what is no string. -/
def encryptField (data : JsonField N) : Iam N String := do
  let iv ← draw
  match data with
  | some (.str s) => return env.encrypt iv s
  | _ => Prog.throw .internal

/-- `buffers` is the base64 of `Buffer.from` of a value that is no string. -/
def decryptField (buffers : Json N → Option String) (encryptedData : JsonField N) : Iam N String :=
  match encryptedData with
  | some (.str c) => orThrow (env.decrypt c)
  | some v => orThrow ((buffers v).bind env.decrypt)
  | none => Prog.throw .internal

variable (ecdh : Ecdh G) (buffers : Json N → Option String)

def handleEncryption (r : EncryptionRequest N) : Iam N EncryptionReply :=
  match r.route with
  | .encrypt data => authGuard env r.authorization do
    return .encrypted (← encryptField env data)
  | .decrypt encryptedData => authGuard env r.authorization do
    return .decrypted (← decryptField env buffers encryptedData)
  | .generateKeyPair => authGuard env r.authorization do
    let pair ← generateAndEncryptKeyPair env ecdh
    return .keyPair pair.publicKey pair.encryptedPrivateKey
  | .health => return .health "Encryption module operational" "AES-256-GCM" "scrypt"

/-- A request to the server. -/
def respond [JsNumber N] [DecidableEq N] :
    Request N ⊕ EncryptionRequest N → Iam N (Reply ⊕ EncryptionReply)
  | .inl r => Sum.inl <$> handle env r
  | .inr r => Sum.inr <$> handleEncryption env ecdh buffers r

/-- Requests of both kinds in a race. -/
def respondTogether [JsNumber N] [DecidableEq N] (w : World)
    (rs : List (Request N ⊕ EncryptionRequest N)) (sched : List (Turn Time)) :
    Pool (Res N) Failure (Reply ⊕ EncryptionReply) World Time :=
  (Pool.start (rs.map (respond env ecdh buffers)) w).exec (exec env) tick sched

end Controller

section Agreement

variable [DecidableEq G] {ecdh : Ecdh G}

/-- The secret of two pairs, either way round. -/
theorem deriveSharedSecret_keyPair {a b : ℕ} (ha : 0 < a ∧ a < ecdh.order)
    (hb : 0 < b ∧ b < ecdh.order) :
    deriveSharedSecret ecdh (keyPair ecdh a).privateKey (keyPair ecdh b).publicKey =
      some (ecdh.xBytes ((a * b) • ecdh.base)) := by
  have hshared : shared a (b • ecdh.base) = some ((a * b) • ecdh.base) := by
    have hprime := ecdh.prime
    rw [← ecdh.addOrderOf_base] at hprime ha hb
    exact shared_ne_none hprime ha.1 ha.2 hb.1 hb.2
  simp only [deriveSharedSecret, keyPair, base64Bytes_base64Text, fromBigEndian_bigEndian]
  rw [if_pos ha, ecdh.readPoint_pointBytes]
  simp [hshared]

end Agreement

section Requests

variable {env : Env N} {ecdh : Ecdh G} {buffers : Json N → Option String}

theorem returns_authGuard {S : α → Prop} {authorization : Option String} {handler : Iam N α}
    (hS : Returns S handler) : Returns S (authGuard env authorization handler) := by
  refine (returns_true (verifyAccessToken env _)).bind fun p _ => ?_
  cases p with
  | none => exact returns_throw _
  | some p => exact hS

/-- A pair of keys that a reply hands out. -/
def HandsOut (env : Env N) (ecdh : Ecdh G) (y : Reply ⊕ EncryptionReply) : Prop :=
  ∀ publicKey encryptedPrivateKey, y = .inr (.keyPair publicKey encryptedPrivateKey) →
    ∃ m n, publicKey = (keyPair ecdh (ecdh.randomKey n)).publicKey ∧
      encryptedPrivateKey = env.encrypt m (keyPair ecdh (ecdh.randomKey n)).privateKey

theorem returns_respond [JsNumber N] [DecidableEq N] (r : Request N ⊕ EncryptionRequest N) :
    Returns (HandsOut env ecdh) (respond env ecdh buffers r) := by
  cases r with
  | inl r => exact (returns_true (handle env r)).map fun _ _ => nofun
  | inr r =>
    have hreply : Returns (fun y => HandsOut env ecdh (.inr y))
        (handleEncryption env ecdh buffers r) := by
      rw [handleEncryption]
      cases r.route with
      | encrypt data =>
        exact returns_authGuard ((returns_true _).bind fun _ _ => returns_ret nofun)
      | decrypt encryptedData =>
        exact returns_authGuard ((returns_true _).bind fun _ _ => returns_ret nofun)
      | generateKeyPair =>
        refine returns_authGuard ⟨trivial, fun n => ⟨trivial, fun m => returns_ret ?_⟩⟩
        rintro publicKey encryptedPrivateKey ⟨⟩
        exact ⟨m, n, rfl, rfl⟩
      | health => exact returns_ret nofun
    exact hreply.map fun _ hy => hy

/-- A request to decrypt a text is answered with what it decrypts to. -/
theorem returns_decrypt [JsNumber N] [DecidableEq N] {r : EncryptionRequest N} {c s : String}
    (hr : r.route = .decrypt (some (.str c))) (hs : env.decrypt c = some s) :
    Returns (fun y => y = .inr (.decrypted s)) (respond env ecdh buffers (.inr r)) := by
  have hreply : Returns (fun y => y = EncryptionReply.decrypted s)
      (handleEncryption env ecdh buffers r) := by
    rw [handleEncryption, hr]
    refine returns_authGuard ?_
    simp only [decryptField, hs, orThrow, Prog.ret_bind]
    exact returns_ret rfl
  exact hreply.map fun _ hy => congrArg Sum.inr hy

variable [DecidableEq G] [JsNumber N] [DecidableEq N]

/-- However requests interleave, two pairs of keys that were handed out agree on a secret:
what any request to decrypt the one private key is answered with makes the same of the other
public key. -/
theorem keys_agree (env : Env N) (hdecrypts : Decrypts env) (ecdh : Ecdh G)
    (buffers : Json N → Option String) (w : World) (rs : List (Request N ⊕ EncryptionRequest N))
    (sched : List (Turn Time)) (i j : ℕ) (A B a' b' : String) :
    let c := respondTogether env ecdh buffers w rs sched
    let Opens : String → String → Prop := fun encrypted text => ∀ (k : ℕ) r y,
      rs[k]? = some (.inr r) → r.route = .decrypt (some (.str encrypted)) →
        c.threads[k]? = some (.ret y) → y = .inr (.decrypted text)
    c.threads[i]? = some (.ret (.inr (.keyPair A a'))) →
      c.threads[j]? = some (.ret (.inr (.keyPair B b'))) →
        ∃ a b z, Opens a' a ∧ Opens b' b ∧ deriveSharedSecret ecdh a B = some z ∧
          deriveSharedSecret ecdh b A = some z := by
  intro c Opens hA hB
  have hands : ∀ {i : ℕ} {y : Reply ⊕ EncryptionReply}, c.threads[i]? = some (.ret y) →
      HandsOut env ecdh y := by
    intro i y hy
    have hlen : c.threads.length = (rs.map (respond env ecdh buffers)).length :=
      length_threads_exec _ w sched
    have hlt : i < rs.length := by
      have h := (List.getElem?_eq_some_iff.mp hy).1
      rwa [hlen, List.length_map] at h
    have hr : (rs.map (respond env ecdh buffers))[i]? = some (respond env ecdh buffers rs[i]) := by
      simp [hlt]
    exact returns_exec hr (returns_respond rs[i]) hy
  have hopens : ∀ m s, Opens (env.encrypt m s) s := by
    intro m s k r y hr hroute hy
    have hp : (rs.map (respond env ecdh buffers))[k]? = some (respond env ecdh buffers (.inr r)) := by
      simp [hr]
    exact returns_exec hp (returns_decrypt hroute (hdecrypts m s)) hy
  obtain ⟨m, n, rfl, rfl⟩ := hands hA A a' rfl
  obtain ⟨m', n', rfl, rfl⟩ := hands hB B b' rfl
  refine ⟨_, _, _, hopens m _, hopens m' _, deriveSharedSecret_keyPair (ecdh.randomKey n).2
    (ecdh.randomKey n').2, ?_⟩
  rw [deriveSharedSecret_keyPair (ecdh.randomKey n').2 (ecdh.randomKey n).2, Nat.mul_comm]

end Requests

/-- The numbers below seven stand in for the points of the curve. -/
def Point : Type := ZMod 7

instance pointGroup : AddCommGroup Point := (ZMod.commRing 7).toRing.toAddCommGroup

instance pointDecidable : DecidableEq Point := inferInstanceAs (DecidableEq (Fin 7))

def Point.ofNat (n : ℕ) : Point := (n : ZMod 7)

def Point.number (P : Point) : ℕ := ZMod.val (n := 7) P

/-- The number of a point, before it a byte for the format. -/
def Point.bytes (P : Point) : Bytes := [4, UInt8.ofNat P.number]

def Point.read : Bytes → Option Point
  | [_, x] => some (Point.ofNat x.toNat)
  | _ => none

theorem Point.read_bytes (P : Point) : Point.read P.bytes = some P := by
  have hlt : P.number < 256 := Nat.lt_trans (ZMod.val_lt (n := 7) P) (by omega)
  simp only [Point.bytes, Point.read, UInt8.toNat_ofNat_of_lt' hlt]
  exact congrArg some (ZMod.natCast_zmod_val (n := 7) P)

def toyEcdh : Ecdh Point where
  base := (1 : ZMod 7)
  order := 7
  addOrderOf_base := ZMod.addOrderOf_one 7
  prime := Nat.prime_seven
  randomKey n := ⟨n % 6 + 1, by omega⟩
  pointBytes := Point.bytes
  readPoint := Point.read
  readPoint_pointBytes := Point.read_bytes
  xBytes P := [UInt8.ofNat P.number]

/-- Two pairs are made at a time. -/
def twoPairs : List (Request ℕ ⊕ EncryptionRequest ℕ) :=
  List.replicate 2 (.inr ⟨.generateKeyPair, (anaRequest .me).authorization⟩)

/-- The private key that was drawn and encrypted with these numbers is decrypted. -/
def opening (n m : ℕ) : Request ℕ ⊕ EncryptionRequest ℕ :=
  .inr ⟨.decrypt (some (.str (anaEnv.encrypt m (keyPair toyEcdh (toyEcdh.randomKey n)).privateKey))),
    (anaRequest .me).authorization⟩

def byTurns : List (Turn Time) :=
  (List.replicate 3 [.thread 0, .thread 1]).flatten ++ [.thread 2, .thread 3]

theorem keys_agree_twoPairs : ∃ A B a' b' a b z,
    let c := respondTogether anaEnv toyEcdh (fun _ => none) anaWorld
      (twoPairs ++ [opening 2 4, opening 3 5]) byTurns
    c.threads[0]? = some (.ret (.inr (.keyPair A a'))) ∧
      c.threads[1]? = some (.ret (.inr (.keyPair B b'))) ∧
      c.threads[2]? = some (.ret (.inr (.decrypted a))) ∧
      c.threads[3]? = some (.ret (.inr (.decrypted b))) ∧
      deriveSharedSecret toyEcdh a B = some z ∧ deriveSharedSecret toyEcdh b A = some z := by
  let c := respondTogether anaEnv toyEcdh (fun _ => none) anaWorld
    (twoPairs ++ [opening 2 4, opening 3 5]) byTurns
  obtain ⟨A, hA⟩ : ∃ A, c.threads[0]? = some (.ret (.inr (.keyPair A
    (anaEnv.encrypt 4 (keyPair toyEcdh (toyEcdh.randomKey 2)).privateKey)))) := ⟨_, by rfl⟩
  obtain ⟨B, hB⟩ : ∃ B, c.threads[1]? = some (.ret (.inr (.keyPair B
    (anaEnv.encrypt 5 (keyPair toyEcdh (toyEcdh.randomKey 3)).privateKey)))) := ⟨_, by rfl⟩
  obtain ⟨y, hy⟩ : ∃ y, c.threads[2]? = some (.ret y) := ⟨_, by rfl⟩
  obtain ⟨y', hy'⟩ : ∃ y, c.threads[3]? = some (.ret y) := ⟨_, by rfl⟩
  obtain ⟨a, b, z, ha, hb, hz, hz'⟩ := keys_agree anaEnv (decrypts_plainEnv _) toyEcdh
    (fun _ => none) anaWorld (twoPairs ++ [opening 2 4, opening 3 5]) byTurns 0 1 A B _ _ hA hB
  have hopened := ha 2 _ y rfl rfl hy
  have hopened' := hb 3 _ y' rfl rfl hy'
  exact ⟨A, B, _, _, a, b, z, hA, hB, hopened ▸ hy, hopened' ▸ hy', hz, hz'⟩

end VerdeAuth.KeyManagement
