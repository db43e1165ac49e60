import VerdeAuth.SecondFactorGate
import VerdeAuth.TokenExchanges
import VerdeAuth.VerificationTraces

/-!
# Handlers with a failing step

A refresh and the three verifications write one row after the other. When one of
their steps fails, the presented credential is lost if the write that consumes it
was done, and is as good as before otherwise.
-/

namespace VerdeAuth.FailingHandlers

open JsonTexts KeyedTables IamTables IamOperations ResumptionPrograms UsersService TokenServices
open MfaServices AuthService MfaController IamEndpoints IamRules IamAssumptions UserRowChanges
open RequestEndings RequestRuns RequestFootprints RefreshTokenChain SessionCalls TokenExchanges
open VerificationTraces
open SecondFactorGate (checked_of_tokens)

variable {N α : Type}

/-! The credential a request presents -/

/-- The two checks with which `refresh` validates its token. -/
def Validates (env : Env N) (token : JsonField N) (w : World) : Prop :=
  ∃ s payload, token = some (.str s) ∧ env.jwtVerify (refreshKey env) s w.clock = some payload ∧
    ((validateRefreshToken (.uuid payload.sub) token).run (exec env) w).1 = .ok true

/-- The presented temporary token is stored for the user. -/
def TempTokenStored (env : Env N) (tempToken : JsonField N) (i : UserId) (w : World) : Prop :=
  ∀ token, criterion env tempToken = some token →
    (w.users.get? i).bind User.mfaTempToken = some token

/-- The user has an unused backup code that the presented one matches. -/
def CodeUnused [JsNumber N] [DecidableEq N] (env : Env N) (t : Time) (code : JsonField N)
    (i : UserId) (w : World) : Prop :=
  ∃ u codes, w.users.get? i = some u ∧
    backupResult env t u.mfaBackupCodes code = some (some codes)

/-- What a request found in `w` presents is as good in `w'`. -/
def CredentialKept [JsNumber N] [DecidableEq N] (env : Env N) (w w' : World) : Route N → Prop
  | .refresh token => Validates env token w'
  | .verify tempToken _ => ∃ u, w.findUser (.mfaTempToken (criterion env tempToken)) = some u ∧
      TempTokenStored env tempToken u.id w'
  | .verifyBiometric tempToken _ =>
      ∃ u, w.findUser (.mfaTempToken (criterion env tempToken)) = some u ∧
        TempTokenStored env tempToken u.id w'
  | .verifyBackup tempToken code =>
      ∃ u, w.findUser (.mfaTempToken (criterion env tempToken)) = some u ∧
        TempTokenStored env tempToken u.id w' ∧ CodeUnused env w'.clock code u.id w'
  | _ => True

/-! The writes that consume it -/

/-- A session for which the token can be exchanged at a time. -/
structure Live (env : Env N) (t : Time) (token : String) (i : UserId) (s : Session) : Prop where
  notRevoked : s.isRevoked = false
  user : s.userId = i
  belongs : env.bcryptCompare token s.refreshToken = true
  unexpired : t < s.expiresAt

/-- The update clears a presented temporary token. -/
def Clears (env : Env N) (tempToken : JsonField N) : Op N → Prop
  | .updateUser _ p => p.mfaTempToken = some none ∧ criterion env tempToken ≠ none
  | _ => False

/-- The update stores backup codes. -/
def StoresCodes : Op N → Prop
  | .updateUser _ p => p.mfaBackupCodes ≠ none
  | _ => False

/-- The session is saved as a revoked one and was the only one of its user that the
token could be exchanged for. -/
def RevokesLast (env : Env N) (w : World) (token : String) : Op N → Prop
  | .saveSession s => s.isRevoked = true ∧
      ∀ s' ∈ w.sessions.rows, Live env w.clock token s.userId s' → s'.id = s.id
  | _ => False

def Consumes (env : Env N) (w : World) : Route N → Op N → Prop
  | .refresh (some (.str token)), o => RevokesLast env w token o
  | .verify tempToken _, o => Clears env tempToken o
  | .verifyBiometric tempToken _, o => Clears env tempToken o
  | .verifyBackup tempToken _, o => Clears env tempToken o ∨ StoresCodes o
  | _, _ => False

/-- The request whose operation number `n` fails. -/
def serveFailing [JsNumber N] [DecidableEq N] (env : Env N) (t : Time) (r : Request N) (n : ℕ)
    (w : World) : Except Failure Reply × World :=
  ((handle env r).failAt .internal n).run (exec env) { w with clock := t }

/-- The operations the request performs when none fails. -/
def steps [JsNumber N] [DecidableEq N] (env : Env N) (t : Time) (r : Request N) (w : World) :
    List (Op N) := (handle env r).performed (exec env) { w with clock := t }

/-! Refreshing -/

section Refresh

variable {env : Env N} {w : World} {token : String} {i : UserId} {t : Time}

/-- The token can be exchanged for some session. -/
def Exchangeable (env : Env N) (t : Time) (token : String) (i : UserId) (w : World) : Prop :=
  ∃ s ∈ w.sessions.rows, Live env t token i s

theorem validateRefreshToken_iff (env : Env N) (w : World) (token : String) (i : UserId) :
    ((validateRefreshToken (.uuid i) (some (.str token)) : Iam N Bool).run (exec env) w).1 =
      .ok true ↔ Exchangeable env w.clock token i w := by
  simp only [run_validateRefreshToken, World.findSessions]
  constructor
  · intro h
    obtain ⟨s, hs, hmatch⟩ := List.any_eq_true.mp (Except.ok.inj h)
    simp only [List.mem_filter, Bool.and_eq_true, Option.all_some, decide_eq_true_eq,
      Bool.not_eq_true'] at hs hmatch
    exact ⟨s, hs.1, hs.2.1, hs.2.2, hmatch.1, hmatch.2⟩
  · rintro ⟨s, hs, hlive⟩
    refine congrArg Except.ok (List.any_eq_true.mpr ⟨s, List.mem_filter.mpr ⟨hs, ?_⟩, ?_⟩)
    · simp [hlive.notRevoked, hlive.user]
    · simp [hlive.belongs, hlive.unexpired]

/-- What an operation takes from the token. -/
def TakesToken (env : Env N) (w : World) (token : String) (i : UserId) (o : Op N) (w' : World) :
    Prop :=
  Exchangeable env w.clock token i (exec env o w').2 ↔
    Exchangeable env w.clock token i w' ∧ ¬ RevokesLast env w token o

theorem takesToken_of_spares {o : Op N} (h : SparesSessions o) (w' : World) :
    TakesToken env w token i o w' := by
  have hsame := sessions_exec env h w'
  have hnot : ¬ RevokesLast env w token o := by
    cases o <;> first | contradiction | exact id
  simp only [TakesToken, Exchangeable, hsame, hnot, not_false_eq_true, and_true]

/-- Saving a session of the user as revoked. -/
theorem takesToken_save {s : Session} {w' : World} (hsessions : w'.sessions = w.sessions)
    (hs : s ∈ w.findSessions (some i)) :
    TakesToken env w token i (.saveSession { s with isRevoked := true }) w' := by
  obtain ⟨hmem, hs⟩ := List.mem_filter.mp hs
  obtain rfl : s.userId = i := by
    simp only [Bool.and_eq_true, Option.all_some, decide_eq_true_eq] at hs
    exact hs.2
  change (∃ s' ∈ (w'.sessions.put { s with isRevoked := true }).rows, _) ↔
    (∃ s' ∈ w'.sessions.rows, _) ∧ ¬ (_ ∧ _)
  rw [hsessions]
  simp only [true_and, not_forall]
  constructor
  · rintro ⟨s', hs', hlive⟩
    rcases Table.mem_put hs' with rfl | ⟨hold, hne⟩
    · cases hlive.notRevoked
    · exact ⟨⟨s', hold, hlive⟩, s', hold, hlive, hne⟩
  · rintro ⟨-, s', hold, hlive, hne⟩
    have hget : ∀ s₁ : Session, s₁.id = s.id → (w.sessions.put s₁).get? s'.id = some s' :=
      fun s₁ h₁ => (Table.get?_put_of_ne _ s₁ (h₁ ▸ hne)).trans (Table.get?_of_mem hold)
    exact ⟨s', Table.mem_rows_of_get? (hget _ rfl), hlive⟩

/-- Inserting a session of another token. -/
theorem takesToken_insert {j : UserId} {hash : String} {device ip : Option String} {e : Time}
    (h : env.bcryptCompare token hash = false) (w' : World) :
    TakesToken env w token i (.insertSession j hash device ip e) w' := by
  have hrows : (exec env (.insertSession j hash device ip e) w').2.sessions.rows =
      w'.sessions.rows ++ [⟨freshId w'.sessions, j, hash, device, ip, e, false⟩] := put_fresh rfl
  have hnot : ¬ Live env w.clock token i ⟨freshId w'.sessions, j, hash, device, ip, e, false⟩ := by
    intro hlive
    have hbelongs := hlive.belongs
    rw [h] at hbelongs
    cases hbelongs
  simp [TakesToken, Exchangeable, hrows, hnot, RevokesLast]

theorem along_revokeFirst {f : Unit → Iam N Reply} {ss : List Session} {w' : World}
    (hss : ∀ s ∈ ss, s ∈ w.findSessions (some i)) (hsessions : w'.sessions = w.sessions)
    (hf : ∀ w'', (f ()).Along (exec env) (TakesToken env w token i) w'') :
    (revokeFirst (some (.str token)) ss >>= f).Along (exec env) (TakesToken env w token i) w' := by
  induction ss with
  | nil => exact hf w'
  | cons s ss ih =>
    have hcompare : SparesSessions (.bcryptCompare token s.refreshToken : Op N) := trivial
    refine ⟨takesToken_of_spares hcompare w', ?_⟩
    have hrest := ih fun s' hs' => hss s' (List.mem_cons_of_mem s hs')
    change ((if env.bcryptCompare token s.refreshToken then _ else _) >>= f).Along _ _ _
    split
    · exact ⟨takesToken_save hsessions (hss s List.mem_cons_self), hf _⟩
    · exact hrest

/-- The part behind the revocation. -/
theorem along_createRefreshToken (hnew : NotReissued env token) (j : UserId) (ip device : String)
    (reply : Reply) (w' : World) :
    (createRefreshToken env j device ip >>= fun _ =>
      log env "TOKEN_REFRESH" (some j) ip device true >>= fun _ => .ret reply).Along (exec env)
        (TakesToken env w token i) w' := by
  have hspares : ∀ {o : Op N} {w'' : World}, SparesSessions o → TakesToken env w token i o w'' :=
    fun h => takesToken_of_spares h _
  refine ⟨hspares trivial, hspares trivial, hspares trivial, hspares trivial, hspares trivial,
    hspares trivial, takesToken_insert (hnew ..) _, hspares trivial, hspares trivial, trivial⟩

theorem spares_validateRefreshToken (token : String) (i : UserId) :
    Prog.Every SparesSessions (fun _ => True)
      (validateRefreshToken (.uuid i) (some (.str token)) : Iam N Bool) := by
  have hvalid : ∀ ss : List Session, Prog.Every SparesSessions (fun _ => True)
      (anyValid (some (.str token)) ss : Iam N Bool) := by
    intro ss
    induction ss with
    | nil => trivial
    | cons s ss ih =>
      refine ⟨trivial, fun b => ?_⟩
      cases b with
      | false => exact ih
      | true =>
        refine ⟨trivial, fun t => ?_⟩
        change Prog.Every SparesSessions _ (if t < s.expiresAt then _ else _)
        split
        · trivial
        · exact ih
  exact ⟨trivial, hvalid⟩

/-- A refresh whose token is signed. -/
theorem along_refresh {payload : JwtPayload} (hnew : NotReissued env token)
    (hverify : env.jwtVerify (refreshKey env) token w.clock = some payload) (ip device : String) :
    (refresh env (some (.str token)) ip device).Along (exec env)
      (TakesToken env w token payload.sub) w := by
  have hspares : ∀ (o : Op N) (w' : World), SparesSessions o → w'.sessions = w.sessions →
      TakesToken env w token payload.sub o w' ∧ (exec env o w').2.sessions = w.sessions :=
    fun o w' ho hw' => ⟨takesToken_of_spares ho w', (sessions_exec env ho w').trans hw'⟩
  rw [refresh_eq]
  have hnow : SparesSessions (.now : Op N) := trivial
  refine ⟨takesToken_of_spares hnow w, ?_⟩
  simp only [exec, hverify]
  rw [exchange]
  apply (spares_validateRefreshToken token payload.sub).along_bind hspares rfl
  rintro (_ | _) w₁ - h₁
  · trivial
  have hfind : SparesSessions (.findUser (.id (some payload.sub)) : Op N) := trivial
  refine ⟨takesToken_of_spares hfind w₁, ?_⟩
  simp only [exec]
  cases hu : w₁.findUser (.id (some payload.sub)) with
  | none => trivial
  | some user =>
    have hid : user.id = payload.sub := by
      simpa [UserWhere.matches] using matches_of_findUser hu
    change Prog.Along _ _ (if user.isActive then _ else _) w₁
    simp only [hid]
    split
    · apply (spares_generateAccessToken _ _).along_bind hspares h₁
      intro accessToken w₂ _ h₂
      apply (spares_generateRefreshToken _).along_bind hspares h₂
      intro newRefreshToken w₃ _ h₃
      have hsessions : SparesSessions (.findSessions (some payload.sub) : Op N) := trivial
      refine ⟨takesToken_of_spares hsessions w₃, ?_⟩
      have hss : ∀ s ∈ w₃.findSessions (some payload.sub),
          s ∈ w.findSessions (some payload.sub) := by
        intro s hs
        rw [World.findSessions, h₃] at hs
        exact hs
      exact along_revokeFirst hss h₃ (along_createRefreshToken hnew _ _ _ _)
    · trivial

end Refresh

/-! Verifying a second factor -/

/-- What a verification does to the row of its user. -/
inductive FactorStep (env : Env N) (i : UserId) : Op N → World → Prop
  | quiet {o w} (h : KeepsUsers o) : FactorStep env i o w
  | update {p w} (htoken : p.mfaTempToken = none ∨ p.mfaTempToken = some none)
      (hcodes : p.mfaBackupCodes = none ∨
        ∃ iv s, p.mfaBackupCodes = some (some (env.encrypt iv s))) :
      FactorStep env i (.updateUser i p) w
  | save {u v w} (hid : u.id = i) (hv : w.users.get? i = some v)
      (htoken : u.mfaTempToken = v.mfaTempToken) (hcodes : u.mfaBackupCodes = v.mfaBackupCodes) :
      FactorStep env i (.saveUser u) w

section Verification

variable {env : Env N} {w : World} {i : UserId} {tempToken : JsonField N}

theorem get?_updateUser (w : World) (i : UserId) (p : UserPatch) :
    (w.updateUser i p).users.get? i = (w.users.get? i).map p.apply :=
  Table.get?_modify_self w.users i p.apply p.apply_id

theorem get?_saveUser (w : World) (u : User) : (w.saveUser u).users.get? u.id = some u :=
  Table.get?_put_self w.users u

theorem tempTokenStored_step {o : Op N} (h : FactorStep env i o w) :
    TempTokenStored env tempToken i (exec env o w).2 ↔
      TempTokenStored env tempToken i w ∧ ¬ Clears env tempToken o := by
  cases h with
  | quiet h =>
    have hsame := sameUsers_exec env h w
    have hnot : ¬ Clears env tempToken o := by
      cases o <;> first | exact id | exact h.elim
    simp [TempTokenStored, hsame.1, hnot]
  | @update p _ htoken hcodes =>
    change (∀ token, _ → ((w.updateUser i p).users.get? i).bind User.mfaTempToken = some token) ↔
      _ ∧ ¬ (p.mfaTempToken = some none ∧ criterion env tempToken ≠ none)
    rw [get?_updateUser]
    rcases htoken with hp | hp
    · have hsame : ((w.users.get? i).map p.apply).bind User.mfaTempToken =
          (w.users.get? i).bind User.mfaTempToken := by
        cases w.users.get? i <;> simp [UserPatch.apply, hp]
      simp [hsame, hp, TempTokenStored]
    · have hnone : ((w.users.get? i).map p.apply).bind User.mfaTempToken = none := by
        cases w.users.get? i <;> simp [UserPatch.apply, hp]
      rw [hnone, hp]
      cases hc : criterion env tempToken <;> simp [TempTokenStored, hc]
  | @save u v _ hid hv htoken hcodes =>
    subst hid
    have hnot : ¬ Clears env tempToken (.saveUser u) := id
    have hsame : ((exec env (.saveUser u) w).2.users.get? u.id).bind User.mfaTempToken =
        (w.users.get? u.id).bind User.mfaTempToken := by
      change ((w.saveUser u).users.get? u.id).bind User.mfaTempToken = _
      rw [get?_saveUser, hv, Option.bind_some, Option.bind_some, htoken]
    simp [TempTokenStored, hsame, hnot]

section BackupCodes

variable [JsNumber N] [DecidableEq N] {t : Time} {code : JsonField N}

/-- No code is found in an encrypted column. -/
theorem backupResult_ciphertext (h : CiphertextsNoList env) (iv : ℕ) (s : String)
    (codes : List (Json N)) :
    backupResult env t (some (env.encrypt iv s)) code ≠ some (some codes) := by
  have hparse := h iv s
  rcases code with _ | (_ | _ | _ | input | _ | _)
  case some.str =>
    simp only [backupResult, parseBackupCodes]
    cases hp : (parseText (env.encrypt iv s).toList : Option (Json N)) with
    | none => simp [markFirst]
    | some v =>
      cases v with
      | arr cs => exact absurd hp (hparse cs)
      | _ => simp
  all_goals simp [backupResult]

theorem codeUnused_step (hcipher : CiphertextsNoList env) {o : Op N} (h : FactorStep env i o w) :
    CodeUnused env t code i (exec env o w).2 ↔ CodeUnused env t code i w ∧ ¬ StoresCodes o := by
  cases h with
  | quiet h =>
    have hsame := sameUsers_exec env h w
    have hnot : ¬ StoresCodes o := by
      cases o <;> first | exact id | exact h.elim
    simp [CodeUnused, hsame.1, hnot]
  | @update p _ htoken hcodes =>
    change (∃ u codes, (w.updateUser i p).users.get? i = some u ∧ _) ↔
      _ ∧ ¬ (p.mfaBackupCodes ≠ none)
    rw [get?_updateUser]
    rcases hcodes with hp | ⟨iv, s, hp⟩
    · have hsame : ∀ u : User, (p.apply u).mfaBackupCodes = u.mfaBackupCodes := by
        simp [UserPatch.apply, hp]
      simp [CodeUnused, hp, hsame]
    · have hnone : ∀ u codes,
          backupResult env t (p.apply u).mfaBackupCodes code ≠ some (some codes) := by
        intro u codes
        simpa [UserPatch.apply, hp] using backupResult_ciphertext hcipher iv s codes
      simp [hp, hnone]
  | @save u v _ hid hv htoken hcodes =>
    subst hid
    have hnot : ¬ StoresCodes (.saveUser u : Op N) := id
    have hget : (exec env (.saveUser u) w).2.users.get? u.id = some u := get?_saveUser w u
    simp [CodeUnused, hget, hv, hcodes, hnot]

end BackupCodes

theorem along_quiet_bind {β : Type} {R : Except Failure α → Prop} {p : Iam N α} {f : α → Iam N β}
    (hp : Prog.Every KeepsUsers R p)
    (hf : ∀ a w', R (.ok a) → (f a).Along (exec env) (FactorStep env i) w') (w : World) :
    (p >>= f).Along (exec env) (FactorStep env i) w :=
  hp.along_bind (J := fun _ => True) (fun _ _ ho _ => ⟨.quiet ho, trivial⟩)
    trivial fun a w' ha _ => hf a w' ha

/-- A wrong factor is counted, in the row as it is. -/
theorem along_incrementMfaFailedAttempts (f : Unit → Iam N Reply)
    (hf : ∀ w', (f ()).Along (exec env) (FactorStep env i) w') (w : World) :
    (incrementMfaFailedAttempts (.uuid i) >>= f).Along (exec env) (FactorStep env i) w := by
  refine ⟨.quiet trivial, ?_⟩
  simp only [exec]
  cases hu : w.findUser (.id (some i)) with
  | none => exact hf w
  | some user =>
    have hid : user.id = i := by simpa [UserWhere.matches] using matches_of_findUser hu
    have hget : w.users.get? i = some user := hid ▸ get?_of_findUser hu
    change Prog.Along _ _ ((if user.mfaFailedAttempts + 1 ≥ 3 then _ else _) >>= f) w
    split
    · exact ⟨.quiet trivial, .save hid hget rfl rfl, hf _⟩
    · exact ⟨.save hid hget rfl rfl, hf _⟩

/-- An accepted factor. -/
theorem along_completeVerification {u : User} {commit : Iam N Unit}
    (hc : CommitStep env u.id commit) (w' : World) :
    (completeVerification env u commit).Along (exec env) (FactorStep env u.id) w' := by
  have htokens : ∀ w, (do
      let t ← generateTokens env u.id u.email
      return Reply.verified t).Along (exec env) (FactorStep env u.id) w := by
    intro w
    apply along_quiet_bind (quietResult_generateTokens u.id u.email).quiet
    intro t w' _
    trivial
  have hclear : ∀ w, (clearMfaTempToken (.uuid u.id) >>= fun _ => do
      let t ← generateTokens env u.id u.email
      return Reply.verified t).Along (exec env) (FactorStep env u.id) w :=
    fun w => ⟨.quiet trivial, .update (Or.inr rfl) (Or.inl rfl), htokens _⟩
  refine ⟨.update (Or.inl rfl) (Or.inl rfl), ?_⟩
  rcases hc with rfl | ⟨codes, rfl⟩
  · exact hclear _
  · exact ⟨.quiet trivial, .update (Or.inl rfl) (Or.inr ⟨_, codes, rfl⟩), hclear _⟩

theorem along_verifyFactor {refusal : String} {check : User → Iam N (Option (Iam N Unit))}
    (hcheck : ∀ u, QuietCheck env u.id (check u)) {u : User}
    (hu : w.findUser (.mfaTempToken (criterion env tempToken)) = some u) :
    (verifyFactor env tempToken refusal check).Along (exec env) (FactorStep env u.id) w := by
  refine ⟨.quiet trivial, ?_⟩
  simp only [exec, hu]
  apply along_quiet_bind quiet_now
  intro time w₁ _
  split
  · trivial
  apply along_quiet_bind (quiet_isMfaLocked u.id)
  intro locked w₂ _
  split
  · trivial
  apply along_quiet_bind (hcheck u)
  rintro (_ | commit) w₃ hcommit
  · apply along_incrementMfaFailedAttempts
    intro w₄
    trivial
  · exact along_completeVerification (hcommit commit rfl) w₃

end Verification

variable [JsNumber N] [DecidableEq N] {env : Env N} {w : World} {r : Request N}

/-- The routes whose requests spend a credential. -/
def Spends (route : Route N) : Prop :=
  (∃ token, route = .refresh token) ∨ ∃ tempToken, presented route = some tempToken

theorem along_of_presented {tempToken : JsonField N} (hp : presented r.route = some tempToken)
    {u : User} (hu : w.findUser (.mfaTempToken (criterion env tempToken)) = some u) :
    (handle env r).Along (exec env) (FactorStep env u.id) w := by
  rw [handle]
  cases hr : r.route with
  | verify token code =>
    obtain rfl : token = tempToken := by simpa [hr, presented] using hp
    exact along_verifyFactor (quietCheck_totp code) hu
  | verifyBackup token code =>
    obtain rfl : token = tempToken := by simpa [hr, presented] using hp
    exact along_verifyFactor (quietCheck_backup code) hu
  | verifyBiometric token device =>
    obtain rfl : token = tempToken := by simpa [hr, presented] using hp
    exact along_verifyFactor (quietCheck_biometric device) hu
  | _ =>
    rw [hr] at hp
    cases hp

/-- The clock stands still during a request, however far it gets. -/
theorem clock_stateAfter (env : Env N) (r : Request N) (w : World) (n : ℕ) :
    ((handle env r).stateAfter (exec env) n w).clock = w.clock :=
  ((handle_holds env w r).stateAfter n).1

omit [JsNumber N] [DecidableEq N] in
theorem tempTokenStored_of_found {tempToken : JsonField N} {u : User}
    (hu : w.findUser (.mfaTempToken (criterion env tempToken)) = some u) :
    TempTokenStored env tempToken u.id w := by
  intro token htoken
  rw [htoken] at hu
  rw [get?_of_findUser hu]
  simpa [UserWhere.matches] using matches_of_findUser hu

/-- A failing refresh. -/
theorem exchangeable_iff {token : String} {payload : JwtPayload} (hnew : NotReissued env token)
    (hr : r.route = .refresh (some (.str token)))
    (hverify : env.jwtVerify (refreshKey env) token w.clock = some payload) (n : ℕ) :
    Exchangeable env w.clock token payload.sub ((handle env r).stateAfter (exec env) n w) ↔
      Exchangeable env w.clock token payload.sub w ∧
        ∀ o ∈ ((handle env r).performed (exec env) w).take n, ¬ RevokesLast env w token o := by
  apply Prog.Along.kept_iff
  simp only [handle, hr]
  exact along_refresh hnew hverify r.ip r.device

/-- A failing verification. -/
theorem tempTokenStored_iff {tempToken : JsonField N} (hp : presented r.route = some tempToken)
    {u : User} (hu : w.findUser (.mfaTempToken (criterion env tempToken)) = some u) (n : ℕ) :
    TempTokenStored env tempToken u.id ((handle env r).stateAfter (exec env) n w) ↔
      ∀ o ∈ ((handle env r).performed (exec env) w).take n, ¬ Clears env tempToken o := by
  have hkept : TempTokenStored env tempToken u.id ((handle env r).stateAfter (exec env) n w) ↔
      TempTokenStored env tempToken u.id w ∧
        ∀ o ∈ ((handle env r).performed (exec env) w).take n, ¬ Clears env tempToken o := by
    apply Prog.Along.kept_iff
    exact (along_of_presented hp hu).mono fun o w' h => tempTokenStored_step h
  exact hkept.trans (and_iff_right (tempTokenStored_of_found hu))

theorem codeUnused_iff (hcipher : CiphertextsNoList env) {tempToken code : JsonField N} {t : Time}
    (hp : presented r.route = some tempToken) {u : User}
    (hu : w.findUser (.mfaTempToken (criterion env tempToken)) = some u) (n : ℕ) :
    CodeUnused env t code u.id ((handle env r).stateAfter (exec env) n w) ↔
      CodeUnused env t code u.id w ∧
        ∀ o ∈ ((handle env r).performed (exec env) w).take n, ¬ StoresCodes o := by
  apply Prog.Along.kept_iff
  exact (along_of_presented hp hu).mono fun o w' h => codeUnused_step hcipher h

theorem refresh_kept_iff {token : JsonField N} (hr : r.route = .refresh token)
    (hnew : ∀ s, token = some (.str s) → NotReissued env s) (hgood : Validates env token w) (n : ℕ) :
    Validates env token ((handle env r).stateAfter (exec env) n w) ↔
      ∀ o ∈ ((handle env r).performed (exec env) w).take n, ¬ Consumes env w (.refresh token) o := by
  obtain ⟨s, payload, rfl, hverify, hvalid⟩ := hgood
  rw [validateRefreshToken_iff] at hvalid
  have hkept := exchangeable_iff (hnew s rfl) hr hverify n
  have hclock := clock_stateAfter env r w n
  generalize (handle env r).stateAfter (exec env) n w = w' at hkept hclock
  constructor
  · intro hgood'
    obtain ⟨s', payload', hs, hverify', hvalid'⟩ := hgood'
    cases hs
    rw [hclock, hverify] at hverify'
    cases hverify'
    rw [validateRefreshToken_iff, hclock] at hvalid'
    exact (hkept.mp hvalid').2
  · intro hnone
    refine ⟨s, payload, rfl, by rw [hclock, hverify], ?_⟩
    rw [validateRefreshToken_iff, hclock]
    exact hkept.mpr ⟨hvalid, hnone⟩

theorem pending_kept_iff {tempToken : JsonField N} (hp : presented r.route = some tempToken)
    (hgood : ∃ u, w.findUser (.mfaTempToken (criterion env tempToken)) = some u ∧
      TempTokenStored env tempToken u.id w) (n : ℕ) :
    (∃ u, w.findUser (.mfaTempToken (criterion env tempToken)) = some u ∧
        TempTokenStored env tempToken u.id ((handle env r).stateAfter (exec env) n w)) ↔
      ∀ o ∈ ((handle env r).performed (exec env) w).take n, ¬ Clears env tempToken o := by
  constructor
  · intro hgood'
    obtain ⟨u, hu, hstored⟩ := hgood'
    exact (tempTokenStored_iff hp hu n).mp hstored
  · intro hnone
    obtain ⟨u, hu, -⟩ := hgood
    exact ⟨u, hu, (tempTokenStored_iff hp hu n).mpr hnone⟩

theorem backup_kept_iff (hcipher : CiphertextsNoList env) {tempToken code : JsonField N}
    (hp : presented r.route = some tempToken)
    (hgood : CredentialKept env w w (.verifyBackup tempToken code)) (n : ℕ) :
    CredentialKept env w ((handle env r).stateAfter (exec env) n w)
        (.verifyBackup tempToken code) ↔
      ∀ o ∈ ((handle env r).performed (exec env) w).take n,
        ¬ Consumes env w (.verifyBackup tempToken code) o := by
  obtain ⟨u, hu, -, hunused⟩ := hgood
  have hstored := tempTokenStored_iff hp hu n
  have hcode : CodeUnused env w.clock code u.id ((handle env r).stateAfter (exec env) n w) ↔
      CodeUnused env w.clock code u.id w ∧
        ∀ o ∈ ((handle env r).performed (exec env) w).take n, ¬ StoresCodes o :=
    codeUnused_iff hcipher hp hu n
  have hclock := clock_stateAfter env r w n
  generalize (handle env r).stateAfter (exec env) n w = w' at hstored hcode hclock
  constructor
  · intro hgood' o ho hconsumes
    obtain ⟨u', hu', hstored', hunused'⟩ := hgood'
    obtain rfl := Option.some.inj (hu.symm.trans hu')
    rw [hclock] at hunused'
    cases hconsumes with
    | inl hclears => exact hstored.mp hstored' o ho hclears
    | inr hstores => exact (hcode.mp hunused').2 o ho hstores
  · intro hnone
    refine ⟨u, hu, hstored.mpr fun o ho h => hnone o ho (Or.inl h), ?_⟩
    rw [hclock]
    exact hcode.mpr ⟨hunused, fun o ho h => hnone o ho (Or.inr h)⟩

/-- The credential after the first operations of a request. -/
theorem credentialKept_iff (hcipher : CiphertextsNoList env) (hr : Spends r.route)
    (hnew : ∀ token, r.route = .refresh (some (.str token)) → NotReissued env token)
    (hgood : CredentialKept env w w r.route) (n : ℕ) :
    CredentialKept env w ((handle env r).stateAfter (exec env) n w) r.route ↔
      ∀ o ∈ ((handle env r).performed (exec env) w).take n, ¬ Consumes env w r.route o := by
  cases hroute : r.route with
  | refresh token =>
    rw [hroute] at hgood
    exact refresh_kept_iff hroute (fun s hs => hnew s (hs ▸ hroute)) hgood n
  | verify tempToken code =>
    rw [hroute] at hgood
    exact pending_kept_iff (hroute ▸ rfl) hgood n
  | verifyBiometric tempToken device =>
    rw [hroute] at hgood
    exact pending_kept_iff (hroute ▸ rfl) hgood n
  | verifyBackup tempToken code =>
    rw [hroute] at hgood
    exact backup_kept_iff hcipher (hroute ▸ rfl) hgood n
  | _ =>
    rw [hroute] at hr
    rcases hr with ⟨token, h⟩ | ⟨tempToken, h⟩ <;> cases h

/-- A request that is answered with tokens presents a good credential. -/
theorem credential_of_tokens {t : Time} (hr : Spends r.route) {reply : Reply} {tokens : TokenPair}
    (hok : (serve env t r w).1 = .ok reply) (htokens : reply.tokens? = some tokens) :
    CredentialKept env { w with clock := t } { w with clock := t } r.route := by
  have hselected : ∀ tempToken, presented r.route = some tempToken →
      ∃ u, ({ w with clock := t } : World).findUser (.mfaTempToken (criterion env tempToken)) =
        some u ∧ factorResult env t u r.route = some true := by
    intro tempToken hp
    obtain ⟨u, -, -, hchecked⟩ := checked_of_tokens env (q := (t, r)) hp hok htokens
    obtain ⟨tempToken', hp', hu⟩ := hchecked.selected
    obtain rfl := Option.some.inj (hp.symm.trans hp')
    exact ⟨u, hu, hchecked.factor⟩
  have hstored : ∀ tempToken, presented r.route = some tempToken →
      ∃ u, ({ w with clock := t } : World).findUser (.mfaTempToken (criterion env tempToken)) =
        some u ∧ TempTokenStored env tempToken u.id { w with clock := t } := by
    intro tempToken hp
    obtain ⟨u, hu, -⟩ := hselected tempToken hp
    exact ⟨u, hu, tempTokenStored_of_found hu⟩
  cases hroute : r.route with
  | refresh token =>
    rw [serve, handle, hroute] at hok
    obtain ⟨s, rfl⟩ : ∃ s, token = some (.str s) := by
      rcases token with _ | (_ | _ | _ | s | _ | _)
      case some.str => exact ⟨s, rfl⟩
      all_goals cases hok
    cases hverify : env.jwtVerify (refreshKey env) s t with
    | none =>
      simp [refresh_eq, exec, hverify] at hok
    | some payload =>
      refine ⟨s, payload, rfl, hverify, ?_⟩
      simp only [refresh_eq, Prog.run_call, exec, hverify, exchange, Prog.run_bind,
        run_validateRefreshToken, Prog.andThen_ok] at hok ⊢
      refine congrArg Except.ok ((Bool.not_eq_false _).mp fun hfalse => ?_)
      rw [hfalse] at hok
      cases hok
  | verify tempToken code => exact hstored tempToken (hroute ▸ rfl)
  | verifyBiometric tempToken device => exact hstored tempToken (hroute ▸ rfl)
  | verifyBackup tempToken code =>
    obtain ⟨u, hu, hfactor⟩ := hselected tempToken (hroute ▸ rfl)
    refine ⟨u, hu, tempTokenStored_of_found hu, ?_⟩
    simp only [hroute, factorResult, Option.map_eq_some_iff] at hfactor
    obtain ⟨result, hresult, hsome⟩ := hfactor
    obtain ⟨codes, rfl⟩ := Option.isSome_iff_exists.mp hsome
    exact ⟨u, codes, get?_of_findUser hu, hresult⟩
  | _ =>
    rw [hroute] at hr
    rcases hr with ⟨token, h⟩ | ⟨tempToken, h⟩ <;> cases h

/-- The credential of a request whose operation number `n` fails is as good as before
exactly when none of the operations before has consumed it. -/
theorem credential_kept_iff (env : Env N) (hcipher : CiphertextsNoList env) (w : World) (t : Time)
    (r : Request N) (hr : Spends r.route)
    (hnew : ∀ token, r.route = .refresh (some (.str token)) → NotReissued env token)
    (hgood : CredentialKept env { w with clock := t } { w with clock := t } r.route) (n : ℕ)
    (hn : n < (steps env t r w).length) :
    (serveFailing env t r n w).1 = .error .internal ∧
      (CredentialKept env { w with clock := t } (serveFailing env t r n w).2 r.route ↔
        ∀ o ∈ (steps env t r w).take n, ¬ Consumes env { w with clock := t } r.route o) := by
  have hlength : n < ((handle env r).performed (exec env) { w with clock := t }).length := hn
  have hrun : serveFailing env t r n w = (.error .internal,
      (handle env r).stateAfter (exec env) n { w with clock := t }) := by
    rw [serveFailing, Prog.run_failAt, if_pos hlength]
  rw [hrun]
  exact ⟨rfl, credentialKept_iff hcipher hr hnew hgood n⟩

def evaRefresh : Request ℕ :=
  ⟨.refresh (some (.str evaToken.text)), .undefined, none, none, "::1"⟩

/-- Ana waits for her second factor. -/
def anaPending : World := (serve anaEnv 1000 anaLogin anaWorld).2

set_option maxRecDepth 2000 in
/-- The insertion of Eva's new session fails, and her token does not validate any
more. The signing of Ana's tokens fails, and her temporary token is gone. -/
theorem credentials_lost :
    (∃ tokens, (serve evaEnv 2000 evaRefresh evaRefreshing).1 = .ok (.session tokens)) ∧
      (serveFailing evaEnv 2000 evaRefresh 18 evaRefreshing).1 = .error .internal ∧
      ¬ CredentialKept evaEnv evaRefreshing
        (serveFailing evaEnv 2000 evaRefresh 18 evaRefreshing).2 evaRefresh.route ∧
      (∃ tokens, (serve anaEnv 2000 anaVerification anaPending).1 = .ok (.verified tokens)) ∧
      (serveFailing anaEnv 2000 anaVerification 7 anaPending).1 = .error .internal ∧
      ¬ CredentialKept anaEnv anaPending
        (serveFailing anaEnv 2000 anaVerification 7 anaPending).2 anaVerification.route := by
  refine ⟨⟨_, by rfl⟩, by rfl, ?_, ⟨_, by rfl⟩, by rfl, ?_⟩
  · rintro ⟨s, payload, hs, hverify, hvalid⟩
    cases hs
    have hpayload : evaEnv.jwtVerify (refreshKey evaEnv) evaToken.text 2000 = some evaPayload := by
      decide
    have hverify' : evaEnv.jwtVerify (refreshKey evaEnv) evaToken.text 2000 = some payload :=
      hverify
    cases hpayload.symm.trans hverify'
    cases hvalid
  · rintro ⟨u, hu, hstored⟩
    cases hu
    cases hstored "2" rfl

theorem credential_kept_iff_eva :
    (serveFailing evaEnv 2000 evaRefresh 11 evaRefreshing).1 = .error .internal ∧
      (CredentialKept evaEnv evaRefreshing
          (serveFailing evaEnv 2000 evaRefresh 11 evaRefreshing).2 evaRefresh.route ↔
        ∀ o ∈ (steps evaEnv 2000 evaRefresh evaRefreshing).take 11,
          ¬ Consumes evaEnv evaRefreshing evaRefresh.route o) := by
  have hcipher : CiphertextsNoList evaEnv := by
    intro iv s codes hparse
    cases (ciphertextsNotJson_plainEnv [evaPayload] iv s).symm.trans hparse
  have hnew : ∀ token, evaRefresh.route = .refresh (some (.str token)) →
      NotReissued evaEnv token := by
    intro token htoken
    cases htoken
    exact notReissued_signed (idealBcrypt_plainEnv [evaPayload])
      (sessionTokensUnsigned_plainEnv [evaPayload]) "refresh" evaPayload
  have hspends : Spends evaRefresh.route := Or.inl ⟨_, rfl⟩
  have hgood : CredentialKept evaEnv evaRefreshing evaRefreshing evaRefresh.route :=
    credential_of_tokens (w := evaRefreshing) (t := 2000) hspends rfl rfl
  exact credential_kept_iff evaEnv hcipher evaRefreshing 2000 evaRefresh hspends hnew hgood 11
    (by decide)

end VerdeAuth.FailingHandlers
