import VerdeAuth.IamEndpoints

/-!
# Rules for the services

One rule for each service function, for a property of all states a handler
passes through and one of its end. Functions that write no user row share a
rule: they keep the users and the clock.
-/

namespace VerdeAuth.IamRules

open JsonTexts KeyedTables IamTables IamOperations ResumptionPrograms UsersService TokenServices
open MfaServices AuthService

variable {N α β : Type} {env : Env N} {I : World → Prop} {w : World}

/-- The operations that write no user row. -/
def KeepsUsers : Op N → Prop
  | .insertUser _ _ => False
  | .updateUser _ _ => False
  | .saveUser _ => False
  | _ => True

/-- The users and the clock are the same. -/
def SameUsers (w w' : World) : Prop := w'.users = w.users ∧ w'.clock = w.clock

theorem SameUsers.refl (w : World) : SameUsers w w := ⟨rfl, rfl⟩

theorem SameUsers.trans {w w' w'' : World} (h : SameUsers w w') (h' : SameUsers w' w'') :
    SameUsers w w'' := ⟨h'.1.trans h.1, h'.2.trans h.2⟩

theorem SameUsers.findUser {w w' : World} (h : SameUsers w w') (c : UserWhere) :
    w'.findUser c = w.findUser c := by
  rw [World.findUser, World.findUser, h.1]

theorem sameUsers_exec (env : Env N) {o : Op N} (ho : KeepsUsers o) (w : World) :
    SameUsers w (exec env o w).2 := by
  cases o <;> first | contradiction | exact ⟨rfl, rfl⟩

/-- A program that writes no user row. -/
def Quiet (p : Iam N α) : Prop := Prog.Every KeepsUsers (fun _ => True) p

theorem Quiet.bind {p : Iam N α} {f : α → Iam N β} (hp : Quiet p) (hf : ∀ a, Quiet (f a)) :
    Quiet (p >>= f) := Prog.Every.seq hp hf

theorem quiet_ret (a : α) : Quiet (.ret a : Iam N α) := trivial

theorem quiet_throw (e : Failure) : Quiet (.throw e : Iam N α) := trivial

theorem quiet_perform (o : Op N) (ho : KeepsUsers o) : Quiet (Prog.perform o : Iam N _) :=
  ⟨ho, fun _ => trivial⟩

theorem quiet_now : Quiet (now : Iam N Time) := quiet_perform .now trivial

theorem quiet_compare (data : JsonField N) (hash : String) : Quiet (compare data hash) := by
  rcases data with _ | (_ | _ | _ | s | _ | _)
  all_goals first | exact quiet_throw _ | exact quiet_perform (.bcryptCompare s hash) trivial

theorem quiet_verifyToken (secret : String) (token : JsonField N) :
    Quiet (verifyToken env secret token) := by
  rcases token with _ | (_ | _ | _ | s | _ | _)
  all_goals first | exact quiet_ret _ | exact quiet_now.bind fun _ => quiet_ret _

theorem quiet_findSessions (i : IdParam) : Quiet (findSessions i : Iam N _) := by
  cases i <;> first | exact quiet_throw _ | exact quiet_perform (.findSessions _) trivial

theorem quiet_anyValid (token : JsonField N) (ss : List Session) : Quiet (anyValid token ss) := by
  induction ss with
  | nil => exact quiet_ret _
  | cons s ss ih =>
    refine (quiet_compare token _).bind fun b => ?_
    cases b with
    | false => exact ih
    | true =>
      refine quiet_now.bind fun t => ?_
      split
      · exact quiet_ret _
      · exact ih

theorem quiet_revokeFirst (token : JsonField N) (ss : List Session) :
    Quiet (revokeFirst token ss) := by
  induction ss with
  | nil => exact quiet_ret _
  | cons s ss ih =>
    refine (quiet_compare token _).bind fun b => ?_
    cases b with
    | false => exact ih
    | true => exact quiet_perform (.saveSession _) trivial

theorem quiet_validateRefreshToken (i : IdParam) (token : JsonField N) :
    Quiet (validateRefreshToken i token) :=
  (quiet_findSessions i).bind fun ss => quiet_anyValid token ss

theorem quiet_revokeSession (i : IdParam) (token : JsonField N) : Quiet (revokeSession i token) :=
  (quiet_findSessions i).bind fun ss => quiet_revokeFirst token ss

theorem quiet_findById (i : IdParam) : Quiet (findById i : Iam N _) := by
  cases i <;> first | exact quiet_throw _ | exact quiet_perform (.findUser _) trivial

/-- The rule for programs that write no user row. -/
theorem Quiet.holds {p : Iam N α} {Q : Except Failure α → World → Prop} (hp : Quiet p)
    (hI : ∀ w', SameUsers w w' → I w') (hQ : ∀ r w', SameUsers w w' → Q r w') :
    p.Holds (exec env) I Q w := by
  induction p generalizing w with
  | ret a => exact ⟨hI w (.refl w), hQ _ w (.refl w)⟩
  | throw e => exact ⟨hI w (.refl w), hQ _ w (.refl w)⟩
  | call o next ih =>
    have hstep := sameUsers_exec env hp.1 w
    exact ⟨hI w (.refl w), ih _ (hp.2 _) (fun w' h => hI w' (hstep.trans h))
      fun r w' h => hQ r w' (hstep.trans h)⟩

variable {Q : Except Failure β → World → Prop}

/-- A quiet first part, whatever its result is. -/
theorem holds_quiet_bind {p : Iam N α} {f : α → Iam N β} (hp : Quiet p)
    (hI : ∀ w', SameUsers w w' → I w') (hthrow : ∀ e w', SameUsers w w' → Q (.error e) w')
    (hf : ∀ a w', SameUsers w w' → (f a).Holds (exec env) I Q w') :
    (p >>= f).Holds (exec env) I Q w := by
  refine (Prog.holds_bind p f).mpr (hp.holds hI fun r w' h => ?_)
  cases r with
  | ok a => exact hf a w' h
  | error e => exact hthrow e w' h

/-- A program that writes no user row and returns a value with `P`. -/
def QuietResult (P : α → Prop) (p : Iam N α) : Prop :=
  Prog.Every KeepsUsers (fun r => ∃ a, r = .ok a ∧ P a) p

theorem QuietResult.quiet {P : α → Prop} {p : Iam N α} (h : QuietResult P p) : Quiet p :=
  Prog.Every.mono h (fun _ ho => ho) fun _ _ => trivial

theorem QuietResult.bind {P : α → Prop} {P' : β → Prop} {p : Iam N α} {f : α → Iam N β}
    (hp : QuietResult P p) (hf : ∀ a, P a → QuietResult P' (f a)) : QuietResult P' (p >>= f) := by
  refine (Prog.every_bind p f).mpr (Prog.Every.mono hp (fun _ h => h) fun r hr => ?_)
  obtain ⟨a, rfl, ha⟩ := hr
  exact hf a ha

theorem quietResult_ret {P : α → Prop} {a : α} (h : P a) : QuietResult P (.ret a : Iam N α) :=
  ⟨a, rfl, h⟩

theorem quietResult_perform (o : Op N) (ho : KeepsUsers o) :
    QuietResult (fun _ => True) (Prog.perform o : Iam N _) := ⟨ho, fun r => ⟨r, rfl, trivial⟩⟩

theorem quietResult_now : QuietResult (fun _ => True) (now : Iam N Time) :=
  quietResult_perform .now trivial

theorem quietResult_draw : QuietResult (fun _ => True) (draw : Iam N ℕ) :=
  quietResult_perform .draw trivial

theorem quietResult_log (action : String) (userId : Option UserId) (ip device : String)
    (success : Bool) : QuietResult (fun _ => True) (log env action userId ip device success) :=
  (quietResult_perform (.insertAuditLog _) trivial).bind fun _ _ =>
    quietResult_perform (.logSecurity _) trivial

theorem quietResult_generateAccessToken (i : UserId) (email : String) :
    QuietResult (fun t => t.payload.sub = i) (generateAccessToken env i email) :=
  quietResult_now.bind fun _ _ => quietResult_ret rfl

theorem quietResult_generateRefreshToken (i : UserId) :
    QuietResult (fun t => t.payload.sub = i) (generateRefreshToken env i) :=
  quietResult_draw.bind fun _ _ => quietResult_draw.bind fun _ _ =>
    quietResult_now.bind fun _ _ => quietResult_ret rfl

/-- Both tokens are made out to the user. -/
def TokensFor (i : UserId) (t : TokenPair) : Prop :=
  t.accessToken.payload.sub = i ∧ t.refreshToken.payload.sub = i

theorem quietResult_generateTokens (i : UserId) (email : String) :
    QuietResult (TokensFor i) (generateTokens env i email) :=
  (quietResult_generateAccessToken i email).bind fun _ ha =>
    (quietResult_generateRefreshToken i).bind fun _ hr => quietResult_ret ⟨ha, hr⟩

theorem quietResult_generateToken : QuietResult (fun _ => True) (generateToken env) :=
  quietResult_draw.bind fun _ _ => quietResult_draw.bind fun _ _ =>
    quietResult_draw.bind fun _ _ => quietResult_draw.bind fun _ _ => quietResult_ret trivial

theorem quietResult_createRefreshToken (i : UserId) (device ip : String) :
    QuietResult (fun _ => True) (createRefreshToken env i device ip) :=
  quietResult_generateToken.bind fun _ _ => quietResult_draw.bind fun _ _ =>
    quietResult_now.bind fun _ _ =>
      (quietResult_perform (.insertSession ..) trivial).bind fun _ _ => quietResult_ret trivial

theorem holds_quietResult_bind {P : α → Prop} {p : Iam N α} {f : α → Iam N β}
    (hp : QuietResult P p) (hI : ∀ w', SameUsers w w' → I w')
    (hf : ∀ a w', P a → SameUsers w w' → (f a).Holds (exec env) I Q w') :
    (p >>= f).Holds (exec env) I Q w := by
  induction p generalizing w with
  | ret a =>
    obtain ⟨b, hb, hP⟩ := hp
    cases hb
    exact hf a w hP (.refl w)
  | throw e =>
    obtain ⟨b, hb, -⟩ := hp
    cases hb
  | call o next ih =>
    have hstep := sameUsers_exec env hp.1 w
    exact ⟨hI w (.refl w), ih _ (hp.2 _) (fun w' h => hI w' (hstep.trans h))
      fun a w' ha h => hf a w' ha (hstep.trans h)⟩

theorem holds_perform_bind (o : Op N) (f : Res N o → Iam N β) (hI : I w)
    (hf : (f (exec env o w).1).Holds (exec env) I Q (exec env o w).2) :
    (Prog.perform o >>= f).Holds (exec env) I Q w := ⟨hI, hf⟩

theorem holds_draw_bind (f : ℕ → Iam N β) (hI : I w)
    (hf : (f w.drawn).Holds (exec env) I Q { w with drawn := w.drawn + 1 }) :
    (draw >>= f).Holds (exec env) I Q w := ⟨hI, hf⟩

theorem holds_encrypt_bind (s : String) (f : String → Iam N β) (hI : I w)
    (hf : (f (env.encrypt w.drawn s)).Holds (exec env) I Q { w with drawn := w.drawn + 1 }) :
    (encrypt env s >>= f).Holds (exec env) I Q w := ⟨hI, hf⟩

/-- The codes made of `n` draws from the `k`-th on. -/
def drawnCodes (env : Env N) (k : ℕ) : ℕ → List String
  | 0 => []
  | n + 1 => randomCode env k :: drawnCodes env (k + 1) n

theorem holds_generateCodes_bind (n : ℕ) (f : List String → Iam N β)
    (hI : ∀ k, I { w with drawn := k })
    (hf : (f (drawnCodes env w.drawn n)).Holds (exec env) I Q { w with drawn := w.drawn + n }) :
    (generateCodes env n >>= f).Holds (exec env) I Q w := by
  induction n generalizing w f with
  | zero => exact hf
  | succ n ih =>
    rw [generateCodes, bind_assoc]
    refine holds_draw_bind _ (hI w.drawn) ?_
    rw [bind_assoc]
    refine ih (w := { w with drawn := w.drawn + 1 }) _ hI ?_
    rw [show w.drawn + 1 + n = w.drawn + (n + 1) by omega]
    exact hf

theorem holds_now_bind (f : Time → Iam N β) (hI : I w)
    (hf : (f w.clock).Holds (exec env) I Q w) : (now >>= f).Holds (exec env) I Q w := ⟨hI, hf⟩

theorem holds_findByEmail_bind (email : JsonField N) (f : Option User → Iam N β) (hI : I w)
    (hf : (f (w.findUser (.email (criterion env email)))).Holds (exec env) I Q w) :
    (findByEmail env email >>= f).Holds (exec env) I Q w := ⟨hI, hf⟩

theorem holds_findByMfaTempToken_bind (tempToken : JsonField N) (f : Option User → Iam N β)
    (hI : I w)
    (hf : (f (w.findUser (.mfaTempToken (criterion env tempToken)))).Holds (exec env) I Q w) :
    (findByMfaTempToken env tempToken >>= f).Holds (exec env) I Q w := ⟨hI, hf⟩

theorem holds_findById_bind (i : UserId) (f : Option User → Iam N β) (hI : I w)
    (hf : (f (w.users.get? i)).Holds (exec env) I Q w) :
    (findById (.uuid i) >>= f).Holds (exec env) I Q w := ⟨hI, hf⟩

theorem holds_save_bind (u : User) (f : Unit → Iam N β) (hI : I w)
    (hf : (f ()).Holds (exec env) I Q (w.saveUser u)) :
    (save u >>= f).Holds (exec env) I Q w := ⟨hI, hf⟩

theorem holds_update_bind (i : UserId) (p : UserPatch) (f : Unit → Iam N β) (hI : I w)
    (hf : (f ()).Holds (exec env) I Q (w.updateUser i p)) :
    (update (.uuid i) p >>= f).Holds (exec env) I Q w := ⟨hI, hf⟩

def lockedAt (t : Time) (lock : Option Time) : Bool := lock.any (t < ·)

theorem lockedAt_some (t l : Time) : lockedAt t (some l) = decide (t < l) := rfl

theorem run_isLocked (lock : Option Time) (w : World) :
    (isLocked lock : Iam N Bool).run (exec env) w = (.ok (lockedAt w.clock lock), w) := by
  cases lock <;> rfl

theorem holds_isLocked_bind (lock : Option Time) (f : Bool → Iam N β) (hI : I w)
    (hf : (f (lockedAt w.clock lock)).Holds (exec env) I Q w) :
    (isLocked lock >>= f).Holds (exec env) I Q w := by
  cases lock with
  | none => exact hf
  | some t => exact ⟨hI, hf⟩

theorem holds_isMfaLocked_bind {u : User} (hu : w.users.get? u.id = some u) (f : Bool → Iam N β)
    (hI : I w) (hf : (f (lockedAt w.clock u.mfaLockedUntil)).Holds (exec env) I Q w) :
    (isMfaLocked (.uuid u.id) >>= f).Holds (exec env) I Q w := by
  rw [isMfaLocked, bind_assoc]
  refine holds_findById_bind u.id _ hI ?_
  rw [hu]
  cases hl : u.mfaLockedUntil with
  | none => simpa [hl, lockedAt] using hf
  | some t =>
    simp only [hl]
    rw [bind_assoc]
    refine holds_now_bind _ hI ?_
    simpa [hl, lockedAt] using hf

theorem holds_compare_bind (data : JsonField N) (hash : String) (f : Bool → Iam N β) (hI : I w)
    (hthrow : (∀ s, data ≠ some (.str s)) → Q (.error .internal) w)
    (hf : ∀ s, data = some (.str s) → (f (env.bcryptCompare s hash)).Holds (exec env) I Q w) :
    (compare data hash >>= f).Holds (exec env) I Q w := by
  rcases data with _ | (_ | _ | _ | s | _ | _)
  case some.str => exact ⟨hI, hf s rfl⟩
  all_goals exact ⟨hI, hthrow (by simp)⟩

theorem holds_orThrow_bind (v : Option α) (f : α → Iam N β) (hI : I w)
    (hthrow : v = none → Q (.error .internal) w)
    (hf : ∀ a, v = some a → (f a).Holds (exec env) I Q w) :
    (orThrow v >>= f).Holds (exec env) I Q w := by
  cases v with
  | none => exact ⟨hI, hthrow rfl⟩
  | some a => exact hf a rfl

theorem holds_decryptSecret_bind (secret : Option String) (f : String → Iam N β) (hI : I w)
    (hthrow : secret.bind env.decrypt = none → Q (.error .internal) w)
    (hf : ∀ s, secret.bind env.decrypt = some s → (f s).Holds (exec env) I Q w) :
    (decryptSecret env secret >>= f).Holds (exec env) I Q w := by
  cases secret with
  | none => exact ⟨hI, hthrow rfl⟩
  | some c => exact holds_orThrow_bind (env.decrypt c) f hI hthrow hf

theorem holds_verifyTotp_bind (secret : String) (code : JsonField N) (f : Bool → Iam N β) (hI : I w)
    (hthrow : env.totpVerify secret code w.clock = none → Q (.error .internal) w)
    (hf : ∀ b, env.totpVerify secret code w.clock = some b → (f b).Holds (exec env) I Q w) :
    (verifyTotp secret code >>= f).Holds (exec env) I Q w := by
  rw [verifyTotp, bind_assoc]
  exact holds_perform_bind _ _ hI (holds_orThrow_bind _ f hI hthrow hf)

theorem holds_requireUser_bind (i : IdParam) (f : User → Iam N β) (hI : I w)
    (hthrow : (∀ u, i = .uuid u.id → w.users.get? u.id ≠ some u) → Q (.error .internal) w)
    (hf : ∀ u, (∀ j, i = .uuid j → j = u.id ∧ w.users.get? u.id = some u) →
      (f u).Holds (exec env) I Q w) :
    (MfaController.requireUser i >>= f).Holds (exec env) I Q w := by
  rw [MfaController.requireUser, bind_assoc]
  cases i with
  | undefined =>
    refine holds_perform_bind _ _ hI (holds_orThrow_bind _ f hI (fun _ => hthrow (by simp)) ?_)
    intro u _
    exact hf u (by simp)
  | invalid => exact ⟨hI, hthrow (by simp)⟩
  | uuid i =>
    refine holds_findById_bind i _ hI (holds_orThrow_bind _ f hI ?_ ?_)
    · intro hnone
      refine hthrow fun u hi => ?_
      cases hi
      rw [hnone]
      simp
    · intro u hu
      have hid := Table.key_of_get? hu
      refine hf u fun j hj => ?_
      cases hj
      exact ⟨hid.symm, hid ▸ hu⟩

/-- The guard throws for a header without a token that verifies. -/
theorem run_guarded_of_unverified {header : Option String}
    (h : ((header.bind env.bearerToken).bind fun s =>
      env.jwtVerify env.jwtAccessSecret s w.clock) = none) (handler : Iam N Reply) :
    (IamEndpoints.guarded env header handler).run (exec env) w =
      (.error (.unauthorized "Unauthorized"), w) := by
  cases hb : header.bind env.bearerToken with
  | none => simp [IamEndpoints.guarded, hb, verifyAccessToken, verifyToken]
  | some s =>
    rw [hb, Option.bind_some] at h
    simp [IamEndpoints.guarded, hb, verifyAccessToken, verifyToken, now, exec, h]

end VerdeAuth.IamRules
