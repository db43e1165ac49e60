import VerdeAuth.RequestEndings

/-!
# Runs of requests

Every handler passes only through the listed row changes. What they all keep
holds of every row in every state of a run, also where a request is cut off.
-/

namespace VerdeAuth.RequestRuns

open JsonTexts KeyedTables IamTables IamOperations ResumptionPrograms UsersService TokenServices
open MfaServices AuthService MfaController IamEndpoints IamRules UserRowChanges RequestEndings

variable {N : Type}

section Quiet

variable {env : Env N}

theorem quiet_log (action : String) (userId : Option UserId) (ip device : String)
    (success : Bool) : Quiet (log env action userId ip device success) :=
  (quietResult_log action userId ip device success).quiet

theorem quiet_refresh (token : JsonField N) (ip device : String) :
    Quiet (refresh env token ip device) := by
  rw [refresh]
  refine (quiet_verifyToken _ token).bind fun payload => ?_
  cases payload with
  | none => exact quiet_throw _
  | some payload =>
    refine (quiet_validateRefreshToken _ token).bind fun valid => ?_
    cases valid with
    | false => exact quiet_throw _
    | true =>
      refine (quiet_findById _).bind fun user => ?_
      cases user with
      | none => exact quiet_throw _
      | some user =>
        simp only
        split
        · refine (quietResult_generateAccessToken user.id user.email).quiet.bind fun a => ?_
          refine (quietResult_generateRefreshToken user.id).quiet.bind fun t => ?_
          refine (quiet_revokeSession _ token).bind fun _ => ?_
          refine (quietResult_createRefreshToken user.id device ip).quiet.bind fun _ => ?_
          exact (quiet_log ..).bind fun _ => quiet_ret _
        · exact quiet_throw _

theorem quiet_logout (token : JsonField N) (userId : IdParam) (ip device : String) :
    Quiet (logout env token userId ip device) :=
  (quiet_revokeSession userId token).bind fun _ => (quiet_log ..).bind fun _ => quiet_ret _

theorem quiet_me (authorization : Option String) : Quiet (me env authorization) := by
  unfold me
  split
  · exact quiet_ret _
  · split
    · refine (quiet_verifyToken _ _).bind fun payload => ?_
      cases payload with
      | none => exact quiet_ret _
      | some payload =>
        refine (quiet_findById _).bind fun user => ?_
        cases user with
        | none => exact quiet_ret _
        | some user => exact quiet_ret _
    · exact quiet_ret _

end Quiet

variable [JsNumber N] [DecidableEq N] {env : Env N} {w : World} {u : User} {r : Request N}

theorem quiet_getStatus (userId : IdParam) : Quiet (getStatus userId : Iam N Reply) := by
  have horThrow : ∀ {α : Type} (v : Option α), Quiet (orThrow v : Iam N α) := by
    intro α v
    cases v with
    | none => exact quiet_throw _
    | some a => exact quiet_ret a
  refine ((quiet_findById userId).bind fun user => horThrow user).bind fun user => ?_
  split
  · exact (horThrow _).bind fun _ => quiet_ret _
  · exact quiet_ret _

/-- At the end exactly the row `finalRow` tells is changed. -/
def Settled (env : Env N) (w : World) (r : Request N) : Except Failure Reply → World → Prop :=
  fun _ w' => w'.users = (finalRow env w r).elim w.users w.users.put

theorem settled_none {res : Except Failure Reply} {w' : World} (h : finalRow env w r = none)
    (hs : SameUsers w w') : Settled env w r res w' := by
  rw [Settled, h]
  exact hs.1

theorem settled_some {res : Except Failure Reply} {w' : World} {u' : User}
    (h : finalRow env w r = some u') (hu : w'.users = w.users.put u') :
    Settled env w r res w' := by
  rw [Settled, h]
  exact hu

/-- The request answers with such a reply exactly when it changes a row. -/
def Tells (env : Env N) (w : World) (r : Request N) (yes : Reply → Prop)
    (res : Except Failure Reply) : Prop :=
  (∃ y, res = .ok y ∧ yes y) ↔ (finalRow env w r).isSome = true

def Answered (env : Env N) (w : World) (r : Request N) (yes : Reply → Prop) :
    Except Failure Reply → World → Prop :=
  fun res w' => Settled env w r res w' ∧ Tells env w r yes res

section Answered

variable {yes : Reply → Prop} {w' : World}

theorem answered_error {e : Failure} (h : finalRow env w r = none) (hs : SameUsers w w') :
    Answered env w r yes (.error e) w' := by
  refine ⟨settled_none h hs, ?_⟩
  simp [Tells, h]

theorem answered_no {y : Reply} (h : finalRow env w r = none) (hs : SameUsers w w')
    (hy : ¬ yes y) : Answered env w r yes (.ok y) w' := by
  refine ⟨settled_none h hs, ?_⟩
  simpa [Tells, h] using hy

theorem answered_yes {y : Reply} {u' : User} (h : finalRow env w r = some u')
    (hu : w'.users = w.users.put u') (hy : yes y) : Answered env w r yes (.ok y) w' := by
  refine ⟨settled_some h hu, ?_⟩
  simpa [Tells, h] using hy

end Answered

/-- The rule of handlers that write no user row. -/
theorem holds_of_quiet {p : Iam N Reply} (hp : Quiet p) (hr : finalRow env w r = none) :
    p.Holds (exec env) (Visited env w r) (Settled env w r) w :=
  hp.holds (fun _ hs => visited_sameUsers hs) fun _ _ hs => settled_none hr hs

theorem holds_guarded {handler : Iam N Reply} {f : User → Option User}
    {Q : Except Failure Reply → World → Prop} (hfinal : finalRow env w r = guardedRow env w r f)
    (herror : ∀ e, finalRow env w r = none → Q (.error e) w)
    (h : Authorized env w r → finalRow env w r = (addressed w r).bind f →
      handler.Holds (exec env) (Visited env w r) Q w) :
    (guarded env r.authorization handler).Holds (exec env) (Visited env w r) Q w := by
  have hsame : Visited env w r w := visited_sameUsers (.refl w)
  have hcase : ∀ token, r.authorization.bind env.bearerToken = token →
      bearerPayload env w r = token.bind fun s => env.jwtVerify env.jwtAccessSecret s w.clock := by
    rintro _ rfl
    rfl
  rw [guarded]
  cases hb : r.authorization.bind env.bearerToken with
  | none =>
    have hp : bearerPayload env w r = none := hcase none hb
    exact ⟨hsame, herror _ (by simp [hfinal, guardedRow, hp])⟩
  | some s =>
    have hp := hcase (some s) hb
    rw [Option.bind_some] at hp
    rw [Option.map_some, verifyAccessToken, verifyToken, bind_assoc]
    refine holds_now_bind _ hsame ?_
    cases hv : env.jwtVerify env.jwtAccessSecret s w.clock with
    | none => exact ⟨hsame, herror _ (by simp [hfinal, guardedRow, hp, hv])⟩
    | some payload =>
      have hauth : Authorized env w r := by rw [Authorized, hp, hv]; rfl
      exact h hauth (by simp [hfinal, guardedRow, hp, hv])

/-- The row a handler read is the one the header names, where it names one. -/
def Reads (w : World) (r : Request N) (u : User) : Prop :=
  ∀ j, r.userId = .uuid j → j = u.id ∧ w.users.get? u.id = some u

omit [JsNumber N] [DecidableEq N] in
theorem addressed_of_reads (h : Reads w r u) : addressed w r = none ∨ Addressed w r u := by
  unfold addressed
  cases hi : r.userId with
  | uuid i =>
    obtain ⟨rfl, hu⟩ := h i hi
    exact Or.inr ⟨hi, hu⟩
  | _ => exact Or.inl rfl

variable {f : User → Option User}

theorem finalRow_none (hfinal : finalRow env w r = (addressed w r).bind f) (h : Reads w r u)
    (hf : f u = none) : finalRow env w r = none := by
  rcases addressed_of_reads h with hnone | haddr
  · rw [hfinal, hnone]
    rfl
  · rw [hfinal, addressed_eq_some.mpr haddr]
    exact hf

section Updates

variable {yes : Reply → Prop}

/-- An update of the row the header names, at a handler's end. -/
theorem holds_updateAddressed {p : UserPatch} {w' : World} {reply : Reply}
    (hfinal : finalRow env w r = (addressed w r).bind f) (h : Reads w r u)
    (hf : f u = some (p.apply u)) (hchange : Addressed w r u → RowChange env w r u (p.apply u))
    (hs : SameUsers w w') (hy : yes reply) :
    (update r.userId p >>= fun _ => .ret reply).Holds (exec env) (Visited env w r)
      (Answered env w r yes) w' := by
  have hsame : Visited env w r w' := visited_sameUsers hs
  cases hi : r.userId with
  | uuid i =>
    obtain ⟨rfl, hu⟩ := h i hi
    have haddr : Addressed w r u := ⟨hi, hu⟩
    have hu' : w'.users.get? u.id = some u := by rw [hs.1, hu]
    have hput : (w'.updateUser u.id p).users = w.users.put (p.apply u) := by
      rw [users_update hu' p, hs.1]
    refine holds_update_bind _ _ _ hsame ⟨visited_put (hchange haddr) hs.2 hput, ?_⟩
    refine answered_yes ?_ hput hy
    rw [hfinal, addressed_eq_some.mpr haddr]
    exact hf
  | undefined =>
    refine ⟨hsame, answered_error ?_ hs⟩
    simp [hfinal, addressed, hi]
  | invalid =>
    refine ⟨hsame, answered_error ?_ hs⟩
    simp [hfinal, addressed, hi]

/-- The row required by the header, in a handler whose end is told by `f`. -/
theorem holds_require {g : User → Iam N Reply}
    (hfinal : finalRow env w r = (addressed w r).bind f)
    (hg : ∀ u, Reads w r u →
      (g u).Holds (exec env) (Visited env w r) (Answered env w r yes) w) :
    (requireUser r.userId >>= g).Holds (exec env) (Visited env w r) (Answered env w r yes) w := by
  refine holds_requireUser_bind r.userId g (visited_sameUsers (.refl w)) (fun hnone => ?_) hg
  refine answered_error ?_ (.refl w)
  have haddr : addressed w r = none := by
    cases ha : addressed w r with
    | none => rfl
    | some u =>
      have haddr := addressed_eq_some.mp ha
      exact absurd haddr.row (hnone u haddr.header)
  rw [hfinal, haddr]
  rfl

end Updates

theorem holds_setup (hr : r.route = .setup) :
    (handle env r).Holds (exec env) (Visited env w r)
      (Answered env w r fun y => ∃ secret uri qr, y = .setup secret uri qr) w := by
  have hfinal : finalRow env w r = (addressed w r).bind fun u => some (setupRow env w u) := by
    rw [finalRow, hr]
  have hsame : ∀ w', SameUsers w w' → Visited env w r w' := fun w' hs => visited_sameUsers hs
  simp only [handle, hr]
  rw [setup]
  refine holds_require hfinal fun u hreads => ?_
  rw [generateSetupResponse, bind_assoc]
  refine holds_draw_bind _ (hsame w (.refl w)) ?_
  refine holds_encrypt_bind _ _ (hsame _ ⟨rfl, rfl⟩) ?_
  exact holds_updateAddressed hfinal hreads rfl (.secretSet hr) ⟨rfl, rfl⟩ ⟨_, _, _, rfl⟩

theorem holds_verifySetup {code : JsonField N} (hr : r.route = .verifySetup code) :
    (handle env r).Holds (exec env) (Visited env w r)
      (Answered env w r fun y => ∃ codes, y = .backupCodes codes) w := by
  have hsame : ∀ w', SameUsers w w' → Visited env w r w' := fun w' hs => visited_sameUsers hs
  simp only [handle, hr]
  refine holds_guarded (by simp only [finalRow, hr]; rfl)
    (fun _ hnone => answered_error hnone (.refl w)) fun ha hfinal => ?_
  rw [verifySetup]
  refine holds_require hfinal fun u hreads => ?_
  have hrefused : totpResult env w.clock u.mfaSecret code ≠ some true →
      finalRow env w r = none := fun hne => finalRow_none hfinal hreads (if_neg hne)
  refine holds_decryptSecret_bind _ _ (hsame w (.refl w)) (fun hd => ?_) fun s hs => ?_
  · exact answered_error (hrefused (by simp [totpResult, hd])) (.refl w)
  · refine holds_verifyTotp_bind s code _ (hsame w (.refl w)) (fun hv => ?_) fun b hb => ?_
    · exact answered_error (hrefused (by simp [totpResult, hs, hv])) (.refl w)
    · have hresult : totpResult env w.clock u.mfaSecret code = some b := by
        simp [totpResult, hs, hb]
      cases b with
      | false =>
        have hnone := hrefused (by simp [hresult])
        exact ⟨hsame w (.refl w), answered_no hnone (.refl w) (by simp)⟩
      | true =>
        refine holds_generateCodes_bind codeCount _ (fun k => hsame _ ⟨rfl, rfl⟩) ?_
        refine holds_encrypt_bind _ _ (hsame _ ⟨rfl, rfl⟩) ?_
        exact holds_updateAddressed hfinal hreads (if_pos hresult)
          (fun haddr => .mfaEnabled hr ha haddr hresult) ⟨rfl, rfl⟩ ⟨_, rfl⟩

theorem holds_disable {password code : JsonField N} (hr : r.route = .disable password code) :
    (handle env r).Holds (exec env) (Visited env w r)
      (Answered env w r fun y => y = .done) w := by
  have hsame : Visited env w r w := visited_sameUsers (.refl w)
  simp only [handle, hr]
  refine holds_guarded (by simp only [finalRow, hr]; rfl)
    (fun _ hnone => answered_error hnone (.refl w)) fun ha hfinal => ?_
  rw [disable]
  refine holds_require hfinal fun u hreads => ?_
  refine holds_compare_bind password _ _ hsame (fun hp => ?_) fun p hp => ?_
  · refine answered_error (finalRow_none hfinal hreads ?_) (.refl w)
    unfold disabledRow
    split
    · next s => exact absurd rfl (hp s)
    · rfl
  subst hp
  have hrefused : (env.bcryptCompare p u.passwordHash &&
      totpResult env w.clock u.mfaSecret code = some true) = false → finalRow env w r = none :=
    fun hne => finalRow_none hfinal hreads (by simp [disabledRow, hne])
  cases hc : env.bcryptCompare p u.passwordHash with
  | false => exact ⟨hsame, answered_no (hrefused (by simp [hc])) (.refl w) (by simp)⟩
  | true =>
    refine holds_decryptSecret_bind _ _ hsame (fun hd => ?_) fun s hs => ?_
    · exact answered_error (hrefused (by simp [totpResult, hd])) (.refl w)
    · refine holds_verifyTotp_bind s code _ hsame (fun hv => ?_) fun b hb => ?_
      · exact answered_error (hrefused (by simp [totpResult, hs, hv])) (.refl w)
      · have hresult : totpResult env w.clock u.mfaSecret code = some b := by
          simp [totpResult, hs, hb]
        cases b with
        | false =>
          exact ⟨hsame, answered_no (hrefused (by simp [hresult])) (.refl w) (by simp)⟩
        | true =>
          exact holds_updateAddressed hfinal hreads (if_pos (by simp [hc, hresult]))
            (fun haddr => .mfaDisabled hr ha haddr rfl hc hresult) (.refl w) rfl

theorem holds_enableBiometric {device : JsonField N} (hr : r.route = .enableBiometric device) :
    (handle env r).Holds (exec env) (Visited env w r)
      (Answered env w r fun y => ∃ text, y = .message true text) w := by
  simp only [handle, hr]
  refine holds_guarded (by simp only [finalRow, hr]; rfl)
    (fun _ hnone => answered_error hnone (.refl w)) fun ha hfinal => ?_
  rw [MfaController.enableBiometric]
  refine holds_require hfinal fun u hreads => ?_
  cases hm : u.mfaEnabled with
  | false =>
    have hnone : finalRow env w r = none := finalRow_none hfinal hreads (by simp [hm])
    exact ⟨visited_sameUsers (.refl w), answered_no hnone (.refl w) (by simp)⟩
  | true =>
    exact holds_updateAddressed hfinal hreads (if_pos hm)
      (fun haddr => .biometricEnabled hr ha haddr hm) (.refl w) ⟨_, rfl⟩

theorem holds_disableBiometric (hr : r.route = .disableBiometric) (ha : Authorized env w r)
    (hfinal : finalRow env w r = (addressed w r).bind fun u => some (biometricDisabled u)) :
    (MfaController.disableBiometric r.userId : Iam N Reply).Holds (exec env) (Visited env w r)
      (Settled env w r) w := by
  have hsame : Visited env w r w := visited_sameUsers (.refl w)
  have hnone : addressed w r = none → finalRow env w r = none := by
    intro hnone
    rw [hfinal, hnone]
    rfl
  rw [MfaController.disableBiometric]
  cases hi : r.userId with
  | undefined => exact ⟨hsame, settled_none (hnone (by simp [addressed, hi])) (.refl w)⟩
  | invalid => exact ⟨hsame, settled_none (hnone (by simp [addressed, hi])) (.refl w)⟩
  | uuid i =>
    cases hu : w.users.get? i with
    | none =>
      -- the statement then touches no row
      have husers : ∀ p : UserPatch, (w.updateUser i p).users = w.users := fun p =>
        Table.modify_of_none p.apply_id hu
      have haddr : addressed w r = none := by simp [addressed, hi, hu]
      have hkept : ∀ p : UserPatch, SameUsers w (w.updateUser i p) := fun p => ⟨husers p, rfl⟩
      exact holds_update_bind _ _ _ hsame
        ⟨visited_sameUsers (hkept _), settled_none (hnone haddr) (hkept _)⟩
    | some u =>
      obtain rfl := Table.key_of_get? hu
      have haddr : Addressed w r u := ⟨hi, hu⟩
      have hchange : RowChange env w r u (biometricDisabled u) := .biometricDisabled hr ha haddr
      refine holds_update_bind _ _ _ hsame ⟨visited_put hchange rfl (users_update hu _), ?_⟩
      refine settled_some ?_ (users_update hu _)
      rw [hfinal, addressed_eq_some.mpr haddr]
      rfl

theorem holds_adminUpdate {email : JsonField N} {p : UserPatch} {done : String}
    (hfinal : finalRow env w r = (w.findUser (.email (criterion env email))).map p.apply)
    (hchange : ∀ u, w.findUser (.email (criterion env email)) = some u →
      RowChange env w r u (p.apply u)) :
    (adminUpdate env email p done).Holds (exec env) (Visited env w r) (Settled env w r) w := by
  have hsame : Visited env w r w := visited_sameUsers (.refl w)
  rw [adminUpdate]
  refine holds_findByEmail_bind email _ hsame ?_
  cases hu : w.findUser (.email (criterion env email)) with
  | none => exact ⟨hsame, settled_none (by simp [hfinal, hu]) (.refl w)⟩
  | some u =>
    have husers : (w.updateUser u.id p).users = w.users.put (p.apply u) :=
      users_update (get?_of_findUser hu) p
    have hput : Visited env w r (w.updateUser u.id p) := visited_put (hchange u hu) rfl husers
    have hsettled : ∀ res, Settled env w r res (w.updateUser u.id p) := fun _ =>
      settled_some (by simp [hfinal, hu]) husers
    exact holds_update_bind _ _ _ hsame
      (holds_orThrow_bind _ _ hput (fun _ => hsettled _) fun text _ => ⟨hput, hsettled _⟩)

theorem settled_of_login {dto : LoginDto N} (hr : r.route = .login dto)
    {res : Except Failure Reply} {w' : World} (h : LoginEnding env w dto res w') :
    Settled env w r res w' := by
  have hfinal : finalRow env w r = loginRow env w dto := by rw [finalRow, hr]
  have hchecked : ∀ {valid u}, LoginChecked env w dto valid u → loginRow env w dto =
      some (if valid then (if u.mfaEnabled then pendingRow env w u else attemptsReset u)
        else attemptFailed w.clock u) := by
    intro valid u h
    obtain ⟨s, hs, hc⟩ := h.password
    cases valid <;> simp [loginRow, h.selected, h.unlocked, hs, hc]
  cases h with
  | unknown hu hw => exact settled_none (by simp [hfinal, loginRow, hu]) hw
  | locked hu hl hw => exact settled_none (by simp [hfinal, loginRow, hu, hl]) hw
  | @broken u w' hu hp hw =>
    refine settled_none ?_ hw
    rw [hfinal, loginRow, hu, Option.bind_some]
    split
    · rfl
    · split
      · next s hs => exact absurd hs (hp s)
      · rfl
  | refused h hw => exact settled_some (by simp [hfinal, hchecked h]) hw
  | pending h hm hw => exact settled_some (by simp [hfinal, hchecked h, hm]) hw
  | session t h hm hw ht => exact settled_some (by simp [hfinal, hchecked h, hm]) hw

theorem finalRow_of_presented {tempToken : JsonField N}
    (hp : presented r.route = some tempToken) :
    finalRow env w r = factorRow env w r.route tempToken := by
  rw [finalRow]
  cases hr : r.route <;> simp [hr, presented] at hp <;> rw [← hp]

theorem finalRow_of_checked {valid : Bool} (h : FactorChecked env w r.route valid u) :
    finalRow env w r = some (if valid then
      tempTokenCleared w.clock (factorWritten env w r.route u)
    else mfaAttemptFailed w.clock u) := by
  obtain ⟨tempToken, hp, hs⟩ := h.selected
  have hfresh : ¬ u.mfaTempTokenExpires.getD 0 < w.clock := Nat.not_lt.mpr h.fresh
  rw [finalRow_of_presented hp]
  cases valid <;> simp [factorRow, hs, hfresh, h.unlocked, h.factor]

theorem settled_of_factor {tempToken : JsonField N} (hp : presented r.route = some tempToken)
    {res : Except Failure Reply} {w' : World} (h : FactorEnding env w r.route res w') :
    Settled env w r res w' := by
  cases h with
  | rejected text hu hw =>
    refine settled_none ?_ hw
    rw [finalRow_of_presented hp, factorRow]
    cases hs : w.findUser (.mfaTempToken (criterion env tempToken)) with
    | none => rfl
    | some u =>
      rw [Option.bind_some]
      split
      · rfl
      · next hfresh =>
        have hl := hu u ⟨tempToken, hp, hs⟩ (Nat.le_of_not_lt hfresh)
        rw [if_pos hl]
  | broken hu hf hw =>
    obtain ⟨token, htoken, hs⟩ := hu
    refine settled_none ?_ hw
    simp [finalRow_of_presented htoken, factorRow, hs, hf]
  | refused text h hw => exact settled_some (finalRow_of_checked h) hw
  | accepted t h hw ht => exact settled_some (finalRow_of_checked h) hw

/-- Every request, whatever it answers. -/
theorem handle_holds (env : Env N) (w : World) (r : Request N) :
    (handle env r).Holds (exec env) (Visited env w r) (Settled env w r) w := by
  have hfactor : ∀ {t : JsonField N}, presented r.route = some t →
      (handle env r).Holds (exec env) (Visited env w r) (Settled env w r) w :=
    fun hp => (holds_factor hp).mono fun _ _ h => settled_of_factor hp h
  have hanswered : ∀ {yes : Reply → Prop},
      (handle env r).Holds (exec env) (Visited env w r) (Answered env w r yes) w →
      (handle env r).Holds (exec env) (Visited env w r) (Settled env w r) w :=
    fun h => h.mono fun _ _ h => h.1
  have herror : ∀ e : Failure, finalRow env w r = none → Settled env w r (.error e) w :=
    fun _ hnone => settled_none hnone (.refl w)
  cases hr : r.route with
  | login dto =>
    simp only [handle, hr]
    exact (holds_login hr r.ip r.device).mono fun _ _ h => settled_of_login hr h
  | refresh t =>
    simp only [handle, hr]
    exact holds_of_quiet (quiet_refresh t r.ip r.device) (by simp [finalRow, hr])
  | logout t =>
    simp only [handle, hr]
    exact holds_of_quiet (quiet_logout t r.userId r.ip r.device) (by simp [finalRow, hr])
  | verifyToken t =>
    have hquiet : Quiet (AuthService.verify env t) :=
      (quiet_verifyToken _ _).bind fun _ => quiet_ret _
    simp only [handle, hr]
    exact holds_of_quiet hquiet (by simp [finalRow, hr])
  | me =>
    simp only [handle, hr]
    exact holds_of_quiet (quiet_me r.authorization) (by simp [finalRow, hr])
  | setup => exact hanswered (holds_setup hr)
  | verifySetup code => exact hanswered (holds_verifySetup hr)
  | disable password code => exact hanswered (holds_disable hr)
  | status =>
    have hnone : finalRow env w r = guardedRow env w r fun _ => none := by
      simp [finalRow, hr, guardedRow]
    simp only [handle, hr]
    exact holds_guarded hnone herror fun _ _ =>
      holds_of_quiet (quiet_getStatus r.userId) (by simp [finalRow, hr])
  | enableBiometric device => exact hanswered (holds_enableBiometric hr)
  | disableBiometric =>
    simp only [handle, hr]
    exact holds_guarded (by simp only [finalRow, hr]) herror
      fun ha hfinal => holds_disableBiometric hr ha hfinal
  | unlockUser email =>
    simp only [handle, hr]
    exact holds_adminUpdate (by simp [finalRow, hr]) fun u hu => .unlocked hr hu
  | resetUser email =>
    simp only [handle, hr]
    exact holds_adminUpdate (by simp [finalRow, hr]) fun u hu => .reset hr hu
  | verify t code => exact hfactor (hr ▸ rfl : presented r.route = some t)
  | verifyBackup t code => exact hfactor (hr ▸ rfl : presented r.route = some t)
  | verifyBiometric t device => exact hfactor (hr ▸ rfl : presented r.route = some t)

/-- What a request leaves behind when it is cut off after some operations. -/
def serveCut (env : Env N) (t : Time) (r : Request N) (n : ℕ) (w : World) : World :=
  (handle env r).stateAfter (exec env) n { w with clock := t }

theorem serve_visited (env : Env N) (t : Time) (r : Request N) (w : World) :
    Visited env { w with clock := t } r (serve env t r w).2 :=
  (handle_holds env { w with clock := t } r).run_state

/-- What a request leaves of the users. -/
theorem serve_users (env : Env N) (t : Time) (r : Request N) (w : World) :
    (serve env t r w).2.users =
      (finalRow env { w with clock := t } r).elim w.users w.users.put :=
  (handle_holds env { w with clock := t } r).final

/-- A row after a request was there before, or the request changed it. -/
theorem row_of_serve {q : Timed N} {u' : User} (hu' : u' ∈ (serve env q.1 q.2 w).2.users.rows) :
    u' ∈ w.users.rows ∨ ∃ u, RowChange env { w with clock := q.1 } q.2 u u' ∧
      (serve env q.1 q.2 w).2.users = w.users.put u' := by
  obtain ⟨-, hsame | ⟨u, v, hchange, hput⟩⟩ := serve_visited env q.1 q.2 w
  · rw [hsame] at hu'
    exact Or.inl hu'
  · have hmem := hu'
    rw [hput] at hmem
    rcases Table.mem_put hmem with rfl | ⟨hmem, -⟩
    · exact Or.inr ⟨u, hchange, hput⟩
    · exact Or.inl hmem

/-- The row with an id stays, or the request changed it. -/
theorem get?_of_serve (env : Env N) (w : World) (q : Timed N) (i : UserId) :
    (serve env q.1 q.2 w).2.users.get? i = w.users.get? i ∨
      ∃ u u', RowChange env { w with clock := q.1 } q.2 u u' ∧ w.users.get? i = some u ∧
        (serve env q.1 q.2 w).2.users.get? i = some u' := by
  obtain ⟨-, hsame | ⟨u, u', hchange, hput⟩⟩ := serve_visited env q.1 q.2 w
  · left
    rw [hsame]
  · rw [hput]
    by_cases hi : i = u'.id
    · subst hi
      refine Or.inr ⟨u, u', hchange, ?_, Table.get?_put_self w.users u'⟩
      rw [hchange.id_eq]
      exact hchange.row
    · exact Or.inl (Table.get?_put_of_ne w.users u' hi)

theorem serveCut_visited (env : Env N) (t : Time) (r : Request N) (n : ℕ) (w : World) :
    Visited env { w with clock := t } r (serveCut env t r n w) :=
  (handle_holds env { w with clock := t } r).stateAfter n

theorem serveAll_append (env : Env N) (w : World) (rs rs' : List (Timed N)) :
    serveAll env w (rs ++ rs') = serveAll env (serveAll env w rs) rs' := by
  simp only [serveAll, List.foldl_append]

/-- Every row has the property. -/
def AllRows (P : User → Prop) (w : World) : Prop := ∀ u ∈ w.users.rows, P u

section Rows

variable {P : User → Prop}

theorem allRows_of_visited {w' : World} (hP : ∀ u u', RowChange env w r u u' → P u → P u')
    (h : Visited env w r w') (hw : AllRows P w) : AllRows P w' := by
  obtain ⟨-, hsame | ⟨u, u', hchange, hput⟩⟩ := h
  · rw [AllRows, hsame]
    exact hw
  · intro v hv
    rw [hput] at hv
    rcases Table.mem_put hv with rfl | ⟨hv, -⟩
    · exact hP u v hchange (hw u (Table.mem_rows_of_get? hchange.row))
    · exact hw v hv

/-- A property of rows that every change keeps holds of all rows after a run. -/
theorem serveAll_allRows (hP : ∀ w r u u', RowChange env w r u u' → P u → P u')
    (hw : AllRows P w) (rs : List (Timed N)) : AllRows P (serveAll env w rs) := by
  induction rs generalizing w with
  | nil => exact hw
  | cons r rs ih =>
    have hstep : AllRows P { w with clock := r.1 } := hw
    exact ih (allRows_of_visited (hP _ _) (serve_visited env r.1 r.2 w) hstep)

end Rows

end VerdeAuth.RequestRuns
