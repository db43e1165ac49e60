import VerdeAuth.IamAssumptions
import VerdeAuth.RequestFootprints

/-!
# Guarded endpoints and the account they act on

The guard authenticates the token's subject, the handlers act on the header's
user. Which requests to a guarded endpoint leave another user alone: no change
of the row, and no reply that depends on it.
-/

namespace VerdeAuth.CallerIsolation

open JsonTexts KeyedTables IamTables IamOperations ResumptionPrograms UsersService TokenServices
open MfaServices AuthService MfaController IamEndpoints IamRules IamAssumptions UserRowChanges
open RequestEndings RequestRuns RequestFootprints

/-- Two states that differ at most in the row of one user. -/
structure AgreeExcept (b : UserId) (w w' : World) : Prop where
  keys : w'.users.rows.map User.id = w.users.rows.map User.id
  rows : ∀ i, i ≠ b → w'.users.get? i = w.users.get? i
  rest : w' = { w with users := w'.users }

theorem agreeExcept_saveUser {w : World} {u v : User} (hu : w.users.get? v.id = some u) :
    AgreeExcept v.id w (w.saveUser v) where
  keys := by
    have hmem : v.id ∈ w.users.rows.map User.id :=
      Table.key_of_get? hu ▸ List.mem_map_of_mem (Table.mem_rows_of_get? hu)
    exact (Table.keys_put w.users v).trans (if_pos hmem)
  rows i hi := Table.get?_put_of_ne w.users v hi
  rest := rfl

theorem head_eq_get? {ks : List UserId} {w : World} (hk : w.users.rows.map User.id = ks) :
    w.users.rows.head? = ks.head?.bind w.users.get? := by
  subst hk
  cases h : w.users.rows with
  | nil => rfl
  | cons u us =>
    have hu : w.users.get? u.id = some u := Table.get?_of_mem (by simp [h])
    simp [hu]

theorem findUser_none (w : World) : w.findUser (.id none) = w.users.rows.head? :=
  Table.findOne_true w.users

theorem agreeExcept_updateUser {b : UserId} {w w' : World} (h : AgreeExcept b w w') (i : UserId)
    (p : UserPatch) : AgreeExcept b (w.updateUser i p) (w'.updateUser i p) where
  keys := by
    have hkeys : ∀ w : World, (w.updateUser i p).users.rows.map User.id =
        w.users.rows.map User.id := fun w => Table.keys_modify w.users i p.apply p.apply_id
    rw [hkeys, hkeys, h.keys]
  rows j hj := by
    by_cases hji : j = i
    · subst hji
      have hget : ∀ w : World, (w.updateUser j p).users.get? j = (w.users.get? j).map p.apply :=
        fun w => Table.get?_modify_self w.users j p.apply p.apply_id
      rw [hget, hget, h.rows j hj]
    · have hget : ∀ w : World, (w.updateUser i p).users.get? j = w.users.get? j :=
        fun w => Table.get?_modify_of_ne w.users hji p.apply p.apply_id
      rw [hget, hget, h.rows j hj]
  rest := by
    rw [h.rest]
    rfl

variable {N : Type} {env : Env N} {b : UserId} {ks : List UserId}

/-- Operations that do not look at the row of `b`, where `ks` are the keys. -/
def Unseen (ks : List UserId) (b : UserId) : Op N → Prop
  | .findUser (.id (some i)) => i ≠ b
  | .findUser (.id none) => ks.head? ≠ some b
  | .updateUser _ _ => True
  | .now => True
  | .draw => True
  | .bcryptCompare _ _ => True
  | .totpVerify _ _ => True
  | _ => False

/-- The unwinding relation. -/
def Alike (ks : List UserId) (b : UserId) (w w' : World) : Prop :=
  w.users.rows.map User.id = ks ∧ AgreeExcept b w w'

theorem alike_exec {o : Op N} {w w' : World} (ho : Unseen ks b o) (h : Alike ks b w w') :
    (exec env o w).1 = (exec env o w').1 ∧ Alike ks b (exec env o w).2 (exec env o w').2 := by
  obtain ⟨hk, ha⟩ := h
  cases o with
  | findUser c =>
    refine ⟨?_, hk, ha⟩
    rcases c with (_ | i) | _ | _
    · have hk' : w'.users.rows.map User.id = ks := ha.keys.trans hk
      change w.findUser (.id none) = w'.findUser (.id none)
      rw [findUser_none, findUser_none, head_eq_get? hk, head_eq_get? hk']
      cases hh : ks.head? with
      | none => rfl
      | some i => exact (ha.rows i fun he => ho (he ▸ hh)).symm
    · exact (ha.rows i ho).symm
    · cases ho
    · cases ho
  | updateUser i p =>
    refine ⟨rfl, ?_, agreeExcept_updateUser ha i p⟩
    exact (Table.keys_modify w.users i p.apply p.apply_id).trans hk
  | now =>
    have hclock : w'.clock = w.clock := by rw [ha.rest]
    exact ⟨hclock.symm, hk, ha⟩
  | draw =>
    have hdrawn : w'.drawn = w.drawn := by rw [ha.rest]
    refine ⟨hdrawn.symm, hk, ha.keys, ha.rows, ?_⟩
    change { w' with drawn := w'.drawn + 1 } = _
    rw [ha.rest]
    rfl
  | bcryptCompare s hash => exact ⟨rfl, hk, ha⟩
  | totpVerify s code =>
    have hclock : w'.clock = w.clock := by rw [ha.rest]
    refine ⟨?_, hk, ha⟩
    change env.totpVerify s code w.clock = env.totpVerify s code w'.clock
    rw [hclock]
  | _ => cases ho

/-- A program that does not look at the row of `b`. -/
def Blind (ks : List UserId) (b : UserId) {α : Type} (p : Iam N α) : Prop :=
  Prog.Every (Unseen ks b) (fun _ => True) p

/-- The header names neither the row of `b` nor, by its absence, the first row
where that is the row of `b`. -/
def Elsewhere (ks : List UserId) (b : UserId) : IdParam → Prop
  | .undefined => ks.head? ≠ some b
  | .invalid => True
  | .uuid i => i ≠ b

theorem blind_of_headerOnly {α : Type} {i : IdParam} {p : Iam N α} (h : Elsewhere ks b i)
    (hp : HeaderOnly i p) : Blind ks b p := by
  refine Prog.Every.mono hp (fun o ho => ?_) fun _ _ => trivial
  cases o with
  | findUser c =>
    rcases c with (_ | j) | _ | _
    · subst ho
      exact h
    · subst ho
      exact h
    · cases ho
    · cases ho
  | updateUser j p => trivial
  | now => trivial
  | draw => trivial
  | bcryptCompare s hash => trivial
  | totpVerify s code => trivial
  | _ => cases ho

/-- An update looks at no row, whichever it changes. -/
theorem blind_disableBiometric (i : IdParam) :
    Blind ks b (MfaController.disableBiometric i : Iam N Reply) := by
  cases i with
  | uuid j => exact ⟨trivial, fun _ => trivial⟩
  | _ => exact trivial

variable [JsNumber N] [DecidableEq N]

theorem blind_handle {r : Request N} (hr : GuardedRoute r.route)
    (h : Elsewhere ks b r.userId ∨ r.route = .disableBiometric) : Blind ks b (handle env r) := by
  by_cases hroute : r.route = .disableBiometric
  · have hverify : Blind ks b (verifyAccessToken env
        ((r.authorization.bind env.bearerToken).map Json.str)) := by
      cases r.authorization.bind env.bearerToken with
      | none => exact trivial
      | some s => exact ⟨trivial, fun _ => trivial⟩
    rw [handle, hroute, guarded]
    refine Prog.Every.seq hverify fun payload => ?_
    cases payload with
    | none => exact trivial
    | some payload => exact blind_disableBiometric r.userId
  · exact blind_of_headerOnly (h.resolve_right hroute) (headerOnly_handle hr)

/-- The user is left alone: the row stays and the reply does not depend on it. -/
def Isolated (env : Env N) (t : Time) (w : World) (r : Request N) (b : UserId) : Prop :=
  (serve env t r w).2.users.get? b = w.users.get? b ∧
    ∀ w', AgreeExcept b w w' → (serve env t r w').1 = (serve env t r w).1

/-- The row the header leads to; without a header, the first. -/
def subject (w : World) : IdParam → Option User
  | .undefined => w.users.rows.head?
  | .invalid => none
  | .uuid i => w.users.get? i

/-- The requests to guarded endpoints that act on the user, whoever the token is
made out to. -/
inductive ActsOn (env : Env N) (w : World) (r : Request N) (u : User) : Prop
  | verifySetup {code} (hr : r.route = .verifySetup code) (hs : subject w r.userId = some u)
      (hc : ∃ secret result, env.totpVerify secret code w.clock = some result) : ActsOn env w r u
  | disable {password : String} {code} (hr : r.route = .disable (some (.str password)) code)
      (hs : subject w r.userId = some u) : ActsOn env w r u
  | status (hr : r.route = .status) (hs : subject w r.userId = some u) : ActsOn env w r u
  | enableBiometric {device} (hr : r.route = .enableBiometric device)
      (hs : subject w r.userId = some u) : ActsOn env w r u
  | disableBiometric (hr : r.route = .disableBiometric) (hu : Addressed w r u)
      (hne : biometricDisabled u ≠ u) : ActsOn env w r u

section Replies

variable {w : World} {r : Request N} {u v : User} {t : Time} {payload : JwtPayload}

omit [JsNumber N] [DecidableEq N] in
theorem run_requireUser_bind {i : IdParam} (h : subject w i = some u) (g : User → Iam N Reply) :
    (requireUser i >>= g).run (exec env) w = (g u).run (exec env) w := by
  cases i with
  | undefined =>
    have hfind : w.findUser (.id none) = some u := (findUser_none w).trans h
    simp [requireUser, findById, orThrow, exec, hfind]
  | invalid => cases h
  | uuid i =>
    have hfind : w.findUser (.id (some i)) = some u := h
    simp [requireUser, findById, orThrow, exec, hfind]

omit [JsNumber N] [DecidableEq N] in
theorem run_guarded (hp : bearerPayload env w r = some payload) (handler : Iam N Reply) :
    (guarded env r.authorization handler).run (exec env) w = handler.run (exec env) w := by
  rw [bearerPayload] at hp
  cases hb : r.authorization.bind env.bearerToken with
  | none =>
    rw [hb] at hp
    cases hp
  | some s =>
    rw [hb, Option.bind_some] at hp
    simp [guarded, verifyAccessToken, verifyToken, now, exec, hb, hp]

omit [JsNumber N] [DecidableEq N] in
theorem subject_saveUser {i : IdParam} (hu : w.users.get? u.id = some u)
    (hs : subject w i = some u) (hv : v.id = u.id) : subject (w.saveUser v) i = some v := by
  have hput : (w.saveUser v).users.get? v.id = some v := Table.get?_put_self w.users v
  have hkeys : (w.saveUser v).users.rows.map User.id = w.users.rows.map User.id :=
    (agreeExcept_saveUser (hv ▸ hu)).keys
  cases i with
  | undefined =>
    have hhead : (w.users.rows.map User.id).head? = some v.id := by
      rw [List.head?_map, hv]
      exact congrArg (Option.map User.id) hs
    rw [subject, head_eq_get? hkeys, hhead]
    exact hput
  | invalid => cases hs
  | uuid i =>
    have hi : u.id = i := Table.key_of_get? hs
    rw [subject, ← hi, ← hv]
    exact hput

/-- The reply where the row of the user is `v`. -/
def replyWith (env : Env N) (t : Time) (w : World) (r : Request N) (v : User) :
    Except Failure Reply := (serve env t r (w.saveUser v)).1

/-- A guarded handler that starts from the row of its subject. -/
theorem replyWith_of_handler {g : User → Iam N Reply}
    (hp : bearerPayload env { w with clock := t } r = some payload)
    (hg : handle env r = guarded env r.authorization (requireUser r.userId >>= g))
    (hu : w.users.get? u.id = some u) (hs : subject w r.userId = some u) (hv : v.id = u.id) :
    replyWith env t w r v = ((g v).run (exec env) { w.saveUser v with clock := t }).1 := by
  have hp' : bearerPayload env { w.saveUser v with clock := t } r = some payload := hp
  have hs' : subject { w.saveUser v with clock := t } r.userId = some v :=
    subject_saveUser hu hs hv
  rw [replyWith, serve, hg, run_guarded hp', run_requireUser_bind hs']

/-- Where the user is left alone, the handler answers alike for every row. -/
theorem runs_agree {g : User → Iam N Reply}
    (hp : bearerPayload env { w with clock := t } r = some payload)
    (hg : handle env r = guarded env r.authorization (requireUser r.userId >>= g))
    (hu : w.users.get? u.id = some u) (hs : subject w r.userId = some u)
    (h : Isolated env t w r u.id) (v v' : User) (hv : v.id = u.id) (hv' : v'.id = u.id) :
    ((g v).run (exec env) { w.saveUser v with clock := t }).1 =
      ((g v').run (exec env) { w.saveUser v' with clock := t }).1 := by
  have hreply : ∀ v : User, v.id = u.id → replyWith env t w r v = (serve env t r w).1 :=
    fun v hv => h.2 _ (hv ▸ agreeExcept_saveUser (hv ▸ hu))
  rw [← replyWith_of_handler hp hg hu hs hv, ← replyWith_of_handler hp hg hu hs hv',
    hreply v hv, hreply v' hv']

/-- A request that acts on the user does not leave the user alone. -/
theorem not_isolated_of_actsOn (hbcrypt : IdealBcrypt env) (hdecrypt : Decrypts env)
    (htotp : SelectiveTotp env) (hu : w.users.get? u.id = some u)
    (hp : bearerPayload env { w with clock := t } r = some payload)
    (h : ActsOn env { w with clock := t } r u) : ¬ Isolated env t w r u.id := by
  intro hisolated
  cases h with
  | @verifySetup code hr hs hc =>
    obtain ⟨secret, result, hresult⟩ := hc
    obtain ⟨wrong, hwrong⟩ := htotp secret code t result hresult
    have hhandle : handle env r =
        guarded env r.authorization (verifySetup env r.userId code) := by rw [handle, hr]
    have heq := runs_agree hp hhandle hu hs hisolated { u with mfaSecret := none }
      { u with mfaSecret := some (env.encrypt 0 wrong) } rfl rfl
    simp [decryptSecret, decrypt, orThrow, hdecrypt 0 wrong, verifyTotp, exec, hwrong] at heq
  | @disable password code hr hs =>
    have hhandle : handle env r = guarded env r.authorization
        (disable env r.userId (some (.str password)) code) := by rw [handle, hr]
    have hright : env.bcryptCompare password (env.bcryptHash 0 password) = true :=
      (hbcrypt 0 password password).mpr rfl
    have hwrong : env.bcryptCompare password (env.bcryptHash 0 (password ++ "x")) = false := by
      refine Bool.eq_false_iff.mpr fun he => ?_
      have hlen := congrArg String.length ((hbcrypt 0 _ _).mp he)
      simp at hlen
    have heq := runs_agree hp hhandle hu hs hisolated
      { u with passwordHash := env.bcryptHash 0 password, mfaSecret := none }
      { u with passwordHash := env.bcryptHash 0 (password ++ "x") } rfl rfl
    simp [validatePassword, UsersService.compare, exec, hright, hwrong, decryptSecret, decrypt,
      orThrow] at heq
  | status hr hs =>
    have hhandle : handle env r = guarded env r.authorization (getStatus r.userId) := by
      rw [handle, hr]
    have heq := runs_agree hp hhandle hu hs hisolated { u with mfaEnabled := false }
      { u with mfaEnabled := true, mfaBackupCodes := none } rfl rfl
    simp [countRemainingCodes, parseBackupCodes, orThrow] at heq
  | @enableBiometric device hr hs =>
    have hhandle : handle env r = guarded env r.authorization
        (MfaController.enableBiometric env r.userId device) := by rw [handle, hr]
    have heq := runs_agree hp hhandle hu hs hisolated { u with mfaEnabled := false }
      { u with mfaEnabled := true } rfl rfl
    cases hi : r.userId <;>
      simp [UsersService.enableBiometric, update, hi] at heq
  | disableBiometric hr haddr hne =>
    have hauth : Authorized env { w with clock := t } r := by rw [Authorized, hp]; rfl
    have hfinal : finalRow env { w with clock := t } r = some (biometricDisabled u) := by
      simp [finalRow, hr, guardedRow_of_authorized hauth haddr]
    have hrow := hisolated.1
    rw [serve_users, hfinal, Option.elim_some, hu] at hrow
    have hput : (w.users.put (biometricDisabled u)).get? u.id = some (biometricDisabled u) :=
      Table.get?_put_self w.users (biometricDisabled u)
    rw [hput] at hrow
    exact hne (Option.some.inj hrow)

omit [JsNumber N] [DecidableEq N] in
theorem not_factorSelected {w : World} (hr : GuardedRoute r.route) :
    ¬ FactorSelected env w r.route u := by
  rintro ⟨token, hp, -⟩
  cases hroute : r.route with
  | verify => rw [hroute] at hr; cases hr
  | verifyBackup => rw [hroute] at hr; cases hr
  | verifyBiometric => rw [hroute] at hr; cases hr
  | _ => rw [hroute] at hp; cases hp

theorem subject_of_not_elsewhere {i : IdParam} (hu : w.users.get? u.id = some u)
    (h : ¬ Elsewhere (w.users.rows.map User.id) u.id i) : subject w i = some u := by
  cases i with
  | undefined =>
    have hhead := Classical.not_not.mp h
    rw [subject, head_eq_get? rfl, hhead]
    exact hu
  | invalid => exact absurd trivial h
  | uuid i =>
    have hi : i = u.id := Classical.not_not.mp h
    rw [subject, hi]
    exact hu

theorem subject_of_agreeExcept {w' : World} {i : IdParam} (ha : AgreeExcept u.id w w')
    (h : subject w i = some u) : ∃ u', subject w' i = some u' := by
  have hmem : u ∈ w.users.rows := by
    cases i with
    | undefined => exact List.mem_of_head? h
    | invalid => cases h
    | uuid i => exact Table.mem_rows_of_get? h
  have hkey : u.id ∈ w'.users.rows.map User.id := by
    rw [ha.keys]
    exact List.mem_map_of_mem hmem
  obtain ⟨u', hu', hid⟩ := List.mem_map.mp hkey
  cases i with
  | undefined =>
    cases hrows : w'.users.rows with
    | nil =>
      rw [hrows] at hu'
      cases hu'
    | cons v vs => exact ⟨v, by rw [subject, hrows]; rfl⟩
  | invalid => cases h
  | uuid i =>
    have hi : u.id = i := Table.key_of_get? h
    exact ⟨u', by rw [subject, ← hi, ← hid]; exact Table.get?_of_mem hu'⟩

/-- A guarded request that does not act on the user leaves the row. -/
theorem row_of_not_actsOn (hr : GuardedRoute r.route) (hu : w.users.get? u.id = some u)
    (h : ¬ ActsOn env { w with clock := t } r u) :
    (serve env t r w).2.users.get? u.id = w.users.get? u.id := by
  obtain ⟨-, hsame | ⟨v, v', hchange, hput⟩⟩ := serve_visited env t r w
  · rw [hsame]
  · rw [hput]
    by_cases hid : u.id = v'.id
    · have hv : v = u := by
        have hrow := hchange.row
        rw [← hchange.id_eq, ← hid] at hrow
        exact Option.some.inj (hrow.symm.trans hu)
      subst hv
      have hsubject : ∀ {v : User}, Addressed { w with clock := t } r v →
          subject { w with clock := t } r.userId = some v := by
        intro v haddr
        rw [haddr.header]
        exact haddr.row
      -- each change of a guarded endpoint is one of those listed
      cases hchange with
      | mfaEnabled hroute ha haddr hc =>
        obtain ⟨secret, -, hresult⟩ := Option.bind_eq_some_iff.mp hc
        exact absurd (.verifySetup hroute (hsubject haddr) ⟨secret, true, hresult⟩) h
      | mfaDisabled hroute ha haddr hs hp hc =>
        subst hs
        exact absurd (.disable hroute (hsubject haddr)) h
      | biometricEnabled hroute ha haddr hm =>
        exact absurd (.enableBiometric hroute (hsubject haddr)) h
      | biometricDisabled hroute ha haddr =>
        have hkept : biometricDisabled v = v :=
          Classical.not_not.mp fun hne => h (.disableBiometric hroute haddr hne)
        rw [hkept, Table.put_self hu]
      | loginRefused hroute => rw [hroute] at hr; cases hr
      | loginAccepted hroute => rw [hroute] at hr; cases hr
      | loginPending hroute => rw [hroute] at hr; cases hr
      | secretSet hroute => rw [hroute] at hr; cases hr
      | unlocked hroute => rw [hroute] at hr; cases hr
      | reset hroute => rw [hroute] at hr; cases hr
      | factorRefused hf => exact absurd hf.selected (not_factorSelected hr)
      | factorAccepted hf => exact absurd hf.selected (not_factorSelected hr)
      | codesSpent hf => exact absurd hf.selected (not_factorSelected hr)
      | factorCompleted hf => exact absurd hf.selected (not_factorSelected hr)
    · exact Table.get?_put_of_ne _ _ hid

/-- A handler that starts from its subject's row and throws for every row. -/
theorem reply_of_throwing {g : User → Iam N Reply} {w : World} (hu : subject w r.userId = some u)
    (hp : bearerPayload env w r = some payload)
    (hg : handle env r = guarded env r.authorization (requireUser r.userId >>= g))
    (hthrow : ((g u).run (exec env) w).1 = .error .internal) :
    ((handle env r).run (exec env) w).1 = .error .internal := by
  rw [hg, run_guarded hp, run_requireUser_bind hu, hthrow]

theorem reply_of_not_actsOn (hr : GuardedRoute r.route) {w w' : World}
    (hp : bearerPayload env w r = some payload) (hu : w.users.get? u.id = some u)
    (h : ¬ ActsOn env w r u) (ha : AgreeExcept u.id w w') :
    ((handle env r).run (exec env) w').1 = ((handle env r).run (exec env) w).1 := by
  have hblind : Blind (w.users.rows.map User.id) u.id (handle env r) →
      ((handle env r).run (exec env) w').1 = ((handle env r).run (exec env) w).1 := fun hb =>
    (Prog.Every.agree hb (fun o s s' ho hs => alike_exec ho hs) ⟨rfl, ha⟩).1.symm
  by_cases helse : Elsewhere (w.users.rows.map User.id) u.id r.userId
  · exact hblind (blind_handle hr (Or.inl helse))
  have hsubject : subject w r.userId = some u := subject_of_not_elsewhere hu helse
  obtain ⟨u', hsubject'⟩ : ∃ u', subject w' r.userId = some u' :=
    subject_of_agreeExcept ha hsubject
  have hclock : w'.clock = w.clock := by rw [ha.rest]
  have hp' : bearerPayload env w' r = some payload := by
    rw [bearerPayload, hclock]
    exact hp
  cases hroute : r.route with
  | verifySetup code =>
    have hhandle : handle env r =
        guarded env r.authorization (verifySetup env r.userId code) := by rw [handle, hroute]
    have hnever : ∀ secret, env.totpVerify secret code w.clock = none := by
      intro secret
      cases hv : env.totpVerify secret code w.clock with
      | none => rfl
      | some result => exact absurd (.verifySetup hroute hsubject ⟨secret, result, hv⟩) h
    have hthrow : ∀ (w'' : World) (v : User), w''.clock = w.clock →
        subject w'' r.userId = some v → bearerPayload env w'' r = some payload →
        ((handle env r).run (exec env) w'').1 = .error .internal := by
      intro w'' v hclock'' hv hp''
      refine reply_of_throwing hv hp'' hhandle ?_
      cases hs : v.mfaSecret with
      | none => simp [decryptSecret, decrypt, orThrow]
      | some c =>
        cases hd : env.decrypt c with
        | none => simp [hd, decryptSecret, decrypt, orThrow]
        | some s =>
          simp [hd, decryptSecret, decrypt, orThrow, verifyTotp, exec, hclock'', hnever]
    rw [hthrow w u rfl hsubject hp, hthrow w' u' hclock hsubject' hp']
  | disable password code =>
    have hhandle : handle env r =
        guarded env r.authorization (disable env r.userId password code) := by
      rw [handle, hroute]
    have hthrow : ∀ (w'' : World) (v : User), subject w'' r.userId = some v →
        bearerPayload env w'' r = some payload →
        ((handle env r).run (exec env) w'').1 = .error .internal := by
      intro w'' v hv hp''
      refine reply_of_throwing hv hp'' hhandle ?_
      rcases password with _ | (_ | _ | _ | s | _ | _)
      case some.str => exact absurd (.disable hroute hsubject) h
      all_goals rfl
    rw [hthrow w u hsubject hp, hthrow w' u' hsubject' hp']
  | status => exact absurd (.status hroute hsubject) h
  | enableBiometric device => exact absurd (.enableBiometric hroute hsubject) h
  | disableBiometric => exact hblind (blind_handle hr (Or.inr hroute))
  | _ =>
    rw [hroute] at hr
    cases hr

/-- A guarded request with somebody else's valid token leaves the user alone
exactly where it does not act on the user. -/
theorem isolated_iff (env : Env N) (hbcrypt : IdealBcrypt env) (hdecrypt : Decrypts env)
    (htotp : SelectiveTotp env) (t : Time) (w : World) (r : Request N) (a : UserId) (u : User)
    (hu : w.users.get? u.id = some u) (hr : GuardedRoute r.route)
    (ha : (bearerPayload env { w with clock := t } r).map JwtPayload.sub = some a) :
    Isolated env t w r u.id ↔ ¬ ActsOn env { w with clock := t } r u := by
  obtain ⟨payload, hp, -⟩ := Option.map_eq_some_iff.mp ha
  constructor
  · exact fun hisolated h => not_isolated_of_actsOn hbcrypt hdecrypt htotp hu hp h hisolated
  · intro h
    refine ⟨row_of_not_actsOn hr hu h, fun w' hagree => ?_⟩
    have hagree' : AgreeExcept u.id { w with clock := t } { w' with clock := t } :=
      ⟨hagree.keys, hagree.rows, by rw [hagree.rest]⟩
    exact reply_of_not_actsOn hr hp hu h hagree'

end Replies

def benPayload : JwtPayload := ⟨2, some "ben@verde.ec", none, .access, 1, 9⟩

/-- Ben enables the biometric factor of his own device on Ana's account. -/
def benForAna : Request ℕ where
  route := .enableBiometric (some (.str "movil"))
  userId := .uuid ana.id
  authorization := some ("Bearer " ++ plainEnv.plainSign "access" benPayload)
  userAgent := none
  ip := "::1"

theorem bearer_benForAna : (bearerPayload (plainEnv [benPayload])
    { anaWorld with clock := 1000 } benForAna).map JwtPayload.sub = some 2 := by rfl

theorem not_isolated_ana :
    (bearerPayload (plainEnv [benPayload]) { anaWorld with clock := 1000 } benForAna).map
        JwtPayload.sub = some 2 ∧
      (serve (plainEnv [benPayload]) 1000 benForAna anaWorld).2.users.get? ana.id =
        some (biometricEnabledWith (some (some "movil")) ana) ∧
      ¬ Isolated (plainEnv [benPayload]) 1000 anaWorld benForAna ana.id := by
  have hrow : (serve (plainEnv [benPayload]) 1000 benForAna anaWorld).2.users.get? ana.id =
      some (biometricEnabledWith (some (some "movil")) ana) := by rfl
  refine ⟨bearer_benForAna, hrow, fun h => ?_⟩
  have hkept := hrow.symm.trans h.1
  revert hkept
  decide

theorem isolated_iff_benForAna :
    Isolated (plainEnv [benPayload]) 1000 anaWorld benForAna ana.id ↔
      ¬ ActsOn (plainEnv [benPayload]) { anaWorld with clock := 1000 } benForAna ana :=
  isolated_iff (plainEnv [benPayload]) (idealBcrypt_plainEnv _) (decrypts_plainEnv _)
    (selectiveTotp_plainEnv _) 1000 anaWorld benForAna 2 ana rfl
    (.enableBiometric _) bearer_benForAna

end VerdeAuth.CallerIsolation
