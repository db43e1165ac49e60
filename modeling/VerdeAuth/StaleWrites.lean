import VerdeAuth.IamAssumptions
import VerdeAuth.RequestFootprints

/-!
# Whole-row saves against column updates

A request that counts an attempt saves the whole row it read before. What other
requests wrote to the row in between stays exactly where it was there already.
-/

namespace VerdeAuth.StaleWrites

open JsonTexts KeyedTables IamTables IamOperations ResumptionPrograms InterleavedPools UsersService
open TokenServices MfaServices AuthService MfaController IamEndpoints IamRules IamAssumptions
open UserRowChanges RequestRuns RequestFootprints

/-- The counter and lock columns a request counts attempts in. -/
inductive Counter where
  | login
  | mfa

/-- The rows differ at most in the columns of the counter. -/
def CounterSave (k : Counter) (u e : User) : Prop :=
  match k with
  | .login => e = { u with failedAttempts := e.failedAttempts, lockedUntil := e.lockedUntil }
  | .mfa => e = { u with
      mfaFailedAttempts := e.mfaFailedAttempts, mfaLockedUntil := e.mfaLockedUntil }

theorem CounterSave.id_eq {k : Counter} {u e : User} (h : CounterSave k u e) : e.id = u.id := by
  cases k with
  | login => rw [h]
  | mfa => rw [h]

/-- The columns of an update apart from those of the counter. -/
def without (k : Counter) (p : UserPatch) : UserPatch :=
  match k with
  | .login => { p with failedAttempts := none, lockedUntil := none }
  | .mfa => { p with mfaFailedAttempts := none, mfaLockedUntil := none }

/-- The row has the values of the update, the counter's columns apart. -/
def Shows (k : Counter) (p : UserPatch) (u : User) : Prop := (without k p).apply u = u

/-- Columns apart from the counter's are the same in the row read and in the row saved. -/
theorem shows_iff {k : Counter} {u e : User} (h : CounterSave k u e) (p : UserPatch) :
    Shows k p e ↔ Shows k p u := by
  cases k with
  | login =>
    rw [h]
    cases u
    simp [Shows, without, UserPatch.apply]
  | mfa =>
    rw [h]
    cases u
    simp [Shows, without, UserPatch.apply]

/-- One update after another, as one update. -/
def andThen (p q : UserPatch) : UserPatch where
  failedAttempts := q.failedAttempts.or p.failedAttempts
  lockedUntil := q.lockedUntil.or p.lockedUntil
  mfaEnabled := q.mfaEnabled.or p.mfaEnabled
  mfaSecret := q.mfaSecret.or p.mfaSecret
  mfaBackupCodes := q.mfaBackupCodes.or p.mfaBackupCodes
  mfaTempToken := q.mfaTempToken.or p.mfaTempToken
  mfaTempTokenExpires := q.mfaTempTokenExpires.or p.mfaTempTokenExpires
  mfaLastVerified := q.mfaLastVerified.or p.mfaLastVerified
  mfaFailedAttempts := q.mfaFailedAttempts.or p.mfaFailedAttempts
  mfaLockedUntil := q.mfaLockedUntil.or p.mfaLockedUntil
  biometricEnabled := q.biometricEnabled.or p.biometricEnabled
  deviceBiometricId := q.deviceBiometricId.or p.deviceBiometricId
  preferredMfaMethod := q.preferredMfaMethod.or p.preferredMfaMethod

variable {N : Type}

/-- The row a request last read, after one more response. -/
def lastRead (last : Option User) : (o : Op N) → Res N o → Option User
  | .findUser _, some u => some u
  | _, _ => last

/-- A saved row is the one last read, up to the counter. -/
def SaveOk (k : Counter) (last : Option User) : Op N → Prop
  | .saveUser e => ∃ u, last = some u ∧ CounterSave k u e
  | _ => True

/-- Whatever the responses are, the program saves only rows it has just read. -/
def SavesRead {α : Type} (k : Counter) : Option User → Iam N α → Prop
  | _, .ret _ => True
  | _, .throw _ => True
  | last, .call o next => SaveOk k last o ∧ ∀ r, SavesRead k (lastRead last o r) (next r)

variable {α β : Type} {k : Counter} {last : Option User} {env : Env N}

theorem savesRead_of_noSave {p : Iam N α} (hp : NoSave p) : SavesRead k last p := by
  induction p generalizing last with
  | ret a => trivial
  | throw e => trivial
  | call o next ih =>
    refine ⟨?_, fun r => ih r (hp.2 r)⟩
    cases o <;> first | trivial | exact absurd hp.1 id

theorem SavesRead.bind {p : Iam N α} {f : α → Iam N β} (hp : SavesRead k last p)
    (hf : ∀ a, NoSave (f a)) : SavesRead k last (p >>= f) := by
  induction p generalizing last with
  | ret a => exact savesRead_of_noSave (hf a)
  | throw e => trivial
  | call o next ih => exact ⟨hp.1, fun r => ih r (hp.2 r)⟩

/-- A first part that saves nothing, before a part that reads on its own. -/
theorem savesRead_bind {R : Except Failure α → Prop} {p : Iam N α} {f : α → Iam N β}
    (hp : Prog.Every NotSave R p) (hf : ∀ a last, R (.ok a) → SavesRead k last (f a)) :
    SavesRead k last (p >>= f) := by
  induction p generalizing last with
  | ret a => exact hf a last hp
  | throw e => trivial
  | call o next ih =>
    refine ⟨?_, fun r => ih r (hp.2 r)⟩
    cases o <;> first | trivial | exact absurd hp.1 id

theorem savesRead_incrementFailedAttempts (u : User) :
    SavesRead .login (some u) (incrementFailedAttempts u : Iam N Unit) := by
  rw [incrementFailedAttempts]
  split
  · exact ⟨trivial, fun t => ⟨⟨u, rfl, rfl⟩, fun _ => trivial⟩⟩
  · exact ⟨⟨u, rfl, rfl⟩, fun _ => trivial⟩

theorem savesRead_incrementMfaFailedAttempts (i : UserId) :
    SavesRead .mfa last (incrementMfaFailedAttempts (.uuid i) : Iam N Unit) := by
  refine ⟨trivial, fun v => ?_⟩
  cases v with
  | none => trivial
  | some u =>
    by_cases h : u.mfaFailedAttempts + 1 ≥ 3
    · simp only [Prog.bind, h, if_true]
      exact ⟨trivial, fun t => ⟨⟨u, rfl, rfl⟩, fun _ => trivial⟩⟩
    · simp only [Prog.bind, h, if_false]
      exact ⟨⟨u, rfl, rfl⟩, fun _ => trivial⟩

/-- The lock and the password are checked without another read of the row. -/
theorem savesRead_isLocked_bind {lock : Option Time} {f : Bool → Iam N β}
    (hf : ∀ b, SavesRead k last (f b)) : SavesRead k last (isLocked lock >>= f) := by
  cases lock with
  | none => exact hf false
  | some t => exact ⟨trivial, fun _ => hf _⟩

theorem savesRead_compare_bind {data : JsonField N} {hash : String} {f : Bool → Iam N β}
    (hf : ∀ b, SavesRead k last (f b)) : SavesRead k last (compare data hash >>= f) := by
  rcases data with _ | (_ | _ | _ | s | _ | _)
  case some.str => exact ⟨trivial, fun b => hf b⟩
  all_goals exact trivial

theorem savesRead_completeLogin (u : User) (ip device : String) :
    SavesRead .login (some u) (completeLogin env u ip device) := by
  refine ⟨⟨u, rfl, rfl⟩, fun _ => savesRead_of_noSave ?_⟩
  have hlog : ∀ action success, NoSave (log env action (some u.id) ip device success) :=
    fun action success => noSave_of_quiet (quiet_log action (some u.id) ip device success)
  change NoSave (if u.mfaEnabled = true then _ else _)
  split
  · refine NoSave.bind ⟨trivial, fun _ => trivial⟩ fun n => ?_
    refine (noSave_of_quiet quiet_now).bind fun t => ?_
    exact (noSave_update _ _).bind fun _ => (hlog _ _).bind fun _ => noSave_ret _
  · refine (noSave_of_quiet (quietResult_generateAccessToken u.id u.email).quiet).bind fun a => ?_
    refine (noSave_of_quiet (quietResult_generateRefreshToken u.id).quiet).bind fun t => ?_
    refine (noSave_of_quiet (quietResult_createRefreshToken u.id device ip).quiet).bind fun _ => ?_
    exact (hlog _ _).bind fun _ => noSave_ret _

theorem savesRead_login (dto : LoginDto N) (ip device : String) :
    SavesRead .login last (login env dto ip device) := by
  have hlog : ∀ (action : String) (i : Option UserId) (success : Bool) (e : Failure),
      NoSave (log env action i ip device success >>= fun _ => (.throw e : Iam N Reply)) :=
    fun action i success e =>
      (noSave_of_quiet (quiet_log action i ip device success)).bind fun _ => noSave_throw e
  refine ⟨trivial, fun v => ?_⟩
  cases v with
  | none => exact savesRead_of_noSave (hlog _ _ _ _)
  | some u =>
    refine savesRead_isLocked_bind fun locked => ?_
    cases locked with
    | true => exact savesRead_of_noSave (hlog _ _ _ _)
    | false =>
      refine savesRead_compare_bind fun valid => ?_
      cases valid with
      | true => exact savesRead_completeLogin u ip device
      | false =>
        exact (savesRead_incrementFailedAttempts u).bind fun _ => hlog _ _ _ _

theorem savesRead_verifyFactor {tempToken : JsonField N} {refusal : String}
    {check : User → Iam N (Option (Iam N Unit))} (hcheck : ∀ u, CalmCheck u.id (check u)) :
    SavesRead .mfa last (verifyFactor env tempToken refusal check) := by
  have hfind : NoSave (findByMfaTempToken env tempToken) := ⟨trivial, fun _ => trivial⟩
  refine savesRead_bind hfind fun v last _ => ?_
  cases v with
  | none => trivial
  | some u =>
    refine savesRead_bind (noSave_of_quiet quiet_now) fun t last _ => ?_
    split
    · trivial
    · refine savesRead_bind (noSave_of_quiet (quiet_isMfaLocked u.id)) fun locked last _ => ?_
      cases locked with
      | true => trivial
      | false =>
        have hcalm := Prog.Every.mono (hcheck u) (fun _ => notSave_of_keepsUsers) fun _ h => h
        refine savesRead_bind hcalm fun result last hresult => ?_
        cases result with
        | none => exact (savesRead_incrementMfaFailedAttempts u.id).bind fun _ => noSave_ret _
        | some commit =>
          apply savesRead_of_noSave
          exact noSave_completeVerification (noSave_of_sparing (hresult commit rfl))

theorem noSave_guarded {authorization : Option String} {handler : Iam N Reply}
    (h : NoSave handler) : NoSave (guarded env authorization handler) := by
  refine (noSave_of_quiet (quiet_verifyToken _ _)).bind fun payload => ?_
  cases payload with
  | none => exact noSave_throw _
  | some payload => exact h

section Requests

variable [JsNumber N] [DecidableEq N]

/-- The counter the saves of a route change. -/
def savedCounter : Route N → Counter
  | .login _ => .login
  | _ => .mfa

theorem savesRead_handle (r : Request N) :
    SavesRead (savedCounter r.route) last (handle env r) := by
  rw [handle]
  cases r.route with
  | login dto => exact savesRead_login dto _ _
  | refresh t => exact savesRead_of_noSave (noSave_of_quiet (quiet_refresh t _ _))
  | logout t => exact savesRead_of_noSave (noSave_of_quiet (quiet_logout t _ _ _))
  | verifyToken t =>
    exact savesRead_of_noSave (noSave_of_quiet ((quiet_verifyToken _ _).bind fun _ => quiet_ret _))
  | me => exact savesRead_of_noSave (noSave_of_quiet (quiet_me _))
  | setup => exact savesRead_of_noSave (noSave_of_headerOnly headerOnly_setup)
  | verifySetup code =>
    exact savesRead_of_noSave (noSave_guarded (noSave_of_headerOnly (headerOnly_verifySetup code)))
  | disable password code =>
    exact savesRead_of_noSave
      (noSave_guarded (noSave_of_headerOnly (headerOnly_disable password code)))
  | status => exact savesRead_of_noSave (noSave_guarded (noSave_of_quiet (quiet_getStatus _)))
  | verify t code => exact savesRead_verifyFactor (calmCheck_totp code)
  | verifyBackup t code => exact savesRead_verifyFactor (calmCheck_backup code)
  | enableBiometric d =>
    exact savesRead_of_noSave (noSave_guarded (noSave_of_headerOnly (headerOnly_enableBiometric d)))
  | disableBiometric =>
    exact savesRead_of_noSave (noSave_guarded ((noSave_update _ _).bind fun _ => noSave_ret _))
  | verifyBiometric t d => exact savesRead_verifyFactor (calmCheck_biometric env d)
  | unlockUser email => exact savesRead_of_noSave (noSave_adminUpdate email _ _)
  | resetUser email => exact savesRead_of_noSave (noSave_adminUpdate email _ _)

end Requests

/-- The row a request last read, after a list of responses. -/
def lastReads (last : Option User) (l : List (Exchange (Res N))) : Option User :=
  l.foldl (fun last x => lastRead last x.1 x.2) last

theorem SavesRead.follows {p q : Iam N α} {l : List (Exchange (Res N))} (hp : SavesRead k last p)
    (hf : Follows p l q) : SavesRead k (lastReads last l) q := by
  induction hf generalizing last with
  | nil p => exact hp
  | cons tail ih => exact ih (hp.2 _)

/-- No further row is read. -/
def NoRead (l : List (Exchange (Res N))) : Prop :=
  ∀ c u, (⟨.findUser c, some u⟩ : Exchange (Res N)) ∉ l

theorem lastReads_of_noRead {l : List (Exchange (Res N))} (h : NoRead l) :
    lastReads last l = last := by
  induction l with
  | nil => rfl
  | cons x l ih =>
    have hx : lastRead last x.1 x.2 = last := by
      obtain ⟨o, r⟩ := x
      cases o with
      | findUser c =>
        cases r with
        | none => rfl
        | some u => exact absurd (by simp) (h c u)
      | _ => rfl
    rw [lastReads, List.foldl_cons, hx]
    exact ih fun c u hmem => h c u (List.mem_cons_of_mem _ hmem)

/-- A row saved after a read is the row read, up to the counter. -/
theorem save_of_follows {p q : Iam N α} {l mid : List (Exchange (Res N))} {c : UserWhere}
    {u e : User} (hp : SavesRead k last p)
    (hf : Follows p (l ++ ⟨.findUser c, some u⟩ :: mid ++ [⟨.saveUser e, ()⟩]) q)
    (hmid : NoRead mid) : CounterSave k u e := by
  obtain ⟨p', hf', hsave⟩ := hf.split
  have hp' := hp.follows hf'
  have hlast : lastReads last (l ++ ⟨.findUser c, some u⟩ :: mid) = some u := by
    rw [lastReads, List.foldl_append, List.foldl_cons]
    exact lastReads_of_noRead hmid
  rw [hlast] at hp'
  cases hsave with
  | cons tail =>
    obtain ⟨v, hv, he⟩ := hp'.1
    cases hv
    exact he

/-- What the other requests of a log set on the row of a user. -/
def written (i : ℕ) (j : UserId) : List (Event (Res N) Time) → UserPatch
  | [] => {}
  | .op t (.updateUser id p) _ :: l =>
    if t ≠ i ∧ id = j then andThen p (written i j l) else written i j l
  | _ :: l => written i j l

variable [JsNumber N] [DecidableEq N]

/-- After a save the columns other requests have set since the row was read, the
counter apart, are as set exactly where the row read had these values already. -/
theorem columns_kept_iff (env : Env N) (w : World) (rs : List (Request N))
    (sched : List (Turn Time)) (i : ℕ) (r : Request N) (hr : rs[i]? = some r)
    (before between : List (Event (Res N) Time)) (c : UserWhere) (u e : User)
    (hlog : (together env w rs sched).log =
      before ++ .op i (.findUser c) (some u) :: between ++ [.op i (.saveUser e) ()])
    (hread : NoRead (own i between)) (v : User)
    (hv : (together env w rs sched).state.users.get? u.id = some v) :
    Shows (savedCounter r.route) (written i u.id between) v ↔
      Shows (savedCounter r.route) (written i u.id between) u := by
  obtain ⟨hstate, -, hfollow⟩ :
      (together env w rs sched).state =
        Pool.replay (exec env) tick w (together env w rs sched).log ∧ _ ∧ _ :=
    Pool.exec_log (rs.map (handle env)) w sched
  obtain ⟨p, -, hp⟩ := hfollow i (handle env r) (by rw [List.getElem?_map, hr]; rfl)
  change Follows _ (own i (together env w rs sched).log) p at hp
  rw [hlog] at hstate hp
  have hstart : SavesRead (savedCounter r.route) none (handle env r) := savesRead_handle r
  have hown : Follows (handle env r)
      (own i before ++ ⟨.findUser c, some u⟩ :: own i between ++ [⟨.saveUser e, ()⟩]) p := by
    simpa [own] using hp
  have hsave := save_of_follows hstart hown hread
  have hrow : v = e := by
    rw [hstate, Pool.replay_append, ← hsave.id_eq] at hv
    exact (Option.some.inj ((Table.get?_put_self _ e).symm.trans hv)).symm
  rw [hrow]
  exact shows_iff hsave _

/-- Ana before she confirms her setup. -/
def newcomer : User := { ana with mfaEnabled := false, mfaBackupCodes := none }

def newcomerWorld : World := { World.empty.saveUser newcomer with drawn := 2 }

def signIn (password : String) : Request ℕ :=
  ⟨.login ⟨some (.str "ana@verde.ec"), some (.str password)⟩, .undefined, none, none, "::1"⟩

/-- A login reads the row, the setup is confirmed, and the login goes on. -/
def setupAmidLogin : Pool (Res ℕ) Failure Reply World Time :=
  together anaEnv newcomerWorld [signIn "clave", anaRequest (.verifySetup (some (.str "000007")))]
    (.thread 0 :: List.replicate 13 (.thread 1) ++ [.thread 0, .thread 0])

/-- The login saves the row without MFA, and the setup that was confirmed is gone. -/
theorem setup_lost : ∃ between c e v,
    setupAmidLogin.log =
      [.op 0 (.findUser c) (some newcomer)] ++ between ++ [.op 0 (.saveUser e) ()] ∧
    (∃ codes, setupAmidLogin.threads[1]? = some (.ret (.backupCodes codes))) ∧
    (written 0 newcomer.id between).mfaEnabled = some true ∧
    setupAmidLogin.state.users.get? newcomer.id = some v ∧ v.mfaEnabled = false ∧
    ¬ Shows .login (written 0 newcomer.id between) v := by
  refine ⟨(setupAmidLogin.log.drop 1).dropLast, .email (some "ana@verde.ec"),
    attemptsReset newcomer, attemptsReset newcomer, by rfl, ⟨_, by rfl⟩, by rfl, by rfl, by rfl, ?_⟩
  intro h
  have henabled := congrArg User.mfaEnabled h
  exact absurd henabled (by decide)

/-- Her biometric is disabled once more while a wrong password is counted. -/
def disableAmidLogin : Pool (Res ℕ) Failure Reply World Time :=
  together anaEnv newcomerWorld [signIn "otra", anaRequest .disableBiometric]
    [.thread 0, .thread 1, .thread 1, .thread 0, .thread 0]

/-- An update that sets what the row had anyway survives the save. -/
theorem columns_kept_iff_newcomer : ∃ (between : List (Event (Res ℕ) Time)) (v : User),
    disableAmidLogin.state.users.get? newcomer.id = some v ∧
    (written 0 newcomer.id between).biometricEnabled = some false ∧
    (Shows .login (written 0 newcomer.id between) v ↔
      Shows .login (written 0 newcomer.id between) newcomer) ∧
    Shows .login (written 0 newcomer.id between) newcomer := by
  have hown : own 0 (disableAmidLogin.log.drop 1).dropLast =
      [⟨.bcryptCompare "otra" "$2b$clave", false⟩] := by rfl
  refine ⟨(disableAmidLogin.log.drop 1).dropLast, { newcomer with failedAttempts := 1 },
    by rfl, by rfl, ?_, by rfl⟩
  refine columns_kept_iff anaEnv newcomerWorld [signIn "otra", anaRequest .disableBiometric]
    [.thread 0, .thread 1, .thread 1, .thread 0, .thread 0] 0 (signIn "otra") rfl [] _
    (.email (some "ana@verde.ec")) newcomer { newcomer with failedAttempts := 1 } ?_ ?_ _ ?_
  · rfl
  · rw [hown]
    rintro c u hmem
    simp at hmem
  · rfl

end VerdeAuth.StaleWrites
