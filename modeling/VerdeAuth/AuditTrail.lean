import VerdeAuth.EnrolmentEvents
import VerdeAuth.InactiveAccounts
import VerdeAuth.SessionCalls
import VerdeAuth.VerificationTraces

/-!
# Completeness of the audit trail

A login and a refresh record what they hand out and what they refuse. The three
verifications record nothing, so the trail of a user is complete exactly as long
as no verification gets to check a factor of theirs.
-/

namespace VerdeAuth.AuditTrail

open JsonTexts KeyedTables IamTables IamOperations ResumptionPrograms UsersService TokenServices
open MfaServices AuthService MfaController IamEndpoints IamRules IamAssumptions UserRowChanges
open RequestEndings RequestRuns RunHistories EnrolmentEvents SecondFactorGate InactiveAccounts
open RefreshTokenChain SessionCalls VerificationTraces

variable {N : Type} {env : Env N} {w : World} {i : UserId}

/-- The response hands out tokens of the user. -/
def handsOut (i : UserId) : Except Failure Reply → Bool
  | .ok reply => reply.tokens?.any fun t =>
    t.accessToken.payload.sub = i || t.refreshToken.payload.sub = i
  | .error _ => false

theorem handsOut_iff {res : Except Failure Reply} : handsOut i res = true ↔ CarriesToken res i := by
  constructor
  · intro h
    cases res with
    | error e => cases h
    | ok reply =>
      obtain ⟨tokens, htokens, hsub⟩ := Option.any_eq_true _ _ |>.mp h
      exact ⟨reply, tokens, rfl, htokens, by simpa using hsub⟩
  · rintro ⟨reply, tokens, rfl, htokens, hsub⟩
    simpa [handsOut, htokens] using hsub

theorem handsOut_session {t : TokenPair} {j : UserId} (ht : TokensFor j t) :
    handsOut i (.ok (.session t)) = decide (j = i) := by
  simp [handsOut, Reply.tokens?, ht.1, ht.2]

/-- The audit rows that record tokens of the user. -/
def isGrant (i : UserId) (a : AuditLog) : Bool :=
  a.userId = some i && (a.action = "LOGIN_SUCCESS" || a.action = "TOKEN_REFRESH") && a.success

def grants (i : UserId) (rows : List AuditLog) : ℕ := rows.countP (isGrant i)

/-- The rows a reply with tokens of one user has to add. -/
theorem grants_singleton (j : UserId) (a : AuditLog) (h : isGrant i a = decide (j = i)) :
    grants i [a] = (decide (j = i)).toNat := by
  rw [grants, List.countP_singleton, h]
  by_cases hj : j = i
  · simp [hj]
  · simp [hj]

theorem grants_append (rows rows' : List AuditLog) :
    grants i (rows ++ rows') = grants i rows + grants i rows' := List.countP_append

/-- The row a login writes, if it writes one. -/
def loginAudit (env : Env N) (w : World) (dto : LoginDto N) (ip device : String) :
    Option AuditLog :=
  match w.findUser (.email (criterion env dto.email)) with
  | none => some ⟨none, "LOGIN_FAILED", some ip, some device, false⟩
  | some u =>
    if lockedAt w.clock u.lockedUntil then
      some ⟨some u.id, "LOGIN_LOCKED", some ip, some device, false⟩
    else match dto.password with
      | some (.str s) =>
        if env.bcryptCompare s u.passwordHash then
          some ⟨some u.id, if u.mfaEnabled then "MFA_PENDING" else "LOGIN_SUCCESS", some ip,
            some device, true⟩
        else some ⟨some u.id, "LOGIN_FAILED", some ip, some device, false⟩
      | _ => none

/-- The event that goes to the security logger with a row of the trail. -/
def securityEvent (env : Env N) (a : AuditLog) : SecurityEvent where
  message := a.action ++ " - " ++ (if a.success then "SUCCESS" else "FAILED")
  eventType := getEventType env a.action a.success
  userId := a.userId
  action := a.action
  ip := orUnknown (a.ip.getD "")
  device := orUnknown (a.device.getD "")
  success := a.success

/-- These rows were added to the trail, and their events sent. -/
structure Logged (env : Env N) (w w' : World) (rows : List AuditLog) : Prop where
  trail : w'.auditLog = w.auditLog ++ rows
  events : w'.securityLog = w.securityLog ++ rows.map (securityEvent env)

theorem logged_completeLogin (u : User) (ip device : String) (w : World) :
    Logged env w ((completeLogin env u ip device).run (exec env) w).2
      [⟨some u.id, if u.mfaEnabled then "MFA_PENDING" else "LOGIN_SUCCESS", some ip, some device,
        true⟩] := by
  rw [completeLogin]
  cases u.mfaEnabled with
  | true => exact ⟨rfl, rfl⟩
  | false => exact ⟨rfl, rfl⟩

variable (env) in
theorem run_incrementFailedAttempts (u : User) (w : World) :
    ∃ w', (incrementFailedAttempts u : Iam N Unit).run (exec env) w = (.ok (), w') ∧
      w'.auditLog = w.auditLog ∧ w'.securityLog = w.securityLog := by
  rw [incrementFailedAttempts]
  simp only
  split
  · exact ⟨_, rfl, rfl, rfl⟩
  · exact ⟨_, rfl, rfl, rfl⟩

theorem logged_login (env : Env N) (w : World) (dto : LoginDto N) (ip device : String) :
    Logged env w ((login env dto ip device).run (exec env) w).2
      (loginAudit env w dto ip device).toList := by
  rw [login, Prog.run_bind]
  simp only [findByEmail, Prog.run_perform, exec, Prog.andThen_ok, loginAudit]
  cases hu : w.findUser (.email (criterion env dto.email)) with
  | none => exact ⟨rfl, rfl⟩
  | some u =>
    simp only [Prog.run_bind, run_isLocked, Prog.andThen_ok]
    cases hl : lockedAt w.clock u.lockedUntil with
    | true => exact ⟨rfl, rfl⟩
    | false =>
      simp only [Bool.false_eq_true, if_false, Prog.run_bind, validatePassword]
      rcases dto.password with _ | (_ | _ | _ | s | _ | _)
      case some.str =>
        simp only [UsersService.compare, Prog.run_perform, exec, Prog.andThen_ok]
        cases hc : env.bcryptCompare s u.passwordHash with
        | true => exact logged_completeLogin u ip device w
        | false =>
          obtain ⟨w', hrun, htrail, hevents⟩ := run_incrementFailedAttempts env u w
          simp only [Bool.false_eq_true, if_false, Prog.run_bind, hrun, Prog.andThen_ok]
          constructor
          · rw [← htrail]
            rfl
          · rw [← hevents]
            rfl
      all_goals exact ⟨(List.append_nil _).symm, (List.append_nil _).symm⟩

/-- A refresh that hands out tokens records them; another one writes nothing. -/
inductive RefreshEnding (w : World) (ip device : String) : Except Failure Reply → World → Prop
  | refused {w'} (e : Failure) (hw : w'.auditLog = w.auditLog) :
      RefreshEnding w ip device (.error e) w'
  | refreshed {w'} (i : UserId) (t : TokenPair) (ht : TokensFor i t)
      (hw : w'.auditLog = w.auditLog ++ [⟨some i, "TOKEN_REFRESH", some ip, some device, true⟩]) :
      RefreshEnding w ip device (.ok (.session t)) w'

/-- The operations that leave the audit log alone. -/
def NotAudit : Op N → Prop
  | .insertAuditLog _ => False
  | _ => True

theorem auditLog_exec (env : Env N) (rows : List AuditLog) (o : Op N) (w : World) (ho : NotAudit o)
    (h : w.auditLog = rows) : (exec env o w).2.auditLog = rows := by
  cases o <;> first | contradiction | exact h

theorem notAudit_of_sessionOp {o : Op N} (h : SessionOp env o) : NotAudit o := by
  cases o <;> trivial

section Refresh

variable {α β : Type} {ip device : String} {w₀ : World}

/-- A first part that leaves the audit log alone. -/
theorem refreshEnding_bind {R : Except Failure α → Prop} {p : Iam N α} {f : α → Iam N Reply}
    (hp : Prog.Every NotAudit R p) (hw : w.auditLog = w₀.auditLog)
    (hf : ∀ a w', R (.ok a) → w'.auditLog = w₀.auditLog →
      (f a).Holds (exec env) (fun _ => True) (RefreshEnding w₀ ip device) w') :
    (p >>= f).Holds (exec env) (fun _ => True) (RefreshEnding w₀ ip device) w :=
  hp.holds_bind (auditLog_exec env w₀.auditLog) hw (fun e _ _ hs => .refused e hs) hf

theorem every_sessionOnly {p : Iam N α} (hp : SessionOnly env p) :
    Prog.Every NotAudit (fun _ => True) p :=
  Prog.Every.mono hp (fun _ => notAudit_of_sessionOp) fun _ h => h

theorem every_verifyToken (secret : String) (token : JsonField N) :
    Prog.Every NotAudit (fun _ => True) (verifyToken env secret token) := by
  rcases token with _ | (_ | _ | _ | s | _ | _)
  case some.str => exact ⟨trivial, fun _ => trivial⟩
  all_goals trivial

theorem holds_refresh_audit (token : JsonField N) (ip device : String) (w : World) :
    (refresh env token ip device).Holds (exec env) (fun _ => True) (RefreshEnding w ip device)
      w := by
  rw [refresh]
  apply refreshEnding_bind (every_verifyToken _ token) rfl
  rintro (_ | payload) w₁ - h₁
  · exact ⟨trivial, .refused _ h₁⟩
  have hvalidate : SessionOnly env (validateRefreshToken (.uuid payload.sub) token) :=
    sessionOnly_validateRefreshToken _ token
  apply refreshEnding_bind (every_sessionOnly hvalidate) h₁
  rintro (_ | _) w₂ - h₂
  · exact ⟨trivial, .refused _ h₂⟩
  have hfind : Prog.Every NotAudit (fun _ => True)
      (findById (.uuid payload.sub) : Iam N (Option User)) := ⟨trivial, fun _ => trivial⟩
  apply refreshEnding_bind hfind h₂
  rintro (_ | u) w₃ - h₃
  · exact ⟨trivial, .refused _ h₃⟩
  cases ha : u.isActive with
  | false =>
    simp only [ha, Bool.false_eq_true, if_false]
    exact ⟨trivial, .refused _ h₃⟩
  | true =>
    simp only [ha, if_true]
    have haccess : Prog.Every NotAudit (fun r => ∀ t, r = .ok t → t.payload.sub = u.id)
        (generateAccessToken env u.id u.email) := by
      refine ⟨trivial, fun r t ht => ?_⟩
      cases ht
      rfl
    have hrefresh : Prog.Every NotAudit (fun r => ∀ t, r = .ok t → t.payload.sub = u.id)
        (generateRefreshToken env u.id) := by
      refine ⟨trivial, fun a => ⟨trivial, fun b => ⟨trivial, fun r t ht => ?_⟩⟩⟩
      cases ht
      rfl
    apply refreshEnding_bind haccess h₃
    intro access w₄ hsub h₄
    apply refreshEnding_bind hrefresh h₄
    intro fresh w₅ hsub' h₅
    have hrevoke : SessionOnly env (revokeSession (.uuid u.id) token) :=
      sessionOnly_revokeSession _ token
    apply refreshEnding_bind (every_sessionOnly hrevoke) h₅
    intro _ w₆ _ h₆
    apply refreshEnding_bind (every_sessionOnly (sessionOnly_createRefreshToken u.id device ip)) h₆
    intro _ w₇ _ h₇
    refine ⟨trivial, trivial, trivial, .refreshed u.id _ ⟨hsub _ rfl, hsub' _ rfl⟩ ?_⟩
    exact congrArg (· ++ [_]) h₇

end Refresh

variable [JsNumber N] [DecidableEq N] {q : Timed N} {qs : List (Timed N)}

/-- A password or a second factor of the user was checked and refused. -/
inductive Refuses (env : Env N) (w : World) (q : Timed N) (i : UserId) : Prop
  | password {dto u} (route : q.2.route = .login dto)
      (checked : LoginChecked env { w with clock := q.1 } dto false u) (user : u.id = i) :
      Refuses env w q i
  | factor {u} (checked : FactorChecked env { w with clock := q.1 } q.2.route false u)
      (user : u.id = i) : Refuses env w q i

/-- The request added a row of the user that says it failed. -/
def RecordsFailure (env : Env N) (w : World) (q : Timed N) (i : UserId) : Prop :=
  ∃ rows row, (served env w q).auditLog = w.auditLog ++ rows ∧ row ∈ rows ∧
    row.userId = some i ∧ row.success = false

/-- The responses of a run that hand out tokens of the user. -/
def handed (env : Env N) (i : UserId) : World → List (Timed N) → ℕ
  | _, [] => 0
  | w, q :: qs => (handsOut i (serve env q.1 q.2 w).1).toNat + handed env i (served env w q) qs

/-- The trail tells of every token of the user, and of every refusal. -/
structure Complete (env : Env N) (i : UserId) (w : World) (qs : List (Timed N)) : Prop where
  granted : grants i (serveAll env w qs).auditLog = grants i w.auditLog + handed env i w qs
  refused : Always (served env) (fun w q => Refuses env w q i → RecordsFailure env w q i) w qs

/-- What one request has to add for that. -/
structure Records (env : Env N) (i : UserId) (w : World) (q : Timed N) : Prop where
  granted : grants i (served env w q).auditLog =
    grants i w.auditLog + (handsOut i (serve env q.1 q.2 w).1).toNat
  refused : Refuses env w q i → RecordsFailure env w q i

theorem handed_append_singleton (w : World) : handed env i w (qs ++ [q]) = handed env i w qs +
    (handsOut i (serve env q.1 q.2 (serveAll env w qs)).1).toNat := by
  induction qs generalizing w with
  | nil => simp [handed, serveAll]
  | cons q' qs ih =>
    have htail := ih (served env w q')
    simp only [List.cons_append, handed, htail, Nat.add_assoc]
    rfl

theorem complete_append_singleton (h : Complete env i w qs) :
    Complete env i w (qs ++ [q]) ↔ Records env i (serveAll env w qs) q := by
  have hstate : (serveAll env w (qs ++ [q])).auditLog =
      (served env (serveAll env w qs) q).auditLog := by
    rw [serveAll_append]
    rfl
  have hgranted := h.granted
  constructor
  · intro hall
    have hlast := hall.granted
    rw [hstate, handed_append_singleton] at hlast
    exact ⟨by omega, (always_append_singleton.mp hall.refused).2⟩
  · intro hq
    have hlast := hq.granted
    refine ⟨?_, always_append_singleton.mpr ⟨h.refused, hq.refused⟩⟩
    rw [hstate, handed_append_singleton]
    omega

/-- Complete all along a run: every request records what it has to. -/
theorem complete_prefixes_iff : (∀ before after, qs = before ++ after → Complete env i w before) ↔
    Always (served env) (Records env i) w qs := by
  constructor
  · rintro h before q after rfl
    have hbefore := h before (q :: after) rfl
    exact (complete_append_singleton hbefore).mp (h (before ++ [q]) after (by simp))
  · rintro h before after rfl
    have hbefore := (always_append.mp h).1
    have hnil : Complete env i w [] := ⟨rfl, always_nil⟩
    apply hbefore.induction hnil
    intro before q hcomplete hq
    exact (complete_append_singleton hcomplete).mpr hq

/-- A verification checks a factor of the user. -/
def ChecksFactor (env : Env N) (i : UserId) (w : World) (q : Timed N) : Prop :=
  ∃ valid u, FactorChecked env { w with clock := q.1 } q.2.route valid u ∧ u.id = i

variable (env w) in
theorem auditLog_of_presented {tempToken : JsonField N} (hp : presented q.2.route = some tempToken) :
    (served env w q).auditLog = w.auditLog := (sameTraces_verification env w q.1 hp).2.1

theorem not_records_of_checksFactor (h : ChecksFactor env i w q) : ¬ Records env i w q := by
  obtain ⟨valid, u, hu, rfl⟩ := h
  obtain ⟨tempToken, hp, -⟩ := hu.selected
  have hsame := auditLog_of_presented env w hp
  intro hq
  cases valid with
  | false =>
    obtain ⟨rows, row, hrows, hmem, -, -⟩ := hq.refused (.factor hu rfl)
    rw [hsame] at hrows
    rw [List.self_eq_append_right.mp hrows] at hmem
    cases hmem
  | true =>
    have hgranted := hq.granted
    have hout := handsOut_iff.mpr (carriesToken_of_admitted (q := q) (.factor hu))
    rw [hsame, hout] at hgranted
    simp at hgranted

variable (env w) in
theorem logged_of_route {dto : LoginDto N} (hr : q.2.route = .login dto) :
    Logged env { w with clock := q.1 } (served env w q)
      (loginAudit env { w with clock := q.1 } dto q.2.ip q.2.device).toList := by
  change Logged env _ (serve env q.1 q.2 w).2 _
  rw [serve, handle, hr]
  exact logged_login env { w with clock := q.1 } dto q.2.ip q.2.device

theorem records_login {dto : LoginDto N} (hr : q.2.route = .login dto) : Records env i w q := by
  have hending := login_of_route env hr w
  have hlog : (served env w q).auditLog = w.auditLog ++
      (loginAudit env { w with clock := q.1 } dto q.2.ip q.2.device).toList :=
    (logged_of_route env w hr).trail
  constructor
  · rw [hlog, grants_append]
    congr 1
    generalize (serve env q.1 q.2 w).1 = res at hending
    generalize (serve env q.1 q.2 w).2 = w' at hending
    cases hending with
    | unknown hu => simp [loginAudit, hu, grants, isGrant, handsOut]
    | locked hu hl => simp [loginAudit, hu, hl, grants, isGrant, handsOut]
    | broken hu hp =>
      simp only [loginAudit, hu]
      split
      · simp [grants, isGrant, handsOut]
      · rfl
    | refused h =>
      obtain ⟨s, hs, hc⟩ := h.password
      simp [loginAudit, h.selected, h.unlocked, hs, hc, grants, isGrant, handsOut]
    | pending h hm =>
      obtain ⟨s, hs, hc⟩ := h.password
      simp [loginAudit, h.selected, h.unlocked, hs, hc, hm, grants, isGrant, handsOut,
        Reply.tokens?]
    | session t h hm hw ht =>
      obtain ⟨s, hs, hc⟩ := h.password
      rw [handsOut_session ht]
      simp only [loginAudit, h.selected, h.unlocked, hs, hc, hm, Bool.false_eq_true, if_false,
        if_true, Option.toList_some]
      exact grants_singleton _ _ (by simp [isGrant])
  · intro hrefuses
    cases hrefuses with
    | @password dto' u hr' h hi =>
      rw [hr] at hr'
      cases hr'
      obtain ⟨s, hs, hc⟩ := h.password
      refine ⟨_, ⟨some u.id, "LOGIN_FAILED", some q.2.ip, some q.2.device, false⟩, hlog, ?_,
        congrArg some hi, rfl⟩
      simp [loginAudit, h.selected, h.unlocked, hs, hc]
    | factor h =>
      obtain ⟨tempToken, hp, -⟩ := h.selected
      rw [hr] at hp
      cases hp

theorem records_refresh {t : JsonField N} (hr : q.2.route = .refresh t) : Records env i w q := by
  have hending : RefreshEnding { w with clock := q.1 } q.2.ip q.2.device (serve env q.1 q.2 w).1
      (serve env q.1 q.2 w).2 := by
    rw [serve, handle, hr]
    exact (holds_refresh_audit t q.2.ip q.2.device { w with clock := q.1 }).final
  constructor
  · change grants i (serve env q.1 q.2 w).2.auditLog = _
    generalize (serve env q.1 q.2 w).1 = res at hending
    generalize (serve env q.1 q.2 w).2 = w' at hending
    cases hending with
    | refused e hw =>
      rw [hw]
      rfl
    | refreshed j tokens ht hw =>
      rw [hw, grants_append, handsOut_session ht]
      congr 1
      exact grants_singleton _ _ (by simp [isGrant])
  · intro hrefuses
    cases hrefuses with
    | password hr' =>
      rw [hr] at hr'
      cases hr'
    | factor h =>
      obtain ⟨tempToken, hp, -⟩ := h.selected
      rw [hr] at hp
      cases hp

theorem records_verification {tempToken : JsonField N} (hp : presented q.2.route = some tempToken)
    (h : ¬ ChecksFactor env i w q) : Records env i w q := by
  have hending := factor_of_route env hp w
  constructor
  · rw [auditLog_of_presented env _ hp]
    generalize (serve env q.1 q.2 w).1 = res at hending
    generalize (serve env q.1 q.2 w).2 = w' at hending
    cases hending with
    | rejected => rfl
    | broken => rfl
    | refused => rfl
    | accepted t hu hw ht =>
      have hout : handsOut i (.ok (.verified t)) = false := by
        rw [Bool.eq_false_iff]
        intro htrue
        exact h ⟨true, _, hu, id_of_carriesToken (handsOut_iff.mp htrue) rfl ht⟩
      rw [hout]
      rfl
  · intro hrefuses
    cases hrefuses with
    | password hr =>
      rw [hr] at hp
      cases hp
    | factor hu hi => exact absurd ⟨false, _, hu, hi⟩ h

theorem records_iff (hq : Issuing q.2.route) :
    Records env i w q ↔ ¬ ChecksFactor env i w q := by
  constructor
  · intro hrecords hchecks
    exact not_records_of_checksFactor hchecks hrecords
  · intro h
    generalize hr : q.2.route = route at hq
    cases hq with
    | login dto => exact records_login hr
    | refresh t => exact records_refresh hr
    | verification hp => exact records_verification (hr ▸ hp) h

/-- In every run of logins, refreshes and verifications the trail of a user is
complete all along exactly when no verification gets to check a factor of theirs. -/
theorem trail_complete_iff (env : Env N) (w : World) (qs : List (Timed N))
    (hqs : ∀ q ∈ qs, Issuing q.2.route) (i : UserId) :
    (∀ before after, qs = before ++ after → Complete env i w before) ↔
      Always (served env) (fun w q => ¬ ChecksFactor env i w q) w qs := by
  rw [complete_prefixes_iff]
  exact always_congr_of_mem fun q hq w => records_iff (hqs q hq)

/-- Her password, then a wrong code and the right one. -/
def anaSignsIn : List (Timed ℕ) :=
  [(1000, anaLogin),
    (2000, anaRequest (.verify (some (.str "2")) (some (.str "000000")))),
    (3000, anaVerification)]

theorem anaSignsIn_issuing : ∀ q ∈ anaSignsIn, Issuing q.2.route := by
  intro q hq
  simp only [anaSignsIn, List.mem_cons, List.not_mem_nil, or_false] at hq
  rcases hq with rfl | rfl | rfl
  · exact .login _
  · exact .verification rfl
  · exact .verification rfl

/-- She is given tokens and no row tells of it. -/
theorem trail_incomplete : (∀ q ∈ anaSignsIn, Issuing q.2.route) ∧
    handed anaEnv 1 anaWorld anaSignsIn = 1 ∧
    (serveAll anaEnv anaWorld anaSignsIn).auditLog =
      [⟨some 1, "MFA_PENDING", some "::1", some "unknown", true⟩] ∧
    ¬ Complete anaEnv 1 anaWorld anaSignsIn := by
  have hhanded : handed anaEnv 1 anaWorld anaSignsIn = 1 := by rfl
  have hlog : (serveAll anaEnv anaWorld anaSignsIn).auditLog =
      [⟨some 1, "MFA_PENDING", some "::1", some "unknown", true⟩] := by rfl
  refine ⟨anaSignsIn_issuing, hhanded, hlog, fun h => ?_⟩
  have hgranted := h.granted
  rw [hhanded, hlog] at hgranted
  cases hgranted

theorem trail_complete_iff_ana :
    (∀ before after, anaSignsIn = before ++ after → Complete anaEnv 1 anaWorld before) ↔
      Always (served anaEnv) (fun w q => ¬ ChecksFactor anaEnv 1 w q) anaWorld anaSignsIn :=
  trail_complete_iff anaEnv anaWorld anaSignsIn anaSignsIn_issuing 1

end VerdeAuth.AuditTrail
