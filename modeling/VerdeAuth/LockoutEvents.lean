import VerdeAuth.AuditTrail
import VerdeAuth.LockoutConfiguration
import VerdeAuth.LokiTransport

/-!
# Events of a lockout

An alert watches the security log for events labelled `account_locked`. A login logs
`LOGIN_FAILED` when it locks the account and `LOGIN_LOCKED` when it refuses it, and
both are sorted by the `login` in their names.
-/

namespace VerdeAuth.LockoutEvents

open JsonTexts KeyedTables IamTables IamOperations ResumptionPrograms UsersService TokenServices
open MfaServices AuthService MfaController IamEndpoints IamRules IamAssumptions UserRowChanges
open RequestEndings RequestRuns RunHistories EnrolmentEvents SecondFactorGate AuditTrail
open LockoutConfiguration

variable {N : Type} {env : Env N} {w : World} {i : UserId}

/-- The label of an event in Loki. -/
def eventLabel (e : SecurityEvent) : String := LokiTransport.sanitize e.eventType

/-- The actions a login logs. -/
def loginActions : List String := ["LOGIN_FAILED", "LOGIN_LOCKED", "MFA_PENDING", "LOGIN_SUCCESS"]

theorem action_of_loginAudit {dto : LoginDto N} {ip device : String} {a : AuditLog}
    (h : loginAudit env w dto ip device = some a) : a.action ∈ loginActions := by
  unfold loginAudit at h
  split at h
  · cases h
    simp [loginActions]
  · next u hu =>
    split at h
    · cases h
      simp [loginActions]
    · split at h
      · split at h
        · cases h
          cases u.mfaEnabled <;> simp [loginActions]
        · cases h
          simp [loginActions]
      · cases h

/-- Each of them is sorted before `lock` is looked for, or has no `lock` in it. -/
theorem label_of_loginAction (hE : LowersAscii env) {a : AuditLog} (h : a.action ∈ loginActions) :
    eventLabel (securityEvent env a) ≠ "account_locked" := by
  have hlower : ∀ action : String, (action.toList.all fun c => c.toNat < 128) = true →
      env.toLowerCase action = String.ofList (action.toList.map Char.toLower) := by
    intro action hascii
    apply hE
    intro c hc
    exact of_decide_eq_true (List.all_eq_true.mp hascii c hc)
  simp only [eventLabel, securityEvent, getEventType]
  simp only [loginActions, List.mem_cons, List.not_mem_nil, or_false] at h
  rcases h with h | h | h | h
  all_goals
    rw [h, hlower _ (by rfl)]
    cases a.success <;> decide

variable [JsNumber N] [DecidableEq N] {q : Timed N} {dto : LoginDto N} {qs : List (Timed N)}

/-- A failed attempt that sets `lockedUntil`, or a login refused because of it. -/
inductive Lockout (env : Env N) (w : World) (q : Timed N) (i : UserId) : Prop
  | sets (failed : (serve env q.1 q.2 w).1 = .error (.unauthorized "Credenciales inválidas"))
      (lock : lockOf (served env w q) i ≠ lockOf w i) : Lockout env w q i
  | refused {dto u} (route : q.2.route = .login dto)
      (found : w.findUser (.email (criterion env dto.email)) = some u) (user : u.id = i)
      (future : lockedAt q.1 u.lockedUntil = true)
      (answer : (serve env q.1 q.2 w).1 =
        .error (.forbidden "Cuenta bloqueada. Intente más tarde.")) : Lockout env w q i

/-- One of the events of the request has the label the alert is defined on. -/
def Visible (env : Env N) (w : World) (q : Timed N) : Prop :=
  ∃ es e, (served env w q).securityLog = w.securityLog ++ es ∧ e ∈ es ∧
    eventLabel e = "account_locked"

/-- The account asked for is locked, or has four failures and the password is wrong. -/
inductive LockDue (env : Env N) (w : World) (q : Timed N) (i : UserId) : Prop
  | locked {dto u} (route : q.2.route = .login dto)
      (found : w.findUser (.email (criterion env dto.email)) = some u) (user : u.id = i)
      (future : lockedAt q.1 u.lockedUntil = true) : LockDue env w q i
  | fifth {dto u} (route : q.2.route = .login dto)
      (checked : LoginChecked env { w with clock := q.1 } dto false u) (user : u.id = i)
      (counted : 4 ≤ u.failedAttempts) : LockDue env w q i

theorem not_visible (hE : LowersAscii env) (hr : q.2.route = .login dto) :
    ¬ Visible env w q := by
  rintro ⟨es, e, hlog, hmem, hlabel⟩
  have hes := List.append_cancel_left (hlog.symm.trans (logged_of_route env w hr).events)
  rw [hes] at hmem
  obtain ⟨a, ha, rfl⟩ := List.mem_map.mp hmem
  exact label_of_loginAction hE (action_of_loginAudit (Option.mem_toList.mp ha)) hlabel

theorem lockOf_put (t : Table User.id) (w : World) (u : User) (h : w.users = t.put u) :
    lockOf w u.id = u.lockedUntil := by
  rw [lockOf, h, Table.get?_put_self]
  rfl

/-- A wrong password sets the lock where it is the fifth. -/
theorem lockOf_refused {u : User} (h : LoginChecked env { w with clock := q.1 } dto false u)
    (hw : (served env w q).users = w.users.put (attemptFailed q.1 u)) :
    lockOf (served env w q) i ≠ lockOf w i ↔ u.id = i ∧ 4 ≤ u.failedAttempts := by
  by_cases hi : u.id = i
  · have hbefore : lockOf w i = u.lockedUntil := by
      rw [lockOf, ← hi, get?_of_findUser (w := w) h.selected]
      rfl
    have hafter : lockOf (served env w q) i = (attemptFailed q.1 u).lockedUntil := by
      rw [← hi]
      exact lockOf_put w.users _ (attemptFailed q.1 u) hw
    rw [hbefore, hafter, attemptFailed]
    constructor
    · intro hne
      refine ⟨hi, ?_⟩
      by_contra hfew
      rw [if_neg (by omega)] at hne
      exact hne rfl
    · rintro ⟨-, hfour⟩ heq
      rw [if_pos (by omega)] at heq
      have hopen := h.unlocked
      rw [← heq, lockedAt_some] at hopen
      have hlater : q.1 < q.1 + lockoutMs := by simp [lockoutMs]
      exact of_decide_eq_false hopen hlater
  · have hsame : lockOf (served env w q) i = lockOf w i := by
      have hne : i ≠ (attemptFailed q.1 u).id := Ne.symm hi
      rw [lockOf, hw, Table.get?_put_of_ne _ _ hne]
      rfl
    exact iff_of_false (fun hne => hne hsame) fun hdue => hi hdue.1

theorem lockout_iff (hr : q.2.route = .login dto) : Lockout env w q i ↔ LockDue env w q i := by
  have hending : LoginEnding env { w with clock := q.1 } dto (serve env q.1 q.2 w).1
      (served env w q) := login_of_route env hr w
  have hroute : ∀ {dto'}, q.2.route = .login dto' → dto' = dto := by
    intro dto' hr'
    rw [hr] at hr'
    cases hr'
    rfl
  constructor
  · intro h
    cases h with
    | refused route found user future => exact .locked route found user future
    | sets failed lock =>
      rw [failed] at hending
      generalize hw' : served env w q = w' at hending
      cases hending with
      | unknown hu hw =>
        have hsame : lockOf (served env w q) i = lockOf w i := by
          rw [lockOf, hw', hw.1]
          rfl
        exact absurd hsame lock
      | refused hchecked hw =>
        obtain ⟨hi, hfour⟩ := (lockOf_refused hchecked (hw' ▸ hw)).mp lock
        exact .fifth hr hchecked hi hfour
  · intro h
    cases h with
    | locked route found user future =>
      exact .refused route found user future (locked_of_route env route found future)
    | fifth route checked user counted =>
      obtain rfl := hroute route
      obtain ⟨hfailed, hw⟩ := hending.unauthorized_of_checked checked
      exact .sets hfailed ((lockOf_refused checked hw).mpr ⟨user, counted⟩)

/-- In every run of logins the lockouts of a user show up in the security log
exactly when there are none. -/
theorem lockouts_visible_iff (env : Env N) (hE : LowersAscii env) (w : World) (qs : List (Timed N))
    (hqs : ∀ q ∈ qs, ∃ dto, q.2.route = .login dto) (i : UserId) :
    Always (served env) (fun w q => Lockout env w q i → Visible env w q) w qs ↔
      Always (served env) (fun w q => ¬ LockDue env w q i) w qs := by
  apply always_congr_of_mem
  intro q hq w
  obtain ⟨dto, hr⟩ := hqs q hq
  rw [lockout_iff hr]
  constructor
  · intro h hdue
    exact not_visible hE hr (h hdue)
  · intro h hdue
    exact absurd hdue h

/-- A wrong password for a new account, and the account after five. -/
def evaTry : Timed ℕ := Attempt.request ℕ "eva@verde.ec" ⟨0, "clavex", "::1", none⟩

def evaLocked : User :=
  { User.create 1 "eva@verde.ec" "$2b$clave" with
    failedAttempts := 5
    lockedUntil := some lockoutMs }

def evaTries : List (Timed ℕ) := List.replicate 6 evaTry

theorem evaTries_logins : ∀ q ∈ evaTries, ∃ dto, q.2.route = .login dto := by
  intro q hq
  rw [List.eq_of_mem_replicate hq]
  exact ⟨_, rfl⟩

/-- The fifth locks the account, the sixth is refused, and the alert sees neither. -/
theorem lockout_unseen : (∀ q ∈ evaTries, ∃ dto, q.2.route = .login dto) ∧
    lockOf (serveAll (plainEnv []) newAccount (evaTries.take 5)) 1 = some lockoutMs ∧
    (serveAll (plainEnv []) newAccount evaTries).securityLog.map eventLabel =
      List.replicate 6 "login_failed" ∧
    ¬ Always (served (plainEnv []))
      (fun w q => Lockout (plainEnv []) w q 1 → Visible (plainEnv []) w q) newAccount evaTries := by
  refine ⟨evaTries_logins, by rfl, by rfl, fun h => ?_⟩
  have hdue : LockDue (plainEnv []) (serveAll (plainEnv []) newAccount (evaTries.take 5)) evaTry 1 := by
    have hfound : (serveAll (plainEnv []) newAccount (evaTries.take 5)).findUser
        (.email (some "eva@verde.ec")) = some evaLocked := by rfl
    exact .locked rfl hfound rfl (by decide)
  have hlast := h (evaTries.take 5) evaTry [] rfl
  exact not_visible (lowersAscii_plainEnv []) rfl (hlast ((lockout_iff rfl).mpr hdue))

theorem lockouts_visible_iff_eva :
    Always (served (plainEnv []))
        (fun w q => Lockout (plainEnv []) w q 1 → Visible (plainEnv []) w q) newAccount evaTries ↔
      Always (served (plainEnv [])) (fun w q => ¬ LockDue (plainEnv []) w q 1) newAccount evaTries :=
  lockouts_visible_iff (plainEnv []) (lowersAscii_plainEnv []) newAccount evaTries evaTries_logins 1

end VerdeAuth.LockoutEvents
