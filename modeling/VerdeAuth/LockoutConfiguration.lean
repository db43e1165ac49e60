import VerdeAuth.SecondFactorGate
import VerdeAuth.SiemLoggerService

/-!
# The configured lockout policy

`AuthService` reads the number of attempts and the length of a lock from the
configuration into two fields; `UsersService` counts and locks by constants of its
own. A policy is what the fields promise about the logins of a new account.
-/

namespace VerdeAuth.LockoutConfiguration

open JsonTexts KeyedTables IamTables IamOperations ResumptionPrograms UsersService AuthService
open IamEndpoints IamRules IamAssumptions UserRowChanges RequestEndings RequestRuns
open SecondFactorGate
open SiemLoggerService (orDefault)

/-- `AuthService` as its constructor leaves it. -/
structure Service (N : Type) where
  env : Env N
  maxLoginAttempts : ℕ
  lockoutDurationMinutes : ℕ

variable {N : Type}

/-- The constructor; `get` is `configService.get`. -/
def Service.new (env : Env N) (get : String → Option ℕ) : Service N where
  env := env
  maxLoginAttempts := orDefault (get "MAX_LOGIN_ATTEMPTS") 5
  lockoutDurationMinutes := orDefault (get "LOCKOUT_DURATION_MINUTES") 15

/-- A login with a password. -/
structure Attempt where
  time : Time
  password : String
  ip : String
  userAgent : Option String

def Attempt.request (N : Type) (email : String) (a : Attempt) : Timed N :=
  (a.time, ⟨.login ⟨some (.str email), some (.str a.password)⟩, .undefined, none, a.userAgent, a.ip⟩)

def Chronological (as : List Attempt) : Prop := as.Pairwise fun a b => a.time ≤ b.time

/-- An account that has just been registered. -/
def Fresh (env : Env N) (w : World) (email password : String) (i : UserId) : Prop :=
  ∃ salt, w.findUser (.email (some email)) = some (User.create i email (env.bcryptHash salt password))

def lockOf (w : World) (i : UserId) : Option Time := (w.users.get? i).bind User.lockedUntil

section Policy

variable [JsNumber N] [DecidableEq N]

/-- The service serves logins one at a time; `login` reads neither of its two fields. -/
def Service.serve (s : Service N) (q : Timed N) (w : World) : Except Failure Reply × World :=
  IamEndpoints.serve s.env q.1 q.2 w

/-- The state after these logins. -/
def Service.attempts (s : Service N) (email : String) (w : World) (as : List Attempt) : World :=
  as.foldl (fun w a => (s.serve (a.request N email) w).2) w

/-- The operations of a login. -/
def Service.performed (s : Service N) (q : Timed N) (w : World) : List (Op N) :=
  Prog.performed (exec s.env) (handle s.env q.2) { w with clock := q.1 }

def Service.lockMs (s : Service N) : Time := s.lockoutDurationMinutes * 60 * 1000

/-- There were no logins yet, or the last one succeeded. -/
def Settled (s : Service N) (w : World) (email : String) (as : List Attempt) : Prop :=
  as = [] ∨ ∃ before a tokens, as = before ++ [a] ∧
    (s.serve (a.request N email) (s.attempts email w before)).1 = .ok (.session tokens)

/-- The login after these has a wrong password and comes when a lock has ended. -/
def WrongAfterLock (s : Service N) (w : World) (email password : String) (i : UserId)
    (as : List Attempt) (a : Attempt) : Prop :=
  a.password ≠ password ∧ ∃ l, lockOf (s.attempts email w as) i = some l ∧ l ≤ a.time

/-- Once a lock has ended, the next password is the right one. -/
def RightAfterLocks (s : Service N) (w : World) (email password : String) (i : UserId)
    (as : List Attempt) : Prop :=
  ∀ before a after, as = before ++ a :: after → ¬ WrongAfterLock s w email password i before a

/-- What the two fields promise about a run of logins on a new account: of wrong passwords
in a row since the start or the last login that succeeded. -/
structure FollowsPolicy (s : Service N) (w : World) (email password : String) (i : UserId)
    (as : List Attempt) : Prop where
  opened : ∀ before wrong after, as = before ++ wrong ++ after → Settled s w email before →
    (∀ b ∈ wrong, b.password ≠ password) → wrong.length < s.maxLoginAttempts →
    lockOf (s.attempts email w (before ++ wrong)) i = none
  locks : ∀ before wrong a after, as = before ++ wrong ++ [a] ++ after → Settled s w email before →
    (∀ b ∈ wrong ++ [a], b.password ≠ password) → wrong.length + 1 = s.maxLoginAttempts →
    lockOf (s.attempts email w (before ++ wrong ++ [a])) i = some (a.time + s.lockMs)
  refuses : ∀ before wrong a during b after, as = before ++ wrong ++ [a] ++ during ++ b :: after →
    Settled s w email before → (∀ b ∈ wrong ++ [a], b.password ≠ password) →
    wrong.length + 1 = s.maxLoginAttempts → (∀ c ∈ during ++ [b], c.time < a.time + s.lockMs) →
    (s.serve (b.request N email) (s.attempts email w (before ++ wrong ++ [a] ++ during))).1 =
        .error (.forbidden "Cuenta bloqueada. Intente más tarde.") ∧
      ∀ data hash, Op.bcryptCompare data hash ∉
        s.performed (b.request N email) (s.attempts email w (before ++ wrong ++ [a] ++ during))
  reopens : ∀ before wrong a during b after, as = before ++ wrong ++ [a] ++ during ++ b :: after →
    Settled s w email before → (∀ b ∈ wrong ++ [a], b.password ≠ password) →
    wrong.length + 1 = s.maxLoginAttempts →
    (∀ c ∈ during, a.time + s.lockMs ≤ c.time → c.password ≠ password) →
    a.time + s.lockMs ≤ b.time → b.password = password →
    ∃ tokens, (s.serve (b.request N email)
      (s.attempts email w (before ++ wrong ++ [a] ++ during))).1 = .ok (.session tokens)

end Policy

section Rows

/-- The row of an account without MFA after a login. -/
def attempted (env : Env N) (u : User) (a : Attempt) : User :=
  if lockedAt a.time u.lockedUntil then u
  else if env.bcryptCompare a.password u.passwordHash then attemptsReset u
  else attemptFailed a.time u

/-- What no login changes about the row. -/
structure SameAccount (u v : User) : Prop where
  id : v.id = u.id
  email : v.email = u.email
  passwordHash : v.passwordHash = u.passwordHash
  mfaEnabled : v.mfaEnabled = u.mfaEnabled

theorem sameAccount_attempted (env : Env N) (u : User) (a : Attempt) :
    SameAccount u (attempted env u a) := by
  unfold attempted
  split
  · exact ⟨rfl, rfl, rfl, rfl⟩
  · split
    · exact ⟨rfl, rfl, rfl, rfl⟩
    · exact ⟨rfl, rfl, rfl, rfl⟩

variable {env : Env N} {u : User} {a : Attempt} {as : List Attempt}

theorem sameAccount_attempts (env : Env N) (u : User) (as : List Attempt) :
    SameAccount u (as.foldl (attempted env) u) := by
  induction as generalizing u with
  | nil => exact ⟨rfl, rfl, rfl, rfl⟩
  | cons a as ih =>
    have hstep := sameAccount_attempted env u a
    have hrest := ih (attempted env u a)
    exact ⟨hrest.id.trans hstep.id, hrest.email.trans hstep.email,
      hrest.passwordHash.trans hstep.passwordHash, hrest.mfaEnabled.trans hstep.mfaEnabled⟩

theorem attempted_wrong (hl : lockedAt a.time u.lockedUntil = false)
    (hwrong : env.bcryptCompare a.password u.passwordHash = false) :
    attempted env u a = attemptFailed a.time u := by
  rw [attempted, hl, hwrong, if_neg Bool.false_ne_true, if_neg Bool.false_ne_true]

/-- Up to the fourth failure nothing is locked. -/
theorem wrong_attempts (hl : ∀ a ∈ as, lockedAt a.time u.lockedUntil = false)
    (hwrong : ∀ a ∈ as, env.bcryptCompare a.password u.passwordHash = false)
    (hfew : u.failedAttempts + as.length < 5) :
    (as.foldl (attempted env) u).failedAttempts = u.failedAttempts + as.length ∧
      (as.foldl (attempted env) u).lockedUntil = u.lockedUntil := by
  induction as generalizing u with
  | nil => exact ⟨rfl, rfl⟩
  | cons a as ih =>
    rw [List.length_cons] at hfew
    have hstep := attempted_wrong (hl a List.mem_cons_self) (hwrong a List.mem_cons_self)
    have hcount : (attemptFailed a.time u).failedAttempts = u.failedAttempts + 1 := rfl
    have hsame : (attemptFailed a.time u).lockedUntil = u.lockedUntil := by
      rw [attemptFailed, if_neg (by omega)]
    have hopen : ∀ b ∈ as, lockedAt b.time (attemptFailed a.time u).lockedUntil = false := by
      intro b hb
      rw [hsame]
      exact hl b (List.mem_cons_of_mem a hb)
    rw [List.foldl_cons, hstep]
    obtain ⟨hfailed, hlock⟩ := ih hopen (fun b hb => hwrong b (List.mem_cons_of_mem a hb))
      (by omega)
    refine ⟨?_, hlock.trans hsame⟩
    rw [hfailed, hcount, List.length_cons]
    omega

/-- The fifth failure locks for fifteen minutes. -/
theorem fifth_attempt (hl : u.lockedUntil = none) (hzero : u.failedAttempts = 0)
    (hwrong : ∀ b ∈ as ++ [a], env.bcryptCompare b.password u.passwordHash = false)
    (hfour : as.length = 4) :
    ((as ++ [a]).foldl (attempted env) u).failedAttempts = 5 ∧
      ((as ++ [a]).foldl (attempted env) u).lockedUntil = some (a.time + lockoutMs) := by
  obtain ⟨hfailed, hlock⟩ := wrong_attempts (fun b _ => hl ▸ rfl)
    (fun b hb => hwrong b (List.mem_append_left _ hb)) (by omega)
  have hsame := (sameAccount_attempts env u as).passwordHash
  have hlast := hwrong a (List.mem_append_right _ List.mem_cons_self)
  have hopen : lockedAt a.time (as.foldl (attempted env) u).lockedUntil = false := by
    rw [hlock, hl]
    rfl
  rw [← hsame] at hlast
  rw [List.foldl_append, List.foldl_cons, List.foldl_nil, attempted_wrong hopen hlast]
  constructor
  · change (as.foldl (attempted env) u).failedAttempts + 1 = 5
    omega
  · rw [attemptFailed, if_pos (by omega)]

/-- While the account is locked nothing changes. -/
theorem locked_attempts {t : Time} (hl : u.lockedUntil = some t)
    (hduring : ∀ c ∈ as, c.time < t) : as.foldl (attempted env) u = u := by
  induction as with
  | nil => rfl
  | cons a as ih =>
    have hstep : attempted env u a = u := by
      simp [attempted, lockedAt, hl, hduring a List.mem_cons_self]
    rw [List.foldl_cons, hstep]
    exact ih fun c hc => hduring c (List.mem_cons_of_mem a hc)

end Rows

section Logins

variable [JsNumber N] [DecidableEq N] {s : Service N} {w : World} {email : String} {u : User}
  {a : Attempt}

/-- A login leaves the row that its attempt makes. -/
theorem selected_serve (h : w.findUser (.email (some email)) = some u)
    (hm : s.env.bcryptCompare a.password u.passwordHash = true → u.mfaEnabled = false) :
    (s.serve (a.request N email) w).2.findUser (.email (some email)) =
      some (attempted s.env u a) := by
  have husers := serve_users s.env a.time (a.request N email).2 w
  have hsame := sameAccount_attempted s.env u a
  have hput : (w.users.put (attempted s.env u a)).findOne (UserWhere.matches (.email (some email))) =
      some (attempted s.env u a) :=
    Table.findOne_put h hsame.id (by simp only [UserWhere.matches, hsame.email])
  have hclock : ({ w with clock := a.time } : World).findUser (.email (some email)) = some u := h
  have hfinal : finalRow s.env { w with clock := a.time } (a.request N email).2 =
      if lockedAt a.time u.lockedUntil then none else some (attempted s.env u a) := by
    simp only [finalRow, Attempt.request, loginRow, criterion, hclock, Option.bind_some, attempted]
    split
    · rfl
    · split
      · next hright =>
        rw [hm hright]
        rfl
      · rfl
  rw [hfinal] at husers
  change (serve s.env a.time (a.request N email).2 w).2.users.findOne _ = _
  rw [husers]
  split
  · next hl =>
    rw [attempted, if_pos hl]
    exact h
  · exact hput

theorem selected_attempts (as : List Attempt) (h : w.findUser (.email (some email)) = some u)
    (hm : u.mfaEnabled = false) :
    (s.attempts email w as).findUser (.email (some email)) =
      some (as.foldl (attempted s.env) u) := by
  induction as generalizing w u with
  | nil => exact h
  | cons a as ih =>
    exact ih (selected_serve h fun _ => hm) ((sameAccount_attempted s.env u a).mfaEnabled.trans hm)

/-- A login is refused while the account is locked, whatever the password is. -/
theorem serve_locked (h : w.findUser (.email (some email)) = some u)
    (hl : lockedAt a.time u.lockedUntil = true) :
    (s.serve (a.request N email) w).1 =
        .error (.forbidden "Cuenta bloqueada. Intente más tarde.") ∧
      ∀ data hash, Op.bcryptCompare data hash ∉ s.performed (a.request N email) w := by
  have hclock : ({ w with clock := a.time } : World).findUser (.email (some email)) = some u := h
  constructor
  · exact locked_of_route s.env (q := a.request N email) rfl h hl
  · intro data hash
    obtain ⟨t, ht⟩ : ∃ t, u.lockedUntil = some t := by
      cases hlock : u.lockedUntil with
      | none => simp [lockedAt, hlock] at hl
      | some t => exact ⟨t, rfl⟩
    have hlt : a.time < t := by simpa [lockedAt, ht] using hl
    simp [Service.performed, Attempt.request, handle, login, findByEmail, criterion, Prog.perform,
      exec, hclock, isLocked, ht, now, hlt, AuthService.log]

/-- An open account without MFA is entered with its password. -/
theorem serve_right (h : w.findUser (.email (some email)) = some u) (hm : u.mfaEnabled = false)
    (hl : lockedAt a.time u.lockedUntil = false)
    (hright : s.env.bcryptCompare a.password u.passwordHash = true) :
    ∃ tokens, (s.serve (a.request N email) w).1 = .ok (.session tokens) := by
  have hending := login_of_route s.env (q := a.request N email) rfl w
  have hchecked : LoginChecked s.env { w with clock := a.time }
      ⟨some (.str email), some (.str a.password)⟩ true u := ⟨h, hl, a.password, rfl, hright⟩
  obtain ⟨tokens, hok, -⟩ := hending.session_of_checked hchecked hm
  exact ⟨tokens, hok⟩

/-- What a login that succeeds has shown. -/
theorem of_session {tokens : TokenServices.TokenPair} (h : w.findUser (.email (some email)) = some u)
    (hs : (s.serve (a.request N email) w).1 = .ok (.session tokens)) :
    attempted s.env u a = attemptsReset u := by
  have hending := login_of_route s.env (q := a.request N email) rfl w
  change LoginEnding s.env _ _ (s.serve (a.request N email) w).1 _ at hending
  rw [hs] at hending
  generalize (serve s.env (a.request N email).1 (a.request N email).2 w).2 = w' at hending
  cases hending with
  | session t hchecked =>
    obtain ⟨hu, hl, p, hp, hright⟩ := hchecked
    cases hp
    cases h.symm.trans hu
    have hopen : lockedAt a.time u.lockedUntil = false := hl
    rw [attempted, hopen, hright]
    rfl

end Logins

section Accounts

variable [JsNumber N] [DecidableEq N] {env : Env N} {s : Service N} {w : World}
  {email password : String} {i : UserId} {as : List Attempt}

/-- The row of a new account after logins. -/
def accountRow (s : Service N) (email password : String) (i : UserId) (salt : ℕ) (as : List Attempt) :
    User := as.foldl (attempted s.env) (User.create i email (s.env.bcryptHash salt password))

omit [JsNumber N] [DecidableEq N] in
theorem compare_eq (hB : IdealBcrypt env) {salt : ℕ} {p : String} :
    env.bcryptCompare p (env.bcryptHash salt password) = decide (p = password) := by
  by_cases hp : p = password
  · rw [decide_eq_true hp]
    exact (hB salt p password).mpr hp
  · rw [decide_eq_false hp, ← Bool.not_eq_true]
    exact fun h => hp ((hB salt p password).mp h)

theorem lockOf_attempts {salt : ℕ} (h : w.findUser (.email (some email)) =
      some (User.create i email (s.env.bcryptHash salt password))) (as : List Attempt) :
    lockOf (s.attempts email w as) i = (accountRow s email password i salt as).lockedUntil := by
  have hrow := get?_of_findUser (selected_attempts (s := s) as h rfl)
  have hid : (accountRow s email password i salt as).id = i :=
    (sameAccount_attempts s.env _ as).id
  change (s.attempts email w as).users.get? (accountRow s email password i salt as).id = _ at hrow
  rw [hid] at hrow
  rw [lockOf, hrow]
  rfl

omit [JsNumber N] [DecidableEq N] in
theorem compare_row (hB : IdealBcrypt s.env) {salt : ℕ} {p : String} :
    s.env.bcryptCompare p (accountRow s email password i salt as).passwordHash =
      decide (p = password) := by
  have hsame := sameAccount_attempts s.env (User.create i email (s.env.bcryptHash salt password)) as
  rw [accountRow, hsame.passwordHash]
  exact compare_eq hB

omit [JsNumber N] [DecidableEq N] in
theorem accountRow_append {salt : ℕ} (as bs : List Attempt) :
    accountRow s email password i salt (as ++ bs) =
      bs.foldl (attempted s.env) (accountRow s email password i salt as) := List.foldl_append

/-- A row that is not locked is entered with the password. -/
theorem serve_opened (hB : IdealBcrypt s.env) {salt : ℕ} (h : w.findUser (.email (some email)) =
      some (User.create i email (s.env.bcryptHash salt password))) {b : Attempt}
    (hopen : lockedAt b.time (accountRow s email password i salt as).lockedUntil = false)
    (hright : b.password = password) :
    ∃ tokens, (s.serve (b.request N email) (s.attempts email w as)).1 = .ok (.session tokens) := by
  have hsame := sameAccount_attempts s.env (User.create i email (s.env.bcryptHash salt password)) as
  exact serve_right (selected_attempts as h rfl) hsame.mfaEnabled hopen
    ((compare_row hB).trans (decide_eq_true hright))

/-- After a login that succeeded nothing is counted. -/
theorem row_of_settled {salt : ℕ} (h : w.findUser (.email (some email)) =
      some (User.create i email (s.env.bcryptHash salt password))) (hs : Settled s w email as) :
    (accountRow s email password i salt as).failedAttempts = 0 ∧
      (accountRow s email password i salt as).lockedUntil = none := by
  rcases hs with rfl | ⟨before, a, tokens, rfl, hsession⟩
  · exact ⟨rfl, rfl⟩
  · have hrow : accountRow s email password i salt (before ++ [a]) =
        attemptsReset (accountRow s email password i salt before) := by
      rw [accountRow_append]
      exact of_session (selected_attempts before h rfl) hsession
    rw [hrow]
    exact ⟨rfl, rfl⟩

theorem lockOf_few (hB : IdealBcrypt s.env) (h : Fresh s.env w email password i)
    {before wrong : List Attempt} (hs : Settled s w email before)
    (hwrong : ∀ a ∈ wrong, a.password ≠ password) (hfew : wrong.length < 5) :
    lockOf (s.attempts email w (before ++ wrong)) i = none := by
  obtain ⟨salt, h⟩ := h
  obtain ⟨hzero, hnone⟩ := row_of_settled h hs
  rw [lockOf_attempts h, accountRow_append]
  refine (wrong_attempts (fun _ _ => ?_) (fun a ha => ?_) (by omega)).2.trans hnone
  · rw [hnone]
    rfl
  · exact (compare_row hB).trans (decide_eq_false (hwrong a ha))

/-- The row through five failures and the refusals after them. -/
theorem row_locked (hB : IdealBcrypt s.env) {salt : ℕ} (h : w.findUser (.email (some email)) =
      some (User.create i email (s.env.bcryptHash salt password))) {a : Attempt}
    {before wrong during : List Attempt} (hs : Settled s w email before)
    (hwrong : ∀ b ∈ wrong ++ [a], b.password ≠ password) (hfour : wrong.length = 4)
    (hduring : ∀ c ∈ during, c.time < a.time + lockoutMs) :
    (accountRow s email password i salt (before ++ wrong ++ [a] ++ during)).failedAttempts = 5 ∧
      (accountRow s email password i salt (before ++ wrong ++ [a] ++ during)).lockedUntil =
        some (a.time + lockoutMs) := by
  obtain ⟨hzero, hnone⟩ := row_of_settled h hs
  obtain ⟨hfive, hlock⟩ := fifth_attempt hnone hzero
    (fun b hb => (compare_row hB).trans (decide_eq_false (hwrong b hb))) hfour
  have hrow : accountRow s email password i salt (before ++ wrong ++ [a] ++ during) =
      (wrong ++ [a]).foldl (attempted s.env) (accountRow s email password i salt before) := by
    rw [List.append_assoc before, accountRow_append, accountRow_append]
    exact locked_attempts hlock hduring
  rw [hrow]
  exact ⟨hfive, hlock⟩

/-- At its end the lock is open. -/
theorem row_opened (hB : IdealBcrypt s.env) {salt : ℕ} (h : w.findUser (.email (some email)) =
      some (User.create i email (s.env.bcryptHash salt password))) {a : Attempt}
    {before wrong during : List Attempt} (hs : Settled s w email before)
    (hwrong : ∀ b ∈ wrong ++ [a], b.password ≠ password) (hfour : wrong.length = 4)
    (hduring : ∀ c ∈ during, c.time < a.time + lockoutMs) {t : Time} (ht : a.time + lockoutMs ≤ t) :
    lockedAt t (accountRow s email password i salt
      (before ++ wrong ++ [a] ++ during)).lockedUntil = false := by
  rw [(row_locked hB h hs hwrong hfour hduring).2, lockedAt_some]
  exact decide_eq_false (Nat.not_lt.mpr ht)

theorem lockOf_fifth (hB : IdealBcrypt s.env) (h : Fresh s.env w email password i) {a : Attempt}
    {before wrong during : List Attempt} (hs : Settled s w email before)
    (hwrong : ∀ b ∈ wrong ++ [a], b.password ≠ password) (hfour : wrong.length = 4)
    (hduring : ∀ c ∈ during, c.time < a.time + lockoutMs) :
    lockOf (s.attempts email w (before ++ wrong ++ [a] ++ during)) i =
      some (a.time + lockoutMs) := by
  obtain ⟨salt, h⟩ := h
  rw [lockOf_attempts h]
  exact (row_locked hB h hs hwrong hfour hduring).2

theorem serve_during (hB : IdealBcrypt s.env) (h : Fresh s.env w email password i) {a b : Attempt}
    {before wrong during : List Attempt} (hs : Settled s w email before)
    (hwrong : ∀ b ∈ wrong ++ [a], b.password ≠ password) (hfour : wrong.length = 4)
    (hduring : ∀ c ∈ during ++ [b], c.time < a.time + lockoutMs) :
    (s.serve (b.request N email) (s.attempts email w (before ++ wrong ++ [a] ++ during))).1 =
        .error (.forbidden "Cuenta bloqueada. Intente más tarde.") ∧
      ∀ data hash, Op.bcryptCompare data hash ∉
        s.performed (b.request N email) (s.attempts email w (before ++ wrong ++ [a] ++ during)) := by
  obtain ⟨salt, h⟩ := h
  have hlock := (row_locked hB h hs hwrong hfour
    fun c hc => hduring c (List.mem_append_left _ hc)).2
  have hb := hduring b (List.mem_append_right _ List.mem_cons_self)
  have hlocked : lockedAt b.time
      (accountRow s email password i salt (before ++ wrong ++ [a] ++ during)).lockedUntil = true := by
    rw [hlock, lockedAt_some]
    exact decide_eq_true hb
  exact serve_locked (selected_attempts _ h rfl) hlocked

theorem serve_after (hB : IdealBcrypt s.env) (h : Fresh s.env w email password i) {a b : Attempt}
    {before wrong during : List Attempt} (hs : Settled s w email before)
    (hwrong : ∀ b ∈ wrong ++ [a], b.password ≠ password) (hfour : wrong.length = 4)
    (hduring : ∀ c ∈ during, c.time < a.time + lockoutMs) (hafter : a.time + lockoutMs ≤ b.time)
    (hright : b.password = password) :
    ∃ tokens, (s.serve (b.request N email)
      (s.attempts email w (before ++ wrong ++ [a] ++ during))).1 = .ok (.session tokens) := by
  obtain ⟨salt, h⟩ := h
  exact serve_opened hB h (row_opened hB h hs hwrong hfour hduring hafter) hright

/-- Before the fifth wrong password the account is entered with the right one. -/
theorem serve_counting (hB : IdealBcrypt s.env) (h : Fresh s.env w email password i) {a : Attempt}
    {before wrong : List Attempt} (hs : Settled s w email before)
    (hwrong : ∀ b ∈ wrong, b.password ≠ password) (hfew : wrong.length < 5)
    (hright : a.password = password) :
    ∃ tokens, (s.serve (a.request N email) (s.attempts email w (before ++ wrong))).1 =
      .ok (.session tokens) := by
  have hlock := lockOf_few hB h hs hwrong hfew
  obtain ⟨salt, h⟩ := h
  rw [lockOf_attempts h] at hlock
  have hopen : lockedAt a.time
      (accountRow s email password i salt (before ++ wrong)).lockedUntil = false := by
    rw [hlock]
    rfl
  exact serve_opened hB h hopen hright

/-- Where the right password is the first one after a lock, nothing else comes before it. -/
theorem all_during (hB : IdealBcrypt s.env) (h : Fresh s.env w email password i) {a b : Attempt}
    {before wrong during after : List Attempt} (hs : Settled s w email before)
    (hwrong : ∀ b ∈ wrong ++ [a], b.password ≠ password) (hfour : wrong.length = 4)
    (hfirst : ∀ c ∈ during, a.time + lockoutMs ≤ c.time → c.password ≠ password)
    (hrights : RightAfterLocks s w email password i (before ++ wrong ++ [a] ++ during ++ b :: after)) :
    ∀ c ∈ during, c.time < a.time + lockoutMs := by
  induction during using List.reverseRecOn generalizing b after with
  | nil => exact fun c hc => absurd hc List.not_mem_nil
  | append_singleton during c ih =>
    rw [← List.append_assoc, List.append_assoc _ [c]] at hrights
    have hinit := ih (fun c hc => hfirst c (List.mem_append_left _ hc)) hrights
    intro c' hc'
    rcases List.mem_append.mp hc' with hmem | hlast
    · exact hinit c' hmem
    · rw [List.mem_singleton.mp hlast]
      by_contra hlate
      have hends := lockOf_fifth hB h hs hwrong hfour hinit
      exact hrights _ c _ rfl ⟨hfirst c (List.mem_append_right _ List.mem_cons_self)
        (Nat.le_of_not_lt hlate), _, hends, Nat.le_of_not_lt hlate⟩

theorem followsPolicy (hB : IdealBcrypt s.env) (h : Fresh s.env w email password i)
    (hM : s.maxLoginAttempts = 5) (hD : s.lockoutDurationMinutes = 15)
    (hrights : RightAfterLocks s w email password i as) :
    FollowsPolicy s w email password i as := by
  have hms : s.lockMs = lockoutMs := by rw [Service.lockMs, hD, lockoutMs]
  constructor
  · intro before wrong _ _ hs hwrong hfew
    exact lockOf_few hB h hs hwrong (hM ▸ hfew)
  · intro before wrong a _ _ hs hwrong hlast
    have hnone : ∀ c ∈ ([] : List Attempt), c.time < a.time + lockoutMs :=
      fun c hc => absurd hc List.not_mem_nil
    have hlock := lockOf_fifth hB h hs hwrong (by omega) hnone
    rw [hms]
    rwa [List.append_nil] at hlock
  · intro before wrong a during b _ _ hs hwrong hlast hduring
    exact serve_during hB h hs hwrong (by omega) (hms ▸ hduring)
  · rintro before wrong a during b after rfl hs hwrong hlast hfirst hafter hright
    rw [hms] at hfirst hafter
    have hfour : wrong.length = 4 := by omega
    exact serve_after hB h hs hwrong hfour (all_during hB h hs hwrong hfour hfirst hrights)
      hafter hright

/-- Where a run is: at wrong passwords that do not lock yet, or in a lock and refusals. -/
inductive Position (s : Service N) (w : World) (email password : String) (as : List Attempt) : Prop
  | counting (before wrong : List Attempt) (heq : as = before ++ wrong)
      (hs : Settled s w email before) (hwrong : ∀ b ∈ wrong, b.password ≠ password)
      (hfew : wrong.length < 5)
  | locked (before wrong : List Attempt) (a : Attempt) (during : List Attempt)
      (heq : as = before ++ wrong ++ [a] ++ during) (hs : Settled s w email before)
      (hwrong : ∀ b ∈ wrong ++ [a], b.password ≠ password) (hfour : wrong.length = 4)
      (hduring : ∀ c ∈ during, c.time < a.time + lockoutMs)

theorem position_of_rightAfterLocks (hB : IdealBcrypt s.env) (h : Fresh s.env w email password i)
    (hrights : RightAfterLocks s w email password i as) : Position s w email password as := by
  induction as using List.reverseRecOn with
  | nil => exact .counting [] [] rfl (.inl rfl) (fun b hb => absurd hb List.not_mem_nil) (by decide)
  | append_singleton as c ih =>
    have hinit : RightAfterLocks s w email password i as := by
      rintro before b after rfl
      exact hrights before b (after ++ [c]) (by simp)
    have hlast : ¬ WrongAfterLock s w email password i as c := hrights as c [] rfl
    have hsettled : ∀ {tokens}, (s.serve (c.request N email) (s.attempts email w as)).1 =
        .ok (.session tokens) → Position s w email password (as ++ [c]) := fun hsession =>
      .counting (as ++ [c]) [] (List.append_nil _).symm (.inr ⟨as, c, _, rfl, hsession⟩)
        (fun b hb => absurd hb List.not_mem_nil) (by simp)
    cases ih hinit with
    | counting before wrong heq hs hwrong hfew =>
      by_cases hc : c.password = password
      · obtain ⟨tokens, hsession⟩ := serve_counting hB h hs hwrong hfew hc
        exact hsettled (heq ▸ hsession)
      · have hall : ∀ b ∈ wrong ++ [c], b.password ≠ password :=
          List.forall_mem_append.mpr ⟨hwrong, List.forall_mem_singleton.mpr hc⟩
        by_cases hfour : wrong.length = 4
        · exact .locked before wrong c [] (by simp [heq]) hs hall hfour
            fun b hb => absurd hb List.not_mem_nil
        · refine .counting before (wrong ++ [c]) (by simp [heq]) hs hall ?_
          rw [List.length_append, List.length_singleton]
          omega
    | locked before wrong a during heq hs hwrong hfour hduring =>
      by_cases hin : c.time < a.time + lockoutMs
      · have hall : ∀ b ∈ during ++ [c], b.time < a.time + lockoutMs :=
          List.forall_mem_append.mpr ⟨hduring, List.forall_mem_singleton.mpr hin⟩
        exact .locked before wrong a (during ++ [c]) (by simp [heq]) hs hwrong hfour hall
      · have hends := lockOf_fifth hB h hs hwrong hfour hduring
        have hc : c.password = password := by
          by_contra hc
          exact hlast ⟨hc, _, heq ▸ hends, Nat.le_of_not_lt hin⟩
        obtain ⟨tokens, hsession⟩ :=
          serve_after hB h hs hwrong hfour hduring (Nat.le_of_not_lt hin) hc
        exact hsettled (heq ▸ hsession)

/-- The counter is not cleared when a lock ends: one wrong password then locks again, also
against the right one. -/
theorem not_followsPolicy (hB : IdealBcrypt s.env) (h : Fresh s.env w email password i)
    (hM : s.maxLoginAttempts = 5) (hD : s.lockoutDurationMinutes = 15)
    (hrights : RightAfterLocks s w email password i as) {c : Attempt}
    (hc : WrongAfterLock s w email password i as c) :
    ¬ FollowsPolicy s w email password i (as ++ [c] ++ [{ c with password := password }]) := by
  have hms : s.lockMs = lockoutMs := by rw [Service.lockMs, hD, lockoutMs]
  obtain ⟨hwrongc, l, hl, hle⟩ := hc
  intro hp
  cases position_of_rightAfterLocks hB h hrights with
  | counting before wrong heq hs hwrong hfew =>
    rw [heq, lockOf_few hB h hs hwrong hfew] at hl
    cases hl
  | locked before wrong a during heq hs hwrong hfour hduring =>
    subst heq
    rw [lockOf_fifth hB h hs hwrong hfour hduring] at hl
    cases hl
    have hfirst : ∀ b ∈ during ++ [c], a.time + s.lockMs ≤ b.time → b.password ≠ password := by
      intro b hb hlate
      rw [hms] at hlate
      rcases List.mem_append.mp hb with hb | hb
      · exact absurd (hduring b hb) (Nat.not_lt.mpr hlate)
      · rwa [List.mem_singleton.mp hb]
    obtain ⟨tokens, hsession⟩ := hp.reopens before wrong a (during ++ [c])
      { c with password := password } [] (by simp) hs hwrong (by omega) hfirst (hms ▸ hle) rfl
    obtain ⟨salt, h⟩ := h
    have hfive := (row_locked hB h hs hwrong hfour hduring).1
    have hopen := row_opened hB h hs hwrong hfour hduring hle
    have hagain : (accountRow s email password i salt
        (before ++ wrong ++ [a] ++ (during ++ [c]))).lockedUntil = some (c.time + lockoutMs) := by
      rw [← List.append_assoc, accountRow_append]
      change (attempted s.env _ c).lockedUntil = _
      rw [attempted_wrong hopen ((compare_row hB).trans (decide_eq_false hwrongc)), attemptFailed,
        if_pos (by omega)]
    have hlocked : lockedAt c.time (accountRow s email password i salt
        (before ++ wrong ++ [a] ++ (during ++ [c]))).lockedUntil = true := by
      rw [hagain, lockedAt_some]
      exact decide_eq_true (Nat.lt_add_of_pos_right (by decide))
    have hrefused := (serve_locked (s := s) (a := { c with password := password })
      (selected_attempts (before ++ wrong ++ [a] ++ (during ++ [c])) h rfl) hlocked).1
    cases hrefused.symm.trans hsession

/-- Some login with a wrong password, `n` times at once. -/
def wrongOnes (password : String) (n : ℕ) : List Attempt :=
  List.replicate n ⟨0, password ++ "x", "::1", none⟩

theorem wrongOnes_append (n : ℕ) :
    wrongOnes password n ++ [⟨0, password ++ "x", "::1", none⟩] = wrongOnes password (n + 1) :=
  List.replicate_succ'.symm

theorem wrongOnes_wrong {n : ℕ} : ∀ a ∈ wrongOnes password n, a.password ≠ password := by
  intro a ha
  rw [List.eq_of_mem_replicate ha]
  intro he
  have hlen := congrArg String.length he
  simp at hlen

theorem wrongOnes_chronological (n : ℕ) : Chronological (wrongOnes password n) :=
  List.pairwise_replicate.mpr (Or.inr (Nat.le_refl 0))

theorem rightAfterLocks_wrongOnes (hB : IdealBcrypt s.env) (h : Fresh s.env w email password i)
    {n : ℕ} (hn : n ≤ 5) : RightAfterLocks s w email password i (wrongOnes password n) := by
  rintro before a after heq ⟨-, l, hl, -⟩
  have hlength := congrArg List.length heq
  rw [wrongOnes, List.length_replicate, List.length_append, List.length_cons] at hlength
  have hnone : lockOf (s.attempts email w ([] ++ before)) i = none := by
    have hmem : ∀ b ∈ before, b ∈ wrongOnes password n := by
      intro b hb
      rw [heq]
      exact List.mem_append_left _ hb
    exact lockOf_few hB h (.inl rfl) (fun b hb => wrongOnes_wrong b (hmem b hb)) (by omega)
  cases hnone.symm.trans hl

/-- With other fields the first lock comes at another attempt, or ends at another time. -/
theorem fields_of_followsPolicy (hB : IdealBcrypt s.env) (h : Fresh s.env w email password i)
    (hpos : 1 ≤ s.maxLoginAttempts)
    (hp : ∀ as, Chronological as → RightAfterLocks s w email password i as →
      FollowsPolicy s w email password i as) :
    s.maxLoginAttempts = 5 ∧ s.lockoutDurationMinutes = 15 := by
  have hfollows : ∀ {n}, n ≤ 5 → FollowsPolicy s w email password i (wrongOnes password n) :=
    fun hn => hp _ (wrongOnes_chronological _) (rightAfterLocks_wrongOnes hB h hn)
  have hfifth : lockOf (s.attempts email w (wrongOnes password 5)) i = some (0 + lockoutMs) := by
    have hall : ∀ b ∈ wrongOnes password 4 ++ [⟨0, password ++ "x", "::1", none⟩],
        b.password ≠ password := by
      rw [wrongOnes_append]
      exact wrongOnes_wrong
    have hnone : ∀ c ∈ ([] : List Attempt), c.time < 0 + lockoutMs :=
      fun c hc => absurd hc List.not_mem_nil
    have hlock := lockOf_fifth hB h (.inl rfl) hall List.length_replicate hnone
    rwa [List.append_nil, List.nil_append, wrongOnes_append] at hlock
  have hlocks : ∀ n, n + 1 = s.maxLoginAttempts → n + 1 ≤ 5 →
      lockOf (s.attempts email w (wrongOnes password (n + 1))) i = some (0 + s.lockMs) := by
    intro n hn hle
    have hlock := (hfollows hle).locks [] (wrongOnes password n) ⟨0, password ++ "x", "::1", none⟩ []
    rw [List.append_nil, List.nil_append, wrongOnes_append] at hlock
    refine hlock rfl (.inl rfl) wrongOnes_wrong ?_
    rw [wrongOnes, List.length_replicate]
    exact hn
  have hM : s.maxLoginAttempts = 5 := by
    rcases Nat.lt_trichotomy s.maxLoginAttempts 5 with hless | heq | hmore
    · obtain ⟨n, hn⟩ := Nat.exists_eq_add_of_le' hpos
      have hlock := hlocks n hn.symm (by omega)
      have hopen : lockOf (s.attempts email w ([] ++ wrongOnes password (n + 1))) i = none := by
        apply lockOf_few hB h (.inl rfl) wrongOnes_wrong
        rw [wrongOnes, List.length_replicate]
        omega
      exact absurd (hopen.symm.trans hlock) (Option.some_ne_none _).symm
    · exact heq
    · have hopen := (hfollows (Nat.le_refl 5)).opened [] (wrongOnes password 5) []
        (List.append_nil _).symm (.inl rfl) wrongOnes_wrong
        (by rw [wrongOnes, List.length_replicate]; exact hmore)
      exact absurd (hfifth.symm.trans hopen) (Option.some_ne_none _)
  refine ⟨hM, ?_⟩
  have hends := Option.some.inj (hfifth.symm.trans (hlocks 4 hM.symm (by decide)))
  change 0 + 15 * 60 * 1000 = 0 + s.lockoutDurationMinutes * 60 * 1000 at hends
  omega

omit [JsNumber N] [DecidableEq N] in
theorem maxLoginAttempts_pos (env : Env N) (get : String → Option ℕ) :
    1 ≤ (Service.new env get).maxLoginAttempts := by
  change 1 ≤ orDefault (get "MAX_LOGIN_ATTEMPTS") 5
  unfold orDefault
  split <;> omega

/-- The runs of logins on a new account in which the right password is the next one after a
lock follow the configured policy where it is that of the constants in `UsersService`, and
with no other one. Where it is, a wrong password after a lock breaks it. -/
theorem followsPolicy_iff (env : Env N) (hB : IdealBcrypt env) (get : String → Option ℕ) (w : World)
    (email password : String) (i : UserId) (h : Fresh env w email password i) :
    let s := Service.new env get
    ((∀ as, Chronological as → RightAfterLocks s w email password i as →
        FollowsPolicy s w email password i as) ↔
      s.maxLoginAttempts = 5 ∧ s.lockoutDurationMinutes = 15) ∧
    (s.maxLoginAttempts = 5 → s.lockoutDurationMinutes = 15 → ∀ as a,
      RightAfterLocks s w email password i as → WrongAfterLock s w email password i as a →
      ¬ FollowsPolicy s w email password i (as ++ [a] ++ [{ a with password := password }])) := by
  intro s
  refine ⟨⟨fields_of_followsPolicy hB h (maxLoginAttempts_pos env get), ?_⟩, ?_⟩
  · intro hfields as _ hrights
    exact followsPolicy hB h hfields.1 hfields.2 hrights
  · intro hM hD as a hrights ha
    exact not_followsPolicy hB h hM hD hrights ha

end Accounts

section ThreeAttempts

/-- `MAX_LOGIN_ATTEMPTS=3` -/
def strict (name : String) : Option ℕ := if name = "MAX_LOGIN_ATTEMPTS" then some 3 else none

def newAccount : World := World.empty.saveUser (User.create 1 "eva@verde.ec" "$2b$clave")

theorem fresh_newAccount : Fresh (plainEnv []) newAccount "eva@verde.ec" "clave" 1 := ⟨0, rfl⟩

/-- With three attempts configured, three wrong passwords do not lock the account. -/
theorem three_attempts : (Service.new (plainEnv []) strict).maxLoginAttempts = 3 ∧
    IdealBcrypt (plainEnv []) ∧ Fresh (plainEnv []) newAccount "eva@verde.ec" "clave" 1 ∧
    (∀ a ∈ wrongOnes "clave" 3, a.password ≠ "clave") ∧
    lockOf ((Service.new (plainEnv []) strict).attempts "eva@verde.ec" newAccount
      (wrongOnes "clave" 3)) 1 = none := by
  have hopen : lockOf ((Service.new (plainEnv []) strict).attempts "eva@verde.ec" newAccount
      ([] ++ wrongOnes "clave" 3)) 1 = none :=
    lockOf_few (idealBcrypt_plainEnv []) fresh_newAccount (.inl rfl) wrongOnes_wrong (by decide)
  exact ⟨rfl, idealBcrypt_plainEnv [], fresh_newAccount, wrongOnes_wrong, hopen⟩

theorem followsPolicy_iff_unset :
    let s := Service.new (plainEnv []) fun _ => none
    ((∀ as, Chronological as → RightAfterLocks s newAccount "eva@verde.ec" "clave" 1 as →
        FollowsPolicy s newAccount "eva@verde.ec" "clave" 1 as) ↔
      s.maxLoginAttempts = 5 ∧ s.lockoutDurationMinutes = 15) ∧
    (s.maxLoginAttempts = 5 → s.lockoutDurationMinutes = 15 → ∀ as a,
      RightAfterLocks s newAccount "eva@verde.ec" "clave" 1 as →
      WrongAfterLock s newAccount "eva@verde.ec" "clave" 1 as a →
      ¬ FollowsPolicy s newAccount "eva@verde.ec" "clave" 1
        (as ++ [a] ++ [{ a with password := "clave" }])) :=
  followsPolicy_iff (plainEnv []) (idealBcrypt_plainEnv []) (fun _ => none) newAccount "eva@verde.ec"
    "clave" 1 fresh_newAccount

end ThreeAttempts

end VerdeAuth.LockoutConfiguration
