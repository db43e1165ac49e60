import VerdeAuth.LockoutCounters
import VerdeAuth.PerformedChecks

/-!
# How often secrets can be guessed

The two pairs of columns that count failures and lock are counters that lock,
with limits of five for passwords and three for second factors. This bounds the
checks performed in every window of the length of a lock, in every run of requests
that brings no relief. A login whose password is no text is not bounded: its check
throws, and nothing is counted.
-/

namespace VerdeAuth.GuessingBounds

open JsonTexts KeyedTables IamTables IamOperations ResumptionPrograms UsersService TokenServices
open MfaServices AuthService MfaController IamEndpoints IamRules IamAssumptions UserRowChanges
open RequestEndings RequestRuns EnrolmentEvents FactorEnrolment SecondFactorGate RunHistories
open LockoutCounters LockoutGuards PerformedChecks UserRowConsistency

variable {N : Type} [JsNumber N] [DecidableEq N] {env : Env N} {w : World} {q : Timed N}
  {i : UserId}

def loginCounter (u : User) : Counter := ⟨u.failedAttempts, u.lockedUntil⟩

def mfaCounter (u : User) : Counter := ⟨u.mfaFailedAttempts, u.mfaLockedUntil⟩

/-- A counter in the row of a user. -/
def rowCounter (counter : User → Counter) (i : UserId) (w : World) : Counter :=
  ((w.users.get? i).map counter).getD ⟨0, none⟩

theorem le_of_unlocked {t : Time} {lock : Option Time} (h : lockedAt t lock = false) :
    ∀ l, lock = some l → l ≤ t := by
  rintro l rfl
  simpa [lockedAt] using h

/-- The request changes the row of the user as a failure changes the counter. -/
structure Fails (env : Env N) (w : World) (q : Timed N) (i : UserId) (limit : ℕ)
    (counter : User → Counter) (u v : User) : Prop where
  row : w.users.get? i = some u
  put : (served env w q).users = w.users.put v
  id : v.id = i
  opened : ∀ l, (counter u).lock = some l → l ≤ q.1
  counted : counter v = (counter u).fail limit lockoutMs q.1

/-- Failures and the other row changes, one by one, make up a counter that locks. -/
theorem counts_of_rows {limit : ℕ} {counter : User → Counter} {failed : World → Timed N → Bool}
    (hfailed : failed w q = true → ∃ u v, Fails env w q i limit counter u v)
    (hkept : failed w q = false → ∀ u u', RowChange env { w with clock := q.1 } q.2 u u' →
      u.id = i → counter u' = counter u) :
    Counts limit lockoutMs (served env) failed Prod.fst (rowCounter counter i) w q := by
  unfold Counts
  cases hq : failed w q with
  | true =>
    obtain ⟨u, v, h⟩ := hfailed hq
    have hafter : (served env w q).users.get? i = some v := by
      rw [h.put, ← h.id]
      exact Table.get?_put_self w.users v
    have hbefore : rowCounter counter i w = counter u := by simp [rowCounter, h.row]
    have hcounter : rowCounter counter i (served env w q) =
        (counter u).fail limit lockoutMs q.1 := by
      simp [rowCounter, hafter, h.counted]
    rw [hcounter, hbefore]
    exact Step.failed h.opened
  | false =>
    have hcounter : rowCounter counter i (served env w q) = rowCounter counter i w := by
      unfold rowCounter
      rcases get?_of_serve env w q i with hsame | ⟨u, u', hchange, hu, hu'⟩
      · rw [hsame]
      · rw [hu, hu', Option.map_some, Option.map_some]
        rw [hkept hq u u' hchange (Table.key_of_get? hu)]
    rw [hcounter]
    exact Step.kept

/-- No factor check of the user succeeds, and the request is none that turns MFA off,
unlocks or resets. -/
structure NoMfaRelief (env : Env N) (i : UserId) (w : World) (q : Timed N) : Prop where
  factor : factorReturned env { w with clock := q.1 } q.2 ≠ some (i, true)
  disable : ∀ password code, q.2.route ≠ .disable password code
  unlock : ∀ email, q.2.route ≠ .unlockUser email
  reset : ∀ email, q.2.route ≠ .resetUser email

/-- The request has a factor of the user checked, and the check returns false. -/
def factorFails (env : Env N) (i : UserId) (w : World) (q : Timed N) : Bool :=
  factorReturned env { w with clock := q.1 } q.2 = some (i, false)

theorem mfaCounter_of_change {u u' : User} (h : NoMfaRelief env i w q)
    (hfails : factorFails env i w q = false)
    (hchange : RowChange env { w with clock := q.1 } q.2 u u') (hid : u.id = i) :
    mfaCounter u' = mfaCounter u := by
  subst hid
  cases hchange with
  | factorRefused hf =>
    rw [factorFails, factorReturned_of_checked hf] at hfails
    simp at hfails
  | factorAccepted hf => exact absurd (factorReturned_of_checked hf) h.factor
  | codesSpent hf => exact absurd (factorReturned_of_checked hf) h.factor
  | factorCompleted hf => exact absurd (factorReturned_of_checked hf) h.factor
  | mfaDisabled hr => exact absurd hr (h.disable _ _)
  | unlocked hr => exact absurd hr (h.unlock _)
  | reset hr => exact absurd hr (h.reset _)
  | _ => rfl

theorem fails_of_factor (h : NoMfaRelief env i w q) (hfails : factorFails env i w q = true) :
    ∃ u v, Fails env w q i 3 mfaCounter u v := by
  obtain ⟨u, hf, rfl⟩ := exists_checked h.disable (of_decide_eq_true hfails)
  obtain ⟨token, -, hu⟩ := hf.selected
  have husers := serve_users env q.1 q.2 w
  rw [finalRow_of_checked hf] at husers
  refine ⟨u, mfaAttemptFailed q.1 u, ?_⟩
  constructor
  · exact get?_of_findUser hu
  · exact husers
  · rfl
  · exact le_of_unlocked hf.unlocked
  · rfl

/-- At most three factor checks of a user return false in every window of fifteen
minutes, whatever else is requested. -/
theorem factor_checks_le (env : Env N) (i : UserId) (w : World) (rs : List (Timed N))
    (hrs : Always (served env) (NoMfaRelief env i) w rs) (a : Time) :
    (failures (served env) (factorFails env i) Prod.fst w rs).countP (inWindow a lockoutMs) ≤ 3 := by
  apply failures_le (by decide)
  intro before q after hsplit
  have hq : NoMfaRelief env i (run (served env) w before) q := hrs before q after hsplit
  exact counts_of_rows (fails_of_factor hq) fun hfails u u' => mfaCounter_of_change hq hfails

/-- Ana signs in, and codes are guessed until her factors lock. -/
def codeGuess (t : Time) : Timed ℕ :=
  (t, ⟨.verify (some (.str "2")) (some (.str "000000")), .undefined, none, none, "::1"⟩)

theorem factor_checks_le_ana :
    let rs := [anaLogin, codeGuess 2000, codeGuess 3000, codeGuess 4000, codeGuess 5000]
    (failures (served (plainEnv [])) (factorFails (plainEnv []) 1) Prod.fst anaWorld rs).countP
      (inWindow 2000 lockoutMs) ≤ 3 := by
  intro rs
  apply factor_checks_le (plainEnv []) 1 anaWorld rs
  have hlogin : ∀ {w : World},
      factorReturned (plainEnv []) { w with clock := 1000 } anaLogin.2 ≠ some (1, true) →
      NoMfaRelief (plainEnv []) 1 w anaLogin := by
    intro w h
    exact ⟨h, by rintro _ _ ⟨⟩, by rintro _ ⟨⟩, by rintro _ ⟨⟩⟩
  have hguess : ∀ {w : World} {t : Time},
      factorReturned (plainEnv []) { w with clock := t } (codeGuess t).2 ≠ some (1, true) →
      NoMfaRelief (plainEnv []) 1 w (codeGuess t) := by
    intro w t h
    exact ⟨h, by rintro _ _ ⟨⟩, by rintro _ ⟨⟩, by rintro _ ⟨⟩⟩
  refine always_cons.mpr ⟨hlogin (by decide +kernel), ?_⟩
  refine always_cons.mpr ⟨hguess (by decide +kernel), ?_⟩
  refine always_cons.mpr ⟨hguess (by decide +kernel), ?_⟩
  refine always_cons.mpr ⟨hguess (by decide +kernel), ?_⟩
  exact always_cons.mpr ⟨hguess (by decide +kernel), always_nil⟩

/-- The request is a login that calls `validatePassword` for the user. -/
def callsPassword (env : Env N) (i : UserId) (w : World) (q : Timed N) : Bool :=
  match q.2.route with
  | .login _ => passwordCalled env { w with clock := q.1 } q.2 = some i
  | _ => false

/-- No login brings the right password of the user, and the request is none that
unlocks or resets. -/
structure NoLoginRelief (env : Env N) (i : UserId) (w : World) (q : Timed N) : Prop where
  password : ∀ dto, q.2.route = .login dto →
    passwordReturned env { w with clock := q.1 } q.2 ≠ some (i, true)
  unlock : ∀ email, q.2.route ≠ .unlockUser email
  reset : ∀ email, q.2.route ≠ .resetUser email

/-- A login that finds the user's row, not locked, carries a text as its password. -/
def CarriesText (env : Env N) (i : UserId) (w : World) (q : Timed N) : Prop :=
  ∀ dto u, q.2.route = .login dto → w.findUser (.email (criterion env dto.email)) = some u →
    u.id = i → lockedAt q.1 u.lockedUntil = false → ∃ s, dto.password = some (.str s)

theorem callsPassword_eq_true : callsPassword env i w q = true ↔
    ∃ dto u, q.2.route = .login dto ∧ w.findUser (.email (criterion env dto.email)) = some u ∧
      lockedAt q.1 u.lockedUntil = false ∧ u.id = i := by
  unfold callsPassword
  constructor
  · intro h
    split at h
    · next dto hr =>
      obtain ⟨u, hu, hl, hid⟩ := (passwordCalled_login hr).mp (of_decide_eq_true h)
      exact ⟨dto, u, hr, hu, hl, hid⟩
    · cases h
  · rintro ⟨dto, u, hr, hu, hl, hid⟩
    rw [hr]
    exact decide_eq_true ((passwordCalled_login hr).mpr ⟨u, hu, hl, hid⟩)

theorem loginCounter_of_change {u u' : User} (h : NoLoginRelief env i w q)
    (hcalls : callsPassword env i w q = false)
    (hchange : RowChange env { w with clock := q.1 } q.2 u u') (hid : u.id = i) :
    loginCounter u' = loginCounter u := by
  have hright : ∀ {dto}, q.2.route = .login dto →
      ¬ LoginChecked env { w with clock := q.1 } dto true u :=
    fun hr hl => h.password _ hr ((passwordReturned_login hr).mpr ⟨u, hl, hid⟩)
  cases hchange with
  | @loginRefused dto _ hr hl =>
    have hcall : callsPassword env i w q = true :=
      callsPassword_eq_true.mpr ⟨dto, u, hr, hl.selected, hl.unlocked, hid⟩
    rw [hcalls] at hcall
    cases hcall
  | loginAccepted hr hl => exact absurd hl (hright hr)
  | loginPending hr hl => exact absurd hl (hright hr)
  | unlocked hr => exact absurd hr (h.unlock _)
  | reset hr => exact absurd hr (h.reset _)
  | _ => rfl

theorem fails_of_password (h : NoLoginRelief env i w q) (htext : CarriesText env i w q)
    (hcalls : callsPassword env i w q = true) : ∃ u v, Fails env w q i 5 loginCounter u v := by
  obtain ⟨dto, u, hr, hu, hl, rfl⟩ := callsPassword_eq_true.mp hcalls
  obtain ⟨s, hs⟩ := htext dto u hr hu rfl hl
  have hwrong : env.bcryptCompare s u.passwordHash = false := by
    rw [← Bool.not_eq_true]
    intro hc
    exact h.password dto hr ((passwordReturned_login hr).mpr ⟨u, ⟨hu, hl, s, hs, hc⟩, rfl⟩)
  have husers := serve_users env q.1 q.2 w
  have hselected : World.findUser { w with clock := q.1 } (.email (criterion env dto.email)) =
      some u := hu
  have hfinal : finalRow env { w with clock := q.1 } q.2 = some (attemptFailed q.1 u) := by
    simp [finalRow, hr, loginRow, hselected, hl, hs, hwrong]
  rw [hfinal] at husers
  refine ⟨u, attemptFailed q.1 u, ?_⟩
  constructor
  · exact get?_of_findUser hu
  · exact husers
  · rfl
  · exact le_of_unlocked hl
  · rfl

/-- A login refused because of a lock changes no row. -/
theorem users_of_locked {dto : LoginDto N} (hr : q.2.route = .login dto) {text : String}
    (hreply : (serve env q.1 q.2 w).1 = .error (.forbidden text)) :
    (served env w q).users = w.users := by
  have hending := login_of_route env hr w
  rw [hreply] at hending
  unfold served
  generalize (serve env q.1 q.2 w).2 = w' at hending
  cases hending with
  | locked hu hl hw => exact hw.1

/-- While the logins that get to the user's password bring texts, `validatePassword` is
called for the user at most five times in every window of fifteen minutes. A login compares
a password only in such a call, and one refused because of the lock changes no row. -/
theorem password_calls_le (env : Env N) (i : UserId) (w : World) (rs : List (Timed N))
    (hrs : Always (served env) (fun w q => NoLoginRelief env i w q ∧ CarriesText env i w q) w rs)
    (a : Time) :
    (failures (served env) (callsPassword env i) Prod.fst w rs).countP (inWindow a lockoutMs) ≤ 5 ∧
      Always (served env) (fun w q => ∀ dto, q.2.route = .login dto →
        comparisons env { w with clock := q.1 } q.2 =
          ((passwordSite env q.2).called (exec env) { w with clock := q.1 }).elim []
            (comparisonOf dto.password) ∧
        ∀ text, (serve env q.1 q.2 w).1 = .error (.forbidden text) →
          (served env w q).users = w.users) w rs := by
  constructor
  · apply failures_le (by decide)
    intro before q after hsplit
    obtain ⟨hq, htext⟩ := hrs before q after hsplit
    exact counts_of_rows (fails_of_password hq htext) fun hcalls u u' =>
      loginCounter_of_change hq hcalls
  · intro before q after _ dto hr
    exact ⟨comparisons_login hr, fun text => users_of_locked hr⟩

def passwordGuesses : List (Timed ℕ) :=
  [passwordGuess 1000, passwordGuess 2000, passwordGuess 3000, passwordGuess 4000,
    passwordGuess 5000, passwordGuess 6000]

theorem password_calls_le_newcomer :
    (failures (served anaEnv) (callsPassword anaEnv 1) Prod.fst newcomer passwordGuesses).countP
        (inWindow 1000 lockoutMs) ≤ 5 ∧
      Always (served anaEnv) (fun w q => ∀ dto, q.2.route = .login dto →
        comparisons anaEnv { w with clock := q.1 } q.2 =
          ((passwordSite anaEnv q.2).called (exec anaEnv) { w with clock := q.1 }).elim []
            (comparisonOf dto.password) ∧
        ∀ text, (serve anaEnv q.1 q.2 w).1 = .error (.forbidden text) →
          (served anaEnv w q).users = w.users) newcomer passwordGuesses := by
  apply password_calls_le anaEnv 1 newcomer passwordGuesses
  have hguess : ∀ {w : World} {t : Time},
      passwordReturned anaEnv { w with clock := t } (passwordGuess t).2 ≠ some (1, true) →
      NoLoginRelief anaEnv 1 w (passwordGuess t) ∧ CarriesText anaEnv 1 w (passwordGuess t) := by
    intro w t h
    refine ⟨⟨fun _ _ => h, by rintro _ ⟨⟩, by rintro _ ⟨⟩⟩, ?_⟩
    rintro _ u ⟨⟩ _ _ _
    exact ⟨"otra", rfl⟩
  refine always_cons.mpr ⟨hguess (by decide +kernel), ?_⟩
  refine always_cons.mpr ⟨hguess (by decide +kernel), ?_⟩
  refine always_cons.mpr ⟨hguess (by decide +kernel), ?_⟩
  refine always_cons.mpr ⟨hguess (by decide +kernel), ?_⟩
  refine always_cons.mpr ⟨hguess (by decide +kernel), ?_⟩
  refine always_cons.mpr ⟨hguess (by decide +kernel), ?_⟩
  exact always_nil

/-- A login that gets to the password of the user, which is no text. -/
structure Textless (env : Env N) (w : World) (q : Timed N) (u : User) (dto : LoginDto N) : Prop where
  route : q.2.route = .login dto
  selected : w.findUser (.email (criterion env dto.email)) = some u
  unlocked : lockedAt q.1 u.lockedUntil = false
  textless : ∀ s, dto.password ≠ some (.str s)

/-- Its call is not counted: it leaves every row as it was. -/
theorem uncounted_of_textless {u : User} {dto : LoginDto N} (h : Textless env w q u dto) :
    callsPassword env u.id w q = true ∧ (served env w q).users = w.users := by
  have hfinal : finalRow env { w with clock := q.1 } q.2 = none := by
    have hno : ∀ s, dto.password ≠ some (.str s) := h.textless
    simp only [finalRow, h.route, loginRow, Option.bind_eq_none_iff]
    exact fun v _ => ite_self none
  have husers := serve_users env q.1 q.2 w
  rw [hfinal] at husers
  exact ⟨callsPassword_eq_true.mpr ⟨dto, u, h.route, h.selected, h.unlocked, rfl⟩, husers⟩

/-- So all of them call, however many there are. -/
theorem failures_of_textless {u : User} {rs : List (Timed N)}
    (hrs : ∀ q ∈ rs, ∃ dto, Textless env w q u dto) :
    failures (served env) (callsPassword env u.id) Prod.fst w rs = rs.map Prod.fst := by
  induction rs generalizing w with
  | nil => rfl
  | cons q rs ih =>
    obtain ⟨dto, hq⟩ := hrs q List.mem_cons_self
    obtain ⟨hcalls, husers⟩ := uncounted_of_textless hq
    have hrest : ∀ q' ∈ rs, ∃ dto, Textless env (served env w q) q' u dto := by
      intro q' hq'
      obtain ⟨dto, h⟩ := hrs q' (List.mem_cons_of_mem q hq')
      refine ⟨dto, h.route, ?_, h.unlocked, h.textless⟩
      rw [World.findUser, husers]
      exact h.selected
    rw [failures, if_pos hcalls, ih hrest]
    rfl

def numberGuess (t : Time) : Timed ℕ :=
  (t, ⟨.login ⟨some (.str "ana@verde.ec"), some (.num 7)⟩, .undefined, none, none, "::1"⟩)

def numberGuesses : List (Timed ℕ) :=
  [numberGuess 1000, numberGuess 2000, numberGuess 3000, numberGuess 4000, numberGuess 5000,
    numberGuess 6000]

theorem noLoginRelief_numberGuess (w : World) (t : Time) :
    NoLoginRelief anaEnv 1 w (numberGuess t) := by
  refine ⟨fun dto hr hreturned => ?_, by rintro _ ⟨⟩, by rintro _ ⟨⟩⟩
  obtain ⟨u, hl, -⟩ := (passwordReturned_login hr).mp hreturned
  obtain ⟨s, hs, -⟩ := hl.password
  cases hr
  cases hs

/-- Of a number as the password `bcrypt.compare` throws, and no try is counted. -/
theorem numbers_uncounted : AllRows Created newcomer ∧
    Always (served anaEnv) (NoLoginRelief anaEnv 1) newcomer numberGuesses ∧
    (failures (served anaEnv) (callsPassword anaEnv 1) Prod.fst newcomer numberGuesses).countP
      (inWindow 1000 lockoutMs) = 6 := by
  have hguess : ∀ q ∈ numberGuesses, ∃ t, q = numberGuess t := by
    intro q hq
    simp only [numberGuesses, List.mem_cons, List.not_mem_nil, or_false] at hq
    rcases hq with rfl | rfl | rfl | rfl | rfl | rfl
    all_goals exact ⟨_, rfl⟩
  refine ⟨newcomer_created, fun before q after hsplit => ?_, ?_⟩
  · obtain ⟨t, rfl⟩ := hguess q (by simp [hsplit])
    exact noLoginRelief_numberGuess _ t
  · obtain ⟨u, hu, hid, hl⟩ : ∃ u, newcomer.findUser (.email (some "ana@verde.ec")) = some u ∧
        u.id = 1 ∧ u.lockedUntil = none := ⟨_, rfl, rfl, rfl⟩
    have hall : ∀ q ∈ numberGuesses, ∃ dto, Textless anaEnv newcomer q u dto := by
      intro q hq
      obtain ⟨t, rfl⟩ := hguess q hq
      exact ⟨_, rfl, hu, hl ▸ rfl, by rintro _ ⟨⟩⟩
    rw [← hid, failures_of_textless hall]
    decide

end VerdeAuth.GuessingBounds
