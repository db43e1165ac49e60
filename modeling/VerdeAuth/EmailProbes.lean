import VerdeAuth.LockoutConfiguration
import VerdeAuth.RunHistories

/-!
# Probing for emails

Logins with wrong passwords are answered the same for an email that no account has
and for one that an account has, until one of them falls in the lock of the account.
-/

namespace VerdeAuth.EmailProbes

open JsonTexts IamTables IamOperations AuthService IamEndpoints IamRules IamAssumptions
open UserRowChanges RequestEndings RequestRuns SecondFactorGate LockoutConfiguration RunHistories

variable {N : Type}

/-- The answer to a wrong email or a wrong password. -/
def refusal : Except Failure Reply := .error (.unauthorized "Credenciales inválidas")

/-- The answer while the account is locked. -/
def blocked : Except Failure Reply := .error (.forbidden "Cuenta bloqueada. Intente más tarde.")

theorem blocked_ne : blocked ≠ refusal := by
  intro h
  cases h

section Rows

variable {env : Env N} {u : User} {as : List Attempt}

/-- The attempt does not fall in the lock of the row. -/
def Open (u : User) (a : Attempt) : Prop := lockedAt a.time u.lockedUntil = false

/-- What attempts with wrong passwords on the row are answered with. -/
def rowAnswers (env : Env N) : User → List Attempt → List (Except Failure Reply)
  | _, [] => []
  | u, a :: as =>
    (if lockedAt a.time u.lockedUntil then blocked else refusal) ::
      rowAnswers env (attempted env u a) as

theorem rowAnswers_eq_iff : rowAnswers env u as = List.replicate as.length refusal ↔
    Always (attempted env) Open u as := by
  induction as generalizing u with
  | nil => exact iff_of_true rfl always_nil
  | cons a as ih =>
    rw [rowAnswers, List.length_cons, List.replicate_succ, List.cons.injEq, ih, always_cons]
    apply and_congr_left'
    unfold Open
    split
    · next hl => simp [hl, blocked_ne]
    · next hl => simp [hl]

/-- As long as no attempt comes after the fifth failure, none falls in a lock. -/
theorem always_open (hl : ∀ a ∈ as, Open u a)
    (hwrong : ∀ a ∈ as, env.bcryptCompare a.password u.passwordHash = false)
    (hfew : as.length ≤ max 1 (5 - u.failedAttempts)) : Always (attempted env) Open u as := by
  rintro before a after rfl
  simp only [List.length_append, List.length_cons] at hfew
  have hmem : a ∈ before ++ a :: after := by simp
  cases before with
  | nil => exact hl a hmem
  | cons b before =>
    have hfour : u.failedAttempts + (b :: before).length < 5 := by
      rw [List.length_cons] at hfew ⊢
      omega
    have hsame : ((b :: before).foldl (attempted env) u).lockedUntil = u.lockedUntil :=
      (wrong_attempts (fun c hc => hl c (List.mem_append_left _ hc))
        (fun c hc => hwrong c (List.mem_append_left _ hc)) hfour).2
    change lockedAt a.time ((b :: before).foldl (attempted env) u).lockedUntil = false
    rw [hsame]
    exact hl a hmem

end Rows

variable [JsNumber N] [DecidableEq N] {s : Service N} {w w' : World} {email : String} {u : User}
  {a : Attempt} {as : List Attempt}

/-- The answers to the logins, one after the other. -/
def answers (s : Service N) (email : String) : World → List Attempt → List (Except Failure Reply)
  | _, [] => []
  | w, a :: as =>
    (s.serve (a.request N email) w).1 :: answers s email (s.serve (a.request N email) w).2 as

theorem serve_absent (h : w.findUser (.email (some email)) = none) (a : Attempt) :
    (s.serve (a.request N email) w).1 = refusal ∧
      (s.serve (a.request N email) w).2.findUser (.email (some email)) = none := by
  have hending := login_of_route s.env (q := a.request N email) rfl w
  obtain ⟨hanswer, hw⟩ := hending.unauthorized_of_none h
  exact ⟨hanswer, (hw.findUser (.email (some email))).trans h⟩

theorem serve_wrong (h : w.findUser (.email (some email)) = some u) (hl : Open u a)
    (hwrong : s.env.bcryptCompare a.password u.passwordHash = false) :
    (s.serve (a.request N email) w).1 = refusal := by
  have hending := login_of_route s.env (q := a.request N email) rfl w
  have hchecked : LoginChecked s.env { w with clock := a.time }
      ⟨some (.str email), some (.str a.password)⟩ false u := ⟨h, hl, a.password, rfl, hwrong⟩
  exact (hending.unauthorized_of_checked hchecked).1

theorem answers_absent (h : w.findUser (.email (some email)) = none) (as : List Attempt) :
    answers s email w as = List.replicate as.length refusal := by
  induction as generalizing w with
  | nil => rfl
  | cons a as ih =>
    obtain ⟨hanswer, hafter⟩ := serve_absent (s := s) h a
    rw [answers, hanswer, ih hafter]
    rfl

theorem answers_present (h : w.findUser (.email (some email)) = some u)
    (hwrong : ∀ a ∈ as, s.env.bcryptCompare a.password u.passwordHash = false) :
    answers s email w as = rowAnswers s.env u as := by
  induction as generalizing w u with
  | nil => rfl
  | cons a as ih =>
    have hfalse := hwrong a List.mem_cons_self
    have hafter := selected_serve (s := s) (a := a) h fun hright => by simp [hfalse] at hright
    have hrest : ∀ b ∈ as, s.env.bcryptCompare b.password (attempted s.env u a).passwordHash =
        false := by
      intro b hb
      rw [(sameAccount_attempted s.env u a).passwordHash]
      exact hwrong b (List.mem_cons_of_mem a hb)
    rw [answers, ih hafter hrest, rowAnswers]
    congr 1
    split
    · next hl => exact (serve_locked h hl).1
    · next hl => exact serve_wrong h (Bool.eq_false_iff.mpr hl) hfalse

/-- Whether an email has an account shows in the answers to wrong passwords only where
one falls in the lock that those before it leave. -/
theorem answers_to_wrong_passwords (s : Service N) (email : String) (as : List Attempt)
    (w w' : World) (u : User) (h : w.findUser (.email (some email)) = none)
    (h' : w'.findUser (.email (some email)) = some u)
    (hwrong : ∀ a ∈ as, s.env.bcryptCompare a.password u.passwordHash = false) :
    answers s email w as = List.replicate as.length refusal ∧
      answers s email w' as = rowAnswers s.env u as ∧
      (answers s email w' as = answers s email w as ↔ Always (attempted s.env) Open u as) ∧
      ((∀ a ∈ as, Open u a) → as.length ≤ max 1 (5 - u.failedAttempts) →
        answers s email w' as = answers s email w as) := by
  have hanswers := answers_absent (s := s) h as
  have hanswers' := answers_present h' hwrong
  have hsame : answers s email w' as = answers s email w as ↔ Always (attempted s.env) Open u as := by
    rw [hanswers, hanswers']
    exact rowAnswers_eq_iff
  exact ⟨hanswers, hanswers', hsame, fun hl hfew => hsame.mpr (always_open hl hwrong hfew)⟩

section Guesses

/-- The service with its defaults. -/
def service : Service ℕ := Service.new (plainEnv []) fun _ => none

def eva : User := User.create 1 "eva@verde.ec" "$2b$clave"

theorem guesses_wrong (n : ℕ) : ∀ a ∈ wrongOnes "clave" n,
    service.env.bcryptCompare a.password eva.passwordHash = false := by
  intro a ha
  rw [List.eq_of_mem_replicate ha]
  decide

/-- Six wrong passwords tell a new account from none. -/
theorem sixth_guess_tells : World.empty.findUser (.email (some "eva@verde.ec")) = none ∧
    eva.lockedUntil = none ∧
    (∀ a ∈ wrongOnes "clave" 6,
      service.env.bcryptCompare a.password eva.passwordHash = false) ∧
    (answers service "eva@verde.ec" (World.empty.saveUser eva) (wrongOnes "clave" 6)).getLast? =
      some blocked ∧
    answers service "eva@verde.ec" (World.empty.saveUser eva) (wrongOnes "clave" 6) ≠
      answers service "eva@verde.ec" World.empty (wrongOnes "clave" 6) := by
  have hlast : (answers service "eva@verde.ec" (World.empty.saveUser eva)
      (wrongOnes "clave" 6)).getLast? = some blocked := by rfl
  have hlast' : (answers service "eva@verde.ec" World.empty (wrongOnes "clave" 6)).getLast? =
      some refusal := by rfl
  refine ⟨by rfl, rfl, guesses_wrong 6, hlast, fun h => ?_⟩
  rw [h, hlast'] at hlast
  exact blocked_ne (Option.some.inj hlast).symm

theorem answers_to_guesses :
    answers service "eva@verde.ec" World.empty (wrongOnes "clave" 5) = List.replicate 5 refusal ∧
      answers service "eva@verde.ec" (World.empty.saveUser eva) (wrongOnes "clave" 5) =
        rowAnswers service.env eva (wrongOnes "clave" 5) ∧
      (answers service "eva@verde.ec" (World.empty.saveUser eva) (wrongOnes "clave" 5) =
          answers service "eva@verde.ec" World.empty (wrongOnes "clave" 5) ↔
        Always (attempted service.env) Open eva (wrongOnes "clave" 5)) ∧
      ((∀ a ∈ wrongOnes "clave" 5, Open eva a) → 5 ≤ max 1 (5 - eva.failedAttempts) →
        answers service "eva@verde.ec" (World.empty.saveUser eva) (wrongOnes "clave" 5) =
          answers service "eva@verde.ec" World.empty (wrongOnes "clave" 5)) :=
  answers_to_wrong_passwords service "eva@verde.ec" (wrongOnes "clave" 5) World.empty
    (World.empty.saveUser eva) eva (by rfl) (by rfl) (guesses_wrong 5)

end Guesses

end VerdeAuth.EmailProbes
