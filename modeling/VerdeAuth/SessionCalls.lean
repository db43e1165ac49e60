import VerdeAuth.RunHistories
import VerdeAuth.TokenServices

/-!
# Calls of the session service

The five calls of `SessionsService` with their answers, what each does when it
runs on its own, and the operations it asks for.
-/

namespace VerdeAuth.SessionCalls

open JsonTexts KeyedTables IamTables IamOperations ResumptionPrograms UsersService RunHistories

variable {N α β : Type}

inductive Call where
  | createRefreshToken (userId : UserId) (deviceInfo ipAddress : String)
  | validateRefreshToken (userId : UserId) (refreshToken : String)
  | revokeSession (userId : UserId) (refreshToken : String)
  | revokeAllUserSessions (userId : UserId)
  | cleanupExpiredSessions
  deriving DecidableEq

inductive Answer where
  | token (refreshToken : String)
  | valid (b : Bool)
  | done
  deriving DecidableEq

def Call.program (env : Env N) : Call → Iam N Answer
  | .createRefreshToken userId deviceInfo ipAddress => do
    let refreshToken ← TokenServices.createRefreshToken env userId deviceInfo ipAddress
    return .token refreshToken
  | .validateRefreshToken userId refreshToken => do
    let valid ← TokenServices.validateRefreshToken (.uuid userId) (some (.str refreshToken))
    return .valid valid
  | .revokeSession userId refreshToken => do
    TokenServices.revokeSession (.uuid userId) (some (.str refreshToken))
    return .done
  | .revokeAllUserSessions userId => do
    TokenServices.revokeAllUserSessions userId
    return .done
  | .cleanupExpiredSessions => do
    TokenServices.cleanupExpiredSessions
    return .done

/-- A call and the time it is made at. -/
abbrev TimedCall := Time × Call

def answer (env : Env N) (w : World) (c : TimedCall) : Except Failure Answer :=
  ((c.2.program env).run (exec env) { w with clock := c.1 }).1

/-- The state after a call that runs on its own. -/
def after (env : Env N) (w : World) (c : TimedCall) : World :=
  ((c.2.program env).run (exec env) { w with clock := c.1 }).2

/-- The token that `generateToken` makes from the draws at a point. -/
def tokenAt (env : Env N) (k : ℕ) : String :=
  env.random36 k ++ env.random36 (k + 1) ++ env.random36 (k + 2) ++ env.random36 (k + 3)

section Runs

variable {env : Env N} {w : World}

theorem run_anyValid (token : String) (ss : List Session) (w : World) :
    (TokenServices.anyValid (some (.str token)) ss : Iam N Bool).run (exec env) w =
      (.ok (ss.any fun s => env.bcryptCompare token s.refreshToken && w.clock < s.expiresAt), w) := by
  induction ss with
  | nil => rfl
  | cons s ss ih =>
    cases hc : env.bcryptCompare token s.refreshToken with
    | false => simp [TokenServices.anyValid, UsersService.compare, exec, hc, ih]
    | true =>
      by_cases ht : w.clock < s.expiresAt
      · simp [TokenServices.anyValid, UsersService.compare, exec, now, hc, ht]
      · simp [TokenServices.anyValid, UsersService.compare, exec, now, hc, ht, ih]

theorem run_validateRefreshToken (i : UserId) (token : String) (w : World) :
    (TokenServices.validateRefreshToken (.uuid i) (some (.str token)) : Iam N Bool).run (exec env) w =
      (.ok ((w.findSessions (some i)).any fun s =>
        env.bcryptCompare token s.refreshToken && w.clock < s.expiresAt), w) := by
  simp [TokenServices.validateRefreshToken, TokenServices.findSessions, exec, run_anyValid]

/-- The row `revokeFirst` marks. -/
def firstMatch (env : Env N) (token : String) (ss : List Session) : Option Session :=
  ss.find? fun s => env.bcryptCompare token s.refreshToken

theorem run_revokeFirst (token : String) (ss : List Session) (w : World) :
    (TokenServices.revokeFirst (some (.str token)) ss : Iam N Unit).run (exec env) w =
      (.ok (), (firstMatch env token ss).elim w fun s => w.saveSession { s with isRevoked := true }) := by
  induction ss with
  | nil => rfl
  | cons s ss ih =>
    cases hc : env.bcryptCompare token s.refreshToken with
    | false =>
      simp [TokenServices.revokeFirst, UsersService.compare, exec, hc, ih, firstMatch]
    | true => simp [TokenServices.revokeFirst, UsersService.compare, exec, hc, firstMatch]

theorem run_revokeSession (i : UserId) (token : String) (w : World) :
    (TokenServices.revokeSession (.uuid i) (some (.str token)) : Iam N Unit).run (exec env) w =
      (.ok (), (firstMatch env token (w.findSessions (some i))).elim w fun s =>
        w.saveSession { s with isRevoked := true }) := by
  simp [TokenServices.revokeSession, TokenServices.findSessions, exec, run_revokeFirst]

end Runs

/-! The operations of the session functions. -/

/-- Sessions are saved as revoked ones, and inserted with the hash of a token. -/
def SessionOp (env : Env N) : Op N → Prop
  | .findSessions _ => True
  | .insertSession _ hash _ _ _ => ∃ salt token, hash = env.bcryptHash salt token
  | .saveSession s => s.isRevoked = true
  | .revokeSessions _ => True
  | .deleteSessions _ => True
  | .now => True
  | .draw => True
  | .bcryptCompare _ _ => True
  | _ => False

def SessionOnly (env : Env N) (p : Iam N α) : Prop := Prog.Every (SessionOp env) (fun _ => True) p

section Footprints

variable {env : Env N}

theorem SessionOnly.bind {p : Iam N α} {f : α → Iam N β} (hp : SessionOnly env p)
    (hf : ∀ a, SessionOnly env (f a)) : SessionOnly env (p >>= f) := Prog.Every.seq hp hf

theorem sessionOnly_ret (a : α) : SessionOnly env (.ret a : Iam N α) := trivial

theorem sessionOnly_throw (e : Failure) : SessionOnly env (.throw e : Iam N α) := trivial

theorem sessionOnly_perform (o : Op N) (ho : SessionOp env o) :
    SessionOnly env (Prog.perform o : Iam N _) := ⟨ho, fun _ => trivial⟩

theorem sessionOnly_now : SessionOnly env (now : Iam N Time) := sessionOnly_perform .now trivial

theorem sessionOnly_draw : SessionOnly env (draw : Iam N ℕ) := sessionOnly_perform .draw trivial

theorem sessionOnly_compare (token : JsonField N) (hash : String) :
    SessionOnly env (compare token hash) := by
  rcases token with _ | (_ | _ | _ | s | _ | _)
  case some.str => exact sessionOnly_perform (.bcryptCompare s hash) trivial
  all_goals exact sessionOnly_throw _

theorem sessionOnly_findSessions (i : IdParam) :
    SessionOnly env (TokenServices.findSessions i : Iam N _) := by
  cases i with
  | invalid => exact sessionOnly_throw _
  | undefined => exact sessionOnly_perform (.findSessions _) trivial
  | uuid i => exact sessionOnly_perform (.findSessions _) trivial

theorem sessionOnly_createRefreshToken (i : UserId) (deviceInfo ipAddress : String) :
    SessionOnly env (TokenServices.createRefreshToken env i deviceInfo ipAddress) := by
  have htoken : SessionOnly env (TokenServices.generateToken env) :=
    sessionOnly_draw.bind fun _ => sessionOnly_draw.bind fun _ => sessionOnly_draw.bind fun _ =>
      sessionOnly_draw.bind fun _ => sessionOnly_ret _
  apply htoken.bind
  intro token
  apply sessionOnly_draw.bind
  intro salt
  apply sessionOnly_now.bind
  intro t
  exact (sessionOnly_perform (.insertSession ..) ⟨salt, token, rfl⟩).bind fun _ => sessionOnly_ret _

theorem sessionOnly_anyValid (token : JsonField N) (ss : List Session) :
    SessionOnly env (TokenServices.anyValid token ss) := by
  induction ss with
  | nil => exact sessionOnly_ret _
  | cons s ss ih =>
    apply (sessionOnly_compare token _).bind
    intro b
    cases b with
    | false => exact ih
    | true =>
      apply sessionOnly_now.bind
      intro t
      split
      · exact sessionOnly_ret _
      · exact ih

theorem sessionOnly_revokeFirst (token : JsonField N) (ss : List Session) :
    SessionOnly env (TokenServices.revokeFirst token ss) := by
  induction ss with
  | nil => exact sessionOnly_ret _
  | cons s ss ih =>
    apply (sessionOnly_compare token _).bind
    intro b
    cases b with
    | false => exact ih
    | true => exact sessionOnly_perform (.saveSession _) rfl

theorem sessionOnly_validateRefreshToken (i : IdParam) (token : JsonField N) :
    SessionOnly env (TokenServices.validateRefreshToken i token) :=
  (sessionOnly_findSessions i).bind fun ss => sessionOnly_anyValid token ss

theorem sessionOnly_revokeSession (i : IdParam) (token : JsonField N) :
    SessionOnly env (TokenServices.revokeSession i token) :=
  (sessionOnly_findSessions i).bind fun ss => sessionOnly_revokeFirst token ss

end Footprints

end VerdeAuth.SessionCalls
