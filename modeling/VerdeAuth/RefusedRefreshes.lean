import VerdeAuth.CertainReplies
import VerdeAuth.RefreshTokenChain

/-!
# Refreshes that are all refused

A session stores the hash of a token that is no signed one, while a refresh has to present
a signed token that matches a session. So where no session matches a signed token at first,
none ever will, and every refresh is refused, whatever runs beside it.
-/

namespace VerdeAuth.RefusedRefreshes

open JsonTexts KeyedTables IamTables IamOperations ResumptionPrograms InterleavedPools UsersService
open TokenServices AuthService IamEndpoints IamAssumptions UserRowChanges RequestFootprints
open ResponseContracts RequestContracts CertainReplies RefreshTokenChain

variable {N : Type} {env : Env N} {w w' : World}

/-- No token with a valid signature matches the hash. -/
def Unsigned (env : Env N) (hash : String) : Prop :=
  ∀ x t p, env.jwtVerify (refreshKey env) x t = some p → env.bcryptCompare x hash = false

/-- The tokens the session store makes do not verify. -/
def SessionTokensRejected (env : Env N) : Prop :=
  ∀ a b c d t, env.jwtVerify (refreshKey env) (sessionToken env a b c d) t = none

theorem unsigned_sessionToken (hbcrypt : IdealBcrypt env) (hrejected : SessionTokensRejected env)
    (salt a b c d : ℕ) : Unsigned env (env.bcryptHash salt (sessionToken env a b c d)) := by
  intro x t p hx
  rw [← Bool.not_eq_true, hbcrypt]
  rintro rfl
  rw [hrejected] at hx
  cases hx

/-- The sessions there are. -/
def AllUnsigned (env : Env N) (w : World) : Prop :=
  ∀ s ∈ w.sessions.rows, Unsigned env s.refreshToken

/-- Writes of such sessions. -/
def StoresUnsigned (env : Env N) : Op N → Prop
  | .saveSession s => Unsigned env s.refreshToken
  | .insertSession _ hash _ _ _ => Unsigned env hash
  | .revokeSessions _ => False
  | .deleteSessions _ => False
  | _ => True

/-- Such sessions are found, and hashes are compared. -/
def ShowsUnsigned (env : Env N) : Contract N
  | .findSessions _, ss => ∀ s ∈ ss, Unsigned env s.refreshToken
  | .bcryptCompare data hash, b => b = env.bcryptCompare data hash
  | _, _ => True

section Steps

theorem showsUnsigned_exec (h : AllUnsigned env w) (o : Op N) :
    ShowsUnsigned env o (exec env o w).1 := by
  cases o with
  | findSessions i => exact fun s hs => h s (List.mem_filter.mp hs).1
  | bcryptCompare data hash => rfl
  | _ => trivial

theorem allUnsigned_exec {o : Op N} (h : AllUnsigned env w) (ho : StoresUnsigned env o) :
    AllUnsigned env (exec env o w).2 := by
  cases o with
  | saveSession s =>
    intro s' hs'
    rcases Table.mem_put hs' with rfl | ⟨hs', -⟩
    · exact ho
    · exact h s' hs'
  | insertSession i hash device ip e =>
    intro s' hs'
    rcases Table.mem_put hs' with rfl | ⟨hs', -⟩
    · exact ho
    · exact h s' hs'
  | revokeSessions i => exact ho.elim
  | deleteSessions t => exact ho.elim
  | _ => exact h

end Steps

section Requests

/-- How a refresh is refused. -/
def Refused (res : Except Failure Reply) : Prop :=
  res = .error (.unauthorized "Refresh token inválido") ∨
    res = .error (.unauthorized "Refresh token inválido o expirado")

/-- The rest of a refresh that only reads and is refused. -/
abbrev Refuses (env : Env N) (p : Iam N Reply) : Prop :=
  Under (ShowsUnsigned env) (Reads env) Refused p

theorem refuses_verifyToken {key : String} {token : JsonField N} {f : Option JwtPayload → Iam N Reply}
    (hnone : Refuses env (f none))
    (hsome : ∀ x t p, token = some (.str x) → env.jwtVerify key x t = some p →
      Refuses env (f (some p))) : Refuses env (verifyToken env key token >>= f) := by
  rcases token with _ | (_ | _ | _ | x | _ | _)
  case some.str =>
    refine ⟨fun _ => rfl, fun t _ => ?_⟩
    change Refuses env (f (env.jwtVerify key x t))
    cases hx : env.jwtVerify key x t with
    | none => exact hnone
    | some p => exact hsome x t p rfl hx
  all_goals exact hnone

/-- No session is found for a token that verifies. -/
theorem refuses_anyValid {x : String} {t : Time} {p : JwtPayload}
    (hx : env.jwtVerify (refreshKey env) x t = some p) {ss : List Session}
    (hss : ∀ s ∈ ss, Unsigned env s.refreshToken) {f : Bool → Iam N Reply}
    (hf : Refuses env (f false)) : Refuses env (anyValid (some (.str x)) ss >>= f) := by
  induction ss with
  | nil => exact hf
  | cons s ss ih =>
    rw [anyValid, bind_assoc]
    refine ⟨fun _ => rfl, fun b hb => ?_⟩
    have hfalse : b = false := hb.trans (hss s List.mem_cons_self x t p hx)
    subst hfalse
    exact ih fun s' hs' => hss s' (List.mem_cons_of_mem s hs')

theorem refuses_refresh (token : JsonField N) (ip device : String) :
    Refuses env (refresh env token ip device) := by
  rw [refresh, verifyRefreshToken]
  refine refuses_verifyToken (.inl rfl) fun x t p htoken hx => ?_
  subst htoken
  change Refuses env (validateRefreshToken _ _ >>= _)
  rw [validateRefreshToken, bind_assoc]
  refine ⟨fun _ => rfl, fun ss hss => ?_⟩
  exact refuses_anyValid hx hss (.inr rfl)

variable [JsNumber N] [DecidableEq N] {r : Request N}

theorem storesUnsigned_of_asks (hbcrypt : IdealBcrypt env) (hrejected : SessionTokensRejected env)
    {o : Op N} (ho : Asks env (ShowsUnsigned env) r o) : StoresUnsigned env o := by
  cases ho with
  | newSession => exact unsigned_sessionToken hbcrypt hrejected _ _ _ _ _
  | @revoked token i ss s _ hss hs => exact hss s hs
  | _ => trivial

/-- From sessions that match no signed token on, every refresh only reads and is refused,
and no session is ever stored that matches one. -/
theorem refreshes_refused (env : Env N) (hbcrypt : IdealBcrypt env)
    (hrejected : SessionTokensRejected env) (w : World)
    (hw : ∀ s ∈ w.sessions.rows, Unsigned env s.refreshToken) (rs : List (Request N))
    (sched : List (Turn Time)) :
    let c := together env w rs sched
    (∀ s ∈ c.state.sessions.rows, Unsigned env s.refreshToken) ∧
      ∀ (k : ℕ) r token, rs[k]? = some r → r.route = .refresh token →
        (∀ o res, .op k o res ∈ c.log → Reads env o) ∧ (∀ y, c.threads[k]? ≠ some (.ret y)) ∧
          ∀ e, c.threads[k]? = some (.throw e) → Refused (.error e) := by
  intro c
  let Refreshes : ℕ → Prop := fun k => ∃ r token, rs[k]? = some r ∧ r.route = .refresh token
  have hown : ∀ (k : ℕ) r, rs[k]? = some r → Under (ShowsUnsigned env)
      (fun o => Refreshes k → Reads env o) (fun res => Refreshes k → Refused res)
      (handle env r) := by
    refine fun k r hr => under_when ?_
    rintro ⟨r', token, hr', hroute⟩
    cases hr.symm.trans hr'
    rw [handle, hroute]
    exact refuses_refresh token _ _
  obtain ⟨hstate, hthreads, hlog⟩ := under_together (A := fun _ => ShowsUnsigned env)
    sched (fun _ o w' hw' ho _ => ⟨showsUnsigned_exec hw' o, allUnsigned_exec hw' ho.1⟩)
    (fun _ _ _ hw' => hw') hw fun k r hr =>
      under_asks (fun _ ho => storesUnsigned_of_asks hbcrypt hrejected ho) (hown k r hr)
  refine ⟨hstate, fun k r token hr hroute => ?_⟩
  have hk : Refreshes k := ⟨r, token, hr, hroute⟩
  refine ⟨fun o res hmem => (hlog k o res hmem).2 hk, fun y hy => ?_, fun e he => ?_⟩
  · rcases hthreads k _ hy hk with h | h <;> cases h
  · exact hthreads k _ he hk

end Requests

theorem sessionTokensRejected_plainEnv (issued : List JwtPayload) :
    SessionTokensRejected (plainEnv issued) := by
  intro a b c d t
  have hnone : ∀ p ∈ issued, ¬ (decide (plainEnv.plainSign (refreshKey (plainEnv issued)) p =
      sessionToken (plainEnv issued) a b c d) && decide (t / 1000 < p.exp)) = true := by
    intro p _ hp
    simp only [Bool.and_eq_true, decide_eq_true_eq] at hp
    exact sessionTokensUnsigned_plainEnv issued _ p a b c d hp.1
  exact List.find?_eq_none.mpr hnone

/-- Eva signs in, and what she is given is presented in the meantime. -/
def evaRequests : List (Request ℕ) :=
  [evaLogin, ⟨.refresh (some (.str evaToken.text)), .uuid 3, none, none, "::1"⟩]

def evaTurns : List (Turn Time) :=
  List.replicate 17 (.thread 0) ++ .outside 2000 :: List.replicate 9 (.thread 1)

theorem refreshes_refused_evaRequests :
    let c := together evaEnv evaWorld evaRequests evaTurns
    (∃ s, c.state.sessions.rows = [s] ∧ Unsigned evaEnv s.refreshToken) ∧
      (∀ o res, .op 1 o res ∈ c.log → Reads evaEnv o) ∧
      c.threads[1]? = some (.throw (.unauthorized "Refresh token inválido o expirado")) := by
  have hnone : ∀ s ∈ evaWorld.sessions.rows, Unsigned evaEnv s.refreshToken := by
    intro s hs
    cases hs
  obtain ⟨hstate, hrefused⟩ := refreshes_refused evaEnv (idealBcrypt_plainEnv _)
    (sessionTokensRejected_plainEnv _) evaWorld hnone evaRequests evaTurns
  obtain ⟨s, hs⟩ : ∃ s, (together evaEnv evaWorld evaRequests evaTurns).state.sessions.rows = [s] :=
    ⟨_, rfl⟩
  refine ⟨⟨s, hs, hstate s (hs ▸ List.mem_cons_self)⟩, ?_, by rfl⟩
  exact (hrefused 1 _ _ rfl rfl).1

end VerdeAuth.RefusedRefreshes
