import VerdeAuth.SecondFactorGate
import VerdeAuth.TokenRaces

/-!
# Verifications with a token that no row stores

The lookup by the temporary token answers with the first row where the token is
missing or `null`, and with the row that stores its text where it is no string.
-/

namespace VerdeAuth.UnmatchedTokens

open JsonTexts KeyedTables IamTables IamOperations ResumptionPrograms UsersService AuthService
open IamEndpoints IamRules IamAssumptions UserRowChanges RequestEndings
open SecondFactorGate

variable {N : Type}

/-- A user row stores the token. -/
def Stored (w : World) (tempToken : JsonField N) : Prop :=
  ∃ u ∈ w.users.rows, ∃ s, u.mfaTempToken = some s ∧ tempToken = some (.str s)

/-- The row that the lookup takes for the one that stores the token. -/
def mistaken (env : Env N) (w : World) : JsonField N → Option User
  | none => w.users.rows.head?
  | some .null => w.users.rows.head?
  | some (.str _) => none
  | some v => w.findUser (.mfaTempToken (some (env.sqlText v)))

section Untouched

variable [JsNumber N] [DecidableEq N]

/-- The answer is a failure without tokens, and no user row changes. -/
def Untouched (env : Env N) (t : Time) (r : Request N) (w : World) : Prop :=
  ((∃ text, (serve env t r w).1 = .ok (.message false text)) ∨
    ∃ e, (serve env t r w).1 = .error e) ∧
  (serve env t r w).2.users = w.users

/-- The request gets no factor of the user checked: the pending token has expired, the
factor is locked, or its check throws. -/
def Unchecked (env : Env N) (t : Time) (route : Route N) (u : User) : Prop :=
  u.mfaTempTokenExpires.getD 0 < t ∨ lockedAt t u.mfaLockedUntil = true ∨
    factorResult env t u route = none

variable {env : Env N} {w : World} {t : Time} {r : Request N} {tempToken : JsonField N}

omit [JsNumber N] [DecidableEq N] in
theorem findUser_of_not_stored (h : ¬ Stored w tempToken) :
    w.findUser (.mfaTempToken (criterion env tempToken)) = mistaken env w tempToken := by
  rcases tempToken with _ | (_ | _ | _ | s | _ | _)
  case some.str =>
    apply List.find?_eq_none.mpr
    intro u hu hmatch
    exact h ⟨u, hu, s, by simpa [criterion, UserWhere.matches] using hmatch, rfl⟩
  case none => exact Table.findOne_true w.users
  case some.null => exact Table.findOne_true w.users
  all_goals rfl

omit [JsNumber N] [DecidableEq N] in
variable (env) in
theorem mistaken_of_stored (h : Stored w tempToken) : mistaken env w tempToken = none := by
  obtain ⟨u, -, s, -, rfl⟩ := h
  rfl

variable (env t) in
omit [JsNumber N] [DecidableEq N] in
theorem factorSelected_iff (hp : presented r.route = some tempToken) (h : ¬ Stored w tempToken)
    (u : User) : FactorSelected env { w with clock := t } r.route u ↔
      mistaken env w tempToken = some u := by
  have hfind : ({ w with clock := t } : World).findUser
      (.mfaTempToken (criterion env tempToken)) = mistaken env w tempToken :=
    findUser_of_not_stored h
  simp [FactorSelected, hp, hfind]

/-- A factor that was checked changes the row or hands out tokens. -/
theorem not_untouched_of_checked (hp : presented r.route = some tempToken) {valid : Bool}
    {u : User} (hu : FactorChecked env { w with clock := t } r.route valid u) :
    ¬ Untouched env t r w := by
  rintro ⟨hfailure, hsame⟩
  have hending := factor_of_route env (q := (t, r)) hp w
  generalize hres : (serve env t r w).1 = res at hending hfailure
  cases hending with
  | rejected text hlocked hw =>
    have hlock := hlocked u hu.selected hu.fresh
    rw [hu.unlocked] at hlock
    cases hlock
  | broken hu' hf hw =>
    rw [hu.selected.unique hu', hu.factor] at hf
    cases hf
  | @refused u' w' text h' hw =>
    have hrow : w.users.get? u'.id = some u' := by
      obtain ⟨token, -, hfind⟩ := h'.selected
      exact get?_of_findUser hfind
    have hput : (serve env t r w).2.users.get? u'.id = some (mfaAttemptFailed t u') := by
      rw [hw]
      exact Table.get?_put_self w.users (mfaAttemptFailed t u')
    rw [hsame, hrow] at hput
    have hcount := congrArg User.mfaFailedAttempts (Option.some.inj hput)
    exact absurd hcount (Nat.ne_of_lt (Nat.lt_succ_self _))
  | accepted tokens h' hw ht =>
    rcases hfailure with ⟨text, hmessage⟩ | ⟨e, herror⟩
    · cases hmessage
    · cases herror

/-- A verification that gets no factor checked touches nobody. -/
theorem untouched_of_unchecked (hp : presented r.route = some tempToken)
    (h : ∀ u, FactorSelected env { w with clock := t } r.route u → Unchecked env t r.route u) :
    Untouched env t r w := by
  have hchecked : ∀ valid u, ¬ FactorChecked env { w with clock := t } r.route valid u := by
    intro valid u hu
    rcases h u hu.selected with hexpired | hlocked | hthrow
    · exact absurd hu.fresh (Nat.not_le.mpr hexpired)
    · have hunlocked := hu.unlocked
      rw [hlocked] at hunlocked
      cases hunlocked
    · have hfactor := hu.factor
      rw [hthrow] at hfactor
      cases hfactor
  have hending := factor_of_route env (q := (t, r)) hp w
  rw [Untouched]
  generalize (serve env t r w).1 = res at hending ⊢
  cases hending with
  | rejected text hu hw => exact ⟨Or.inl ⟨text, rfl⟩, hw.1⟩
  | broken hu hf hw => exact ⟨Or.inr ⟨_, rfl⟩, hw.1⟩
  | refused text h' hw => exact absurd h' (hchecked _ _)
  | accepted tokens h' hw ht => exact absurd h' (hchecked _ _)

/-- A verification with a token that no row stores touches nobody exactly when the row
that the lookup mistakes, if there is one, gets no factor checked. -/
theorem untouched_iff (env : Env N) (t : Time) (w : World) (r : Request N)
    (tempToken : JsonField N) (hp : presented r.route = some tempToken) :
    (¬ Stored w tempToken → Untouched env t r w) ↔
      ∀ u, mistaken env w tempToken = some u → Unchecked env t r.route u := by
  by_cases hstored : Stored w tempToken
  · have hnone := mistaken_of_stored env hstored
    constructor
    · intro _ u hu
      rw [hnone] at hu
      cases hu
    · exact fun _ hnot => absurd hstored hnot
  · constructor
    · intro h u hu
      by_contra hchecked
      obtain ⟨hexpired, hrest⟩ := not_or.mp hchecked
      obtain ⟨hlocked, hthrow⟩ := not_or.mp hrest
      obtain ⟨valid, hvalid⟩ := Option.ne_none_iff_exists'.mp hthrow
      have hselected := (factorSelected_iff env t hp hstored u).mpr hu
      have hfactor : FactorChecked env { w with clock := t } r.route valid u :=
        ⟨hselected, Nat.le_of_not_lt hexpired, by simpa using hlocked, hvalid⟩
      exact not_untouched_of_checked hp hfactor (h hstored)
    · intro h _
      apply untouched_of_unchecked hp
      intro u hu
      exact h u ((factorSelected_iff env t hp hstored u).mp hu)

end Untouched

/-- A verification without a token, with Ana's code. -/
def withoutToken (code : String) : Request ℕ :=
  ⟨.verify none (some (.str code)), .undefined, none, none, "::1"⟩

/-- Ana waits for her second factor. A request without a token and with a wrong code
counts against her, and one with the right code gets her tokens. -/
theorem touched_without_token :
    ¬ Stored TokenRaces.pendingWorld (none : JsonField ℕ) ∧
    (serve (plainEnv []) 1000 (withoutToken "000000") TokenRaces.pendingWorld).2.users ≠
      TokenRaces.pendingWorld.users ∧
    ∃ t, (serve (plainEnv []) 1000 (withoutToken "000007") TokenRaces.pendingWorld).1 =
      .ok (.verified t) := by
  refine ⟨?_, by decide, _, rfl⟩
  rintro ⟨u, -, s, -, hs⟩
  cases hs

theorem untouched_iff_withoutToken :
    (¬ Stored TokenRaces.pendingWorld (none : JsonField ℕ) →
      Untouched (plainEnv []) 1000 (withoutToken "000000") TokenRaces.pendingWorld) ↔
    ∀ u, mistaken (plainEnv []) TokenRaces.pendingWorld none = some u →
      Unchecked (plainEnv []) 1000 (withoutToken "000000").route u :=
  untouched_iff (plainEnv []) 1000 TokenRaces.pendingWorld (withoutToken "000000") none rfl

end VerdeAuth.UnmatchedTokens
