import Mathlib.Data.List.Induction
import VerdeAuth.IamAssumptions
import VerdeAuth.RequestRuns

/-!
# Two-factor gating

A pending temporary token is the one minted by its user's last login, and a
verification that returns tokens found it pending.
-/

namespace VerdeAuth.SecondFactorGate

open JsonTexts KeyedTables IamTables IamOperations ResumptionPrograms UsersService TokenServices
open MfaServices AuthService MfaController IamEndpoints IamRules IamAssumptions UserRowChanges
open RequestEndings RequestRuns

variable {N : Type} [JsNumber N] [DecidableEq N] {env : Env N} {w : World} {rs : List (Timed N)}
  {q : Timed N} {i : UserId} {token : String} {s : Time}

/-- The request logs the user in with the right password while MFA is enabled. -/
def MfaLogin (env : Env N) (w : World) (q : Timed N) (i : UserId) : Prop :=
  ∃ dto u, q.2.route = .login dto ∧ LoginChecked env { w with clock := q.1 } dto true u ∧
    u.id = i ∧ u.mfaEnabled = true

/-- The last login of the user with the right password while MFA was enabled was
at `s` and answered with the token. -/
def MintedLast (env : Env N) (w : World) (rs : List (Timed N)) (i : UserId) (token : String)
    (s : Time) : Prop :=
  ∃ before r after, rs = before ++ (s, r) :: after ∧
    MfaLogin env (serveAll env w before) (s, r) i ∧
    (∃ method biometric, (serve env s r (serveAll env w before)).1 =
      .ok (.needsMfa token method biometric)) ∧
    ∀ between q rest, after = between ++ q :: rest →
      ¬ MfaLogin env (serveAll env w (before ++ (s, r) :: between)) q i

/-- A later request that is no such login changes nothing about it. -/
theorem mintedLast_append (h : MintedLast env w rs i token s)
    (hq : ¬ MfaLogin env (serveAll env w rs) q i) : MintedLast env w (rs ++ [q]) i token s := by
  obtain ⟨before, r, after, rfl, hlogin, hreply, hlast⟩ := h
  refine ⟨before, r, after ++ [q], by simp, hlogin, hreply, ?_⟩
  intro between q' rest hsplit
  rcases List.eq_nil_or_concat rest with rfl | ⟨rest', last, rfl⟩
  · have heq : after ++ [q] = between ++ [q'] := hsplit
    obtain ⟨rfl, hlast'⟩ := List.append_inj' heq rfl
    cases hlast'
    exact hq
  · rw [List.concat_eq_append] at hsplit
    have heq : after ++ [q] = (between ++ q' :: rest') ++ [last] := by simp [hsplit]
    obtain ⟨rfl, -⟩ := List.append_inj' heq rfl
    exact hlast between q' rest' rfl

theorem mintedLast_last {r : Request N} (h : MfaLogin env (serveAll env w rs) (s, r) i)
    (hreply : ∃ method biometric, (serve env s r (serveAll env w rs)).1 =
      .ok (.needsMfa token method biometric)) : MintedLast env w (rs ++ [(s, r)]) i token s := by
  refine ⟨rs, r, [], rfl, h, hreply, ?_⟩
  intro between q rest hnil
  simp at hnil

/-- The pending token is cleared or the same. -/
def TokenKept (u u' : User) : Prop :=
  u'.mfaTempToken = none ∨
    (u'.mfaTempToken = u.mfaTempToken ∧ u'.mfaTempTokenExpires = u.mfaTempTokenExpires)

theorem tokenKept_of_change {r : Request N} {u u' : User} (h : RowChange env w r u u')
    (hr : ∀ dto, r.route ≠ .login dto) : TokenKept u u' := by
  cases h with
  | loginRefused hlogin => exact absurd hlogin (hr _)
  | loginAccepted hlogin => exact absurd hlogin (hr _)
  | loginPending hlogin => exact absurd hlogin (hr _)
  | mfaDisabled => exact Or.inl rfl
  | factorCompleted => exact Or.inl rfl
  | reset => exact Or.inl rfl
  | _ => exact Or.inr ⟨rfl, rfl⟩

theorem login_of_route (env : Env N) {dto : LoginDto N} (hr : q.2.route = .login dto) (w : World) :
    LoginEnding env { w with clock := q.1 } dto (serve env q.1 q.2 w).1 (serve env q.1 q.2 w).2 := by
  have hrun : (login env dto q.2.ip q.2.device).Holds (exec env)
      (Visited env { w with clock := q.1 } q.2) (LoginEnding env { w with clock := q.1 } dto)
      { w with clock := q.1 } := holds_login hr q.2.ip q.2.device
  rw [serve, handle, hr]
  exact hrun.final

theorem locked_of_route (env : Env N) {dto : LoginDto N} (hr : q.2.route = .login dto) {w : World}
    {u : User} (hu : w.findUser (.email (criterion env dto.email)) = some u)
    (hl : lockedAt q.1 u.lockedUntil = true) :
    (serve env q.1 q.2 w).1 = .error (.forbidden "Cuenta bloqueada. Intente más tarde.") := by
  have hclock : ({ w with clock := q.1 } : World).findUser (.email (criterion env dto.email)) =
      some u := hu
  rw [serve, handle, hr]
  simp only [login, findByEmail, Prog.run_bind, Prog.run_perform, exec, Prog.andThen_ok, hclock,
    run_isLocked, hl]
  rfl

/-- What a request does about the token of a row. -/
inductive TokenStep (env : Env N) (w : World) (q : Timed N) (u' : User) : Prop
  | kept {u} (hu : u ∈ w.users.rows) (hid : u.id = u'.id) (h : TokenKept u u')
      (hlogin : ¬ MfaLogin env w q u'.id) : TokenStep env w q u'
  | minted (token : String) (h : MfaLogin env w q u'.id)
      (hreply : ∃ method biometric, (serve env q.1 q.2 w).1 =
        .ok (.needsMfa token method biometric))
      (ht : u'.mfaTempToken = some token)
      (hexpires : u'.mfaTempTokenExpires = some (q.1 + mfaTempTokenMs)) : TokenStep env w q u'

/-- One request: a row changed by it, or not. -/
theorem tokenStep_put {u u' : User} (hu' : u' ∈ (w.users.put u).rows)
    (hput : TokenStep env w q u) (hother : u'.id ≠ u.id → ¬ MfaLogin env w q u'.id) :
    TokenStep env w q u' := by
  rcases Table.mem_put hu' with rfl | ⟨hmem, hne⟩
  · exact hput
  · exact .kept hmem rfl (Or.inr ⟨rfl, rfl⟩) (hother hne)

theorem tokenStep_login {dto : LoginDto N} (hr : q.2.route = .login dto) {u' : User}
    (hu' : u' ∈ (serve env q.1 q.2 w).2.users.rows) : TokenStep env w q u' := by
  have hdto : ∀ {i}, MfaLogin env w q i →
      ∃ u, LoginChecked env { w with clock := q.1 } dto true u ∧ u.id = i ∧
        u.mfaEnabled = true := by
    rintro i ⟨dto', u, hr', h, hid, hm⟩
    rw [hr] at hr'
    cases hr'
    exact ⟨u, h, hid, hm⟩
  have hending := login_of_route env hr w
  generalize hres : (serve env q.1 q.2 w).1 = res at hending
  generalize (serve env q.1 q.2 w).2 = w' at hending hu'
  cases hending with
  | unknown hu hw =>
    rw [hw.1] at hu'
    refine .kept hu' rfl (Or.inr ⟨rfl, rfl⟩) fun hlogin => ?_
    obtain ⟨v, h, -, -⟩ := hdto hlogin
    rw [h.selected] at hu
    cases hu
  | locked hu hl hw =>
    rw [hw.1] at hu'
    refine .kept hu' rfl (Or.inr ⟨rfl, rfl⟩) fun hlogin => ?_
    obtain ⟨v, h, -, -⟩ := hdto hlogin
    rw [h.selected] at hu
    cases hu
    rw [h.unlocked] at hl
    cases hl
  | broken hu hp hw =>
    rw [hw.1] at hu'
    refine .kept hu' rfl (Or.inr ⟨rfl, rfl⟩) fun hlogin => ?_
    obtain ⟨v, h, -, -⟩ := hdto hlogin
    obtain ⟨p, hpassword, -⟩ := h.password
    exact hp p hpassword
  | @refused u w' h hw =>
    have hnever : ∀ {i}, ¬ MfaLogin env w q i := by
      intro i hlogin
      obtain ⟨v, hv, -, -⟩ := hdto hlogin
      cases (h.unique hv).2
    rw [hw] at hu'
    refine tokenStep_put hu' ?_ fun _ => hnever
    exact .kept (mem_of_findUser h.selected) rfl (Or.inr ⟨rfl, rfl⟩) hnever
  | @pending u w' h hm hw =>
    have hlogin : MfaLogin env w q u.id := ⟨dto, u, hr, h, rfl, hm⟩
    rw [hw] at hu'
    refine tokenStep_put hu' ?_ fun hne hother => ?_
    · exact .minted (env.randomHex w.drawn 32) hlogin ⟨_, _, hres⟩ rfl rfl
    · obtain ⟨v, hv, hid, -⟩ := hdto hother
      exact hne ((h.unique hv).1 ▸ hid.symm)
  | @session u w' t h hm hw ht =>
    have hnever : ∀ {i}, ¬ MfaLogin env w q i := by
      intro i hlogin
      obtain ⟨v, hv, -, hvm⟩ := hdto hlogin
      rw [(h.unique hv).1, hm] at hvm
      cases hvm
    rw [hw] at hu'
    refine tokenStep_put hu' ?_ fun _ => hnever
    exact .kept (mem_of_findUser h.selected) rfl (Or.inr ⟨rfl, rfl⟩) hnever

theorem tokenStep {u' : User} (hu' : u' ∈ (serve env q.1 q.2 w).2.users.rows) :
    TokenStep env w q u' := by
  by_cases hr : ∃ dto, q.2.route = .login dto
  · obtain ⟨dto, hr⟩ := hr
    exact tokenStep_login hr hu'
  · have hr : ∀ dto, q.2.route ≠ .login dto := fun dto he => hr ⟨dto, he⟩
    have hnever : ∀ {i}, ¬ MfaLogin env w q i := by
      rintro i ⟨dto, -, he, -⟩
      exact hr dto he
    rcases row_of_serve hu' with hu' | ⟨u, hchange, -⟩
    · exact .kept hu' rfl (Or.inr ⟨rfl, rfl⟩) hnever
    · exact .kept (Table.mem_rows_of_get? hchange.row) hchange.id_eq.symm
        (tokenKept_of_change hchange hr) hnever

/-- Every pending token is its user's last one, with the expiry of its minting. -/
def Pending (env : Env N) (w : World) (rs : List (Timed N)) : Prop :=
  ∀ u ∈ (serveAll env w rs).users.rows, ∀ token, u.mfaTempToken = some token →
    ∃ s, MintedLast env w rs u.id token s ∧ u.mfaTempTokenExpires = some (s + mfaTempTokenMs)

theorem pending_step (h : Pending env w rs) : Pending env w (rs ++ [q]) := by
  intro u' hu' token ht
  rw [serveAll_append] at hu'
  cases tokenStep (w := serveAll env w rs) hu' with
  | @kept u hu hid hkept hlogin =>
    rcases hkept with hnone | ⟨htoken, hexpires⟩
    · rw [hnone] at ht
      cases ht
    · obtain ⟨s, hminted, hs⟩ := h u hu token (htoken ▸ ht)
      exact ⟨s, hid ▸ mintedLast_append hminted (hid ▸ hlogin), hexpires.trans hs⟩
  | minted token' hlogin hreply ht' hexpires =>
    obtain rfl : token' = token := Option.some.inj (ht'.symm.trans ht)
    exact ⟨q.1, mintedLast_last hlogin hreply, hexpires⟩

theorem pending_run (env : Env N) (hw : AllRows (fun u => u.mfaTempToken = none) w)
    (rs : List (Timed N)) : Pending env w rs := by
  induction rs using List.reverseRecOn with
  | nil =>
    intro u hu token ht
    rw [hw u hu] at ht
    cases ht
  | append_singleton rs q ih => exact pending_step ih

theorem factor_of_route (env : Env N) {tempToken : JsonField N}
    (hp : presented q.2.route = some tempToken) (w : World) :
    FactorEnding env { w with clock := q.1 } q.2.route (serve env q.1 q.2 w).1
      (serve env q.1 q.2 w).2 := by
  have hrun : (handle env q.2).Holds (exec env) (Visited env { w with clock := q.1 } q.2)
      (FactorEnding env { w with clock := q.1 } q.2.route) { w with clock := q.1 } := holds_factor hp
  exact hrun.final

/-- Tokens a verification returns are those of a user whose factor it has checked. -/
theorem checked_of_tokens (env : Env N) {tempToken : JsonField N}
    (hp : presented q.2.route = some tempToken) {w : World} {reply : Reply} {tokens : TokenPair}
    (hreply : (serve env q.1 q.2 w).1 = .ok reply) (ht : reply.tokens? = some tokens) :
    ∃ u, TokensFor u.id tokens ∧ w.users.get? u.id = some u ∧
      FactorChecked env { w with clock := q.1 } q.2.route true u := by
  have hending := factor_of_route env hp w
  rw [hreply] at hending
  generalize (serve env q.1 q.2 w).2 = w' at hending
  cases hending with
  | rejected => cases ht
  | refused => cases ht
  | accepted t h hput hfor =>
    cases ht
    obtain ⟨token, -, hs⟩ := h.selected
    exact ⟨_, hfor, get?_of_findUser hs, h⟩

/-- What a verification that returns tokens for the user of a row has found. -/
structure Gated (env : Env N) (w : World) (rs : List (Timed N)) (q : Timed N) (token : String)
    (u : User) : Prop where
  row : u ∈ (serveAll env w rs).users.rows
  minted : ∃ s, MintedLast env w rs u.id token s ∧ q.1 ≤ s + mfaTempTokenMs
  unlocked : lockedAt q.1 u.mfaLockedUntil = false
  factor : factorResult env q.1 u q.2.route = some true

theorem gated_of_checked (hw : AllRows (fun u => u.mfaTempToken = none) w)
    (hp : presented q.2.route = some (some (.str token))) {u : User}
    (h : FactorChecked env { serveAll env w rs with clock := q.1 } q.2.route true u) :
    Gated env w rs q token u := by
  obtain ⟨presentedToken, hpresented, hfind⟩ := h.selected
  rw [hp] at hpresented
  cases hpresented
  have hrow : u ∈ (serveAll env w rs).users.rows := mem_of_findUser hfind
  have htoken : u.mfaTempToken = some token := by
    have hmatches := matches_of_findUser hfind
    exact of_decide_eq_true hmatches
  obtain ⟨s, hminted, hexpires⟩ := pending_run env hw rs u hrow token htoken
  refine ⟨hrow, ⟨s, hminted, ?_⟩, h.unlocked, h.factor⟩
  have hfresh := h.fresh
  rw [hexpires] at hfresh
  exact hfresh

/-- In every run from rows without a pending token: a login returns tokens only
for a user without MFA, a verification only through the gate. -/
theorem second_factor_gate (env : Env N) (w : World)
    (hw : AllRows (fun u => u.mfaTempToken = none) w) (rs : List (Timed N)) (q : Timed N)
    (reply : Reply) (hreply : (serve env q.1 q.2 (serveAll env w rs)).1 = .ok reply)
    (tokens : TokenPair) (ht : reply.tokens? = some tokens) :
    (∀ dto, q.2.route = .login dto →
      (∃ u ∈ (serveAll env w rs).users.rows, TokensFor u.id tokens) ∧
        ∀ u ∈ (serveAll env w rs).users.rows, TokensFor u.id tokens → u.mfaEnabled = false) ∧
    ∀ token, presented q.2.route = some (some (.str token)) →
      ∃ u, TokensFor u.id tokens ∧ Gated env w rs q token u := by
  constructor
  · intro dto hr
    have hending := login_of_route env hr (serveAll env w rs)
    rw [hreply] at hending
    generalize (serve env q.1 q.2 (serveAll env w rs)).2 = w' at hending
    cases hending with
    | pending h hm hw => cases ht
    | session t h hm hw hfor =>
      cases ht
      have hrow := mem_of_findUser h.selected
      refine ⟨⟨_, hrow, hfor⟩, fun v hv hforv => ?_⟩
      rw [Table.eq_of_key_eq hv hrow (hforv.1.symm.trans hfor.1)]
      exact hm
  · intro token hp
    obtain ⟨u, hfor, -, hchecked⟩ := checked_of_tokens env hp hreply ht
    exact ⟨u, hfor, gated_of_checked hw hp hchecked⟩

/-- Ana signs in with her password and a code. -/
def anaLogin : Timed ℕ :=
  (1000, ⟨.login ⟨some (.str "ana@verde.ec"), some (.str "clave")⟩, .undefined, none, none, "::1"⟩)

def anaVerify : Timed ℕ :=
  (2000, ⟨.verify (some (.str "2")) (some (.str "000007")), .undefined, none, none, "::1"⟩)

theorem second_factor_gate_ana : ∃ reply tokens,
    (serve (plainEnv []) 2000 anaVerify.2 (serveAll (plainEnv []) anaWorld [anaLogin])).1 =
      .ok reply ∧ reply.tokens? = some tokens ∧
    ∃ u, TokensFor u.id tokens ∧ Gated (plainEnv []) anaWorld [anaLogin] anaVerify "2" u := by
  refine ⟨_, _, rfl, rfl, ?_⟩
  have hrows : AllRows (fun u => u.mfaTempToken = none) anaWorld := by
    intro u hu
    rw [List.mem_singleton.mp hu]
    rfl
  exact (second_factor_gate (plainEnv []) anaWorld hrows [anaLogin] anaVerify _ rfl _ rfl).2 "2" rfl

end VerdeAuth.SecondFactorGate
