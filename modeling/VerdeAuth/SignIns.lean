import VerdeAuth.CertainReplies
import VerdeAuth.TokenOwners

/-!
# Signing in with two factors

A client with the right password who answers the challenge with a factor that passes is
given tokens among any requests that do not name the user. In between, the login saves
the row, stores a temporary token in it and the verification reads it again; other
logins draw temporary tokens of their own meanwhile.
-/

namespace VerdeAuth.SignIns

open JsonTexts KeyedTables IamTables IamOperations ResumptionPrograms InterleavedPools UsersService
open TokenServices MfaServices AuthService MfaController IamEndpoints IamRules IamAssumptions
open UserRowChanges RequestFootprints ResponseContracts RequestContracts RowIsolation
open ForetoldLogs SecuredThreads CertainReplies TokenOwners

variable {N : Type} {env : Env N} {u v : User} {log : List (Event (Res N) Time)} {T : Time → Prop}

/-- The client drew the token. -/
def Drew (env : Env N) (log : List (Event (Res N) Time)) (x : String) : Prop :=
  ∃ n, .op 0 .draw n ∈ log ∧ x = env.randomHex n 32

/-- The user's row can be told from the others by its email, and by every token the
client draws. -/
structure SetApart (env : Env N) (u : User) (log : List (Event (Res N) Time)) (T : Time → Prop)
    (w : World) : Prop where
  row : ∃ v, w.users.get? u.id = some v ∧ v.email = u.email ∧
    ∀ x, v.mfaTempToken = some x → u.mfaTempToken = some x ∨ Drew env log x
  only : ∀ v ∈ w.users.rows, v.email = u.email → v.id = u.id
  apart : ∀ v ∈ w.users.rows, v.id ≠ u.id → ∀ x, v.mfaTempToken = some x → ¬ Drew env log x
  clock : T w.clock

/-- Nothing has happened to the row. -/
structure RowKept (u : User) (w w' : World) : Prop where
  row : w'.users.get? u.id = w.users.get? u.id
  drawn : w.drawn ≤ w'.drawn

/-- Operations that leave the client's tokens to the user's row. -/
def SparesTokens (env : Env N) (u : User) (log : List (Event (Res N) Time)) : Op N → Prop
  | .findUser c => ∀ x, c = .mfaTempToken (some x) → ¬ Drew env log x
  | .saveUser v => v.email ≠ u.email ∧ ∀ x, v.mfaTempToken = some x → ¬ Drew env log x
  | .updateUser _ p => ∀ x, p.mfaTempToken = some (some x) → ¬ Drew env log x
  | _ => True

/-- Rows of other users and tokens of other threads. -/
def ShowsOthers (env : Env N) (u : User) (log : List (Event (Res N) Time)) : Contract N
  | .findUser _, row => ∀ v, row = some v →
      v.id ≠ u.id ∧ v.email ≠ u.email ∧ ∀ x, v.mfaTempToken = some x → ¬ Drew env log x
  | .draw, n => ¬ Drew env log (env.randomHex n 32)
  | _, _ => True

section Others

variable {w : World} {o : Op N}

theorem showsOthers_exec (h : SetApart env u log T w) (ho : SparesRow u o)
    (ho' : SparesTokens env u log o)
    (hdraw : o = .draw → ¬ Drew env log (env.randomHex w.drawn 32)) :
    ShowsOthers env u log o (exec env o w).1 := by
  cases o with
  | findUser c =>
    intro v hv
    have hmem : v ∈ w.users.rows := mem_of_findUser hv
    have hne : v.id ≠ u.id := by
      intro hid
      obtain ⟨v', hrow, hemail, htoken⟩ := h.row
      rw [← hid, get?_of_findUser hv] at hrow
      cases hrow
      have hspared : c.matches u = false := ho
      have hmatches : c.matches v = true := matches_of_findUser hv
      rcases c with (_ | i) | (_ | e) | (_ | x)
      case mfaTempToken.some =>
        have hx : v.mfaTempToken = some x := of_decide_eq_true hmatches
        rcases htoken x hx with hux | hdrew
        · simp [UserWhere.matches, hux] at hspared
        · exact ho' x rfl hdrew
      all_goals simp_all [UserWhere.matches]
    exact ⟨hne, fun he => hne (h.only v hmem he), h.apart v hmem hne⟩
  | draw => exact hdraw rfl
  | _ => trivial

theorem setApart_others (h : SetApart env u log T w) (ho : SparesRow u o)
    (ho' : SparesTokens env u log o) :
    SetApart env u log T (exec env o w).2 ∧ RowKept u w (exec env o w).2 := by
  obtain ⟨⟨v, hrow, hversion⟩, honly, hapart, hclock⟩ := h
  cases o with
  | insertUser email passwordHash => exact ho.elim
  | saveUser v' =>
    have hne : v'.id ≠ u.id := ho
    obtain ⟨hemail, htoken⟩ := ho'
    have hkept : (w.users.put v').get? u.id = w.users.get? u.id :=
      Table.get?_put_of_ne w.users v' hne.symm
    refine ⟨⟨⟨v, hkept.trans hrow, hversion⟩, fun x hx he => ?_, fun x hx => ?_, hclock⟩, hkept, le_rfl⟩
    · rcases Table.mem_put hx with rfl | ⟨hx, -⟩
      · exact absurd he hemail
      · exact honly x hx he
    · rcases Table.mem_put hx with rfl | ⟨hx, -⟩
      · exact fun _ => htoken
      · exact hapart x hx
  | updateUser i p =>
    have hne : i ≠ u.id := ho
    have hkept : (w.users.modify i p.apply p.apply_id).get? u.id = w.users.get? u.id :=
      Table.get?_modify_of_ne w.users hne.symm p.apply p.apply_id
    refine ⟨⟨⟨v, hkept.trans hrow, hversion⟩, fun x hx he => ?_, fun x hx hid y hy => ?_, hclock⟩,
      hkept, le_rfl⟩
    · have hmem : x ∈ (w.users.modify i p.apply p.apply_id).rows := hx
      rcases Table.mem_modify hmem with ⟨hx, -⟩ | ⟨v', hv', -, rfl⟩
      · exact honly x hx he
      · exact honly v' hv' he
    · have hmem : x ∈ (w.users.modify i p.apply p.apply_id).rows := hx
      rcases Table.mem_modify hmem with ⟨hx, -⟩ | ⟨v', hv', -, rfl⟩
      · exact hapart x hx hid y hy
      · cases hp : p.mfaTempToken with
        | none =>
          have hvy : v'.mfaTempToken = some y := by simpa [UserPatch.apply, hp] using hy
          exact hapart v' hv' hid y hvy
        | some token =>
          have htoken : token = some y := by simpa [UserPatch.apply, hp] using hy
          exact ho' y (hp.trans (congrArg some htoken))
  | draw => exact ⟨⟨⟨v, hrow, hversion⟩, honly, hapart, hclock⟩, rfl, Nat.le_succ _⟩
  | _ => exact ⟨⟨⟨v, hrow, hversion⟩, honly, hapart, hclock⟩, rfl, le_rfl⟩

variable [JsNumber N] [DecidableEq N] {r : Request N}

theorem sparesTokens_of_asks
    (hguess : ∀ t x, presented r.route = some t → criterion env t = some x → ¬ Drew env log x)
    (ho : Asks env (ShowsOthers env u log) r o) : SparesTokens env u log o := by
  cases ho with
  | byToken hp =>
    intro x hx
    exact hguess _ x hp (UserWhere.mfaTempToken.inj hx)
  | byHeader hr hc =>
    rintro x rfl
    cases hi : r.userId <;> rw [hi] at hc <;> cases hc
  | attemptFailed hr h => exact (h.selected _ rfl).2
  | attemptsReset hr h => exact (h.selected _ rfl).2
  | mfaAttemptFailed h hv => exact (hv _ rfl).2
  | tempToken hr h hm hn =>
    rintro x ⟨⟩
    exact hn
  | unlocked => simp [SparesTokens, unlockPatch]
  | reset => simp [SparesTokens, resetPatch]
  | _ => first | trivial | simp [SparesTokens]

theorem under_others (h : Unnamed env r u)
    (hguess : ∀ t x, presented r.route = some t → criterion env t = some x → ¬ Drew env log x) :
    Under (ShowsOthers env u log) (fun o => SparesRow u o ∧ SparesTokens env u log o) (fun _ => True)
      (handle env r) := by
  have hrow : Under (ShowsOthers env u log) (SparesRow u) (fun _ => True) (handle env r) := by
    refine (serves_handle env (FindsOthers u.id) r).mono (fun o _ ha => ?_)
      (fun _ ho => sparesRow_of_asks h ho) fun _ _ => trivial
    cases o with
    | findUser c => exact fun v hv => (ha v hv).1
    | _ => trivial
  have htokens : Under (ShowsOthers env u log) (SparesTokens env u log) (fun _ => True)
      (handle env r) :=
    (serves_handle env (ShowsOthers env u log) r).mono (fun _ _ ha => ha)
      (fun _ ho => sparesTokens_of_asks hguess ho) fun _ _ => trivial
  exact (hrow.and htokens).mono (fun _ _ ha => ha) (fun _ ho => ho) fun _ _ => trivial

end Others

section Client

variable {R : Except Failure Reply → Prop} {m : ℕ} {w : World}

/-- The rest of what the client does from a state. -/
abbrev Gets (env : Env N) (u : User) (log : List (Event (Res N) Time)) (T : Time → Prop)
    (R : Except Failure Reply → Prop) (p : Iam N Reply) (w : World) : Prop :=
  Wins (exec env) (SetApart env u log T) (RowKept u) (Foretold log 0) R p w

/-- The row is `v`, and `m` values have been drawn. -/
structure Stands (u v : User) (m : ℕ) (w : World) : Prop where
  row : w.users.get? u.id = some v
  drawn : m ≤ w.drawn

theorem Stands.kept {w' : World} (h : Stands u v m w) (hw : RowKept u w w') : Stands u v m w' :=
  ⟨hw.row.trans h.row, h.drawn.trans hw.drawn⟩

/-- An operation beside the users. -/
theorem gets_beside {o : Op N} {f : Res N o → Iam N Reply}
    (ho : ∀ w, (exec env o w).2.users = w.users ∧ (exec env o w).2.clock = w.clock ∧
      (exec env o w).2.drawn = w.drawn) (hw : Stands u v m w)
    (hf : ∀ w' w'', SetApart env u log T w' → Stands u v m w' → Stands u v m w'' →
      Gets env u log T R (f (exec env o w').1) w'') :
    Gets env u log T R (Prog.perform o >>= f) w := by
  refine wins_perform fun w' hI hrely _ => ?_
  obtain ⟨husers, hclock, hdrawn⟩ := ho w'
  have hw' : Stands u v m w' := hw.kept hrely
  refine ⟨⟨?_, ?_, ?_, ?_⟩, hf w' _ hI hw' ⟨?_, ?_⟩⟩
  · rw [husers]
    exact hI.row
  · rw [husers]
    exact hI.only
  · rw [husers]
    exact hI.apart
  · rw [hclock]
    exact hI.clock
  · rw [husers]
    exact hw'.row
  · rw [hdrawn]
    exact hw'.drawn

theorem gets_now {f : Time → Iam N Reply} (hw : Stands u v m w)
    (hf : ∀ t w', T t → Stands u v m w' → Gets env u log T R (f t) w') :
    Gets env u log T R (now >>= f) w :=
  gets_beside (fun _ => ⟨rfl, rfl, rfl⟩) hw fun w' w'' hI _ hw'' => hf w'.clock w'' hI.clock hw''

theorem gets_byEmail {c : Option String} {f : Option User → Iam N Reply} (hw : Stands u u m w)
    (hc : c = some u.email) (hf : ∀ w', Stands u u m w' → Gets env u log T R (f (some u)) w') :
    Gets env u log T R (Prog.perform (Op.findUser (.email c)) >>= f) w := by
  refine gets_beside (fun _ => ⟨rfl, rfl, rfl⟩) hw fun w' w'' hI hw' hw'' => ?_
  have hu : u ∈ w'.users.rows := Table.mem_rows_of_get? hw'.row
  have hfound : w'.findUser (.email c) = some u := by
    cases hv : w'.findUser (.email c) with
    | none =>
      have hnone : ∀ v ∈ w'.users.rows, ¬ (UserWhere.email c).matches v = true :=
        List.find?_eq_none.mp hv
      exact absurd (by simp [UserWhere.matches, hc]) (hnone u hu)
    | some v =>
      have hmatches : (UserWhere.email c).matches v = true := matches_of_findUser hv
      have hemail : v.email = u.email := by simpa [UserWhere.matches, hc] using hmatches
      have hmem : v ∈ w'.users.rows := mem_of_findUser hv
      rw [Table.eq_of_key_eq hmem hu (hI.only v hmem hemail)]
  change Gets env u log T R (f (w'.findUser (.email c))) w''
  rw [hfound]
  exact hf w'' hw''

theorem gets_log {f : Unit → Iam N Reply} (hw : Stands u v m w) (action : String)
    (i : Option UserId) (ip device : String) (success : Bool)
    (hf : ∀ w', Stands u v m w' → Gets env u log T R (f ()) w') :
    Gets env u log T R (AuthService.log env action i ip device success >>= f) w := by
  rw [AuthService.log, bind_assoc]
  refine gets_beside (fun _ => ⟨rfl, rfl, rfl⟩) hw fun _ _ _ _ hw => ?_
  exact gets_beside (fun _ => ⟨rfl, rfl, rfl⟩) hw fun _ w' _ _ hw' => hf w' hw'

theorem gets_isLocked {lock : Option Time} (hlock : ∀ t, T t → ∀ l, lock = some l → l ≤ t)
    {f : Bool → Iam N Reply} (hw : Stands u v m w)
    (hf : ∀ w', Stands u v m w' → Gets env u log T R (f false) w') :
    Gets env u log T R (isLocked lock >>= f) w := by
  cases lock with
  | none => exact hf w hw
  | some l =>
    rw [isLocked, bind_assoc]
    refine gets_now hw fun t w' ht hw' => ?_
    have hle : ¬ t < l := Nat.not_lt.mpr (hlock t ht l rfl)
    simpa [hle] using hf w' hw'

theorem gets_draw {f : ℕ → Iam N Reply} (hw : Stands u v m w)
    (hf : ∀ n w', m ≤ n → .op 0 .draw n ∈ log → Stands u v (n + 1) w' →
      Gets env u log T R (f n) w') :
    Gets env u log T R (draw >>= f) w := by
  refine wins_perform fun w' hI hrely hlog => ?_
  obtain ⟨hrow, hdrawn⟩ := hw.kept hrely
  exact ⟨⟨hI.row, hI.only, hI.apart, hI.clock⟩, hf w'.drawn _ hdrawn hlog ⟨hrow, le_rfl⟩⟩

/-- A write of the user's own row. -/
theorem setApart_put {v' : User} (hI : SetApart env u log T w) (hid : v'.id = u.id)
    (hemail : v'.email = u.email)
    (htoken : ∀ x, v'.mfaTempToken = some x → u.mfaTempToken = some x ∨ Drew env log x) :
    SetApart env u log T { w with users := w.users.put v' } := by
  refine ⟨⟨v', ?_, hemail, htoken⟩, fun x hx he => ?_, fun x hx hne => ?_, hI.clock⟩
  · rw [← hid]
    exact Table.get?_put_self w.users v'
  · rcases Table.mem_put hx with rfl | ⟨hx, -⟩
    · exact hid
    · exact hI.only x hx he
  · rcases Table.mem_put hx with rfl | ⟨hx, -⟩
    · exact absurd hid hne
    · exact hI.apart x hx hne

theorem gets_save {v' : User} {f : Unit → Iam N Reply} (hw : Stands u v m w) (hid : v'.id = u.id)
    (hemail : v'.email = u.email)
    (htoken : ∀ x, v'.mfaTempToken = some x → u.mfaTempToken = some x ∨ Drew env log x)
    (hf : ∀ w', Stands u v' m w' → Gets env u log T R (f ()) w') :
    Gets env u log T R (save v' >>= f) w := by
  refine wins_perform fun w' hI hrely _ => ⟨setApart_put hI hid hemail htoken, hf _ ⟨?_, ?_⟩⟩
  · rw [← hid]
    exact Table.get?_put_self w'.users v'
  · exact (hw.kept hrely).drawn

theorem gets_update {p : UserPatch} {f : Unit → Iam N Reply} (hw : Stands u v m w)
    (hemail : v.email = u.email)
    (htoken : ∀ x, (p.apply v).mfaTempToken = some x → u.mfaTempToken = some x ∨ Drew env log x)
    (hf : ∀ w', Stands u (p.apply v) m w' → Gets env u log T R (f ()) w') :
    Gets env u log T R (update (.uuid u.id) p >>= f) w := by
  refine wins_perform fun w' hI hrely _ => ?_
  obtain ⟨hrow, hdrawn⟩ := hw.kept hrely
  have hid : v.id = u.id := Table.key_of_get? hrow
  have hid' : (p.apply v).id = u.id := (p.apply_id v).trans hid
  have hput : w'.users.modify u.id p.apply p.apply_id = w'.users.put (p.apply v) :=
    Table.modify_eq_put p.apply_id hrow
  change SetApart env u log T { w' with users := w'.users.modify u.id p.apply p.apply_id } ∧
    Gets env u log T R (f ()) { w' with users := w'.users.modify u.id p.apply p.apply_id }
  rw [hput]
  refine ⟨setApart_put hI hid' hemail htoken, hf _ ⟨?_, hdrawn⟩⟩
  rw [← hid']
  exact Table.get?_put_self w'.users (p.apply v)

/-- The login hands out a token the client drew, with the user's row to match. -/
theorem gets_login {dto : LoginDto N} {s : String} (hw : Stands u u m w)
    (he : criterion env dto.email = some u.email) (hs : dto.password = some (.str s))
    (hc : env.bcryptCompare s u.passwordHash = true) (hm : u.mfaEnabled = true)
    (hlock : ∀ t, T t → ∀ l, u.lockedUntil = some l → l ≤ t) (ip device : String)
    {f : Reply → Iam N Reply}
    (hf : ∀ n t w', m ≤ n → .op 0 .draw n ∈ log → T t →
      Stands u (tempTokenSet (env.randomHex n 32) (t + mfaTempTokenMs) (attemptsReset u)) (n + 1) w' →
      Gets env u log T R
        (f (.needsMfa (env.randomHex n 32) u.preferredMfaMethod u.biometricEnabled)) w') :
    Gets env u log T R (login env dto ip device >>= f) w := by
  rw [login, bind_assoc]
  refine gets_byEmail hw he fun w hw => ?_
  simp only [bind_assoc]
  refine gets_isLocked hlock hw fun w hw => ?_
  simp only [Bool.false_eq_true, if_false, validatePassword, hs, bind_assoc]
  refine gets_beside (fun _ => ⟨rfl, rfl, rfl⟩) hw fun _ w _ _ hw => ?_
  change Gets env u log T R ((if env.bcryptCompare s u.passwordHash = true then _ else _) >>= f) w
  rw [if_pos hc, completeLogin, hm]
  simp only [if_true, bind_assoc]
  refine gets_save hw rfl rfl (fun x hx => .inl hx) fun w hw => ?_
  refine gets_draw hw fun n w hn hlog hw => ?_
  refine gets_now hw fun t w ht hw => ?_
  have hdrew : ∀ x, some (env.randomHex n 32) = some x →
      u.mfaTempToken = some x ∨ Drew env log x := fun x hx => .inr ⟨n, hlog, (Option.some.inj hx).symm⟩
  refine gets_update hw rfl hdrew fun w hw => ?_
  refine gets_log hw _ _ _ _ _ fun w hw => ?_
  exact hf n t w hn hlog ht hw

end Client

section Together

variable [JsNumber N] [DecidableEq N]

/-- What the client does with a reply. -/
def answerChallenge (env : Env N) (second : String → Request N) : Reply → Iam N Reply
  | .needsMfa tempToken _ _ => handle env (second tempToken)
  | reply => .ret reply

/-- A login, and the second factor where it is asked for. -/
def signIn (env : Env N) (first : Request N) (second : String → Request N) : Iam N Reply :=
  handle env first >>= answerChallenge env second

theorem endsWithin_signIn {first : Request N} {second : String → Request N} {dto : LoginDto N}
    (hr : first.route = .login dto)
    (hsecond : ∀ x, presented (second x).route = some (some (.str x))) :
    EndsWithin 31 (signIn env first second) := by
  have hfirst : EndsWithin 17 (handle env first) := by
    rw [handle, hr]
    exact endsWithin_login _ _ _
  refine EndsWithin.bind (n := 14) hfirst fun reply => ?_
  cases reply with
  | needsMfa x => exact endsWithin_verification (hsecond x)
  | _ => exact endsWithin_ret 14 _

theorem factorResult_tempTokenSet (t : Time) (route : Route N) (x : String) (e : Time) :
    factorResult env t (tempTokenSet x e (attemptsReset u)) route = factorResult env t u route := by
  cases route <;> rfl

/-- The client's program, with the others to leave the row alone. -/
theorem gets_signIn {w : World} {first : Request N} {second : String → Request N}
    {dto : LoginDto N} {s : String} (hr : first.route = .login dto)
    (hsecond : ∀ x, presented (second x).route = some (some (.str x)))
    (hu : w.users.get? u.id = some u) (he : criterion env dto.email = some u.email)
    (hs : dto.password = some (.str s)) (hc : env.bcryptCompare s u.passwordHash = true)
    (hm : u.mfaEnabled = true) (hlock : ∀ t, T t → ∀ l, u.lockedUntil = some l → l ≤ t)
    (hmfaLock : ∀ t, T t → ∀ l, u.mfaLockedUntil = some l → l ≤ t)
    (hfactor : ∀ t, T t → ∀ x, factorResult env t u (second x).route = some true)
    (hspan : ∀ t t', T t → T t' → t ≤ t' + mfaTempTokenMs)
    (hrandom : ∀ m n, env.randomHex m 32 = env.randomHex n 32 → m = n) :
    Gets env u log T (Verifies u) (signIn env first second) w := by
  rw [signIn, handle, hr]
  refine gets_login (m := w.drawn) ⟨hu, le_rfl⟩ he hs hc hm hlock _ _ fun n t w' _ hlog ht hw' => ?_
  let x := env.randomHex n 32
  let v := tempTokenSet x (t + mfaTempTokenMs) (attemptsReset u)
  have hready : ∀ t', T t' → FactorReady env v (second x).route t' := by
    intro t' ht'
    refine ⟨hspan t' t ht' ht, hmfaLock t' ht', ?_⟩
    rw [factorResult_tempTokenSet]
    exact hfactor t' ht' x
  have hmatches : (UserWhere.mfaTempToken (criterion env (some (.str x)))).matches v = true := by
    simp [UserWhere.matches, criterion, v, tempTokenSet]
  have hcertain := certain_verification (hsecond x) hready hmatches
  refine wins_of_secures (K := Stands u v (n + 1)) (fun s s' hs hI hrely => ?_) (fun _ _ ho => ho _)
    hcertain hw'
  have hs' : Stands u v (n + 1) s' := hs.kept hrely
  refine ⟨hs', hs'.row, fun x' hx' hm' => ?_, hI.clock, fun k hk hx => ?_⟩
  · have hheld : x'.mfaTempToken = some x := by simpa [UserWhere.matches, criterion] using hm'
    by_contra hne
    exact hI.apart x' hx' hne x hheld ⟨n, hlog, rfl⟩
  · have hdrawn : n + 1 ≤ s'.drawn := hs'.drawn
    have hkn : n = k := hrandom n k (Option.some.inj (UserWhere.mfaTempToken.inj hx))
    omega

/-- The right password and then a factor that passes get a user with MFA in who is not
locked out, within the five minutes of the challenge, whatever requests that do not name the
user run in between. -/
theorem sign_in_completes (env : Env N)
    (hrandom : ∀ m n, env.randomHex m 32 = env.randomHex n 32 → m = n) (w : World)
    (first : Request N) (second : String → Request N) (dto : LoginDto N)
    (hr : first.route = .login dto)
    (hsecond : ∀ x, presented (second x).route = some (some (.str x))) (u : User)
    (hu : w.users.get? u.id = some u) (hm : u.mfaEnabled = true)
    (he : criterion env dto.email = some u.email)
    (honly : ∀ v ∈ w.users.rows, v.email = u.email → v.id = u.id) (s : String)
    (hs : dto.password = some (.str s)) (hc : env.bcryptCompare s u.passwordHash = true)
    (hnew : ∀ v ∈ w.users.rows, ∀ n, w.drawn ≤ n → v.mfaTempToken ≠ some (env.randomHex n 32))
    (sched : List (Turn Time)) (hlock : ∀ t, Shown w sched t → ∀ l, u.lockedUntil = some l → l ≤ t)
    (hmfaLock : ∀ t, Shown w sched t → ∀ l, u.mfaLockedUntil = some l → l ≤ t)
    (hfactor : ∀ t, Shown w sched t → ∀ x, factorResult env t u (second x).route = some true)
    (hspan : ∀ t t', Shown w sched t → Shown w sched t' → t ≤ t' + mfaTempTokenMs)
    (rs : List (Request N))
    (hothers : ∀ r ∈ rs, Unnamed env r u)
    (hguess : ∀ r ∈ rs, ∀ t x, presented r.route = some t → criterion env t = some x →
      ∀ n, w.drawn ≤ n → x ≠ env.randomHex n 32)
    (hturns : 31 ≤ sched.count (.thread 0)) :
    let c := (Pool.start (signIn env first second :: rs.map (handle env)) w).exec (exec env) tick sched
    ∃ t, c.threads[0]? = some (.ret (.verified t)) ∧ TokensFor u.id t := by
  intro c
  have hdrawn : DrawnOnce w c := drawnOnce_exec env w _ sched
  have hfresh : ∀ {x}, Drew env c.log x → ∃ n, w.drawn ≤ n ∧ x = env.randomHex n 32 := by
    rintro x ⟨n, hn, hx⟩
    exact ⟨n, (hdrawn.range 0 n hn).1, hx⟩
  have hI : SetApart env u c.log (Shown w sched) w := by
    refine ⟨⟨u, hu, rfl, fun x hx => .inl hx⟩, honly, fun v hv _ x hx hdrew => ?_, ?_⟩
    · obtain ⟨n, hn, rfl⟩ := hfresh hdrew
      exact hnew v hv n hn hx
    · exact .inl rfl
  have hspares : Spares (exec env) (SetApart env u c.log (Shown w sched)) (RowKept u)
      (fun _ => ShowsOthers env u c.log) (fun _ o => SparesRow u o ∧ SparesTokens env u c.log o) 0
      c.log := by
    refine ⟨fun _ _ => ⟨rfl, le_rfl⟩, fun _ _ _ h h' => ?_, fun j o w' hj hI ho hlog => ?_⟩
    · exact ⟨h'.row.trans h.row, h.drawn.trans h'.drawn⟩
    · refine ⟨showsOthers_exec hI ho.1 ho.2 ?_, setApart_others hI ho.1 ho.2⟩
      rintro rfl ⟨n, hn, hx⟩
      cases hrandom _ _ hx
      exact hj (hdrawn.once _ _ _ hlog hn)
  have hended : (∃ a, c.threads[0]? = some (.ret a) ∧ Verifies u (.ok a)) ∨
      ∃ e, c.threads[0]? = some (.throw e) ∧ Verifies u (.error e) := by
    refine winning_exec hspares ?_ (fun _ hx => hx) rfl (endsWithin_signIn hr hsecond)
      (gets_signIn hr hsecond hu he hs hc hm hlock hmfaLock hfactor hspan hrandom) hI ?_ hturns
    · intro t w' ht hI
      exact ⟨⟨hI.row, hI.only, hI.apart, .inr ht⟩, rfl, le_rfl⟩
    · intro j p hj hp
      cases j with
      | zero => exact absurd rfl hj
      | succ j =>
        obtain ⟨r, hr', rfl⟩ : ∃ r, rs[j]? = some r ∧ handle env r = p := by
          simpa [Pool.start] using hp
        have hmem : r ∈ rs := List.mem_of_getElem? hr'
        refine under_others (hothers r hmem) fun t x ht hx hdrew => ?_
        obtain ⟨n, hn, rfl⟩ := hfresh hdrew
        exact hguess r hmem t _ ht hx n hn rfl
  rcases hended with ⟨_, hret, t, ht, htokens⟩ | ⟨_, -, t, ht, -⟩
  · cases ht
    exact ⟨t, hret, htokens⟩
  · cases ht

end Together

/-- Ana answers with a code; Beto logs in and sets MFA up. -/
theorem sign_in_completes_ana :
    let c := (Pool.start (signIn anaEnv anaLogin
      (fun x => anaRequest (.verify (some (.str x)) (some (.str "000007")))) ::
      betoRequests.map (handle anaEnv)) anaAndBeto).exec (exec anaEnv) tick (inTurns ++ inTurns)
    ∃ t, c.threads[0]? = some (.ret (.verified t)) ∧ TokensFor 1 t := by
  have hnone : ∀ v ∈ anaAndBeto.users.rows, v.mfaTempToken = none := by decide
  have hshown : ∀ t, Shown anaAndBeto (inTurns ++ inTurns) t → t = 0 := by
    rintro t (rfl | ht)
    · rfl
    · simp [inTurns] at ht
  refine sign_in_completes anaEnv ?_ anaAndBeto anaLogin _ _ rfl (fun _ => rfl) ana rfl rfl rfl
    (by decide) "clave" rfl (by decide) ?_ _ ?_ ?_ ?_ ?_ betoRequests ?_ ?_ (by decide)
  · exact fun m n => randomHex_plainEnv _ m n 32
  · intro v hv n _
    simp [hnone v hv]
  · rintro t - l ⟨⟩
  · rintro t - l ⟨⟩
  · intro t ht x
    rw [hshown t ht]
    rfl
  · intro t t' ht ht'
    rw [hshown t ht]
    exact Nat.zero_le _
  · exact unnamed_betoRequests rfl rfl
  · intro r hr t x ht
    simp only [betoRequests, List.mem_cons, List.not_mem_nil, or_false] at hr
    rcases hr with rfl | rfl <;> cases ht

end VerdeAuth.SignIns
