import VerdeAuth.TokenOwners

/-!
# Whose authenticator secrets are

A setup draws a secret, shows it, and stores its ciphertext in the row that the header
names. One-time codes are checked against the secret of a row: in any interleaving it is one
of the user whom the request names, or whom the presented token was issued to.
-/

namespace VerdeAuth.EnrolledSecrets

open JsonTexts KeyedTables IamTables IamOperations ResumptionPrograms InterleavedPools UsersService
open TokenServices MfaServices AuthService IamEndpoints IamAssumptions UserRowChanges
open RequestFootprints ResponseContracts RequestContracts TokenOwners

variable {N : Type} {env : Env N} {w w' : World}

/-- What a row's secret decrypts to. -/
def secretOf (env : Env N) (u : User) : Option String := u.mfaSecret.bind env.decrypt

/-- The user had the secret at first, or a setup in the user's name drew it. -/
inductive Enrolled (env : Env N) (w : World) (rs : List (Request N))
    (log : List (Event (Res N) Time)) (i : UserId) (s : String) : Prop
  | kept {u} (hu : u ∈ w.users.rows) (hi : u.id = i) (hs : secretOf env u = some s)
  | drawn {j r n} (hj : rs[j]? = some r) (hr : r.route = .setup) (hi : r.userId = .uuid i)
      (hn : .op j .draw n ∈ log) (hs : s = env.totpSecret n)

/-- The user that a query without a condition leads to. -/
def First (w : World) (i : UserId) : Prop := ∃ email, (identities w).head? = some (i, email)

/-- The user a request is about: named by its header, holder of the token it presents, or
the first one where it says nothing. -/
inductive About (env : Env N) (w : World) (rs : List (Request N))
    (log : List (Event (Res N) Time)) (r : Request N) (i : UserId) : Prop
  | header (hr : takesHeader r.route = true) (hi : r.userId = .uuid i)
  | holder {token x} (hp : presented r.route = some token) (hx : criterion env token = some x)
      (h : Holder env w rs log i x)
  | noHeader (hr : takesHeader r.route = true) (hi : r.userId = .undefined) (h : First w i)
  | noToken {token} (hp : presented r.route = some token) (hx : criterion env token = none)
      (h : First w i)

section Steps

variable {own : UserId → String → Prop}

/-- Rows whose secrets are their own. -/
def SecretsOwn (env : Env N) (own : UserId → String → Prop) (w : World) : Prop :=
  ∀ u ∈ w.users.rows, ∀ s, secretOf env u = some s → own u.id s

/-- Writes that give a row a secret of its own. -/
def StoresSecret (env : Env N) (own : UserId → String → Prop) : Op N → Prop
  | .insertUser _ _ => False
  | .saveUser v => ∀ s, secretOf env v = some s → own v.id s
  | .updateUser i p => ∀ c s, p.mfaSecret = some (some c) → env.decrypt c = some s → own i s
  | _ => True

theorem secretsOwn_exec {o : Op N} (h : SecretsOwn env own w) (ho : StoresSecret env own o) :
    SecretsOwn env own (exec env o w).2 := by
  cases o with
  | insertUser email passwordHash => exact ho.elim
  | saveUser v =>
    intro u hu
    rcases Table.mem_put hu with rfl | ⟨hu, -⟩
    · exact ho
    · exact h u hu
  | updateUser i p =>
    intro u hu s hs
    have hmem : u ∈ (w.users.modify i p.apply p.apply_id).rows := hu
    rcases Table.mem_modify hmem with ⟨hu, -⟩ | ⟨v, hv, hid, rfl⟩
    · exact h u hu s hs
    · have hsecret : (p.apply v).mfaSecret = p.mfaSecret.getD v.mfaSecret := rfl
      rw [secretOf, hsecret] at hs
      cases hp : p.mfaSecret with
      | none =>
        rw [hp] at hs
        exact h v hv s hs
      | some secret =>
        rw [hp] at hs
        obtain ⟨c, hc, hdecrypt⟩ := Option.bind_eq_some_iff.mp hs
        have hc : secret = some c := hc
        rw [p.apply_id, hid]
        exact ho c s (hp.trans (congrArg some hc)) hdecrypt
  | _ => exact h

/-- A query without a condition leads to the first user in every state. -/
theorem first_of_findUser (h : identities w' = identities w) {c : UserWhere}
    (hc : c.matches = fun _ => true) {u : User} (hu : w'.findUser c = some u) : First w u.id := by
  have hhead : w'.users.rows.head? = some u := by
    rw [World.findUser, hc] at hu
    exact (Table.findOne_true w'.users).symm.trans hu
  refine ⟨u.email, ?_⟩
  rw [← h, identities, List.head?_map, hhead]
  rfl

end Steps

section Requests

variable {rs : List (Request N)} {log : List (Event (Res N) Time)} {j : ℕ}

/-- The rows a thread is shown have secrets of their own besides, and are the first one
where the query has no condition. -/
def ShowsSecret (env : Env N) (w : World) (rs : List (Request N))
    (log : List (Event (Res N) Time)) : Contract N
  | .findUser c, row => ∀ u, row = some u → c.matches u = true ∧
      (∀ s, secretOf env u = some s → Enrolled env w rs log u.id s) ∧
      ((c.matches = fun _ => true) → First w u.id)
  | _, _ => True

/-- What a thread is shown. -/
def Shows (env : Env N) (w : World) (rs : List (Request N)) (log : List (Event (Res N) Time))
    (j : ℕ) : Contract N := fun o res =>
  ShowsOwn env w rs log j o res ∧ ShowsSecret env w rs log o res

/-- Codes are checked against a secret of the user the request is about. -/
def ChecksOwn (env : Env N) (w : World) (rs : List (Request N)) (log : List (Event (Res N) Time))
    (r : Request N) : Op N → Prop
  | .totpVerify s _ => ∃ i, About env w rs log r i ∧ Enrolled env w rs log i s
  | _ => True

theorem showsSecret_exec (hsame : identities w' = identities w)
    (h : SecretsOwn env (Enrolled env w rs log) w') (o : Op N) :
    ShowsSecret env w rs log o (exec env o w').1 := by
  cases o with
  | findUser c =>
    intro u hu
    have hmem : u ∈ w'.users.rows := mem_of_findUser hu
    exact ⟨matches_of_findUser hu, h u hmem, fun hc => first_of_findUser hsame hc hu⟩
  | _ => trivial

variable [JsNumber N] [DecidableEq N] {r : Request N}

theorem storesSecret_of_asks (hdecrypts : Decrypts env) (hj : rs[j]? = some r) {o : Op N}
    (ho : Asks env (Shows env w rs log j) r o) : StoresSecret env (Enrolled env w rs log) o := by
  cases ho with
  | attemptFailed hr h => exact (h.selected.2 _ rfl).2.1
  | attemptsReset hr h => exact (h.selected.2 _ rfl).2.1
  | mfaAttemptFailed h hv => exact (hv.2 _ rfl).2.1
  | secret hr hi hu hn =>
    rintro c s ⟨⟩ hs
    cases (hdecrypts _ _).symm.trans hs
    exact .drawn hj hr hi hn.1 rfl
  | unlocked => simp [StoresSecret, unlockPatch]
  | reset => simp [StoresSecret, resetPatch]
  | _ => first | trivial | simp [StoresSecret]

omit [JsNumber N] [DecidableEq N] in
theorem about_of_looks {c : UserWhere} (hc : Looks env r c) {u : User}
    (hu : Shows env w rs log j (.findUser c) (some u)) : About env w rs log r u.id := by
  obtain ⟨hown, hsecret⟩ := hu
  obtain ⟨hmatch, -, hfirst⟩ := hsecret u rfl
  cases hc with
  | header hr hc =>
    cases hi : r.userId with
    | undefined =>
      rw [hi] at hc
      cases hc
      exact .noHeader hr hi (hfirst rfl)
    | invalid =>
      rw [hi] at hc
      cases hc
    | uuid i =>
      rw [hi] at hc
      cases hc
      have hid : u.id = i := of_decide_eq_true hmatch
      exact .header hr (hid ▸ hi)
  | @token token hp =>
    cases hx : criterion env token with
    | none =>
      rw [hx] at hfirst
      exact .noToken hp hx (hfirst rfl)
    | some x =>
      rw [hx] at hmatch
      have htoken : u.mfaTempToken = some x := of_decide_eq_true hmatch
      exact .holder hp hx ((hown u rfl).2.1 x htoken)

theorem checksOwn_of_asks {o : Op N} (ho : Asks env (Shows env w rs log j) r o) :
    ChecksOwn env w rs log r o := by
  cases ho with
  | totp hc hu hs => exact ⟨_, about_of_looks hc hu, (hu.2 _ rfl).2.1 _ hs⟩
  | _ => trivial

/-- The secret in the reply to a setup is one that it drew. -/
def DrewSecret (env : Env N) (log : List (Event (Res N) Time)) (k : ℕ)
    (res : Except Failure Reply) : Prop :=
  ∀ secret uri qr, res = .ok (.setup secret uri qr) →
    ∃ n, .op k .draw n ∈ log ∧ secret = env.totpSecret n

omit [JsNumber N] [DecidableEq N] in
theorem under_setup (i : IdParam) : Under (Shows env w rs log j) (fun _ => True)
    (DrewSecret env log j) (MfaController.setup env i) := by
  have hrest : ∀ u : User, Under (Shows env w rs log j) (fun _ => True) (DrewSecret env log j)
      (generateSetupResponse env u.email >>= fun response =>
        encryptSecret env response.secret >>= fun c => setMfaSecret i c >>= fun _ =>
          .ret (.setup response.secret response.otpauthUri response.qrCodeUrl)) := by
    intro u
    refine ⟨trivial, fun n hn => ⟨trivial, fun m _ => ?_⟩⟩
    cases i with
    | uuid i =>
      refine ⟨trivial, fun _ _ => ?_⟩
      rintro secret uri qr ⟨⟩
      exact ⟨n, hn.1, rfl⟩
    | _ => exact nofun
  have hfound : ∀ row : Option User, Under (Shows env w rs log j) (fun _ => True)
      (DrewSecret env log j) (orThrow row >>= fun u =>
        generateSetupResponse env u.email >>= fun response =>
          encryptSecret env response.secret >>= fun c => setMfaSecret i c >>= fun _ =>
            .ret (.setup response.secret response.otpauthUri response.qrCodeUrl)) := by
    intro row
    cases row with
    | none => exact nofun
    | some u => exact hrest u
  rw [MfaController.setup, MfaController.requireUser, bind_assoc]
  cases i with
  | invalid => exact nofun
  | _ => exact ⟨trivial, fun row _ => hfound row⟩

/-- What a run keeps, what its requests may ask for, and how its setups end. -/
theorem enrolled_together (hdecrypts : Decrypts env) (w : World) (rs : List (Request N))
    (sched : List (Turn Time)) :
    let c := together env w rs sched
    SecretsOwn env (Enrolled env w rs c.log) c.state ∧
      (∀ k s code b, .op k (.totpVerify s code) b ∈ c.log → ∃ r i, rs[k]? = some r ∧
        About env w rs c.log r i ∧ Enrolled env w rs c.log i s) ∧
      ∀ (k : ℕ) r y, rs[k]? = some r → r.route = .setup → c.threads[k]? = some (.ret y) →
        DrewSecret env c.log k (.ok y) := by
  intro c
  let I : World → Prop := fun w' => HoldOwn (Holder env w rs c.log) w w' ∧
    SecretsOwn env (Enrolled env w rs c.log) w'
  let P : ℕ → Op N → Prop := fun k o => (StoresSecret env (Enrolled env w rs c.log) o ∧
    ∃ r, rs[k]? = some r ∧ ChecksOwn env w rs c.log r o) ∧ StoresOwn (Holder env w rs c.log) w o
  let R : ℕ → Except Failure Reply → Prop := fun k res =>
    (∃ r, rs[k]? = some r ∧ r.route = .setup) → DrewSecret env c.log k res
  have hstep : ∀ k o w', I w' → P k o → .op k o (exec env o w').1 ∈ c.log →
      Shows env w rs c.log k o (exec env o w').1 ∧ I (exec env o w').2 := by
    rintro k o w' ⟨hown, hsecrets⟩ ⟨⟨hsecret, -⟩, htoken⟩ hmem
    exact ⟨⟨showsOwn_exec hown hmem, showsSecret_exec hown.same hsecrets o⟩,
      holdOwn_exec hown htoken, secretsOwn_exec hsecrets hsecret⟩
  have htick : ∀ t w', .outside t ∈ sched → I w' → I (tick t w') := by
    rintro t w' - ⟨⟨hsame, hheld⟩, hsecrets⟩
    exact ⟨⟨hsame, hheld⟩, hsecrets⟩
  have hw : I w := ⟨⟨rfl, fun u hu x hx => .kept hu rfl hx⟩, fun u hu s hs => .kept hu rfl hs⟩
  have hrs : ∀ (k : ℕ) r, rs[k]? = some r →
      Under (Shows env w rs c.log k) (P k) (R k) (handle env r) := by
    intro k r hr
    have htoken : Under (Shows env w rs c.log k) (StoresOwn (Holder env w rs c.log) w)
        (fun _ => True) (handle env r) :=
      (serves_handle env (ShowsOwn env w rs c.log k) r).mono (fun _ _ ha => ha.1)
        (fun _ ho => storesOwn_of_asks hr ho) fun _ _ => trivial
    have hdrew : Under (Shows env w rs c.log k)
        (fun _ => (∃ r, rs[k]? = some r ∧ r.route = .setup) → True) (R k) (handle env r) := by
      refine under_when ?_
      rintro ⟨r', hr', hroute⟩
      cases hr.symm.trans hr'
      rw [handle, hroute]
      exact under_setup r.userId
    have hboth : Under (Shows env w rs c.log k) (StoresOwn (Holder env w rs c.log) w) (R k)
        (handle env r) :=
      (htoken.and hdrew).mono (fun _ _ ha => ha) (fun _ ho => ho.1) fun _ h => h.2
    refine under_asks (fun o ho => ?_) hboth
    exact ⟨storesSecret_of_asks hdecrypts hr ho, r, hr, checksOwn_of_asks ho⟩
  obtain ⟨⟨-, hsecrets⟩, hthreads, hlog⟩ := under_together sched hstep htick hw hrs
  refine ⟨hsecrets, fun k s code b hmem => ?_, fun k r y hr hroute hy => ?_⟩
  · obtain ⟨⟨-, r, hr, i, hi⟩, -⟩ := hlog k _ b hmem
    exact ⟨r, i, hr, hi⟩
  · exact hthreads k _ hy ⟨r, hr, hroute⟩

/-- However requests interleave, the secret of a row was in the row of that user at first or
drawn by a setup in the user's name, and every one-time code is checked against such a secret
of the user whom the request is about. -/
theorem secrets_enrolled (env : Env N) (hdecrypts : Decrypts env) (w : World)
    (rs : List (Request N)) (sched : List (Turn Time)) :
    let c := together env w rs sched
    (∀ u ∈ c.state.users.rows, ∀ s, secretOf env u = some s → Enrolled env w rs c.log u.id s) ∧
      ∀ k s code b, .op k (.totpVerify s code) b ∈ c.log → ∃ r i, rs[k]? = some r ∧
        About env w rs c.log r i ∧ Enrolled env w rs c.log i s :=
  ⟨(enrolled_together hdecrypts w rs sched).1, (enrolled_together hdecrypts w rs sched).2.1⟩

end Requests

section Draws

variable {rs : List (Request N)} {c : Pool (Res N) Failure Reply World Time}

/-- A drawn secret is enrolled for one user. -/
theorem enrolled_unique (hrandom : ∀ m n, env.totpSecret m = env.totpSecret n → m = n)
    (hnew : ∀ u ∈ w.users.rows, ∀ n, w.drawn ≤ n → secretOf env u ≠ some (env.totpSecret n))
    (hc : DrawnOnce w c) {j n : ℕ} {r : Request N} (hj : rs[j]? = some r) {i k : UserId}
    (hi : r.userId = .uuid i) (hn : .op j .draw n ∈ c.log)
    (hk : Enrolled env w rs c.log k (env.totpSecret n)) : k = i := by
  cases hk with
  | kept hu _ hs => exact absurd hs (hnew _ hu n (hc.range j n hn).1)
  | drawn hj' _ hk hn' hs =>
    cases hrandom _ _ hs
    cases hc.once _ _ _ hn hn'
    cases hj.symm.trans hj'
    cases hi.symm.trans hk
    rfl

variable [JsNumber N] [DecidableEq N]

/-- Where no secret is drawn twice or was there before, at no point of any interleaving do
two users have the same secret, and codes of the secret that a setup answered with are checked
only for the user it named. -/
theorem secrets_separate (env : Env N) (hdecrypts : Decrypts env)
    (hrandom : ∀ m n, env.totpSecret m = env.totpSecret n → m = n) (w : World)
    (hfirst : ∀ u ∈ w.users.rows, ∀ v ∈ w.users.rows, ∀ s, secretOf env u = some s →
      secretOf env v = some s → u = v)
    (hnew : ∀ u ∈ w.users.rows, ∀ n, w.drawn ≤ n → secretOf env u ≠ some (env.totpSecret n))
    (rs : List (Request N)) (sched : List (Turn Time)) :
    let c := together env w rs sched
    (∀ u ∈ c.state.users.rows, ∀ v ∈ c.state.users.rows, ∀ s, secretOf env u = some s →
      secretOf env v = some s → u = v) ∧
      ∀ (j : ℕ) r i secret uri qr, rs[j]? = some r → r.route = .setup → r.userId = .uuid i →
        c.threads[j]? = some (.ret (.setup secret uri qr)) →
          ∀ k code b, .op k (.totpVerify secret code) b ∈ c.log → ∃ r', rs[k]? = some r' ∧
            About env w rs c.log r' i := by
  intro c
  obtain ⟨hrows, hchecks, hsetups⟩ := enrolled_together hdecrypts w rs sched
  have hc : DrawnOnce w c := drawnOnce_exec env w _ sched
  refine ⟨fun u hu v hv s hs hs' => ?_, fun j r i secret uri qr hj hr hi hy k code b hmem => ?_⟩
  · have hid : u.id = v.id := by
      have hv' : Enrolled env w rs c.log v.id s := hrows v hv s hs'
      cases hrows u hu s hs with
      | kept hu₀ hi hs₀ =>
        cases hv' with
        | kept hv₀ hk hs₁ => rw [← hi, ← hk, hfirst _ hu₀ _ hv₀ s hs₀ hs₁]
        | drawn hj _ hk hn hs₁ =>
          subst hs₁
          exact absurd hs₀ (hnew _ hu₀ _ (hc.range _ _ hn).1)
      | drawn hj _ hi hn hs₀ =>
        subst hs₀
        exact (enrolled_unique hrandom hnew hc hj hi hn hv').symm
    exact Table.eq_of_key_eq hu hv hid
  · obtain ⟨n, hn, rfl⟩ := hsetups j r _ hj hr hy secret uri qr rfl
    obtain ⟨r', k', hr', habout, henrolled⟩ := hchecks k _ code b hmem
    cases enrolled_unique hrandom hnew hc hj hi hn henrolled
    exact ⟨r', hr', habout⟩

end Draws

/-- Ana enrols another secret and confirms it. -/
def enrolment : List (Request ℕ) :=
  [anaRequest .setup, anaRequest (.verifySetup (some (.str "000003")))]

def enrolmentTurns : List (Turn Time) := List.replicate 4 (.thread 0) ++ List.replicate 14 (.thread 1)

theorem tally_injective {m n : ℕ} (h : tally m = tally n) : m = n := by
  have hlength := congrArg String.length h
  simpa [tally] using hlength

theorem secretOf_anaWorld {u : User} (hu : u ∈ anaWorld.users.rows) :
    u = ana ∧ ∀ n, secretOf anaEnv u ≠ some (anaEnv.totpSecret n) := by
  obtain rfl : u = ana := List.mem_singleton.mp hu
  refine ⟨rfl, fun n hn => ?_⟩
  have hsecret : secretOf anaEnv ana = some "secreto" := by decide
  rw [hsecret] at hn
  have hn : "secreto" = tally n := Option.some.inj hn
  have hmem : 's' ∈ (tally n).toList := by
    rw [← hn]
    decide
  simp [tally] at hmem

theorem secrets_enrolled_enrolment :
    let c := together anaEnv anaWorld enrolment enrolmentTurns
    ∃ r i, enrolment[1]? = some r ∧ About anaEnv anaWorld enrolment c.log r i ∧
      Enrolled anaEnv anaWorld enrolment c.log i "aab" := by
  have hchecked : .op 1 (.totpVerify "aab" (some (.str "000003"))) (some true) ∈
      (together anaEnv anaWorld enrolment enrolmentTurns).log :=
    List.mem_of_getElem? (i := 6) (by rfl)
  exact (secrets_enrolled anaEnv (decrypts_plainEnv _) anaWorld enrolment enrolmentTurns).2 1 _ _ _
    hchecked

theorem secrets_separate_enrolment :
    let c := together anaEnv anaWorld enrolment enrolmentTurns
    ∃ r, enrolment[1]? = some r ∧ About anaEnv anaWorld enrolment c.log r 1 := by
  have hchecked : .op 1 (.totpVerify "aab" (some (.str "000003"))) (some true) ∈
      (together anaEnv anaWorld enrolment enrolmentTurns).log :=
    List.mem_of_getElem? (i := 6) (by rfl)
  have hfirst : ∀ u ∈ anaWorld.users.rows, ∀ v ∈ anaWorld.users.rows, ∀ s,
      secretOf anaEnv u = some s → secretOf anaEnv v = some s → u = v := by
    intro u hu v hv s _ _
    rw [(secretOf_anaWorld hu).1, (secretOf_anaWorld hv).1]
  exact (secrets_separate anaEnv (decrypts_plainEnv _) (fun _ _ => tally_injective) anaWorld hfirst
    (fun u hu n _ => (secretOf_anaWorld hu).2 n) enrolment enrolmentTurns).2 0 _ 1 "aab" _ _ rfl rfl
    rfl (by rfl) 1 _ _ hchecked

end VerdeAuth.EnrolledSecrets
