import VerdeAuth.CertainReplies
import VerdeAuth.TokenOwners

/-!
# Locks that stand

Whoever reads a locked row and saves it back as a whole saves the lock with it, and who
finds the lock in place does nothing to the row. So a lock that has not run out stands
through any interleaving of requests that are not meant to take it away, and while it
stands no request gets past it.
-/

namespace VerdeAuth.StandingLocks

open JsonTexts KeyedTables IamTables IamOperations ResumptionPrograms InterleavedPools UsersService
open TokenServices MfaServices AuthService MfaController IamEndpoints IamRules IamAssumptions
open UserRowChanges RequestEndings RequestFootprints ResponseContracts RequestContracts RowIsolation
open TokenOwners SecuredThreads CertainReplies

variable {N : Type} {env : Env N} {w w' : World} {i : UserId} {lock : User → Option Time} {l : Time}

/-- The user's row has the lock, and it has not run out. -/
structure Stands (w : World) (i : UserId) (lock : User → Option Time) (l : Time) (w' : World) :
    Prop where
  same : identities w' = identities w
  row : ∃ v, w'.users.get? i = some v ∧ lock v = some l
  clock : w'.clock < l

/-- Writes that leave the lock of the user's row as it is. -/
def KeepsLock (w : World) (i : UserId) (lock : User → Option Time) (l : Time) : Op N → Prop
  | .insertUser _ _ => False
  | .saveUser v => (v.id, v.email) ∈ identities w ∧ (v.id = i → lock v = some l)
  | .updateUser j p => j = i → ∀ v, lock (p.apply v) = lock v
  | _ => True

/-- A row of the user is shown with the lock, whether or not one is asked for by id, and an
email leads to the user it leads to at first. -/
structure Row (w : World) (i : UserId) (lock : User → Option Time) (l : Time) (c : UserWhere)
    (v : User) : Prop where
  known : (v.id, v.email) ∈ identities w
  locked : v.id = i → lock v = some l
  asked : ∀ j, c = .id (some j) → v.id = j
  email : ∀ e, c = .email e → ∃ u, w.findUser c = some u ∧ u.id = v.id

def ShowsLock (w : World) (i : UserId) (lock : User → Option Time) (l : Time) : Contract N
  | .findUser c, row => (∀ v, row = some v → Row w i lock l c v) ∧ (c = .id (some i) → row ≠ none) ∧
      ∀ e, c = .email e → w.findUser c ≠ none → row ≠ none
  | .now, t => t < l
  | _, _ => True

section Steps

theorem showsLock_exec (h : Stands w i lock l w') (o : Op N) :
    ShowsLock w i lock l o (exec env o w').1 := by
  obtain ⟨hsame, ⟨v, hv, hl⟩, hclock⟩ := h
  cases o with
  | findUser c =>
    refine ⟨fun u hu => ?_, ?_, ?_⟩
    · have hmem : u ∈ w'.users.rows := mem_of_findUser hu
      refine ⟨hsame ▸ List.mem_map_of_mem hmem, fun hid => ?_, ?_, ?_⟩
      · have hget := Table.get?_of_mem hmem
        rw [hid, hv] at hget
        cases hget
        exact hl
      · rintro j rfl
        exact of_decide_eq_true (matches_of_findUser hu)
      · rintro e rfl
        exact findUser_email hsame hu
    · rintro rfl hnone
      cases hv.symm.trans hnone
    · rintro e rfl hfound hnone
      obtain ⟨u, hu⟩ := Option.ne_none_iff_exists'.mp hfound
      obtain ⟨u', hu', -⟩ := findUser_email hsame.symm hu
      cases hu'.symm.trans hnone
  | now => exact hclock
  | _ => trivial

theorem stands_exec {o : Op N} (h : Stands w i lock l w') (ho : KeepsLock w i lock l o) :
    Stands w i lock l (exec env o w').2 := by
  obtain ⟨hsame, ⟨v, hv, hl⟩, hclock⟩ := h
  cases o with
  | insertUser email passwordHash => exact ho.elim
  | saveUser u =>
    obtain ⟨hu, hlock⟩ := ho
    refine ⟨(identities_put (hsame ▸ hu)).trans hsame, ?_, hclock⟩
    by_cases hid : u.id = i
    · exact ⟨u, hid ▸ Table.get?_put_self w'.users u, hlock hid⟩
    · exact ⟨v, (Table.get?_put_of_ne w'.users u (Ne.symm hid)).trans hv, hl⟩
  | updateUser j p =>
    refine ⟨(identities_update w' j p).trans hsame, ?_, hclock⟩
    by_cases hj : j = i
    · subst hj
      refine ⟨p.apply v, ?_, (ho rfl v).trans hl⟩
      change (w'.users.modify j p.apply p.apply_id).get? j = _
      rw [Table.get?_modify_self, hv]
      rfl
    · exact ⟨v, (Table.get?_modify_of_ne w'.users (Ne.symm hj) p.apply p.apply_id).trans hv, hl⟩
  | _ => exact ⟨hsame, ⟨v, hv, hl⟩, hclock⟩

/-- Nobody finds such a lock run out. -/
theorem not_unlocked (h : Unlocked (ShowsLock (N := N) w i lock l) (some l)) : False := by
  obtain ⟨t, ht, hle⟩ := h l rfl
  exact absurd ht (Nat.not_lt.mpr hle)

end Steps

section Requests

variable [JsNumber N] [DecidableEq N] {r : Request N}

/-- An administrator's request is for another user. -/
def SparedByAdmin (env : Env N) (w : World) (i : UserId) (r : Request N) : Prop :=
  ∀ e, r.route = .unlockUser e ∨ r.route = .resetUser e →
    ∀ v, w.findUser (.email (criterion env e)) = some v → v.id ≠ i

omit [JsNumber N] [DecidableEq N] in
theorem id_ne_of_spared [JsNumber N] (hr : SparedByAdmin env w i r) {e : JsonField N}
    (he : r.route = .unlockUser e ∨ r.route = .resetUser e) {u : User}
    (hu : ShowsLock (N := N) w i lock l (.findUser (.email (criterion env e))) (some u)) :
    u.id ≠ i := by
  intro hid
  obtain ⟨v, hv, hvid⟩ := (hu.1 u rfl).email _ rfl
  exact hr e he v hv (hvid.trans hid)

/-- No request takes a lock on the password away before its time but an administrator's. -/
theorem keepsLock_of_asks (hr : SparedByAdmin env w i r) {o : Op N}
    (ho : Asks env (ShowsLock w i User.lockedUntil l) r o) :
    KeepsLock w i User.lockedUntil l o := by
  have hopen : ∀ {dto valid} {u : User},
      LoginSeen env (ShowsLock w i User.lockedUntil l) dto valid u → u.id ≠ i := by
    intro dto valid u h hid
    have hunlocked := h.unlocked
    rw [(h.selected.1 u rfl).locked hid] at hunlocked
    exact not_unlocked hunlocked
  cases ho with
  | attemptFailed _ h => exact ⟨(h.selected.1 _ rfl).known, fun hid => (hopen h hid).elim⟩
  | attemptsReset _ h => exact ⟨(h.selected.1 _ rfl).known, fun hid => (hopen h hid).elim⟩
  | mfaAttemptFailed h hv => exact ⟨(hv.1 _ rfl).known, (hv.1 _ rfl).locked⟩
  | unlocked he hu => exact fun hid => absurd hid (id_ne_of_spared hr (.inl he) hu)
  | reset he hu => exact fun hid => absurd hid (id_ne_of_spared hr (.inr he) hu)
  | _ => first | trivial | exact fun _ _ => rfl

/-- Who has had a factor checked is not the user. -/
theorem id_ne_of_factorSeen {valid : Bool} {u : User}
    (h : FactorSeen env (ShowsLock w i User.mfaLockedUntil l) r.route valid u) : u.id ≠ i := by
  rintro rfl
  obtain ⟨row, hrow, hopen⟩ := h.unlocked
  cases row with
  | none => exact hrow.2.1 rfl rfl
  | some v =>
    have hv := hrow.1 v rfl
    have hunlocked := hopen v rfl
    rw [hv.locked (hv.asked _ rfl)] at hunlocked
    exact not_unlocked hunlocked

/-- Nor one on MFA, but a request to turn MFA off. -/
theorem keepsMfaLock_of_asks (hr : SparedByAdmin env w i r)
    (hoff : ∀ password code, r.route = .disable password code → r.userId ≠ .uuid i) {o : Op N}
    (ho : Asks env (ShowsLock w i User.mfaLockedUntil l) r o) :
    KeepsLock w i User.mfaLockedUntil l o := by
  cases ho with
  | attemptFailed _ h => exact ⟨(h.selected.1 _ rfl).known, (h.selected.1 _ rfl).locked⟩
  | attemptsReset _ h => exact ⟨(h.selected.1 _ rfl).known, (h.selected.1 _ rfl).locked⟩
  | @mfaAttemptFailed u v t h hv =>
    have hid : v.id = u.id := (hv.1 v rfl).asked _ rfl
    exact ⟨(hv.1 _ rfl).known, fun hi => (id_ne_of_factorSeen h (hid.symm.trans hi)).elim⟩
  | factorAccepted h => exact fun hid => absurd hid (id_ne_of_factorSeen h)
  | disabled he _ hi => exact fun hid => absurd (hid ▸ hi) (hoff _ _ he)
  | unlocked he hu => exact fun hid => absurd hid (id_ne_of_spared hr (.inl he) hu)
  | reset he hu => exact fun hid => absurd hid (id_ne_of_spared hr (.inr he) hu)
  | _ => first | trivial | exact fun _ _ => rfl

end Requests

section Runs

/-- The answer to a login while the account is locked. -/
def Refused (res : Except Failure Reply) : Prop :=
  res = .error (.forbidden "Cuenta bloqueada. Intente más tarde.")

/-- A login that reaches a locked row compares no password and is refused. -/
theorem under_login_of_locked {dto : LoginDto N} {u : User}
    (hu : w.findUser (.email (criterion env dto.email)) = some u) (hi : u.id = i)
    (ip device : String) :
    Under (ShowsLock w i User.lockedUntil l) (fun o => ∀ data hash, o ≠ .bcryptCompare data hash)
      Refused (login env dto ip device) := by
  refine ⟨by simp, fun row hrow => ?_⟩
  cases row with
  | none => exact (hrow.2.2 _ rfl (by simp [hu]) rfl).elim
  | some v =>
    obtain ⟨u', hu', hid⟩ := (hrow.1 v rfl).email _ rfl
    cases hu.symm.trans hu'
    have hlock : v.lockedUntil = some l := (hrow.1 v rfl).locked (hid.symm.trans hi)
    change Under _ _ _ (isLocked v.lockedUntil >>= _)
    rw [hlock, isLocked, bind_assoc]
    refine ⟨by simp, fun t ht => ?_⟩
    have hlt : t < l := ht
    have hlocked : (decide (t < l)) = true := decide_eq_true hlt
    change Under _ _ _ (if decide (t < l) then _ else _)
    rw [hlocked]
    exact ⟨by simp, fun _ _ => ⟨by simp, fun _ _ => rfl⟩⟩

variable [JsNumber N] [DecidableEq N]

/-- Requests that keep the lock, each with a guarantee and an ending of its own. -/
theorem stands_together {rs : List (Request N)} {sched : List (Turn Time)} {P : ℕ → Op N → Prop}
    {R : ℕ → Except Failure Reply → Prop} {u : User} (hu : w.users.get? u.id = some u)
    (hl : lock u = some l) (ht : ∀ t, Shown w sched t → t < l)
    (hkeeps : ∀ r ∈ rs, ∀ o, Asks env (ShowsLock w u.id lock l) r o → KeepsLock w u.id lock l o)
    (hown : ∀ (k : ℕ) r, rs[k]? = some r →
      Under (ShowsLock w u.id lock l) (P k) (R k) (handle env r)) :
    let c := together env w rs sched
    Stands w u.id lock l c.state ∧
      (∀ (k : ℕ) p, c.threads[k]? = some p → Under (ShowsLock w u.id lock l)
        (fun o => KeepsLock w u.id lock l o ∧ P k o) (R k) p) ∧
      ∀ k o r, .op k o r ∈ c.log → KeepsLock w u.id lock l o ∧ P k o := by
  refine under_together (A := fun _ => ShowsLock w u.id lock l) sched
    (fun _ o w' hw' ho _ => ⟨showsLock_exec hw' o, stands_exec hw' ho.1⟩) ?_
    ⟨rfl, ⟨u, hu, hl⟩, ht _ (.inl rfl)⟩
    fun k r hr => under_asks (hkeeps r (List.mem_of_getElem? hr)) (hown k r hr)
  rintro t w' hmem ⟨hsame, hrow, -⟩
  exact ⟨hsame, hrow, ht t (.inr hmem)⟩

/-- A lock on the password that has not run out stands through any interleaving of requests
but an administrator's for that user, and no login of the user's gets to the password. -/
theorem lock_stands (env : Env N) (w : World) (rs : List (Request N)) (sched : List (Turn Time))
    (u : User) (hu : w.users.get? u.id = some u) (l : Time) (hl : u.lockedUntil = some l)
    (hrs : ∀ r ∈ rs, SparedByAdmin env w u.id r) (ht : ∀ t, Shown w sched t → t < l) :
    let c := together env w rs sched
    (∃ v, c.state.users.get? u.id = some v ∧ v.lockedUntil = some l) ∧
      ∀ k r dto, rs[k]? = some r → r.route = .login dto →
        w.findUser (.email (criterion env dto.email)) = some u →
        (∀ data hash b, .op k (.bcryptCompare data hash) b ∉ c.log) ∧
          (∀ y, c.threads[k]? ≠ some (.ret y)) ∧
          (17 ≤ sched.count (.thread k) →
            c.threads[k]? = some (.throw (.forbidden "Cuenta bloqueada. Intente más tarde."))) := by
  intro c
  let OfUser : ℕ → Prop := fun k => ∃ r dto, rs[k]? = some r ∧ r.route = .login dto ∧
    w.findUser (.email (criterion env dto.email)) = some u
  have hown : ∀ (k : ℕ) r, rs[k]? = some r → Under (ShowsLock w u.id User.lockedUntil l)
      (fun o => OfUser k → ∀ data hash, o ≠ .bcryptCompare data hash)
      (fun res => OfUser k → Refused res) (handle env r) := by
    refine fun k r hr => under_when ?_
    rintro ⟨r', dto, hr', hroute, hfound⟩
    cases hr.symm.trans hr'
    rw [handle, hroute]
    exact under_login_of_locked hfound rfl _ _
  obtain ⟨hstands, hthreads, hlog⟩ := stands_together hu hl ht
    (fun r hr o ho => keepsLock_of_asks (hrs r hr) ho) hown
  refine ⟨hstands.row, fun k r dto hr hroute hfound => ?_⟩
  have hk : OfUser k := ⟨r, dto, hr, hroute, hfound⟩
  refine ⟨fun data hash b hmem => (hlog k _ b hmem).2 hk data hash rfl, fun y hy => ?_, ?_⟩
  · cases (hthreads k _ hy) hk
  · intro hturns
    have hends : EndsWithin 17 (handle env r) := by
      rw [handle, hroute]
      exact endsWithin_login dto _ _
    obtain ⟨q, hq, hended⟩ : ∃ q, c.threads[k]? = some q ∧ EndsWithin _ q :=
      endsWithin_exec (c := Pool.start (rs.map (handle env)) w) (by simp [Pool.start, hr]) hends sched
    rw [Nat.sub_eq_zero_of_le hturns] at hended
    cases q with
    | call o next => exact hended.elim
    | ret y => cases (hthreads k _ hq) hk
    | throw e =>
      cases (hthreads k _ hq) hk
      exact hq

/-- A lock on MFA stands as well, if the user does not turn MFA off, and nobody gets tokens
for the user with a temporary token. -/
theorem mfa_lock_stands (env : Env N) (w : World) (rs : List (Request N)) (sched : List (Turn Time))
    (u : User) (hu : w.users.get? u.id = some u) (l : Time) (hl : u.mfaLockedUntil = some l)
    (hrs : ∀ r ∈ rs, SparedByAdmin env w u.id r)
    (hoff : ∀ r ∈ rs, ∀ password code, r.route = .disable password code → r.userId ≠ .uuid u.id)
    (ht : ∀ t, Shown w sched t → t < l) :
    let c := together env w rs sched
    (∃ v, c.state.users.get? u.id = some v ∧ v.mfaLockedUntil = some l) ∧
      ∀ (k : ℕ) r y t, rs[k]? = some r → presented r.route ≠ none → c.threads[k]? = some (.ret y) →
        y.tokens? = some t → t.accessToken.payload.sub ≠ u.id ∧ t.refreshToken.payload.sub ≠ u.id := by
  intro c
  have hown : ∀ (k : ℕ) r, rs[k]? = some r → Under (ShowsLock w u.id User.mfaLockedUntil l)
      (fun _ => True) (fun res => ∀ r, rs[k]? = some r →
        Ends env (ShowsLock w u.id User.mfaLockedUntil l) r res) (handle env r) := by
    intro k r hr
    refine (serves_handle env _ r).mono (fun _ _ ha => ha) (fun _ _ => trivial) ?_
    rintro res hres r' hr'
    cases hr.symm.trans hr'
    exact hres
  obtain ⟨hstands, hthreads, -⟩ := stands_together hu hl ht
    (fun r hr o ho => keepsMfaLock_of_asks (hrs r hr) (hoff r hr) ho) hown
  refine ⟨hstands.row, fun k r y t hr hp hy htokens => ?_⟩
  cases hthreads k _ hy r hr y t rfl htokens with
  | granted h ht =>
    cases h with
    | login hroute => simp [hroute, presented] at hp
    | refresh hroute => simp [hroute, presented] at hp
  | verified h ht =>
    have hne := id_ne_of_factorSeen h
    obtain ⟨s, -, haccess⟩ := ht.access
    obtain ⟨a, b, s', -, -, -, hrefresh⟩ := ht.refresh
    rw [haccess, hrefresh]
    exact ⟨hne, hne⟩

end Runs

/-- Ana, locked out of both steps, with a temporary token. -/
def lockedAna : User :=
  { ana with
    failedAttempts := 5
    lockedUntil := some 900000
    mfaTempToken := some "t"
    mfaTempTokenExpires := some 300000
    mfaFailedAttempts := 3
    mfaLockedUntil := some 1800000 }

def lockedWorld : World := anaWorld.saveUser lockedAna

/-- A login with her password, her factor, and a setup of another secret. -/
def lockedRequests : List (Request ℕ) :=
  [anaRequest (.login ⟨some (.str "ana@verde.ec"), some (.str "clave")⟩),
    anaRequest (.verify (some (.str "t")) (some (.str "000007"))),
    anaRequest .setup]

def lockedTurns : List (Turn Time) :=
  (List.replicate 17 [.thread 0, .thread 1, .thread 2, .outside 4000]).flatten

theorem shown_lockedTurns {t : Time} (ht : Shown lockedWorld lockedTurns t) : t = 0 ∨ t = 4000 := by
  rcases ht with rfl | ht
  · exact .inl rfl
  · exact .inr (by simpa [lockedTurns] using ht)

theorem sparedByAdmin_lockedRequests :
    ∀ r ∈ lockedRequests, SparedByAdmin anaEnv lockedWorld 1 r := by
  simp [lockedRequests, anaRequest, SparedByAdmin]

theorem lock_stands_lockedRequests :
    let c := together anaEnv lockedWorld lockedRequests lockedTurns
    (∃ v, c.state.users.get? 1 = some v ∧ v.lockedUntil = some 900000) ∧
      c.threads[0]? = some (.throw (.forbidden "Cuenta bloqueada. Intente más tarde.")) := by
  have hlock := lock_stands anaEnv lockedWorld lockedRequests lockedTurns lockedAna (by decide)
    900000 rfl sparedByAdmin_lockedRequests fun t ht => by
      rcases shown_lockedTurns ht with rfl | rfl <;> decide
  exact ⟨hlock.1, (hlock.2 0 _ _ rfl rfl (by decide)).2.2 (by decide)⟩

theorem mfa_lock_stands_lockedRequests :
    let c := together anaEnv lockedWorld lockedRequests lockedTurns
    (∃ v, c.state.users.get? 1 = some v ∧ v.mfaLockedUntil = some 1800000) ∧
      ∀ y t, c.threads[1]? = some (.ret y) → y.tokens? = some t →
        t.accessToken.payload.sub ≠ 1 := by
  have hlock := mfa_lock_stands anaEnv lockedWorld lockedRequests lockedTurns lockedAna (by decide)
    1800000 rfl sparedByAdmin_lockedRequests (by simp [lockedRequests, anaRequest])
    fun t ht => by rcases shown_lockedTurns ht with rfl | rfl <;> decide
  have hpresented : presented (anaRequest (.verify (some (.str "t")) (some (.str "000007")))).route ≠
      none := by simp [anaRequest, presented]
  exact ⟨hlock.1, fun y t hy ht => (hlock.2 1 _ y t rfl hpresented hy ht).1⟩

end VerdeAuth.StandingLocks
