import VerdeAuth.RequestContracts
import VerdeAuth.IamAssumptions

/-!
# Requests that do not name a user

A row that no criterion of a request matches is neither changed by it nor visible
in its answer, whatever other such requests run at the same time.
-/

namespace VerdeAuth.RowIsolation

open JsonTexts KeyedTables IamTables IamOperations ResumptionPrograms InterleavedPools UsersService
open TokenServices AuthService IamEndpoints IamAssumptions UserRowChanges RequestFootprints
open ResponseContracts RequestContracts

variable {N : Type} {env : Env N}

/-- Nothing in the request leads to the row. One that lacks its criterion leads to the
first. -/
structure Unnamed (env : Env N) (r : Request N) (u : User) : Prop where
  email : ∀ e, emailOf r.route = some e → ∃ s, criterion env e = some s ∧ u.email ≠ s
  token : ∀ t, presented r.route = some t →
    ∃ s, criterion env t = some s ∧ u.mfaTempToken ≠ some s
  header : takesHeader r.route = true → r.userId ≠ .undefined ∧ r.userId ≠ .uuid u.id
  refreshed : ∀ s t p, r.route = .refresh (some (.str s)) →
    env.jwtVerify (refreshKey env) s t = some p → p.sub ≠ u.id
  bearer : ∀ header t p, r.route = .me → r.authorization = some header →
    env.jwtVerify env.jwtAccessSecret (String.ofList (header.toList.drop 7)) t = some p →
    p.sub ≠ u.id

/-- A query that answers with another row. -/
def FindsOthers (i : UserId) : (o : Op N) → Res N o → Prop
  | .findUser _, row => ∀ u, row = some u → u.id ≠ i
  | _, _ => True

/-- Operations that neither match a row nor write it. -/
def SparesRow (u : User) : Op N → Prop
  | .findUser c => c.matches u = false
  | .insertUser _ _ => False
  | .saveUser v => v.id ≠ u.id
  | .updateUser i _ => i ≠ u.id
  | _ => True

section Asked

variable {r : Request N} {u : User}

theorem matches_subject (h : Unnamed env r u) {i : UserId}
    (hi : Subject env (FindsOthers u.id) r i) : i ≠ u.id := by
  cases hi with
  | holder hp hu => exact hu _ rfl
  | refreshed hr hp =>
    obtain ⟨s, t, rfl, -, hv⟩ := hp
    exact h.refreshed s t _ hr hv
  | bearer hr hh hp =>
    obtain ⟨s, t, hs, -, hv⟩ := hp
    cases hs
    exact h.bearer _ t _ hr hh hv

theorem not_addressed (h : Unnamed env r u) {i : UserId} (hr : takesHeader r.route = true)
    (hi : r.userId = .uuid i) : i ≠ u.id := by
  rintro rfl
  exact (h.header hr).2 hi

variable [JsNumber N] [DecidableEq N]

theorem sparesRow_of_asks (h : Unnamed env r u) {o : Op N}
    (ho : Asks env (FindsOthers u.id) r o) : SparesRow u o := by
  have hheader : ∀ {i}, takesHeader r.route = true → r.userId = .uuid i → i ≠ u.id :=
    fun hr hi => not_addressed h hr hi
  cases ho with
  | byEmail hr =>
    obtain ⟨s, hs, hne⟩ := h.email _ hr
    simp [SparesRow, hs, UserWhere.matches, hne]
  | byToken hp =>
    obtain ⟨s, hs, hne⟩ := h.token _ hp
    simp [SparesRow, hs, UserWhere.matches, hne]
  | byHeader hr hc =>
    cases hi : r.userId with
    | undefined => exact absurd hi (h.header hr).1
    | invalid =>
      rw [hi] at hc
      cases hc
    | uuid i =>
      rw [hi] at hc
      cases hc
      simpa [SparesRow, UserWhere.matches] using (hheader hr hi).symm
  | byId hi => simpa [SparesRow, UserWhere.matches] using (matches_subject h hi).symm
  | attemptFailed hr hl =>
    have hne := hl.selected _ rfl
    exact hne
  | attemptsReset hr hl =>
    have hne := hl.selected _ rfl
    exact hne
  | mfaAttemptFailed hf hv =>
    have hne := hv _ rfl
    exact hne
  | tempToken hr hl => exact hl.selected _ rfl
  | secret hr hi => exact hheader (by rw [hr]; rfl) hi
  | enabled hr hb hi => exact hheader (by rw [hr]; rfl) hi
  | disabled hr hb hi => exact hheader (by rw [hr]; rfl) hi
  | biometricEnabled hr hb hi => exact hheader (by rw [hr]; rfl) hi
  | biometricDisabled hr hb hi => exact hheader (by rw [hr]; rfl) hi
  | factorAccepted hf =>
    obtain ⟨_, -, hu⟩ := hf.selected
    exact hu _ rfl
  | codesSpent hf =>
    obtain ⟨_, -, hu⟩ := hf.selected
    exact hu _ rfl
  | tokenCleared hf =>
    obtain ⟨_, -, hu⟩ := hf.selected
    exact hu _ rfl
  | unlocked hr hu => exact hu _ rfl
  | reset hr hu => exact hu _ rfl
  | _ => trivial

end Asked

/-- Two states that differ in one row only. -/
structure DifferIn (u u' : User) (w w' : World) : Prop where
  row : w.users.get? u.id = some u
  rest : w' = { w with users := w.users.put u' }

section Steps

variable {u u' : User} {w w' : World} {o : Op N}

theorem findUser_differIn (h : DifferIn u u' w w') (hid : u'.id = u.id) {c : UserWhere}
    (hc : c.matches u = false) (hc' : c.matches u' = false) : w'.findUser c = w.findUser c := by
  rw [h.rest]
  exact Table.findOne_put_of_false (hid ▸ h.row) hc hc'

theorem answer_differIn (h : DifferIn u u' w w') (hid : u'.id = u.id) (ho : SparesRow u o)
    (ho' : SparesRow u' o) : (exec env o w).1 = (exec env o w').1 := by
  cases o with
  | findUser c => exact (findUser_differIn h hid ho ho').symm
  | insertUser email passwordHash => exact ho.elim
  | _ =>
    obtain ⟨-, rfl⟩ := h
    rfl

theorem findsOthers_exec (h : DifferIn u u' w w') (ho : SparesRow u o) :
    FindsOthers u.id o (exec env o w).1 := by
  cases o with
  | findUser c =>
    intro v hv hid
    have hrow := h.row
    rw [← hid, get?_of_findUser hv] at hrow
    rw [Option.some.inj hrow] at hv
    have hmatches : c.matches u = false := ho
    rw [matches_of_findUser hv] at hmatches
    cases hmatches
  | _ => trivial

theorem differIn_exec (h : DifferIn u u' w w') (hid : u'.id = u.id) (ho : SparesRow u o) :
    DifferIn u u' (exec env o w).2 (exec env o w').2 := by
  obtain ⟨hrow, rfl⟩ := h
  have hrow' : w.users.get? u'.id = some u := hid ▸ hrow
  cases o with
  | insertUser email passwordHash => exact ho.elim
  | saveUser v =>
    have hne : v.id ≠ u.id := ho
    refine ⟨(Table.get?_put_of_ne w.users v hne.symm).trans hrow, ?_⟩
    have hcomm := Table.put_comm (t := w.users) (r := v) (hid ▸ hne) hrow'
    simp only [exec, World.saveUser, hcomm]
  | updateUser i p =>
    have hne : i ≠ u.id := ho
    refine ⟨(Table.get?_modify_of_ne w.users hne.symm p.apply p.apply_id).trans hrow, ?_⟩
    have hcomm := Table.modify_put (t := w.users) (k := i) (hid ▸ hne) p.apply p.apply_id hrow'
    simp only [exec, World.updateUser, hcomm]
  | _ => exact ⟨hrow, rfl⟩

theorem unwinds_differIn (env : Env N) (hid : u'.id = u.id) :
    Unwinds (exec env) tick (DifferIn u u') (FindsOthers u.id)
      (fun o => SparesRow u o ∧ SparesRow u' o) where
  agrees _ _ _ ho h := answer_differIn h hid ho.1 ho.2
  answers _ _ _ ho h := findsOthers_exec h ho.1
  related _ _ _ ho h := differIn_exec h hid ho.1
  outside _ _ _ h := by
    obtain ⟨hrow, rfl⟩ := h
    exact ⟨hrow, rfl⟩

end Steps

section Requests

variable [JsNumber N] [DecidableEq N]

/-- However requests that name neither version of a user interleave, they give the
same answers on both, and leave the user and everything else as they would. -/
theorem row_isolated (env : Env N) (w : World) (u u' : User) (hu : w.users.get? u.id = some u)
    (hid : u'.id = u.id) (rs : List (Request N))
    (hrs : ∀ r ∈ rs, Unnamed env r u ∧ Unnamed env r u') (sched : List (Turn Time)) :
    let c := together env w rs sched
    let c' := together env { w with users := w.users.put u' } rs sched
    c'.threads = c.threads ∧ c'.log = c.log ∧ c.state.users.get? u.id = some u ∧
      c'.state = { c.state with users := c.state.users.put u' } := by
  have hps : ∀ p ∈ rs.map (handle env), Under (FindsOthers u.id)
      (fun o => SparesRow u o ∧ SparesRow u' o) (fun _ => True) p := by
    intro p hp
    obtain ⟨r, hr, rfl⟩ := List.mem_map.mp hp
    obtain ⟨hun, hun'⟩ := hrs r hr
    refine (serves_handle env (FindsOthers u.id) r).mono (fun _ _ h => h) (fun o ho => ?_)
      fun _ _ => trivial
    exact ⟨sparesRow_of_asks hun ho, sparesRow_of_asks hun' (hid ▸ ho)⟩
  have hdiffer : DifferIn u u' w { w with users := w.users.put u' } := ⟨hu, rfl⟩
  have halike := (unwinds_differIn env hid).exec hps hdiffer sched
  exact ⟨halike.threads.symm, halike.log.symm, halike.state.row, halike.state.rest⟩

end Requests

/-- A user beside Ana. -/
def beto : User := User.create 2 "beto@verde.ec" "$2b$llave"

def anaAndBeto : World := anaWorld.saveUser beto

def betoRequests : List (Request ℕ) :=
  [⟨.login ⟨some (.str "beto@verde.ec"), some (.str "otra")⟩, .undefined, none, none, "::1"⟩,
    ⟨.setup, .uuid 2, none, none, "::1"⟩]

theorem unnamed_betoRequests {u : User} (hid : u.id = 1) (he : u.email = "ana@verde.ec") :
    ∀ r ∈ betoRequests, Unnamed anaEnv r u := by
  intro r hr
  rcases List.mem_cons.mp hr with rfl | hr
  · constructor
    · rintro e ⟨⟩
      exact ⟨"beto@verde.ec", rfl, by rw [he]; decide⟩
    all_goals simp [presented, takesHeader]
  · obtain rfl := List.mem_singleton.mp hr
    constructor
    · rintro e ⟨⟩
    all_goals simp [presented, hid]

/-- Whether Ana has MFA is nothing to Beto. -/
theorem row_isolated_ana :
    let sched : List (Turn Time) := (List.replicate 8 [.thread 0, .thread 1]).flatten
    let c := together anaEnv anaAndBeto betoRequests sched
    let c' := together anaEnv { anaAndBeto with users := anaAndBeto.users.put (mfaDisabled ana) }
      betoRequests sched
    c'.threads = c.threads ∧ c'.log = c.log ∧ c.state.users.get? 1 = some ana ∧
      c'.state = { c.state with users := c.state.users.put (mfaDisabled ana) } := by
  have hrs : ∀ r ∈ betoRequests, Unnamed anaEnv r ana ∧ Unnamed anaEnv r (mfaDisabled ana) :=
    fun r hr => ⟨unnamed_betoRequests rfl rfl r hr, unnamed_betoRequests rfl rfl r hr⟩
  exact row_isolated anaEnv anaAndBeto ana (mfaDisabled ana) rfl rfl betoRequests hrs _

end VerdeAuth.RowIsolation
