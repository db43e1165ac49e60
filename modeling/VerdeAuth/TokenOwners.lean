import VerdeAuth.RequestContracts
import VerdeAuth.IamAssumptions

/-!
# Whose temporary tokens are

A temporary token is drawn by a login and stored in the row that the login's email leads
to. Rows are saved back as a whole, with whatever token they were read with, so a token
that was overwritten can return; it still never reaches the row of another user.
-/

namespace VerdeAuth.TokenOwners

open JsonTexts KeyedTables IamTables IamOperations ResumptionPrograms InterleavedPools UsersService
open TokenServices AuthService IamEndpoints IamAssumptions UserRowChanges
open RequestFootprints ResponseContracts RequestContracts

variable {N : Type} {env : Env N} {w w' : World}

/-- The columns no request changes. -/
def identities (w : World) : List (UserId × String) := w.users.rows.map fun u => (u.id, u.email)

/-- The token was in the user's row at first, or a login with the user's email drew it. -/
inductive Holder (env : Env N) (w : World) (rs : List (Request N)) (log : List (Event (Res N) Time))
    (i : UserId) (x : String) : Prop
  | kept {u} (hu : u ∈ w.users.rows) (hi : u.id = i) (hx : u.mfaTempToken = some x)
  | drawn {j r dto u n} (hj : rs[j]? = some r) (hr : r.route = .login dto)
      (hu : w.findUser (.email (criterion env dto.email)) = some u) (hi : u.id = i)
      (hn : .op j .draw n ∈ log) (hx : x = env.randomHex n 32)

section Steps

variable {own : UserId → String → Prop}

/-- The rows are those there were, with tokens of their own. -/
structure HoldOwn (own : UserId → String → Prop) (w w' : World) : Prop where
  same : identities w' = identities w
  held : ∀ u ∈ w'.users.rows, ∀ x, u.mfaTempToken = some x → own u.id x

/-- Writes that give a row of the table a token of its own. -/
def StoresOwn (own : UserId → String → Prop) (w : World) : Op N → Prop
  | .insertUser _ _ => False
  | .saveUser v => (v.id, v.email) ∈ identities w ∧ ∀ x, v.mfaTempToken = some x → own v.id x
  | .updateUser i p => ∀ x, p.mfaTempToken = some (some x) → own i x
  | _ => True

theorem identities_put {u : User} (hu : (u.id, u.email) ∈ identities w) :
    identities { w with users := w.users.put u } = identities w := by
  obtain ⟨v, hv, he⟩ := List.mem_map.mp hu
  have hid : v.id = u.id := congrArg Prod.fst he
  exact Table.map_put (f := fun u : User => (u.id, u.email)) hv hid.symm he.symm

theorem identities_update (w : World) (i : UserId) (p : UserPatch) :
    identities (w.updateUser i p) = identities w := by
  simp only [identities, World.updateUser, Table.modify, Table.mapRows, List.map_map]
  refine List.map_congr_left fun u _ => ?_
  by_cases hi : u.id = i
  · simp [hi, UserPatch.apply]
  · simp [hi]

theorem holdOwn_exec {o : Op N} (h : HoldOwn own w w') (ho : StoresOwn own w o) :
    HoldOwn own w (exec env o w').2 := by
  obtain ⟨hsame, hheld⟩ := h
  cases o with
  | insertUser email passwordHash => exact ho.elim
  | saveUser v =>
    obtain ⟨hv, hown⟩ := ho
    refine ⟨(identities_put (hsame ▸ hv)).trans hsame, fun u hu => ?_⟩
    rcases Table.mem_put hu with rfl | ⟨hu, -⟩
    · exact hown
    · exact hheld u hu
  | updateUser i p =>
    refine ⟨(identities_update w' i p).trans hsame, fun u hu x hx => ?_⟩
    have hmem : u ∈ (w'.users.modify i p.apply p.apply_id).rows := hu
    rcases Table.mem_modify hmem with ⟨hu, -⟩ | ⟨v, hv, hid, rfl⟩
    · exact hheld u hu x hx
    · cases hp : p.mfaTempToken with
      | none =>
        have hvx : v.mfaTempToken = some x := by simpa [UserPatch.apply, hp] using hx
        exact hheld v hv x hvx
      | some token =>
        have htoken : token = some x := by simpa [UserPatch.apply, hp] using hx
        rw [p.apply_id, hid]
        exact ho x (hp.trans (congrArg some htoken))
  | _ => exact ⟨hsame, hheld⟩

/-- An email leads to the same user in every state. -/
theorem findUser_email (h : identities w' = identities w) {c : Option String} {u : User}
    (hu : w'.findUser (.email c) = some u) : ∃ v, w.findUser (.email c) = some v ∧ v.id = u.id := by
  let named : UserId × String → Bool := fun p => c.all fun e => p.2 = e
  have hfind : ∀ w : World, (w.findUser (.email c)).map (fun u => (u.id, u.email)) =
      (identities w).find? named := by
    intro w
    have hmatches : (UserWhere.email c).matches = named ∘ fun u => (u.id, u.email) := by
      funext u
      cases c <;> rfl
    rw [identities, List.find?_map, ← hmatches]
    rfl
  have hsame := hfind w'
  rw [h, ← hfind w, hu, Option.map_some] at hsame
  obtain ⟨v, hv, he⟩ := Option.map_eq_some_iff.mp hsame.symm
  exact ⟨v, hv, congrArg Prod.fst he⟩

end Steps

section Requests

variable {rs : List (Request N)} {log : List (Event (Res N) Time)} {j : ℕ}

/-- The rows a thread is shown hold their own tokens, and the values it draws are those
of the log. -/
def ShowsOwn (env : Env N) (w : World) (rs : List (Request N)) (log : List (Event (Res N) Time))
    (j : ℕ) : Contract N
  | .findUser c, row => ∀ u, row = some u → (u.id, u.email) ∈ identities w ∧
      (∀ x, u.mfaTempToken = some x → Holder env w rs log u.id x) ∧
      ∀ e, c = .email e → ∃ v, w.findUser c = some v ∧ v.id = u.id
  | .draw, n => .op j .draw n ∈ log
  | _, _ => True

theorem showsOwn_exec {o : Op N} (h : HoldOwn (Holder env w rs log) w w')
    (hlog : .op j o (exec env o w').1 ∈ log) : ShowsOwn env w rs log j o (exec env o w').1 := by
  cases o with
  | findUser c =>
    intro u hu
    have hmem : u ∈ w'.users.rows := mem_of_findUser hu
    refine ⟨?_, h.held u hmem, ?_⟩
    · rw [← h.same]
      exact List.mem_map_of_mem hmem
    · rintro e rfl
      exact findUser_email h.same hu
  | draw => exact hlog
  | _ => trivial

variable [JsNumber N] [DecidableEq N] {r : Request N}

theorem storesOwn_of_asks (hj : rs[j]? = some r) {o : Op N}
    (ho : Asks env (ShowsOwn env w rs log j) r o) : StoresOwn (Holder env w rs log) w o := by
  cases ho with
  | attemptFailed hr h =>
    obtain ⟨hid, hheld, -⟩ := h.selected _ rfl
    exact ⟨hid, hheld⟩
  | attemptsReset hr h =>
    obtain ⟨hid, hheld, -⟩ := h.selected _ rfl
    exact ⟨hid, hheld⟩
  | mfaAttemptFailed h hv =>
    obtain ⟨hid, hheld, -⟩ := hv _ rfl
    exact ⟨hid, hheld⟩
  | tempToken hr h hm hn =>
    rintro x ⟨⟩
    obtain ⟨-, -, hemail⟩ := h.selected _ rfl
    obtain ⟨v, hv, hid⟩ := hemail _ rfl
    exact .drawn hj hr hv hid hn rfl
  | unlocked => simp [StoresOwn, unlockPatch]
  | reset => simp [StoresOwn, resetPatch]
  | _ => first | trivial | simp [StoresOwn]

theorem holdOwn_together (env : Env N) (w : World) (rs : List (Request N)) (sched : List (Turn Time)) :
    let c := together env w rs sched
    HoldOwn (Holder env w rs c.log) w c.state := by
  intro c
  refine (under_together (A := ShowsOwn env w rs c.log) (R := fun _ _ => True)
    (P := fun _ => StoresOwn (Holder env w rs c.log) w) sched ?_ ?_ ?_ ?_).1
  · intro j o w' hw' ho hlog
    exact ⟨showsOwn_exec hw' hlog, holdOwn_exec hw' ho⟩
  · rintro t w' - ⟨hsame, hheld⟩
    exact ⟨hsame, hheld⟩
  · exact ⟨rfl, fun u hu x hx => .kept hu rfl hx⟩
  · intro j r hr
    exact (serves_handle env (ShowsOwn env w rs c.log j) r).mono (fun _ _ ha => ha)
      (fun _ ho => storesOwn_of_asks hr ho) fun _ _ => trivial

/-- However requests interleave, a temporary token in a row was in the row of that user
at first, or was drawn by a login with that user's email. -/
theorem tokens_issued (env : Env N) (w : World) (rs : List (Request N)) (sched : List (Turn Time)) :
    let c := together env w rs sched
    ∀ u ∈ c.state.users.rows, ∀ x, u.mfaTempToken = some x → Holder env w rs c.log u.id x :=
  (holdOwn_together env w rs sched).held

end Requests

section Draws

/-- No value is drawn twice. -/
structure DrawnOnce (w : World) (c : Pool (Res N) Failure Reply World Time) : Prop where
  start : w.drawn ≤ c.state.drawn
  range : ∀ j n, .op j .draw n ∈ c.log → w.drawn ≤ n ∧ n < c.state.drawn
  once : ∀ j k n, .op j .draw n ∈ c.log → .op k .draw n ∈ c.log → j = k

theorem drawn_exec (env : Env N) {o : Op N} (ho : o ≠ .draw) (w : World) :
    (exec env o w).2.drawn = w.drawn := by
  cases o with
  | draw => exact absurd rfl ho
  | _ => rfl

theorem drawnOnce_perform {c : Pool (Res N) Failure Reply World Time} (h : DrawnOnce w c) (i : ℕ)
    (o : Op N) (next : Res N o → Iam N Reply) : DrawnOnce w (c.perform (exec env) i o next) := by
  obtain ⟨hstart, hrange, honce⟩ := h
  by_cases ho : o = .draw
  · subst ho
    have hlog : ∀ j n, .op j .draw n ∈ (c.perform (exec env) i .draw next).log →
        .op j .draw n ∈ c.log ∨ j = i ∧ n = c.state.drawn := by
      intro j n hmem
      refine (List.mem_append.mp hmem).imp id fun hmem => ?_
      cases List.mem_singleton.mp hmem
      exact ⟨rfl, rfl⟩
    have hdrawn : (c.perform (exec env) i .draw next).state.drawn = c.state.drawn + 1 := rfl
    refine ⟨by omega, fun j n hj => ?_, fun j k n hj hk => ?_⟩
    · rcases hlog j n hj with hj | ⟨-, rfl⟩
      · have hn := hrange j n hj
        omega
      · omega
    · rcases hlog j n hj with hj | ⟨rfl, rfl⟩
      · rcases hlog k n hk with hk | ⟨-, rfl⟩
        · exact honce j k n hj hk
        · have hn := hrange j _ hj
          omega
      · rcases hlog k _ hk with hk | ⟨rfl, -⟩
        · have hn := hrange k _ hk
          omega
        · rfl
  · have hlog : ∀ j n, .op j .draw n ∈ (c.perform (exec env) i o next).log →
        .op j .draw n ∈ c.log := by
      intro j n hmem
      rcases List.mem_append.mp hmem with hmem | hmem
      · exact hmem
      · cases List.mem_singleton.mp hmem
        exact absurd rfl ho
    have hdrawn : (c.perform (exec env) i o next).state.drawn = c.state.drawn :=
      drawn_exec env ho c.state
    refine ⟨hdrawn ▸ hstart, fun j n hj => ?_, fun j k n hj hk => ?_⟩
    · rw [hdrawn]
      exact hrange j n (hlog j n hj)
    · exact honce j k n (hlog j n hj) (hlog k n hk)

theorem drawnOnce_exec (env : Env N) (w : World) (ps : List (Iam N Reply))
    (sched : List (Turn Time)) : DrawnOnce w ((Pool.start ps w).exec (exec env) tick sched) := by
  refine Pool.exec_invariant (DrawnOnce w) (fun _ _ => True) ?_ ⟨le_rfl, ?_, ?_⟩
    (Pool.admits_true sched _)
  · rintro c (i | t) h -
    · rcases Pool.turn_thread_cases (exec env) tick c i with ⟨o, next, -, ht⟩ | ⟨-, ht⟩
      · rw [ht]
        exact drawnOnce_perform h i o next
      · rw [ht]
        exact h
    · obtain ⟨hstart, hrange, honce⟩ := h
      have hlog : ∀ j n, .op j .draw n ∈ (c.turn (exec env) tick (.outside t)).log →
          .op j .draw n ∈ c.log := by simp [Pool.turn]
      refine ⟨hstart, fun j n hj => hrange j n (hlog j n hj), fun j k n hj hk => ?_⟩
      exact honce j k n (hlog j n hj) (hlog k n hk)
  · simp [Pool.start]
  · simp [Pool.start]

theorem holder_unique {rs : List (Request N)} {c : Pool (Res N) Failure Reply World Time}
    (hrandom : ∀ m n, env.randomHex m 32 = env.randomHex n 32 → m = n)
    (hfirst : ∀ u ∈ w.users.rows, ∀ v ∈ w.users.rows, ∀ x, u.mfaTempToken = some x →
      v.mfaTempToken = some x → u = v)
    (hnew : ∀ u ∈ w.users.rows, ∀ n, w.drawn ≤ n → u.mfaTempToken ≠ some (env.randomHex n 32))
    (hc : DrawnOnce w c) {i k : UserId} {x : String} (hi : Holder env w rs c.log i x)
    (hk : Holder env w rs c.log k x) : i = k := by
  cases hi with
  | kept hu hi hx =>
    cases hk with
    | kept hv hk hy => rw [← hi, ← hk, hfirst _ hu _ hv x hx hy]
    | drawn _ _ _ _ hn hy =>
      subst hy
      exact absurd hx (hnew _ hu _ (hc.range _ _ hn).1)
  | drawn hj hr hu hi hn hx =>
    subst hx
    cases hk with
    | kept hv _ hy => exact absurd hy (hnew _ hv _ (hc.range _ _ hn).1)
    | drawn hj' hr' hv hk hn' hx' =>
      cases hrandom _ _ hx'
      cases hc.once _ _ _ hn hn'
      cases hj.symm.trans hj'
      cases hr.symm.trans hr'
      cases hu.symm.trans hv
      rw [← hi, ← hk]

variable [JsNumber N] [DecidableEq N]

/-- Where the values drawn differ from each other and from the tokens there are, at no
point of any interleaving do two users hold the same temporary token. -/
theorem tokens_unique (env : Env N) (hrandom : ∀ m n, env.randomHex m 32 = env.randomHex n 32 → m = n)
    (w : World) (hfirst : ∀ u ∈ w.users.rows, ∀ v ∈ w.users.rows, ∀ x, u.mfaTempToken = some x →
      v.mfaTempToken = some x → u = v)
    (hnew : ∀ u ∈ w.users.rows, ∀ n, w.drawn ≤ n → u.mfaTempToken ≠ some (env.randomHex n 32))
    (rs : List (Request N)) (sched : List (Turn Time)) :
    let c := together env w rs sched
    ∀ u ∈ c.state.users.rows, ∀ v ∈ c.state.users.rows, ∀ x, u.mfaTempToken = some x →
      v.mfaTempToken = some x → u = v := by
  intro c u hu v hv x hx hy
  have hheld : ∀ u ∈ c.state.users.rows, ∀ x, u.mfaTempToken = some x →
      Holder env w rs c.log u.id x := (holdOwn_together env w rs sched).held
  have hid : u.id = v.id := holder_unique hrandom hfirst hnew (drawnOnce_exec env w _ sched)
    (hheld u hu x hx) (hheld v hv x hy)
  exact Table.eq_of_key_eq hu hv hid

end Draws

/-- Ana and another user with MFA. -/
def pairWorld : World := anaWorld.saveUser { User.create 2 "beto@verde.ec" "$2b$llave" with mfaEnabled := true }

def pairLogins : List (Request ℕ) :=
  [anaRequest (.login ⟨some (.str "ana@verde.ec"), some (.str "clave")⟩),
    anaRequest (.login ⟨some (.str "beto@verde.ec"), some (.str "llave")⟩)]

def pairTurns : List (Turn Time) := (List.replicate 9 [.thread 0, .thread 1]).flatten

/-- Both have been given tokens. -/
theorem tokens_unique_pairLogins :
    let c := together anaEnv pairWorld pairLogins pairTurns
    (∀ u ∈ c.state.users.rows, u.mfaTempToken ≠ none) ∧
      ∀ u ∈ c.state.users.rows, ∀ v ∈ c.state.users.rows, ∀ x, u.mfaTempToken = some x →
        v.mfaTempToken = some x → u = v := by
  refine ⟨by decide, tokens_unique anaEnv ?_ pairWorld ?_ ?_ pairLogins pairTurns⟩
  · exact fun m n => randomHex_plainEnv _ m n 32
  · have hnone : ∀ u ∈ pairWorld.users.rows, u.mfaTempToken = none := by decide
    intro u hu v hv x hx
    rw [hnone u hu] at hx
    cases hx
  · have hnone : ∀ u ∈ pairWorld.users.rows, u.mfaTempToken = none := by decide
    intro u hu n _
    simp [hnone u hu]

end VerdeAuth.TokenOwners
