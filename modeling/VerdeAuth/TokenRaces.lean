import VerdeAuth.IamAssumptions
import VerdeAuth.RequestFootprints

/-!
# Requests that race for a temporary token

A verification looks the token up, checks the factor and only then clears the
token. Where no lookup falls between another's lookup and its end, the token is
spent at most once.
-/

namespace VerdeAuth.TokenRaces

open JsonTexts KeyedTables IamTables IamOperations ResumptionPrograms InterleavedPools UsersService
open TokenServices MfaServices AuthService MfaController IamEndpoints IamRules IamAssumptions
open UserRowChanges RequestFootprints

variable {N : Type}

/-- A row was found by its temporary token. -/
def found (l : List (Exchange (Res N))) : Bool :=
  l.any fun
    | ⟨.findUser (.mfaTempToken _), some _⟩ => true
    | _ => false

def clears : Op N → Bool
  | .updateUser _ p => p.mfaTempToken = some none
  | _ => false

def cleared (l : List (Exchange (Res N))) : Bool := l.any fun x => clears x.1

abbrev Requests (N : Type) := Pool (Res N) Failure Reply World Time

def running (c : Requests N) (k : ℕ) : Bool :=
  match c.threads[k]? with
  | some (.call _ _) => true
  | _ => false

/-- The request holds a row it found by its token and has neither cleared the token
nor stopped. -/
def open? (c : Requests N) (k : ℕ) : Bool :=
  running c k && found (own k c.log) && !cleared (own k c.log)

/-- No request looks a token up while another one is open. -/
def alone (c : Requests N) : Turn Time → Bool
  | .thread j => match c.threads[j]? with
    | some (.call (.findUser (.mfaTempToken _)) _) => !(List.range c.threads.length).any (open? c)
    | _ => true
  | .outside _ => true

/-- An answer to a query by id is a row with that id. -/
def Sound : (o : Op N) → Res N o → Prop
  | .findUser (.id (some j)), some u => u.id = j
  | _, _ => True

theorem sound_exec (env : Env N) (o : Op N) (w : World) : Sound o (exec env o w).1 := by
  cases o with
  | findUser c =>
    change Sound (.findUser c) (w.findUser c)
    cases hu : w.findUser c with
    | none => rcases c with (_ | j) | c | c <;> trivial
    | some u =>
      rcases c with (_ | j) | c | c
      case id.some => exact Table.key_of_get? hu
      all_goals trivial
  | _ => trivial

/-- Operations that write no row but one. -/
def WritesOnly (i : UserId) : Op N → Prop
  | .insertUser _ _ => False
  | .updateUser j _ => j = i
  | .saveUser e => e.id = i
  | _ => True

/-- The program gets to tokens only through clearing the token, and writes no user
row afterwards. -/
def MustClear (i : UserId) : Iam N Reply → Prop
  | .ret reply => reply.tokens? = none
  | .throw _ => True
  | .call o next => WritesOnly i o ∧ ∀ r, Sound o r →
      (clears o = true → Quiet (next r)) ∧ (clears o = false → MustClear i (next r))

variable {α : Type} {i : UserId} {env : Env N}

theorem writesOnly_of_sparesToken {o : Op N} (h : SparesToken i o) :
    WritesOnly i o ∧ clears o = false := by
  cases o with
  | updateUser j p => exact ⟨h.1, by simp [clears, h.2]⟩
  | insertUser email hash => exact h.elim
  | saveUser e => exact h.elim
  | _ => exact ⟨trivial, rfl⟩

/-- A first part that spares the token. -/
theorem mustClear_bind {R : Except Failure α → Prop} {p : Iam N α} {f : α → Iam N Reply}
    (hp : Prog.Every (SparesToken i) R p) (hf : ∀ a, R (.ok a) → MustClear i (f a)) :
    MustClear i (p >>= f) := by
  induction p with
  | ret a => exact hf a hp
  | throw e => trivial
  | call o next ih =>
    obtain ⟨hwrites, hclear⟩ := writesOnly_of_sparesToken hp.1
    exact ⟨hwrites, fun r _ => ⟨fun h => by simp [hclear] at h, fun _ => ih r (hp.2 r)⟩⟩

theorem mustClear_quiet_bind {p : Iam N α} {f : α → Iam N Reply} (hp : Quiet p)
    (hf : ∀ a, MustClear i (f a)) : MustClear i (p >>= f) :=
  mustClear_bind (Prog.Every.mono hp (fun _ => sparesToken_of_keepsUsers) fun _ h => h)
    fun a _ => hf a

theorem mustClear_completeVerification (u : User) {commit : Iam N Unit}
    (h : Sparing u.id commit) : MustClear u.id (completeVerification env u commit) := by
  apply mustClear_bind (sparing_update u.id rfl)
  intro _ _
  apply mustClear_bind h
  intro _ _
  rw [clearMfaTempToken, bind_assoc]
  apply mustClear_quiet_bind quiet_now
  intro t
  refine ⟨rfl, fun _ _ => ⟨fun _ => ?_, fun h => by cases h⟩⟩
  exact (quietResult_generateTokens u.id u.email).quiet.bind fun _ => quiet_ret _

theorem mustClear_incrementMfaFailedAttempts (i : UserId) {reply : Reply}
    (h : reply.tokens? = none) : MustClear i
      (incrementMfaFailedAttempts (.uuid i) >>= fun _ => (.ret reply : Iam N Reply)) := by
  have hsave : ∀ e : User, e.id = i →
      MustClear i (save e >>= fun _ => (.ret reply : Iam N Reply)) :=
    fun e he => ⟨he, fun _ _ => ⟨fun hclear => (by cases hclear), fun _ => h⟩⟩
  refine ⟨trivial, fun v hv => ⟨fun hclear => (by cases hclear), fun _ => ?_⟩⟩
  cases v with
  | none => exact h
  | some u =>
    have hid : u.id = i := hv
    change MustClear i ((if u.mfaFailedAttempts + 1 ≥ 3 then _ else _) >>= _)
    split
    · rw [bind_assoc]
      exact mustClear_quiet_bind quiet_now fun t => hsave _ hid
    · exact hsave _ hid

theorem mustClear_of_found {tempToken : JsonField N} {refusal : String}
    {check : User → Iam N (Option (Iam N Unit))} (hcheck : ∀ u, CalmCheck u.id (check u)) :
    ∃ next, verifyFactor env tempToken refusal check =
      .call (.findUser (.mfaTempToken (criterion env tempToken))) next ∧
      (∃ text, next none = .ret (.message false text)) ∧
      ∀ u, MustClear u.id (next (some u)) := by
  refine ⟨_, rfl, ⟨_, rfl⟩, fun u => ?_⟩
  change MustClear u.id (now >>= _)
  apply mustClear_quiet_bind quiet_now
  intro t
  split
  · rfl
  · apply mustClear_quiet_bind (quiet_isMfaLocked u.id)
    intro locked
    cases locked with
    | true => rfl
    | false =>
      apply mustClear_bind
        (Prog.Every.mono (hcheck u) (fun _ => sparesToken_of_keepsUsers) fun _ h => h)
      intro result hresult
      cases result with
      | none => exact mustClear_incrementMfaFailedAttempts u.id rfl
      | some commit => exact mustClear_completeVerification u (hresult commit rfl)

/-- What a request has done so far tells what it may still do. -/
inductive Phase (tok : String) (i : UserId) : List (Exchange (Res N)) → Iam N Reply → Prop
  | waiting {next} (hnone : ∃ text, next none = .ret (.message false text))
      (hsome : ∀ u, MustClear u.id (next (some u))) :
      Phase tok i [] (.call (.findUser (.mfaTempToken (some tok))) next)
  | holding {l p} (hf : found l = true) (hc : cleared l = false) (hp : MustClear i p) :
      Phase tok i l p
  | refused {l text} (hc : cleared l = false) : Phase tok i l (.ret (.message false text))
  | spent {l p} (hc : cleared l = true) (hp : Quiet p) : Phase tok i l p

theorem Phase.cleared_of_verified {tok : String} {l : List (Exchange (Res N))} {t : TokenPair}
    (h : Phase tok i l (.ret (.verified t))) : cleared l = true := by
  cases h with
  | holding hf hc hp => cases hp
  | spent hc hp => exact hc

/-- One request at a time has the token, and the one that clears it is the last. -/
structure Orderly (tok : String) (i : UserId) (c : Requests N) : Prop where
  phases : ∀ k p, c.threads[k]? = some p → Phase tok i (own k c.log) p
  holder : ∀ u ∈ c.state.users.rows, u.mfaTempToken = some tok → u.id = i
  exclusive : ∀ k k', open? c k = true → open? c k' = true → k = k'
  gone : ∀ k, cleared (own k c.log) = true → ∀ u ∈ c.state.users.rows, u.mfaTempToken ≠ some tok
  closed : ∀ k k', cleared (own k c.log) = true → open? c k' = false
  once : ∀ k k', cleared (own k c.log) = true → cleared (own k' c.log) = true → k = k'

section Steps

variable {tok : String} {c : Requests N} {j k : ℕ} {o : Op N} {next : Res N o → Iam N Reply}

theorem holder_exec (env : Env N) (ho : WritesOnly i o) {w : World}
    (hw : ∀ u ∈ w.users.rows, u.mfaTempToken = some tok → u.id = i) :
    ∀ u ∈ (exec env o w).2.users.rows, u.mfaTempToken = some tok → u.id = i := by
  intro u hu htok
  cases o with
  | insertUser email hash => exact ho.elim
  | updateUser k p =>
    change u ∈ (w.users.modify k p.apply p.apply_id).rows at hu
    rcases Table.mem_modify hu with ⟨hu, -⟩ | ⟨u₀, -, hid, rfl⟩
    · exact hw u hu htok
    · exact hid.trans ho
  | saveUser e =>
    rcases Table.mem_put hu with rfl | ⟨hu, -⟩
    · exact ho
    · exact hw u hu htok
  | _ => exact hw u hu htok

/-- Clearing the token of the only row that has it. -/
theorem gone_exec (ho : WritesOnly i o) (hc : clears o = true) {w : World}
    (hw : ∀ u ∈ w.users.rows, u.mfaTempToken = some tok → u.id = i) :
    ∀ u ∈ (exec env o w).2.users.rows, u.mfaTempToken ≠ some tok := by
  intro u hu htok
  cases o with
  | updateUser k p =>
    have hki : k = i := ho
    change u ∈ (w.users.modify k p.apply p.apply_id).rows at hu
    rcases Table.mem_modify hu with ⟨hu, hid⟩ | ⟨u₀, -, -, rfl⟩
    · exact hid ((hw u hu htok).trans hki.symm)
    · have hnone : p.mfaTempToken = some none := by simpa [clears] using hc
      simp [UserPatch.apply, hnone] at htok
  | _ => cases hc

theorem open?_perform_of_ne (h : k ≠ j) :
    open? (c.perform (exec env) j o next) k = open? c k := by
  rw [open?, open?, running, running, Pool.own_perform_of_ne h, Pool.threads_perform_of_ne h]

theorem cleared_perform_self : cleared (own j (c.perform (exec env) j o next).log) =
    (cleared (own j c.log) || clears o) := by
  rw [Pool.own_perform_self, cleared, List.any_append]
  simp [cleared]

theorem open?_false_of_cleared (h : cleared (own k c.log) = true) : open? c k = false := by
  simp [open?, h]

theorem open?_perform {P : Prop} (h : open? (c.perform (exec env) j o next) k = true)
    (hj : k = j → P) (hne : k ≠ j → open? c k = true → P) : P := by
  by_cases hk : k = j
  · exact hj hk
  · exact hne hk (by rwa [open?_perform_of_ne hk] at h)

/-- The thread that performs an operation goes on to its next phase. -/
theorem phases_perform (h : Orderly tok i c) (hj : c.threads[j]? = some (.call o next))
    (hnext : Phase tok i (own j c.log ++ [⟨o, (exec env o c.state).1⟩])
      (next (exec env o c.state).1)) (k : ℕ) (p : Iam N Reply)
    (hk : (c.perform (exec env) j o next).threads[k]? = some p) :
    Phase tok i (own k (c.perform (exec env) j o next).log) p := by
  by_cases hkj : k = j
  · subst hkj
    rw [Pool.threads_perform_self hj] at hk
    cases hk
    rw [Pool.own_perform_self]
    exact hnext
  · rw [Pool.threads_perform_of_ne hkj] at hk
    rw [Pool.own_perform_of_ne hkj]
    exact h.phases k p hk

theorem cleared_perform (hc : clears o = false) :
    cleared (own k (c.perform (exec env) j o next).log) = cleared (own k c.log) := by
  by_cases hkj : k = j
  · subst hkj
    rw [cleared_perform_self, hc, Bool.or_false]
  · rw [Pool.own_perform_of_ne hkj]

/-- A request looks the token up while no other one is open. -/
theorem orderly_lookup {next : Option User → Iam N Reply} (h : Orderly tok i c)
    (hj : c.threads[j]? = some (.call (.findUser (.mfaTempToken (some tok))) next))
    (hl : own j c.log = []) (hnone : ∃ text, next none = .ret (.message false text))
    (hsome : ∀ u, MustClear u.id (next (some u))) (halone : ∀ k, open? c k = false) :
    Orderly tok i (c.perform (exec env) j (.findUser (.mfaTempToken (some tok))) next) := by
  have hclears : clears (.findUser (.mfaTempToken (some tok)) : Op N) = false := rfl
  have hopen : ∀ k, open? (c.perform (exec env) j (.findUser (.mfaTempToken (some tok))) next) k =
      true → k = j := by
    intro k hk
    refine open?_perform hk id fun _ hk => ?_
    rw [halone k] at hk
    cases hk
  have hrow : ∀ u, c.state.findUser (.mfaTempToken (some tok)) = some u →
      u ∈ c.state.users.rows ∧ u.mfaTempToken = some tok :=
    fun u hu => ⟨mem_of_findUser hu, by simpa [UserWhere.matches] using matches_of_findUser hu⟩
  refine ⟨phases_perform h hj ?_, h.holder, ?_, ?_, ?_, ?_⟩
  · rw [hl]
    change Phase tok i
      [⟨.findUser (.mfaTempToken (some tok)), c.state.findUser (.mfaTempToken (some tok))⟩]
      (next (c.state.findUser (.mfaTempToken (some tok))))
    cases hu : c.state.findUser (.mfaTempToken (some tok)) with
    | none =>
      obtain ⟨text, htext⟩ := hnone
      rw [htext]
      exact .refused rfl
    | some u =>
      obtain ⟨hmem, htok⟩ := hrow u hu
      exact .holding rfl rfl (h.holder u hmem htok ▸ hsome u)
  · intro k k' hk hk'
    rw [hopen k hk, hopen k' hk']
  · intro k hk
    rw [cleared_perform hclears] at hk
    exact h.gone k hk
  · intro k k' hk
    rw [cleared_perform hclears] at hk
    by_cases hkj : k' = j
    · have hmissing : c.state.findUser (.mfaTempToken (some tok)) = none := by
        cases hu : c.state.findUser (.mfaTempToken (some tok)) with
        | none => rfl
        | some u =>
          obtain ⟨hmem, htok⟩ := hrow u hu
          exact absurd htok (h.gone k hk u hmem)
      obtain ⟨text, htext⟩ := hnone
      have hstopped : (c.perform (exec env) j (.findUser (.mfaTempToken (some tok)))
          next).threads[j]? = some (next (c.state.findUser (.mfaTempToken (some tok)))) :=
        Pool.threads_perform_self hj
      rw [hmissing, htext] at hstopped
      rw [hkj, open?, running, hstopped]
      rfl
    · rw [open?_perform_of_ne hkj]
      exact halone k'
  · intro k k' hk hk'
    rw [cleared_perform hclears] at hk hk'
    exact h.once k k' hk hk'

/-- The request that has the token makes a step. -/
theorem orderly_holding (h : Orderly tok i c) (hj : c.threads[j]? = some (.call o next))
    (hf : found (own j c.log) = true) (hc : cleared (own j c.log) = false)
    (hp : MustClear i (.call o next)) : Orderly tok i (c.perform (exec env) j o next) := by
  have hown : open? c j = true := by simp [open?, running, hj, hf, hc]
  have hnot : ∀ k, cleared (own k c.log) = false := by
    intro k
    by_contra hk
    have hclosed := h.closed k j (by simpa using hk)
    rw [hown] at hclosed
    cases hclosed
  obtain ⟨hwrites, hnext⟩ := hp
  obtain ⟨hquiet, hmust⟩ := hnext _ (sound_exec env o c.state)
  have hholder := holder_exec env hwrites h.holder
  cases hclears : clears o with
  | true =>
    have hself : cleared (own j (c.perform (exec env) j o next).log) = true := by
      rw [cleared_perform_self, hclears, Bool.or_true]
    have honly : ∀ k, cleared (own k (c.perform (exec env) j o next).log) = true → k = j := by
      intro k hk
      by_contra hkj
      rw [Pool.own_perform_of_ne hkj, hnot k] at hk
      cases hk
    have hclosed : ∀ k, open? (c.perform (exec env) j o next) k = false := by
      intro k
      by_cases hkj : k = j
      · rw [hkj]
        exact open?_false_of_cleared hself
      · rw [open?_perform_of_ne hkj]
        by_contra hk
        exact hkj (h.exclusive k j (by simpa using hk) hown)
    refine ⟨phases_perform h hj ?_, hholder, ?_, ?_, ?_, ?_⟩
    · refine .spent ?_ (hquiet hclears)
      rw [← Pool.own_perform_self]
      exact hself
    · intro k k' hk
      rw [hclosed k] at hk
      cases hk
    · exact fun _ _ => gone_exec hwrites hclears h.holder
    · exact fun _ k' _ => hclosed k'
    · intro k k' hk hk'
      rw [honly k hk, honly k' hk']
  | false =>
    have hnot' : ∀ k, cleared (own k (c.perform (exec env) j o next).log) = false :=
      fun k => (cleared_perform hclears).trans (hnot k)
    have honly : ∀ k, open? (c.perform (exec env) j o next) k = true → k = j :=
      fun k hk => open?_perform hk id fun _ hk => h.exclusive k j hk hown
    refine ⟨phases_perform h hj ?_, hholder, ?_, ?_, ?_, ?_⟩
    · refine .holding ?_ ?_ (hmust hclears)
      · rw [found, List.any_append]
        exact Bool.or_eq_true_iff.mpr (Or.inl hf)
      · rw [← Pool.own_perform_self]
        exact hnot' j
    · intro k k' hk hk'
      rw [honly k hk, honly k' hk']
    all_goals
      intro k
      simp [hnot']

/-- A request that has cleared the token goes on. -/
theorem orderly_spent (h : Orderly tok i c) (hj : c.threads[j]? = some (.call o next))
    (hc : cleared (own j c.log) = true) (hp : Quiet (.call o next)) :
    Orderly tok i (c.perform (exec env) j o next) := by
  have husers : (c.perform (exec env) j o next).state.users = c.state.users :=
    (sameUsers_exec env hp.1 c.state).1
  have hclears : clears o = false := by
    have hkeeps := hp.1
    cases o <;> first | rfl | exact hkeeps.elim
  have hself : cleared (own j (c.perform (exec env) j o next).log) = true := by
    rw [cleared_perform hclears, hc]
  have hopen : ∀ k, open? (c.perform (exec env) j o next) k = false := by
    intro k
    by_cases hkj : k = j
    · rw [hkj]
      exact open?_false_of_cleared hself
    · rw [open?_perform_of_ne hkj]
      exact h.closed j k hc
  refine ⟨phases_perform h hj ?_, ?_, ?_, ?_, ?_, ?_⟩
  · refine .spent ?_ (hp.2 _)
    rw [← Pool.own_perform_self]
    exact hself
  · rw [husers]
    exact h.holder
  · intro k k' hk
    rw [hopen k] at hk
    cases hk
  · intro k hk
    rw [husers]
    exact h.gone j hc
  · exact fun _ k' _ => hopen k'
  · intro k k' hk hk'
    rw [cleared_perform hclears] at hk hk'
    exact h.once k k' hk hk'

theorem open?_false_of_alone {next : Option User → Iam N Reply} {v : Option String}
    (hj : c.threads[j]? = some (.call (.findUser (.mfaTempToken v)) next))
    (ha : alone c (.thread j) = true) (k : ℕ) : open? c k = false := by
  have hnone : (List.range c.threads.length).any (open? c) = false := by
    simpa [alone, hj] using ha
  by_cases hk : k < c.threads.length
  · simpa using List.any_eq_false.mp hnone k (List.mem_range.mpr hk)
  · simp [open?, running, List.getElem?_eq_none (Nat.le_of_not_lt hk)]

theorem orderly_turn (h : Orderly tok i c) (t : Turn Time) (ha : alone c t = true) :
    Orderly tok i (c.turn (exec env) tick t) := by
  cases t with
  | outside e =>
    have hown : ∀ k, own k (c.turn (exec env) tick (.outside e)).log = own k c.log := by
      intro k
      simp [Pool.turn, own]
    have hopen : ∀ k, open? (c.turn (exec env) tick (.outside e)) k = open? c k := by
      intro k
      rw [open?, hown k]
      rfl
    constructor
    · intro k p hk
      rw [hown k]
      exact h.phases k p hk
    · exact h.holder
    · intro k k'
      rw [hopen k, hopen k']
      exact h.exclusive k k'
    · intro k
      rw [hown k]
      exact h.gone k
    · intro k k'
      rw [hown k, hopen k']
      exact h.closed k k'
    · intro k k'
      rw [hown k, hown k']
      exact h.once k k'
  | thread j =>
    rcases Pool.turn_thread_cases (exec env) tick c j with ⟨o, next, hj, hturn⟩ | ⟨-, hturn⟩
    · rw [hturn]
      have hphase := h.phases j _ hj
      generalize hl : own j c.log = l at hphase
      cases hphase with
      | waiting hnone hsome =>
        exact orderly_lookup h hj hl hnone hsome (open?_false_of_alone hj ha)
      | holding hf hc hp => exact orderly_holding h hj (hl ▸ hf) (hl ▸ hc) hp
      | spent hc hp => exact orderly_spent h hj (hl ▸ hc) hp
    · rw [hturn]
      exact h

end Steps

variable [JsNumber N] [DecidableEq N]

theorem handle_presented (env : Env N) {r : Request N} {tok : String}
    (h : presented r.route = some (some (.str tok))) : ∃ next,
      handle env r = .call (.findUser (.mfaTempToken (some tok))) next ∧
      (∃ text, next none = .ret (.message false text)) ∧
      ∀ u, MustClear u.id (next (some u)) := by
  rw [handle]
  cases hr : r.route with
  | verify t code =>
    rw [hr] at h
    cases h
    exact mustClear_of_found (calmCheck_totp code)
  | verifyBackup t code =>
    rw [hr] at h
    cases h
    exact mustClear_of_found (calmCheck_backup code)
  | verifyBiometric t d =>
    rw [hr] at h
    cases h
    exact mustClear_of_found (calmCheck_biometric env d)
  | _ =>
    rw [hr] at h
    cases h

theorem orderly_start {tok : String} {w : World} {rs : List (Request N)}
    (hrs : ∀ r ∈ rs, presented r.route = some (some (.str tok)))
    (hw : ∀ u ∈ w.users.rows, u.mfaTempToken = some tok → u.id = i) :
    Orderly tok i (Pool.start (rs.map (handle env)) w : Requests N) := by
  have hopen : ∀ k, open? (Pool.start (rs.map (handle env)) w : Requests N) k = false := by
    intro k
    simp [open?, Pool.start, own, found]
  constructor
  · intro k p hk
    obtain ⟨r, hr, rfl⟩ := List.mem_map.mp (List.mem_of_getElem? hk)
    obtain ⟨next, hcall, hnone, hsome⟩ := handle_presented env (hrs r hr)
    rw [hcall]
    exact .waiting hnone hsome
  · exact hw
  · intro k k' hk
    rw [hopen k] at hk
    cases hk
  all_goals
    intro k
    simp [Pool.start, own, cleared]

/-- Where every lookup is alone, at most one of the requests that present the
token is given signed tokens. -/
theorem token_spent_once (env : Env N) (w : World) (tok : String) (i : UserId)
    (hw : ∀ u ∈ w.users.rows, u.mfaTempToken = some tok → u.id = i) (rs : List (Request N))
    (hrs : ∀ r ∈ rs, presented r.route = some (some (.str tok))) (sched : List (Turn Time))
    (halone : Pool.Admits (exec env) tick (fun c t => alone c t = true)
      (Pool.start (rs.map (handle env)) w) sched) (j k : ℕ) (t t' : TokenPair)
    (hj : (together env w rs sched).threads[j]? = some (.ret (.verified t)))
    (hk : (together env w rs sched).threads[k]? = some (.ret (.verified t'))) : j = k := by
  have horderly : Orderly tok i (together env w rs sched) :=
    Pool.exec_invariant (Orderly tok i) _ (fun c t h ha => orderly_turn h t ha)
      (orderly_start hrs hw) halone
  have hcleared := (horderly.phases j _ hj).cleared_of_verified
  have hcleared' := (horderly.phases k _ hk).cleared_of_verified
  exact horderly.once j k hcleared hcleared'

/-- Ana between her password and her second factor. -/
def pendingAna : User :=
  { ana with mfaTempToken := some "t", mfaTempTokenExpires := some 9000 }

def pendingWorld : World := { World.empty.saveUser pendingAna with drawn := 2 }

def anaVerify : Request ℕ :=
  ⟨.verify (some (.str "t")) (some (.str "000007")), .undefined, none, none, "::1"⟩

/-- Two requests take turns. -/
def verifiedTwice : Requests ℕ :=
  together (plainEnv []) pendingWorld [anaVerify, anaVerify]
    ((List.replicate 11 [.thread 0, .thread 1]).flatten)

/-- Both are given tokens for the one token of the one row. -/
theorem token_spent_twice : (∀ u ∈ pendingWorld.users.rows, u.mfaTempToken = some "t" → u.id = 1) ∧
    (∃ t, verifiedTwice.threads[0]? = some (.ret (.verified t))) ∧
    ∃ t, verifiedTwice.threads[1]? = some (.ret (.verified t)) :=
  ⟨by decide, ⟨_, by rfl⟩, _, by rfl⟩

/-- One request after the other. -/
def inTurn : List (Turn Time) := List.replicate 11 (.thread 0) ++ [.thread 1]

theorem token_spent_once_ana :
    (∃ t, (together (plainEnv []) pendingWorld [anaVerify, anaVerify] inTurn).threads[0]? =
      some (.ret (.verified t))) ∧
    ¬ ∃ t, (together (plainEnv []) pendingWorld [anaVerify, anaVerify] inTurn).threads[1]? =
      some (.ret (.verified t)) := by
  have hfirst : ∃ t, (together (plainEnv []) pendingWorld [anaVerify, anaVerify]
      inTurn).threads[0]? = some (.ret (.verified t)) := ⟨_, by rfl⟩
  obtain ⟨t, ht⟩ := hfirst
  refine ⟨⟨t, ht⟩, ?_⟩
  rintro ⟨t', ht'⟩
  have hsame : 0 = 1 := token_spent_once (plainEnv []) pendingWorld "t" 1 (by decide)
    [anaVerify, anaVerify] (by simp [anaVerify, presented]) inTurn (by decide) 0 1 t t' ht ht'
  cases hsame

end VerdeAuth.TokenRaces
