import VerdeAuth.RequestContracts
import VerdeAuth.IamAssumptions

/-!
# Session rows in a race

No request takes a session row away or changes anything in it but its revocation
flag, and that only one way. A session is revoked by a request that presents its
token, and added for a request that signs a user in.
-/

namespace VerdeAuth.SessionRows

open JsonTexts KeyedTables IamTables IamOperations ResumptionPrograms InterleavedPools UsersService
open TokenServices AuthService IamEndpoints IamAssumptions UserRowChanges
open RequestFootprints ResponseContracts RequestContracts

variable {N : Type} {env : Env N}

/-- A later version of the same session. -/
structure Later (s s' : Session) : Prop where
  same : s' = { s with isRevoked := s'.isRevoked }
  revoked : s.isRevoked = true → s'.isRevoked = true

theorem Later.refl (s : Session) : Later s s := ⟨rfl, fun h => h⟩

theorem Later.trans {s s' s'' : Session} (h : Later s s') (h' : Later s' s'') : Later s s'' := by
  refine ⟨?_, fun hs => h'.revoked (h.revoked hs)⟩
  have hsame := h'.same
  rw [h.same] at hsame
  exact hsame

theorem later_revoked (s : Session) : Later s { s with isRevoked := true } := ⟨rfl, fun _ => rfl⟩

theorem Later.id_eq {s s' : Session} (h : Later s s') : s'.id = s.id := by
  rw [h.same]

/-- The table holds a later version of the session. -/
def Holds (w : World) (s : Session) : Prop := ∃ s' ∈ w.sessions.rows, Later s s'

/-- A request presents the token of the session. -/
def Presents (env : Env N) (r : Request N) (s : Session) : Prop :=
  ∃ x, exchanged r.route = some (some (.str x)) ∧ env.bcryptCompare x s.refreshToken = true

/-- A request that may be given the session. -/
def Starts (r : Request N) (s : Session) : Prop :=
  ((∃ dto, r.route = .login dto) ∨ ∃ token, r.route = .refresh token) ∧
    s.deviceInfo = some r.device ∧ s.ipAddress = some r.ip

/-- What requests may have made of the sessions. -/
structure Accounted (env : Env N) (rs : List (Request N)) (w w' : World) : Prop where
  kept : ∀ s ∈ w.sessions.rows, Holds w' s
  revoked : ∀ s' ∈ w'.sessions.rows, s'.isRevoked = true →
    (∃ s ∈ w.sessions.rows, Later s s' ∧ s.isRevoked = true) ∨ ∃ r ∈ rs, Presents env r s'
  origin : ∀ s' ∈ w'.sessions.rows, (∃ s ∈ w.sessions.rows, Later s s') ∨ ∃ r ∈ rs, Starts r s'

section Steps

variable {w w' : World} {rs : List (Request N)} {s : Session}

theorem accounted_refl (env : Env N) (rs : List (Request N)) (w : World) :
    Accounted env rs w w where
  kept s hs := ⟨s, hs, .refl s⟩
  revoked s hs hr := .inl ⟨s, hs, .refl s, hr⟩
  origin s hs := .inl ⟨s, hs, .refl s⟩

theorem accounted_congr {w'' : World} (h : Accounted env rs w w')
    (hs : w''.sessions = w'.sessions) : Accounted env rs w w'' := by
  obtain ⟨hkept, hrevoked, horigin⟩ := h
  rw [← hs] at hrevoked horigin
  refine ⟨fun s hmem => ?_, hrevoked, horigin⟩
  obtain ⟨s', hs', hlater⟩ := hkept s hmem
  exact ⟨s', hs ▸ hs', hlater⟩

/-- The responses that tell of sessions stay true. -/
def SessionsHeld (env : Env N) (w : World) : (o : Op N) → Res N o → Prop
  | .findSessions _, ss => ∀ s ∈ ss, Holds w s
  | .bcryptCompare data hash, b => b = env.bcryptCompare data hash
  | _, _ => True

/-- Sessions are only added for a request and saved as revoked by one. -/
def WritesSession (env : Env N) (rs : List (Request N)) (w : World) : Op N → Prop
  | .saveSession s => s.isRevoked = true ∧ (∃ s₀ ∈ w.sessions.rows, Later s₀ s) ∧
      ∃ r ∈ rs, Presents env r s
  | .insertSession i hash device ip e => ∀ k, ∃ r ∈ rs, Starts r ⟨k, i, hash, device, ip, e, false⟩
  | .revokeSessions _ => False
  | .deleteSessions _ => False
  | _ => True

theorem holds_of_kept (h : ∀ s ∈ w.sessions.rows, Holds w' s) (hs : Holds w s) : Holds w' s := by
  obtain ⟨s', hs', hlater⟩ := hs
  obtain ⟨s'', hs'', hlater'⟩ := h s' hs'
  exact ⟨s'', hs'', hlater.trans hlater'⟩

theorem mem_insertSession {i : UserId} {hash : String} {device ip : Option String} {e : Time}
    (s : Session) : s ∈ (exec env (.insertSession i hash device ip e) w).2.sessions.rows ↔
      s ∈ w.sessions.rows ∨ s = ⟨freshId w.sessions, i, hash, device, ip, e, false⟩ := by
  have hrows := put_fresh (t := w.sessions)
    (r := Session.mk (freshId w.sessions) i hash device ip e false) rfl
  simp only [exec, World.saveSession, hrows, List.mem_append, List.mem_singleton]

/-- One operation keeps every session there is. -/
theorem kept_exec {o : Op N} (ho : WritesSession env rs w o) :
    ∀ s ∈ w.sessions.rows, Holds (exec env o w).2 s := by
  intro s hs
  cases o with
  | revokeSessions i => exact ho.elim
  | deleteSessions t => exact ho.elim
  | saveSession x =>
    obtain ⟨hx, ⟨s₀, hs₀, hlater⟩, -⟩ := ho
    by_cases hid : s.id = x.id
    · have hsame : s = s₀ := Table.eq_of_key_eq hs hs₀ (hid.trans hlater.id_eq)
      refine ⟨x, Table.mem_rows_of_get? (Table.get?_put_self w.sessions x), hsame ▸ hlater⟩
    · have hget : (w.sessions.put x).get? s.id = some s := by
        rw [Table.get?_put_of_ne w.sessions x hid, Table.get?_of_mem hs]
      exact ⟨s, Table.mem_rows_of_get? hget, .refl s⟩
  | insertSession i hash device ip e => exact ⟨s, (mem_insertSession s).mpr (.inl hs), .refl s⟩
  | _ => exact ⟨s, hs, .refl s⟩

theorem accounted_exec {o : Op N} (h : Accounted env rs w w') (ho : WritesSession env rs w' o) :
    Accounted env rs w (exec env o w').2 := by
  have hkept : ∀ s ∈ w.sessions.rows, Holds (exec env o w').2 s :=
    fun s hs => holds_of_kept (kept_exec ho) (h.kept s hs)
  cases o with
  | revokeSessions i => exact ho.elim
  | deleteSessions t => exact ho.elim
  | saveSession x =>
    obtain ⟨hx, ⟨s₀, hs₀, hlater⟩, hpresents⟩ := ho
    refine ⟨hkept, fun s' hs' hr => ?_, fun s' hs' => ?_⟩
    · rcases Table.mem_put hs' with rfl | ⟨hs', -⟩
      · exact .inr hpresents
      · exact h.revoked s' hs' hr
    · rcases Table.mem_put hs' with rfl | ⟨hs', -⟩
      · refine (h.origin s₀ hs₀).imp (fun ⟨s, hs, hl⟩ => ⟨s, hs, hl.trans hlater⟩) ?_
        rintro ⟨r, hr, hstarts⟩
        refine ⟨r, hr, ?_⟩
        rw [hlater.same]
        exact hstarts
      · exact h.origin s' hs'
  | insertSession i hash device ip e =>
    refine ⟨hkept, fun s' hs' hr => ?_, fun s' hs' => ?_⟩
    · rcases (mem_insertSession s').mp hs' with hs' | rfl
      · exact h.revoked s' hs' hr
      · cases hr
    · rcases (mem_insertSession s').mp hs' with hs' | rfl
      · exact h.origin s' hs'
      · exact .inr (ho _)
  | _ => exact accounted_congr h rfl

theorem stable_accounted (env : Env N) (rs : List (Request N)) (w : World) :
    Stable (exec env) tick (Accounted env rs w) (SessionsHeld env) (WritesSession env rs) where
  keeps _ _ h ho := accounted_exec h ho
  answers o w' _ ho := by
    cases o with
    | findSessions i => exact fun s hs => ⟨s, (List.mem_filter.mp hs).1, .refl s⟩
    | bcryptCompare data hash => rfl
    | _ => trivial
  lasts o w' o' r _ ho hr := by
    cases o' with
    | findSessions i => exact fun s hs => holds_of_kept (kept_exec ho) (hr s hs)
    | bcryptCompare data hash => exact hr
    | _ => trivial
  outside _ _ h := accounted_congr h rfl
  outside_lasts t w' o r _ hr := by
    cases o with
    | _ => exact hr

end Steps

section Requests

variable {rs : List (Request N)} {r : Request N} {w : World}

theorem starts_of_grants {A : Contract N} {u : User} (h : Grants env A r u) (s : Session)
    (hd : s.deviceInfo = some r.device) (hip : s.ipAddress = some r.ip) : Starts r s := by
  cases h with
  | login hr => exact ⟨.inl ⟨_, hr⟩, hd, hip⟩
  | refresh hr => exact ⟨.inr ⟨_, hr⟩, hd, hip⟩

variable [JsNumber N] [DecidableEq N]

theorem writesSession_of_asks (hr : r ∈ rs) {o : Op N} (ho : Asks env (SessionsHeld env w) r o) :
    WritesSession env rs w o := by
  cases ho with
  | newSession hg ht => exact fun k => ⟨r, hr, starts_of_grants hg _ rfl rfl⟩
  | revoked hx hss hs hm =>
    obtain ⟨x, rfl, hc⟩ := hm
    obtain ⟨s', hs', hlater⟩ := hss _ hs
    refine ⟨rfl, ⟨s', hs', ?_⟩, r, hr, x, hx, hc.symm⟩
    have hsaved := later_revoked s'
    rw [hlater.same] at hsaved ⊢
    exact hsaved
  | _ => trivial

/-- However requests interleave, at every point the sessions are accounted for. -/
theorem sessions_accounted (env : Env N) (w : World) (rs : List (Request N))
    (sched : List (Turn Time)) : Accounted env rs w (together env w rs sched).state := by
  have hps : ∀ p ∈ rs.map (handle env), ∀ w', Accounted env rs w w' →
      Under (SessionsHeld env w') (WritesSession env rs w') (fun _ => True) p := by
    intro p hp w' _
    obtain ⟨r, hr, rfl⟩ := List.mem_map.mp hp
    exact (serves_handle env (SessionsHeld env w') r).mono (fun _ _ h => h)
      (fun _ h => writesSession_of_asks hr h) fun _ _ => trivial
  exact ((stable_accounted env rs w).exec hps (accounted_refl env rs w) sched).1

end Requests

end VerdeAuth.SessionRows
