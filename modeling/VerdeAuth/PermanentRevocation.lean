import VerdeAuth.IamAssumptions
import VerdeAuth.RequestFootprints
import VerdeAuth.SessionCalls

/-!
# Revocation under concurrency

Calls of the session service with their operations in any order. A revoked session
may be saved again from an older reading, even after its row was deleted, but only
as revoked. Once no unrevoked row has a token, none ever has it again.
-/

namespace VerdeAuth.PermanentRevocation

open JsonTexts KeyedTables IamTables IamOperations ResumptionPrograms InterleavedPools RunHistories
open IamAssumptions RequestFootprints SessionCalls

variable {N α β : Type} {env : Env N}

abbrev Calls (N : Type) := Pool (Res N) Failure Answer World Time

abbrev Log (N : Type) := List (Event (Res N) Time)

/-- The hash a session was inserted with. -/
def insertedHash : Event (Res N) Time → Option String
  | .op _ (.insertSession _ hash _ _ _) _ => some hash
  | _ => none

/-- No two sessions were inserted for one token. -/
def TokensDiffer (env : Env N) (log : Log N) : Prop :=
  log.Pairwise fun e e' => ∀ token salt salt',
    insertedHash e = some (env.bcryptHash salt token) →
      insertedHash e' ≠ some (env.bcryptHash salt' token)

/-- A session of the user was inserted for the token. -/
def Born (env : Env N) (token : String) (log : Log N) (i : UserId) : Prop :=
  ∃ k salt device ip e,
    .op k (.insertSession i (env.bcryptHash salt token) device ip e) () ∈ log

/-- A call has read the session. -/
def Held (log : Log N) (s : Session) : Prop :=
  ∃ k i, ∃ ss : List Session, .op k (.findSessions i) ss ∈ log ∧ s ∈ ss

/-- The session is saved or read with the token. -/
def Mine (env : Env N) (token : String) (s : Session) : Prop :=
  env.bcryptCompare token s.refreshToken = true

section Log

variable {token : String} {log : Log N} {e : Event (Res N) Time} {i i' : UserId}

theorem Born.append (h : Born env token log i) (log' : Log N) :
    Born env token (log ++ log') i := by
  obtain ⟨k, salt, device, ip, t, hmem⟩ := h
  exact ⟨k, salt, device, ip, t, List.mem_append_left _ hmem⟩

theorem Held.append {s : Session} (h : Held log s) (log' : Log N) : Held (log ++ log') s := by
  obtain ⟨k, i, ss, hmem, hs⟩ := h
  exact ⟨k, i, ss, List.mem_append_left _ hmem, hs⟩

theorem not_born_of_inserted {k salt : ℕ} {device ip : Option String} {t : Time}
    (h : TokensDiffer env
      (log ++ [.op k (.insertSession i (env.bcryptHash salt token) device ip t) ()])) :
    ¬ Born env token log i' := by
  rintro ⟨k', salt', device', ip', t', hmem⟩
  exact (List.pairwise_append.mp h).2.2 _ hmem _ (List.mem_singleton.mpr rfl) token salt' salt rfl
    rfl

end Log

/-! What the programs write. -/

/-- The sessions read, after one more response. -/
def nowHeld (H : Session → Prop) : (o : Op N) → Res N o → Session → Prop
  | .findSessions _, ss => fun s => H s ∨ s ∈ ss
  | _, _ => H

/-- A saved session is one that was read, revoked. -/
def SavesHeld (H : Session → Prop) : Op N → Prop
  | .saveSession s => ∃ s₀, H s₀ ∧ s = { s₀ with isRevoked := true }
  | _ => True

/-- Whatever the responses are, the program saves only revoked versions of sessions
it has read, and inserts hashes of tokens. -/
def Orderly (env : Env N) : (Session → Prop) → Iam N α → Prop
  | _, .ret _ => True
  | _, .throw _ => True
  | H, .call o next => SessionOp env o ∧ SavesHeld H o ∧ ∀ r, Orderly env (nowHeld H o r) (next r)

section Programs

variable {H H' : Session → Prop}

theorem Orderly.mono {p : Iam N α} (h : Orderly env H p) (hH : ∀ s, H s → H' s) :
    Orderly env H' p := by
  induction p generalizing H H' with
  | ret a => trivial
  | throw e => trivial
  | call o next ih =>
    obtain ⟨hop, hsaves, hnext⟩ := h
    refine ⟨hop, ?_, fun r => ih r (hnext r) ?_⟩
    · cases o with
      | saveSession s =>
        obtain ⟨s₀, hs₀, rfl⟩ := hsaves
        exact ⟨s₀, hH s₀ hs₀, rfl⟩
      | _ => trivial
    · intro s hs
      cases o with
      | findSessions i => exact hs.imp (hH s) id
      | _ => exact hH s hs

theorem Orderly.bind {p : Iam N α} {f : α → Iam N β} (h : Orderly env H p)
    (hf : ∀ a, Orderly env H (f a)) : Orderly env H (p >>= f) := by
  induction p generalizing H with
  | ret a => exact hf a
  | throw e => trivial
  | call o next ih =>
    refine ⟨h.1, h.2.1, fun r => ih r (h.2.2 r) fun a => (hf a).mono ?_⟩
    intro s hs
    cases o with
    | findSessions i => exact Or.inl hs
    | _ => exact hs

end Programs

/-! What one operation does to the rows. -/

/-- Where a row comes from that is there after an operation. -/
inductive RowAfter (w : World) : Op N → Session → Prop
  | kept {o s} (hs : s ∈ w.sessions.rows) (hsave : ∀ e, o = .saveSession e → s.id ≠ e.id)
      (hsweep : ∀ i, o = .revokeSessions i → s.userId ≠ i) : RowAfter w o s
  | revoked {o s} (hs : s ∈ w.sessions.rows) : RowAfter w o { s with isRevoked := true }
  | saved {s} : RowAfter w (.saveSession s) s
  | inserted {i hash device ip e} : RowAfter w (.insertSession i hash device ip e)
      ⟨freshId w.sessions, i, hash, device, ip, e, false⟩

theorem rowAfter_exec (env : Env N) (o : Op N) (w : World) {s : Session}
    (hs : s ∈ (exec env o w).2.sessions.rows) : RowAfter w o s := by
  cases o with
  | insertSession i hash device ip e =>
    rcases Table.mem_put hs with rfl | ⟨hs, -⟩
    · exact .inserted
    · exact .kept hs (by simp) (by simp)
  | saveSession e =>
    rcases Table.mem_put hs with rfl | ⟨hs, hid⟩
    · exact .saved
    · refine .kept hs ?_ (by simp)
      rintro _ ⟨⟩
      exact hid
  | revokeSessions i =>
    obtain ⟨r, hr, rfl⟩ := List.mem_map.mp hs
    by_cases hi : r.userId = i
    · rw [if_pos hi]
      exact .revoked hr
    · rw [if_neg hi]
      refine .kept hr (by simp) ?_
      rintro _ ⟨⟩
      exact hi
  | deleteSessions t => exact .kept (List.mem_filter.mp hs).1 (by simp) (by simp)
  | _ => exact .kept hs (by simp) (by simp)

section Steps

variable {token : String} {w : World} {log : Log N} {o : Op N} {k : ℕ}

/-- The token has been given out, and no unrevoked row has it. -/
structure Dead (env : Env N) (token : String) (w : World) (log : Log N) : Prop where
  born : ∃ i, Born env token log i
  rows : ∀ s ∈ w.sessions.rows, s.isRevoked = false → ¬ Mine env token s

/-- An unrevoked row with the token was there before, and neither saved nor swept, or is
the session that was inserted for the token. -/
theorem live_exec (hb : IdealBcrypt env) (hop : SessionOp env o) {s : Session}
    (hs : s ∈ (exec env o w).2.sessions.rows) (hlive : s.isRevoked = false)
    (hmine : Mine env token s) :
    (s ∈ w.sessions.rows ∧ (∀ e, o = .saveSession e → s.id ≠ e.id) ∧
      ∀ i, o = .revokeSessions i → s.userId ≠ i) ∨
    (s.id = freshId w.sessions ∧
      ∃ i salt device ip e, o = .insertSession i (env.bcryptHash salt token) device ip e) := by
  cases rowAfter_exec env o w hs with
  | kept hs hsave hsweep => exact Or.inl ⟨hs, hsave, hsweep⟩
  | revoked hs => cases hlive
  | saved =>
    rw [show s.isRevoked = true from hop] at hlive
    cases hlive
  | @inserted i hash device ip e =>
    obtain ⟨salt, token', rfl⟩ := hop
    obtain rfl := (hb salt token token').mp hmine
    exact Or.inr ⟨rfl, i, salt, device, ip, e, rfl⟩

/-- A token that is dead stays dead. -/
theorem Dead.exec (hb : IdealBcrypt env) (h : Dead env token w log) (hop : SessionOp env o)
    (hdiffer : TokensDiffer env (log ++ [.op k o (exec env o w).1])) :
    Dead env token (exec env o w).2 (log ++ [.op k o (exec env o w).1]) := by
  obtain ⟨i, hborn⟩ := h.born
  refine ⟨⟨i, hborn.append _⟩, fun s hs hlive hmine => ?_⟩
  rcases live_exec hb hop hs hlive hmine with ⟨hs, -, -⟩ | ⟨-, _, _, _, _, _, rfl⟩
  · exact h.rows s hs hlive hmine
  · exact not_born_of_inserted hdiffer hborn

/-- The user's sessions were revoked after one was inserted for the token. -/
def Swept (env : Env N) (token : String) (log : Log N) (i : UserId) : Prop :=
  ∃ l l' k k' salt device ip e,
    log = l ++ .op k (.insertSession i (env.bcryptHash salt token) device ip e) () :: l' ∧
      .op k' (.revokeSessions i) () ∈ l'

/-- At most one session was ever live with the token, it is the one that rows and
readings show, and revoking it has left none. -/
structure Tracked (env : Env N) (token : String) (w : World) (log : Log N) : Prop where
  rows : ∀ s ∈ w.sessions.rows, Mine env token s → Born env token log s.userId
  held : ∀ s, Held log s → Mine env token s → Born env token log s.userId
  one : ∃ x, (∀ s ∈ w.sessions.rows, s.isRevoked = false → Mine env token s → s.id = x) ∧
    ∀ s, Held log s → Mine env token s → s.id = x
  saved : ∀ k s, .op k (.saveSession s) () ∈ log → Mine env token s → Dead env token w log
  swept : ∀ i, Swept env token log i → Dead env token w log

end Steps

/-! Interleavings. -/

section Interleavings

variable {token : String} {w : World} {c : Calls N} {i : UserId}

/-- The calls write in order, and the token is tracked. -/
structure Sound (env : Env N) (token : String) (c : Calls N) : Prop where
  threads : ∀ (k : ℕ) (p : Iam N Answer), c.threads[k]? = some p → Orderly env (Held c.log) p
  ops : ∀ (k : ℕ) (o : Op N) (r : Res N o), .op k o r ∈ c.log → SessionOp env o
  tracked : TokensDiffer env c.log → Tracked env token c.state c.log

/-- A validation that has yet to look, or has only sessions left that do not match. -/
inductive Doomed (env : Env N) (token : String) (i : UserId) : Iam N Answer → Prop
  | waiting : Doomed env token i ((Call.validateRefreshToken i token).program env)
  | checking (ss : List Session) (h : ∀ s ∈ ss, ¬ Mine env token s) : Doomed env token i
      (TokenServices.anyValid (some (.str token)) ss >>= fun b => .ret (.valid b))

theorem Doomed.step {p : Iam N Answer} {log : Log N} (h : Doomed env token i p)
    (hd : Dead env token w log) {o : Op N} {next : Res N o → Iam N Answer}
    (hp : p = .call o next) : Doomed env token i (next (exec env o w).1) := by
  cases h with
  | waiting =>
    cases hp
    apply Doomed.checking
    intro s hs
    obtain ⟨hrow, hcond⟩ := List.mem_filter.mp hs
    simp only [Bool.and_eq_true, Bool.not_eq_true'] at hcond
    exact hd.rows s hrow hcond.1
  | checking ss hss =>
    cases ss with
    | nil => cases hp
    | cons s ss =>
      cases hp
      have hno : env.bcryptCompare token s.refreshToken = false := by
        simpa [Mine] using hss s List.mem_cons_self
      change Doomed env token i
        ((if env.bcryptCompare token s.refreshToken then _ else _) >>= _)
      rw [hno]
      exact .checking ss fun s' hs' => hss s' (List.mem_cons_of_mem _ hs')

end Interleavings

end VerdeAuth.PermanentRevocation
