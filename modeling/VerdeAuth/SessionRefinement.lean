import VerdeAuth.IamAssumptions
import VerdeAuth.RevocableLeases
import VerdeAuth.SessionCalls

/-!
# The session store as a set of live tokens

One call after the other, the rows of the session store stand for the leases their
users have on the tokens handed out. Looking a token up asks whether its lease is
live, and removing expired rows changes nothing that can be asked.
-/

namespace VerdeAuth.SessionRefinement

open JsonTexts KeyedTables IamTables IamOperations ResumptionPrograms RunHistories IamAssumptions
open RevocableLeases SessionCalls

variable {N : Type} {env : Env N} {w w' : World} {L : Leases UserId String} {t : Time}
  {tokens : List String} {c : TimedCall} {cs : List TimedCall}

/-- The draws a call makes. -/
def draws : Call → ℕ
  | .createRefreshToken _ _ _ => 5
  | _ => 0

/-- What a call does to the leases, from its position among the draws. -/
def act (env : Env N) (drawn : ℕ) (c : TimedCall) : Act UserId String :=
  match c.2 with
  | .createRefreshToken i _ _ => .grant i (tokenAt env drawn) (c.1 + TokenServices.sessionMs)
  | .revokeSession i token => .revoke i token
  | .revokeAllUserSessions i => .revokeAll i
  | _ => .skip

def nextDraw (drawn : ℕ) (c : TimedCall) : ℕ := drawn + draws c.2

/-- The leases after the calls, on a set of leases at the start. -/
def leases (env : Env N) (drawn : ℕ) (L : Leases UserId String) (cs : List TimedCall) :
    Leases UserId String := leasesAfter nextDraw (act env) drawn L cs

/-- The tokens a call returns. -/
def issuedBy (env : Env N) (w : World) (c : TimedCall) : List String :=
  match answer env w c with
  | .ok (.token s) => [s]
  | _ => []

/-- The tokens the calls return, in order. -/
def issued (env : Env N) : World → List TimedCall → List String
  | _, [] => []
  | w, c :: cs => issuedBy env w c ++ issued env (after env w c) cs

/-- The row stands for the lease. -/
structure Belongs (env : Env N) (l : Lease UserId String) (s : Session) : Prop where
  live : s.isRevoked = false
  user : s.userId = l.holder
  token : env.bcryptCompare l.item s.refreshToken = true
  expires : s.expiresAt = l.expires

/-- The rows are of tokens handed out, one row for each, and stand for the leases
that are not over at the time. -/
structure Refines (env : Env N) (tokens : List String) (t : Time) (w : World)
    (L : Leases UserId String) : Prop where
  known : ∀ s ∈ w.sessions.rows, ∃ salt, ∃ token ∈ tokens, s.refreshToken = env.bcryptHash salt token
  distinct : ∀ s ∈ w.sessions.rows, ∀ s' ∈ w.sessions.rows, ∀ token,
    env.bcryptCompare token s.refreshToken = true →
      env.bcryptCompare token s'.refreshToken = true → s = s'
  live : ∀ l, t < l.expires → (l ∈ L ↔ ∃ s ∈ w.sessions.rows, Belongs env l s)

theorem Refines.mono (h : Refines env tokens t w L) {t' : Time} (ht : t ≤ t') :
    Refines env tokens t' w L :=
  ⟨h.known, h.distinct, fun l hl => h.live l (Nat.lt_of_le_of_lt ht hl)⟩

/-- The row, revoked where the test says so. -/
def mark (p : Session → Bool) (s : Session) : Session :=
  if p s then { s with isRevoked := true } else s

theorem mark_refreshToken (p : Session → Bool) (s : Session) :
    (mark p s).refreshToken = s.refreshToken := by
  unfold mark
  split <;> rfl

theorem mark_eq_of_live {p : Session → Bool} {s : Session} (h : (mark p s).isRevoked = false) :
    p s = false ∧ mark p s = s := by
  unfold mark at h ⊢
  cases hp : p s with
  | true => simp [hp] at h
  | false => exact ⟨rfl, by simp⟩

/-- Revoking the rows of the leases that an act ends. -/
theorem Refines.mark (h : Refines env tokens t w L) {a : Act UserId String} {p : Session → Bool}
    (ha : ∀ k x e, a ≠ .grant k x e)
    (hp : ∀ s ∈ w.sessions.rows, s.isRevoked = false → ∀ token,
      env.bcryptCompare token s.refreshToken = true → (p s = true ↔ a.Ends s.userId token))
    (hrows : w'.sessions.rows = w.sessions.rows.map (mark p)) :
    Refines env tokens t w' (L.step a) := by
  constructor
  · intro s hs
    rw [hrows] at hs
    obtain ⟨r, hr, rfl⟩ := List.mem_map.mp hs
    rw [mark_refreshToken]
    exact h.known r hr
  · intro s hs s' hs' token hc hc'
    rw [hrows] at hs hs'
    obtain ⟨r, hr, rfl⟩ := List.mem_map.mp hs
    obtain ⟨r', hr', rfl⟩ := List.mem_map.mp hs'
    rw [mark_refreshToken] at hc hc'
    rw [h.distinct r hr r' hr' token hc hc']
  · intro l hl
    rw [Leases.mem_step, h.live l hl, hrows]
    constructor
    · rintro (hgrant | ⟨⟨s, hs, hb⟩, hends⟩)
      · exact absurd hgrant (ha _ _ _)
      · have hps : p s = false := by
          rw [← Bool.not_eq_true, hp s hs hb.live l.item hb.token, hb.user]
          exact hends
        refine ⟨s, ?_, hb⟩
        have hmark : SessionRefinement.mark p s = s := by simp [SessionRefinement.mark, hps]
        exact hmark ▸ List.mem_map_of_mem hs
    · rintro ⟨s', hs', hb⟩
      obtain ⟨s, hs, rfl⟩ := List.mem_map.mp hs'
      obtain ⟨hps, hmark⟩ := mark_eq_of_live hb.live
      rw [hmark] at hb
      refine Or.inr ⟨⟨s, hs, hb⟩, ?_⟩
      rw [← hb.user, ← hp s hs hb.live l.item hb.token, hps]
      exact Bool.false_ne_true

/-- Rows that stay, with an act that ends no lease of theirs. -/
theorem Refines.same (h : Refines env tokens t w L) {a : Act UserId String}
    (ha : ∀ k x e, a ≠ .grant k x e)
    (hp : ∀ s ∈ w.sessions.rows, s.isRevoked = false → ∀ token,
      env.bcryptCompare token s.refreshToken = true → ¬ a.Ends s.userId token)
    (hrows : w'.sessions.rows = w.sessions.rows) : Refines env tokens t w' (L.step a) := by
  apply h.mark (p := fun _ => false) ha
  · intro s hs hlive token hc
    simpa using hp s hs hlive token hc
  · have hid : SessionRefinement.mark (fun _ => false) = id := by
      funext s
      simp [SessionRefinement.mark]
    rw [hrows, hid, List.map_id]

theorem Refines.remove (h : Refines env tokens t w L)
    (hrows : w'.sessions.rows = w.sessions.rows.filter fun s => !decide (s.expiresAt < t)) :
    Refines env tokens t w' L := by
  have hsub : ∀ s ∈ w'.sessions.rows, s ∈ w.sessions.rows := by
    intro s hs
    rw [hrows] at hs
    exact (List.mem_filter.mp hs).1
  refine ⟨fun s hs => h.known s (hsub s hs),
    fun s hs s' hs' => h.distinct s (hsub s hs) s' (hsub s' hs'), fun l hl => ?_⟩
  rw [h.live l hl]
  constructor
  · rintro ⟨s, hs, hb⟩
    refine ⟨s, ?_, hb⟩
    rw [hrows]
    have hkept : ¬ s.expiresAt < t := by
      rw [hb.expires]
      exact Nat.not_lt.mpr (Nat.le_of_lt hl)
    simp [hs, hkept]
  · rintro ⟨s, hs, hb⟩
    exact ⟨s, hsub s hs, hb⟩

theorem Refines.insert (hb : IdealBcrypt env) (h : Refines env tokens t w L) {token : String}
    (hnew : token ∉ tokens) {s : Session} {salt : ℕ} (hlive : s.isRevoked = false)
    (hhash : s.refreshToken = env.bcryptHash salt token)
    (hrows : w'.sessions.rows = w.sessions.rows ++ [s]) :
    Refines env (tokens ++ [token]) t w' (L.step (.grant s.userId token s.expiresAt)) := by
  have hself : ∀ x, env.bcryptCompare x s.refreshToken = true ↔ x = token := by
    intro x
    rw [hhash]
    exact hb salt x token
  have hold : ∀ r ∈ w.sessions.rows, ∀ x, env.bcryptCompare x r.refreshToken = true →
      x ≠ token := by
    intro r hr x hx hxt
    obtain ⟨salt', token', hmem, hr'⟩ := h.known r hr
    rw [hr', hb salt' x token'] at hx
    exact hnew (hxt ▸ hx ▸ hmem)
  constructor
  · intro r hr
    rw [hrows] at hr
    rcases List.mem_append.mp hr with hr | hr
    · obtain ⟨salt', token', hmem, hr'⟩ := h.known r hr
      exact ⟨salt', token', List.mem_append_left _ hmem, hr'⟩
    · rw [List.mem_singleton.mp hr]
      exact ⟨salt, token, by simp, hhash⟩
  · intro r hr r' hr' x hx hx'
    rw [hrows] at hr hr'
    rcases List.mem_append.mp hr with hr | hr <;> rcases List.mem_append.mp hr' with hr' | hr'
    · exact h.distinct r hr r' hr' x hx hx'
    · rw [List.mem_singleton.mp hr'] at hx'
      exact absurd ((hself x).mp hx') (hold r hr x hx)
    · rw [List.mem_singleton.mp hr] at hx
      exact absurd ((hself x).mp hx) (hold r' hr' x hx')
    · rw [List.mem_singleton.mp hr, List.mem_singleton.mp hr']
  · intro l hl
    rw [Leases.mem_step, h.live l hl, hrows]
    constructor
    · rintro (hgrant | ⟨⟨r, hr, hbelongs⟩, -⟩)
      · obtain ⟨huser, hitem, hexpires⟩ := Act.grant.inj hgrant
        exact ⟨s, by simp, hlive, huser, (hself _).mpr hitem.symm, hexpires⟩
      · exact ⟨r, List.mem_append_left _ hr, hbelongs⟩
    · rintro ⟨r, hr, hbelongs⟩
      rcases List.mem_append.mp hr with hr | hr
      · exact Or.inr ⟨⟨r, hr, hbelongs⟩, id⟩
      · rw [List.mem_singleton.mp hr] at hbelongs
        have hitem := (hself _).mp hbelongs.token
        rw [hbelongs.user, hbelongs.expires, hitem]
        exact Or.inl rfl

theorem drawn_after (env : Env N) (w : World) (c : TimedCall) :
    (after env w c).drawn = nextDraw w.drawn c := by
  obtain ⟨t, c⟩ := c
  cases c with
  | createRefreshToken i d ip => rfl
  | validateRefreshToken i token =>
    simp [after, Call.program, run_validateRefreshToken, nextDraw, draws]
  | revokeSession i token =>
    simp only [after, Call.program, Prog.run_bind, run_revokeSession, Prog.andThen_ok]
    cases firstMatch env token (({ w with clock := t } : World).findSessions (some i)) <;> rfl
  | revokeAllUserSessions i => rfl
  | cleanupExpiredSessions => rfl

theorem issuedBy_create (env : Env N) (w : World) (t : Time) (i : UserId) (d ip : String) :
    issuedBy env w (t, .createRefreshToken i d ip) = [tokenAt env w.drawn] := rfl

theorem issuedBy_congr (env : Env N) {w w' : World} (h : w.drawn = w'.drawn) (c : TimedCall) :
    issuedBy env w c = issuedBy env w' c := by
  obtain ⟨t, c⟩ := c
  cases c with
  | createRefreshToken i d ip => rw [issuedBy_create, issuedBy_create, h]
  | validateRefreshToken i token => simp [issuedBy, answer, Call.program, run_validateRefreshToken]
  | revokeSession i token => simp [issuedBy, answer, Call.program, run_revokeSession]
  | revokeAllUserSessions i => rfl
  | cleanupExpiredSessions => rfl

theorem mem_findSessions_some {i : UserId} {s : Session} : s ∈ w.findSessions (some i) ↔
    s ∈ w.sessions.rows ∧ s.isRevoked = false ∧ s.userId = i := by
  simp [World.findSessions]

variable (env w) in
theorem rows_revokeSession (t : Time) (i : UserId) (token : String) :
    (after env w (t, .revokeSession i token)).sessions.rows =
      (firstMatch env token (w.findSessions (some i))).elim w.sessions.rows fun s₀ =>
        w.sessions.rows.map (mark fun s => s.id = s₀.id) := by
  have hstate : after env w (t, .revokeSession i token) =
      (firstMatch env token (w.findSessions (some i))).elim { w with clock := t }
        fun s => ({ w with clock := t } : World).saveSession { s with isRevoked := true } := by
    simp only [after, Call.program, Prog.run_bind, run_revokeSession, Prog.andThen_ok]
    rfl
  rw [hstate]
  cases hfirst : firstMatch env token (w.findSessions (some i)) with
  | none => rfl
  | some s₀ =>
    have hrow := (mem_findSessions_some.mp (List.mem_of_find?_eq_some hfirst)).1
    have hget : w.sessions.get? { s₀ with isRevoked := true }.id = some s₀ := Table.get?_of_mem hrow
    refine (Table.put_rows hget).trans ?_
    apply List.map_congr_left
    intro s hs
    by_cases hid : s.id = s₀.id
    · obtain rfl := Table.eq_of_key_eq hs hrow hid
      simp [mark]
    · simp [mark, hid]

/-- The session that is revoked is the one the token belongs to, if there is one. -/
theorem Refines.revokeSession (hb : IdealBcrypt env) (h : Refines env tokens t w L) (i : UserId)
    (token : String) :
    Refines env tokens t (after env w (t, .revokeSession i token)) (L.step (.revoke i token)) := by
  have hrows := rows_revokeSession env w t i token
  cases hfirst : firstMatch env token (w.findSessions (some i)) with
  | none =>
    rw [hfirst] at hrows
    apply h.same (by simp) ?_ hrows
    rintro s hs hlive x hx ⟨hi, rfl⟩
    have hmem := mem_findSessions_some.mpr ⟨hs, hlive, hi.symm⟩
    exact List.find?_eq_none.mp hfirst s hmem hx
  | some s₀ =>
    rw [hfirst] at hrows
    have hmatch : env.bcryptCompare token s₀.refreshToken = true := by
      simpa using List.find?_some hfirst
    obtain ⟨hrow, -, huser⟩ := mem_findSessions_some.mp (List.mem_of_find?_eq_some hfirst)
    apply h.mark (by simp) ?_ hrows
    intro s hs _ x hx
    rw [decide_eq_true_eq]
    constructor
    · intro hid
      obtain rfl := Table.eq_of_key_eq hs hrow hid
      obtain ⟨salt, stored, -, hhash⟩ := h.known s hs
      rw [hhash, hb salt] at hmatch hx
      exact ⟨huser.symm, hmatch.trans hx.symm⟩
    · rintro ⟨-, rfl⟩
      rw [h.distinct s hs s₀ hrow token hx hmatch]

/-- One call. -/
theorem Refines.after (hb : IdealBcrypt env) (h : Refines env tokens t w L) (ht : t ≤ c.1)
    (hnew : (tokens ++ issuedBy env w c).Nodup) :
    Refines env (tokens ++ issuedBy env w c) c.1 (after env w c) (L.step (act env w.drawn c)) := by
  replace h := h.mono ht
  obtain ⟨t, c⟩ := c
  cases c with
  | createRefreshToken i d ip =>
    rw [issuedBy_create] at hnew ⊢
    have hfresh : tokenAt env w.drawn ∉ tokens := by
      intro hmem
      exact (List.nodup_append.mp hnew).2.2 _ hmem _ (List.mem_singleton.mpr rfl) rfl
    exact h.insert hb hfresh (s := ⟨freshId w.sessions, i, _, some d, some ip, _, false⟩) rfl rfl
      (put_fresh rfl)
  | validateRefreshToken i token =>
    have hnone : issuedBy env w (t, .validateRefreshToken i token) = [] := by
      simp [issuedBy, answer, Call.program, run_validateRefreshToken]
    have hrows : (SessionCalls.after env w (t, .validateRefreshToken i token)).sessions.rows =
        w.sessions.rows := by
      simp [SessionCalls.after, Call.program, run_validateRefreshToken]
    rw [hnone, List.append_nil]
    exact h.same (by simp [act]) (by simp [act, Act.Ends]) hrows
  | revokeSession i token =>
    have hnone : issuedBy env w (t, .revokeSession i token) = [] := by
      simp [issuedBy, answer, Call.program, run_revokeSession]
    rw [hnone, List.append_nil]
    exact h.revokeSession hb i token
  | revokeAllUserSessions i =>
    rw [show issuedBy env w (t, .revokeAllUserSessions i) = [] from rfl, List.append_nil]
    apply h.mark (p := fun s => s.userId = i) (by simp [act])
    · intro s _ _ x _
      simp [act, Act.Ends, eq_comm]
    · apply List.map_congr_left
      intro s _
      simp [SessionRefinement.mark]
  | cleanupExpiredSessions =>
    rw [show issuedBy env w (t, .cleanupExpiredSessions) = [] from rfl, List.append_nil]
    have hskip : L.step (act env w.drawn (t, .cleanupExpiredSessions)) = L := Leases.step_skip L
    rw [hskip]
    exact h.remove rfl

/-- All calls, at times that do not go back. -/
theorem refines_run (hb : IdealBcrypt env) {now : Time} (h : Refines env tokens t w L)
    (hclock : (t :: (cs.map Prod.fst ++ [now])).Pairwise (· ≤ ·))
    (hnew : (tokens ++ issued env w cs).Nodup) :
    Refines env (tokens ++ issued env w cs) now (run (after env) w cs)
      (leases env w.drawn L cs) := by
  induction cs generalizing t w L tokens with
  | nil =>
    have ht : t ≤ now := (List.pairwise_cons.mp hclock).1 now (by simp)
    rw [issued, List.append_nil]
    exact h.mono ht
  | cons c cs ih =>
    obtain ⟨ht, hrest⟩ := List.pairwise_cons.mp hclock
    rw [issued, ← List.append_assoc] at hnew ⊢
    have hfirst : (tokens ++ issuedBy env w c).Nodup :=
      List.Nodup.sublist (List.sublist_append_left _ _) hnew
    have hstep := h.after hb (ht c.1 (by simp)) hfirst
    have htail := ih hstep hrest hnew
    rw [drawn_after] at htail
    exact htail

/-- The call is no cleanup. -/
def keeps (c : TimedCall) : Bool := c.2 ≠ .cleanupExpiredSessions

theorem issued_filter {w w' : World} (h : w.drawn = w'.drawn) :
    issued env w (cs.filter keeps) = issued env w' cs := by
  induction cs generalizing w w' with
  | nil => rfl
  | cons c cs ih =>
    have hdrawn : (after env w c).drawn = (after env w' c).drawn := by
      rw [drawn_after, drawn_after, h]
    cases hc : keeps c with
    | true =>
      rw [List.filter_cons_of_pos hc, issued, issued, issuedBy_congr env h, ih hdrawn]
    | false =>
      have hcleanup : c.2 = .cleanupExpiredSessions := by simpa [keeps] using hc
      have hnone : issuedBy env w' c = [] := by
        obtain ⟨t, c⟩ := c
        cases hcleanup
        rfl
      have hsame : (after env w' c).drawn = w'.drawn := by
        rw [drawn_after, nextDraw, hcleanup]
        rfl
      have hdrop : (c :: cs).filter keeps = cs.filter keeps := by simp [hc]
      rw [hdrop, issued, hnone, List.nil_append]
      exact ih (h.trans hsame.symm)

theorem leases_filter (env : Env N) (drawn : ℕ) (L : Leases UserId String) (cs : List TimedCall) :
    leases env drawn L (cs.filter keeps) = leases env drawn L cs := by
  apply leasesAfter_filter
  rintro k ⟨t, c⟩ hc
  have hcleanup : c = .cleanupExpiredSessions := by simpa [keeps] using hc
  subst hcleanup
  exact ⟨rfl, rfl⟩

/-- A token is valid when its lease is live. -/
theorem Refines.validate {now : Time} (h : Refines env tokens now w L) (i : UserId)
    (token : String) :
    ∃ b, answer env w (now, .validateRefreshToken i token) = .ok (.valid b) ∧
      (b = true ↔ L.LiveAt now i token) := by
  refine ⟨_, by simp [answer, Call.program, run_validateRefreshToken]; rfl, ?_⟩
  rw [List.any_eq_true]
  constructor
  · rintro ⟨s, hs, hmatch⟩
    obtain ⟨hrow, hlive, huser⟩ := mem_findSessions_some.mp hs
    obtain ⟨hcompare, hexpires⟩ := Bool.and_eq_true_iff.mp hmatch
    have hlt : now < s.expiresAt := of_decide_eq_true hexpires
    exact ⟨s.expiresAt, hlt, (h.live _ hlt).mpr ⟨s, hrow, hlive, huser, hcompare, rfl⟩⟩
  · rintro ⟨e, he, hmem⟩
    obtain ⟨s, hs, hbelongs⟩ := (h.live _ he).mp hmem
    refine ⟨s, mem_findSessions_some.mpr ⟨hs, hbelongs.live, hbelongs.user⟩, ?_⟩
    rw [Bool.and_eq_true_iff, hbelongs.token, hbelongs.expires]
    exact ⟨rfl, decide_eq_true he⟩

/-- The call returned the token to the user. -/
def Creates (env : Env N) (i : UserId) (token : String) (w : World) (c : TimedCall) : Prop :=
  (∃ d ip, c.2 = .createRefreshToken i d ip) ∧ answer env w c = .ok (.token token)

def Revokes (i : UserId) (token : String) (c : Call) : Prop :=
  c = .revokeSession i token ∨ c = .revokeAllUserSessions i

theorem ends_act {drawn : ℕ} {i : UserId} {token : String} :
    (act env drawn c).Ends i token ↔ Revokes i token c.2 := by
  obtain ⟨t, c⟩ := c
  cases c <;> simp [act, Act.Ends, Revokes]

theorem act_eq_grant {i : UserId} {token : String} {e : Time} :
    act env w.drawn c = .grant i token e ↔
      Creates env i token w c ∧ e = c.1 + TokenServices.sessionMs := by
  obtain ⟨t, c⟩ := c
  cases c with
  | createRefreshToken j d ip =>
    have hanswer : answer env w (t, .createRefreshToken j d ip) =
      .ok (.token (tokenAt env w.drawn)) := rfl
    simp only [act, Creates, hanswer, Act.grant.injEq, Except.ok.injEq, Answer.token.injEq,
      Call.createRefreshToken.injEq]
    constructor
    · rintro ⟨rfl, htoken, rfl⟩
      exact ⟨⟨⟨d, ip, rfl, rfl, rfl⟩, htoken⟩, rfl⟩
    · rintro ⟨⟨⟨_, _, rfl, -, -⟩, htoken⟩, rfl⟩
      exact ⟨rfl, htoken, rfl⟩
  | _ => simp [act, Creates]

theorem liveAt_iff {now : Time} {i : UserId} {token : String} :
    (leases env w.drawn ∅ cs).LiveAt now i token ↔
      Since (after env) (fun _ c => ¬ Revokes i token c.2)
        (fun w c => Creates env i token w c ∧ now < c.1 + TokenServices.sessionMs) w cs := by
  have hsince : ∀ e, (⟨i, token, e⟩ : Lease UserId String) ∈ leases env w.drawn ∅ cs ↔
      Since (after env) (fun _ c => ¬ Revokes i token c.2)
        (fun w c => Creates env i token w c ∧ e = c.1 + TokenServices.sessionMs) w cs := by
    intro e
    rw [leases, mem_leasesAfter, since_comp (f := World.drawn) (drawn_after env)]
    simp only [ends_act, act_eq_grant, Set.mem_empty_iff_false, false_and, or_false]
  simp only [Leases.LiveAt, hsince]
  constructor
  · rintro ⟨e, he, before, c, rest, hsplit, ⟨hcreates, rfl⟩, halways⟩
    exact ⟨before, c, rest, hsplit, ⟨hcreates, he⟩, halways⟩
  · rintro ⟨before, c, rest, hsplit, ⟨hcreates, he⟩, halways⟩
    exact ⟨_, he, before, c, rest, hsplit, ⟨hcreates, rfl⟩, halways⟩

/-- In every run from an empty store, a token is valid exactly when it was returned
to the user in the last seven days and not revoked since, and the answer is the
same without the cleanups. -/
theorem session_store_refines (env : Env N) (hb : IdealBcrypt env) (w : World)
    (hw : w.sessions.rows = []) (cs : List TimedCall) (now : Time)
    (hclock : (cs.map Prod.fst ++ [now]).Pairwise (· ≤ ·)) (hnew : (issued env w cs).Nodup)
    (i : UserId) (token : String) :
    (answer env (run (after env) w cs) (now, .validateRefreshToken i token) = .ok (.valid true) ↔
      Since (after env) (fun _ c => ¬ Revokes i token c.2)
        (fun w c => Creates env i token w c ∧ now < c.1 + TokenServices.sessionMs) w cs) ∧
    answer env (run (after env) w cs) (now, .validateRefreshToken i token) =
      answer env (run (after env) w (cs.filter keeps)) (now, .validateRefreshToken i token) := by
  have hempty : Refines env [] 0 w ∅ := by
    constructor
    · simp [hw]
    · simp [hw]
    · simp [hw]
  have hstart : ∀ times : List Time, times.Pairwise (· ≤ ·) → (0 :: times).Pairwise (· ≤ ·) :=
    fun times h => List.pairwise_cons.mpr ⟨fun t _ => Nat.zero_le t, h⟩
  have hrun := refines_run hb hempty (hstart _ hclock) hnew
  have hsub : ((cs.filter keeps).map Prod.fst ++ [now]).Sublist (cs.map Prod.fst ++ [now]) :=
    (List.filter_sublist.map Prod.fst).append (List.Sublist.refl _)
  have hnew' : (issued env w (cs.filter keeps)).Nodup := by rwa [issued_filter rfl]
  have hrun' := refines_run hb hempty (hstart _ (hclock.sublist hsub)) hnew'
  rw [leases_filter] at hrun'
  obtain ⟨b, hb, hlive⟩ := hrun.validate i token
  obtain ⟨b', hb', hlive'⟩ := hrun'.validate i token
  have hbb : b = b' := Bool.eq_iff_iff.mpr (hlive.trans hlive'.symm)
  constructor
  · rw [hb, ← liveAt_iff, ← hlive]
    simp
  · rw [hb, hb', hbb]

/-- Two users sign in, one signs out everywhere. -/
def signIns : List TimedCall :=
  [(1000, .createRefreshToken 1 "movil" "::1"),
    (2000, .createRefreshToken 2 "web" "::1"),
    (3000, .revokeAllUserSessions 2),
    (4000, .cleanupExpiredSessions)]

theorem session_store_refines_signIns :
    let token := tokenAt (plainEnv []) 0
    (answer (plainEnv []) (run (after (plainEnv [])) World.empty signIns)
        (5000, .validateRefreshToken 1 token) = .ok (.valid true) ↔
      Since (after (plainEnv [])) (fun _ c => ¬ Revokes 1 token c.2)
        (fun w c => Creates (plainEnv []) 1 token w c ∧ 5000 < c.1 + TokenServices.sessionMs)
        World.empty signIns) ∧
    answer (plainEnv []) (run (after (plainEnv [])) World.empty signIns)
        (5000, .validateRefreshToken 1 token) =
      answer (plainEnv []) (run (after (plainEnv [])) World.empty (signIns.filter keeps))
        (5000, .validateRefreshToken 1 token) :=
  session_store_refines (plainEnv []) (idealBcrypt_plainEnv []) World.empty rfl signIns 5000
    (by decide) (by decide) 1 _

end VerdeAuth.SessionRefinement
