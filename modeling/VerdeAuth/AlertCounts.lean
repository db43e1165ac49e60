import VerdeAuth.LockoutEvents
import VerdeAuth.ServiceLedger

/-!
# What the alert on failed logins counts

Every row of the audit trail is sent on to Loki, and an alert counts the lines that
Loki has of failed logins, address by address. From the requests to that count: it
never exceeds the refusals in the trail, and when all has been answered and delivered
it is the number of logins refused.
-/

namespace VerdeAuth.AlertCounts

open JsonTexts KeyedTables IamTables IamOperations ResumptionPrograms InterleavedPools AuthService
open IamEndpoints IamAssumptions RunHistories BatchShipping LokiTransport AuditTrail
open RequestFootprints OperationLedgers ServiceLedger

variable {N : Type} {lenv : LokiEnv N} {uuid : UserId → String} {ip : String}

/-- `userId || 'anonymous'` -/
def userOf (uuid : UserId → String) : Option UserId → String
  | none => "anonymous"
  | some i => if uuid i = "" then "anonymous" else uuid i

/-- `String(success)` -/
def textOf (success : Bool) : String := if success then "true" else "false"

/-- The object that reaches the transport with an event: the metadata of the logger, those
of the call, its level and message, and the time. -/
def securityInfo (lenv : LokiEnv N) (uuid : UserId → String) (now : Time) (e : SecurityEvent) :
    Members N :=
  [("service", .str "banco-verde-iam"), ("eventType", .str e.eventType),
    ("userId", .str (userOf uuid e.userId)), ("action", .str e.action), ("ip", .str e.ip),
    ("device", .str e.device), ("success", .str (textOf e.success)), ("level", .str "info"),
    ("message", .str e.message), ("timestamp", .str (lenv.toISOString now))]

/-- What happens to the transport: the audit log sends it an event, or anything else. -/
inductive Signal (N : Type) where
  | security (now : Time) (e : SecurityEvent)
  | other (e : Event N)

def Signal.event (lenv : LokiEnv N) (uuid : UserId → String) : Signal N → Event N
  | .security now e => .log now (securityInfo lenv uuid now e)
  | .other e => e

def Signal.sent : Signal N → List SecurityEvent
  | .security _ e => [e]
  | .other _ => []

/-- A row of a login refused to an address, under the name Loki has for it. -/
def refusedFrom (ip : String) (a : AuditLog) : Bool :=
  !a.success && sanitize (orUnknown (a.ip.getD "")) = ip

def refusalsFrom (ip : String) (rows : List AuditLog) : ℕ := rows.countP (refusedFrom ip)

/-- A login from the address that is refused. -/
def refusesFrom (ip : String) (r : Request N) (res : Except Failure Reply) : Bool :=
  refusesLogin r res && sanitize (orUnknown r.ip) = ip

variable [JsNumber N] [DecidableEq N]

/-- Every label asked for has its value. -/
def selects (selector : List (String × String)) (ls : Members N) : Bool :=
  selector.all fun m => Json.strictEq ((Json.obj ls).get? m.1) (some (.str m.2))

/-- `{service="banco-verde-iam", eventType="login_failed"}`, for one value of `ip`. -/
def failedLogins (ip : String) : List (String × String) :=
  [("service", "banco-verde-iam"), ("eventType", "login_failed"), ("ip", ip)]

def selected (lenv : LokiEnv N) (selector : List (String × String)) (entry : LogEntry N) : Bool :=
  (labels lenv entry).any (selects selector)

/-- The entries of the requests that Loki has taken. -/
def delivered (s : Loki lenv) : List (LogEntry N) :=
  s.requests.flatMap fun b => if b.outcome = .delivered then b.items else []

/-- What the alert counts for an address. -/
def alertCount (ip : String) (s : Loki lenv) : ℕ :=
  (delivered s).countP (selected lenv (failedLogins ip))

/-- An event that logs nothing, or an entry that can be sent and has no event type. -/
def Quiet (lenv : LokiEnv N) : Event N → Prop
  | .log now info =>
    Sendable lenv (extractLogData lenv now info) ∧ (extractLogData lenv now info).eventType = none
  | _ => True

section Labels

theorem optionalLabel_str (k s : String) :
    optionalLabel (k, some (.str s : Json N)) =
      some (if s = "" then [] else [(k, .str (sanitize s))]) := by
  by_cases hs : s = "" <;> simp [optionalLabel, Json.truthy, sanitizeLabel, hs]

theorem optionalLabel_none (k : String) : optionalLabel (k, (none : Option (Json N))) = some [] := rfl

theorem keys_of_optionalLabel {field : String × Option (Json N)} {ls : Members N}
    (h : optionalLabel field = some ls) {m : String × Json N} (hm : m ∈ ls) :
    m.1 = field.1 ∧ field.2 ≠ none := by
  rw [optionalLabel] at h
  split at h
  · obtain ⟨s, hs, rfl⟩ := Option.map_eq_some_iff.mp h
    obtain rfl := List.mem_singleton.mp hm
    refine ⟨rfl, fun hnone => ?_⟩
    rw [hnone] at hs
    cases hs
  · cases h
    cases hm

theorem keys_of_mapM {fields : List (String × Option (Json N))} {lss : List (Members N)}
    (h : fields.mapM optionalLabel = some lss) {m : String × Json N} (hm : m ∈ lss.flatten) :
    ∃ field ∈ fields, m.1 = field.1 ∧ field.2 ≠ none := by
  induction fields generalizing lss with
  | nil =>
    cases h
    cases hm
  | cons field fields ih =>
    rw [List.mapM_cons] at h
    obtain ⟨ls, hls, h⟩ := Option.bind_eq_some_iff.mp h
    obtain ⟨lss', hlss, h⟩ := Option.bind_eq_some_iff.mp h
    cases h
    rcases List.mem_append.mp hm with hm | hm
    · exact ⟨field, List.mem_cons_self, keys_of_optionalLabel hls hm⟩
    · obtain ⟨field', hfield', hkey⟩ := ih hlss hm
      exact ⟨field', List.mem_cons_of_mem _ hfield', hkey⟩

/-- An entry without an event type has no label for one. -/
theorem eventType_of_label {entry : LogEntry N} (hentry : entry.eventType = none) {ls : Members N}
    (h : labels lenv entry = some ls) : (Json.obj ls).get? "eventType" = none := by
  obtain ⟨front, hfront, h⟩ := Option.bind_eq_some_iff.mp h
  obtain ⟨session, hsession, h⟩ := Option.bind_eq_some_iff.mp h
  cases h
  have hfrontKey : ∀ m ∈ front.flatten, m.1 ≠ "eventType" := by
    intro m hm hk
    obtain ⟨field, hfield, hname, hset⟩ := keys_of_mapM hfront hm
    rw [hname] at hk
    simp only [LogEntry.front, List.mem_cons, List.not_mem_nil, or_false] at hfield
    rcases hfield with rfl | rfl | rfl | rfl | rfl | rfl
    case inr.inr.inl => exact hset hentry
    all_goals simp at hk
  have hsessionKey : ∀ m ∈ session, m.1 ≠ "eventType" := by
    intro m hm
    rw [(keys_of_optionalLabel hsession hm).1]
    simp
  rw [Json.get?, Option.map_eq_none_iff, List.find?_eq_none]
  intro m hm hk
  have hkey : m.1 = "eventType" := of_decide_eq_true hk
  simp only [List.mem_append, List.mem_cons, List.not_mem_nil, or_false] at hm
  rcases hm with (((rfl | rfl | rfl) | hm) | hm) | hm
  · simp at hkey
  · simp at hkey
  · simp at hkey
  · exact hfrontKey m hm hkey
  · split at hm
    · obtain ⟨v, hv, rfl⟩ : ∃ v, entry.success = some v ∧ ("success", v) = m := by
        simpa [Option.map_eq_some_iff] using hm
      simp at hkey
    · cases hm
  · exact hsessionKey m hm hkey

theorem selected_of_quiet {entry : LogEntry N} (hentry : entry.eventType = none) :
    selected lenv (failedLogins ip) entry = false := by
  rw [selected]
  cases hl : labels lenv entry with
  | none => rfl
  | some ls =>
    have hnone := eventType_of_label hentry hl
    simp [selects, failedLogins, hnone, Json.strictEq]

/-- An entry of the audit log can be sent. -/
theorem sendable_security (hdate : ∀ s, lenv.nanos (.str s) ≠ none) (now : Time)
    (e : SecurityEvent) :
    Sendable lenv (extractLogData lenv now (securityInfo lenv uuid now e)) where
  front field hfield htruthy := by
    simp only [LogEntry.front, List.mem_cons, List.not_mem_nil, or_false] at hfield
    rcases hfield with rfl | rfl | rfl | rfl | rfl | rfl
    case inr.inl => cases htruthy
    case inr.inr.inr.inr.inr => cases htruthy
    all_goals exact ⟨_, rfl⟩
  sessionId h := by
    cases h
  date := by
    have htime : orElse (some (.str (lenv.toISOString now) : Json N)) (.str (lenv.toISOString now)) =
        .str (lenv.toISOString now) := by
      unfold orElse
      split <;> rfl
    change lenv.nanos (orElse (some (.str _)) _) ≠ none
    rw [htime]
    exact hdate _

variable (lenv uuid) in
/-- What an entry of the audit log is labelled with. -/
theorem labels_security (now : Time) {e : SecurityEvent} (htype : e.eventType ≠ "")
    (haction : e.action ≠ "") (hip : e.ip ≠ "") :
    ∃ nodeEnv, labels lenv (extractLogData lenv now (securityInfo lenv uuid now e)) =
      some [("service", .str "banco-verde-iam"), ("env", .str nodeEnv), ("level", .str "info"),
        ("userId", .str (sanitize (userOf uuid e.userId))),
        ("eventType", .str (sanitize e.eventType)), ("action", .str (sanitize e.action)),
        ("ip", .str (sanitize e.ip)), ("success", .str (textOf e.success))] := by
  have huser : userOf uuid e.userId ≠ "" := by
    cases e.userId with
    | none => simp [userOf]
    | some i =>
      rw [userOf]
      split
      · simp
      · assumption
  have hsuccess : textOf e.success ≠ "" := by
    cases e.success <;> simp [textOf]
  have hfront : (extractLogData lenv now (securityInfo lenv uuid now e)).front.mapM optionalLabel =
      some [[("userId", .str (sanitize (userOf uuid e.userId)))], [],
        [("eventType", .str (sanitize e.eventType))], [("action", .str (sanitize e.action))],
        [("ip", .str (sanitize e.ip))], []] := by
    have hfields : (extractLogData lenv now (securityInfo lenv uuid now e)).front =
        [("userId", some (.str (userOf uuid e.userId))), ("userEmail", none),
          ("eventType", some (.str e.eventType)), ("action", some (.str e.action)),
          ("ip", some (.str e.ip)), ("deviceName", none)] := rfl
    rw [hfields]
    simp [optionalLabel_str, optionalLabel_none, huser, htype, haction, hip]
  have htruthy : Json.truthy (some (.str (textOf e.success) : Json N)) = true := by
    simp [Json.truthy, hsuccess]
  refine ⟨sanitize (if lenv.nodeEnv = some "" then "development" else
    lenv.nodeEnv.getD "development"), ?_⟩
  rw [labels, hfront]
  change some (_ ++ _ ++ (if Json.truthy (some (.str (textOf e.success) : Json N)) then _ else _) ++
    _) = _
  rw [if_pos htruthy]
  rfl

theorem selected_security (now : Time) {e : SecurityEvent} (htype : e.eventType ≠ "")
    (haction : e.action ≠ "") (hip : e.ip ≠ "") :
    selected lenv (failedLogins ip) (extractLogData lenv now (securityInfo lenv uuid now e)) =
      (sanitize e.eventType = "login_failed" && sanitize e.ip = ip) := by
  obtain ⟨nodeEnv, hlabels⟩ := labels_security lenv uuid now htype haction hip
  rw [selected, hlabels]
  simp [selects, failedLogins, Json.get?, Json.strictEq]

end Labels

section Transport

variable {es : List (Event N)}

/-- Where every entry can be sent, every flush finds such entries only. -/
theorem always_buildable (h : ∀ entry ∈ logged lenv es, Sendable lenv entry) :
    Always Loki.step Buildable (Loki.start : Loki lenv) es := by
  intro before e after heq
  have hbuffer : ∀ entry ∈ (run Loki.step (Loki.start : Loki lenv) before).logBuffer,
      Sendable lenv entry := by
    intro entry hentry
    have htaken : (run Loki.step (Loki.start : Loki lenv) before).shipper.taken.Sublist
        (logged lenv before) := by
      rw [← run_relabel shipper_step, ← pushes_relabel (Loki.start : Loki lenv) before]
      exact taken_run (payload lenv) _
    apply h
    rw [heq, logged, List.flatMap_append]
    exact List.mem_append_left _ (htaken.subset (List.mem_append_right _ hentry))
  cases e with
  | tick => exact fun _ => hbuffer
  | close => exact hbuffer
  | _ => trivial

/-- Every entry is in the buffer or in a request, once. -/
theorem logged_eq (h : ∀ entry ∈ logged lenv es, Sendable lenv entry) :
    let s := run Loki.step (Loki.start : Loki lenv) es
    s.requests.flatMap Batch.items ++ s.logBuffer = logged lenv es := by
  intro s
  have hbuilds : Always Shipper.step Builds (Shipper.empty : Shipper (payload lenv))
      (relabel Loki.step Loki.input (Loki.start : Loki lenv) es) := by
    refine (always_relabel shipper_step).mpr ?_
    simpa only [builds_input] using always_buildable h
  have htaken := taken_run_built hbuilds
  rw [pushes_relabel] at htaken
  rw [← htaken]
  exact (congrArg Shipper.taken (run_relabel shipper_step)).symm

theorem delivered_sublist (s : Loki lenv) :
    (delivered s).Sublist (s.requests.flatMap Batch.items) := by
  rw [delivered]
  induction s.requests with
  | nil => exact List.Sublist.refl _
  | cons b bs ih =>
    rw [List.flatMap_cons, List.flatMap_cons]
    refine List.Sublist.append ?_ ih
    split
    · exact List.Sublist.refl _
    · exact List.nil_sublist _

theorem delivered_eq {s : Loki lenv} (h : ∀ b ∈ s.requests, b.outcome = .delivered) :
    delivered s = s.requests.flatMap Batch.items := by
  rw [delivered]
  exact List.flatMap_congr fun b hb => if_pos (h b hb)

end Transport

section Signals

/-- An event whose line the alert on an address counts. -/
def flags (ip : String) (e : SecurityEvent) : Bool :=
  sanitize e.eventType = "login_failed" && sanitize e.ip = ip

/-- Nothing the alert looks at is empty. -/
structure Named (e : SecurityEvent) : Prop where
  eventType : e.eventType ≠ ""
  action : e.action ≠ ""
  ip : e.ip ≠ ""

variable {signals : List (Signal N)}

theorem sendable_signals (hdate : ∀ s, lenv.nanos (.str s) ≠ none)
    (hother : ∀ e, .other e ∈ signals → Quiet lenv e) :
    ∀ entry ∈ logged lenv (signals.map (Signal.event lenv uuid)), Sendable lenv entry := by
  intro entry hentry
  obtain ⟨e, he, hentry⟩ := List.mem_flatMap.mp hentry
  obtain ⟨signal, hsignal, rfl⟩ := List.mem_map.mp he
  cases signal with
  | security now e =>
    obtain rfl := List.mem_singleton.mp hentry
    exact sendable_security hdate now e
  | other e =>
    have hquiet := hother e hsignal
    cases e with
    | log now info =>
      obtain rfl := List.mem_singleton.mp hentry
      exact hquiet.1
    | _ => cases hentry

variable (uuid ip) in
/-- The lines counted are those of the events. -/
theorem countP_logged (hother : ∀ e, .other e ∈ signals → Quiet lenv e)
    (hnamed : ∀ e ∈ signals.flatMap Signal.sent, Named e) :
    (logged lenv (signals.map (Signal.event lenv uuid))).countP
        (selected lenv (failedLogins ip)) = (signals.flatMap Signal.sent).countP (flags ip) := by
  induction signals with
  | nil => rfl
  | cons signal signals ih =>
    have htail := ih (fun e he => hother e (List.mem_cons_of_mem _ he))
      fun e he => hnamed e (List.mem_append_right _ he)
    rw [logged] at htail
    rw [List.map_cons, logged, List.flatMap_cons, List.flatMap_cons, List.countP_append,
      List.countP_append, htail]
    congr 1
    cases signal with
    | security now e =>
      have hn : Named e := hnamed e (List.mem_append_left _ (List.mem_singleton_self e))
      simp only [Signal.event, Signal.sent, List.countP_singleton, flags,
        selected_security now hn.eventType hn.action hn.ip]
      rfl
    | other e =>
      have hquiet := hother e List.mem_cons_self
      cases e with
      | log now info =>
        simp [Signal.event, Signal.sent, selected_of_quiet hquiet.2]
      | _ => rfl

end Signals

section Rows

variable {env : Env N} {r : Request N} {l : List Record} {res : Except Failure Reply}

/-- The actions of the trail, and whether they are successes. -/
def trailed : List (String × Bool) :=
  [("LOGIN_SUCCESS", true), ("TOKEN_REFRESH", true), ("MFA_PENDING", true), ("LOGOUT", true),
    ("LOGIN_FAILED", false), ("LOGIN_LOCKED", false)]

omit [JsNumber N] [DecidableEq N] in
theorem trailed_of_trail (h : Trail env r l res) {a : AuditLog}
    (ha : a ∈ l.filterMap Record.audit?) : (a.action, a.success) ∈ trailed := by
  cases h with
  | @granted t i action hr ht =>
    obtain rfl : Request.audit r (some i) action true = a := by
      simpa [logRecords, Record.audit?] using ha
    cases hroute : r.route <;> simp [grantAction, hroute] at hr <;> subst hr <;>
      simp [trailed, Request.audit]
  | unrecorded h => cases ha
  | _ =>
    obtain rfl := List.mem_singleton.mp ha
    simp [trailed, Request.audit]

omit [JsNumber N] [DecidableEq N] in
theorem ip_of_trail (h : Trail env r l res) {a : AuditLog} (ha : a ∈ l.filterMap Record.audit?) :
    a.ip = some r.ip := by
  cases h with
  | @granted t i action hr ht =>
    obtain rfl : Request.audit r (some i) action true = a := by
      simpa [logRecords, Record.audit?] using ha
    rfl
  | unrecorded h => cases ha
  | _ =>
    obtain rfl := List.mem_singleton.mp ha
    rfl

omit [JsNumber N] [DecidableEq N] in
theorem getEventType_of_trailed (hE : LowersAscii env) {action : String} {success : Bool}
    (h : (action, success) ∈ trailed) : getEventType env action success ≠ "" ∧ action ≠ "" ∧
      decide (sanitize (getEventType env action success) = "login_failed") = !success := by
  have hlower : (action.toList.all fun c => c.toNat < 128) = true →
      env.toLowerCase action = String.ofList (action.toList.map Char.toLower) := by
    intro hascii
    exact hE action fun c hc => of_decide_eq_true (List.all_eq_true.mp hascii c hc)
  rw [getEventType]
  simp only [trailed, List.mem_cons, Prod.mk.injEq, List.not_mem_nil, or_false] at h
  rcases h with ⟨rfl, rfl⟩ | ⟨rfl, rfl⟩ | ⟨rfl, rfl⟩ | ⟨rfl, rfl⟩ | ⟨rfl, rfl⟩ | ⟨rfl, rfl⟩
  all_goals
    rw [hlower (by rfl)]
    decide

omit [JsNumber N] [DecidableEq N] in
theorem orUnknown_ne_empty (s : String) : orUnknown s ≠ "" := by
  rw [orUnknown]
  split
  · simp
  · assumption

omit [JsNumber N] [DecidableEq N] in
theorem named_securityEvent (hE : LowersAscii env) {a : AuditLog}
    (ha : (a.action, a.success) ∈ trailed) : Named (securityEvent env a) :=
  ⟨(getEventType_of_trailed hE ha).1, (getEventType_of_trailed hE ha).2.1, orUnknown_ne_empty _⟩

omit [JsNumber N] [DecidableEq N] in
/-- Of all the rows the alert counts the failures. -/
theorem flags_securityEvent (hE : LowersAscii env) {a : AuditLog}
    (ha : (a.action, a.success) ∈ trailed) :
    flags ip (securityEvent env a) = refusedFrom ip a := by
  have htype : decide (sanitize (securityEvent env a).eventType = "login_failed") = !a.success :=
    (getEventType_of_trailed hE ha).2.2
  rw [flags, htype]
  rfl

end Rows

section Requests

variable {env : Env N} {w : World} {rs : List (Request N)} {sched : List (Turn Time)}

/-- The rows that requests add are rows of the trail. -/
theorem trailed_together {a : AuditLog}
    (ha : a ∈ (ledger record? (together env w rs sched).log).filterMap Record.audit?) :
    (a.action, a.success) ∈ trailed := by
  obtain ⟨x, hx, hax⟩ := List.mem_filterMap.mp ha
  have hsum : x ∈ ∑ k ∈ Finset.range rs.length,
      (recordsOf env w rs sched k : Multiset Record) := by
    rw [← ledger_together]
    exact hx
  obtain ⟨k, hk, hx⟩ := Multiset.mem_sum.mp hsum
  obtain ⟨r, q, -, ⟨l', res, htrail⟩, -⟩ := recordsOf_cases env w rs sched (Finset.mem_range.mp hk)
  exact trailed_of_trail htrail (List.mem_filterMap.mpr ⟨x, List.mem_append_left _ hx, hax⟩)

def refusalRecordFrom (ip : String) (x : Record) : Bool := (x.audit?.map (refusedFrom ip)).getD false

omit [JsNumber N] [DecidableEq N] in
theorem refusals_of_trail {r : Request N} {l : List Record} {res : Except Failure Reply}
    (h : Trail env r l res) :
    l.countP (refusalRecordFrom ip) = (refusesFrom ip r res).toNat := by
  have hip : ∀ x ∈ l, refusalRecordFrom ip x =
      (refusalRecord x && sanitize (orUnknown r.ip) = ip) := by
    intro x hx
    cases hax : x.audit? with
    | none => simp [refusalRecordFrom, refusalRecord, hax]
    | some a =>
      have ha : a.ip = some r.ip := ip_of_trail h (List.mem_filterMap.mpr ⟨x, hx, hax⟩)
      simp [refusalRecordFrom, refusalRecord, hax, refusedFrom, ha]
  have hcount := (tallied_of_trail 0 h).refusals
  rw [List.countP_congr fun x hx => by rw [hip x hx]]
  by_cases heq : sanitize (orUnknown r.ip) = ip
  · simpa [heq, refusesFrom] using hcount
  · simp [heq, refusesFrom]

theorem refusalsFrom_together : refusalsFrom ip (together env w rs sched).state.auditLog =
    refusalsFrom ip w.auditLog +
      (ledger record? (together env w rs sched).log).countP (refusalRecordFrom ip) := by
  rw [(state_ledger env w rs sched).1, refusalsFrom, List.countP_append]
  exact congrArg (refusalsFrom ip w.auditLog + ·) List.countP_filterMap

variable (ip) in
/-- The events that were sent are among the rows that requests have added, and are all of
them where the requests have ended. -/
theorem flagged_together (hE : LowersAscii env) {events : List SecurityEvent}
    (hevents : (together env w rs sched).state.securityLog = w.securityLog ++ events) :
    (∀ e ∈ events, Named e) ∧
      refusalsFrom ip w.auditLog + events.countP (flags ip) ≤
        refusalsFrom ip (together env w rs sched).state.auditLog ∧
      ((∀ q ∈ (together env w rs sched).threads, ended q ≠ none) →
        events.countP (flags ip) =
          replied (refusesFrom ip) rs (together env w rs sched).threads) := by
  have hrows : (together env w rs sched).state.auditLog = w.auditLog ++
      (ledger record? (together env w rs sched).log).filterMap Record.audit? :=
    (state_ledger env w rs sched).1
  generalize hl : (ledger record? (together env w rs sched).log).filterMap Record.audit? = rows
    at hrows
  have htrailed : ∀ a ∈ rows, (a.action, a.success) ∈ trailed :=
    fun a ha => trailed_together (hl ▸ ha)
  have hflags : (rows.map (securityEvent env)).countP (flags ip) =
      (ledger record? (together env w rs sched).log).countP (refusalRecordFrom ip) := by
    rw [List.countP_map, List.countP_congr fun a ha => by
      rw [Function.comp_apply, flags_securityEvent hE (htrailed a ha)], ← hl]
    exact List.countP_filterMap
  obtain ⟨rows', events', hrows', hevents', hsub⟩ := (covered_together env w rs sched 0).sent
  obtain rfl := List.append_cancel_left (hrows.symm.trans hrows')
  obtain rfl := List.append_cancel_left (hevents.symm.trans hevents')
  refine ⟨fun e he => ?_, ?_, fun hdone => ?_⟩
  · obtain ⟨a, ha, rfl⟩ := List.mem_map.mp (hsub.subset he)
    exact named_securityEvent hE (htrailed a ha)
  · rw [refusalsFrom_together, ← hflags]
    exact Nat.add_le_add_left (hsub.countP_le _) _
  · rw [replied_eq (fun r l res h => refusals_of_trail h) hdone, ← hflags]
    obtain ⟨rows', events', hrows', hevents', hperm⟩ := (exact_together env w rs sched 0 hdone).sent
    obtain rfl := List.append_cancel_left (hrows.symm.trans hrows')
    obtain rfl := List.append_cancel_left (hevents.symm.trans hevents')
    exact hperm.countP_eq _

/-- Whatever the requests and however they interleave, whatever else without an event type
the transport is given and whenever it sends: the alert never counts more than the trail has
refusals of the address. Once the requests have ended and all has been delivered, it counts
the logins that were refused to it. -/
theorem alerts_counted (env : Env N) (hE : LowersAscii env) (w : World) (rs : List (Request N))
    (sched : List (Turn Time)) (lenv : LokiEnv N) (hdate : ∀ s, lenv.nanos (.str s) ≠ none)
    (uuid : UserId → String) (signals : List (Signal N))
    (hother : ∀ e, .other e ∈ signals → Quiet lenv e)
    (hsent : (together env w rs sched).state.securityLog =
      w.securityLog ++ signals.flatMap Signal.sent) (ip : String) :
    let c := together env w rs sched
    let s := run Loki.step (Loki.start : Loki lenv) (signals.map (Signal.event lenv uuid))
    refusalsFrom ip w.auditLog + alertCount ip s ≤ refusalsFrom ip c.state.auditLog ∧
      ((∀ q ∈ c.threads, ended q ≠ none) → s.logBuffer = [] →
        (∀ b ∈ s.requests, b.outcome = .delivered) →
        alertCount ip s = replied (refusesFrom ip) rs c.threads) := by
  intro c s
  have hlogged : s.requests.flatMap Batch.items ++ s.logBuffer =
      logged lenv (signals.map (Signal.event lenv uuid)) :=
    logged_eq (sendable_signals hdate hother)
  obtain ⟨hnamed, hcovered, hexact⟩ := flagged_together ip hE hsent
  have hcount := countP_logged uuid ip hother hnamed
  rw [← hlogged] at hcount
  constructor
  · have hle : alertCount ip s ≤ (signals.flatMap Signal.sent).countP (flags ip) := by
      rw [← hcount]
      exact ((delivered_sublist s).trans (List.sublist_append_left _ _)).countP_le
    exact (Nat.add_le_add_left hle _).trans hcovered
  · intro hdone hbuffer hdelivered
    rw [hbuffer, List.append_nil, ← delivered_eq hdelivered] at hcount
    exact hcount.trans (hexact hdone)

end Requests

/-- A login for an address nobody has. -/
def guess : Request ℕ where
  route := .login ⟨some (.str "eva@verde.ec"), some (.str "clave")⟩
  userId := .undefined
  authorization := none
  userAgent := none
  ip := "::1"

def guesses : List (Turn Time) := List.replicate 4 (.thread 0)

/-- Its row is sent and flushed after a message of the application, and Loki takes both. -/
def guessSignals : List (Signal ℕ) :=
  [.other (.log 0 [("level", .str "info"), ("message", .str "Banco Verde IAM started")]),
    .security 0 (securityEvent (plainEnv [])
      ⟨none, "LOGIN_FAILED", some "::1", some "unknown", false⟩),
    .other .tick, .other (.response 0 204)]

theorem alerts_counted_guess :
    let c := together (plainEnv []) World.empty [guess] guesses
    let s := run Loki.step (Loki.start : Loki plainLoki)
      (guessSignals.map (Signal.event plainLoki fun _ => "uuid"))
    alertCount "__1" s ≤ refusalsFrom "__1" c.state.auditLog ∧
      alertCount "__1" s = replied (refusesFrom "__1") [guess] c.threads ∧
      replied (refusesFrom "__1") [guess] c.threads = 1 := by
  intro c s
  have hother : ∀ e, .other e ∈ guessSignals → Quiet plainLoki e := by
    intro e he
    simp only [guessSignals, List.mem_cons, Signal.other.injEq, reduceCtorEq, List.not_mem_nil,
      or_false, false_or] at he
    rcases he with rfl | rfl | rfl
    · refine ⟨⟨fun field hfield htruthy => ?_, fun h => ?_, Option.some_ne_none _⟩, rfl⟩
      · simp only [LogEntry.front, List.mem_cons, List.not_mem_nil, or_false] at hfield
        rcases hfield with rfl | rfl | rfl | rfl | rfl | rfl
        all_goals cases htruthy
      · cases h
    · trivial
    · trivial
  have hthreads : c.threads = [.throw (.unauthorized "Credenciales inválidas")] := rfl
  obtain ⟨hle, heq⟩ := alerts_counted (plainEnv []) (lowersAscii_plainEnv []) World.empty [guess]
    guesses plainLoki (fun s => Option.some_ne_none _) (fun _ => "uuid") guessSignals hother rfl
    "__1"
  refine ⟨(Nat.zero_add _).ge.trans hle, heq ?_ rfl ?_, rfl⟩
  · intro q hq
    obtain rfl := List.mem_singleton.mp (hthreads ▸ hq)
    exact Option.some_ne_none _
  · intro b hb
    have hbatches : s.requests.map (fun b => b.outcome) = [.delivered] := rfl
    exact List.mem_singleton.mp (hbatches ▸ List.mem_map_of_mem hb)

end VerdeAuth.AlertCounts
