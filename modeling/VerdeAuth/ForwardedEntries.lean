import VerdeAuth.AlertCounts
import VerdeAuth.EventTypes
import VerdeAuth.HexDigests

/-!
# The security log in its files and in Loki

`SiemLoggerService` writes every entry to a file and hands it to the Loki transport.
The two are asked the same question: how many entries have these labels. Loki never has
more than the files and what others have sent, and has as many when nothing was left
behind.
-/

namespace VerdeAuth.ForwardedEntries

open JsonTexts KeyedTables IamTables IamOperations RunHistories BatchShipping
open LokiTransport hiding LogEntry
open SiemLoggerService LogEntryLines SiemChainIntegrity HexDigests AlertCounts EventTypes
open IamAssumptions

variable {N : Type}

/-- `/%[scdjifoO%]/` -/
def hasSpecifier : List Char → Bool
  | [] => false
  | c :: cs => (c = '%' && cs.head?.any (· ∈ "scdjifoO%".toList)) || hasSpecifier cs

/-- `lokiLogger.info(message, meta)`: the logger does not merge the metadata of a message
with a format specifier. -/
def infoOf (lenv : LokiEnv N) (now : Time) (message : String) (fields : Members N) : Members N :=
  ("service", .str "banco-verde-iam") :: ((if hasSpecifier message.toList then [] else fields) ++
    [("level", .str "info"), ("message", .str message), ("timestamp", .str (lenv.toISOString now))])

/-- `entry.device?.name` -/
def deviceNameOf (device : Option (JsonValue N)) : Option (Json N) :=
  device.bind fun v => v.val.get? "name"

def message (action result : String) : String := action ++ " - " ++ result

/-- The metadata that `forwardToLoki` gives with an entry. -/
def forwarded (env : Env N) (entry : LogEntry N) : Members N :=
  present [("eventType", some (.str (SiemLogger.getEventType env entry.action entry.result))),
    ("userId", some (.str entry.user)), ("action", some (.str entry.action)),
    ("ip", some (.str entry.ip)), ("deviceName", deviceNameOf entry.device),
    ("success", some (.str entry.result)), ("hash", some (.str entry.hash))]

def forwardToLoki (env : Env N) (lenv : LokiEnv N) (now : Time) (entry : LogEntry N) : Event N :=
  .log now (infoOf lenv now (message entry.action entry.result) (forwarded env entry))

/-- The labels that entries are asked for. -/
inductive Label where
  | eventType
  | userId
  | action
  | ip
  | deviceName
  | success

def Label.name : Label → String
  | .eventType => "eventType"
  | .userId => "userId"
  | .action => "action"
  | .ip => "ip"
  | .deviceName => "deviceName"
  | .success => "success"

def str? : Option (Json N) → Option String
  | some (.str s) => some s
  | _ => none

/-- What a line of a file has under a label. -/
def Label.read (env : Env N) (v : Json N) : Label → Option String
  | .eventType => do
    let action ← str? (v.get? "action")
    let result ← str? (v.get? "result")
    return sanitize (SiemLogger.getEventType env action result)
  | .userId => (str? (v.get? "user")).map sanitize
  | .action => (str? (v.get? "action")).map sanitize
  | .ip => (str? (v.get? "ip")).map sanitize
  | .deviceName => (str? ((v.get? "device").bind (·.get? "name"))).map sanitize
  | .success => str? (v.get? "result")

abbrev Query := List (Label × String)

/-- `{service="banco-verde-iam", ..}` -/
def selector (q : Query) : List (String × String) :=
  ("service", "banco-verde-iam") :: q.map fun m => (m.1.name, m.2)

def answers (env : Env N) (q : Query) (v : Json N) : Bool :=
  q.all fun m => m.1.read env v = some m.2

variable [JsNumber N] [DecidableEq N]

/-- What the files have for a query. -/
def inFiles (env : Env N) (q : Query) (dir : LogDir) : ℕ :=
  (logLines dir).flatten.countP fun line => (parseText line).any (answers env q)

/-- What Loki has for it. -/
def inLoki {lenv : LokiEnv N} (q : Query) (s : Loki lenv) : ℕ :=
  (delivered s).countP (selected lenv (selector q))

/-- A call of `log`, the end of the process and a new one, or anything else that happens to
the transport. -/
inductive SinkEvent (N : Type) where
  | log (format : StandardLogFormat N) (now now' : Instant) (sent : Time)
  | restart
  | transport (e : Event N)

def SinkEvent.written : SinkEvent N → List Instant
  | .log _ _ now' _ => [now']
  | _ => []

def SinkEvent.other : SinkEvent N → List (Event N)
  | .transport e => [e]
  | _ => []

abbrev Sinks (lenv : LokiEnv N) := (SiemLogger × LogDir) × Loki lenv

/-- The buffer ends with its process, the requests that were made do not. -/
def sinkStep (env : Env N) (H : String → String) {lenv : LokiEnv N} (s : Sinks lenv) :
    SinkEvent N → Sinks lenv
  | .log format now now' sent =>
    let r := log H format now now' s.1
    (r.2, s.2.step (forwardToLoki env lenv sent r.1))
  | .restart => ((onModuleInit N s.1.2, s.1.2), ⟨[], false, s.2.requests⟩)
  | .transport e => (s.1, s.2.step e)

/-- The step leaves nothing behind: what is pushed can be sent, the message of an entry is
one that has its metadata, and a process ends with an empty buffer. -/
def Smooth {lenv : LokiEnv N} (s : Sinks lenv) : SinkEvent N → Prop
  | .log format _ _ _ => hasSpecifier (message format.action format.result).toList = false ∧
      (Json.truthy (deviceNameOf format.device) = true →
        ∃ name, deviceNameOf format.device = some (.str name))
  | .restart => s.2.logBuffer = []
  | .transport e => ∀ entry ∈ logged lenv [e], Sendable lenv entry

section Labels

variable {lenv : LokiEnv N} {entry : LokiTransport.LogEntry N} {ls : Members N}

/-- What an optional label is set to. -/
def labelled (v : Option (Json N)) : Option (Json N) :=
  if Json.truthy v then (v.bind sanitizeLabel).map .str else none

omit [JsNumber N] [DecidableEq N] in
theorem get?_append (ps ps' : Members N) (k : String) :
    (Json.obj (ps ++ ps')).get? k = ((Json.obj ps).get? k).or ((Json.obj ps').get? k) := by
  simp [Json.get?, List.find?_append, Option.map_or]

omit [JsNumber N] [DecidableEq N] in
theorem get?_eq_none {ps : Members N} {k : String} (h : ∀ m ∈ ps, m.1 ≠ k) :
    (Json.obj ps).get? k = none := by
  rw [Json.get?, Option.map_eq_none_iff, List.find?_eq_none]
  intro m hm
  simpa using h m hm

theorem get?_optionalLabel {field : String × Option (Json N)}
    (h : optionalLabel field = some ls) : (Json.obj ls).get? field.1 = labelled field.2 := by
  rw [optionalLabel] at h
  rw [labelled]
  split at h
  · next htruthy =>
    obtain ⟨s, hs, rfl⟩ := Option.map_eq_some_iff.mp h
    simp [Json.get?, htruthy, hs]
  · next hfalsy =>
    cases h
    simp [Json.get?, hfalsy]

theorem get?_mapM {fields : List (String × Option (Json N))} {lss : List (Members N)}
    (h : fields.mapM optionalLabel = some lss) (hnodup : (fields.map Prod.fst).Nodup)
    {field : String × Option (Json N)} (hfield : field ∈ fields) :
    (Json.obj lss.flatten).get? field.1 = labelled field.2 := by
  induction fields generalizing lss with
  | nil => cases hfield
  | cons first fields ih =>
    rw [List.mapM_cons] at h
    obtain ⟨ls, hls, h⟩ := Option.bind_eq_some_iff.mp h
    obtain ⟨lss', hlss, h⟩ := Option.bind_eq_some_iff.mp h
    cases h
    rw [List.map_cons, List.nodup_cons] at hnodup
    rw [List.flatten_cons, get?_append]
    rcases List.mem_cons.mp hfield with rfl | hfield
    · have hrest : (Json.obj lss'.flatten).get? field.1 = none := by
        refine get?_eq_none fun m hm hk => hnodup.1 ?_
        obtain ⟨field', hfield', hname, -⟩ := keys_of_mapM hlss hm
        rw [← hk, hname]
        exact List.mem_map_of_mem hfield'
      rw [hrest, get?_optionalLabel hls, Option.or_none]
    · have hfirst : (Json.obj ls).get? field.1 = none := by
        refine get?_eq_none fun m hm hk => hnodup.1 ?_
        rw [← (keys_of_optionalLabel hls hm).1, hk]
        exact List.mem_map_of_mem hfield
      rw [hfirst, Option.none_or]
      exact ih hlss hnodup.2 hfield

/-- The labels of an entry, in four parts. -/
theorem labels_eq_some (h : labels lenv entry = some ls) :
    ∃ nodeEnv front session, entry.front.mapM optionalLabel = some front ∧
      optionalLabel ("sessionId", entry.sessionId) = some session ∧
      ls = [("service", .str "banco-verde-iam"), ("env", .str nodeEnv), ("level", entry.level)] ++
        front.flatten ++ (if Json.truthy entry.success then
          (entry.success.map ("success", ·)).toList else []) ++ session := by
  obtain ⟨front, hfront, h⟩ := Option.bind_eq_some_iff.mp h
  obtain ⟨session, hsession, h⟩ := Option.bind_eq_some_iff.mp h
  cases h
  exact ⟨_, front, session, hfront, hsession, rfl⟩

theorem get?_service (h : labels lenv entry = some ls) :
    (Json.obj ls).get? "service" = some (.str "banco-verde-iam") := by
  obtain ⟨nodeEnv, front, session, -, -, rfl⟩ := labels_eq_some h
  simp [Json.get?]

omit [JsNumber N] [DecidableEq N] in
private theorem frontNames (entry : LokiTransport.LogEntry N) : entry.front.map Prod.fst =
    ["userId", "userEmail", "eventType", "action", "ip", "deviceName"] := rfl

theorem get?_front (h : labels lenv entry = some ls) {field : String × Option (Json N)}
    (hfield : field ∈ entry.front) : (Json.obj ls).get? field.1 = labelled field.2 := by
  obtain ⟨nodeEnv, front, session, hfront, hsession, rfl⟩ := labels_eq_some h
  have hname : field.1 ∈ ["userId", "userEmail", "eventType", "action", "ip", "deviceName"] := by
    rw [← frontNames entry]
    exact List.mem_map_of_mem hfield
  have hnodup : (entry.front.map Prod.fst).Nodup := by
    rw [frontNames]
    decide
  have hbase : (Json.obj [("service", .str "banco-verde-iam"), ("env", .str nodeEnv),
      ("level", entry.level)]).get? field.1 = none := by
    refine get?_eq_none fun m hm hk => ?_
    rw [← hk] at hname
    simp only [List.mem_cons, List.not_mem_nil, or_false] at hm
    rcases hm with rfl | rfl | rfl <;> simp at hname
  have hsuccess : (Json.obj (if Json.truthy entry.success then
      (entry.success.map ("success", ·)).toList else [])).get? field.1 = none := by
    refine get?_eq_none fun m hm hk => ?_
    rw [← hk] at hname
    split at hm
    · obtain ⟨v, -, rfl⟩ := Option.map_eq_some_iff.mp (Option.mem_toList.mp hm)
      simp at hname
    · cases hm
  have hlast : (Json.obj session).get? field.1 = none := by
    refine get?_eq_none fun m hm hk => ?_
    rw [← hk, (keys_of_optionalLabel hsession hm).1] at hname
    simp at hname
  rw [get?_append, get?_append, get?_append, hbase, hsuccess, hlast, Option.none_or,
    Option.or_none, Option.or_none]
  exact get?_mapM hfront hnodup hfield

theorem get?_success (h : labels lenv entry = some ls) : (Json.obj ls).get? "success" =
    if Json.truthy entry.success then entry.success else none := by
  obtain ⟨nodeEnv, front, session, hfront, hsession, rfl⟩ := labels_eq_some h
  have hflat : (Json.obj front.flatten).get? "success" = none := by
    refine get?_eq_none fun m hm hk => ?_
    obtain ⟨field, hfield, hname, -⟩ := keys_of_mapM hfront hm
    have hmem := List.mem_map_of_mem (f := Prod.fst) hfield
    rw [frontNames, ← hname, hk] at hmem
    simp at hmem
  have hlast : (Json.obj session).get? "success" = none := by
    refine get?_eq_none fun m hm hk => ?_
    rw [(keys_of_optionalLabel hsession hm).1] at hk
    simp at hk
  rw [get?_append, get?_append, get?_append, hflat, hlast, Option.or_none, Option.or_none]
  split
  · cases entry.success <;> simp [Json.get?]
  · simp [Json.get?]

theorem labels_isSome (h : Sendable lenv entry) : (labels lenv entry).isSome = true := by
  have hstream := stream_isSome.mpr h
  cases hl : labels lenv entry with
  | none => simp [stream, hl] at hstream
  | some ls => rfl

end Labels

section Entries

variable {env : Env N} {lenv : LokiEnv N} {now : Time} {e : LogEntry N} {q : Query}

/-- What is sent with an entry under a label. -/
def Label.field (env : Env N) (e : LogEntry N) : Label → Option (Json N)
  | .eventType => some (.str (SiemLogger.getEventType env e.action e.result))
  | .userId => some (.str e.user)
  | .action => some (.str e.action)
  | .ip => some (.str e.ip)
  | .deviceName => deviceNameOf e.device
  | .success => some (.str e.result)

/-- What the transport makes of it. -/
def Label.set (l : Label) (v : Option (Json N)) : Option (Json N) :=
  match l with
  | .success => if Json.truthy v then v else none
  | _ => labelled v

/-- The entry in the buffer for one of the log. -/
def sentEntry (env : Env N) (lenv : LokiEnv N) (now : Time) (e : LogEntry N) :
    LokiTransport.LogEntry N :=
  extractLogData lenv now (infoOf lenv now (message e.action e.result) (forwarded env e))

omit [JsNumber N] [DecidableEq N] in
theorem get?_infoOf (l : Label) (text : String) (fields : Members N) :
    (Json.obj (infoOf lenv now text fields)).get? l.name =
      if hasSpecifier text.toList then none else (Json.obj fields).get? l.name := by
  have hlast : (Json.obj [("level", .str "info"), ("message", .str text),
      ("timestamp", .str (lenv.toISOString now))] : Json N).get? l.name = none := by
    cases l <;> simp [Json.get?, Label.name]
  have hname : "service" ≠ l.name := by
    cases l <;> simp [Label.name]
  rw [infoOf, Json.get?_cons, if_neg hname, get?_append, hlast, Option.or_none]
  split <;> simp [Json.get?]

omit [JsNumber N] [DecidableEq N] in
/-- What is sent has the fields of the labels, and a hash that nothing reads. -/
theorem get?_forwarded_none {k : String}
    (hk : k ∉ ["eventType", "userId", "action", "ip", "deviceName", "success", "hash"]) :
    (Json.obj (forwarded env e)).get? k = none := by
  refine get?_eq_none fun m hm hmk => hk ?_
  obtain ⟨p, hp, hpm⟩ := List.mem_filterMap.mp hm
  obtain ⟨v, -, rfl⟩ := Option.map_eq_some_iff.mp hpm
  rw [← hmk]
  exact List.mem_map_of_mem (f := Prod.fst) hp

omit [JsNumber N] [DecidableEq N] in
theorem get?_forwarded (l : Label) :
    (Json.obj (forwarded env e)).get? l.name = l.field env e := by
  have hnodup : ["eventType", "userId", "action", "ip", "deviceName", "success", "hash"].Nodup := by
    decide
  apply get?_present
  · exact hnodup
  · cases l <;> simp [Label.name, Label.field]

/-- What Loki has under a label of an entry: nothing where its metadata were not merged. -/
theorem get?_sent {ls : Members N} (h : labels lenv (sentEntry env lenv now e) = some ls)
    (l : Label) : (Json.obj ls).get? l.name =
      if hasSpecifier (message e.action e.result).toList then none else l.set (l.field env e) := by
  have hset : (Json.obj ls).get? l.name = l.set ((Json.obj (infoOf lenv now
      (message e.action e.result) (forwarded env e))).get? l.name) := by
    have hfront : ∀ k v, (k, v) ∈ (sentEntry env lenv now e).front →
        (Json.obj ls).get? k = labelled v := fun k v hkv => get?_front h hkv
    cases l with
    | success => exact get?_success h
    | _ => exact hfront _ _ (by simp [LogEntry.front, sentEntry, extractLogData, Label.name])
  rw [hset, get?_infoOf, get?_forwarded]
  split
  · cases l <;> rfl
  · rfl

def Label.clean : Label → String → String
  | .success, s => s
  | _, s => sanitize s

omit [DecidableEq N] in
theorem read_entry (l : Label) : l.read env e.json = (str? (l.field env e)).map l.clean := by
  have hget : ∀ k s, (k, some (.str s)) ∈ e.properties → e.json.get? k = some (.str s) :=
    fun k s h => get?_entry e h
  have hdevice : e.json.get? "device" = e.device.map Subtype.val :=
    get?_entry e (by simp [LogEntry.properties, StandardLogFormat.properties])
  have huser := hget "user" e.user (by simp [LogEntry.properties, StandardLogFormat.properties])
  have haction := hget "action" e.action
    (by simp [LogEntry.properties, StandardLogFormat.properties])
  have hresult := hget "result" e.result
    (by simp [LogEntry.properties, StandardLogFormat.properties])
  have hip := hget "ip" e.ip (by simp [LogEntry.properties, StandardLogFormat.properties])
  cases l with
  | deviceName =>
    have hname : (e.json.get? "device").bind (·.get? "name") = deviceNameOf e.device := by
      rw [hdevice, deviceNameOf]
      cases e.device <;> rfl
    rw [Label.read, hname]
    rfl
  | _ => simp [Label.read, Label.field, Label.clean, str?, huser, haction, hresult, hip]

theorem set_eq_of_clean {l : Label} {v : Option (Json N)} {t : String} (ht : t ≠ "")
    (h : (str? v).map l.clean = some t) : l.set v = some (.str t) := by
  obtain ⟨s, hs, rfl⟩ := Option.map_eq_some_iff.mp h
  obtain rfl : v = some (.str s) := by
    rcases v with _ | (_ | _ | _ | _ | _ | _) <;> simp [str?] at hs
    rw [hs]
  have hne : s ≠ "" := by
    rintro rfl
    cases l <;> exact ht rfl
  cases l <;> simp [Label.set, labelled, Label.clean, Json.truthy, sanitizeLabel, hne]

theorem clean_of_set {l : Label} {v : Option (Json N)} {t : String}
    (h : l.set v = some (.str t)) : (str? v).map l.clean = some t := by
  have hlabelled : labelled v = some (.str t) → (str? v).map sanitize = some t := by
    intro h
    rw [labelled] at h
    split at h
    · rcases v with _ | (_ | _ | _ | _ | _ | _) <;> simp [sanitizeLabel] at h
      simp [str?, h]
    · cases h
  cases l with
  | success =>
    rw [Label.set] at h
    split at h
    · simp [h, str?, Label.clean]
    · cases h
  | _ => exact hlabelled h

theorem selects_iff {entry : LokiTransport.LogEntry N} {ls : Members N}
    (hls : labels lenv entry = some ls) : selects (selector q) ls = true ↔
      ∀ m ∈ q, (Json.obj ls).get? m.1.name = some (.str m.2) := by
  rw [selects, selector, List.all_cons, get?_service hls, List.all_map, Bool.and_eq_true,
    List.all_eq_true]
  have hservice : Json.strictEq (some (.str "banco-verde-iam" : Json N))
      (some (.str "banco-verde-iam")) = true := Json.strictEq_str_iff.mpr rfl
  rw [and_iff_right hservice]
  exact forall₂_congr fun m _ => Json.strictEq_str_iff

/-- An entry that Loki finds is found in the files. -/
theorem answers_of_selected (h : selected lenv (selector q) (sentEntry env lenv now e) = true) :
    answers env q e.json = true := by
  obtain ⟨ls, hls, hselects⟩ := (Option.any_eq_true _ _).mp h
  rw [answers, List.all_eq_true]
  intro m hm
  have hget := (selects_iff hls).mp hselects m hm
  rw [get?_sent hls] at hget
  split at hget
  · cases hget
  · rw [read_entry, clean_of_set hget, decide_eq_true_eq]

/-- An entry of the files is found in Loki where it was sent with its metadata. -/
theorem selected_of_answers (hq : ∀ m ∈ q, m.2 ≠ "")
    (hplain : hasSpecifier (message e.action e.result).toList = false)
    (hsend : Sendable lenv (sentEntry env lenv now e)) (h : answers env q e.json = true) :
    selected lenv (selector q) (sentEntry env lenv now e) = true := by
  obtain ⟨ls, hls⟩ := Option.isSome_iff_exists.mp (labels_isSome hsend)
  rw [selected, hls, Option.any_some, selects_iff hls]
  intro m hm
  have hread := of_decide_eq_true (List.all_eq_true.mp h m hm)
  rw [read_entry] at hread
  rw [get?_sent hls, hplain]
  exact set_eq_of_clean (hq m hm) hread

omit [JsNumber N] [DecidableEq N] in
/-- A field that is not sent comes from the logger alone. -/
theorem get?_info_other {k : String}
    (hk : k ∉ ["eventType", "userId", "action", "ip", "deviceName", "success", "hash"])
    (hservice : "service" ≠ k) (text : String) :
    (Json.obj (infoOf lenv now text (forwarded env e))).get? k =
      (Json.obj [("level", .str "info"), ("message", .str text),
        ("timestamp", .str (lenv.toISOString now))]).get? k := by
  have hmerged : (Json.obj (if hasSpecifier text.toList then [] else forwarded env e)).get? k =
      none := by
    split
    · rfl
    · exact get?_forwarded_none hk
  rw [infoOf, Json.get?_cons, if_neg hservice, get?_append, hmerged, Option.none_or]

theorem userEmail_sent : (sentEntry env lenv now e).userEmail = none :=
  get?_info_other (by decide) (by decide) _

theorem sessionId_sent : (sentEntry env lenv now e).sessionId = none :=
  get?_info_other (by decide) (by decide) _

theorem timestamp_sent : (sentEntry env lenv now e).timestamp = .str (lenv.toISOString now) := by
  have htime : (Json.obj (infoOf lenv now (message e.action e.result) (forwarded env e))).get?
      "timestamp" = _ := get?_info_other (by decide) (by decide) _
  simp only [sentEntry, extractLogData, htime]
  simp [orElse, Json.get?]

/-- An entry whose device has a string for its name, or none, can be sent. -/
theorem sendable_sent (hdate : ∀ s, lenv.nanos (.str s) ≠ none)
    (hname : Json.truthy (deviceNameOf e.device) = true →
      ∃ name, deviceNameOf e.device = some (.str name)) :
    Sendable lenv (sentEntry env lenv now e) where
  front field hmem htruthy := by
    have hfield : ∀ l : Label, field.2 = (Json.obj (infoOf lenv now (message e.action e.result)
        (forwarded env e))).get? l.name → ∃ s, field.2 = some (.str s) := by
      intro l hl
      rw [get?_infoOf, get?_forwarded] at hl
      rw [hl] at htruthy ⊢
      split at htruthy
      · cases htruthy
      · next hplain =>
        rw [if_neg hplain]
        cases l with
        | deviceName => exact hname htruthy
        | _ => exact ⟨_, rfl⟩
    simp only [LogEntry.front, List.mem_cons, List.not_mem_nil, or_false] at hmem
    rcases hmem with rfl | rfl | rfl | rfl | rfl | rfl
    · exact hfield .userId rfl
    · rw [userEmail_sent] at htruthy
      cases htruthy
    · exact hfield .eventType rfl
    · exact hfield .action rfl
    · exact hfield .ip rfl
    · exact hfield .deviceName rfl
  sessionId htruthy := by
    rw [sessionId_sent] at htruthy
    cases htruthy
  date := by
    rw [timestamp_sent]
    exact hdate _

end Entries

section Transport

variable {lenv : LokiEnv N} {s : Loki lenv} {e : Event N}

theorem pushed_input : (s.input e).pushed = logged lenv [e] := by
  have hpushes := pushes_relabel s [e]
  simpa [relabel, pushes] using hpushes

theorem taken_event : (s.step e).shipper.taken.Sublist (s.shipper.taken ++ logged lenv [e]) := by
  rw [shipper_step, ← pushed_input (s := s)]
  exact taken_step

theorem taken_event_built (h : ∀ entry ∈ s.logBuffer, Sendable lenv entry) :
    (s.step e).shipper.taken = s.shipper.taken ++ logged lenv [e] := by
  have hbuildable : Buildable s e := by
    cases e with
    | tick => exact fun _ => h
    | close => exact h
    | _ => trivial
  rw [shipper_step, taken_step_built (builds_input.mpr hbuildable), pushed_input]

theorem logBuffer_flushLogs : (flushLogs s).logBuffer = [] := by
  rw [flushLogs]
  split
  · assumption
  · split <;> rfl

/-- What is in the buffer was there before or has just been pushed. -/
theorem mem_logBuffer {entry : LokiTransport.LogEntry N} (h : entry ∈ (s.step e).logBuffer) :
    entry ∈ s.logBuffer ∨ entry ∈ logged lenv [e] := by
  cases e with
  | log now info =>
    have hbuffer : (s.step (.log now info)).logBuffer =
        s.logBuffer ++ [extractLogData lenv now info] := by
      simp only [Loki.step, lokiFormat, startFlushTimer]
      split <;> rfl
    rw [hbuffer, List.mem_append] at h
    exact h.imp_right id
  | tick =>
    rw [Loki.step] at h
    split at h
    · rw [logBuffer_flushLogs] at h
      cases h
    · exact .inl h
  | close =>
    rw [Loki.step, closeLokiLogger, logBuffer_flushLogs] at h
    cases h
  | response k statusCode => exact .inl h
  | error k => exact .inl h

end Transport

section Runs

variable {env : Env N} {H : String → String} {lenv : LokiEnv N} {q : Query} {s : Sinks lenv}
  {days : Days N} {m : ℕ} {ev : SinkEvent N}

/-- The entries that Loki was or will be sent, of those the query finds. -/
def found (q : Query) (s : Loki lenv) : ℕ := s.shipper.taken.countP (selected lenv (selector q))

def recorded (env : Env N) (q : Query) (days : Days N) : ℕ :=
  (days.map Prod.snd).flatten.countP fun e => answers env q e.json

/-- The entries of others. -/
def others (lenv : LokiEnv N) (q : Query) (evs : List (SinkEvent N)) : ℕ :=
  (logged lenv (evs.flatMap SinkEvent.other)).countP (selected lenv (selector q))

/-- Loki was given no more than the files have, and `m`. -/
structure Mirrored (env : Env N) (q : Query) (s : Sinks lenv) (days : Days N) (m : ℕ) : Prop where
  filed : Filed s.1.2 days
  bounded : found q s.2 ≤ recorded env q days + m

/-- Loki was given as many, and can be sent what is in the buffer. -/
structure Matched (env : Env N) (q : Query) (s : Sinks lenv) (days : Days N) (m : ℕ) : Prop where
  equal : found q s.2 = recorded env q days + m
  sendable : ∀ entry ∈ s.2.logBuffer, Sendable lenv entry

omit [DecidableEq N] in
theorem inFiles_filed {dir : LogDir} (h : Filed dir days) :
    inFiles env q dir = recorded env q days := by
  rw [inFiles, logLines_filed h, ← List.map_flatten, List.countP_map, recorded]
  apply List.countP_congr
  intro e he
  rw [Function.comp_apply, parseText_line, Option.any_some]

theorem others_cons (evs : List (SinkEvent N)) :
    others lenv q (ev :: evs) = others lenv q [ev] + others lenv q evs := by
  simp [others, logged, List.flatMap_append]

theorem found_event (s : Loki lenv) (e : Event N) : found q (s.step e) ≤
    found q s + (logged lenv [e]).countP (selected lenv (selector q)) := by
  rw [found, found, ← List.countP_append]
  exact taken_event.countP_le

theorem found_event_built {s : Loki lenv} (h : ∀ entry ∈ s.logBuffer, Sendable lenv entry)
    (e : Event N) : found q (s.step e) =
      found q s + (logged lenv [e]).countP (selected lenv (selector q)) := by
  rw [found, taken_event_built h, List.countP_append]
  rfl

variable (env) in
/-- An entry is counted in Loki only if it is in its file. -/
theorem countP_sent (sent : Time) (e : LogEntry N) :
    [sentEntry env lenv sent e].countP (selected lenv (selector q)) ≤
      [e].countP fun e => answers env q e.json := by
  rw [List.countP_singleton, List.countP_singleton]
  split
  · next h => rw [if_pos (answers_of_selected h)]
  · exact Nat.zero_le _

theorem countP_sent_plain (hq : ∀ m ∈ q, m.2 ≠ "") {sent : Time} {e : LogEntry N}
    (hplain : hasSpecifier (message e.action e.result).toList = false)
    (hsend : Sendable lenv (sentEntry env lenv sent e)) :
    [sentEntry env lenv sent e].countP (selected lenv (selector q)) =
      [e].countP fun e => answers env q e.json := by
  apply le_antisymm (countP_sent env sent e)
  rw [List.countP_singleton, List.countP_singleton]
  split
  · next h => rw [if_pos (selected_of_answers hq hplain hsend h)]
  · exact Nat.zero_le _

/-- A new process has no more than the requests of the old one. -/
theorem found_restart (s : Loki lenv) :
    found q (⟨[], false, s.requests⟩ : Loki lenv) ≤ found q s := by
  have hsub : (⟨[], false, s.requests⟩ : Loki lenv).shipper.taken.Sublist s.shipper.taken :=
    (List.nil_sublist _).append_left _
  exact hsub.countP_le

omit [DecidableEq N] in
theorem recorded_append {days' : Days N} {e : LogEntry N}
    (hflat : (days'.map Prod.snd).flatten = (days.map Prod.snd).flatten ++ [e]) :
    recorded env q days' = recorded env q days + [e].countP fun e => answers env q e.json := by
  rw [recorded, hflat, List.countP_append, recorded]

variable (H ev) in
/-- A step adds to Loki no more than to the files, but for what others send. -/
theorem mirrored_step (h : Mirrored env q s days m)
    (hday : ∀ d ∈ days, ∀ t ∈ ev.written, d.1.dateKey ≤ t.dateKey) :
    ∃ days' : Days N, Mirrored env q (sinkStep env H s ev) days' (m + others lenv q [ev]) ∧
      (∀ d ∈ days', d ∈ days ∨ ∃ t ∈ ev.written, d.1.dateKey ≤ t.dateKey) ∧
      ((∀ s, lenv.nanos (.str s) ≠ none) → (∀ m ∈ q, m.2 ≠ "") → Smooth s ev →
        Matched env q s days m →
          Matched env q (sinkStep env H s ev) days' (m + others lenv q [ev])) := by
  have hbounded := h.bounded
  cases ev with
  | log format now now' sent =>
    let e := newEntry H s.1.1 format now
    obtain ⟨days', hfiled, hflat, hdays'⟩ := filed_append h.filed e fun d hd =>
      hday d hd now' (List.mem_singleton_self now')
    have hrecorded : recorded env q days' = _ := recorded_append hflat
    have hothers : others lenv q [SinkEvent.log format now now' sent] = 0 := rfl
    have hlogged : logged lenv [forwardToLoki env lenv sent e] = [sentEntry env lenv sent e] := rfl
    rw [hothers, Nat.add_zero]
    have hwritten : now' ∈ (SinkEvent.log format now now' sent).written := List.mem_singleton_self _
    refine ⟨days', ⟨hfiled, ?_⟩, fun d hd => .inr ⟨now', hwritten, hdays' d hd⟩,
      fun hdate hq hsmooth hm => ?_⟩
    · have hfound : found q (s.2.step (forwardToLoki env lenv sent e)) ≤ _ := found_event _ _
      have hsent : [sentEntry env lenv sent e].countP (selected lenv (selector q)) ≤ _ :=
        countP_sent env sent e
      rw [hlogged] at hfound
      change found q (s.2.step (forwardToLoki env lenv sent e)) ≤ _
      omega
    · have hsend : Sendable lenv (sentEntry env lenv sent e) := sendable_sent hdate hsmooth.2
      constructor
      · have hfound : found q (s.2.step (forwardToLoki env lenv sent e)) = _ :=
          found_event_built hm.sendable _
        have hsent : [sentEntry env lenv sent e].countP (selected lenv (selector q)) = _ :=
          countP_sent_plain hq hsmooth.1 hsend
        have hequal := hm.equal
        rw [hlogged] at hfound
        change found q (s.2.step (forwardToLoki env lenv sent e)) = _
        omega
      · intro entry hentry
        rcases mem_logBuffer hentry with hentry | hentry
        · exact hm.sendable entry hentry
        · obtain rfl : entry = sentEntry env lenv sent e := List.mem_singleton.mp hentry
          exact hsend
  | restart =>
    refine ⟨days, ⟨h.filed, (found_restart s.2).trans hbounded⟩, fun d hd => .inl hd,
      fun hdate hq hsmooth hm => ⟨?_, fun entry hentry => absurd hentry List.not_mem_nil⟩⟩
    · have hsame : found q (⟨[], false, s.2.requests⟩ : Loki lenv) = found q s.2 := by
        have hbuffer : s.2.logBuffer = [] := hsmooth
        simp [found, Shipper.taken, Loki.shipper, hbuffer]
      exact hsame.trans hm.equal
  | transport e =>
    have hothers : others lenv q [SinkEvent.transport e] =
        (logged lenv [e]).countP (selected lenv (selector q)) := rfl
    refine ⟨days, ⟨h.filed, ?_⟩, fun d hd => .inl hd,
      fun hdate hq hsmooth hm => ⟨?_, fun entry hentry => ?_⟩⟩
    · have hfound : found q (s.2.step e) ≤ _ := found_event _ e
      change found q (s.2.step e) ≤ _
      omega
    · have hfound : found q (s.2.step e) = _ := found_event_built hm.sendable e
      have hequal := hm.equal
      change found q (s.2.step e) = _
      omega
    · rcases mem_logBuffer hentry with hentry | hentry
      · exact hm.sendable entry hentry
      · exact hsmooth entry hentry

/-- A run adds to Loki no more than to the files, but for what others send. -/
theorem mirrored_run (evs : List (SinkEvent N)) (h : Mirrored env q s days m)
    (hclock : (evs.flatMap SinkEvent.written).Pairwise fun t t' => t.dateKey ≤ t'.dateKey)
    (hdays : ∀ d ∈ days, ∀ t ∈ evs.flatMap SinkEvent.written, d.1.dateKey ≤ t.dateKey) :
    ∃ days' : Days N, Mirrored env q (run (sinkStep env H) s evs) days' (m + others lenv q evs) ∧
      ((∀ s, lenv.nanos (.str s) ≠ none) → (∀ m ∈ q, m.2 ≠ "") →
        Always (sinkStep env H) Smooth s evs → Matched env q s days m →
          Matched env q (run (sinkStep env H) s evs) days' (m + others lenv q evs)) := by
  induction evs generalizing s days m with
  | nil => exact ⟨days, h, fun _ _ _ hm => hm⟩
  | cons ev evs ih =>
    rw [List.flatMap_cons, List.pairwise_append] at hclock
    obtain ⟨-, hclock, hlater⟩ := hclock
    obtain ⟨days₁, h₁, hdays₁, hmatched₁⟩ := mirrored_step H ev h
      fun d hd t ht => hdays d hd t (List.mem_append_left _ ht)
    obtain ⟨days', h', hmatched'⟩ := ih h₁ hclock fun d hd t ht => by
      rcases hdays₁ d hd with hd | ⟨t', ht', hle⟩
      · exact hdays d hd t (List.mem_append_right _ ht)
      · exact hle.trans (hlater t' ht' t ht)
    rw [others_cons, ← Nat.add_assoc]
    refine ⟨days', h', fun hdate hq halways hm => ?_⟩
    obtain ⟨hsmooth, halways⟩ := always_cons.mp halways
    exact hmatched' hdate hq halways (hmatched₁ hdate hq hsmooth hm)

theorem inLoki_le_found (s : Loki lenv) : inLoki q s ≤ found q s :=
  ((delivered_sublist s).trans (List.sublist_append_left _ _)).countP_le

theorem inLoki_eq_found {s : Loki lenv} (hbuffer : s.logBuffer = [])
    (hdelivered : ∀ b ∈ s.requests, b.outcome = .delivered) : inLoki q s = found q s := by
  rw [inLoki, delivered_eq hdelivered, found]
  simp [Shipper.taken, Loki.shipper, hbuffer]

/-- On a directory without log files and a clock whose date does not go back, whatever is
logged, however often the process starts again and whatever else the transport is given: Loki
never finds more entries than the files have and others have sent, for a query without empty
values. It finds as many once all has been delivered, if every step was smooth. -/
theorem entries_forwarded (env : Env N) (H : String → String) (lenv : LokiEnv N) (dir : LogDir)
    (hdir : ∀ f ∈ dir.rows, isJsonl f.1 = false) (evs : List (SinkEvent N))
    (hclock : (evs.flatMap SinkEvent.written).Pairwise fun t t' => t.dateKey ≤ t'.dateKey)
    (q : Query) (hq : ∀ m ∈ q, m.2 ≠ "") :
    let start : Sinks lenv := ((onModuleInit N dir, dir), Loki.start)
    let s := run (sinkStep env H) start evs
    inLoki q s.2 ≤ inFiles env q s.1.2 + others lenv q evs ∧
      ((∀ s, lenv.nanos (.str s) ≠ none) → Always (sinkStep env H) Smooth start evs →
        s.2.logBuffer = [] → (∀ b ∈ s.2.requests, b.outcome = .delivered) →
        inLoki q s.2 = inFiles env q s.1.2 + others lenv q evs) := by
  intro start s
  have hfiled : Filed (N := N) dir [] := (intact_start H hdir).toFiled
  have hstart : Mirrored env q start [] 0 := ⟨hfiled, Nat.le_refl 0⟩
  have hmatched : Matched env q start [] 0 :=
    ⟨rfl, fun entry hentry => absurd hentry List.not_mem_nil⟩
  obtain ⟨days, hrun, hsmooth⟩ := mirrored_run (H := H) evs hstart hclock fun d hd =>
    absurd hd List.not_mem_nil
  rw [Nat.zero_add] at hrun hsmooth
  rw [inFiles_filed hrun.filed]
  refine ⟨(inLoki_le_found s.2).trans hrun.bounded, fun hdate halways hbuffer hdelivered => ?_⟩
  rw [inLoki_eq_found hbuffer hdelivered]
  exact (hsmooth hdate hq halways hmatched).equal

end Runs

/-- A login fails before a restart and one after it; each entry is flushed and taken. -/
def restartedLogins : List (SinkEvent ℕ) :=
  [.log loginFormat morning morning 0, .transport .tick, .transport (.response 0 204), .restart,
    .log loginFormat morning morning 1, .transport .close, .transport (.response 1 200)]

/-- The sinks after the first events of these; the hash is of no account. -/
def afterLogins (k : ℕ) : Sinks plainLoki :=
  run (sinkStep (plainEnv []) fun _ => "e3b0c442")
    ((onModuleInit ℕ Table.empty, Table.empty), Loki.start) (restartedLogins.take k)

def failedFromHome : Query := [(.eventType, "login_failed"), (.ip, "__1")]

theorem entries_forwarded_restartedLogins :
    inLoki failedFromHome (afterLogins 7).2 =
        inFiles (plainEnv []) failedFromHome (afterLogins 7).1.2 ∧
      inLoki failedFromHome (afterLogins 7).2 = 2 := by
  have hq : ∀ m ∈ failedFromHome, m.2 ≠ "" := by
    simp [failedFromHome]
  have hclock : (restartedLogins.flatMap SinkEvent.written).Pairwise
      fun t t' => t.dateKey ≤ t'.dateKey := by
    simp [restartedLogins, SinkEvent.written]
  have hlog : ∀ sent, ∀ s : Sinks plainLoki, Smooth s (.log loginFormat morning morning sent) :=
    fun sent s => ⟨by decide, fun h => absurd h (by decide)⟩
  have hempty : (afterLogins 3).2.logBuffer = [] := rfl
  have halways : Always (sinkStep (plainEnv []) fun _ => "e3b0c442") Smooth (afterLogins 0)
      restartedLogins := by
    refine always_cons.mpr ⟨hlog _ _, always_cons.mpr ⟨by simp [Smooth, logged], always_cons.mpr
      ⟨by simp [Smooth, logged], always_cons.mpr ⟨hempty, always_cons.mpr ⟨hlog _ _, always_cons.mpr
        ⟨by simp [Smooth, logged], always_cons.mpr ⟨by simp [Smooth, logged], always_nil⟩⟩⟩⟩⟩⟩⟩
  have hdelivered : ∀ b ∈ (afterLogins 7).2.requests, b.outcome = .delivered := by
    intro b hb
    have houtcomes : (afterLogins 7).2.requests.map (fun b => b.outcome) =
        [.delivered, .delivered] := rfl
    have hmem := List.mem_map_of_mem (f := fun b => b.outcome) hb
    rw [houtcomes] at hmem
    simpa using hmem
  obtain ⟨-, heq⟩ := entries_forwarded (plainEnv []) (fun _ => "e3b0c442") plainLoki Table.empty
    (by simp [Table.empty]) restartedLogins hclock failedFromHome hq
  have hbuffer : (afterLogins 7).2.logBuffer = [] := rfl
  have hothers : others plainLoki failedFromHome restartedLogins = 0 := rfl
  have hcount : inLoki failedFromHome (afterLogins 7).2 = 2 := rfl
  have hall := heq (fun s => Option.some_ne_none _) halways hbuffer hdelivered
  rw [hothers, Nat.add_zero] at hall
  exact ⟨hall, hcount⟩

end VerdeAuth.ForwardedEntries
