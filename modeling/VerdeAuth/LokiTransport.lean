import VerdeAuth.BatchShipping
import VerdeAuth.IamTables
import VerdeAuth.JavaScriptCoercions

/-!
# The Loki transport

`loki-transport.service.ts`: entries are pushed to a buffer, a timer flushes it to
Loki in one request, and nothing looks at what became of a request. The buffer and
its requests ship the entries in batches.
-/

namespace VerdeAuth.LokiTransport

open JsonTexts IamTables RunHistories BatchShipping

variable {N : Type}

/-- Configuration, and what dates are. -/
structure LokiEnv (N : Type) where
  nodeEnv : Option String
  toISOString : Time → String
  /-- `new Date(v).getTime() * 1_000_000`: `none` is a TypeError, `some none` is NaN. -/
  nanos : Json N → Option (Option N)

/-- The fields are what the logged object has under their names, whatever it is. -/
structure LogEntry (N : Type) where
  timestamp : Json N
  level : Json N
  message : Json N
  userId : Option (Json N)
  userEmail : Option (Json N)
  action : Option (Json N)
  eventType : Option (Json N)
  ip : Option (Json N)
  deviceName : Option (Json N)
  success : Option (Json N)
  sessionId : Option (Json N)

section Transport

variable [JsNumber N] [DecidableEq N]

/-- `v || d` -/
def orElse (v : Option (Json N)) (d : Json N) : Json N := if Json.truthy v then v.getD d else d

def extractLogData (env : LokiEnv N) (now : Time) (info : Members N) : LogEntry N where
  timestamp := orElse ((Json.obj info).get? "timestamp") (.str (env.toISOString now))
  level := orElse ((Json.obj info).get? "level") (.str "info")
  message := orElse ((Json.obj info).get? "message") (.str (String.ofList (text (.obj info))))
  userId := (Json.obj info).get? "userId"
  userEmail := (Json.obj info).get? "userEmail"
  action := (Json.obj info).get? "action"
  eventType := (Json.obj info).get? "eventType"
  ip := (Json.obj info).get? "ip"
  deviceName := (Json.obj info).get? "deviceName"
  success := (Json.obj info).get? "success"
  sessionId := (Json.obj info).get? "sessionId"

def isLabelChar (c : Char) : Bool := c.isAlphanum || c = '_' || c = '.' || c = '-'

/-- The replacement works on UTF-16 units, of which a character may be two. -/
def sanitizeChar (c : Char) : List Char :=
  if isLabelChar c then [c] else if c.toNat < 0x10000 then ['_'] else ['_', '_']

def sanitize (value : String) : String :=
  String.ofList ((value.toList.flatMap sanitizeChar).take 128)

/-- `sanitizeLabel`; only strings have a `replace`, and `none` is a TypeError. -/
def sanitizeLabel : Json N → Option String
  | .str value => some (sanitize value)
  | _ => none

/-- The label of a name that is set where the field has a truthy value. -/
def optionalLabel (field : String × Option (Json N)) : Option (Members N) :=
  if Json.truthy field.2 then (field.2.bind sanitizeLabel).map fun s => [(field.1, .str s)]
  else some []

/-- The fields that are sanitized before `success` is set. -/
def LogEntry.front (entry : LogEntry N) : List (String × Option (Json N)) :=
  [("userId", entry.userId), ("userEmail", entry.userEmail), ("eventType", entry.eventType),
    ("action", entry.action), ("ip", entry.ip), ("deviceName", entry.deviceName)]

/-- The labels of an entry in the order in which they are set; `none` is a TypeError. -/
def labels (env : LokiEnv N) (entry : LogEntry N) : Option (Members N) := do
  let nodeEnv := if env.nodeEnv = some "" then "development" else env.nodeEnv.getD "development"
  let front ← entry.front.mapM optionalLabel
  let success := if Json.truthy entry.success then (entry.success.map ("success", ·)).toList else []
  let sessionId ← optionalLabel ("sessionId", entry.sessionId)
  return [("service", .str "banco-verde-iam"), ("env", .str (sanitize nodeEnv)),
    ("level", entry.level)] ++ front.flatten ++ success ++ sessionId

def nanoTime (env : LokiEnv N) (timestamp : Json N) : Option String :=
  (env.nanos timestamp).map fun
    | none => "NaN"
    | some n => String.ofList (NumberFormat.text n)

def stream (env : LokiEnv N) (entry : LogEntry N) : Option (Json N) := do
  let labels ← labels env entry
  let nanos ← nanoTime env entry.timestamp
  return .obj [("stream", .obj labels), ("values", .arr [.arr [.str nanos, entry.message]])]

/-- The body of the request for these entries; `none` where an entry throws. -/
def payload (env : LokiEnv N) (logsToSend : List (LogEntry N)) : Option String :=
  (logsToSend.mapM (stream env)).map fun streams =>
    String.ofList (text (.obj [("streams", .arr streams)]))

/-- The variables of the module, and the requests made so far. -/
structure Loki (env : LokiEnv N) where
  logBuffer : List (LogEntry N)
  flushTimer : Bool
  requests : List (Batch (payload env))

variable {env : LokiEnv N}

def Loki.start : Loki env := ⟨[], false, []⟩

def startFlushTimer (s : Loki env) : Loki env :=
  if s.flushTimer then s else { s with flushTimer := true }

/-- The buffer is copied and emptied before the labels are built. -/
def flushLogs (s : Loki env) : Loki env :=
  if hs : s.logBuffer = [] then s
  else match hp : payload env s.logBuffer with
    | none => { s with logBuffer := [] }
    | some body =>
      { s with
        logBuffer := []
        requests := s.requests ++ [⟨s.logBuffer, hs, body, hp, .inFlight⟩] }

def lokiFormat (now : Time) (info : Members N) (s : Loki env) : Loki env :=
  let s := startFlushTimer s
  { s with logBuffer := s.logBuffer ++ [extractLogData env now info] }

def closeLokiLogger (s : Loki env) : Loki env :=
  flushLogs (if s.flushTimer then { s with flushTimer := false } else s)

inductive Event (N : Type) where
  | log (now : Time) (info : Members N)
  | tick
  | close
  | response (k : ℕ) (statusCode : ℕ)
  | error (k : ℕ)

/-- The callback and the error handler only report; the requests remember for us. -/
def Loki.step (s : Loki env) : Event N → Loki env
  | .log now info => lokiFormat now info s
  | .tick => if s.flushTimer then flushLogs s else s
  | .close => closeLokiLogger s
  | .response k statusCode =>
    { s with requests := settle (statusCode = 204 || statusCode = 200) k s.requests }
  | .error k => { s with requests := settle false k s.requests }

/-- The entries pushed. -/
def logged (env : LokiEnv N) (es : List (Event N)) : List (LogEntry N) :=
  es.flatMap fun
    | .log now info => [extractLogData env now info]
    | _ => []

/-! Entries that can be sent. -/

/-- What is sanitized is a string or falsy, and the timestamp makes a date. -/
structure Sendable (env : LokiEnv N) (entry : LogEntry N) : Prop where
  front : ∀ field ∈ entry.front, Json.truthy field.2 = true → ∃ s, field.2 = some (.str s)
  sessionId : Json.truthy entry.sessionId = true → ∃ s, entry.sessionId = some (.str s)
  date : env.nanos entry.timestamp ≠ none

omit [JsNumber N] [DecidableEq N] in
theorem bind_sanitizeLabel_isSome {v : Option (Json N)} :
    (v.bind sanitizeLabel).isSome = true ↔ ∃ s, v = some (.str s) := by
  rcases v with _ | (_ | _ | _ | _ | _ | _) <;> simp [sanitizeLabel]

theorem optionalLabel_isSome {field : String × Option (Json N)} :
    (optionalLabel field).isSome = true ↔
      (Json.truthy field.2 = true → ∃ s, field.2 = some (.str s)) := by
  rw [optionalLabel, ← bind_sanitizeLabel_isSome]
  split
  · next h =>
    rw [Option.isSome_map]
    exact ⟨fun hs _ => hs, fun hs => hs h⟩
  · next h => exact iff_of_true rfl fun hs => absurd hs h

theorem mapM_isSome {α β : Type} {f : α → Option β} {l : List α} :
    (l.mapM f).isSome = true ↔ ∀ a ∈ l, (f a).isSome = true := by
  induction l with
  | nil => simp
  | cons a l ih =>
    rw [List.forall_mem_cons, ← ih, List.mapM_cons]
    cases f a <;> cases l.mapM f <;> simp

theorem stream_isSome {entry : LogEntry N} :
    (stream env entry).isSome = true ↔ Sendable env entry := by
  have hdate : (nanoTime env entry.timestamp).isSome = true ↔ env.nanos entry.timestamp ≠ none := by
    rw [nanoTime, Option.isSome_map, Option.isSome_iff_ne_none]
  have hlabels : (labels env entry).isSome = true ↔ (entry.front.mapM optionalLabel).isSome = true ∧
      (optionalLabel ("sessionId", entry.sessionId)).isSome = true := by
    cases hf : entry.front.mapM optionalLabel <;>
      cases hs : optionalLabel ("sessionId", entry.sessionId) <;> simp [labels, hf, hs]
  have hstream : (stream env entry).isSome = true ↔ (labels env entry).isSome = true ∧
      (nanoTime env entry.timestamp).isSome = true := by
    cases hl : labels env entry <;> cases hn : nanoTime env entry.timestamp <;>
      simp [stream, hl, hn]
  rw [hstream, hlabels, hdate, mapM_isSome, optionalLabel_isSome]
  constructor
  · rintro ⟨⟨hfront, hsession⟩, hnanos⟩
    exact ⟨fun field hfield => optionalLabel_isSome.mp (hfront field hfield), hsession, hnanos⟩
  · rintro ⟨hfront, hsession, hnanos⟩
    exact ⟨⟨fun field hfield => optionalLabel_isSome.mpr (hfront field hfield), hsession⟩, hnanos⟩

/-- A body can be built exactly of entries that can be sent. -/
theorem payload_ne_none {entries : List (LogEntry N)} :
    payload env entries ≠ none ↔ ∀ entry ∈ entries, Sendable env entry := by
  rw [← Option.isSome_iff_ne_none, payload, Option.isSome_map, mapM_isSome]
  exact forall₂_congr fun _ _ => stream_isSome

/-! What is shipped. -/

/-- The buffer and the requests as a queue and its batches. -/
def Loki.shipper (s : Loki env) : Shipper (payload env) := ⟨s.logBuffer, s.requests⟩

def Loki.input (s : Loki env) : Event N → Input (LogEntry N)
  | .log now info => .push (extractLogData env now info)
  | .tick => if s.flushTimer then .flush else .idle
  | .close => .flush
  | .response k statusCode => .settle k (statusCode = 204 || statusCode = 200)
  | .error k => .settle k false

theorem shipper_flushLogs (s : Loki env) : (flushLogs s).shipper = s.shipper.flush := by
  by_cases hs : s.logBuffer = []
  · have hq : s.shipper.queue = [] := hs
    rw [flush_of_empty hq, flushLogs, dif_pos hs]
  · have hq : s.shipper.queue ≠ [] := hs
    rw [flushLogs, dif_neg hs]
    split
    · next hp =>
      have hp' : payload env s.shipper.queue = none := hp
      rw [flush_of_unbuilt hq hp']
      rfl
    · next body hp =>
      have hp' : payload env s.shipper.queue = some body := hp
      rw [flush_of_built hq hp']
      rfl

/-- The transport ships its entries in batches. -/
theorem shipper_step (s : Loki env) (e : Event N) :
    (s.step e).shipper = s.shipper.step (s.input e) := by
  cases e with
  | log now info =>
    simp only [Loki.step, lokiFormat, startFlushTimer]
    split <;> rfl
  | tick =>
    simp only [Loki.step, Loki.input]
    split
    · exact shipper_flushLogs s
    · rfl
  | close =>
    simp only [Loki.step, closeLokiLogger, Loki.input]
    split
    · exact shipper_flushLogs _
    · exact shipper_flushLogs s
  | response k statusCode => rfl
  | error k => rfl

theorem pushes_relabel (s : Loki env) (es : List (Event N)) :
    pushes (relabel Loki.step Loki.input s es) = logged env es := by
  induction es generalizing s with
  | nil => rfl
  | cons e es ih =>
    have htail := ih (s.step e)
    rw [pushes] at htail
    rw [relabel, pushes, List.flatMap_cons, htail, logged, logged, List.flatMap_cons]
    congr 1
    cases e with
    | tick =>
      simp only [Loki.input]
      split <;> rfl
    | _ => rfl

/-- A request is in flight. -/
def InFlight (s : Loki env) (k : ℕ) : Prop := ∃ r, s.requests[k]? = some r ∧ r.outcome = .inFlight

/-- A flush finds only entries that can be sent. -/
def Buildable (s : Loki env) : Event N → Prop
  | .tick => s.flushTimer = true → ∀ entry ∈ s.logBuffer, Sendable env entry
  | .close => ∀ entry ∈ s.logBuffer, Sendable env entry
  | _ => True

/-- A request in flight is answered 200 or 204. -/
def Answered (s : Loki env) : Event N → Prop
  | .response k statusCode => InFlight s k → statusCode = 204 ∨ statusCode = 200
  | .error k => ¬ InFlight s k
  | _ => True

theorem builds_flush {s : Loki env} :
    Builds s.shipper .flush ↔ ∀ entry ∈ s.logBuffer, Sendable env entry := by
  constructor
  · rintro (hempty | hbuilt)
    · intro entry hentry
      have hnil : s.logBuffer = [] := hempty
      rw [hnil] at hentry
      cases hentry
    · exact payload_ne_none.mp hbuilt
  · exact fun h => Or.inr (payload_ne_none.mpr h)

theorem builds_input {s : Loki env} {e : Event N} :
    Builds s.shipper (s.input e) ↔ Buildable s e := by
  cases e with
  | tick =>
    simp only [Loki.input, Buildable]
    split
    · next h => exact builds_flush.trans ⟨fun hs _ => hs, fun hs => hs h⟩
    · next h => exact iff_of_true trivial fun hs => absurd hs h
  | close => exact builds_flush
  | _ => exact Iff.rfl

theorem harmless_lost {s : Loki env} {k : ℕ} :
    Harmless s.shipper (.settle k false) ↔ ¬ InFlight s k := by
  constructor
  · rintro h ⟨r, hr, hflight⟩
    exact h r hr hflight
  · intro h r hr hflight
    exact h ⟨r, hr, hflight⟩

/-- A step that builds what it flushes loses entries only with a request. -/
theorem harmless_input {s : Loki env} {e : Event N} (h : Buildable s e) :
    Harmless s.shipper (s.input e) ↔ Answered s e := by
  cases e with
  | log now info => exact Iff.rfl
  | tick =>
    simp only [Buildable] at h
    simp only [Loki.input]
    split
    · next ht => exact iff_of_true (builds_flush.mpr (h ht)) trivial
    · exact Iff.rfl
  | close => exact iff_of_true (builds_flush.mpr h) trivial
  | error k => exact harmless_lost
  | response k statusCode =>
    by_cases hcode : statusCode = 204 ∨ statusCode = 200
    · have hok : (decide (statusCode = 204) || decide (statusCode = 200)) = true := by simpa using hcode
      rw [Loki.input, hok]
      exact iff_of_true trivial fun _ => hcode
    · have hbad : (decide (statusCode = 204) || decide (statusCode = 200)) = false := by
        simpa using hcode
      rw [Loki.input, hbad]
      exact harmless_lost.trans ⟨fun h hflight => absurd hflight h, fun h hflight => hcode (h hflight)⟩

/-- Where every flush finds entries that can be sent, each entry pushed is in the buffer
or in one request, in push order, and each is in the buffer, in a request in flight or in one
that was answered 200 or 204 exactly when no request ended otherwise. -/
theorem lost_only_unanswered (env : LokiEnv N) (es : List (Event N))
    (h : Always Loki.step Buildable (Loki.start : Loki env) es) :
    let s := run Loki.step (Loki.start : Loki env) es
    s.requests.flatMap Batch.items ++ s.logBuffer = logged env es ∧
      (Accounted s.shipper (logged env es) ↔
        Always Loki.step Answered (Loki.start : Loki env) es) := by
  have hrun : run Shipper.step (Loki.start : Loki env).shipper
      (relabel Loki.step Loki.input (Loki.start : Loki env) es) =
        (run Loki.step (Loki.start : Loki env) es).shipper := run_relabel shipper_step
  have hbuilds : Always Shipper.step Builds (Shipper.empty : Shipper (payload env))
      (relabel Loki.step Loki.input (Loki.start : Loki env) es) := by
    refine (always_relabel shipper_step).mpr ?_
    simpa only [builds_input] using h
  have hharmless : Always Shipper.step Harmless (Shipper.empty : Shipper (payload env))
      (relabel Loki.step Loki.input (Loki.start : Loki env) es) ↔
        Always Loki.step Answered (Loki.start : Loki env) es := by
    refine (always_relabel shipper_step).trans ?_
    exact always_congr h fun s e hs => harmless_input hs
  rw [← pushes_relabel (Loki.start : Loki env) es]
  constructor
  · have htaken := taken_run_built hbuilds
    rw [← htaken]
    exact (congrArg Shipper.taken hrun).symm
  · rw [← hharmless, ← accounted_iff]
    exact iff_of_eq (congrArg (Accounted · _) hrun.symm)

end Transport

/-- Dates are texts whose nanoseconds are their length. -/
def plainLoki : LokiEnv ℕ where
  nodeEnv := none
  toISOString _ := "2025-06-30T09:00:00.000Z"
  nanos
    | .str s => some (some s.length)
    | _ => none

/-- A login that failed. -/
def failedLogin : Members ℕ :=
  [("level", .str "info"), ("message", .str "LOGIN_FAILED - FAILED"),
    ("timestamp", .str "2025-06-30T09:00:00.000Z"), ("userId", .str "anonymous")]

/-- It is pushed and flushed, and Loki answers 500. -/
def rejected : List (Event ℕ) := [.log 1000 failedLogin, .tick, .response 0 500]

theorem event_lost :
    let s := run Loki.step (Loki.start : Loki plainLoki) rejected
    (logged plainLoki rejected).length = 1 ∧ s.logBuffer = [] ∧
      s.requests.map (fun r => (r.items.length, r.outcome)) = [(1, .lost)] ∧
      ¬ Accounted s.shipper (logged plainLoki rejected) := by
  refine ⟨rfl, rfl, rfl, fun h => ?_⟩
  have hlength := h.once.length_eq
  cases hlength

theorem lost_only_unanswered_rejected :
    let s := run Loki.step (Loki.start : Loki plainLoki) rejected
    s.requests.flatMap Batch.items ++ s.logBuffer = logged plainLoki rejected ∧
      (Accounted s.shipper (logged plainLoki rejected) ↔
        Always Loki.step Answered (Loki.start : Loki plainLoki) rejected) := by
  apply lost_only_unanswered plainLoki rejected
  refine always_cons.mpr ⟨trivial, always_cons.mpr ⟨?_, always_cons.mpr ⟨trivial, always_nil⟩⟩⟩
  intro _ entry hentry
  obtain rfl := List.mem_singleton.mp hentry
  refine ⟨?_, fun h => absurd h Bool.false_ne_true, Option.some_ne_none _⟩
  intro field hfield
  simp only [LogEntry.front, List.mem_cons, List.not_mem_nil, or_false] at hfield
  rcases hfield with rfl | rfl | rfl | rfl | rfl | rfl
  · exact fun _ => ⟨_, rfl⟩
  all_goals exact fun h => absurd h Bool.false_ne_true

/-- An entry whose user id is a number takes the others of its flush with it. -/
example : (run Loki.step (Loki.start : Loki plainLoki) [.log 1000 failedLogin,
    .log 2000 [("userId", .num 5)], .close]).logBuffer.length = 0 ∧
    (run Loki.step (Loki.start : Loki plainLoki) [.log 1000 failedLogin,
      .log 2000 [("userId", .num 5)], .close]).requests.length = 0 := ⟨rfl, rfl⟩

end VerdeAuth.LokiTransport
