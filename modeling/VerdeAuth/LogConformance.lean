import VerdeAuth.JsonLogFormat
import VerdeAuth.SiemCrashRecovery

/-!
# Entries against their schema

Which entries that the logger returns conform to the schema its own repository
publishes. An entry names the chain head it was logged on as its `previousHash`,
and the head a chain starts from is no digest.
-/

namespace VerdeAuth.LogConformance

open JsonTexts KeyedTables SiemLoggerService LogEntryLines LogFileNames SiemChainIntegrity
open HexDigests LoggedChains SiemCrashRecovery JsonSchemas DateTimes JsonLogFormat

section Inputs

variable {N : Type} [SchemaNumber N]

/-- What a caller of `log` owes: values of the enumerations, an action, a date-time
if any, and fields of the types in the schema. -/
structure Typed (f : StandardLogFormat N) : Prop where
  timestamp : ∀ t ∈ f.timestamp, isDateTime t.toList = true
  service : f.service ∈ validServices
  action : f.action ≠ ""
  result : f.result ∈ validResults
  device : ∀ v ∈ f.device, deviceSchema.types.accepts v.1 = true
  geo : ∀ v ∈ f.geo, geoSchema.types.accepts v.1 = true
  metadata : ∀ v ∈ f.metadata, metadataSchema.types.accepts v.1 = true

/-- The risk score in the metadata, if any, lies in `0 … 100`. -/
def RiskInRange (f : StandardLogFormat N) : Prop :=
  ∀ v ∈ f.metadata, ∀ n, v.1.get? "riskScore" = some (.num n) →
    JsNumber.lt n (JsNumber.ofNat 0) = false ∧ JsNumber.lt (JsNumber.ofNat 100) n = false

/-- SHA-256 digests in hexadecimal. -/
def Sha256Hex (H : String → String) : Prop := ∀ s, sha256Pattern (H s).toList = true

end Inputs

section Entries

variable {N : Type} [SchemaNumber N]

variable [DecidableEq N] in
/-- The entry satisfies the schema, and the validator accepts it. -/
def Conforms (e : LogEntry N) : Prop :=
  logSchema.accepts e.json = true ∧ (validateLogEntry (some e.json)).valid = true

theorem acceptsAt_entry (e : LogEntry N) {k : String} {v : Option (Json N)} {schema : Schema}
    (h : (k, v) ∈ e.properties) :
    AcceptsAt e.json k schema ↔ ∀ w ∈ v, schema.accepts w = true := by
  rw [AcceptsAt, get?_entry e h]
  exact Iff.rfl

/-- A risk score that is a number is accepted where it is in range. -/
theorem acceptsAt_riskScore {v : Json N} (h : AcceptsAt v "riskScore" (.scalar .number [])) :
    AcceptsAt v "riskScore" (.scalar .number [.minimum 0, .maximum 100]) ↔
      ∀ n, v.get? "riskScore" = some (.num n) →
        JsNumber.lt n (JsNumber.ofNat 0) = false ∧ JsNumber.lt (JsNumber.ofNat 100) n = false := by
  constructor
  · intro hrange n hn
    have haccepts := hrange _ hn
    simpa [Schema.accepts, ScalarType.holds, Assertion.holds] using haccepts
  · intro hrange w hw
    have hnumber := h w hw
    cases w with
    | num n => simpa [Schema.accepts, ScalarType.holds, Assertion.holds] using hrange n hw
    | _ => cases hnumber

theorem accepts_metadata {v : Json N} (h : metadataSchema.types.accepts v = true) :
    metadataSchema.accepts v = true ↔ ∀ n, v.get? "riskScore" = some (.num n) →
      JsNumber.lt n (JsNumber.ofNat 0) = false ∧ JsNumber.lt (JsNumber.ofNat 100) n = false := by
  obtain ⟨ps, rfl⟩ := exists_members h
  obtain ⟨-, htypes⟩ := accepts_object.mp h
  simp only [typesOf, stringSchema, Schema.types, List.forall_mem_cons] at htypes
  obtain ⟨hreason, hattempts, hsession, htransaction, hamount, hcurrency, hrisk, -⟩ := htypes
  rw [metadataSchema, accepts_object]
  simp only [stringSchema, List.forall_mem_cons, hreason, hattempts, hsession, htransaction, hamount,
    hcurrency, true_and, acceptsAt_riskScore hrisk]
  simp

section NewEntry

variable {H : String → String} {l : SiemLogger} {f : StandardLogFormat N} {now : Instant}

theorem isDateTime_stamp (hf : Typed f) (hnow : OnCalendar now) :
    isDateTime (stamp f.timestamp now).toList = true := by
  cases ht : f.timestamp with
  | none => exact isDateTime_toISOString hnow
  | some t =>
    rw [stamp]
    split
    · exact isDateTime_toISOString hnow
    · exact hf.timestamp t ht

theorem accepts_entry (e : LogEntry N) {required : List String}
    {properties : List (String × Schema)} :
    (Schema.object required properties).accepts e.json = true ↔
      (∀ k ∈ required, e.json.get? k ≠ none) ∧ ∀ p ∈ properties, AcceptsAt e.json p.1 p.2 :=
  accepts_object

/-- What an entry has under the name of a text. -/
theorem acceptsAt_text (e : LogEntry N) {k s : String} {assertions : List Assertion}
    (h : (k, some (.str s)) ∈ e.properties) :
    AcceptsAt e.json k (.scalar .string assertions) ↔
      (assertions.all fun a => a.holds (.str s : Json N)) = true := by
  rw [acceptsAt_entry e h]
  simp

theorem acceptsAt_record (e : LogEntry N) {k : String} {v : Option (JsonValue N)} {schema : Schema}
    (h : (k, v.map Subtype.val) ∈ e.properties) :
    AcceptsAt e.json k schema ↔ ∀ w ∈ v, schema.accepts w.1 = true := by
  rw [acceptsAt_entry e h]
  constructor
  · intro haccepts w hw
    exact haccepts w.1 (Option.mem_map_of_mem Subtype.val hw)
  · intro haccepts w hw
    obtain ⟨w', hw', rfl⟩ := Option.mem_map.mp hw
    exact haccepts w' hw'

variable (H l f now) in
/-- The texts of an entry, under their names. -/
theorem texts_newEntry : ∀ p ∈ [("timestamp", stamp f.timestamp now), ("service", f.service),
    ("user", f.user), ("action", f.action), ("result", f.result), ("ip", f.ip),
    ("hash", (newEntry H l f now).hash), ("hashAlgorithm", "SHA-256"), ("previousHash", l.lastHash)],
    (p.1, some (.str p.2)) ∈ (newEntry H l f now).properties := by
  simp [LogEntry.properties, StandardLogFormat.properties, newEntry]

variable (H l f now) in
theorem records_newEntry : ∀ p ∈ [("device", f.device), ("geo", f.geo), ("metadata", f.metadata)],
    (p.1, p.2.map Subtype.val) ∈ (newEntry H l f now).properties := by
  simp [LogEntry.properties, StandardLogFormat.properties, newEntry]

theorem acceptsAt_number (e : LogEntry N) (h : 1 ≤ e.logSequenceNumber) :
    AcceptsAt e.json "logSequenceNumber" (.scalar .integer [.minimum 1]) := by
  refine (acceptsAt_some (get?_logSequenceNumber e)).mpr ?_
  simpa [Schema.accepts, ScalarType.holds, Assertion.holds, SchemaNumber.isInteger_ofNat,
    JsNumber.lt_ofNat] using Nat.ne_of_gt h

/-- The schema accepts an entry of typed inputs where the head it was logged on is a
digest and the risk score is in range. -/
theorem accepts_newEntry (hH : Sha256Hex H) (hf : Typed f) (hnow : OnCalendar now) :
    logSchema.accepts (newEntry H l f now).json = true ↔
      sha256Pattern l.lastHash.toList = true ∧ RiskInRange f := by
  have htexts := texts_newEntry H l f now
  have hrecords := records_newEntry H l f now
  have hnumber := acceptsAt_number (newEntry H l f now) (Nat.le_add_left 1 _)
  simp only [List.forall_mem_cons] at htexts hrecords
  obtain ⟨htime, hservice, huser, haction, hresult, hip, hhash, halgorithm, hprevious, -⟩ := htexts
  obtain ⟨hdevice, hgeo, hmetadata, -⟩ := hrecords
  have hrisk : (∀ w ∈ f.metadata, metadataSchema.accepts w.1 = true) ↔ RiskInRange f :=
    forall₂_congr fun w hw => accepts_metadata (hf.metadata w hw)
  have hstamp := isDateTime_stamp hf hnow
  have hdigest : sha256Pattern (newEntry H l f now).hash.toList = true := hH _
  have hdevices : (∀ w ∈ f.device, deviceSchema.accepts w.1 = true) ↔ True :=
    iff_true_intro hf.device
  have hgeos : (∀ w ∈ f.geo, geoSchema.accepts w.1 = true) ↔ True := iff_true_intro hf.geo
  rw [logSchema, accepts_entry]
  simp only [stringSchema, List.forall_mem_cons, acceptsAt_text _ htime, acceptsAt_text _ hservice,
    acceptsAt_text _ huser, acceptsAt_text _ haction, acceptsAt_text _ hresult, acceptsAt_text _ hip,
    acceptsAt_text _ hhash, acceptsAt_text _ halgorithm, acceptsAt_text _ hprevious,
    acceptsAt_record _ hdevice, acceptsAt_record _ hgeo, acceptsAt_record _ hmetadata, hrisk, hnumber,
    hdevices, hgeos,
    get?_entry _ htime, get?_entry _ hservice, get?_entry _ haction, get?_entry _ hresult,
    get?_entry _ hhash, get?_entry _ halgorithm]
  simp [Assertion.holds, hstamp, hdigest, hf.service, hf.result, and_comm]

variable [DecidableEq N]

theorem requiredError_text {e : LogEntry N} {k s : String} (h : (k, some (.str s)) ∈ e.properties)
    (hs : s ≠ "") : requiredError e.json k = [] := by
  rw [requiredError, get?_entry e h]
  simp [Json.truthy, hs]

theorem enumError_text {e : LogEntry N} {k s : String} (h : (k, some (.str s)) ∈ e.properties)
    {values : List String} (hs : s ∈ values) : enumError e.json k values = [] := by
  rw [enumError, get?_entry e h]
  simpa [Json.strictEq] using fun _ => hs

/-- The validator accepts every entry of typed inputs. -/
theorem validate_newEntry (hH : Sha256Hex H) (hf : Typed f) (hnow : OnCalendar now) :
    (validateLogEntry (some (newEntry H l f now).json)).valid = true := by
  have htexts := texts_newEntry H l f now
  simp only [List.forall_mem_cons] at htexts
  obtain ⟨htime, hservice, -, haction, hresult, -, hhash, halgorithm, -, -⟩ := htexts
  have hstamp : stamp f.timestamp now ≠ "" := by
    intro hempty
    have hdate := isDateTime_stamp hf hnow
    rw [hempty] at hdate
    cases hdate
  have hname : f.service ≠ "" := by
    intro hempty
    have hmem := hf.service
    rw [hempty] at hmem
    exact absurd hmem (by decide)
  have houtcome : f.result ≠ "" := by
    intro hempty
    have hmem := hf.result
    rw [hempty] at hmem
    exact absurd hmem (by decide)
  have hdigest : (newEntry H l f now).hash ≠ "" := by
    intro hempty
    have hpattern : sha256Pattern (newEntry H l f now).hash.toList = true := hH _
    rw [hempty] at hpattern
    cases hpattern
  have halg : algorithmError (newEntry H l f now).json = [] := by
    rw [algorithmError, get?_entry _ halgorithm]
    simp [Json.strictEq]
  have herrors : entryErrors (newEntry H l f now).json = [] := by
    simp [entryErrors, requiredError_text htime hstamp, requiredError_text hservice hname,
      requiredError_text haction hf.action, requiredError_text hresult houtcome,
      requiredError_text hhash hdigest, requiredError_text halgorithm (by decide),
      enumError_text hservice hf.service, enumError_text hresult hf.result, halg]
  simpa [validateLogEntry, LogEntry.json, Json.truthy, isObject] using herrors

theorem conforms_newEntry (hH : Sha256Hex H) (hf : Typed f) (hnow : OnCalendar now) :
    Conforms (newEntry H l f now) ↔ sha256Pattern l.lastHash.toList = true ∧ RiskInRange f := by
  rw [Conforms, accepts_newEntry hH hf hnow]
  exact and_iff_left (validate_newEntry hH hf hnow)

end NewEntry

end Entries

section Runs

variable {N : Type} [JsNumber N]

/-- The hash of the entry is a digest. -/
def Signed (e : LogEntry N) : Prop := sha256Pattern e.hash.toList = true

variable {H : String → String} {s : SiemLogger × LogDir} {dir : LogDir} {es : List (LogEvent N)}

theorem not_pattern_genesis : sha256Pattern genesisHash.toList = false := rfl

variable [DecidableEq N]

/-- A new instance finds a digest where there are log files. -/
theorem lastLogged_signed (h : LoggedBy (N := N) Signed dir) :
    sha256Pattern (lastLogged N dir).1.toList = true ↔ jsonlFiles dir ≠ [] := by
  cases hfile : (jsonlFiles dir).getLast? with
  | none =>
    have hgenesis : lastLogged N dir = (genesisHash, 0) := by rw [lastLogged, hfile]
    rw [hgenesis, List.getLast?_eq_none_iff.mp hfile]
    simp [not_pattern_genesis]
  | some name =>
    have hmem := List.mem_of_getLast? hfile
    obtain ⟨es, hcontents, hsigned, hnil⟩ := contents_loggedBy h (mem_jsonlFiles.mp hmem).1
    have hne : es ≠ [] := fun he => hnil.mp he hmem
    obtain ⟨init, e, rfl⟩ := (List.eq_nil_or_concat' es).resolve_left hne
    have hpattern : Signed e := hsigned e (by simp)
    have hhash : e.hash ≠ "" := by
      intro hempty
      rw [Signed, hempty] at hpattern
      cases hpattern
    have hline : (fileLines (readFile dir name)).getLast? = some e.line := by
      rw [hcontents, fileLines_render]
      simp
    rw [lastLogged_line hfile hline hhash]
    exact iff_of_true hpattern (List.ne_nil_of_mem hmem)

/-- After these events the directory holds signed entries, and it has files, and the
logger a digest for its head, exactly when something was logged. -/
structure Headed (es : List (LogEvent N)) (s : SiemLogger × LogDir) : Prop where
  signed : LoggedBy (N := N) Signed s.2
  files : jsonlFiles s.2 ≠ [] ↔ ∃ e ∈ es, e.isLog = true
  head : sha256Pattern s.1.lastHash.toList = true ↔ ∃ e ∈ es, e.isLog = true

theorem headed_start (hdir : ∀ f ∈ dir.rows, isJsonl f.1 = false) :
    Headed (N := N) [] (onModuleInit N dir, dir) := by
  have hfiles : jsonlFiles dir = [] := by
    refine List.eq_nil_iff_forall_not_mem.mpr fun name hname => ?_
    obtain ⟨hjsonl, f, hf, rfl⟩ := mem_jsonlFiles.mp hname
    rw [hdir f hf] at hjsonl
    cases hjsonl
  have hsigned : LoggedBy (N := N) Signed dir := by
    intro f hf hjsonl
    rw [hdir f hf] at hjsonl
    cases hjsonl
  constructor
  · exact hsigned
  · simp [hfiles]
  · refine (lastLogged_signed hsigned).trans ?_
    simp [hfiles]

theorem headed_step (hH : Sha256Hex H) (h : Headed es s) (e : LogEvent N) :
    Headed (es ++ [e]) (step H s e) := by
  cases e with
  | log format now now' =>
    have hlogged : ∃ e ∈ es ++ [LogEvent.log format now now'], e.isLog = true :=
      ⟨_, List.mem_append_right _ List.mem_cons_self, rfl⟩
    have hnew : Signed (newEntry H s.1 format now) := hH _
    have hmem : logFileName now' ∈ jsonlFiles (log H format now now' s).2.2 :=
      (mem_jsonlFiles_appendFile (isJsonl_fileName now')).mpr (Or.inl rfl)
    constructor
    · exact loggedBy_log hnew h.signed
    · exact iff_of_true (List.ne_nil_of_mem hmem) hlogged
    · exact iff_of_true hnew hlogged
  | restart =>
    have hsame : (∃ e ∈ es ++ [LogEvent.restart], e.isLog = true) ↔ ∃ e ∈ es, e.isLog = true := by
      simp [LogEvent.isLog]
    constructor
    · exact h.signed
    · rw [hsame]
      exact h.files
    · rw [hsame, ← h.files]
      exact lastLogged_signed h.signed

theorem headed_run (hH : Sha256Hex H) (hdir : ∀ f ∈ dir.rows, isJsonl f.1 = false)
    (es : List (LogEvent N)) : Headed es (runEvents H (onModuleInit N dir, dir) es) := by
  induction es using List.reverseRecOn with
  | nil => exact headed_start hdir
  | append_singleton es e ih =>
    have hstep := headed_step hH ih e
    rw [runEvents, List.foldl_append]
    exact hstep

end Runs

/-- In every run over a directory without log files, with restarts, an entry of typed
inputs conforms exactly when something was logged before it and its risk score, if
any, is in range. -/
theorem conforms_iff {N : Type} [SchemaNumber N] [DecidableEq N] (H : String → String)
    (hH : Sha256Hex H) (dir : LogDir) (hdir : ∀ f ∈ dir.rows, isJsonl f.1 = false)
    (es : List (LogEvent N)) (format : StandardLogFormat N) (now now' : Instant)
    (hformat : Typed format) (hnow : OnCalendar now) :
    Conforms (log H format now now' (runEvents H (onModuleInit N dir, dir) es)).1 ↔
      (∃ e ∈ es, e.isLog = true) ∧ RiskInRange format := by
  have hhead := (headed_run hH hdir es).head
  refine (conforms_newEntry hH hformat hnow).trans ?_
  rw [hhead]

section FirstLogin

/-- The digests of the two entries below. -/
def digests (s : String) : String :=
  if s.toList.head? = some 'G' then
    "42f8dfaaf1c5a90f21b08b54aba98cbeeb3fd21b1454aa03c04847248fd422a0"
  else "3e9070a4d38124d0dd6226c84c6417de9c8f06850654196f658d5c8fc3d1ace3"

theorem sha256Hex_digests : Sha256Hex digests := by
  intro s
  rw [digests]
  split <;> rfl

/-- A login or a logout, with a risk score. -/
def session (action : String) : StandardLogFormat ℕ :=
  ⟨none, "iam-service", "u1", action, "SUCCESS", "::1", none, none,
    some ⟨.obj [("riskScore", .num 40)], ⟨by simp, by simp⟩, trivial, trivial⟩⟩

theorem typed_session {action : String} (h : action ≠ "") : Typed (session action) where
  timestamp := by simp [session]
  service := by simp [session, validServices]
  action := h
  result := by simp [session, validResults]
  device := by simp [session]
  geo := by simp [session]
  metadata v hv := by
    obtain rfl := Option.some.inj hv
    rfl

/-- The first entry names a `previousHash` the schema refuses, and the validator does
not look at it. -/
theorem first_entry_rejected : Sha256Hex digests ∧ Typed (session "LOGIN") ∧ OnCalendar morning ∧
    let s := runEvents digests (onModuleInit ℕ Table.empty, Table.empty) ([] : List (LogEvent ℕ))
    let entry := (log digests (session "LOGIN") morning morning s).1
    entry.previousHash = "GENESIS" ∧ (validateLogEntry (some entry.json)).valid = true ∧
      logSchema.accepts entry.json = false ∧ ¬ Conforms entry := by
  have htyped : Typed (session "LOGIN") := typed_session (by decide)
  have hcalendar : OnCalendar morning := rfl
  have hrefused : ¬ logSchema.accepts (newEntry digests (onModuleInit ℕ Table.empty)
      (session "LOGIN") morning).json = true := by
    rw [accepts_newEntry sha256Hex_digests htyped hcalendar]
    rintro ⟨hpattern, -⟩
    cases hpattern
  refine ⟨sha256Hex_digests, htyped, hcalendar, rfl, ?_, ?_, ?_⟩
  · exact validate_newEntry sha256Hex_digests htyped hcalendar
  · exact Bool.eq_false_iff.mpr hrefused
  · exact fun h => hrefused h.1

theorem conforms_iff_logout :
    Conforms (log digests (session "LOGOUT") nextMorning nextMorning
      (runEvents digests (onModuleInit ℕ Table.empty, Table.empty)
        [.log (session "LOGIN") morning morning, .restart])).1 ↔
      (∃ e ∈ [LogEvent.log (session "LOGIN") morning morning, .restart], e.isLog = true) ∧
        RiskInRange (session "LOGOUT") :=
  conforms_iff digests sha256Hex_digests Table.empty (by simp [Table.empty]) _ (session "LOGOUT")
    nextMorning nextMorning (typed_session (by decide)) rfl

end FirstLogin

end VerdeAuth.LogConformance
