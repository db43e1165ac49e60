import VerdeAuth.JsonLogFormat

/-!
# Validators of log entries

`validateLogEntry` and the `process` script of Filebeat check parts of what the
schema of the log format describes. An entry that the validator accepts may break
any other clause, and an event without a hash is marked as valid.
-/

namespace VerdeAuth.EntryValidators

open JsonTexts JsonSchemas DateTimes JsonLogFormat

variable {N : Type} {e : Json N} {k : String}

theorem members_of_get? {v : Json N} (h : e.get? k = some v) : ∃ ps, e = .obj ps := by
  cases e with
  | obj ps => exact ⟨ps, rfl⟩
  | _ => cases h

/-- The enumerated properties have one of their values. -/
structure Enumerated (e : Json N) : Prop where
  service : ∃ s ∈ validServices, e.get? "service" = some (.str s)
  result : ∃ s ∈ validResults, e.get? "result" = some (.str s)
  hashAlgorithm : e.get? "hashAlgorithm" = some (.str "SHA-256")

section Validator

variable [JsNumber N] [DecidableEq N] {values : List String}

/-- The other required properties have a truthy value. -/
structure Filled (e : Json N) : Prop where
  timestamp : Json.truthy (e.get? "timestamp") = true
  action : Json.truthy (e.get? "action") = true
  hash : Json.truthy (e.get? "hash") = true

theorem requiredError_eq_nil : requiredError e k = [] ↔ Json.truthy (e.get? k) = true := by
  rw [requiredError]
  split <;> simp_all

/-- A property that is required and one of some texts, none of them empty. -/
theorem enumError_eq_nil (hvalues : "" ∉ values) :
    (requiredError e k = [] ∧ enumError e k values = []) ↔
      ∃ s ∈ values, e.get? k = some (.str s) := by
  rw [requiredError_eq_nil]
  constructor
  · rintro ⟨htruthy, herror⟩
    rw [enumError, htruthy, Bool.true_and] at herror
    split at herror
    · cases herror
    · next hany =>
      rw [Bool.not_eq_true', Bool.not_eq_false] at hany
      obtain ⟨s, hs, hget⟩ := List.any_eq_true.mp hany
      exact ⟨s, hs, Json.strictEq_str_iff.mp hget⟩
  · rintro ⟨s, hs, hget⟩
    have hne : s ≠ "" := by
      intro hempty
      exact hvalues (hempty ▸ hs)
    rw [enumError, hget]
    simpa [Json.truthy, hne, Json.strictEq] using hs

theorem algorithmError_eq_nil :
    (requiredError e "hashAlgorithm" = [] ∧ algorithmError e = []) ↔
      e.get? "hashAlgorithm" = some (.str "SHA-256") := by
  rw [requiredError_eq_nil]
  constructor
  · rintro ⟨htruthy, herror⟩
    rw [algorithmError, htruthy, Bool.true_and] at herror
    split at herror
    · cases herror
    · next heq =>
      rw [Bool.not_eq_true', Bool.not_eq_false] at heq
      exact Json.strictEq_str_iff.mp heq
  · intro hget
    rw [algorithmError, hget]
    exact ⟨rfl, rfl⟩

theorem entryErrors_eq_nil : entryErrors e = [] ↔ Enumerated e ∧ Filled e := by
  have hservice : (requiredError e "service" = [] ∧ enumError e "service" validServices = []) ↔
      ∃ s ∈ validServices, e.get? "service" = some (.str s) := enumError_eq_nil (by decide)
  have hresult : (requiredError e "result" = [] ∧ enumError e "result" validResults = []) ↔
      ∃ s ∈ validResults, e.get? "result" = some (.str s) := enumError_eq_nil (by decide)
  simp only [entryErrors, List.append_eq_nil_iff, List.flatMap_eq_nil_iff, List.forall_mem_cons]
  constructor
  · rintro ⟨⟨⟨⟨htime, hs, ha, hr, hh, hg, -⟩, hs'⟩, hr'⟩, hg'⟩
    exact ⟨⟨hservice.mp ⟨hs, hs'⟩, hresult.mp ⟨hr, hr'⟩, algorithmError_eq_nil.mp ⟨hg, hg'⟩⟩,
      requiredError_eq_nil.mp htime, requiredError_eq_nil.mp ha, requiredError_eq_nil.mp hh⟩
  · rintro ⟨⟨hs, hr, hg⟩, htime, ha, hh⟩
    obtain ⟨hs, hs'⟩ := hservice.mpr hs
    obtain ⟨hr, hr'⟩ := hresult.mpr hr
    obtain ⟨hg, hg'⟩ := algorithmError_eq_nil.mpr hg
    exact ⟨⟨⟨⟨requiredError_eq_nil.mpr htime, hs, requiredError_eq_nil.mpr ha, hr,
      requiredError_eq_nil.mpr hh, hg, by simp⟩, hs'⟩, hr'⟩, hg'⟩

/-- What the validator checks. -/
theorem valid_iff : (validateLogEntry (some e)).valid = true ↔ Enumerated e ∧ Filled e := by
  rw [validateLogEntry, ← entryErrors_eq_nil]
  split
  · next hrejected =>
    refine iff_of_false Bool.false_ne_true fun herrors => ?_
    obtain ⟨ps, rfl⟩ := members_of_get? (entryErrors_eq_nil.mp herrors).1.hashAlgorithm
    simp [Json.truthy, isObject] at hrejected
  · exact List.isEmpty_iff

end Validator

section Clauses

variable [SchemaNumber N]

/-- The clauses of the schema that only it has. -/
structure Described (e : Json N) : Prop where
  timestamp : ∃ s, e.get? "timestamp" = some (.str s) ∧ isDateTime s.toList = true
  action : ∃ s, e.get? "action" = some (.str s)
  hash : ∃ s, e.get? "hash" = some (.str s) ∧ sha256Pattern s.toList = true
  user : AcceptsAt e "user" stringSchema
  ip : AcceptsAt e "ip" stringSchema
  device : AcceptsAt e "device" deviceSchema
  geo : AcceptsAt e "geo" geoSchema
  metadata : AcceptsAt e "metadata" metadataSchema
  previousHash : AcceptsAt e "previousHash" (.scalar .string [.pattern sha256Pattern])
  logSequenceNumber : AcceptsAt e "logSequenceNumber" (.scalar .integer [.minimum 1])

/-- A property that is required and a text. -/
theorem requiredText_iff {assertions : List Assertion} :
    (e.get? k ≠ none ∧ AcceptsAt e k (.scalar .string assertions)) ↔
      ∃ s, e.get? k = some (.str s) ∧ (assertions.all fun a => a.holds (.str s : Json N)) = true := by
  constructor
  · rintro ⟨hsome, haccepts⟩
    obtain ⟨v, hv⟩ := Option.ne_none_iff_exists'.mp hsome
    have hvalue := haccepts v hv
    cases v with
    | str s => exact ⟨s, hv, by rwa [accepts_string] at hvalue⟩
    | _ => simp [Schema.accepts, ScalarType.holds] at hvalue
  · rintro ⟨s, hget, hall⟩
    refine ⟨by simp [hget], (acceptsAt_some hget).mpr ?_⟩
    rw [accepts_string]
    exact hall

theorem requiredEnum_iff {values : List String} :
    (e.get? k ≠ none ∧ AcceptsAt e k (.scalar .string [.enum values])) ↔
      ∃ s ∈ values, e.get? k = some (.str s) := by
  rw [requiredText_iff]
  simp [Assertion.holds, and_comm]

theorem requiredConst_iff {c : String} :
    (e.get? k ≠ none ∧ AcceptsAt e k (.scalar .string [.const c])) ↔
      e.get? k = some (.str c) := by
  rw [requiredText_iff]
  simp [Assertion.holds]

theorem requiredPattern_iff {regex : List Char → Bool} :
    (e.get? k ≠ none ∧ AcceptsAt e k (.scalar .string [.pattern regex])) ↔
      ∃ s, e.get? k = some (.str s) ∧ regex s.toList = true := by
  rw [requiredText_iff]
  simp [Assertion.holds]

theorem requiredFormat_iff {grammar : List Char → Bool} :
    (e.get? k ≠ none ∧ AcceptsAt e k (.scalar .string [.format grammar])) ↔
      ∃ s, e.get? k = some (.str s) ∧ grammar s.toList = true := by
  rw [requiredText_iff]
  simp [Assertion.holds]

theorem requiredString_iff :
    (e.get? k ≠ none ∧ AcceptsAt e k stringSchema) ↔ ∃ s, e.get? k = some (.str s) := by
  rw [stringSchema, requiredText_iff]
  simp

/-- What the schema describes. -/
theorem accepts_iff : logSchema.accepts e = true ↔ Enumerated e ∧ Described e := by
  constructor
  · intro haccepts
    obtain ⟨ps, rfl⟩ := exists_members haccepts
    obtain ⟨hrequired, hproperties⟩ := accepts_object.mp haccepts
    simp only [List.forall_mem_cons] at hrequired hproperties
    obtain ⟨htime, hservice, haction, hresult, hhash, halgorithm, -⟩ := hrequired
    obtain ⟨htime', hservice', huser, haction', hresult', hip, hdevice, hgeo, hmetadata, hhash',
      halgorithm', hprevious, hnumber, -⟩ := hproperties
    constructor
    · exact ⟨requiredEnum_iff.mp ⟨hservice, hservice'⟩, requiredEnum_iff.mp ⟨hresult, hresult'⟩,
        requiredConst_iff.mp ⟨halgorithm, halgorithm'⟩⟩
    · exact ⟨requiredFormat_iff.mp ⟨htime, htime'⟩, requiredString_iff.mp ⟨haction, haction'⟩,
        requiredPattern_iff.mp ⟨hhash, hhash'⟩, huser, hip, hdevice, hgeo, hmetadata, hprevious,
        hnumber⟩
  · rintro ⟨henum, hdescribed⟩
    obtain ⟨ps, rfl⟩ := members_of_get? henum.hashAlgorithm
    obtain ⟨hservice, hservice'⟩ := requiredEnum_iff.mpr henum.service
    obtain ⟨hresult, hresult'⟩ := requiredEnum_iff.mpr henum.result
    obtain ⟨halgorithm, halgorithm'⟩ := requiredConst_iff.mpr henum.hashAlgorithm
    obtain ⟨htime, htime'⟩ := requiredFormat_iff.mpr hdescribed.timestamp
    obtain ⟨haction, haction'⟩ := requiredString_iff.mpr hdescribed.action
    obtain ⟨hhash, hhash'⟩ := requiredPattern_iff.mpr hdescribed.hash
    rw [logSchema, accepts_object]
    simp only [List.forall_mem_cons]
    exact ⟨⟨htime, hservice, haction, hresult, hhash, halgorithm, by simp⟩, htime', hservice',
      hdescribed.user, haction', hresult', hdescribed.ip, hdescribed.device, hdescribed.geo,
      hdescribed.metadata, hhash', halgorithm', hdescribed.previousHash,
      hdescribed.logSequenceNumber, by simp⟩

/-- The clauses of the schema about the hash. -/
def hashSchema : Schema :=
  .object ["hash", "hashAlgorithm"]
    [("hash", .scalar .string [.pattern sha256Pattern]),
      ("hashAlgorithm", .scalar .string [.const "SHA-256"])]

theorem accepts_hashSchema_iff {ps : Members N} : hashSchema.accepts (.obj ps) = true ↔
    (∃ s, (Json.obj ps).get? "hash" = some (.str s) ∧ sha256Pattern s.toList = true) ∧
      (Json.obj ps).get? "hashAlgorithm" = some (.str "SHA-256") := by
  rw [hashSchema, accepts_object, ← requiredPattern_iff, ← requiredConst_iff]
  simp only [List.forall_mem_cons, List.not_mem_nil, false_implies, implies_true, and_true]
  exact and_and_and_comm

end Clauses

section Agreement

variable [SchemaNumber N] [DecidableEq N]

/-- The validator accepts the entry, which breaks a clause it does not check. -/
def Unchecked (e : Json N) : Prop := Enumerated e ∧ Filled e ∧ ¬ Described e

/-- The schema accepts the entry, whose action is the empty text. -/
def Unnamed (e : Json N) : Prop :=
  Enumerated e ∧ Described e ∧ e.get? "action" = some (.str "")

theorem filled_iff (h : Described e) : Filled e ↔ e.get? "action" ≠ some (.str "") := by
  obtain ⟨t, ht, hdate⟩ := h.timestamp
  obtain ⟨a, ha⟩ := h.action
  obtain ⟨d, hd, hdigest⟩ := h.hash
  have htime : t ≠ "" := by
    rintro rfl
    cases hdate
  have hhash : d ≠ "" := by
    rintro rfl
    cases hdigest
  constructor
  · intro hfilled hempty
    have haction := hfilled.action
    rw [hempty] at haction
    simp [Json.truthy] at haction
  · intro hne
    have haction : a ≠ "" := by
      rintro rfl
      exact hne ha
    exact ⟨by simp [ht, Json.truthy, htime], by simp [ha, Json.truthy, haction],
      by simp [hd, Json.truthy, hhash]⟩

theorem validator_agrees_iff (e : Json N) :
    ((validateLogEntry (some e)).valid = true ↔ logSchema.accepts e = true) ↔
      ¬ Unchecked e ∧ ¬ Unnamed e := by
  rw [valid_iff, accepts_iff]
  by_cases henum : Enumerated e
  · by_cases hdescribed : Described e
    · have hfilled := filled_iff hdescribed
      simp [Unchecked, Unnamed, henum, hdescribed, hfilled]
    · simp [Unchecked, Unnamed, henum, hdescribed]
  · simp [Unchecked, Unnamed, henum]

end Agreement

section Ingest

/-- `evt.Put` of the two results. -/
def mark (evt : Members N) (valid : Bool) (error : Json N) : Members N :=
  setMember (setMember evt "hash_valid" (.bool valid)) "hash_validation_error" error

theorem get?_mark (evt : Members N) (valid : Bool) (error : Json N) :
    (Json.obj (mark evt valid error)).get? "hash_valid" = some (.bool valid) := by
  simp [mark, Json.get?_setMember]

variable [SchemaNumber N] [DecidableEq N] {ingestTime : String} {evt : Members N}

/-- `process` of `validate-hash.js`: the event it leaves, at the time of the call;
`none` is a TypeError. -/
def process (ingestTime : String) (evt : Members N) : Option (Members N) :=
  let hash := (Json.obj evt).get? "hash"
  let hashAlgorithm := (Json.obj evt).get? "hashAlgorithm"
  if !Json.truthy hash || Json.strictEq hash (some (.str "")) ||
      Json.strictEq hash (some (.str "GENESIS")) then
    some (mark evt true (.str "no_hash_present"))
  else if !Json.strictEq hashAlgorithm (some (.str "SHA-256")) then
    some (mark evt false (.str "unsupported_algorithm"))
  else
    (Json.templateText hash).map fun text =>
      if !sha256Pattern text.toList then mark evt false (.str "invalid_hash_format")
      else setMember (setMember (mark evt true .null) "siem_ingest_time" (.str ingestTime))
        "log_integrity" (.str "signed")

/-- The script takes the event to have a hash. -/
def Hashed (evt : Members N) : Prop :=
  Json.truthy ((Json.obj evt).get? "hash") = true ∧
    (Json.obj evt).get? "hash" ≠ some (.str "GENESIS")

/-- The hash, or what it is converted to, reads like a digest. -/
def ReadsDigest (evt : Members N) : Prop :=
  ∃ text, Json.templateText ((Json.obj evt).get? "hash") = some text ∧
    sha256Pattern text.toList = true

/-- The script sets `hash_valid` to `true`. -/
def Validates (ingestTime : String) (evt : Members N) : Prop :=
  ∃ evt', process ingestTime evt = some evt' ∧
    (Json.obj evt').get? "hash_valid" = some (.bool true)

theorem skipped_iff : (!Json.truthy ((Json.obj evt).get? "hash") ||
      Json.strictEq ((Json.obj evt).get? "hash") (some (.str "")) ||
      Json.strictEq ((Json.obj evt).get? "hash") (some (.str "GENESIS"))) = true ↔ ¬ Hashed evt := by
  rw [Bool.or_eq_true, Bool.or_eq_true, Json.strictEq_str_iff, Json.strictEq_str_iff, Hashed,
    Bool.not_eq_true']
  constructor
  · rintro ((hfalsy | hempty) | hgenesis) ⟨htruthy, hne⟩
    · rw [hfalsy] at htruthy
      cases htruthy
    · rw [hempty] at htruthy
      simp [Json.truthy] at htruthy
    · exact hne hgenesis
  · intro h
    by_cases htruthy : Json.truthy ((Json.obj evt).get? "hash") = true
    · exact .inr (not_not.mp fun hne => h ⟨htruthy, hne⟩)
    · exact .inl (.inl (Bool.eq_false_iff.mpr htruthy))

theorem process_skipped (h : ¬ Hashed evt) :
    process ingestTime evt = some (mark evt true (.str "no_hash_present")) :=
  if_pos (skipped_iff.mpr h)

theorem process_unsupported (h : Hashed evt)
    (halg : (Json.obj evt).get? "hashAlgorithm" ≠ some (.str "SHA-256")) :
    process ingestTime evt = some (mark evt false (.str "unsupported_algorithm")) := by
  have hskip := skipped_iff.not.mpr (not_not.mpr h)
  have hother := Bool.eq_false_iff.mpr (Json.strictEq_str_iff.not.mpr halg)
  rw [process, if_neg hskip, hother]
  rfl

theorem process_hashed (h : Hashed evt)
    (halg : (Json.obj evt).get? "hashAlgorithm" = some (.str "SHA-256")) :
    process ingestTime evt = (Json.templateText ((Json.obj evt).get? "hash")).map fun text =>
      if !sha256Pattern text.toList then mark evt false (.str "invalid_hash_format")
      else setMember (setMember (mark evt true .null) "siem_ingest_time" (.str ingestTime))
        "log_integrity" (.str "signed") := by
  have hskip := skipped_iff.not.mpr (not_not.mpr h)
  rw [process, if_neg hskip, halg]
  rfl

theorem validates_iff : Validates ingestTime evt ↔ ¬ Hashed evt ∨
    (Json.obj evt).get? "hashAlgorithm" = some (.str "SHA-256") ∧ ReadsDigest evt := by
  by_cases hh : Hashed evt
  · rw [or_iff_right (not_not.mpr hh)]
    by_cases halg : (Json.obj evt).get? "hashAlgorithm" = some (.str "SHA-256")
    · rw [Validates, process_hashed hh halg, and_iff_right halg, ReadsDigest]
      cases Json.templateText ((Json.obj evt).get? "hash") with
      | none => simp
      | some text =>
        cases hpattern : sha256Pattern text.toList with
        | true => simp [hpattern, Json.get?_setMember, get?_mark]
        | false => simp [hpattern, get?_mark]
    · rw [Validates, process_unsupported hh halg]
      refine iff_of_false ?_ fun h => halg h.1
      rintro ⟨evt', hevt, hvalid⟩
      rw [← Option.some.inj hevt, get?_mark] at hvalid
      cases hvalid
  · exact iff_of_true ⟨_, process_skipped hh, get?_mark evt true _⟩ (.inl hh)

/-- The hash is no text, and what it is converted to reads like a digest. -/
def Coerced (evt : Members N) : Prop :=
  ReadsDigest evt ∧ ∀ s, (Json.obj evt).get? "hash" ≠ some (.str s)

theorem not_described_of_skipped (h : ¬ Hashed evt) : hashSchema.accepts (.obj evt) = false := by
  rw [← Bool.not_eq_true, accepts_hashSchema_iff]
  rintro ⟨⟨s, hs, hdigest⟩, -⟩
  have hne : s ≠ "" := by
    rintro rfl
    cases hdigest
  refine h ⟨by simp [hs, Json.truthy, hne], ?_⟩
  rw [hs]
  rintro hgenesis
  obtain rfl := Json.str.inj (Option.some.inj hgenesis)
  cases hdigest

/-- What it takes for a hash that the script validates to be one the schema describes. -/
theorem validates_described_iff (ingestTime : String) (evt : Members N) :
    (Validates ingestTime evt → hashSchema.accepts (.obj evt) = true) ↔
      Hashed evt ∧ ((Json.obj evt).get? "hashAlgorithm" = some (.str "SHA-256") → ¬ Coerced evt) := by
  rw [validates_iff]
  by_cases hh : Hashed evt
  · rw [or_iff_right (not_not.mpr hh), and_iff_right hh, accepts_hashSchema_iff]
    constructor
    · rintro h halg ⟨hreads, hnotext⟩
      obtain ⟨⟨s, hs, -⟩, -⟩ := h ⟨halg, hreads⟩
      exact hnotext s hs
    · rintro h ⟨halg, hreads⟩
      refine ⟨?_, halg⟩
      by_contra hnone
      refine h halg ⟨hreads, fun s hs => hnone ⟨s, hs, ?_⟩⟩
      obtain ⟨text, htext, hdigest⟩ := hreads
      rw [hs] at htext
      obtain rfl : s = text := Option.some.inj htext
      exact hdigest
  · have hrejected := not_described_of_skipped hh
    simp [hh, hrejected]

/-- The two validators accept what the schema describes exactly for these entries and
events. -/
theorem validators_agree_iff :
    (∀ e : Json N, ((validateLogEntry (some e)).valid = true ↔ logSchema.accepts e = true) ↔
      ¬ Unchecked e ∧ ¬ Unnamed e) ∧
    ∀ (ingestTime : String) (evt : Members N),
      (Validates ingestTime evt → hashSchema.accepts (.obj evt) = true) ↔
        Hashed evt ∧
          ((Json.obj evt).get? "hashAlgorithm" = some (.str "SHA-256") → ¬ Coerced evt) :=
  ⟨validator_agrees_iff, validates_described_iff⟩

end Ingest

section Divergences

/-- An entry whose hash is no digest. -/
def forgedEntry : Json ℕ :=
  .obj [("timestamp", .str "2025-06-30T09:00:00.000Z"), ("service", .str "iam-service"),
    ("action", .str "LOGIN"), ("result", .str "SUCCESS"), ("hash", .str "abc"),
    ("hashAlgorithm", .str "SHA-256")]

/-- An event without a hash. -/
def bareEvent : Members ℕ := [("action", .str "LOGIN")]

/-- The validator accepts the one, the script marks the other as valid. -/
theorem validators_disagree :
    (validateLogEntry (some forgedEntry)).valid = true ∧ logSchema.accepts forgedEntry = false ∧
    process "2025-06-30T09:00:00.000Z" bareEvent =
      some [("action", .str "LOGIN"), ("hash_valid", .bool true),
        ("hash_validation_error", .str "no_hash_present")] ∧
    hashSchema.accepts (.obj bareEvent) = false :=
  ⟨by rfl, by rfl, by rfl, by rfl⟩

end Divergences

end VerdeAuth.EntryValidators
