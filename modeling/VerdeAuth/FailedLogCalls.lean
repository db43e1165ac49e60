import VerdeAuth.SiemRangeVerification

/-!
# Calls of the logger that throw

The metadata of an entry may be a value that cannot be serialised. The call then
throws where the hash is computed, after the sequence number was advanced.
-/

namespace VerdeAuth.FailedLogCalls

open HashChains JsonTexts KeyedTables SiemLoggerService LogEntryLines SiemChainIntegrity
open HexDigests SiemRangeVerification

/-- A value as `JSON.stringify` meets it. Functions count as `undefined`, numbers that are
not finite as `null`; `enclosing` is a reference to an object around it. -/
inductive JsValue (N : Type) where
  | undefined
  | null
  | bool (b : Bool)
  | num (n : N)
  | str (s : String)
  | bigint (n : ℤ)
  | arr (xs : List (JsValue N))
  | obj (ps : List (String × JsValue N))
  | enclosing (depth : ℕ)
  /-- An object whose `toJSON` throws. -/
  | throwing

namespace JsValue

variable {N : Type}

mutual

/-- The JSON that is written; `none` is a TypeError, `some none` is `undefined`. -/
def toJson : JsValue N → Option (Option (Json N))
  | .undefined => some none
  | .null => some (some .null)
  | .bool b => some (some (.bool b))
  | .num n => some (some (.num n))
  | .str s => some (some (.str s))
  | .bigint _ => none
  | .arr xs => (elems xs).map fun vs => some (.arr vs)
  | .obj ps => (members ps).map fun ms => some (.obj (ofMembers ms))
  | .enclosing _ => none
  | .throwing => none

/-- In an array, `undefined` is written as `null`. -/
def elems : List (JsValue N) → Option (List (Json N))
  | [] => some []
  | x :: xs => do
    let v ← toJson x
    let vs ← elems xs
    return v.getD .null :: vs

/-- In an object, `undefined` is left out. -/
def members : List (String × JsValue N) → Option (Members N)
  | [] => some []
  | (k, x) :: ps => do
    let v ← toJson x
    let ms ← members ps
    return match v with
      | none => ms
      | some v => (k, v) :: ms

end

mutual

theorem wf_toJson : ∀ (x : JsValue N) {v : Json N}, x.toJson = some (some v) → v.Wf
  | .arr xs, v, h => by
    rw [toJson, Option.map_eq_some_iff] at h
    obtain ⟨vs, hvs, h⟩ := h
    rw [← Option.some.inj h]
    exact wf_elems xs hvs
  | .obj ps, v, h => by
    rw [toJson, Option.map_eq_some_iff] at h
    obtain ⟨ms, hms, h⟩ := h
    rw [← Option.some.inj h]
    refine ⟨ordered_ofMembers ms, Json.wfMembers_iff.mpr fun p hp => ?_⟩
    exact wf_members ps hms p (mem_of_mem_ofMembers hp)
  | .null, v, h => by cases h; trivial
  | .bool _, v, h => by cases h; trivial
  | .num _, v, h => by cases h; trivial
  | .str _, v, h => by cases h; trivial
  | .undefined, v, h => by cases h
  | .bigint _, v, h => by cases h
  | .enclosing _, v, h => by cases h
  | .throwing, v, h => by cases h

theorem wf_elems : ∀ (xs : List (JsValue N)) {vs : List (Json N)}, elems xs = some vs →
    Json.WfElems vs
  | [], vs, h => by cases h; trivial
  | x :: xs, vs, h => by
    rw [elems] at h
    obtain ⟨v, hv, h⟩ := Option.bind_eq_some_iff.mp h
    obtain ⟨ws, hws, h⟩ := Option.bind_eq_some_iff.mp h
    rw [← Option.some.inj h]
    refine ⟨?_, wf_elems xs hws⟩
    cases v with
    | none => trivial
    | some v => exact wf_toJson x hv

theorem wf_members : ∀ (ps : List (String × JsValue N)) {ms : Members N}, members ps = some ms →
    ∀ p ∈ ms, p.2.Wf
  | [], ms, h => by cases h; simp
  | (k, x) :: ps, ms, h => by
    rw [members] at h
    obtain ⟨v, hv, h⟩ := Option.bind_eq_some_iff.mp h
    obtain ⟨ns, hns, h⟩ := Option.bind_eq_some_iff.mp h
    rw [← Option.some.inj h]
    have hrest := wf_members ps hns
    cases v with
    | none => exact hrest
    | some v =>
      intro p hp
      rcases List.mem_cons.mp hp with rfl | hp
      · exact wf_toJson x hv
      · exact hrest p hp

end

/-- What is written of the value, as a value of an entry. -/
def written (x : JsValue N) : Option (Option (JsonValue N)) :=
  match h : x.toJson with
  | none => none
  | some none => some none
  | some (some v) => some (some ⟨v, wf_toJson x h⟩)

end JsValue

section Logger

/-- The argument of a call, with metadata of any kind. -/
structure LogInput (N : Type) where
  timestamp : Option String
  service : String
  user : String
  action : String
  result : String
  ip : String
  device : Option (JsonValue N)
  geo : Option (JsonValue N)
  metadata : Option (JsValue N)

variable {N : Type}

/-- The metadata as it is written; `none` is a TypeError. -/
def LogInput.writtenMetadata (i : LogInput N) : Option (Option (JsonValue N)) :=
  match i.metadata with
  | none => some none
  | some x => x.written

def LogInput.format (i : LogInput N) (metadata : Option (JsonValue N)) : StandardLogFormat N :=
  ⟨i.timestamp, i.service, i.user, i.action, i.result, i.ip, i.device, i.geo, metadata⟩

/-- A call, with the clock where it stamps the entry and where it writes the line. -/
structure LogCall (N : Type) where
  input : LogInput N
  now : Instant
  now' : Instant

def LogCall.readings (c : LogCall N) : List Instant := [c.now, c.now']

/-- The entry of the call can be serialised. -/
def LogCall.succeeds (c : LogCall N) : Bool := c.input.writtenMetadata.isSome

variable [JsNumber N]

/-- `log` for any metadata: where `computeHash` throws there is no entry. -/
def logCall (H : String → String) (c : LogCall N) (s : SiemLogger × LogDir) :
    Option (LogEntry N) × (SiemLogger × LogDir) :=
  let l := { s.1 with sequenceNumber := s.1.sequenceNumber + 1 }
  match c.input.writtenMetadata with
  | none => (none, (l, s.2))
  | some metadata =>
    let format := c.input.format metadata
    let stamped := { format with timestamp := some (stamp format.timestamp c.now) }
    let hash := computeHash H l.lastHash stamped.properties
    let fullEntry : LogEntry N :=
      { stamped with
        hash := hash
        hashAlgorithm := "SHA-256"
        previousHash := l.lastHash
        logSequenceNumber := l.sequenceNumber }
    let l := { l with
      lastHash := hash
      hashCache := l.hashCache ++ [(l.sequenceNumber, hash)] }
    (some fullEntry, writeLog fullEntry c.now' (l, s.2))

def runCalls (H : String → String) (s : SiemLogger × LogDir) (cs : List (LogCall N)) :
    SiemLogger × LogDir := cs.foldl (fun s c => (logCall H c s).2) s

variable {H : String → String} {c : LogCall N} {s : SiemLogger × LogDir}

/-- A call whose metadata is JSON is the call of `log` it looks like. -/
theorem logCall_written {metadata : Option (JsonValue N)}
    (h : c.input.writtenMetadata = some metadata) :
    logCall H c s = (some (newEntry H s.1 (c.input.format metadata) c.now),
      (log H (c.input.format metadata) c.now c.now' s).2) := by
  rw [logCall, h]
  rfl

/-- A call that throws has advanced the sequence number, and done nothing else. -/
theorem logCall_throws (h : c.succeeds = false) :
    logCall H c s = (none, ({ s.1 with sequenceNumber := s.1.sequenceNumber + 1 }, s.2)) := by
  have hnone : c.input.writtenMetadata = none := by
    rw [LogCall.succeeds] at h
    exact Option.isNone_iff_eq_none.mp (by simpa using h)
  rw [logCall, hnone]

theorem sequenceNumber_logCall :
    (logCall H c s).2.1.sequenceNumber = s.1.sequenceNumber + 1 := by
  cases h : c.input.writtenMetadata with
  | none =>
    rw [logCall, h]
  | some metadata =>
    rw [logCall_written h]
    rfl

end Logger

section Numbers

variable {N : Type}

/-- The numbers of the entries that a run logs after the number `n`. -/
def loggedNumbers : ℕ → List (LogCall N) → List ℕ
  | _, [] => []
  | n, c :: cs => if c.succeeds then (n + 1) :: loggedNumbers (n + 1) cs else loggedNumbers (n + 1) cs

/-- Once a call has thrown after one that did not, every later call throws. -/
def Gapless (cs : List (LogCall N)) : Prop :=
  ∀ c ∈ (cs.dropWhile fun c => !c.succeeds).dropWhile LogCall.succeeds, c.succeeds = false

theorem loggedNumbers_gt {n k : ℕ} {cs : List (LogCall N)} (h : k ∈ loggedNumbers n cs) : n < k := by
  induction cs generalizing n with
  | nil => contradiction
  | cons c cs ih =>
    rw [loggedNumbers] at h
    split at h
    · rcases List.mem_cons.mp h with rfl | h
      · exact Nat.lt_succ_self n
      · have hlt := ih h
        omega
    · have hlt := ih h
      omega

theorem loggedNumbers_eq_nil {n : ℕ} {cs : List (LogCall N)} :
    loggedNumbers n cs = [] ↔ ∀ c ∈ cs, c.succeeds = false := by
  induction cs generalizing n with
  | nil => simp [loggedNumbers]
  | cons c cs ih =>
    cases hc : c.succeeds with
    | true => simp [loggedNumbers, hc]
    | false => simp [loggedNumbers, hc, ih]

/-- After an entry the numbers go on without a gap where nothing is logged after a failure. -/
theorem isChain_cons_loggedNumbers {n : ℕ} {cs : List (LogCall N)} :
    (n :: loggedNumbers n cs).IsChain (fun a b => b = a + 1) ↔
      ∀ c ∈ cs.dropWhile LogCall.succeeds, c.succeeds = false := by
  induction cs generalizing n with
  | nil => simp [loggedNumbers]
  | cons c cs ih =>
    cases hc : c.succeeds with
    | true =>
      rw [loggedNumbers, if_pos hc, List.isChain_cons_cons, ih, List.dropWhile_cons_of_pos hc]
      exact and_iff_right rfl
    | false =>
      have hnot : ¬ c.succeeds = true := by simp [hc]
      rw [loggedNumbers, if_neg hnot, List.dropWhile_cons_of_neg hnot, ← loggedNumbers_eq_nil,
        loggedNumbers, if_neg hnot]
      cases hrest : loggedNumbers (n + 1) cs with
      | nil => simp
      | cons k ks =>
        have hgt := loggedNumbers_gt (hrest ▸ List.mem_cons_self : k ∈ loggedNumbers (n + 1) cs)
        refine iff_of_false (fun h => ?_) (List.cons_ne_nil k ks)
        have heq := (List.isChain_cons_cons.mp h).1
        omega

theorem isChain_loggedNumbers {n : ℕ} {cs : List (LogCall N)} :
    (loggedNumbers n cs).IsChain (fun a b => b = a + 1) ↔ Gapless cs := by
  induction cs generalizing n with
  | nil => simp [loggedNumbers, Gapless]
  | cons c cs ih =>
    cases hc : c.succeeds with
    | true =>
      rw [loggedNumbers, if_pos hc, isChain_cons_loggedNumbers, Gapless,
        List.dropWhile_cons_of_neg (by simp [hc]), List.dropWhile_cons_of_pos hc]
    | false =>
      rw [loggedNumbers, if_neg (by simp [hc]), ih, Gapless, Gapless,
        List.dropWhile_cons_of_pos (by simp [hc])]

end Numbers

section Runs

variable {N : Type} [JsNumber N] {H : String → String} {s : SiemLogger × LogDir} {days : Days N}

/-- What a run leaves on disk: the entries that were there, then those it logged. -/
theorem filed_runCalls (cs : List (LogCall N)) (h : Filed s.2 days)
    (hclock : (cs.flatMap LogCall.readings).Pairwise fun t t' => t.dateKey ≤ t'.dateKey)
    (hdays : ∀ d ∈ days, ∀ t ∈ cs.flatMap LogCall.readings, d.1.dateKey ≤ t.dateKey) :
    ∃ days' : Days N, Filed (runCalls H s cs).2 days' ∧
      (days'.map Prod.snd).flatten.map LogEntry.logSequenceNumber =
        (days.map Prod.snd).flatten.map LogEntry.logSequenceNumber ++
          loggedNumbers s.1.sequenceNumber cs := by
  induction cs generalizing s days with
  | nil => exact ⟨days, h, by simp [loggedNumbers]⟩
  | cons c cs ih =>
    rw [List.flatMap_cons, List.pairwise_append] at hclock
    obtain ⟨-, hclock, hlater⟩ := hclock
    have hdays' : ∀ d ∈ days, ∀ t ∈ cs.flatMap LogCall.readings, d.1.dateKey ≤ t.dateKey :=
      fun d hd t ht => hdays d hd t (List.mem_append_right _ ht)
    have hnow : ∀ d ∈ days, d.1.dateKey ≤ c.now'.dateKey := fun d hd =>
      hdays d hd c.now' (List.mem_append_left _ (by simp [LogCall.readings]))
    cases hc : c.input.writtenMetadata with
    | none =>
      have hfail : c.succeeds = false := by simp [LogCall.succeeds, hc]
      have hcall := logCall_throws (H := H) (s := s) hfail
      have hnot : ¬ c.succeeds = true := by simp [hfail]
      have hfiled : Filed (logCall H c s).2.2 days := hcall ▸ h
      obtain ⟨days', hrun, hnumbers⟩ := ih hfiled hclock hdays'
      refine ⟨days', hrun, ?_⟩
      rw [hnumbers, sequenceNumber_logCall, loggedNumbers, if_neg hnot]
    | some metadata =>
      have hsucc : c.succeeds = true := by simp [LogCall.succeeds, hc]
      have hcall := logCall_written (H := H) (s := s) hc
      obtain ⟨days₁, hfiled, hflat, hle⟩ :=
        filed_append h (newEntry H s.1 (c.input.format metadata) c.now) hnow
      have hfiled : Filed (logCall H c s).2.2 days₁ := hcall ▸ hfiled
      have hdays₁ : ∀ d ∈ days₁, ∀ t ∈ cs.flatMap LogCall.readings, d.1.dateKey ≤ t.dateKey := by
        intro d hd t ht
        have hstep := hlater c.now' (by simp [LogCall.readings]) t ht
        exact Nat.le_trans (hle d hd) hstep
      obtain ⟨days', hrun, hnumbers⟩ := ih hfiled hclock hdays₁
      refine ⟨days', hrun, ?_⟩
      rw [hnumbers, hflat, sequenceNumber_logCall, loggedNumbers, if_pos hsucc]
      simp [newEntry]

variable (N) in
/-- The sequence numbers on the lines of a directory follow on one another. -/
def ConsecutiveOnDisk (dir : LogDir) : Prop :=
  ∃ ks : List ℕ, List.Forall₂ (Numbered N) ks (logLines dir).flatten ∧
    ks.IsChain fun a b => b = a + 1

theorem numbered_filed {dir : LogDir} (h : Filed dir days) {ks : List ℕ} :
    List.Forall₂ (Numbered N) ks (logLines dir).flatten ↔
      ks = (days.map Prod.snd).flatten.map LogEntry.logSequenceNumber := by
  rw [logLines_filed h, ← List.map_flatten, List.forall₂_map_right_iff]
  generalize (days.map Prod.snd).flatten = es
  constructor
  · intro hks
    induction hks with
    | nil => rfl
    | cons hk _ ih => rw [numbered_line.mp hk, List.map_cons, ih]
  · rintro rfl
    rw [List.forall₂_map_left_iff]
    exact List.forall₂_same.mpr fun e _ => numbered_line.mpr rfl

variable [DecidableEq N]

/-- A call that throws never leaves the logger as it was. On a clock whose date does not
go back, the numbers on disk then have a gap wherever something is logged before and after. -/
theorem failed_calls (H : String → String) :
    (∀ (s : SiemLogger × LogDir) (c : LogCall N), c.succeeds = false →
      (logCall H c s).1 = none ∧ (logCall H c s).2 ≠ s ∧
        (logCall H c s).2 = ({ s.1 with sequenceNumber := s.1.sequenceNumber + 1 }, s.2)) ∧
    ∀ dir : LogDir, (∀ f ∈ dir.rows, isJsonl f.1 = false) → ∀ cs : List (LogCall N),
      (cs.flatMap LogCall.readings).Pairwise (fun t t' => t.dateKey ≤ t'.dateKey) →
      (ConsecutiveOnDisk N (runCalls H (onModuleInit N dir, dir) cs).2 ↔ Gapless cs) := by
  constructor
  · intro s c hc
    have hcall := logCall_throws (H := H) (s := s) hc
    refine ⟨congrArg Prod.fst hcall, fun hsame => ?_, congrArg Prod.snd hcall⟩
    have hseq := sequenceNumber_logCall (H := H) (c := c) (s := s)
    rw [hsame] at hseq
    omega
  · intro dir hdir cs hclock
    have hstart := intact_start (N := N) H hdir
    have hzero : (onModuleInit N dir).sequenceNumber = 0 := sequenceNumber_intact hstart
    obtain ⟨days, hfiled, hnumbers⟩ := filed_runCalls (H := H) cs hstart.toFiled hclock (by simp)
    rw [hzero] at hnumbers
    simp only [ConsecutiveOnDisk, numbered_filed hfiled, exists_eq_left]
    rw [hnumbers]
    exact isChain_loggedNumbers

section Transfer

def loginCall : LogCall ℕ :=
  ⟨⟨none, "iam", "u1", "LOGIN", "SUCCESS", "::1", none, none, none⟩, morning, morning⟩

/-- A transfer whose amount is a `BigInt`. -/
def transferCall : LogCall ℕ :=
  ⟨⟨none, "core", "u1", "TRANSFER", "SUCCESS", "::1", none, none,
    some (.obj [("amount", .bigint 100)])⟩, morning, morning⟩

def transferRun : SiemLogger × LogDir :=
  runCalls hexText (onModuleInit ℕ Table.empty, Table.empty) [loginCall, transferCall, loginCall]

/-- The transfer throws and takes the number 2, so the lines on disk are 1 and 3. -/
theorem gap_after_transfer : (logCall hexText transferCall loginRun).1 = none ∧
    loginRun.1.sequenceNumber = 1 ∧
    (logCall hexText transferCall loginRun).2.1.sequenceNumber = 2 ∧
    List.Forall₂ (Numbered ℕ) [1, 3] (logLines transferRun.2).flatten ∧
    ¬ ConsecutiveOnDisk ℕ transferRun.2 := by
  have hstart : Filed (Table.empty : LogDir) ([] : Days ℕ) :=
    (intact_start (N := ℕ) hexText (by simp)).toFiled
  obtain ⟨days, hfiled, hnumbers⟩ := filed_runCalls (H := hexText)
    (s := (onModuleInit ℕ Table.empty, Table.empty)) [loginCall, transferCall, loginCall] hstart
    (by decide) (by simp)
  have hlines : List.Forall₂ (Numbered ℕ) [1, 3] (logLines transferRun.2).flatten :=
    (numbered_filed hfiled).mpr hnumbers.symm
  refine ⟨rfl, rfl, rfl, hlines, fun hconsecutive => ?_⟩
  obtain ⟨ks, hks, hchain⟩ := hconsecutive
  rw [(numbered_filed hfiled).mp hks, ← (numbered_filed hfiled).mp hlines] at hchain
  simp at hchain

theorem failed_calls_transfer :
    (logCall hexText transferCall loginRun).2 ≠ loginRun ∧
    (ConsecutiveOnDisk ℕ transferRun.2 ↔ Gapless [loginCall, transferCall, loginCall]) :=
  ⟨((failed_calls hexText).1 loginRun transferCall rfl).2.1,
    (failed_calls hexText).2 Table.empty (by simp [Table.empty]) _ (by decide)⟩

end Transfer

end Runs

end VerdeAuth.FailedLogCalls
