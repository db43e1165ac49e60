import Mathlib.Logic.Function.Basic
import VerdeAuth.SiemVerifierReading

/-!
# Several loggers over one directory

Every instance keeps the end of the chain to itself and reads it off the disk only when
it starts. Where one logs after another has, the chain forks, and from then on the
verifier refuses the directory.
-/

namespace VerdeAuth.SharedLogDirectories

open HashChains JsonTexts KeyedTables SiemLoggerService LogEntryLines SiemChainIntegrity
open HexDigests SiemVerifierReading RunHistories

/-- An instance logs, or it is closed and started again. -/
inductive SharedEvent (N : Type) where
  | log (i : ℕ) (format : StandardLogFormat N) (now now' : Instant)
  | start (i : ℕ)

variable {N : Type}

/-- When the lines are written. -/
def SharedEvent.written : SharedEvent N → List Instant
  | .log _ _ _ now' => [now']
  | .start _ => []

def SharedEvent.isLog : SharedEvent N → Bool
  | .log _ _ _ _ => true
  | .start _ => false

/-- Whoever logs was the last to log, or has started since; at first it is one of those
with `fresh`. -/
def InTurn : (ℕ → Prop) → List (SharedEvent N) → Prop
  | _, [] => True
  | fresh, .log i _ _ _ :: evs => fresh i ∧ InTurn (fun j => j = i) evs
  | fresh, .start i :: evs => InTurn (fun j => j = i ∨ fresh j) evs

variable [JsNumber N] [DecidableEq N]

abbrev Instances := (ℕ → SiemLogger) × LogDir

def sharedStep (H : String → String) (s : Instances) : SharedEvent N → Instances
  | .log i format now now' =>
    let s' := (log H format now now' (s.1 i, s.2)).2
    (Function.update s.1 i s'.1, s'.2)
  | .start i => (Function.update s.1 i (onModuleInit N s.2), s.2)

def runShared (H : String → String) (s : Instances) (evs : List (SharedEvent N)) : Instances :=
  evs.foldl (sharedStep H) s

variable {H : String → String} {s : Instances} {days : Days N} {fresh : ℕ → Prop}

/-- Every line holds an entry under its own hash, with a number no greater than that of
the lines. -/
structure Recorded (H : String → String) (s : Instances) (days : Days N) : Prop where
  filed : Filed s.2 days
  hashed : ∀ e ∈ (days.map Prod.snd).flatten,
    e.hash = computeHash H e.previousHash e.toStandardLogFormat.properties
  numbered : ∀ e ∈ (days.map Prod.snd).flatten,
    1 ≤ e.logSequenceNumber ∧ e.logSequenceNumber ≤ (days.map Prod.snd).flatten.length
  counted : ∀ i, (s.1 i).sequenceNumber ≤ (days.map Prod.snd).flatten.length

/-- The lines form one chain, of which those with `fresh` have the end and the others
an earlier hash. -/
structure Chained (H : String → String) (s : Instances) (fresh : ℕ → Prop) (days : Days N) :
    Prop where
  linked : (logChain H).Linked genesisHash 0 (days.map Prod.snd).flatten
  current : ∀ i, fresh i → ((s.1 i).lastHash, (s.1 i).sequenceNumber) =
    (logChain H).chainEnd genesisHash 0 (days.map Prod.snd).flatten
  behind : ∀ i, ¬ fresh i →
    (s.1 i).lastHash ∈ (genesisHash :: (days.map Prod.snd).flatten.map LogEntry.hash).dropLast

section Reading

omit [DecidableEq N] in
theorem hash_ne_empty_of_hashed (hH : HexDigest H) (h : Recorded H s days) {e : LogEntry N}
    (he : e ∈ (days.map Prod.snd).flatten) : e.hash ≠ "" := by
  rw [h.hashed e he]
  exact hH.nonempty _

/-- A start reads the end of the file, whether or not the lines form a chain. -/
theorem lastLogged_recorded (hH : HexDigest H) (h : Recorded H s days) :
    lastLogged N s.2 = (logChain H).chainEnd genesisHash 0 (days.map Prod.snd).flatten := by
  rcases List.eq_nil_or_concat' days with rfl | ⟨init, d, rfl⟩
  · rw [lastLogged, jsonlFiles_filed h.filed]
    rfl
  · have hd : d ∈ init ++ [d] := by simp
    rcases List.eq_nil_or_concat' d.2 with hnil | ⟨es, e, hes⟩
    · exact absurd hnil (h.filed.nonempty d hd)
    · have hne : e.hash ≠ "" := hash_ne_empty_of_hashed hH h (by simp [hes])
      have hflat : ((init ++ [d]).map Prod.snd).flatten =
          ((init.map Prod.snd).flatten ++ es) ++ [e] := by simp [hes]
      have hfile : (jsonlFiles s.2).getLast? = some (logFileName d.1) := by
        simp [jsonlFiles_filed h.filed]
      have hline : (fileLines (readFile s.2 (logFileName d.1))).getLast? = some e.line := by
        simp [fileLines_filed h.filed hd, hes]
      rw [lastLogged_line hfile hline hne, hflat, Scheme.chainEnd_append_singleton]
      rfl

/-- The verifier accepts the lines where each names the hash of the one before. -/
theorem isValid_recorded (h : Recorded H s days) (l : SiemLogger) {n : ℕ} (hn : 1 ≤ n)
    (hlen : (days.map Prod.snd).flatten.length ≤ n) :
    (verifyChainIntegrity N H l s.2 (some 1) (some n)).isValid = true ↔
      (logChain H).Follows genesisHash (days.map Prod.snd).flatten := by
  have hlog : (logLines s.2).flatten = (days.map Prod.snd).flatten.map LogEntry.line := by
    rw [logLines_filed h.filed, ← List.map_flatten]
  have hplace : ∀ e ∈ (days.map Prod.snd).flatten, placeBetween N 1 n e.line = .within := by
    intro e he
    obtain ⟨hlow, hhigh⟩ := h.numbered e he
    rw [placeBetween_entry, if_neg (by omega), if_neg (by omega)]
  have hwithin : ∀ x ∈ (logLines s.2).flatten, placeBetween N 1 n x = .within := by
    intro x hx
    rw [hlog] at hx
    obtain ⟨e, he, rfl⟩ := List.mem_map.mp hx
    exact hplace e he
  rw [isValid_verifyChainIntegrity, orDefault_some (Nat.le_refl 1), orDefault_some hn,
    linesRead_of_within hwithin, hlog]
  exact unbroken_iff_follows h.hashed hplace

end Reading

section Steps

variable {format : StandardLogFormat N} {now now' : Instant} {i : ℕ}

/-- A line is written after the others, whoever writes it. -/
theorem recorded_log (h : Recorded H s days) (i : ℕ) (format : StandardLogFormat N) (now : Instant)
    (hday : ∀ d ∈ days, d.1.dateKey ≤ now'.dateKey) :
    ∃ days' : Days N, Recorded H (sharedStep H s (.log i format now now')) days' ∧
      (days'.map Prod.snd).flatten =
        (days.map Prod.snd).flatten ++ [newEntry H (s.1 i) format now] ∧
      ∀ d ∈ days', d.1.dateKey ≤ now'.dateKey := by
  obtain ⟨days', hfiled, hflat, hdays'⟩ := filed_append h.filed (newEntry H (s.1 i) format now) hday
  refine ⟨days', ⟨hfiled, fun e he => ?_, fun e he => ?_, fun j => ?_⟩, hflat, hdays'⟩
  · rw [hflat] at he
    rcases List.mem_append.mp he with he | he
    · exact h.hashed e he
    · rw [List.mem_singleton.mp he]
      rfl
  · rw [hflat] at he ⊢
    rw [List.length_append, List.length_singleton]
    rcases List.mem_append.mp he with he | he
    · obtain ⟨hlow, hhigh⟩ := h.numbered e he
      omega
    · have hcounted := h.counted i
      have hnumber : e.logSequenceNumber = (s.1 i).sequenceNumber + 1 := by
        rw [List.mem_singleton.mp he]
        rfl
      omega
  · have hi := h.counted i
    have hj := h.counted j
    rw [hflat, List.length_append, List.length_singleton]
    by_cases hji : j = i
    · subst hji
      have hnumber : ((sharedStep H s (.log j format now now')).1 j).sequenceNumber =
          (s.1 j).sequenceNumber + 1 := by
        simp [sharedStep, log, writeLog, newEntry]
      omega
    · have hsame : (sharedStep H s (.log i format now now')).1 j = s.1 j := by
        simp [sharedStep, hji]
      rw [hsame]
      omega

/-- In turn, the chain goes on; only the instance that logged knows its end. -/
theorem chained_log {days' : Days N} (h : Chained H s fresh days) (hi : fresh i)
    (hflat : (days'.map Prod.snd).flatten =
      (days.map Prod.snd).flatten ++ [newEntry H (s.1 i) format now]) :
    Chained H (sharedStep H s (.log i format now now')) (fun j => j = i) days' := by
  have hend := h.current i hi
  rw [Prod.ext_iff] at hend
  have hlinks : genesisHash :: (days'.map Prod.snd).flatten.map LogEntry.hash =
      (genesisHash :: (days.map Prod.snd).flatten.map LogEntry.hash) ++
        [(newEntry H (s.1 i) format now).hash] := by
    rw [hflat, List.map_append, List.cons_append]
    rfl
  refine ⟨?_, ?_, fun j hj => ?_⟩
  · rw [hflat]
    exact Scheme.linked_append.mpr ⟨h.linked, hend.1, congrArg Nat.succ hend.2,
      congrArg (fun prev => computeHash H prev _) hend.1, trivial⟩
  · rintro j rfl
    rw [hflat, Scheme.chainEnd_append_singleton]
    simp [sharedStep, log, writeLog, logChain]
  · have hsame : (sharedStep H s (.log i format now now')).1 j = s.1 j := by
      have hne : j ≠ i := hj
      simp [sharedStep, hne]
    rw [hlinks, List.dropLast_concat, hsame]
    by_cases hfresh : fresh j
    · have hj' := congrArg Prod.fst (h.current j hfresh)
      simp only at hj'
      rw [hj']
      exact Scheme.chainEnd_mem_cons
    · exact List.dropLast_subset _ (h.behind j hfresh)

omit [DecidableEq N] in
/-- Out of turn, the entry names a hash that is not the end of the chain. -/
theorem not_follows_log (hH : HexDigest H) (h : Chained H s fresh days) (hi : ¬ fresh i) :
    ¬ (logChain H).Follows genesisHash
      ((days.map Prod.snd).flatten ++ [newEntry H (s.1 i) format now]) := by
  intro hfollows
  obtain ⟨-, hprev⟩ := (Scheme.follows_append_singleton (n := 0)).mp hfollows
  have hnodup := Scheme.links_nodup (separating hH) (by decide) h.linked
  have hbehind : (s.1 i).lastHash ∈
      (genesisHash :: (days.map Prod.snd).flatten.map (logChain H).link).dropLast := h.behind i hi
  have hprev : (s.1 i).lastHash =
      ((logChain H).chainEnd genesisHash 0 (days.map Prod.snd).flatten).1 := hprev
  rw [hprev] at hbehind
  exact Scheme.chainEnd_notMem_dropLast hnodup hbehind

theorem recorded_start (hH : HexDigest H) (h : Recorded H s days) (i : ℕ) :
    Recorded H (sharedStep H s (.start i : SharedEvent N)) days := by
  refine ⟨h.filed, h.hashed, h.numbered, fun j => ?_⟩
  by_cases hji : j = i
  · subst hji
    have hnumber : ((sharedStep H s (.start j : SharedEvent N)).1 j).sequenceNumber =
        ((logChain H).chainEnd genesisHash 0 (days.map Prod.snd).flatten).2 := by
      have hlast := congrArg Prod.snd (lastLogged_recorded hH h)
      simpa [sharedStep, onModuleInit] using hlast
    rw [hnumber]
    rcases List.eq_nil_or_concat' (days.map Prod.snd).flatten with hnil | ⟨init, e, hes⟩
    · rw [hnil]
      exact le_rfl
    · have he := h.numbered e (by simp [hes])
      rw [hes, Scheme.chainEnd_append_singleton, ← hes]
      exact he.2
  · have hsame : (sharedStep H s (.start i : SharedEvent N)).1 j = s.1 j := by simp [sharedStep, hji]
    rw [hsame]
    exact h.counted j

theorem chained_start (hH : HexDigest H) (hr : Recorded H s days) (h : Chained H s fresh days)
    (i : ℕ) : Chained H (sharedStep H s (.start i : SharedEvent N)) (fun j => j = i ∨ fresh j)
      days := by
  have hsame : ∀ j, j ≠ i → (sharedStep H s (.start i : SharedEvent N)).1 j = s.1 j := by
    intro j hj
    simp [sharedStep, hj]
  refine ⟨h.linked, fun j hj => ?_, fun j hj => ?_⟩
  · by_cases hji : j = i
    · subst hji
      have hlast := lastLogged_recorded hH hr
      simpa [sharedStep, onModuleInit] using hlast
    · rw [hsame j hji]
      exact h.current j (hj.resolve_left hji)
  · obtain ⟨hji, hfresh⟩ := not_or.mp hj
    rw [hsame j hji]
    exact h.behind j hfresh

/-- A run goes on to follow the chain where it does so already and every call is in turn. -/
theorem recorded_run (hH : HexDigest H) (evs : List (SharedEvent N)) (hr : Recorded H s days)
    (hclock : (evs.flatMap SharedEvent.written).Pairwise fun t t' => t.dateKey ≤ t'.dateKey)
    (hdays : ∀ d ∈ days, ∀ t ∈ evs.flatMap SharedEvent.written, d.1.dateKey ≤ t.dateKey) :
    ∃ days' : Days N, Recorded H (runShared H s evs) days' ∧
      (days'.map Prod.snd).flatten.length =
        (days.map Prod.snd).flatten.length + evs.countP SharedEvent.isLog ∧
      (¬ (logChain H).Follows genesisHash (days.map Prod.snd).flatten →
        ¬ (logChain H).Follows genesisHash (days'.map Prod.snd).flatten) ∧
      ∀ fresh, Chained H s fresh days →
        ((logChain H).Follows genesisHash (days'.map Prod.snd).flatten ↔ InTurn fresh evs) := by
  induction evs generalizing s days with
  | nil =>
    refine ⟨days, hr, rfl, id, fun fresh h => ?_⟩
    exact iff_of_true (Scheme.follows_of_linked h.linked) trivial
  | cons ev evs ih =>
    rw [List.flatMap_cons, List.pairwise_append] at hclock
    obtain ⟨-, hclock, hlater⟩ := hclock
    have hdays' : ∀ d ∈ days, ∀ t ∈ evs.flatMap SharedEvent.written, d.1.dateKey ≤ t.dateKey :=
      fun d hd t ht => hdays d hd t (List.mem_append_right _ ht)
    cases ev with
    | start i =>
      obtain ⟨days', hr', hlen, hbroken, hchained⟩ := ih (recorded_start hH hr i) hclock hdays'
      refine ⟨days', hr', ?_, hbroken, fun fresh h => hchained _ (chained_start hH hr h i)⟩
      simpa [SharedEvent.isLog] using hlen
    | log i format now now' =>
      have hnow : ∀ d ∈ days, d.1.dateKey ≤ now'.dateKey := fun d hd =>
        hdays d hd now' (List.mem_append_left _ (by simp [SharedEvent.written]))
      obtain ⟨days₁, hr₁, hflat, hle⟩ := recorded_log hr i format now hnow
      have hdays₁ : ∀ d ∈ days₁, ∀ t ∈ evs.flatMap SharedEvent.written, d.1.dateKey ≤ t.dateKey := by
        intro d hd t ht
        exact (hle d hd).trans (hlater now' (by simp [SharedEvent.written]) t ht)
      obtain ⟨days', hr', hlen, hbroken, hchained⟩ := ih hr₁ hclock hdays₁
      refine ⟨days', hr', ?_, fun hnot => hbroken fun hfollows => hnot ?_, fun fresh h => ?_⟩
      · have hcount : (SharedEvent.log i format now now' :: evs).countP SharedEvent.isLog =
            evs.countP SharedEvent.isLog + 1 := List.countP_cons_of_pos rfl
        rw [hlen, hflat, hcount, List.length_append, List.length_singleton]
        omega
      · rw [hflat] at hfollows
        exact ((Scheme.follows_append_singleton (n := 0)).mp hfollows).1
      · by_cases hi : fresh i
        · rw [InTurn, and_iff_right hi]
          exact hchained _ (chained_log h hi hflat)
        · refine iff_of_false (hbroken ?_) fun hturn => hi hturn.1
          rw [hflat]
          exact not_follows_log hH h hi

end Steps

/-- Instances that start on a directory without log files, and log and start again in any
order, on a clock whose date does not go back: for a range that covers all calls, the
verifier accepts the directory exactly when each call was in turn. -/
theorem shared_verified_iff (H : String → String) (hH : HexDigest H) (dir : LogDir)
    (hdir : ∀ f ∈ dir.rows, isJsonl f.1 = false) (evs : List (SharedEvent N))
    (hclock : (evs.flatMap SharedEvent.written).Pairwise fun t t' => t.dateKey ≤ t'.dateKey)
    (l : SiemLogger) (n : ℕ) (hn : 1 ≤ n) (hlen : evs.countP SharedEvent.isLog ≤ n) :
    let s := runShared H (fun _ => onModuleInit N dir, dir) evs
    (verifyChainIntegrity N H l s.2 (some 1) (some n)).isValid = true ↔ InTurn (fun _ => True) evs := by
  intro s
  have hintact : Intact (N := N) H (onModuleInit N dir, dir) [] := intact_start H hdir
  have hseq : (onModuleInit N dir).sequenceNumber = 0 := sequenceNumber_intact hintact
  have hr : Recorded (N := N) H (fun _ => onModuleInit N dir, dir) [] :=
    ⟨hintact.toFiled, by simp, by simp, fun _ => hseq.le⟩
  have hchained : Chained (N := N) H (fun _ => onModuleInit N dir, dir) (fun _ => True) [] :=
    ⟨hintact.linked, fun _ _ => hintact.atEnd, fun _ hi => absurd trivial hi⟩
  obtain ⟨days', hr', hlen', -, hiff⟩ := recorded_run hH evs hr hclock (by simp)
  rw [isValid_recorded hr' l hn ?_, hiff _ hchained]
  rw [hlen']
  simpa using hlen

/-- Two instances log in turn, the second having started again or not. -/
def bothLog (evs : List (SharedEvent ℕ)) : List (SharedEvent ℕ) :=
  .log 0 loginFormat morning morning :: (evs ++ [.log 1 loginFormat morning morning])

theorem shared_verified_iff_bothLog :
    let l := onModuleInit ℕ Table.empty
    let s := fun evs => runShared hexText (fun _ => l, Table.empty) (bothLog evs)
    (verifyChainIntegrity ℕ hexText l (s [.start 1]).2 (some 1) (some 2)).isValid = true ∧
      (verifyChainIntegrity ℕ hexText l (s []).2 (some 1) (some 2)).isValid = false := by
  intro l s
  have hiff : ∀ evs : List (SharedEvent ℕ), evs = [] ∨ evs = [.start 1] →
      ((verifyChainIntegrity ℕ hexText l (s evs).2 (some 1) (some 2)).isValid = true ↔
        InTurn (fun _ => True) (bothLog evs)) := by
    intro evs hevs
    refine shared_verified_iff hexText hexDigest_hexText Table.empty (by simp [Table.empty]) _ ?_ l
      2 (by decide) ?_
    · rcases hevs with rfl | rfl <;> simp [bothLog, SharedEvent.written]
    · rcases hevs with rfl | rfl <;> decide
  refine ⟨(hiff _ (.inr rfl)).mpr ?_, ?_⟩
  · exact ⟨trivial, .inl rfl, trivial⟩
  · rw [← Bool.not_eq_true, hiff _ (.inl rfl)]
    rintro ⟨-, hi, -⟩
    cases hi

end VerdeAuth.SharedLogDirectories
