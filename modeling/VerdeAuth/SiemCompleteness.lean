import VerdeAuth.LoggedChains
import VerdeAuth.SiemVerifierReading

/-!
# Missing lines

The verifier does not count: whatever numbers the lines of a directory carry, it
may be accepted. Entries removed from a log are noticed exactly when a later one
is still there.
-/

namespace VerdeAuth.SiemCompleteness

open HashChains JsonTexts KeyedTables SiemLoggerService LogEntryLines LogFileNames
open SiemChainIntegrity HexDigests LoggedChains SiemVerifierReading RunHistories

section Numbers

variable (N : Type) [JsNumber N]

def numberOn (line : List Char) : Option (Json N) :=
  (parseText line : Option (Json N)).bind fun entry => entry.get? "logSequenceNumber"

/-- The lines of the directory carry these numbers. -/
def NumberedBy (ks : List ℕ) (dir : LogDir) : Prop :=
  (logLines dir).flatten.map (numberOn N) = ks.map fun k => some (.num (JsNumber.ofNat k))

variable [DecidableEq N]

/-- On how many lines of the directory the number occurs. -/
def occurrences (dir : LogDir) (k : ℕ) : ℕ :=
  (logLines dir).flatten.countP fun l =>
    Json.strictEq (numberOn N l) (some (.num (JsNumber.ofNat k)))

/-- Every number of the range is on exactly one line. -/
def Complete (start stop : ℕ) (dir : LogDir) : Prop :=
  ∀ k, start ≤ k → k ≤ stop → occurrences N dir k = 1

variable {N}

/-- What can be wrong with a line that comes after a line storing the hash `x`. -/
inductive Defect (H : String → String) (x : Option (Json N)) (line : List Char) : Prop
  | unreadable (h : (parseText line : Option (Json N)) = none)
  | unnumbered (entry : Json N) (hp : parseText line = some entry)
      (h : Json.toNumber (entry.get? "logSequenceNumber") = none)
  | unlinked (entry : Json N) (hp : parseText line = some entry)
      (h : Json.strictEq (entry.get? "previousHash") x = false)
  | forged (entry : Json N) (hp : parseText line = some entry)
      (h : ∀ c, recomputedHash H entry = some c → entry.get? "hash" ≠ some (.str c))

variable (N)

/-- A line with a defect among those that are read and not numbered out of the range. -/
def Defective (H : String → String) (start stop : ℕ) (dir : LogDir) : Prop :=
  ∃ before l after, linesRead N start stop (logLines dir) = before ++ l :: after ∧
    placeBetween N start stop l = .within ∧ Defect H (hashBefore N before) l

end Numbers

/-- Whole files are removed, and lines of the files that stay. -/
inductive Thinned : List (List (List Char)) → List (List (List Char)) → Prop
  | nil : Thinned [] []
  | removed {files files'} (f : List (List Char)) (h : Thinned files files') :
      Thinned (f :: files) files'
  | kept {files files' f f'} (hlines : f'.Sublist f) (h : Thinned files files') :
      Thinned (f :: files) (f' :: files')

theorem Thinned.flatten {files files' : List (List (List Char))} (h : Thinned files files') :
    files'.flatten.Sublist files.flatten := by
  induction h with
  | nil => exact List.Sublist.refl _
  | removed f _ ih => exact ih.trans (List.sublist_append_right f _)
  | kept hlines _ ih => exact hlines.append ih

variable {N : Type} [JsNumber N] {H : String → String} {dir : LogDir} {ks : List ℕ}

section Sealed

/-- Entries with these numbers, chained from the hash `p` on. -/
def sealedEntries (H : String → String) (format : StandardLogFormat N) :
    String → List ℕ → List (LogEntry N)
  | _, [] => []
  | p, k :: ks =>
    { format with
      hash := computeHash H p format.properties
      hashAlgorithm := "SHA-256"
      previousHash := p
      logSequenceNumber := k } ::
        sealedEntries H format (computeHash H p format.properties) ks

variable {format : StandardLogFormat N} {p : String}

theorem numbers_sealed (H : String → String) (format : StandardLogFormat N) (p : String)
    (ks : List ℕ) : (sealedEntries H format p ks).map LogEntry.logSequenceNumber = ks := by
  induction ks generalizing p with
  | nil => rfl
  | cons k ks ih => rw [sealedEntries, List.map_cons, ih _]

theorem hash_sealed {e : LogEntry N} (he : e ∈ sealedEntries H format p ks) :
    e.hash = computeHash H e.previousHash e.toStandardLogFormat.properties := by
  induction ks generalizing p with
  | nil => cases he
  | cons k ks ih =>
    rcases List.mem_cons.mp he with rfl | he
    · rfl
    · exact ih he

theorem follows_sealed (H : String → String) (format : StandardLogFormat N) (p : String)
    (ks : List ℕ) : (logChain H).Follows p (sealedEntries H format p ks) := by
  induction ks generalizing p with
  | nil => trivial
  | cons k ks ih => exact ⟨rfl, ih _⟩

theorem numberOn_line (e : LogEntry N) :
    numberOn N e.line = some (.num (JsNumber.ofNat e.logSequenceNumber)) := by
  rw [numberOn, parseText_line]
  exact get?_logSequenceNumber e

/-- One file with a chain of entries that carry these numbers. -/
def sealedDir (H : String → String) (format : StandardLogFormat N) (ks : List ℕ) : LogDir :=
  appendFile Table.empty (logFileName morning) (render (sealedEntries H format genesisHash ks))

theorem logLines_sealedDir : logLines (sealedDir H format ks) =
    [(sealedEntries H format genesisHash ks).map LogEntry.line] := by
  rw [sealedDir, logLines_appendFile (isJsonl_fileName morning), fileLines_render]

theorem numberedBy_sealedDir : NumberedBy N ks (sealedDir H format ks) := by
  rw [NumberedBy, logLines_sealedDir, List.flatten_singleton, List.map_map]
  conv_rhs => rw [← numbers_sealed H format genesisHash ks]
  rw [List.map_map]
  exact List.map_congr_left fun e _ => numberOn_line e

end Sealed

variable [DecidableEq N]

theorem defect_iff {x : Option (Json N)} {line : List Char} :
    Defect H x line ↔ ¬ Extends H x line := by
  constructor
  · intro h hext
    obtain ⟨entry, c, hp, hn, hprev, hc, hhash⟩ := hext
    cases h with
    | unreadable h => rw [hp] at h; cases h
    | unnumbered entry' hp' h =>
      obtain rfl := Option.some.inj (hp.symm.trans hp')
      exact hn h
    | unlinked entry' hp' h =>
      obtain rfl := Option.some.inj (hp.symm.trans hp')
      rw [hprev] at h
      cases h
    | forged entry' hp' h =>
      obtain rfl := Option.some.inj (hp.symm.trans hp')
      exact h c hc hhash
  · intro h
    cases hp : (parseText line : Option (Json N)) with
    | none => exact .unreadable hp
    | some entry =>
      rw [extends_iff hp] at h
      by_cases hn : Json.toNumber (entry.get? "logSequenceNumber") = none
      · exact .unnumbered entry hp hn
      · by_cases hprev : Json.strictEq (entry.get? "previousHash") x = true
        · exact .forged entry hp fun c hc hhash => h ⟨hn, hprev, c, hc, hhash⟩
        · exact .unlinked entry hp (by simpa using hprev)

theorem not_isValid_iff_defective (l : SiemLogger) {start stop : ℕ} (hstart : 1 ≤ start)
    (hstop : start ≤ stop) :
    ¬ (verifyChainIntegrity N H l dir (some start) (some stop)).isValid = true ↔
      Defective N H start stop dir := by
  rw [isValid_verifyChainIntegrity, orDefault_some hstart,
    orDefault_some (Nat.le_trans hstart hstop), not_unbroken]
  simp only [Defective, defect_iff]

/-- A chain is accepted whatever its lines are numbered. -/
theorem isValid_sealedDir (format : StandardLogFormat N) (l : SiemLogger) (startSeq endSeq : Option ℕ) :
    (verifyChainIntegrity N H l (sealedDir H format ks) startSeq endSeq).isValid = true := by
  rw [isValid_verifyChainIntegrity, logLines_sealedDir, linesRead, List.flatMap_singleton, fileRead]
  have hall : Unbroken H (orDefault startSeq 1) (orDefault endSeq l.sequenceNumber)
      (some (.str genesisHash) : Option (Json N))
      ((sealedEntries H format genesisHash ks).map LogEntry.line) :=
    unbroken_of_follows (fun e he => hash_sealed he) (follows_sealed H format genesisHash ks)
  rw [Unbroken, ← List.takeWhile_append_dropWhile
    (l := (sealedEntries H format genesisHash ks).map LogEntry.line)
    (p := fun l' => placeBetween N (orDefault startSeq 1) (orDefault endSeq l.sequenceNumber) l' ≠
      .beyond), always_append] at hall
  exact hall.1

/-- The lines of the directory say how often a number occurs. -/
theorem occurrences_numberedBy (h : NumberedBy N ks dir) (k : ℕ) :
    occurrences N dir k = ks.count k := by
  have hnum : ∀ k', Json.strictEq (some (.num (JsNumber.ofNat k')) : Option (Json N))
      (some (.num (JsNumber.ofNat k))) = (k' == k) := by
    intro k'
    rw [Bool.eq_iff_iff, beq_iff_eq]
    simp only [Json.strictEq, decide_eq_true_eq]
    constructor
    · intro he
      have hnat := congrArg JsNumber.toNat? he
      rw [JsNumber.toNat?_ofNat, JsNumber.toNat?_ofNat] at hnat
      exact Option.some.inj hnat
    · rintro rfl
      rfl
  have hcount : occurrences N dir k = ((logLines dir).flatten.map (numberOn N)).countP fun v =>
      Json.strictEq v (some (.num (JsNumber.ofNat k))) := by
    rw [List.countP_map]
    rfl
  rw [hcount, h, List.countP_map, List.count]
  exact List.countP_congr fun k' _ => by simp [Function.comp_apply, hnum]

theorem complete_numberedBy (h : NumberedBy N ks dir) {start stop : ℕ} :
    Complete N start stop dir ↔ ∀ k, start ≤ k → k ≤ stop → ks.count k = 1 := by
  simp only [Complete, occurrences_numberedBy h]

section Removal

variable {s : SiemLogger × LogDir} {all : List (LogEntry N)} {dir' : LogDir}

omit [DecidableEq N] in
theorem entries_of_lines {ls : List (List Char)} (h : ∀ l ∈ ls, ∃ e ∈ all, e.line = l) :
    ∃ es : List (LogEntry N), es ⊆ all ∧ ls = es.map LogEntry.line := by
  induction ls with
  | nil => exact ⟨[], by simp, rfl⟩
  | cons l ls ih =>
    obtain ⟨es, hes, rfl⟩ := ih fun l' hl' => h l' (List.mem_cons_of_mem l hl')
    obtain ⟨e, he, rfl⟩ := h l List.mem_cons_self
    exact ⟨e :: es, List.cons_subset.mpr ⟨he, hes⟩, rfl⟩

/-- What is left of a log is accepted where it is a beginning of what was logged. -/
theorem verify_thinned (hH : HexDigest H) (h : Logged H s all)
    (ht : Thinned (logLines s.2) (logLines dir')) :
    (verifyChainIntegrity N H s.1 dir' none none).isValid = false ↔
      ¬ (logLines dir').flatten <+: all.map LogEntry.line := by
  obtain ⟨es, hes, hlines⟩ := entries_of_lines fun l hl => line_loggedBy h.lines (ht.flatten.subset hl)
  have hwithin : ∀ e ∈ es, placeBetween N 1 s.1.sequenceNumber e.line = .within :=
    fun e he => placeBetween_line h.linked (hes he) (Nat.le_of_eq h.sequenceNumber.symm)
  have hread : linesRead N 1 s.1.sequenceNumber (logLines dir') = es.map LogEntry.line := by
    rw [linesRead_of_within, hlines]
    intro l hl
    rw [hlines] at hl
    obtain ⟨e, he, rfl⟩ := List.mem_map.mp hl
    exact hwithin e he
  rw [← Bool.not_eq_true, isValid_verifyChainIntegrity, orDefault_none, orDefault_none, hread,
    unbroken_iff_follows (fun e he => Scheme.link_eq_digest h.linked (hes he)) hwithin,
    Scheme.follows_iff_prefix (hashes_nodup hH h.linked) h.linked hes, hlines,
    List.prefix_map_iff_of_injective fun _ _ => line_injective]

end Removal

/-- What an accepted directory is bound to hold: it is complete or has a defect; what
numbers its lines carry decides nothing unless they are complete themselves; and of
a log that was written it holds a beginning. The clock of the run may say anything,
unless the logger is restarted: then its date may not go back. -/
theorem completeness_iff (H : String → String) (hH : HexDigest H) :
    (∀ (l : SiemLogger) (dir : LogDir) (start stop : ℕ), 1 ≤ start → start ≤ stop →
      (((verifyChainIntegrity N H l dir (some start) (some stop)).isValid = true →
          Complete N start stop dir) ↔
        Defective N H start stop dir ∨ Complete N start stop dir)) ∧
    (∀ (ks : List ℕ) (start stop : ℕ), 1 ≤ start → start ≤ stop →
      ((∀ (l : SiemLogger) (dir : LogDir), NumberedBy N ks dir →
          (verifyChainIntegrity N H l dir (some start) (some stop)).isValid = true →
          Complete N start stop dir) ↔
        ∀ k, start ≤ k → k ≤ stop → ks.count k = 1)) ∧
    ∀ (dir : LogDir), (∀ f ∈ dir.rows, isJsonl f.1 = false) → ∀ es : List (LogEvent N),
      (.restart ∈ es →
        (es.flatMap LogEvent.readings).Pairwise fun t t' => t.dateKey ≤ t'.dateKey) →
      let s := runEvents H (onModuleInit N dir, dir) es
      ∀ dir', Thinned (logLines s.2) (logLines dir') →
        ((verifyChainIntegrity N H s.1 dir' none none).isValid = false ↔
          ¬ (logLines dir').flatten <+:
            (loggedEntries H (onModuleInit N dir, dir) es).map LogEntry.line) := by
  refine ⟨?_, ?_, ?_⟩
  · intro l dir start stop hstart hstop
    rw [← not_isValid_iff_defective l hstart hstop]
    exact imp_iff_not_or
  · intro ks start stop _ _
    constructor
    · intro h
      let format : StandardLogFormat N := ⟨none, "", "", "", "", "", none, none, none⟩
      exact (complete_numberedBy numberedBy_sealedDir).mp (h (onModuleInit N Table.empty)
        (sealedDir H format ks) numberedBy_sealedDir (isValid_sealedDir format _ _ _))
    · intro h l dir hks _
      exact (complete_numberedBy hks).mpr h
  · intro dir hdir es hclock s dir' ht
    exact verify_thinned hH (logged_run hH.nonempty hdir es hclock) ht

/-- An empty directory is accepted, whatever range is asked for, and so is the
directory of a logger whose only file is gone. -/
theorem removal_accepted : HexDigest hexText ∧
    (verifyChainIntegrity ℕ hexText loginRun.1 Table.empty (some 1) (some 1)).isValid = true ∧
    occurrences ℕ Table.empty 1 = 0 ∧
    logLines loginRun.2 = [[loginEntry.line]] ∧
    Thinned (logLines loginRun.2) (logLines Table.empty) ∧
    (verifyChainIntegrity ℕ hexText loginRun.1 Table.empty none none).isValid = true := by
  have hlog : logLines loginRun.2 = [[loginEntry.line]] := logLines_intact intact_loginRun
  refine ⟨hexDigest_hexText, rfl, rfl, hlog, ?_, rfl⟩
  rw [hlog]
  exact .removed _ .nil

/-- The log of two days without the file of the first. -/
def secondDay : LogDir :=
  appendFile Table.empty (logFileName nextMorning) (secondLogin.line ++ ['\n'])

theorem completeness_iff_twoDays :
    (((verifyChainIntegrity ℕ hexText twoDays.1 twoDays.2 (some 1) (some 3)).isValid = true →
        Complete ℕ 1 3 twoDays.2) ↔
      Defective ℕ hexText 1 3 twoDays.2 ∨ Complete ℕ 1 3 twoDays.2) ∧
    ¬ (∀ (l : SiemLogger) (dir : LogDir), NumberedBy ℕ [1, 3, 3] dir →
      (verifyChainIntegrity ℕ hexText l dir (some 1) (some 3)).isValid = true →
      Complete ℕ 1 3 dir) ∧
    (verifyChainIntegrity ℕ hexText twoDays.1 secondDay none none).isValid = false := by
  obtain ⟨hdirs, hnumbers, hremoved⟩ := completeness_iff (N := ℕ) hexText hexDigest_hexText
  refine ⟨hdirs twoDays.1 twoDays.2 1 3 (by decide) (by decide), ?_, ?_⟩
  · rw [hnumbers [1, 3, 3] 1 3 (by decide) (by decide)]
    exact fun h => absurd (h 2 (by decide) (by decide)) (by decide)
  · have hfiled : Filed secondDay [(nextMorning, [secondLogin])] :=
      filed_newDay (intact_start (N := ℕ) hexText (by simp)).toFiled secondLogin (by simp)
    have hlines : logLines secondDay = [[secondLogin.line]] := logLines_filed hfiled
    have hlog : logLines twoDays.2 = [[loginEntry.line], [secondLogin.line]] :=
      logLines_intact intact_twoDays
    apply (hremoved Table.empty (by simp [Table.empty]) twoLogins (by simp [twoLogins]) secondDay ?_).mpr
    · rw [hlines]
      intro hpre
      have hline : secondLogin.line = loginEntry.line := (List.cons_prefix_cons.mp hpre).1
      exact absurd (congrArg LogEntry.logSequenceNumber (line_injective hline)) (by decide)
    · change Thinned (logLines twoDays.2) _
      rw [hlog, hlines]
      exact .removed _ (.kept (List.Sublist.refl _) .nil)

end VerdeAuth.SiemCompleteness
