import VerdeAuth.SiemCrashRecovery
import VerdeAuth.SiemRangeVerification

/-!
# Verification after retention

The oldest files of a log are removed. The entry that comes first then names a
hash no line stores any more, while the verifier starts from the genesis hash.
-/

namespace VerdeAuth.LogRetention

open HashChains JsonTexts KeyedTables SiemLoggerService LogEntryLines SiemChainIntegrity
open HexDigests SiemVerifierReading SiemRangeVerification SiemCrashRecovery

/-- The directory after the removal of its oldest `k` log files. -/
def withoutOldest (k : ℕ) (dir : LogDir) : LogDir :=
  dir.remove fun f => f.1 ∈ (jsonlFiles dir).take k

section Files

theorem filter_notMem_take {α : Type} [DecidableEq α] {l : List α} (h : l.Nodup) (k : ℕ) :
    l.filter (fun x => x ∉ l.take k) = l.drop k := by
  have hsplit := List.take_append_drop k l
  rw [← hsplit] at h
  have hdisjoint := (List.nodup_append.mp h).2.2
  have htake : (l.take k).filter (fun x => x ∉ l.take k) = [] := by
    simp [List.filter_eq_nil_iff]
  have hdrop : (l.drop k).filter (fun x => x ∉ l.take k) = l.drop k := by
    rw [List.filter_eq_self]
    intro x hx
    rw [decide_eq_true_eq]
    exact fun hmem => hdisjoint x hmem x hx rfl
  calc l.filter (fun x => x ∉ l.take k)
      = (l.take k ++ l.drop k).filter (fun x => x ∉ l.take k) := by rw [hsplit]
    _ = l.drop k := by rw [List.filter_append, htake, hdrop, List.nil_append]

variable {N : Type} [JsNumber N] {H : String → String} {s : SiemLogger × LogDir} {days : Days N}

theorem jsonlFiles_withoutOldest (h : Intact H s days) (k : ℕ) :
    jsonlFiles (withoutOldest k s.2) = (days.drop k).map fun d => logFileName d.1 := by
  have hnodup : (days.map fun d => logFileName d.1).Nodup := by
    rw [← h.names]
    exact s.2.nodup.filter _
  have hnames : ((withoutOldest k s.2).rows.map Prod.fst).filter isJsonl =
      (days.drop k).map fun d => logFileName d.1 := by
    have hrows : (withoutOldest k s.2).rows.map Prod.fst =
        (s.2.rows.map Prod.fst).filter fun n => n ∉ (jsonlFiles s.2).take k := by
      rw [withoutOldest, Table.remove, List.filter_map]
      simp [Function.comp_def]
    rw [hrows, List.filter_comm, h.names, jsonlFiles_intact h, filter_notMem_take hnodup,
      List.map_drop]
  rw [jsonlFiles, hnames]
  exact sort_days (h.ascending.sublist (List.drop_sublist k days))

theorem logLines_withoutOldest (h : Intact H s days) (k : ℕ) :
    logLines (withoutOldest k s.2) =
      ((days.drop k).map Prod.snd).map fun es => es.map LogEntry.line := by
  have hnodup : (days.map fun d => logFileName d.1).Nodup := by
    rw [← h.names]
    exact s.2.nodup.filter _
  rw [logLines, jsonlFiles_withoutOldest h, List.map_map, List.map_map]
  refine List.map_congr_left fun d hd => ?_
  have hkept : logFileName d.1 ∉ (jsonlFiles s.2).take k := by
    rw [← List.take_append_drop k (days.map _)] at hnodup
    rw [jsonlFiles_intact h]
    intro hmem
    refine (List.nodup_append.mp hnodup).2.2 _ hmem (logFileName d.1) ?_ rfl
    rw [← List.map_drop]
    exact List.mem_map_of_mem hd
  have hread : readFile (withoutOldest k s.2) (logFileName d.1) =
      readFile s.2 (logFileName d.1) := by
    rw [readFile, readFile, withoutOldest, Table.get?_remove]
    intro f hf
    rw [decide_eq_false_iff_not, hf]
    exact hkept
  simp only [Function.comp_apply]
  rw [hread]
  exact fileLines_intact h (List.mem_of_mem_drop hd)

end Files

section Retention

variable (N : Type) [JsNumber N]

/-- The smallest number that is left in a directory. -/
def FirstLeft (dir : LogDir) (first : ℕ) : Prop :=
  IsLeast {j | ∃ l ∈ (logLines dir).flatten, Numbered N j l} first

/-- A directory is accepted from its first number on, and no more where an entry after
the first is changed. -/
def StillVerifies [DecidableEq N] (H : String → String) (l : SiemLogger) (dir : LogDir)
    (first last : ℕ) : Prop :=
  verifyChainIntegrity N H l dir (some first) (some last) = .valid ∧
  ∀ dir' files, Tampered N dir dir' files → (∃ j ∈ changedNumbers N files.flatten, first < j) →
    (verifyChainIntegrity N H l dir' (some first) (some last)).isValid = false

variable {N} {H : String → String} {s : SiemLogger × LogDir} {days : Days N} {k first : ℕ}

omit [JsNumber N] in
/-- The entries that are removed, and those that stay. -/
theorem entries_split (days : Days N) (k : ℕ) : (days.map Prod.snd).flatten =
    ((days.take k).map Prod.snd).flatten ++ ((days.drop k).map Prod.snd).flatten := by
  rw [← List.flatten_append, ← List.map_append, List.take_append_drop]

/-- What is left continues the chain of what is removed. -/
theorem linked_split (h : Intact H s days) (k : ℕ) :
    (logChain H).Linked genesisHash 0 ((days.take k).map Prod.snd).flatten ∧
      (logChain H).Linked ((logChain H).chainEnd genesisHash 0 ((days.take k).map Prod.snd).flatten).1
        ((days.take k).map Prod.snd).flatten.length ((days.drop k).map Prod.snd).flatten := by
  have hlinked := h.linked
  rw [entries_split days k] at hlinked
  obtain ⟨hold, hleft⟩ := Scheme.linked_append.mp hlinked
  rw [Scheme.chainEnd_number hold, Nat.zero_add] at hleft
  exact ⟨hold, hleft⟩

theorem lines_withoutOldest (h : Intact H s days) (k : ℕ) :
    (logLines (withoutOldest k s.2)).flatten =
      ((days.drop k).map Prod.snd).flatten.map LogEntry.line := by
  rw [logLines_withoutOldest h, ← List.map_flatten]

/-- What is left starts with the entry of the first number. -/
theorem starts_at (h : Intact H s days) (hk : k < days.length)
    (hfirst : FirstLeft N (withoutOldest k s.2) first) :
    ∃ e es, ((days.drop k).map Prod.snd).flatten = e :: es ∧ e.logSequenceNumber = first ∧
      first = ((days.take k).map Prod.snd).flatten.length + 1 ∧
      e.previousHash =
        ((logChain H).chainEnd genesisHash 0 ((days.take k).map Prod.snd).flatten).1 := by
  obtain ⟨hold, hleft⟩ := linked_split h k
  have hne : ((days.drop k).map Prod.snd).flatten ≠ [] := by
    rw [List.drop_eq_getElem_cons hk]
    intro hnil
    rw [List.map_cons, List.flatten_cons] at hnil
    exact h.nonempty _ (List.getElem_mem hk) (List.append_eq_nil_iff.mp hnil).1
  obtain ⟨e, es, hes⟩ := List.exists_cons_of_ne_nil hne
  rw [hes] at hleft
  obtain ⟨hp, hn, -, -⟩ := linked_cons.mp hleft
  have hmem : ∀ {e' : LogEntry N}, e' ∈ e :: es → ∀ {j}, Numbered N j e'.line →
      e.logSequenceNumber ≤ j := by
    intro e' he' j hj
    rw [numbered_line.mp hj, hn]
    exact (Scheme.number_le hleft he').1
  have heq : e.logSequenceNumber = first := by
    have hleast : FirstLeft N (withoutOldest k s.2) e.logSequenceNumber := by
      rw [FirstLeft, lines_withoutOldest h, hes]
      constructor
      · exact ⟨e.line, List.mem_map_of_mem List.mem_cons_self, numbered_line.mpr rfl⟩
      · intro j hj
        obtain ⟨l, hl, hnum⟩ := hj
        obtain ⟨e', he', rfl⟩ := List.mem_map.mp hl
        exact hmem he' hnum
    exact hleast.unique hfirst
  exact ⟨e, es, hes, heq, heq.symm.trans hn, hp⟩

variable [DecidableEq N]

/-- An entry that does not continue the hash expected is named. -/
theorem checkLine_gap {e : LogEntry N} {x : String} (hx : e.previousHash ≠ x) : ∃ details,
    checkLine H e.logSequenceNumber e.logSequenceNumber (some (.str x) : Option (Json N)) e.line =
      .reply (.broken (some (.num (JsNumber.ofNat e.logSequenceNumber))) details) := by
  have hcheck : checkEntry H e.logSequenceNumber e.logSequenceNumber (some (.str x)) e.json =
      .reply (chainBroken (e.json.get? "logSequenceNumber") (some (.str x))
        (e.json.get? "previousHash")) := by
    simp [checkEntry, hx, Json.strictEq]
  rw [checkLine_eq (parseText_line e) (by simp [LogEntry.json]), hcheck, get?_logSequenceNumber,
    get?_previousHash]
  exact ⟨_, rfl⟩

/-- Once a file is removed, verification from the first number left fails there. -/
theorem alarm_after_retention (hH : ∀ s, H s ≠ genesisHash) (h : Intact H s days) (hk : k < days.length)
    (hpos : 0 < k) (hfirst : FirstLeft N (withoutOldest k s.2) first) (l : SiemLogger)
    {last : ℕ} (hlast : first ≤ last) : ∃ details,
    verifyChainIntegrity N H l (withoutOldest k s.2) (some first) (some last) =
      .broken (some (.num (JsNumber.ofNat first))) details := by
  obtain ⟨e, es, hes, hnum, hfirst', hprev⟩ := starts_at h hk hfirst
  obtain ⟨hold, hleft⟩ := linked_split h k
  have hgap : e.previousHash ≠ genesisHash := by
    have hne : ((days.take k).map Prod.snd).flatten ≠ [] := by
      intro hnil
      have hd : days[0] ∈ days.take k := by
        rw [List.mem_take_iff_getElem]
        exact ⟨0, by omega, rfl⟩
      refine h.nonempty _ (List.mem_of_mem_take hd) ?_
      exact List.flatten_eq_nil_iff.mp hnil _ (List.mem_map_of_mem hd)
    obtain ⟨e', he', heq⟩ := List.mem_map.mp (Scheme.chainEnd_mem hne)
    rw [hprev, ← heq, Scheme.link_eq_digest hold he']
    exact hH _
  have hread : (logLines (withoutOldest k s.2)).flatten = e.line :: es.map LogEntry.line := by
    rw [lines_withoutOldest h, hes, List.map_cons]
  have hnumbered : List.Forall₂ (Numbered N) ((e :: es).map LogEntry.logSequenceNumber)
      ((e :: es).map LogEntry.line) := by
    rw [List.forall₂_map_left_iff, List.forall₂_map_right_iff]
    exact List.forall₂_same.mpr fun e' _ => numbered_line.mpr rfl
  have hascending := ascending_of_linked (hes ▸ hleft)
  rw [verifyChainIntegrity, orDefault_some (by omega), orDefault_some (by omega),
    verifyFiles_flatten (by rw [hread]; exact beyond_last hnumbered hascending), hread,
    verifyLines_within (numbered_line.mpr rfl) (by omega) (by omega)]
  obtain ⟨details, hline⟩ := checkLine_gap (H := H) hgap
  rw [hline, ← hnum]
  exact ⟨details, rfl⟩

omit [DecidableEq N] in
theorem first_le_last (h : Intact H s days) (hk : k < days.length)
    (hfirst : FirstLeft N (withoutOldest k s.2) first) : 1 ≤ first ∧ first ≤ s.1.sequenceNumber := by
  obtain ⟨e, es, hes, -, hfirst', -⟩ := starts_at h hk hfirst
  have hlen := congrArg List.length (entries_split days k)
  rw [hes, List.length_append, List.length_cons] at hlen
  rw [sequenceNumber_intact h]
  omega

omit [DecidableEq N] in
/-- Every line beside itself. -/
theorem tampered_self {dir : LogDir} (hdir : logLines dir = logLines s.2) :
    Tampered N s.2 dir ((logLines s.2).map fun f => f.map fun l => (l, l)) := by
  refine ⟨?_, ?_, ?_⟩
  · simp [Function.comp_def]
  · simp [Function.comp_def, hdir]
  · intro p hp
    rw [← List.map_flatten] at hp
    obtain ⟨line, -, rfl⟩ := List.mem_map.mp hp
    exact Or.inl rfl

omit [DecidableEq N] in
theorem changedNumbers_self (files : List (List (List Char))) :
    changedNumbers N (files.map fun f => f.map fun l => (l, l)).flatten = ∅ := by
  rw [Set.eq_empty_iff_forall_notMem]
  intro j hj
  obtain ⟨p, hp, -, hchanged⟩ := hj
  rw [← List.map_flatten] at hp
  obtain ⟨line, -, rfl⟩ := List.mem_map.mp hp
  exact not_changed_self line hchanged

omit [DecidableEq N] in
theorem changed_le_last (h : Intact H s days) {dir' : LogDir}
    {files : List (List (List Char × List Char))} (ht : Tampered N s.2 dir' files) {j : ℕ}
    (hj : j ∈ changedNumbers N files.flatten) : j ≤ s.1.sequenceNumber := by
  obtain ⟨p, hp, hnum, -⟩ := hj
  have hline : p.1 ∈ (days.map Prod.snd).flatten.map LogEntry.line := by
    rw [List.map_flatten, ← logLines_intact h, ht.original, ← List.map_flatten]
    exact List.mem_map_of_mem hp
  obtain ⟨e, he, heq⟩ := List.mem_map.mp hline
  rw [← heq] at hnum
  have hle := (Scheme.number_le h.linked he).2
  rw [Nat.zero_add, ← sequenceNumber_intact h] at hle
  rw [numbered_line.mp hnum]
  exact hle

/-- A log that is still whole is accepted, and refused where an entry is changed. -/
theorem whole_verifies (hH : Function.Injective H) (h : Intact H s days) (l : SiemLogger)
    {dir : LogDir} (hdir : logLines dir = logLines s.2) (hlast : 1 ≤ s.1.sequenceNumber) :
    StillVerifies N H l dir 1 s.1.sequenceNumber := by
  constructor
  · rcases verify_tampered hH h (tampered_self hdir) l (Nat.le_refl 1) hlast with
      ⟨k, -, hleast, -⟩ | ⟨-, hvalid⟩
    · have hchanged := hleast.1.1
      rw [changedNumbers_self] at hchanged
      exact absurd hchanged (Set.notMem_empty k)
    · exact hvalid
  · intro dir' files ht hlater
    have ht' : Tampered N s.2 dir' files := ⟨hdir.symm.trans ht.original, ht.tampered, ht.lines⟩
    rcases verify_tampered hH h ht' l (Nat.le_refl 1) hlast with ⟨k, details, -, hbroken⟩ |
      ⟨hnone, -⟩
    · rw [hbroken]
      rfl
    · obtain ⟨j, hj, hfirst⟩ := hlater
      have hhigh := changed_le_last h ht' hj
      exact absurd ⟨hj, Nat.le_of_lt hfirst, hhigh⟩ (Set.eq_empty_iff_forall_notMem.mp hnone j)

/-- Verification survives the removal of the oldest files of a log that a run has written
only where no file is removed. -/
theorem still_verifies_iff (H : String → String) (hH : HexDigest H) (dir : LogDir)
    (hdir : ∀ f ∈ dir.rows, isJsonl f.1 = false) (es : List (LogEvent N))
    (hclock : (es.flatMap LogEvent.readings).Pairwise fun t t' => t.dateKey ≤ t'.dateKey)
    (l : SiemLogger) (k first : ℕ)
    (hk : k < (jsonlFiles (runEvents H (onModuleInit N dir, dir) es).2).length)
    (hfirst : FirstLeft N (withoutOldest k (runEvents H (onModuleInit N dir, dir) es).2) first) :
    StillVerifies N H l (withoutOldest k (runEvents H (onModuleInit N dir, dir) es).2) first
      (runEvents H (onModuleInit N dir, dir) es).1.sequenceNumber ↔ k = 0 := by
  obtain ⟨days, h, -⟩ := intact_run hH.nonempty es (intact_start H hdir) hclock (by simp)
  rw [jsonlFiles_intact h, List.length_map] at hk
  obtain ⟨hlow, hhigh⟩ := first_le_last h hk hfirst
  constructor
  · intro hstill
    by_contra hpos
    obtain ⟨details, halarm⟩ := alarm_after_retention hH.ne_genesis h hk
      (Nat.pos_of_ne_zero hpos) hfirst l hhigh
    rw [hstill.1] at halarm
    contradiction
  · rintro rfl
    have hone : first = 1 := by
      obtain ⟨-, -, -, -, hfirst', -⟩ := starts_at h hk hfirst
      simpa using hfirst'
    rw [hone]
    refine whole_verifies hH.injective h l ?_ (Nat.le_trans hlow hhigh)
    rw [logLines_withoutOldest h, logLines_intact h, List.drop_zero]

end Retention

section TwoDays

private theorem firstLeft_twoDays : FirstLeft ℕ (withoutOldest 1 twoDays.2) 2 := by
  rw [FirstLeft, lines_withoutOldest intact_twoDays]
  constructor
  · exact ⟨secondLogin.line, List.mem_singleton.mpr rfl, numbered_line.mpr rfl⟩
  · intro j hj
    obtain ⟨l, hl, hnum⟩ := hj
    rw [List.mem_singleton.mp hl] at hnum
    exact Nat.le_of_eq (numbered_line.mp hnum).symm

/-- With the first day's file removed, the entry of the second day is reported. -/
theorem alarm_on_second_day : HexDigest hexText ∧ (jsonlFiles twoDays.2).length = 2 ∧
    FirstLeft ℕ (withoutOldest 1 twoDays.2) 2 ∧ twoDays.1.sequenceNumber = 2 ∧
    ∃ details, verifyChainIntegrity ℕ hexText twoDays.1 (withoutOldest 1 twoDays.2) (some 2)
      (some 2) = .broken (some (.num 2)) details := by
  refine ⟨hexDigest_hexText, ?_, firstLeft_twoDays, rfl, ?_⟩
  · rw [jsonlFiles_intact intact_twoDays]
    rfl
  · exact alarm_after_retention hexDigest_hexText.ne_genesis intact_twoDays (by decide) (by decide)
      firstLeft_twoDays _ (Nat.le_refl 2)

theorem still_verifies_iff_twoDays : StillVerifies ℕ hexText twoDays.1
    (withoutOldest 1 twoDays.2) 2 twoDays.1.sequenceNumber ↔ 1 = 0 := by
  refine still_verifies_iff hexText hexDigest_hexText Table.empty (by simp [Table.empty]) twoLogins
    (by decide) twoDays.1 1 2 ?_ firstLeft_twoDays
  have hlen : (jsonlFiles twoDays.2).length = 2 := by
    rw [jsonlFiles_intact intact_twoDays]
    rfl
  exact hlen ▸ Nat.one_lt_two

end TwoDays

end VerdeAuth.LogRetention
