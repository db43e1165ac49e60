import VerdeAuth.SiemChainIntegrity

/-!
# The chain that is logged

What a logger has logged is one chain in the order of the calls, whatever the
clock says. The files hold these entries by the day on which each was written.
-/

namespace VerdeAuth.LoggedChains

open HashChains JsonTexts KeyedTables SiemLoggerService LogEntryLines LogFileNames
open SiemChainIntegrity

variable {N : Type} [JsNumber N] {H : String → String} {s : SiemLogger × LogDir} {dir : LogDir}
variable {name : String} {all : List (LogEntry N)}

section Files

variable {P Q : LogEntry N → Prop}

/-- Every file of the log is made of whole lines of entries with a property, at least one. -/
def LoggedBy (P : LogEntry N → Prop) (dir : LogDir) : Prop :=
  ∀ f ∈ dir.rows, isJsonl f.1 = true →
    ∃ es : List (LogEntry N), es ≠ [] ∧ f.2 = render es ∧ ∀ e ∈ es, P e

theorem LoggedBy.imp (hPQ : ∀ e, P e → Q e) (h : LoggedBy P dir) : LoggedBy Q dir := by
  intro f hf hname
  obtain ⟨es, hne, hcontents, hall⟩ := h f hf hname
  exact ⟨es, hne, hcontents, fun e he => hPQ e (hall e he)⟩

theorem mem_jsonlFiles :
    name ∈ jsonlFiles dir ↔ isJsonl name = true ∧ ∃ f ∈ dir.rows, f.1 = name := by
  rw [jsonlFiles, List.mem_insertionSort, List.mem_filter, List.mem_map, and_comm]

/-- The contents of a file, or of one to be. -/
theorem contents_loggedBy (h : LoggedBy P dir) (hname : isJsonl name = true) :
    ∃ es : List (LogEntry N), readFile dir name = render es ∧ (∀ e ∈ es, P e) ∧
      (es = [] ↔ name ∉ jsonlFiles dir) := by
  rw [readFile]
  cases hget : dir.get? name with
  | none =>
    refine ⟨[], rfl, by simp, iff_of_true rfl fun hmem => ?_⟩
    obtain ⟨-, f, hf, rfl⟩ := mem_jsonlFiles.mp hmem
    rw [Table.get?_of_mem hf] at hget
    cases hget
  | some f =>
    have hkey : f.1 = name := Table.key_of_get? hget
    have hf := Table.mem_rows_of_get? hget
    obtain ⟨es, hne, hcontents, hall⟩ := h f hf (hkey ▸ hname)
    refine ⟨es, hcontents, hall, iff_of_false hne ?_⟩
    exact not_not_intro (mem_jsonlFiles.mpr ⟨hname, f, hf, hkey⟩)

theorem loggedBy_log {format : StandardLogFormat N} {now now' : Instant}
    (hnew : P (newEntry H s.1 format now)) (h : LoggedBy P s.2) :
    LoggedBy P (log H format now now' s).2.2 := by
  intro f hf hname
  rcases Table.mem_put hf with rfl | ⟨hf, -⟩
  · obtain ⟨es, hcontents, hall, -⟩ := contents_loggedBy h hname
    refine ⟨es ++ [newEntry H s.1 format now], by simp, ?_, ?_⟩
    · refine (congrArg (· ++ _) hcontents).trans ?_
      simp [render]
    · intro e he
      rcases List.mem_append.mp he with he | he
      · exact hall e he
      · obtain rfl := List.mem_singleton.mp he
        exact hnew
  · exact h f hf hname

theorem loggedBy_start (hdir : ∀ f ∈ dir.rows, isJsonl f.1 = false) : LoggedBy P dir := by
  intro f hf hname
  rw [hdir f hf] at hname
  cases hname

theorem loggedBy_filed {days : Days N} (h : Filed dir days) :
    LoggedBy (· ∈ (days.map Prod.snd).flatten) dir := by
  intro f hf hname
  have hmem : f.1 ∈ days.map fun d => logFileName d.1 := by
    rw [← h.names]
    exact List.mem_filter.mpr ⟨List.mem_map_of_mem hf, hname⟩
  obtain ⟨d, hd, hday⟩ := List.mem_map.mp hmem
  have hget := h.contents d hd
  rw [hday, Table.get?_of_mem hf] at hget
  refine ⟨d.2, h.nonempty d hd, congrArg Prod.snd (Option.some.inj hget), fun e he => ?_⟩
  exact List.mem_flatten_of_mem (List.mem_map_of_mem hd) he

/-- The lines of a file that is there, entry by entry. -/
theorem fileLines_loggedBy (h : LoggedBy P dir) (hname : name ∈ jsonlFiles dir) :
    ∃ es : List (LogEntry N), es ≠ [] ∧
      fileLines (readFile dir name) = es.map LogEntry.line ∧ ∀ e ∈ es, P e := by
  obtain ⟨es, hcontents, hall, hnew⟩ := contents_loggedBy h (mem_jsonlFiles.mp hname).1
  refine ⟨es, fun hnil => hnew.mp hnil hname, ?_, hall⟩
  rw [hcontents, fileLines_render]

theorem mem_logLines {l : List Char} : l ∈ (logLines dir).flatten ↔
    ∃ f ∈ jsonlFiles dir, l ∈ fileLines (readFile dir f) := by
  rw [logLines, List.mem_flatten]
  simp

theorem line_loggedBy (h : LoggedBy P dir) {l : List Char} (hl : l ∈ (logLines dir).flatten) :
    ∃ e : LogEntry N, P e ∧ e.line = l := by
  obtain ⟨f, hf, hl⟩ := mem_logLines.mp hl
  obtain ⟨es, -, hlines, hall⟩ := fileLines_loggedBy h hf
  rw [hlines] at hl
  obtain ⟨e, he, hline⟩ := List.mem_map.mp hl
  exact ⟨e, hall e he, hline⟩

/-- A directory with one file. -/
theorem logLines_appendFile {name : String} (h : isJsonl name = true) (cs : List Char) :
    logLines (appendFile Table.empty name cs) = [fileLines cs] := by
  have hread : readFile (appendFile Table.empty name cs) name = cs :=
    readFile_appendFile_self Table.empty name cs
  have hnames : jsonlFiles (appendFile Table.empty name cs) = [name] := by
    rw [jsonlFiles, names_appendFile Table.empty cs h]
    simp [Table.empty]
  rw [logLines, hnames, List.map_singleton, hread]

end Files

/-- The entries form one chain, the logger is at its end, and the files hold
lines of these entries. -/
structure Logged (H : String → String) (s : SiemLogger × LogDir) (all : List (LogEntry N)) :
    Prop where
  linked : (logChain H).Linked genesisHash 0 all
  atEnd : (s.1.lastHash, s.1.sequenceNumber) = (logChain H).chainEnd genesisHash 0 all
  lines : LoggedBy (· ∈ all) s.2

theorem Logged.sequenceNumber (h : Logged H s all) : s.1.sequenceNumber = all.length := by
  have hend := congrArg Prod.snd h.atEnd
  rwa [Scheme.chainEnd_number h.linked, Nat.zero_add] at hend

theorem logged_of_intact {days : Days N} (h : Intact H s days) :
    Logged H s (days.map Prod.snd).flatten := ⟨h.linked, h.atEnd, loggedBy_filed h.toFiled⟩

/-- A call adds its entry to the chain, on whatever day it is written. -/
theorem logged_log (h : Logged H s all) (format : StandardLogFormat N) (now now' : Instant) :
    Logged H (log H format now now' s).2 (all ++ [newEntry H s.1 format now]) := by
  have hend := h.atEnd
  rw [Prod.ext_iff] at hend
  refine ⟨?_, ?_, ?_⟩
  · exact Scheme.linked_append.mpr ⟨h.linked, hend.1, congrArg Nat.succ hend.2,
      congrArg (fun prev => computeHash H prev _) hend.1, trivial⟩
  · rw [Scheme.chainEnd_append_singleton]
    rfl
  · exact loggedBy_log (by simp) (h.lines.imp fun e he => List.mem_append_left _ he)

variable [DecidableEq N]

theorem logged_calls (es : List (LogEvent N)) (hes : .restart ∉ es) (h : Logged H s all) :
    Logged H (runEvents H s es) (all ++ loggedEntries H s es) := by
  induction es generalizing s all with
  | nil =>
    rw [loggedEntries, List.append_nil]
    exact h
  | cons e es ih =>
    have hrest : .restart ∉ es := fun he => hes (List.mem_cons_of_mem e he)
    cases e with
    | restart => exact absurd List.mem_cons_self hes
    | log format now now' =>
      have htail := ih hrest (logged_log h format now now')
      rw [List.append_assoc] at htail
      exact htail

/-- A run over a directory without log files: with any clock where nothing is
restarted, else on one whose date does not go back. -/
theorem logged_run (hH : ∀ s, H s ≠ "") (hdir : ∀ f ∈ dir.rows, isJsonl f.1 = false)
    (es : List (LogEvent N)) (hclock : .restart ∈ es →
      (es.flatMap LogEvent.readings).Pairwise fun t t' => t.dateKey ≤ t'.dateKey) :
    Logged H (runEvents H (onModuleInit N dir, dir) es)
      (loggedEntries H (onModuleInit N dir, dir) es) := by
  have hstart := intact_start (N := N) H hdir
  by_cases hes : .restart ∈ es
  · obtain ⟨days, h, hall⟩ := intact_run hH es hstart (hclock hes) (by simp)
    have hlogged := logged_of_intact h
    rw [hall] at hlogged
    exact hlogged
  · exact logged_calls es hes (logged_of_intact hstart)

end VerdeAuth.LoggedChains
