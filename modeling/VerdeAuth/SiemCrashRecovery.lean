import VerdeAuth.CutLines
import VerdeAuth.SiemForgedLines

/-!
# Restarts after a crash

A crash leaves the lines of the calls before it and a beginning of the line that
was being written, perhaps none of it in a new file. A new instance only looks at
the last line of the last file: where that line is cut, or the file has none, it
starts the chain afresh beside the entries that are there.
-/

namespace VerdeAuth.SiemCrashRecovery

open JsonTexts KeyedTables SiemLoggerService LogEntryLines LogFileNames SiemChainIntegrity
open CutLines HexDigests LoggedChains SiemVerifierReading

/-- Where the crash falls, after the calls whose lines are on disk: between two calls,
or in the next one, whose file has been opened and holds the first `kept` bytes of the line. -/
inductive Crash (N : Type) where
  | between
  | within (format : StandardLogFormat N) (now now' : Instant) (kept : ℕ)

variable {N : Type} [JsNumber N]

/-- What the crash leaves of the directory. -/
def crashDir (H : String → String) (s : SiemLogger × LogDir) : Crash N → LogDir
  | .between => s.2
  | .within format now now' kept =>
    appendFile s.2 (logFileName now')
      (utf8Prefix kept ((newEntry H s.1 format now).line ++ ['\n']))

variable (N) in
/-- The line is complete: it is the whole line of an entry. -/
def Whole (l : List Char) : Prop := ∃ e : LogEntry N, l = e.line

/-- The last complete line of the directory is this entry's. -/
def LastWhole (dir : LogDir) (e : LogEntry N) : Prop :=
  ∃ before after, (logLines dir).flatten = before ++ e.line :: after ∧ ∀ l ∈ after, ¬ Whole N l

/-- The entry takes up the chain at the last complete line of the directory. -/
structure TakesUp (dir : LogDir) (next : LogEntry N) : Prop where
  last : ∀ e : LogEntry N, LastWhole dir e →
    next.previousHash = e.hash ∧ next.logSequenceNumber = e.logSequenceNumber + 1
  first : (∀ l ∈ (logLines dir).flatten, ¬ Whole N l) →
    next.previousHash = genesisHash ∧ next.logSequenceNumber = 1

/-- Nothing was logged before, or the line is whole, or none of it is there and its file
was, or its file is not the last one. -/
def Harmless (H : String → String) (s : SiemLogger × LogDir) : Crash N → Prop
  | .between => True
  | .within format now now' kept =>
    jsonlFiles s.2 = [] ∨ utf8Length (newEntry H s.1 format now).line ≤ kept ∨
      (kept = 0 ∧ logFileName now' ∈ jsonlFiles s.2) ∨
      (jsonlFiles (crashDir H s (.within format now now' kept))).getLast? ≠
        some (logFileName now')

/-- The entry has a hash and a number, as those that were logged have. -/
structure Genuine (e : LogEntry N) : Prop where
  hash : e.hash ≠ ""
  number : 1 ≤ e.logSequenceNumber

variable (N) in
/-- Every file of the log is made of whole lines, at least one. -/
def Logged (dir : LogDir) : Prop :=
  ∀ f ∈ dir.rows, isJsonl f.1 = true →
    ∃ es : List (LogEntry N), es ≠ [] ∧ f.2 = render es ∧ ∀ e ∈ es, Genuine e

variable {H : String → String} {s : SiemLogger × LogDir} {dir : LogDir} {name : String}

theorem mem_jsonlFiles_appendFile (h : isJsonl name = true) {cs : List Char} {f : String} :
    f ∈ jsonlFiles (appendFile dir name cs) ↔ f = name ∨ f ∈ jsonlFiles dir := by
  rw [jsonlFiles, jsonlFiles, List.mem_insertionSort, List.mem_insertionSort,
    names_appendFile dir cs h]
  split
  · next hmem =>
    constructor
    · exact Or.inr
    · rintro (rfl | hf)
      · exact hmem
      · exact hf
  · rw [List.mem_append, List.mem_singleton, or_comm]

theorem contents_logged (h : Logged N dir) (hname : isJsonl name = true) :
    ∃ es : List (LogEntry N), readFile dir name = render es ∧ (∀ e ∈ es, Genuine e) ∧
      (es = [] ↔ name ∉ jsonlFiles dir) := contents_loggedBy h hname

theorem genuine_newEntry (hH : ∀ s, H s ≠ "") (l : SiemLogger) (format : StandardLogFormat N)
    (now : Instant) : Genuine (newEntry H l format now) := ⟨hH _, Nat.le_add_left 1 _⟩

theorem logged_log (hH : ∀ s, H s ≠ "") (h : Logged N s.2) (format : StandardLogFormat N)
    (now now' : Instant) : Logged N (log H format now now' s).2.2 :=
  loggedBy_log (genuine_newEntry hH s.1 format now) h

variable [DecidableEq N]

theorem logged_run (hH : ∀ s, H s ≠ "") (es : List (LogEvent N)) (h : Logged N s.2) :
    Logged N (runEvents H s es).2 := by
  induction es generalizing s with
  | nil => exact h
  | cons e es ih =>
    apply ih
    cases e with
    | restart => exact h
    | log format now now' => exact logged_log hH h format now now'

section Lines

omit [JsNumber N] [DecidableEq N] in
theorem exists_last {α : Type} {p : α → Prop} {xs : List α} (h : ∃ x ∈ xs, p x) :
    ∃ before x after, xs = before ++ x :: after ∧ p x ∧ ∀ y ∈ after, ¬ p y := by
  induction xs with
  | nil => simp at h
  | cons x xs ih =>
    by_cases htail : ∃ y ∈ xs, p y
    · obtain ⟨before, y, after, rfl, hy, hafter⟩ := ih htail
      exact ⟨x :: before, y, after, rfl, hy, hafter⟩
    · obtain ⟨y, hy, hp⟩ := h
      rcases List.mem_cons.mp hy with rfl | hy
      · exact ⟨[], y, xs, rfl, hp, fun z hz hpz => htail ⟨z, hz, hpz⟩⟩
      · exact absurd ⟨y, hy, hp⟩ htail

theorem getLast_logLines {l : List Char} (hfile : (jsonlFiles dir).getLast? = some name)
    (hline : (fileLines (readFile dir name)).getLast? = some l) :
    (logLines dir).flatten.getLast? = some l := by
  obtain ⟨init, hinit⟩ := List.getLast?_eq_some_iff.mp hfile
  obtain ⟨ls, hls⟩ := List.getLast?_eq_some_iff.mp hline
  rw [logLines, hinit]
  simp [hls]

end Lines

/-- A new instance takes up the chain where the last line of the last file is whole. -/
theorem takesUp_of_line {e : LogEntry N} (hfile : (jsonlFiles dir).getLast? = some name)
    (hline : (fileLines (readFile dir name)).getLast? = some e.line) (he : Genuine e)
    (format : StandardLogFormat N) (now : Instant) :
    TakesUp dir (newEntry H (onModuleInit N dir) format now) := by
  have hstate := lastLogged_line hfile hline he.hash
  have hhash := congrArg Prod.fst hstate
  have hseq := congrArg Prod.snd hstate
  have hflat := getLast_logLines hfile hline
  constructor
  · rintro e' ⟨before, after, hsplit, hafter⟩
    have hsame : e'.line = e.line := by
      rcases List.eq_nil_or_concat' after with rfl | ⟨init, l, rfl⟩
      · rw [hsplit, List.getLast?_concat] at hflat
        exact Option.some.inj hflat
      · rw [hsplit, ← List.cons_append, ← List.append_assoc, List.getLast?_concat] at hflat
        exact absurd ⟨e, Option.some.inj hflat⟩ (hafter l (by simp))
    rw [line_injective hsame]
    exact ⟨hhash, congrArg Nat.succ hseq⟩
  · intro hnone
    exact absurd ⟨e, rfl⟩ (hnone e.line (List.mem_of_getLast? hflat))

theorem takesUp_of_lines {es : List (LogEntry N)} (hfile : (jsonlFiles dir).getLast? = some name)
    (hlines : fileLines (readFile dir name) = es.map LogEntry.line) (hne : es ≠ [])
    (hes : ∀ e ∈ es, Genuine e) (format : StandardLogFormat N) (now : Instant) :
    TakesUp dir (newEntry H (onModuleInit N dir) format now) := by
  rcases List.eq_nil_or_concat' es with rfl | ⟨init, e, rfl⟩
  · exact absurd rfl hne
  · have hlast : (fileLines (readFile dir name)).getLast? = some e.line := by simp [hlines]
    exact takesUp_of_line hfile hlast (hes e (by simp)) format now

/-- Starting afresh is right where the directory holds no complete line. -/
theorem takesUp_of_none (hstart : lastLogged N dir = (genesisHash, 0))
    (hnone : ∀ l ∈ (logLines dir).flatten, ¬ Whole N l) (format : StandardLogFormat N)
    (now : Instant) : TakesUp dir (newEntry H (onModuleInit N dir) format now) := by
  constructor
  · rintro e ⟨before, after, hsplit, -⟩
    exact absurd ⟨e, rfl⟩ (hnone e.line (hsplit ▸ by simp))
  · intro _
    exact ⟨congrArg Prod.fst hstart, congrArg (·.2 + 1) hstart⟩

/-- Starting afresh is wrong where it holds one. -/
theorem not_takesUp (hstart : lastLogged N dir = (genesisHash, 0))
    (hwhole : ∃ l ∈ (logLines dir).flatten, Whole N l)
    (hgenuine : ∀ e : LogEntry N, e.line ∈ (logLines dir).flatten → 1 ≤ e.logSequenceNumber)
    (format : StandardLogFormat N) (now : Instant) :
    ¬ TakesUp dir (newEntry H (onModuleInit N dir) format now) := by
  intro h
  obtain ⟨before, l, after, hsplit, ⟨e, rfl⟩, hafter⟩ := exists_last hwhole
  have hpos := hgenuine e (hsplit ▸ by simp)
  have hnext : (onModuleInit N dir).sequenceNumber + 1 = e.logSequenceNumber + 1 :=
    (h.last e ⟨before, after, hsplit, hafter⟩).2
  have hzero : (onModuleInit N dir).sequenceNumber = 0 := congrArg Prod.snd hstart
  omega

section Writing

variable {format : StandardLogFormat N} {now now' : Instant} {kept : ℕ}

omit [DecidableEq N] in
theorem not_whole {l : List Char} (h : (parseText l : Option (Json N)) = none) : ¬ Whole N l := by
  rintro ⟨e, rfl⟩
  rw [parseText_line] at h
  cases h

omit [DecidableEq N] in
/-- A file the crash did not reach. -/
theorem readFile_crash {f : String} (hf : f ≠ logFileName now') :
    readFile (crashDir H s (.within format now now' kept)) f = readFile s.2 f := by
  exact readFile_appendFile_of_ne s.2 hf _

omit [DecidableEq N] in
theorem readFile_crash_self :
    readFile (crashDir H s (.within format now now' kept)) (logFileName now') =
      readFile s.2 (logFileName now') ++
        utf8Prefix kept ((newEntry H s.1 format now).line ++ ['\n']) := by
  exact readFile_appendFile_self s.2 _ _

omit [DecidableEq N] in
theorem mem_jsonlFiles_crash {f : String} :
    f ∈ jsonlFiles (crashDir H s (.within format now now' kept)) ↔
      f = logFileName now' ∨ f ∈ jsonlFiles s.2 :=
  mem_jsonlFiles_appendFile (isJsonl_fileName now')

omit [DecidableEq N] in
/-- The files after the crash: whole lines of entries, and perhaps a line that does not parse. -/
theorem file_after_crash (hH : ∀ s, H s ≠ "") (h : Logged N s.2) {f : String}
    (hf : f ∈ jsonlFiles (crashDir H s (.within format now now' kept))) :
    ∃ (es : List (LogEntry N)) (rest : List (List Char)),
      fileLines (readFile (crashDir H s (.within format now now' kept)) f) =
        es.map LogEntry.line ++ rest ∧
      (∀ e ∈ es, Genuine e) ∧ (f ∈ jsonlFiles s.2 → es ≠ []) ∧
      ∀ l ∈ rest, (parseText l : Option (Json N)) = none := by
  by_cases hname : f = logFileName now'
  · subst hname
    obtain ⟨es, hcontents, hgenuine, hnew⟩ := contents_logged h (isJsonl_fileName now')
    have hne : logFileName now' ∈ jsonlFiles s.2 → es ≠ [] := fun hmem hnil => hnew.mp hnil hmem
    rw [readFile_crash_self, hcontents]
    rcases fileLines_cut es (newEntry H s.1 format now) kept with
      ⟨-, hlines⟩ | ⟨-, hlines⟩ | ⟨-, -, l, hparse, hlines⟩
    · refine ⟨_, [], by rw [hlines, List.append_nil], ?_, by simp, by simp⟩
      intro e he
      rcases List.mem_append.mp he with he | he
      · exact hgenuine e he
      · obtain rfl := List.mem_singleton.mp he
        exact genuine_newEntry hH s.1 format now
    · exact ⟨es, [], by rw [hlines, List.append_nil], hgenuine, hne, by simp⟩
    · exact ⟨es, [l], hlines, hgenuine, hne, by simpa using hparse⟩
  · have hmem : f ∈ jsonlFiles s.2 := (mem_jsonlFiles_crash.mp hf).resolve_left hname
    obtain ⟨es, hcontents, hgenuine, hnew⟩ := contents_logged h (mem_jsonlFiles.mp hmem).1
    refine ⟨es, [], ?_, hgenuine, fun _ hnil => hnew.mp hnil hmem, by simp⟩
    rw [readFile_crash hname, hcontents, fileLines_render, List.append_nil]

omit [DecidableEq N] in
/-- The complete lines are those of entries that were logged. -/
theorem genuine_of_mem (hH : ∀ s, H s ≠ "") (h : Logged N s.2) {e : LogEntry N}
    (he : e.line ∈ (logLines (crashDir H s (.within format now now' kept))).flatten) :
    1 ≤ e.logSequenceNumber := by
  obtain ⟨f, hf, hmem⟩ := mem_logLines.mp he
  obtain ⟨es, rest, hlines, hgenuine, -, hrest⟩ := file_after_crash hH h hf
  rw [hlines] at hmem
  rcases List.mem_append.mp hmem with hmem | hmem
  · obtain ⟨e', he', hline⟩ := List.mem_map.mp hmem
    exact line_injective hline ▸ (hgenuine e' he').number
  · exact absurd ⟨e, rfl⟩ (not_whole (hrest _ hmem))

omit [DecidableEq N] in
/-- What was logged before is still there. -/
theorem exists_whole (hH : ∀ s, H s ≠ "") (h : Logged N s.2) (hlogged : jsonlFiles s.2 ≠ []) :
    ∃ l ∈ (logLines (crashDir H s (.within format now now' kept))).flatten, Whole N l := by
  obtain ⟨f, hf⟩ := List.exists_mem_of_ne_nil _ hlogged
  have hfile : f ∈ jsonlFiles (crashDir H s (.within format now now' kept)) :=
    mem_jsonlFiles_crash.mpr (Or.inr hf)
  obtain ⟨es, rest, hlines, -, hne, -⟩ := file_after_crash hH h hfile
  obtain ⟨e, he⟩ := List.exists_mem_of_ne_nil es (hne hf)
  refine ⟨e.line, mem_logLines.mpr ⟨f, hfile, ?_⟩, e, rfl⟩
  rw [hlines]
  exact List.mem_append_left _ (List.mem_map_of_mem he)

/-- Where the line being written is in the last file and none of it is whole there, the new
instance is right only if nothing was logged. -/
theorem takesUp_afresh (hH : ∀ s, H s ≠ "") (h : Logged N s.2)
    (hfile : (jsonlFiles (crashDir H s (.within format now now' kept))).getLast? =
      some (logFileName now'))
    (hlines : ∀ l ∈ (fileLines (readFile (crashDir H s (.within format now now' kept))
      (logFileName now'))).getLast?, (parseText l : Option (Json N)) = none)
    (hnew : jsonlFiles s.2 = [] → ∀ l ∈ fileLines (readFile
      (crashDir H s (.within format now now' kept)) (logFileName now')), ¬ Whole N l)
    (format' : StandardLogFormat N) (now₁ : Instant) :
    TakesUp (crashDir H s (.within format now now' kept)) (newEntry H
      (onModuleInit N (crashDir H s (.within format now now' kept))) format' now₁) ↔
      jsonlFiles s.2 = [] := by
  have hstart : lastLogged N (crashDir H s (.within format now now' kept)) = (genesisHash, 0) := by
    rw [lastLogged, hfile]
    cases hlast : (fileLines (readFile (crashDir H s (.within format now now' kept))
      (logFileName now'))).getLast? with
    | none => simp only [hlast]
    | some l =>
      have hparse := hlines l hlast
      simp only [hlast, hparse]
  by_cases hempty : jsonlFiles s.2 = []
  · refine iff_of_true (takesUp_of_none hstart ?_ format' now₁) hempty
    intro l hl
    obtain ⟨f, hf, hl⟩ := mem_logLines.mp hl
    have hname : f = logFileName now' := by
      rcases mem_jsonlFiles_crash.mp hf with hname | hf
      · exact hname
      · rw [hempty] at hf
        cases hf
    exact hnew hempty l (hname ▸ hl)
  · refine iff_of_false ?_ hempty
    exact not_takesUp hstart (exists_whole hH h hempty) (fun e he => genuine_of_mem hH h he) _ _

omit [DecidableEq N] in
theorem harmless_of_last (hfile : (jsonlFiles (crashDir H s
    (.within format now now' kept))).getLast? = some (logFileName now')) :
    Harmless H s (.within format now now' kept) ↔ jsonlFiles s.2 = [] ∨
      utf8Length (newEntry H s.1 format now).line ≤ kept ∨
        (kept = 0 ∧ logFileName now' ∈ jsonlFiles s.2) := by
  rw [Harmless, hfile]
  simp

/-- Where the file being written is not the last one, the last one is as it was. -/
theorem takesUp_elsewhere (h : Logged N s.2) {f : String}
    (hfile : (jsonlFiles (crashDir H s (.within format now now' kept))).getLast? = some f)
    (hname : f ≠ logFileName now') (format' : StandardLogFormat N) (now₁ : Instant) :
    TakesUp (crashDir H s (.within format now now' kept)) (newEntry H
      (onModuleInit N (crashDir H s (.within format now now' kept))) format' now₁) := by
  have hmem : f ∈ jsonlFiles s.2 :=
    (mem_jsonlFiles_crash.mp (List.mem_of_getLast? hfile)).resolve_left hname
  obtain ⟨es, hcontents, hgenuine, hnew⟩ := contents_logged h (mem_jsonlFiles.mp hmem).1
  have hlines : fileLines (readFile (crashDir H s (.within format now now' kept)) f) =
      es.map LogEntry.line := by rw [readFile_crash hname, hcontents, fileLines_render]
  exact takesUp_of_lines hfile hlines (fun hnil => hnew.mp hnil hmem) hgenuine format' now₁

theorem takesUp_within (hH : ∀ s, H s ≠ "") (h : Logged N s.2) (format' : StandardLogFormat N)
    (now₁ : Instant) :
    TakesUp (crashDir H s (.within format now now' kept)) (newEntry H
      (onModuleInit N (crashDir H s (.within format now now' kept))) format' now₁) ↔
      Harmless H s (.within format now now' kept) := by
  have hne : jsonlFiles (crashDir H s (.within format now now' kept)) ≠ [] :=
    List.ne_nil_of_mem (mem_jsonlFiles_crash.mpr (Or.inl rfl))
  obtain ⟨f, hfile⟩ := Option.isSome_iff_exists.mp (List.getLast?_isSome.mpr hne)
  by_cases hname : f = logFileName now'
  · subst hname
    obtain ⟨es, hcontents, hgenuine, hnew⟩ := contents_logged h (isJsonl_fileName now')
    have hread : readFile (crashDir H s (.within format now now' kept)) (logFileName now') = _ :=
      readFile_crash_self
    rw [hcontents] at hread
    have hpos := utf8Length_line_pos (newEntry H s.1 format now)
    rw [harmless_of_last hfile]
    rcases fileLines_cut es (newEntry H s.1 format now) kept with
      ⟨hle, hlines⟩ | ⟨hzero, hlines⟩ | ⟨hzero, hlt, l, hparse, hlines⟩
    · refine iff_of_true ?_ (Or.inr (Or.inl hle))
      rw [← hread] at hlines
      refine takesUp_of_lines hfile hlines (by simp) ?_ format' now₁
      intro e he
      rcases List.mem_append.mp he with he | he
      · exact hgenuine e he
      · obtain rfl := List.mem_singleton.mp he
        exact genuine_newEntry hH s.1 format now
    · rw [← hread] at hlines
      by_cases hmem : logFileName now' ∈ jsonlFiles s.2
      · refine iff_of_true ?_ (Or.inr (Or.inr ⟨hzero, hmem⟩))
        exact takesUp_of_lines hfile hlines (fun hnil => hnew.mp hnil hmem) hgenuine format' now₁
      · rw [hnew.mpr hmem] at hlines
        have hshort : ¬ utf8Length (newEntry H s.1 format now).line ≤ kept := by omega
        simp only [hshort, hmem, and_false, or_false]
        exact takesUp_afresh hH h hfile (by simp [hlines]) (by simp [hlines]) format' now₁
    · have hshort : ¬ utf8Length (newEntry H s.1 format now).line ≤ kept := Nat.not_le.mpr hlt
      simp only [hshort, hzero, false_and, or_false]
      rw [← hread] at hlines
      refine takesUp_afresh hH h hfile (by simpa [hlines] using hparse) ?_ format' now₁
      intro hempty l' hl'
      rw [hnew.mpr (by simp [hempty])] at hlines
      rw [hlines, List.map_nil, List.nil_append] at hl'
      exact List.mem_singleton.mp hl' ▸ not_whole hparse
  · apply iff_of_true
    · exact takesUp_elsewhere h hfile hname format' now₁
    · refine Or.inr (Or.inr (Or.inr ?_))
      rw [hfile]
      exact fun heq => hname (Option.some.inj heq)

theorem takesUp_between (h : Logged N dir) (format' : StandardLogFormat N) (now₁ : Instant) :
    TakesUp dir (newEntry H (onModuleInit N dir) format' now₁) := by
  cases hfile : (jsonlFiles dir).getLast? with
  | none =>
    have hnone : (logLines dir).flatten = [] := by
      rw [logLines, List.getLast?_eq_none_iff.mp hfile]
      rfl
    apply takesUp_of_none
    · rw [lastLogged, hfile]
    · simp [hnone]
  | some f =>
    have hmem := List.mem_of_getLast? hfile
    obtain ⟨es, hcontents, hgenuine, hnew⟩ := contents_logged h (mem_jsonlFiles.mp hmem).1
    have hlines : fileLines (readFile dir f) = es.map LogEntry.line := by
      rw [hcontents, fileLines_render]
    exact takesUp_of_lines hfile hlines (fun hnil => hnew.mp hnil hmem) hgenuine format' now₁

end Writing

/-- After which crashes a new instance takes the chain up where it ended. -/
theorem takes_up_iff (H : String → String) (hH : ∀ s, H s ≠ "") (dir : LogDir)
    (hdir : ∀ f ∈ dir.rows, isJsonl f.1 = false) (es : List (LogEvent N)) (crash : Crash N)
    (format : StandardLogFormat N) (now now' : Instant) :
    let s := runEvents H (onModuleInit N dir, dir) es
    let dir' := crashDir H s crash
    TakesUp dir' (log H format now now' (onModuleInit N dir', dir')).1 ↔ Harmless H s crash := by
  intro s dir'
  have hstart : Logged N dir := loggedBy_start hdir
  have h : Logged N s.2 := logged_run hH es hstart
  cases crash with
  | between => exact iff_of_true (takesUp_between h format now) trivial
  | within _ _ _ _ => exact takesUp_within hH h format now

omit [DecidableEq N] in
/-- A file of a later day comes after the others. -/
theorem logLines_newDay {days : Days N} (h : Intact H s days) {now : Instant}
    (hday : ∀ d ∈ days, d.1.dateKey < now.dateKey) (cs : List Char) :
    logLines (appendFile s.2 (logFileName now) cs) = logLines s.2 ++ [fileLines cs] := by
  have hfiles : jsonlFiles (appendFile s.2 (logFileName now) cs) =
      jsonlFiles s.2 ++ [logFileName now] := by
    let later : Days N := days ++ [(now, [])]
    have hascending : later.Pairwise fun d d' => d.1.dateKey < d'.1.dateKey := by
      refine List.pairwise_append.mpr ⟨h.ascending, by simp, fun d hd d' hd' => ?_⟩
      rw [List.mem_singleton.mp hd']
      exact hday d hd
    have hsorted := sort_days hascending
    rw [List.map_append, List.map_singleton] at hsorted
    rw [jsonlFiles, names_newDay h.toFiled hday, jsonlFiles_intact h, hsorted]
  have hself : readFile (appendFile s.2 (logFileName now) cs) (logFileName now) = cs := by
    rw [readFile_appendFile_self, readFile_newDay h.toFiled hday, List.nil_append]
  rw [logLines, hfiles, List.map_append, List.map_singleton, hself, logLines]
  congr 1
  apply List.map_congr_left
  intro f hf
  rw [jsonlFiles_intact h] at hf
  obtain ⟨d, hd, rfl⟩ := List.mem_map.mp hf
  rw [readFile_appendFile_of_ne s.2 (fileName_ne_newDay hday hd)]

theorem appendFile_appendFile (dir : LogDir) (name : String) (cs cs' : List Char) :
    appendFile (appendFile dir name cs) name cs' = appendFile dir name (cs ++ cs') := by
  rw [appendFile, readFile_appendFile_self, List.append_assoc]
  exact Table.put_put dir rfl

section EmptyFile

/-- The first call of the next day has opened its file, and written nothing. -/
def emptyFile : Crash ℕ := .within loginFormat nextMorning nextMorning 0

/-- The instance that starts after this crash. -/
def restarted : SiemLogger × LogDir :=
  let dir := crashDir hexText loginRun emptyFile
  (onModuleInit ℕ dir, dir)

/-- The entry it logs first. -/
def firstEntry : LogEntry ℕ := (log hexText loginFormat nextMorning nextMorning restarted).1

def resumed : SiemLogger × LogDir := (log hexText loginFormat nextMorning nextMorning restarted).2

theorem restarted_dir : restarted.2 = appendFile loginRun.2 (logFileName nextMorning) [] := by
  change appendFile loginRun.2 (logFileName nextMorning) (utf8Prefix 0 _) = _
  rw [utf8Prefix_zero]

theorem logLines_restarted : logLines restarted.2 = [[loginEntry.line], []] := by
  rw [restarted_dir, logLines_newDay intact_loginRun later_nextMorning,
    logLines_intact intact_loginRun]
  rfl

theorem logLines_resumed : logLines resumed.2 = [[loginEntry.line], [firstEntry.line]] := by
  have hdir : resumed.2 =
      appendFile loginRun.2 (logFileName nextMorning) (firstEntry.line ++ ['\n']) := by
    change appendFile restarted.2 (logFileName nextMorning) (firstEntry.line ++ ['\n']) = _
    rw [restarted_dir, appendFile_appendFile, List.nil_append]
  have hlines : fileLines (firstEntry.line ++ ['\n']) = [firstEntry.line] := by
    have hrender := fileLines_render [firstEntry]
    simpa [render] using hrender
  rw [hdir, logLines_newDay intact_loginRun later_nextMorning, logLines_intact intact_loginRun,
    hlines]
  rfl

/-- The chain starts afresh after a crash that leaves the file of the new day empty, and
the logger then rejects its own directory. -/
theorem chain_restarted :
    LastWhole restarted.2 loginEntry ∧ loginEntry.logSequenceNumber = 1 ∧
    firstEntry.previousHash = genesisHash ∧ firstEntry.logSequenceNumber = 1 ∧
    ¬ TakesUp restarted.2 firstEntry ∧
    (verifyChainIntegrity ℕ hexText resumed.1 resumed.2 none none).isValid = false := by
  have hlast : LastWhole restarted.2 loginEntry :=
    ⟨[], [], by rw [logLines_restarted]; rfl, by simp⟩
  have hfirst : firstEntry.previousHash = genesisHash := by decide +kernel
  have hnumber : firstEntry.logSequenceNumber = 1 := by decide +kernel
  have hlogin : loginEntry.logSequenceNumber = 1 := rfl
  refine ⟨hlast, hlogin, hfirst, hnumber, ?_, ?_⟩
  · intro h
    have hnext := (h.last loginEntry hlast).2
    rw [hnumber, hlogin] at hnext
    cases hnext
  · have hstop : orDefault none resumed.1.sequenceNumber = 1 := by
      change orDefault none firstEntry.logSequenceNumber = 1
      rw [hnumber]
      rfl
    have hplace : ∀ l ∈ (logLines resumed.2).flatten, placeBetween ℕ 1 1 l = .within := by
      rw [logLines_resumed]
      intro l hl
      rcases List.mem_cons.mp hl with rfl | hl
      · rw [placeBetween_entry, hlogin]
        rfl
      · obtain rfl := List.mem_singleton.mp hl
        rw [placeBetween_entry, hnumber]
        rfl
    rw [← Bool.not_eq_true, isValid_verifyChainIntegrity, hstop]
    rw [orDefault_none, linesRead_of_within hplace, not_unbroken]
    refine ⟨[loginEntry.line], firstEntry.line, [], by rw [logLines_resumed]; rfl,
      hplace _ (by rw [logLines_resumed]; simp), ?_⟩
    rw [extends_iff (parseText_line firstEntry)]
    rintro ⟨-, hprev, -⟩
    have hhash : hashBefore ℕ [loginEntry.line] = some (.str loginEntry.hash) :=
      storedHash_line loginEntry
    rw [get?_previousHash, hfirst, hhash] at hprev
    have hne : loginEntry.hash ≠ genesisHash := by decide +kernel
    exact hne (by simpa using strictEq_str_left.mp hprev)

/-- A crash before a second line of the same day does no harm. -/
theorem takes_up_iff_login :
    let dir' := crashDir hexText loginRun (.within loginFormat morning morning 0)
    TakesUp dir' (log hexText loginFormat morning morning (onModuleInit ℕ dir', dir')).1 := by
  have hmem : logFileName morning ∈ jsonlFiles loginRun.2 := by
    rw [jsonlFiles_intact intact_loginRun]
    exact List.mem_cons_self
  exact (takes_up_iff hexText hexDigest_hexText.nonempty Table.empty (by simp [Table.empty])
    [.log loginFormat morning morning] (.within loginFormat morning morning 0) loginFormat morning
    morning).mpr (Or.inr (Or.inr (Or.inl ⟨rfl, hmem⟩)))

end EmptyFile

end VerdeAuth.SiemCrashRecovery
