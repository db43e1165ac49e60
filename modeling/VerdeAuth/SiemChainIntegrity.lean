import VerdeAuth.HashChains
import VerdeAuth.LogEntryLines
import VerdeAuth.LogFileNames

/-!
# An untouched log verifies

Runs of the logger, with clean restarts, over a directory that starts without
log files. The directory then holds one file a day, and the entries of all files
in order form one chain from the genesis hash.
-/

namespace VerdeAuth.SiemChainIntegrity

open HashChains JsonTexts KeyedTables SiemLoggerService LogEntryLines LogFileNames

/-- A call of `log`, with the clock where it stamps the entry and where it
writes the line, or a restart: the instance closes and a new one starts. -/
inductive LogEvent (N : Type) where
  | log (format : StandardLogFormat N) (now now' : Instant)
  | restart

variable {N : Type}

/-- The readings of the wall clock. -/
def LogEvent.readings : LogEvent N → List Instant
  | .log _ now now' => [now, now']
  | .restart => []

def LogEvent.isLog : LogEvent N → Bool
  | .log _ _ _ => true
  | .restart => false

variable [JsNumber N]

section Chain

/-- The entries of a log as a chain. -/
def logChain (H : String → String) : Scheme (LogEntry N) String where
  previous := LogEntry.previousHash
  link := LogEntry.hash
  number := LogEntry.logSequenceNumber
  digest prev e := computeHash H prev e.toStandardLogFormat.properties

theorem linked_cons {H : String → String} {prev : String} {n : ℕ} {e : LogEntry N}
    {es : List (LogEntry N)} : (logChain H).Linked prev n (e :: es) ↔
      e.previousHash = prev ∧ e.logSequenceNumber = n + 1 ∧
        e.hash = computeHash H prev e.toStandardLogFormat.properties ∧
        (logChain H).Linked e.hash (n + 1) es := Iff.rfl

theorem numbers_of_linked {H : String → String} {prev : String} {n : ℕ} {es : List (LogEntry N)}
    (h : (logChain H).Linked prev n es) : es.map (fun e => e.json.get? "logSequenceNumber") =
      (List.range es.length).map fun i => some (.num (JsNumber.ofNat (n + i + 1))) := by
  induction es generalizing prev n with
  | nil => rfl
  | cons e es ih =>
    obtain ⟨-, hn, -, hes⟩ := linked_cons.mp h
    rw [List.map_cons, List.length_cons, List.range_succ_eq_map, List.map_cons, List.map_map,
      ih hes, get?_logSequenceNumber, hn]
    refine congrArg _ (List.map_congr_left fun i _ => ?_)
    simp only [Function.comp_apply]
    rw [show n + 1 + i + 1 = n + i.succ + 1 by omega]

theorem previousHashes_of_linked {H : String → String} {prev : String} {n : ℕ}
    {es : List (LogEntry N)} (h : (logChain H).Linked prev n es) :
    es.map (fun e => e.json.get? "previousHash") =
      (some (.str prev) :: es.map fun e => e.json.get? "hash").dropLast := by
  induction es generalizing prev n with
  | nil => rfl
  | cons e es ih =>
    obtain ⟨hp, -, -, hes⟩ := linked_cons.mp h
    rw [List.map_cons, List.map_cons, ih hes, get?_previousHash, hp, get?_hash,
      List.dropLast_cons_of_ne_nil (List.cons_ne_nil _ _)]

theorem recomputedHash_linked (H : String → String) (e : LogEntry N) :
    recomputedHash H e.json =
      some (computeHash H e.previousHash e.toStandardLogFormat.properties) := by
  rw [recomputedHash, get?_previousHash, hashedProperties_entry]
  rfl

end Chain

section Files

theorem get?_appendFile_self (dir : LogDir) (name : String) (cs : List Char) :
    (appendFile dir name cs).get? name = some (name, readFile dir name ++ cs) :=
  Table.get?_put_self dir _

theorem get?_appendFile_of_ne (dir : LogDir) {name name' : String} (h : name' ≠ name)
    (cs : List Char) : (appendFile dir name cs).get? name' = dir.get? name' :=
  Table.get?_put_of_ne dir _ h

theorem readFile_appendFile_self (dir : LogDir) (name : String) (cs : List Char) :
    readFile (appendFile dir name cs) name = readFile dir name ++ cs := by
  rw [readFile, get?_appendFile_self]
  rfl

theorem readFile_appendFile_of_ne (dir : LogDir) {name name' : String} (h : name' ≠ name)
    (cs : List Char) : readFile (appendFile dir name cs) name' = readFile dir name' := by
  rw [readFile, get?_appendFile_of_ne dir h, readFile]

theorem names_appendFile (dir : LogDir) {name : String} (cs : List Char)
    (h : isJsonl name = true) :
    ((appendFile dir name cs).rows.map Prod.fst).filter isJsonl =
      if name ∈ (dir.rows.map Prod.fst).filter isJsonl then
        (dir.rows.map Prod.fst).filter isJsonl
      else (dir.rows.map Prod.fst).filter isJsonl ++ [name] := by
  have hkeys : (appendFile dir name cs).rows.map Prod.fst =
      if name ∈ dir.rows.map Prod.fst then dir.rows.map Prod.fst
      else dir.rows.map Prod.fst ++ [name] := Table.keys_put dir (name, readFile dir name ++ cs)
  by_cases hmem : name ∈ dir.rows.map Prod.fst
  · rw [hkeys, if_pos hmem, if_pos (List.mem_filter.mpr ⟨hmem, h⟩)]
  · rw [hkeys, if_neg hmem, if_neg fun hf => hmem (List.mem_filter.mp hf).1, List.filter_append]
    simp [h]

/-- Log files by their day, with their entries. -/
abbrev Days (N : Type) := List (Instant × List (LogEntry N))

/-- The directory holds the entries of these days. -/
structure Filed (dir : LogDir) (days : Days N) : Prop where
  names : (dir.rows.map Prod.fst).filter isJsonl = days.map fun d => logFileName d.1
  contents : ∀ d ∈ days, dir.get? (logFileName d.1) = some (logFileName d.1, render d.2)
  ascending : days.Pairwise fun d d' => d.1.dateKey < d'.1.dateKey
  nonempty : ∀ d ∈ days, d.2 ≠ []

/-- The directory holds the entries of these days, which form one chain, and the
logger is at its end. -/
structure Intact (H : String → String) (s : SiemLogger × LogDir) (days : Days N) : Prop
    extends Filed s.2 days where
  linked : (logChain H).Linked genesisHash 0 (days.map Prod.snd).flatten
  atEnd : (s.1.lastHash, s.1.sequenceNumber) =
    (logChain H).chainEnd genesisHash 0 (days.map Prod.snd).flatten

variable {dir : LogDir} {H : String → String} {s : SiemLogger × LogDir} {days : Days N}

omit [JsNumber N] in
/-- The files of ascending days are sorted. -/
theorem sort_days (h : days.Pairwise fun d d' => d.1.dateKey < d'.1.dateKey) :
    (days.map fun d => logFileName d.1).insertionSort (fun a b => sortsBefore a b = true) =
      days.map fun d => logFileName d.1 := by
  apply List.Pairwise.insertionSort_eq
  refine List.pairwise_map.mpr (h.imp fun {a b} hab => ?_)
  exact (sortsBefore_iff a.1 b.1).mpr (Nat.le_of_lt hab)

theorem jsonlFiles_filed (h : Filed dir days) :
    jsonlFiles dir = days.map fun d => logFileName d.1 := by
  rw [jsonlFiles, h.names, sort_days h.ascending]

theorem jsonlFiles_intact (h : Intact H s days) :
    jsonlFiles s.2 = days.map fun d => logFileName d.1 := jsonlFiles_filed h.toFiled

theorem fileLines_filed (h : Filed dir days) {d : Instant × List (LogEntry N)}
    (hd : d ∈ days) : fileLines (readFile dir (logFileName d.1)) = d.2.map LogEntry.line := by
  rw [readFile, h.contents d hd]
  exact fileLines_render d.2

theorem fileLines_intact (h : Intact H s days) {d : Instant × List (LogEntry N)}
    (hd : d ∈ days) : fileLines (readFile s.2 (logFileName d.1)) = d.2.map LogEntry.line :=
  fileLines_filed h.toFiled hd

theorem logLines_filed (h : Filed dir days) :
    logLines dir = (days.map Prod.snd).map fun es => es.map LogEntry.line := by
  rw [logLines, jsonlFiles_filed h, List.map_map, List.map_map]
  exact List.map_congr_left fun d hd => fileLines_filed h hd

theorem logLines_intact (h : Intact H s days) :
    logLines s.2 = (days.map Prod.snd).map fun es => es.map LogEntry.line := logLines_filed h.toFiled

theorem sequenceNumber_intact (h : Intact H s days) :
    s.1.sequenceNumber = (days.map Prod.snd).flatten.length := by
  have hend := congrArg Prod.snd h.atEnd
  rwa [Scheme.chainEnd_number h.linked, Nat.zero_add] at hend

theorem hash_ne_empty (hH : ∀ s, H s ≠ "") {prev : String} {n : ℕ} {es : List (LogEntry N)}
    (h : (logChain H).Linked prev n es) {e : LogEntry N} (he : e ∈ es) : e.hash ≠ "" := by
  have hh : e.hash = H _ := Scheme.link_eq_digest h he
  rw [hh]
  exact hH _

private theorem mem_names (h : Filed dir days) {name : String} :
    name ∈ (dir.rows.map Prod.fst).filter isJsonl ↔ ∃ d ∈ days, logFileName d.1 = name := by
  rw [h.names, List.mem_map]

/-- An entry written on the day of the last file extends that file. -/
private theorem filed_sameDay {d : Instant × List (LogEntry N)} (h : Filed dir (days ++ [d]))
    (e : LogEntry N) {now' : Instant} (hday : d.1.dateKey = now'.dateKey) :
    Filed (appendFile dir (logFileName now') (e.line ++ ['\n'])) (days ++ [(d.1, d.2 ++ [e])]) := by
  have hname : logFileName now' = logFileName d.1 := fileName_of_dateKey hday.symm
  have hmem : logFileName now' ∈ (dir.rows.map Prod.fst).filter isJsonl :=
    (mem_names h).mpr ⟨d, by simp, hname.symm⟩
  refine ⟨?_, ?_, ?_, ?_⟩
  · refine (names_appendFile dir _ (isJsonl_fileName now')).trans ?_
    rw [if_pos hmem, h.names]
    simp
  · intro d' hd'
    rcases List.mem_append.mp hd' with hd' | hd'
    · have hlt := (List.pairwise_append.mp h.ascending).2.2 d' hd' d (by simp)
      have hne : logFileName d'.1 ≠ logFileName now' := by
        intro he
        have hkey := dateKey_of_fileName he
        omega
      exact (get?_appendFile_of_ne dir hne _).trans (h.contents d' (by simp [hd']))
    · rw [List.mem_singleton.mp hd']
      have hread : readFile dir (logFileName now') = render d.2 := by
        rw [readFile, hname, h.contents d (by simp)]
        rfl
      have hself := get?_appendFile_self dir (logFileName now') (e.line ++ ['\n'])
      rw [hread, hname] at hself
      rw [hname]
      exact hself.trans (by simp [render])
  · refine List.pairwise_append.mpr ⟨(List.pairwise_append.mp h.ascending).1, by simp, ?_⟩
    intro d' hd' d'' hd''
    rw [List.mem_singleton.mp hd'']
    exact (List.pairwise_append.mp h.ascending).2.2 d' hd' d (by simp)
  · intro d' hd'
    rcases List.mem_append.mp hd' with hd' | hd'
    · exact h.nonempty d' (by simp [hd'])
    · rw [List.mem_singleton.mp hd']
      simp

omit [JsNumber N] in
theorem fileName_ne_newDay {now' : Instant} (hday : ∀ d ∈ days, d.1.dateKey < now'.dateKey)
    {d : Instant × List (LogEntry N)} (hd : d ∈ days) : logFileName d.1 ≠ logFileName now' := by
  intro he
  have hkey := dateKey_of_fileName he
  have hlt := hday d hd
  omega

theorem names_newDay (h : Filed dir days) {now' : Instant}
    (hday : ∀ d ∈ days, d.1.dateKey < now'.dateKey) (cs : List Char) :
    ((appendFile dir (logFileName now') cs).rows.map Prod.fst).filter isJsonl =
      (days.map fun d => logFileName d.1) ++ [logFileName now'] := by
  have hnew : logFileName now' ∉ (dir.rows.map Prod.fst).filter isJsonl := by
    intro hmem
    obtain ⟨d, hd, he⟩ := (mem_names h).mp hmem
    exact fileName_ne_newDay hday hd he
  refine (names_appendFile dir _ (isJsonl_fileName now')).trans ?_
  rw [if_neg hnew, h.names]

/-- On a later day there is no file yet. -/
theorem readFile_newDay (h : Filed dir days) {now' : Instant}
    (hday : ∀ d ∈ days, d.1.dateKey < now'.dateKey) : readFile dir (logFileName now') = [] := by
  have hnone : dir.get? (logFileName now') = none := by
    cases hg : dir.get? (logFileName now') with
    | none => rfl
    | some f =>
      have hkey : f.1 = logFileName now' := Table.key_of_get? hg
      have hmem : logFileName now' ∈ (dir.rows.map Prod.fst).filter isJsonl :=
        List.mem_filter.mpr
          ⟨hkey ▸ List.mem_map_of_mem (Table.mem_rows_of_get? hg), isJsonl_fileName now'⟩
      obtain ⟨d, hd, he⟩ := (mem_names h).mp hmem
      exact absurd he (fileName_ne_newDay hday hd)
  rw [readFile, hnone]
  rfl

/-- An entry written on a later day starts a file. -/
theorem filed_newDay (h : Filed dir days) (e : LogEntry N) {now' : Instant}
    (hday : ∀ d ∈ days, d.1.dateKey < now'.dateKey) :
    Filed (appendFile dir (logFileName now') (e.line ++ ['\n'])) (days ++ [(now', [e])]) := by
  refine ⟨?_, ?_, ?_, ?_⟩
  · exact (names_newDay h hday _).trans (by simp)
  · intro d hd
    rcases List.mem_append.mp hd with hd | hd
    · exact (get?_appendFile_of_ne dir (fileName_ne_newDay hday hd) _).trans (h.contents d hd)
    · rw [List.mem_singleton.mp hd]
      refine (get?_appendFile_self dir (logFileName now') _).trans ?_
      rw [readFile_newDay h hday]
      simp [render]
  · refine List.pairwise_append.mpr ⟨h.ascending, by simp, ?_⟩
    intro d hd d' hd'
    rw [List.mem_singleton.mp hd']
    exact hday d hd
  · intro d hd
    rcases List.mem_append.mp hd with hd | hd
    · exact h.nonempty d hd
    · rw [List.mem_singleton.mp hd]
      simp

/-- A line that is written comes last, on a clock whose date does not go back. -/
theorem filed_append (h : Filed dir days) (e : LogEntry N) {now' : Instant}
    (hday : ∀ d ∈ days, d.1.dateKey ≤ now'.dateKey) :
    ∃ days' : Days N, Filed (appendFile dir (logFileName now') (e.line ++ ['\n'])) days' ∧
      (days'.map Prod.snd).flatten = (days.map Prod.snd).flatten ++ [e] ∧
      ∀ d ∈ days', d.1.dateKey ≤ now'.dateKey := by
  by_cases hall : ∀ d ∈ days, d.1.dateKey < now'.dateKey
  · refine ⟨_, filed_newDay h e hall, by simp, fun d hd => ?_⟩
    rcases List.mem_append.mp hd with hd | hd
    · exact hday d hd
    · rw [List.mem_singleton.mp hd]
  · rcases List.eq_nil_or_concat' days with rfl | ⟨init, d, rfl⟩
    · exact absurd (by simp) hall
    · have hlast : d.1.dateKey = now'.dateKey := by
        have hle := hday d (by simp)
        by_contra hne
        refine hall fun d' hd' => ?_
        rcases List.mem_append.mp hd' with hd' | hd'
        · have hlt := (List.pairwise_append.mp h.ascending).2.2 d' hd' d (by simp)
          omega
        · rw [List.mem_singleton.mp hd']
          omega
      refine ⟨_, filed_sameDay h e hlast, by simp, fun d' hd' => ?_⟩
      rcases List.mem_append.mp hd' with hd' | hd'
      · exact hday d' (by simp [hd'])
      · rw [List.mem_singleton.mp hd']
        exact hday d (by simp)

/-- Where the line of a new entry is in place, the chain is extended by it. -/
private theorem intact_of_filed (h : Intact H s days) {format : StandardLogFormat N}
    {now now' : Instant} {days' : Days N} (hfiled : Filed (log H format now now' s).2.2 days')
    (hflat : (days'.map Prod.snd).flatten =
      (days.map Prod.snd).flatten ++ [newEntry H s.1 format now]) :
    Intact H (log H format now now' s).2 days' := by
  have hend := h.atEnd
  rw [Prod.ext_iff] at hend
  refine ⟨hfiled, ?_, ?_⟩
  · rw [hflat]
    exact Scheme.linked_append.mpr ⟨h.linked, hend.1, congrArg Nat.succ hend.2,
      congrArg (fun prev => computeHash H prev _) hend.1, trivial⟩
  · rw [hflat, Scheme.chainEnd_append_singleton]
    rfl

theorem intact_newDay (h : Intact H s days) (format : StandardLogFormat N)
    (now : Instant) {now' : Instant} (hday : ∀ d ∈ days, d.1.dateKey < now'.dateKey) :
    Intact H (log H format now now' s).2 (days ++ [(now', [newEntry H s.1 format now])]) :=
  intact_of_filed h (filed_newDay h.toFiled _ hday) (by simp)

theorem intact_log (h : Intact H s days) (format : StandardLogFormat N) (now : Instant)
    {now' : Instant} (hday : ∀ d ∈ days, d.1.dateKey ≤ now'.dateKey) :
    ∃ days' : Days N, Intact H (log H format now now' s).2 days' ∧
      (days'.map Prod.snd).flatten =
        (days.map Prod.snd).flatten ++ [newEntry H s.1 format now] ∧
      ∀ d ∈ days', d.1.dateKey ≤ now'.dateKey := by
  obtain ⟨days', hfiled, hflat, hdays'⟩ := filed_append h.toFiled (newEntry H s.1 format now) hday
  exact ⟨days', intact_of_filed h hfiled hflat, hflat, hdays'⟩

end Files

variable [DecidableEq N]

section Verifier

theorem orDefault_none (d : ℕ) : orDefault none d = d := by simp [orDefault]

theorem orDefault_some {n : ℕ} (h : 1 ≤ n) (d : ℕ) : orDefault (some n) d = n := by
  rw [orDefault, Option.getD_some, if_neg (Nat.ne_of_gt h)]

/-- An entry that continues the chain passes. -/
theorem checkLine_linked {H : String → String} {prev : String} {n stop : ℕ} {e : LogEntry N}
    (h : (logChain H).Linked prev n [e]) (hstop : n + 1 ≤ stop) :
    checkLine H 1 stop (some (.str prev) : Option (Json N)) e.line = .next (some (.str e.hash)) := by
  obtain ⟨hp, hn, hh, -⟩ := linked_cons.mp h
  have hlow : ¬ n + 1 < 1 := by omega
  have hhigh : ¬ stop < n + 1 := by omega
  have hcheck : checkEntry H 1 stop (some (.str prev)) e.json = .next (some (.str e.hash)) := by
    simp [checkEntry, recomputedHash_linked H, hn, hp, ← hh, hlow, hhigh, Json.strictEq]
  rw [checkLine, parseText_line]
  exact hcheck

theorem verifyLines_linked {H : String → String} {prev : String} {n stop : ℕ}
    {es : List (LogEntry N)} (h : (logChain H).Linked prev n es) (hstop : n + es.length ≤ stop) :
    verifyLines H 1 stop (some (.str prev) : Option (Json N)) (es.map LogEntry.line) =
      .ok (some (.str ((logChain H).chainEnd prev n es).1)) := by
  induction es generalizing prev n with
  | nil => rfl
  | cons e es ih =>
    rw [List.length_cons] at hstop
    obtain ⟨hp, hn, hh, hes⟩ := linked_cons.mp h
    have hline : checkLine H 1 stop (some (.str prev) : Option (Json N)) e.line =
        .next (some (.str e.hash)) :=
      checkLine_linked ⟨hp, hn, hh, trivial⟩ (by omega)
    rw [List.map_cons, verifyLines, hline]
    simpa only [Scheme.chainEnd, logChain, hn] using ih hes (by omega)

theorem verifyFiles_linked {H : String → String} {prev : String} {n stop : ℕ}
    {files : List (List (LogEntry N))} (h : (logChain H).Linked prev n files.flatten)
    (hstop : n + files.flatten.length ≤ stop) :
    verifyFiles H 1 stop (some (.str prev) : Option (Json N))
      (files.map fun es => es.map LogEntry.line) = .valid := by
  induction files generalizing prev n with
  | nil => rfl
  | cons es files ih =>
    rw [List.flatten_cons, List.length_append] at hstop
    obtain ⟨hes, hfiles⟩ := Scheme.linked_append.mp h
    rw [List.map_cons, verifyFiles, verifyLines_linked hes (by omega)]
    refine ih hfiles ?_
    rw [Scheme.chainEnd_number hes]
    omega

end Verifier

section Runs

def step (H : String → String) (s : SiemLogger × LogDir) : LogEvent N → SiemLogger × LogDir
  | .log format now now' => (log H format now now' s).2
  | .restart => (onModuleInit N s.2, s.2)

def runEvents (H : String → String) (s : SiemLogger × LogDir) (es : List (LogEvent N)) :
    SiemLogger × LogDir := es.foldl (step H) s

/-- The entries the calls of a run return, in order. -/
def loggedEntries (H : String → String) :
    SiemLogger × LogDir → List (LogEvent N) → List (LogEntry N)
  | _, [] => []
  | s, .log format now now' :: es =>
    (log H format now now' s).1 :: loggedEntries H (log H format now now' s).2 es
  | s, .restart :: es => loggedEntries H (onModuleInit N s.2, s.2) es

theorem length_loggedEntries (H : String → String) (s : SiemLogger × LogDir) (es : List (LogEvent N)) :
    (loggedEntries H s es).length = es.countP LogEvent.isLog := by
  induction es generalizing s with
  | nil => rfl
  | cons e es ih =>
    cases e with
    | log format now now' => simp [loggedEntries, ih, List.countP_cons, LogEvent.isLog]
    | restart => simp [loggedEntries, ih, LogEvent.isLog]

variable {H : String → String} {s : SiemLogger × LogDir} {days : Days N}

/-- A restart reads the chain off the last line of the last file. -/
theorem lastLogged_line {dir : LogDir} {name : String} {e : LogEntry N}
    (hfile : (jsonlFiles dir).getLast? = some name)
    (hline : (fileLines (readFile dir name)).getLast? = some e.line) (hne : e.hash ≠ "") :
    lastLogged N dir = (e.hash, e.logSequenceNumber) := by
  have hhash : lastHashOf (e.json.get? "hash") = e.hash := by
    simp [lastHashOf, Json.truthy, Json.toText, hne]
  have hseq : lastSequenceOf (e.json.get? "logSequenceNumber") = e.logSequenceNumber := by
    simp [lastSequenceOf, JsNumber.toNat?_ofNat]
  rw [lastLogged, hfile]
  simp only [hline, parseText_line]
  exact Prod.ext hhash hseq

/-- A restart takes the chain up where it ended. -/
theorem lastLogged_intact (hH : ∀ s, H s ≠ "") (h : Intact H s days) :
    lastLogged N s.2 = (logChain H).chainEnd genesisHash 0 (days.map Prod.snd).flatten := by
  rcases List.eq_nil_or_concat' days with rfl | ⟨init, d, rfl⟩
  · rw [lastLogged, jsonlFiles_intact h]
    rfl
  · have hd : d ∈ init ++ [d] := by simp
    rcases List.eq_nil_or_concat' d.2 with hnil | ⟨es, e, hes⟩
    · exact absurd hnil (h.nonempty d hd)
    · have hne : e.hash ≠ "" := by
        refine hash_ne_empty hH h.linked ?_
        simp [hes]
      have hflat : ((init ++ [d]).map Prod.snd).flatten =
          ((init.map Prod.snd).flatten ++ es) ++ [e] := by simp [hes]
      have hfile : (jsonlFiles s.2).getLast? = some (logFileName d.1) := by
        simp [jsonlFiles_intact h]
      have hline : (fileLines (readFile s.2 (logFileName d.1))).getLast? = some e.line := by
        simp [fileLines_intact h hd, hes]
      rw [lastLogged_line hfile hline hne, hflat, Scheme.chainEnd_append_singleton]
      rfl

theorem intact_restart (hH : ∀ s, H s ≠ "") (h : Intact H s days) :
    Intact H (onModuleInit N s.2, s.2) days where
  toFiled := h.toFiled
  linked := h.linked
  atEnd := lastLogged_intact hH h

/-- Any run keeps the chain intact, on a clock whose date does not go back; a
restart needs that no hash is the empty text. -/
theorem intact_events (es : List (LogEvent N)) (hH : .restart ∈ es → ∀ s, H s ≠ "")
    (h : Intact H s days)
    (hclock : (es.flatMap LogEvent.readings).Pairwise fun t t' => t.dateKey ≤ t'.dateKey)
    (hdays : ∀ d ∈ days, ∀ t ∈ es.flatMap LogEvent.readings, d.1.dateKey ≤ t.dateKey) :
    ∃ days' : Days N, Intact H (runEvents H s es) days' ∧
      (days'.map Prod.snd).flatten = (days.map Prod.snd).flatten ++ loggedEntries H s es := by
  induction es generalizing s days with
  | nil => exact ⟨days, h, (List.append_nil _).symm⟩
  | cons e es ih =>
    rw [List.flatMap_cons, List.pairwise_append] at hclock
    obtain ⟨-, hclock, hlater⟩ := hclock
    have hdays' : ∀ d ∈ days, ∀ t ∈ es.flatMap LogEvent.readings, d.1.dateKey ≤ t.dateKey :=
      fun d hd t ht => hdays d hd t (List.mem_append_right _ ht)
    have hH' : .restart ∈ es → ∀ s, H s ≠ "" := fun he => hH (List.mem_cons_of_mem e he)
    cases e with
    | restart =>
      exact ih hH' (intact_restart (hH List.mem_cons_self) h) hclock hdays'
    | log format now now' =>
      have hnow : ∀ d ∈ days, d.1.dateKey ≤ now'.dateKey := fun d hd =>
        hdays d hd now' (List.mem_append_left _ (by simp [LogEvent.readings]))
      obtain ⟨days₁, h₁, hflat, hle⟩ := intact_log h format now hnow
      have hdays₁ : ∀ d ∈ days₁, ∀ t ∈ es.flatMap LogEvent.readings,
          d.1.dateKey ≤ t.dateKey := by
        intro d hd t ht
        have hstep := hlater now' (by simp [LogEvent.readings]) t ht
        have hd := hle d hd
        omega
      obtain ⟨days', hint, hall⟩ := ih hH' h₁ hclock hdays₁
      refine ⟨days', hint, ?_⟩
      rw [hall, hflat, List.append_assoc]
      rfl

theorem intact_run (hH : ∀ s, H s ≠ "") (es : List (LogEvent N)) (h : Intact H s days)
    (hclock : (es.flatMap LogEvent.readings).Pairwise fun t t' => t.dateKey ≤ t'.dateKey)
    (hdays : ∀ d ∈ days, ∀ t ∈ es.flatMap LogEvent.readings, d.1.dateKey ≤ t.dateKey) :
    ∃ days' : Days N, Intact H (runEvents H s es) days' ∧
      (days'.map Prod.snd).flatten = (days.map Prod.snd).flatten ++ loggedEntries H s es :=
  intact_events es (fun _ => hH) h hclock hdays

theorem intact_start (H : String → String) {dir : LogDir}
    (hdir : ∀ f ∈ dir.rows, isJsonl f.1 = false) :
    Intact (N := N) H (onModuleInit N dir, dir) [] := by
  have hnames : (dir.rows.map Prod.fst).filter isJsonl = [] := by
    refine List.filter_eq_nil_iff.mpr fun name hname => ?_
    obtain ⟨f, hf, rfl⟩ := List.mem_map.mp hname
    simp [hdir f hf]
  have hlast : lastLogged N dir = (genesisHash, 0) := by
    rw [lastLogged, jsonlFiles, hnames]
    rfl
  exact ⟨⟨hnames, by simp, List.Pairwise.nil, by simp⟩, trivial, hlast⟩

/-- The live logger accepts its own directory. -/
theorem verify_intact (h : Intact H s days) :
    verifyChainIntegrity N H s.1 s.2 none none = .valid := by
  rw [verifyChainIntegrity, logLines_intact h]
  apply verifyFiles_linked h.linked
  rw [sequenceNumber_intact h, orDefault_none, Nat.zero_add]

theorem untouched_log_verifies (H : String → String) (hH : ∀ s, H s ≠ "") (dir : LogDir)
    (hdir : ∀ f ∈ dir.rows, isJsonl f.1 = false) (es : List (LogEvent N))
    (hclock : (es.flatMap LogEvent.readings).Pairwise fun t t' => t.dateKey ≤ t'.dateKey) :
    let s := runEvents H (onModuleInit N dir, dir) es
    ∃ entries : List (Json N), (logLines s.2).flatten.map parseText = entries.map some ∧
      entries.map (·.get? "logSequenceNumber") =
        (List.range (es.countP LogEvent.isLog)).map (fun i => some (.num (JsNumber.ofNat (i + 1)))) ∧
      entries.map (·.get? "previousHash") =
        (some (.str genesisHash) :: entries.map (·.get? "hash")).dropLast ∧
      verifyChainIntegrity N H s.1 s.2 none none = .valid := by
  intro s
  obtain ⟨days, h, hall⟩ := intact_run hH es (intact_start H hdir) hclock (by simp)
  have hcount : (days.map Prod.snd).flatten.length = es.countP LogEvent.isLog := by
    rw [hall, ← length_loggedEntries H (onModuleInit N dir, dir) es]
    rfl
  refine ⟨(days.map Prod.snd).flatten.map LogEntry.json, ?_, ?_, ?_, verify_intact h⟩
  · rw [logLines_intact h, ← List.map_flatten, List.map_map, List.map_map]
    exact List.map_congr_left fun e _ => parseText_line e
  · rw [List.map_map, ← hcount]
    refine (numbers_of_linked h.linked).trans ?_
    simp only [Nat.zero_add]
  · rw [List.map_map, List.map_map]
    exact previousHashes_of_linked h.linked

/-- A login on the last day of a year, a restart, and a logout on the next. -/
def newYear : List (LogEvent ℕ) :=
  [.log ⟨none, "iam", "u1", "LOGIN", "SUCCESS", "::1", none, none,
        some ⟨.obj [("n", .num 3)], ⟨by simp, by simp⟩, trivial, trivial⟩⟩
      ⟨2025, 12, 31, 23, 59, 59, 999⟩ ⟨2025, 12, 31, 23, 59, 59, 999⟩,
    .restart,
    .log ⟨some "", "iam", "u1", "LOGOUT", "SUCCESS", "::1", none, some ⟨.null, trivial⟩, none⟩
      ⟨2026, 1, 1, 0, 0, 0, 0⟩ ⟨2026, 1, 1, 0, 0, 0, 1⟩]

theorem untouched_newYear :
    let dir : LogDir := ⟨[("README", [])], by decide⟩
    let s := runEvents (fun _ => "e3b0c442") (onModuleInit ℕ dir, dir) newYear
    verifyChainIntegrity ℕ (fun _ => "e3b0c442") s.1 s.2 none none = .valid := by
  intro dir
  obtain ⟨_, -, -, -, hvalid⟩ := untouched_log_verifies (fun _ => "e3b0c442") (fun _ => by decide) dir
    (by decide) newYear (by decide)
  exact hvalid

end Runs

end VerdeAuth.SiemChainIntegrity
