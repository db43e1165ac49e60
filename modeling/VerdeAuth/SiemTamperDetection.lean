import VerdeAuth.LoggedChains
import VerdeAuth.SiemVerifierReading

/-!
# Rewritten entries

A directory the logger wrote, with some entries rewritten: which rewritings the
verifier notices. It sees each file up to the first line numbered beyond its
range, and skips what is numbered below it.
-/

namespace VerdeAuth.SiemTamperDetection

open HashChains JsonTexts KeyedTables SiemLoggerService LogEntryLines SiemChainIntegrity
open HexDigests LoggedChains SiemVerifierReading

/-- A logged entry with the text in the place of its line. -/
abbrev Site (N : Type) := LogEntry N × List Char

section Rewriting

variable (N : Type) [JsNumber N]

/-- A line whose stored hash is kept and some hashed field is not. -/
def Altered (line line' : List Char) : Prop :=
  ∃ entry entry' : Json N, parseText line = some entry ∧ parseText line' = some entry' ∧
    entry'.get? "hash" = entry.get? "hash" ∧ ∃ k ∈ hashedFields, entry'.get? k ≠ entry.get? k

/-- The lines of `dir'` are those of `dir` with some of them altered; `files`
lists the entries of `dir` with the lines in their places. -/
structure Rewritten (dir dir' : LogDir) (files : List (List (Site N))) : Prop where
  original : logLines dir = files.map fun f => f.map fun q => q.1.line
  rewritten : logLines dir' = files.map fun f => f.map Prod.snd
  lines : ∀ f ∈ files, ∀ q ∈ f, q.2 = q.1.line ∨ Altered N q.1.line q.2
  altered : ∃ f ∈ files, ∃ q ∈ f, Altered N q.1.line q.2

/-- Each file up to its first line numbered beyond the range. -/
def sitesRead (stop : ℕ) (files : List (List (Site N))) : List (Site N) :=
  files.flatMap fun f => f.takeWhile fun q => placeBetween N 1 stop q.2 ≠ .beyond

/-- The line has the nine-field text and the previous hash its entry was logged
with, and a number that can be compared. -/
def AsLogged (q : Site N) : Prop :=
  ∃ entry : Json N, parseText q.2 = some entry ∧
    Json.toNumber (entry.get? "logSequenceNumber") ≠ none ∧
    entry.get? "previousHash" = some (.str q.1.previousHash) ∧
    hashedText (hashedProperties entry) = hashedText q.1.toStandardLogFormat.properties

variable {N} in
/-- The number under which the last of these entries was logged. -/
def lastNumber (sites : List (Site N)) : ℕ :=
  (sites.getLast?.map fun q => q.1.logSequenceNumber).getD 0

/-- A line is seen, numbered within the range, that is not as it was logged, or
whose entry was not logged right after that of the line seen before it. -/
def Exposed (stop : ℕ) (files : List (List (Site N))) : Prop :=
  ∃ before q after, sitesRead N stop files = before ++ q :: after ∧
    placeBetween N 1 stop q.2 = .within ∧
    (¬ AsLogged N q ∨ q.1.logSequenceNumber ≠ lastNumber before + 1)

end Rewriting

variable {N : Type} [JsNumber N] {H : String → String} {stop : ℕ} {all : List (LogEntry N)}
variable {q : Site N} {sites : List (Site N)}

/-- The hash stored on a line is kept. -/
theorem storedHash_rewritten (h : q.2 = q.1.line ∨ Altered N q.1.line q.2) :
    storedHash N q.2 = some (.str q.1.hash) := by
  rcases h with h | ⟨entry, entry', hp, hp', hhash, -⟩
  · rw [h, storedHash_line]
  · obtain rfl := Option.some.inj (hp.symm.trans (parseText_line q.1))
    rw [storedHash, hp', Option.bind_some, hhash, get?_hash]

theorem map_sitesRead (files : List (List (Site N))) : (sitesRead N stop files).map Prod.snd =
    linesRead N 1 stop (files.map fun f => f.map Prod.snd) := by
  rw [sitesRead, linesRead, List.map_flatMap, List.flatMap_map]
  apply List.flatMap_congr
  intro f _
  rw [fileRead, List.takeWhile_map]
  rfl

/-- The hash of the last of these entries. -/
def endHash (sites : List (Site N)) : String :=
  (sites.getLast?.map fun q => q.1.hash).getD genesisHash

theorem hashBefore_sites (h : ∀ q ∈ sites, storedHash N q.2 = some (.str q.1.hash)) :
    hashBefore N (sites.map Prod.snd) = some (.str (endHash sites)) := by
  rcases List.eq_nil_or_concat' sites with rfl | ⟨init, q, rfl⟩
  · rfl
  · have hq := h q (by simp)
    simpa [hashBefore, endHash] using hq

theorem noBrace_endHash (hH : HexDigest H) (h : (logChain H).Linked genesisHash 0 all)
    (hmem : ∀ q ∈ sites, q.1 ∈ all) : '{' ∉ (endHash sites).toList := by
  rcases List.eq_nil_or_concat' sites with rfl | ⟨init, q, rfl⟩
  · change '{' ∉ genesisHash.toList
    decide
  · have hq := noBrace_hash hH h (hmem q (by simp))
    simpa [endHash] using hq

/-- An entry names the hash of the last of these exactly where it was logged right after it. -/
theorem previousHash_eq_endHash (hH : HexDigest H) (h : (logChain H).Linked genesisHash 0 all)
    (hmem : ∀ q ∈ sites, q.1 ∈ all) (hq : q.1 ∈ all) :
    q.1.previousHash = endHash sites ↔ q.1.logSequenceNumber = lastNumber sites + 1 := by
  have hnodup := hashes_nodup hH h
  rcases List.eq_nil_or_concat' sites with rfl | ⟨init, q', rfl⟩
  · exact Scheme.previous_eq_start_iff hnodup h hq
  · have hq' := Scheme.previous_eq_link_iff hnodup h hq (hmem q' (by simp))
    simpa [endHash, lastNumber, logChain] using hq'

variable [DecidableEq N]

/-- A line with the hash of its entry extends a chain that ends in `x` exactly
where it is as it was logged, and logged there. -/
theorem extends_site (hH : HexDigest H) (h : (logChain H).Linked genesisHash 0 all)
    (hq : q.1 ∈ all) (hkept : storedHash N q.2 = some (.str q.1.hash)) {x : String}
    (hx : '{' ∉ x.toList) :
    Extends H (some (.str x) : Option (Json N)) q.2 ↔ AsLogged N q ∧ q.1.previousHash = x := by
  have hhash : q.1.hash = computeHash H q.1.previousHash q.1.toStandardLogFormat.properties :=
    Scheme.link_eq_digest h hq
  have hcomputed : ∀ (entry : Json N) (y : String), entry.get? "previousHash" = some (.str y) →
      recomputedHash H entry = some (H (y ++ hashedText (hashedProperties entry))) := by
    intro entry y hy
    rw [recomputedHash, hy]
    rfl
  constructor
  · intro hext
    obtain ⟨entry, c, hparse, hnum, hprev, hc, hstored⟩ := hext
    have hprev := Json.strictEq_str_iff.mp hprev
    have hsame : c = q.1.hash := by
      rw [storedHash, hparse, Option.bind_some, hstored] at hkept
      exact Json.str.inj (Option.some.inj hkept)
    rw [hcomputed entry x hprev, hsame, hhash, Option.some.injEq] at hc
    obtain ⟨hp, htext⟩ := split_at_brace hx (noBrace_previousHash hH h hq) (hH.injective hc)
    exact ⟨⟨entry, hparse, hnum, hp ▸ hprev, congrArg String.ofList htext⟩, hp.symm⟩
  · intro hlogged
    obtain ⟨⟨entry, hparse, hnum, hprev, htext⟩, rfl⟩ := hlogged
    refine ⟨entry, q.1.hash, hparse, hnum, Json.strictEq_str_iff.mpr hprev, ?_, ?_⟩
    · rw [hcomputed entry _ hprev, htext, hhash]
      rfl
    · rwa [storedHash, hparse, Option.bind_some] at hkept

variable {s : SiemLogger × LogDir} {dir' : LogDir} {files : List (List (Site N))}

theorem verify_rewritten (hH : HexDigest H) (h : Logged H s all) (hr : Rewritten N s.2 dir' files) :
    (verifyChainIntegrity N H s.1 dir' none none).isValid = false ↔
      Exposed N s.1.sequenceNumber files := by
  have hread : ∀ q ∈ sitesRead N s.1.sequenceNumber files,
      q.1 ∈ all ∧ storedHash N q.2 = some (.str q.1.hash) := by
    intro q hq
    obtain ⟨f, hf, hq⟩ := List.mem_flatMap.mp hq
    have hqf : q ∈ f := List.takeWhile_subset _ hq
    have hline : q.1.line ∈ (logLines s.2).flatten := by
      rw [hr.original]
      exact List.mem_flatten_of_mem (List.mem_map_of_mem hf) (List.mem_map_of_mem hqf)
    obtain ⟨e, he, hsame⟩ := line_loggedBy h.lines hline
    exact ⟨line_injective hsame ▸ he, storedHash_rewritten (hr.lines f hf q hqf)⟩
  have hplace : ∀ {before q after}, sitesRead N s.1.sequenceNumber files = before ++ q :: after →
      (¬ Extends H (hashBefore N (before.map Prod.snd)) q.2 ↔
        (¬ AsLogged N q ∨ q.1.logSequenceNumber ≠ lastNumber before + 1)) := by
    intro before q after hsplit
    rw [hsplit] at hread
    have hbefore : ∀ q ∈ before, q.1 ∈ all ∧ storedHash N q.2 = some (.str q.1.hash) :=
      fun q hq => hread q (List.mem_append_left _ hq)
    have hmem : ∀ q ∈ before, q.1 ∈ all := fun q hq => (hbefore q hq).1
    obtain ⟨hq, hkept⟩ := hread q (by simp)
    rw [hashBefore_sites fun q hq => (hbefore q hq).2,
      extends_site hH h.linked hq hkept (noBrace_endHash hH h.linked hmem),
      previousHash_eq_endHash hH h.linked hmem hq, not_and_or]
  rw [← Bool.not_eq_true, isValid_verifyChainIntegrity, orDefault_none, orDefault_none,
    not_unbroken, hr.rewritten, ← map_sitesRead]
  constructor
  · intro hbroken
    obtain ⟨_, _, _, hsplit, hwithin, hext⟩ := hbroken
    obtain ⟨before, rest, hseen, rfl, hrest⟩ := List.map_eq_append_iff.mp hsplit
    obtain ⟨q, after, rfl, rfl, -⟩ := List.map_eq_cons_iff.mp hrest
    exact ⟨before, q, after, hseen, hwithin, (hplace hseen).mp hext⟩
  · intro hexposed
    obtain ⟨before, q, after, hseen, hwithin, hout⟩ := hexposed
    refine ⟨before.map Prod.snd, q.2, after.map Prod.snd, ?_, hwithin, (hplace hseen).mpr hout⟩
    rw [hseen, List.map_append, List.map_cons]

/-- A rewriting of the directory a run has written is noticed exactly when the
lines that are read leave it exposed. The clock may say anything, unless the
logger is restarted: then its date may not go back. -/
theorem rewriting_noticed_iff (H : String → String) (hH : HexDigest H) (dir : LogDir)
    (hdir : ∀ f ∈ dir.rows, isJsonl f.1 = false) (es : List (LogEvent N))
    (hclock : .restart ∈ es →
      (es.flatMap LogEvent.readings).Pairwise fun t t' => t.dateKey ≤ t'.dateKey)
    (dir' : LogDir) (files : List (List (Site N)))
    (hr : Rewritten N (runEvents H (onModuleInit N dir, dir) es).2 dir' files) :
    (verifyChainIntegrity N H (runEvents H (onModuleInit N dir, dir) es).1 dir' none
      none).isValid = false ↔
    Exposed N (runEvents H (onModuleInit N dir, dir) es).1.sequenceNumber files :=
  verify_rewritten hH (logged_run hH.nonempty hdir es hclock) hr

section Forged

/-- The entry of the login, laid on another user and numbered anew. -/
def forgedEntry (k : ℕ) : LogEntry ℕ := { loginEntry with user := "u2", logSequenceNumber := k }

def forgedDir (k : ℕ) : LogDir :=
  appendFile Table.empty (logFileName morning) ((forgedEntry k).line ++ ['\n'])

theorem filed_forgedDir (k : ℕ) : Filed (forgedDir k) [(morning, [forgedEntry k])] :=
  filed_newDay (intact_start (N := ℕ) hexText (by simp)).toFiled (forgedEntry k)
    (by simp)

theorem altered_forged (k : ℕ) : Altered ℕ loginEntry.line (forgedEntry k).line := by
  refine ⟨loginEntry.json, (forgedEntry k).json, parseText_line _, parseText_line _, ?_, "user",
    by decide, ?_⟩
  · rw [get?_hash, get?_hash]
    rfl
  · have hu : (forgedEntry k).json.get? "user" = some (.str "u2") := rfl
    have hu' : loginEntry.json.get? "user" = some (.str "u1") := rfl
    rw [hu, hu']
    simp

/-- A single login, rewritten and renumbered to 0, passes. -/
theorem rewriting_unnoticed : HexDigest hexText ∧
    Rewritten ℕ loginRun.2 (forgedDir 0) [[(loginEntry, (forgedEntry 0).line)]] ∧
    (verifyChainIntegrity ℕ hexText loginRun.1 (forgedDir 0) none none).isValid = true := by
  have hr : Rewritten ℕ loginRun.2 (forgedDir 0) [[(loginEntry, (forgedEntry 0).line)]] := by
    refine ⟨logLines_intact intact_loginRun, logLines_filed (filed_forgedDir 0), ?_, ?_⟩
    · simp [altered_forged]
    · simp [altered_forged]
  refine ⟨hexDigest_hexText, hr, ?_⟩
  have hplace : placeBetween ℕ 1 loginRun.1.sequenceNumber (forgedEntry 0).line = .before := by
    rw [placeBetween_entry]
    rfl
  have hexposed : ¬ Exposed ℕ loginRun.1.sequenceNumber [[(loginEntry, (forgedEntry 0).line)]] := by
    intro h
    obtain ⟨before, q, after, hseen, hwithin, -⟩ := h
    have hq : q ∈ [(loginEntry, (forgedEntry 0).line)] := by
      have hmem : q ∈ before ++ q :: after := by simp
      rw [← hseen] at hmem
      obtain ⟨f, hf, hq⟩ := List.mem_flatMap.mp hmem
      exact List.mem_singleton.mp hf ▸ List.takeWhile_subset _ hq
    rw [List.mem_singleton.mp hq, hplace] at hwithin
    cases hwithin
  rw [← Bool.not_eq_false]
  exact fun h => hexposed
    ((verify_rewritten hexDigest_hexText (logged_of_intact intact_loginRun) hr).mp h)

/-- On two days: the line of the first, numbered beyond the range, hides itself
but not that the second day's entry was not logged first. -/
def forgedDays : LogDir :=
  appendFile (forgedDir 999) (logFileName nextMorning) (secondLogin.line ++ ['\n'])

def forgedSites : List (List (Site ℕ)) :=
  [[(loginEntry, (forgedEntry 999).line)], [(secondLogin, secondLogin.line)]]

theorem rewriting_noticed_iff_twoDays : Exposed ℕ twoDays.1.sequenceNumber forgedSites ∧
    (verifyChainIntegrity ℕ hexText twoDays.1 forgedDays none none).isValid = false := by
  have hfiled : Filed forgedDays
      [(morning, [forgedEntry 999]), (nextMorning, [secondLogin])] := by
    refine filed_newDay (filed_forgedDir 999) secondLogin fun d hd => ?_
    rw [List.mem_singleton.mp hd]
    decide
  have hr : Rewritten ℕ twoDays.2 forgedDays forgedSites := by
    refine ⟨logLines_intact intact_twoDays, logLines_filed hfiled, ?_, ?_⟩
    · simp [forgedSites, altered_forged]
    · simp [forgedSites, altered_forged]
  have hfirst : placeBetween ℕ 1 2 (forgedEntry 999).line = .beyond := by
    rw [placeBetween_entry]
    rfl
  have hsecond : placeBetween ℕ 1 2 secondLogin.line = .within := by
    rw [placeBetween_entry]
    rfl
  have hexposed : Exposed ℕ twoDays.1.sequenceNumber forgedSites := by
    refine ⟨[], (secondLogin, secondLogin.line), [], ?_, hsecond, Or.inr (by decide)⟩
    change sitesRead ℕ 2 forgedSites = _
    simp [sitesRead, forgedSites, hfirst, hsecond]
  exact ⟨hexposed, (rewriting_noticed_iff hexText hexDigest_hexText Table.empty
    (by simp [Table.empty]) twoLogins (by simp [twoLogins]) forgedDays forgedSites hr).mpr hexposed⟩

end Forged

end VerdeAuth.SiemTamperDetection
