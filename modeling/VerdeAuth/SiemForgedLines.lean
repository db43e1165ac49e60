import VerdeAuth.LoggedChains
import VerdeAuth.SiemVerifierReading

/-!
# Inserted lines

A directory the logger wrote, with lines inserted that it did not write: which
insertions the verifier notices. What is numbered beyond the range hides the rest
of its file, and what is numbered below it can restart the chain anywhere.
-/

namespace VerdeAuth.SiemForgedLines

open HashChains JsonTexts KeyedTables SiemLoggerService LogEntryLines LogFileNames
open SiemChainIntegrity HexDigests LoggedChains SiemVerifierReading RunHistories

/-- A line of a file, and whether it was inserted. -/
abbrev Marked := List Char × Bool

section Inserting

variable (N : Type) [JsNumber N]

/-- The lines of `dir'` are those of `dir` with JSON lines inserted that are none
of them. -/
structure Inserted (dir dir' : LogDir) (files : List (List Marked)) : Prop where
  genuine : logLines dir = files.map fun f => (f.filter fun l => !l.2).map Prod.fst
  present : logLines dir' = files.map fun f => f.map Prod.fst
  json : ∀ f ∈ files, ∀ l ∈ f, l.2 = true → (parseText l.1 : Option (Json N)) ≠ none
  foreign : ∀ f ∈ files, ∀ l ∈ f, l.2 = true → l.1 ∉ (logLines dir).flatten
  inserted : ∃ f ∈ files, ∃ l ∈ f, l.2 = true

/-- Each file up to its first line numbered beyond the range. -/
def seen (stop : ℕ) (files : List (List Marked)) : List Marked :=
  files.flatMap fun f => f.takeWhile fun l => placeBetween N 1 stop l.1 ≠ .beyond

/-- A line that is seen is out of place after the line seen before it: an inserted
one numbered within the range that does not extend the chain there, or a genuine
one that names another hash. -/
def Noticeable [DecidableEq N] (H : String → String) (stop : ℕ) (files : List (List Marked)) :
    Prop :=
  ∃ before l after, seen N stop files = before ++ l :: after ∧
    (l.2 = true ∧ placeBetween N 1 stop l.1 = .within ∧
        ¬ Extends H (hashBefore N (before.map Prod.fst)) l.1 ∨
      l.2 = false ∧ storedPrevious N l.1 ≠ hashBefore N (before.map Prod.fst))

end Inserting

variable {N : Type} [JsNumber N] {H : String → String} {s : SiemLogger × LogDir}
variable {all : List (LogEntry N)}
variable {dir' : LogDir} {files : List (List Marked)} {stop : ℕ} {e : LogEntry N}

theorem map_seen (files : List (List Marked)) :
    (seen N stop files).map Prod.fst = linesRead N 1 stop (files.map fun f => f.map Prod.fst) := by
  rw [seen, linesRead, List.map_flatMap, List.flatMap_map]
  apply List.flatMap_congr
  intro f _
  rw [fileRead, List.takeWhile_map]
  rfl

/-- A genuine line is the line of an entry of the log. -/
theorem genuine_line (h : Logged H s all) (hi : Inserted N s.2 dir' files) {l : Marked}
    (hl : l ∈ seen N stop files) (hgenuine : l.2 = false) :
    ∃ e ∈ all, l.1 = e.line := by
  obtain ⟨f, hf, hl⟩ := List.mem_flatMap.mp hl
  have hlf : l ∈ f := List.takeWhile_subset _ hl
  have hmem : l.1 ∈ (logLines s.2).flatten := by
    rw [hi.genuine, List.mem_flatten]
    refine ⟨_, List.mem_map_of_mem hf, List.mem_map_of_mem ?_⟩
    exact List.mem_filter.mpr ⟨hlf, by simp [hgenuine]⟩
  obtain ⟨e, he, hline⟩ := line_loggedBy h.lines hmem
  exact ⟨e, he, hline.symm⟩

variable [DecidableEq N]

theorem outOfPlace_iff (h : Logged H s all) (hi : Inserted N s.2 dir' files)
    (hstop : s.1.sequenceNumber ≤ stop) {l : Marked} (hl : l ∈ seen N stop files)
    {x : Option (Json N)} :
    placeBetween N 1 stop l.1 = .within ∧ ¬ Extends H x l.1 ↔
      l.2 = true ∧ placeBetween N 1 stop l.1 = .within ∧ ¬ Extends H x l.1 ∨
        l.2 = false ∧ storedPrevious N l.1 ≠ x := by
  cases hgenuine : l.2 with
  | true => simp
  | false =>
    obtain ⟨e, he, hline⟩ := genuine_line h hi hl hgenuine
    have hlen : all.length ≤ stop := h.sequenceNumber ▸ hstop
    simp [hline, placeBetween_line h.linked he hlen, extends_line h.linked he]

theorem verify_inserted (h : Logged H s all) (hi : Inserted N s.2 dir' files)
    (hstop : s.1.sequenceNumber ≤ stop) :
    (verifyFiles H 1 stop (some (.str genesisHash) : Option (Json N))
      (logLines dir')).isValid = false ↔ Noticeable N H stop files := by
  have hplace : ∀ {before l after}, seen N stop files = before ++ l :: after →
      (placeBetween N 1 stop l.1 = .within ∧ ¬ Extends H (hashBefore N (before.map Prod.fst)) l.1 ↔
        _) := fun hsplit => outOfPlace_iff h hi hstop (hsplit ▸ by simp)
  rw [← Bool.not_eq_true, isValid_verifyFiles, not_unbroken, hi.present, ← map_seen]
  constructor
  · rintro ⟨_, _, _, hsplit, hout⟩
    obtain ⟨before, rest, hseen, rfl, hrest⟩ := List.map_eq_append_iff.mp hsplit
    obtain ⟨l, after, rfl, rfl, -⟩ := List.map_eq_cons_iff.mp hrest
    exact ⟨before, l, after, hseen, (hplace hseen).mp hout⟩
  · rintro ⟨before, l, after, hseen, hout⟩
    refine ⟨before.map Prod.fst, l.1, after.map Prod.fst, ?_, (hplace hseen).mpr hout⟩
    rw [hseen, List.map_append, List.map_cons]

omit [DecidableEq N] in
theorem sequenceNumber_ne_zero (h : Logged H s all) (hi : Inserted N s.2 dir' files) :
    s.1.sequenceNumber ≠ 0 := by
  obtain ⟨f, hf, -⟩ := hi.inserted
  have hmem : (f.filter fun l => !l.2).map Prod.fst ∈ logLines s.2 :=
    hi.genuine ▸ List.mem_map_of_mem hf
  rw [logLines] at hmem
  obtain ⟨name, hname, -⟩ := List.mem_map.mp hmem
  obtain ⟨es, hne, -, hall⟩ := fileLines_loggedBy h.lines hname
  obtain ⟨e, he⟩ := List.exists_mem_of_ne_nil es hne
  have hlen := List.length_pos_of_mem (hall e he)
  rw [h.sequenceNumber]
  omega

/-- Which insertions into the directory a run has written are noticed. The clock may
say anything, unless the logger is restarted: then its date may not go back. -/
theorem insertion_noticed_iff (H : String → String) (hH : ∀ s, H s ≠ "") (dir : LogDir)
    (hdir : ∀ f ∈ dir.rows, isJsonl f.1 = false) (es : List (LogEvent N))
    (hclock : .restart ∈ es →
      (es.flatMap LogEvent.readings).Pairwise fun t t' => t.dateKey ≤ t'.dateKey)
    (dir' : LogDir) (files : List (List Marked))
    (hi : Inserted N (runEvents H (onModuleInit N dir, dir) es).2 dir' files) :
    let l := (runEvents H (onModuleInit N dir, dir) es).1
    ((verifyChainIntegrity N H l dir' none none).isValid = false ↔
        Noticeable N H l.sequenceNumber files) ∧
      ∀ e, l.sequenceNumber ≤ e →
        ((verifyChainIntegrity N H l dir' (some 1) (some e)).isValid = false ↔
          Noticeable N H e files) := by
  intro l
  have h := logged_run hH hdir es hclock
  have hpos : 1 ≤ l.sequenceNumber := Nat.one_le_iff_ne_zero.mpr (sequenceNumber_ne_zero h hi)
  constructor
  · rw [verifyChainIntegrity, orDefault_none, orDefault_none]
    exact verify_inserted h hi (Nat.le_refl _)
  · intro e he
    rw [verifyChainIntegrity, orDefault_some (Nat.le_refl 1),
      orDefault_some (Nat.le_trans hpos he)]
    exact verify_inserted h hi he

section OneLogin

/-- An entry nobody logged, with a number of its own. -/
def tampered (k : ℕ) : LogEntry ℕ where
  timestamp := some "2026-09-14T10:00:00Z"
  service := "iam-service"
  user := "hacker"
  action := "LOGIN"
  result := "SUCCESS"
  ip := "1.2.3.4"
  device := none
  geo := none
  metadata := none
  hash := "tampered"
  hashAlgorithm := "SHA-256"
  previousHash := ""
  logSequenceNumber := k

/-- The log of one login with that entry appended. -/
def tamperedDir (k : ℕ) : LogDir :=
  appendFile Table.empty (logFileName morning) (render [loginEntry, tampered k])

def tamperedFiles (k : ℕ) : List (List Marked) :=
  [[(loginEntry.line, false), ((tampered k).line, true)]]

theorem not_extends_tampered (k : ℕ) (x : Option (Json ℕ)) :
    ¬ Extends hexText x (tampered k).line := by
  rw [extends_iff (parseText_line (tampered k))]
  rintro ⟨-, -, c, hc, hhash⟩
  rw [recomputedHash_linked] at hc
  rw [get?_hash] at hhash
  obtain rfl := Option.some.inj hc
  have hlist := congrArg String.toList (Json.str.inj (Option.some.inj hhash))
  have hstored : (tampered k).hash.toList = ['t', 'a', 'm', 'p', 'e', 'r', 'e', 'd'] := by
    change "tampered".toList = _
    decide
  rw [computeHash, hexText, String.toList_ofList, hstored] at hlist
  exact absurd (List.cons.inj hlist).1 (by decide)

theorem inserted_tampered (k : ℕ) : Inserted ℕ loginRun.2 (tamperedDir k) (tamperedFiles k) := by
  have hgenuine : logLines loginRun.2 = [[loginEntry.line]] := logLines_intact intact_loginRun
  constructor
  · rw [hgenuine]
    rfl
  · rw [tamperedDir, logLines_appendFile (isJsonl_fileName morning), fileLines_render]
    rfl
  · intro f hf l hl hmark
    obtain rfl := List.mem_singleton.mp hf
    rcases List.mem_cons.mp hl with rfl | hl
    · cases hmark
    · obtain rfl := List.mem_singleton.mp hl
      rw [parseText_line]
      simp
  · intro f hf l hl hmark hmem
    obtain rfl := List.mem_singleton.mp hf
    rcases List.mem_cons.mp hl with rfl | hl
    · cases hmark
    · obtain rfl := List.mem_singleton.mp hl
      rw [hgenuine] at hmem
      have hline : (tampered k).line = loginEntry.line := by simpa using hmem
      have huser := congrArg (fun v : Json ℕ => v.get? "user") (json_of_line hline)
      have hu : (tampered k).json.get? "user" = some (.str "hacker") := rfl
      have hu' : loginEntry.json.get? "user" = some (.str "u1") := rfl
      simp [hu, hu'] at huser
  · exact ⟨_, List.mem_singleton.mpr rfl, _,
      List.mem_cons_of_mem _ (List.mem_singleton.mpr rfl), rfl⟩

theorem placeBetween_tampered (k stop : ℕ) (hk : 1 ≤ k) :
    placeBetween ℕ 1 stop (tampered k).line = if stop < k then .beyond else .within := by
  have hlow : ¬ (tampered k).logSequenceNumber < 1 := Nat.not_lt.mpr hk
  rw [placeBetween_entry, if_neg hlow]
  rfl

theorem seen_tampered {k stop : ℕ} (hk : 1 ≤ k) (hstop : 1 ≤ stop) :
    seen ℕ stop (tamperedFiles k) =
      (loginEntry.line, false) :: if stop < k then [] else [((tampered k).line, true)] := by
  have hlogin : placeBetween ℕ 1 stop loginEntry.line = .within :=
    placeBetween_line intact_loginRun.linked List.mem_cons_self hstop
  by_cases hhigh : stop < k
  · simp [seen, tamperedFiles, hlogin, placeBetween_tampered k stop hk, hhigh]
  · simp [seen, tamperedFiles, hlogin, placeBetween_tampered k stop hk, hhigh]

/-- The entry numbered 999 is not noticed. -/
theorem insertion_unnoticed : HexDigest hexText ∧
    Inserted ℕ loginRun.2 (tamperedDir 999) (tamperedFiles 999) ∧
    (∀ x : Option (Json ℕ), ¬ Extends hexText x (tampered 999).line) ∧
    (verifyChainIntegrity ℕ hexText loginRun.1 (tamperedDir 999) none none).isValid = true ∧
    (verifyChainIntegrity ℕ hexText loginRun.1 (tamperedDir 999) (some 1) (some 6)).isValid =
      true := by
  have hnot : ∀ stop, 1 ≤ stop → stop < 999 → ¬ Noticeable ℕ hexText stop (tamperedFiles 999) := by
    rintro stop hstop hlt ⟨before, l, after, hseen, hout⟩
    rw [seen_tampered (by decide) hstop, if_pos hlt] at hseen
    rcases before with _ | ⟨l', before⟩
    · obtain ⟨rfl, -⟩ := List.cons.inj hseen
      rcases hout with ⟨hmark, -⟩ | ⟨-, hprev⟩
      · cases hmark
      · exact hprev (storedPrevious_line loginEntry)
    · simp at hseen
  have hvalid : ∀ {v : Verdict ℕ} {stop : ℕ}, 1 ≤ stop → stop < 999 →
      (v.isValid = false ↔ Noticeable ℕ hexText stop (tamperedFiles 999)) → v.isValid = true := by
    intro v stop hstop hlt hiff
    by_contra hv
    exact hnot stop hstop hlt (hiff.mp (by simpa using hv))
  refine ⟨hexDigest_hexText, inserted_tampered 999, not_extends_tampered 999, ?_, ?_⟩
  · rw [verifyChainIntegrity, orDefault_none, orDefault_none]
    exact hvalid (Nat.le_refl 1) (by decide)
      (verify_inserted (logged_of_intact intact_loginRun) (inserted_tampered 999) (Nat.le_refl 1))
  · rw [verifyChainIntegrity, orDefault_some (Nat.le_refl 1), orDefault_some (by decide)]
    exact hvalid (by decide) (by decide)
      (verify_inserted (logged_of_intact intact_loginRun) (inserted_tampered 999) (by decide))

/-- The same entry with the number 1 is noticed. -/
theorem insertion_noticed_iff_login :
    Noticeable ℕ hexText 1 (tamperedFiles 1) ∧
    (verifyChainIntegrity ℕ hexText loginRun.1 (tamperedDir 1) none none).isValid = false := by
  have hnoticeable : Noticeable ℕ hexText 1 (tamperedFiles 1) := by
    refine ⟨[(loginEntry.line, false)], ((tampered 1).line, true), [], ?_, Or.inl ⟨rfl, ?_, ?_⟩⟩
    · exact seen_tampered (Nat.le_refl 1) (Nat.le_refl 1)
    · exact placeBetween_tampered 1 1 (Nat.le_refl 1)
    · exact not_extends_tampered 1 _
  refine ⟨hnoticeable, ?_⟩
  exact (insertion_noticed_iff hexText hexDigest_hexText.nonempty Table.empty
    (by simp [Table.empty]) [.log loginFormat morning morning] (by simp) (tamperedDir 1)
    (tamperedFiles 1)
    (inserted_tampered 1)).1.mpr hnoticeable

end OneLogin

end VerdeAuth.SiemForgedLines
