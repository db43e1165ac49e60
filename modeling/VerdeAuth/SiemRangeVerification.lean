import Mathlib.Order.Bounds.Basic
import VerdeAuth.SiemTamperDetection

/-!
# Verifying a range

Where the lines beyond a range come last, the verifier reads the files as one
list of lines. It names the first altered entry of the range, and verifying a
range is verifying its two parts one after the other.
-/

namespace VerdeAuth.SiemRangeVerification

open HashChains JsonTexts KeyedTables SiemLoggerService LogEntryLines SiemChainIntegrity
open HexDigests SiemTamperDetection SiemVerifierReading

variable {N : Type} [JsNumber N]

section OneList

variable [DecidableEq N] {H : String → String} {start stop : ℕ} {x : Option (Json N)}

/-- The reply of the file loop to the outcome of a line loop. -/
def verdictOf : Except (Verdict N) (Option (Json N)) → Verdict N
  | .ok _ => .valid
  | .error v => v

theorem checkLine_beyond {l : List Char} (h : placeBetween N start stop l = .beyond) :
    checkLine H start stop x l = .stop := by
  rcases checkLine_cases H start stop x l with ⟨hplace, -⟩ | ⟨-, hline⟩ | ⟨hplace, -⟩ | ⟨hplace, -⟩
  · rw [h] at hplace
    contradiction
  · exact hline
  · rw [h] at hplace
    contradiction
  · rw [h] at hplace
    contradiction

theorem place_of_stop {l : List Char} (h : checkLine H start stop x l = .stop) :
    placeBetween N start stop l = .beyond := by
  rcases checkLine_cases H start stop x l with ⟨-, hline⟩ | ⟨hplace, -⟩ | ⟨-, -, hline⟩ |
    ⟨-, -, v, hline, -⟩
  · rw [h] at hline
    contradiction
  · exact hplace
  · rw [h] at hline
    contradiction
  · rw [h] at hline
    contradiction

theorem verifyFiles_beyond {files : List (List (List Char))}
    (h : ∀ l ∈ files.flatten, placeBetween N start stop l = .beyond) :
    verifyFiles H start stop x files = .valid := by
  induction files with
  | nil => rfl
  | cons f files ih =>
    have hrest := ih fun l hl => h l (List.mem_append_right f hl)
    cases f with
    | nil => exact hrest
    | cons l f =>
      have hl := h l (List.mem_append_left _ List.mem_cons_self)
      rw [verifyFiles, verifyLines, checkLine_beyond hl]
      exact hrest

/-- Where the lines beyond the range come last, leaving a file early loses nothing. -/
theorem verifyFiles_flatten {files : List (List (List Char))}
    (h : files.flatten.Pairwise fun l l' =>
      placeBetween N start stop l = .beyond → placeBetween N start stop l' = .beyond) :
    verifyFiles H start stop x files = verdictOf (verifyLines H start stop x files.flatten) := by
  induction files generalizing x with
  | nil => rfl
  | cons f files ih =>
    induction f generalizing x with
    | nil => exact ih h
    | cons l f ihf =>
      rw [List.flatten_cons, List.cons_append] at h ⊢
      obtain ⟨hl, hrest⟩ := List.pairwise_cons.mp h
      rw [verifyFiles, verifyLines, verifyLines]
      cases hline : checkLine H start stop x l with
      | next y =>
        have htail := ihf (x := y) hrest
        rw [verifyFiles] at htail
        exact htail
      | reply v => rfl
      | stop =>
        have hplace := place_of_stop hline
        exact verifyFiles_beyond fun l' hl' => hl l' (List.mem_append_right f hl') hplace

theorem verifyLines_error {f : List (List Char)} {v : Verdict N}
    (h : verifyLines H start stop x f = .error v) : v.isValid = false := by
  rcases verifyLines_cases H start stop x f with ⟨-, hlines⟩ | ⟨-, w, hlines, hw⟩
  · rw [h] at hlines
    contradiction
  · rw [h] at hlines
    rw [Except.error.inj hlines]
    exact hw

end OneList

section Composition

/-- The line holds an object with this number. -/
def Numbered (N : Type) [JsNumber N] (k : ℕ) (line : List Char) : Prop :=
  ∃ ps : Members N, parseText line = some (.obj ps) ∧
    (Json.obj ps).get? "logSequenceNumber" = some (.num (JsNumber.ofNat k))

variable {start stop : ℕ} {ks : List ℕ} {lines : List (List Char)}

theorem placeBetween_numbered {k : ℕ} {l : List Char} (h : Numbered N k l) :
    placeBetween N start stop l =
      if k < start then .before else if stop < k then .beyond else .within := by
  obtain ⟨ps, hp, hk⟩ := h
  rw [placeBetween, hp]
  by_cases hlow : k < start
  · simp [hk, hlow]
  · by_cases hhigh : stop < k
    · simp [hk, hlow, hhigh]
    · simp [hk, hlow, hhigh]

theorem mem_of_forall₂ {α β : Type} {R : α → β → Prop} {as : List α} {bs : List β}
    (h : List.Forall₂ R as bs) {b : β} (hb : b ∈ bs) : ∃ a ∈ as, R a b := by
  induction h with
  | nil => contradiction
  | cons hab _ ih =>
    rcases List.mem_cons.mp hb with rfl | hb
    · exact ⟨_, List.mem_cons_self, hab⟩
    · obtain ⟨a, ha, hr⟩ := ih hb
      exact ⟨a, List.mem_cons_of_mem _ ha, hr⟩

/-- With ascending numbers the lines beyond a range come last. -/
theorem beyond_last (h : List.Forall₂ (Numbered N) ks lines) (hks : ks.Pairwise (· < ·)) :
    lines.Pairwise fun l l' =>
      placeBetween N start stop l = .beyond → placeBetween N start stop l' = .beyond := by
  induction h with
  | nil => exact List.Pairwise.nil
  | cons hl hrest ih =>
    obtain ⟨hk, hks⟩ := List.pairwise_cons.mp hks
    refine List.pairwise_cons.mpr ⟨fun l' hl' hplace => ?_, ih hks⟩
    obtain ⟨k', hk', hnum⟩ := mem_of_forall₂ hrest hl'
    have hlt := hk k' hk'
    rw [placeBetween_numbered hl] at hplace
    rw [placeBetween_numbered hnum]
    split at hplace
    · contradiction
    · split at hplace
      · rw [if_neg (by omega), if_pos (by omega)]
      · contradiction

variable [DecidableEq N] {H : String → String} {x : Option (Json N)}

theorem checkLine_numbered {k : ℕ} {l : List Char} (h : Numbered N k l) :
    checkLine H start stop x l =
      if k < start then .next (storedHash N l) else if stop < k then .stop
      else checkLine H k k x l := by
  obtain ⟨ps, hp, hk⟩ := h
  have hstored : storedHash N l = (Json.obj ps).get? "hash" := by
    rw [storedHash, hp]
    rfl
  have hcheck : ∀ a b, checkLine H a b x l = checkEntry H a b x (.obj ps) := fun a b =>
    checkLine_eq hp (by simp)
  rw [hcheck, hcheck, hstored, checkEntry, checkEntry]
  by_cases hlow : k < start
  · simp [hk, hlow]
  · by_cases hhigh : stop < k
    · simp [hk, hlow, hhigh]
    · simp [hk, hlow, hhigh]

section Cons

variable {k : ℕ} {l : List Char}

theorem verifyLines_before (h : Numbered N k l) (hlow : k < start) :
    verifyLines H start stop x (l :: lines) = verifyLines H start stop (storedHash N l) lines := by
  rw [verifyLines, checkLine_numbered h, if_pos hlow]

theorem verifyLines_beyond (h : Numbered N k l) (hlow : start ≤ k) (hhigh : stop < k) :
    verifyLines H start stop x (l :: lines) = .ok x := by
  rw [verifyLines, checkLine_numbered h, if_neg (Nat.not_lt.mpr hlow), if_pos hhigh]

theorem verifyLines_within (h : Numbered N k l) (hlow : start ≤ k) (hhigh : k ≤ stop) :
    verifyLines H start stop x (l :: lines) =
      match checkLine H k k x l with
      | .next y => verifyLines H start stop y lines
      | .stop => .ok x
      | .reply v => .error v := by
  have hline : checkLine H start stop x l = checkLine H k k x l := by
    rw [checkLine_numbered h, if_neg (Nat.not_lt.mpr hlow), if_neg (Nat.not_lt.mpr hhigh)]
  rw [← hline]
  rfl

end Cons

/-- Where the check of a line goes on, it goes on with the stored hash. -/
theorem next_storedHash {l : List Char} {y : Option (Json N)}
    (h : checkLine H start stop x l = .next y) : y = storedHash N l := by
  rcases checkLine_cases H start stop x l with ⟨-, hline⟩ | ⟨-, hline⟩ | ⟨-, -, hline⟩ |
    ⟨-, -, v, hline, -⟩
  · rw [h] at hline
    exact LineStep.next.inj hline
  · rw [h] at hline
    contradiction
  · rw [h] at hline
    exact LineStep.next.inj hline
  · rw [h] at hline
    contradiction

/-- From the first line numbered past `mid` on, the range may as well start there. -/
theorem verifyLines_start {mid : ℕ} (h : List.Forall₂ (Numbered N) ks lines)
    (hstart : ∀ k ∈ ks, start ≤ k) (hmid : ∀ k ∈ ks, mid ≤ k) :
    verifyLines H start stop x lines = verifyLines H mid stop x lines := by
  induction h generalizing x with
  | nil => rfl
  | @cons k l ks lines hl _ ih =>
    have hs := hstart k List.mem_cons_self
    have hm := hmid k List.mem_cons_self
    have htail := fun y => ih (x := y) (fun k hk => hstart k (List.mem_cons_of_mem _ hk))
      fun k hk => hmid k (List.mem_cons_of_mem _ hk)
    by_cases hhigh : stop < k
    · rw [verifyLines_beyond hl hs hhigh, verifyLines_beyond hl hm hhigh]
    · rw [verifyLines_within hl hs (Nat.not_lt.mp hhigh),
        verifyLines_within hl hm (Nat.not_lt.mp hhigh)]
      cases checkLine H k k x l with
      | next y => exact htail y
      | stop => rfl
      | reply v => rfl

/-- A range is verified by verifying its first part and then the rest. -/
theorem verifyLines_split {mid : ℕ} (h : List.Forall₂ (Numbered N) ks lines)
    (hks : ks.Pairwise (· < ·)) (hstart : start ≤ mid + 1) (hstop : mid ≤ stop) :
    verifyLines H start stop x lines =
      (verifyLines H start mid x lines).bind fun _ => verifyLines H (mid + 1) stop x lines := by
  induction h generalizing x with
  | nil => rfl
  | @cons k l ks lines hl hrest ih =>
    obtain ⟨hk, hks⟩ := List.pairwise_cons.mp hks
    rcases Nat.lt_or_ge k start with hlow | hlow
    · rw [verifyLines_before hl hlow, verifyLines_before hl hlow,
        verifyLines_before hl (by omega)]
      exact ih hks
    · rcases Nat.lt_or_ge mid k with hmid | hmid
      · rw [verifyLines_beyond hl hlow hmid]
        have hlater : ∀ k' ∈ k :: ks, mid < k' := by
          intro k' hk'
          rcases List.mem_cons.mp hk' with rfl | hk'
          · exact hmid
          · exact Nat.lt_trans hmid (hk k' hk')
        refine verifyLines_start (.cons hl hrest) (fun k' hk' => ?_) hlater
        have hlt := hlater k' hk'
        omega
      · rw [verifyLines_within hl hlow (Nat.le_trans hmid hstop), verifyLines_within hl hlow hmid,
          verifyLines_before hl (by omega)]
        cases hline : checkLine H k k x l with
        | next y =>
          rw [next_storedHash hline]
          exact ih hks
        | stop =>
          have hplace := place_of_stop hline
          rw [placeBetween_numbered hl, if_neg (by omega), if_neg (by omega)] at hplace
          contradiction
        | reply v => rfl

/-- Whatever the hashes on the lines of a directory, verifying a range agrees with
verifying its two parts. -/
theorem ranges_compose (H : String → String) (l : SiemLogger) (dir : LogDir) (ks : List ℕ)
    (hlines : List.Forall₂ (Numbered N) ks (logLines dir).flatten) (hks : ks.Pairwise (· < ·))
    (start mid stop : ℕ) (hstart : 1 ≤ start) (hmid : start ≤ mid) (hstop : mid < stop) :
    let verify a b := verifyChainIntegrity N H l dir (some a) (some b)
    ((verify start stop).isValid = true ↔
      (verify start mid).isValid = true ∧ (verify (mid + 1) stop).isValid = true) ∧
    ((verify start mid).isValid = false → verify start stop = verify start mid) ∧
    ((verify start mid).isValid = true → verify start stop = verify (mid + 1) stop) := by
  intro verify
  let genesis : Option (Json N) := some (.str genesisHash)
  have hverify : ∀ a b, 1 ≤ a → 1 ≤ b →
      verify a b = verdictOf (verifyLines H a b genesis (logLines dir).flatten) := by
    intro a b ha hb
    simp only [verify]
    rw [verifyChainIntegrity, orDefault_some ha, orDefault_some hb]
    exact verifyFiles_flatten (beyond_last hlines hks)
  have hsplit : verifyLines H start stop genesis (logLines dir).flatten =
      (verifyLines H start mid genesis (logLines dir).flatten).bind
        fun _ => verifyLines H (mid + 1) stop genesis (logLines dir).flatten :=
    verifyLines_split hlines hks (Nat.le_succ_of_le hmid) (Nat.le_of_lt hstop)
  rw [hverify start stop hstart (by omega), hverify start mid hstart (by omega),
    hverify (mid + 1) stop (by omega) (by omega), hsplit]
  cases hfirst : verifyLines H start mid genesis (logLines dir).flatten with
  | ok y => simp [Except.bind, verdictOf, Verdict.isValid]
  | error v =>
    have hv := verifyLines_error hfirst
    simp [Except.bind, verdictOf, hv]

/-- A log of two days, one entry on each, verified day by day. -/
theorem ranges_compose_twoDays :
    let verify a b := verifyChainIntegrity ℕ hexText twoDays.1 twoDays.2 (some a) (some b)
    ((verify 1 2).isValid = true ↔ (verify 1 1).isValid = true ∧ (verify 2 2).isValid = true) ∧
    ((verify 1 1).isValid = false → verify 1 2 = verify 1 1) ∧
    ((verify 1 1).isValid = true → verify 1 2 = verify 2 2) := by
  have hlines : List.Forall₂ (Numbered ℕ) [1, 2] (logLines twoDays.2).flatten := by
    rw [logLines_intact intact_twoDays]
    refine .cons ?_ (.cons ?_ .nil)
    · exact ⟨_, parseText_line loginEntry, get?_logSequenceNumber loginEntry⟩
    · exact ⟨_, parseText_line secondLogin, get?_logSequenceNumber secondLogin⟩
  exact ranges_compose hexText twoDays.1 twoDays.2 [1, 2] hlines (by decide) 1 1 2 (by decide)
    (by decide) (by decide)

end Composition

section Alterations

section Texts

variable (N : Type) [JsNumber N]

/-- The text under the hash differs; stored hash, link and number are kept. -/
def FieldsChanged (line line' : List Char) : Prop :=
  ∃ entry entry' : Json N, parseText line = some entry ∧ parseText line' = some entry' ∧
    (∀ k ∈ ["hash", "previousHash", "logSequenceNumber"], entry'.get? k = entry.get? k) ∧
    hashedText (hashedProperties entry') ≠ hashedText (hashedProperties entry)

/-- The lines of `dir'` are those of `dir`, with hashed fields of some of them changed. -/
structure Tampered (dir dir' : LogDir) (files : List (List (List Char × List Char))) : Prop where
  original : logLines dir = files.map fun f => f.map Prod.fst
  tampered : logLines dir' = files.map fun f => f.map Prod.snd
  lines : ∀ p ∈ files.flatten, p.2 = p.1 ∨ FieldsChanged N p.1 p.2

/-- The numbers of the lines that are changed. -/
def changedNumbers (lines : List (List Char × List Char)) : Set ℕ :=
  {k | ∃ p ∈ lines, Numbered N k p.1 ∧ FieldsChanged N p.1 p.2}

end Texts

variable {e : LogEntry N} {line' : List Char} {k : ℕ}

theorem numbered_line : Numbered N k e.line ↔ k = e.logSequenceNumber := by
  constructor
  · intro h
    obtain ⟨ps, hp, hk⟩ := h
    rw [parseText_line] at hp
    rw [← Option.some.inj hp, get?_logSequenceNumber, Option.some.injEq, Json.num.injEq] at hk
    have hnat := congrArg JsNumber.toNat? hk
    rw [JsNumber.toNat?_ofNat, JsNumber.toNat?_ofNat] at hnat
    exact (Option.some.inj hnat).symm
  · rintro rfl
    exact ⟨present e.properties, parseText_line e, get?_logSequenceNumber e⟩

/-- What is read from a line that keeps an entry's hash, link and number. -/
structure Keeps (e : LogEntry N) (line' : List Char) (ps : Members N) : Prop where
  parsed : parseText line' = some (.obj ps)
  hash : (Json.obj ps).get? "hash" = some (.str e.hash)
  previousHash : (Json.obj ps).get? "previousHash" = some (.str e.previousHash)
  number : (Json.obj ps).get? "logSequenceNumber" = some (.num (JsNumber.ofNat e.logSequenceNumber))

theorem keeps_line (e : LogEntry N) : Keeps e e.line (present e.properties) :=
  ⟨parseText_line e, get?_hash e, get?_previousHash e, get?_logSequenceNumber e⟩

theorem keeps_changed (h : FieldsChanged N e.line line') : ∃ ps, Keeps e line' ps ∧
    hashedText (hashedProperties (.obj ps)) ≠ hashedText e.toStandardLogFormat.properties := by
  obtain ⟨entry, entry', hp, hp', hkept, hne⟩ := h
  obtain rfl : entry = e.json := Option.some.inj (hp.symm.trans (parseText_line e))
  rw [hashedProperties_entry] at hne
  have hhash := hkept "hash" (by simp)
  have hprev := hkept "previousHash" (by simp)
  have hseq := hkept "logSequenceNumber" (by simp)
  rw [get?_hash] at hhash
  rw [get?_previousHash] at hprev
  rw [get?_logSequenceNumber] at hseq
  cases entry' with
  | obj ps => exact ⟨ps, ⟨hp', hhash, hprev, hseq⟩, hne⟩
  | _ => simp [Json.get?] at hhash

theorem Keeps.stored {ps : Members N} (h : Keeps e line' ps) :
    storedHash N line' = some (.str e.hash) := by
  rw [storedHash, h.parsed]
  exact h.hash

theorem keeps_replaced (h : line' = e.line ∨ FieldsChanged N e.line line') :
    ∃ ps, Keeps e line' ps := by
  rcases h with rfl | h
  · exact ⟨_, keeps_line e⟩
  · obtain ⟨ps, hps, -⟩ := keeps_changed h
    exact ⟨ps, hps⟩

theorem not_changed_self (line : List Char) : ¬ FieldsChanged N line line := by
  intro h
  obtain ⟨entry, entry', hp, hp', -, hne⟩ := h
  rw [Option.some.inj (hp'.symm.trans hp)] at hne
  contradiction

/-- The line of an entry with the text in its place. -/
def linePair (q : Site N) : List Char × List Char := (q.1.line, q.2)

theorem sites_of_lines {f : List (List Char × List Char)} {es : List (LogEntry N)}
    (h : f.map Prod.fst = es.map LogEntry.line) :
    ∃ sites : List (Site N), sites.map linePair = f ∧ sites.map Prod.fst = es := by
  induction f generalizing es with
  | nil =>
    cases es with
    | nil => exact ⟨[], rfl, rfl⟩
    | cons e es => contradiction
  | cons p f ih =>
    cases es with
    | nil => contradiction
    | cons e es =>
      rw [List.map_cons, List.map_cons] at h
      obtain ⟨hp, hf⟩ := List.cons.inj h
      obtain ⟨sites, hpair, hfst⟩ := ih hf
      refine ⟨(e, p.2) :: sites, ?_, ?_⟩
      · rw [List.map_cons, hpair]
        exact congrArg (· :: f) (Prod.ext hp.symm rfl)
      · rw [List.map_cons, hfst]

/-- The numbers of the changed lines among those verified. -/
def changedWithin (start stop : ℕ) (qs : List (Site N)) : Set ℕ :=
  changedNumbers N (qs.map linePair) ∩ Set.Icc start stop

variable {start stop : ℕ} {q : Site N} {qs : List (Site N)}

theorem mem_changedWithin : k ∈ changedWithin start stop qs ↔
    (∃ q ∈ qs, q.1.logSequenceNumber = k ∧ FieldsChanged N q.1.line q.2) ∧
      start ≤ k ∧ k ≤ stop := by
  have hpair : k ∈ changedNumbers N (qs.map linePair) ↔
      ∃ q ∈ qs, q.1.logSequenceNumber = k ∧ FieldsChanged N q.1.line q.2 := by
    constructor
    · intro h
      obtain ⟨p, hp, hnum, hchanged⟩ := h
      obtain ⟨q, hq, rfl⟩ := List.mem_map.mp hp
      exact ⟨q, hq, (numbered_line.mp hnum).symm, hchanged⟩
    · rintro ⟨q, hq, rfl, hchanged⟩
      exact ⟨linePair q, List.mem_map_of_mem hq, numbered_line.mpr rfl, hchanged⟩
  rw [changedWithin, Set.mem_inter_iff, hpair, Set.mem_Icc]

theorem changedWithin_cons
    (h : start ≤ q.1.logSequenceNumber → q.1.logSequenceNumber ≤ stop →
      ¬ FieldsChanged N q.1.line q.2) :
    changedWithin start stop (q :: qs) = changedWithin start stop qs := by
  ext k
  rw [mem_changedWithin, mem_changedWithin]
  constructor
  · intro hk
    obtain ⟨⟨q', hq', rfl, hchanged⟩, hlow, hhigh⟩ := hk
    rcases List.mem_cons.mp hq' with rfl | hq'
    · exact absurd hchanged (h hlow hhigh)
    · exact ⟨⟨q', hq', rfl, hchanged⟩, hlow, hhigh⟩
  · intro hk
    obtain ⟨⟨q', hq', rfl, hchanged⟩, hlow, hhigh⟩ := hk
    exact ⟨⟨q', List.mem_cons_of_mem q hq', rfl, hchanged⟩, hlow, hhigh⟩

variable {H : String → String}

/-- The changed lines of a chain are numbered from its first number on. -/
theorem le_of_mem_changedWithin {prev : String} {n : ℕ}
    (h : (logChain H).Linked prev n (qs.map Prod.fst)) (hk : k ∈ changedWithin start stop qs) :
    n + 1 ≤ k := by
  obtain ⟨⟨q, hq, rfl, -⟩, -⟩ := mem_changedWithin.mp hk
  exact (Scheme.number_le h (List.mem_map_of_mem hq)).1

variable [DecidableEq N]

theorem Keeps.check {ps : Members N} (h : Keeps e line' ps) :
    checkLine H e.logSequenceNumber e.logSequenceNumber
        (some (.str e.previousHash) : Option (Json N)) line' =
      if H (e.previousHash ++ hashedText (hashedProperties (.obj ps))) = e.hash then
        .next (some (.str e.hash))
      else .reply (hashMismatch (some (.num (JsNumber.ofNat e.logSequenceNumber)))
        (some (.str (H (e.previousHash ++ hashedText (hashedProperties (.obj ps))))))
        (some (.str e.hash))) := by
  have hcomputed : recomputedHash H (.obj ps) =
      some (H (e.previousHash ++ hashedText (hashedProperties (.obj ps)))) := by
    rw [recomputedHash, h.previousHash]
    rfl
  rw [checkLine_eq h.parsed (by simp), checkEntry, h.number, h.previousHash, h.hash, hcomputed]
  simp [Json.strictEq]

/-- An entry left as it is passes. -/
theorem checkLine_same
    (he : e.hash = computeHash H e.previousHash e.toStandardLogFormat.properties) :
    checkLine H e.logSequenceNumber e.logSequenceNumber
      (some (.str e.previousHash) : Option (Json N)) e.line = .next (some (.str e.hash)) := by
  have hsame : hashedProperties (.obj (present e.properties)) =
      e.toStandardLogFormat.properties := hashedProperties_entry e
  rw [(keeps_line e).check, hsame]
  exact if_pos he.symm

/-- An entry whose fields are changed is named. -/
theorem checkLine_changed (hH : Function.Injective H)
    (he : e.hash = computeHash H e.previousHash e.toStandardLogFormat.properties)
    (h : FieldsChanged N e.line line') : ∃ details,
      checkLine H e.logSequenceNumber e.logSequenceNumber
        (some (.str e.previousHash) : Option (Json N)) line' =
        .reply (.broken (some (.num (JsNumber.ofNat e.logSequenceNumber))) details) := by
  obtain ⟨ps, hps, hne⟩ := keeps_changed h
  have hcomputed : H (e.previousHash ++ hashedText (hashedProperties (.obj ps))) ≠ e.hash := by
    intro heq
    rw [he, computeHash] at heq
    have htext := congrArg String.toList (hH heq)
    rw [String.toList_append, String.toList_append] at htext
    exact hne (String.toList_inj.mp (List.append_cancel_left htext))
  rw [hps.check, if_neg hcomputed]
  exact ⟨_, rfl⟩

/-- Reading the lines of a chain: they are refused at the first changed one. -/
theorem verifyLines_sites (hH : Function.Injective H) {prev : String} {n : ℕ}
    (h : (logChain H).Linked prev n (qs.map Prod.fst))
    (hqs : ∀ q ∈ qs, q.2 = q.1.line ∨ FieldsChanged N q.1.line q.2) :
    (∃ k details, IsLeast (changedWithin start stop qs) k ∧
      verifyLines H start stop (some (.str prev) : Option (Json N)) (qs.map Prod.snd) =
        .error (.broken (some (.num (JsNumber.ofNat k))) details)) ∨
    (changedWithin start stop qs = ∅ ∧
      ∃ y, verifyLines H start stop (some (.str prev) : Option (Json N)) (qs.map Prod.snd) =
        .ok y) := by
  induction qs generalizing prev n with
  | nil => exact Or.inr ⟨by simp [Set.eq_empty_iff_forall_notMem, mem_changedWithin], _, rfl⟩
  | cons q qs ih =>
    obtain ⟨hp, hn, hh, hrest⟩ := linked_cons.mp h
    have htail := ih hrest fun q' hq' => hqs q' (List.mem_cons_of_mem q hq')
    have hq := hqs q List.mem_cons_self
    obtain ⟨ps, hps⟩ := keeps_replaced hq
    have hnum : Numbered N q.1.logSequenceNumber q.2 := ⟨ps, hps.parsed, hps.number⟩
    rw [List.map_cons]
    rcases Nat.lt_or_ge q.1.logSequenceNumber start with hlow | hlow
    · rw [verifyLines_before hnum hlow, hps.stored,
        changedWithin_cons fun hs _ => absurd hs (Nat.not_le.mpr hlow)]
      exact htail
    · rcases Nat.lt_or_ge stop q.1.logSequenceNumber with hhigh | hhigh
      · rw [verifyLines_beyond hnum hlow hhigh]
        refine Or.inr ⟨Set.eq_empty_iff_forall_notMem.mpr fun k hk => ?_, _, rfl⟩
        have hge := le_of_mem_changedWithin h hk
        have hle := (mem_changedWithin.mp hk).2.2
        omega
      · rw [verifyLines_within hnum hlow hhigh, ← hp]
        rw [← hp] at hh
        rcases hq with hsame | hchanged
        · have hnot : ¬ FieldsChanged N q.1.line q.2 := by
            rw [hsame]
            exact not_changed_self q.1.line
          rw [hsame, checkLine_same hh, changedWithin_cons fun _ _ => hnot]
          exact htail
        · obtain ⟨details, hline⟩ := checkLine_changed hH hh hchanged
          rw [hline]
          refine Or.inl ⟨q.1.logSequenceNumber, details, ⟨?_, fun k hk => ?_⟩, rfl⟩
          · exact mem_changedWithin.mpr ⟨⟨q, List.mem_cons_self, rfl, hchanged⟩, hlow, hhigh⟩
          · rw [hn]
            exact le_of_mem_changedWithin h hk

omit [DecidableEq N] in
theorem ascending_of_linked {prev : String} {n : ℕ} {es : List (LogEntry N)}
    (h : (logChain H).Linked prev n es) : (es.map LogEntry.logSequenceNumber).Pairwise (· < ·) := by
  induction es generalizing prev n with
  | nil => exact List.Pairwise.nil
  | cons e es ih =>
    obtain ⟨-, hn, -, hes⟩ := linked_cons.mp h
    refine List.pairwise_cons.mpr ⟨fun k hk => ?_, ih hes⟩
    obtain ⟨e', he', rfl⟩ := List.mem_map.mp hk
    have hlow : n + 1 + 1 ≤ e'.logSequenceNumber := (Scheme.number_le hes he').1
    omega

omit [DecidableEq N] in
theorem numbered_sites (hqs : ∀ q ∈ qs, q.2 = q.1.line ∨ FieldsChanged N q.1.line q.2) :
    List.Forall₂ (Numbered N) ((qs.map Prod.fst).map LogEntry.logSequenceNumber)
      (qs.map Prod.snd) := by
  induction qs with
  | nil => exact .nil
  | cons q qs ih =>
    obtain ⟨ps, hps⟩ := keeps_replaced (hqs q List.mem_cons_self)
    exact .cons ⟨ps, hps.parsed, hps.number⟩ (ih fun q' hq' => hqs q' (List.mem_cons_of_mem q hq'))

variable {s : SiemLogger × LogDir} {days : Days N} {dir' : LogDir}
variable {files : List (List (List Char × List Char))}

/-- Of an intact log with changed lines the first one in the range is named. -/
theorem verify_tampered (hH : Function.Injective H) (h : Intact H s days)
    (ht : Tampered N s.2 dir' files) (l : SiemLogger) (hstart : 1 ≤ start) (hstop : 1 ≤ stop) :
    (∃ k details, IsLeast (changedNumbers N files.flatten ∩ Set.Icc start stop) k ∧
      verifyChainIntegrity N H l dir' (some start) (some stop) =
        .broken (some (.num (JsNumber.ofNat k))) details) ∨
    (changedNumbers N files.flatten ∩ Set.Icc start stop = ∅ ∧
      verifyChainIntegrity N H l dir' (some start) (some stop) = .valid) := by
  have hlines : files.flatten.map Prod.fst = (days.map Prod.snd).flatten.map LogEntry.line := by
    rw [List.map_flatten, ← ht.original, logLines_intact h, ← List.map_flatten]
  obtain ⟨qs, hpairs, hentries⟩ := sites_of_lines hlines
  have hqs : ∀ q ∈ qs, q.2 = q.1.line ∨ FieldsChanged N q.1.line q.2 := fun q hq =>
    ht.lines (linePair q) (hpairs ▸ List.mem_map_of_mem hq)
  have hread : (logLines dir').flatten = qs.map Prod.snd := by
    rw [ht.tampered, ← List.map_flatten, ← hpairs, List.map_map]
    rfl
  have hlinked : (logChain H).Linked genesisHash 0 (qs.map Prod.fst) := hentries ▸ h.linked
  have hlast : (logLines dir').flatten.Pairwise fun l l' =>
      placeBetween N start stop l = .beyond → placeBetween N start stop l' = .beyond := by
    rw [hread]
    exact beyond_last (numbered_sites hqs) (ascending_of_linked hlinked)
  rw [verifyChainIntegrity, orDefault_some hstart, orDefault_some hstop,
    verifyFiles_flatten hlast, hread, ← hpairs]
  rcases verifyLines_sites hH hlinked hqs with ⟨k, details, hleast, hlines⟩ | ⟨hnone, y, hlines⟩
  · rw [hlines]
    exact Or.inl ⟨k, details, hleast, rfl⟩
  · rw [hlines]
    exact Or.inr ⟨hnone, rfl⟩

/-- Of a log that a run has written and someone has changed, verifying a range names
the first changed entry in it; without one it accepts. -/
theorem first_change_named (H : String → String) (hH : Function.Injective H) (dir : LogDir)
    (hdir : ∀ f ∈ dir.rows, isJsonl f.1 = false) (es : List (LogEvent N))
    (hlogs : .restart ∈ es → ∀ s, H s ≠ "")
    (hclock : (es.flatMap LogEvent.readings).Pairwise fun t t' => t.dateKey ≤ t'.dateKey)
    (dir' : LogDir) (files : List (List (List Char × List Char)))
    (ht : Tampered N (runEvents H (onModuleInit N dir, dir) es).2 dir' files)
    (l : SiemLogger) (start stop : ℕ) (hstart : 1 ≤ start) (hstop : start ≤ stop) :
    (∀ k, IsLeast (changedNumbers N files.flatten ∩ Set.Icc start stop) k →
      ∃ details, verifyChainIntegrity N H l dir' (some start) (some stop) =
        .broken (some (.num (JsNumber.ofNat k))) details) ∧
    (changedNumbers N files.flatten ∩ Set.Icc start stop = ∅ →
      verifyChainIntegrity N H l dir' (some start) (some stop) = .valid) := by
  obtain ⟨days, h, -⟩ := intact_events es hlogs (intact_start H hdir) hclock (by simp)
  rcases verify_tampered hH h ht l hstart (Nat.le_trans hstart hstop) with
    ⟨k', details, hleast, hverify⟩ | ⟨hnone, hverify⟩
  · constructor
    · intro k hk
      rw [hk.unique hleast]
      exact ⟨details, hverify⟩
    · intro hnone
      rw [hnone] at hleast
      exact absurd hleast.1 (Set.notMem_empty k')
  · constructor
    · intro k hk
      rw [hnone] at hk
      exact absurd hk.1 (Set.notMem_empty k)
    · exact fun _ => hverify

/-- The entry of the second day, laid on another user. -/
def alteredEntry : LogEntry ℕ := { secondLogin with user := "u2" }

def alteredDays : LogDir :=
  appendFile loginRun.2 (logFileName nextMorning) (alteredEntry.line ++ ['\n'])

private theorem fieldsChanged_second : FieldsChanged ℕ secondLogin.line alteredEntry.line := by
  refine ⟨secondLogin.json, alteredEntry.json, parseText_line _, parseText_line _, ?_, ?_⟩
  · intro k hk
    simp only [List.mem_cons, List.not_mem_nil, or_false] at hk
    rcases hk with rfl | rfl | rfl <;> rfl
  · intro htext
    have hu : alteredEntry.json.get? "user" ≠ secondLogin.json.get? "user" := by
      have hu : alteredEntry.json.get? "user" = some (.str "u2") := rfl
      have hu' : secondLogin.json.get? "user" = some (.str "u1") := rfl
      rw [hu, hu']
      simp
    exact hashedText_ne (parseText_line _) (parseText_line _) (by decide) hu
      (String.ofList_inj.mp htext)

/-- The entry of the first day passes, that of the second is named. -/
theorem first_change_named_twoDays :
    ∃ details, verifyChainIntegrity ℕ hexText twoDays.1 alteredDays (some 1) (some 2) =
      .broken (some (.num 2)) details := by
  have hfiled : Filed alteredDays [(morning, [loginEntry]), (nextMorning, [alteredEntry])] :=
    filed_newDay intact_loginRun.toFiled alteredEntry later_nextMorning
  have ht : Tampered ℕ twoDays.2 alteredDays
      [[(loginEntry.line, loginEntry.line)], [(secondLogin.line, alteredEntry.line)]] := by
    refine ⟨logLines_intact intact_twoDays, logLines_filed hfiled, ?_⟩
    intro p hp
    rcases List.mem_cons.mp hp with rfl | hp
    · exact Or.inl rfl
    · rw [List.mem_singleton.mp hp]
      exact Or.inr fieldsChanged_second
  refine (first_change_named hexText hexDigest_hexText.injective Table.empty (by simp [Table.empty])
    twoLogins (by simp [twoLogins]) (by decide) alteredDays _ ht twoDays.1 1 2 (by decide)
    (by decide)).1 2 ⟨⟨?_, by simp⟩, ?_⟩
  · exact ⟨(secondLogin.line, alteredEntry.line), by simp, numbered_line.mpr rfl,
      fieldsChanged_second⟩
  · intro k hk
    obtain ⟨⟨p, hp, hnum, hchanged⟩, -⟩ := hk
    rcases List.mem_cons.mp hp with rfl | hp
    · exact absurd hchanged (not_changed_self _)
    · rw [List.mem_singleton.mp hp] at hnum
      exact Nat.le_of_eq (numbered_line.mp hnum).symm

end Alterations

end VerdeAuth.SiemRangeVerification
