import VerdeAuth.JsonRoundTrip
import VerdeAuth.SiemLoggerService

/-!
# Lines of a log file

An entry's line parses back to the entry, with the nine hashed properties it was
written with, and the lines of a file of entries are the entries' lines.
-/

namespace VerdeAuth.LogEntryLines

open JsonTexts SiemLoggerService

variable {N : Type}

private theorem mem_present {ps : List (String × Option (Json N))} {p : String × Json N} :
    p ∈ present ps ↔ (p.1, some p.2) ∈ ps := by
  constructor
  · intro h
    obtain ⟨q, hq, he⟩ := List.mem_filterMap.mp h
    obtain ⟨v, hv, rfl⟩ := Option.map_eq_some_iff.mp he
    rw [← hv]
    exact hq
  · intro h
    exact List.mem_filterMap.mpr ⟨_, h, rfl⟩

private theorem names_present (ps : List (String × Option (Json N))) :
    ((present ps).map Prod.fst).Sublist (ps.map Prod.fst) := by
  induction ps with
  | nil => exact List.Sublist.refl _
  | cons p ps ih =>
    rcases p with ⟨k, _ | v⟩
    · exact ih.cons k
    · exact ih.cons_cons k

/-- Names as the properties of a written object have them. -/
def PropertyNames (ks : List String) : Prop := ks.Nodup ∧ ∀ k ∈ ks, arrayIndex k = none

theorem ordered_present {ps : List (String × Option (Json N))}
    (h : PropertyNames (ps.map Prod.fst)) : Ordered (present ps) := by
  have hsub := names_present ps
  refine ordered_of_names (h.1.sublist hsub) fun p hp => ?_
  exact h.2 p.1 (hsub.subset (List.mem_map_of_mem hp))

theorem wf_present {ps : List (String × Option (Json N))} (h : PropertyNames (ps.map Prod.fst))
    (hv : ∀ p ∈ ps, ∀ v ∈ p.2, v.Wf) : (Json.obj (present ps)).Wf := by
  refine ⟨ordered_present h, Json.wfMembers_iff.mpr fun p hp => ?_⟩
  exact hv _ (mem_present.mp hp) p.2 rfl

theorem get?_present {ps : List (String × Option (Json N))} (h : (ps.map Prod.fst).Nodup)
    {k : String} {v : Option (Json N)} (hk : (k, v) ∈ ps) :
    (Json.obj (present ps)).get? k = v := by
  induction ps with
  | nil => contradiction
  | cons p ps ih =>
    obtain ⟨hp, hps⟩ := List.nodup_cons.mp h
    rcases List.mem_cons.mp hk with rfl | hk'
    · cases v with
      | some v => simp [Json.get?, present]
      | none =>
        have hnone : (present ps).find? (fun q => decide (q.1 = k)) = none := by
          rw [List.find?_eq_none]
          intro q hq
          rw [decide_eq_true_eq]
          rintro rfl
          exact hp ((names_present ps).subset (List.mem_map_of_mem hq))
        simpa [Json.get?, present] using hnone
    · have hne : p.1 ≠ k := by
        rintro rfl
        exact hp (List.mem_map.mpr ⟨_, hk', rfl⟩)
      rcases p with ⟨k', _ | v'⟩
      · exact ih hps hk'
      · have hget := ih hps hk'
        simp only [Json.get?, present, List.filterMap_cons, Option.map_some] at hget ⊢
        rw [List.find?_cons_of_neg (by simpa using hne)]
        exact hget

private theorem formatNames (f : StandardLogFormat N) :
    f.properties.map Prod.fst = hashedFields := rfl

theorem propertyNames_hashedFields : PropertyNames hashedFields := by
  rw [PropertyNames]
  decide

theorem wf_formatProperties (f : StandardLogFormat N) :
    ∀ p ∈ f.properties, ∀ v ∈ p.2, v.Wf := by
  have hopt : ∀ o : Option (JsonValue N), ∀ v ∈ o.map Subtype.val, v.Wf := by
    intro o v hv
    obtain ⟨w, -, rfl⟩ := Option.map_eq_some_iff.mp hv
    exact w.2
  intro p hp v hv
  simp only [StandardLogFormat.properties, List.mem_cons, List.not_mem_nil, or_false] at hp
  rcases hp with rfl | rfl | rfl | rfl | rfl | rfl | rfl | rfl | rfl
  · obtain ⟨t, -, rfl⟩ := Option.map_eq_some_iff.mp hv
    trivial
  all_goals first | exact hopt _ v hv | (cases hv; trivial)

section Entries

variable [JsNumber N]

private theorem entryNames (e : LogEntry N) : e.properties.map Prod.fst =
    hashedFields ++ ["hash", "hashAlgorithm", "previousHash", "logSequenceNumber"] := rfl

theorem propertyNames_entry (e : LogEntry N) : PropertyNames (e.properties.map Prod.fst) := by
  rw [entryNames, PropertyNames]
  decide

theorem wf_entry (e : LogEntry N) : e.json.Wf := by
  refine wf_present (propertyNames_entry e) fun p hp v hv => ?_
  rcases List.mem_append.mp hp with hp | hp
  · exact wf_formatProperties e.toStandardLogFormat p hp v hv
  · simp only [List.mem_cons, List.not_mem_nil, or_false] at hp
    rcases hp with rfl | rfl | rfl | rfl <;> cases hv <;> trivial

/-- The line of an entry reads back as the entry. -/
theorem parseText_line (e : LogEntry N) : parseText e.line = some e.json :=
  parseText_text e.json (wf_entry e)

theorem get?_entry (e : LogEntry N) {k : String} {v : Option (Json N)}
    (h : (k, v) ∈ e.properties) : e.json.get? k = v := get?_present (propertyNames_entry e).1 h

@[simp] theorem get?_hash (e : LogEntry N) : e.json.get? "hash" = some (.str e.hash) :=
  get?_entry e (by simp [LogEntry.properties])

@[simp] theorem get?_previousHash (e : LogEntry N) :
    e.json.get? "previousHash" = some (.str e.previousHash) :=
  get?_entry e (by simp [LogEntry.properties])

@[simp] theorem get?_logSequenceNumber (e : LogEntry N) :
    e.json.get? "logSequenceNumber" = some (.num (JsNumber.ofNat e.logSequenceNumber)) :=
  get?_entry e (by simp [LogEntry.properties])

/-- Reading the nine hashed properties back gives what was hashed. -/
theorem hashedProperties_entry (e : LogEntry N) :
    hashedProperties e.json = e.toStandardLogFormat.properties := by
  have hget : ∀ p ∈ e.toStandardLogFormat.properties, e.json.get? p.1 = p.2 := fun p hp =>
    get?_entry e (List.mem_append_left _ hp)
  rw [hashedProperties, ← formatNames e.toStandardLogFormat, List.map_map]
  refine (List.map_congr_left fun p hp => ?_).trans (List.map_id _)
  exact Prod.ext rfl (hget p hp)

/-- The contents of a file to which these entries were appended. -/
def render (es : List (LogEntry N)) : List Char := es.flatMap fun e => e.line ++ ['\n']

private theorem render_eq_intercalate {es : List (LogEntry N)} (h : es ≠ []) :
    render es = ['\n'].intercalate (es.map LogEntry.line) ++ ['\n'] := by
  induction es with
  | nil => contradiction
  | cons e es ih =>
    cases es with
    | nil => simp [render]
    | cons e' es =>
      have htail := ih (by simp)
      simp only [render, List.flatMap_cons, List.map_cons, List.intercalate_cons_cons] at htail ⊢
      rw [htail]
      simp

theorem isTrimmed_brace : isTrimmed '{' = false ∧ isTrimmed '}' = false ∧
    isTrimmed '\n' = true := by decide

private theorem trim_braces {cs r r' : List Char} (h : cs = '{' :: r) (h' : cs = r' ++ ['}']) :
    trim (cs ++ ['\n']) = cs := by
  obtain ⟨ho, hc, hn⟩ := isTrimmed_brace
  have hdrop : (cs ++ ['\n']).dropWhile isTrimmed = cs ++ ['\n'] := by simp [h, ho]
  rw [trim, hdrop, h']
  simp [hn, hc]

theorem line_starts (e : LogEntry N) : ∃ r, e.line = '{' :: r := objText_starts _

theorem line_ends (e : LogEntry N) : ∃ r, e.line = r ++ ['}'] := objText_ends _

private theorem intercalate_starts {es : List (LogEntry N)} (h : es ≠ []) :
    ∃ r, ['\n'].intercalate (es.map LogEntry.line) = '{' :: r := by
  cases es with
  | nil => contradiction
  | cons e es =>
    obtain ⟨r, hr⟩ := line_starts e
    cases es with
    | nil => exact ⟨r, by simp [hr]⟩
    | cons e' es =>
      exact ⟨_, by rw [List.map_cons, List.map_cons, List.intercalate_cons_cons, hr]; rfl⟩

private theorem intercalate_ends {es : List (LogEntry N)} (h : es ≠ []) :
    ∃ r, ['\n'].intercalate (es.map LogEntry.line) = r ++ ['}'] := by
  induction es with
  | nil => contradiction
  | cons e es ih =>
    cases es with
    | nil =>
      obtain ⟨r, hr⟩ := line_ends e
      exact ⟨r, by simp [hr]⟩
    | cons e' es =>
      obtain ⟨r, hr⟩ := ih (by simp)
      refine ⟨e.line ++ '\n' :: r, ?_⟩
      rw [List.map_cons, List.map_cons, List.intercalate_cons_cons, ← List.map_cons, hr]
      simp

theorem noBreak_line (e : LogEntry N) : '\n' ∉ e.line := noBreak_text e.json

theorem line_ne_nil (e : LogEntry N) : e.line ≠ [] := by
  obtain ⟨r, hr⟩ := line_starts e
  rw [hr]
  exact List.cons_ne_nil _ r

theorem json_of_line {e e' : LogEntry N} (h : e.line = e'.line) : e.json = e'.json := by
  apply Option.some.inj
  rw [← parseText_line, ← parseText_line, h]

/-- An entry is told by its line. -/
theorem line_injective {e e' : LogEntry N} (h : e.line = e'.line) : e = e' := by
  have hread : ∀ e : LogEntry N,
      (e.properties.map Prod.fst).map (fun k => (k, e.json.get? k)) = e.properties := by
    intro e
    rw [List.map_map]
    refine (List.map_congr_left fun p hp => ?_).trans (List.map_id _)
    exact Prod.ext rfl (get?_entry e hp)
  have hprops : e.properties = e'.properties := by
    rw [← hread e, ← hread e', entryNames, entryNames, json_of_line h]
  have hstr : Function.Injective (Json.str : String → Json N) := fun _ _ => Json.str.inj
  have hnum : Function.Injective (JsNumber.ofNat : ℕ → N) := by
    intro m n hmn
    have hnat := congrArg JsNumber.toNat? hmn
    rw [JsNumber.toNat?_ofNat, JsNumber.toNat?_ofNat] at hnat
    exact Option.some.inj hnat
  obtain ⟨⟨timestamp, service, user, action, result, ip, device, geo, metadata⟩, hash, algorithm,
    previous, number⟩ := e
  obtain ⟨⟨timestamp', service', user', action', result', ip', device', geo', metadata'⟩, hash',
    algorithm', previous', number'⟩ := e'
  simp only [LogEntry.properties, StandardLogFormat.properties, List.cons_append, List.nil_append,
    List.cons.injEq, Prod.mk.injEq, true_and, Option.some.injEq, Json.str.injEq, Json.num.injEq,
    and_true, (Option.map_injective hstr).eq_iff, (Option.map_injective Subtype.val_injective).eq_iff,
    hnum.eq_iff] at hprops
  obtain ⟨rfl, rfl, rfl, rfl, rfl, rfl, rfl, rfl, rfl, rfl, rfl, rfl, rfl⟩ := hprops
  rfl

/-- The lines of a file, from its trimmed contents. -/
theorem fileLines_of_trim {content : List Char} {ls : List (List Char)} (hne : ls ≠ [])
    (htrim : trim content = ['\n'].intercalate ls) (hls : ∀ l ∈ ls, '\n' ∉ l ∧ l ≠ []) :
    fileLines content = ls := by
  have hfull : ∀ l ∈ ls, (!l.isEmpty) = true := by
    intro l hl
    simpa using (hls l hl).2
  rw [fileLines, htrim, List.splitOn_intercalate _ (fun l hl => (hls l hl).1) hne,
    List.filter_eq_self.mpr hfull]

/-- The lines of a file are the lines of the entries appended to it. -/
theorem fileLines_render (es : List (LogEntry N)) :
    fileLines (render es) = es.map LogEntry.line := by
  by_cases h : es = []
  · subst h
    simp [fileLines, render, trim, List.splitOn_nil]
  · obtain ⟨r, hr⟩ := intercalate_starts h
    obtain ⟨r', hr'⟩ := intercalate_ends h
    have htrim : trim (render es) = ['\n'].intercalate (es.map LogEntry.line) := by
      rw [render_eq_intercalate h, trim_braces hr hr']
    apply fileLines_of_trim (by simpa using h) htrim
    intro l hl
    obtain ⟨e, -, rfl⟩ := List.mem_map.mp hl
    exact ⟨noBreak_line e, line_ne_nil e⟩

end Entries

end VerdeAuth.LogEntryLines
