import VerdeAuth.SiemChainIntegrity

/-!
# Hashes in hexadecimal

A hash function without collisions whose digests are in hexadecimal: what it is
computed from can be told apart, the hash before from the nine fields. With a
stand-in for it, a log of one login and one of two days.
-/

namespace VerdeAuth.HexDigests

open HashChains JsonTexts KeyedTables SiemLoggerService LogEntryLines SiemChainIntegrity

/-- A hash function that does not collide, with its digests in hexadecimal. -/
structure HexDigest (H : String → String) : Prop where
  injective : Function.Injective H
  nonempty : ∀ s, H s ≠ ""
  hex : ∀ s, ∀ c ∈ (H s).toList, (hexValue c).isSome

section Chain

variable {N : Type} [JsNumber N] {H : String → String}

private theorem notMem_of_hex {H : String → String} (hH : HexDigest H) (s : String) {c : Char}
    (hc : hexValue c = none) : c ∉ (H s).toList := by
  intro hmem
  have hsome := hH.hex s c hmem
  rw [hc] at hsome
  contradiction

theorem HexDigest.ne_genesis {H : String → String} (hH : HexDigest H) (s : String) :
    H s ≠ genesisHash := by
  have hG : 'G' ∉ (H s).toList := notMem_of_hex hH s (by decide)
  intro he
  rw [he] at hG
  exact hG (by decide)

private theorem append_cons_inj {c : Char} {cs cs' r r' : List Char} (hc : c ∉ cs) (hc' : c ∉ cs')
    (h : cs ++ c :: r = cs' ++ c :: r') : cs = cs' ∧ r = r' := by
  have htake : ∀ {ds s : List Char}, c ∉ ds → (ds ++ c :: s).takeWhile (· ≠ c) = ds := by
    intro ds s hds
    rw [List.takeWhile_append_of_pos fun d hd => by
      rw [decide_eq_true_eq]
      rintro rfl
      exact hds hd]
    simp
  have heq : cs = cs' := by rw [← htake (s := r) hc, h, htake hc']
  subst heq
  exact ⟨rfl, (List.cons.inj (List.append_cancel_left h)).2⟩

/-- Texts without an opening brace in front of the texts of objects. -/
theorem split_at_brace {p p' : String} {ps ps' : Members N} (hp : '{' ∉ p.toList)
    (hp' : '{' ∉ p'.toList)
    (h : p ++ String.ofList (text (.obj ps)) = p' ++ String.ofList (text (.obj ps'))) :
    p = p' ∧ text (.obj ps) = text (.obj ps') := by
  obtain ⟨r, hr⟩ := objText_starts ps
  obtain ⟨r', hr'⟩ := objText_starts ps'
  have hl := congrArg String.toList h
  rw [String.toList_append, String.toList_append, String.toList_ofList, String.toList_ofList,
    hr, hr'] at hl
  obtain ⟨hpp, hrr⟩ := append_cons_inj hp hp' hl
  exact ⟨String.toList_inj.mp hpp, by rw [hr, hr', hrr]⟩

theorem separating (hH : HexDigest H) :
    (logChain (N := N) H).Separating genesisHash fun p => '{' ∉ p.toList where
  injective p p' r r' hp hp' h := (split_at_brace hp hp' (hH.injective h)).1
  ne_start p r := hH.ne_genesis _
  valid_digest p r := notMem_of_hex hH _ (by decide)

variable {es : List (LogEntry N)}

/-- The links of a log, from the genesis hash on, are all different. -/
theorem hashes_nodup (hH : HexDigest H) (h : (logChain H).Linked genesisHash 0 es) :
    (genesisHash :: es.map (logChain H).link).Nodup :=
  Scheme.links_nodup (separating hH) (by decide) h

theorem noBrace_hash (hH : HexDigest H) (h : (logChain H).Linked genesisHash 0 es)
    {e : LogEntry N} (he : e ∈ es) : '{' ∉ e.hash.toList := Scheme.valid_links (separating hH) h e he

theorem noBrace_previousHash (hH : HexDigest H) (h : (logChain H).Linked genesisHash 0 es)
    {e : LogEntry N} (he : e ∈ es) : '{' ∉ e.previousHash.toList := by
  rcases Scheme.previous_mem h he with hp | ⟨e', he', hp⟩
  · have hgen : e.previousHash = genesisHash := hp
    rw [hgen]
    decide
  · have hprev : e.previousHash = e'.hash := hp
    rw [hprev]
    exact noBrace_hash hH h he'

/-- Altering a hashed field changes the text under the hash. -/
theorem hashedText_ne {line line' : List Char} {entry entry' : Json N}
    (h : parseText line = some entry) (h' : parseText line' = some entry') {k : String}
    (hk : k ∈ hashedFields) (hne : entry'.get? k ≠ entry.get? k) :
    text (.obj (present (hashedProperties entry'))) ≠
      text (.obj (present (hashedProperties entry))) := by
  have hnames : ∀ v : Json N, (hashedProperties v).map Prod.fst = hashedFields := fun _ => rfl
  have hprop := propertyNames_hashedFields
  have hwf : ∀ v : Json N, v.Wf → (Json.obj (present (hashedProperties v))).Wf := by
    intro v hv
    refine wf_present ((hnames v).symm ▸ hprop) fun p hp w hw => ?_
    obtain ⟨k, -, rfl⟩ := List.mem_map.mp hp
    exact Json.wf_get? hv hw
  have hget : ∀ v : Json N, (Json.obj (present (hashedProperties v))).get? k = v.get? k := fun v =>
    get?_present ((hnames v).symm ▸ hprop.1) (List.mem_map.mpr ⟨k, hk, rfl⟩)
  intro he
  have hobj := text_injective (hwf _ (wf_of_parseText h')) (hwf _ (wf_of_parseText h)) he
  rw [← hget entry', ← hget entry, hobj] at hne
  contradiction

end Chain

section Samples

/-- A stand-in for a digest: the characters themselves, in hexadecimal. -/
def hexText (s : String) : String := String.ofList ('0' :: s.toList.flatMap fun c =>
  [hexDigit (c.toNat / 0x100000 % 16), hexDigit (c.toNat / 0x10000 % 16),
    hexDigit (c.toNat / 0x1000 % 16), hexDigit (c.toNat / 0x100 % 16),
    hexDigit (c.toNat / 16 % 16), hexDigit (c.toNat % 16)])

private theorem hexDigit_injective : ∀ m < 16, ∀ n < 16, hexDigit m = hexDigit n → m = n := by
  decide

private theorem hexDigit_isHex : ∀ n < 16, (hexValue (hexDigit n)).isSome = true := by decide

private theorem char_eq_of_hex {c d : Char}
    (h₅ : hexDigit (c.toNat / 0x100000 % 16) = hexDigit (d.toNat / 0x100000 % 16))
    (h₄ : hexDigit (c.toNat / 0x10000 % 16) = hexDigit (d.toNat / 0x10000 % 16))
    (h₃ : hexDigit (c.toNat / 0x1000 % 16) = hexDigit (d.toNat / 0x1000 % 16))
    (h₂ : hexDigit (c.toNat / 0x100 % 16) = hexDigit (d.toNat / 0x100 % 16))
    (h₁ : hexDigit (c.toNat / 16 % 16) = hexDigit (d.toNat / 16 % 16))
    (h₀ : hexDigit (c.toNat % 16) = hexDigit (d.toNat % 16)) : c = d := by
  have hlt : ∀ n, n % 16 < 16 := fun n => Nat.mod_lt n (by decide)
  have hchar : ∀ a : Char, a.toNat < 0x110000 := by
    intro a
    rcases a.valid with h | ⟨-, h⟩
    · exact Nat.lt_trans h (by decide)
    · exact h
  have hc := hchar c
  have hd := hchar d
  have e₅ := hexDigit_injective _ (hlt _) _ (hlt _) h₅
  have e₄ := hexDigit_injective _ (hlt _) _ (hlt _) h₄
  have e₃ := hexDigit_injective _ (hlt _) _ (hlt _) h₃
  have e₂ := hexDigit_injective _ (hlt _) _ (hlt _) h₂
  have e₁ := hexDigit_injective _ (hlt _) _ (hlt _) h₁
  have e₀ := hexDigit_injective _ (hlt _) _ (hlt _) h₀
  exact Char.toNat_inj.mp (by omega)

theorem hexDigest_hexText : HexDigest hexText where
  injective s s' h := by
    rw [hexText, hexText, String.ofList_inj] at h
    refine String.toList_inj.mp ?_
    have htail := (List.cons.inj h).2
    generalize s.toList = cs at htail
    generalize s'.toList = ds at htail
    induction cs generalizing ds with
    | nil =>
      cases ds with
      | nil => rfl
      | cons d ds => contradiction
    | cons c cs ih =>
      cases ds with
      | nil => contradiction
      | cons d ds =>
        simp only [List.flatMap_cons, List.cons_append, List.nil_append, List.cons.injEq] at htail
        obtain ⟨h₅, h₄, h₃, h₂, h₁, h₀, hrest⟩ := htail
        rw [char_eq_of_hex h₅ h₄ h₃ h₂ h₁ h₀, ih ds hrest]
  nonempty s h := by
    have hl := congrArg String.toList h
    rw [hexText, String.toList_ofList] at hl
    contradiction
  hex s c hc := by
    rw [hexText, String.toList_ofList] at hc
    rcases List.mem_cons.mp hc with rfl | hc
    · decide
    · obtain ⟨d, -, hd⟩ := List.mem_flatMap.mp hc
      simp only [List.mem_cons, List.not_mem_nil, or_false] at hd
      rcases hd with rfl | rfl | rfl | rfl | rfl | rfl <;>
        exact hexDigit_isHex _ (Nat.mod_lt _ (by decide))

def morning : Instant := ⟨2026, 1, 5, 8, 0, 0, 0⟩

def loginFormat : StandardLogFormat ℕ :=
  ⟨none, "iam", "u1", "LOGIN", "FAILURE", "::1", none, none, none⟩

def loginEntry : LogEntry ℕ := newEntry hexText (onModuleInit ℕ Table.empty) loginFormat morning

def loginRun : SiemLogger × LogDir :=
  runEvents hexText (onModuleInit ℕ Table.empty, Table.empty) [.log loginFormat morning morning]

theorem intact_loginRun : Intact hexText loginRun [(morning, [loginEntry])] :=
  intact_newDay (intact_start (N := ℕ) hexText (by simp [Table.empty])) loginFormat morning
    (by simp)

def nextMorning : Instant := ⟨2026, 1, 6, 8, 0, 0, 0⟩

theorem later_nextMorning : ∀ d ∈ [(morning, [loginEntry])], d.1.dateKey < nextMorning.dateKey := by
  intro d hd
  rw [List.mem_singleton.mp hd]
  decide

/-- A login on each of two days. -/
def twoLogins : List (LogEvent ℕ) :=
  [.log loginFormat morning morning, .log loginFormat nextMorning nextMorning]

def twoDays : SiemLogger × LogDir :=
  runEvents hexText (onModuleInit ℕ Table.empty, Table.empty) twoLogins

def secondLogin : LogEntry ℕ := newEntry hexText loginRun.1 loginFormat nextMorning

theorem intact_twoDays :
    Intact hexText twoDays [(morning, [loginEntry]), (nextMorning, [secondLogin])] :=
  intact_newDay intact_loginRun loginFormat nextMorning later_nextMorning

end Samples

end VerdeAuth.HexDigests
