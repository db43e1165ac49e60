import VerdeAuth.ByteTexts
import VerdeAuth.TokenKinds

/-!
# The token-verification endpoint

`AuthService.verify` takes every text for base64, as its decoder refuses none. So
it accepts a token in its base64 form and never the token itself.
-/

namespace VerdeAuth.TokenVerification

open JsonTexts IamTables IamOperations ResumptionPrograms TokenServices AuthService IamAssumptions
open TokenKinds ByteTexts

variable {N : Type}

/-- `Buffer.from(s, 'base64').toString('ascii')` -/
def DecodesBase64 (env : Env N) : Prop :=
  ∀ s, env.base64Ascii (.str s) = some (asciiText (base64Bytes s))

/-- Only what was signed verifies. -/
def OnlySigned (env : Env N) : Prop :=
  ∀ key s t p, env.jwtVerify key s t = some p → s = env.jwtSign key p

/-- A signed text starts with the base64url form of a JSON object. -/
def CompactTexts (env : Env N) : Prop :=
  ∀ key p, ∃ rest, env.jwtSign key p = String.ofList ('e' :: 'y' :: rest)

/-- `verifyAccessToken` accepts the text. -/
def Accepts (env : Env N) (w : World) (s : String) : Prop :=
  ∃ p, ((verifyAccessToken env (some (.str s))).run (exec env) w).1 = .ok (some p)

/-- The reply of the endpoint. -/
def verified (env : Env N) (w : World) (s : String) : Except Failure Reply :=
  ((AuthService.verify env (some (.str s))).run (exec env) w).1

/-- The endpoint accepts the text exactly when it or its decoding is a token, and a
token in both of its forms with the payload it has. -/
structure BothForms (env : Env N) (w : World) (s : String) : Prop where
  status : (∃ p, verified env w s = .ok (.tokenStatus (some p))) ↔
    Accepts env w s ∨ Accepts env w (asciiText (base64Bytes s))
  payload : ∀ p, ((verifyAccessToken env (some (.str s))).run (exec env) w).1 = .ok (some p) →
    verified env w s = .ok (.tokenStatus (some p)) ∧
      verified env w (base64Text (utf8Bytes s)) = .ok (.tokenStatus (some p))

section Endpoint

variable {env : Env N} {w : World} {s : String}

theorem accepts_iff : Accepts env w s ↔ (env.jwtVerify env.jwtAccessSecret s w.clock).isSome := by
  rw [Option.isSome_iff_exists]
  constructor
  · rintro ⟨p, hp⟩
    exact ⟨p, Except.ok.inj hp⟩
  · rintro ⟨p, hp⟩
    exact ⟨p, congrArg Except.ok hp⟩

/-- The endpoint verifies the decoded text. -/
theorem verified_eq (hb : DecodesBase64 env) (w : World) (s : String) :
    verified env w s = .ok (.tokenStatus
      (env.jwtVerify env.jwtAccessSecret (asciiText (base64Bytes s)) w.clock)) := by
  have hdecode : decodeToken env (some (.str s)) =
      some (.str (asciiText (base64Bytes s))) := by
    simp [decodeToken, hb s]
  rw [verified, AuthService.verify, hdecode, verifyAccessToken, Prog.run_bind, run_verifyToken]
  rfl

theorem verified_some_iff (hb : DecodesBase64 env) :
    (∃ p, verified env w s = .ok (.tokenStatus (some p))) ↔
      Accepts env w (asciiText (base64Bytes s)) := by
  rw [accepts_iff, Option.isSome_iff_exists, verified_eq hb]
  constructor
  · rintro ⟨p, hp⟩
    exact ⟨p, Reply.tokenStatus.inj (Except.ok.inj hp)⟩
  · rintro ⟨p, hp⟩
    exact ⟨p, by rw [hp]⟩

/-- A token of ASCII characters is verified in its base64 form. -/
theorem verified_encoded (hb : DecodesBase64 env) (h : ∀ c ∈ s.toList, c.toNat < 128) :
    verified env w (base64Text (utf8Bytes s)) =
      .ok (.tokenStatus (env.jwtVerify env.jwtAccessSecret s w.clock)) := by
  rw [verified_eq hb, base64Bytes_base64Text, asciiText_utf8Bytes h]

/-- The decoding of a signed text starts with a brace. -/
theorem decoded_compact (rest : List Char) :
    ∃ rest', asciiText (base64Bytes (String.ofList ('e' :: 'y' :: rest))) =
      String.ofList ('\x7b' :: rest') := by
  have hsextets : ∃ vs, ((String.ofList ('e' :: 'y' :: rest)).toList.takeWhile
      (· ≠ '=')).filterMap unbase64 = 30 :: 50 :: vs := by
    refine ⟨(rest.takeWhile (· ≠ '=')).filterMap unbase64, ?_⟩
    rw [String.toList_ofList]
    simp [unbase64]
  obtain ⟨vs, hvs⟩ := hsextets
  have hfirst : ∃ bytes, octets (30 :: 50 :: vs) = UInt8.ofNat 123 :: bytes := by
    rcases vs with _ | ⟨y, _ | ⟨z, vs⟩⟩
    · exact ⟨_, rfl⟩
    · exact ⟨_, rfl⟩
    · exact ⟨_, rfl⟩
  obtain ⟨bytes, hbytes⟩ := hfirst
  rw [base64Bytes, hvs, hbytes]
  exact ⟨_, rfl⟩

/-- No signed text is the decoding of another one. -/
theorem not_accepts_decoded (hissued : OnlySigned env) (hcompact : CompactTexts env)
    (h : Accepts env w s) : ¬ Accepts env w (asciiText (base64Bytes s)) := by
  rw [accepts_iff, Option.isSome_iff_exists] at h ⊢
  rintro ⟨q, hq⟩
  obtain ⟨p, hp⟩ := h
  obtain ⟨rest, hrest⟩ := hcompact env.jwtAccessSecret p
  obtain ⟨rest', hrest'⟩ := hcompact env.jwtAccessSecret q
  obtain ⟨decoded, hdecoded⟩ := decoded_compact rest
  have hsigned := hissued _ _ _ _ hq
  rw [hissued _ _ _ _ hp, hrest, hdecoded, hrest'] at hsigned
  have hchars := congrArg String.toList hsigned
  simp at hchars

end Endpoint

/-- The endpoint treats a text as it should exactly when the text is no token. -/
theorem both_forms_iff (env : Env N) (hb : DecodesBase64 env) (hissued : OnlySigned env)
    (hcompact : CompactTexts env) (w : World) (s : String) :
    BothForms env w s ↔ ¬ Accepts env w s := by
  constructor
  · intro hboth haccepts
    apply not_accepts_decoded hissued hcompact haccepts
    exact (verified_some_iff hb).mp (hboth.status.mpr (Or.inl haccepts))
  · intro hnot
    constructor
    · rw [verified_some_iff hb, or_iff_right hnot]
    · intro p hp
      exact absurd ⟨p, hp⟩ hnot

/-- Signed texts as they are in compact form. -/
def compactEnv (issued : List JwtPayload) : Env ℕ :=
  { plainEnv issued with
    jwtSign := fun key p => "ey" ++ plainEnv.plainSign key p
    jwtVerify := fun key s t =>
      issued.find? fun p => "ey" ++ plainEnv.plainSign key p = s && t / 1000 < p.exp
    base64Ascii := fun
      | .str s => some (asciiText (base64Bytes s))
      | _ => none }

def anaToken : String := "ey" ++ plainEnv.plainSign "access" anaPayload

theorem onlySigned_compactEnv (issued : List JwtPayload) : OnlySigned (compactEnv issued) := by
  intro key s t p h
  have hp := List.find?_some h
  simp only [Bool.and_eq_true, decide_eq_true_eq] at hp
  exact hp.1.symm

theorem compactTexts_compactEnv (issued : List JwtPayload) : CompactTexts (compactEnv issued) := by
  intro key p
  refine ⟨(plainEnv.plainSign key p).toList, ?_⟩
  apply String.toList_inj.mp
  simp [compactEnv]

/-- Ana's access token is valid. The endpoint accepts it in base64 and not as it is. -/
theorem raw_token_refused :
    Accepts (compactEnv [anaPayload]) anaWorld anaToken ∧
      verified (compactEnv [anaPayload]) anaWorld anaToken = .ok (.tokenStatus none) ∧
      verified (compactEnv [anaPayload]) anaWorld (base64Text (utf8Bytes anaToken)) =
        .ok (.tokenStatus (some anaPayload)) ∧
      ¬ BothForms (compactEnv [anaPayload]) anaWorld anaToken := by
  have haccepts : Accepts (compactEnv [anaPayload]) anaWorld anaToken := ⟨anaPayload, by decide⟩
  have hrefused : verified (compactEnv [anaPayload]) anaWorld anaToken =
      .ok (.tokenStatus none) := by rfl
  refine ⟨haccepts, hrefused, ?_, ?_⟩
  · have hascii : anaToken.toList.all (fun c => c.toNat < 128) = true := by rfl
    rw [verified_encoded (fun _ => rfl) fun c hc =>
      of_decide_eq_true (List.all_eq_true.mp hascii c hc)]
    rfl
  · intro hboth
    obtain ⟨p, hp⟩ := hboth.status.mpr (Or.inl haccepts)
    rw [hrefused] at hp
    cases hp

theorem both_forms_iff_ana :
    BothForms (compactEnv [anaPayload]) anaWorld anaToken ↔
      ¬ Accepts (compactEnv [anaPayload]) anaWorld anaToken :=
  both_forms_iff (compactEnv [anaPayload]) (fun _ => rfl) (onlySigned_compactEnv _)
    (compactTexts_compactEnv _) anaWorld anaToken

end VerdeAuth.TokenVerification
