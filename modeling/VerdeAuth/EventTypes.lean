import VerdeAuth.IamAssumptions

/-!
# Event types

`AuditLogService` and `SiemLoggerService` each sort actions into event types by the
first keyword that occurs. The first service has fewer keywords, so the same action
may be sorted differently.
-/

namespace VerdeAuth.EventTypes

open IamOperations AuthService IamAssumptions

variable {N : Type}

/-- `SiemLoggerService.getEventType` -/
def SiemLogger.getEventType (env : Env N) (action result : String) : String :=
  let actionLower := env.toLowerCase action
  if includes actionLower "login" then
    if result = "SUCCESS" then "login_success" else "login_failed"
  else if includes actionLower "logout" then "logout"
  else if includes actionLower "refresh" then "token_refresh"
  else if includes actionLower "mfa" && includes actionLower "enable" then "mfa_enabled"
  else if includes actionLower "mfa" && includes actionLower "disable" then "mfa_disabled"
  else if includes actionLower "lock" then "account_locked"
  else if includes actionLower "password" then "password_changed"
  else if includes actionLower "config" then "config_change"
  else if includes actionLower "transfer" then "transfer"
  else if includes actionLower "fraud" then "fraud_check"
  else actionLower

/-- `result` as the other service would have it. -/
def resultOf (success : Bool) : String := if success then "SUCCESS" else "FAILED"

/-- A keyword occurs that both services test first, in the same order. -/
def common (actionLower : String) : Bool :=
  includes actionLower "login" || includes actionLower "logout" ||
    includes actionLower "refresh" || (includes actionLower "mfa" && includes actionLower "enable")

/-- The types only one of the services has a keyword for. -/
def siemTypes : List String := ["mfa_disabled", "config_change", "transfer", "fraud_check"]

/-- No keyword that only one service has decides, unless the action is in lower case
the type itself. -/
def Agreed (actionLower : String) : Prop :=
  common actionLower = true ∨ actionLower ∈ siemTypes ∨
    (includes actionLower "mfa" && includes actionLower "disable") = false ∧
      ((includes actionLower "lock" || includes actionLower "password") = true ∨
        (includes actionLower "config" || includes actionLower "transfer" ||
          includes actionLower "fraud") = false)

section Agreement

variable {env : Env N} {action : String}

theorem eventTypes_common (success : Bool) (h : common (env.toLowerCase action) = true) :
    getEventType env action success = SiemLogger.getEventType env action (resultOf success) := by
  simp only [common, Bool.or_eq_true] at h
  unfold getEventType SiemLogger.getEventType
  rcases h with ((hlogin | hlogout) | hrefresh) | hmfa
  · cases success <;> simp [hlogin, resultOf]
  · cases success <;> simp [hlogout, resultOf]
  · cases success <;> simp [hrefresh, resultOf]
  · cases success <;> simp only [hmfa, resultOf] <;> rfl

/-- What is left of the first cascade. -/
theorem eventType_rest (success : Bool) (h : common (env.toLowerCase action) = false) :
    getEventType env action success =
      if includes (env.toLowerCase action) "lock" then "account_locked"
      else if includes (env.toLowerCase action) "password" then "password_changed"
      else env.toLowerCase action := by
  simp only [common, Bool.or_eq_false_iff] at h
  obtain ⟨⟨⟨hlogin, hlogout⟩, hrefresh⟩, hmfa⟩ := h
  simp only [getEventType, hlogin, hlogout, hrefresh, hmfa, Bool.false_eq_true, if_false]

/-- What is left of the second. -/
theorem siemEventType_rest (result : String) (h : common (env.toLowerCase action) = false) :
    SiemLogger.getEventType env action result =
      if includes (env.toLowerCase action) "mfa" && includes (env.toLowerCase action) "disable" then
        "mfa_disabled"
      else if includes (env.toLowerCase action) "lock" then "account_locked"
      else if includes (env.toLowerCase action) "password" then "password_changed"
      else if includes (env.toLowerCase action) "config" then "config_change"
      else if includes (env.toLowerCase action) "transfer" then "transfer"
      else if includes (env.toLowerCase action) "fraud" then "fraud_check"
      else env.toLowerCase action := by
  simp only [common, Bool.or_eq_false_iff] at h
  obtain ⟨⟨⟨hlogin, hlogout⟩, hrefresh⟩, hmfa⟩ := h
  simp only [SiemLogger.getEventType, hlogin, hlogout, hrefresh, hmfa, Bool.false_eq_true, if_false]

/-- The two rests agree on the same actions. -/
theorem rests_agree_iff (l : String) (h : common l = false) :
    ((if includes l "lock" then "account_locked"
      else if includes l "password" then "password_changed" else l) =
      if includes l "mfa" && includes l "disable" then "mfa_disabled"
      else if includes l "lock" then "account_locked"
      else if includes l "password" then "password_changed"
      else if includes l "config" then "config_change"
      else if includes l "transfer" then "transfer"
      else if includes l "fraud" then "fraud_check" else l) ↔ Agreed l := by
  constructor
  · intro heq
    by_cases hmem : l ∈ siemTypes
    · exact Or.inr (Or.inl hmem)
    · simp only [siemTypes, List.mem_cons, List.not_mem_nil, or_false, not_or] at hmem
      obtain ⟨hdisabled, hconfig, htransfer, hfraud⟩ := hmem
      refine Or.inr (Or.inr ?_)
      cases hd : includes l "mfa" && includes l "disable" with
      | true =>
        rw [hd, if_pos rfl] at heq
        split at heq
        · exact absurd heq (by decide)
        · split at heq
          · exact absurd heq (by decide)
          · exact absurd heq hdisabled
      | false =>
        refine ⟨rfl, ?_⟩
        cases hlock : includes l "lock" with
        | true => exact Or.inl rfl
        | false =>
          cases hpassword : includes l "password" with
          | true => exact Or.inl rfl
          | false =>
            simp only [hd, hlock, hpassword, Bool.false_eq_true, if_false] at heq
            refine Or.inr ?_
            split at heq
            · exact absurd heq hconfig
            · split at heq
              · exact absurd heq htransfer
              · split at heq
                · exact absurd heq hfraud
                · simp_all
  · intro hagreed
    rcases hagreed with hcommon | hmem | ⟨hdisable, hkeyword | hnone⟩
    · rw [h] at hcommon
      cases hcommon
    · simp only [siemTypes, List.mem_cons, List.not_mem_nil, or_false] at hmem
      rcases hmem with rfl | rfl | rfl | rfl <;> decide
    · rw [hdisable, if_neg Bool.false_ne_true]
      rcases Bool.or_eq_true_iff.mp hkeyword with hlock | hpassword
      · rw [if_pos hlock, if_pos hlock]
      · rw [if_pos hpassword, if_pos hpassword]
    · simp only [Bool.or_eq_false_iff] at hnone
      obtain ⟨⟨hconfig, htransfer⟩, hfraud⟩ := hnone
      simp only [hdisable, hconfig, htransfer, hfraud, Bool.false_eq_true, if_false]

end Agreement

/-- The services agree on an action exactly when no keyword that only one of them has
decides its type. -/
theorem eventTypes_agree_iff (env : Env N) (action : String) (success : Bool) :
    getEventType env action success = SiemLogger.getEventType env action (resultOf success) ↔
      Agreed (env.toLowerCase action) := by
  cases h : common (env.toLowerCase action) with
  | true => exact iff_of_true (eventTypes_common success h) (Or.inl h)
  | false =>
    rw [eventType_rest success h, siemEventType_rest (resultOf success) h]
    exact rests_agree_iff _ h

/-- An action whose name has more to it than the type is left as it is by one service. -/
theorem mfa_disable_sorted_apart :
    getEventType (plainEnv []) "MFA_DISABLE" true = "mfa_disable" ∧
      SiemLogger.getEventType (plainEnv []) "MFA_DISABLE" "SUCCESS" = "mfa_disabled" ∧
      getEventType (plainEnv []) "MFA_DISABLE" true ≠
        SiemLogger.getEventType (plainEnv []) "MFA_DISABLE" (resultOf true) := by
  decide

end VerdeAuth.EventTypes
