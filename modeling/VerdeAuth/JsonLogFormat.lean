import VerdeAuth.DateTimes
import VerdeAuth.JsonSchemas

/-!
# The log format

`json-log-format.ts`: the schema that all services are to log by, and the validator
written beside it.
-/

namespace VerdeAuth.JsonLogFormat

open JsonTexts JsonSchemas DateTimes

def isLowerHex (c : Char) : Bool := c.isDigit || (97 ≤ c.toNat && c.toNat ≤ 102)

/-- `^[a-f0-9]{64}$` -/
def sha256Pattern (cs : List Char) : Bool := cs.length = 64 && cs.all isLowerHex

def validServices : List String :=
  ["api-gateway", "core-bancario", "motor-fraude", "app-movil", "iam-service"]

def validResults : List String := ["SUCCESS", "FAILED", "BLOCKED", "PENDING"]

def stringSchema : Schema := .scalar .string []

def deviceSchema : Schema :=
  .object [] [("type", stringSchema), ("os", stringSchema), ("browser", stringSchema),
    ("name", stringSchema), ("fingerprint", stringSchema)]

def geoSchema : Schema :=
  .object [] [("country", stringSchema), ("city", stringSchema), ("latitude", .scalar .number []),
    ("longitude", .scalar .number []), ("timezone", stringSchema)]

def metadataSchema : Schema :=
  .object [] [("reason", stringSchema), ("attempts", .scalar .integer []), ("sessionId", stringSchema),
    ("transactionId", stringSchema), ("amount", .scalar .number []), ("currency", stringSchema),
    ("riskScore", .scalar .number [.minimum 0, .maximum 100])]

/-- `LOG_SCHEMA` -/
def logSchema : Schema :=
  .object ["timestamp", "service", "action", "result", "hash", "hashAlgorithm"]
    [("timestamp", .scalar .string [.format isDateTime]),
      ("service", .scalar .string [.enum validServices]),
      ("user", stringSchema),
      ("action", stringSchema),
      ("result", .scalar .string [.enum validResults]),
      ("ip", stringSchema),
      ("device", deviceSchema),
      ("geo", geoSchema),
      ("metadata", metadataSchema),
      ("hash", .scalar .string [.pattern sha256Pattern]),
      ("hashAlgorithm", .scalar .string [.const "SHA-256"]),
      ("previousHash", .scalar .string [.pattern sha256Pattern]),
      ("logSequenceNumber", .scalar .integer [.minimum 1])]

structure Validation where
  valid : Bool
  errors : Option (List String)

section Validator

variable {N : Type} [JsNumber N] [DecidableEq N]

/-- `typeof v === 'object'` -/
def isObject : Option (Json N) → Bool
  | some .null | some (.arr _) | some (.obj _) => true
  | _ => false

def requiredError (entry : Json N) (k : String) : List String :=
  if Json.truthy (entry.get? k) then [] else [k ++ " is required"]

def enumError (entry : Json N) (k : String) (values : List String) : List String :=
  if Json.truthy (entry.get? k) && !values.any fun s => Json.strictEq (entry.get? k) (some (.str s)) then
    [k ++ " must be one of: " ++ ", ".intercalate values]
  else []

def algorithmError (entry : Json N) : List String :=
  if Json.truthy (entry.get? "hashAlgorithm") &&
      !Json.strictEq (entry.get? "hashAlgorithm") (some (.str "SHA-256")) then
    ["hashAlgorithm must be SHA-256"]
  else []

/-- The errors pushed for an object, in order. -/
def entryErrors (entry : Json N) : List String :=
  (["timestamp", "service", "action", "result", "hash", "hashAlgorithm"].flatMap (requiredError entry)) ++
    enumError entry "service" validServices ++ enumError entry "result" validResults ++
    algorithmError entry

def validateLogEntry (entry : Option (Json N)) : Validation :=
  match entry with
  | none => ⟨false, some ["Entry must be an object"]⟩
  | some v =>
    if !Json.truthy (some v) || !isObject (some v) then ⟨false, some ["Entry must be an object"]⟩
    else ⟨(entryErrors v).isEmpty, if (entryErrors v).isEmpty then none else some (entryErrors v)⟩

end Validator

end VerdeAuth.JsonLogFormat
