import Mathlib.Algebra.GroupWithZero.Nat
import Mathlib.Data.List.Sort
import VerdeAuth.JavaScriptCoercions
import VerdeAuth.KeyedTables

/-!
# The hash-chained security log

`SiemLoggerService`: appending entries to one file a day, taking up the chain
from disk, and verifying it. The hash function is a parameter. A directory is
the list of its files; what has been written is on disk.
-/

namespace VerdeAuth.SiemLoggerService

open JsonTexts KeyedTables

/-- A reading of the wall clock in UTC, with a four-digit year. -/
structure Instant where
  year : Fin 10000
  month : Fin 13
  day : Fin 32
  hour : Fin 24
  minute : Fin 60
  second : Fin 60
  milli : Fin 1000

namespace Instant

/-! The ranges of the fields hold every literal. -/

instance neZero_year : NeZero 10000 := ⟨by decide⟩
instance neZero_month : NeZero 13 := ⟨by decide⟩
instance neZero_day : NeZero 32 := ⟨by decide⟩
instance neZero_hour : NeZero 24 := ⟨by decide⟩
instance neZero_minute : NeZero 60 := ⟨by decide⟩
instance neZero_milli : NeZero 1000 := ⟨by decide⟩

def pad2 (n : ℕ) : List Char := [digitChar (n / 10), digitChar (n % 10)]

def pad3 (n : ℕ) : List Char := digitChar (n / 100) :: pad2 (n % 100)

def pad4 (n : ℕ) : List Char := digitChar (n / 1000) :: pad3 (n % 1000)

def isoDate (t : Instant) : List Char :=
  pad4 t.year ++ '-' :: (pad2 t.month ++ '-' :: pad2 t.day)

def isoTime (t : Instant) : List Char :=
  pad2 t.hour ++ ':' :: (pad2 t.minute ++ ':' :: (pad2 t.second ++ '.' :: (pad3 t.milli ++ ['Z'])))

def toISOString (t : Instant) : String := String.ofList (t.isoDate ++ 'T' :: t.isoTime)

/-- `toISOString().split('T')[0]` -/
def date (t : Instant) : String := String.ofList (t.toISOString.toList.takeWhile (· ≠ 'T'))

/-- The calendar date as a number, later dates being greater. -/
def dateKey (t : Instant) : ℕ := 10000 * t.year + 100 * t.month + t.day

end Instant

variable {N : Type}

/-- A JSON value of JavaScript: its objects are objects of the language. -/
abbrev JsonValue (N : Type) := {v : Json N // v.Wf}

structure StandardLogFormat (N : Type) where
  timestamp : Option String
  service : String
  user : String
  action : String
  result : String
  ip : String
  device : Option (JsonValue N)
  geo : Option (JsonValue N)
  metadata : Option (JsonValue N)

structure LogEntry (N : Type) extends StandardLogFormat N where
  hash : String
  hashAlgorithm : String
  previousHash : String
  logSequenceNumber : ℕ

/-- The properties `JSON.stringify` writes: those that are not `undefined`. -/
def present (ps : List (String × Option (Json N))) : Members N :=
  ps.filterMap fun p => p.2.map fun v => (p.1, v)

/-- The nine properties under the hash, in the order they are written. -/
def StandardLogFormat.properties (f : StandardLogFormat N) : List (String × Option (Json N)) :=
  [("timestamp", f.timestamp.map .str), ("service", some (.str f.service)),
    ("user", some (.str f.user)), ("action", some (.str f.action)),
    ("result", some (.str f.result)), ("ip", some (.str f.ip)),
    ("device", f.device.map Subtype.val), ("geo", f.geo.map Subtype.val),
    ("metadata", f.metadata.map Subtype.val)]

section Logger

variable [JsNumber N]

def LogEntry.properties (e : LogEntry N) : List (String × Option (Json N)) :=
  e.toStandardLogFormat.properties ++
    [("hash", some (.str e.hash)), ("hashAlgorithm", some (.str e.hashAlgorithm)),
      ("previousHash", some (.str e.previousHash)),
      ("logSequenceNumber", some (.num (JsNumber.ofNat e.logSequenceNumber)))]

def LogEntry.json (e : LogEntry N) : Json N := .obj (present e.properties)

def hashedText (ps : List (String × Option (Json N))) : String :=
  String.ofList (text (.obj (present ps)))

def computeHash (H : String → String) (previousHash : String)
    (ps : List (String × Option (Json N))) : String := H (previousHash ++ hashedText ps)

def genesisHash : String := "GENESIS"

structure SiemLogger where
  lastHash : String
  sequenceNumber : ℕ
  currentLogFile : Option String
  hashCache : List (ℕ × String)

/-- The files of a directory: names with contents. -/
abbrev LogDir := Table (fun f : String × List Char => f.1)

def readFile (dir : LogDir) (name : String) : List Char := ((dir.get? name).map Prod.snd).getD []

def appendFile (dir : LogDir) (name : String) (cs : List Char) : LogDir :=
  dir.put (name, readFile dir name ++ cs)

def logFileName (now : Instant) : String := "banco-verde-" ++ now.date ++ ".jsonl"

def LogEntry.line (e : LogEntry N) : List Char := text e.json

def writeLog (entry : LogEntry N) (now : Instant) (s : SiemLogger × LogDir) : SiemLogger × LogDir :=
  ({ s.1 with currentLogFile := some (logFileName now) },
    appendFile s.2 (logFileName now) (entry.line ++ ['\n']))

/-- `format.timestamp || new Date().toISOString()` -/
def stamp (timestamp : Option String) (now : Instant) : String :=
  match timestamp with
  | some t => if t = "" then now.toISOString else t
  | none => now.toISOString

/-- The entry a call of `log` returns; `now` is the clock where it stamps the entry. -/
def newEntry (H : String → String) (l : SiemLogger) (format : StandardLogFormat N)
    (now : Instant) : LogEntry N :=
  let stamped := { format with timestamp := some (stamp format.timestamp now) }
  { stamped with
    hash := computeHash H l.lastHash stamped.properties
    hashAlgorithm := "SHA-256"
    previousHash := l.lastHash
    logSequenceNumber := l.sequenceNumber + 1 }

/-- `log`; `now'` is the clock where the line is written. -/
def log (H : String → String) (format : StandardLogFormat N) (now now' : Instant)
    (s : SiemLogger × LogDir) : LogEntry N × (SiemLogger × LogDir) :=
  let entry := newEntry H s.1 format now
  (entry, writeLog entry now'
    ({ s.1 with
        lastHash := entry.hash
        sequenceNumber := entry.logSequenceNumber
        hashCache := s.1.hashCache ++ [(entry.logSequenceNumber, entry.hash)] }, s.2))

/-- UTF-16 code units, by which `sort()` compares strings. -/
def codeUnits (s : String) : List ℕ :=
  s.toList.flatMap fun c =>
    if c.toNat < 0x10000 then [c.toNat]
    else [0xd800 + (c.toNat - 0x10000) / 0x400, 0xdc00 + (c.toNat - 0x10000) % 0x400]

def lexLe : List ℕ → List ℕ → Bool
  | [], _ => true
  | _ :: _, [] => false
  | a :: as, b :: bs => a < b || (a = b && lexLe as bs)

def sortsBefore (s s' : String) : Bool := lexLe (codeUnits s) (codeUnits s')

def endsWith (s suffix : List Char) : Bool := suffix.reverse.isPrefixOf s.reverse

def isJsonl (name : String) : Bool := endsWith name.toList ['.', 'j', 's', 'o', 'n', 'l']

/-- `readdirSync(..).filter((f) => f.endsWith('.jsonl')).sort()` -/
def jsonlFiles (dir : LogDir) : List String :=
  ((dir.rows.map Prod.fst).filter isJsonl).insertionSort fun a b => sortsBefore a b = true

/-- White space and line ends, which `trim` removes. -/
def isTrimmed (c : Char) : Bool :=
  let n := c.toNat
  (9 ≤ n && n ≤ 13) || n = 0x20 || n = 0xa0 || n = 0x1680 || (0x2000 ≤ n && n ≤ 0x200a) ||
    n = 0x2028 || n = 0x2029 || n = 0x202f || n = 0x205f || n = 0x3000 || n = 0xfeff

def trim (cs : List Char) : List Char :=
  ((cs.dropWhile isTrimmed).reverse.dropWhile isTrimmed).reverse

/-- `content.trim().split('\n').filter((l) => l.length > 0)` -/
def fileLines (content : List Char) : List (List Char) :=
  ((trim content).splitOn '\n').filter fun l => !l.isEmpty

/-- The lines of the log, file by file in the order the verifier reads them. -/
def logLines (dir : LogDir) : List (List (List Char)) :=
  (jsonlFiles dir).map fun f => fileLines (readFile dir f)

end Logger

section Reading

variable [JsNumber N] [DecidableEq N]

/-- `lastEntry.hash || this.GENESIS_HASH`, as the text it is used as. -/
def lastHashOf (v : Option (Json N)) : String :=
  if Json.truthy v then (v.bind Json.toText).getD genesisHash else genesisHash

/-- `lastEntry.logSequenceNumber || 0`, for numbers a logger has written. -/
def lastSequenceOf (v : Option (Json N)) : ℕ :=
  match v with
  | some (.num n) => (JsNumber.toNat? n).getD 0
  | _ => 0

/-- Chain head and sequence number that `initializeFromLastLog` takes from the
last line of the last file; a line it cannot read starts the chain afresh. -/
def lastLogged (N : Type) [JsNumber N] [DecidableEq N] (dir : LogDir) : String × ℕ :=
  match (jsonlFiles dir).getLast? with
  | none => (genesisHash, 0)
  | some f => match (fileLines (readFile dir f)).getLast? with
    | none => (genesisHash, 0)
    | some line => match (parseText line : Option (Json N)) with
      | none | some .null => (genesisHash, 0)
      | some entry => (lastHashOf (entry.get? "hash"), lastSequenceOf (entry.get? "logSequenceNumber"))

/-- A new instance after `onModuleInit`. -/
def onModuleInit (N : Type) [JsNumber N] [DecidableEq N] (dir : LogDir) : SiemLogger where
  lastHash := (lastLogged N dir).1
  sequenceNumber := (lastLogged N dir).2
  currentLogFile := none
  hashCache := []

def hashedFields : List String :=
  ["timestamp", "service", "user", "action", "result", "ip", "device", "geo", "metadata"]

/-- The nine hashed properties of an entry that was read. -/
def hashedProperties (entry : Json N) : List (String × Option (Json N)) :=
  hashedFields.map fun k => (k, entry.get? k)

/-- The hash recomputed for an entry that was read; `none` is a TypeError. -/
def recomputedHash (H : String → String) (entry : Json N) : Option String :=
  (Json.concat (entry.get? "previousHash") (hashedText (hashedProperties entry))).map H

inductive Verdict (N : Type) where
  | valid
  | broken (brokenAt : Option (Json N)) (details : String)
  /-- `brokenAt: -1` with the details `Verification error: …` -/
  | error

def Verdict.isValid : Verdict N → Bool
  | .valid => true
  | _ => false

/-- A reply naming a sequence number, with `found` and `stored` in its details. -/
def defect (before between after : String) (seq found stored : Option (Json N)) : Verdict N :=
  match Json.templateText seq, Json.templateText found, Json.templateText stored with
  | some s, some f, some g => .broken seq (before ++ s ++ between ++ f ++ after ++ g)
  | _, _, _ => .error

def chainBroken (seq expected got : Option (Json N)) : Verdict N :=
  defect "Hash chain broken at sequence " ": expected " ", got " seq expected got

def hashMismatch (seq computed stored : Option (Json N)) : Verdict N :=
  defect "Hash mismatch at sequence " ": computed " ", stored " seq computed stored

/-- What the verifier does with one line. -/
inductive LineStep (N : Type) where
  | next (expectedHash : Option (Json N))
  | stop
  | reply (v : Verdict N)

def checkEntry (H : String → String) (start stop : ℕ) (expectedHash : Option (Json N))
    (entry : Json N) : LineStep N :=
  let seq := entry.get? "logSequenceNumber"
  match Json.lessThan seq start with
  | none => .reply .error
  | some true => .next (entry.get? "hash")
  | some false => match Json.greaterThan seq stop with
    | none => .reply .error
    | some true => .stop
    | some false =>
      if Json.strictEq (entry.get? "previousHash") expectedHash then
        match recomputedHash H entry with
        | none => .reply .error
        | some computedHash =>
          if Json.strictEq (some (.str computedHash)) (entry.get? "hash") then
            .next (entry.get? "hash")
          else .reply (hashMismatch seq (some (.str computedHash)) (entry.get? "hash"))
      else .reply (chainBroken seq expectedHash (entry.get? "previousHash"))

def checkLine (H : String → String) (start stop : ℕ) (expectedHash : Option (Json N))
    (line : List Char) : LineStep N :=
  match parseText line with
  | none | some .null => .reply .error
  | some entry => checkEntry H start stop expectedHash entry

/-- The loop over the lines of one file: the hash expected next, or the reply. -/
def verifyLines (H : String → String) (start stop : ℕ) :
    Option (Json N) → List (List Char) → Except (Verdict N) (Option (Json N))
  | expectedHash, [] => .ok expectedHash
  | expectedHash, l :: ls => match checkLine H start stop expectedHash l with
    | .next h => verifyLines H start stop h ls
    | .stop => .ok expectedHash
    | .reply v => .error v

/-- The loop over the files. -/
def verifyFiles (H : String → String) (start stop : ℕ) :
    Option (Json N) → List (List (List Char)) → Verdict N
  | _, [] => .valid
  | expectedHash, f :: fs => match verifyLines H start stop expectedHash f with
    | .ok h => verifyFiles H start stop h fs
    | .error v => v

/-- `startSeq || 1` -/
def orDefault (n : Option ℕ) (d : ℕ) : ℕ := if n.getD 0 = 0 then d else n.getD 0

def verifyChainIntegrity (N : Type) [JsNumber N] [DecidableEq N] (H : String → String)
    (l : SiemLogger) (dir : LogDir) (startSeq endSeq : Option ℕ) : Verdict N :=
  verifyFiles H (orDefault startSeq 1) (orDefault endSeq l.sequenceNumber)
    (some (.str genesisHash)) (logLines dir)

end Reading

end VerdeAuth.SiemLoggerService
