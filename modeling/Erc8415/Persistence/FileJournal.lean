import Erc8415.Foundation.Json
import Erc8415.Foundation.LineLog
import Erc8415.Persistence.JournalRecord

/-! # The journal on disk

`FileJournal` over the bytes of one file: a header line and one line of JSON a
record. Reading decodes the file and parses its complete lines. The first write
of an object cuts a torn tail away, by a length counted in code units.
-/

namespace Erc8415

/-! ## Lines -/

/-- An object of text fields. -/
def textObject (fields : List (String × String)) : Json :=
  .object (fields.map fun (name, value) => (name, .string value))

def EntryJson.toJson (entry : EntryJson) : Json :=
  textObject [
    ("version", entry.version),
    ("holder", entry.holder),
    ("effectiveAt", entry.effectiveAt),
    ("supersededAt", entry.supersededAt),
    ("recordCommitment", entry.recordCommitment),
    ("previousCommitment", entry.previousCommitment),
    ("registryReference", entry.registryReference)]

def SettlementJson.toJson (settlement : SettlementJson) : Json :=
  textObject [
    ("settlementId", settlement.settlementId),
    ("tokenId", settlement.tokenId),
    ("initiator", settlement.initiator),
    ("expectedHolder", settlement.expectedHolder),
    ("snapshotHash", settlement.snapshotHash),
    ("openedAt", settlement.openedAt),
    ("deadline", settlement.deadline),
    ("status", settlement.status)]

/-- `settlementId: openId ?? null`. -/
def orNull : Option String → Json
  | some text => .string text
  | none => .null

/-- The object a record is written as. -/
def JournalRecord.toJson : JournalRecord → Json
  | .admitted tokenId entry remoteHeight settlementId =>
      .object [("kind", .string "admitted"), ("tokenId", .string tokenId),
        ("entry", entry.toJson), ("remoteHeight", .string remoteHeight),
        ("settlementId", orNull settlementId)]
  | .gapOpened tokenId settlement =>
      .object [("kind", .string "gap-opened"), ("tokenId", .string tokenId),
        ("settlement", settlement.toJson)]
  | .gapCancelled tokenId settlementId =>
      .object [("kind", .string "gap-cancelled"), ("tokenId", .string tokenId),
        ("settlementId", .string settlementId)]
  | .unknown kind => .object [("kind", .string kind)]

/-- A field that `JSON.stringify` leaves out when it is `undefined`. -/
def optionalField (name : String) : Option String → List (String × Json)
  | some text => [(name, .string text)]
  | none => []

def JournalIdentity.toJson (identity : JournalIdentity) : Json :=
  .object ([("registerId", .string identity.registerId),
      ("verificationProfile", .string identity.verificationProfile)] ++
    optionalField "chainId" identity.chainId ++ optionalField "contract" identity.contract)

/-- `{ kind: 'header', identity }`. -/
def journalHeader (identity : JournalIdentity) : Json :=
  .object [("kind", .string "header"), ("identity", identity.toJson)]

/-- `${JSON.stringify(record)}\\n`. -/
def journalLine (record : Json) : List Char := Json.stringify record ++ ['\n']

/-! ## Reading -/

/-- What a journal file holds. A record is whatever a line parsed to: the source
casts it. -/
structure JournalRead where
  records : List Json
  identity : Option Json
  truncatedTail : Bool

namespace JournalRead

def empty : JournalRead := ⟨[], none, false⟩

/-- `parsed.kind === 'header'`. -/
def isHeader (parsed : Json) : Bool :=
  match parsed.get "kind" with
  | some (.string kind) => kind == "header"
  | _ => false

/-- One complete line. The text of a syntax error is the engine's own. -/
def readLine (read : JournalRead) (line : List Char) : Except Thrown JournalRead :=
  if line = [] then .ok read
  else
    match Json.parse line with
    | none => .error (.error "SyntaxError")
    | some .null => .error (.error "Cannot read properties of null (reading 'kind')")
    | some parsed =>
        if isHeader parsed then .ok { read with identity := parsed.get "identity" }
        else .ok { read with records := read.records ++ [parsed] }

end JournalRead

/-! ### What a record is cast to -/

/-- A property that is text. -/
def textField (value : Json) (name : String) : Option String :=
  match value.get name with
  | some (.string text) => some text
  | _ => none

/-- A property that is text or `null`. -/
def nullableField (value : Json) (name : String) : Option (Option String) :=
  match value.get name with
  | some (.string text) => some (some text)
  | some .null => some none
  | _ => none

def entryOf (value : Json) : Option EntryJson := do
  return {
    version := ← textField value "version"
    holder := ← textField value "holder"
    effectiveAt := ← textField value "effectiveAt"
    supersededAt := ← textField value "supersededAt"
    recordCommitment := ← textField value "recordCommitment"
    previousCommitment := ← textField value "previousCommitment"
    registryReference := ← textField value "registryReference" }

def settlementOf (value : Json) : Option SettlementJson := do
  return {
    settlementId := ← textField value "settlementId"
    tokenId := ← textField value "tokenId"
    initiator := ← textField value "initiator"
    expectedHolder := ← textField value "expectedHolder"
    snapshotHash := ← textField value "snapshotHash"
    openedAt := ← textField value "openedAt"
    deadline := ← textField value "deadline"
    status := ← textField value "status" }

/-- The record a parsed line is used as, where its fields have the declared types. -/
def recordOf (value : Json) : Option JournalRecord := do
  let kind ← textField value "kind"
  if kind = "admitted" then
    return .admitted (← textField value "tokenId") (← entryOf (← value.get "entry"))
      (← textField value "remoteHeight") (← nullableField value "settlementId")
  else if kind = "gap-opened" then
    return .gapOpened (← textField value "tokenId") (← settlementOf (← value.get "settlement"))
  else if kind = "gap-cancelled" then
    return .gapCancelled (← textField value "tokenId") (← textField value "settlementId")
  else return .unknown kind

def identityOf (value : Json) : Option JournalIdentity := do
  return {
    registerId := ← textField value "registerId"
    verificationProfile := ← textField value "verificationProfile"
    chainId := textField value "chainId"
    contract := textField value "contract" }

/-- What a journal holds, as the store uses it. -/
def JournalRead.content (read : JournalRead) : Option JournalContent := do
  let identity ← match read.identity with
    | none => some none
    | some stored => (identityOf stored).map some
  return ⟨identity, ← read.records.mapM recordOf⟩

theorem recordOf_toJson {record : JournalRecord} (h : ∀ kind, record ≠ .unknown kind) :
    recordOf record.toJson = some record := by
  cases record with
  | admitted tokenId entry remoteHeight settlementId =>
      cases settlementId <;> rfl
  | gapOpened => rfl
  | gapCancelled => rfl
  | unknown kind => exact absurd rfl (h kind)

theorem mapM_recordOf {records : List JournalRecord}
    (h : ∀ r ∈ records, ∀ kind, r ≠ .unknown kind) :
    (records.map JournalRecord.toJson).mapM recordOf = some records := by
  induction records with
  | nil => rfl
  | cons record rest ih =>
      have hrest := ih fun r hr => h r (List.mem_cons_of_mem _ hr)
      rw [List.map_cons, List.mapM_cons, recordOf_toJson (h record List.mem_cons_self), hrest]
      rfl

theorem identityOf_toJson (identity : JournalIdentity) :
    identityOf identity.toJson = some identity := by
  obtain ⟨registerId, verificationProfile, chainId, contract⟩ := identity
  cases chainId <;> cases contract <;> rfl

/-- A journal object: whether its descriptor is open, and the file its path names. -/
structure FileJournal where
  opened : Bool
  file : Option (List UInt8)
  deriving DecidableEq

namespace FileJournal

/-- `new FileJournal(path)`. -/
def new (file : Option (List UInt8)) : FileJournal := ⟨false, file⟩

/-- `readFileSync(path, 'utf8')` of a file that may not exist. -/
def raw (j : FileJournal) : List Char :=
  match j.file with
  | some bytes => Text.decode bytes
  | none => []

def read (j : FileJournal) : Except Thrown JournalRead :=
  if j.raw = [] then .ok JournalRead.empty
  else
    let pieces := j.raw.splitOn '\n'
    let tail := pieces.getLast?.getD []
    pieces.dropLast.foldlM JournalRead.readLine
      { JournalRead.empty with truncatedTail := !tail.isEmpty }

/-! ## Writing -/

/-- `raw.lastIndexOf('\\n') + 1`. -/
def completeLength (raw : List Char) : Nat := Text.length16 (LineLog.complete '\n' raw)

/-- `#open`: on first use a torn tail is cut away and the file comes to exist. -/
def openForAppend (j : FileJournal) : FileJournal :=
  if j.opened then j
  else
    match j.file with
    | none => ⟨true, some []⟩
    | some bytes =>
        if Text.length16 j.raw > completeLength j.raw then
          ⟨true, some (bytes.take (completeLength j.raw))⟩
        else ⟨true, some bytes⟩

/-- `#write`, to the end. -/
def write (j : FileJournal) (record : Json) : FileJournal :=
  let j := j.openForAppend
  { j with file := some (j.file.getD [] ++ Text.encode (journalLine record)) }

def append (j : FileJournal) (record : JournalRecord) : FileJournal := j.write record.toJson

/-- A field of a stored identity, where it is text or absent. -/
def storedText : Option Json → Option String
  | some (.string text) => some text
  | _ => none

/-- `stored[field] !== identity[field]`. -/
def differs (stored : Option Json) (supplied : Option String) : Bool :=
  match stored, supplied with
  | some (.string text), some text' => text != text'
  | none, none => false
  | _, _ => true

/-- The fields `bind` compares, in its order. -/
def identityFields (identity : JournalIdentity) : List (String × Option String) :=
  [("registerId", some identity.registerId),
    ("verificationProfile", some identity.verificationProfile),
    ("chainId", identity.chainId),
    ("contract", identity.contract)]

/-- The first field on which a stored identity differs. -/
def identityMismatch (stored : Json) (identity : JournalIdentity) :
    Option (String × Option String) :=
  (identityFields identity).find? fun (field, supplied) => differs (stored.get field) supplied

def bind (j : FileJournal) (identity : JournalIdentity) : Except Thrown FileJournal := do
  let read ← j.read
  match read.identity with
  | some .null =>
      .error (.error "Cannot read properties of null (reading 'registerId')")
  | some stored =>
      match identityMismatch stored identity with
      | some (field, supplied) =>
          .error (.error
            (JournalContent.mismatchMessage field (storedText (stored.get field)) supplied))
      | none => .ok j
  | none =>
      if read.records.isEmpty then .ok (j.write (journalHeader identity))
      else
        .error (.error
          (JournalContent.mismatchMessage "header" none (some identity.registerId)))

end FileJournal

end Erc8415
