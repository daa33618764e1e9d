import Erc8415.Persistence.CrashRecovery

/-! # Files of journal lines

A file of headers and records in any order, whose strings are any text, and
behind them some bytes without a newline. Reading it gives every record and the
last identity. Opening it for an append cuts the bytes behind the lines away
exactly, as long as the lines are ASCII.
-/

namespace Erc8415

/-- A record of one of the declared kinds. -/
abbrev DeclaredRecord := { record : JournalRecord // ∀ kind, record ≠ .unknown kind }

/-- A complete line. -/
inductive JournalEntry where
  | header (identity : JournalIdentity)
  | record (record : DeclaredRecord)

namespace JournalEntry

def toJson : JournalEntry → Json
  | header identity => journalHeader identity
  | record r => r.val.toJson

/-- The text of a line, without its newline. -/
def text (entry : JournalEntry) : List Char := Json.stringify entry.toJson

def identity? : JournalEntry → Option JournalIdentity
  | header identity => some identity
  | record _ => none

def record? : JournalEntry → Option JournalRecord
  | header _ => none
  | record r => some r.val

/-- The records of some lines, in order. -/
def records (entries : List JournalEntry) : List JournalRecord := entries.filterMap record?

/-- The identities of their headers, in order. -/
def identities (entries : List JournalEntry) : List JournalIdentity :=
  entries.filterMap identity?

/-- The text of complete lines. -/
def lines (entries : List JournalEntry) : List Char := LineLog.render '\n' (entries.map text)

/-- And its bytes. -/
def bytes (entries : List JournalEntry) : List UInt8 := Text.encode (lines entries)

theorem newline_not_mem_text (entry : JournalEntry) : '\n' ∉ entry.text :=
  Json.newline_not_mem_stringify _

theorem lines_concat (entries : List JournalEntry) (entry : JournalEntry) :
    lines (entries ++ [entry]) = lines entries ++ journalLine entry.toJson := by
  rw [lines, List.map_append]
  exact LineLog.render_concat _ _

theorem bytes_concat (entries : List JournalEntry) (entry : JournalEntry) :
    bytes (entries ++ [entry]) = bytes entries ++ Text.encode (journalLine entry.toJson) := by
  rw [bytes, lines_concat, Text.encode_append, bytes]

/-- The bytes are lines again. -/
theorem bytes_eq_render (entries : List JournalEntry) :
    bytes entries =
      LineLog.render Text.newline (entries.map fun entry => Text.encode entry.text) := by
  induction entries with
  | nil => rfl
  | cons entry rest ih =>
      change Text.encode (entry.text ++ ['\n'] ++ lines rest) = _
      rw [Text.encode_append, ← bytes, ih, Text.encode_append]
      rfl

theorem records_concat (entries : List JournalEntry) (record : DeclaredRecord) :
    records (entries ++ [.record record]) = records entries ++ [record.val] :=
  List.filterMap_append

/-! ## Reading -/

/-- What reading a line adds. -/
def readInto (read : JournalRead) : JournalEntry → JournalRead
  | header identity => { read with identity := some identity.toJson }
  | record r => { read with records := read.records ++ [r.val.toJson] }

theorem readLine_text (read : JournalRead) (entry : JournalEntry) :
    read.readLine entry.text = .ok (entry.readInto read) := by
  cases entry with
  | header identity => exact readLine_header read identity
  | record r => exact readLine_record read r.property

/-- Records gather; the identity is the last one. -/
theorem readLines (entries : List JournalEntry) (read : JournalRead) :
    (entries.map text).foldlM JournalRead.readLine read =
      .ok ⟨read.records ++ (records entries).map JournalRecord.toJson,
        ((identities entries).getLast?.map JournalIdentity.toJson).or read.identity,
        read.truncatedTail⟩ := by
  induction entries generalizing read with
  | nil =>
      change Except.ok read = _
      simp [records, identities]
  | cons entry rest ih =>
      rw [List.map_cons, List.foldlM_cons, readLine_text]
      change (rest.map text).foldlM JournalRead.readLine (entry.readInto read) = _
      rw [ih]
      cases entry with
      | header identity =>
          simp only [readInto, records, identities, List.filterMap_cons, record?, identity?,
            List.getLast?_cons]
          cases (List.filterMap identity? rest).getLast? <;> rfl
      | record r =>
          simp [readInto, records, identities, record?, identity?]

end JournalEntry

namespace FileJournal

open JournalEntry

variable {entries : List JournalEntry} {torn : List UInt8} {opened : Bool}

/-- The text of a file: its lines, and whatever the bytes behind them read as. -/
theorem raw_lines : raw ⟨opened, some (bytes entries ++ torn)⟩ =
    lines entries ++ Text.decode torn :=
  Text.decode_encode_append _ _

theorem torn_lines (h : Text.newline ∉ torn) :
    LineLog.Torn '\n' (entries.map text) (raw ⟨opened, some (bytes entries ++ torn)⟩) :=
  ⟨Text.decode torn, Text.newline_not_mem_decode h, raw_lines⟩

theorem read_lines (h : Text.newline ∉ torn) :
    read ⟨opened, some (bytes entries ++ torn)⟩ =
      .ok ⟨(records entries).map JournalRecord.toJson,
        (identities entries).getLast?.map JournalIdentity.toJson, !torn.isEmpty⟩ := by
  have hlines : ∀ l ∈ entries.map text, '\n' ∉ l := by
    intro l hl
    obtain ⟨entry, _, rfl⟩ := List.mem_map.mp hl
    exact entry.newline_not_mem_text
  have hempty : (Text.decode torn).isEmpty = torn.isEmpty := by
    cases torn with
    | nil => rfl
    | cons b rest => simp [Text.decode_ne_nil (List.cons_ne_nil b rest)]
  unfold read
  split
  next hnil =>
    rw [raw_lines, List.append_eq_nil_iff] at hnil
    have hentries : entries = [] := by
      cases entries with
      | nil => rfl
      | cons entry rest => simp [lines, LineLog.render] at hnil
    rw [← hempty, hnil.2, hentries]
    rfl
  next =>
    have hsplit := LineLog.splitOn_render hlines (Text.newline_not_mem_decode h)
    simp only [raw_lines, lines, hsplit, List.dropLast_concat, List.getLast?_concat,
      Option.getD_some, hempty]
    rw [readLines]
    simp [JournalRead.empty]

/-! ## Opening for an append -/

/-- The cut, counted in code units of the lines. -/
theorem openForAppend_lines (h : Text.newline ∉ torn) :
    openForAppend ⟨false, some (bytes entries ++ torn)⟩ =
      ⟨true, some (if torn = [] then bytes entries
        else (bytes entries ++ torn).take (Text.length16 (lines entries)))⟩ := by
  have hcomplete : completeLength (raw ⟨false, some (bytes entries ++ torn)⟩) =
      Text.length16 (lines entries) := by
    rw [completeLength, (torn_lines h).complete]
    rfl
  have hlength : Text.length16 (raw ⟨false, some (bytes entries ++ torn)⟩) =
      Text.length16 (lines entries) + Text.length16 (Text.decode torn) := by
    rw [raw_lines, Text.length16_append]
  unfold openForAppend
  simp only [Bool.false_eq_true, if_false, hcomplete, hlength]
  by_cases htorn : torn = []
  · have hnone : Text.length16 (Text.decode torn) = 0 := by
      rw [htorn]
      rfl
    rw [if_neg (by omega), if_pos htorn, htorn, List.append_nil]
  · have hpos := Text.length16_pos (Text.decode_ne_nil htorn)
    rw [if_pos (by omega), if_neg htorn]

/-- Over ASCII lines the cut leaves exactly the lines. -/
theorem openForAppend_ascii (h : Text.newline ∉ torn) (hascii : Text.IsAscii (lines entries)) :
    openForAppend ⟨false, some (bytes entries ++ torn)⟩ = ⟨true, some (bytes entries)⟩ := by
  rw [openForAppend_lines h]
  split
  next => rfl
  next =>
    have hlength : Text.length16 (lines entries) = (bytes entries).length := by
      rw [hascii.length16_eq, bytes, hascii.length_encode]
    rw [hlength, List.take_left]

end FileJournal

end Erc8415
