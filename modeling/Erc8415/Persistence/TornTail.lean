import Erc8415.Persistence.JournalLines

/-! # Cutting a torn tail

A process that died left a part of a line behind the complete ones. The next
journal object on the file cuts it away before its first append, at a position
counted in code units of the text. That is where the lines end exactly when they
are ASCII.
-/

namespace Erc8415

open JournalEntry

/-- What an append on a new object over these lines and this torn tail should leave: the
lines, unchanged, then the new one, so that every record is read. -/
structure CutsExactly (entries : List JournalEntry) (torn : List UInt8) (record : DeclaredRecord) :
    Prop where
  file : ((FileJournal.new (some (bytes entries ++ torn))).append record.val).file =
    some (bytes entries ++ Text.encode (journalLine record.val.toJson))
  reads : ∃ read,
    ((FileJournal.new (some (bytes entries ++ torn))).append record.val).read = .ok read ∧
      read.records = (records entries ++ [record.val]).map JournalRecord.toJson

/-- A part of a line has no newline. -/
theorem newline_not_mem_take {entry : JournalEntry} {n : Nat}
    (h : n < (Text.encode (journalLine entry.toJson)).length) :
    Text.newline ∉ (Text.encode (journalLine entry.toJson)).take n := by
  have hline : Text.encode (journalLine entry.toJson) = Text.encode entry.text ++ [Text.newline] :=
    Text.encode_append _ _
  rw [hline, List.length_append, List.length_singleton] at h
  rw [hline, List.take_append_of_le_length (Nat.le_of_lt_succ h)]
  exact fun hmem =>
    Text.newline_not_mem_encode entry.newline_not_mem_text (List.mem_of_mem_take hmem)

variable {entries : List JournalEntry} {torn : List UInt8} {record : DeclaredRecord}

/-- A cut at the end of the lines leaves them. -/
theorem CutsExactly.of_openForAppend
    (h : (FileJournal.new (some (bytes entries ++ torn))).openForAppend =
      ⟨true, some (bytes entries)⟩) : CutsExactly entries torn record := by
  have happend : (FileJournal.new (some (bytes entries ++ torn))).append record.val =
      ⟨true, some (bytes (entries ++ [.record record]))⟩ := by
    rw [bytes_concat, FileJournal.append, FileJournal.write, h]
    rfl
  refine ⟨?_, ?_⟩
  · rw [happend, bytes_concat]
    rfl
  · have hread : FileJournal.read ⟨true, some (bytes (entries ++ [.record record]) ++ [])⟩ = _ :=
      FileJournal.read_lines List.not_mem_nil
    rw [List.append_nil] at hread
    rw [happend, hread]
    exact ⟨_, rfl, by rw [records_concat]⟩

/-- Over other lines the cut falls inside them. -/
theorem not_cutsExactly (htorn : Text.newline ∉ torn) (hne : torn ≠ [])
    (hascii : ¬ Text.IsAscii (lines entries)) : ¬ CutsExactly entries torn record := by
  intro h
  have hcut : (FileJournal.new (some (bytes entries ++ torn))).openForAppend = _ :=
    FileJournal.openForAppend_lines htorn
  rw [if_neg hne] at hcut
  have hfile := h.file
  simp only [FileJournal.append, FileJournal.write, hcut, Option.getD_some,
    Option.some.injEq] at hfile
  have hlength := congrArg List.length (List.append_cancel_right hfile)
  have hshort : Text.length16 (lines entries) < (bytes entries).length :=
    Text.length16_lt_of_not_isAscii hascii
  rw [List.length_take] at hlength
  omega

/-- The first append after a crash cuts exactly the torn tail if there is none, or if every
complete line is ASCII, and in no other case. -/
theorem append_cuts_exactly_iff (entries : List JournalEntry) (next : JournalEntry) (n : Nat)
    (hn : n < (Text.encode (journalLine next.toJson)).length) (record : DeclaredRecord) :
    CutsExactly entries ((Text.encode (journalLine next.toJson)).take n) record ↔
      n = 0 ∨ Text.IsAscii (lines entries) := by
  have htorn := newline_not_mem_take hn
  have hnil : (Text.encode (journalLine next.toJson)).take n = [] ↔ n = 0 := by
    rw [List.take_eq_nil_iff]
    refine ⟨fun h => h.resolve_right fun heq => ?_, Or.inl⟩
    rw [heq] at hn
    exact absurd hn (Nat.not_lt_zero n)
  constructor
  · intro h
    by_contra hnot
    rw [not_or] at hnot
    exact not_cutsExactly htorn (fun heq => hnot.1 (hnil.mp heq)) hnot.2 h
  · rintro (rfl | hascii)
    · apply CutsExactly.of_openForAppend
      exact FileJournal.openForAppend_lines List.not_mem_nil
    · exact CutsExactly.of_openForAppend (FileJournal.openForAppend_ascii htorn hascii)

/-! ### An accented register -/

section AccentedRegister

/-- The header of a register whose name is not ASCII. -/
def accentedHeader : JournalEntry := .header ⟨"é", "0x08", none, none⟩

def cancelledRecord : DeclaredRecord := ⟨.gapCancelled "1" "0x55", fun _ => by simp⟩

/-- One byte of the next line was written. The cut takes the newline of the header along. -/
theorem accented_header_cut_short :
    ¬ CutsExactly [accentedHeader]
      ((Text.encode (journalLine (JournalEntry.record cancelledRecord).toJson)).take 1)
      cancelledRecord := by
  intro h
  have hfile := h.file
  revert hfile
  decide +kernel

theorem append_cuts_exactly_iff_plain :
    CutsExactly [.header shortIdentity]
      ((Text.encode (journalLine (JournalEntry.record cancelledRecord).toJson)).take 1)
      cancelledRecord :=
  (append_cuts_exactly_iff [.header shortIdentity] (.record cancelledRecord) 1 (by decide)
    cancelledRecord).mpr (Or.inr (by decide))

end AccentedRegister

end Erc8415
