import Erc8415.Persistence.TornTail

/-! # Appends that throw

One journal object in use: appends that return or throw after any part of their
line has reached the file, stores built or restored on it, reads and closes. The
torn tail of an append that threw is cut away only when the object opens its
descriptor. As long as no line is completed behind a tail on an open descriptor,
and no tail is cut away behind lines that are not ASCII, no acknowledged record
is lost.
-/

namespace Erc8415

open JournalEntry (bytes lines records)

namespace FileJournal

/-- `#write`, which returns, or throws with some bytes of the line on the file. -/
def attempt (j : FileJournal) (record : Json) : Option Nat → FileJournal
  | none => j.write record
  | some written => ⟨true, j.writeCrashed record (.writing written)⟩

/-- `new ProjectionStore` over the journal, or `restoreProjectionStore`, which reads it once
more before: the journal is bound, and gets a header when it carries nothing. -/
def construct (j : FileJournal) (identity : JournalIdentity) (written : Option Nat) :
    FileJournal :=
  match j.bind identity, j.read with
  | .ok _, .ok read =>
      if read.identity.isNone then j.attempt (journalHeader identity) written else j
  | _, _ => j

/-- Where a write does no harm: no tail is on the file, or the tail is cut away behind ASCII
lines, or the line is not completed either. -/
def Spares (j : FileJournal) (record : Json) (written : Option Nat) : Prop :=
  LineLog.tail Text.newline (j.file.getD []) = [] ∨
    (j.opened = false ∧
      ∀ b ∈ LineLog.complete Text.newline (j.file.getD []), b.toNat < 0x80) ∨
    (j.opened = true ∧
      ∃ n, written = some n ∧ n < (Text.encode (journalLine record)).length)

end FileJournal

/-- A call on a journal object. -/
inductive JournalCall where
  | append (record : DeclaredRecord) (written : Option Nat)
  | construct (identity : JournalIdentity) (written : Option Nat)
  | read
  | close

/-- A journal object, and every record it has taken so far, or found on its file. -/
structure JournalUse where
  journal : FileJournal
  acknowledged : List JournalRecord

namespace JournalUse

def step (s : JournalUse) : JournalCall → JournalUse
  | .append record written =>
      ⟨s.journal.attempt record.val.toJson written,
        if written.isNone then s.acknowledged ++ [record.val] else s.acknowledged⟩
  | .construct identity written => { s with journal := s.journal.construct identity written }
  | .read => s
  | .close => { s with journal := { s.journal with opened := false } }

/-- A call whose write, if it makes one, does no harm. -/
def Sparing (s : JournalUse) : JournalCall → Prop
  | .append record written => s.journal.Spares record.val.toJson written
  | .construct identity written =>
      (∃ read, s.journal.read = .ok read ∧ read.identity = none ∧ read.records = []) →
        s.journal.Spares (journalHeader identity) written
  | .read => True
  | .close => True

/-- The journal can be read, and every acknowledged record is in it, in order. -/
def LosesNothing (s : JournalUse) : Prop :=
  ∃ read, s.journal.read = .ok read ∧
    (s.acknowledged.map JournalRecord.toJson).Sublist read.records

/-- The file is complete lines and a tail, and the lines hold what was acknowledged. -/
def Kept (s : JournalUse) : Prop :=
  ∃ entries torn, Text.newline ∉ torn ∧ s.journal.file.getD [] = bytes entries ++ torn ∧
    s.acknowledged.Sublist (records entries)

end JournalUse

/-! ## A missing file is an empty one -/

namespace FileJournal

variable {j : FileJournal}

theorem read_getD : j.read = read ⟨j.opened, some (j.file.getD [])⟩ := by
  have hraw : raw ⟨j.opened, some (j.file.getD [])⟩ = j.raw := by
    unfold raw
    cases j.file <;> rfl
  unfold read
  rw [hraw]

theorem openForAppend_getD : j.openForAppend.file.getD [] =
    (openForAppend ⟨j.opened, some (j.file.getD [])⟩).file.getD [] := by
  obtain ⟨opened, file⟩ := j
  cases opened <;> cases file <;> rfl

variable {entries : List JournalEntry} {torn : List UInt8}

/-- Behind ASCII lines, or where no tail is, the descriptor opens at the end of the lines. -/
theorem openForAppend_spared (htorn : Text.newline ∉ torn)
    (hfile : j.file.getD [] = bytes entries ++ torn)
    (h : torn = [] ∨ j.opened = false ∧ ∀ b ∈ bytes entries, b.toNat < 0x80) :
    j.openForAppend.file.getD [] = bytes entries := by
  rw [openForAppend_getD, hfile]
  cases hopened : j.opened with
  | true =>
      rcases h with rfl | ⟨hclosed, _⟩
      · exact List.append_nil _
      · rw [hopened] at hclosed
        cases hclosed
  | false =>
      rcases h with rfl | ⟨_, hascii⟩
      · rw [openForAppend_lines List.not_mem_nil]
        rfl
      · rw [openForAppend_ascii htorn (Text.isAscii_of_encode hascii)]
        rfl

/-- A write behind the complete lines. -/
theorem attempt_behind (hopen : j.openForAppend.file.getD [] = bytes entries)
    (entry : JournalEntry) (written : Option Nat) :
    ∃ torn, Text.newline ∉ torn ∧
      ((j.attempt entry.toJson written).file.getD [] = bytes (entries ++ [entry]) ++ torn ∨
        written ≠ none ∧
          (j.attempt entry.toJson written).file.getD [] = bytes entries ++ torn) := by
  have hwhole : bytes entries ++ Text.encode (journalLine entry.toJson) =
      bytes (entries ++ [entry]) ++ [] := by
    rw [JournalEntry.bytes_concat, List.append_nil]
  cases written with
  | none =>
      refine ⟨[], List.not_mem_nil, Or.inl ?_⟩
      rw [← hwhole, ← hopen]
      rfl
  | some n =>
      have hfile : (j.attempt entry.toJson (some n)).file.getD [] =
          bytes entries ++ (Text.encode (journalLine entry.toJson)).take n := by
        rw [← hopen]
        rfl
      by_cases hn : n < (Text.encode (journalLine entry.toJson)).length
      · exact ⟨_, newline_not_mem_take hn, Or.inr ⟨Option.some_ne_none n, hfile⟩⟩
      · refine ⟨[], List.not_mem_nil, Or.inl ?_⟩
        rw [hfile, List.take_of_length_le (Nat.le_of_not_lt hn), hwhole]

/-- A write that does no harm leaves complete lines and a tail: the lines there were, and the
new one unless the write threw. -/
theorem attempt_lines (htorn : Text.newline ∉ torn)
    (hfile : j.file.getD [] = bytes entries ++ torn) (entry : JournalEntry)
    {written : Option Nat} (h : j.Spares entry.toJson written) :
    ∃ torn', Text.newline ∉ torn' ∧
      ((j.attempt entry.toJson written).file.getD [] = bytes (entries ++ [entry]) ++ torn' ∨
        written ≠ none ∧
          (j.attempt entry.toJson written).file.getD [] = bytes entries ++ torn') := by
  have htail : LineLog.tail Text.newline (j.file.getD []) = torn := by
    rw [hfile, JournalEntry.bytes_eq_render, LineLog.tail_append htorn]
  have hcomplete : LineLog.complete Text.newline (j.file.getD []) = bytes entries := by
    rw [hfile, JournalEntry.bytes_eq_render]
    exact LineLog.Torn.complete ⟨torn, htorn, rfl⟩
  rw [Spares, htail, hcomplete] at h
  rcases h with hnone | hascii | ⟨hopened, n, rfl, hn⟩
  · exact attempt_behind (openForAppend_spared htorn hfile (Or.inl hnone)) entry written
  · exact attempt_behind (openForAppend_spared htorn hfile (Or.inr hascii)) entry written
  · -- On an open descriptor the tail only grows.
    refine ⟨torn ++ (Text.encode (journalLine entry.toJson)).take n, ?_,
      Or.inr ⟨Option.some_ne_none n, ?_⟩⟩
    · rw [List.mem_append, not_or]
      exact ⟨htorn, newline_not_mem_take hn⟩
    · have hsame : j.openForAppend = j := if_pos hopened
      change j.openForAppend.file.getD [] ++ _ = _
      rw [hsame, hfile, List.append_assoc]

/-- A journal without a header is bound by writing one, as long as it holds no record. -/
theorem bind_of_identity_none {identity : JournalIdentity} {bound : FileJournal}
    {read : JournalRead} (hread : j.read = .ok read) (hnone : read.identity = none)
    (hbind : j.bind identity = .ok bound) :
    read.records = [] ∧ bound = j.write (journalHeader identity) := by
  unfold bind at hbind
  rw [hread] at hbind
  simp only [Bind.bind, Except.bind, hnone] at hbind
  split at hbind
  next hempty => exact ⟨List.isEmpty_iff.mp hempty, (Except.ok.inj hbind).symm⟩
  next => cases hbind

/-- Building a store writes its header to a journal of nothing, or changes nothing. -/
theorem construct_eq (j : FileJournal) (identity : JournalIdentity) (written : Option Nat) :
    j.construct identity written = j ∨
      (∃ read, j.read = .ok read ∧ read.identity = none ∧ read.records = []) ∧
        j.construct identity written = j.attempt (journalHeader identity) written := by
  unfold construct
  split
  next bound read hbind hread =>
    split
    next hnone =>
      have hidentity := Option.isNone_iff_eq_none.mp hnone
      exact Or.inr ⟨⟨read, hread, hidentity, (bind_of_identity_none hread hidentity hbind).1⟩, rfl⟩
    next => exact Or.inl rfl
  next => exact Or.inl rfl

end FileJournal

/-! ## Runs -/

namespace JournalUse

variable {s : JournalUse}

theorem Kept.losesNothing (h : s.Kept) : s.LosesNothing := by
  obtain ⟨entries, torn, htorn, hfile, hacknowledged⟩ := h
  have hread := s.journal.read_getD
  rw [hfile, FileJournal.read_lines htorn] at hread
  exact ⟨_, hread, hacknowledged.map JournalRecord.toJson⟩

theorem Kept.step (h : s.Kept) {call : JournalCall} (hcall : s.Sparing call) :
    (s.step call).Kept := by
  obtain ⟨entries, torn, htorn, hfile, hacknowledged⟩ := h
  cases call with
  | append record written =>
      obtain ⟨torn', htorn', hlines | ⟨hthrew, hlines⟩⟩ :=
        FileJournal.attempt_lines htorn hfile (.record record) hcall
      · refine ⟨_, torn', htorn', hlines, ?_⟩
        rw [JournalEntry.records_concat]
        simp only [JournalUse.step]
        split
        next => exact hacknowledged.append (List.Sublist.refl _)
        next => exact hacknowledged.trans (List.sublist_append_left _ _)
      · refine ⟨entries, torn', htorn', hlines, ?_⟩
        simp only [JournalUse.step]
        split
        next hnone => exact absurd (Option.isNone_iff_eq_none.mp hnone) hthrew
        next => exact hacknowledged
  | construct identity written =>
      rcases FileJournal.construct_eq s.journal identity written with hsame | ⟨hempty, heq⟩
      · refine ⟨entries, torn, htorn, ?_, hacknowledged⟩
        simp only [JournalUse.step, hsame]
        exact hfile
      · obtain ⟨torn', htorn', hlines⟩ :=
          FileJournal.attempt_lines htorn hfile (.header identity) (hcall hempty)
        rcases hlines with hlines | ⟨_, hlines⟩
        · have hrecords : (records entries).Sublist (records (entries ++ [.header identity])) := by
            rw [records, records, List.filterMap_append]
            exact List.sublist_append_left _ _
          refine ⟨entries ++ [.header identity], torn', htorn', ?_, hacknowledged.trans hrecords⟩
          simp only [JournalUse.step, heq]
          exact hlines
        · refine ⟨entries, torn', htorn', ?_, hacknowledged⟩
          simp only [JournalUse.step, heq]
          exact hlines
  | read => exact ⟨entries, torn, htorn, hfile, hacknowledged⟩
  | close => exact ⟨entries, torn, htorn, hfile, hacknowledged⟩

end JournalUse

/-- A new object on a file, whose records are acknowledged. -/
def JournalUse.start (entries : List JournalEntry) (file : Option (List UInt8)) : JournalUse :=
  ⟨FileJournal.new file, records entries⟩

/-- In a run whose writes do no harm the journal can always be read, and holds every record
it has acknowledged. -/
theorem run_loses_nothing (entries : List JournalEntry) (torn : List UInt8)
    (htorn : Text.newline ∉ torn) (file : Option (List UInt8))
    (hfile : file.getD [] = bytes entries ++ torn) (calls : List JournalCall)
    (hcalls : LabelledRun.Admissible JournalUse.step JournalUse.Sparing
      (JournalUse.start entries file) calls) :
    (LabelledRun.run JournalUse.step (JournalUse.start entries file) calls).LosesNothing := by
  have hkept := LabelledRun.admissible_invariant JournalUse.step JournalUse.Kept
    (fun _ _ h hcall => h.step hcall)
    (⟨entries, torn, htorn, hfile, List.Sublist.refl _⟩ : (JournalUse.start entries file).Kept)
    hcalls
  exact hkept.losesNothing

/-! ### A disk that is full for a moment -/

/-- One byte of a line reaches the file, and the next append returns: its record stands on
the fragment, and the journal cannot be read. -/
theorem glued_append_lost :
    ¬ (LabelledRun.run JournalUse.step (JournalUse.start [] none)
      [.append cancelledRecord (some 1), .append cancelledRecord none]).LosesNothing := by
  rintro ⟨read, hread, _⟩
  have hthrows : (LabelledRun.run JournalUse.step (JournalUse.start [] none)
      [.append cancelledRecord (some 1), .append cancelledRecord none]).journal.read.toOption.isNone
        = true := by decide +kernel
  rw [hread] at hthrows
  cases hthrows

/-- The object is closed before the next append, so the fragment goes. -/
theorem run_loses_nothing_closed :
    (LabelledRun.run JournalUse.step (JournalUse.start [] none)
      [.construct shortIdentity none, .append cancelledRecord (some 1), .close,
        .append cancelledRecord none]).LosesNothing := by
  apply run_loses_nothing [] [] List.not_mem_nil none rfl
  refine ⟨fun _ => Or.inl rfl, Or.inl ?_, trivial, Or.inr (Or.inl ⟨rfl, ?_⟩), trivial⟩
  · decide +kernel
  · decide +kernel

end Erc8415
