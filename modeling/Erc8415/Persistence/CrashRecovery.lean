import Erc8415.Foundation.LabelledRun
import Erc8415.Persistence.FileJournal

/-! # Crashes of a journaling process

A process opens the journal on a path, binds it, and appends. It can die during
any write: while a torn tail is being cut away, or with any prefix of the line
on the file. Over any number of such processes on one path, the file stays a
log of the records that reached it whole, and the next process reads exactly
those.
-/

namespace Erc8415

/-! ## What a file holds -/

/-- The text of a header, and of a record, without its newline. -/
def headerText (identity : JournalIdentity) : List Char := Json.stringify (journalHeader identity)

def recordText (record : JournalRecord) : List Char := Json.stringify record.toJson

/-- A file of ASCII text with these complete lines and a torn tail. -/
def Holds (lines : List (List Char)) (file : Option (List UInt8)) : Prop :=
  ∃ cs, file.getD [] = Text.encode cs ∧ Text.IsAscii cs ∧ LineLog.Torn '\n' lines cs

/-- A journal object over such a file. Once its descriptor is open there is no tail. -/
structure FileJournal.Holds (lines : List (List Char)) (j : FileJournal) : Prop where
  file : Erc8415.Holds lines j.file
  opened : j.opened = true → j.file = some (Text.encode (LineLog.render '\n' lines))

theorem Holds.missing : Holds [] none := ⟨[], rfl, by simp [Text.IsAscii], LineLog.Torn.render []⟩

theorem Holds.new {lines : List (List Char)} {file : Option (List UInt8)} (h : Holds lines file) :
    (FileJournal.new file).Holds lines where
  file := h
  opened hopened := by cases hopened

/-- Complete lines of ASCII text on a file. -/
theorem Holds.rendered {lines : List (List Char)}
    (hascii : Text.IsAscii (LineLog.render '\n' lines)) :
    Holds lines (some (Text.encode (LineLog.render '\n' lines))) :=
  ⟨_, rfl, hascii, LineLog.Torn.render lines⟩

theorem Holds.isAscii {lines : List (List Char)} {file : Option (List UInt8)}
    (h : Holds lines file) : Text.IsAscii (LineLog.render '\n' lines) := by
  obtain ⟨cs, _, hascii, tail, _, rfl⟩ := h
  exact fun c hc => hascii c (List.mem_append_left _ hc)

namespace FileJournal

variable {j : FileJournal} {lines : List (List Char)}

/-- The text of a file that holds some lines. -/
theorem Holds.raw (h : j.Holds lines) :
    Text.IsAscii j.raw ∧ LineLog.Torn '\n' lines j.raw ∧ j.file.getD [] = Text.encode j.raw := by
  obtain ⟨cs, hfile, hascii, htorn⟩ := h.file
  have hraw : j.raw = cs := by
    unfold FileJournal.raw
    cases hj : j.file with
    | none =>
        rw [hj] at hfile
        have hdecoded := congrArg Text.decode hfile
        rw [Text.decode_encode] at hdecoded
        exact hdecoded
    | some bytes =>
        rw [hj, Option.getD_some] at hfile
        simp only [hfile, Text.decode_encode]
  rw [hraw]
  exact ⟨hascii, htorn, hfile⟩

/-- In ASCII text a length in code units is a length in bytes. -/
theorem Holds.completeLength_eq (h : j.Holds lines) :
    completeLength j.raw = (LineLog.render '\n' lines).length := by
  unfold completeLength
  rw [h.raw.2.1.complete, h.file.isAscii.length16_eq]

theorem Holds.length16_raw (h : j.Holds lines) : Text.length16 j.raw = j.raw.length :=
  h.raw.1.length16_eq

/-- The cut leaves exactly the complete lines. -/
theorem Holds.openForAppend_eq (h : j.Holds lines) :
    j.openForAppend = ⟨true, some (Text.encode (LineLog.render '\n' lines))⟩ := by
  unfold openForAppend
  split
  next hopened =>
    have hfile := h.opened hopened
    cases j
    simp_all
  next =>
    -- The first write of the object: what is on the path may end in a torn tail.
    obtain ⟨hascii, ⟨tail, htail, hraw⟩, hbytes⟩ := h.raw
    cases hfile : j.file with
    | none =>
        have hempty : j.raw = [] := by
          simp [FileJournal.raw, hfile]
        rw [hempty] at hraw
        have hnil := (List.append_eq_nil_iff.mp hraw.symm).1
        rw [hnil]
        rfl
    | some bytes =>
        rw [hfile, Option.getD_some] at hbytes
        simp only [h.completeLength_eq, h.length16_raw]
        -- Over ASCII a count of string units cuts the file at the same place.
        split
        next =>
          rw [hbytes, hascii.take_encode, hraw, List.take_left]
        next hlength =>
          have htailnil : tail = [] := by
            rw [hraw, List.length_append] at hlength
            exact List.eq_nil_of_length_eq_zero (by omega)
          rw [hbytes, hraw, htailnil, List.append_nil]

/-- A whole line ends up behind the complete lines, with no tail. -/
theorem Holds.write (h : j.Holds lines) {record : Json}
    (hascii : Text.IsAscii (Json.stringify record)) :
    (j.write record).Holds (lines ++ [Json.stringify record]) := by
  have hrendered : LineLog.render '\n' lines ++ journalLine record =
      LineLog.render '\n' (lines ++ [Json.stringify record]) :=
    (LineLog.render_concat _ _).symm
  have hfile : (j.write record).file =
      some (Text.encode (LineLog.render '\n' (lines ++ [Json.stringify record]))) := by
    simp only [FileJournal.write, h.openForAppend_eq, Option.getD_some, ← Text.encode_append,
      hrendered]
  refine ⟨?_, fun _ => hfile⟩
  rw [hfile]
  apply Erc8415.Holds.rendered
  rw [← hrendered]
  exact h.file.isAscii.append (hascii.append (by decide))

end FileJournal

/-! ## Dying during a write -/

/-- Where a process dies during a write: while the torn tail is cut away, with some
bytes of it left, or while the line is written, with some bytes of it on the file. -/
inductive Crash where
  | truncating (kept : Nat)
  | writing (written : Nat)

/-- Whether the whole line, its newline included, had reached the file. -/
def Crash.whole (record : Json) : Crash → Bool
  | .truncating _ => false
  | .writing written => (Text.encode (journalLine record)).length ≤ written

namespace FileJournal

variable {j : FileJournal} {lines : List (List Char)}

/-- What a process that dies during a write leaves behind. -/
def writeCrashed (j : FileJournal) (record : Json) : Crash → Option (List UInt8)
  | .truncating kept =>
      if j.opened then j.file
      else j.file.map fun bytes =>
        if Text.length16 j.raw > completeLength j.raw then bytes.take (completeLength j.raw + kept)
        else bytes
  | .writing written =>
      some (j.openForAppend.file.getD [] ++ (Text.encode (journalLine record)).take written)

theorem Holds.writeCrashed (h : j.Holds lines) {record : Json}
    (hascii : Text.IsAscii (Json.stringify record)) (crash : Crash) :
    Erc8415.Holds (if crash.whole record then lines ++ [Json.stringify record] else lines)
      (j.writeCrashed record crash) := by
  have hline : Text.IsAscii (journalLine record) := hascii.append (by decide)
  cases crash with
  | truncating kept =>
      simp only [Crash.whole, Bool.false_eq_true, if_false, FileJournal.writeCrashed]
      split
      next => exact h.file
      next =>
        -- A shorter cut of the tail is again a tail, so the next process finds one to cut.
        obtain ⟨hraw, htorn, hbytes⟩ := h.raw
        cases hfile : j.file with
        | none =>
            have hholds := h.file
            rw [hfile] at hholds
            exact hholds
        | some bytes =>
            rw [hfile, Option.getD_some] at hbytes
            simp only [Option.map_some]
            split
            next =>
              refine ⟨j.raw.take (completeLength j.raw + kept), ?_, hraw.take _, htorn.take ?_⟩
              · rw [Option.getD_some, hbytes, hraw.take_encode]
              · rw [h.completeLength_eq]
                omega
            next => exact ⟨j.raw, hbytes, hraw, htorn⟩
  | writing written =>
      have hwhole : ((Crash.writing written).whole record = true) ↔
          (Json.stringify record).length < written := by
        simp only [Crash.whole, decide_eq_true_eq, hline.length_encode]
        rw [journalLine, List.length_append]
        exact Nat.succ_le_iff
      have htorn := @LineLog.Torn.write Char '\n' lines _ (Json.newline_not_mem_stringify record)
        written
      refine ⟨LineLog.render '\n' lines ++ (journalLine record).take written, ?_,
        h.file.isAscii.append (hline.take _), ?_⟩
      · simp only [FileJournal.writeCrashed, h.openForAppend_eq, Option.getD_some,
          hline.take_encode, Text.encode_append]
      · simp only [hwhole]
        exact htorn

end FileJournal

/-! ## Reading the lines back -/

/-- A record of the declared union whose strings are ASCII, as hex and decimal
fields are. -/
structure JournalRecord.Plain (record : JournalRecord) : Prop where
  declared : ∀ kind, record ≠ .unknown kind
  ascii : ∀ s ∈ Json.strings record.toJson, Text.IsAscii s.toList

/-- An identity whose strings are ASCII. -/
def JournalIdentity.Plain (identity : JournalIdentity) : Prop :=
  ∀ s ∈ Json.strings (journalHeader identity), Text.IsAscii s.toList

theorem readLine_stringify (read : JournalRead) {value : Json} (hvalue : value ≠ .null) :
    read.readLine (Json.stringify value) =
      if JournalRead.isHeader value then .ok { read with identity := value.get "identity" }
      else .ok { read with records := read.records ++ [value] } := by
  have hne : Json.stringify value ≠ [] := by
    intro hnil
    have hpos := Json.stringify_length_pos value
    rw [hnil] at hpos
    exact absurd hpos (by simp)
  simp only [JournalRead.readLine, hne, if_false, Json.parse_stringify]

theorem readLine_header (read : JournalRead) (identity : JournalIdentity) :
    read.readLine (headerText identity) = .ok { read with identity := some identity.toJson } := by
  rw [headerText, readLine_stringify read (by simp [journalHeader])]
  rfl

theorem readLine_record (read : JournalRead) {record : JournalRecord}
    (hdeclared : ∀ kind, record ≠ .unknown kind) :
    read.readLine (recordText record) =
      .ok { read with records := read.records ++ [record.toJson] } := by
  cases record with
  | admitted => rw [recordText, readLine_stringify read (by simp [JournalRecord.toJson])]; rfl
  | gapOpened => rw [recordText, readLine_stringify read (by simp [JournalRecord.toJson])]; rfl
  | gapCancelled => rw [recordText, readLine_stringify read (by simp [JournalRecord.toJson])]; rfl
  | unknown kind => exact absurd rfl (hdeclared kind)

theorem readLines_records {records : List JournalRecord} (h : ∀ r ∈ records, r.Plain)
    (read : JournalRead) :
    (records.map recordText).foldlM JournalRead.readLine read =
      .ok { read with records := read.records ++ records.map JournalRecord.toJson } := by
  induction records generalizing read with
  | nil =>
      rw [List.map_nil, List.map_nil, List.append_nil]
      rfl
  | cons record rest ih =>
      have hdeclared := (h record List.mem_cons_self).declared
      rw [List.map_cons, List.foldlM_cons, readLine_record read hdeclared]
      have hrest := ih (fun r hr => h r (List.mem_cons_of_mem _ hr))
        { read with records := read.records ++ [record.toJson] }
      simp only [bind, Except.bind, hrest, List.append_assoc, List.map_cons, List.singleton_append]

/-- Reading a file reads its complete lines, one by one. -/
theorem FileJournal.Holds.read_eq {j : FileJournal} {lines : List (List Char)} (h : j.Holds lines)
    (hlines : ∀ l ∈ lines, '\n' ∉ l) :
    ∃ torn, j.read = lines.foldlM JournalRead.readLine
      { JournalRead.empty with truncatedTail := torn } := by
  unfold FileJournal.read
  split
  next hempty =>
    obtain ⟨_, ⟨tail, _, hraw⟩, _⟩ := h.raw
    rw [hempty] at hraw
    have hnil : lines = [] := by
      cases lines with
      | nil => rfl
      | cons line rest => simp [LineLog.render] at hraw
    subst hnil
    exact ⟨false, rfl⟩
  next =>
    simp only [h.raw.2.1.lines hlines]
    exact ⟨_, rfl⟩

/-! ## A bound journal -/

/-- The lines of a bound journal. -/
def boundLines (identity : JournalIdentity) (records : List JournalRecord) : List (List Char) :=
  headerText identity :: records.map recordText

theorem boundLines_concat (identity : JournalIdentity) (records : List JournalRecord)
    (record : JournalRecord) :
    boundLines identity (records ++ [record]) =
      boundLines identity records ++ [Json.stringify record.toJson] := by
  simp [boundLines, recordText]

theorem newline_not_mem_boundLines {identity : JournalIdentity} {records : List JournalRecord} :
    ∀ l ∈ boundLines identity records, '\n' ∉ l := by
  intro l hl
  rcases List.mem_cons.mp hl with rfl | hl
  · exact Json.newline_not_mem_stringify _
  · obtain ⟨record, _, rfl⟩ := List.mem_map.mp hl
    exact Json.newline_not_mem_stringify _

/-- A bound journal reads as its identity and its records. -/
theorem FileJournal.Holds.read_bound {j : FileJournal} {identity : JournalIdentity}
    {records : List JournalRecord} (h : j.Holds (boundLines identity records))
    (hrecords : ∀ r ∈ records, r.Plain) :
    ∃ torn, j.read = .ok ⟨records.map JournalRecord.toJson, some identity.toJson, torn⟩ := by
  obtain ⟨torn, hread⟩ := h.read_eq newline_not_mem_boundLines
  refine ⟨torn, ?_⟩
  rw [hread, boundLines, List.foldlM_cons, readLine_header]
  change (records.map recordText).foldlM JournalRead.readLine _ = _
  rw [readLines_records hrecords]
  rfl

theorem FileJournal.Holds.read_unbound {j : FileJournal} (h : j.Holds []) :
    ∃ torn, j.read = .ok ⟨[], none, torn⟩ := by
  obtain ⟨torn, hread⟩ := h.read_eq (by simp)
  exact ⟨torn, hread⟩

/-- An identity differs from itself in no field. -/
theorem identityMismatch_toJson (identity : JournalIdentity) :
    FileJournal.identityMismatch identity.toJson identity = none := by
  obtain ⟨registerId, verificationProfile, chainId, contract⟩ := identity
  cases chainId <;> cases contract <;>
    simp [FileJournal.identityMismatch, FileJournal.identityFields, FileJournal.differs,
      JournalIdentity.toJson, optionalField, Json.get, List.lookup_cons]

/-! ## Processes on one path -/

/-- A process: it dies while it binds the journal, it appends some records and stops,
or it appends some records and dies during one more append. -/
inductive Lifetime where
  | diesBinding (crash : Crash)
  | stops (appends : List JournalRecord)
  | diesAppending (appends : List JournalRecord) (last : JournalRecord) (crash : Crash)

namespace Lifetime

/-- The records whose append returned. -/
def acknowledged : Lifetime → List JournalRecord
  | .diesBinding _ => []
  | .stops appends => appends
  | .diesAppending appends _ _ => appends

/-- The record that was on the file whole, newline included, when its append died. -/
def survivor : Lifetime → List JournalRecord
  | .diesBinding _ => []
  | .stops _ => []
  | .diesAppending _ last crash => if crash.whole last.toJson then [last] else []

/-- The records of a process that reached the file whole. -/
def written (l : Lifetime) : List JournalRecord := l.acknowledged ++ l.survivor

/-- Whether a process dies during a write. -/
def crashes : Lifetime → Bool
  | .diesBinding _ => true
  | .stops _ => false
  | .diesAppending _ _ _ => true

/-- Every record a process tried to append. -/
def attempted : Lifetime → List JournalRecord
  | .diesBinding _ => []
  | .stops appends => appends
  | .diesAppending appends last _ => appends ++ [last]

/-- What a process leaves on the path. -/
def leaves (identity : JournalIdentity) (file : Option (List UInt8)) :
    Lifetime → Option (List UInt8)
  | .diesBinding crash =>
      match (FileJournal.new file).read with
      | .ok read =>
          -- Binding writes nothing to a journal that has a header.
          if read.identity.isNone && read.records.isEmpty then
            (FileJournal.new file).writeCrashed (journalHeader identity) crash
          else file
      | .error _ => file
  | .stops appends =>
      match (FileJournal.new file).bind identity with
      | .ok j => (appends.foldl FileJournal.append j).file
      | .error _ => file
  | .diesAppending appends last crash =>
      match (FileJournal.new file).bind identity with
      | .ok j => (appends.foldl FileJournal.append j).writeCrashed last.toJson crash
      | .error _ => file

end Lifetime

/-- What processes that use one identity leave behind: a bound journal of these
records, or a journal that was never bound. -/
def Recovered (identity : JournalIdentity) (records : List JournalRecord)
    (file : Option (List UInt8)) : Prop :=
  Holds (boundLines identity records) file ∨ records = [] ∧ Holds [] file

variable {identity : JournalIdentity} {records : List JournalRecord} {file : Option (List UInt8)}

/-- Binding never refuses such a file, and leaves it bound. -/
theorem Recovered.bind (h : Recovered identity records file) (hidentity : identity.Plain)
    (hrecords : ∀ r ∈ records, r.Plain) :
    ∃ j, (FileJournal.new file).bind identity = .ok j ∧ j.Holds (boundLines identity records) := by
  rcases h with hbound | ⟨rfl, hunbound⟩
  · refine ⟨FileJournal.new file, ?_, hbound.new⟩
    obtain ⟨torn, hread⟩ := hbound.new.read_bound hrecords
    unfold FileJournal.bind
    rw [hread]
    have hsame := identityMismatch_toJson identity
    simp only [Bind.bind, Except.bind, JournalIdentity.toJson] at hsame ⊢
    rw [hsame]
  · refine ⟨(FileJournal.new file).write (journalHeader identity), ?_, ?_⟩
    · obtain ⟨torn, hread⟩ := hunbound.new.read_unbound
      unfold FileJournal.bind
      rw [hread]
      rfl
    · exact hunbound.new.write (Json.isAscii_stringify hidentity)

/-- Appends that return put their records behind the others. -/
theorem FileJournal.Holds.appends {j : FileJournal} (h : j.Holds (boundLines identity records))
    {appends : List JournalRecord} (happends : ∀ r ∈ appends, r.Plain) :
    (appends.foldl FileJournal.append j).Holds (boundLines identity (records ++ appends)) := by
  induction appends generalizing j records with
  | nil =>
      rw [List.append_nil]
      exact h
  | cons record rest ih =>
      have hnext := h.write (Json.isAscii_stringify (happends record List.mem_cons_self).ascii)
      rw [← boundLines_concat] at hnext
      have hrest := ih hnext fun r hr => happends r (List.mem_cons_of_mem _ hr)
      rwa [List.append_assoc, List.singleton_append] at hrest

/-- One process more: what it appended is behind what was there. -/
theorem Recovered.leaves (h : Recovered identity records file) (hidentity : identity.Plain)
    (hrecords : ∀ r ∈ records, r.Plain) {l : Lifetime} (hl : ∀ r ∈ l.attempted, r.Plain) :
    Recovered identity (records ++ l.written) (l.leaves identity file) := by
  -- Where it died in `bind`, the header is on the file already, or is the line being written.
  obtain ⟨j, hbind, hj⟩ := h.bind hidentity hrecords
  cases l with
  | diesBinding crash =>
      rw [Lifetime.written, Lifetime.acknowledged, Lifetime.survivor, List.append_nil,
        List.append_nil]
      unfold Lifetime.leaves
      rcases h with hbound | ⟨rfl, hunbound⟩
      · obtain ⟨torn, hread⟩ := hbound.new.read_bound hrecords
        rw [hread]
        exact Or.inl hbound
      · obtain ⟨torn, hread⟩ := hunbound.new.read_unbound
        rw [hread]
        have hcrashed := hunbound.new.writeCrashed (Json.isAscii_stringify hidentity) crash
        simp only [Option.isNone_none, List.isEmpty_nil, Bool.and_self, if_true]
        split at hcrashed
        next => exact Or.inl hcrashed
        next => exact Or.inr ⟨rfl, hcrashed⟩
  | stops appends =>
      rw [Lifetime.written, Lifetime.acknowledged, Lifetime.survivor, List.append_nil]
      unfold Lifetime.leaves
      rw [hbind]
      exact Or.inl (hj.appends hl).file
  | diesAppending appends last crash =>
      have happends : ∀ r ∈ appends, r.Plain := fun r hr => hl r (List.mem_append_left _ hr)
      have hlast : last.Plain := hl last (List.mem_append_right _ (List.mem_singleton_self _))
      unfold Lifetime.leaves
      rw [hbind]
      have hcrashed :=
        (hj.appends happends).writeCrashed (Json.isAscii_stringify hlast.ascii) crash
      rw [Lifetime.written, Lifetime.acknowledged, Lifetime.survivor]
      refine Or.inl ?_
      split at hcrashed
      next hwhole =>
        rw [if_pos hwhole, ← List.append_assoc, boundLines_concat]
        exact hcrashed
      next hwhole =>
        rw [if_neg hwhole, List.append_nil]
        exact hcrashed

theorem Lifetime.mem_attempted {l : Lifetime} {record : JournalRecord} (h : record ∈ l.written) :
    record ∈ l.attempted := by
  cases l with
  | diesBinding crash => exact absurd h List.not_mem_nil
  | stops appends =>
      rw [written, acknowledged, survivor, List.append_nil] at h
      exact h
  | diesAppending appends last crash =>
      rw [written, acknowledged, survivor] at h
      rcases List.mem_append.mp h with hmem | hmem
      · exact List.mem_append_left _ hmem
      · split at hmem
        next => exact List.mem_append_right _ hmem
        next => exact absurd hmem List.not_mem_nil

theorem Lifetime.written_length_le (l : Lifetime) :
    l.written.length ≤ l.acknowledged.length + if l.crashes then 1 else 0 := by
  cases l with
  | diesBinding crash => exact Nat.zero_le _
  | stops appends => simp [written, survivor, acknowledged]
  | diesAppending appends last crash =>
      rw [written, List.length_append, survivor]
      split <;> simp [crashes]

/-- Any number of processes. -/
theorem Recovered.run (h : Recovered identity records file) (hidentity : identity.Plain)
    (hrecords : ∀ r ∈ records, r.Plain) {lifetimes : List Lifetime}
    (hlifetimes : ∀ l ∈ lifetimes, ∀ r ∈ l.attempted, r.Plain) :
    Recovered identity (records ++ lifetimes.flatMap Lifetime.written)
      (LabelledRun.run (Lifetime.leaves identity) file lifetimes) := by
  induction lifetimes generalizing records file with
  | nil =>
      rw [List.flatMap_nil, List.append_nil]
      exact h
  | cons l rest ih =>
      have hl := hlifetimes l List.mem_cons_self
      have hnext := h.leaves hidentity hrecords hl
      have hplain : ∀ r ∈ records ++ l.written, r.Plain := by
        intro r hr
        rcases List.mem_append.mp hr with hr | hr
        · exact hrecords r hr
        · exact hl r (Lifetime.mem_attempted hr)
      have hrest := ih hnext hplain fun l' hl' => hlifetimes l' (List.mem_cons_of_mem _ hl')
      rw [List.append_assoc, ← List.flatMap_cons] at hrest
      exact hrest

theorem flatMap_written_sublist (lifetimes : List Lifetime) :
    (lifetimes.flatMap Lifetime.acknowledged).Sublist (lifetimes.flatMap Lifetime.written) := by
  induction lifetimes with
  | nil => exact List.Sublist.refl _
  | cons l rest ih =>
      rw [List.flatMap_cons, List.flatMap_cons]
      exact (List.sublist_append_left _ _).append ih

theorem flatMap_written_length_le (lifetimes : List Lifetime) :
    (lifetimes.flatMap Lifetime.written).length ≤
      (lifetimes.flatMap Lifetime.acknowledged).length + lifetimes.countP Lifetime.crashes := by
  induction lifetimes with
  | nil => exact Nat.zero_le _
  | cons l rest ih =>
      have hl := l.written_length_le
      simp only [List.flatMap_cons, List.length_append, List.countP_cons]
      omega

/-- What the next process finds on the path: the journal reads without error and can be
bound again. It holds exactly the records that reached it whole, in order: every
acknowledged one, and at most one more a crash, which was on the file with its newline.
Whenever it holds a record it carries the identity it was bound under. -/
structure Intact (identity : JournalIdentity) (lifetimes : List Lifetime) (j : FileJournal) :
    Prop where
  reads : ∃ read, j.read = .ok read ∧
    read.records = (lifetimes.flatMap Lifetime.written).map JournalRecord.toJson ∧
    (read.records ≠ [] → read.identity = some identity.toJson ∧
      read.content = some ⟨some identity, lifetimes.flatMap Lifetime.written⟩)
  binds : ∃ bound, j.bind identity = .ok bound
  acknowledged :
    (lifetimes.flatMap Lifetime.acknowledged).Sublist (lifetimes.flatMap Lifetime.written)
  survivors : (lifetimes.flatMap Lifetime.written).length ≤
    (lifetimes.flatMap Lifetime.acknowledged).length + lifetimes.countP Lifetime.crashes

/-- No number of crashes loses or duplicates an acknowledged record. -/
theorem crashes_lose_nothing (identity : JournalIdentity) (lifetimes : List Lifetime)
    (hidentity : identity.Plain) (hlifetimes : ∀ l ∈ lifetimes, ∀ r ∈ l.attempted, r.Plain) :
    Intact identity lifetimes
      (FileJournal.new (LabelledRun.run (Lifetime.leaves identity) none lifetimes)) := by
  have hplain : ∀ r ∈ lifetimes.flatMap Lifetime.written, r.Plain := by
    intro r hr
    obtain ⟨l, hl, hr⟩ := List.mem_flatMap.mp hr
    exact hlifetimes l hl r (Lifetime.mem_attempted hr)
  have hrecovered := Recovered.run (Or.inr ⟨rfl, Holds.missing⟩) hidentity
    (fun r hr => absurd hr List.not_mem_nil) hlifetimes
  rw [List.nil_append] at hrecovered
  obtain ⟨bound, hbound, _⟩ := hrecovered.bind hidentity hplain
  refine ⟨?_, ⟨bound, hbound⟩, flatMap_written_sublist lifetimes,
    flatMap_written_length_le lifetimes⟩
  rcases hrecovered with hlines | ⟨hnil, hunbound⟩
  · obtain ⟨torn, hread⟩ := hlines.new.read_bound hplain
    refine ⟨_, hread, rfl, fun _ => ⟨rfl, ?_⟩⟩
    simp only [JournalRead.content, identityOf_toJson,
      mapM_recordOf fun r hr => (hplain r hr).declared]
    rfl
  · obtain ⟨torn, hread⟩ := hunbound.new.read_unbound
    exact ⟨_, hread, by rw [hnil]; rfl, fun hne => absurd rfl hne⟩

/-! ### A torn header, a record cut short, and one that lacks only its newline -/

def shortIdentity : JournalIdentity := ⟨"0x07", "0x08", some "1", none⟩

def shortRecord : JournalRecord := .gapCancelled "1" "0x55"

/-- The header is torn, a record is acknowledged, one is written but for its newline,
the cut of that tail is interrupted, and one survives its crash. -/
def fourCrashes : List Lifetime :=
  [.diesBinding (.writing 10), .stops [shortRecord],
    .diesAppending [] shortRecord (.writing (recordText shortRecord).length),
    .diesAppending [] shortRecord (.truncating 3),
    .diesAppending [shortRecord] shortRecord (.writing 100)]

theorem crashes_lose_nothing_four :
    fourCrashes.flatMap Lifetime.acknowledged = [shortRecord, shortRecord] ∧
      fourCrashes.flatMap Lifetime.written = [shortRecord, shortRecord, shortRecord] ∧
      Intact shortIdentity fourCrashes
        (FileJournal.new (LabelledRun.run (Lifetime.leaves shortIdentity) none fourCrashes)) := by
  have hidentity : ∀ s ∈ Json.strings (journalHeader shortIdentity), Text.IsAscii s.toList := by
    decide
  have hrecord : shortRecord.Plain := ⟨fun kind => by simp [shortRecord], by decide⟩
  have hattempted : ∀ l ∈ fourCrashes, ∀ r ∈ l.attempted, r = shortRecord := by decide
  refine ⟨by decide, by decide, crashes_lose_nothing shortIdentity fourCrashes hidentity ?_⟩
  intro l hl r hr
  rw [hattempted l hl r hr]
  exact hrecord

end Erc8415
