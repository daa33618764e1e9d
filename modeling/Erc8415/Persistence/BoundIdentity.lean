import Erc8415.Persistence.TornTail

/-! # The identity a journal is bound under

Binding compares the identity of the last header, wherever it stands, and
refuses a file of records without one. So a file whose records were written
before its header, or under another header, is bound as if all of them belonged
to the last.
-/

namespace Erc8415

open JournalEntry

/-- The records of these lines were all written under one identity: their first line is its
header, and no header says anything else. -/
structure WrittenUnder (entries : List JournalEntry) (identity : JournalIdentity) : Prop where
  first : entries.head? = some (.header identity)
  only : ∀ stored ∈ identities entries, stored = identity

/-- Where a bind returns and there is a record to replay, it was written under the identity. -/
def BindsOnlyItsOwn (entries : List JournalEntry) (torn : List UInt8)
    (identity : JournalIdentity) : Prop :=
  ∀ bound read, (FileJournal.new (some (bytes entries ++ torn))).bind identity = .ok bound →
    bound.read = .ok read → read.records ≠ [] → WrittenUnder entries identity

/-- The fields of an identity, read off the object it is written as. -/
theorem get_toJson (identity : JournalIdentity) :
    identity.toJson.get "registerId" = some (.string identity.registerId) ∧
      identity.toJson.get "verificationProfile" = some (.string identity.verificationProfile) ∧
      identity.toJson.get "chainId" = identity.chainId.map Json.string ∧
      identity.toJson.get "contract" = identity.contract.map Json.string := by
  obtain ⟨registerId, verificationProfile, chainId, contract⟩ := identity
  cases chainId <;> cases contract <;> exact ⟨rfl, rfl, rfl, rfl⟩

theorem eq_of_not_differs {text text' : Option String}
    (h : ¬ FileJournal.differs (text.map Json.string) text' = true) : text = text' := by
  cases text with
  | none =>
      cases text' with
      | none => rfl
      | some text' => simp [FileJournal.differs] at h
  | some text =>
      cases text' with
      | none => simp [FileJournal.differs] at h
      | some text' => simpa [FileJournal.differs] using h

/-- Two identities that differ in no field are one. -/
theorem identityMismatch_eq_none {stored identity : JournalIdentity} :
    FileJournal.identityMismatch stored.toJson identity = none ↔ stored = identity := by
  constructor
  · intro h
    obtain ⟨hregister, hprofile, hchain, hcontract⟩ := get_toJson stored
    simp only [FileJournal.identityMismatch, FileJournal.identityFields, List.find?_eq_none,
      List.forall_mem_cons, hregister, hprofile, hchain, hcontract] at h
    obtain ⟨hregister, hprofile, hchain, hcontract, _⟩ := h
    have hregister : some stored.registerId = some identity.registerId :=
      eq_of_not_differs hregister
    have hprofile : some stored.verificationProfile = some identity.verificationProfile :=
      eq_of_not_differs hprofile
    cases stored
    cases identity
    simp only [JournalIdentity.mk.injEq]
    exact ⟨Option.some.inj hregister, Option.some.inj hprofile, eq_of_not_differs hchain,
      eq_of_not_differs hcontract⟩
  · rintro rfl
    exact identityMismatch_toJson stored

variable {entries : List JournalEntry} {torn : List UInt8} {identity : JournalIdentity}

theorem eq_nil_of_records_of_identities (hrecords : records entries = [])
    (hidentities : identities entries = []) : entries = [] := by
  cases entries with
  | nil => rfl
  | cons entry rest =>
      cases entry with
      | header identity => simp [identities, identity?] at hidentities
      | record r => simp [records, record?] at hrecords

/-- The header of a journal of nothing; a torn tail goes. -/
theorem write_header (htorn : Text.newline ∉ torn) :
    (FileJournal.new (some (bytes [] ++ torn))).write (journalHeader identity) =
      ⟨true, some (bytes [.header identity])⟩ := by
  have hascii : Text.IsAscii (lines []) := fun c hc => absurd hc List.not_mem_nil
  have hopen : (FileJournal.new (some (bytes [] ++ torn))).openForAppend = _ :=
    FileJournal.openForAppend_ascii htorn hascii
  have hbytes : bytes [.header identity] = bytes [] ++ Text.encode (journalLine _) :=
    bytes_concat [] (.header identity)
  rw [FileJournal.write, hopen, hbytes]
  rfl

/-- A bind returns on a journal that carries the identity last, and on one that carries
nothing, which gets its header. -/
theorem bind_lines (htorn : Text.newline ∉ torn) {bound : FileJournal} :
    (FileJournal.new (some (bytes entries ++ torn))).bind identity = .ok bound ↔
      (identities entries).getLast? = some identity ∧
          bound = FileJournal.new (some (bytes entries ++ torn)) ∨
        entries = [] ∧ bound = ⟨true, some (bytes [.header identity])⟩ := by
  have hread : (FileJournal.new (some (bytes entries ++ torn))).read = _ :=
    FileJournal.read_lines htorn
  unfold FileJournal.bind
  rw [hread]
  cases hlast : (identities entries).getLast? with
  | some stored =>
      have hne : entries ≠ [] := by
        rintro rfl
        cases hlast
      simp only [Bind.bind, Except.bind, Option.map_some, hne, false_and, or_false,
        Option.some.injEq]
      split
      next hnull => simp [JournalIdentity.toJson] at hnull
      next stored' hstored =>
        obtain rfl := Option.some.inj hstored
        split
        next field supplied hmismatch =>
          have hdiffers : stored ≠ identity := by
            intro heq
            rw [identityMismatch_eq_none.mpr heq] at hmismatch
            cases hmismatch
          simp [hdiffers]
        next hmismatch =>
          rw [identityMismatch_eq_none] at hmismatch
          simp [hmismatch, eq_comm]
      next hnone => cases hnone
  | none =>
      simp only [Bind.bind, Except.bind, Option.map_none, reduceCtorEq, false_and, false_or]
      by_cases hrecords : records entries = []
      · obtain rfl := eq_nil_of_records_of_identities hrecords (List.getLast?_eq_none_iff.mp hlast)
        simp [hrecords, write_header htorn, eq_comm]
      · have hne : entries ≠ [] := fun heq => hrecords (heq ▸ rfl)
        simp [hrecords, hne]

/-- A bind presents only records of its own exactly when there is no record, when the last
header is of another identity, or when a header comes first and no two differ. -/
theorem binds_only_its_own_iff (entries : List JournalEntry) (torn : List UInt8)
    (htorn : Text.newline ∉ torn) (identity : JournalIdentity) :
    BindsOnlyItsOwn entries torn identity ↔
      records entries = [] ∨ (identities entries).getLast? ≠ some identity ∨
        (∃ first, entries.head? = some (.header first)) ∧
          ∀ stored ∈ identities entries, ∀ stored' ∈ identities entries, stored = stored' := by
  have hread : (FileJournal.new (some (bytes entries ++ torn))).read = _ :=
    FileJournal.read_lines htorn
  constructor
  · intro h
    by_contra hnot
    simp only [not_or, not_and, Ne, not_not] at hnot
    obtain ⟨hrecords, hlast, hone⟩ := hnot
    have hown := h _ _ ((bind_lines htorn).mpr (Or.inl ⟨hlast, rfl⟩)) hread
      (by simpa using hrecords)
    apply hone ⟨identity, hown.first⟩
    intro stored hstored stored' hstored'
    rw [hown.only stored hstored, hown.only stored' hstored']
  · intro h bound read hbind hbound hne
    rcases (bind_lines htorn).mp hbind with ⟨hlast, rfl⟩ | ⟨rfl, rfl⟩
    · rw [hread] at hbound
      cases hbound
      have hrecords : records entries ≠ [] := by simpa using hne
      rcases h with hnone | hother | ⟨⟨first, hfirst⟩, hall⟩
      · exact absurd hnone hrecords
      · exact absurd hlast hother
      · have hmem : identity ∈ identities entries := List.mem_of_getLast? hlast
        have hmem' : first ∈ identities entries :=
          List.mem_filterMap.mpr ⟨.header first, List.mem_of_head? hfirst, rfl⟩
        refine ⟨?_, fun stored hstored => hall stored hstored identity hmem⟩
        rw [hfirst, hall first hmem' identity hmem]
    · have hheader : FileJournal.read ⟨true, some (bytes [.header identity] ++ [])⟩ = _ :=
        FileJournal.read_lines List.not_mem_nil
      rw [List.append_nil, hbound] at hheader
      cases hheader
      exact absurd rfl hne

/-! ### A record before its header -/

/-- The record was on the file before anything was bound to it. -/
theorem headless_record_bound :
    ¬ BindsOnlyItsOwn [.record cancelledRecord, .header shortIdentity] [] shortIdentity := by
  intro h
  have hread : (FileJournal.new
      (some (bytes [.record cancelledRecord, .header shortIdentity] ++ []))).read = _ :=
    FileJournal.read_lines List.not_mem_nil
  have hown := h _ _ ((bind_lines List.not_mem_nil).mpr (Or.inl ⟨rfl, rfl⟩)) hread
    (List.cons_ne_nil _ _)
  cases hown.first

theorem binds_only_its_own_iff_headed :
    BindsOnlyItsOwn [.header shortIdentity, .record cancelledRecord] [] shortIdentity :=
  (binds_only_its_own_iff [.header shortIdentity, .record cancelledRecord] [] List.not_mem_nil
    shortIdentity).mpr (Or.inr (Or.inr ⟨⟨shortIdentity, rfl⟩, by simp [identities, identity?]⟩))

end Erc8415
