import Erc8415.Persistence.CrashRecovery
import Erc8415.Persistence.Lifetimes

/-! # A service over crashes

One journal file, and the processes that serve over it one after another. A
process opens the file, binds it and replays it; each call it serves is in the
file when it is answered; and it can die while it binds or during any append.
Beside the site runs the store that its file accounts for. Whatever crashes
there were, the next process starts, and its store is that one.
-/

namespace Erc8415

open ProjectionStore

variable {σ : Type}

/-! ## Opening a file -/

/-- What opening a file gives: the restored store, the journal object it goes on with, and
whether a tail was discarded. -/
structure Opened (σ : Type) where
  result : RestoreResult σ
  journal : FileJournal
  truncatedTail : Bool

/-- What a file is read as, and the journal object once the constructor has bound it. The cast
of a line that no record was written as has no value here. -/
def bindFile (options : StoreOptions σ) (file : Option (List UInt8)) :
    Except Thrown (JournalRead × JournalContent × FileJournal) := do
  let read ← (FileJournal.new file).read
  match read.content with
  | none => .error (.error "TypeError")
  | some content =>
      let o ← configure options
      let journal ← (FileJournal.new file).bind (identity o)
      return (read, content, journal)

/-- `restoreProjectionStore` over a `FileJournal`, and the file it leaves: a journal that was
bound stays bound where a record of it does not apply. -/
def openStore (options : StoreOptions σ) (adapter : σ) (file : Option (List UInt8)) :
    Option (List UInt8) × Except Thrown (Opened σ) :=
  match bindFile options file with
  | .error thrown => (file, .error thrown)
  | .ok (read, content, journal) =>
      (journal.file, (restoreProjectionStore options adapter content).map fun result =>
        ⟨result, journal, read.truncatedTail⟩)

/-! ## A site -/

/-- A process: its store, and the journal object it appends to. -/
structure Running (σ : Type) where
  store : ProjectionStore σ
  journal : FileJournal

/-- The file on a path, and the process that has it open. -/
structure Site (σ : Type) where
  file : Option (List UInt8)
  live : Option (Running σ)

/-- What happens on a site. A process dies while it binds, or during the append of a call. -/
inductive SiteEvent (o : StoreConfig σ) where
  | start (adapter : σ)
  | diesStarting (crash : Crash)
  | serves (call : ServiceCall o)
  | diesServing (call : ServiceCall o) (crash : Crash)
  | stops

/-- The records a call has added to the journal. -/
def appended (before after : ProjectionStore σ) : List JournalRecord :=
  after.journal.records.drop before.journal.records.length

namespace Running

variable (engine : SettlementEngine) {o : StoreConfig σ}

/-- A call served to its end. -/
def serves (p : Running σ) (call : ServiceCall o) : Running σ where
  store := serveStep engine o p.store call
  journal := (appended p.store (serveStep engine o p.store call)).foldl FileJournal.append
    p.journal

/-- The file a process leaves that dies during the append of a call. A call that appends nothing
leaves the file as it is. -/
def dies (p : Running σ) (call : ServiceCall o) (crash : Crash) : Option (List UInt8) :=
  match appended p.store (serveStep engine o p.store call) with
  | [] => p.journal.file
  | record :: _ => p.journal.writeCrashed record.toJson crash

/-- The store its file accounts for then: with the call, if its record reached the file whole. -/
def survives (p : Running σ) (call : ServiceCall o) (crash : Crash) : ProjectionStore σ :=
  match appended p.store (serveStep engine o p.store call) with
  | [] => p.store
  | record :: _ =>
      if crash.whole record.toJson then serveStep engine o p.store call else p.store

end Running

namespace Site

variable (engine : SettlementEngine) (options : StoreOptions σ) {o : StoreConfig σ}

/-- The site after an event. -/
def step (site : Site σ) : SiteEvent o → Site σ
  | .start adapter =>
      match openStore options adapter site.file with
      | (file, .ok opened) => ⟨file, some ⟨opened.result.store, opened.journal⟩⟩
      | (file, .error _) => ⟨file, none⟩
  | .diesStarting crash =>
      ⟨Lifetime.leaves (identity o) site.file (.diesBinding crash), none⟩
  | .serves call =>
      match site.live with
      | none => site
      | some p => ⟨(p.serves engine call).journal.file, some (p.serves engine call)⟩
  | .diesServing call crash =>
      match site.live with
      | none => site
      | some p => ⟨p.dies engine call crash, none⟩
  | .stops => { site with live := none }

end Site

/-- A site, and beside it the store its file accounts for. -/
structure Surveyed (σ : Type) where
  site : Site σ
  durable : ProjectionStore σ

namespace Surveyed

section Step

variable (engine : SettlementEngine) (options : StoreOptions σ) {o : StoreConfig σ}

/-- A path that nothing was written to. -/
def start (o : StoreConfig σ) (fresh : σ) : Surveyed σ where
  site := ⟨none, none⟩
  durable := initial fresh ⟨some (identity o), []⟩

/-- Only a call that is served, or dies with its record whole, changes what the file accounts
for. A process that starts goes on with the store it restored. -/
def step (x : Surveyed σ) (event : SiteEvent o) : Surveyed σ where
  site := x.site.step engine options event
  durable :=
    match event with
    | .start adapter =>
        match (openStore options adapter x.site.file).2 with
        | .ok opened => opened.result.store
        | .error _ => x.durable
    | .diesStarting _ => x.durable
    | .serves call =>
        match x.site.live with
        | none => x.durable
        | some p => (p.serves engine call).store
    | .diesServing call crash =>
        match x.site.live with
        | none => x.durable
        | some p => p.survives engine call crash
    | .stops => x.durable

end Step

end Surveyed

/-! ## Records are plain -/

theorem isAscii_toString (n : Int) : Text.IsAscii (toString n).toList := by
  intro c hc
  by_contra hbig
  have hdigit : c.isDigit = false := by
    rw [← Bool.not_eq_true]
    intro hdigit
    have hbounds := (BigIntText.isDigit_bounds hdigit).2
    rw [Char.le_def, UInt32.le_iff_toNat_le] at hbounds
    exact hbig (Nat.lt_of_le_of_lt hbounds (by decide))
  have hsign : c ≠ '-' := by
    rintro rfl
    exact hbig (by decide)
  exact BigIntText.notMem_toString hdigit hsign n hc

theorem isAscii_of_isHexWord {digits : Nat} {value : String} (h : isHexWord digits value = true) :
    Text.IsAscii value.toList := by
  unfold isHexWord at h
  split at h
  next rest heq =>
    rw [heq]
    simp only [Bool.and_eq_true, List.all_eq_true] at h
    intro c hc
    rcases List.mem_cons.mp hc with rfl | hc
    · decide
    rcases List.mem_cons.mp hc with rfl | hc
    · decide
    have hlower := h.2 c hc
    simp only [isLowerHex, Bool.or_eq_true, Bool.and_eq_true, decide_eq_true_eq, Char.le_def,
      UInt32.le_iff_toNat_le] at hlower
    rcases hlower with ⟨_, hle⟩ | ⟨_, hle⟩
    · exact Nat.lt_of_le_of_lt hle (by decide)
    · exact Nat.lt_of_le_of_lt hle (by decide)
  next => cases h

/-- A document whose strings are ASCII, names included. -/
def AsciiStrings (value : Json) : Prop := ∀ s ∈ Json.strings value, Text.IsAscii s.toList

theorem asciiStrings_string {text : String} (h : Text.IsAscii text.toList) :
    AsciiStrings (.string text) := by
  intro s hs
  rw [Json.strings, List.mem_singleton] at hs
  rw [hs]
  exact h

theorem asciiStrings_object {members : List (String × Json)}
    (h : ∀ member ∈ members, Text.IsAscii member.1.toList ∧ AsciiStrings member.2) :
    AsciiStrings (.object members) := by
  unfold AsciiStrings
  rw [Json.strings]
  induction members with
  | nil =>
      intro s hs
      cases hs
  | cons member rest ih =>
      obtain ⟨name, value⟩ := member
      obtain ⟨hname, hvalue⟩ := h (name, value) List.mem_cons_self
      intro s hs
      rw [Json.memberStrings] at hs
      rcases List.mem_cons.mp hs with rfl | hs
      · exact hname
      rcases List.mem_append.mp hs with hs | hs
      · exact hvalue s hs
      · exact ih (fun m hm => h m (List.mem_cons_of_mem _ hm)) s hs

theorem asciiStrings_textObject {fields : List (String × String)}
    (h : ∀ field ∈ fields, Text.IsAscii field.1.toList ∧ Text.IsAscii field.2.toList) :
    AsciiStrings (textObject fields) := by
  apply asciiStrings_object
  intro member hmember
  obtain ⟨field, hfield, rfl⟩ := List.mem_map.mp hmember
  exact ⟨(h field hfield).1, asciiStrings_string (h field hfield).2⟩

/-- The fields of an entry that was validated. -/
theorem asciiStrings_entryJson {c : CandidateEntry} (hc : c.Shaped) :
    AsciiStrings (entryJson { c with supersededAt := 0 }).toJson := by
  apply asciiStrings_textObject
  simp only [entryJson, List.forall_mem_cons, isAscii_toString, and_true]
  exact ⟨by decide, ⟨by decide, isAscii_of_isHexWord hc.holder⟩, by decide, by decide,
    ⟨by decide, isAscii_of_isHexWord hc.recordCommitment⟩,
    ⟨by decide, isAscii_of_isHexWord hc.previousCommitment⟩,
    ⟨by decide, isAscii_of_isHexWord hc.registryReference⟩, List.forall_mem_nil _⟩

/-- And of a request that was checked. -/
theorem asciiStrings_settlementJson {engine : SettlementEngine} {s : ProjectionStore σ}
    {request : BeginRequest} {now : Int} (h : Begins engine s request now) :
    AsciiStrings (settlementJson
      ((SettlementEngine.BeginRequest.gap request now).opened request.tokenId)).toJson := by
  apply asciiStrings_textObject
  simp only [settlementJson, GapRequest.opened, SettlementEngine.BeginRequest.gap,
    List.forall_mem_cons, isAscii_toString, and_true]
  exact ⟨⟨by decide, isAscii_of_isHexWord h.settlementWord⟩, by decide,
    ⟨by decide, isAscii_of_isHexWord h.initiator⟩,
    ⟨by decide, isAscii_of_isHexWord h.expectedHolder⟩,
    ⟨by decide, isAscii_of_isHexWord h.snapshotWord⟩, by decide, by decide,
    ⟨by decide, by decide⟩, List.forall_mem_nil _⟩

namespace ProjectionStore

variable {engine : SettlementEngine} {o : StoreConfig σ} {s t : ProjectionStore σ}

/-- The states a service reaches in which every settlement id is a word. -/
structure Worded (s : ProjectionStore σ) : Prop where
  served : s.Served
  word : ∀ id r, s.settlements.get id = some r → isBytes32 id = true

theorem Worded.initial (adapter : σ) (journal : JournalContent) :
    (initial adapter journal).Worded where
  served := .initial adapter journal
  word := by simp [ProjectionStore.initial]

theorem Worded.pointer (h : s.Worded) {k : String} {id : Bytes32}
    (hopen : s.openGaps.get k = some id) : isBytes32 id = true :=
  h.word id _ (pointed_settlement h.served.records hopen).1

theorem Worded.entered (h : s.Worded) (tokenId : Int) (c : CandidateEntry) (adapter : σ) :
    ∀ id r, (s.entered tokenId c adapter).settlements.get id = some r → isBytes32 id = true := by
  rw [entered_settlements]
  cases hopen : s.openGaps.get (key tokenId) with
  | none => exact h.word
  | some id => exact InsertionMap.forall_set h.word (h.pointer hopen)

/-- The record of an admission. -/
theorem Worded.plain_admitted (h : s.Worded) {tokenId : Int} {argument : JsValue}
    {material : ProofMaterial} {now : Int} {c : CandidateEntry}
    (hc : Accepted o s tokenId argument material now c) :
    (s.admittedRecord tokenId { c with supersededAt := 0 } material.remoteHeight).Plain := by
  refine ⟨fun kind heq => (by cases heq), ?_⟩
  apply asciiStrings_object
  have hid : AsciiStrings (orNull (s.openGaps.get (key tokenId))) := by
    cases hopen : s.openGaps.get (key tokenId) with
    | none => exact List.forall_mem_nil _
    | some id => exact asciiStrings_string (isAscii_of_isHexWord (h.pointer hopen))
  simp only [List.forall_mem_cons]
  exact ⟨⟨by decide, asciiStrings_string (by decide)⟩,
    ⟨by decide, asciiStrings_string (isAscii_toString tokenId)⟩,
    ⟨by decide, asciiStrings_entryJson hc.follows.shaped⟩,
    ⟨by decide, asciiStrings_string (isAscii_toString _)⟩, ⟨by decide, hid⟩, List.forall_mem_nil _⟩

theorem plain_opened {request : BeginRequest} {now : Int} (h : Begins engine s request now) :
    (JournalRecord.gapOpened (key request.tokenId) (settlementJson
      ((SettlementEngine.BeginRequest.gap request now).opened request.tokenId))).Plain := by
  refine ⟨by simp, ?_⟩
  apply asciiStrings_object
  simp only [List.forall_mem_cons]
  exact ⟨⟨by decide, asciiStrings_string (by decide)⟩,
    ⟨by decide, asciiStrings_string (isAscii_toString request.tokenId)⟩,
    ⟨by decide, asciiStrings_settlementJson h⟩, List.forall_mem_nil _⟩

theorem Worded.plain_cancelled (h : s.Worded) {tokenId : Int} {id : Bytes32}
    (hopen : s.openGaps.get (key tokenId) = some id) :
    (JournalRecord.gapCancelled (key tokenId) id).Plain := by
  refine ⟨by simp, ?_⟩
  apply asciiStrings_object
  simp only [List.forall_mem_cons]
  exact ⟨⟨by decide, asciiStrings_string (by decide)⟩,
    ⟨by decide, asciiStrings_string (isAscii_toString tokenId)⟩,
    ⟨by decide, asciiStrings_string (isAscii_of_isHexWord (h.pointer hopen))⟩,
    List.forall_mem_nil _⟩

/-- A call appends nothing, or one record of plain text, and keeps the ids words. -/
theorem Worded.serves (h : s.Worded) (engine : SettlementEngine) (call : ServiceCall o) :
    (serveStep engine o s call).Worded ∧
      ((serveStep engine o s call).journal = s.journal ∨
        ∃ record : JournalRecord, record.Plain ∧
          (serveStep engine o s call).journal = s.journal.append record) := by
  have heffect := serve_effect engine h.served.valid call
  have hserved : (serveStep engine o s call).Served := h.served.step call
  unfold serveStep at hserved ⊢
  generalize (serve engine o s call).1 = t at heffect hserved ⊢
  generalize mutated (serve engine o s call).2 = answered at heffect
  cases heffect with
  | unchanged => exact ⟨h, Or.inl rfl⟩
  | moved move hmove => exact ⟨⟨hserved, h.word⟩, Or.inl rfl⟩
  | begun hbegins hwritable hfree =>
      exact ⟨⟨hserved, InsertionMap.forall_set h.word hbegins.settlementWord⟩,
        Or.inr ⟨_, plain_opened hbegins, rfl⟩⟩
  | finalized hassert hc hadvance =>
      exact ⟨⟨hserved, h.entered _ _ _⟩, Or.inr ⟨_, h.plain_admitted hc, rfl⟩⟩
  | cancelled hcheck hwritable hopen =>
      exact ⟨⟨hserved, InsertionMap.forall_set h.word (h.pointer hopen)⟩,
        Or.inr ⟨_, h.plain_cancelled hopen, rfl⟩⟩
  | posted htoken hparsed hassert hc hadvance =>
      exact ⟨⟨hserved, h.entered _ _ _⟩, Or.inr ⟨_, h.plain_admitted hc, rfl⟩⟩
  | direct hc hadvance =>
      exact ⟨⟨hserved, h.entered _ _ _⟩, Or.inr ⟨_, h.plain_admitted hc, rfl⟩⟩

theorem appended_of_same (h : t.journal = s.journal) : appended s t = [] := by
  rw [appended, h, List.drop_length]

theorem appended_of_append {record : JournalRecord} (h : t.journal = s.journal.append record) :
    appended s t = [record] := by
  rw [appended, h]
  exact List.drop_left

/-- A store that differs from a journaled one in its adapter alone is journaled too. -/
theorem Journaled.of_twins {fresh : σ} {count : Nat} (h : Journaled o fresh count s)
    (htwins : Twins o s t) : Journaled o fresh count t := by
  obtain ⟨hsame, hheights⟩ := htwins
  generalize t.adapter = adapter at hsame hheights
  subst hsame
  refine ⟨⟨⟨h.served.valid.projections, h.served.valid.gaps⟩, h.served.records, h.served.begun⟩,
    h.writable, h.identity, h.count, fun journal => ?_⟩
  obtain ⟨replayed, hreplay, hbook, hmirrors⟩ := h.restorable journal
  refine ⟨replayed, hreplay, hbook, fun hwritable => ?_⟩
  obtain ⟨hprojections, hgaps, hsettlements, hreplayed⟩ := hmirrors hwritable
  exact ⟨hprojections, hgaps, hsettlements,
    fun tokenId => (hreplayed tokenId).trans (hheights tokenId).symm⟩

/-- A store that can be rebuilt from a journal of plain records, over every adapter as fresh as
its first one. -/
structure Durable (o : StoreConfig σ) (fresh : σ) (s : ProjectionStore σ) : Prop where
  journaled : ∀ a, Lifetimes.SameHeights o a fresh →
    Journaled o a s.journal.records.length s
  worded : s.Worded
  plain : ∀ r ∈ s.journal.records, r.Plain

theorem Durable.initial (o : StoreConfig σ) (fresh : σ) :
    Durable o fresh (initial fresh ⟨some (identity o), []⟩) where
  journaled _ ha := Journaled.initial ha
  worded := .initial fresh _
  plain := List.forall_mem_nil _

theorem Durable.serves {fresh : σ} (h : Durable o fresh s) (engine : SettlementEngine)
    (call : ServiceCall o) : Durable o fresh (serveStep engine o s call) where
  journaled a ha := by
    have hnext := (h.journaled a ha).step engine call
    rwa [← hnext.count] at hnext
  worded := (h.worded.serves engine call).1
  plain := by
    rcases (h.worded.serves engine call).2 with hsame | ⟨record, hplain, happend⟩
    · rw [hsame]
      exact h.plain
    · rw [happend]
      intro r hr
      rcases List.mem_append.mp hr with hold | hnew
      · exact h.plain r hold
      · rw [List.mem_singleton.mp hnew]
        exact hplain

theorem Durable.twin {fresh : σ} (h : Durable o fresh s) (htwins : Twins o s t) :
    Durable o fresh t := by
  have hjournal : t.journal = s.journal := by rw [htwins.same]
  have hsettlements : t.settlements = s.settlements := by rw [htwins.same]
  refine ⟨fun a ha => ?_, ⟨((h.journaled fresh fun _ => rfl).of_twins htwins).served, ?_⟩, ?_⟩
  · rw [hjournal]
    exact (h.journaled a ha).of_twins htwins
  · rw [hsettlements]
    exact h.worded.word
  · rw [hjournal]
    exact h.plain

/-! ## Growing stores -/

/-- Nothing is taken back: a token's entries are only followed by more, a settlement only
succeeds itself, and an accepted height stays, or rises with a new entry. -/
structure Grows (o : StoreConfig σ) (s t : ProjectionStore σ) : Prop where
  entries : ∀ tokenId, (s.entries tokenId).map (fun e => e.toCandidateEntry) <+:
    (t.entries tokenId).map fun e => e.toCandidateEntry
  settlements : Kept s.settlements t.settlements
  heights : ∀ tokenId,
    o.adapter.acceptedHeight s.adapter tokenId < o.adapter.acceptedHeight t.adapter tokenId ∨
      o.adapter.acceptedHeight t.adapter tokenId = o.adapter.acceptedHeight s.adapter tokenId ∧
        (t.entries tokenId).length = (s.entries tokenId).length

theorem Grows.refl (s : ProjectionStore σ) : Grows o s s where
  entries _ := List.prefix_refl _
  settlements := Kept.refl _
  heights _ := Or.inr ⟨rfl, rfl⟩

theorem Grows.trans {u : ProjectionStore σ} (h : Grows o s t) (h' : Grows o t u) :
    Grows o s u where
  entries tokenId := (h.entries tokenId).trans (h'.entries tokenId)
  settlements := h.settlements.trans h'.settlements
  heights tokenId := by
    rcases h.heights tokenId with hlt | ⟨heq, hlength⟩
    · rcases h'.heights tokenId with hlt' | ⟨heq', _⟩
      · exact Or.inl (hlt.trans hlt')
      · exact Or.inl (hlt.trans_eq heq'.symm)
    · rcases h'.heights tokenId with hlt' | ⟨heq', hlength'⟩
      · exact Or.inl (heq ▸ hlt')
      · exact Or.inr ⟨heq'.trans heq, hlength'.trans hlength⟩

theorem Twins.grows (h : Twins o s t) : Grows o s t where
  entries tokenId := by
    rw [h.agrees.entries]
  settlements := by
    rw [h.same]
    exact Kept.refl _
  heights tokenId := Or.inr ⟨h.heights tokenId, by rw [h.agrees.entries]⟩

theorem Accepted.grows {tokenId : Int} {argument : JsValue} {material : ProofMaterial}
    {now : Int} {c : CandidateEntry} {adapter : σ} (hs : s.Served)
    (hc : Accepted o s tokenId argument material now c)
    (hadvance : o.adapter.advanceHeight s.adapter tokenId material.remoteHeight = .ok adapter) :
    Grows o s (s.admitted tokenId c material.remoteHeight adapter) where
  entries other := by
    by_cases hother : other = tokenId
    · subst hother
      rw [admitted_entries, map_extend _ _ fun c => c]
      exact List.prefix_append _ _
    · rw [admitted_entries_of_ne s hother]
  settlements := (entered_records hs.records tokenId c adapter).2
  heights other := by
    simp only [admitted, entered_adapter, hc.heights hadvance other]
    by_cases hother : other = tokenId
    · subst hother
      rw [if_pos rfl]
      exact Or.inl (checkProof_eq_ok.mp hc.proof).2.2.1
    · rw [if_neg hother]
      exact Or.inr ⟨rfl, congrArg List.length (admitted_entries_of_ne s hother c 0 adapter)⟩

theorem Served.grows (h : s.Served) (engine : SettlementEngine) (call : ServiceCall o) :
    Grows o s (serveStep engine o s call) := by
  have hkept := h.kept engine call
  have heffect := serve_effect engine h.valid call
  unfold serveStep at hkept ⊢
  generalize (serve engine o s call).1 = t at heffect hkept ⊢
  generalize mutated (serve engine o s call).2 = answered at heffect
  cases heffect with
  | unchanged => exact .refl s
  | moved move hmove =>
      exact ⟨fun _ => List.prefix_refl _, hkept, fun tokenId => Or.inr ⟨hmove _ tokenId, rfl⟩⟩
  | begun hbegins hwritable hfree =>
      exact ⟨fun _ => List.prefix_refl _, hkept, fun _ => Or.inr ⟨rfl, rfl⟩⟩
  | finalized hassert hc hadvance => exact hc.grows h hadvance
  | cancelled hcheck hwritable hopen =>
      exact ⟨fun _ => List.prefix_refl _, hkept, fun _ => Or.inr ⟨rfl, rfl⟩⟩
  | posted htoken hparsed hassert hc hadvance => exact hc.grows h hadvance
  | direct hc hadvance => exact hc.grows h hadvance

end ProjectionStore

/-! ## What a process leaves -/

namespace Running

variable {engine : SettlementEngine} {o : StoreConfig σ} {p : Running σ}

/-- What a call leaves of a process whose file holds its journal. -/
theorem serves_holds
    (hworded : p.store.Worded)
    (hholds : p.journal.Holds (boundLines (identity o) p.store.journal.records))
    (call : ServiceCall o) :
    (p.serves engine call).journal.Holds
      (boundLines (identity o) (p.serves engine call).store.journal.records) := by
  rcases (hworded.serves engine call).2 with hsame | ⟨record, hplain, happend⟩
  · simp only [serves, appended_of_same hsame, hsame]
    exact hholds
  · simp only [serves, appended_of_append happend, happend]
    exact hholds.appends fun r hr => by
      rw [List.mem_singleton.mp hr]
      exact hplain

/-- What a process leaves that dies over a call: the file of the store that survives it. -/
theorem dies_holds (hworded : p.store.Worded)
    (hholds : p.journal.Holds (boundLines (identity o) p.store.journal.records))
    (call : ServiceCall o) (crash : Crash) :
    Holds (boundLines (identity o) (p.survives engine call crash).journal.records)
      (p.dies engine call crash) := by
  rcases (hworded.serves engine call).2 with hsame | ⟨record, hplain, happend⟩
  · simp only [dies, survives, appended_of_same hsame]
    exact hholds.file
  · have hcrashed := hholds.writeCrashed (Json.isAscii_stringify hplain.ascii) crash
    simp only [dies, survives, appended_of_append happend]
    split at hcrashed
    next hwhole =>
      rw [if_pos hwhole, happend]
      rw [← boundLines_concat] at hcrashed
      exact hcrashed
    next hwhole =>
      rw [if_neg hwhole]
      exact hcrashed

/-- A store that a call may have been served on. -/
theorem survives_eq (p : Running σ) (engine : SettlementEngine) (call : ServiceCall o)
    (crash : Crash) :
    p.survives engine call crash = p.store ∨
      p.survives engine call crash = serveStep engine o p.store call := by
  unfold survives
  split
  next => exact Or.inl rfl
  next =>
    split
    next => exact Or.inr rfl
    next => exact Or.inl rfl

end Running

/-! ## What a file accounts for -/

namespace Surveyed

variable {engine : SettlementEngine} {options : StoreOptions σ} {o : StoreConfig σ} {fresh : σ}
  {x : Surveyed σ}

/-- The file holds the journal of the durable store, and a process on the file has that store. -/
structure Sound (o : StoreConfig σ) (fresh : σ) (x : Surveyed σ) : Prop where
  durable : Durable o fresh x.durable
  recovered : Recovered (identity o) x.durable.journal.records x.site.file
  live : ∀ p, x.site.live = some p → p.store = x.durable ∧ p.journal.file = x.site.file ∧
    p.journal.Holds (boundLines (identity o) x.durable.journal.records)

theorem Sound.start (o : StoreConfig σ) (fresh : σ) : (start o fresh).Sound o fresh where
  durable := .initial o fresh
  recovered := Or.inr ⟨rfl, Holds.missing⟩
  live _ hp := by cases hp

theorem Sound.journal_eq (h : x.Sound o fresh) :
    x.durable.journal = ⟨some (identity o), x.durable.journal.records⟩ := by
  rw [← (h.durable.journaled fresh fun _ => rfl).identity]

/-- The journal of the durable store, as it is read from the file. A file that was never bound
reads as one without an identity. -/
theorem Sound.reads (h : x.Sound o fresh) :
    ∃ read content, (FileJournal.new x.site.file).read = .ok read ∧ read.content = some content ∧
      (content = x.durable.journal ∨
        x.durable.journal.records = [] ∧ content = JournalContent.empty) := by
  rcases h.recovered with hbound | ⟨hnil, hunbound⟩
  · obtain ⟨torn, hread⟩ := hbound.new.read_bound h.durable.plain
    refine ⟨_, x.durable.journal, hread, ?_, Or.inl rfl⟩
    rw [h.journal_eq]
    simp only [JournalRead.content, identityOf_toJson,
      mapM_recordOf fun r hr => (h.durable.plain r hr).declared]
    rfl
  · obtain ⟨torn, hread⟩ := hunbound.new.read_unbound
    exact ⟨_, JournalContent.empty, hread, rfl, Or.inr ⟨hnil, rfl⟩⟩

/-- A journal that nothing was written to is restored as one that was only bound. -/
theorem restore_empty (hconfigure : configure options = .ok o) (adapter : σ) :
    restoreProjectionStore options adapter JournalContent.empty =
      restoreProjectionStore options adapter ⟨some (identity o), []⟩ := by
  have hbound : ProjectionStore.new options adapter ⟨some (identity o), []⟩ =
      .ok (o, initial adapter ⟨some (identity o), []⟩) := new_of_bound hconfigure rfl
  have hempty : ProjectionStore.new options adapter JournalContent.empty =
      .ok (o, initial adapter ⟨some (identity o), []⟩) := by
    simp only [ProjectionStore.new, hconfigure, bind, Except.bind]
    rfl
  simp only [restoreProjectionStore, hempty, hbound]
  rfl

/-- Opening the file succeeds, and gives the durable store over the new adapter. -/
theorem Sound.opens (h : x.Sound o fresh) (hconfigure : configure options = .ok o)
    (hidentity : (identity o).Plain) {adapter : σ}
    (hadapter : Lifetimes.SameHeights o adapter fresh) :
    ∃ opened, openStore options adapter x.site.file = (opened.journal.file, .ok opened) ∧
      opened.result.applied = x.durable.journal.records.length ∧
      Twins o x.durable opened.result.store ∧
      opened.journal.Holds (boundLines (identity o) x.durable.journal.records) := by
  obtain ⟨read, content, hread, hcontent, hjournal⟩ := h.reads
  obtain ⟨j, hbind, hj⟩ := h.recovered.bind hidentity h.durable.plain
  have hjournaled := h.durable.journaled adapter hadapter
  obtain ⟨restored, hreplay, htwins⟩ := hjournaled.twins
  have hrestore : restoreProjectionStore options adapter x.durable.journal =
      .ok ⟨o, restored, x.durable.journal.records.length⟩ := by
    simp only [restoreProjectionStore, new_of_bound hconfigure hjournaled.identity, bind,
      Except.bind, hreplay]
    rfl
  have hrestored : restoreProjectionStore options adapter content =
      .ok ⟨o, restored, x.durable.journal.records.length⟩ := by
    rcases hjournal with rfl | ⟨hnil, rfl⟩
    · exact hrestore
    · rw [restore_empty hconfigure, ← hrestore, h.journal_eq, hnil]
  have hfile : bindFile options x.site.file = .ok (read, content, j) := by
    simp only [bindFile, hread, hcontent, hconfigure, hbind, bind, Except.bind]
    rfl
  refine ⟨⟨⟨o, restored, x.durable.journal.records.length⟩, j, read.truncatedTail⟩, ?_, rfl,
    htwins, hj⟩
  simp only [openStore, hfile, hrestored]
  rfl

/-! ### One event -/

/-- A process that starts has an adapter that accepted what a fresh one has. -/
def Fresh (o : StoreConfig σ) (fresh : σ) : SiteEvent o → Prop
  | .start adapter => Lifetimes.SameHeights o adapter fresh
  | _ => True

theorem Sound.step (h : x.Sound o fresh) (hconfigure : configure options = .ok o)
    (hidentity : (identity o).Plain) {event : SiteEvent o} (hfresh : Fresh o fresh event) :
    (x.step engine options event).Sound o fresh := by
  cases event with
  | start adapter =>
      obtain ⟨opened, hopen, _, htwins, hholds⟩ := h.opens hconfigure hidentity hfresh
      have hjournal : opened.result.store.journal = x.durable.journal := by rw [htwins.same]
      simp only [Surveyed.step, Site.step, hopen]
      refine ⟨h.durable.twin htwins, ?_, fun p hp => ?_⟩
      · rw [hjournal]
        exact Or.inl hholds.file
      · cases hp
        rw [hjournal]
        exact ⟨rfl, rfl, hholds⟩
  | diesStarting crash =>
      have hleft := h.recovered.leaves (l := .diesBinding crash) hidentity h.durable.plain
        (List.forall_mem_nil _)
      rw [Lifetime.written, Lifetime.acknowledged, Lifetime.survivor, List.append_nil,
        List.append_nil] at hleft
      exact ⟨h.durable, hleft, fun p hp => by cases hp⟩
  | serves call =>
      simp only [Surveyed.step, Site.step]
      cases hlive : x.site.live with
      | none => exact h
      | some p =>
          obtain ⟨hstore, _, hholds⟩ := h.live p hlive
          rw [← hstore] at hholds
          have hserved : (p.serves engine call).journal.Holds (boundLines (identity o)
              (p.serves engine call).store.journal.records) :=
            Running.serves_holds (hstore ▸ h.durable.worded) hholds call
          refine ⟨?_, Or.inl hserved.file, fun q hq => ?_⟩
          · simp only [Running.serves, hstore]
            exact h.durable.serves engine call
          · cases hq
            exact ⟨rfl, rfl, hserved⟩
  | diesServing call crash =>
      simp only [Surveyed.step, Site.step]
      cases hlive : x.site.live with
      | none => exact h
      | some p =>
          obtain ⟨hstore, _, hholds⟩ := h.live p hlive
          rw [← hstore] at hholds
          refine ⟨?_, Or.inl (Running.dies_holds (hstore ▸ h.durable.worded) hholds call crash),
            fun p hp => by cases hp⟩
          change Durable o fresh (p.survives engine call crash)
          rcases p.survives_eq engine call crash with heq | heq
          · rw [heq, hstore]
            exact h.durable
          · rw [heq, hstore]
            exact h.durable.serves engine call
  | stops => exact ⟨h.durable, h.recovered, fun p hp => by cases hp⟩

/-- Every process of a run starts over an adapter that accepted what a fresh one has. -/
def FreshStarts (o : StoreConfig σ) (fresh : σ) (events : List (SiteEvent o)) : Prop :=
  ∀ adapter, .start adapter ∈ events → Lifetimes.SameHeights o adapter fresh

theorem FreshStarts.admissible {events : List (SiteEvent o)} (h : FreshStarts o fresh events)
    (x : Surveyed σ) :
    LabelledRun.Admissible (step engine options) (fun _ event => Fresh o fresh event) x events := by
  apply LabelledRun.admissible_of_forall
  intro event hevent _
  cases event with
  | start adapter => exact h adapter hevent
  | _ => trivial

theorem Sound.run (h : x.Sound o fresh) (hconfigure : configure options = .ok o)
    (hidentity : (identity o).Plain) {events : List (SiteEvent o)}
    (hevents : FreshStarts o fresh events) :
    (LabelledRun.run (Surveyed.step engine options) x events).Sound o fresh :=
  LabelledRun.admissible_invariant _ (Surveyed.Sound o fresh)
    (fun _ _ h hfresh => h.step hconfigure hidentity hfresh) h (hevents.admissible x)

/-- After any run of processes, some of which died while they bound the file or during the
append of a call, the file can be opened over every adapter as fresh as theirs. The store it is
restored to answers as the durable one: with every call that was served, and every call that
died with its record whole on the file; nothing else is on the file, and a process still
running has just that store. -/
theorem run_survives (engine : SettlementEngine) (options : StoreOptions σ) (o : StoreConfig σ)
    (fresh : σ) (hconfigure : configure options = .ok o) (hidentity : (identity o).Plain)
    (events : List (SiteEvent o)) (hevents : FreshStarts o fresh events) :
    let x := LabelledRun.run (Surveyed.step engine options) (Surveyed.start o fresh) events
    (∀ p, x.site.live = some p → p.store = x.durable) ∧
      ∀ adapter, Lifetimes.SameHeights o adapter fresh →
        ∃ opened, openStore options adapter x.site.file = (opened.journal.file, .ok opened) ∧
          opened.result.applied = x.durable.journal.records.length ∧
          Agrees o x.durable opened.result.store := by
  intro x
  have h : x.Sound o fresh := (Sound.start o fresh).run hconfigure hidentity hevents
  refine ⟨fun p hp => (h.live p hp).1, fun adapter hadapter => ?_⟩
  obtain ⟨opened, hopen, happlied, htwins, _⟩ := h.opens hconfigure hidentity hadapter
  exact ⟨opened, hopen, happlied, htwins.agrees⟩

/-! ### A service that dies over a finalization, and again over its next start -/

section Dying

/-- The gap is opened; the process dies with the record of the finalization cut short, the next
one while it binds, and a third one finalizes. -/
def diesFinalizing : List (SiteEvent memoryConfig) :=
  [.start Lifetimes.freshChain,
    .serves (.begin ⟨1, word '5', zeroAddress, firstCandidate.holder, word '6', 200⟩ 50),
    .diesServing (.finalize (word '5') firstCandidate.toJs ⟨"trusting", 5, .null⟩ 60 60)
      (.writing 9),
    .diesStarting (.truncating 4), .start Lifetimes.freshChain,
    .serves (.finalize (word '5') firstCandidate.toJs ⟨"trusting", 5, .null⟩ 70 70)]

theorem diesFinalizing_fresh : FreshStarts memoryConfig Lifetimes.freshChain diesFinalizing := by
  intro adapter hadapter
  simp only [diesFinalizing, List.mem_cons, SiteEvent.start.injEq, reduceCtorEq, List.not_mem_nil,
    or_false, false_or] at hadapter
  rcases hadapter with rfl | rfl
  · exact fun _ => rfl
  · exact fun _ => rfl

theorem memoryConfig_plain : (identity memoryConfig).Plain := by
  unfold JournalIdentity.Plain
  decide +kernel

/-- Both calls that were served are on the file. -/
theorem run_survives_dying :
    let x := LabelledRun.run (Surveyed.step oneAuthority memoryOptions)
      (Surveyed.start memoryConfig Lifetimes.freshChain) diesFinalizing
    x.durable.journal.records.length = 2 ∧
      (∀ p, x.site.live = some p → p.store = x.durable) ∧
      ∀ adapter, Lifetimes.SameHeights memoryConfig adapter Lifetimes.freshChain →
        ∃ opened, openStore memoryOptions adapter x.site.file =
            (opened.journal.file, .ok opened) ∧
          opened.result.applied = x.durable.journal.records.length ∧
          Agrees memoryConfig x.durable opened.result.store :=
  ⟨by decide +kernel, run_survives oneAuthority memoryOptions memoryConfig Lifetimes.freshChain rfl
    memoryConfig_plain diesFinalizing diesFinalizing_fresh⟩

end Dying

/-! ### Nothing is taken back -/

theorem Sound.grows (h : x.Sound o fresh) (hconfigure : configure options = .ok o)
    (hidentity : (identity o).Plain) {event : SiteEvent o} (hfresh : Fresh o fresh event) :
    Grows o x.durable (x.step engine options event).durable := by
  have hserved := h.durable.worded.served
  cases event with
  | start adapter =>
      obtain ⟨opened, hopen, _, htwins, _⟩ := h.opens hconfigure hidentity hfresh
      simp only [Surveyed.step, hopen]
      exact htwins.grows
  | diesStarting crash => exact .refl _
  | serves call =>
      simp only [Surveyed.step]
      cases hlive : x.site.live with
      | none => exact .refl _
      | some p =>
          simp only [Running.serves, (h.live p hlive).1]
          exact hserved.grows engine call
  | diesServing call crash =>
      simp only [Surveyed.step]
      cases hlive : x.site.live with
      | none => exact .refl _
      | some p =>
          change Grows o x.durable (p.survives engine call crash)
          rcases p.survives_eq engine call crash with heq | heq
          · rw [heq, (h.live p hlive).1]
            exact .refl _
          · rw [heq, (h.live p hlive).1]
            exact hserved.grows engine call
  | stops => exact .refl _

/-- Across crashes and restarts nothing that a file accounted for is taken back: from any state
of a run to any later one, every token's entries are only followed by more, every settlement
keeps its fields and closes at most once, and the accepted height of a token never falls and
rises whenever the token has a new entry. -/
theorem run_grows (engine : SettlementEngine) (options : StoreOptions σ) (o : StoreConfig σ)
    (fresh : σ) (hconfigure : configure options = .ok o) (hidentity : (identity o).Plain)
    (events more : List (SiteEvent o)) (hevents : FreshStarts o fresh (events ++ more)) :
    Grows o
      (LabelledRun.run (Surveyed.step engine options) (Surveyed.start o fresh) events).durable
      (LabelledRun.run (Surveyed.step engine options) (Surveyed.start o fresh)
        (events ++ more)).durable := by
  rw [LabelledRun.run_append]
  have hfirst : FreshStarts o fresh events :=
    fun adapter hadapter => hevents adapter (List.mem_append_left _ hadapter)
  have hmore : FreshStarts o fresh more :=
    fun adapter hadapter => hevents adapter (List.mem_append_right _ hadapter)
  have h : (LabelledRun.run (Surveyed.step engine options) (Surveyed.start o fresh) events).Sound
      o fresh := (Sound.start o fresh).run hconfigure hidentity hfirst
  exact LabelledRun.admissible_relates _ (Surveyed.Sound o fresh)
    (fun x y => Grows o x.durable y.durable) (fun _ => .refl _) (fun _ _ _ => Grows.trans)
    (fun _ _ h hfresh => h.step hconfigure hidentity hfresh)
    (fun _ _ h hfresh => h.grows hconfigure hidentity hfresh) h (hmore.admissible _)

theorem run_grows_dying :
    Grows memoryConfig
      (LabelledRun.run (Surveyed.step oneAuthority memoryOptions)
        (Surveyed.start memoryConfig Lifetimes.freshChain) (diesFinalizing.take 3)).durable
      (LabelledRun.run (Surveyed.step oneAuthority memoryOptions)
        (Surveyed.start memoryConfig Lifetimes.freshChain)
        (diesFinalizing.take 3 ++ diesFinalizing.drop 3)).durable :=
  run_grows oneAuthority memoryOptions memoryConfig Lifetimes.freshChain rfl memoryConfig_plain _ _
    (by rw [List.take_append_drop]; exact diesFinalizing_fresh)

end Surveyed

end Erc8415
