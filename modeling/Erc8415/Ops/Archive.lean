import Erc8415.Ops.AuditExport
import Erc8415.Persistence.FileJournal
import Erc8415.Projection.Finality

/-! # An archive of the audit export

The export as newline-delimited JSON, and what can be read of it. Every integer is
written as a decimal string, so a reader that knows nothing of the store finds the
entries of every token and the settlements of those that have one, and answers from
them what the store answers.
-/

namespace Erc8415

variable {σ : Type}

/-! ## Writing -/

def AuditType.text : AuditType → String
  | entry => "entry"
  | settlement => "settlement"

/-- A record as the object it is. -/
def AuditRecord.toJson (record : AuditRecord) : Json :=
  .object [
    ("type", .string record.type.text),
    ("tenantId", .string record.tenantId),
    ("registerId", .string record.registerId),
    ("tokenId", .string record.tokenId),
    ("at", .string record.at),
    ("detail", .object (record.detail.map fun field => (field.1, .string field.2)))]

def toNdjson (records : List AuditRecord) : List Char :=
  ['\n'].intercalate (records.map fun record => Json.stringify record.toJson)

/-! ## Reading -/

namespace Archive

/-- A property that is the text of an integer. -/
def integerField (value : Json) (name : String) : Option Int :=
  (textField value name).bind BigIntText.parse

def entryOf (detail : Json) : Option ProjectionEntry := do
  return {
    recordCommitment := ← textField detail "recordCommitment"
    previousCommitment := ← textField detail "previousCommitment"
    registryReference := ← textField detail "registryReference"
    holder := ← textField detail "holder"
    version := ← integerField detail "version"
    effectiveAt := ← integerField detail "effectiveAt"
    supersededAt := ← integerField detail "supersededAt" }

def settlementOf (tokenId : Int) (detail : Json) : Option Settlement := do
  return {
    settlementId := ← textField detail "settlementId"
    tokenId := tokenId
    initiator := ← textField detail "initiator"
    expectedHolder := ← textField detail "expectedHolder"
    snapshotHash := ← textField detail "snapshotHash"
    openedAt := ← integerField detail "openedAt"
    deadline := ← integerField detail "deadline"
    status := GapStatus.ofText (← textField detail "status") }

/-- What one line is about. -/
def itemOf (line : Json) : Option AuditItem := do
  let tokenId ← integerField line "tokenId"
  let detail ← line.get "detail"
  match ← textField line "type" with
  | "entry" => return .entry tokenId (← entryOf detail)
  | "settlement" => return .settlement (← settlementOf tokenId detail)
  | _ => none

/-- The lines of an archive. An empty one has none. -/
def read (text : List Char) : Option (List AuditItem) :=
  if text.isEmpty then some []
  else (text.splitOn '\n').mapM fun line => (Json.parse line).bind itemOf

end Archive

/-! ## Every line is read back -/

/-- A status of the declared union, which its text determines. -/
def GapStatus.Declared (status : GapStatus) : Prop := GapStatus.ofText status.text = status

def AuditItem.Declared : AuditItem → Prop
  | .entry _ _ => True
  | .settlement record => record.status.Declared

namespace Archive

variable (tenantId registerId : String)

theorem itemOf_render {item : AuditItem} (h : item.Declared) :
    itemOf (item.render tenantId registerId).toJson = some item := by
  cases item with
  | entry tokenId e =>
      simp [AuditItem.render, AuditRecord.ofEntry, AuditRecord.toJson, itemOf, integerField,
        textField, Json.get, List.lookup_cons, AuditType.text, entryOf]
  | settlement record =>
      simp only [AuditItem.Declared, GapStatus.Declared] at h
      simp [AuditItem.render, AuditRecord.ofSettlement, AuditRecord.toJson, itemOf, integerField,
        textField, Json.get, List.lookup_cons, AuditType.text, settlementOf, h]

theorem mapM_read {items : List AuditItem} (h : ∀ item ∈ items, item.Declared) :
    (items.map fun item => Json.stringify (item.render tenantId registerId).toJson).mapM
      (fun line => (Json.parse line).bind itemOf) = some items := by
  induction items with
  | nil => rfl
  | cons item rest ih =>
      have hitem := h item List.mem_cons_self
      rw [List.map_cons, List.mapM_cons, Json.parse_stringify, Option.bind_some,
        itemOf_render tenantId registerId hitem,
        ih fun item hmem => h item (List.mem_cons_of_mem _ hmem)]
      rfl

/-- A line has no newline in it, so the lines are found again. -/
theorem read_toNdjson {items : List AuditItem} (h : ∀ item ∈ items, item.Declared) :
    read (toNdjson (items.map (AuditItem.render tenantId registerId))) = some items := by
  cases items with
  | nil => rfl
  | cons item rest =>
      have hlines := mapM_read tenantId registerId h
      rw [read, toNdjson, List.map_map]
      rw [if_neg, List.splitOn_intercalate]
      · exact hlines
      · intro line hline
        obtain ⟨_, _, rfl⟩ := List.mem_map.mp hline
        exact Json.newline_not_mem_stringify _
      · exact List.cons_ne_nil _ _
      · intro hempty
        have hpos := Json.stringify_length_pos (item.render tenantId registerId).toJson
        rw [List.isEmpty_iff] at hempty
        cases rest with
        | nil =>
            rw [List.map_singleton, List.intercalate_singleton, Function.comp_apply] at hempty
            rw [hempty] at hpos
            exact Nat.lt_irrefl _ hpos
        | cons next rest =>
            simp [List.intercalate] at hempty

end Archive

/-! ## Every run can be archived -/

namespace ProjectionStore

variable {o : StoreConfig σ} {s t : ProjectionStore σ}

/-- Every recorded settlement has a status of the union. -/
def Stated (s : ProjectionStore σ) : Prop :=
  ∀ id r, s.settlements.get id = some r → r.status.Declared

theorem Stated.entered (h : s.Stated) (tokenId : Int) (c : CandidateEntry) (adapter : σ) :
    (s.entered tokenId c adapter).Stated := by
  unfold Stated
  rw [entered_settlements]
  cases s.openGaps.get (key tokenId) with
  | none => exact h
  | some id => exact InsertionMap.forall_set h rfl

theorem Effect.stated (h : s.Stated) {append : Option Thrown} {m : Mutation}
    {answer : Except Thrown StoreAnswer} (heffect : Effect o s append m t answer)
    (hfresh : Unrecorded s m) : t.Stated := by
  cases heffect with
  | refused => exact h
  | @admitted tokenId _ _ _ c adapter => exact h.entered tokenId c adapter
  | opened => exact InsertionMap.forall_set h rfl
  | cancelled => exact InsertionMap.forall_set h rfl
  | unopened =>
      unfold Stated
      rw [InsertionMap.delete_set_of_get_none hfresh]
      exact h
  | uncancelled => exact h
  | unadmitted => exact h
  | @stranded tokenId _ _ _ _ c adapter => exact h.entered tokenId c adapter

theorem run_stated (o : StoreConfig σ) (adapter : σ) (journal : JournalContent)
    (calls : List (WriterCall o)) :
    (LabelledRun.run (writerStep o) (initial adapter journal) calls).Stated :=
  ((Filed.initial adapter journal).run_invariant Stated (fun _ _ _ h => h)
    (fun _ _ _ _ _ _ heffect hfresh h => heffect.stated h hfresh)
    (by simp [Stated, ProjectionStore.initial]) calls).2

/-- What an archive of a store says, once its lines are read. -/
structure Archived (s : ProjectionStore σ) (items : List AuditItem) : Prop where
  nodup : items.Nodup
  entries : ∀ tokenId, items.filterMap (AuditItem.entryOf tokenId) = s.entries tokenId
  settlements : ∀ r, AuditItem.settlement r ∈ items ↔
    (s.settlement r.settlementId).status ≠ .none ∧ s.settlement r.settlementId = r ∧
      s.entries r.tokenId ≠ []
  final : ∀ tokenId instant, s.isFinalAsOf tokenId instant = true ↔
    Final (items.filterMap (AuditItem.entryOf tokenId)) instant
  entryAsOf : ∀ tokenId instant e, s.entryCount tokenId < searchBound →
    (s.entryAsOf tokenId instant = some (.ok e) ↔
      resolve (items.filterMap (AuditItem.entryOf tokenId)) instant = some e)

/-- The entries of every token are found, of one that is not listed none. -/
theorem Filed.filterMap_exportItems (h : s.Filed) {tokens : List Int} (hnodup : tokens.Nodup)
    (htokens : ∀ t, t ∈ tokens ↔ s.entries t ≠ []) (tokenId : Int) :
    (s.exportItems tokens).filterMap (AuditItem.entryOf tokenId) = s.entries tokenId := by
  by_cases hmem : tokenId ∈ tokens
  · exact h.entries_exportItems hnodup hmem
  · have hperm := (List.mergeSort_perm (tokens.flatMap s.itemsOf) fun a b =>
      a.Precedes b).filterMap (AuditItem.entryOf tokenId)
    rw [filterMap_entryOf s hnodup, if_neg hmem] at hperm
    rw [not_not.mp (mt (htokens tokenId).mpr hmem)]
    exact hperm.eq_nil

theorem Filed.archived (h : s.Filed) {tokens : List Int} (hnodup : tokens.Nodup)
    (htokens : ∀ t, t ∈ tokens ↔ s.entries t ≠ []) : Archived s (s.exportItems tokens) := by
  have hentries := h.filterMap_exportItems hnodup htokens
  refine ⟨h.nodup_exportItems hnodup, hentries, ?_, ?_, ?_⟩
  · intro r
    rw [settlement_mem_exportItems, htokens]
    constructor
    · rintro ⟨⟨id, hget⟩, hne⟩
      have hr := settlement_of_get hget
      rw [(h.filed id r hget).1, hr]
      exact ⟨(h.filed id r hget).2, rfl, hne⟩
    · rintro ⟨hstatus, heq, hne⟩
      exact ⟨⟨r.settlementId, by rw [h.status_ne_none_iff.mp hstatus, heq]⟩, hne⟩
  · intro tokenId instant
    rw [hentries]
    exact h.valid.isFinalAsOf_iff tokenId instant
  · intro tokenId instant e hbound
    rw [hentries]
    exact h.valid.entryAsOf_eq_ok hbound

/-- After any run, the text of the export is read back as the entries of every token and the
settlements of those that have one, and answers as the store. -/
theorem run_archived (tenantId : String) (o : StoreConfig σ) (adapter : σ)
    (journal : JournalContent) (calls : List (WriterCall o)) :
    let s := LabelledRun.run (writerStep o) (initial adapter journal) calls
    ∃ records items, exportAudit tenantId o s none = some records ∧
      Archive.read (toNdjson records) = some items ∧ Archived s items := by
  intro s
  have h : s.Filed := (Filed.initial adapter journal).run calls
  obtain ⟨tokens, htokens, hnodup, hmem⟩ := h.valid.tokens
  have hexport : exportAudit tenantId o s none =
      some ((s.exportItems tokens).map (AuditItem.render tenantId o.registerId)) := by
    rw [← exportAudit_eq]
    simp only [exportAudit, htokens]
    rfl
  have hdeclared : ∀ item ∈ s.exportItems tokens, item.Declared := by
    intro item hitem
    cases item with
    | entry => trivial
    | settlement r =>
        obtain ⟨⟨id, hget⟩, _⟩ := settlement_mem_exportItems.mp hitem
        exact run_stated o adapter journal calls id r hget
  exact ⟨_, _, hexport, Archive.read_toNdjson tenantId o.registerId hdeclared,
    h.archived hnodup hmem⟩

end ProjectionStore

end Erc8415
