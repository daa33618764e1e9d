import Erc8415.Projection.Representation
import Erc8415.Settlement.Writers

/-! # The audit export

Everything a store holds, as one list of records in the order of token, time and
type. The export walks the tokens that have an entry, so a settlement opened
before its token's first entry is left out until there is one.
-/

namespace Erc8415

variable {σ : Type}

/-! ## The export -/

inductive AuditType where
  | entry
  | settlement
  deriving DecidableEq, Repr

/-- `localeCompare` on the names of two types. -/
def AuditType.localeCompare : AuditType → AuditType → Ordering
  | .entry, .settlement => .lt
  | .settlement, .entry => .gt
  | .entry, .entry | .settlement, .settlement => .eq

structure AuditRecord where
  type : AuditType
  tenantId : String
  registerId : String
  tokenId : String
  «at» : String
  detail : List (String × String)
  deriving DecidableEq, Repr

namespace AuditRecord

/-- `BigInt` of a text that a record was given for an integer. -/
def bigInt (text : String) : Int := (BigIntText.parse text).getD 0

/-- The comparator records are sorted by. -/
def compare (a b : AuditRecord) : Ordering :=
  if a.tokenId ≠ b.tokenId then
    if bigInt a.tokenId < bigInt b.tokenId then .lt else .gt
  else
    let left := bigInt a.at
    let right := bigInt b.at
    if left ≠ right then
      if left < right then .lt else .gt
    else a.type.localeCompare b.type

def ofEntry (tenantId registerId : String) (tokenId : Int) (entry : ProjectionEntry) :
    AuditRecord where
  type := .entry
  tenantId := tenantId
  registerId := registerId
  tokenId := toString tokenId
  «at» := toString entry.effectiveAt
  detail :=
    [("version", toString entry.version),
      ("holder", entry.holder),
      ("effectiveAt", toString entry.effectiveAt),
      ("supersededAt", toString entry.supersededAt),
      ("recordCommitment", entry.recordCommitment),
      ("previousCommitment", entry.previousCommitment),
      ("registryReference", entry.registryReference)]

def ofSettlement (tenantId registerId : String) (tokenId : Int) (record : Settlement) :
    AuditRecord where
  type := .settlement
  tenantId := tenantId
  registerId := registerId
  tokenId := toString tokenId
  «at» := toString record.openedAt
  detail :=
    [("settlementId", record.settlementId),
      ("status", record.status.text),
      ("initiator", record.initiator),
      ("expectedHolder", record.expectedHolder),
      ("snapshotHash", record.snapshotHash),
      ("openedAt", toString record.openedAt),
      ("deadline", toString record.deadline)]

end AuditRecord

/-- Export the given tokens, or every token of the store. `none` where listing them throws. -/
def exportAudit (tenantId : String) (o : StoreConfig σ) (s : ProjectionStore σ)
    (tokenIds : Option (List Int)) : Option (List AuditRecord) := do
  let tokens ← tokenIds <|> s.tokens
  let records := tokens.flatMap fun tokenId =>
    (s.entries tokenId).map (AuditRecord.ofEntry tenantId o.registerId tokenId) ++
      (s.settlementsFor tokenId).map (AuditRecord.ofSettlement tenantId o.registerId tokenId)
  return records.mergeSort fun a b => a.compare b ≠ .gt

/-! ## What is exported -/

/-- What one record of an export is about. -/
inductive AuditItem where
  | entry (tokenId : Int) (entry : ProjectionEntry)
  | settlement (record : Settlement)
  deriving DecidableEq, Repr

namespace AuditItem

def tokenId : AuditItem → Int
  | .entry tokenId _ => tokenId
  | .settlement record => record.tokenId

def «at» : AuditItem → Int
  | .entry _ e => e.effectiveAt
  | .settlement record => record.openedAt

/-- Entries come before settlements. -/
def rank : AuditItem → Nat
  | .entry _ _ => 0
  | .settlement _ => 1

/-- By token, then by time, then entries first. -/
def Precedes (a b : AuditItem) : Prop :=
  a.tokenId < b.tokenId ∨
    a.tokenId = b.tokenId ∧ (a.at < b.at ∨ a.at = b.at ∧ a.rank ≤ b.rank)

instance (a b : AuditItem) : Decidable (a.Precedes b) :=
  inferInstanceAs (Decidable (_ ∨ _))

/-- The entry an item is about, if it is one of the token. -/
def entryOf (tokenId : Int) : AuditItem → Option ProjectionEntry
  | .entry tokenId' e => if tokenId' = tokenId then some e else none
  | .settlement _ => none

/-- The record an item is exported as. -/
def render (tenantId registerId : String) : AuditItem → AuditRecord
  | .entry tokenId e => .ofEntry tenantId registerId tokenId e
  | .settlement record => .ofSettlement tenantId registerId record.tokenId record

theorem Precedes.trans {a b c : AuditItem} (h : a.Precedes b) (h' : b.Precedes c) :
    a.Precedes c := by
  unfold Precedes at *
  omega

theorem Precedes.total (a b : AuditItem) : a.Precedes b ∨ b.Precedes a := by
  unfold Precedes
  omega

theorem Precedes.at_le {a b : AuditItem} (h : a.Precedes b) (htoken : a.tokenId = b.tokenId) :
    a.at ≤ b.at := by
  unfold Precedes at h
  omega

theorem eq_entry_of_entryOf {tokenId : Int} {a : AuditItem} {e : ProjectionEntry}
    (h : a.entryOf tokenId = some e) : a = .entry tokenId e := by
  cases a with
  | entry tokenId' e' =>
      simp only [entryOf, Option.ite_none_right_eq_some, Option.some.injEq] at h
      rw [h.1, h.2]
  | settlement r => cases h

theorem localeCompare_render (tenantId registerId : String) (a b : AuditItem) :
    (a.render tenantId registerId).type.localeCompare (b.render tenantId registerId).type ≠ .gt ↔
      a.rank ≤ b.rank := by
  cases a <;> cases b <;> simp [render, AuditRecord.ofEntry, AuditRecord.ofSettlement,
    AuditType.localeCompare, rank]

@[simp] theorem render_tokenId (tenantId registerId : String) (a : AuditItem) :
    (a.render tenantId registerId).tokenId = toString a.tokenId := by
  cases a <;> rfl

@[simp] theorem render_at (tenantId registerId : String) (a : AuditItem) :
    (a.render tenantId registerId).at = toString a.at := by
  cases a <;> rfl

/-- The comparator orders two records as what they are about. -/
theorem compare_render (tenantId registerId : String) (a b : AuditItem) :
    (a.render tenantId registerId).compare (b.render tenantId registerId) ≠ .gt ↔
      a.Precedes b := by
  unfold AuditRecord.compare Precedes AuditRecord.bigInt
  simp only [render_tokenId, render_at, BigIntText.parse_toString, Option.getD_some, ne_eq,
    BigIntText.toString_inj]
  by_cases htoken : a.tokenId = b.tokenId
  · by_cases hat : a.at = b.at
    · rw [if_neg (by simpa using htoken), if_neg (by simpa using hat), ← ne_eq,
        localeCompare_render]
      simp [htoken, hat]
    · by_cases hlt : a.at < b.at <;> simp [htoken, hat, hlt]
  · by_cases hlt : a.tokenId < b.tokenId <;> simp [htoken, hlt]

end AuditItem

/-! ## What was ever recorded -/

namespace ProjectionStore

variable {o : StoreConfig σ} {s t : ProjectionStore σ}

/-- A settlement that reads as recorded after some of the calls. -/
def EverRecorded (o : StoreConfig σ) (s : ProjectionStore σ) (calls : List (WriterCall o))
    (id : Bytes32) : Prop :=
  ∃ earlier later, calls = earlier ++ later ∧
    ((LabelledRun.run (writerStep o) s earlier).settlement id).status ≠ .none

/-- What was ever recorded is what is recorded now. -/
theorem Filed.everRecorded_iff (h : s.Filed) (calls : List (WriterCall o)) (id : Bytes32) :
    EverRecorded o s calls id ↔
      ((LabelledRun.run (writerStep o) s calls).settlement id).status ≠ .none := by
  constructor
  · rintro ⟨earlier, later, rfl, hstatus⟩
    have hmiddle := h.run (o := o) earlier
    have hkept := LabelledRun.run_relates (writerStep o) Filed
      (fun s t => ∀ id, (s.settlements.get id).isSome → (t.settlements.get id).isSome)
      (fun _ _ hid => hid) (fun _ _ _ hst htu id hid => htu id (hst id hid))
      (fun _ call hs => (hs.step call).1) (fun _ call hs => (hs.step call).2) hmiddle later id
    rw [LabelledRun.run_append, (hmiddle.run later).status_ne_none_iff]
    rw [hmiddle.status_ne_none_iff] at hstatus
    obtain ⟨r, hr⟩ := Option.isSome_iff_exists.mp (hkept (by rw [hstatus]; rfl))
    simp [settlement, hr]
  · intro hstatus
    exact ⟨calls, [], (List.append_nil calls).symm, hstatus⟩

/-! ## Completeness and order -/

/-- What an export lists of one token, entries first. -/
def itemsOf (s : ProjectionStore σ) (tokenId : Int) : List AuditItem :=
  (s.entries tokenId).map (.entry tokenId) ++ (s.settlementsFor tokenId).map .settlement

/-- What an export of some tokens lists. -/
def exportItems (s : ProjectionStore σ) (tokens : List Int) : List AuditItem :=
  (tokens.flatMap s.itemsOf).mergeSort fun a b => a.Precedes b

theorem mem_settlementsFor {tokenId : Int} {r : Settlement} :
    r ∈ s.settlementsFor tokenId ↔
      (∃ id, s.settlements.get id = some r) ∧ r.tokenId = tokenId := by
  unfold settlementsFor
  rw [List.mem_mergeSort, List.mem_filter, InsertionMap.mem_values, decide_eq_true_eq]

theorem tokenId_of_mem_itemsOf {tokenId : Int} {item : AuditItem}
    (h : item ∈ s.itemsOf tokenId) : item.tokenId = tokenId := by
  rcases List.mem_append.mp h with h | h
  · obtain ⟨e, _, rfl⟩ := List.mem_map.mp h
    rfl
  · obtain ⟨r, hr, rfl⟩ := List.mem_map.mp h
    exact (mem_settlementsFor.mp hr).2

/-- The export renders the sorted items: it sorts the texts as the items sort. -/
theorem exportAudit_eq (tenantId : String) (tokens : List Int) :
    exportAudit tenantId o s (some tokens) =
      some ((s.exportItems tokens).map (AuditItem.render tenantId o.registerId)) := by
  have hitems : (tokens.flatMap fun tokenId =>
      (s.entries tokenId).map (AuditRecord.ofEntry tenantId o.registerId tokenId) ++
        (s.settlementsFor tokenId).map (AuditRecord.ofSettlement tenantId o.registerId tokenId)) =
      (tokens.flatMap s.itemsOf).map (AuditItem.render tenantId o.registerId) := by
    rw [List.map_flatMap]
    apply List.flatMap_congr
    intro tokenId _
    rw [itemsOf, List.map_append, List.map_map, List.map_map]
    congr 1
    apply List.map_congr_left
    intro r hr
    obtain ⟨_, rfl⟩ := mem_settlementsFor.mp hr
    rfl
  unfold exportAudit exportItems
  rw [List.map_mergeSort (s := fun a b : AuditRecord => decide (a.compare b ≠ .gt))
    fun a _ b _ => decide_eq_decide.mpr (AuditItem.compare_render tenantId o.registerId a b).symm,
    ← hitems]
  rfl

theorem filterMap_entryOf_itemsOf (s : ProjectionStore σ) (tokenId tokenId' : Int) :
    (s.itemsOf tokenId').filterMap (AuditItem.entryOf tokenId) =
      if tokenId' = tokenId then s.entries tokenId else [] := by
  have hsettlements : AuditItem.entryOf tokenId ∘ AuditItem.settlement = fun _ => none := rfl
  rw [itemsOf, List.filterMap_append, List.filterMap_map, List.filterMap_map, hsettlements,
    List.filterMap_eq_nil_iff.mpr fun _ _ => rfl, List.append_nil]
  split
  next heq =>
    subst heq
    have hentries : AuditItem.entryOf tokenId' ∘ AuditItem.entry tokenId' = some := by
      funext e
      simp [AuditItem.entryOf]
    rw [hentries, List.filterMap_some]
  next hne =>
    apply List.filterMap_eq_nil_iff.mpr
    intro e _
    simp [AuditItem.entryOf, hne]

/-- Of the entries of one token, exactly its own are listed. -/
theorem filterMap_entryOf (s : ProjectionStore σ) {tokens : List Int} (hnodup : tokens.Nodup)
    (tokenId : Int) :
    (tokens.flatMap s.itemsOf).filterMap (AuditItem.entryOf tokenId) =
      if tokenId ∈ tokens then s.entries tokenId else [] := by
  induction tokens with
  | nil => rfl
  | cons head rest ih =>
      rw [List.nodup_cons] at hnodup
      rw [List.flatMap_cons, List.filterMap_append, ih hnodup.2, filterMap_entryOf_itemsOf]
      by_cases heq : head = tokenId
      · subst heq
        simp [hnodup.1]
      · simp [heq, Ne.symm heq]

theorem Filed.nodup_itemsOf (h : s.Filed) (tokenId : Int) : (s.itemsOf tokenId).Nodup := by
  have hentries : (s.entries tokenId).Nodup := by
    apply List.Nodup.of_map fun e => e.effectiveAt
    exact (h.valid.represented tokenId).ascending.imp Int.ne_of_lt
  have hsettlements : (s.settlementsFor tokenId).Nodup := by
    apply (List.mergeSort_perm _ _).nodup_iff.mpr
    exact (InsertionMap.nodup_values fun id r hr => (h.filed id r hr).1).filter _
  apply List.Nodup.append
  · exact hentries.map fun e e' heq => (AuditItem.entry.inj heq).2
  · exact hsettlements.map fun r r' heq => AuditItem.settlement.inj heq
  · intro item hentry hsettlement
    obtain ⟨e, _, rfl⟩ := List.mem_map.mp hentry
    obtain ⟨r, _, heq⟩ := List.mem_map.mp hsettlement
    cases heq

theorem Filed.nodup_exportItems (h : s.Filed) {tokens : List Int} (hnodup : tokens.Nodup) :
    (s.exportItems tokens).Nodup := by
  apply (List.mergeSort_perm _ _).nodup_iff.mpr
  rw [List.nodup_flatMap]
  refine ⟨fun tokenId _ => h.nodup_itemsOf tokenId, hnodup.imp ?_⟩
  intro tokenId tokenId' hne item hitem hitem'
  exact hne ((tokenId_of_mem_itemsOf hitem).symm.trans (tokenId_of_mem_itemsOf hitem'))

theorem sorted_exportItems (s : ProjectionStore σ) (tokens : List Int) :
    (s.exportItems tokens).Pairwise AuditItem.Precedes := by
  have htrans (a b c : AuditItem) (hab : decide (a.Precedes b)) (hbc : decide (b.Precedes c)) :
      decide (a.Precedes c) := by
    rw [decide_eq_true_eq] at *
    exact hab.trans hbc
  have htotal (a b : AuditItem) : decide (a.Precedes b) || decide (b.Precedes a) := by
    simpa using AuditItem.Precedes.total a b
  apply (List.pairwise_mergeSort htrans htotal (tokens.flatMap s.itemsOf)).imp
  intro a b h
  exact of_decide_eq_true h

/-- A token's entries are listed in their own order. -/
theorem Filed.entries_exportItems (h : s.Filed) {tokens : List Int} (hnodup : tokens.Nodup)
    {tokenId : Int} (hmem : tokenId ∈ tokens) :
    (s.exportItems tokens).filterMap (AuditItem.entryOf tokenId) = s.entries tokenId := by
  have hascending := (h.valid.represented tokenId).ascending
  have hperm := (List.mergeSort_perm (tokens.flatMap s.itemsOf) fun a b => a.Precedes b).filterMap
    (AuditItem.entryOf tokenId)
  rw [filterMap_entryOf s hnodup, if_pos hmem] at hperm
  have hlisted : ((s.exportItems tokens).filterMap (AuditItem.entryOf tokenId)).Pairwise
      fun e e' => e.effectiveAt ≤ e'.effectiveAt := by
    apply List.pairwise_filterMap.mpr
    apply (sorted_exportItems s tokens).imp
    intro a b hprecedes e he e' he'
    obtain ⟨rfl⟩ := AuditItem.eq_entry_of_entryOf he
    obtain ⟨rfl⟩ := AuditItem.eq_entry_of_entryOf he'
    exact hprecedes.at_le rfl
  have hheld : (s.entries tokenId).Pairwise fun e e' => e.effectiveAt ≤ e'.effectiveAt :=
    (List.pairwise_map.mp hascending).imp Int.le_of_lt
  apply hperm.eq_of_pairwise _ hlisted hheld
  intro e e' he he' hle hge
  have hinj := List.inj_on_of_nodup_map (hascending.imp Int.ne_of_lt)
  exact hinj (hperm.mem_iff.mp he) he' (Int.le_antisymm hle hge)

/-- What an export of a store should list, given which settlements were ever recorded:
every entry of every token once and in version order, every such settlement once as it
stands now, nothing else, and all of it in order. -/
structure AuditTrail (s : ProjectionStore σ) (recorded : Bytes32 → Prop)
    (items : List AuditItem) : Prop where
  nodup : items.Nodup
  entries : ∀ tokenId, items.filterMap (AuditItem.entryOf tokenId) = s.entries tokenId
  versions : ∀ tokenId, ((items.filterMap (AuditItem.entryOf tokenId)).map fun e =>
    e.version).Pairwise (· < ·)
  settlements : ∀ r, AuditItem.settlement r ∈ items ↔
    recorded r.settlementId ∧ s.settlement r.settlementId = r
  sorted : items.Pairwise AuditItem.Precedes

/-- A settlement is listed with the tokens that are. -/
theorem settlement_mem_exportItems {tokens : List Int} {r : Settlement} :
    AuditItem.settlement r ∈ s.exportItems tokens ↔
      (∃ id, s.settlements.get id = some r) ∧ r.tokenId ∈ tokens := by
  unfold exportItems itemsOf
  simp only [List.mem_mergeSort, List.mem_flatMap, List.mem_append, List.mem_map,
    reduceCtorEq, and_false, exists_false, false_or, AuditItem.settlement.injEq, exists_eq_right,
    mem_settlementsFor]
  constructor
  · rintro ⟨tokenId, hmem, hid, rfl⟩
    exact ⟨hid, hmem⟩
  · rintro ⟨hid, hmem⟩
    exact ⟨r.tokenId, hmem, hid, rfl⟩

/-- A settlement that is exported is one of a token with an entry. -/
theorem Filed.covered (h : s.Filed) {tenantId : String} {recorded : Bytes32 → Prop}
    {items : List AuditItem} (htrail : AuditTrail s recorded items)
    (hexport : exportAudit tenantId o s none =
      some (items.map (AuditItem.render tenantId o.registerId)))
    {id : Bytes32} (hrecorded : recorded id) : s.entries (s.settlement id).tokenId ≠ [] := by
  obtain ⟨tokens, htokens, _, hmem⟩ := h.valid.tokens
  have hall : exportAudit tenantId o s none = exportAudit tenantId o s (some tokens) := by
    simp only [exportAudit, htokens]
    rfl
  have hid := h.settlementId id
  have hitem : AuditItem.settlement (s.settlement id) ∈ items := by
    apply (htrail.settlements _).mpr
    rw [hid]
    exact ⟨hrecorded, rfl⟩
  -- Its record was written for some listed item, which is a settlement of the same token.
  rw [hall, exportAudit_eq, Option.some.injEq] at hexport
  have hrecord := List.mem_map_of_mem (f := AuditItem.render tenantId o.registerId) hitem
  rw [← hexport] at hrecord
  obtain ⟨item, hlisted, hrender⟩ := List.mem_map.mp hrecord
  have htoken : item.tokenId = (s.settlement id).tokenId := by
    apply BigIntText.toString_injective
    rw [← AuditItem.render_tokenId tenantId o.registerId item, hrender]
    rfl
  obtain ⟨tokenId, htokenId, hof⟩ := List.mem_flatMap.mp (List.mem_mergeSort.mp hlisted)
  rw [← htoken, tokenId_of_mem_itemsOf hof]
  exact (hmem tokenId).mp htokenId

/-- Exporting the tokens that have an entry lists what it should, once every recorded
settlement is one of such a token. -/
theorem Filed.auditTrail (h : s.Filed) {tokens : List Int} (hnodup : tokens.Nodup)
    (htokens : ∀ t, t ∈ tokens ↔ s.entries t ≠ [])
    (hcovered : ∀ id, (s.settlement id).status ≠ .none → s.entries (s.settlement id).tokenId ≠ []) :
    AuditTrail s (fun id => (s.settlement id).status ≠ .none) (s.exportItems tokens) := by
  have hentries (tokenId : Int) :
      (s.exportItems tokens).filterMap (AuditItem.entryOf tokenId) = s.entries tokenId := by
    by_cases hmem : tokenId ∈ tokens
    · exact h.entries_exportItems hnodup hmem
    · have hperm := (List.mergeSort_perm (tokens.flatMap s.itemsOf) fun a b =>
        a.Precedes b).filterMap (AuditItem.entryOf tokenId)
      rw [filterMap_entryOf s hnodup, if_neg hmem] at hperm
      rw [not_not.mp (mt (htokens tokenId).mpr hmem)]
      exact hperm.eq_nil
  refine ⟨h.nodup_exportItems hnodup, hentries, ?_, ?_, sorted_exportItems s tokens⟩
  · intro tokenId
    rw [hentries, (h.valid.represented tokenId).versions, List.pairwise_map]
    exact List.pairwise_lt_range.imp fun hlt => by omega
  · intro r
    rw [settlement_mem_exportItems, htokens]
    constructor
    · rintro ⟨⟨id, hget⟩, _⟩
      have hr := settlement_of_get hget
      rw [(h.filed id r hget).1, hr]
      exact ⟨(h.filed id r hget).2, rfl⟩
    · rintro ⟨hstatus, heq⟩
      have hcovers := hcovered _ hstatus
      rw [heq] at hcovers
      refine ⟨⟨r.settlementId, ?_⟩, hcovers⟩
      rw [h.status_ne_none_iff.mp hstatus, heq]

/-- After any run of calls, the export lists what it should exactly when no settlement was
ever recorded for a token that is still without an entry. -/
theorem run_audit_complete_iff (tenantId : String) (o : StoreConfig σ) (adapter : σ)
    (journal : JournalContent) (calls : List (WriterCall o)) :
    let s := LabelledRun.run (writerStep o) (initial adapter journal) calls
    let recorded := EverRecorded o (initial adapter journal) calls
    (∃ items, exportAudit tenantId o s none =
        some (items.map (AuditItem.render tenantId o.registerId)) ∧ AuditTrail s recorded items) ↔
      ∀ id, recorded id → s.entries (s.settlement id).tokenId ≠ [] := by
  intro s recorded
  have h : s.Filed := (Filed.initial adapter journal).run calls
  have hrecorded : recorded = fun id => (s.settlement id).status ≠ .none := by
    funext id
    exact propext ((Filed.initial adapter journal).everRecorded_iff calls id)
  constructor
  · rintro ⟨items, hexport, htrail⟩ id hid
    exact h.covered htrail hexport hid
  · intro hcovered
    rw [hrecorded] at hcovered ⊢
    obtain ⟨tokens, htokens, hnodup, hmem⟩ := h.valid.tokens
    refine ⟨s.exportItems tokens, ?_, h.auditTrail hnodup hmem hcovered⟩
    rw [← exportAudit_eq]
    simp only [exportAudit, htokens]
    rfl

/-- A settlement opened on a token that has no entry yet. -/
def firstOpening : WriterCall memoryConfig :=
  .begin ⟨allowListAuthority [zeroAddress], 1000⟩
    ⟨1, word '5', zeroAddress, firstCandidate.holder, word '6', 200⟩ 50 none

theorem first_opening_missed :
    let start : ProjectionStore MemoryChain := initial (MemoryChain.new {}) JournalContent.empty
    let s := LabelledRun.run (writerStep memoryConfig) start [firstOpening]
    (s.settlement (word '5')).status = .open ∧
      ¬ ∃ items, exportAudit "acme" memoryConfig s none =
          some (items.map (AuditItem.render "acme" memoryConfig.registerId)) ∧
        AuditTrail s (EverRecorded memoryConfig start [firstOpening]) items := by
  intro start s
  have h : s.Filed := (Filed.initial _ _).run [firstOpening]
  have hopen : (s.settlement (word '5')).status = .open := by decide
  refine ⟨hopen, ?_⟩
  rintro ⟨items, hexport, htrail⟩
  have hrecorded : EverRecorded memoryConfig start [firstOpening] (word '5') :=
    ⟨[firstOpening], [], rfl, by
      change (s.settlement (word '5')).status ≠ .none
      rw [hopen]
      simp⟩
  exact h.covered htrail hexport hrecorded (by decide)

end ProjectionStore

end Erc8415
