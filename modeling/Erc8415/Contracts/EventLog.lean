import Erc8415.Contracts.AssemblyInvariant
import Erc8415.Contracts.ExactResolution
import Erc8415.Foundation.EventSourcing

/-! # The event log

What the two contracts emit, and an index kept from the log alone. A transaction
that reverts emits nothing. Whatever transactions a deployment has taken, an
index that plays its log back holds every gap record the settlement contract holds
and every field of the register's entries that the events carry: all but the
registry reference.
-/

namespace Erc8415.Contracts

open ProjectionSettlement RegisterProjection EventSourcing

/-- The events of the two interfaces. -/
inductive Event where
  | registerInitialized (tokenId : Uint256) (recordCommitment : Bytes32) (holder : Address)
      (version effectiveAt : Uint64)
  | registerSuperseded (tokenId : Uint256) (version : Uint64)
      (recordCommitment previousCommitment : Bytes32) (holder : Address) (effectiveAt : Uint64)
  | settlementStarted (settlementId : Bytes32) (tokenId : Uint256)
      (initiator expectedHolder : Address) (snapshotHash : Bytes32) (deadline : Uint64)
  | settlementFinalized (settlementId : Bytes32) (tokenId : Uint256)
      (recordCommitment : Bytes32) (version effectiveAt : Uint64)
  | settlementCancelled (settlementId : Bytes32) (tokenId : Uint256) (reasonHash : Bytes32)
  | settlementSuperseded (supersededId replacementId : Bytes32) (tokenId : Uint256)
  deriving DecidableEq, Repr

/-- An event and the time of the block it is in. -/
structure LogRecord where
  timestamp : Uint64
  event : Event
  deriving DecidableEq, Repr

/-! ## What a transaction emits -/

/-- What `admit` emits, of the version after the latest. -/
def RegisterProjection.admitEvents (s : RegisterProjection) (tokenId : Uint256)
    (recordCommitment previousCommitment : Bytes32) (holder : Address) (effectiveAt : Uint64) :
    List Event :=
  match (s.entries tokenId).getLast? with
  | none => []
  | some previous =>
      [.registerSuperseded tokenId (previous.version + 1) recordCommitment previousCommitment
        holder effectiveAt]

/-- What `finalizeSettlement` emits: the register's event, then its own. -/
def ProjectionSettlement.finalizeEvents (s : Assembly) (settlementId recordCommitment : Bytes32)
    (effectiveAt : Uint64) : List Event :=
  let record := s.settlement.settlements settlementId
  match (s.register.entries record.tokenId).getLast? with
  | none => []
  | some previous =>
      s.register.admitEvents record.tokenId recordCommitment previous.recordCommitment
          record.expectedHolder effectiveAt ++
        [.settlementFinalized settlementId record.tokenId recordCommitment (previous.version + 1)
          effectiveAt]

namespace Assembly

section Emits

variable (keccak256 : List UInt8 → Bytes32) (d : Deployment)

/-- What a transaction emits when it does not revert. -/
def events (s : Assembly) (tx : Transaction d) : List Event :=
  match tx.message with
  | .initializeEntry tokenId recordCommitment _ holder effectiveAt =>
      [.registerInitialized tokenId recordCommitment holder 1 effectiveAt]
  | .admitEntry tokenId recordCommitment previousCommitment _ holder effectiveAt =>
      s.register.admitEvents tokenId recordCommitment previousCommitment holder effectiveAt
  | .initializeRegister tokenId recordCommitment _ holder effectiveAt _ =>
      [.registerInitialized tokenId recordCommitment holder 1 effectiveAt]
  | .beginSettlement tokenId settlementId expectedHolder snapshotHash deadline =>
      [.settlementStarted settlementId tokenId tx.context.sender expectedHolder snapshotHash
        deadline]
  | .finalizeSettlement settlementId recordCommitment _ effectiveAt _ =>
      finalizeEvents s settlementId recordCommitment effectiveAt
  | .cancelSettlement settlementId reasonHash =>
      [.settlementCancelled settlementId (s.settlement.settlements settlementId).tokenId
        reasonHash]

/-- The records a transaction adds to the log. -/
def emits (s : Assembly) (tx : Transaction d) : List LogRecord :=
  match s.call keccak256 d tx with
  | .ok _ => (s.events d tx).map fun event => ⟨tx.context.now, event⟩
  | .error _ => []

/-- The log of a deployment after the transactions it took. -/
def eventLog (txs : List (Transaction d)) : List LogRecord :=
  log (step keccak256 d) (emits keccak256 d) deployed txs

/-- Its storage then. -/
def reached (txs : List (Transaction d)) : Assembly :=
  LabelledRun.run (step keccak256 d) deployed txs

theorem sound_reached (txs : List (Transaction d)) : (reached keccak256 d txs).Sound :=
  Sound.deployed.run txs

end Emits

end Assembly

/-! ## The index -/

/-- An entry as far as the events carry it. -/
structure IndexedEntry where
  recordCommitment : Bytes32
  previousCommitment : Bytes32
  holder : Address
  version : Uint64
  effectiveAt : Uint64
  supersededAt : Uint64
  deriving DecidableEq, Repr

def RegisterEntry.indexed (entry : RegisterEntry) : IndexedEntry where
  recordCommitment := entry.recordCommitment
  previousCommitment := entry.previousCommitment
  holder := entry.holder
  version := entry.version
  effectiveAt := entry.effectiveAt
  supersededAt := entry.supersededAt

/-- What a reader of the log keeps. -/
@[ext] structure Index where
  entries : Uint256 → List IndexedEntry
  settlements : Bytes32 → Settlement
  openGap : Uint256 → Bytes32

namespace Index

/-- Before the first event. -/
def empty : Index := ⟨fun _ => [], fun _ => .unset, fun _ => 0⟩

/-- Close the latest entry. -/
def supersede (entries : List IndexedEntry) (effectiveAt : Uint64) : List IndexedEntry :=
  entries.modify (entries.length - 1) fun previous => { previous with supersededAt := effectiveAt }

/-- Append an entry, closing the latest one at its effective time. -/
def append (index : Index) (tokenId : Uint256) (entry : IndexedEntry) : Index :=
  { index with
      entries := Function.update index.entries tokenId
        (supersede (index.entries tokenId) entry.effectiveAt ++ [entry]) }

/-- Close a settlement of a token. -/
def close (index : Index) (settlementId : Bytes32) (tokenId : Uint256) (status : GapStatus) :
    Index :=
  { index with
      settlements := setStatus index.settlements settlementId status
      openGap := Function.update index.openGap tokenId 0 }

/-- What an event says has happened. -/
def apply (index : Index) (record : LogRecord) : Index :=
  match record.event with
  | .registerInitialized tokenId recordCommitment holder version effectiveAt =>
      index.append tokenId ⟨recordCommitment, 0, holder, version, effectiveAt, 0⟩
  | .registerSuperseded tokenId version recordCommitment previousCommitment holder effectiveAt =>
      index.append tokenId
        ⟨recordCommitment, previousCommitment, holder, version, effectiveAt, 0⟩
  | .settlementStarted settlementId tokenId initiator expectedHolder snapshotHash deadline =>
      { index with
          settlements := Function.update index.settlements settlementId
            ⟨tokenId, initiator, expectedHolder, snapshotHash, record.timestamp, deadline, .open⟩
          openGap := Function.update index.openGap tokenId settlementId }
  | .settlementFinalized settlementId tokenId _ _ _ =>
      index.close settlementId tokenId .admitted
  | .settlementCancelled settlementId tokenId _ => index.close settlementId tokenId .cancelled
  | .settlementSuperseded supersededId replacementId tokenId =>
      { index with
          settlements := setStatus index.settlements supersededId .superseded
          openGap := Function.update index.openGap tokenId replacementId }

/-- The index of a log. -/
def ofLog (records : List LogRecord) : Index := playback apply empty records

/-- The latest entry effective by an instant. -/
def entryAsOf (index : Index) (tokenId : Uint256) (instant : Uint64) : Option IndexedEntry :=
  ((index.entries tokenId).filter fun entry => entry.effectiveAt ≤ instant).getLast?

/-- Whether that entry has been superseded. -/
def isFinalAsOf (index : Index) (tokenId : Uint256) (instant : Uint64) : Bool :=
  (index.entryAsOf tokenId instant).any fun entry => entry.supersededAt ≠ 0

end Index

/-- What a log can show of the storage. -/
def Assembly.indexed (s : Assembly) : Index where
  entries tokenId := (s.register.entries tokenId).map RegisterEntry.indexed
  settlements := s.settlement.settlements
  openGap := s.settlement.openGap

/-! ## What a transaction tells the index -/

section Playback

variable {keccak256 : List UInt8 → Bytes32} {d : Deployment} {s s' : Assembly}

/-- Closing the latest entry and then reading it is reading it and then closing it. -/
theorem map_indexed_supersede (list : List RegisterEntry) (effectiveAt : Uint64) :
    (supersede list effectiveAt).map RegisterEntry.indexed =
      Index.supersede (list.map RegisterEntry.indexed) effectiveAt := by
  apply List.ext_getElem?
  intro i
  simp only [supersede, Index.supersede, List.getElem?_map, List.getElem?_modify,
    List.length_map]
  by_cases h : list.length - 1 = i
  · cases list[i]? <;> simp [h, RegisterEntry.indexed]
  · simp [h]

theorem indexed_push (s : Assembly) (tokenId : Uint256) (e : RegisterEntry) :
    ({ s with register := s.register.push tokenId e } : Assembly).indexed =
      s.indexed.append tokenId e.indexed := by
  apply Index.ext
  · funext other
    change ((s.register.push tokenId e).entries other).map RegisterEntry.indexed =
      Function.update s.indexed.entries tokenId _ other
    by_cases hother : other = tokenId
    · subst hother
      rw [push_entries_self, Function.update_self, List.map_append, map_indexed_supersede]
      rfl
    · rw [push_entries_of_ne _ _ hother, Function.update_of_ne hother]
      rfl
  · rfl
  · rfl

/-- The version an admission emits is the one it writes. -/
theorem RegisterProjection.Valid.next_version {r : RegisterProjection} (h : r.Valid)
    {tokenId : Uint256} {previous : RegisterEntry}
    (hlast : (r.entries tokenId).getLast? = some previous) :
    previous.version + 1 = BitVec.ofNat 64 ((r.entries tokenId).length + 1) := by
  rw [← h.last_version hlast, BitVec.ofNat_add, BitVec.ofNat_toNat, BitVec.setWidth_eq]
  rfl

theorem RegisterProjection.Valid.admitEvents_eq {r : RegisterProjection} (h : r.Valid)
    {tokenId : Uint256} (hne : r.entries tokenId ≠ []) (p : Presented) :
    r.admitEvents tokenId p.recordCommitment p.previousCommitment p.holder p.effectiveAt =
      [.registerSuperseded tokenId (r.nextEntry tokenId p).version p.recordCommitment
        p.previousCommitment p.holder p.effectiveAt] := by
  have hlast := List.getLast?_eq_some_getLast hne
  rw [admitEvents, hlast]
  dsimp only
  rw [h.next_version hlast]
  rfl

/-- An admission's two events, as its effect has them. -/
theorem finalizeEvents_eq (h : s.register.Valid) {settlementId : Bytes32}
    (recordCommitment registryReference : Bytes32) (effectiveAt : Uint64)
    (hne : s.register.entries (s.settlement.settlements settlementId).tokenId ≠ []) :
    let tokenId := (s.settlement.settlements settlementId).tokenId
    let p := s.admission settlementId recordCommitment registryReference effectiveAt
    finalizeEvents s settlementId recordCommitment effectiveAt =
      [.registerSuperseded tokenId (s.register.nextEntry tokenId p).version recordCommitment
          p.previousCommitment p.holder effectiveAt,
        .settlementFinalized settlementId tokenId recordCommitment
          (s.register.nextEntry tokenId p).version effectiveAt] := by
  intro tokenId p
  have hlast := List.getLast?_eq_some_getLast hne
  have htip : p.previousCommitment =
      ((s.register.entries tokenId).getLast hne).recordCommitment := by
    simp only [p, Assembly.admission, tipWord, hlast, tokenId]
  have hadmission := h.admitEvents_eq hne p
  rw [htip] at hadmission
  rw [finalizeEvents, hlast]
  dsimp only
  rw [htip, h.next_version hlast]
  exact congrArg (· ++ [_]) hadmission

namespace Assembly

/-- The events of a transaction bring the index from the storage before to the one after. -/
theorem Sound.playback_events {ctx : Context d.settlement.address} {message : Message}
    (h : s.Sound) (heffect : Effect keccak256 d s ctx message s') :
    playback Index.apply s.indexed
      ((s.events d ⟨ctx, message⟩).map fun event => ⟨ctx.now, event⟩) = s'.indexed := by
  cases heffect with
  | @initialized tokenId _ _ _ _ _ hauthority hverified hnil hholder hc =>
      refine Eq.trans ?_ (indexed_push s tokenId _).symm
      simp only [events, List.map_cons, List.map_nil, playback_cons, playback_nil, Index.apply,
        nextEntry, RegisterEntry.indexed, hnil]
      rfl
  | begun => rfl
  | @finalized id record reference effectiveAt _ hopen hdeadline hne hverified hholder hc =>
      have hevents := finalizeEvents_eq h.register record reference effectiveAt hne
      dsimp only at hevents
      simp only [events, hevents, List.map_cons, List.map_nil, playback_cons, playback_nil]
      have hpush := indexed_push s (s.settlement.settlements id).tokenId
        (s.register.nextEntry (s.settlement.settlements id).tokenId
          (s.admission id record reference effectiveAt))
      exact congrArg (fun index : Index =>
        index.close id (s.settlement.settlements id).tokenId .admitted) hpush.symm
  | cancelled => rfl

theorem sourced : Sourced (step keccak256 d) (emits keccak256 d) Index.apply Sound indexed where
  keeps _ tx h := h.step tx
  applies s tx h := by
    unfold step emits
    cases hcall : s.call keccak256 d tx with
    | error why => rfl
    | ok s' => exact h.playback_events ((call_eq_ok h.register).mp hcall)

/-- The index of a deployment's log is what its storage shows. -/
theorem ofLog_eventLog (txs : List (Transaction d)) :
    Index.ofLog (eventLog keccak256 d txs) = (reached keccak256 d txs).indexed :=
  sourced.run Sound.deployed txs

end Assembly

end Playback

/-! ## Reading the index -/

/-- A history resolves an instant to the last of the entries effective by it. -/
theorem resolve_eq_getLast? {entries : List ProjectionEntry} (h : IsHistory entries)
    (instant : Int) :
    resolve entries instant =
      (entries.filter fun e => e.effectiveAt ≤ instant).getLast? := by
  have hle := AscendingSearch.position_le_length (times entries) instant
  rw [length_times] at hle
  rw [AscendingSearch.filter_eq_take (k := AscendingSearch.position (times entries) instant)]
  · rw [resolve]
    cases hposition : AscendingSearch.position (times entries) instant with
    | zero => rfl
    | succ n =>
        rw [List.getLast?_eq_getElem?, List.length_take, List.getElem?_take]
        rw [hposition] at hle
        simp [Nat.min_eq_left hle]
  · intro i e he
    rw [decide_eq_true_eq]
    exact effectiveAt_le_iff h instant he

/-- The register's search answers with the last entry effective by the instant. -/
theorem RegisterProjection.Valid.returned_entryAsOf {r : RegisterProjection} (h : r.Valid)
    (tokenId : Uint256) (instant : Uint64) :
    returned (r.entryAsOf tokenId instant) =
      ((r.entries tokenId).filter fun e => e.effectiveAt ≤ instant).getLast? := by
  have hresolve := resolve_eq_getLast? (h.history tokenId) instant.toNat
  have hfilter : (r.history tokenId).filter (fun e => e.effectiveAt ≤ (instant.toNat : Int)) =
      ((r.entries tokenId).filter fun e => e.effectiveAt ≤ instant).map
        RegisterEntry.projected := by
    rw [RegisterProjection.history, List.filter_map]
    apply congrArg
    apply List.filter_congr
    intro e he
    apply decide_eq_decide.mpr
    exact Int.ofNat_le
  rw [hfilter, List.getLast?_map] at hresolve
  apply Option.ext
  intro e
  have hread : returned (r.entryAsOf tokenId instant) = some e ↔
      r.entryAsOf tokenId instant = .ok e := by
    cases r.entryAsOf tokenId instant <;> simp [returned]
  rw [hread, h.entryAsOf_eq_ok, hresolve, Option.map_eq_some_iff]
  constructor
  · rintro ⟨e', he', heq⟩
    rwa [RegisterEntry.projected_inj.mp heq] at he'
  · intro he
    exact ⟨e, he, rfl⟩

theorem Index.entryAsOf_indexed {s : Assembly} (h : s.register.Valid) (tokenId : Uint256)
    (instant : Uint64) :
    s.indexed.entryAsOf tokenId instant =
      (returned (s.register.entryAsOf tokenId instant)).map RegisterEntry.indexed := by
  rw [h.returned_entryAsOf, ← List.getLast?_map, Index.entryAsOf, Assembly.indexed,
    List.filter_map]
  rfl

theorem Index.isFinalAsOf_indexed {s : Assembly} (h : s.register.Valid) (tokenId : Uint256)
    (instant : Uint64) :
    s.indexed.isFinalAsOf tokenId instant = s.register.isFinalAsOf tokenId instant := by
  rw [Index.isFinalAsOf, entryAsOf_indexed h, Bool.eq_iff_iff,
    (h.exact tokenId instant).answer.superseded]
  cases returned (s.register.entryAsOf tokenId instant) with
  | none => simp
  | some e =>
      have hzero : e.supersededAt = 0 ↔ e.supersededAt.toNat = 0 := BitVec.toNat_inj.symm
      simpa [RegisterEntry.indexed] using not_congr hzero

/-- An index kept from the log alone answers as the contracts do: the entry in force at an
instant with all its fields but the registry reference, whether the instant is final, the gap a
token has open, and every settlement record. It has no answer where the register reverts. -/
theorem index_answers (keccak256 : List UInt8 → Bytes32) (d : Deployment)
    (txs : List (Transaction d)) :
    let s := Assembly.reached keccak256 d txs
    let index := Index.ofLog (Assembly.eventLog keccak256 d txs)
    (∀ tokenId instant,
      index.entryAsOf tokenId instant =
          (returned (s.register.entryAsOf tokenId instant)).map RegisterEntry.indexed ∧
        index.isFinalAsOf tokenId instant = s.register.isFinalAsOf tokenId instant) ∧
      (∀ tokenId, index.openGap tokenId = s.settlement.openGap tokenId) ∧
      ∀ settlementId, index.settlements settlementId = s.settlement.settlements settlementId := by
  intro s index
  have hindex : index = s.indexed := Assembly.ofLog_eventLog txs
  have hregister : s.register.Valid := (Assembly.sound_reached keccak256 d txs).register
  rw [hindex]
  refine ⟨?_, fun _ => rfl, fun _ => rfl⟩
  intro tokenId instant
  exact ⟨Index.entryAsOf_indexed hregister tokenId instant,
    Index.isFinalAsOf_indexed hregister tokenId instant⟩

end Erc8415.Contracts
