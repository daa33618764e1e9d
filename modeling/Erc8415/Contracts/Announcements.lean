import Erc8415.Contracts.EventLog

/-! # What the log announces

The log of a deployment is its history, told once. Each entry a token holds was
announced by one event, in version order, and nothing else was announced of the
token. Each settlement was announced when it opened and once more when it
closed, by the event of the way it closed; a replacement never is.
-/

namespace Erc8415.Contracts

open ProjectionSettlement RegisterProjection EventSourcing

/-! ## Entries -/

namespace Event

/-- The register's events of a token. -/
def registerOf (tokenId : Uint256) : Event → Bool
  | .registerInitialized token .. => token = tokenId
  | .registerSuperseded token .. => token = tokenId
  | _ => false

/-- The settlement contract's events of a settlement. -/
def settlementOf (settlementId : Bytes32) : Event → Bool
  | .settlementStarted id .. => id = settlementId
  | .settlementFinalized id .. => id = settlementId
  | .settlementCancelled id .. => id = settlementId
  | .settlementSuperseded superseded replacement _ =>
      superseded = settlementId ∨ replacement = settlementId
  | _ => false

end Event

/-- The event an entry is announced by: the first one differs. -/
def RegisterEntry.announcement (tokenId : Uint256) (e : RegisterEntry) : Event :=
  if e.version = 1 then
    .registerInitialized tokenId e.recordCommitment e.holder e.version e.effectiveAt
  else
    .registerSuperseded tokenId e.version e.recordCommitment e.previousCommitment e.holder
      e.effectiveAt

/-- What the register's events of a token should be. -/
def RegisterProjection.announcements (r : RegisterProjection) (tokenId : Uint256) : List Event :=
  (r.entries tokenId).map (RegisterEntry.announcement tokenId)

/-- The events of a log that a test keeps. -/
def eventsWhere (concerns : Event → Bool) (records : List LogRecord) : List Event :=
  (records.map fun record => record.event).filter concerns

@[simp] theorem eventsWhere_append (concerns : Event → Bool) (first second : List LogRecord) :
    eventsWhere concerns (first ++ second) =
      eventsWhere concerns first ++ eventsWhere concerns second := by
  rw [eventsWhere, List.map_append, List.filter_append]
  rfl

theorem eventsWhere_map (concerns : Event → Bool) (now : Uint64) (events : List Event) :
    eventsWhere concerns (events.map fun event => ⟨now, event⟩) = events.filter concerns := by
  rw [eventsWhere, List.map_map]
  exact congrArg (List.filter concerns) (List.map_id events)

section Entries

variable {r : RegisterProjection}

/-- Writing an entry announces it, after those of its token, and no other. -/
theorem announcements_push_self (r : RegisterProjection) (tokenId : Uint256) (e : RegisterEntry) :
    (r.push tokenId e).announcements tokenId =
      r.announcements tokenId ++ [e.announcement tokenId] := by
  rw [announcements, push_entries_self, List.map_append, map_supersede _ (fun _ _ => rfl)]
  rfl

theorem announcements_push_of_ne (r : RegisterProjection) {tokenId other : Uint256}
    (e : RegisterEntry) (hne : other ≠ tokenId) :
    (r.push tokenId e).announcements other = r.announcements other := by
  rw [announcements, push_entries_of_ne _ _ hne, announcements]

/-- A first entry is announced as one. -/
theorem announcement_first {tokenId : Uint256} (hnil : r.entries tokenId = []) (p : Presented) :
    (r.nextEntry tokenId p).announcement tokenId =
      .registerInitialized tokenId p.recordCommitment p.holder 1 p.effectiveAt := by
  have hversion : (r.nextEntry tokenId p).version = 1 := by
    rw [nextEntry, hnil]
    rfl
  rw [RegisterEntry.announcement, if_pos hversion, hversion]
  rfl

/-- And a later one as superseding the one before. -/
theorem announcement_later {tokenId : Uint256} (hne : r.entries tokenId ≠ [])
    (hlength : (r.entries tokenId).length + 1 < 2 ^ 64) (p : Presented) :
    (r.nextEntry tokenId p).announcement tokenId =
      .registerSuperseded tokenId (r.nextEntry tokenId p).version p.recordCommitment
        p.previousCommitment p.holder p.effectiveAt := by
  have hversion : (r.nextEntry tokenId p).version ≠ 1 := by
    intro heq
    have hnat := congrArg BitVec.toNat heq
    change (BitVec.ofNat 64 ((r.entries tokenId).length + 1)).toNat = 1 at hnat
    rw [BitVec.toNat_ofNat, Nat.mod_eq_of_lt hlength] at hnat
    exact hne (List.length_eq_zero_iff.mp (Nat.succ_injective hnat))
  rw [RegisterEntry.announcement, if_neg hversion]
  rfl

end Entries

/-! ## Settlements -/

/-- The event a gap is announced by when it opens, in the block it opens in. -/
def Settlement.started (settlementId : Bytes32) (record : Settlement) : LogRecord where
  timestamp := record.openedAt
  event := .settlementStarted settlementId record.tokenId record.initiator record.expectedHolder
    record.snapshotHash record.deadline

/-- An entry of a register was written for a settlement. -/
def WrittenFor (r : RegisterProjection) (record : Settlement) (recordCommitment : Bytes32)
    (version effectiveAt : Uint64) : Prop :=
  (recordCommitment, version, effectiveAt, record.expectedHolder) ∈
    (r.entries record.tokenId).map fun e => (e.recordCommitment, e.version, e.effectiveAt, e.holder)

/-- The records of a settlement in the log, by its status. -/
inductive Announced (r : RegisterProjection) (settlementId : Bytes32) (record : Settlement) :
    List LogRecord → Prop
  | unused (hstatus : record.status = .none) : Announced r settlementId record []
  | running (hstatus : record.status = .open) :
      Announced r settlementId record [record.started settlementId]
  | admitted {closing : Uint64} {recordCommitment : Bytes32} {version effectiveAt : Uint64}
      (hstatus : record.status = .admitted) (hclosing : closing ≤ record.deadline)
      (hentry : WrittenFor r record recordCommitment version effectiveAt) :
      Announced r settlementId record [record.started settlementId,
        ⟨closing, .settlementFinalized settlementId record.tokenId recordCommitment version
          effectiveAt⟩]
  | cancelled {closing : Uint64} {reasonHash : Bytes32} (hstatus : record.status = .cancelled)
      (hclosing : record.deadline < closing) :
      Announced r settlementId record [record.started settlementId,
        ⟨closing, .settlementCancelled settlementId record.tokenId reasonHash⟩]

/-- The records of a log that are about a settlement. -/
def recordsOf (settlementId : Bytes32) (records : List LogRecord) : List LogRecord :=
  records.filter fun record => record.event.settlementOf settlementId

@[simp] theorem recordsOf_append (settlementId : Bytes32) (first second : List LogRecord) :
    recordsOf settlementId (first ++ second) =
      recordsOf settlementId first ++ recordsOf settlementId second :=
  List.filter_append ..

section Settlements

variable {r r' : RegisterProjection} {settlementId : Bytes32} {record : Settlement}
  {records : List LogRecord}

/-- A write keeps what was written. -/
theorem WrittenFor.push {recordCommitment : Bytes32} {version effectiveAt : Uint64}
    (h : WrittenFor r record recordCommitment version effectiveAt) (tokenId : Uint256)
    (e : RegisterEntry) :
    WrittenFor (r.push tokenId e) record recordCommitment version effectiveAt := by
  unfold WrittenFor
  by_cases htoken : record.tokenId = tokenId
  · subst htoken
    rw [push_entries_self, List.map_append, map_supersede _ (fun _ _ => rfl)]
    exact List.mem_append_left _ h
  · rw [push_entries_of_ne _ _ htoken]
    exact h

theorem Announced.push (h : Announced r settlementId record records) (tokenId : Uint256)
    (e : RegisterEntry) : Announced (r.push tokenId e) settlementId record records := by
  cases h with
  | unused hstatus => exact .unused hstatus
  | running hstatus => exact .running hstatus
  | admitted hstatus hclosing hentry => exact .admitted hstatus hclosing (hentry.push tokenId e)
  | cancelled hstatus hclosing => exact .cancelled hstatus hclosing

/-- A settlement that is not open yet has not been announced. -/
theorem Announced.eq_nil (h : Announced r settlementId record records)
    (hnone : record.status = .none) : records = [] := by
  cases h with
  | unused hstatus => rfl
  | running hstatus => exact absurd (hstatus.symm.trans hnone) nofun
  | admitted hstatus hclosing hentry => exact absurd (hstatus.symm.trans hnone) nofun
  | cancelled hstatus hclosing => exact absurd (hstatus.symm.trans hnone) nofun

/-- One that is open has been announced once. -/
theorem Announced.eq_started (h : Announced r settlementId record records)
    (hopen : record.status = .open) : records = [record.started settlementId] := by
  cases h with
  | unused hstatus => exact absurd (hstatus.symm.trans hopen) nofun
  | running hstatus => rfl
  | admitted hstatus hclosing hentry => exact absurd (hstatus.symm.trans hopen) nofun
  | cancelled hstatus hclosing => exact absurd (hstatus.symm.trans hopen) nofun

end Settlements

/-! ## Runs -/

namespace Assembly

/-- The log so far has told the history of the storage. -/
structure Told (past : List LogRecord) (s : Assembly) : Prop where
  entries : ∀ tokenId, eventsWhere (Event.registerOf tokenId) past =
    s.register.announcements tokenId
  settlements : ∀ settlementId, Announced s.register settlementId
    (s.settlement.settlements settlementId) (recordsOf settlementId past)

theorem told_deployed : Told [] deployed where
  entries _ := rfl
  settlements _ := .unused rfl

section Step

variable {keccak256 : List UInt8 → Bytes32} {d : Deployment} {s s' : Assembly}
  {past : List LogRecord} {ctx : Context d.settlement.address} {message : Message}

/-- What a transaction with an effect adds to the log. -/
abbrev records (s : Assembly) (ctx : Context d.settlement.address) (message : Message) :
    List LogRecord :=
  (s.events d ⟨ctx, message⟩).map fun event => ⟨ctx.now, event⟩

/-- The register's events of a transaction are the entries it writes. -/
theorem Sound.announces (h : s.Sound) (heffect : Effect keccak256 d s ctx message s')
    (tokenId : Uint256) :
    s.register.announcements tokenId ++
        (s.events d ⟨ctx, message⟩).filter (Event.registerOf tokenId) =
      s'.register.announcements tokenId := by
  cases heffect with
  | @initialized written commitment reference holder effectiveAt _ _ _ hnil _ hc =>
      change _ = (s.register.push written _).announcements tokenId
      by_cases htoken : written = tokenId
      · subst htoken
        rw [announcements_push_self, announcement_first hnil]
        simp [events, Event.registerOf]
      · rw [announcements_push_of_ne _ _ (Ne.symm htoken)]
        simp [events, Event.registerOf, htoken]
  | begun => exact List.append_nil _
  | @finalized id record reference effectiveAt _ _ _ hne _ _ hc =>
      have hevents := finalizeEvents_eq h.register record reference effectiveAt hne
      have hlength := (follows_iff.mp hc).2.2.2.2
      change _ = (s.register.push (s.settlement.settlements id).tokenId _).announcements tokenId
      simp only [events, hevents]
      by_cases htoken : (s.settlement.settlements id).tokenId = tokenId
      · subst htoken
        rw [announcements_push_self, announcement_later hne hlength]
        simp [Event.registerOf, admission]
      · rw [announcements_push_of_ne _ _ (Ne.symm htoken)]
        simp [Event.registerOf, htoken]
  | cancelled => exact List.append_nil _

/-- A transaction about another settlement says nothing of this one. -/
theorem recordsOf_records_eq_nil {id : Bytes32}
    (hother : ∀ event ∈ s.events d ⟨ctx, message⟩, event.settlementOf id = false) :
    recordsOf id (records s ctx message) = [] := by
  rw [recordsOf, List.filter_eq_nil_iff]
  intro record hrecord
  obtain ⟨event, hevent, rfl⟩ := List.mem_map.mp hrecord
  rw [hother event hevent]
  exact Bool.false_ne_true

/-- The settlement's records after a transaction are those of its status then. -/
theorem Sound.announced (h : s.Sound) (heffect : Effect keccak256 d s ctx message s')
    (id : Bytes32)
    (hpast : Announced s.register id (s.settlement.settlements id) (recordsOf id past)) :
    Announced s'.register id (s'.settlement.settlements id)
      (recordsOf id (past ++ records s ctx message)) := by
  rw [recordsOf_append]
  cases heffect with
  | initialized =>
      rw [recordsOf_records_eq_nil (by simp [events, Event.settlementOf]), List.append_nil]
      exact hpast.push _ _
  | @begun tokenId written holder snapshot deadline _ _ _ _ hnone _ _ _ =>
      change Announced s.register id (Function.update s.settlement.settlements written _ id) _
      by_cases hid : written = id
      · subst hid
        rw [hpast.eq_nil hnone, Function.update_self]
        have hstarted : recordsOf written (records s ctx
            (.beginSettlement tokenId written holder snapshot deadline)) =
              [(gap ctx tokenId holder snapshot deadline).started written] := by
          simp [recordsOf, records, events, Event.settlementOf, Settlement.started, gap]
        rw [hstarted]
        exact .running rfl
      · rw [Function.update_of_ne (Ne.symm hid),
          recordsOf_records_eq_nil (by simp [events, Event.settlementOf, hid]), List.append_nil]
        exact hpast
  | @finalized written record reference effectiveAt proofData hopen hdeadline hne _ _ hc =>
      have hevents := finalizeEvents_eq h.register record reference effectiveAt hne
      dsimp only at hevents
      change Announced (s.register.push _ _) id
        (setStatus s.settlement.settlements written .admitted id) _
      by_cases hid : written = id
      · subst hid
        rw [hpast.eq_started hopen, setStatus, Function.update_self]
        have hclosed : recordsOf written (records s ctx
            (.finalizeSettlement written record reference effectiveAt proofData)) =
              [⟨ctx.now, .settlementFinalized written (s.settlement.settlements written).tokenId
                record (s.register.nextEntry (s.settlement.settlements written).tokenId
                  (s.admission written record reference effectiveAt)).version effectiveAt⟩] := by
          simp [recordsOf, records, events, hevents, Event.settlementOf]
        rw [hclosed]
        refine .admitted rfl hdeadline ?_
        unfold WrittenFor
        rw [push_entries_self, List.map_append]
        exact List.mem_append_right _ (List.mem_singleton_self _)
      · rw [setStatus, Function.update_of_ne (Ne.symm hid),
          recordsOf_records_eq_nil (by simp [events, hevents, Event.settlementOf, hid]),
          List.append_nil]
        exact hpast.push _ _
  | @cancelled written reason hopen hinitiator hexpired =>
      change Announced s.register id (setStatus s.settlement.settlements written .cancelled id) _
      by_cases hid : written = id
      · subst hid
        rw [hpast.eq_started hopen, setStatus, Function.update_self]
        have hclosed : recordsOf written (records s ctx (.cancelSettlement written reason)) =
            [⟨ctx.now, .settlementCancelled written (s.settlement.settlements written).tokenId
              reason⟩] := by
          simp [recordsOf, records, events, Event.settlementOf]
        rw [hclosed]
        exact .cancelled rfl hexpired
      · rw [setStatus, Function.update_of_ne (Ne.symm hid),
          recordsOf_records_eq_nil (by simp [events, Event.settlementOf, hid]), List.append_nil]
        exact hpast

theorem Sound.tells (h : s.Sound) (hpast : Told past s) (tx : Transaction d) :
    Told (past ++ s.emits keccak256 d tx) (s.step keccak256 d tx) := by
  unfold Assembly.step Assembly.emits
  cases hcall : s.call keccak256 d tx with
  | error why =>
      rw [List.append_nil]
      exact hpast
  | ok s' =>
      have heffect := (call_eq_ok h.register).mp hcall
      refine ⟨?_, fun id => h.announced heffect id (hpast.settlements id)⟩
      intro tokenId
      rw [eventsWhere_append, hpast.entries, eventsWhere_map]
      exact h.announces heffect tokenId

end Step

/-- The log of a deployment announces every entry once, in version order, and every settlement
as its status says: once when it opens and once when it closes, before the deadline by the entry
written for its holder, after it by a cancellation. It never announces a replacement. -/
theorem log_announces (keccak256 : List UInt8 → Bytes32) (d : Deployment)
    (txs : List (Transaction d)) :
    Told (eventLog keccak256 d txs) (reached keccak256 d txs) :=
  log_invariant (step keccak256 d) (emits keccak256 d) Sound Told (fun _ tx h => h.step tx)
    (fun _ _ tx h hpast => h.tells hpast tx) Sound.deployed told_deployed txs

end Assembly

end Erc8415.Contracts
