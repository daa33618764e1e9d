import Erc8415.Contracts.RegisterProjection

/-! # Histories on chain

The entries of a token, read as the kernel's, form a history, and the
commitments marked as seen are the ones in it. The two entry points write
exactly when the source authority presents a candidate that follows the history
and names a holder, and then extend it by that candidate. The reads resolve an
instant as the history does.
-/

namespace Erc8415.Contracts

namespace RegisterProjection

variable {d : RegisterDeployment} {s s' : RegisterProjection} {tokenId : Uint256}

/-! ## The history of a token -/

/-- The entries of a token as the kernel writes them. -/
def history (s : RegisterProjection) (tokenId : Uint256) : List ProjectionEntry :=
  (s.entries tokenId).map RegisterEntry.projected

/-- What every write keeps. -/
structure Valid (s : RegisterProjection) : Prop where
  history : ∀ tokenId, IsHistory (s.history tokenId)
  seen : ∀ tokenId c, s.commitmentSeen tokenId c = true ↔
    c ∈ (s.entries tokenId).map fun e => e.recordCommitment

theorem Valid.deployed : deployed.Valid where
  history _ := IsHistory.nil
  seen _ _ := by simp [RegisterProjection.deployed]

@[simp] theorem length_history (s : RegisterProjection) (tokenId : Uint256) :
    (s.history tokenId).length = (s.entries tokenId).length :=
  List.length_map ..

theorem history_getElem? (s : RegisterProjection) (tokenId : Uint256) (i : Nat) :
    (s.history tokenId)[i]? = (s.entries tokenId)[i]?.map RegisterEntry.projected :=
  List.getElem?_map ..

theorem history_head? (s : RegisterProjection) (tokenId : Uint256) :
    (s.history tokenId).head? = (s.entries tokenId).head?.map RegisterEntry.projected :=
  List.head?_map ..

theorem history_getLast? (s : RegisterProjection) (tokenId : Uint256) :
    (s.history tokenId).getLast? = (s.entries tokenId).getLast?.map RegisterEntry.projected :=
  List.getLast?_map ..

/-- Versions count the entries, on chain too. -/
theorem Valid.version (h : s.Valid) {i : Nat} {e : RegisterEntry}
    (he : (s.entries tokenId)[i]? = some e) : e.version.toNat = i + 1 := by
  have hversion := (h.history tokenId).version i e.projected (by rw [history_getElem?, he]; rfl)
  change (e.version.toNat : Int) = (i : Int) + 1 at hversion
  omega

theorem Valid.last_version (h : s.Valid) {e : RegisterEntry}
    (he : (s.entries tokenId).getLast? = some e) :
    e.version.toNat = (s.entries tokenId).length := by
  have hne : (s.entries tokenId) ≠ [] := by
    intro hnil
    rw [hnil] at he
    cases he
  rw [List.getLast?_eq_getElem?] at he
  have hlength := List.length_pos_of_ne_nil hne
  rw [h.version he]
  omega

theorem currentEntry_eq_ok {e : RegisterEntry} :
    s.currentEntry tokenId = .ok e ↔ (s.entries tokenId).getLast? = some e := by
  unfold currentEntry
  cases (s.entries tokenId).getLast? <;> simp

/-- The length fits the `uint64` it is reported in. -/
theorem Valid.length_lt (h : s.Valid) (tokenId : Uint256) :
    (s.entries tokenId).length < 2 ^ 64 := by
  cases hlast : (s.entries tokenId).getLast? with
  | none =>
      rw [List.getLast?_eq_none_iff.mp hlast]
      decide
  | some e =>
      rw [← h.last_version hlast]
      exact e.version.isLt

theorem Valid.entryCount (h : s.Valid) (tokenId : Uint256) :
    (s.entryCount tokenId).toNat = (s.entries tokenId).length := by
  rw [RegisterProjection.entryCount, BitVec.toNat_ofNat, Nat.mod_eq_of_lt (h.length_lt tokenId)]

/-! ## Candidates -/

/-- What a write presents, before it has a version. -/
structure Presented where
  recordCommitment : Bytes32
  previousCommitment : Bytes32
  registryReference : Bytes32
  holder : Address
  effectiveAt : Uint64
  deriving DecidableEq, Repr

/-- The candidate the kernel would be shown for it: the next version. -/
def candidate (s : RegisterProjection) (tokenId : Uint256) (p : Presented) : CandidateEntry where
  recordCommitment := bytes32Text p.recordCommitment
  previousCommitment := bytes32Text p.previousCommitment
  registryReference := bytes32Text p.registryReference
  holder := addressText p.holder
  version := (s.entries tokenId).length + 1
  effectiveAt := p.effectiveAt.toNat

/-- The entry written for it. -/
def nextEntry (s : RegisterProjection) (tokenId : Uint256) (p : Presented) : RegisterEntry where
  recordCommitment := p.recordCommitment
  previousCommitment := p.previousCommitment
  registryReference := p.registryReference
  holder := p.holder
  version := BitVec.ofNat 64 ((s.entries tokenId).length + 1)
  effectiveAt := p.effectiveAt
  supersededAt := 0

/-- The commitment of the latest entry, zero before the first. -/
def tipWord (s : RegisterProjection) (tokenId : Uint256) : Bytes32 :=
  match (s.entries tokenId).getLast? with
  | some e => e.recordCommitment
  | none => 0

theorem tip_history (s : RegisterProjection) (tokenId : Uint256) :
    tip (s.history tokenId) = bytes32Text (s.tipWord tokenId) := by
  rw [tip, history_getLast?, tipWord]
  cases (s.entries tokenId).getLast? with
  | none => exact bytes32Text_zero.symm
  | some e => rfl

theorem mem_commitments (s : RegisterProjection) (tokenId : Uint256) (c : Bytes32) :
    bytes32Text c ∈ (s.history tokenId).map (fun e => e.recordCommitment) ↔
      c ∈ (s.entries tokenId).map fun e => e.recordCommitment := by
  simp only [history, List.map_map, List.mem_map, Function.comp, RegisterEntry.projected,
    bytes32Text_inj]

/-- Following the history, in machine terms. -/
theorem follows_iff {p : Presented} :
    Follows (s.history tokenId) (s.candidate tokenId p) ↔
      p.recordCommitment ≠ 0 ∧ p.previousCommitment = s.tipWord tokenId ∧
      (∀ e, (s.entries tokenId).getLast? = some e → e.effectiveAt < p.effectiveAt) ∧
      p.recordCommitment ∉ (s.entries tokenId).map (fun e => e.recordCommitment) ∧
      (s.entries tokenId).length + 1 < 2 ^ 64 := by
  constructor
  · intro hc
    have hversion := (isUint64_eq_true.mp hc.shaped.version).2
    refine ⟨fun hzero => hc.shaped.recordCommitment_ne_zero (bytes32Text_eq_zero.mpr hzero),
      ?_, fun e he => ?_, fun hmem => hc.fresh ((mem_commitments s tokenId _).mpr hmem), ?_⟩
    · have hlink := hc.linkage
      rw [tip_history] at hlink
      exact bytes32Text_inj.mp hlink
    · have hlater := hc.later e.projected (by rw [history_getLast?, he]; rfl)
      exact Int.ofNat_lt.mp hlater
    · simp only [candidate, uint64Max] at hversion
      omega
  · rintro ⟨hzero, hlink, hlater, hfresh, hlength⟩
    have hne : p.recordCommitment ≠ p.previousCommitment := by
      intro heq
      rw [heq, hlink, tipWord] at hzero hfresh
      cases hlast : (s.entries tokenId).getLast? with
      | none => exact hzero (by simp only [hlast])
      | some e =>
          simp only [hlast] at hfresh
          exact hfresh (List.mem_map_of_mem (List.mem_of_getLast? hlast))
    refine {
      shaped := {
        holder := isAddress_addressText _
        recordCommitment := isBytes32_bytes32Text _
        previousCommitment := isBytes32_bytes32Text _
        registryReference := isBytes32_bytes32Text _
        effectiveAt := isUint64_toNat _
        version := isUint64_eq_true.mpr ?_
        recordCommitment_ne_zero := fun h => hzero (bytes32Text_eq_zero.mp h)
        recordCommitment_ne_previous := fun h => hne (bytes32Text_inj.mp h) }
      version := by rw [length_history]; rfl
      linkage := by rw [tip_history, ← hlink]; rfl
      later := ?_
      fresh := fun h => hfresh ((mem_commitments s tokenId _).mp h) }
    · simp only [candidate, uint64Max]
      omega
    · intro e he
      rw [history_getLast?] at he
      obtain ⟨e', he', rfl⟩ := Option.map_eq_some_iff.mp he
      exact Int.ofNat_lt.mpr (hlater e' he')

/-! ## Writing -/

/-- Append an entry and close the one before it. -/
def push (s : RegisterProjection) (tokenId : Uint256) (e : RegisterEntry) : RegisterProjection where
  entries := Function.update s.entries tokenId (supersede (s.entries tokenId) e.effectiveAt ++ [e])
  commitmentSeen := markSeen s.commitmentSeen tokenId e.recordCommitment

theorem push_entries_self (s : RegisterProjection) (tokenId : Uint256) (e : RegisterEntry) :
    (s.push tokenId e).entries tokenId =
      supersede (s.entries tokenId) e.effectiveAt ++ [e] :=
  Function.update_self ..

theorem push_entries_of_ne (s : RegisterProjection) {tokenId other : Uint256} (e : RegisterEntry)
    (hne : other ≠ tokenId) : (s.push tokenId e).entries other = s.entries other :=
  Function.update_of_ne hne ..

theorem push_entries_ne_nil (s : RegisterProjection) (tokenId : Uint256) (e : RegisterEntry)
    {other : Uint256} (hne : s.entries other ≠ []) : (s.push tokenId e).entries other ≠ [] := by
  by_cases hother : other = tokenId
  · subst hother
    rw [push_entries_self]
    exact List.append_ne_nil_of_right_ne_nil _ (List.cons_ne_nil e [])
  · rw [push_entries_of_ne s e hother]
    exact hne

@[simp] theorem length_supersede (list : List RegisterEntry) (effectiveAt : Uint64) :
    (supersede list effectiveAt).length = list.length := by
  simp [supersede]

theorem map_supersede {α : Type} (f : RegisterEntry → α)
    (hf : ∀ e t, f { e with supersededAt := t } = f e) (list : List RegisterEntry)
    (effectiveAt : Uint64) : (supersede list effectiveAt).map f = list.map f := by
  apply List.ext_getElem?
  intro i
  simp only [supersede, List.getElem?_map, List.getElem?_modify]
  by_cases h : list.length - 1 = i
  · cases list[i]? <;> simp [h, hf]
  · simp [h]

/-- Closing the latest entry is the kernel's rewrite of it. -/
theorem supersede_projected (list : List RegisterEntry) (effectiveAt : Uint64) :
    (supersede list effectiveAt).map RegisterEntry.projected =
      TokenProjection.supersedeLast (list.map RegisterEntry.projected) effectiveAt.toNat := by
  apply List.ext_getElem?
  intro i
  simp only [supersede, TokenProjection.supersedeLast, List.getElem?_map, List.getElem?_modify,
    List.length_map]
  by_cases h : list.length - 1 = i
  · cases list[i]? <;> simp [h, RegisterEntry.projected]
  · simp [h]

theorem history_push_of_ne (s : RegisterProjection) {tokenId other : Uint256} (e : RegisterEntry)
    (hne : other ≠ tokenId) : (s.push tokenId e).history other = s.history other := by
  rw [history, push_entries_of_ne s e hne, history]

/-- Pushing the next entry extends the history by its candidate. -/
theorem history_push (s : RegisterProjection) (p : Presented)
    (hlength : (s.entries tokenId).length + 1 < 2 ^ 64) :
    (s.push tokenId (s.nextEntry tokenId p)).history tokenId =
      extend (s.history tokenId) (s.candidate tokenId p) := by
  have hversion : (BitVec.ofNat 64 ((s.entries tokenId).length + 1)).toNat =
      (s.entries tokenId).length + 1 := by
    rw [BitVec.toNat_ofNat, Nat.mod_eq_of_lt hlength]
  rw [history, push_entries_self, List.map_append, supersede_projected, extend]
  simp only [nextEntry, candidate, RegisterEntry.projected, history, List.map_cons, List.map_nil,
    hversion, Int.natCast_add, Int.cast_ofNat_Int, BitVec.ofNat_eq_ofNat, BitVec.toNat_zero]

theorem Valid.push (h : s.Valid) {p : Presented}
    (hc : Follows (s.history tokenId) (s.candidate tokenId p)) :
    (s.push tokenId (s.nextEntry tokenId p)).Valid where
  history other := by
    by_cases hother : other = tokenId
    · subst hother
      rw [history_push s p (follows_iff.mp hc).2.2.2.2]
      exact (h.history other).extend hc
    · rw [history_push_of_ne s _ hother]
      exact h.history other
  seen other c := by
    by_cases hother : other = tokenId
    · subst hother
      rw [push_entries_self, List.map_append, map_supersede _ (fun _ _ => rfl), List.mem_append,
        ← h.seen]
      by_cases hc : c = p.recordCommitment
      · simp [RegisterProjection.push, markSeen, nextEntry, hc]
      · simp [RegisterProjection.push, markSeen, nextEntry, hc]
    · rw [push_entries_of_ne s _ hother, ← h.seen]
      simp [RegisterProjection.push, markSeen, Function.update_of_ne hother]

/-- `initialize` writes exactly when the source authority presents a first entry
that follows the empty history and names a holder. -/
theorem initializeEntry_eq_ok {sender : Address} {recordCommitment registryReference : Bytes32}
    {holder : Address} {effectiveAt : Uint64} :
    let p : Presented := ⟨recordCommitment, 0, registryReference, holder, effectiveAt⟩
    initializeEntry d s sender tokenId recordCommitment registryReference holder effectiveAt =
        .ok s' ↔
      sender = d.sourceAuthority ∧ s.entries tokenId = [] ∧ holder ≠ 0 ∧
        Follows (s.history tokenId) (s.candidate tokenId p) ∧
        s' = s.push tokenId (s.nextEntry tokenId p) := by
  intro p
  have hpush : s.entries tokenId = [] →
      ({ entries := Function.update s.entries tokenId (s.entries tokenId ++ [{
            recordCommitment := recordCommitment
            previousCommitment := 0
            registryReference := registryReference
            holder := holder
            version := 1
            effectiveAt := effectiveAt
            supersededAt := 0 }])
         commitmentSeen := markSeen s.commitmentSeen tokenId recordCommitment } :
          RegisterProjection) = s.push tokenId (s.nextEntry tokenId p) := by
    intro hnil
    simp only [RegisterProjection.push, nextEntry, hnil, supersede, List.modify_nil, p]
    rfl
  simp only [initializeEntry, onlySourceAuthority, bind_eq_ok, revertIf_eq_ok, not_not,
    List.length_eq_zero_iff]
  constructor
  · rintro ⟨_, hsender, _, hnil, _, hzero, _, hholder, heq⟩
    cases heq
    refine ⟨hsender, hnil, hholder, follows_iff.mpr ⟨hzero, ?_, ?_, ?_, ?_⟩, hpush hnil⟩
    · simp [tipWord, hnil, p]
    · simp [hnil]
    · simp [hnil]
    · simp [hnil]
  · rintro ⟨hsender, hnil, hholder, hc, rfl⟩
    exact ⟨(), hsender, (), hnil, (), (follows_iff.mp hc).1, (), hholder,
      congrArg Except.ok (hpush hnil)⟩

/-- The version after the latest entry's, when it fits a `uint64`. -/
theorem Valid.nextVersion_eq_ok (h : s.Valid) {previous : RegisterEntry}
    (hlast : (s.entries tokenId).getLast? = some previous) {next : Uint64} :
    checkedAdd previous.version 1 = .ok next ↔
      (s.entries tokenId).length + 1 < 2 ^ 64 ∧
        next = BitVec.ofNat 64 ((s.entries tokenId).length + 1) := by
  have hlt := next.isLt
  have hone : (1 : Uint64).toNat = 1 := rfl
  rw [checkedAdd_eq_ok, h.last_version hlast, hone]
  constructor
  · intro heq
    have hfits : (s.entries tokenId).length + 1 < 2 ^ 64 := by omega
    refine ⟨hfits, BitVec.eq_of_toNat_eq ?_⟩
    rw [heq, BitVec.toNat_ofNat, Nat.mod_eq_of_lt hfits]
  · rintro ⟨hfits, rfl⟩
    rw [BitVec.toNat_ofNat, Nat.mod_eq_of_lt hfits]

/-- `admit` writes exactly when the source authority presents a candidate that
follows the entries already there and names a holder. -/
theorem Valid.admitEntry_eq_ok (h : s.Valid) {sender : Address} {p : Presented} :
    admitEntry d s sender tokenId p.recordCommitment p.previousCommitment p.registryReference
        p.holder p.effectiveAt = .ok s' ↔
      sender = d.sourceAuthority ∧ s.entries tokenId ≠ [] ∧ p.holder ≠ 0 ∧
        Follows (s.history tokenId) (s.candidate tokenId p) ∧
        s' = s.push tokenId (s.nextEntry tokenId p) := by
  cases hlast : (s.entries tokenId).getLast? with
  | none =>
      have hnil := List.getLast?_eq_none_iff.mp hlast
      simp [admitEntry, onlySourceAuthority, bind_eq_ok, hnil]
  | some previous =>
      have hne : s.entries tokenId ≠ [] := by
        intro hnil
        rw [hnil] at hlast
        cases hlast
      simp only [admitEntry, onlySourceAuthority, hlast, bind_eq_ok, revertIf_eq_ok, not_not,
        follows_iff, tipWord, Option.some.injEq, forall_eq', h.seen, BitVec.not_le]
      constructor
      · rintro ⟨_, hsender, _, hzero, _, hholder, _, hlink, _, hlater, _, hfresh, next, hadd, heq⟩
        obtain ⟨hfits, rfl⟩ := (h.nextVersion_eq_ok hlast).mp hadd
        cases heq
        exact ⟨hsender, hne, hholder, ⟨hzero, hlink, hlater, hfresh, hfits⟩, rfl⟩
      · rintro ⟨hsender, _, hholder, ⟨hzero, hlink, hlater, hfresh, hfits⟩, rfl⟩
        exact ⟨(), hsender, (), hzero, (), hholder, (), hlink, (), hlater, (), hfresh, _,
          (h.nextVersion_eq_ok hlast).mpr ⟨hfits, rfl⟩, rfl⟩

/-! ## Reading -/

/-- The loop's probe is the kernel's. -/
theorem effectiveBy_eq (instant : Uint64) {i : Int} (hi : 0 ≤ i) :
    effectiveBy (s.entries tokenId) instant i =
      TokenProjection.effectiveBy (s.history tokenId) instant.toNat i := by
  rw [effectiveBy, TokenProjection.effectiveBy, TokenProjection.slot, if_pos hi,
    history_getElem?]
  cases (s.entries tokenId)[i.toNat]? with
  | none => rfl
  | some e =>
      simp only [Option.map_some, RegisterEntry.projected, Int.ofNat_le]
      rfl

/-- Whatever a uint256 midpoint computes, it stays in the upper half. -/
theorem middle_mem {low high : Int} (hlt : low < high) :
    low < middle low high ∧ middle low high ≤ high := by
  rw [middle]
  omega

/-- The binary search answers with the entry the history resolves the instant to. -/
theorem Valid.entryAsOf_eq_ok (h : s.Valid) {instant : Uint64} {e : RegisterEntry} :
    s.entryAsOf tokenId instant = .ok e ↔
      resolve (s.history tokenId) instant.toNat = some e.projected := by
  have hhistory := h.history tokenId
  have hzero := TokenProjection.position_eq_zero_iff hhistory instant.toNat
  have hle := AscendingSearch.position_le_length (times (s.history tokenId)) (instant.toNat : Int)
  rw [length_times, length_history] at hle
  rw [history_head?] at hzero
  unfold RegisterProjection.entryAsOf
  cases hhead : (s.entries tokenId).head? with
  | none =>
      have hposition := hzero.mpr (by simp [hhead])
      simp [resolve, hposition]
  | some first =>
      simp only [hhead, Option.map_some, Option.some.injEq, forall_eq'] at hzero
      by_cases hcovered : instant < first.effectiveAt
      · have hposition := hzero.mpr (Int.ofNat_lt.mpr hcovered)
        simp [resolve, hposition, hcovered]
      · have hne := mt hzero.mp fun hlt => hcovered (Int.ofNat_lt.mp hlt)
        obtain ⟨n, hn⟩ := Nat.exists_eq_succ_of_ne_zero hne
        -- The interval of the search always holds the position `n`.
        have hsearch := AscendingSearch.search_eq middle (effectiveBy (s.entries tokenId) instant) n
          ((s.entries tokenId).length - 1 : Int) (fun low high _ hlt _ => middle_mem hlt)
          (fun i hi hi' => by
            rw [effectiveBy_eq instant hi, TokenProjection.effectiveBy_iff hhistory _ hi
              (by rw [length_history]; omega)]
            omega)
          (s.entries tokenId).length 0 ((s.entries tokenId).length - 1 : Int) (by omega)
          (by omega) (by omega) (by omega) (by omega)
        have hlt : n < (s.entries tokenId).length := by omega
        simp only [hcovered, if_false, hsearch, resolve, hn, read, Int.toNat_natCast,
          history_getElem?, List.getElem?_eq_getElem hlt, Except.ok.injEq, Option.map_some,
          Option.some.injEq, RegisterEntry.projected_inj]

theorem Valid.isFinalAsOf_iff (h : s.Valid) {instant : Uint64} :
    s.isFinalAsOf tokenId instant = true ↔ Final (s.history tokenId) instant.toNat := by
  rw [Final, Nat.pos_iff_ne_zero, Ne, TokenProjection.position_eq_zero_iff (h.history tokenId),
    TokenProjection.position_lt_length_iff (h.history tokenId), history_getLast?, history_head?]
  unfold RegisterProjection.isFinalAsOf
  cases hhead : (s.entries tokenId).head? with
  | none => simp
  | some first =>
      cases hlast : (s.entries tokenId).getLast? with
      | none => simp
      | some last =>
          simp only [Option.map_some, Option.some.injEq, forall_eq', exists_eq_left',
            RegisterEntry.projected, Int.ofNat_lt, Bool.and_eq_true, decide_eq_true_eq,
            Nat.not_lt, ge_iff_le]
          rfl

theorem holderAsOf_eq_ok {instant : Uint64} {holder : Address} :
    s.holderAsOf tokenId instant = .ok holder ↔
      ∃ e, s.entryAsOf tokenId instant = .ok e ∧ e.holder = holder := by
  simp only [holderAsOf, bind_eq_ok]
  constructor
  · rintro ⟨e, he, heq⟩
    cases heq
    exact ⟨e, he, rfl⟩
  · rintro ⟨e, he, rfl⟩
    exact ⟨e, he, rfl⟩

/-! ## Permanence -/

/-- What no write takes back at an instant: once final it is final, with the same entry. -/
def Settles (tokenId : Uint256) (instant : Uint64) (s s' : RegisterProjection) : Prop :=
  s.isFinalAsOf tokenId instant = true →
    s'.isFinalAsOf tokenId instant = true ∧
      s'.entryAsOf tokenId instant = s.entryAsOf tokenId instant

theorem Settles.refl (tokenId : Uint256) (instant : Uint64) (s : RegisterProjection) :
    Settles tokenId instant s s :=
  fun hfinal => ⟨hfinal, rfl⟩

theorem Settles.trans {instant : Uint64} {u : RegisterProjection}
    (h : Settles tokenId instant s s') (h' : Settles tokenId instant s' u) :
    Settles tokenId instant s u := by
  intro hfinal
  obtain ⟨hfinal', hsame⟩ := h hfinal
  obtain ⟨hfinal'', hsame'⟩ := h' hfinal'
  exact ⟨hfinal'', hsame'.trans hsame⟩

/-- A final instant resolves, so its answer is an entry. -/
theorem Valid.exists_entryAsOf (h : s.Valid) {instant : Uint64}
    (hfinal : s.isFinalAsOf tokenId instant = true) :
    ∃ e, s.entryAsOf tokenId instant = .ok e := by
  obtain ⟨e, he⟩ := (h.isFinalAsOf_iff.mp hfinal).exists_resolve
  have hmem : e ∈ s.history tokenId := by
    unfold resolve at he
    split at he
    · cases he
    · exact List.mem_of_getElem? he
  obtain ⟨e', _, rfl⟩ := List.mem_map.mp hmem
  exact ⟨e', h.entryAsOf_eq_ok.mpr he⟩

theorem Valid.push_settles (h : s.Valid) {p : Presented} (written : Uint256)
    (hc : Follows (s.history written) (s.candidate written p)) (tokenId : Uint256)
    (instant : Uint64) :
    Settles tokenId instant s (s.push written (s.nextEntry written p)) := by
  intro hfinal
  have h' := h.push hc
  have hsettled := h.isFinalAsOf_iff.mp hfinal
  obtain ⟨e, he⟩ := h.exists_entryAsOf hfinal
  rw [he, h'.isFinalAsOf_iff, h'.entryAsOf_eq_ok]
  by_cases htoken : tokenId = written
  · subst htoken
    rw [history_push s p (follows_iff.mp hc).2.2.2.2,
      resolve_extend_of_final (h.history tokenId) hc hsettled]
    exact ⟨hsettled.extend, h.entryAsOf_eq_ok.mp he⟩
  · rw [history_push_of_ne s _ htoken]
    exact ⟨hsettled, h.entryAsOf_eq_ok.mp he⟩

end RegisterProjection

end Erc8415.Contracts
