import Mathlib.Logic.Relation
import Erc8415.Adapters.ChainReads
import Erc8415.Contracts.EngineRefinement
import Erc8415.Projection.Representation

/-! # Reads pinned to blocks

Readers of one deployment, pinned to blocks of its chain. A later block is reached by
more transactions, and these only lengthen the histories: a read that was final is
kept as it is, one that was not moves to a later entry or stays.
-/

namespace Erc8415

open Contracts (Deployment Transaction Assembly Uint256)

/-! ## Longer histories -/

/-- A history and what it becomes when entries are admitted to it, one after another. -/
def Lengthens : List ProjectionEntry → List ProjectionEntry → Prop :=
  Relation.ReflTransGen fun entries longer => ∃ c, Follows entries c ∧ longer = extend entries c

namespace Lengthens

variable {entries longer : List ProjectionEntry} {instant : Int}

theorem isHistory (hlonger : Lengthens entries longer) (h : IsHistory entries) :
    IsHistory longer := by
  induction hlonger with
  | refl => exact h
  | tail _ hstep ih =>
      obtain ⟨c, hc, rfl⟩ := hstep
      exact ih.extend hc

/-- What was admitted stays in its place. -/
theorem candidates (hlonger : Lengthens entries longer) :
    (entries.map fun e => e.toCandidateEntry) <+: longer.map fun e => e.toCandidateEntry := by
  induction hlonger with
  | refl => exact List.prefix_refl _
  | tail _ hstep ih =>
      obtain ⟨c, _, rfl⟩ := hstep
      rw [map_extend _ _ fun c => c]
      exact ih.trans (List.prefix_append _ _)

theorem length_le (hlonger : Lengthens entries longer) : entries.length ≤ longer.length := by
  simpa using hlonger.candidates.length_le

/-- An entry that another follows is not written again. -/
theorem keeps (hlonger : Lengthens entries longer) {i : Nat} (hi : i + 1 < entries.length) :
    longer[i]? = entries[i]? := by
  induction hlonger with
  | refl => rfl
  | tail hmiddle hstep ih =>
      obtain ⟨c, _, rfl⟩ := hstep
      rw [getElem?_extend, if_pos (hi.trans_le (length_le hmiddle))]
      exact ih

theorem final (hlonger : Lengthens entries longer) (h : IsHistory entries)
    (hfinal : Final entries instant) :
    Final longer instant ∧ resolve longer instant = resolve entries instant := by
  induction hlonger with
  | refl => exact ⟨hfinal, rfl⟩
  | tail hmiddle hstep ih =>
      obtain ⟨c, hc, rfl⟩ := hstep
      obtain ⟨hkept, hsame⟩ := ih
      exact ⟨hkept.extend, (resolve_extend_of_final (isHistory hmiddle h) hc hkept).trans hsame⟩

/-- The position of an instant moves on by the times that were added before it. -/
theorem exists_position (hlonger : Lengthens entries longer) (instant : Int) :
    ∃ passed, AscendingSearch.position (times longer) instant =
      AscendingSearch.position (times entries) instant + passed := by
  obtain ⟨added, hadded⟩ := hlonger.candidates
  have htimes : times longer = times entries ++ added.map fun c => c.effectiveAt := by
    have h := congrArg (List.map fun c : CandidateEntry => c.effectiveAt) hadded
    rw [List.map_append, List.map_map, List.map_map] at h
    exact h.symm
  exact ⟨_, by rw [htimes, AscendingSearch.position, List.countP_append]; rfl⟩

/-- The entry at a place, later. -/
theorem exists_getElem? (hlonger : Lengthens entries longer) (h : IsHistory entries) {i : Nat}
    {e : ProjectionEntry} (he : entries[i]? = some e) :
    ∃ e', longer[i]? = some e' ∧ e'.toCandidateEntry = e.toCandidateEntry ∧
      (e.supersededAt ≠ 0 → e' = e) := by
  obtain ⟨hi, _⟩ := List.getElem?_eq_some_iff.mp he
  have hcandidate : (longer.map fun e => e.toCandidateEntry)[i]? = some e.toCandidateEntry := by
    obtain ⟨added, hadded⟩ := hlonger.candidates
    rw [← hadded, List.getElem?_append_left (by simpa using hi), List.getElem?_map, he]
    rfl
  rw [List.getElem?_map, Option.map_eq_some_iff] at hcandidate
  obtain ⟨e', he', hsame⟩ := hcandidate
  refine ⟨e', he', hsame, fun hsuperseded => ?_⟩
  have hlast := mt (h.superseded_eq_zero_iff he).mpr hsuperseded
  rw [hlonger.keeps (by omega), he] at he'
  exact (Option.some.inj he').symm

end Lengthens

theorem resolve_eq_none_iff {entries : List ProjectionEntry} {instant : Int} :
    resolve entries instant = none ↔ AscendingSearch.position (times entries) instant = 0 := by
  have hle := AscendingSearch.position_le_length (times entries) instant
  rw [length_times] at hle
  rw [resolve]
  cases hposition : AscendingSearch.position (times entries) instant with
  | zero => exact ⟨fun _ => rfl, fun _ => rfl⟩
  | succ n =>
      have hlt : n < entries.length := by omega
      simp [hlt]

namespace Lengthens

variable {entries longer : List ProjectionEntry} {instant : Int}

/-- An answer stays, or moves to a later version. -/
theorem advances (hlonger : Lengthens entries longer) (h : IsHistory entries) {e : ProjectionEntry}
    (he : resolve entries instant = some e) :
    ∃ e', resolve longer instant = some e' ∧
      (e'.toCandidateEntry = e.toCandidateEntry ∨ e.version < e'.version) := by
  obtain ⟨passed, hpassed⟩ := hlonger.exists_position instant
  have hle := AscendingSearch.position_le_length (times longer) instant
  rw [length_times] at hle
  rw [resolve] at he
  split at he
  next => cases he
  next n hn =>
    have hlt : n + passed < longer.length := by omega
    have hposition : AscendingSearch.position (times longer) instant = n + passed + 1 := by omega
    obtain ⟨now, hnow⟩ : ∃ now, longer[n + passed]? = some now :=
      ⟨_, List.getElem?_eq_getElem hlt⟩
    refine ⟨now, by rw [resolve, hposition]; exact hnow, ?_⟩
    cases passed with
    | zero =>
        obtain ⟨e', he', hsame, _⟩ := hlonger.exists_getElem? h he
        left
        rw [Nat.add_zero, he', Option.some.injEq] at hnow
        rw [← hnow]
        exact hsame
    | succ passed =>
        right
        rw [h.version n e he, (hlonger.isHistory h).version _ _ hnow]
        omega

/-- An instant before the first entry stays before it. -/
theorem uncovered (hlonger : Lengthens entries longer) (h : IsHistory entries)
    (hne : entries ≠ []) (hnone : resolve entries instant = none) :
    resolve longer instant = none := by
  rw [resolve_eq_none_iff, TokenProjection.position_eq_zero_iff (hlonger.isHistory h)]
  rw [resolve_eq_none_iff, TokenProjection.position_eq_zero_iff h] at hnone
  intro first hfirst
  cases entries with
  | nil => exact absurd rfl hne
  | cons head rest =>
      obtain ⟨e', he', hsame, _⟩ := hlonger.exists_getElem? h (rfl : (head :: rest)[0]? = some head)
      rw [← List.head?_eq_getElem?, hfirst, Option.some.injEq] at he'
      have heffective : first.effectiveAt = head.effectiveAt := by
        rw [he']
        exact congrArg CandidateEntry.effectiveAt hsame
      rw [heffective]
      exact hnone head rfl

end Lengthens

namespace Contracts.Assembly

variable {keccak256 : List UInt8 → Bytes32} {d : Deployment} {s s' : Assembly}

theorem push_lengthens (s : RegisterProjection) {written : Uint256}
    {p : RegisterProjection.Presented}
    (hc : Follows (s.history written) (s.candidate written p)) (tokenId : Uint256) :
    Lengthens (s.history tokenId) ((s.push written (s.nextEntry written p)).history tokenId) := by
  by_cases htoken : tokenId = written
  · subst htoken
    rw [RegisterProjection.history_push s p (RegisterProjection.follows_iff.mp hc).2.2.2.2]
    exact .single ⟨_, hc, rfl⟩
  · rw [RegisterProjection.history_push_of_ne s _ htoken]
    exact .refl

theorem effect_lengthens {ctx : Context d.settlement.address} {message : Message}
    (heffect : Effect keccak256 d s ctx message s') (tokenId : Uint256) :
    Lengthens (s.register.history tokenId) (s'.register.history tokenId) := by
  cases heffect with
  | initialized _ _ _ _ hc => exact push_lengthens s.register hc tokenId
  | begun => exact .refl
  | finalized _ _ _ _ _ hc => exact push_lengthens s.register hc tokenId
  | cancelled => exact .refl

theorem Sound.step_lengthens (h : s.Sound) (tx : Transaction d) (tokenId : Uint256) :
    Lengthens (s.register.history tokenId) ((s.step keccak256 d tx).register.history tokenId) := by
  unfold Assembly.step
  cases hcall : s.call keccak256 d tx with
  | error why => exact .refl
  | ok s' => exact effect_lengthens ((call_eq_ok h.register).mp hcall) tokenId

/-- The histories of a deployment that took more transactions. -/
theorem reached_lengthens {taken more : List (Transaction d)} (h : taken <+: more)
    (tokenId : Uint256) :
    Lengthens ((reached keccak256 d taken).register.history tokenId)
      ((reached keccak256 d more).register.history tokenId) := by
  obtain ⟨after, rfl⟩ := h
  rw [reached, reached, LabelledRun.run_append]
  exact LabelledRun.run_relates (Assembly.step keccak256 d) Assembly.Sound
    (fun s t => Lengthens (s.register.history tokenId) (t.register.history tokenId))
    (fun _ => .refl) (fun _ _ _ hst htu => hst.trans htu) (fun _ tx hs => hs.step tx)
    (fun _ tx hs => hs.step_lengthens tx tokenId) (sound_reached keccak256 d taken) after

end Contracts.Assembly

/-! ## What is read at one block -/

/-- A reader of an address without code: no answer, not even that nothing is supported. -/
structure AnswersNothing (reader : EthereumProjectionReader) : Prop where
  supportsProjection : reader.supportsProjection.toOption = none
  supportsSettlement : reader.supportsSettlement.toOption = none
  registerId : reader.registerId.toOption = none
  verificationProfile : reader.verificationProfile.toOption = none
  entryCount : ∀ tokenId, (reader.entryCount tokenId).toOption = none
  currentEntry : ∀ tokenId, (reader.currentEntry tokenId).toOption = none
  entryAt : ∀ tokenId version, (reader.entryAt tokenId version).toOption = none
  entryAsOf : ∀ tokenId instant, (reader.entryAsOf tokenId instant).toOption = none
  holderAsOf : ∀ tokenId instant, (reader.holderAsOf tokenId instant).toOption = none
  isFinalAsOf : ∀ tokenId instant, (reader.isFinalAsOf tokenId instant).toOption = none
  openGapOf : ∀ tokenId, (reader.openGapOf tokenId).toOption = none
  isSettlementAuthority : ∀ tokenId account,
    (reader.isSettlementAuthority tokenId account).toOption = none

section NoCode

variable {reader : EthereumProjectionReader}

/-- Such a call fails, or returns no data. -/
theorem call_noCode (hcode : NoCode reader.send reader.contract reader.block) (selector : String)
    (args : List CallArg) :
    (reader.call selector args).toOption = none ∨ reader.call selector args = .ok "0x" := by
  unfold EthereumProjectionReader.call
  cases EthereumAbi.encodeCall selector args with
  | error e => exact Or.inl rfl
  | ok data =>
      simp only [bind, Except.bind]
      rcases hcode data with hempty | ⟨e, he⟩
      · rw [hempty]
        exact Or.inr rfl
      · rw [he]
        exact Or.inl rfl

/-- No data is no word. -/
theorem slot_noCode (hcode : NoCode reader.send reader.contract reader.block) (selector : String)
    (args : List CallArg) {α : Type} (decode : String → Except Thrown α) :
    (reader.slot selector args >>= decode).toOption = none := by
  rw [toOption_bind, EthereumProjectionReader.slot, toOption_bind]
  rcases call_noCode hcode selector args with hfails | hempty
  · rw [hfails]
    rfl
  · rw [hempty]
    rfl

/-- No data is no entry. -/
theorem entry_noCode (hcode : NoCode reader.send reader.contract reader.block) (selector : String)
    (args : List CallArg) :
    (reader.call selector args >>= EthereumAbi.decodeEntry).toOption = none := by
  rw [toOption_bind]
  rcases call_noCode hcode selector args with hfails | hempty
  · rw [hfails]
    rfl
  · rw [hempty]
    rfl

theorem answersNothing (hcode : NoCode reader.send reader.contract reader.block) :
    AnswersNothing reader where
  supportsProjection := slot_noCode hcode _ _ _
  supportsSettlement := slot_noCode hcode _ _ _
  registerId := slot_noCode hcode _ _ _
  verificationProfile := slot_noCode hcode _ _ _
  entryCount _ := slot_noCode hcode _ _ _
  currentEntry _ := entry_noCode hcode _ _
  entryAt _ _ := entry_noCode hcode _ _
  entryAsOf _ _ := entry_noCode hcode _ _
  holderAsOf _ _ := slot_noCode hcode _ _ _
  isFinalAsOf _ _ := slot_noCode hcode _ _ _
  openGapOf _ := slot_noCode hcode _ _ _
  isSettlementAuthority _ _ := slot_noCode hcode _ _ _

end NoCode

/-- Over a node that has both contracts at a block, whatever transactions these took until then,
the register is read as its histories and the settlement contract as its open gaps. An address
without code is not read at all. -/
theorem ContractNode.reads_exact (keccak256 : List UInt8 → Contracts.Bytes32) {d : Deployment}
    (node : ContractNode d) (taken : List (Transaction d)) (block : String)
    (hnode : node.HasContracts block (Assembly.reached keccak256 d taken)) :
    RegisterAnswers (node.reader node.registerAddress block)
        (Contracts.bytes32Text d.register.registerId)
        (Assembly.reached keccak256 d taken).register.history ∧
      SettlementAnswers (node.reader d.settlement.address block)
        (Contracts.bytes32Text node.profileId) d.settlement.authorities
        (Assembly.reached keccak256 d taken).settlement.openGap ∧
      ∀ address, NoCode node.send address block →
        AnswersNothing ⟨node.send, address, block⟩ :=
  ⟨register_answers hnode (Assembly.sound_reached keccak256 d taken).register,
    settlement_answers hnode, fun _ hcode => answersNothing hcode⟩

namespace Contracts.Systems

/-! ### A node of the sample -/

/-- How compiled code answers the data of a call. -/
def answering (code : List Getter) (data : String) : Except Thrown JsValue :=
  match calldata data with
  | none => .error (.error "invalid argument")
  | some digits =>
      match run code digits with
      | none => .error (.error "execution reverted")
      | some returned => .ok (.string (Erc8415.hexText (abiEncode returned)))

theorem answering_runsCode {send : String → String → String → Except Thrown JsValue}
    {address block : String} {code : List Getter}
    (hsend : ∀ data, send address data block = answering code data) :
    RunsCode send address block code where
  returns data digits returned hdata hrun := by rw [hsend, answering, hdata]; simp only [hrun]
  reverts data digits hdata _ hrun := by
    refine ⟨.error "execution reverted", ?_⟩
    rw [hsend, answering, hdata]
    simp only [hrun]
  malformed data hdata := ⟨.error "invalid argument", by rw [hsend, answering, hdata]⟩

/-- The register at `0x42` and the settlement contract at `0x99`, over the storage at each block,
and no other code. -/
def sampleSend (storage : String → Assembly) (address data block : String) :
    Except Thrown JsValue :=
  if address = addressText 0x42 then
    answering (registerCode sampleSettings.deployment.register (storage block).register) data
  else if address = addressText 0x99 then
    answering (settlementCode sampleSettings.deployment.settlement 0x1234
      (storage block).settlement) data
  else .ok (.string "0x")

theorem sampleSend_register (storage : String → Assembly) (data block : String) :
    sampleSend storage (addressText 0x42) data block =
      answering (registerCode sampleSettings.deployment.register (storage block).register) data :=
  if_pos rfl

theorem sampleSend_settlement (storage : String → Assembly) (data block : String) :
    sampleSend storage (addressText 0x99) data block =
      answering (settlementCode sampleSettings.deployment.settlement 0x1234
        (storage block).settlement) data := by
  have hne : addressText 0x99 ≠ addressText 0x42 := by
    rw [Ne, addressText_inj]
    decide
  rw [sampleSend, if_neg hne, if_pos rfl]

theorem sampleSend_noCode (storage : String → Assembly) (block : String) :
    NoCode (sampleSend storage) (addressText 0x77) block := by
  have hregister : addressText 0x77 ≠ addressText 0x42 := by
    rw [Ne, addressText_inj]
    decide
  have hsettlement : addressText 0x77 ≠ addressText 0x99 := by
    rw [Ne, addressText_inj]
    decide
  intro data
  left
  rw [sampleSend, if_neg hregister, if_neg hsettlement]

def sampleNode (storage : String → Assembly) : ContractNode sampleSettings.deployment where
  send := sampleSend storage
  registerAddress := 0x42
  profileId := 0x1234

theorem sampleNode_hasContracts (storage : String → Assembly) (block : String) :
    (sampleNode storage).HasContracts block (storage block) where
  register := by
    change RunsCode (sampleSend storage) (addressText 0x42) block
      (registerCode sampleSettings.deployment.register (storage block).register)
    exact answering_runsCode fun data => sampleSend_register storage data block
  settlement := by
    change RunsCode (sampleSend storage) (addressText 0x99) block
      (settlementCode sampleSettings.deployment.settlement 0x1234 (storage block).settlement)
    exact answering_runsCode fun data => sampleSend_settlement storage data block

/-- The first entry, and the sample calls after it. -/
def sampleTransactions : List (Transaction sampleSettings.deployment) :=
  ⟨sampleContext 120, .initializeRegister 1 1 2 0xbb 100 []⟩ ::
    sampleCalls.map SettlementCall.transaction

/-- The finalized block follows the second entry, and the latest takes the rest. -/
def sampleTaken (block : String) : List (Transaction sampleSettings.deployment) :=
  if block = "finalized" then sampleTransactions.take 3 else sampleTransactions

def sampleStorage (block : String) : Assembly :=
  Assembly.reached sampleKeccak256 sampleSettings.deployment (sampleTaken block)

theorem reads_exact_sample :
    (sampleStorage "latest").register.entryCount 1 = 2 ∧
      RegisterAnswers ((sampleNode sampleStorage).reader 0x42 "latest")
        (bytes32Text sampleSettings.deployment.register.registerId)
        (sampleStorage "latest").register.history ∧
      SettlementAnswers ((sampleNode sampleStorage).reader 0x99 "latest") (bytes32Text 0x1234)
        sampleSettings.deployment.settlement.authorities
        (sampleStorage "latest").settlement.openGap ∧
      AnswersNothing ⟨(sampleNode sampleStorage).send, addressText 0x77, "latest"⟩ := by
  obtain ⟨hregister, hsettlement, hnothing⟩ :=
    (sampleNode sampleStorage).reads_exact sampleKeccak256 (sampleTaken "latest") "latest"
      (sampleNode_hasContracts sampleStorage "latest")
  exact ⟨by decide, hregister, hsettlement,
    hnothing _ (sampleSend_noCode sampleStorage "latest")⟩

end Contracts.Systems

/-! ## What is read at a later block -/

/-- What a reader at a later block says of an answer at an earlier one. -/
structure TakesNothingBack (earlier later : EthereumProjectionReader) : Prop where
  /-- A final answer is final, and the answer. -/
  final : ∀ (tokenId : Uint256) (instant : Int),
    earlier.isFinalAsOf tokenId.toNat instant = .ok true →
      later.isFinalAsOf tokenId.toNat instant = .ok true ∧
      ∃ e, earlier.entryAsOf tokenId.toNat instant = .ok e ∧
        later.entryAsOf tokenId.toNat instant = .ok e
  /-- An answer that is not final stays, but for its supersession, or gives way to a later
  version. -/
  entryAsOf : ∀ (tokenId : Uint256) (instant : Int) (e : ProjectionEntry),
    earlier.entryAsOf tokenId.toNat instant = .ok e →
      ∃ e', later.entryAsOf tokenId.toNat instant = .ok e' ∧
        (e'.toCandidateEntry = e.toCandidateEntry ∨ e.version < e'.version)
  /-- A token that has entries covers no instant it did not cover. -/
  uncovered : ∀ (tokenId : Uint256) (instant : Int),
    earlier.entryCount tokenId.toNat ≠ .ok 0 →
      (earlier.entryAsOf tokenId.toNat instant).toOption = none →
        (later.entryAsOf tokenId.toNat instant).toOption = none
  /-- A version names the same entry, which is superseded once. -/
  entryAt : ∀ (tokenId : Uint256) (version : Int) (e : ProjectionEntry),
    earlier.entryAt tokenId.toNat version = .ok e →
      ∃ e', later.entryAt tokenId.toNat version = .ok e' ∧
        e'.toCandidateEntry = e.toCandidateEntry ∧ (e.supersededAt ≠ 0 → e' = e)
  entryCount : ∀ tokenId : Uint256, ∃ m n : Int, earlier.entryCount tokenId.toNat = .ok m ∧
    later.entryCount tokenId.toNat = .ok n ∧ m ≤ n

/-- Of two readers of a register, the later history being the longer one. -/
theorem RegisterAnswers.takesNothingBack {earlier later : EthereumProjectionReader}
    {registerId : Bytes32} {history history' : Uint256 → List ProjectionEntry}
    (h : RegisterAnswers earlier registerId history)
    (h' : RegisterAnswers later registerId history')
    (hhistory : ∀ tokenId, IsHistory (history tokenId))
    (hlonger : ∀ tokenId, Lengthens (history tokenId) (history' tokenId)) :
    TakesNothingBack earlier later where
  final := by
    intro tokenId instant hfinal
    rw [h.final] at hfinal
    have hinstant := (hhistory tokenId).isUint64_of_final hfinal
    obtain ⟨hkept, hsame⟩ := (hlonger tokenId).final (hhistory tokenId) hfinal
    obtain ⟨e, he⟩ := hfinal.exists_resolve
    refine ⟨(h'.final tokenId instant).mpr hkept, e, ?_, ?_⟩
    · rw [← toOption_eq_some, h.entryAsOf, if_pos hinstant, he]
    · rw [← toOption_eq_some, h'.entryAsOf, if_pos hinstant, hsame, he]
  entryAsOf := by
    intro tokenId instant e he
    rw [← toOption_eq_some, h.entryAsOf] at he
    split at he
    next hinstant =>
      obtain ⟨e', he', hmoved⟩ := (hlonger tokenId).advances (hhistory tokenId) he
      refine ⟨e', ?_, hmoved⟩
      rw [← toOption_eq_some, h'.entryAsOf, if_pos hinstant, he']
    next => cases he
  uncovered := by
    intro tokenId instant hcount hnone
    rw [h.entryCount] at hcount
    rw [h.entryAsOf] at hnone
    rw [h'.entryAsOf]
    have hne : history tokenId ≠ [] := by
      intro hnil
      rw [hnil] at hcount
      exact hcount rfl
    split
    next hinstant =>
      rw [if_pos hinstant] at hnone
      exact (hlonger tokenId).uncovered (hhistory tokenId) hne hnone
    next => rfl
  entryAt := by
    intro tokenId version e he
    rw [← toOption_eq_some, h.entryAt] at he
    split at he
    next hversion =>
      obtain ⟨e', he', hsame⟩ := (hlonger tokenId).exists_getElem? (hhistory tokenId) he
      refine ⟨e', ?_, hsame⟩
      rw [← toOption_eq_some, h'.entryAt, if_pos hversion, he']
    next => cases he
  entryCount := by
    intro tokenId
    refine ⟨_, _, h.entryCount tokenId, h'.entryCount tokenId, ?_⟩
    exact_mod_cast (hlonger tokenId).length_le

/-- Nothing a register said at a block is taken back at a later one. -/
theorem ContractNode.reads_settle (keccak256 : List UInt8 → Contracts.Bytes32) {d : Deployment}
    (node : ContractNode d) {taken more : List (Transaction d)} (hmore : taken <+: more)
    {earlier later : String}
    (hearlier : node.HasContracts earlier (Assembly.reached keccak256 d taken))
    (hlater : node.HasContracts later (Assembly.reached keccak256 d more)) :
    TakesNothingBack (node.reader node.registerAddress earlier)
      (node.reader node.registerAddress later) := by
  have hsound := (Assembly.sound_reached keccak256 d taken).register
  have hsound' := (Assembly.sound_reached keccak256 d more).register
  exact (register_answers hearlier hsound).takesNothingBack (register_answers hlater hsound')
    hsound.history (Assembly.reached_lengthens hmore)

theorem Contracts.Systems.reads_settle_sample :
    TakesNothingBack ((sampleNode sampleStorage).reader 0x42 "finalized")
      ((sampleNode sampleStorage).reader 0x42 "latest") :=
  (sampleNode sampleStorage).reads_settle sampleKeccak256 (List.take_prefix 3 sampleTransactions)
    (sampleNode_hasContracts sampleStorage "finalized")
    (sampleNode_hasContracts sampleStorage "latest")

/-! ## Reading the chain and asking the engine -/

theorem IsHistory.getElem?_version {entries : List ProjectionEntry} (h : IsHistory entries)
    {version : Int} {e : ProjectionEntry} :
    (if 1 ≤ version then entries[(version - 1).toNat]? else none) = some e ↔
      e ∈ entries ∧ e.version = version := by
  constructor
  · intro he
    split at he
    next hversion =>
      have hnumber := h.version _ e he
      exact ⟨List.mem_of_getElem? he, by omega⟩
    next => cases he
  · rintro ⟨hmem, rfl⟩
    obtain ⟨i, hi, hget⟩ := List.mem_iff_getElem.mp hmem
    have hsome : entries[i]? = some e := by rw [List.getElem?_eq_getElem hi, hget]
    have hnumber := h.version i e hsome
    have hindex : (e.version - 1).toNat = i := by omega
    rw [if_pos (by omega), hindex, hsome]

/-- Readers of the contracts that answer what a store answers. An instant that is no `uint64`
can be asked of the store alone. -/
structure ReadAlike {σ : Type} (register settlement : EthereumProjectionReader)
    (s : ProjectionStore σ) : Prop where
  entryCount : ∀ tokenId : Uint256,
    register.entryCount tokenId.toNat = .ok (s.entryCount tokenId.toNat)
  entryAt : ∀ (tokenId : Uint256) (version : Int) (e : ProjectionEntry),
    register.entryAt tokenId.toNat version = .ok e ↔
      s.entryAt tokenId.toNat version = some (.ok e)
  currentEntry : ∀ (tokenId : Uint256) (e : ProjectionEntry),
    register.currentEntry tokenId.toNat = .ok e ↔ s.currentEntry tokenId.toNat = .ok e
  entryAsOf : ∀ (tokenId : Uint256) (instant : Int) (e : ProjectionEntry),
    isUint64 instant = true → s.entryCount tokenId.toNat < searchBound →
      (register.entryAsOf tokenId.toNat instant = .ok e ↔
        s.entryAsOf tokenId.toNat instant = some (.ok e))
  holderAsOf : ∀ (tokenId : Uint256) (instant : Int) (holder : Address),
    isUint64 instant = true → s.entryCount tokenId.toNat < searchBound →
      (register.holderAsOf tokenId.toNat instant = .ok holder ↔
        s.holderAsOf tokenId.toNat instant = some (.ok holder))
  isFinalAsOf : ∀ (tokenId : Uint256) (instant : Int), isUint64 instant = true →
    register.isFinalAsOf tokenId.toNat instant = .ok (s.isFinalAsOf tokenId.toNat instant)
  openGapOf : ∀ tokenId : Uint256,
    settlement.openGapOf tokenId.toNat = .ok (s.openGapOf tokenId.toNat)

namespace ProjectionStore

variable {σ : Type} {s : ProjectionStore σ}

theorem currentEntry_eq_ok {tokenId : Int} {e : ProjectionEntry} :
    s.currentEntry tokenId = .ok e ↔ (s.entries tokenId).getLast? = some e := by
  unfold ProjectionStore.currentEntry requireProjection entries
  cases s.projections.get (key tokenId) with
  | none => simp [reject, bind, Except.bind]
  | some p =>
      change p.currentEntry = .ok e ↔ p.entries.getLast? = some e
      rw [TokenProjection.currentEntry]
      cases p.entries.getLast? <;> simp [reject]

theorem Valid.holderAsOf_eq_ok (h : s.Valid) {tokenId instant : Int} {holder : Address}
    (hbound : s.entryCount tokenId < searchBound) :
    s.holderAsOf tokenId instant = some (.ok holder) ↔
      (resolve (s.entries tokenId) instant).map (fun e => e.holder) = some holder := by
  rw [holderAsOf_eq, Option.map_eq_some_iff, Option.map_eq_some_iff]
  constructor
  · rintro ⟨answer, hanswer, hholder⟩
    cases answer with
    | error e => cases hholder
    | ok e =>
        cases hholder
        exact ⟨e, (h.entryAsOf_eq_ok hbound).mp hanswer, rfl⟩
  · rintro ⟨e, he, rfl⟩
    exact ⟨.ok e, (h.entryAsOf_eq_ok hbound).mpr he, rfl⟩

end ProjectionStore

namespace Contracts.Systems

variable {σ : Type} {p : Settings} {now : Systems σ}

/-- Systems that match are read alike. -/
theorem Matched.readAlike (h : now.Matched) (node : ContractNode p.deployment) {block : String}
    (hnode : node.HasContracts block now.contracts) :
    ReadAlike (node.reader node.registerAddress block)
      (node.reader p.deployment.settlement.address block) now.store := by
  have hregister := register_answers hnode h.register
  have hsettlement := settlement_answers hnode
  have hvalid := h.served.valid
  refine ⟨?_, ?_, ?_, ?_, ?_, ?_, ?_⟩
  · intro tokenId
    rw [hregister.entryCount, ProjectionStore.entryCount_eq, h.view.entries]
  · intro tokenId version e
    rw [← toOption_eq_some, hregister.entryAt, (h.register.history tokenId).getElem?_version,
      hvalid.entryAt_eq_ok, h.view.entries]
  · intro tokenId e
    rw [← toOption_eq_some, hregister.currentEntry, ProjectionStore.currentEntry_eq_ok,
      h.view.entries]
  · intro tokenId instant e hinstant hbound
    rw [← toOption_eq_some, hregister.entryAsOf, if_pos hinstant, hvalid.entryAsOf_eq_ok hbound,
      h.view.entries]
  · intro tokenId instant holder hinstant hbound
    rw [← toOption_eq_some, hregister.holderAsOf, if_pos hinstant,
      hvalid.holderAsOf_eq_ok hbound, h.view.entries]
  · intro tokenId instant hinstant
    have hfinal := hvalid.isFinalAsOf_iff tokenId.toNat instant
    rw [h.view.entries] at hfinal
    cases hanswer : now.store.isFinalAsOf tokenId.toNat instant with
    | true => exact (hregister.final tokenId instant).mpr (hfinal.mp hanswer)
    | false =>
        rw [hregister.provisional]
        refine ⟨hinstant, fun hsettled => ?_⟩
        rw [hfinal.mpr hsettled] at hanswer
        cases hanswer
  · intro tokenId
    rw [hsettlement.openGapOf, h.view.openGapOf]

/-- From an initialized register, after any fair sequence of calls to both systems, the reader
answers of the contracts what the engine's store answers. -/
theorem run_reads_alike (keccak256 : List UInt8 → Bytes32) (o : StoreConfig σ)
    (start : Systems σ) (hstart : start.Initialized) (calls : List (SettlementCall p.contract))
    (hfair : LabelledRun.Admissible (step keccak256 p o) (Fair keccak256 p o) start calls)
    (node : ContractNode p.deployment) (block : String)
    (hnode : node.HasContracts block
      (LabelledRun.run (step keccak256 p o) start calls).contracts) :
    ReadAlike (node.reader node.registerAddress block)
      (node.reader p.deployment.settlement.address block)
      (LabelledRun.run (step keccak256 p o) start calls).store := by
  have hmatched : (LabelledRun.run (step keccak256 p o) start calls).Matched :=
    LabelledRun.admissible_invariant (step keccak256 p o) Matched
      (fun _ _ h hfair => (h.joint hfair).matched h) hstart.matched hfair
  exact hmatched.readAlike node hnode

theorem run_reads_alike_sample :
    let reached :=
      LabelledRun.run (step sampleKeccak256 sampleSettings ProjectionStore.memoryConfig)
        sampleStart sampleCalls
    let node := sampleNode fun _ => reached.contracts
    ReadAlike (node.reader 0x42 "latest") (node.reader 0x99 "latest") reached.store := by
  intro reached node
  exact run_reads_alike sampleKeccak256 ProjectionStore.memoryConfig sampleStart
    sampleStart_initialized sampleCalls sampleCalls_fair node "latest"
    (sampleNode_hasContracts (fun _ => reached.contracts) "latest")

end Contracts.Systems

end Erc8415
