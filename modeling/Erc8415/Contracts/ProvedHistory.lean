import Erc8415.Contracts.AssemblyInvariant

/-! # On-chain history is proved history

Every stored entry was appended by one transaction, in which the verifier
accepted a digest of a preimage made of that entry's own fields. Since a
preimage fixes the token and the version, no two entries were written from the
same one.
-/

namespace Erc8415.Contracts

open ProjectionSettlement RegisterProjection

/-! ## Preimages -/

theorem abiEncode_inj {words words' : List Bytes32} (h : abiEncode words = abiEncode words') :
    words = words' := by
  induction words generalizing words' with
  | nil =>
      cases words' with
      | nil => rfl
      | cons word rest =>
          have hlength := congrArg List.length h
          simp only [abiEncode, List.flatMap_nil, List.flatMap_cons, List.length_append,
            Sha256.length_bigEndian, List.length_nil] at hlength
          omega
  | cons word rest ih =>
      cases words' with
      | nil =>
          have hlength := congrArg List.length h
          simp [abiEncode] at hlength
      | cons word' rest' =>
          simp only [abiEncode, List.flatMap_cons] at h
          obtain ⟨hword, hrest⟩ := List.append_inj h (by simp)
          have hnat : word.toNat = word'.toNat :=
            Sha256.bigEndian_inj (lt_of_lt_of_eq word.isLt (by decide))
              (lt_of_lt_of_eq word'.isLt (by decide)) hword
          rw [BitVec.eq_of_toNat_eq hnat, ih hrest]

theorem setWidth_inj {w : Nat} (hw : w ≤ 256) {a b : BitVec w}
    (h : a.setWidth 256 = b.setWidth 256) : a = b := by
  have hpow : 2 ^ w ≤ 2 ^ 256 := Nat.pow_le_pow_right (by decide) hw
  have hnat := congrArg BitVec.toNat h
  rw [BitVec.toNat_setWidth, BitVec.toNat_setWidth,
    Nat.mod_eq_of_lt (lt_of_lt_of_le a.isLt hpow),
    Nat.mod_eq_of_lt (lt_of_lt_of_le b.isLt hpow)] at hnat
  exact BitVec.eq_of_toNat_eq hnat

/-- Equal preimages bind the same fields. -/
theorem Binding.preimage_inj {b b' : Binding} (h : b.preimage = b'.preimage) : b = b' := by
  have hwords := abiEncode_inj h
  simp only [Binding.words, List.cons.injEq, and_true] at hwords
  obtain ⟨hdomain, hchain, hcontract, htoken, hid, hsnapshot, hholder, hprevious, hrecord,
    hversion, heffective, hreference⟩ := hwords
  have hcontract := setWidth_inj (by decide) hcontract
  have hholder := setWidth_inj (by decide) hholder
  have hversion := setWidth_inj (by decide) hversion
  have heffective := setWidth_inj (by decide) heffective
  cases b
  cases b'
  simp_all only

namespace Assembly

variable {keccak256 : List UInt8 → Bytes32} {d : Deployment} {s s' : Assembly}

/-! ## Writing an entry -/

/-- What a transaction asks the verifier about: the bound fields, and the proof. -/
def asked (keccak256 : List UInt8 → Bytes32) (d : Deployment) (s : Assembly)
    (tx : Transaction d) : Option (Binding × List UInt8) :=
  match tx.message with
  | .initializeRegister tokenId recordCommitment registryReference holder effectiveAt proofData =>
      some (initializationFields keccak256 d.settlement tx.context tokenId recordCommitment
        registryReference holder effectiveAt, proofData)
  | .finalizeSettlement settlementId recordCommitment registryReference effectiveAt proofData =>
      match admissionFields keccak256 d.settlement s tx.context settlementId recordCommitment
          registryReference effectiveAt with
      | .ok binding => some (binding, proofData)
      | .error _ => none
  | _ => none

/-- The settlement a binding names is open, for the entry's token and holder, with the bound
snapshot, and its deadline has not passed. -/
structure InTime (s : Assembly) {contract : Address} (ctx : Context contract)
    (tokenId : Uint256) (e : RegisterEntry) (b : Binding) : Prop where
  status : (s.settlement.settlements b.settlementId).status = .open
  token : (s.settlement.settlements b.settlementId).tokenId = tokenId
  holder : (s.settlement.settlements b.settlementId).expectedHolder = e.holder
  snapshot : (s.settlement.settlements b.settlementId).snapshotHash = b.snapshotHash
  deadline : ctx.timestamp.toNat ≤ (s.settlement.settlements b.settlementId).deadline.toNat

/-- The transaction appended the entry to the token's list, after the verifier accepted a
digest of exactly the entry's fields. -/
structure Wrote (keccak256 : List UInt8 → Bytes32) (d : Deployment) (s : Assembly)
    (tx : Transaction d) (tokenId : Uint256) (e : RegisterEntry) (b : Binding) : Prop where
  appended : ∃ s', s.call keccak256 d tx = .ok s' ∧ s'.register.entries tokenId =
    supersede (s.register.entries tokenId) e.effectiveAt ++ [e]
  verified : ∃ proofData, s.asked keccak256 d tx = some (b, proofData) ∧
    tx.context.verifyAdmission (keccak256 b.preimage) proofData = true
  token : b.tokenId = tokenId
  holder : b.holder = e.holder
  previousCommitment : b.previousCommitment = e.previousCommitment
  recordCommitment : b.recordCommitment = e.recordCommitment
  version : b.version = e.version
  effectiveAt : b.effectiveAt = e.effectiveAt
  registryReference : b.registryReference = e.registryReference
  genesis : e.version = 1 → b.settlementId = 0
  settlement : 2 ≤ e.version → s.InTime tx.context tokenId e b

/-- The fields the contract binds, as the inversion of the call has them. -/
theorem admissionFields_eq (h : s.register.Valid) {ctx : Context d.settlement.address}
    {settlementId recordCommitment registryReference : Bytes32} {effectiveAt : Uint64}
    (hstatus : (s.settlement.settlements settlementId).status ≠ .none)
    (hne : s.register.entries (s.settlement.settlements settlementId).tokenId ≠ [])
    (hroom : (s.register.entries (s.settlement.settlements settlementId).tokenId).length + 1 <
      2 ^ 64) :
    admissionFields keccak256 d.settlement s ctx settlementId recordCommitment registryReference
        effectiveAt =
      .ok (admissionProved keccak256 d s ctx settlementId recordCommitment registryReference
        effectiveAt) := by
  have hlast := List.getLast?_eq_some_getLast hne
  simp only [admissionFields, bind_eq_ok, revertIf_eq_ok]
  refine ⟨(), hstatus, _, currentEntry_eq_ok.mpr hlast, _,
    (h.nextVersion_eq_ok hlast).mpr ⟨hroom, rfl⟩, ?_⟩
  simp only [admissionProved, tipWord, hlast]
  rfl

/-- A transaction writes an entry of a token, with a proof of it, or leaves the token's
entries alone. -/
theorem Sound.step_entries (keccak256 : List UInt8 → Bytes32) (h : s.Sound) (tx : Transaction d)
    (tokenId : Uint256) :
    (∃ e b, Wrote keccak256 d s tx tokenId e b) ∨
      (s.step keccak256 d tx).register.entries tokenId = s.register.entries tokenId := by
  obtain ⟨ctx, message⟩ := tx
  unfold Assembly.step
  cases hcall : s.call keccak256 d ⟨ctx, message⟩ with
  | error why => exact Or.inr rfl
  | ok s' =>
      have heffect := (call_eq_ok h.register).mp hcall
      dsimp only at heffect ⊢
      cases heffect with
      | @initialized written record reference holder effectiveAt proofData hauthority hverified
          hnil hholder hc =>
          by_cases htoken : tokenId = written
          · subst htoken
            refine Or.inl ⟨_, initializationFields keccak256 d.settlement ctx tokenId record
              reference holder effectiveAt, {
                appended := ⟨_, hcall, push_entries_self ..⟩
                verified := ⟨proofData, rfl, hverified⟩
                token := rfl
                holder := rfl
                previousCommitment := rfl
                recordCommitment := rfl
                version := ?_
                effectiveAt := rfl
                registryReference := rfl
                genesis := fun _ => rfl
                settlement := fun hlater => ?_ }⟩
            · simp only [initializationFields, nextEntry, hnil]
              rfl
            · simp only [nextEntry, hnil] at hlater
              exact absurd hlater (by decide)
          · exact Or.inr (push_entries_of_ne _ _ htoken)
      | begun => exact Or.inr rfl
      | @finalized id record reference effectiveAt proofData hopen hdeadline hne hverified hholder
          hc =>
          by_cases htoken : tokenId = (s.settlement.settlements id).tokenId
          · subst htoken
            have hroom := (follows_iff.mp hc).2.2.2.2
            have hfields : admissionFields keccak256 d.settlement s ctx id record reference
                effectiveAt = .ok (admissionProved keccak256 d s ctx id record reference
                  effectiveAt) :=
              admissionFields_eq h.register (by simp [hopen]) hne hroom
            have hpos := List.length_pos_of_ne_nil hne
            refine Or.inl ⟨_, admissionProved keccak256 d s ctx id record reference effectiveAt, {
                appended := ⟨_, hcall, push_entries_self ..⟩
                verified := ⟨proofData, by simp only [asked, hfields], hverified⟩
                token := rfl
                holder := rfl
                previousCommitment := rfl
                recordCommitment := rfl
                version := rfl
                effectiveAt := rfl
                registryReference := rfl
                genesis := fun hfirst => ?_
                settlement := fun _ => ⟨hopen, rfl, rfl, rfl, ?_⟩ }⟩
            · have hversion := congrArg BitVec.toNat hfirst
              have hone : (1 : Uint64).toNat = 1 := rfl
              simp only [nextEntry, BitVec.toNat_ofNat, Nat.mod_eq_of_lt hroom] at hversion
              omega
            · rw [← ctx.toNat_now]
              exact hdeadline
          · exact Or.inr (push_entries_of_ne _ _ htoken)
      | cancelled => exact Or.inr rfl

/-! ## Whole runs -/

/-- The state the first `k` transactions leave. -/
def after (keccak256 : List UInt8 → Bytes32) (d : Deployment) (txs : List (Transaction d))
    (k : Nat) : Assembly :=
  LabelledRun.run (step keccak256 d) deployed (txs.take k)

/-- Transaction `k` of a run wrote the entry. -/
def Writes (keccak256 : List UInt8 → Bytes32) (d : Deployment) (txs : List (Transaction d))
    (k : Nat) (tokenId : Uint256) (e : RegisterEntry) (b : Binding) : Prop :=
  ∃ tx, txs[k]? = some tx ∧ Wrote keccak256 d (after keccak256 d txs k) tx tokenId e b

section Runs

variable {txs : List (Transaction d)} {tokenId tokenId' : Uint256} {e e' : RegisterEntry}
  {b b' : Binding}

theorem sound_after (k : Nat) : (after keccak256 d txs k).Sound :=
  Sound.deployed.run (txs.take k)

/-- A write appends to its token's list. -/
theorem Wrote.step_entries {tx : Transaction d} (hwrote : Wrote keccak256 d s tx tokenId e b) :
    (s.step keccak256 d tx).register.entries tokenId =
      supersede (s.register.entries tokenId) e.effectiveAt ++ [e] := by
  obtain ⟨s', hcall, hentries⟩ := hwrote.appended
  rw [Assembly.step, hcall]
  exact hentries

/-- The version written counts the entries there were. -/
theorem Wrote.version_eq (h : s.Sound) {tx : Transaction d}
    (hwrote : Wrote keccak256 d s tx tokenId e b) :
    e.version.toNat = (s.register.entries tokenId).length + 1 := by
  have h' : (s.step keccak256 d tx).Sound := h.step tx
  have hlast : ((s.step keccak256 d tx).register.entries tokenId).getLast? = some e := by
    rw [hwrote.step_entries, List.getLast?_concat]
  have hversion := h'.register.last_version hlast
  rw [hwrote.step_entries, List.length_append, length_supersede, List.length_singleton] at hversion
  exact hversion

theorem Sound.step_length_le (keccak256 : List UInt8 → Bytes32) (h : s.Sound)
    (tx : Transaction d) (tokenId : Uint256) :
    (s.register.entries tokenId).length ≤
      ((s.step keccak256 d tx).register.entries tokenId).length := by
  rcases h.step_entries keccak256 tx tokenId with ⟨e, b, hwrote⟩ | hsame
  · rw [hwrote.step_entries, List.length_append, length_supersede]
    exact Nat.le_add_right ..
  · rw [hsame]

theorem Sound.run_length_le (h : s.Sound) (txs : List (Transaction d)) (tokenId : Uint256) :
    (s.register.entries tokenId).length ≤
      ((LabelledRun.run (Assembly.step keccak256 d) s txs).register.entries tokenId).length :=
  LabelledRun.run_relates (Assembly.step keccak256 d) Assembly.Sound
    (fun s t => (s.register.entries tokenId).length ≤ (t.register.entries tokenId).length)
    (fun _ => Nat.le_refl _) (fun _ _ _ hst htu => Nat.le_trans hst htu)
    (fun _ tx hs => hs.step tx) (fun _ tx hs => hs.step_length_le keccak256 tx tokenId) h txs

theorem after_succ {k : Nat} {tx : Transaction d} (hk : txs[k]? = some tx) :
    after keccak256 d txs (k + 1) = (after keccak256 d txs k).step keccak256 d tx := by
  rw [after, List.take_add_one, hk]
  exact LabelledRun.run_concat ..

/-- Later states of a run have at least the entries of earlier ones. -/
theorem length_after_le {j k : Nat} (hjk : j ≤ k) (tokenId : Uint256) :
    ((after keccak256 d txs j).register.entries tokenId).length ≤
      ((after keccak256 d txs k).register.entries tokenId).length := by
  obtain ⟨m, rfl⟩ := Nat.exists_eq_add_of_le hjk
  rw [after, after, List.take_add, LabelledRun.run_append]
  exact (Sound.deployed.run _).run_length_le _ tokenId

/-- A later write to a token has a greater version. -/
theorem Writes.version_lt {k k' : Nat} (hk : k < k') (h : Writes keccak256 d txs k tokenId e b)
    (h' : Writes keccak256 d txs k' tokenId e' b') : e.version.toNat < e'.version.toNat := by
  obtain ⟨tx, htx, hwrote⟩ := h
  obtain ⟨tx', _, hwrote'⟩ := h'
  have hgrows : ((after keccak256 d txs (k + 1)).register.entries tokenId).length ≤
      ((after keccak256 d txs k').register.entries tokenId).length := length_after_le hk tokenId
  rw [after_succ htx, hwrote.step_entries, List.length_append, length_supersede,
    List.length_singleton] at hgrows
  rw [hwrote.version_eq (sound_after k), hwrote'.version_eq (sound_after k')]
  omega

/-- Each version of a token is written by one transaction. -/
theorem Writes.once {k k' : Nat} (h : Writes keccak256 d txs k tokenId e b)
    (h' : Writes keccak256 d txs k' tokenId e' b') (hversion : e.version = e'.version) :
    k = k' := by
  rcases Nat.lt_trichotomy k k' with hlt | heq | hlt
  · have hless := h.version_lt hlt h'
    rw [hversion] at hless
    exact absurd hless (Nat.lt_irrefl _)
  · exact heq
  · have hless := h'.version_lt hlt h
    rw [hversion] at hless
    exact absurd hless (Nat.lt_irrefl _)

/-- Two writes from equal preimages are one write. -/
theorem Writes.distinct {k k' : Nat} (h : Writes keccak256 d txs k tokenId e b)
    (h' : Writes keccak256 d txs k' tokenId' e' b') (hpreimage : b.preimage = b'.preimage) :
    k = k' ∧ tokenId = tokenId' ∧ e = e' := by
  have hbinding := Binding.preimage_inj hpreimage
  subst hbinding
  obtain ⟨tx, htx, hwrote⟩ := h
  obtain ⟨tx', htx', hwrote'⟩ := h'
  have htoken : tokenId = tokenId' := hwrote.token.symm.trans hwrote'.token
  subst htoken
  have hversion : e.version = e'.version := hwrote.version.symm.trans hwrote'.version
  have hk : k = k' := Writes.once ⟨tx, htx, hwrote⟩ ⟨tx', htx', hwrote'⟩ hversion
  subst hk
  rw [htx] at htx'
  cases htx'
  have hsame := hwrote.step_entries.symm.trans hwrote'.step_entries
  exact ⟨rfl, rfl, List.head_eq_of_cons_eq (List.append_inj hsame (by simp)).2⟩

theorem supersede_getElem? {list : List RegisterEntry} {effectiveAt : Uint64} {i : Nat}
    (he : (supersede list effectiveAt)[i]? = some e) :
    ∃ e₀, list[i]? = some e₀ ∧ e = { e₀ with supersededAt := e.supersededAt } := by
  rw [supersede, List.getElem?_modify] at he
  obtain ⟨e₀, he₀, rfl⟩ := Option.map_eq_some_iff.mp he
  refine ⟨e₀, he₀, ?_⟩
  split <;> rfl

/-- Every stored entry was written by a transaction; since then only its `supersededAt` may
have been set. -/
theorem stored (k : Nat) {i : Nat}
    (he : ((after keccak256 d txs k).register.entries tokenId)[i]? = some e) :
    ∃ j w b, Writes keccak256 d txs j tokenId w b ∧ w.version.toNat = i + 1 ∧
      e = { w with supersededAt := e.supersededAt } := by
  induction k generalizing e with
  | zero =>
      rw [after, List.take_zero] at he
      cases he
  | succ k ih =>
      cases hk : txs[k]? with
      | none =>
          rw [after, List.take_add_one, hk, Option.toList_none, List.append_nil] at he
          exact ih he
      | some tx =>
          have hsound : (after keccak256 d txs k).Sound := sound_after k
          rw [after_succ hk] at he
          rcases hsound.step_entries keccak256 tx tokenId with ⟨w, b, hwrote⟩ | hsame
          · rw [hwrote.step_entries, List.getElem?_append] at he
            split at he
            · obtain ⟨e₀, he₀, heq⟩ := supersede_getElem? he
              obtain ⟨j, w', b', hwrites, hversion, heq'⟩ := ih he₀
              refine ⟨j, w', b', hwrites, hversion, ?_⟩
              rw [heq, heq']
            · next hlast =>
              rw [length_supersede] at he hlast
              rw [List.getElem?_singleton] at he
              obtain ⟨hindex, heq⟩ := Option.ite_none_right_eq_some.mp he
              cases heq
              refine ⟨k, e, b, ⟨tx, hk, hwrote⟩, ?_, rfl⟩
              rw [hwrote.version_eq hsound]
              omega
          · rw [hsame] at he
            exact ih he

end Runs

/-- What a run of transactions leaves on chain. -/
structure ProvedHistory (keccak256 : List UInt8 → Bytes32) (d : Deployment)
    (txs : List (Transaction d)) : Prop where
  stored : ∀ tokenId (i : Nat) e,
    ((after keccak256 d txs txs.length).register.entries tokenId)[i]? = some e →
    ∃ k w b, Writes keccak256 d txs k tokenId w b ∧ w.version.toNat = i + 1 ∧
      e = { w with supersededAt := e.supersededAt }
  once : ∀ k k' tokenId w w' b b', Writes keccak256 d txs k tokenId w b →
    Writes keccak256 d txs k' tokenId w' b' → w.version = w'.version → k = k'
  distinct : ∀ k k' tokenId tokenId' w w' b b', Writes keccak256 d txs k tokenId w b →
    Writes keccak256 d txs k' tokenId' w' b' → b.preimage = b'.preimage →
    k = k' ∧ tokenId = tokenId' ∧ w = w'
  initialized : ∀ tokenId,
    (after keccak256 d txs txs.length).register.entries tokenId ≠ [] →
    (admittedFor (after keccak256 d txs txs.length).settlement tokenId).encard =
      (((after keccak256 d txs txs.length).register.entryCount tokenId).toNat - 1 : ℕ)
  uninitialized : ∀ tokenId,
    (after keccak256 d txs txs.length).register.entries tokenId = [] →
    admittedFor (after keccak256 d txs txs.length).settlement tokenId = ∅
  pointer : ∀ tokenId id, id ≠ 0 →
    ((after keccak256 d txs txs.length).settlement.openGap tokenId = id ↔
      ((after keccak256 d txs txs.length).settlement.settlements id).status = .open ∧
        ((after keccak256 d txs txs.length).settlement.settlements id).tokenId = tokenId)
  closed : ∀ later : List (Transaction d),
    KeepsClosed (after keccak256 d txs txs.length)
      (LabelledRun.run (step keccak256 d) (after keccak256 d txs txs.length) later)

/-- For every sequence of transactions on the deployed assembly. -/
theorem run_proved (keccak256 : List UInt8 → Bytes32) (d : Deployment)
    (txs : List (Transaction d)) : ProvedHistory keccak256 d txs where
  stored _ _ _ he := Assembly.stored _ he
  once _ _ _ _ _ _ _ h h' hversion := h.once h' hversion
  distinct _ _ _ _ _ _ _ _ h h' hpreimage := h.distinct h' hpreimage
  initialized tokenId _ := by
    rw [(sound_after _).admitted, (sound_after _).register.entryCount]
  uninitialized tokenId hnil := by
    have hsound : (after keccak256 d txs txs.length).Sound := sound_after _
    have hcount := hsound.admitted tokenId
    rw [hnil] at hcount
    exact Set.encard_eq_zero.mp hcount
  pointer := (sound_after _).pointed.pointer
  closed later := (sound_after _).run_keepsClosed later

end Assembly

end Erc8415.Contracts
