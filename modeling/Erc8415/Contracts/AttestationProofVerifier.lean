import Erc8415.Contracts.ProjectionSettlement

/-! # The attestation verifier

`AttestationProofVerifier`: an admission is accepted on the attestor's signature
over the binding digest. A signature is a byte string of two words and a parity
byte. The upper half of the curve order is refused, which leaves the parity byte
as the only thing that can be written in two ways.
-/

namespace Erc8415.Contracts

/-- The order of the curve. -/
def curveOrder : Bytes32 := 0xFFFFFFFFFFFFFFFFFFFFFFFFFFFFFFFEBAAEDCE6AF48A03BBFD25E8CD0364141

/-- The precompile: the address of the key a signature of a message is by, or zero. The two
parities of a signature are by different keys, and a signature and its negation, which has the
other parity, are by the same one. -/
structure Ecrecover where
  recover (message : Bytes32) (v : UInt8) (r s : Bytes32) : Address
  parity (message r s : Bytes32) :
    recover message 27 r s = recover message 28 r s → recover message 27 r s = 0
  negation (message r s : Bytes32) :
    s ≤ curveOrder → recover message 27 r s = recover message 28 r (curveOrder - s)

/-- The two parities of a signature are not both by one account. -/
theorem Ecrecover.parity_eq (ecrecover : Ecrecover) {message r s : Bytes32} {v v' : UInt8}
    {account : Address} (haccount : account ≠ 0) (hv : v = 27 ∨ v = 28) (hv' : v' = 27 ∨ v' = 28)
    (h : ecrecover.recover message v r s = account)
    (h' : ecrecover.recover message v' r s = account) : v' = v := by
  rcases hv with rfl | rfl <;> rcases hv' with rfl | rfl
  · rfl
  · rw [← h, ecrecover.parity message r s (h.trans h'.symm)] at haccount
    exact absurd rfl haccount
  · rw [← h', ecrecover.parity message r s (h'.trans h.symm)] at haccount
    exact absurd rfl haccount
  · rfl

/-! ## Signatures as bytes -/

/-- `bytes32` of a slice. -/
def wordOf (bytes : List UInt8) : Bytes32 :=
  BitVec.ofNat 256 (bytes.foldl (fun n b => 256 * n + b.toNat) 0)

def signatureR (proofData : List UInt8) : Bytes32 := wordOf (proofData.take 32)

def signatureS (proofData : List UInt8) : Bytes32 := wordOf ((proofData.drop 32).take 32)

def signatureV (proofData : List UInt8) : UInt8 := proofData.getD 64 0

/-- The parity a byte stands for: `0` and `1` are short for `27` and `28`. -/
def parityOf (v : UInt8) : UInt8 := if v < 27 then v + 27 else v

/-- Bytes are told apart by the number they are. -/
theorem foldl_bytes_inj {bytes bytes' : List UInt8} (hlength : bytes.length = bytes'.length)
    (h : bytes.foldl (fun n b => 256 * n + b.toNat) 0 =
      bytes'.foldl (fun n b => 256 * n + b.toNat) 0) : bytes = bytes' := by
  induction bytes using List.reverseRecOn generalizing bytes' with
  | nil => exact (List.length_eq_zero_iff.mp hlength.symm).symm
  | append_singleton front b ih =>
      cases bytes' using List.reverseRecOn with
      | nil => simp at hlength
      | append_singleton front' b' =>
          have hb : b.toNat < 256 := b.toNat_lt
          have hb' : b'.toNat < 256 := b'.toNat_lt
          simp only [List.length_append, List.length_singleton, Nat.add_right_cancel_iff] at hlength
          simp only [List.foldl_append, List.foldl_cons, List.foldl_nil] at h
          have hlast : b = b' := UInt8.toNat_inj.mp (by omega)
          rw [ih hlength (by omega), hlast]

theorem foldl_bytes_lt (bytes : List UInt8) :
    bytes.foldl (fun n b => 256 * n + b.toNat) 0 < 256 ^ bytes.length := by
  induction bytes using List.reverseRecOn with
  | nil => decide
  | append_singleton front b ih =>
      have hb : b.toNat < 256 := b.toNat_lt
      simp only [List.foldl_append, List.foldl_cons, List.foldl_nil, List.length_append,
        List.length_singleton, Nat.pow_succ]
      omega

theorem wordOf_inj {bytes bytes' : List UInt8} (hlength : bytes.length = 32)
    (hlength' : bytes'.length = 32) (h : wordOf bytes = wordOf bytes') : bytes = bytes' := by
  have hlt := foldl_bytes_lt bytes
  have hlt' := foldl_bytes_lt bytes'
  rw [hlength] at hlt
  rw [hlength'] at hlt'
  have hnat := congrArg BitVec.toNat h
  rw [wordOf, wordOf, BitVec.toNat_ofNat, BitVec.toNat_ofNat,
    Nat.mod_eq_of_lt (lt_of_lt_of_eq hlt (by decide)),
    Nat.mod_eq_of_lt (lt_of_lt_of_eq hlt' (by decide))] at hnat
  exact foldl_bytes_inj (hlength.trans hlength'.symm) hnat

/-- Two words and a byte make up a signature. -/
theorem signature_ext {proofData other : List UInt8} (hlength : proofData.length = 65)
    (hlength' : other.length = 65) (hr : signatureR other = signatureR proofData)
    (hs : signatureS other = signatureS proofData) (hv : signatureV other = signatureV proofData) :
    other = proofData := by
  have hsplit {bytes : List UInt8} (h : bytes.length = 65) :
      bytes = bytes.take 32 ++ ((bytes.drop 32).take 32 ++ [signatureV bytes]) := by
    have hlast : (bytes.drop 32).drop 32 = [signatureV bytes] := by
      have hindex : 64 < bytes.length := by omega
      rw [List.drop_drop, List.drop_eq_getElem_cons hindex, List.drop_eq_nil_of_le (by omega),
        signatureV, List.getD_eq_getElem _ _ hindex]
    rw [← hlast, List.take_append_drop, List.take_append_drop]
  have htake {bytes : List UInt8} (h : bytes.length = 65) :
      (bytes.take 32).length = 32 ∧ ((bytes.drop 32).take 32).length = 32 := by
    simp [h]
  rw [hsplit hlength, hsplit hlength', hv,
    wordOf_inj (htake hlength').1 (htake hlength).1 hr,
    wordOf_inj (htake hlength').2 (htake hlength).2 hs]

/-! ## The contract -/

inductive AttestationError where
  | attestorInvalid
  deriving DecidableEq, Repr

/-- What the constructor fixes. It refuses the zero address, which is what the precompile
answers where it recovers nothing. -/
structure AttestationProofVerifier where
  profileId : Bytes32
  attestor : Address
  attestor_ne : attestor ≠ 0

namespace AttestationProofVerifier

def deploy (profileIdentifier : Bytes32) (signer : Address) :
    Except AttestationError AttestationProofVerifier :=
  if h : signer = 0 then .error .attestorInvalid else .ok ⟨profileIdentifier, signer, h⟩

/-- The largest `s` that is not refused. -/
def halfOrder : Bytes32 := 0x7FFFFFFFFFFFFFFFFFFFFFFFFFFFFFFF5D576E7357A4501DDFE92F46681B20A0

/-- `bytes` of the EIP-191 tag. -/
def messageTag : List UInt8 := 0x19 :: "Ethereum Signed Message:\n32".toUTF8.data.toList

section Calls

variable (keccak256 : List UInt8 → Bytes32) (ecrecover : Ecrecover)
  (d : AttestationProofVerifier) (bindingDigest : Bytes32)

/-- What the attestor signs. -/
def message : Bytes32 := keccak256 (messageTag ++ abiEncode [bindingDigest])

def verifyAdmission (proofData : List UInt8) : Bool :=
  if proofData.length ≠ 65 then false
  else
    let r := signatureR proofData
    let s := signatureS proofData
    let v := parityOf (signatureV proofData)
    if s > halfOrder then false
    else if v ≠ 27 ∧ v ≠ 28 then false
    else ecrecover.recover (message keccak256 bindingDigest) v r s == d.attestor

end Calls

variable {keccak256 : List UInt8 → Bytes32} {ecrecover : Ecrecover}
  {d : AttestationProofVerifier} {bindingDigest : Bytes32} {proofData other : List UInt8}

theorem verifyAdmission_eq_true :
    d.verifyAdmission keccak256 ecrecover bindingDigest proofData = true ↔
      proofData.length = 65 ∧ signatureS proofData ≤ halfOrder ∧
      (parityOf (signatureV proofData) = 27 ∨ parityOf (signatureV proofData) = 28) ∧
      ecrecover.recover (message keccak256 bindingDigest) (parityOf (signatureV proofData))
        (signatureR proofData) (signatureS proofData) = d.attestor := by
  unfold verifyAdmission
  simp only [gt_iff_lt]
  split_ifs with hlength hhalf hparity
  · exact ⟨nofun, fun h => absurd h.1 hlength⟩
  · exact ⟨nofun, fun h => absurd hhalf (BitVec.not_lt.mpr h.2.1)⟩
  · exact ⟨nofun, fun h => absurd h.2.2.1 (not_or.mpr hparity)⟩
  · rw [beq_iff_eq]
    exact ⟨fun h => ⟨not_not.mp hlength, BitVec.not_lt.mp hhalf,
      Decidable.or_iff_not_not_and_not.mpr hparity, h⟩, fun h => h.2.2.2⟩

/-! ## The encodings of an attestation -/

/-- Of the same signature: the same `r`, and `s` or its negation. -/
def SameSignature (proofData other : List UInt8) : Prop :=
  signatureR other = signatureR proofData ∧
    (signatureS other = signatureS proofData ∨
      signatureS other = curveOrder - signatureS proofData)

/-- No other byte string of the same signature is accepted. -/
def OneEncoding (accepts : List UInt8 → Bool) (proofData : List UInt8) : Prop :=
  ∀ other, SameSignature proofData other → accepts other = true → other = proofData

/-- The other byte for a parity. -/
def otherByte (v : UInt8) : UInt8 := if v < 27 then v + 27 else v - 27

/-- The same two words, with the parity written the other way. -/
def reencode (proofData : List UInt8) : List UInt8 :=
  proofData.take 64 ++ [otherByte (signatureV proofData)]

/-- The negation of a lower half is an upper half. -/
theorem halfOrder_lt_negation {s : Bytes32} (h : s ≤ halfOrder) : halfOrder < curveOrder - s := by
  unfold halfOrder curveOrder at *
  bv_omega

theorem byte_cases {v : UInt8} (h : parityOf v = 27 ∨ parityOf v = 28) :
    v = 0 ∨ v = 1 ∨ v = 27 ∨ v = 28 := by
  have hall : ∀ n < 256, parityOf (UInt8.ofNat n) = 27 ∨ parityOf (UInt8.ofNat n) = 28 →
      UInt8.ofNat n = 0 ∨ UInt8.ofNat n = 1 ∨ UInt8.ofNat n = 27 ∨ UInt8.ofNat n = 28 := by
    decide +kernel
  have hv := hall v.toNat v.toNat_lt
  rw [UInt8.ofNat_toNat] at hv
  exact hv h

/-- A parity has two bytes. -/
theorem parityOf_eq_iff {v w : UInt8} (h : parityOf v = 27 ∨ parityOf v = 28) :
    parityOf w = parityOf v ↔ w = v ∨ w = otherByte v := by
  constructor
  · intro hw
    have hcases := byte_cases (hw ▸ h)
    rcases byte_cases h with rfl | rfl | rfl | rfl <;>
      rcases hcases with rfl | rfl | rfl | rfl <;> revert hw <;> decide
  · rintro (rfl | rfl)
    · rfl
    · rcases byte_cases h with rfl | rfl | rfl | rfl <;> decide

theorem otherByte_ne {v : UInt8} (h : parityOf v = 27 ∨ parityOf v = 28) : otherByte v ≠ v := by
  rcases byte_cases h with rfl | rfl | rfl | rfl <;> decide

section Reencode

variable (hlength : proofData.length = 65)

include hlength

theorem length_reencode : (reencode proofData).length = 65 := by
  simp [reencode, hlength]

theorem signatureR_reencode : signatureR (reencode proofData) = signatureR proofData := by
  rw [signatureR, signatureR, reencode, List.take_append_of_le_length (by simp [hlength]),
    List.take_take]
  rfl

theorem signatureS_reencode : signatureS (reencode proofData) = signatureS proofData := by
  rw [signatureS, signatureS, reencode, List.drop_append_of_le_length (by simp [hlength]),
    List.take_append_of_le_length (by simp [hlength]), List.drop_take, List.take_take]
  rfl

theorem signatureV_reencode :
    signatureV (reencode proofData) = otherByte (signatureV proofData) := by
  have hfront : (proofData.take 64).length = 64 := by simp [hlength]
  rw [signatureV, reencode, List.getD_append_right _ _ _ _ (by omega), hfront]
  rfl

end Reencode

/-- What is accepted of the signature of an accepted byte string: that byte string, and the
one with the parity written the other way. -/
theorem verifyAdmission_same_iff
    (h : d.verifyAdmission keccak256 ecrecover bindingDigest proofData = true) :
    (SameSignature proofData other ∧
        d.verifyAdmission keccak256 ecrecover bindingDigest other = true) ↔
      other = proofData ∨ other = reencode proofData := by
  obtain ⟨hlength, hhalf, hparity, hrecover⟩ := verifyAdmission_eq_true.mp h
  constructor
  · rintro ⟨⟨hr, hs⟩, haccepted⟩
    obtain ⟨hlength', hhalf', hparity', hrecover'⟩ := verifyAdmission_eq_true.mp haccepted
    have hs : signatureS other = signatureS proofData := by
      refine hs.resolve_right fun hnegated => ?_
      rw [hnegated] at hhalf'
      exact absurd (halfOrder_lt_negation hhalf) (BitVec.not_lt.mpr hhalf')
    rw [hr, hs] at hrecover'
    have hv := ecrecover.parity_eq d.attestor_ne hparity hparity' hrecover hrecover'
    rcases (parityOf_eq_iff hparity).mp hv with hv | hv
    · exact Or.inl (signature_ext hlength hlength' hr hs hv)
    · refine Or.inr (signature_ext (length_reencode hlength) hlength' ?_ ?_ ?_)
      · rw [hr, signatureR_reencode hlength]
      · rw [hs, signatureS_reencode hlength]
      · rw [hv, signatureV_reencode hlength]
  · rintro (rfl | rfl)
    · exact ⟨⟨rfl, Or.inl rfl⟩, h⟩
    · have hr := signatureR_reencode hlength
      have hs := signatureS_reencode hlength
      have hv : parityOf (signatureV (reencode proofData)) = parityOf (signatureV proofData) := by
        rw [signatureV_reencode hlength]
        exact (parityOf_eq_iff hparity).mpr (Or.inr rfl)
      refine ⟨⟨hr, Or.inl hs⟩, verifyAdmission_eq_true.mpr ⟨length_reencode hlength, ?_⟩⟩
      rw [hr, hs, hv]
      exact ⟨hhalf, hparity, hrecover⟩

/-- Every accepted byte string is one of two that are accepted of its signature. -/
theorem accepts_two_encodings
    (h : d.verifyAdmission keccak256 ecrecover bindingDigest proofData = true) :
    ¬ OneEncoding (d.verifyAdmission keccak256 ecrecover bindingDigest) proofData ∧
      reencode proofData ≠ proofData ∧
      ∀ other, (SameSignature proofData other ∧
          d.verifyAdmission keccak256 ecrecover bindingDigest other = true) ↔
        other = proofData ∨ other = reencode proofData := by
  obtain ⟨hlength, _, hparity, _⟩ := verifyAdmission_eq_true.mp h
  have hne : reencode proofData ≠ proofData := by
    intro heq
    have hv := signatureV_reencode hlength
    rw [heq] at hv
    exact otherByte_ne hparity hv.symm
  refine ⟨fun hone => hne ?_, hne, fun other => verifyAdmission_same_iff h⟩
  have hsecond := (verifyAdmission_same_iff h).mpr (Or.inr rfl)
  exact hone _ hsecond.1 hsecond.2

section Sample

/-- The address of the key `1`. -/
def sampleAttestor : Address := 0x7e5f4552091a69125d5dfcb7b8c2659029395bdf

def sampleVerifier : AttestationProofVerifier := ⟨1, sampleAttestor, by decide⟩

/-- Thirty-two bytes `0x11`. -/
def sampleDigest : Bytes32 := 0x1111111111111111111111111111111111111111111111111111111111111111

def sampleMessage : Bytes32 := 0x245a48de257ae28de2b11cb8fc02361fe87a20566dc63bec4492c3854b1aae52

/-- The hash on the one message it is asked about. -/
def sampleKeccak (bytes : List UInt8) : Bytes32 :=
  if bytes = messageTag ++ abiEncode [sampleDigest] then sampleMessage else 0

def sampleR : Bytes32 := 0x5cbdf0646e5db4eaa398f365f2ea7a0e3d419b7e0330e39ce92bddedcac4f9bc

def sampleS : Bytes32 := 0x36b36588c64ec5ca35f56b694b950b66c23bb6914683bb8fc28e963c5cef8cec

/-- The key the other parity of the sample signature is by. -/
def otherSigner : Address := 0x9770531603e15db99cc3db74bd21feebe30b1c0a

/-- The precompile on the sample signature and its negation. -/
def sampleEcrecover : Ecrecover where
  recover message v r s :=
    if message = sampleMessage ∧ r = sampleR then
      if s = sampleS then
        if v = 28 then sampleAttestor else if v = 27 then otherSigner else 0
      else if s = curveOrder - sampleS then
        if v = 27 then sampleAttestor else if v = 28 then otherSigner else 0
      else 0
    else 0
  parity message r s := by
    have hne : otherSigner ≠ sampleAttestor := by decide
    have h27 : (27 : UInt8) ≠ 28 := by decide
    simp only [h27, h27.symm, if_true, if_false]
    split_ifs
    · exact fun h => absurd h hne
    · exact fun h => absurd h.symm hne
    · exact fun _ => rfl
    · exact fun _ => rfl
  negation message r s _ := by
    have h27 : (27 : UInt8) ≠ 28 := by decide
    have hself : curveOrder - sampleS ≠ sampleS := by decide
    have hback : curveOrder - (curveOrder - sampleS) = sampleS := by decide
    have hone : curveOrder - s = sampleS ↔ s = curveOrder - sampleS := by
      constructor <;> intro h <;> bv_omega
    have htwo : curveOrder - s = curveOrder - sampleS ↔ s = sampleS := by
      constructor <;> intro h <;> bv_omega
    simp only [h27, h27.symm, if_true, if_false, hone, htwo]
    split_ifs with hmessage hs hs'
    · exact absurd (hs.symm.trans hs').symm hself
    all_goals rfl

/-- The attestor's signature over the digest. -/
def sampleProof : List UInt8 := abiEncode [sampleR, sampleS] ++ [28]

theorem sampleProof_accepted :
    sampleVerifier.verifyAdmission sampleKeccak sampleEcrecover sampleDigest sampleProof =
      true := by
  decide +kernel

theorem accepts_two_encodings_sample :
    ¬ OneEncoding
      (sampleVerifier.verifyAdmission sampleKeccak sampleEcrecover sampleDigest) sampleProof :=
  (accepts_two_encodings sampleProof_accepted).1

/-- The signature is accepted with the byte `1` for its parity too. -/
theorem short_parity_accepted :
    let accepts := sampleVerifier.verifyAdmission sampleKeccak sampleEcrecover sampleDigest
    let second := abiEncode [sampleR, sampleS] ++ [1]
    accepts sampleProof = true ∧ accepts second = true ∧ SameSignature sampleProof second ∧
      second ≠ sampleProof ∧ ¬ OneEncoding accepts sampleProof := by
  intro accepts second
  have haccepted : accepts second = true := by decide +kernel
  have hsame : SameSignature sampleProof second := by
    refine ⟨?_, Or.inl ?_⟩ <;> decide +kernel
  have hne : second ≠ sampleProof := by decide +kernel
  exact ⟨sampleProof_accepted, haccepted, hsame, hne,
    fun hone => hne (hone second hsame haccepted)⟩

end Sample

end AttestationProofVerifier

end Erc8415.Contracts
