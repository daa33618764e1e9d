import Erc8415.Projection.Atomicity
import Erc8415.Proof.Profiles
import Erc8415.Settlement.Service

/-! # What a relayer chooses

Anyone may submit an attestation. The message an issuer signs covers the binding
and the expiry; the remote height travels beside it, and the attestation profile
reads neither that height nor a root at it. So the submitter picks the height,
and with it the accepted height of the token, out of all the finalized heights
above the accepted one.
-/

namespace Erc8415

variable {σ : Type}

/-- A store configuration over the attestation profile. -/
def attestedConfig (registerId verificationProfile : Bytes32)
    (attestation : Ed25519AttestationProfile) (adapter : RemoteChainAdapter σ) : StoreConfig σ :=
  ⟨registerId, verificationProfile, (KitProfile.ed25519 attestation).withAdapter adapter, adapter⟩

namespace ProjectionStore

variable {s : ProjectionStore σ}

/-- A submission that passes every check but those of its height. -/
structure Attested (o : StoreConfig σ) (attestation : Ed25519AttestationProfile)
    (s : ProjectionStore σ) (tokenId : Int) (argument : JsValue) (profile : String)
    (payload : JsValue) (now : Int) (c : CandidateEntry) : Prop where
  writable : s.poisoned = none
  shape : validateCandidateShape argument = .ok c
  named : profile = Ed25519AttestationProfile.id
  verdict : ∀ height, attestation.verify now ⟨profile, height, payload⟩
    (s.proofContext o tokenId c) = .admitted
  follows : Follows (s.entries tokenId) c

/-- A height a proof may claim: finalized, and above the accepted one. -/
def Claimable (o : StoreConfig σ) (s : ProjectionStore σ) (tokenId height : Int) : Prop :=
  o.adapter.isFinalized s.adapter height = true ∧
    o.adapter.acceptedHeight s.adapter tokenId < height

/-- A submission is accepted at exactly the claimable heights, if at any. -/
theorem accepted_iff_attested {registerId verificationProfile : Bytes32}
    {attestation : Ed25519AttestationProfile} {adapter : RemoteChainAdapter σ} {tokenId : Int}
    {argument : JsValue} {profile : String} {height : Int} {payload : JsValue} {now : Int}
    {c : CandidateEntry} :
    let o := attestedConfig registerId verificationProfile attestation adapter
    Accepted o s tokenId argument ⟨profile, height, payload⟩ now c ↔
      Attested o attestation s tokenId argument profile payload now c ∧
        Claimable o s tokenId height := by
  intro o
  constructor
  · intro hc
    obtain ⟨hnamed, hfinalized, hheight, hverify⟩ := checkProof_eq_ok.mp hc.proof
    -- The verdict at one height is the verdict at every height: it is not read.
    exact ⟨⟨hc.writable, hc.shape, hnamed, fun _ => hverify, hc.follows⟩, hfinalized, hheight⟩
  · rintro ⟨hattested, hfinalized, hheight⟩
    exact ⟨hattested.writable, hattested.shape, checkProof_eq_ok.mpr
      ⟨hattested.named, hfinalized, hheight, hattested.verdict height⟩, hattested.follows⟩

/-- Two accepted submissions that differ only in their height leave one store and
one adapter. -/
def RelayerFree (o : StoreConfig σ) (s : ProjectionStore σ) (tokenId : Int) (argument : JsValue)
    (profile : String) (payload : JsValue) (now : Int) : Prop :=
  ∀ height height' result result',
    (s.admitEntry o tokenId argument ⟨profile, height, payload⟩ now none).2 = .ok result →
    (s.admitEntry o tokenId argument ⟨profile, height', payload⟩ now none).2 = .ok result' →
    (s.admitEntry o tokenId argument ⟨profile, height, payload⟩ now none).1 =
      (s.admitEntry o tokenId argument ⟨profile, height', payload⟩ now none).1

/-- An accepted admission leaves its token at the height of its material. -/
theorem Valid.admitted_height {o : StoreConfig σ} (h : s.Valid) {tokenId : Int} {argument : JsValue}
    {material : ProofMaterial} {now : Int} {result : AdmissionResult}
    (hdone : (s.admitEntry o tokenId argument material now none).2 = .ok result) :
    (∃ c, Accepted o s tokenId argument material now c) ∧
      o.adapter.acceptedHeight (s.admitEntry o tokenId argument material now none).1.adapter
        tokenId = material.remoteHeight := by
  rcases admitEntry_none (o := o) h tokenId argument material now with
    ⟨e, _, heq⟩ | ⟨c, adapter, hc, hadvance, heq⟩
  · rw [heq] at hdone
    cases hdone
  · refine ⟨⟨c, hc⟩, ?_⟩
    rw [heq]
    simp only [admitted, entered_adapter]
    rw [hc.heights hadvance, if_pos rfl]

theorem Valid.exists_result_of_accepted {o : StoreConfig σ} (h : s.Valid) {tokenId : Int}
    {argument : JsValue} {material : ProofMaterial} {now : Int} {c : CandidateEntry}
    (hc : Accepted o s tokenId argument material now c) :
    ∃ result, (s.admitEntry o tokenId argument material now none).2 = .ok result := by
  obtain ⟨adapter, _, heq⟩ := h.admitEntry_of_accepted hc
  exact ⟨_, by rw [heq]⟩

/-- In every state a run reaches, over every adapter and for every submission: the
height a relayer names has no influence exactly when no relayer has a choice of
heights, that is, when an otherwise acceptable submission finds at most one claimable
height. -/
theorem run_relayed (registerId verificationProfile : Bytes32)
    (attestation : Ed25519AttestationProfile) (adapter : RemoteChainAdapter σ) (a : σ)
    (journal : JournalContent) (calls : List (StoreCall σ)) (tokenId : Int) (argument : JsValue)
    (profile : String) (payload : JsValue) (now : Int) :
    let o := attestedConfig registerId verificationProfile attestation adapter
    let s := LabelledRun.run (step o) (initial a journal) calls
    RelayerFree o s tokenId argument profile payload now ↔
      ((∃ c, Attested o attestation s tokenId argument profile payload now c) →
        ∀ height height', Claimable o s tokenId height → Claimable o s tokenId height' →
          height = height') := by
  intro o s
  have h : s.Valid := (Valid.initial a journal).run calls
  constructor
  · rintro hfree ⟨c, hattested⟩ height height' hclaim hclaim'
    obtain ⟨result, hdone⟩ := h.exists_result_of_accepted
      (accepted_iff_attested.mpr ⟨hattested, hclaim⟩)
    obtain ⟨result', hdone'⟩ := h.exists_result_of_accepted
      (accepted_iff_attested.mpr ⟨hattested, hclaim'⟩)
    have hheight := (h.admitted_height hdone).2
    rw [hfree height height' result result' hdone hdone', (h.admitted_height hdone').2] at hheight
    exact hheight.symm
  · intro hunique height height' result result' hdone hdone'
    obtain ⟨⟨c, hc⟩, _⟩ := h.admitted_height hdone
    obtain ⟨⟨c', hc'⟩, _⟩ := h.admitted_height hdone'
    obtain ⟨hattested, hclaim⟩ := accepted_iff_attested.mp hc
    obtain ⟨_, hclaim'⟩ := accepted_iff_attested.mp hc'
    rw [hunique ⟨c, hattested⟩ height height' hclaim hclaim']

/-! ### One attestation at two heights -/

section TwoHeights

/-- The raw public key of the issuer. -/
def registrarKey : String :=
  "0x03a107bff3ce10be1d70dd18e74bc09967e4d6309ba50d5f1ddc8664125531b8"

/-- The issuer's signature on the first candidate for token 1, until instant 1000. -/
def registrarSignature : String :=
  "0xcd145c7fa32c77ae70d7929f3d8bdfc077f5da0c4d8541a9583874e286cfaf7a" ++
    "9ed43e466630c2a64b00e3399bfa310a9455196542d1bbbbc3141f1f64c32103"

def registrarPayload : JsValue :=
  .object [("issuer", .string "registrar"), ("signature", .string registrarSignature),
    ("expiresAt", .string "1000")]

def registrarContext : ProofContext where
  binding := {
    chainId := 1
    contract := "0x1111111111111111111111111111111111111111"
    tokenId := 1
    settlementId := zeroBytes32
    snapshotHash := zeroBytes32
    holder := firstCandidate.holder
    priorCommitment := firstCandidate.previousCommitment
    nextCommitment := firstCandidate.recordCommitment
    version := 1
    effectiveAt := 100 }
  candidate := firstCandidate
  acceptedRemoteHeight := 0
  remoteFinalized := true

/-- Of all signatures, this scheme knows that one. -/
def registrarScheme : SignatureScheme where
  base64 _ := []
  verifies key message signature :=
    key = Hex.toBytes (registrarKey.toList.drop 2) &&
      message = Ed25519AttestationProfile.message registrarContext 1000 "registrar" &&
      signature = Hex.toBytes (registrarSignature.toList.drop 2)

def registrarProfile : Ed25519AttestationProfile :=
  ⟨registrarScheme, InsertionMap.empty.set "registrar" (Hex.toBytes (registrarKey.toList.drop 2))⟩

def registrarConfig : StoreConfig MemoryChain :=
  attestedConfig (word '7') (word '8') registrarProfile (MemoryChain.adapter {})

abbrev registrarStart : ProjectionStore MemoryChain :=
  initial (MemoryChain.new {}) JournalContent.empty

theorem registrar_attested :
    Attested registrarConfig registrarProfile registrarStart 1 firstCandidate.toJs
      Ed25519AttestationProfile.id registrarPayload 500 firstCandidate := by
  have hcontext : registrarStart.proofContext registrarConfig 1 firstCandidate =
      registrarContext := by decide
  have hdecode : Ed25519AttestationProfile.decode registrarScheme registrarSignature =
      Hex.toBytes (registrarSignature.toList.drop 2) := by decide +kernel
  refine ⟨rfl, validateCandidateShape_toJs.mpr ⟨rfl, firstCandidate_shaped⟩, rfl, fun height => ?_,
    ⟨firstCandidate_shaped, by decide, by decide, ?_, by decide⟩⟩
  · rw [hcontext]
    have hparsed : BigIntText.parse "1000" = some 1000 := by decide
    refine Ed25519AttestationProfile.verify_admitted rfl rfl rfl rfl hparsed (by decide)
      (by decide) ?_ ?_
    · change (Ed25519AttestationProfile.decode registrarScheme registrarSignature).length = 64
      decide +kernel
    · change registrarScheme.verifies _ _
        (Ed25519AttestationProfile.decode registrarScheme registrarSignature) = true
      rw [hdecode]
      simp [registrarScheme]
  · intro e he
    cases he

/-- One signed attestation, submitted at height 5 or at height 6: both are accepted, and
the token is left at the height the submitter named. -/
theorem relayer_names_height :
    ¬ RelayerFree registrarConfig registrarStart 1 firstCandidate.toJs
      Ed25519AttestationProfile.id registrarPayload 500 := by
  have h : registrarStart.Valid := Valid.initial _ _
  have hclaim : ∀ height, 0 < height → height ≤ 0x100000000 →
      Claimable registrarConfig registrarStart 1 height := by
    intro height hpos hle
    refine ⟨?_, hpos⟩
    change (decide (height > 0) && decide (height ≤ 0x100000000)) = true
    simp [hpos, hle]
  have hdone : ∀ height, 0 < height → height ≤ 0x100000000 → ∃ result,
      (registrarStart.admitEntry registrarConfig 1 firstCandidate.toJs
        ⟨Ed25519AttestationProfile.id, height, registrarPayload⟩ 500 none).2 = .ok result :=
    fun height hpos hle => h.exists_result_of_accepted
      (accepted_iff_attested.mpr ⟨registrar_attested, hclaim height hpos hle⟩)
  obtain ⟨result, hfive⟩ := hdone 5 (by decide) (by decide)
  obtain ⟨result', hsix⟩ := hdone 6 (by decide) (by decide)
  intro hfree
  have hheight := (h.admitted_height hfive).2
  rw [hfree 5 6 result result' hfive hsix, (h.admitted_height hsix).2] at hheight
  simp at hheight

end TwoHeights

end ProjectionStore

end Erc8415
