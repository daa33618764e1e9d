import Erc8415.Projection.Ports
import Erc8415.Proof.Binding

/-! # The profiles of the kit

Three verifiers of one binding digest: inclusion under the state root of a
height, a mock proof over that root, and the signature of a trusted issuer. For
fixed material and a fixed root each of them passes at most one digest, as far
as the messages it hashes have different digests and a signature verifies for
one message.
-/

namespace Erc8415

/-! ## Merkle inclusion -/

inductive Side where
  | left
  | right
  deriving DecidableEq, Repr

structure MerkleStep where
  hash : String
  side : Side
  deriving DecidableEq, Repr

/-- A value that `isStep` accepts, as the step it is. -/
def asStep (value : JsValue) : Option MerkleStep :=
  match value.get "hash", value.get "side" with
  | .string hash, .string side =>
      if isHexWord 64 hash = false then none
      else if side = "left" then some ⟨hash, .left⟩
      else if side = "right" then some ⟨hash, .right⟩
      else none
  | _, _ => none

/-- The bytes a step hashes over a node. -/
def MerkleStep.bytes (step : MerkleStep) (node : String) : List UInt8 :=
  match step.side with
  | .left => pairBytes step.hash node
  | .right => pairBytes node step.hash

/-- The node above, which is the `hashPair` of the two on its side. -/
def MerkleStep.above (step : MerkleStep) (node : String) : String :=
  match step.side with
  | .left => hashPair step.hash node
  | .right => hashPair node step.hash

theorem MerkleStep.above_eq (step : MerkleStep) (node : String) :
    step.above node = hexText (sha256 (step.bytes node)) := by
  unfold above bytes
  cases step.side <;> rfl

namespace MerkleProofProfile

def id : String := "merkle/sha256/v1"

/-- The path of a payload, when it is a list of steps. -/
def path (payload : JsValue) : Option (List MerkleStep) :=
  match payload.get "path" with
  | .array items => items.mapM asStep
  | _ => none

/-- The root a path leads to. -/
def climb (node : String) (path : List MerkleStep) : String :=
  path.foldl (fun node step => step.above node) node

def verify (stateRootAt : Int → Option String) (material : ProofMaterial)
    (context : ProofContext) : ProofVerdict :=
  match stateRootAt material.remoteHeight with
  | none => .refused s!"no accepted state root at remote height {material.remoteHeight}"
  | some root =>
      match path material.payload with
      | none => .refused "proof payload has no well-formed merkle path"
      | some path =>
          if path.length > 64 then .refused "merkle path is longer than the profile allows"
          else if climb (bindingDigest context.binding context.candidate) path ≠ root then
            .refused "the binding digest is not included in the accepted remote state"
          else .admitted

theorem verify_eq_admitted {stateRootAt : Int → Option String} {material : ProofMaterial}
    {context : ProofContext} :
    verify stateRootAt material context = .admitted ↔
      ∃ path, MerkleProofProfile.path material.payload = some path ∧ path.length ≤ 64 ∧
        stateRootAt material.remoteHeight =
          some (climb (bindingDigest context.binding context.candidate) path) := by
  unfold verify
  cases hroot : stateRootAt material.remoteHeight with
  | none => simp
  | some root =>
      cases hpath : MerkleProofProfile.path material.payload with
      | none => simp
      | some path =>
          simp only [Option.some.injEq, exists_eq_left']
          split_ifs with hlong hclimb
          · simp only [false_iff, not_and]
            omega
          · simp only [false_iff, not_and]
            exact fun _ heq => hclimb heq.symm
          · simp only [true_iff]
            exact ⟨Nat.le_of_not_lt hlong, (not_not.mp hclimb).symm⟩

/-- What is hashed along a path. -/
def hashed (node : String) : List MerkleStep → List (List UInt8)
  | [] => []
  | step :: rest => step.bytes node :: hashed (step.above node) rest

end MerkleProofProfile

/-! ## A mock of a succinct verifier -/

namespace MockZkProofProfile

def id : String := "zk/mock/v1"

/-- The text whose digest is the proof. -/
def expectedText (verifyingKey root digest : String) : String := s!"{verifyingKey}|{root}|{digest}"

def expected (verifyingKey root digest : String) : String :=
  sha256Hex (expectedText verifyingKey root digest)

def verify (verifyingKey : String) (stateRootAt : Int → Option String) (material : ProofMaterial)
    (context : ProofContext) : ProofVerdict :=
  match stateRootAt material.remoteHeight with
  | none => .refused s!"no accepted state root at remote height {material.remoteHeight}"
  | some root =>
      match material.payload.get "proof" with
      | .string supplied =>
          if supplied ≠ expected verifyingKey root
              (bindingDigest context.binding context.candidate) then
            .refused "the proof does not verify against this admission binding"
          else .admitted
      | _ => .refused "proof payload carries no proof"

end MockZkProofProfile

/-! ## Institutional attestation -/

/-- What the runtime supplies: `Buffer.from(text, 'base64')`, which skips what it
cannot read, and the check of a signature on a message under a raw public key. -/
structure SignatureScheme where
  base64 : String → List UInt8
  verifies : List UInt8 → List UInt8 → List UInt8 → Bool

/-- A verifier for the issuers it was given, by name with their raw keys. -/
structure Ed25519AttestationProfile where
  scheme : SignatureScheme
  issuers : InsertionMap String (List UInt8)

namespace Ed25519AttestationProfile

def id : String := "attestation/ed25519/v1"

def attestationDomain : String := "erc8415-kit:attestation:v1"

def maxAttestationWindow : Int := 86400

/-- Neither reading throws on text: both stop at what they cannot read. -/
def decode (scheme : SignatureScheme) (value : String) : List UInt8 :=
  match value.toList with
  | '0' :: 'x' :: digits => Hex.toBytes digits
  | _ => scheme.base64 value

def publicKeyFrom (scheme : SignatureScheme) (value : String) : Except Thrown (List UInt8) :=
  let raw := decode scheme value
  if raw.length ≠ 32 then .error (.error "an Ed25519 public key is 32 bytes") else .ok raw

/-- `new Ed25519AttestationProfile(options)`. The clock is read at each verification. -/
def new (scheme : SignatureScheme) (trustedIssuers : List (String × String)) :
    Except Thrown Ed25519AttestationProfile := do
  let issuers ← trustedIssuers.foldlM
    (fun (issuers : InsertionMap String (List UInt8)) (issuer, key) => do
      return issuers.set issuer (← publicKeyFrom scheme key)) InsertionMap.empty
  return ⟨scheme, issuers⟩

/-- The text an issuer signs. -/
def messageText (digest : String) (expiresAt : Int) (issuer : String) : String :=
  lengthPrefixed [attestationDomain, issuer, toString expiresAt, digest]

/-- The exact bytes an issuer signs. -/
def message (context : ProofContext) (expiresAt : Int) (issuer : String) : List UInt8 :=
  utf8 (messageText (bindingDigest context.binding context.candidate) expiresAt issuer)

def verify (p : Ed25519AttestationProfile) (now : Int) (material : ProofMaterial)
    (context : ProofContext) : ProofVerdict :=
  match material.payload.get "issuer", material.payload.get "signature",
      material.payload.get "expiresAt" with
  | .string issuer, .string signature, .string expiresAtRaw =>
      match p.issuers.get issuer with
      | none => .refused s!"untrusted attestation issuer: {issuer}"
      | some key =>
          match BigIntText.parse expiresAtRaw with
          | none => .refused "expiresAt is not an integer"
          | some expiresAt =>
              if expiresAt ≤ now then .refused "the attestation has expired"
              else if expiresAt - now > maxAttestationWindow then
                .refused "the attestation window is too long"
              else if (decode p.scheme signature).length ≠ 64 then
                .refused "signature is not 64 bytes"
              else if p.scheme.verifies key (message context expiresAt issuer)
                  (decode p.scheme signature) = false then
                .refused "the attestation does not verify for this admission"
              else .admitted
  | _, _, _ => .refused "attestation payload needs issuer, expiresAt and signature"

/-- A payload of the right shape, within its window, whose signature verifies, is admitted. -/
theorem verify_admitted {p : Ed25519AttestationProfile} {now : Int} {material : ProofMaterial}
    {context : ProofContext} {issuer signature expiresAtRaw : String} {key : List UInt8}
    {expiresAt : Int} (hissuer : material.payload.get "issuer" = .string issuer)
    (hsignature : material.payload.get "signature" = .string signature)
    (hexpires : material.payload.get "expiresAt" = .string expiresAtRaw)
    (hkey : p.issuers.get issuer = some key)
    (hparsed : BigIntText.parse expiresAtRaw = some expiresAt)
    (hpast : now < expiresAt) (hwindow : expiresAt - now ≤ maxAttestationWindow)
    (hlength : (decode p.scheme signature).length = 64)
    (hverifies : p.scheme.verifies key (message context expiresAt issuer)
      (decode p.scheme signature) = true) : p.verify now material context = .admitted := by
  simp only [verify, hissuer, hsignature, hexpires, hkey, hparsed]
  rw [if_neg (by omega), if_neg (by omega), if_neg (not_not.mpr hlength), hverifies]
  rfl

end Ed25519AttestationProfile

/-! ## One profile of the kit -/

inductive KitProfile where
  | merkle
  | mockZk (verifyingKey : String)
  | ed25519 (attestation : Ed25519AttestationProfile)

namespace KitProfile

def id : KitProfile → String
  | merkle => MerkleProofProfile.id
  | mockZk _ => MockZkProofProfile.id
  | ed25519 _ => Ed25519AttestationProfile.id

def verify (stateRootAt : Int → Option String) (now : Int) (material : ProofMaterial)
    (context : ProofContext) : KitProfile → ProofVerdict
  | merkle => MerkleProofProfile.verify stateRootAt material context
  | mockZk verifyingKey => MockZkProofProfile.verify verifyingKey stateRootAt material context
  | ed25519 attestation => attestation.verify now material context

/-- A profile constructed over an adapter, as the store is given it. -/
def withAdapter {σ : Type} (profile : KitProfile) (adapter : RemoteChainAdapter σ) :
    ProofProfile σ where
  id := profile.id
  verify a now material context := profile.verify (adapter.stateRootAt a) now material context

theorem withAdapter_merkle_admitted {σ : Type} {adapter : RemoteChainAdapter σ} {a : σ} {now : Int}
    {material : ProofMaterial} {context : ProofContext} :
    (merkle.withAdapter adapter).verify a now material context = .admitted ↔
      ∃ path, MerkleProofProfile.path material.payload = some path ∧ path.length ≤ 64 ∧
        adapter.stateRootAt a material.remoteHeight = some (MerkleProofProfile.climb
          (bindingDigest context.binding context.candidate) path) :=
  MerkleProofProfile.verify_eq_admitted

/-- What a passed verification says of the digest, given the root at the height of the
material. -/
def Passes (root : String) (material : ProofMaterial) (digest : String) : KitProfile → Prop
  | merkle => ∃ path, MerkleProofProfile.path material.payload = some path ∧
      MerkleProofProfile.climb digest path = root
  | mockZk verifyingKey => material.payload.get "proof" =
      .string (MockZkProofProfile.expected verifyingKey root digest)
  | ed25519 attestation => ∃ issuer signature expiresAtRaw key expiresAt,
      material.payload.get "issuer" = .string issuer ∧
      material.payload.get "signature" = .string signature ∧
      material.payload.get "expiresAt" = .string expiresAtRaw ∧
      attestation.issuers.get issuer = some key ∧
      BigIntText.parse expiresAtRaw = some expiresAt ∧
      attestation.scheme.verifies key
        (utf8 (Ed25519AttestationProfile.messageText digest expiresAt issuer))
        (Ed25519AttestationProfile.decode attestation.scheme signature) = true

/-- What a verification hashes, given the digest of the binding. -/
def hashed (root : String) (material : ProofMaterial) (digest : String) :
    KitProfile → List (List UInt8)
  | merkle =>
      match MerkleProofProfile.path material.payload with
      | some path => MerkleProofProfile.hashed digest path
      | none => []
  | mockZk verifyingKey => [utf8 (MockZkProofProfile.expectedText verifyingKey root digest)]
  | ed25519 _ => []

theorem hashed_merkle {material : ProofMaterial} {path : List MerkleStep}
    (h : MerkleProofProfile.path material.payload = some path) (root digest : String) :
    merkle.hashed root material digest = MerkleProofProfile.hashed digest path := by
  rw [hashed, h]

/-- A signature verifies under a trusted key for at most one message. -/
def OneMessage : KitProfile → Prop
  | merkle => True
  | mockZk _ => True
  | ed25519 attestation => ∀ issuer key, attestation.issuers.get issuer = some key →
      ∀ message message' signature, attestation.scheme.verifies key message signature = true →
        attestation.scheme.verifies key message' signature = true → message = message'

/-- Two profiles that trust the same issuers under the same keys, if they are for
attestations at all. -/
def SameIssuers : KitProfile → KitProfile → Prop
  | ed25519 attestation, ed25519 attestation' =>
      attestation'.scheme = attestation.scheme ∧
      ∀ issuer, attestation'.issuers.get issuer = attestation.issuers.get issuer
  | _, _ => True

theorem SameIssuers.refl (profile : KitProfile) : profile.SameIssuers profile := by
  cases profile with
  | ed25519 attestation => exact ⟨rfl, fun _ => rfl⟩
  | _ => trivial

theorem passes_of_verify {profile : KitProfile} {stateRootAt : Int → Option String} {root : String}
    {now : Int} {material : ProofMaterial} {context : ProofContext}
    (hroot : ∀ r, stateRootAt material.remoteHeight = some r → r = root)
    (h : profile.verify stateRootAt now material context = .admitted) :
    profile.Passes root material (bindingDigest context.binding context.candidate) := by
  cases profile with
  | merkle =>
      obtain ⟨path, hpath, _, hclimb⟩ := MerkleProofProfile.verify_eq_admitted.mp h
      exact ⟨path, hpath, hroot _ hclimb⟩
  | mockZk verifyingKey =>
      simp only [verify, MockZkProofProfile.verify] at h
      split at h
      next => cases h
      next r hr =>
        split at h
        next supplied hsupplied =>
          split_ifs at h with hexpected
          rw [Passes, hsupplied, not_not.mp hexpected, hroot r hr]
        next => cases h
  | ed25519 attestation =>
      simp only [verify, Ed25519AttestationProfile.verify] at h
      split at h
      next issuer signature expiresAtRaw hissuer hsignature hexpires =>
        split at h
        next => cases h
        next key hkey =>
          split at h
          next => cases h
          next expiresAt hparsed =>
            split_ifs at h with hpast hlong hlength hverifies
            exact ⟨issuer, signature, expiresAtRaw, key, expiresAt, hissuer, hsignature, hexpires,
              hkey, hparsed, (Bool.not_eq_false _).mp hverifies⟩
      next => cases h

end KitProfile

/-! ## One digest for one material -/

/-- Among these messages, no two different ones have the same digest. -/
def CollisionFree (messages : List (List UInt8)) : Prop :=
  ∀ m ∈ messages, ∀ m' ∈ messages, sha256 m = sha256 m' → m = m'

theorem CollisionFree.subset {messages messages' : List (List UInt8)}
    (h : CollisionFree messages') (hsub : messages ⊆ messages') : CollisionFree messages :=
  fun m hm m' hm' heq => h m (hsub hm) m' (hsub hm') heq

theorem CollisionFree.of_nodup {messages : List (List UInt8)}
    (h : (messages.map sha256).Nodup) : CollisionFree messages :=
  fun _ hm _ hm' heq => List.inj_on_of_nodup_map h hm hm' heq

theorem sha256Hex_inj {text text' : String} (hfree : CollisionFree [utf8 text, utf8 text'])
    (h : sha256Hex text = sha256Hex text') : text = text' :=
  utf8_injective (hfree _ (by simp) _ (by simp) (hexText_injective h))

/-- A step over two digests hashes one message for both only if they are equal. -/
theorem MerkleStep.bytes_inj (step : MerkleStep) {digest digest' : List UInt8}
    (h : step.bytes (hexText digest) = step.bytes (hexText digest')) : digest = digest' := by
  unfold MerkleStep.bytes pairBytes at h
  cases hside : step.side with
  | left =>
      simp only [hside, hexToBytes_hexText] at h
      exact List.append_cancel_left h
  | right =>
      simp only [hside, hexToBytes_hexText] at h
      exact List.append_cancel_right h

/-- A path leads from one digest to a root, as far as the messages hashed along it
have different digests. -/
theorem MerkleProofProfile.climb_inj {path : List MerkleStep} {digest digest' : List UInt8}
    (hfree : CollisionFree (hashed (hexText digest) path ++ hashed (hexText digest') path))
    (h : climb (hexText digest) path = climb (hexText digest') path) : digest = digest' := by
  induction path generalizing digest digest' with
  | nil => exact hexText_injective h
  | cons step rest ih =>
      simp only [hashed, MerkleStep.above_eq] at hfree
      change climb (step.above _) rest = climb (step.above _) rest at h
      rw [step.above_eq, step.above_eq] at h
      -- The digests one step up are equal by the rest of the path.
      have hup : sha256 (step.bytes (hexText digest)) = sha256 (step.bytes (hexText digest')) := by
        apply ih (hfree.subset _) h
        intro m hm
        rcases List.mem_append.mp hm with hm | hm <;> simp [hm]
      exact step.bytes_inj (hfree _ (by simp) _ (by simp) hup)

/-- Proofs of a mock end in the digest, whatever key and root stand before it. -/
theorem MockZkProofProfile.expectedText_inj {key key' root root' digest digest' : String}
    (hlength : digest.toList.length = digest'.toList.length)
    (h : expectedText key root digest = expectedText key' root' digest') : digest = digest' := by
  have hchars := congrArg String.toList h
  simp only [expectedText, String.toList_append] at hchars
  exact String.toList_injective (List.append_inj_right' hchars hlength)

/-- Profiles of one id are of one kind. -/
theorem KitProfile.id_eq {profile profile' : KitProfile} (h : profile.id = profile'.id) :
    (profile = merkle ∧ profile' = merkle) ∨
      (∃ key key', profile = mockZk key ∧ profile' = mockZk key') ∨
      ∃ attestation attestation', profile = ed25519 attestation ∧
        profile' = ed25519 attestation' := by
  cases profile <;> cases profile' <;>
    simp [id, MerkleProofProfile.id, MockZkProofProfile.id, Ed25519AttestationProfile.id] at h ⊢

/-- Two profiles of one id, trusting the same issuers, pass one material under one root
for one digest. -/
theorem KitProfile.passes_inj {profile profile' : KitProfile} (hone : profile.OneMessage)
    (hid : profile.id = profile'.id) (hissuers : profile.SameIssuers profile') {root : String}
    {material : ProofMaterial} {digest digest' : List UInt8}
    (hlength : digest.length = digest'.length)
    (hfree : CollisionFree (profile.hashed root material (hexText digest) ++
      profile'.hashed root material (hexText digest')))
    (h : profile.Passes root material (hexText digest))
    (h' : profile'.Passes root material (hexText digest')) : digest = digest' := by
  rcases id_eq hid with ⟨rfl, rfl⟩ | ⟨key, key', rfl, rfl⟩ | ⟨attestation, attestation', rfl, rfl⟩
  -- One path climbs from both digests to the one root.
  · obtain ⟨path, hpath, hclimb⟩ := h
    obtain ⟨path', hpath', hclimb'⟩ := h'
    rw [hpath] at hpath'
    cases hpath'
    simp only [hashed, hpath] at hfree
    exact MerkleProofProfile.climb_inj hfree (hclimb.trans hclimb'.symm)
  -- One payload is the text hashed for both digests.
  · simp only [Passes] at h h'
    rw [h] at h'
    have hlength' : (hexText digest).toList.length = (hexText digest').toList.length := by
      simp [hexText, Hex.length_ofBytes, hlength]
    exact hexText_injective (MockZkProofProfile.expectedText_inj hlength'
      (sha256Hex_inj hfree (JsValue.string.inj h')))
  · obtain ⟨hscheme, hkeys⟩ := hissuers
    obtain ⟨issuer, signature, raw, key, expiresAt, hissuer, hsignature, hraw, hkey, hparsed,
      hverifies⟩ := h
    obtain ⟨issuer', signature', raw', key', expiresAt', hissuer', hsignature', hraw', hkey',
      hparsed', hverifies'⟩ := h'
    rw [hissuer] at hissuer'
    cases hissuer'
    rw [hsignature] at hsignature'
    cases hsignature'
    rw [hraw] at hraw'
    cases hraw'
    rw [hkeys, hkey] at hkey'
    cases hkey'
    rw [hparsed] at hparsed'
    cases hparsed'
    rw [hscheme] at hverifies'
    -- One signature under one key: the two messages, and so their last fields, are the same.
    have hfields := lengthPrefixed_injective
      (utf8_injective (hone issuer key hkey _ _ _ hverifies hverifies'))
    simp only [List.cons.injEq, and_true, true_and] at hfields
    exact hexText_injective hfields

end Erc8415
