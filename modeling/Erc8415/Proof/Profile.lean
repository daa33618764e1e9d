import Erc8415.Foundation.InsertionMap
import Erc8415.Projection.Types

/-! # Proof profiles

A proof profile decides whether evidence may admit an entry. The binding it
decides about names the chain, contract, token, settlement, holder, commitment
pair, version and effective time of one admission.
-/

namespace Erc8415

/-- What an admission proof is checked against. -/
structure AdmissionBinding where
  chainId : Int
  contract : String
  tokenId : Int
  settlementId : String
  snapshotHash : Bytes32
  holder : String
  priorCommitment : Commitment
  nextCommitment : Commitment
  version : Int
  effectiveAt : Int
  deriving DecidableEq, Repr

/-- The proof material a relayer submits alongside a candidate entry. -/
structure ProofMaterial where
  profile : String
  remoteHeight : Int
  payload : JsValue

structure ProofContext where
  binding : AdmissionBinding
  candidate : CandidateEntry
  acceptedRemoteHeight : Int
  remoteFinalized : Bool
  deriving DecidableEq, Repr

inductive ProofVerdict where
  | admitted
  | refused (reason : String)
  deriving DecidableEq, Repr

/-- A verifier over adapter states `σ`. Beyond its arguments it reads the
adapter, and the clock at the moment of the call. -/
structure ProofProfile (σ : Type) where
  id : String
  verify : σ → Int → ProofMaterial → ProofContext → ProofVerdict

/-- `value.toLowerCase()`. Only hex text is ever compared through it, so the
letters it maps are the ASCII ones. -/
def toLowerCase (value : String) : String := String.ofList (value.toList.map Char.toLower)

theorem toLower_of_isLowerHex {c : Char} (h : isLowerHex c = true) : c.toLower = c := by
  have hnot : ¬ (c.val ≥ 'A'.val ∧ c.val ≤ 'Z'.val) := by
    simp only [isLowerHex, Bool.or_eq_true, Bool.and_eq_true, decide_eq_true_eq, Char.le_def,
      UInt32.le_iff_toNat_le] at h
    simp only [ge_iff_le, UInt32.le_iff_toNat_le]
    rintro ⟨hlow, hhigh⟩
    simp only [Char.reduceVal, UInt32.reduceToNat] at h hlow hhigh
    omega
  unfold Char.toLower
  exact dif_neg hnot

/-- A hex word is already lowercase. -/
theorem toLowerCase_of_isHexWord {digits : Nat} {value : String}
    (h : isHexWord digits value = true) : toLowerCase value = value := by
  have hchars : value.toList.map Char.toLower = value.toList := by
    unfold isHexWord at h
    split at h
    next rest heq =>
      rw [heq]
      simp only [Bool.and_eq_true, List.all_eq_true] at h
      have hrest : rest.map Char.toLower = rest :=
        (List.map_congr_left fun c hc => toLower_of_isLowerHex (h.2 c hc)).trans (List.map_id _)
      simp [hrest]
    next => cases h
  unfold toLowerCase
  rw [hchars, String.ofList_toList]

/-- Explicit mapping from the advertised identity to one verifier. -/
structure ProofProfileRegistry (σ : Type) where
  profiles : InsertionMap Bytes32 (ProofProfile σ)
  ids : List String

namespace ProofProfileRegistry

variable {σ : Type}

/-- `new ProofProfileRegistry()`. -/
def empty : ProofProfileRegistry σ := ⟨InsertionMap.empty, []⟩

def register (r : ProofProfileRegistry σ) (profile : ProofProfile σ) (identity : Bytes32) :
    Except Thrown (ProofProfileRegistry σ) :=
  if isBytes32 identity = false then
    .error (.error "verification profile identity must be bytes32")
  else if r.profiles.has (toLowerCase identity) || r.ids.contains profile.id then
    .error (.error "verification profile is already registered")
  else
    .ok ⟨r.profiles.set (toLowerCase identity) profile, r.ids ++ [profile.id]⟩

def get (r : ProofProfileRegistry σ) (identity : Bytes32) : Option (ProofProfile σ) :=
  r.profiles.get (toLowerCase identity)

end ProofProfileRegistry

end Erc8415
