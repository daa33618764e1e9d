import Erc8415.Foundation.BigIntText
import Erc8415.Foundation.Hex
import Erc8415.Foundation.LengthPrefixed
import Erc8415.Foundation.Sha256
import Erc8415.Foundation.TextEncoding
import Erc8415.Proof.Profile

/-! # The admission binding digest

The canonical digest of what a proof is allowed to admit. Every field is
length-prefixed before joining, so the text that is hashed determines every
field, and the fields of one admission determine it.
-/

namespace Erc8415

/-- `Buffer.from(text, 'utf8')`. -/
def utf8 (text : String) : List UInt8 := Text.encode text.toList

/-- Hex text of bytes. -/
def hexText (bytes : List UInt8) : String := "0x" ++ String.ofList (Hex.ofBytes bytes)

def hexToBytes (hex : String) : List UInt8 :=
  match hex.toList with
  | '0' :: 'x' :: digits => Hex.toBytes digits
  | digits => Hex.toBytes digits

def sha256Hex (input : String) : String := hexText (sha256 (utf8 input))

/-- Fields behind their lengths in code units, joined by a bar. -/
def lengthPrefixed (fields : List String) : String :=
  "|".intercalate (fields.map fun field => s!"{Text.length16 field.toList}:{field}")

/-- What is hashed of an admission, field by field. -/
def bindingFields (binding : AdmissionBinding) (candidate : CandidateEntry) : List String := [
  "erc8415/admission/v2",
  toString binding.chainId,
  toLowerCase binding.contract,
  toString binding.tokenId,
  toLowerCase binding.settlementId,
  toLowerCase binding.snapshotHash,
  toLowerCase binding.holder,
  toLowerCase binding.priorCommitment,
  toLowerCase binding.nextCommitment,
  toString binding.version,
  toString binding.effectiveAt,
  candidate.registryReference]

/-- The text whose digest is the binding digest. -/
def bindingText (binding : AdmissionBinding) (candidate : CandidateEntry) : String :=
  lengthPrefixed (bindingFields binding candidate)

def bindingDigest (binding : AdmissionBinding) (candidate : CandidateEntry) : String :=
  sha256Hex (bindingText binding candidate)

/-- The bytes of two hashes, one after the other. -/
def pairBytes (left right : String) : List UInt8 := hexToBytes left ++ hexToBytes right

def hashPair (left right : String) : String := hexText (sha256 (pairBytes left right))

/-! ## What a text determines -/

theorem utf8_injective : Function.Injective utf8 := by
  intro first second h
  have hchars := congrArg Text.decode h
  simp only [utf8, Text.decode_encode] at hchars
  exact String.toList_injective hchars

@[simp] theorem hexToBytes_hexText (bytes : List UInt8) : hexToBytes (hexText bytes) = bytes := by
  have hchars : (hexText bytes).toList = '0' :: 'x' :: Hex.ofBytes bytes := by
    simp [hexText]
  rw [hexToBytes, hchars]
  exact Hex.toBytes_ofBytes bytes

theorem hexText_injective : Function.Injective hexText :=
  Function.LeftInverse.injective hexToBytes_hexText

theorem isBytes32_hexText {bytes : List UInt8} (h : bytes.length = 32) :
    isBytes32 (hexText bytes) = true := by
  have hchars : (hexText bytes).toList = '0' :: 'x' :: Hex.ofBytes bytes := by
    simp [hexText]
  simp only [isBytes32, isHexWord, hchars, Hex.length_ofBytes, h, Bool.and_eq_true,
    List.all_eq_true, beq_iff_eq, true_and]
  intro c hc
  obtain ⟨d, hd, rfl⟩ := Hex.mem_ofBytes hc
  exact Hex.digit_isLower hd

/-- The length-prefixed form over characters, each weighed in code units. -/
theorem lengthPrefixed_toList (fields : List String) :
    (lengthPrefixed fields).toList =
      LengthPrefixed.encode (fun c => (Text.charUnits c).length) (Nat.toDigits 10) ':' '|'
        (fields.map String.toList) := by
  have hsize (cs : List Char) :
      LengthPrefixed.size (fun c => (Text.charUnits c).length) cs = Text.length16 cs := by
    induction cs with
    | nil => rfl
    | cons c rest ih =>
        rw [LengthPrefixed.size, ih]
        simp [Text.length16, Text.units]
  have hblock (field : String) : (s!"{Text.length16 field.toList}:{field}").toList =
      LengthPrefixed.block (fun c => (Text.charUnits c).length) (Nat.toDigits 10) ':'
        field.toList := by
    simp only [String.toList_append, LengthPrefixed.block, hsize, Nat.toString_eq_repr,
      Nat.toList_repr, List.append_assoc]
    rfl
  simp only [lengthPrefixed, LengthPrefixed.encode, String.toList_intercalate, List.map_map]
  exact congrArg _ (List.map_congr_left fun field _ => hblock field)

theorem lengthPrefixed_injective : Function.Injective lengthPrefixed := by
  intro fields fields' h
  have hweight (c : Char) : 0 < (Text.charUnits c).length := by
    unfold Text.charUnits
    split <;> simp
  have hnumeral : Function.Injective (Nat.toDigits 10) := by
    intro m n heq
    have hparsed := BigIntText.parseDigits_decimal m
    rw [heq, BigIntText.parseDigits_decimal] at hparsed
    exact (Option.some.inj hparsed).symm
  have hstop (n : Nat) : ':' ∉ Nat.toDigits 10 n := fun hmem =>
    absurd (BigIntText.isDigit_of_mem_decimal hmem) (by decide)
  have hchars := congrArg String.toList h
  rw [lengthPrefixed_toList, lengthPrefixed_toList] at hchars
  exact List.map_injective_iff.mpr (fun _ _ => String.toList_injective)
    (LengthPrefixed.encode_injective hweight hnumeral hstop hchars)

/-- Every text of a binding but the contract is a hex word. -/
structure AdmissionBinding.Worded (binding : AdmissionBinding) : Prop where
  settlementId : isBytes32 binding.settlementId = true
  snapshotHash : isBytes32 binding.snapshotHash = true
  holder : isAddress binding.holder = true
  priorCommitment : isBytes32 binding.priorCommitment = true
  nextCommitment : isBytes32 binding.nextCommitment = true

/-- What is in lowercase already goes into the text as it stands. -/
theorem AdmissionBinding.Worded.bindingFields_eq {binding : AdmissionBinding} (h : binding.Worded)
    (candidate : CandidateEntry) :
    bindingFields binding candidate = [
      "erc8415/admission/v2", toString binding.chainId, toLowerCase binding.contract,
      toString binding.tokenId, binding.settlementId, binding.snapshotHash, binding.holder,
      binding.priorCommitment, binding.nextCommitment, toString binding.version,
      toString binding.effectiveAt, candidate.registryReference] := by
  rw [bindingFields, toLowerCase_of_isHexWord h.settlementId,
    toLowerCase_of_isHexWord h.snapshotHash, toLowerCase_of_isHexWord h.holder,
    toLowerCase_of_isHexWord h.priorCommitment, toLowerCase_of_isHexWord h.nextCommitment]

/-- On one contract, the hashed text determines the whole binding and the
registry reference. -/
theorem bindingText_inj {binding binding' : AdmissionBinding}
    {candidate candidate' : CandidateEntry}
    (hworded : binding.Worded) (hworded' : binding'.Worded)
    (hcontract : binding.contract = binding'.contract)
    (h : bindingText binding candidate = bindingText binding' candidate') :
    binding = binding' ∧ candidate.registryReference = candidate'.registryReference := by
  have hfields := lengthPrefixed_injective h
  rw [hworded.bindingFields_eq, hworded'.bindingFields_eq] at hfields
  simp only [List.cons.injEq, and_true, true_and, BigIntText.toString_inj] at hfields
  obtain ⟨hchain, _, htoken, hid, hsnapshot, hholder, hprior, hnext, hversion, heffective,
    hreference⟩ := hfields
  cases binding
  cases binding'
  simp only at hchain hcontract htoken hid hsnapshot hholder hprior hnext hversion heffective
  subst hchain hcontract htoken hid hsnapshot hholder hprior hnext hversion heffective
  exact ⟨rfl, hreference⟩

end Erc8415
