import Erc8415.Foundation.CodeUnits
import Erc8415.Proof.Profiles

/-! # The encodings over any strings

The hashed and the signed text again, now over strings of code units and any
reading of `toLowerCase`. The hashed text determines every field it names. The
signed bytes determine their fields up to lone surrogates, and are never those
of a hashed text. Over texts without lone surrogates both are the encodings of
the profiles.
-/

namespace Erc8415

/-- A text as the runtime holds it. -/
def jsText (text : String) : JsText := JsText.ofChars text.toList

/-- The text of a string, a lone surrogate as the replacement character. -/
def ofJsText (text : JsText) : String := String.ofList text.chars

@[simp] theorem ofJsText_jsText (text : String) : ofJsText (jsText text) = text := by
  simp [ofJsText, jsText]

theorem jsText_append (text text' : String) :
    jsText (text ++ text') = jsText text ++ jsText text' := by
  rw [jsText, String.toList_append, JsText.ofChars_append]
  rfl

namespace CodeUnits

/-- The binding of an admission, with any strings in it. -/
structure Binding where
  chainId : Int
  contract : JsText
  tokenId : Int
  settlementId : JsText
  snapshotHash : JsText
  holder : JsText
  priorCommitment : JsText
  nextCommitment : JsText
  version : Int
  effectiveAt : Int

/-- Fields behind their lengths, joined by a bar. -/
def lengthPrefixed (fields : List JsText) : JsText :=
  (jsText "|").intercalate (fields.map fun field => jsText s!"{field.length}:" ++ field)

/-- What is hashed of an admission, field by field. -/
def bindingFields (toLowerCase : JsText → JsText) (binding : Binding)
    (registryReference : JsText) : List JsText := [
  jsText "erc8415/admission/v2",
  jsText (toString binding.chainId),
  toLowerCase binding.contract,
  jsText (toString binding.tokenId),
  toLowerCase binding.settlementId,
  toLowerCase binding.snapshotHash,
  toLowerCase binding.holder,
  toLowerCase binding.priorCommitment,
  toLowerCase binding.nextCommitment,
  jsText (toString binding.version),
  jsText (toString binding.effectiveAt),
  registryReference]

/-- The string that `bindingDigest` hashes. -/
def bindingText (toLowerCase : JsText → JsText) (binding : Binding)
    (registryReference : JsText) : JsText :=
  lengthPrefixed (bindingFields toLowerCase binding registryReference)

/-- The exact bytes an issuer signs. -/
def message (digest : JsText) (expiresAt : Int) (issuer : JsText) : List UInt8 :=
  (lengthPrefixed [jsText Ed25519AttestationProfile.attestationDomain, issuer,
    jsText (toString expiresAt), digest]).utf8

/-! ## The hashed string -/

theorem jsText_injective : Function.Injective jsText :=
  fun _ _ h => String.toList_injective (JsText.ofChars_injective h)

theorem jsText_toString_inj {a b : Int} : jsText (toString a) = jsText (toString b) ↔ a = b :=
  jsText_injective.eq_iff.trans BigIntText.toString_inj

/-- Whatever the fields hold, the joined string determines them. -/
theorem lengthPrefixed_injective : Function.Injective lengthPrefixed := by
  have hsize (field : JsText) : LengthPrefixed.size (fun _ => 1) field = field.length := by
    induction field with
    | nil => rfl
    | cons u rest ih => rw [LengthPrefixed.size, ih, List.length_cons, Nat.add_comm]
  have hencode (fields : List JsText) : lengthPrefixed fields =
      LengthPrefixed.encode (fun _ => 1) (fun n => jsText (toString n)) 58 124 fields := by
    unfold lengthPrefixed LengthPrefixed.encode
    congr 1
    apply List.map_congr_left
    intro field _
    simp only [jsText, String.toList_append, JsText.ofChars_append, List.append_assoc,
      LengthPrefixed.block, hsize]
    rfl
  have hnumeral : Function.Injective fun n : Nat => jsText (toString n) := by
    intro m n h
    exact Nat.repr_injective (jsText_injective h)
  have hcolon (n : Nat) : (58 : UInt16) ∉ jsText (toString n) := by
    intro hmem
    have hunit : 58 ∈ Text.units (toString n).toList := by
      rw [← JsText.map_toNat_ofChars]
      exact List.mem_map_of_mem hmem
    obtain ⟨c, hc, hu⟩ := List.mem_flatMap.mp hunit
    rw [Nat.toString_eq_repr, Nat.toList_repr] at hc
    have hdigit := BigIntText.isDigit_bounds (BigIntText.isDigit_of_mem_decimal hc)
    have hlow : 48 ≤ c.toNat := hdigit.1
    have hhigh : c.toNat ≤ 57 := hdigit.2
    rw [Text.charUnits, if_pos (by omega), List.mem_singleton] at hu
    omega
  intro fields fields' h
  rw [hencode, hencode] at h
  exact LengthPrefixed.encode_injective (fun _ => Nat.one_pos) hnumeral hcolon h

/-- The hashed string says every field, the texts that are lowercased only after that. -/
theorem bindingText_eq_iff {toLowerCase : JsText → JsText} {binding binding' : Binding}
    {registryReference registryReference' : JsText} :
    bindingText toLowerCase binding registryReference =
        bindingText toLowerCase binding' registryReference' ↔
      binding.chainId = binding'.chainId ∧
      toLowerCase binding.contract = toLowerCase binding'.contract ∧
      binding.tokenId = binding'.tokenId ∧
      toLowerCase binding.settlementId = toLowerCase binding'.settlementId ∧
      toLowerCase binding.snapshotHash = toLowerCase binding'.snapshotHash ∧
      toLowerCase binding.holder = toLowerCase binding'.holder ∧
      toLowerCase binding.priorCommitment = toLowerCase binding'.priorCommitment ∧
      toLowerCase binding.nextCommitment = toLowerCase binding'.nextCommitment ∧
      binding.version = binding'.version ∧
      binding.effectiveAt = binding'.effectiveAt ∧
      registryReference = registryReference' := by
  unfold bindingText
  rw [lengthPrefixed_injective.eq_iff]
  simp only [bindingFields, List.cons.injEq, true_and, and_true, jsText_toString_inj]

/-! ## The signed bytes -/

theorem ofJsText_inj {text text' : JsText} :
    ofJsText text = ofJsText text' ↔ text.toWellFormed = text'.toWellFormed := by
  rw [JsText.toWellFormed_inj, ofJsText, ofJsText, String.ofList_inj]

/-- The characters of a field behind its length. -/
theorem chars_block (field : JsText) :
    JsText.chars (jsText s!"{field.length}:" ++ field) =
      (s!"{Text.length16 (ofJsText field).toList}:{ofJsText field}").toList := by
  have hascii : Text.IsAscii (s!"{field.length}:").toList := by
    rw [String.toList_append]
    apply Text.IsAscii.append
    · intro c hc
      rw [Nat.toString_eq_repr, Nat.toList_repr] at hc
      have hdigit := BigIntText.isDigit_bounds (BigIntText.isDigit_of_mem_decimal hc)
      have hhigh : c.toNat ≤ 57 := hdigit.2
      omega
    · decide
  rw [jsText, JsText.chars_ofChars_append hascii]
  change _ = (s!"{Text.length16 (ofJsText field).toList}:" ++ ofJsText field).toList
  simp only [String.toList_append, ofJsText, String.toList_ofList, JsText.length16_chars]

/-- Reading the characters of a joined string reads those of its fields. -/
theorem chars_lengthPrefixed (fields : List JsText) :
    (lengthPrefixed fields).chars = (Erc8415.lengthPrefixed (fields.map ofJsText)).toList := by
  have hbar (front rest : JsText) : JsText.chars (front ++ jsText "|" ++ rest) =
      front.chars ++ "|".toList ++ rest.chars := by
    rw [List.append_assoc, List.append_assoc]
    change JsText.chars (front ++ (124 : UInt16) :: rest) = _
    rw [JsText.chars_append_cons front (by decide), JsText.chars_cons (by decide)]
    rfl
  unfold lengthPrefixed Erc8415.lengthPrefixed
  rw [String.toList_intercalate]
  induction fields with
  | nil => rfl
  | cons field rest ih =>
      cases rest with
      | nil =>
          simp only [List.map_cons, List.map_nil, List.intercalate_singleton]
          exact chars_block field
      | cons next rest =>
          simp only [List.map_cons, List.intercalate_cons_cons] at ih ⊢
          rw [hbar, ih, chars_block]

/-- The signed bytes are those of the profile's text, over the texts of the strings. -/
theorem message_eq (digest : JsText) (expiresAt : Int) (issuer : JsText) :
    message digest expiresAt issuer = Erc8415.utf8 (Ed25519AttestationProfile.messageText
      (ofJsText digest) expiresAt (ofJsText issuer)) := by
  rw [message, JsText.utf8, chars_lengthPrefixed]
  simp only [List.map_cons, List.map_nil, ofJsText_jsText]
  rfl

/-- The signed bytes say every field, up to the lone surrogates they do not keep. -/
theorem message_eq_iff {digest digest' : JsText} {expiresAt expiresAt' : Int}
    {issuer issuer' : JsText} :
    message digest expiresAt issuer = message digest' expiresAt' issuer' ↔
      issuer.toWellFormed = issuer'.toWellFormed ∧ expiresAt = expiresAt' ∧
        digest.toWellFormed = digest'.toWellFormed := by
  rw [message_eq, message_eq, utf8_injective.eq_iff]
  unfold Ed25519AttestationProfile.messageText
  rw [Erc8415.lengthPrefixed_injective.eq_iff]
  simp only [List.cons.injEq, true_and, and_true, ofJsText_inj, BigIntText.toString_inj]

/-- What an issuer signs starts with a longer first field than what is hashed. -/
theorem message_ne (digest : JsText) (expiresAt : Int) (issuer : JsText)
    (toLowerCase : JsText → JsText) (binding : Binding) (registryReference : JsText) :
    message digest expiresAt issuer ≠
      (bindingText toLowerCase binding registryReference).utf8 := by
  intro h
  rw [message, JsText.utf8_inj, bindingText, chars_lengthPrefixed, chars_lengthPrefixed] at h
  have hfields := Erc8415.lengthPrefixed_injective (String.toList_injective h)
  simp only [bindingFields, List.map_cons, ofJsText_jsText, List.cons.injEq] at hfields
  exact absurd hfields.1 (by decide)

/-! ## The encodings of the profiles -/

/-- A binding of texts, as one of strings. -/
def Binding.ofTexts (binding : AdmissionBinding) : Binding where
  chainId := binding.chainId
  contract := jsText binding.contract
  tokenId := binding.tokenId
  settlementId := jsText binding.settlementId
  snapshotHash := jsText binding.snapshotHash
  holder := jsText binding.holder
  priorCommitment := jsText binding.priorCommitment
  nextCommitment := jsText binding.nextCommitment
  version := binding.version
  effectiveAt := binding.effectiveAt

/-- Where lowercasing a text agrees with the profiles' reading of it, the hashed bytes are
those of the profiles. -/
theorem utf8_bindingText {toLowerCase : JsText → JsText} {binding : AdmissionBinding}
    (hlower : ∀ text ∈ [binding.contract, binding.settlementId, binding.snapshotHash,
      binding.holder, binding.priorCommitment, binding.nextCommitment],
      toLowerCase (jsText text) = jsText (Erc8415.toLowerCase text))
    (candidate : CandidateEntry) :
    (bindingText toLowerCase (.ofTexts binding) (jsText candidate.registryReference)).utf8 =
      Erc8415.utf8 (Erc8415.bindingText binding candidate) := by
  simp only [List.forall_mem_cons] at hlower
  obtain ⟨hcontract, hid, hsnapshot, hholder, hprior, hnext, _⟩ := hlower
  have hfields : (bindingFields toLowerCase (.ofTexts binding)
      (jsText candidate.registryReference)).map ofJsText =
        Erc8415.bindingFields binding candidate := by
    simp only [bindingFields, Binding.ofTexts, hcontract, hid, hsnapshot, hholder, hprior, hnext,
      List.map_cons, List.map_nil, ofJsText_jsText]
    rfl
  rw [JsText.utf8, bindingText, chars_lengthPrefixed, hfields]
  rfl

theorem message_jsText (context : ProofContext) (expiresAt : Int) (issuer : String) :
    message (jsText (bindingDigest context.binding context.candidate)) expiresAt (jsText issuer) =
      Ed25519AttestationProfile.message context expiresAt issuer := by
  rw [message_eq, ofJsText_jsText, ofJsText_jsText]
  rfl

/-! ## Both encodings -/

/-- One issuer is signed for as another: both names are one lone surrogate. -/
theorem message_lone_surrogates :
    ¬ ∀ (issuer issuer' digest digest' : JsText) (expiresAt expiresAt' : Int),
      message digest expiresAt issuer = message digest' expiresAt' issuer' →
        issuer = issuer' ∧ expiresAt = expiresAt' ∧ digest = digest' := by
  intro h
  have hmessage : message (jsText "0x") 1 [0xd800] = message (jsText "0x") 1 [0xd801] :=
    message_eq_iff.mpr ⟨by decide, rfl, rfl⟩
  exact absurd (h _ _ _ _ _ _ hmessage).1 (by decide)

/-- Two hashed strings are equal only if every field is, the texts of the binding after
lowercasing. Two signed messages are equal only if the three fields are, up to lone
surrogates. No signed message is a hashed string. -/
theorem encodings_unambiguous (toLowerCase : JsText → JsText) :
    (∀ (binding binding' : Binding) (registryReference registryReference' : JsText),
      bindingText toLowerCase binding registryReference =
          bindingText toLowerCase binding' registryReference' ↔
        binding.chainId = binding'.chainId ∧
        toLowerCase binding.contract = toLowerCase binding'.contract ∧
        binding.tokenId = binding'.tokenId ∧
        toLowerCase binding.settlementId = toLowerCase binding'.settlementId ∧
        toLowerCase binding.snapshotHash = toLowerCase binding'.snapshotHash ∧
        toLowerCase binding.holder = toLowerCase binding'.holder ∧
        toLowerCase binding.priorCommitment = toLowerCase binding'.priorCommitment ∧
        toLowerCase binding.nextCommitment = toLowerCase binding'.nextCommitment ∧
        binding.version = binding'.version ∧
        binding.effectiveAt = binding'.effectiveAt ∧
        registryReference = registryReference') ∧
    (∀ (issuer issuer' digest digest' : JsText) (expiresAt expiresAt' : Int),
      message digest expiresAt issuer = message digest' expiresAt' issuer' ↔
        issuer.toWellFormed = issuer'.toWellFormed ∧ expiresAt = expiresAt' ∧
          digest.toWellFormed = digest'.toWellFormed) ∧
    ∀ (issuer digest : JsText) (expiresAt : Int) (binding : Binding)
      (registryReference : JsText),
      message digest expiresAt issuer ≠
        (bindingText toLowerCase binding registryReference).utf8 := by
  refine ⟨fun _ _ _ _ => bindingText_eq_iff, fun _ _ _ _ _ _ => message_eq_iff, ?_⟩
  intro issuer digest expiresAt binding registryReference
  exact message_ne digest expiresAt issuer toLowerCase binding registryReference

end CodeUnits

end Erc8415
