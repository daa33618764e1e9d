import Erc8415.Foundation.MerkleTree
import Erc8415.Projection.Atomicity
import Erc8415.Proof.Profiles

/-! # Roots and paths of the Merkle profile

The root over a list of leaves, and the path of one leaf, as the kit builds
them. The profile admits every leaf by its path. It admits nothing else: a
binding is hashed from more bytes than a pair of nodes, so no path from above or
below the leaves fits.
-/

namespace Erc8415

/-- The steps of the profile, over the nodes of a tree. -/
def merkleSteps : MerkleTree.Steps String MerkleStep where
  onLeft hash := ⟨hash, .left⟩
  onRight hash := ⟨hash, .right⟩
  pair step node :=
    match step.side with
    | .left => (step.hash, node)
    | .right => (node, step.hash)
  pair_onLeft _ _ := rfl
  pair_onRight _ _ := rfl
  node_mem step node := by
    cases step.side with
    | left => exact Or.inr rfl
    | right => exact Or.inl rfl

def merkleRoot (leaves : List String) : Except Thrown String :=
  match MerkleTree.root hashPair leaves with
  | none => .error (.error "cannot root an empty tree")
  | some root => .ok root

/-- `position >> 1`, on the low 32 bits of the position. -/
def shiftRightOne (position : Int) : Int := ((BitVec.ofInt 32 position).sshiftRight 1).toInt

/-- What a pair of neighbours from index `i` of a level pushes. -/
def pushedAt (position : Int) (i : Nat) (left right : String) : List MerkleStep :=
  if (i : Int) = position - position.tmod 2 then
    [if position.tmod 2 = 0 then ⟨right, .right⟩ else ⟨left, .left⟩]
  else []

/-- What a level pushes, from its index `i` on. -/
def pushedFrom (position : Int) : Nat → List String → List MerkleStep
  | _, [] => []
  | i, [left] => pushedAt position i left left
  | i, left :: right :: rest =>
      pushedAt position i left right ++ pushedFrom position (i + 2) rest

/-- The loop of `merklePath`, which halves the level as the one of `merkleRoot` does. -/
def merklePathFrom : Nat → List String → Int → List MerkleStep
  | 0, _, _ => []
  | fuel + 1, level, position =>
      if 1 < level.length then
        pushedFrom position 0 level ++
          merklePathFrom fuel (MerkleTree.above hashPair level) (shiftRightOne position)
      else []

def merklePath (leaves : List String) (index : Int) : Except Thrown (List MerkleStep) :=
  if index < 0 ∨ (leaves.length : Int) ≤ index then .error (.error "leaf index out of range")
  else .ok (merklePathFrom leaves.length leaves index)

/-! ## Nodes -/

theorem isBytes32_hashPair (left right : String) : isBytes32 (hashPair left right) = true :=
  isBytes32_hexText (length_sha256 _)

/-- A lowercase 32-byte word is the text of its bytes. -/
theorem eq_hexText_of_isBytes32 {node : String} (h : isBytes32 node = true) :
    node = hexText (hexToBytes node) ∧ (hexToBytes node).length = 32 := by
  simp only [isBytes32, isHexWord] at h
  split at h
  next digits hchars =>
    simp only [Bool.and_eq_true, List.all_eq_true, beq_iff_eq] at h
    have hlength : digits.length = 2 * 32 := h.1
    obtain ⟨hdigits, hlength⟩ := Hex.ofBytes_toBytes hlength h.2
    have hbytes : hexToBytes node = Hex.toBytes digits := by
      unfold hexToBytes
      simp only [hchars]
    rw [hbytes]
    refine ⟨String.toList_injective ?_, hlength⟩
    rw [hchars, hexText, hdigits]
    simp
  next => cases h

theorem hexToBytes_inj {node node' : String} (h : isBytes32 node = true)
    (h' : isBytes32 node' = true) (heq : hexToBytes node = hexToBytes node') : node = node' := by
  rw [(eq_hexText_of_isBytes32 h).1, (eq_hexText_of_isBytes32 h').1, heq]

/-- Two nodes hash 64 bytes. -/
theorem length_pairBytes {left right : String} (hleft : isBytes32 left = true)
    (hright : isBytes32 right = true) : (pairBytes left right).length = 64 := by
  rw [pairBytes, List.length_append, (eq_hexText_of_isBytes32 hleft).2,
    (eq_hexText_of_isBytes32 hright).2]

/-- The bytes of a pair of nodes determine the pair. -/
theorem pairBytes_inj {pair pair' : String × String}
    (h : isBytes32 pair.1 = true ∧ isBytes32 pair.2 = true)
    (h' : isBytes32 pair'.1 = true ∧ isBytes32 pair'.2 = true)
    (heq : pairBytes pair.1 pair.2 = pairBytes pair'.1 pair'.2) : pair = pair' := by
  have hlength : (hexToBytes pair.1).length = (hexToBytes pair'.1).length := by
    rw [(eq_hexText_of_isBytes32 h.1).2, (eq_hexText_of_isBytes32 h'.1).2]
  obtain ⟨hfirst, hsecond⟩ := List.append_inj heq hlength
  exact Prod.ext (hexToBytes_inj h.1 h'.1 hfirst) (hexToBytes_inj h.2 h'.2 hsecond)

/-! ## The profile's climb -/

theorem MerkleStep.above_eq_stepUp (step : MerkleStep) (node : String) :
    step.above node = MerkleTree.stepUp hashPair merkleSteps node step := by
  unfold above MerkleTree.stepUp
  simp only [merkleSteps]
  cases step.side <;> rfl

theorem MerkleStep.bytes_eq_pairBytes (step : MerkleStep) (node : String) :
    step.bytes node = pairBytes (merkleSteps.pair step node).1 (merkleSteps.pair step node).2 := by
  unfold bytes
  simp only [merkleSteps]
  cases step.side <;> rfl

theorem MerkleProofProfile.climb_eq (node : String) (path : List MerkleStep) :
    climb node path = MerkleTree.climb hashPair merkleSteps node path := by
  unfold climb MerkleTree.climb
  congr 1
  funext node step
  exact step.above_eq_stepUp node

/-- What is hashed along a path, pair by pair. -/
theorem MerkleProofProfile.hashed_eq (node : String) (path : List MerkleStep) :
    hashed node path = (MerkleTree.pathPairs hashPair merkleSteps node path).map fun pair =>
      pairBytes pair.1 pair.2 := by
  induction path generalizing node with
  | nil => rfl
  | cons step rest ih =>
      rw [hashed, MerkleTree.pathPairs, List.map_cons, ih, step.bytes_eq_pairBytes,
        step.above_eq_stepUp]

/-- A step the profile accepts names a node. -/
theorem isBytes32_of_asStep {value : JsValue} {step : MerkleStep} (h : asStep value = some step) :
    isBytes32 step.hash = true := by
  unfold asStep at h
  split at h
  next hash side _ _ =>
    split_ifs at h with hword hleft hright
    · cases h
      exact (Bool.not_eq_false _).mp hword
    · cases h
      exact (Bool.not_eq_false _).mp hword
  next => cases h

theorem isBytes32_of_path {payload : JsValue} {path : List MerkleStep}
    (h : MerkleProofProfile.path payload = some path) :
    ∀ step ∈ path, isBytes32 step.hash = true := by
  have hitems (items : List JsValue) (path : List MerkleStep) (h : items.mapM asStep = some path) :
      ∀ step ∈ path, isBytes32 step.hash = true := by
    induction items generalizing path with
    | nil =>
        cases h
        simp
    | cons value rest ih =>
        simp only [List.mapM_cons, Option.bind_eq_bind, Option.pure_def, Option.bind_eq_some_iff,
          Option.some.injEq] at h
        obtain ⟨step, hstep, steps, hsteps, rfl⟩ := h
        exact List.forall_mem_cons.mpr ⟨isBytes32_of_asStep hstep, ih steps hsteps⟩
  unfold MerkleProofProfile.path at h
  split at h
  next items _ => exact hitems items path h
  next => cases h

/-- The sides of a step, as the pair it combines with a node. -/
theorem isBytes32_pair {step : MerkleStep} {node : String} (hstep : isBytes32 step.hash = true)
    (hnode : isBytes32 node = true) :
    isBytes32 (merkleSteps.pair step node).1 = true ∧
      isBytes32 (merkleSteps.pair step node).2 = true := by
  simp only [merkleSteps]
  cases step.side with
  | left => exact ⟨hstep, hnode⟩
  | right => exact ⟨hnode, hstep⟩

/-! ## Payloads -/

def MerkleStep.toJs (step : MerkleStep) : JsValue :=
  .object [("hash", .string step.hash),
    ("side", .string (match step.side with | .left => "left" | .right => "right"))]

/-- The path of a payload. -/
def pathPayload (path : List MerkleStep) : JsValue :=
  .object [("path", .array (path.map MerkleStep.toJs))]

theorem asStep_toJs {step : MerkleStep} (h : isBytes32 step.hash = true) :
    asStep step.toJs = some step := by
  have hword : isHexWord 64 step.hash = true := h
  obtain ⟨hash, side⟩ := step
  cases side with
  | left => simp_all [asStep, MerkleStep.toJs, JsValue.get, JsValue.property]
  | right => simp_all [asStep, MerkleStep.toJs, JsValue.get, JsValue.property]

theorem path_pathPayload {path : List MerkleStep} (h : ∀ step ∈ path, isBytes32 step.hash = true) :
    MerkleProofProfile.path (pathPayload path) = some path := by
  change (path.map MerkleStep.toJs).mapM asStep = some path
  induction path with
  | nil => rfl
  | cons step rest ih =>
      obtain ⟨hstep, hrest⟩ := List.forall_mem_cons.mp h
      rw [List.map_cons, List.mapM_cons, asStep_toJs hstep, ih hrest]
      rfl

/-! ## Soundness -/

/-- The text whose digest is the leaf of an admission. -/
def ProofContext.preimage (context : ProofContext) : List UInt8 :=
  utf8 (bindingText context.binding context.candidate)

def ProofContext.digest (context : ProofContext) : String :=
  bindingDigest context.binding context.candidate

/-- A context as a store builds it, for a candidate whose shape it has accepted. -/
def ProofContext.BuiltByStore (context : ProofContext) : Prop :=
  ∃ (σ : Type) (o : StoreConfig σ) (s : ProjectionStore σ) (tokenId : Int) (value : JsValue)
    (candidate : CandidateEntry), validateCandidateShape value = .ok candidate ∧
      s.proofContext o tokenId candidate = context

theorem length_lt_lengthPrefixed {field : String} {fields : List String} (h : field ∈ fields) :
    field.toList.length < (lengthPrefixed fields).toList.length := by
  rw [lengthPrefixed_toList]
  exact LengthPrefixed.length_lt_encode (List.mem_map_of_mem h)

/-- A binding is hashed from more bytes than two nodes. -/
theorem ProofContext.BuiltByStore.length_preimage {context : ProofContext}
    (h : context.BuiltByStore) : 64 < context.preimage.length := by
  obtain ⟨σ, o, s, tokenId, value, candidate, hshape, rfl⟩ := h
  obtain ⟨_, _, _, _, _, _, _, hshaped⟩ := validateCandidateShape_eq_ok.mp hshape
  have hword : toLowerCase candidate.recordCommitment = candidate.recordCommitment :=
    toLowerCase_of_isHexWord hshaped.recordCommitment
  have hlength : candidate.recordCommitment.toList.length = 66 := by
    have h := eq_hexText_of_isBytes32 hshaped.recordCommitment
    rw [h.1]
    simp [hexText, Hex.length_ofBytes, h.2]
  have hfield : candidate.recordCommitment ∈
      bindingFields (s.proofContext o tokenId candidate).binding candidate := by
    simp [bindingFields, ProjectionStore.proofContext, hword]
  have hlt := length_lt_lengthPrefixed hfield
  rw [hlength] at hlt
  have hbytes := Text.length_le_length_encode
    (bindingText (s.proofContext o tokenId candidate).binding candidate).toList
  exact Nat.lt_trans (by omega) (Nat.lt_of_lt_of_le hlt hbytes)

/-- The messages hashed on the way from some leaves to their root. -/
def merkleHashed (leaves : List String) : List (List UInt8) :=
  (MerkleTree.treePairs hashPair leaves.length leaves).map fun pair => pairBytes pair.1 pair.2

/-- Everything hashed by a tree over these admissions and a verification of one more. -/
def merkleMessages (admissions : List ProofContext) (context : ProofContext) (root : String)
    (material : ProofMaterial) : List (List UInt8) :=
  context.preimage :: admissions.map ProofContext.preimage ++
    merkleHashed (admissions.map ProofContext.digest) ++
    KitProfile.merkle.hashed root material context.digest

theorem ProofContext.isBytes32_digest (context : ProofContext) : isBytes32 context.digest = true :=
  isBytes32_hexText (length_sha256 _)

/-- The pairs combined for some leaves and along a path. -/
def merklePairs (leaves : List String) (node : String) (path : List MerkleStep) :
    List (String × String) :=
  MerkleTree.treePairs hashPair leaves.length leaves ++
    MerkleTree.pathPairs hashPair merkleSteps node path

theorem isBytes32_of_mem_merklePairs {leaves : List String} {node : String}
    {path : List MerkleStep} (hleaves : ∀ leaf ∈ leaves, isBytes32 leaf = true)
    (hnode : isBytes32 node = true) (hpath : ∀ step ∈ path, isBytes32 step.hash = true)
    {pair : String × String} (h : pair ∈ merklePairs leaves node path) :
    isBytes32 pair.1 = true ∧ isBytes32 pair.2 = true := by
  rcases List.mem_append.mp h with h | h
  · exact MerkleTree.of_mem_treePairs isBytes32_hashPair hleaves h
  · apply MerkleTree.of_mem_pathPairs (P := fun node => isBytes32 node = true)
      isBytes32_hashPair hnode _ h
    intro step hstep node hnode
    exact isBytes32_pair (hpath step hstep) hnode

/-- The node of a message. -/
def messageNode (message : List UInt8) : String := hexText (sha256 message)

theorem isBytes32_messageNode (message : List UInt8) : isBytes32 (messageNode message) = true :=
  isBytes32_hexText (length_sha256 _)

section Climb

variable {messages : List (List UInt8)} {message : List UInt8} {path : List MerkleStep}

/-- A path from the node of a message to the root over the nodes of some messages, all of them
longer than a pair of nodes, starts at one of these. -/
theorem mem_of_climb_messageNode (hlong : ∀ m ∈ message :: messages, 64 < m.length)
    (hpath : ∀ step ∈ path, isBytes32 step.hash = true)
    (hfree : CollisionFree (message :: messages ++ merkleHashed (messages.map messageNode) ++
      MerkleProofProfile.hashed (messageNode message) path))
    (hroot : MerkleTree.root hashPair (messages.map messageNode) =
      some (MerkleProofProfile.climb (messageNode message) path)) :
    messageNode message ∈ messages.map messageNode := by
  rw [MerkleProofProfile.climb_eq] at hroot
  rw [MerkleProofProfile.hashed_eq] at hfree
  have hwords : ∀ pair ∈ merklePairs (messages.map messageNode) (messageNode message) path,
      isBytes32 pair.1 = true ∧ isBytes32 pair.2 = true := by
    intro pair hpair
    exact isBytes32_of_mem_merklePairs
      (List.forall_mem_map.mpr fun m _ => isBytes32_messageNode m)
      (isBytes32_messageNode message) hpath hpair
  have hmessage : ∀ pair ∈ merklePairs (messages.map messageNode) (messageNode message) path,
      pairBytes pair.1 pair.2 ∈ message :: messages ++ merkleHashed (messages.map messageNode) ++
        (MerkleTree.pathPairs hashPair merkleSteps (messageNode message) path).map
          fun pair => pairBytes pair.1 pair.2 := by
    intro pair hpair
    rcases List.mem_append.mp hpair with hpair | hpair
    · apply List.mem_append_left
      exact List.mem_append_right _ (List.mem_map_of_mem hpair)
    · exact List.mem_append_right _ (List.mem_map_of_mem hpair)
  -- What is combined is 64 bytes long, so it is the node of none of the messages.
  have hleaf : ∀ m ∈ message :: messages,
      ∀ pair ∈ merklePairs (messages.map messageNode) (messageNode message) path,
        hashPair pair.1 pair.2 ≠ messageNode m := by
    intro m hm pair hpair heq
    have hbytes := hfree _ (hmessage pair hpair) m
      (List.mem_append_left _ (List.mem_append_left _ hm)) (hexText_injective heq)
    have hlength := hlong m hm
    rw [← hbytes, length_pairBytes (hwords pair hpair).1 (hwords pair hpair).2] at hlength
    exact Nat.lt_irrefl 64 hlength
  refine MerkleTree.mem_of_climb_eq_root ?_ (List.subset_append_left _ _)
    (List.subset_append_right _ _) ?_ ?_ hroot
  · intro pair hpair pair' hpair' heq
    exact pairBytes_inj (hwords pair hpair) (hwords pair' hpair')
      (hfree _ (hmessage pair hpair) _ (hmessage pair' hpair') (hexText_injective heq))
  · intro pair hpair hmem
    obtain ⟨m, hm, heq⟩ := List.mem_map.mp hmem
    exact hleaf m (List.mem_cons_of_mem _ hm) pair hpair heq.symm
  · exact hleaf message List.mem_cons_self

end Climb

/-- An admission that the profile admits against the root over some admissions is one of
them, as long as no two messages hashed for this have one digest. -/
theorem merkle_sound {admissions : List ProofContext} {context : ProofContext}
    {stateRootAt : Int → Option String} {root : String} {material : ProofMaterial}
    (hadmissions : ∀ admission ∈ admissions, admission.BuiltByStore)
    (hcontext : context.BuiltByStore)
    (hroot : merkleRoot (admissions.map ProofContext.digest) = .ok root)
    (hreported : stateRootAt material.remoteHeight = some root)
    (hfree : CollisionFree (merkleMessages admissions context root material))
    (h : MerkleProofProfile.verify stateRootAt material context = .admitted) :
    context.digest ∈ admissions.map ProofContext.digest := by
  obtain ⟨path, hpath, _, hclimb⟩ := MerkleProofProfile.verify_eq_admitted.mp h
  rw [hreported] at hclimb
  have hdigests : admissions.map ProofContext.digest =
      (admissions.map ProofContext.preimage).map messageNode := by
    rw [List.map_map]
    rfl
  have htop : MerkleTree.root hashPair (admissions.map ProofContext.digest) =
      some (MerkleProofProfile.climb context.digest path) := by
    rw [merkleRoot] at hroot
    split at hroot
    next => cases hroot
    next r hr =>
      cases hroot
      exact hr.trans hclimb
  have hlong : ∀ m ∈ context.preimage :: admissions.map ProofContext.preimage, 64 < m.length := by
    refine List.forall_mem_cons.mpr ⟨hcontext.length_preimage, ?_⟩
    exact List.forall_mem_map.mpr fun admission hmem => (hadmissions admission hmem).length_preimage
  rw [merkleMessages, KitProfile.hashed_merkle hpath, hdigests] at hfree
  rw [hdigests] at htop ⊢
  exact mem_of_climb_messageNode hlong (isBytes32_of_path hpath) hfree htop

/-! ### Two leaves -/

section TwoLeaves

open ProjectionStore

/-- A first entry of token 1, while a gap is open on it. -/
def firstBinding : AdmissionBinding where
  chainId := 1
  contract := "0x1111111111111111111111111111111111111111"
  tokenId := 1
  settlementId := word '5'
  snapshotHash := word '6'
  holder := firstCandidate.holder
  priorCommitment := zeroBytes32
  nextCommitment := word '1'
  version := 1
  effectiveAt := 100

/-- The next entry, with no gap open. -/
def secondBinding : AdmissionBinding :=
  { firstBinding with
    settlementId := zeroBytes32, snapshotHash := zeroBytes32, priorCommitment := word '1',
    nextCommitment := word '2', version := 2, effectiveAt := 200 }

def firstText : List UInt8 := utf8 (bindingText firstBinding firstCandidate)

def secondText : List UInt8 := utf8 (bindingText secondBinding secondCandidate)

def firstLeaf : String := bindingDigest firstBinding firstCandidate

def secondLeaf : String := bindingDigest secondBinding secondCandidate

/-- The root of the tree of both. -/
def pairRoot : String := hashPair firstLeaf secondLeaf

def firstDigest : List UInt8 :=
  [213, 187, 141, 116, 111, 42, 150, 165, 8, 149, 106, 107, 8, 165, 128, 95,
    174, 238, 29, 29, 15, 152, 28, 126, 117, 153, 251, 26, 41, 183, 52, 241]

def secondDigest : List UInt8 :=
  [45, 42, 217, 246, 226, 173, 136, 12, 205, 78, 128, 195, 96, 13, 240, 196,
    92, 243, 223, 162, 106, 173, 245, 4, 170, 177, 218, 124, 57, 42, 87, 122]

def pairDigest : List UInt8 :=
  [209, 148, 74, 202, 124, 248, 87, 194, 117, 181, 29, 103, 124, 129, 42, 218,
    32, 83, 2, 239, 140, 193, 114, 85, 126, 224, 234, 112, 153, 80, 68, 120]

theorem firstBinding_worded : firstBinding.Worded where
  settlementId := by decide
  snapshotHash := by decide
  holder := firstCandidate_shaped.holder
  priorCommitment := firstCandidate_shaped.previousCommitment
  nextCommitment := firstCandidate_shaped.recordCommitment

theorem secondBinding_worded : secondBinding.Worded where
  settlementId := firstCandidate_shaped.previousCommitment
  snapshotHash := firstCandidate_shaped.previousCommitment
  holder := secondCandidate_shaped.holder
  priorCommitment := secondCandidate_shaped.previousCommitment
  nextCommitment := secondCandidate_shaped.recordCommitment

theorem contract_toList : (toLowerCase firstBinding.contract).toList =
    '0' :: 'x' :: List.replicate 40 '1' := by decide

theorem sha256_firstText : sha256 firstText = firstDigest := by
  have hone : (toString (1 : Int)).toList = ['1'] := by decide
  have hinstant : (toString (100 : Int)).toList = ['1', '0', '0'] := by decide
  rw [firstText, utf8, bindingText, lengthPrefixed_toList, firstBinding_worded.bindingFields_eq]
  simp only [List.map_cons, List.map_nil, contract_toList]
  simp only [firstBinding, firstCandidate, word, hone, hinstant, zeroBytes32, String.toList_ofList]
  decide +kernel

theorem sha256_secondText : sha256 secondText = secondDigest := by
  have hone : (toString (1 : Int)).toList = ['1'] := by decide
  have htwo : (toString (2 : Int)).toList = ['2'] := by decide
  have hinstant : (toString (200 : Int)).toList = ['2', '0', '0'] := by decide
  have hcontract : (toLowerCase secondBinding.contract).toList = _ := contract_toList
  rw [secondText, utf8, bindingText, lengthPrefixed_toList, secondBinding_worded.bindingFields_eq]
  simp only [List.map_cons, List.map_nil, hcontract]
  simp only [secondBinding, firstBinding, secondCandidate, firstCandidate, word, hone, htwo,
    hinstant, zeroBytes32, String.toList_ofList]
  decide +kernel

theorem pairBytes_leaves : pairBytes firstLeaf secondLeaf = firstDigest ++ secondDigest := by
  have hfirst : firstLeaf = hexText (sha256 firstText) := rfl
  have hsecond : secondLeaf = hexText (sha256 secondText) := rfl
  rw [pairBytes, hfirst, hsecond, hexToBytes_hexText, hexToBytes_hexText, sha256_firstText,
    sha256_secondText]

/-- Nothing that is hashed for the tree and for climbing it has the digest of another. -/
theorem leaves_collisionFree :
    CollisionFree [firstText, secondText, pairBytes firstLeaf secondLeaf] := by
  have hpair : sha256 (firstDigest ++ secondDigest) = pairDigest := by decide +kernel
  apply CollisionFree.of_nodup
  rw [pairBytes_leaves]
  simp only [List.map_cons, List.map_nil, sha256_firstText, sha256_secondText, hpair]
  decide

theorem merkleRoot_pair (left right : String) :
    merkleRoot [left, right] = .ok (hashPair left right) := rfl

theorem merkleHashed_pair (left right : String) :
    merkleHashed [left, right] = [pairBytes left right] := rfl

theorem climb_onLeft (sibling node : String) :
    MerkleProofProfile.climb node [⟨sibling, .left⟩] = hashPair sibling node := rfl

theorem climb_onRight (sibling node : String) :
    MerkleProofProfile.climb node [⟨sibling, .right⟩] = hashPair node sibling := rfl

theorem hashed_onLeft (sibling node : String) :
    MerkleProofProfile.hashed node [⟨sibling, .left⟩] = [pairBytes sibling node] := rfl

theorem hashed_onRight (sibling node : String) :
    MerkleProofProfile.hashed node [⟨sibling, .right⟩] = [pairBytes node sibling] := rfl

theorem isBytes32_leaves : isBytes32 firstLeaf = true ∧ isBytes32 secondLeaf = true :=
  ⟨isBytes32_hexText (length_sha256 _), isBytes32_hexText (length_sha256 _)⟩

def firstContext : ProofContext := ⟨firstBinding, firstCandidate, 0, true⟩

def secondContext : ProofContext := ⟨secondBinding, secondCandidate, 5, true⟩

theorem firstContext_builtByStore : firstContext.BuiltByStore :=
  ⟨MemoryChain, memoryConfig,
    (initial (MemoryChain.new {}) JournalContent.empty).opened 1 firstGap, 1, _, firstCandidate,
    validateCandidateShape_toJs.mpr ⟨rfl, firstCandidate_shaped⟩, by decide⟩

theorem secondContext_builtByStore : secondContext.BuiltByStore :=
  ⟨MemoryChain, memoryConfig,
    (initial (MemoryChain.new {}) JournalContent.empty).admitted 1 firstCandidate 5
      { MemoryChain.new {} with heights := InsertionMap.empty.set "1" 5 }, 1, _, secondCandidate,
    validateCandidateShape_toJs.mpr ⟨rfl, secondCandidate_shaped⟩, by decide⟩

/-- The second leaf, by the path with the first on its left. -/
theorem merkle_sound_two_leaves :
    let material : ProofMaterial :=
      ⟨MerkleProofProfile.id, 10, pathPayload [⟨firstLeaf, .left⟩]⟩
    merkleRoot [firstLeaf, secondLeaf] = .ok pairRoot ∧
      MerkleProofProfile.verify (fun _ => some pairRoot) material secondContext = .admitted ∧
      secondContext.digest ∈ [firstContext, secondContext].map ProofContext.digest := by
  intro material
  have hpath : MerkleProofProfile.path material.payload = some [⟨firstLeaf, .left⟩] :=
    path_pathPayload (List.forall_mem_singleton.mpr isBytes32_leaves.1)
  have hroot : merkleRoot [firstLeaf, secondLeaf] = .ok pairRoot :=
    merkleRoot_pair firstLeaf secondLeaf
  have hverify : MerkleProofProfile.verify (fun _ => some pairRoot) material secondContext =
      .admitted :=
    MerkleProofProfile.verify_eq_admitted.mpr
      ⟨_, hpath, by decide, congrArg some (climb_onLeft firstLeaf secondLeaf).symm⟩
  have hfree : CollisionFree
      (merkleMessages [firstContext, secondContext] secondContext pairRoot material) := by
    have htree : merkleHashed ([firstContext, secondContext].map ProofContext.digest) =
        [pairBytes firstLeaf secondLeaf] := merkleHashed_pair firstLeaf secondLeaf
    have hclimbed : KitProfile.merkle.hashed pairRoot material secondContext.digest =
        [pairBytes firstLeaf secondLeaf] := by
      rw [KitProfile.hashed_merkle hpath]
      exact hashed_onLeft firstLeaf secondLeaf
    apply leaves_collisionFree.subset
    rw [merkleMessages, htree, hclimbed]
    change secondText :: [firstText, secondText] ++ _ ++ _ ⊆ _
    simp
  refine ⟨hroot, hverify, merkle_sound ?_ secondContext_builtByStore hroot rfl hfree hverify⟩
  exact List.forall_mem_cons.mpr ⟨firstContext_builtByStore,
    List.forall_mem_singleton.mpr secondContext_builtByStore⟩

end TwoLeaves

/-! ## Completeness -/

/-- On 31 bits the shift halves a position. -/
theorem shiftRightOne_natCast {position : Nat} (h : position < 2 ^ 31) :
    shiftRightOne position = ((position / 2 : Nat) : Int) := by
  have hvalue : (BitVec.ofInt 32 (position : Int)).toInt = position :=
    BitVec.toInt_ofInt_eq_self (by decide) (by omega) (by omega)
  rw [shiftRightOne, BitVec.toInt_sshiftRight, hvalue, Int.shiftRight_eq_div_pow]
  rfl

/-- Past the pair of the position a level pushes nothing. -/
theorem pushedFrom_past {position i : Nat} (h : position < i) (level : List String) :
    pushedFrom position i level = [] := by
  have hpast (i : Nat) (hi : position < i) (left right : String) :
      pushedAt position i left right = [] := by
    unfold pushedAt
    rw [if_neg]
    intro heq
    have hmod : (0 : Int) ≤ Int.tmod position 2 := Int.tmod_nonneg 2 (Int.natCast_nonneg position)
    omega
  induction level using MerkleTree.pairUp.induct generalizing i with
  | case1 => rfl
  | case2 left => exact hpast i h left left
  | case3 left right rest ih =>
      rw [pushedFrom, hpast i h left right, ih (Nat.lt_add_right 2 h)]
      rfl

/-- A level pushes the step of its position. -/
theorem pushedFrom_eq {i position : Nat} {level : List String} (heven : i % 2 = 0)
    (h : position < level.length) :
    pushedFrom ((i + position : Nat) : Int) i level =
      MerkleTree.stepsAt merkleSteps level position := by
  have hmod (n : Nat) : Int.tmod (n : Int) 2 = ((n % 2 : Nat) : Int) := by
    rw [Int.tmod_eq_emod_of_nonneg (Int.natCast_nonneg n)]
    rfl
  induction level, position using MerkleTree.stepsAt.induct generalizing i with
  | case1 position => cases h
  | case2 a =>
      simp only [pushedFrom, pushedAt, hmod]
      rw [if_pos (by omega), if_pos (by omega)]
      rfl
  | case3 a position =>
      simp only [List.length_cons, List.length_nil] at h
      omega
  | case4 a b rest =>
      simp only [pushedFrom, pushedAt, hmod]
      rw [if_pos (by omega), if_pos (by omega), pushedFrom_past (by omega)]
      rfl
  | case5 a b rest =>
      simp only [pushedFrom, pushedAt, hmod]
      rw [if_pos (by omega), if_neg (by omega), pushedFrom_past (by omega)]
      rfl
  | case6 a b rest position ih =>
      simp only [List.length_cons] at h
      have hrest := ih (i := i + 2) (by omega) (by omega)
      rw [show i + 2 + position = i + (position + 2) by omega] at hrest
      simp only [pushedFrom, pushedAt, hmod, hrest]
      rw [if_neg (by omega)]
      rfl

/-- Where the shift halves, the loop follows the tree. -/
theorem merklePathFrom_eq {fuel position : Nat} {level : List String}
    (hlength : level.length < 2 ^ 31) (h : position < level.length) :
    merklePathFrom fuel level position =
      MerkleTree.pathFrom hashPair merkleSteps fuel level position := by
  induction fuel generalizing level position with
  | zero => rfl
  | succ fuel ih =>
      have hhere := pushedFrom_eq (i := 0) rfl h
      rw [Nat.zero_add] at hhere
      have habove : (MerkleTree.above hashPair level).length = (level.length + 1) / 2 :=
        MerkleTree.length_above level
      rw [merklePathFrom, MerkleTree.pathFrom, hhere, shiftRightOne_natCast (by omega),
        ih (by omega) (by omega)]

theorem merklePath_eq_ok {leaves : List String} (hlength : leaves.length < 2 ^ 31) {index : Nat}
    (h : index < leaves.length) : merklePath leaves index =
      .ok (MerkleTree.pathFrom hashPair merkleSteps leaves.length leaves index) := by
  rw [merklePath, if_neg (by omega), merklePathFrom_eq hlength h]

theorem isBytes32_of_mem_pathFrom {fuel index : Nat} {leaves : List String}
    (hleaves : ∀ leaf ∈ leaves, isBytes32 leaf = true) :
    ∀ step ∈ MerkleTree.pathFrom hashPair merkleSteps fuel leaves index,
      isBytes32 step.hash = true := by
  intro step hstep
  obtain ⟨sibling, hsibling, rfl | rfl⟩ := MerkleTree.mem_pathFrom
    (P := fun node => isBytes32 node = true) isBytes32_hashPair hleaves hstep
  · exact hsibling
  · exact hsibling

/-- Every leaf is admitted by the path the kit builds for it, against the root it builds
over the leaves. -/
theorem merkle_complete {leaves : List String} (hlength : leaves.length < 2 ^ 31)
    (hleaves : ∀ leaf ∈ leaves, isBytes32 leaf = true) {index : Nat} {leaf : String}
    (hindex : leaves[index]? = some leaf) :
    ∃ path root, merklePath leaves index = .ok path ∧ merkleRoot leaves = .ok root ∧
      MerkleProofProfile.climb leaf path = root ∧
      (∀ step ∈ path, asStep step.toJs = some step) ∧ path.length ≤ 64 ∧
      ∀ (stateRootAt : Int → Option String) (material : ProofMaterial) (context : ProofContext),
        stateRootAt material.remoteHeight = some root → material.payload = pathPayload path →
        bindingDigest context.binding context.candidate = leaf →
        MerkleProofProfile.verify stateRootAt material context = .admitted := by
  obtain ⟨hlt, _⟩ := List.getElem?_eq_some_iff.mp hindex
  have hne : leaves ≠ [] := List.ne_nil_of_length_pos (Nat.zero_lt_of_lt hlt)
  obtain ⟨root, hroot⟩ : ∃ root, MerkleTree.root hashPair leaves = some root :=
    MerkleTree.root_isSome hne
  obtain ⟨path, hpath⟩ : ∃ path,
      MerkleTree.pathFrom hashPair merkleSteps leaves.length leaves index = path := ⟨_, rfl⟩
  have hbuilt : merklePath leaves index = .ok path := by
    rw [merklePath_eq_ok hlength hlt, hpath]
  have hclimb : MerkleProofProfile.climb leaf path = root := by
    rw [MerkleProofProfile.climb_eq, ← hpath]
    exact MerkleTree.climb_pathFrom hindex hroot
  have hwords : ∀ step ∈ path, isBytes32 step.hash = true := by
    rw [← hpath]
    exact isBytes32_of_mem_pathFrom hleaves
  have hshort : path.length ≤ 64 := by
    rw [← hpath]
    exact (MerkleTree.length_pathFrom_le (Nat.le_of_lt hlength) index).trans (by decide)
  refine ⟨path, root, hbuilt, ?_, hclimb, fun step hstep => asStep_toJs (hwords step hstep), hshort,
    ?_⟩
  · rw [merkleRoot, hroot]
  · intro stateRootAt material context hreported hpayload hleaf
    refine MerkleProofProfile.verify_eq_admitted.mpr ⟨path, ?_, hshort, ?_⟩
    · rw [hpayload, path_pathPayload hwords]
    · rw [hreported, hleaf, hclimb]

/-- Three leaves, the last of which is its own neighbour. -/
def threeLeaves : List String :=
  [ProjectionStore.word 'a', ProjectionStore.word 'b', ProjectionStore.word 'c']

theorem merkle_complete_odd_leaf :
    ∃ path root, merklePath threeLeaves 2 = .ok path ∧ merkleRoot threeLeaves = .ok root ∧
      MerkleProofProfile.climb (ProjectionStore.word 'c') path = root := by
  have hleaves : ∀ leaf ∈ threeLeaves, isBytes32 leaf = true := by decide
  obtain ⟨path, root, hpath, hroot, hclimb, _⟩ :=
    merkle_complete (by decide) hleaves (rfl : threeLeaves[2]? = some (ProjectionStore.word 'c'))
  exact ⟨path, root, hpath, hroot, hclimb⟩

end Erc8415
