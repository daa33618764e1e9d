import Erc8415.Projection.Finality
import Erc8415.Proof.MerkleTree
import Erc8415.Settlement.SingleUse

/-! # What the register committed to

Under the Merkle profile the roots an adapter reports are those of trees whose
leaves are admissions, for this contract and for others. What a store admits
over a run is a leaf of the tree at the height of its proof, with the gap and
the snapshot the store held, and no leaf is admitted twice, however many trees
it is in. A leaf whose turn it is gets admitted by the path the kit builds.
-/

namespace Erc8415

variable {σ : Type}

/-! ## Leaves and trees -/

/-- An admission that a register commits to. -/
structure Leaf where
  binding : AdmissionBinding
  registryReference : Bytes32
  shaped : CandidateEntry.Shaped ⟨binding.nextCommitment, binding.priorCommitment,
    registryReference, binding.holder, binding.version, binding.effectiveAt⟩
  settlementWord : isBytes32 binding.settlementId = true
  snapshotWord : isBytes32 binding.snapshotHash = true

namespace Leaf

/-- The candidate whose binding it is. -/
def candidate (leaf : Leaf) : CandidateEntry :=
  ⟨leaf.binding.nextCommitment, leaf.binding.priorCommitment, leaf.registryReference,
    leaf.binding.holder, leaf.binding.version, leaf.binding.effectiveAt⟩

def preimage (leaf : Leaf) : List UInt8 := utf8 (bindingText leaf.binding leaf.candidate)

def digest (leaf : Leaf) : String := bindingDigest leaf.binding leaf.candidate

/-- An admission is the one a leaf is for. A contract is the same in either case. -/
structure Commits (leaf : Leaf) (chainId : Int) (contract : String) (x : Admission) : Prop where
  chainId : leaf.binding.chainId = chainId
  contract : toLowerCase leaf.binding.contract = toLowerCase contract
  tokenId : leaf.binding.tokenId = x.tokenId
  settlementId : leaf.binding.settlementId = x.settlementId
  snapshotHash : leaf.binding.snapshotHash = x.snapshotHash
  candidate : leaf.candidate = x.candidate

theorem worded (leaf : Leaf) : leaf.binding.Worded where
  settlementId := leaf.settlementWord
  snapshotHash := leaf.snapshotWord
  holder := leaf.shaped.holder
  priorCommitment := leaf.shaped.previousCommitment
  nextCommitment := leaf.shaped.recordCommitment

end Leaf

/-- What a register commits to at each of its heights. A position of a tree is read as one of 31
bits. -/
structure RemoteRegister where
  leaves : Int → List Leaf
  bounded : ∀ height, (leaves height).length < 2 ^ 31

namespace RemoteRegister

def digests (register : RemoteRegister) (height : Int) : List String :=
  (register.leaves height).map Leaf.digest

/-- The root at a height, or a text that is no node where there is no tree. -/
def root (register : RemoteRegister) (height : Int) : String :=
  match merkleRoot (register.digests height) with
  | .ok root => root
  | .error _ => ""

/-- Everything that is hashed to build the tree at a height. -/
def hashed (register : RemoteRegister) (height : Int) : List (List UInt8) :=
  (register.leaves height).map Leaf.preimage ++ merkleHashed (register.digests height)

end RemoteRegister

/-! ## Texts of bindings -/

/-- The text of a binding holds the 66 characters of the commitment it is for. -/
theorem length_bindingText {binding : AdmissionBinding}
    (h : isBytes32 binding.nextCommitment = true) (candidate : CandidateEntry) :
    64 < (utf8 (bindingText binding candidate)).length := by
  have hlength : binding.nextCommitment.toList.length = 66 := by
    have hbytes := eq_hexText_of_isBytes32 h
    rw [hbytes.1]
    simp [hexText, Hex.length_ofBytes, hbytes.2]
  have hfield : binding.nextCommitment ∈ bindingFields binding candidate := by
    simp [bindingFields, toLowerCase_of_isHexWord h]
  have hlt := length_lt_lengthPrefixed hfield
  have hbytes := Text.length_le_length_encode (bindingText binding candidate).toList
  rw [hlength] at hlt
  exact Nat.lt_trans (by decide) (Nat.lt_of_lt_of_le hlt hbytes)

/-- The text of a binding has its contract in lowercase. -/
theorem bindingText_contract {binding : AdmissionBinding} {contract : String}
    (h : toLowerCase binding.contract = toLowerCase contract) (candidate : CandidateEntry) :
    bindingText { binding with contract := contract } candidate =
      bindingText binding candidate := by
  rw [bindingText, bindingText]
  simp only [bindingFields, h]

/-- A text is of one binding, up to the case of its contract. -/
theorem Leaf.commits_of_bindingText {leaf : Leaf} {x : Admission} {chainId : Int}
    {contract : String} (hx : (x.binding chainId contract).Worded)
    (h : bindingText leaf.binding leaf.candidate =
      bindingText (x.binding chainId contract) x.candidate) :
    leaf.Commits chainId contract x := by
  have hfields := lengthPrefixed_injective h
  have hcontract : toLowerCase leaf.binding.contract = toLowerCase contract := by
    simp only [bindingFields, List.cons.injEq] at hfields
    exact hfields.2.2.1
  have hmoved : bindingText { leaf.binding with contract := contract } leaf.candidate =
      bindingText (x.binding chainId contract) x.candidate :=
    (bindingText_contract hcontract _).trans h
  have hworded : ({ leaf.binding with contract := contract } : AdmissionBinding).Worded :=
    ⟨leaf.worded.settlementId, leaf.worded.snapshotHash, leaf.worded.holder,
      leaf.worded.priorCommitment, leaf.worded.nextCommitment⟩
  obtain ⟨hbinding, hreference⟩ := bindingText_inj hworded hx rfl hmoved
  simp only [Admission.binding, AdmissionBinding.mk.injEq] at hbinding
  obtain ⟨hchain, _, htoken, hid, hsnapshot, hholder, hprior, hnext, hversion, heffective⟩ :=
    hbinding
  refine ⟨hchain, hcontract, htoken, hid, hsnapshot, ?_⟩
  change leaf.registryReference = _ at hreference
  rw [Leaf.candidate, hnext, hprior, hholder, hversion, heffective, hreference]

/-! ## What passes is a leaf -/

theorem isBytes32_climb {node : String} (h : isBytes32 node = true) (path : List MerkleStep) :
    isBytes32 (MerkleProofProfile.climb node path) = true := by
  induction path generalizing node with
  | nil => exact h
  | cons step rest ih =>
      apply ih
      change isBytes32 (step.above node) = true
      rw [step.above_eq]
      exact isBytes32_messageNode _

/-- A node is the root at a height only of the tree that is there. -/
theorem RemoteRegister.root_eq (register : RemoteRegister) {height : Int} {node : String}
    (hnode : isBytes32 node = true) (h : node = register.root height) :
    MerkleTree.root hashPair (register.digests height) = some node := by
  rw [root, merkleRoot] at h
  cases hroot : MerkleTree.root hashPair (register.digests height) with
  | none =>
      rw [hroot] at h
      subst h
      exact absurd hnode (by decide)
  | some root =>
      rw [hroot] at h
      rw [h]

/-- An admission that passes against the root at its height is for a leaf there. -/
theorem RemoteRegister.exists_leaf (register : RemoteRegister) {x : Admission} {chainId : Int}
    {contract : String} (hx : x.Evident .merkle register.root chainId contract)
    (hfree : CollisionFree (x.hashed .merkle register.root chainId contract ++
      register.hashed x.material.remoteHeight)) :
    ∃ leaf ∈ register.leaves x.material.remoteHeight, leaf.Commits chainId contract x := by
  obtain ⟨path, hpath, hclimb⟩ := hx.passes
  have hdigests : register.digests x.material.remoteHeight =
      ((register.leaves x.material.remoteHeight).map Leaf.preimage).map messageNode := by
    rw [List.map_map]
    rfl
  have hroot := register.root_eq (isBytes32_climb (isBytes32_messageNode _) path) hclimb
  rw [Admission.hashed_merkle hpath, RemoteRegister.hashed, hdigests] at hfree
  rw [hdigests] at hroot
  have hlong : ∀ m ∈ utf8 (bindingText (x.binding chainId contract) x.candidate) ::
      (register.leaves x.material.remoteHeight).map Leaf.preimage, 64 < m.length := by
    refine List.forall_mem_cons.mpr ⟨length_bindingText hx.worded.nextCommitment _, ?_⟩
    exact List.forall_mem_map.mpr fun leaf _ => length_bindingText leaf.worded.nextCommitment _
  generalize hmessages : (register.leaves x.material.remoteHeight).map Leaf.preimage = messages
    at hfree hroot hlong
  generalize hmessage : utf8 (bindingText (x.binding chainId contract) x.candidate) = message
    at hfree hlong
  have hnode : x.digest chainId contract = messageNode message := by
    rw [← hmessage]
    rfl
  rw [hnode] at hfree
  have hclimbed : CollisionFree (message :: messages ++ merkleHashed (messages.map messageNode) ++
      MerkleProofProfile.hashed (messageNode message) path) := by
    apply hfree.subset
    intro m hm
    simp only [List.mem_append, List.mem_cons] at hm ⊢
    rcases hm with ((hm | hm) | hm) | hm
    · exact Or.inl (Or.inl hm)
    · exact Or.inr (Or.inl hm)
    · exact Or.inr (Or.inr hm)
    · exact Or.inl (Or.inr hm)
  have hmem := mem_of_climb_messageNode hlong (isBytes32_of_path hpath) hclimbed (by
    rw [← hnode]
    exact hroot)
  obtain ⟨m, hm, heq⟩ := List.mem_map.mp hmem
  have htext : m = message := hfree m (List.mem_append_right _ (List.mem_append_left _ hm)) _
    (List.mem_append_left _ List.mem_cons_self) (hexText_injective heq)
  rw [← hmessages, htext, ← hmessage] at hm
  obtain ⟨leaf, hleaf, hpreimage⟩ := List.mem_map.mp hm
  exact ⟨leaf, hleaf, Leaf.commits_of_bindingText hx.worded (utf8_injective hpreimage)⟩

/-! ## What is due is admitted -/

namespace ProjectionStore

variable {o : StoreConfig σ} {s : ProjectionStore σ} {register : RemoteRegister}

/-- A leaf whose turn it is: it is for the gap and the history the store holds, and its tree is
under a final root above the accepted height. -/
structure Due (o : StoreConfig σ) (s : ProjectionStore σ) (register : RemoteRegister)
    (height : Int) (leaf : Leaf) : Prop where
  chainId : leaf.binding.chainId = o.adapter.chainId
  contract : toLowerCase leaf.binding.contract = toLowerCase o.adapter.contract
  settlementId : leaf.binding.settlementId = s.openGapOf leaf.binding.tokenId
  snapshotHash : leaf.binding.snapshotHash = s.openSnapshotOf leaf.binding.tokenId
  follows : Follows (s.entries leaf.binding.tokenId) leaf.candidate
  finalized : o.adapter.isFinalized s.adapter height = true
  reported : o.adapter.stateRootAt s.adapter height = some (register.root height)
  above : o.adapter.acceptedHeight s.adapter leaf.binding.tokenId < height

/-- The store hashes a leaf that is due from the same text. -/
theorem Due.digest {height : Int} {leaf : Leaf} (h : Due o s register height leaf) :
    bindingDigest (s.proofContext o leaf.binding.tokenId leaf.candidate).binding leaf.candidate =
      leaf.digest := by
  have hbinding : (s.proofContext o leaf.binding.tokenId leaf.candidate).binding =
      { leaf.binding with contract := o.adapter.contract } := by
    rw [proofContext, AdmissionBinding.mk.injEq]
    exact ⟨h.chainId.symm, rfl, rfl, h.settlementId.symm, h.snapshotHash.symm, rfl,
      priorCommitment_of_follows h.follows, rfl, rfl, rfl⟩
  rw [bindingDigest, hbinding, bindingText_contract h.contract]
  rfl

/-- A leaf that is due is admitted by its path. -/
theorem Due.admitted {height : Int} {leaf : Leaf} (h : Due o s register height leaf)
    (hvalid : s.Valid) (hwritable : s.poisoned = none)
    (hprofile : o.profile = KitProfile.merkle.withAdapter o.adapter) {index : Nat}
    (hindex : (register.leaves height)[index]? = some leaf) :
    ∃ path, merklePath (register.digests height) index = .ok path ∧ ∀ now, ∃ x,
      callAdmission o s (.admitEntry leaf.binding.tokenId leaf.candidate.toJs
        ⟨MerkleProofProfile.id, height, pathPayload path⟩ now) = some x ∧
      leaf.Commits o.adapter.chainId o.adapter.contract x := by
  have hdigest : (register.digests height)[index]? = some leaf.digest := by
    rw [RemoteRegister.digests, List.getElem?_map, hindex]
    rfl
  have hbounded : (register.digests height).length < 2 ^ 31 := by
    rw [RemoteRegister.digests, List.length_map]
    exact register.bounded height
  have hwords : ∀ node ∈ register.digests height, isBytes32 node = true :=
    List.forall_mem_map.mpr fun leaf _ => isBytes32_messageNode leaf.preimage
  obtain ⟨hlt, _⟩ := List.getElem?_eq_some_iff.mp hdigest
  obtain ⟨top, htop⟩ : ∃ top, MerkleTree.root hashPair (register.digests height) = some top :=
    MerkleTree.root_isSome (List.ne_nil_of_length_pos (Nat.zero_lt_of_lt hlt))
  have hroot : register.root height = top := by
    rw [RemoteRegister.root, merkleRoot, htop]
  have hpath : MerkleProofProfile.path (pathPayload (MerkleTree.pathFrom hashPair merkleSteps
      (register.digests height).length (register.digests height) index)) = some _ :=
    path_pathPayload (isBytes32_of_mem_pathFrom hwords)
  refine ⟨_, merklePath_eq_ok hbounded hlt, fun now => ⟨_, callAdmission_accepted hvalid ?_,
    ⟨h.chainId, h.contract, rfl, h.settlementId, h.snapshotHash, rfl⟩⟩⟩
  refine accepted_of_climb hprofile hwritable h.follows rfl h.finalized h.above hpath ?_ ?_
  · exact (MerkleTree.length_pathFrom_le (Nat.le_of_lt hbounded) index).trans (by decide)
  · rw [h.reported, h.digest, hroot, MerkleProofProfile.climb_eq,
      MerkleTree.climb_pathFrom hdigest htop]

/-! ## Every run -/

variable {roots : Int → String}

/-- The candidates a log has for a token, the earliest first. -/
def candidatesOf (tokenId : Int) (log : List Admission) : List CandidateEntry :=
  (log.filter fun x => x.tokenId = tokenId).map fun x => x.candidate

theorem candidatesOf_append (tokenId : Int) (log log' : List Admission) :
    candidatesOf tokenId (log ++ log') = candidatesOf tokenId log ++ candidatesOf tokenId log' := by
  rw [candidatesOf, List.filter_append, List.map_append]
  rfl

/-- A call adds to the entries of a token what it admits for it. -/
theorem Valid.step_candidates (h : s.Valid) (call : AdmissionCall σ) (tokenId : Int) :
    ((admissionStep o s call).entries tokenId).map (fun e => e.toCandidateEntry) =
      (s.entries tokenId).map (fun e => e.toCandidateEntry) ++
        candidatesOf tokenId (callAdmission o s call).toList := by
  have heffect := call_effect (o := o) h call
  generalize admissionStep o s call = t at heffect ⊢
  generalize callAdmission o s call = found at heffect ⊢
  cases heffect with
  | @admitted other _ _ _ c _ hc hadvance =>
      by_cases hother : tokenId = other
      · subst hother
        have hextend := map_extend (s.entries tokenId) c id
        simp only [id_eq] at hextend
        rw [admitted_entries, hextend]
        simp [candidatesOf]
      · rw [admitted_entries_of_ne _ hother]
        simp [candidatesOf, Ne.symm hother]
  | _ => exact (List.append_nil _).symm

theorem Sound.run_candidates (h : Sound o roots s) {calls : List (AdmissionCall σ)}
    (hcalls : LabelledRun.Admissible (admissionStep o) (Steady o roots) s calls) (tokenId : Int) :
    ((LabelledRun.run (admissionStep o) s calls).entries tokenId).map
        (fun e => e.toCandidateEntry) =
      (s.entries tokenId).map (fun e => e.toCandidateEntry) ++
        candidatesOf tokenId (admissions o s calls) := by
  induction calls generalizing s with
  | nil => exact (List.append_nil _).symm
  | cons call rest ih =>
      rw [LabelledRun.run_cons, ih (h.step hcalls.1) hcalls.2, h.valid.step_candidates,
        admissions, candidatesOf_append, List.append_assoc]

/-- No call leaves the store refusing writes. -/
theorem Sound.step_writable (h : Sound o roots s) (hwritable : s.poisoned = none)
    (call : AdmissionCall σ) : (admissionStep o s call).poisoned = none := by
  have heffect := call_effect (o := o) h.valid call
  generalize admissionStep o s call = t at heffect ⊢
  generalize callAdmission o s call = found at heffect
  cases heffect with
  | admitted hc hadvance => simp [ProjectionStore.admitted, hwritable]
  | _ => exact hwritable

/-- Entries that name no commitment twice come from admissions that name none twice. -/
theorem pairwise_of_candidatesOf (log : List Admission)
    (h : ∀ tokenId, ((candidatesOf tokenId log).map fun c => c.recordCommitment).Nodup) :
    log.Pairwise fun x y =>
      x.tokenId = y.tokenId → x.candidate.recordCommitment ≠ y.candidate.recordCommitment := by
  rw [List.pairwise_iff_getElem]
  intro i j hi hj hij htoken
  have hdistinct := h log[i].tokenId
  rw [candidatesOf, List.map_map, List.Nodup, List.pairwise_map, List.pairwise_filter,
    List.pairwise_iff_getElem] at hdistinct
  exact hdistinct i j hi hj hij (by simp) (by simp [htoken])

/-- Everything that is hashed to build the trees of a log's heights and to verify its admissions. -/
def hashedUnder (register : RemoteRegister) (o : StoreConfig σ) (log : List Admission) :
    List (List UInt8) :=
  log.flatMap fun x =>
    x.hashed .merkle register.root o.adapter.chainId o.adapter.contract ++
      register.hashed x.material.remoteHeight

/-- A store follows the register it is given roots of. Over a run: the entries of a token are the
candidates admitted for it, one after the other; each was a leaf of the tree at the height of its
proof, for the gap that was open; and no leaf was admitted twice, at whatever heights it is. In the
state the run ends in, a leaf that is due is admitted by the path the kit builds for it. -/
theorem run_admits_committed (register : RemoteRegister) (o : StoreConfig σ)
    (hprofile : o.profile = KitProfile.merkle.withAdapter o.adapter) (adapter : σ)
    (hroots : RootsFrom o register.root adapter) (journal : JournalContent)
    (calls : List (AdmissionCall σ))
    (hcalls : LabelledRun.Admissible (admissionStep o) (Steady o register.root)
      (initial adapter journal) calls) :
    let s := LabelledRun.run (admissionStep o) (initial adapter journal) calls
    let log := admissions o (initial adapter journal) calls
    (∀ tokenId, (s.entries tokenId).map (fun e => e.toCandidateEntry) = candidatesOf tokenId log) ∧
    (CollisionFree (hashedUnder register o log) → ∀ x ∈ log,
      ∃ leaf ∈ register.leaves x.material.remoteHeight,
        leaf.Commits o.adapter.chainId o.adapter.contract x) ∧
    (log.Pairwise fun x y => ∀ leaf : Leaf,
      leaf.Commits o.adapter.chainId o.adapter.contract x →
      ¬ leaf.Commits o.adapter.chainId o.adapter.contract y) ∧
    ∀ height index leaf, (register.leaves height)[index]? = some leaf →
      Due o s register height leaf →
      ∃ path, merklePath (register.digests height) (index : Nat) = .ok path ∧ ∀ now, ∃ x,
        callAdmission o s (.admitEntry leaf.binding.tokenId leaf.candidate.toJs
          ⟨MerkleProofProfile.id, height, pathPayload path⟩ now) = some x ∧
        leaf.Commits o.adapter.chainId o.adapter.contract x := by
  intro s log
  have hinitial : Sound o register.root (initial adapter journal) := Sound.initial hroots journal
  have hcandidates : ∀ tokenId,
      (s.entries tokenId).map (fun e => e.toCandidateEntry) = candidatesOf tokenId log :=
    hinitial.run_candidates hcalls
  obtain ⟨hsound, hwritable⟩ : Sound o register.root s ∧ s.poisoned = none :=
    LabelledRun.admissible_invariant (admissionStep o)
      (fun s => Sound o register.root s ∧ s.poisoned = none)
      (fun _ call h hsteady => ⟨h.1.step hsteady, h.1.step_writable h.2 call⟩)
      ⟨hinitial, rfl⟩ hcalls
  refine ⟨hcandidates, ?_, ?_, ?_⟩
  · intro hfree x hx
    apply register.exists_leaf (hinitial.admissions_evident hprofile hcalls x hx)
    exact hfree.subset fun m hm => List.mem_flatMap.mpr ⟨x, hx, hm⟩
  · have hdistinct := pairwise_of_candidatesOf log (by
      intro tokenId
      rw [← hcandidates tokenId, List.map_map]
      exact (hsound.valid.isHistory tokenId).distinct)
    refine hdistinct.imp ?_
    intro x y hne leaf hx hy
    apply hne (hx.tokenId.symm.trans hy.tokenId)
    rw [← hx.candidate, ← hy.candidate]
  · intro height index leaf hindex hdue
    exact hdue.admitted hsound.valid hwritable hprofile hindex

/-! ### Two leaves, from a height on -/

section LeavesOn

/-- The leaves of two admissions, the second of which follows the first. -/
def committedLeaf : Leaf where
  binding := firstBinding
  registryReference := firstCandidate.registryReference
  shaped := firstCandidate_shaped
  settlementWord := firstBinding_worded.settlementId
  snapshotWord := firstBinding_worded.snapshotHash

def nextLeaf : Leaf where
  binding := secondBinding
  registryReference := secondCandidate.registryReference
  shaped := secondCandidate_shaped
  settlementWord := secondBinding_worded.settlementId
  snapshotWord := secondBinding_worded.snapshotHash

/-- A register that holds both from height 5 on. -/
def committedRegister : RemoteRegister where
  leaves height := if 5 ≤ height then [committedLeaf, nextLeaf] else []
  bounded height := by split <;> decide

theorem committedRegister_leaves {height : Int} (h : 5 ≤ height) :
    committedRegister.leaves height = [committedLeaf, nextLeaf] := if_pos h

theorem committedRegister_digests {height : Int} (h : 5 ≤ height) :
    committedRegister.digests height = [firstLeaf, secondLeaf] := by
  rw [RemoteRegister.digests, committedRegister_leaves h]
  rfl

theorem committedRegister_root {height : Int} (h : 5 ≤ height) :
    committedRegister.root height = pairRoot := by
  rw [RemoteRegister.root, committedRegister_digests h, merkleRoot_pair]
  rfl

theorem committedRegister_roots : RootsFrom leafConfig committedRegister.root leafChain :=
  leafChain_roots (committedRegister_root (by decide)) (committedRegister_root (by decide))

/-- The texts of the leaves and the pair of them are hashed for both heights. -/
theorem committedRegister_hashed {height : Int} (h : 5 ≤ height) :
    committedRegister.hashed height = [firstText, secondText, pairBytes firstLeaf secondLeaf] := by
  rw [RemoteRegister.hashed, committedRegister_digests h, merkleHashed_pair,
    committedRegister_leaves h]
  rfl

theorem committedRegister_collisionFree :
    CollisionFree (hashedUnder committedRegister leafConfig [leafAdmission, nextAdmission]) := by
  have hfirst : leafAdmission.hashed .merkle committedRegister.root leafConfig.adapter.chainId
      leafConfig.adapter.contract = [firstText, pairBytes firstLeaf secondLeaf] :=
    leafAdmission_hashed _
  have hsecond : nextAdmission.hashed .merkle committedRegister.root leafConfig.adapter.chainId
      leafConfig.adapter.contract = [secondText, pairBytes firstLeaf secondLeaf] :=
    nextAdmission_hashed _
  have hfive : committedRegister.hashed leafAdmission.material.remoteHeight = _ :=
    committedRegister_hashed (by decide)
  have hten : committedRegister.hashed nextAdmission.material.remoteHeight = _ :=
    committedRegister_hashed (by decide)
  apply leaves_collisionFree.subset
  simp only [hashedUnder, List.flatMap_cons, List.flatMap_nil, hfirst, hsecond, hfive, hten,
    List.append_subset, List.cons_subset, List.nil_subset, List.mem_cons, true_or, or_true,
    and_true]

/-- After the first admission the next leaf is due. -/
theorem nextLeaf_due : Due leafConfig leafAdmitted committedRegister 10 nextLeaf where
  chainId := rfl
  contract := rfl
  settlementId := by decide
  snapshotHash := by decide
  follows := next_accepted.follows
  finalized := by decide
  reported := by
    rw [committedRegister_root (by decide)]
    rfl
  above := by decide

/-- Each admission is of a leaf, and before the second its leaf was due, with a path to admit
it by. -/
theorem run_admits_committed_leaves :
    let s := LabelledRun.run (admissionStep leafConfig) leafStart leafCalls
    (s.entries 1).map (fun e => e.toCandidateEntry) = [firstCandidate, secondCandidate] ∧
      (∃ leaf ∈ committedRegister.leaves 5,
        leaf.Commits 1 "0x1111111111111111111111111111111111111111" leafAdmission) ∧
      (∃ leaf ∈ committedRegister.leaves 10,
        leaf.Commits 1 "0x1111111111111111111111111111111111111111" nextAdmission) ∧
      (∀ leaf : Leaf, leaf.Commits 1 "0x1111111111111111111111111111111111111111" leafAdmission →
        ¬ leaf.Commits 1 "0x1111111111111111111111111111111111111111" nextAdmission) ∧
      ∃ path, merklePath [firstLeaf, secondLeaf] 1 = .ok path ∧ ∃ x,
        callAdmission leafConfig leafAdmitted (.admitEntry 1 secondCandidate.toJs
          ⟨MerkleProofProfile.id, 10, pathPayload path⟩ 0) = some x ∧
        nextLeaf.Commits 1 "0x1111111111111111111111111111111111111111" x := by
  obtain ⟨hentries, hleaves, honce, _⟩ := run_admits_committed committedRegister leafConfig rfl
    leafChain committedRegister_roots JournalContent.empty leafCalls
    ⟨trivial, trivial, trivial, trivial, trivial⟩
  obtain ⟨_, _, _, hdue⟩ := run_admits_committed committedRegister leafConfig rfl leafChain
    committedRegister_roots JournalContent.empty [leafBegin, leafAdmit] ⟨trivial, trivial, trivial⟩
  rw [leaf_admissions] at hentries hleaves honce
  have hbefore : LabelledRun.run (admissionStep leafConfig) leafStart [leafBegin, leafAdmit] =
      leafAdmitted := by
    rw [LabelledRun.run_cons, LabelledRun.run_cons, LabelledRun.run_nil]
    exact leaf_step
  obtain ⟨path, hpath, hadmits⟩ := hdue 10 1 nextLeaf rfl (by rw [hbefore]; exact nextLeaf_due)
  rw [committedRegister_digests (by decide)] at hpath
  rw [hbefore] at hadmits
  exact ⟨hentries 1,
    hleaves committedRegister_collisionFree leafAdmission List.mem_cons_self,
    hleaves committedRegister_collisionFree nextAdmission
      (List.mem_cons_of_mem _ List.mem_cons_self),
    (List.pairwise_cons.mp honce).1 nextAdmission List.mem_cons_self, path, hpath, hadmits 0⟩

end LeavesOn

end ProjectionStore

end Erc8415
