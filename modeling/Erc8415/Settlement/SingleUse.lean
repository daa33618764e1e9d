import Erc8415.Proof.MerkleTree
import Erc8415.Settlement.Service

/-! # A proof admits one thing, once

A store over a profile of the kit, whose gaps an engine opens. The material of
an accepted admission determines the token, the candidate, the open gap and its
snapshot, in this run and in any other over the same chain, contract and roots;
and since a token's accepted height only climbs, no material is accepted twice.
-/

namespace Erc8415

variable {σ : Type}

/-! ## Admissions -/

/-- An accepted admission, with the gap that was open on its token, or the zero word. -/
structure Admission where
  tokenId : Int
  candidate : CandidateEntry
  material : ProofMaterial
  settlementId : Bytes32
  snapshotHash : Bytes32

namespace Admission

/-- The binding of an admission. A candidate that follows names the prior commitment
itself. -/
def binding (x : Admission) (chainId : Int) (contract : String) : AdmissionBinding where
  chainId := chainId
  contract := contract
  tokenId := x.tokenId
  settlementId := x.settlementId
  snapshotHash := x.snapshotHash
  holder := x.candidate.holder
  priorCommitment := x.candidate.previousCommitment
  nextCommitment := x.candidate.recordCommitment
  version := x.candidate.version
  effectiveAt := x.candidate.effectiveAt

def digest (x : Admission) (chainId : Int) (contract : String) : String :=
  bindingDigest (x.binding chainId contract) x.candidate

/-- Everything that is hashed to verify an admission. -/
def hashed (x : Admission) (profile : KitProfile) (roots : Int → String) (chainId : Int)
    (contract : String) : List (List UInt8) :=
  utf8 (bindingText (x.binding chainId contract) x.candidate) ::
    profile.hashed (roots x.material.remoteHeight) x.material (x.digest chainId contract)

theorem hashed_merkle {x : Admission} {path : List MerkleStep}
    (h : MerkleProofProfile.path x.material.payload = some path) (roots : Int → String)
    (chainId : Int) (contract : String) : x.hashed .merkle roots chainId contract =
      utf8 (bindingText (x.binding chainId contract) x.candidate) ::
        MerkleProofProfile.hashed (x.digest chainId contract) path := by
  rw [hashed, KitProfile.hashed_merkle h]

/-- What was established of an accepted admission. -/
structure Evident (x : Admission) (profile : KitProfile) (roots : Int → String) (chainId : Int)
    (contract : String) : Prop where
  shaped : x.candidate.Shaped
  settlementId : isBytes32 x.settlementId = true
  snapshotHash : isBytes32 x.snapshotHash = true
  named : x.material.profile = profile.id
  passes : profile.Passes (roots x.material.remoteHeight) x.material (x.digest chainId contract)

variable {profile profile' : KitProfile} {roots : Int → String} {chainId : Int} {contract : String}
  {x x' : Admission}

theorem Evident.worded (h : x.Evident profile roots chainId contract) :
    (x.binding chainId contract).Worded where
  settlementId := h.settlementId
  snapshotHash := h.snapshotHash
  holder := h.shaped.holder
  priorCommitment := h.shaped.previousCommitment
  nextCommitment := h.shaped.recordCommitment

/-- Material determines what it admits. -/
theorem Evident.unique (h : x.Evident profile roots chainId contract)
    (h' : x'.Evident profile' roots chainId contract) (hone : profile.OneMessage)
    (hissuers : profile.SameIssuers profile')
    (hfree : CollisionFree
      (x.hashed profile roots chainId contract ++ x'.hashed profile' roots chainId contract))
    (hmaterial : x.material = x'.material) : x = x' := by
  have hid : profile.id = profile'.id := by
    rw [← h.named, ← h'.named, hmaterial]
  have hpasses := h.passes
  have hpasses' := h'.passes
  rw [← hmaterial] at hpasses'
  have hdigest : sha256 (utf8 (bindingText (x.binding chainId contract) x.candidate)) =
      sha256 (utf8 (bindingText (x'.binding chainId contract) x'.candidate)) := by
    apply KitProfile.passes_inj hone hid hissuers (by simp) (hfree.subset _) hpasses hpasses'
    intro m hm
    simp only [hashed, List.mem_append, List.mem_cons, ← hmaterial]
    rcases List.mem_append.mp hm with hm | hm
    · exact Or.inl (Or.inr hm)
    · exact Or.inr (Or.inr hm)
  have htext := utf8_injective (hfree _ (by simp [hashed]) _ (by simp [hashed]) hdigest)
  -- The text holds every field of both admissions but the material, which they share.
  obtain ⟨hbinding, hreference⟩ := bindingText_inj h.worded h'.worded rfl htext
  obtain ⟨tokenId, ⟨record, previous, reference, holder, version, effectiveAt⟩, material, id,
    snapshot⟩ := x
  obtain ⟨tokenId', ⟨record', previous', reference', holder', version', effectiveAt'⟩, material',
    id', snapshot'⟩ := x'
  simp only [binding, AdmissionBinding.mk.injEq, true_and] at hbinding
  obtain ⟨rfl, rfl, rfl, rfl, rfl, rfl, rfl, rfl⟩ := hbinding
  simp only at hmaterial hreference
  subst hmaterial hreference
  rfl

end Admission

/-! ## Runs -/

/-- A call on a store whose journal takes every append and whose gaps are opened by an
engine, or a move of the adapter. What the engine and the route admit goes through the
store's own admission. -/
inductive AdmissionCall (σ : Type) where
  | begin (engine : SettlementEngine) (request : BeginRequest) (now : Int)
  | admitEntry (tokenId : Int) (candidate : JsValue) (material : ProofMaterial) (now : Int)
  | cancelGap (tokenId : Int)
  | adapterMoves (adapter : σ)

/-- Every root an adapter reports is the one of its height. -/
def RootsFrom (o : StoreConfig σ) (roots : Int → String) (adapter : σ) : Prop :=
  ∀ height root, o.adapter.stateRootAt adapter height = some root → root = roots height

namespace ProjectionStore

variable (o : StoreConfig σ) (s : ProjectionStore σ)

/-- The store after a call. -/
def admissionStep : AdmissionCall σ → ProjectionStore σ
  | .begin engine request now => (engine.begin s request now none).1
  | .admitEntry tokenId candidate material now =>
      (s.admitEntry o tokenId candidate material now none).1
  | .cancelGap tokenId => (s.cancelGap tokenId none).1
  | .adapterMoves adapter => { s with adapter := adapter }

/-- The snapshot of the open settlement of a token, or the zero word. -/
def openSnapshotOf (tokenId : Int) : Bytes32 :=
  match s.openGaps.get (key tokenId) with
  | none => zeroBytes32
  | some openId => (s.settlement openId).snapshotHash

/-- What a call admits, in the state it is made in. -/
def callAdmission : AdmissionCall σ → Option Admission
  | .admitEntry tokenId candidate material now =>
      match (s.admitEntry o tokenId candidate material now none).2 with
      | .ok result =>
          some ⟨tokenId, result.entry.toCandidateEntry, material, s.openGapOf tokenId,
            s.openSnapshotOf tokenId⟩
      | .error _ => none
  | _ => none

/-- The admissions of a run, the earliest first. -/
def admissions (s : ProjectionStore σ) : List (AdmissionCall σ) → List Admission
  | [] => []
  | call :: rest =>
      (callAdmission o s call).toList ++ admissions (admissionStep o s call) rest

/-- A move of the adapter between two calls leaves every accepted height alone, and
reports no root but the one of its height. -/
def Steady (roots : Int → String) (s : ProjectionStore σ) : AdmissionCall σ → Prop
  | .adapterMoves adapter =>
      (∀ tokenId, o.adapter.acceptedHeight adapter tokenId =
        o.adapter.acceptedHeight s.adapter tokenId) ∧ RootsFrom o roots adapter
  | _ => True

variable {o s} {t : ProjectionStore σ} {roots : Int → String}

/-- What a call does, and what it admits. -/
inductive CallEffect (o : StoreConfig σ) (s : ProjectionStore σ) :
    AdmissionCall σ → ProjectionStore σ → Option Admission → Prop
  | unchanged {call : AdmissionCall σ} : CallEffect o s call s none
  | begun {engine : SettlementEngine} {request : BeginRequest} {now : Int}
      (hbegins : Begins engine s request now) (hwritable : s.poisoned = none)
      (hfree : s.openGaps.get (key request.tokenId) = none) :
      CallEffect o s (.begin engine request now)
        (s.opened request.tokenId (SettlementEngine.BeginRequest.gap request now)) none
  | admitted {tokenId : Int} {candidate : JsValue} {material : ProofMaterial} {now : Int}
      {c : CandidateEntry} {adapter : σ} (hc : Accepted o s tokenId candidate material now c)
      (hadvance : o.adapter.advanceHeight s.adapter tokenId material.remoteHeight = .ok adapter) :
      CallEffect o s (.admitEntry tokenId candidate material now)
        (s.admitted tokenId c material.remoteHeight adapter)
        (some ⟨tokenId, c, material, s.openGapOf tokenId, s.openSnapshotOf tokenId⟩)
  | cancelled {tokenId : Int} {settlementId : Bytes32} (hwritable : s.poisoned = none)
      (hopen : s.openGaps.get (key tokenId) = some settlementId) :
      CallEffect o s (.cancelGap tokenId) (s.cancelled tokenId settlementId) none
  | moved {adapter : σ} : CallEffect o s (.adapterMoves adapter) { s with adapter := adapter } none

theorem call_effect (h : s.Valid) (call : AdmissionCall σ) :
    CallEffect o s call (admissionStep o s call) (callAdmission o s call) := by
  cases call with
  | begin engine request now =>
      have heffect : ServiceEffect engine o s (.begin request now) _ _ := begin_effect request now
      change CallEffect o s _ (serve engine o s (.begin request now)).1 none
      generalize mutated (serve engine o s (.begin request now)).2 = answered at heffect
      generalize (serve engine o s (.begin request now)).1 = after at heffect ⊢
      cases heffect with
      | unchanged => exact .unchanged
      | begun hbegins hwritable hfree => exact .begun hbegins hwritable hfree
  | admitEntry tokenId candidate material now =>
      rcases admitEntry_none (o := o) h tokenId candidate material now with
        ⟨e, _, heq⟩ | ⟨c, adapter, hc, hadvance, heq⟩
      · simp only [admissionStep, callAdmission, heq]
        exact .unchanged
      · simp only [admissionStep, callAdmission, heq]
        exact .admitted hc hadvance
  | cancelGap tokenId =>
      have heffect := cancelGap_effect (o := o) h tokenId none
      simp only [admissionStep, callAdmission]
      generalize s.cancelGap tokenId none = done at heffect ⊢
      obtain ⟨after, answer⟩ := done
      simp only at heffect ⊢
      generalize answer.map StoreAnswer.gap = answered at heffect
      cases heffect with
      | refused e hrefused => exact .unchanged
      | cancelled hwritable hopen => exact .cancelled hwritable hopen
  | adapterMoves adapter => exact .moved

/-- Material that does not rise above the accepted height is refused. -/
theorem refuses_replayed (h : s.Valid) {tokenId : Int} {candidate : JsValue}
    {material : ProofMaterial} {now : Int}
    (hheight : material.remoteHeight ≤ o.adapter.acceptedHeight s.adapter tokenId) :
    admissionStep o s (.admitEntry tokenId candidate material now) = s ∧
      callAdmission o s (.admitEntry tokenId candidate material now) = none := by
  rcases admitEntry_none (o := o) h tokenId candidate material now with
    ⟨e, _, heq⟩ | ⟨c, adapter, hc, _, _⟩
  · simp only [admissionStep, callAdmission, heq]
    trivial
  · exact absurd (checkProof_eq_ok.mp hc.proof).2.2.1 (not_lt_of_ge hheight)

/-- What passes every check is admitted. -/
theorem callAdmission_accepted (h : s.Valid) {tokenId : Int} {candidate : JsValue}
    {material : ProofMaterial} {now : Int} {c : CandidateEntry}
    (hc : Accepted o s tokenId candidate material now c) :
    callAdmission o s (.admitEntry tokenId candidate material now) =
      some ⟨tokenId, c, material, s.openGapOf tokenId, s.openSnapshotOf tokenId⟩ := by
  obtain ⟨adapter, _, heq⟩ := h.admitEntry_of_accepted hc
  simp only [callAdmission, heq]
  rfl

theorem admissionStep_accepted (h : s.Valid) {tokenId : Int} {candidate : JsValue}
    {material : ProofMaterial} {now : Int} {c : CandidateEntry} {adapter : σ}
    (hc : Accepted o s tokenId candidate material now c)
    (hadvance : o.adapter.advanceHeight s.adapter tokenId material.remoteHeight = .ok adapter) :
    admissionStep o s (.admitEntry tokenId candidate material now) =
      s.admitted tokenId c material.remoteHeight adapter := by
  obtain ⟨adapter', hadvance', heq⟩ := h.admitEntry_of_accepted hc
  rw [hadvance] at hadvance'
  cases hadvance'
  simp only [admissionStep, heq]

/-- Under the Merkle profile, a candidate that follows is accepted by a path to the root at the
height of its material. -/
theorem accepted_of_climb (hprofile : o.profile = KitProfile.merkle.withAdapter o.adapter)
    {tokenId : Int} {c : CandidateEntry} {material : ProofMaterial} {now : Int}
    {path : List MerkleStep} (hwritable : s.poisoned = none)
    (hfollows : Follows (s.entries tokenId) c) (hid : material.profile = MerkleProofProfile.id)
    (hfinalized : o.adapter.isFinalized s.adapter material.remoteHeight = true)
    (habove : o.adapter.acceptedHeight s.adapter tokenId < material.remoteHeight)
    (hpath : MerkleProofProfile.path material.payload = some path) (hshort : path.length ≤ 64)
    (hclimb : o.adapter.stateRootAt s.adapter material.remoteHeight =
      some (MerkleProofProfile.climb (bindingDigest (s.proofContext o tokenId c).binding c) path)) :
    Accepted o s tokenId c.toJs material now c where
  writable := hwritable
  shape := validateCandidateShape_toJs.mpr ⟨rfl, hfollows.shaped⟩
  proof := by
    refine checkProof_eq_ok.mpr ⟨by rw [hprofile]; exact hid, hfinalized, habove, ?_⟩
    rw [hprofile, KitProfile.withAdapter_merkle_admitted]
    exact ⟨path, hpath, hshort, hclimb⟩
  follows := hfollows

/-! ## What every state keeps -/

/-- What the states of a run keep: every recorded settlement has an id and a snapshot
that are words, and the adapter reports the roots of their heights. -/
structure Sound (o : StoreConfig σ) (roots : Int → String) (s : ProjectionStore σ) : Prop where
  valid : s.Valid
  roots : RootsFrom o roots s.adapter
  named : ∀ id r, s.settlements.get id = some r →
    isBytes32 id = true ∧ isBytes32 r.snapshotHash = true

theorem Sound.initial {adapter : σ} (hroots : RootsFrom o roots adapter)
    (journal : JournalContent) : Sound o roots (initial adapter journal) where
  valid := Valid.initial adapter journal
  roots := hroots
  named := by simp [ProjectionStore.initial]

/-- The settlement an open gap names is recorded, while the store accepts writes. -/
theorem Sound.named_open (h : Sound o roots s) (hwritable : s.poisoned = none) {k : String}
    {id : Bytes32} (hopen : s.openGaps.get k = some id) :
    isBytes32 id = true ∧ isBytes32 (s.settlement id).snapshotHash = true := by
  obtain ⟨r, hr⟩ := h.valid.gaps hwritable k id hopen
  rw [settlement_of_get hr]
  exact h.named id r hr

/-- Advancing a height moves no root. -/
theorem RootsFrom.advance {adapter adapter' : σ} (h : RootsFrom o roots adapter)
    {tokenId height : Int}
    (hadvance : o.adapter.advanceHeight adapter tokenId height = .ok adapter') :
    RootsFrom o roots adapter' := by
  intro height' root hroot
  rw [(o.adapter.advance_frame adapter tokenId height adapter' hadvance).2] at hroot
  exact h height' root hroot

/-- The settlements after an admission of a token with an open gap, or of one without. -/
theorem Sound.named_entered (h : Sound o roots s) (hwritable : s.poisoned = none) (tokenId : Int)
    (c : CandidateEntry) (adapter : σ) :
    ∀ id r, (s.entered tokenId c adapter).settlements.get id = some r →
      isBytes32 id = true ∧ isBytes32 r.snapshotHash = true := by
  rw [entered_settlements]
  cases hopen : s.openGaps.get (key tokenId) with
  | none => exact h.named
  | some id =>
      have hnamed := h.named_open hwritable hopen
      exact InsertionMap.forall_set h.named hnamed

theorem Sound.step (h : Sound o roots s) {call : AdmissionCall σ}
    (hsteady : Steady o roots s call) :
    Sound o roots (admissionStep o s call) := by
  have heffect := call_effect (o := o) h.valid call
  generalize admissionStep o s call = after at heffect ⊢
  generalize callAdmission o s call = found at heffect
  cases heffect with
  | unchanged => exact h
  | begun hbegins hwritable hfree =>
      exact ⟨(Effect.opened (o := o) hwritable hfree).valid h.valid, h.roots,
        InsertionMap.forall_set h.named ⟨hbegins.settlementWord, hbegins.snapshotWord⟩⟩
  | admitted hc hadvance =>
      refine ⟨(Effect.admitted hc hadvance).valid h.valid, ?_, h.named_entered hc.writable _ _ _⟩
      simp only [ProjectionStore.admitted, entered_adapter]
      exact RootsFrom.advance h.roots hadvance
  | cancelled hwritable hopen =>
      have hnamed := h.named_open hwritable hopen
      exact ⟨(Effect.cancelled (o := o) hwritable hopen).valid h.valid, h.roots,
        InsertionMap.forall_set h.named hnamed⟩
  | moved => exact ⟨⟨h.valid.projections, h.valid.gaps⟩, hsteady.2, h.named⟩

/-! ## What an admission establishes -/

/-- The prior commitment a proof has to name is the one its candidate names. -/
theorem priorCommitment_of_follows {tokenId : Int} {c : CandidateEntry}
    (h : Follows (s.entries tokenId) c) : s.priorCommitment tokenId c = c.previousCommitment := by
  have hlinkage := h.linkage
  unfold entries at hlinkage
  unfold priorCommitment
  cases hget : s.projections.get (key tokenId) with
  | none => rfl
  | some projection =>
      simp only [hget, tip] at hlinkage ⊢
      cases hlast : projection.entries.getLast? with
      | none => rfl
      | some latest =>
          rw [hlast] at hlinkage
          exact hlinkage.symm

theorem isBytes32_zeroBytes32 : isBytes32 zeroBytes32 = true := by decide

theorem Sound.evident (h : Sound o roots s) {profile : KitProfile}
    (hprofile : o.profile = profile.withAdapter o.adapter) {tokenId : Int} {candidate : JsValue}
    {material : ProofMaterial} {now : Int} {c : CandidateEntry}
    (hc : Accepted o s tokenId candidate material now c) :
    Admission.Evident ⟨tokenId, c, material, s.openGapOf tokenId, s.openSnapshotOf tokenId⟩
      profile roots o.adapter.chainId o.adapter.contract where
  shaped := hc.follows.shaped
  settlementId := by
    simp only [openGapOf]
    cases hopen : s.openGaps.get (key tokenId) with
    | none => exact isBytes32_zeroBytes32
    | some id => exact (h.named_open hc.writable hopen).1
  snapshotHash := by
    simp only [openSnapshotOf]
    cases hopen : s.openGaps.get (key tokenId) with
    | none => exact isBytes32_zeroBytes32
    | some id => exact (h.named_open hc.writable hopen).2
  named := by
    have hid := (checkProof_eq_ok.mp hc.proof).1
    rwa [hprofile] at hid
  passes := by
    have hverify := (checkProof_eq_ok.mp hc.proof).2.2.2
    rw [hprofile] at hverify
    have hpasses := KitProfile.passes_of_verify (h.roots material.remoteHeight) hverify
    simp only [proofContext, priorCommitment_of_follows hc.follows] at hpasses
    exact hpasses

/-- Every admission of a run is evident. -/
theorem Sound.admissions_evident (h : Sound o roots s) {profile : KitProfile}
    (hprofile : o.profile = profile.withAdapter o.adapter) {calls : List (AdmissionCall σ)}
    (hcalls : LabelledRun.Admissible (admissionStep o) (Steady o roots) s calls) :
    ∀ x ∈ admissions o s calls,
      x.Evident profile roots o.adapter.chainId o.adapter.contract := by
  induction calls generalizing s with
  | nil =>
      intro x hx
      cases hx
  | cons call rest ih =>
      intro x hx
      rcases List.mem_append.mp hx with hx | hx
      · have heffect := call_effect (o := o) h.valid call
        generalize admissionStep o s call = after at heffect
        generalize callAdmission o s call = found at heffect hx
        cases heffect with
        | admitted hc hadvance =>
            cases Option.mem_toList.mp hx
            exact h.evident hprofile hc
        | _ => cases hx
      · exact ih (h.step hcalls.1) hcalls.2 x hx

/-! ## Accepted heights -/

/-- An admission raises the accepted height of its token to that of its material. Nothing
else moves one. -/
def Climbs (o : StoreConfig σ) (s t : ProjectionStore σ) : Option Admission → Prop
  | some x =>
      o.adapter.acceptedHeight s.adapter x.tokenId < x.material.remoteHeight ∧
      ∀ tokenId, o.adapter.acceptedHeight t.adapter tokenId =
        if tokenId = x.tokenId then x.material.remoteHeight
        else o.adapter.acceptedHeight s.adapter tokenId
  | none => ∀ tokenId, o.adapter.acceptedHeight t.adapter tokenId =
      o.adapter.acceptedHeight s.adapter tokenId

theorem Sound.climbs (h : Sound o roots s) {call : AdmissionCall σ}
    (hsteady : Steady o roots s call) :
    Climbs o s (admissionStep o s call) (callAdmission o s call) := by
  have heffect := call_effect (o := o) h.valid call
  generalize admissionStep o s call = after at heffect ⊢
  generalize callAdmission o s call = found at heffect ⊢
  cases heffect with
  | unchanged => exact fun _ => rfl
  | begun hbegins hwritable hfree => exact fun _ => rfl
  | admitted hc hadvance =>
      refine ⟨(checkProof_eq_ok.mp hc.proof).2.2.1, fun tokenId => ?_⟩
      simp only [ProjectionStore.admitted, entered_adapter]
      exact hc.heights hadvance tokenId
  | cancelled hwritable hopen => exact fun _ => rfl
  | moved => exact hsteady.1

/-- The heights a log has for a token, the earliest first. -/
def heightsOf (tokenId : Int) (log : List Admission) : List Int :=
  (log.filter fun x => x.tokenId = tokenId).map fun x => x.material.remoteHeight

theorem Sound.run_heights (h : Sound o roots s) {calls : List (AdmissionCall σ)}
    (hcalls : LabelledRun.Admissible (admissionStep o) (Steady o roots) s calls) (tokenId : Int) :
    (o.adapter.acceptedHeight s.adapter tokenId ::
        heightsOf tokenId (admissions o s calls)).Pairwise (· < ·) ∧
      o.adapter.acceptedHeight (LabelledRun.run (admissionStep o) s calls).adapter tokenId =
        (heightsOf tokenId (admissions o s calls)).getLast?.getD
          (o.adapter.acceptedHeight s.adapter tokenId) := by
  induction calls generalizing s with
  | nil => exact ⟨List.pairwise_singleton _ _, rfl⟩
  | cons call rest ih =>
      have hclimbs := h.climbs hcalls.1
      obtain ⟨hascends, hlast⟩ := ih (h.step hcalls.1) hcalls.2
      rw [LabelledRun.run_cons, hlast]
      simp only [admissions]
      cases hfound : callAdmission o s call with
      | none =>
          rw [hfound] at hclimbs
          rw [hclimbs tokenId] at hascends ⊢
          exact ⟨hascends, rfl⟩
      | some x =>
          rw [hfound] at hclimbs
          obtain ⟨habove, hheights⟩ := hclimbs
          rw [hheights tokenId] at hascends ⊢
          by_cases hx : tokenId = x.tokenId
          · subst hx
            rw [if_pos rfl] at hascends ⊢
            -- The admission's height is the next of its token, above the one accepted before.
            have hcons : heightsOf x.tokenId ((some x).toList ++
                admissions o (admissionStep o s call) rest) = x.material.remoteHeight ::
                heightsOf x.tokenId (admissions o (admissionStep o s call) rest) := by
              simp [heightsOf]
            rw [hcons, List.getLast?_cons]
            refine ⟨List.pairwise_cons.mpr ⟨fun height hmem => ?_, hascends⟩, rfl⟩
            rcases List.mem_cons.mp hmem with rfl | hmem
            · exact habove
            · exact habove.trans ((List.pairwise_cons.mp hascends).1 height hmem)
          · rw [if_neg hx] at hascends ⊢
            -- An admission of another token adds no height to this one.
            have hskip : heightsOf tokenId ((some x).toList ++
                admissions o (admissionStep o s call) rest) =
                heightsOf tokenId (admissions o (admissionStep o s call) rest) := by
              simp [heightsOf, Ne.symm hx]
            rw [hskip]
            exact ⟨hascends, rfl⟩

/-- In a log whose heights ascend for every token, no material comes twice for one
token. -/
theorem ascending {log : List Admission}
    (h : ∀ tokenId, (heightsOf tokenId log).Pairwise (· < ·)) :
    log.Pairwise fun x y =>
      x.tokenId = y.tokenId → x.material.remoteHeight < y.material.remoteHeight := by
  rw [List.pairwise_iff_getElem]
  intro i j hi hj hij htoken
  have hascends := h log[i].tokenId
  rw [heightsOf, List.pairwise_map, List.pairwise_filter, List.pairwise_iff_getElem] at hascends
  exact hascends i j hi hj hij (by simp) (by simp [htoken])

/-! ## Every run -/

/-- Everything that is hashed to verify the admissions of a log. -/
def hashedIn (profile : KitProfile) (roots : Int → String) (o : StoreConfig σ)
    (log : List Admission) : List (List UInt8) :=
  log.flatMap fun x => x.hashed profile roots o.adapter.chainId o.adapter.contract

theorem mem_hashedIn {profile : KitProfile} {log : List Admission} {x : Admission} (hx : x ∈ log) :
    x.hashed profile roots o.adapter.chainId o.adapter.contract ⊆ hashedIn profile roots o log :=
  fun _ hm => List.mem_flatMap.mpr ⟨x, hx, hm⟩

/-- A proof admits one thing, once. Over a profile of the kit: a token's accepted height
climbs at each of its admissions, is the height of the last one and moves at no other
call; no material is accepted twice; and two runs over one chain, contract, roots and
issuers accept a material only for one token, candidate, open gap and snapshot. -/
theorem run_admits_once (profile : KitProfile) (hone : profile.OneMessage) (roots : Int → String)
    (o : StoreConfig σ) (hprofile : o.profile = profile.withAdapter o.adapter) (adapter : σ)
    (hroots : RootsFrom o roots adapter) (journal : JournalContent)
    (calls : List (AdmissionCall σ))
    (hcalls : LabelledRun.Admissible (admissionStep o) (Steady o roots)
      (initial adapter journal) calls) :
    let s := LabelledRun.run (admissionStep o) (initial adapter journal) calls
    let log := admissions o (initial adapter journal) calls
    (∀ tokenId,
      (o.adapter.acceptedHeight adapter tokenId :: heightsOf tokenId log).Pairwise (· < ·) ∧
      o.adapter.acceptedHeight s.adapter tokenId =
        (heightsOf tokenId log).getLast?.getD (o.adapter.acceptedHeight adapter tokenId)) ∧
    (∀ call, Steady o roots s call → Climbs o s (admissionStep o s call) (callAdmission o s call)) ∧
    (CollisionFree (hashedIn profile roots o log) → (log.map fun x => x.material).Nodup) ∧
    ∀ (σ' : Type) (profile' : KitProfile) (o' : StoreConfig σ') (adapter' : σ')
      (journal' : JournalContent) (calls' : List (AdmissionCall σ')),
      o'.profile = profile'.withAdapter o'.adapter → profile.SameIssuers profile' →
      o'.adapter.chainId = o.adapter.chainId → o'.adapter.contract = o.adapter.contract →
      RootsFrom o' roots adapter' →
      LabelledRun.Admissible (admissionStep o') (Steady o' roots)
        (initial adapter' journal') calls' →
      let log' := admissions o' (initial adapter' journal') calls'
      CollisionFree (hashedIn profile roots o log ++ hashedIn profile' roots o' log') →
      ∀ x ∈ log, ∀ x' ∈ log', x.material = x'.material → x = x' := by
  intro s log
  have hinitial : Sound o roots (initial adapter journal) := Sound.initial hroots journal
  have hsound : Sound o roots s :=
    LabelledRun.admissible_invariant (admissionStep o) (Sound o roots)
      (fun _ _ h hsteady => h.step hsteady) hinitial hcalls
  have hevident := hinitial.admissions_evident hprofile hcalls
  have hheights := hinitial.run_heights hcalls
  refine ⟨hheights, fun call hsteady => hsound.climbs hsteady, fun hfree => ?_, ?_⟩
  · rw [List.Nodup, List.pairwise_map]
    refine (ascending fun tokenId => (List.pairwise_cons.mp (hheights tokenId).1).2).imp_of_mem ?_
    intro x y hx hy hascends hmaterial
    have heq : x = y := (hevident x hx).unique (hevident y hy) hone (.refl profile)
      (hfree.subset (List.append_subset.mpr ⟨mem_hashedIn hx, mem_hashedIn hy⟩)) hmaterial
    subst heq
    exact lt_irrefl _ (hascends rfl)
  · intro σ' profile' o' adapter' journal' calls' hprofile' hissuers hchain hcontract hroots'
      hcalls' log' hfree x hx x' hx' hmaterial
    have hevident' := (Sound.initial hroots' journal').admissions_evident hprofile' hcalls' x' hx'
    have hhashed' : x'.hashed profile' roots o'.adapter.chainId o'.adapter.contract ⊆ _ :=
      mem_hashedIn hx'
    rw [hchain, hcontract] at hevident' hhashed'
    exact (hevident x hx).unique hevident' hone hissuers
      (hfree.subset (List.append_subset.mpr
        ⟨List.subset_append_of_subset_left _ (mem_hashedIn hx),
          List.subset_append_of_subset_right _ hhashed'⟩)) hmaterial

/-! ### Two leaves, one admitted after the other -/

section Leaves

def leafMaterial : ProofMaterial :=
  ⟨MerkleProofProfile.id, 5, pathPayload [⟨secondLeaf, .right⟩]⟩

def leafAdmission : Admission := ⟨1, firstCandidate, leafMaterial, word '5', word '6'⟩

def nextMaterial : ProofMaterial :=
  ⟨MerkleProofProfile.id, 10, pathPayload [⟨firstLeaf, .left⟩]⟩

def nextAdmission : Admission := ⟨1, secondCandidate, nextMaterial, zeroBytes32, zeroBytes32⟩

def leafConfig : StoreConfig MemoryChain :=
  ⟨word '7', word '8', KitProfile.merkle.withAdapter (MemoryChain.adapter {}),
    MemoryChain.adapter {}⟩

/-- Both heights have the root over both leaves. -/
def leafChain : MemoryChain :=
  ((MemoryChain.new {}).setStateRoot 5 pairRoot).setStateRoot 10 pairRoot

abbrev leafStart : ProjectionStore MemoryChain := initial leafChain JournalContent.empty

def leafBegin : AdmissionCall MemoryChain :=
  .begin ⟨allowListAuthority [zeroAddress], 1000⟩
    ⟨1, word '5', zeroAddress, firstCandidate.holder, word '6', 200⟩ 50

def leafOpened : ProjectionStore MemoryChain := admissionStep leafConfig leafStart leafBegin

def leafAdmit : AdmissionCall MemoryChain := .admitEntry 1 firstCandidate.toJs leafMaterial 0

/-- The chain, and the store, after the first of them. -/
def leafAdvanced : MemoryChain := { leafChain with heights := leafChain.heights.set "1" 5 }

def leafAdmitted : ProjectionStore MemoryChain :=
  leafOpened.admitted 1 firstCandidate 5 leafAdvanced

def nextAdmit : AdmissionCall MemoryChain := .admitEntry 1 secondCandidate.toJs nextMaterial 0

/-- The first admission, the same once more, and the second. -/
def leafCalls : List (AdmissionCall MemoryChain) := [leafBegin, leafAdmit, leafAdmit, nextAdmit]

theorem leafChain_roots {roots : Int → String} (hfive : roots 5 = pairRoot)
    (hten : roots 10 = pairRoot) : RootsFrom leafConfig roots leafChain := by
  intro height root hroot
  change ((InsertionMap.empty.set (toString (5 : Int)) pairRoot).set (toString (10 : Int))
    pairRoot).get (toString height) = some root at hroot
  rw [InsertionMap.get_set, InsertionMap.get_set] at hroot
  split_ifs at hroot with hlater hearlier
  · rw [← BigIntText.toString_inj.mp hlater, hten]
    exact (Option.some.inj hroot).symm
  · rw [← BigIntText.toString_inj.mp hearlier, hfive]
    exact (Option.some.inj hroot).symm
  · cases hroot

theorem leaf_roots : RootsFrom leafConfig (fun _ => pairRoot) leafChain := leafChain_roots rfl rfl

theorem leaf_path : MerkleProofProfile.path leafMaterial.payload = some [⟨secondLeaf, .right⟩] :=
  path_pathPayload (List.forall_mem_singleton.mpr isBytes32_leaves.2)

theorem next_path : MerkleProofProfile.path nextMaterial.payload = some [⟨firstLeaf, .left⟩] :=
  path_pathPayload (List.forall_mem_singleton.mpr isBytes32_leaves.1)

theorem leaf_accepted :
    Accepted leafConfig leafOpened 1 firstCandidate.toJs leafMaterial 0 firstCandidate := by
  have hbinding : (leafOpened.proofContext leafConfig 1 firstCandidate).binding =
      firstBinding := by decide
  have hroot : leafConfig.adapter.stateRootAt leafOpened.adapter leafMaterial.remoteHeight =
      some pairRoot := rfl
  have hfollows : Follows (leafOpened.entries 1) firstCandidate :=
    ⟨firstCandidate_shaped, by decide, by decide, (fun e he => by cases he), by decide⟩
  refine accepted_of_climb rfl (by decide) hfollows rfl (by decide) (by decide) leaf_path
    (by decide) ?_
  rw [hbinding, hroot]
  exact congrArg some (climb_onRight secondLeaf firstLeaf).symm

theorem leaf_sound : Sound leafConfig (fun _ => pairRoot) leafOpened :=
  (Sound.initial leaf_roots JournalContent.empty).step trivial

theorem leaf_step : admissionStep leafConfig leafOpened leafAdmit = leafAdmitted :=
  admissionStep_accepted leaf_sound.valid leaf_accepted rfl

theorem leafAdmitted_sound : Sound leafConfig (fun _ => pairRoot) leafAdmitted := by
  rw [← leaf_step]
  exact leaf_sound.step trivial

theorem next_accepted :
    Accepted leafConfig leafAdmitted 1 secondCandidate.toJs nextMaterial 0 secondCandidate := by
  have hbinding : (leafAdmitted.proofContext leafConfig 1 secondCandidate).binding =
      secondBinding := by decide
  have hroot : leafConfig.adapter.stateRootAt leafAdmitted.adapter nextMaterial.remoteHeight =
      some pairRoot := rfl
  have hentries : leafAdmitted.entries 1 = [{ firstCandidate with supersededAt := 0 }] := by decide
  have hfollows : Follows (leafAdmitted.entries 1) secondCandidate := by
    rw [hentries]
    exact ⟨secondCandidate_shaped, rfl, rfl, (fun e he => by cases he; decide), by decide⟩
  refine accepted_of_climb rfl (by decide) hfollows rfl (by decide) (by decide) next_path
    (by decide) ?_
  rw [hbinding, hroot]
  exact congrArg some (climb_onLeft firstLeaf secondLeaf).symm

theorem leaf_admission : callAdmission leafConfig leafOpened leafAdmit = some leafAdmission := by
  have hid : leafOpened.openGapOf 1 = word '5' := by decide
  have hsnapshot : leafOpened.openSnapshotOf 1 = word '6' := by decide
  have hadmission : callAdmission leafConfig leafOpened leafAdmit = _ :=
    callAdmission_accepted leaf_sound.valid leaf_accepted
  rw [hadmission, hid, hsnapshot]
  rfl

theorem next_admission : callAdmission leafConfig leafAdmitted nextAdmit = some nextAdmission := by
  have hid : leafAdmitted.openGapOf 1 = zeroBytes32 := by decide
  have hsnapshot : leafAdmitted.openSnapshotOf 1 = zeroBytes32 := by decide
  have hadmission : callAdmission leafConfig leafAdmitted nextAdmit = _ :=
    callAdmission_accepted leafAdmitted_sound.valid next_accepted
  rw [hadmission, hid, hsnapshot]
  rfl

theorem leaf_admissions : admissions leafConfig leafStart leafCalls =
    [leafAdmission, nextAdmission] := by
  have hbegin : callAdmission leafConfig leafStart leafBegin = none := rfl
  obtain ⟨hkept, hrefused⟩ : admissionStep leafConfig leafAdmitted leafAdmit = leafAdmitted ∧
      callAdmission leafConfig leafAdmitted leafAdmit = none :=
    refuses_replayed leafAdmitted_sound.valid (by decide)
  have hopened : admissionStep leafConfig leafStart leafBegin = leafOpened := rfl
  simp only [leafCalls, admissions, hbegin, hopened, leaf_admission, leaf_step, hrefused, hkept,
    next_admission]
  rfl

/-- An admission hashes its text, and the pair of the leaves to climb from its own. -/
theorem leafAdmission_hashed (roots : Int → String) :
    leafAdmission.hashed .merkle roots leafConfig.adapter.chainId leafConfig.adapter.contract =
      [firstText, pairBytes firstLeaf secondLeaf] := by
  rw [Admission.hashed_merkle (x := leafAdmission) leaf_path]
  exact congrArg (firstText :: ·) (hashed_onRight secondLeaf firstLeaf)

theorem nextAdmission_hashed (roots : Int → String) :
    nextAdmission.hashed .merkle roots leafConfig.adapter.chainId leafConfig.adapter.contract =
      [secondText, pairBytes firstLeaf secondLeaf] := by
  rw [Admission.hashed_merkle (x := nextAdmission) next_path]
  exact congrArg (secondText :: ·) (hashed_onLeft firstLeaf secondLeaf)

theorem leaf_collisionFree : CollisionFree
    (hashedIn .merkle (fun _ => pairRoot) leafConfig [leafAdmission, nextAdmission] ++
      hashedIn .merkle (fun _ => pairRoot) leafConfig [leafAdmission, nextAdmission]) := by
  apply leaves_collisionFree.subset
  simp only [hashedIn, List.flatMap_cons, List.flatMap_nil, leafAdmission_hashed,
    nextAdmission_hashed, List.append_subset, List.cons_subset, List.nil_subset, List.mem_cons,
    true_or, or_true, and_true]

/-- The second use of the first material is refused, and the next leaf is admitted after it. -/
theorem run_admits_once_leaves :
    let log := admissions leafConfig leafStart leafCalls
    log = [leafAdmission, nextAdmission] ∧ heightsOf 1 log = [5, 10] ∧
      (log.map fun x => x.material).Nodup ∧
      ∀ x ∈ log, ∀ x' ∈ log, x.material = x'.material → x = x' := by
  obtain ⟨_, _, honce, hunique⟩ := run_admits_once .merkle trivial (fun _ => pairRoot) leafConfig
    rfl leafChain leaf_roots JournalContent.empty leafCalls
    ⟨trivial, trivial, trivial, trivial, trivial⟩
  have hunique' := hunique MemoryChain .merkle leafConfig leafChain JournalContent.empty
    leafCalls rfl trivial rfl rfl leaf_roots ⟨trivial, trivial, trivial, trivial, trivial⟩
  rw [leaf_admissions] at honce hunique'
  refine ⟨leaf_admissions, ?_, ?_, ?_⟩
  · rw [leaf_admissions]
    decide
  · rw [leaf_admissions]
    exact honce (leaf_collisionFree.subset (List.subset_append_left _ _))
  · rw [leaf_admissions]
    exact hunique' leaf_collisionFree

end Leaves

end ProjectionStore

end Erc8415
