import Erc8415.Adapters.Refresh
import Erc8415.Foundation.EventSourcing
import Erc8415.Settlement.CommittedAdmissions

/-! # Admissions between refreshes

A store over the Ethereum adapter is served while calls of `refresh` on the
same adapter are under way. A call of the store runs to its end between two
replies of the remote node; whatever these say, and in whatever order they
come, the root that proved an admission is the one the adapter reports at its
height from then on.
-/

namespace Erc8415

/-- A store over the Ethereum adapter, with every refresh of that adapter. -/
structure RefreshedStore where
  store : ProjectionStore EthereumChain
  calls : List RefreshCall

/-- What can happen next: a refresh begins, a reply reaches one, or the store is called. The
adapter moves by replies alone. -/
inductive RefreshedEvent where
  | refresh
  | reply (call : Nat) (reply : RpcReply)
  | serve (call : AdmissionCall EthereumChain) (hcall : ∀ adapter, call ≠ .adapterMoves adapter)

/-- A store over a profile of the kit and the Ethereum adapter. -/
def refreshedConfig (options : EthereumChain.Options) (profile : KitProfile)
    (registerId verificationProfile : Bytes32) : StoreConfig EthereumChain where
  registerId := registerId
  verificationProfile := verificationProfile
  profile := profile.withAdapter (EthereumChain.adapter options)
  adapter := EthereumChain.adapter options

/-- The profiles that verify against a state root. -/
def KitProfile.ReadsRoot : KitProfile → Prop
  | merkle => True
  | mockZk _ => True
  | ed25519 _ => False

namespace KitProfile

variable {profile : KitProfile}

theorem root_of_verify {stateRootAt : Int → Option String} {now : Int} {material : ProofMaterial}
    {context : ProofContext} (hreads : profile.ReadsRoot)
    (h : profile.verify stateRootAt now material context = .admitted) :
    ∃ root, stateRootAt material.remoteHeight = some root := by
  cases profile with
  | merkle =>
      obtain ⟨path, _, _, hroot⟩ := MerkleProofProfile.verify_eq_admitted.mp h
      exact ⟨_, hroot⟩
  | mockZk verifyingKey =>
      simp only [verify, MockZkProofProfile.verify] at h
      split at h
      next => cases h
      next root hroot => exact ⟨root, hroot⟩
  | ed25519 attestation => exact hreads.elim

/-- A root that is not read can be any. -/
theorem Passes.of_root {root root' digest : String} {material : ProofMaterial}
    (h : profile.Passes root material digest) (hroot : profile.ReadsRoot → root = root') :
    profile.Passes root' material digest := by
  cases profile with
  | merkle =>
      rw [← hroot trivial]
      exact h
  | mockZk verifyingKey =>
      rw [← hroot trivial]
      exact h
  | ed25519 attestation => exact h

end KitProfile

namespace RefreshedStore

section Steps

variable (o : StoreConfig EthereumChain) (s : RefreshedStore)

def initial (journal : JournalContent) : RefreshedStore :=
  ⟨ProjectionStore.initial EthereumChain.new journal, []⟩

/-- The adapter and its refreshes. -/
def refreshing : Refreshing := ⟨s.store.adapter, s.calls⟩

/-- The store after a step of the refreshes of its adapter. -/
def resumed (event : RefreshEvent) : RefreshedStore :=
  let refreshing := s.refreshing.step event
  ⟨{ s.store with adapter := refreshing.chain }, refreshing.calls⟩

def step : RefreshedEvent → RefreshedStore
  | .refresh => s.resumed .refresh
  | .reply i reply => s.resumed (.reply i reply)
  | .serve call _ => { s with store := ProjectionStore.admissionStep o s.store call }

/-- What an event admits. -/
def admits : RefreshedEvent → List Admission
  | .serve call _ => (ProjectionStore.callAdmission o s.store call).toList
  | _ => []

end Steps

/-! ## What every event keeps -/

/-- The root an adapter reports at a height, or a text that is no root. -/
def reported (a : EthereumChain) (height : Int) : String := (a.stateRootAt height).getD ""

/-- What every state keeps, of the store and of the refreshes of its adapter. -/
structure Following (s : RefreshedStore) : Prop where
  valid : s.store.Valid
  named : ∀ id r, s.store.settlements.get id = some r →
    isBytes32 id = true ∧ isBytes32 r.snapshotHash = true
  refreshing : s.refreshing.Sound

theorem Following.initial (journal : JournalContent) : (initial journal).Following where
  valid := ProjectionStore.Valid.initial EthereumChain.new journal
  named := by simp [RefreshedStore.initial, ProjectionStore.initial]
  refreshing := Refreshing.Sound.initial

variable {options : EthereumChain.Options} {profile : KitProfile}
  {o : StoreConfig EthereumChain} {s t : RefreshedStore}

theorem Following.sound (hadapter : o.adapter = EthereumChain.adapter options)
    (h : s.Following) : ProjectionStore.Sound o (reported s.store.adapter) s.store where
  valid := h.valid
  roots := by
    intro height root hroot
    rw [hadapter] at hroot
    change s.store.adapter.stateRootAt height = some root at hroot
    rw [reported, hroot, Option.getD_some]
  named := h.named

/-- A root of the adapter is that of one refresh that returned. -/
theorem Following.recorded (h : s.Following) {height : Int} {root : String}
    (hroot : s.store.adapter.stateRootAt height = some root) :
    s.refreshing.Recorded height root := by
  obtain ⟨height', hkey, _, hrecorded⟩ := h.refreshing.recorded _ root hroot
  rw [BigIntText.toString_inj.mp hkey]
  exact hrecorded

theorem Following.resumed (h : s.Following) (event : RefreshEvent) :
    (s.resumed event).Following ∧
      Refreshing.Keeps s.store.adapter (s.resumed event).store.adapter := by
  obtain ⟨hsound, hkeeps⟩ := h.refreshing.step event
  exact ⟨⟨⟨h.valid.projections, h.valid.gaps⟩, h.named, hsound⟩, hkeeps⟩

/-- A call of the store leaves the adapter as it is, or advances a height of it. -/
theorem adapter_served (hadapter : o.adapter = EthereumChain.adapter options)
    (h : s.store.Valid) {call : AdmissionCall EthereumChain}
    (hcall : ∀ adapter, call ≠ .adapterMoves adapter) :
    (ProjectionStore.admissionStep o s.store call).adapter = s.store.adapter ∨
      ∃ tokenId height, s.store.adapter.advanceHeight tokenId height =
        .ok (ProjectionStore.admissionStep o s.store call).adapter := by
  have heffect := ProjectionStore.call_effect (o := o) h call
  generalize ProjectionStore.admissionStep o s.store call = after at heffect ⊢
  generalize ProjectionStore.callAdmission o s.store call = found at heffect
  cases heffect with
  | @admitted tokenId _ material _ _ _ hc hadvance =>
      right
      refine ⟨tokenId, material.remoteHeight, ?_⟩
      rw [hadapter] at hadvance
      simp only [ProjectionStore.admitted, ProjectionStore.entered_adapter]
      exact hadvance
  | moved => exact absurd rfl (hcall _)
  | _ => exact Or.inl rfl

theorem Following.step (hadapter : o.adapter = EthereumChain.adapter options)
    (h : s.Following) (event : RefreshedEvent) :
    (s.step o event).Following ∧
      Refreshing.Keeps s.store.adapter (s.step o event).store.adapter := by
  cases event with
  | refresh => exact h.resumed .refresh
  | reply i reply => exact h.resumed (.reply i reply)
  | serve call hcall =>
      have hsteady : ProjectionStore.Steady o (reported s.store.adapter) s.store call := by
        cases call with
        | adapterMoves adapter => exact absurd rfl (hcall adapter)
        | _ => trivial
      have hsound := (h.sound hadapter).step hsteady
      -- The refreshes see a call of the store as nothing, or as one that advances a height.
      rcases adapter_served hadapter h.valid hcall with hsame | ⟨tokenId, height, hadvance⟩
      · have hrefreshing : (s.step o (.serve call hcall)).refreshing = s.refreshing := by
          simp only [RefreshedStore.step, RefreshedStore.refreshing, hsame]
        refine ⟨⟨hsound.valid, hsound.named, ?_⟩, ?_⟩
        · rw [hrefreshing]
          exact h.refreshing
        · simp only [RefreshedStore.step, hsame]
          exact Refreshing.Keeps.refl _
      · have hrefreshing : (s.step o (.serve call hcall)).refreshing =
            s.refreshing.step (.advance tokenId height) := by
          simp only [RefreshedStore.step, RefreshedStore.refreshing, Refreshing.step, hadvance]
        obtain ⟨hrefreshed, hkeeps⟩ := h.refreshing.step (.advance tokenId height)
        rw [← hrefreshing] at hrefreshed hkeeps
        exact ⟨⟨hsound.valid, hsound.named, hrefreshed⟩, hkeeps⟩

/-! ## What proved an admission -/

/-- An admission that the roots of the adapter prove: its height is final, and the root there, if
its profile reads one, is that of one refresh that returned. -/
structure StillProved (o : StoreConfig EthereumChain) (profile : KitProfile)
    (s : RefreshedStore) (x : Admission) : Prop where
  finalized : s.store.adapter.isFinalized x.material.remoteHeight = true
  evident : x.Evident profile (reported s.store.adapter) o.adapter.chainId o.adapter.contract
  recorded : profile.ReadsRoot → ∃ root,
    s.store.adapter.stateRootAt x.material.remoteHeight = some root ∧
      s.refreshing.Recorded x.material.remoteHeight root

/-- The root that proved it is reported for as long as the adapter keeps what it has accepted. -/
theorem StillProved.root_kept {x : Admission} (h : StillProved o profile s x)
    (hkeeps : Refreshing.Keeps s.store.adapter t.store.adapter) (hreads : profile.ReadsRoot) :
    ∃ root, s.store.adapter.stateRootAt x.material.remoteHeight = some root ∧
      t.store.adapter.stateRootAt x.material.remoteHeight = some root := by
  obtain ⟨root, hroot, _⟩ := h.recorded hreads
  exact ⟨root, hroot, hkeeps.roots _ root hroot⟩

theorem StillProved.keeps {x : Admission} (h : StillProved o profile s x) (ht : t.Following)
    (hkeeps : Refreshing.Keeps s.store.adapter t.store.adapter) : StillProved o profile t x where
  finalized := by
    have hfinal := h.finalized
    simp only [EthereumChain.isFinalized, Bool.and_eq_true, decide_eq_true_eq] at hfinal ⊢
    exact ⟨hfinal.1, hfinal.2.trans hkeeps.finalizedHeight⟩
  evident := by
    refine ⟨h.evident.shaped, h.evident.settlementId, h.evident.snapshotHash, h.evident.named, ?_⟩
    apply h.evident.passes.of_root
    intro hreads
    obtain ⟨root, hroot, hroot'⟩ := h.root_kept hkeeps hreads
    rw [reported, reported, hroot, hroot']
  recorded := by
    intro hreads
    obtain ⟨root, _, hroot'⟩ := h.root_kept hkeeps hreads
    exact ⟨root, hroot', ht.recorded hroot'⟩

/-- What an event admits is proved in the state it is admitted in. -/
theorem Following.proved (hadapter : o.adapter = EthereumChain.adapter options)
    (hprofile : o.profile = profile.withAdapter o.adapter) (h : s.Following)
    (event : RefreshedEvent) : ∀ x ∈ s.admits o event, StillProved o profile s x := by
  intro x hx
  cases event with
  | refresh => cases hx
  | reply i reply => cases hx
  | serve call hcall =>
      have heffect := ProjectionStore.call_effect (o := o) h.valid call
      simp only [admits] at hx
      generalize ProjectionStore.admissionStep o s.store call = after at heffect
      generalize ProjectionStore.callAdmission o s.store call = found at heffect hx
      cases heffect with
      | admitted hc hadvance =>
          cases Option.mem_toList.mp hx
          obtain ⟨_, hfinalized, _, hverify⟩ := ProjectionStore.checkProof_eq_ok.mp hc.proof
          refine ⟨?_, (h.sound hadapter).evident hprofile hc, ?_⟩
          · rw [hadapter] at hfinalized
            exact hfinalized
          · intro hreads
            rw [hprofile, hadapter] at hverify
            obtain ⟨root, hroot⟩ := KitProfile.root_of_verify hreads hverify
            exact ⟨root, hroot, h.recorded hroot⟩
      | _ => cases hx

/-! ## Every run -/

/-- The entries of a store are what was admitted, all of it still proved. -/
structure Admitted (o : StoreConfig EthereumChain) (profile : KitProfile) (log : List Admission)
    (s : RefreshedStore) : Prop where
  entries : ∀ tokenId, (s.store.entries tokenId).map (fun e => e.toCandidateEntry) =
    ProjectionStore.candidatesOf tokenId log
  proved : ∀ x ∈ log, StillProved o profile s x

theorem Admitted.initial (journal : JournalContent) :
    Admitted o profile [] (RefreshedStore.initial journal) :=
  ⟨fun _ => rfl, List.forall_mem_nil _⟩

theorem step_entries (h : s.store.Valid) (event : RefreshedEvent) (tokenId : Int) :
    ((s.step o event).store.entries tokenId).map (fun e => e.toCandidateEntry) =
      (s.store.entries tokenId).map (fun e => e.toCandidateEntry) ++
        ProjectionStore.candidatesOf tokenId (s.admits o event) := by
  cases event with
  | refresh => exact (List.append_nil _).symm
  | reply i reply => exact (List.append_nil _).symm
  | serve call hcall => exact h.step_candidates call tokenId

theorem Admitted.step {log : List Admission} (h : Admitted o profile log s)
    (hadapter : o.adapter = EthereumChain.adapter options)
    (hprofile : o.profile = profile.withAdapter o.adapter) (hs : s.Following)
    (event : RefreshedEvent) :
    Admitted o profile (log ++ s.admits o event) (s.step o event) := by
  obtain ⟨hafter, hkeeps⟩ := hs.step hadapter event
  constructor
  · intro tokenId
    rw [step_entries hs.valid, h.entries tokenId, ← ProjectionStore.candidatesOf_append]
  · intro x hx
    rcases List.mem_append.mp hx with hpast | hnew
    · exact (h.proved x hpast).keeps hafter hkeeps
    · exact (hs.proved hadapter hprofile event x hnew).keeps hafter hkeeps

/-- However the refreshes of the adapter overlap with the calls of the store, and whatever the
remote node replies: the entries of each token are the candidates admitted for it, and each is
still proved by what the adapter reports. -/
theorem run_still_proved (options : EthereumChain.Options) (profile : KitProfile)
    (registerId verificationProfile : Bytes32) (journal : JournalContent)
    (events : List RefreshedEvent) :
    let o := refreshedConfig options profile registerId verificationProfile
    Admitted o profile (EventSourcing.log (step o) (admits o) (initial journal) events)
      (LabelledRun.run (step o) (initial journal) events) := by
  intro o
  have hrun := EventSourcing.log_invariant (step o) (admits o) Following (Admitted o profile)
    (fun _ event hs => (hs.step rfl event).1)
    (fun _ _ event hs hpast => hpast.step rfl rfl hs event)
    (Following.initial journal) (Admitted.initial journal) events
  rwa [List.nil_append] at hrun

end RefreshedStore

end Erc8415
