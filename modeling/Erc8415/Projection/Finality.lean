import Erc8415.Adapters.MemoryChain
import Erc8415.Projection.Resolution
import Erc8415.Projection.StoreInvariant

/-! # Finality over runs

A call moves the history of one token only when it admits an entry for that
token, and then by extending it. Permanence of a final instant follows: an
extension preserves it, and so does every run.
-/

namespace Erc8415

namespace ProjectionStore

variable {σ : Type} {o : StoreConfig σ} {s t u : ProjectionStore σ}

/-- The call is an admission for the token and returns the result. -/
def Admits (o : StoreConfig σ) (s : ProjectionStore σ) (call : StoreCall σ) (tokenId : Int)
    (result : AdmissionResult) : Prop :=
  ∃ candidate material now append,
    call = .mutate (.admitEntry tokenId candidate material now) append ∧
    (s.admitEntry o tokenId candidate material now append).2 = .ok result

/-! ## What a call does to the history of a token -/

@[simp] theorem admitted_projections (s : ProjectionStore σ) (tokenId : Int) (c : CandidateEntry)
    (remoteHeight : Int) (adapter : σ) :
    (s.admitted tokenId c remoteHeight adapter).projections =
      s.projections.set (key tokenId) ((s.projectionOf tokenId).append c) := by
  simp [admitted]

@[simp] theorem admitted_entries (s : ProjectionStore σ) (tokenId : Int) (c : CandidateEntry)
    (remoteHeight : Int) (adapter : σ) :
    (s.admitted tokenId c remoteHeight adapter).entries tokenId =
      extend (s.entries tokenId) c := by
  rw [← projectionOf_entries s, ← TokenProjection.append_entries]
  simp [entries]

theorem admitted_entries_of_ne (s : ProjectionStore σ) {tokenId other : Int} (hne : other ≠ tokenId)
    (c : CandidateEntry) (remoteHeight : Int) (adapter : σ) :
    (s.admitted tokenId c remoteHeight adapter).entries other = s.entries other := by
  unfold entries
  rw [admitted_projections, InsertionMap.get_set_of_ne (mt key_inj.mp hne.symm)]

/-- An admission that returns has extended the token's entries by the entry it
returns. -/
theorem Valid.admits (h : s.Valid) {call : StoreCall σ} {tokenId : Int}
    {result : AdmissionResult} (hadmits : Admits o s call tokenId result) :
    ∃ c, Follows (s.entries tokenId) c ∧ result.entry = { c with supersededAt := 0 } ∧
      (s.step o call).entries tokenId = extend (s.entries tokenId) c := by
  obtain ⟨candidate, material, now, append, rfl, hok⟩ := hadmits
  have heffect := perform_effect (o := o) h append (.admitEntry tokenId candidate material now)
  simp only [ProjectionStore.step, perform, hok, Except.map] at heffect ⊢
  generalize (s.admitEntry o tokenId candidate material now append).1 = after at heffect ⊢
  cases heffect with
  | admitted hc hadvance => exact ⟨_, hc.follows, rfl, admitted_entries s _ _ _ _⟩

/-- A call either admits an entry for the token or leaves its projection as it
was: gap calls, refusals, failed appends, and calls on other tokens. -/
theorem Valid.step_projections_get (h : s.Valid) (call : StoreCall σ) (tokenId : Int) :
    (∃ result, Admits o s call tokenId result) ∨
      (s.step o call).projections.get (key tokenId) = s.projections.get (key tokenId) := by
  cases call with
  | adapterMoves adapter => exact Or.inr rfl
  | mutate m append =>
      have heffect := perform_effect (o := o) h append m
      simp only [ProjectionStore.step]
      generalize hperform : s.perform o append m = done at heffect ⊢
      obtain ⟨after, answer⟩ := done
      cases heffect with
      | @admitted target candidate material now c adapter hc hadvance =>
          by_cases htarget : target = tokenId
          · subst htarget
            left
            have hanswer := congrArg Prod.snd hperform
            cases hadmit : (s.admitEntry o target candidate material now none).2 with
            | error thrown => simp [perform, hadmit, Except.map] at hanswer
            | ok result => exact ⟨result, candidate, material, now, none, rfl, hadmit⟩
          · right
            change (s.admitted target c material.remoteHeight adapter).projections.get _ = _
            rw [admitted_projections]
            exact InsertionMap.get_set_of_ne (mt key_inj.mp htarget)
      | _ => exact Or.inr rfl

/-! ## Reading a token -/

/-- The answers about one token, which depend on its projection alone. -/
structure SameReads (s t : ProjectionStore σ) (tokenId : Int) : Prop where
  entryAsOf : ∀ instant, t.entryAsOf tokenId instant = s.entryAsOf tokenId instant
  holderAsOf : ∀ instant, t.holderAsOf tokenId instant = s.holderAsOf tokenId instant
  isFinalAsOf : ∀ instant, t.isFinalAsOf tokenId instant = s.isFinalAsOf tokenId instant
  entryAt : ∀ version, t.entryAt tokenId version = s.entryAt tokenId version
  entryCount : t.entryCount tokenId = s.entryCount tokenId

theorem SameReads.of_projections {tokenId : Int}
    (h : t.projections.get (key tokenId) = s.projections.get (key tokenId)) :
    SameReads s t tokenId where
  entryAsOf instant := by simp only [ProjectionStore.entryAsOf, ask, requireProjection, h]
  holderAsOf instant := by simp only [ProjectionStore.holderAsOf, ask, requireProjection, h]
  isFinalAsOf instant := by simp only [ProjectionStore.isFinalAsOf, h]
  entryAt version := by simp only [ProjectionStore.entryAt, ask, requireProjection, h]
  entryCount := by simp only [ProjectionStore.entryCount, h]

theorem entryCount_eq (s : ProjectionStore σ) (tokenId : Int) :
    s.entryCount tokenId = (s.entries tokenId).length := by
  unfold entryCount entries
  cases s.projections.get (key tokenId) <;> rfl

theorem Valid.isFinalAsOf_iff (h : s.Valid) (tokenId instant : Int) :
    s.isFinalAsOf tokenId instant = true ↔ Final (s.entries tokenId) instant := by
  unfold isFinalAsOf entries
  cases hget : s.projections.get (key tokenId) with
  | none => simp [Final]
  | some p => exact TokenProjection.isFinalAsOf_iff (h.projections _ p hget).1.history instant

/-- Below the bound `entryAsOf` returns what the history resolves to. -/
theorem Valid.entryAsOf_eq_ok (h : s.Valid) {tokenId instant : Int} {e : ProjectionEntry}
    (hbound : s.entryCount tokenId < searchBound) :
    s.entryAsOf tokenId instant = some (.ok e) ↔ resolve (s.entries tokenId) instant = some e := by
  unfold entryAsOf ask requireProjection
  unfold entryCount at hbound
  unfold entries
  cases hget : s.projections.get (key tokenId) with
  | none => simp [reject, resolve, times, AscendingSearch.position]
  | some p =>
      rw [hget] at hbound
      simp only [TokenProjection.entryAsOf_eq (h.projections _ p hget).1.history hbound instant]
      cases resolve p.entries instant <;> simp [reject]

theorem holderAsOf_eq (s : ProjectionStore σ) (tokenId instant : Int) :
    s.holderAsOf tokenId instant =
      (s.entryAsOf tokenId instant).map fun answer => answer.map fun e => e.holder := by
  unfold holderAsOf entryAsOf ask
  cases s.requireProjection tokenId <;> rfl

/-! ## Permanence -/

/-- What no run takes back: the history only grows, and an instant that is final
stays final and keeps its entry. -/
structure Settles (tokenId instant : Int) (s t : ProjectionStore σ) : Prop where
  grows : (s.entries tokenId).length ≤ (t.entries tokenId).length
  final : Final (s.entries tokenId) instant → Final (t.entries tokenId) instant ∧
    resolve (t.entries tokenId) instant = resolve (s.entries tokenId) instant

theorem Settles.refl (tokenId instant : Int) (s : ProjectionStore σ) :
    Settles tokenId instant s s :=
  ⟨Nat.le_refl _, fun hfinal => ⟨hfinal, rfl⟩⟩

theorem Settles.trans {tokenId instant : Int} (hst : Settles tokenId instant s t)
    (htu : Settles tokenId instant t u) : Settles tokenId instant s u where
  grows := Nat.le_trans hst.grows htu.grows
  final hfinal := by
    obtain ⟨hfinal', hresolve⟩ := hst.final hfinal
    obtain ⟨hfinal'', hresolve'⟩ := htu.final hfinal'
    exact ⟨hfinal'', hresolve'.trans hresolve⟩

theorem Valid.step_settles (h : s.Valid) (tokenId instant : Int) (call : StoreCall σ) :
    Settles tokenId instant s (s.step o call) := by
  rcases h.step_projections_get (o := o) call tokenId with ⟨result, hadmits⟩ | hsame
  · obtain ⟨c, hc, _, hentries⟩ := h.admits hadmits
    refine ⟨by rw [hentries, length_extend]; omega, fun hfinal => ?_⟩
    rw [hentries]
    exact ⟨hfinal.extend, resolve_extend_of_final (h.isHistory tokenId) hc hfinal⟩
  · have hentries : (s.step o call).entries tokenId = s.entries tokenId := by
      unfold entries
      rw [hsame]
    refine ⟨by rw [hentries], fun hfinal => ?_⟩
    rw [hentries]
    exact ⟨hfinal, rfl⟩

theorem Valid.run_settles (h : s.Valid) (tokenId instant : Int) (calls : List (StoreCall σ)) :
    Settles tokenId instant s (LabelledRun.run (ProjectionStore.step o) s calls) :=
  LabelledRun.run_relates (ProjectionStore.step o) ProjectionStore.Valid
    (Settles tokenId instant) (Settles.refl tokenId instant)
    (fun _ _ _ hst htu => hst.trans htu) (fun _ call hs => hs.step call)
    (fun _ call hs => hs.step_settles tokenId instant call) h calls

/-- What an admission of `e` does to the answer at a covered instant that was not
final: an entry effective by then takes over, and a later one only closes the
answer's interval, which makes the instant final. -/
structure Moves (s t : ProjectionStore σ) (tokenId instant : Int) (answer e : ProjectionEntry) :
    Prop where
  takes_over : e.effectiveAt ≤ instant → t.entryAsOf tokenId instant = some (.ok e)
  closes : instant < e.effectiveAt →
    t.entryAsOf tokenId instant = some (.ok { answer with supersededAt := e.effectiveAt }) ∧
      t.holderAsOf tokenId instant = s.holderAsOf tokenId instant ∧
      t.isFinalAsOf tokenId instant = true

theorem Valid.admits_moves (h : s.Valid) {call : StoreCall σ} {tokenId instant : Int}
    {result : AdmissionResult} {answer : ProjectionEntry} (hadmits : Admits o s call tokenId result)
    (hbound : (s.step o call).entryCount tokenId < searchBound)
    (hanswer : s.entryAsOf tokenId instant = some (.ok answer))
    (hfinal : s.isFinalAsOf tokenId instant = false) :
    Moves s (s.step o call) tokenId instant answer result.entry := by
  have h' := h.step (o := o) call
  obtain ⟨c, hc, hentry, hentries⟩ := h.admits hadmits
  have hgrows := (h.step_settles (o := o) tokenId instant call).grows
  have hbound' : s.entryCount tokenId < searchBound := by
    rw [entryCount_eq] at hbound ⊢
    omega
  have hresolve := (h.entryAsOf_eq_ok hbound').mp hanswer
  have hnot : ¬ Final (s.entries tokenId) instant := by
    rw [← h.isFinalAsOf_iff, hfinal]
    simp
  have hread := fun e => @Valid.entryAsOf_eq_ok σ _ h' tokenId instant e hbound
  rw [hentries] at hread
  rw [hentry]
  refine ⟨fun hle => (hread _).mpr (resolve_extend_of_le hresolve hnot hle), fun hlt => ?_⟩
  obtain ⟨hclosed, hsettled⟩ := resolve_extend_of_lt hresolve hnot hlt
  have hafter := (hread _).mpr hclosed
  refine ⟨hafter, by rw [holderAsOf_eq, holderAsOf_eq, hafter, hanswer]; rfl, ?_⟩
  rw [h'.isFinalAsOf_iff, hentries]
  exact hsettled

/-- Finality over runs: a final instant stays final with the same entry, a
covered instant that is not final is moved by every admission for its token, and
a call that admits nothing for a token changes no answer about it. -/
theorem run_finality (o : StoreConfig σ) (adapter : σ) (journal : JournalContent)
    (calls : List (StoreCall σ)) (tokenId : Int) :
    let s := LabelledRun.run (step o) (initial adapter journal) calls
    (∀ later instant, (LabelledRun.run (step o) s later).entryCount tokenId < searchBound →
      s.isFinalAsOf tokenId instant = true →
        (LabelledRun.run (step o) s later).isFinalAsOf tokenId instant = true ∧
        ∃ e, s.entryAsOf tokenId instant = some (.ok e) ∧
          (LabelledRun.run (step o) s later).entryAsOf tokenId instant = some (.ok e)) ∧
    (∀ call result instant answer, Admits o s call tokenId result →
      (s.step o call).entryCount tokenId < searchBound →
      s.entryAsOf tokenId instant = some (.ok answer) →
      s.isFinalAsOf tokenId instant = false →
        Moves s (s.step o call) tokenId instant answer result.entry) ∧
    (∀ call, (∀ result, ¬ Admits o s call tokenId result) →
      SameReads s (s.step o call) tokenId) := by
  have h := (Valid.initial adapter journal).run (o := o) calls
  generalize LabelledRun.run (step o) (initial adapter journal) calls = s at h
  refine ⟨fun later instant hbound hfinal => ?_,
    fun call result instant answer hadmits hbound hanswer hfinal => ?_, fun call hnot => ?_⟩
  · have h' := h.run (o := o) later
    have hsettles := h.run_settles (o := o) tokenId instant later
    -- Histories only grow, so the earlier one is within the search's bound too.
    have hbound' : s.entryCount tokenId < searchBound := by
      have := hsettles.grows
      rw [entryCount_eq] at hbound ⊢
      omega
    have hfinal := (h.isFinalAsOf_iff tokenId instant).mp hfinal
    obtain ⟨hfinal', hresolve⟩ := hsettles.final hfinal
    obtain ⟨e, he⟩ := hfinal.exists_resolve
    exact ⟨(h'.isFinalAsOf_iff tokenId instant).mpr hfinal', e,
      (h.entryAsOf_eq_ok hbound').mpr he, (h'.entryAsOf_eq_ok hbound).mpr (hresolve.trans he)⟩
  · exact h.admits_moves hadmits hbound hanswer hfinal
  · rcases h.step_projections_get (o := o) call tokenId with ⟨result, hadmits⟩ | hsame
    · exact absurd hadmits (hnot result)
    · exact SameReads.of_projections hsame

/-! ### Two entries -/

/-- A bytes32 of one digit. -/
def word (digit : Char) : Bytes32 := String.ofList ('0' :: 'x' :: List.replicate 64 digit)

def firstCandidate : CandidateEntry where
  recordCommitment := word '1'
  previousCommitment := zeroBytes32
  registryReference := word 'a'
  holder := String.ofList ('0' :: 'x' :: List.replicate 40 'b')
  version := 1
  effectiveAt := 100

def secondCandidate : CandidateEntry :=
  { firstCandidate with
    recordCommitment := word '2', previousCommitment := word '1', version := 2,
    effectiveAt := 200 }

theorem firstCandidate_shaped : firstCandidate.Shaped := by constructor <;> decide

theorem secondCandidate_shaped : secondCandidate.Shaped := by constructor <;> decide

def firstGap : GapRequest :=
  ⟨word '5', zeroAddress, firstCandidate.holder, word '6', 50, 200⟩

/-- A verifier that admits whatever it is asked about. -/
def trusting (σ : Type) : ProofProfile σ := ⟨"trusting", fun _ _ _ _ => .admitted⟩

def memoryConfig : StoreConfig MemoryChain :=
  ⟨word '7', word '8', trusting MemoryChain, MemoryChain.adapter {}⟩

/-- The first entry of token 1, and the same again, which is refused. -/
def firstCalls : List (StoreCall MemoryChain) :=
  [.mutate (.admitEntry 1 firstCandidate.toJs ⟨"trusting", 5, .null⟩ 150) none,
    .mutate (.admitEntry 1 firstCandidate.toJs ⟨"trusting", 6, .null⟩ 150) none]

def secondCall : StoreCall MemoryChain :=
  .mutate (.admitEntry 1 secondCandidate.toJs ⟨"trusting", 10, .null⟩ 250) none

/-- An opening that the journal does not take, and a call the store then refuses. -/
def diskFull : List (StoreCall MemoryChain) :=
  [.mutate (.openGap 1 firstGap) (some (.error "disk full")), .mutate (.cancelGap 1) none]

theorem run_finality_second :
    let fresh := initial (MemoryChain.new {}) JournalContent.empty
    let first := LabelledRun.run (step memoryConfig) fresh firstCalls
    let second := LabelledRun.run (step memoryConfig) fresh (firstCalls ++ [secondCall])
    let later := LabelledRun.run (step memoryConfig) second diskFull
    let answer : ProjectionEntry := { firstCandidate with supersededAt := 0 }
    let entry : ProjectionEntry := { secondCandidate with supersededAt := 0 }
    (first.entryCount 1 = 1 ∧ second.entryCount 1 = 2 ∧ later.poisoned = some "disk full") ∧
      Moves first second 1 150 answer entry ∧ Moves first second 1 250 answer entry ∧
      (later.isFinalAsOf 1 150 = true ∧ ∃ e, second.entryAsOf 1 150 = some (.ok e) ∧
        later.entryAsOf 1 150 = some (.ok e)) ∧
      SameReads second (second.step memoryConfig (.mutate (.openGap 1 firstGap)
        (some (.error "disk full")))) 1 := by
  intro fresh first second later answer entry
  obtain ⟨_, hmoves, _⟩ :=
    run_finality memoryConfig (MemoryChain.new {}) JournalContent.empty firstCalls 1
  obtain ⟨hkept, _, hsame⟩ := run_finality memoryConfig (MemoryChain.new {}) JournalContent.empty
    (firstCalls ++ [secondCall]) 1
  have hadmits : Admits memoryConfig first secondCall 1 ⟨entry, false, 10⟩ :=
    ⟨_, _, _, _, rfl, by decide⟩
  refine ⟨by decide, ?_, ?_, ?_, ?_⟩
  · exact hmoves secondCall _ 150 answer hadmits (by decide) (by decide) (by decide)
  · exact hmoves secondCall _ 250 answer hadmits (by decide) (by decide) (by decide)
  · exact hkept diskFull 150 (by decide) (by decide)
  · refine hsame _ ?_
    rintro result ⟨candidate, material, now, append, heq, _⟩
    cases heq

end ProjectionStore

end Erc8415
