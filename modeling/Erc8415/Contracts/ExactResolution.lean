import Erc8415.Contracts.RegisterHistory
import Erc8415.Projection.Atomicity
import Erc8415.Projection.ExactResolution

/-! # Exact temporal answers on chain

The register contract answers every uint64 instant exactly, over any storage its
two entry points leave, whoever calls them. With the kernel's answers this is
one statement about both.
-/

namespace Erc8415.Contracts

namespace RegisterProjection

/-- A call of one of the two entry points. -/
inductive Call where
  | initializeEntry (sender : Address) (tokenId : Uint256)
      (recordCommitment registryReference : Bytes32) (holder : Address) (effectiveAt : Uint64)
  | admitEntry (sender : Address) (tokenId : Uint256) (presented : Presented)

def perform (d : RegisterDeployment) (s : RegisterProjection) :
    Call → Except Revert RegisterProjection
  | .initializeEntry sender tokenId recordCommitment registryReference holder effectiveAt =>
      s.initializeEntry d sender tokenId recordCommitment registryReference holder effectiveAt
  | .admitEntry sender tokenId p =>
      s.admitEntry d sender tokenId p.recordCommitment p.previousCommitment p.registryReference
        p.holder p.effectiveAt

/-- The storage after a call. A revert restores it. -/
def step (d : RegisterDeployment) (s : RegisterProjection) (call : Call) : RegisterProjection :=
  match s.perform d call with
  | .ok s' => s'
  | .error _ => s

/-- The storage a list of calls leaves. -/
def after (d : RegisterDeployment) (calls : List Call) : RegisterProjection :=
  LabelledRun.run (step d) deployed calls

theorem Valid.step {d : RegisterDeployment} {s : RegisterProjection} (h : s.Valid) (call : Call) :
    (s.step d call).Valid := by
  unfold RegisterProjection.step
  split
  next s' heq =>
    cases call with
    | initializeEntry sender tokenId recordCommitment registryReference holder effectiveAt =>
        obtain ⟨_, _, _, hc, rfl⟩ := initializeEntry_eq_ok.mp heq
        exact h.push hc
    | admitEntry sender tokenId p =>
        obtain ⟨_, _, _, hc, rfl⟩ := h.admitEntry_eq_ok.mp heq
        exact h.push hc
  next => exact h

theorem valid_after (d : RegisterDeployment) (calls : List Call) : (after d calls).Valid :=
  LabelledRun.run_invariant (step d) Valid (fun _ call h => h.step call) .deployed calls

/-- What a read returned. -/
def returned {α : Type} : Except Revert α → Option α
  | .ok a => some a
  | .error _ => none

/-- The register answers an instant, and exactly. -/
structure Exact (s : RegisterProjection) (tokenId : Uint256) (instant : Uint64) : Prop where
  /-- The search ends, with an entry or with the one revert. -/
  ends : (∃ e, s.entryAsOf tokenId instant = .ok e) ∨
    s.entryAsOf tokenId instant = .error (.register .noEntryAsOf)
  answer : AnswersExactly (fun e : RegisterEntry => (e.effectiveAt.toNat : Int))
    (fun e => (e.supersededAt.toNat : Int)) (s.entries tokenId) instant.toNat
    (returned (s.entryAsOf tokenId instant)) (s.isFinalAsOf tokenId instant = true)

/-- Where the history resolves no instant, the read reverts before it searches. -/
theorem Valid.entryAsOf_uncovered {s : RegisterProjection} (h : s.Valid) {tokenId : Uint256}
    {instant : Uint64} (hnone : resolve (s.history tokenId) instant.toNat = none) :
    s.entryAsOf tokenId instant = .error (.register .noEntryAsOf) := by
  have hcovered := ((h.history tokenId).answersExactly instant.toNat).covered
  rw [hnone, history_head?] at hcovered
  unfold RegisterProjection.entryAsOf
  cases hhead : (s.entries tokenId).head? with
  | none => rfl
  | some first =>
      have hearly : instant < first.effectiveAt := by
        rw [← BitVec.not_le]
        intro hle
        have hle : (first.effectiveAt.toNat : Int) ≤ instant.toNat := Int.ofNat_le.mpr hle
        have hsome := hcovered.mpr ⟨first.projected, by rw [hhead]; rfl, hle⟩
        cases hsome
      simp only [hearly, if_true]

/-- Every entry the history resolves to is one the register holds. -/
theorem exists_projected {s : RegisterProjection} {tokenId : Uint256} {instant : Int}
    {e : ProjectionEntry} (he : resolve (s.history tokenId) instant = some e) :
    ∃ e' : RegisterEntry, e'.projected = e := by
  obtain ⟨n, _, hget⟩ := resolve_eq_some.mp he
  rw [history_getElem?] at hget
  obtain ⟨e', _, heq⟩ := Option.map_eq_some_iff.mp hget
  exact ⟨e', heq⟩

theorem Valid.exact {s : RegisterProjection} (h : s.Valid) (tokenId : Uint256)
    (instant : Uint64) : s.Exact tokenId instant := by
  have hview : Function.Injective RegisterEntry.projected :=
    fun _ _ heq => RegisterEntry.projected_inj.mp heq
  have hexact := (h.history tokenId).answersExactly instant.toNat
  rw [← h.isFinalAsOf_iff] at hexact
  cases hresolve : resolve (s.history tokenId) instant.toNat with
  | none =>
      have hreverts := h.entryAsOf_uncovered hresolve
      refine ⟨Or.inr hreverts, ?_⟩
      rw [hresolve] at hexact
      rw [hreverts]
      exact AnswersExactly.of_map hview (s.entries tokenId) none hexact
  | some e =>
      obtain ⟨e', rfl⟩ := exists_projected hresolve
      have hreturns := h.entryAsOf_eq_ok.mpr hresolve
      refine ⟨Or.inl ⟨e', hreturns⟩, ?_⟩
      rw [hresolve] at hexact
      rw [hreturns]
      exact AnswersExactly.of_map hview (s.entries tokenId) (some e') hexact

end RegisterProjection

/-- The kernel below the bound of its midpoint and the register contract answer every instant
exactly, whatever they have been shown. -/
theorem temporal_answers_exact :
    (∀ candidates : List JsValue,
      (TokenProjection.admissions candidates).entries.length < searchBound →
        ∀ instant : Int, (TokenProjection.admissions candidates).Exact instant) ∧
    ∀ (d : RegisterDeployment) (calls : List RegisterProjection.Call) (tokenId : Uint256)
      (instant : Uint64), (RegisterProjection.after d calls).Exact tokenId instant := by
  refine ⟨?_, ?_⟩
  · intro candidates hbound instant
    exact (TokenProjection.valid_admissions candidates).exact hbound instant
  · intro d calls tokenId instant
    exact (RegisterProjection.valid_after d calls).exact tokenId instant

open ProjectionStore (firstCandidate secondCandidate firstCandidate_shaped secondCandidate_shaped
  word)

def thirdCandidate : CandidateEntry :=
  { secondCandidate with
    recordCommitment := word '3', previousCommitment := word '2', version := 3,
    effectiveAt := 300 }

def threeCandidates : List JsValue :=
  [firstCandidate.toJs, secondCandidate.toJs, thirdCandidate.toJs]

theorem threeCandidates_entries : (TokenProjection.admissions threeCandidates).entries =
    [{ firstCandidate with supersededAt := 200 }, { secondCandidate with supersededAt := 300 },
      { thirdCandidate with supersededAt := 0 }] := by
  have hfirst : Follows TokenProjection.empty.entries firstCandidate :=
    ⟨firstCandidate_shaped, rfl, rfl, (fun e he => by cases he), by decide⟩
  have hvalid := TokenProjection.Valid.empty.append hfirst
  have hsecond : Follows (TokenProjection.empty.append firstCandidate).entries secondCandidate :=
    ⟨secondCandidate_shaped, rfl, rfl, (fun e he => by cases he; decide), by decide⟩
  have hvalid' := hvalid.append hsecond
  have hthird : Follows ((TokenProjection.empty.append firstCandidate).append
      secondCandidate).entries thirdCandidate :=
    ⟨by constructor <;> decide, rfl, rfl, (fun e he => by cases he; decide), by decide⟩
  rw [TokenProjection.admissions, threeCandidates, LabelledRun.run_cons, LabelledRun.run_cons,
    LabelledRun.run_cons, LabelledRun.run_nil, TokenProjection.Valid.empty.step_toJs hfirst,
    hvalid.step_toJs hsecond, hvalid'.step_toJs hthird]
  rfl

/-- Three entries, asked about an instant before the last and one after it. -/
theorem temporal_answers_exact_third :
    let projection := TokenProjection.admissions threeCandidates
    projection.entries.length = 3 ∧
      projection.entryAsOf 250 = some (.ok { secondCandidate with supersededAt := 300 }) ∧
      projection.isFinalAsOf 250 = true ∧ projection.isFinalAsOf 350 = false ∧
      projection.Exact 250 ∧ projection.Exact 350 := by
  have hentries := threeCandidates_entries
  have hexact := temporal_answers_exact.1 threeCandidates
  generalize TokenProjection.admissions threeCandidates = projection at hentries hexact ⊢
  have hlength : projection.entries.length = 3 := by
    rw [hentries]
    rfl
  have hcovered := hexact (hlength.trans_lt (by decide))
  refine ⟨hlength, ?_, ?_, ?_, hcovered 250, hcovered 350⟩
  · rw [TokenProjection.entryAsOf, hentries]
    rfl
  · rw [TokenProjection.isFinalAsOf, hentries]
    decide
  · rw [TokenProjection.isFinalAsOf, hentries]
    decide

end Erc8415.Contracts
