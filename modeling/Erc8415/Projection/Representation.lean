import Erc8415.Projection.StoreInvariant

/-! # The representation invariant

The three private structures of every token describe one history in every
state a run of calls reaches, and the incremental checks of admission accept
exactly the candidates that keep it so.
-/

namespace Erc8415

namespace ProjectionStore

variable {σ : Type} {o : StoreConfig σ} {s : ProjectionStore σ}

/-- What the structures of one token hold, and what they accept next. -/
structure Represented (s : ProjectionStore σ) (tokenId : Int) : Prop where
  versions : (s.entries tokenId).map (fun e => e.version) =
    (List.range (s.entries tokenId).length).map fun (i : Nat) => (i : Int) + 1
  genesis : ∀ e, (s.entries tokenId).head? = some e → e.previousCommitment = zeroBytes32
  linkage : ∀ (i : Nat) e next, (s.entries tokenId)[i]? = some e →
    (s.entries tokenId)[i + 1]? = some next → next.previousCommitment = e.recordCommitment
  ascending : ((s.entries tokenId).map fun e => e.effectiveAt).Pairwise (· < ·)
  nonzero : ∀ e ∈ s.entries tokenId, e.recordCommitment ≠ zeroBytes32
  distinct : ((s.entries tokenId).map fun e => e.recordCommitment).Nodup
  superseded : ∀ (i : Nat) e next, (s.entries tokenId)[i]? = some e →
    (s.entries tokenId)[i + 1]? = some next → e.supersededAt = next.effectiveAt
  superseded_zero : ∀ (i : Nat) e, (s.entries tokenId)[i]? = some e →
    (e.supersededAt = 0 ↔ i + 1 = (s.entries tokenId).length)
  commitments : ∀ c, c ∈ (s.projectionOf tokenId).commitments ↔
    c ∈ (s.entries tokenId).map fun e => e.recordCommitment
  byVersion : ∀ (v : String) (index : Nat),
    (s.projectionOf tokenId).byVersion.get v = some index ↔
      index < (s.entries tokenId).length ∧ v = toString ((index : Int) + 1)
  entryAt : ∀ version e, s.entryAt tokenId version = some (.ok e) ↔
    e ∈ s.entries tokenId ∧ e.version = version
  entryAt_covers : ∀ version, (∃ e, s.entryAt tokenId version = some (.ok e)) ↔
    1 ≤ version ∧ version ≤ (s.entries tokenId).length
  /-- The kernel accepts a candidate of valid shape exactly when it follows. -/
  accepts : ∀ argument c, validateCandidateShape argument = .ok c →
    ((∃ r, (s.projectionOf tokenId).admitEntry argument = .ok r) ↔ Follows (s.entries tokenId) c)
  /-- And it follows exactly when the longer list of entries is a history again. -/
  extends_iff : ∀ c, IsHistory (extend (s.entries tokenId) c) ↔ Follows (s.entries tokenId) c

theorem Valid.entryAt_eq_ok (h : s.Valid) {tokenId version : Int} {e : ProjectionEntry} :
    s.entryAt tokenId version = some (.ok e) ↔ e ∈ s.entries tokenId ∧ e.version = version := by
  unfold ProjectionStore.entryAt ask requireProjection entries
  cases hget : s.projections.get (key tokenId) with
  | none => simp [reject]
  | some p => exact TokenProjection.entryAt_eq_ok (h.projections _ p hget).1

theorem Valid.represented (h : s.Valid) (tokenId : Int) : s.Represented tokenId where
  versions := (h.isHistory tokenId).versions
  genesis e he := (h.isHistory tokenId).genesis e (by rw [← List.head?_eq_getElem?]; exact he)
  linkage := (h.isHistory tokenId).linkage
  ascending := (h.isHistory tokenId).ascending
  nonzero e he := ((h.isHistory tokenId).shaped e he).recordCommitment_ne_zero
  distinct := (h.isHistory tokenId).distinct
  superseded i e next he hnext := by
    rw [(h.isHistory tokenId).superseded i e he, supersession, hnext]
  superseded_zero i e he := (h.isHistory tokenId).superseded_eq_zero_iff he
  commitments c := by
    rw [← projectionOf_entries]
    exact (h.projectionOf tokenId).commitments c
  byVersion v index := by
    rw [← projectionOf_entries]
    exact (h.projectionOf tokenId).byVersion v index
  entryAt _ _ := h.entryAt_eq_ok
  entryAt_covers version := by
    simp only [h.entryAt_eq_ok]
    exact (h.isHistory tokenId).exists_version version
  accepts argument c hshape := by
    constructor
    · rintro ⟨⟨p', entry⟩, hadmit⟩
      obtain ⟨c', hshape', hc, _⟩ :=
        (TokenProjection.admit_eq_ok (h.projectionOf tokenId)).mp hadmit
      rw [hshape] at hshape'
      cases hshape'
      rwa [projectionOf_entries] at hc
    · intro hc
      exact ⟨_, (TokenProjection.admit_eq_ok (h.projectionOf tokenId)).mpr
        ⟨c, hshape, by rwa [projectionOf_entries], rfl, rfl⟩⟩
  extends_iff c := isHistory_extend_iff (h.isHistory tokenId)

/-- A map key reads back as the token it stands for. -/
theorem parse_key (tokenId : Int) : BigIntText.parse (key tokenId) = some tokenId :=
  BigIntText.parse_toString tokenId

theorem mapM_parse_keys (ks : List String) (hks : ∀ k ∈ ks, ∃ t, k = key t) :
    ∃ ids, ks.mapM BigIntText.parse = some ids ∧ ids.map key = ks := by
  induction ks with
  | nil => exact ⟨[], rfl, rfl⟩
  | cons k rest ih =>
      obtain ⟨t, rfl⟩ := hks k (List.mem_cons_self)
      obtain ⟨ids, hids, hkeys⟩ := ih fun k hk => hks k (List.mem_cons_of_mem _ hk)
      exact ⟨t :: ids, by simp [List.mapM_cons, parse_key, hids], by rw [List.map_cons, hkeys]⟩

/-- The token list is exactly the tokens that have an entry, each once. -/
theorem Valid.tokens (h : s.Valid) :
    ∃ ids, s.tokens = some ids ∧ ids.Nodup ∧ ∀ t, t ∈ ids ↔ s.entries t ≠ [] := by
  obtain ⟨ids, hids, hkeys⟩ := mapM_parse_keys s.projections.keys fun k hk => by
    obtain ⟨p, hp⟩ := (InsertionMap.mem_keys _ _).mp hk
    exact (h.projections k p hp).2.2
  refine ⟨ids.mergeSort (· ≤ ·), by simp [ProjectionStore.tokens, hids], ?_, fun t => ?_⟩
  · apply (List.mergeSort_perm ids _).nodup_iff.mpr
    apply List.Nodup.of_map key
    rw [hkeys]
    exact s.projections.nodup
  have hmem : t ∈ ids ↔ key t ∈ s.projections.keys := by
    rw [← hkeys, List.mem_map]
    simp only [key_inj, exists_eq_right]
  rw [List.mem_mergeSort, hmem, InsertionMap.mem_keys]
  unfold entries
  constructor
  · rintro ⟨p, hp⟩
    rw [hp]
    exact (h.projections _ p hp).2.1
  · intro hne
    cases hget : s.projections.get (key t) with
    | none => simp [hget] at hne
    | some p => exact ⟨p, rfl⟩

/-- Every state a run of calls reaches from a new store represents a history
for every token, and lists only tokens that have an entry. -/
theorem run_represented (o : StoreConfig σ) (adapter : σ) (journal : JournalContent)
    (calls : List (StoreCall σ)) :
    let s := LabelledRun.run (step o) (initial adapter journal) calls
    (∀ tokenId, s.Represented tokenId) ∧
      ∃ ids, s.tokens = some ids ∧ ∀ tokenId ∈ ids, s.entries tokenId ≠ [] := by
  have h := (Valid.initial adapter journal).run (o := o) calls
  obtain ⟨ids, hids, _, hmem⟩ := h.tokens
  exact ⟨h.represented, ids, hids, fun tokenId => (hmem tokenId).mp⟩

end ProjectionStore

end Erc8415
