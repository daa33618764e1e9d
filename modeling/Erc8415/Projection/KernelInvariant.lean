import Mathlib.Data.Finset.Basic
import Erc8415.Projection.History

/-! # The kernel keeps a history

The three private structures of a projection describe one history: the entry
array is a history, the commitment set holds exactly its commitments, and the
version index sends the text of each version to the position of its entry.
Admission accepts a candidate exactly when it follows that history, and undoing
an admission restores the projection it was applied to.
-/

namespace Erc8415

namespace TokenProjection

/-- The representation invariant. -/
structure Valid (p : TokenProjection) : Prop where
  history : IsHistory p.entries
  commitments : ∀ c, c ∈ p.commitments ↔ c ∈ p.entries.map fun e => e.recordCommitment
  byVersion : ∀ key index, p.byVersion.get key = some index ↔
    index < p.entries.length ∧ key = toString ((index : Int) + 1)

theorem Valid.empty : Valid empty where
  history := IsHistory.nil
  commitments := by simp [TokenProjection.empty]
  byVersion := by simp [TokenProjection.empty]

variable {p : TokenProjection} {c : CandidateEntry}

@[simp] theorem append_entries : (p.append c).entries = extend p.entries c := rfl

/-- The version text a candidate that follows is indexed under is fresh. -/
theorem Valid.byVersion_fresh (hp : p.Valid) (hc : Follows p.entries c) :
    p.byVersion.get (toString c.version) = none := by
  cases hget : p.byVersion.get (toString c.version) with
  | none => rfl
  | some index =>
      obtain ⟨hlt, hkey⟩ := (hp.byVersion _ _).mp hget
      have hversion := BigIntText.toString_inj.mp hkey
      rw [hc.version] at hversion
      omega

/-- Appending a candidate that follows keeps the three structures in step. -/
theorem Valid.append (hp : p.Valid) (hc : Follows p.entries c) : (p.append c).Valid where
  history := hp.history.extend hc
  commitments := by
    intro d
    -- Closing the latest entry changes no commitment.
    rw [append_entries, map_extend p.entries c fun c => c.recordCommitment, List.mem_append,
      List.mem_singleton, ← hp.commitments]
    simp [TokenProjection.append, or_comm]
  byVersion := by
    intro key index
    rw [append_entries, length_extend]
    simp only [TokenProjection.append, InsertionMap.get_set]
    by_cases hkey : toString c.version = key
    · rw [if_pos hkey, Option.some.injEq, ← hkey, BigIntText.toString_inj, hc.version]
      omega
    · rw [if_neg hkey, hp.byVersion]
      constructor
      · rintro ⟨hlt, heq⟩
        exact ⟨by omega, heq⟩
      · rintro ⟨hlt, heq⟩
        refine ⟨?_, heq⟩
        -- The one new position is the one whose key was just excluded.
        rcases Nat.lt_or_ge index p.entries.length with h | h
        · exact h
        · have hindex : index = p.entries.length := by omega
          rw [heq, hindex, hc.version] at hkey
          exact absurd rfl hkey

/-! ## What admission accepts -/

theorem checkSuccession_eq_ok (hp : IsHistory p.entries) :
    checkSuccession p.entries.getLast? c = .ok () ↔
      c.version = p.entries.length + 1 ∧ c.previousCommitment = tip p.entries ∧
        ∀ e, p.entries.getLast? = some e → e.effectiveAt < c.effectiveAt := by
  cases hlast : p.entries.getLast? with
  | none =>
      have hnil : p.entries = [] := List.getLast?_eq_none_iff.mp hlast
      simp only [checkSuccession, bind_eq_ok, rejectIf_eq_ok, not_not, firstVersion, hnil, tip,
        List.getLast?_nil, List.length_nil]
      constructor
      · rintro ⟨_, hversion, hlink⟩
        exact ⟨by simpa using hversion, hlink, by simp⟩
      · rintro ⟨hversion, hlink, _⟩
        exact ⟨(), by simpa using hversion, hlink⟩
  | some last =>
      have hversion := hp.getLast_version hlast
      simp only [checkSuccession, bind_eq_ok, rejectIf_eq_ok, not_not, tip, hlast, hversion,
        Option.some.injEq, forall_eq', not_le]
      constructor
      · rintro ⟨_, hnext, _, hlink, hlater⟩
        exact ⟨hnext, hlink, hlater⟩
      · rintro ⟨hnext, hlink, hlater⟩
        exact ⟨(), hnext, (), hlink, hlater⟩

/-- Admission accepts exactly the candidates that follow, and appends them. -/
theorem admit_eq_ok (hp : p.Valid) {argument : JsValue} {p' : TokenProjection}
    {entry : ProjectionEntry} :
    p.admitEntry argument = .ok (p', entry) ↔
      ∃ c, validateCandidateShape argument = .ok c ∧ Follows p.entries c ∧
        p' = p.append c ∧ entry = { c with supersededAt := 0 } := by
  simp only [admitEntry, bind_eq_ok, rejectIf_eq_ok, hp.commitments]
  constructor
  · rintro ⟨c, hshape, _, hsucc, _, hfresh, heq⟩
    obtain ⟨hversion, hlink, hlater⟩ := (checkSuccession_eq_ok hp.history).mp hsucc
    have hshaped : c.Shaped := by
      simp only [validateCandidateShape_eq_ok] at hshape
      exact hshape.2.2.2.2.2.2.2
    cases heq
    exact ⟨c, hshape, ⟨hshaped, hversion, hlink, hlater, hfresh⟩, rfl, rfl⟩
  · rintro ⟨c, hshape, hc, rfl, rfl⟩
    exact ⟨c, hshape, (), (checkSuccession_eq_ok hp.history).mpr
      ⟨hc.version, hc.linkage, hc.later⟩, (), hc.fresh, rfl⟩

theorem Valid.admitEntry (hp : p.Valid) {argument : JsValue} {p' : TokenProjection}
    {entry : ProjectionEntry} (h : p.admitEntry argument = .ok (p', entry)) : p'.Valid := by
  obtain ⟨c, _, hc, rfl, _⟩ := (admit_eq_ok hp).mp h
  exact hp.append hc

/-- A typed candidate of the declared shape is accepted exactly when the
history it would leave satisfies the whole invariant again. -/
theorem admit_iff_isHistory_extend (hp : p.Valid) (hc : c.Shaped) :
    (∃ p' entry, p.admitEntry c.toJs = .ok (p', entry)) ↔ IsHistory (extend p.entries c) := by
  rw [isHistory_extend_iff hp.history]
  constructor
  · rintro ⟨p', entry, h⟩
    obtain ⟨c', hshape, hfollows, _⟩ := (admit_eq_ok hp).mp h
    rw [(validateCandidateShape_toJs.mp hshape).1] at hfollows
    exact hfollows
  · intro hfollows
    exact ⟨_, _, (admit_eq_ok hp).mpr
      ⟨c, validateCandidateShape_toJs.mpr ⟨rfl, hc⟩, hfollows, rfl, rfl⟩⟩

/-! ## Undoing an admission -/

/-- Undoing restores the entries, the closed interval, the commitment set and
the index, whether the history was empty or not. -/
theorem undoLastAdmit_append (hp : p.Valid) (hc : Follows p.entries c) :
    (p.append c).undoLastAdmit = p := by
  have hcommitment : c.recordCommitment ∉ p.commitments :=
    fun h => hc.fresh ((hp.commitments _).mp h)
  have hentries : supersedeLast (extend p.entries c).dropLast 0 = p.entries := by
    rw [extend, List.dropLast_concat, supersedeLast_supersedeLast]
    exact supersedeLast_of_getLast? fun e he => hp.history.getLast_superseded he
  simp only [undoLastAdmit, append_entries, getLast?_extend, hentries]
  simp only [TokenProjection.append, Finset.erase_insert hcommitment,
    InsertionMap.delete_set_of_get_none (hp.byVersion_fresh hc)]

theorem undoLastAdmit_admitEntry (hp : p.Valid) {argument : JsValue} {p' : TokenProjection}
    {entry : ProjectionEntry} (h : p.admitEntry argument = .ok (p', entry)) :
    p'.undoLastAdmit = p := by
  obtain ⟨c, _, hc, rfl, _⟩ := (admit_eq_ok hp).mp h
  exact undoLastAdmit_append hp hc

/-! ## Reading by version -/

/-- The entry a version names: present exactly for `1 ≤ version ≤ length`. -/
theorem entryAt_eq (hp : p.Valid) (version : Int) :
    p.entryAt version =
      if 1 ≤ version ∧ version ≤ p.entries.length then
        (p.entries[(version - 1).toNat]?).map .ok
      else some (reject .unknownVersion s!"no entry at version {version}") := by
  unfold entryAt
  cases hget : p.byVersion.get (toString version) with
  | none =>
      rw [if_neg]
      rintro ⟨hlow, hhigh⟩
      have hpresent := (hp.byVersion (toString version) (version - 1).toNat).mpr
        ⟨by omega, by rw [BigIntText.toString_inj]; omega⟩
      rw [hget] at hpresent
      cases hpresent
  | some index =>
      obtain ⟨hlt, hkey⟩ := (hp.byVersion _ _).mp hget
      have hversion := BigIntText.toString_inj.mp hkey
      have hindex : (version - 1).toNat = index := by omega
      rw [if_pos (by omega), hindex]

theorem entryAt_eq_ok (hp : p.Valid) {version : Int} {e : ProjectionEntry} :
    p.entryAt version = some (.ok e) ↔ e ∈ p.entries ∧ e.version = version := by
  rw [entryAt_eq hp]
  constructor
  · intro h
    split at h
    · rename_i hrange
      obtain ⟨d, hd, heq⟩ := Option.map_eq_some_iff.mp h
      cases heq
      have := hp.history.version _ e hd
      exact ⟨List.mem_of_getElem? hd, by omega⟩
    · simp [reject] at h
  · rintro ⟨hmem, rfl⟩
    obtain ⟨i, hi, hget⟩ := List.mem_iff_getElem.mp hmem
    have hsome : p.entries[i]? = some e := by rw [List.getElem?_eq_getElem hi, hget]
    have hversion := hp.history.version i e hsome
    have hindex : (e.version - 1).toNat = i := by omega
    rw [if_pos (by omega), hindex, hsome]
    rfl

end TokenProjection

end Erc8415
