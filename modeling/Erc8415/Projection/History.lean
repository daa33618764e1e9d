import Mathlib.Data.List.GetD
import Erc8415.Projection.Kernel

/-! # Histories

What the kernel is for, in terms of entries alone: a history is a chain of
entries with consecutive versions, linked commitments and strictly increasing
effective times, in which every entry but the latest is superseded at the
effective time of the next. A candidate that follows the chain extends it by
one entry, and the extension is again a history exactly when the candidate
follows.
-/

namespace Erc8415

/-! ## The chain of entries -/

/-- The instant the entry at a position is superseded at; zero on the latest. -/
def supersession (entries : List ProjectionEntry) (i : Nat) : Int :=
  match entries[i + 1]? with
  | some next => next.effectiveAt
  | none => 0

/-- The four projection invariants, and the supersession rule, of a whole list
of entries. -/
structure IsHistory (entries : List ProjectionEntry) : Prop where
  shaped : ∀ e ∈ entries, e.toCandidateEntry.Shaped
  version : ∀ (i : Nat) e, entries[i]? = some e → e.version = (i : Int) + 1
  genesis : ∀ e, entries[0]? = some e → e.previousCommitment = zeroBytes32
  linkage : ∀ (i : Nat) e next, entries[i]? = some e → entries[i + 1]? = some next →
    next.previousCommitment = e.recordCommitment
  ascending : (entries.map fun e => e.effectiveAt).Pairwise (· < ·)
  distinct : (entries.map fun e => e.recordCommitment).Nodup
  superseded : ∀ (i : Nat) e, entries[i]? = some e → e.supersededAt = supersession entries i

theorem IsHistory.nil : IsHistory [] where
  shaped := by simp
  version := by simp
  genesis := by simp
  linkage := by simp
  ascending := List.Pairwise.nil
  distinct := List.nodup_nil
  superseded := by simp

/-- The commitment the next entry has to link. -/
def tip (entries : List ProjectionEntry) : Commitment :=
  match entries.getLast? with
  | some e => e.recordCommitment
  | none => zeroBytes32

/-- How a candidate has to follow a history to extend it. -/
structure Follows (entries : List ProjectionEntry) (c : CandidateEntry) : Prop where
  shaped : c.Shaped
  version : c.version = entries.length + 1
  linkage : c.previousCommitment = tip entries
  later : ∀ e, entries.getLast? = some e → e.effectiveAt < c.effectiveAt
  fresh : c.recordCommitment ∉ entries.map fun e => e.recordCommitment

/-- The entries after a candidate is appended and the preceding entry closed. -/
def extend (entries : List ProjectionEntry) (c : CandidateEntry) : List ProjectionEntry :=
  TokenProjection.supersedeLast entries c.effectiveAt ++ [{ c with supersededAt := 0 }]

/-! ## Rewriting the latest entry -/

section SupersedeLast

open TokenProjection

variable (entries : List ProjectionEntry) (t : Int)

@[simp] theorem length_supersedeLast : (supersedeLast entries t).length = entries.length := by
  simp [supersedeLast]

/-- Only `supersededAt` moves, so every other view of the list stays. -/
theorem map_supersedeLast {α : Type} (f : CandidateEntry → α) :
    (supersedeLast entries t).map (fun e => f e.toCandidateEntry) =
      entries.map fun e => f e.toCandidateEntry := by
  apply List.ext_getElem?
  intro i
  simp only [supersedeLast, List.getElem?_map, List.getElem?_modify]
  by_cases h : entries.length - 1 = i
  · cases entries[i]? <;> simp [h]
  · simp [h]

theorem getElem?_supersedeLast (i : Nat) :
    (supersedeLast entries t)[i]? =
      if i + 1 = entries.length then
        entries[i]?.map fun e => { e with supersededAt := t }
      else entries[i]? := by
  simp only [supersedeLast, List.getElem?_modify]
  by_cases h : i + 1 = entries.length
  · have hi : entries.length - 1 = i := by omega
    simp [h, hi]
  · rw [if_neg h]
    by_cases hi : entries.length - 1 = i
    · have hnone : entries[i]? = none := List.getElem?_eq_none (by omega)
      simp [hnone]
    · simp [hi]

/-- Rewriting twice keeps the second instant. -/
theorem supersedeLast_supersedeLast (t' : Int) :
    supersedeLast (supersedeLast entries t) t' = supersedeLast entries t' := by
  apply List.ext_getElem?
  intro i
  simp only [getElem?_supersedeLast, length_supersedeLast]
  by_cases h : i + 1 = entries.length
  · simp only [h, if_true, Option.map_map]
    rfl
  · simp [h]

theorem supersedeLast_of_getLast? {entries : List ProjectionEntry} {t : Int}
    (h : ∀ e, entries.getLast? = some e → e.supersededAt = t) :
    supersedeLast entries t = entries := by
  apply List.ext_getElem?
  intro i
  rw [getElem?_supersedeLast]
  by_cases hi : i + 1 = entries.length
  · have hlast : entries.getLast? = entries[i]? := by
      rw [List.getLast?_eq_getElem?, ← hi, Nat.add_sub_cancel]
    rw [if_pos hi]
    cases he : entries[i]? with
    | none => rfl
    | some e =>
        have hsuperseded := h e (hlast.trans he)
        cases e
        simp_all
  · rw [if_neg hi]

end SupersedeLast

/-! ## Extending a history -/

section Extend

variable (entries : List ProjectionEntry) (c : CandidateEntry)

@[simp] theorem length_extend : (extend entries c).length = entries.length + 1 := by
  simp [extend]

theorem map_extend {α : Type} (f : CandidateEntry → α) :
    (extend entries c).map (fun e => f e.toCandidateEntry) =
      entries.map (fun e => f e.toCandidateEntry) ++ [f c] := by
  rw [extend, List.map_append, map_supersedeLast]
  rfl

theorem getElem?_extend (i : Nat) :
    (extend entries c)[i]? =
      if i + 1 < entries.length then entries[i]?
      else if i + 1 = entries.length then
        entries[i]?.map fun e => { e with supersededAt := c.effectiveAt }
      else if i = entries.length then some { c with supersededAt := 0 }
      else none := by
  rw [extend, List.getElem?_append, length_supersedeLast, getElem?_supersedeLast]
  by_cases hlt : i + 1 < entries.length
  · have hne : ¬ i + 1 = entries.length := by omega
    have hi : i < entries.length := by omega
    simp [hlt, hne, hi]
  · by_cases heq : i + 1 = entries.length
    · have hi : i < entries.length := by omega
      simp [heq, hi]
    · by_cases hlen : i = entries.length
      · simp [hlen]
      · have hi : ¬ i < entries.length := by omega
        have hsub : i - entries.length ≠ 0 := by omega
        simp [hlt, heq, hlen, hi, hsub]

@[simp] theorem getLast?_extend :
    (extend entries c).getLast? = some { c with supersededAt := 0 } := by
  simp [extend]

/-- The entry of a position, up to its `supersededAt`. -/
theorem getElem?_extend_candidate (i : Nat) :
    ((extend entries c)[i]?).map (fun e => e.toCandidateEntry) =
      if i = entries.length then some c else entries[i]?.map fun e => e.toCandidateEntry := by
  have h := map_extend entries c id
  simp only [id] at h
  rw [← List.getElem?_map, h, List.getElem?_append, List.length_map, List.getElem?_map]
  by_cases hlt : i < entries.length
  · have hne : i ≠ entries.length := by omega
    simp [hlt, hne]
  · by_cases hlen : i = entries.length
    · simp [hlen]
    · have hsub : i - entries.length ≠ 0 := by omega
      simp [hlt, hlen, hsub]

variable {entries c}

/-- An entry after an extension is the candidate, or has the fields of the entry that
was there. -/
theorem extend_cases {i : Nat} {e : ProjectionEntry} (he : (extend entries c)[i]? = some e) :
    (i = entries.length ∧ e.toCandidateEntry = c) ∨
      ∃ d, entries[i]? = some d ∧ e.toCandidateEntry = d.toCandidateEntry := by
  have hcandidate := getElem?_extend_candidate entries c i
  rw [he, Option.map_some] at hcandidate
  by_cases hi : i = entries.length
  · rw [if_pos hi, Option.some.injEq] at hcandidate
    exact Or.inl ⟨hi, hcandidate⟩
  · rw [if_neg hi] at hcandidate
    obtain ⟨d, hd, heq⟩ := Option.map_eq_some_iff.mp hcandidate.symm
    exact Or.inr ⟨d, hd, heq.symm⟩

end Extend

namespace IsHistory

variable {entries : List ProjectionEntry} {c : CandidateEntry}

theorem getLast_version (h : IsHistory entries) {e : ProjectionEntry}
    (hlast : entries.getLast? = some e) : e.version = entries.length := by
  have hne : entries.length ≠ 0 := by
    rintro hzero
    rw [List.length_eq_zero_iff.mp hzero] at hlast
    simp at hlast
  rw [List.getLast?_eq_getElem?] at hlast
  have hversion := h.version _ e hlast
  omega

theorem getLast_superseded (h : IsHistory entries) {e : ProjectionEntry}
    (hlast : entries.getLast? = some e) : e.supersededAt = 0 := by
  rw [List.getLast?_eq_getElem?] at hlast
  have hnext : entries[entries.length - 1 + 1]? = none := List.getElem?_eq_none (by omega)
  simpa [supersession, hnext] using h.superseded _ e hlast

theorem effectiveAt_nonneg (h : IsHistory entries) {e : ProjectionEntry} (he : e ∈ entries) :
    0 ≤ e.effectiveAt :=
  (isUint64_eq_true.mp (h.shaped e he).effectiveAt).1

theorem versions (h : IsHistory entries) :
    entries.map (fun e => e.version) =
      (List.range entries.length).map fun (i : Nat) => (i : Int) + 1 := by
  apply List.ext_getElem (by simp)
  intro i hi _
  rw [List.length_map] at hi
  simp [h.version i _ (List.getElem?_eq_getElem hi)]

/-- The versions present are those from one to the number of entries. -/
theorem exists_version (h : IsHistory entries) (version : Int) :
    (∃ e ∈ entries, e.version = version) ↔ 1 ≤ version ∧ version ≤ entries.length := by
  constructor
  · rintro ⟨e, he, rfl⟩
    obtain ⟨i, hi, rfl⟩ := List.mem_iff_getElem.mp he
    have hversion := h.version i _ (List.getElem?_eq_getElem hi)
    omega
  · rintro ⟨hlow, hhigh⟩
    have hi : (version - 1).toNat < entries.length := by omega
    have hversion := h.version _ _ (List.getElem?_eq_getElem hi)
    exact ⟨entries[(version - 1).toNat], List.getElem_mem hi, by omega⟩

/-- An entry is superseded exactly when another follows it. -/
theorem superseded_eq_zero_iff (h : IsHistory entries) {i : Nat} {e : ProjectionEntry}
    (he : entries[i]? = some e) : e.supersededAt = 0 ↔ i + 1 = entries.length := by
  have hi : i < entries.length := (List.getElem?_eq_some_iff.mp he).1
  rw [h.superseded i e he, supersession]
  cases hnext : entries[i + 1]? with
  | none =>
      have := List.getElem?_eq_none_iff.mp hnext
      simp only [true_iff]
      omega
  | some next =>
      obtain ⟨hlt, hget⟩ := List.getElem?_eq_some_iff.mp hnext
      have hlater : entries[i].effectiveAt < entries[i + 1].effectiveAt := by
        have := List.pairwise_iff_getElem.mp h.ascending i (i + 1) (by simpa using hi)
          (by simpa using hlt) (by omega)
        simpa using this
      have hnonneg := h.effectiveAt_nonneg (List.getElem_mem hi)
      rw [hget] at hlater
      simp only
      omega

/-- No entry is effective later than the latest one. -/
theorem effectiveAt_le_last (h : IsHistory entries) {e last : ProjectionEntry} (he : e ∈ entries)
    (hlast : entries.getLast? = some last) : e.effectiveAt ≤ last.effectiveAt := by
  obtain ⟨init, rfl⟩ := List.getLast?_eq_some_iff.mp hlast
  have hascending := h.ascending
  rw [List.map_append, List.pairwise_append] at hascending
  rcases List.mem_append.mp he with hinit | hend
  · exact Int.le_of_lt (hascending.2.2 _ (List.mem_map_of_mem hinit) _ (by simp))
  · rw [List.mem_singleton.mp hend]

/-- Appending a candidate closes the latest entry at the candidate's time. -/
theorem superseded_extend (h : IsHistory entries) {i : Nat} {e : ProjectionEntry}
    (he : (Erc8415.extend entries c)[i]? = some e) :
    e.supersededAt = supersession (Erc8415.extend entries c) i := by
  have hlt : i < (Erc8415.extend entries c).length := (List.getElem?_eq_some_iff.mp he).1
  rw [length_extend] at hlt
  rw [getElem?_extend] at he
  rw [supersession, getElem?_extend]
  by_cases hbefore : i + 1 < entries.length
  · rw [if_pos hbefore] at he
    rw [h.superseded i e he, supersession]
    -- The next entry may be the one that was closed, with its time unchanged.
    by_cases hnext : i + 1 + 1 < entries.length
    · rw [if_pos hnext]
    · rw [if_neg hnext, if_pos (by omega)]
      cases entries[i + 1]? <;> rfl
  · rw [if_neg hbefore] at he
    by_cases hlast : i + 1 = entries.length
    · rw [if_pos hlast] at he
      obtain ⟨d, _, rfl⟩ := Option.map_eq_some_iff.mp he
      rw [if_neg (by omega), if_neg (by omega), if_pos hlast]
    · rw [if_neg hlast, if_pos (by omega), Option.some.injEq] at he
      rw [if_neg (by omega), if_neg (by omega), if_neg (by omega), ← he]

/-- A candidate that follows a history extends it to a history. -/
theorem extend (h : IsHistory entries) (hc : Follows entries c) :
    IsHistory (extend entries c) where
  shaped := by
    intro e he
    obtain ⟨i, hi⟩ := List.mem_iff_getElem?.mp he
    rcases extend_cases hi with ⟨_, heq⟩ | ⟨d, hd, heq⟩
    · exact heq ▸ hc.shaped
    · exact heq ▸ h.shaped d (List.mem_of_getElem? hd)
  version := by
    intro i e he
    rcases extend_cases he with ⟨rfl, heq⟩ | ⟨d, hd, heq⟩
    · rw [heq, hc.version]
    · rw [heq]
      exact h.version i d hd
  genesis := by
    intro e he
    rcases extend_cases he with ⟨hlength, heq⟩ | ⟨d, hd, heq⟩
    · have hnil : entries = [] := List.length_eq_zero_iff.mp hlength.symm
      rw [heq, hc.linkage, tip, hnil]
      rfl
    · rw [heq]
      exact h.genesis d hd
  linkage := by
    intro i e next he hnext
    have hlt : i + 1 < (Erc8415.extend entries c).length := (List.getElem?_eq_some_iff.mp hnext).1
    rw [length_extend] at hlt
    rcases extend_cases he with ⟨hlength, _⟩ | ⟨d, hd, heq⟩
    · omega
    rcases extend_cases hnext with ⟨hlength, heq'⟩ | ⟨d', hd', heq'⟩
    · have hlast : entries.getLast? = some d := by
        rw [List.getLast?_eq_getElem?, ← hlength, Nat.add_sub_cancel, hd]
      rw [heq', hc.linkage, tip, hlast, heq]
    · rw [heq, heq']
      exact h.linkage i d d' hd hd'
  ascending := by
    rw [map_extend entries c fun c => c.effectiveAt, List.pairwise_append]
    refine ⟨h.ascending, List.pairwise_singleton _ _, ?_⟩
    intro t ht t' ht'
    obtain ⟨e, he, rfl⟩ := List.mem_map.mp ht
    rw [List.mem_singleton.mp ht']
    cases hlast : entries.getLast? with
    | none =>
        rw [List.getLast?_eq_none_iff.mp hlast] at he
        cases he
    | some last => exact Int.lt_of_le_of_lt (h.effectiveAt_le_last he hlast) (hc.later last hlast)
  distinct := by
    rw [map_extend entries c fun c => c.recordCommitment]
    refine List.nodup_append.mpr ⟨h.distinct, List.nodup_singleton _, ?_⟩
    intro a ha b hb
    rw [List.mem_singleton.mp hb]
    rintro rfl
    exact hc.fresh ha
  superseded := by
    intro i e he
    exact h.superseded_extend he

/-- A history is extended to a history only by a candidate that follows it. -/
theorem follows_of_extend (h' : IsHistory (Erc8415.extend entries c)) : Follows entries c where
  shaped := h'.shaped { c with supersededAt := 0 } (by simp [Erc8415.extend])
  version := by
    have := h'.getLast_version (getLast?_extend entries c)
    simpa using this
  linkage := by
    have hnew : (Erc8415.extend entries c)[entries.length]? =
        some { c with supersededAt := 0 } := by
      rw [getElem?_extend, if_neg (by omega), if_neg (by omega), if_pos rfl]
    cases hlast : entries.getLast? with
    | none =>
        have hnil : entries = [] := List.getLast?_eq_none_iff.mp hlast
        subst hnil
        exact h'.genesis _ hnew
    | some last =>
        obtain ⟨init, rfl⟩ := List.getLast?_eq_some_iff.mp hlast
        have hprev := getElem?_extend (init ++ [last]) c init.length
        simp only [List.length_append, List.length_singleton, Nat.lt_irrefl, if_false, if_true,
          List.getElem?_concat_length, Option.map_some] at hprev
        have hlink := h'.linkage init.length _ _ hprev (by simpa using hnew)
        simpa [tip] using hlink
  later := by
    intro e hlast
    have hasc := h'.ascending
    rw [map_extend entries c fun c => c.effectiveAt, List.pairwise_append] at hasc
    exact hasc.2.2 _ (List.mem_map_of_mem (f := fun e : ProjectionEntry => e.effectiveAt)
      (List.mem_of_getLast? hlast)) _ (List.mem_singleton_self _)
  fresh := by
    have hnodup := h'.distinct
    rw [map_extend entries c fun c => c.recordCommitment, List.nodup_append] at hnodup
    intro hmem
    exact hnodup.2.2 _ hmem _ (List.mem_singleton_self _) rfl

end IsHistory

/-- The incremental rule is the global one: extending a history gives a history
exactly when the candidate follows it. -/
theorem isHistory_extend_iff {entries : List ProjectionEntry} {c : CandidateEntry}
    (h : IsHistory entries) : IsHistory (extend entries c) ↔ Follows entries c :=
  ⟨IsHistory.follows_of_extend, h.extend⟩

end Erc8415
