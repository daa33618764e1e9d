import Erc8415.Projection.KernelInvariant

/-! # Temporal resolution

The binary search answers with the last entry effective at or before the
instant, as long as the history is short enough for the 32-bit shift in its
midpoint to be exact. Appending an entry changes that answer only at instants
the history had not settled.
-/

namespace Erc8415

/-- `2^30`. Histories below this length keep the search's midpoint within 32 bits. -/
def searchBound : Nat := 0x40000000

/-- `2^32 - 1`, the length no ECMAScript array exceeds. -/
def maxArrayLength : Nat := 0xffffffff

/-- The effective times of a history. -/
def times (entries : List ProjectionEntry) : List Int := entries.map fun e => e.effectiveAt

/-- The last entry effective at or before an instant. -/
def resolve (entries : List ProjectionEntry) (instant : Int) : Option ProjectionEntry :=
  match AscendingSearch.position (times entries) instant with
  | 0 => none
  | n + 1 => entries[n]?

/-- A later entry was admitted and the instant is covered. -/
def Final (entries : List ProjectionEntry) (instant : Int) : Prop :=
  0 < AscendingSearch.position (times entries) instant ∧
    AscendingSearch.position (times entries) instant < entries.length

@[simp] theorem length_times (entries : List ProjectionEntry) :
    (times entries).length = entries.length := by
  simp [times]

theorem times_extend (entries : List ProjectionEntry) (c : CandidateEntry) :
    times (extend entries c) = times entries ++ [c.effectiveAt] :=
  map_extend entries c fun c => c.effectiveAt

/-- A final instant has an entry to resolve to. -/
theorem Final.exists_resolve {entries : List ProjectionEntry} {instant : Int}
    (hfinal : Final entries instant) : ∃ e, resolve entries instant = some e := by
  obtain ⟨hcovered, hsettled⟩ := hfinal
  obtain ⟨n, hn⟩ := Nat.exists_eq_succ_of_ne_zero (Nat.pos_iff_ne_zero.mp hcovered)
  rw [hn] at hsettled
  exact ⟨entries[n], by simp only [resolve, hn]; exact List.getElem?_eq_getElem (by omega)⟩

namespace TokenProjection

/-- Below the bound the 32-bit midpoint is the upper midpoint. -/
theorem midpoint_eq {low high : Int} (hlow : 0 ≤ low) (hlt : low < high)
    (hhigh : high < searchBound) : low < midpoint low high ∧ midpoint low high ≤ high := by
  have hbound : (searchBound : Int) = 0x40000000 := rfl
  have hsmall : Int.bmod (low + high + 1) 0x100000000 = low + high + 1 := by
    apply Int.bmod_eq_of_le <;> omega
  rw [midpoint, shiftRightOne, hsmall]
  omega

variable {p : TokenProjection}

/-- The predicate the loop probes holds up to the last effective entry. -/
theorem effectiveBy_iff {entries : List ProjectionEntry} (h : IsHistory entries) (instant : Int)
    {i : Int} (hi : 0 ≤ i) (hlen : i < entries.length) :
    effectiveBy entries instant i = true ↔
      i < AscendingSearch.position (times entries) instant := by
  have hlt : i.toNat < entries.length := by omega
  have hget := AscendingSearch.getElem_le_iff h.ascending instant (i := i.toNat)
    (by simpa using hlt)
  rw [List.getElem_map] at hget
  change _ ↔ i.toNat < AscendingSearch.position (times entries) instant at hget
  simp only [effectiveBy, slot, hi, if_true, List.getElem?_eq_getElem hlt, decide_eq_true_eq, hget]
  omega

theorem position_eq_zero_iff {entries : List ProjectionEntry} (h : IsHistory entries)
    (instant : Int) :
    AscendingSearch.position (times entries) instant = 0 ↔
      ∀ first, entries.head? = some first → instant < first.effectiveAt := by
  have hzero := AscendingSearch.position_eq_zero_iff h.ascending instant
  rw [List.head?_map] at hzero
  refine hzero.trans ⟨fun hall first hfirst => hall _ (by rw [hfirst]; rfl), ?_⟩
  intro hall t ht
  obtain ⟨first, hfirst, rfl⟩ := Option.map_eq_some_iff.mp ht
  exact hall first hfirst

theorem position_lt_length_iff {entries : List ProjectionEntry} (h : IsHistory entries)
    (instant : Int) :
    AscendingSearch.position (times entries) instant < entries.length ↔
      ∃ last, entries.getLast? = some last ∧ instant < last.effectiveAt := by
  have hlast := AscendingSearch.position_lt_length_iff h.ascending instant
  rw [List.length_map, List.getLast?_map] at hlast
  refine hlast.trans ⟨?_, ?_⟩
  · rintro ⟨t, ht, hlt⟩
    obtain ⟨last, hl, rfl⟩ := Option.map_eq_some_iff.mp ht
    exact ⟨last, hl, hlt⟩
  · rintro ⟨last, hl, hlt⟩
    exact ⟨last.effectiveAt, by rw [hl]; rfl, hlt⟩

/-- The search's answer, for a history below the bound. -/
theorem entryAsOf_eq (h : IsHistory p.entries) (hbound : p.entries.length < searchBound)
    (instant : Int) :
    p.entryAsOf instant =
      match resolve p.entries instant with
      | some e => some (.ok e)
      | none =>
          some (reject .instantNotCovered s!"the projection does not cover instant {instant}") := by
  have hzero := position_eq_zero_iff h instant
  have hle := AscendingSearch.position_le_length (times p.entries) instant
  rw [length_times] at hle
  unfold entryAsOf
  cases hhead : p.entries.head? with
  | none =>
      have hnone : resolve p.entries instant = none := by
        rw [resolve, hzero.mpr (by simp [hhead])]
      rw [hnone]
  | some first =>
      simp only [hhead, Option.some.injEq, forall_eq'] at hzero
      by_cases hcovered : instant < first.effectiveAt
      · rw [resolve, hzero.mpr hcovered]
        simp only [hcovered, if_true]
      · obtain ⟨n, hn⟩ := Nat.exists_eq_succ_of_ne_zero (mt hzero.mp hcovered)
        -- The invariant of the search: the answer is at `n`, and the interval holds `n`.
        have hsearch := AscendingSearch.search_eq midpoint (effectiveBy p.entries instant) n
          (p.entries.length - 1 : Int)
          (fun low high hlow hlt hhigh => midpoint_eq hlow hlt (by omega))
          (fun i hi hi' => (effectiveBy_iff h instant hi (by omega)).trans (by omega))
          p.entries.length 0 (p.entries.length - 1 : Int) (by omega) (by omega)
          (by omega) (by omega) (by omega)
        have hget : p.entries[n]? = some p.entries[n] := List.getElem?_eq_getElem (by omega)
        simp only [hcovered, if_false, hsearch, resolve, hn, slot, Int.natCast_nonneg, if_true,
          Int.toNat_natCast, hget]
        rfl

/-! ### Any array -/

/-- In an array the midpoint is exact or, from `2^31` on, negative. A search that has
left zero is over an interval where the first probe was exact. -/
theorem midpoint_cases {low high : Int} (hlow : 0 ≤ low) (hlt : low < high)
    (hhigh : high < maxArrayLength) (hinv : low = 0 ∨ high < 0x80000000) :
    low < midpoint low high ∧ midpoint low high ≤ high ∧
        (midpoint low high = 0 ∨ high < 0x80000000) ∨
      midpoint low high < 0 := by
  have hmax : (maxArrayLength : Int) = 0xffffffff := rfl
  rw [midpoint, shiftRightOne]
  by_cases hsmall : low + high + 1 < 0x80000000
  · left
    rw [Int.bmod_eq_of_le (by omega) (by omega)]
    omega
  · right
    rw [Int.bmod_def, if_neg (by omega)]
    omega

/-- No question about an instant is left without an answer. -/
theorem exists_entryAsOf (hlength : p.entries.length ≤ maxArrayLength) (instant : Int) :
    ∃ reply, p.entryAsOf instant = some reply := by
  unfold entryAsOf
  cases hhead : p.entries.head? with
  | none => exact ⟨_, rfl⟩
  | some first =>
      have hne : p.entries.length ≠ 0 := by
        intro hzero
        rw [List.length_eq_zero_iff.mp hzero] at hhead
        cases hhead
      by_cases hcovered : instant < first.effectiveAt
      · simp only [hcovered, if_true]
        exact ⟨_, rfl⟩
      · obtain ⟨k, hk, hlow, hhigh⟩ := AscendingSearch.search_ends midpoint
          (effectiveBy p.entries instant)
          (fun low high => 0 ≤ low ∧ high < p.entries.length ∧ (low = 0 ∨ high < 0x80000000))
          (fun low high hlt hinv => by
            obtain ⟨hlow, hhigh, hinv⟩ := hinv
            rcases midpoint_cases hlow hlt (by omega) hinv with ⟨hlo, hhi, hkeep⟩ | hnegative
            · exact Or.inl ⟨hlo, hhi, ⟨by omega, hhigh, hkeep⟩, by omega, by omega, by omega⟩
            · -- A negative slot reads as `undefined`.
              refine Or.inr ⟨by omega, ?_⟩
              have hslot : ¬ 0 ≤ midpoint low high := by omega
              simp only [effectiveBy, slot, hslot, if_false])
          p.entries.length 0 (p.entries.length - 1) ⟨by omega, by omega, Or.inl rfl⟩
          (by omega) (by omega)
        have hget : p.entries[k.toNat]? = some p.entries[k.toNat] :=
          List.getElem?_eq_getElem (by omega)
        simp only [hcovered, if_false, hk, slot, hlow, if_true, hget]
        exact ⟨_, rfl⟩

theorem isFinalAsOf_iff (h : IsHistory p.entries) (instant : Int) :
    p.isFinalAsOf instant = true ↔ Final p.entries instant := by
  rw [Final, Nat.pos_iff_ne_zero, Ne, position_eq_zero_iff h, position_lt_length_iff h]
  unfold isFinalAsOf
  cases hhead : p.entries.head? with
  | none => simp
  | some first =>
      cases hlast : p.entries.getLast? with
      | none => simp
      | some last => simp

end TokenProjection

/-! ## What an admission moves -/

section Extend

variable {entries : List ProjectionEntry} {c : CandidateEntry}

theorem position_extend (instant : Int) :
    AscendingSearch.position (times (extend entries c)) instant =
      AscendingSearch.position (times entries) instant +
        if c.effectiveAt ≤ instant then 1 else 0 := by
  rw [times_extend, AscendingSearch.position_concat]

/-- A later candidate is not yet effective at a settled instant. -/
theorem Final.lt_effectiveAt (h : IsHistory entries) (hc : Follows entries c) {instant : Int}
    (hfinal : Final entries instant) : instant < c.effectiveAt := by
  obtain ⟨last, hlast, hlt⟩ := (TokenProjection.position_lt_length_iff h instant).mp hfinal.2
  exact Int.lt_trans hlt (hc.later last hlast)

theorem Final.extend {instant : Int} (hfinal : Final entries instant) :
    Final (extend entries c) instant := by
  obtain ⟨hcovered, hsettled⟩ := hfinal
  rw [Final, position_extend, length_extend]
  split <;> omega

/-- A settled instant keeps its entry, all seven fields of it. -/
theorem resolve_extend_of_final (h : IsHistory entries) (hc : Follows entries c) {instant : Int}
    (hfinal : Final entries instant) :
    resolve (extend entries c) instant = resolve entries instant := by
  have hlater := hfinal.lt_effectiveAt h hc
  obtain ⟨hcovered, hsettled⟩ := hfinal
  rw [resolve, resolve, position_extend, if_neg (by omega), Nat.add_zero]
  cases hn : AscendingSearch.position (times entries) instant with
  | zero => rfl
  | succ n => exact (getElem?_extend entries c n).trans (if_pos (by omega))

/-- An unsettled instant the history covers resolves to its latest entry. -/
theorem resolve_of_not_final {instant : Int} {e : ProjectionEntry}
    (hresolve : resolve entries instant = some e) (hfinal : ¬ Final entries instant) :
    entries.getLast? = some e ∧
      AscendingSearch.position (times entries) instant = entries.length := by
  have hle := AscendingSearch.position_le_length (times entries) instant
  rw [length_times] at hle
  rw [Final] at hfinal
  rw [resolve] at hresolve
  cases hn : AscendingSearch.position (times entries) instant with
  | zero => simp [hn] at hresolve
  | succ n =>
      simp only [hn] at hresolve
      have hlen : n + 1 = entries.length := by omega
      exact ⟨by rw [List.getLast?_eq_getElem?, ← hlen, Nat.add_sub_cancel, hresolve], hlen⟩

/-- An entry effective by the instant becomes the answer. -/
theorem resolve_extend_of_le {instant : Int} {e : ProjectionEntry}
    (hresolve : resolve entries instant = some e) (hfinal : ¬ Final entries instant)
    (hle : c.effectiveAt ≤ instant) :
    resolve (extend entries c) instant = some { c with supersededAt := 0 } := by
  obtain ⟨_, hlen⟩ := resolve_of_not_final hresolve hfinal
  rw [resolve, position_extend, if_pos hle, hlen]
  exact (getElem?_extend entries c _).trans
    (by rw [if_neg (by omega), if_neg (by omega), if_pos rfl])

/-- An entry effective after the instant closes the answer's interval and
settles the instant. -/
theorem resolve_extend_of_lt {instant : Int} {e : ProjectionEntry}
    (hresolve : resolve entries instant = some e) (hfinal : ¬ Final entries instant)
    (hlt : instant < c.effectiveAt) :
    resolve (extend entries c) instant = some { e with supersededAt := c.effectiveAt } ∧
      Final (extend entries c) instant := by
  obtain ⟨hlast, hlen⟩ := resolve_of_not_final hresolve hfinal
  have hne : entries.length ≠ 0 := by
    intro hzero
    rw [List.length_eq_zero_iff.mp hzero] at hlast
    simp at hlast
  obtain ⟨n, hn⟩ := Nat.exists_eq_succ_of_ne_zero hne
  have hget : entries[n]? = some e := by
    rw [← hlast, List.getLast?_eq_getElem?, hn, Nat.succ_sub_one]
  refine ⟨?_, ?_⟩
  · rw [resolve, position_extend, if_neg (by omega), hlen, Nat.add_zero, hn]
    refine (getElem?_extend entries c n).trans ?_
    rw [if_neg (by omega), if_pos (by omega), hget]
    rfl
  · rw [Final, position_extend, if_neg (by omega), length_extend]
    omega

end Extend

end Erc8415
