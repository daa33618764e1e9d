import Erc8415.Foundation.LabelledRun
import Erc8415.Projection.Resolution

/-! # Exact temporal answers

An answer at an instant is exact when it is the one entry whose interval
contains the instant, which is the last one effective by then, and when the
instant is called final exactly if that entry has been superseded. A history
resolves every instant exactly, and so does the kernel over any history it was
brought to by admissions.
-/

namespace Erc8415

section Exact

variable {ε : Type} (effectiveAt supersededAt : ε → Int)

/-- The effective interval of an entry contains an instant. -/
def InForceAt (instant : Int) (e : ε) : Prop :=
  effectiveAt e ≤ instant ∧ (supersededAt e = 0 ∨ instant < supersededAt e)

/-- What makes an answer at an instant exact, and a finality claim beside it. -/
structure AnswersExactly (entries : List ε) (instant : Int) (answer : Option ε) (final : Prop) :
    Prop where
  /-- There is an answer from the first effective time on. -/
  covered : answer.isSome ↔ ∃ first, entries.head? = some first ∧ effectiveAt first ≤ instant
  /-- The answer is an entry whose interval contains the instant. -/
  contains : ∀ e, answer = some e → e ∈ entries ∧ InForceAt effectiveAt supersededAt instant e
  /-- And the only one. -/
  unique : ∀ e, answer = some e → ∀ e' ∈ entries,
    InForceAt effectiveAt supersededAt instant e' → e' = e
  /-- It is the last entry effective by the instant. -/
  last : ∀ e, answer = some e → ∃ n : Nat, entries[n]? = some e ∧
    ∀ (m : Nat) e', entries[m]? = some e' → (effectiveAt e' ≤ instant ↔ m ≤ n)
  /-- Final means that the answer has been superseded. -/
  superseded : final ↔ ∃ e, answer = some e ∧ supersededAt e ≠ 0
  /-- That is, that the instant is covered and some entry is effective after it. -/
  later : final ↔ answer.isSome ∧ ∃ e ∈ entries, instant < effectiveAt e

variable {effectiveAt supersededAt}

/-- An exact answer over entries read through an injective view is exact over the entries. -/
theorem AnswersExactly.of_map {ε' : Type} {view : ε' → ε} (hview : Function.Injective view)
    (entries : List ε') {instant : Int} (answer : Option ε') {final : Prop}
    (h : AnswersExactly effectiveAt supersededAt (entries.map view) instant (answer.map view)
      final) :
    AnswersExactly (effectiveAt ∘ view) (supersededAt ∘ view) entries instant answer final where
  covered := by
    have hcovered := h.covered
    rw [Option.isSome_map, List.head?_map] at hcovered
    simpa using hcovered
  contains e he := by
    obtain ⟨hmem, hforce⟩ := h.contains (view e) (by rw [he]; rfl)
    obtain ⟨e', he', heq⟩ := List.mem_map.mp hmem
    rw [hview heq] at he'
    exact ⟨he', hforce⟩
  unique e he e' he' hforce :=
    hview (h.unique (view e) (by rw [he]; rfl) (view e') (List.mem_map_of_mem he') hforce)
  last e he := by
    obtain ⟨n, hn, hlast⟩ := h.last (view e) (by rw [he]; rfl)
    rw [List.getElem?_map] at hn
    obtain ⟨e', he', heq⟩ := Option.map_eq_some_iff.mp hn
    rw [hview heq] at he'
    refine ⟨n, he', ?_⟩
    intro m e'' he''
    exact hlast m (view e'') (by rw [List.getElem?_map, he'']; rfl)
  superseded := by
    have hsuperseded := h.superseded
    simpa using hsuperseded
  later := by
    have hlater := h.later
    rw [Option.isSome_map] at hlater
    simpa using hlater

end Exact

/-! ## A history resolves exactly -/

section History

variable {entries : List ProjectionEntry} (h : IsHistory entries)
include h

/-- Entries up to the position of an instant are the ones effective by it. -/
theorem effectiveAt_le_iff (instant : Int) {m : Nat} {e : ProjectionEntry}
    (he : entries[m]? = some e) :
    e.effectiveAt ≤ instant ↔ m < AscendingSearch.position (times entries) instant := by
  obtain ⟨hlt, hget⟩ := List.getElem?_eq_some_iff.mp he
  have hle := AscendingSearch.getElem_le_iff h.ascending instant (i := m) (by simpa using hlt)
  rw [List.getElem_map, hget] at hle
  exact hle

/-- An instant is in the interval of one entry, the last one effective by it. -/
theorem inForceAt_iff {instant : Int} {m : Nat} {e : ProjectionEntry} (he : entries[m]? = some e) :
    InForceAt (fun e : ProjectionEntry => e.effectiveAt) (fun e => e.supersededAt) instant e ↔
      AscendingSearch.position (times entries) instant = m + 1 := by
  have hposition := effectiveAt_le_iff h instant he
  have hle := AscendingSearch.position_le_length (times entries) instant
  rw [length_times] at hle
  have hlt : m < entries.length := (List.getElem?_eq_some_iff.mp he).1
  change e.effectiveAt ≤ instant ∧ (e.supersededAt = 0 ∨ instant < e.supersededAt) ↔ _
  rw [hposition]
  cases hnext : entries[m + 1]? with
  | none =>
      have hzero : e.supersededAt = 0 := by rw [h.superseded m e he, supersession, hnext]
      have hend := List.getElem?_eq_none_iff.mp hnext
      simp only [hzero, true_or, and_true]
      omega
  | some next =>
      have hsuperseded : e.supersededAt = next.effectiveAt := by
        rw [h.superseded m e he, supersession, hnext]
      have hne : e.supersededAt ≠ 0 := by
        obtain ⟨hlast, _⟩ := List.getElem?_eq_some_iff.mp hnext
        intro hzero
        have := (h.superseded_eq_zero_iff he).mp hzero
        omega
      have hnext := effectiveAt_le_iff h instant hnext
      rw [← hsuperseded] at hnext
      simp only [hne, false_or]
      omega

omit h in
theorem resolve_eq_some {instant : Int} {e : ProjectionEntry} :
    resolve entries instant = some e ↔
      ∃ n, AscendingSearch.position (times entries) instant = n + 1 ∧ entries[n]? = some e := by
  unfold resolve
  split
  next hzero => simp [hzero]
  next n hn => simp [hn]

omit h in
theorem resolve_isSome {instant : Int} :
    (resolve entries instant).isSome ↔
      0 < AscendingSearch.position (times entries) instant := by
  have hle := AscendingSearch.position_le_length (times entries) instant
  rw [length_times] at hle
  unfold resolve
  split
  next hzero => simp [hzero]
  next n hn =>
    rw [List.getElem?_eq_getElem (by omega), hn]
    simp

/-- A history resolves every instant exactly. -/
theorem IsHistory.answersExactly (instant : Int) :
    AnswersExactly (fun e : ProjectionEntry => e.effectiveAt) (fun e => e.supersededAt) entries
      instant (resolve entries instant) (Final entries instant) where
  covered := by
    rw [resolve_isSome, Nat.pos_iff_ne_zero, Ne, TokenProjection.position_eq_zero_iff h]
    push Not
    rfl
  contains e he := by
    obtain ⟨n, hn, hget⟩ := resolve_eq_some.mp he
    exact ⟨List.mem_of_getElem? hget, (inForceAt_iff h hget).mpr hn⟩
  unique e he e' he' hforce := by
    obtain ⟨n, hn, hget⟩ := resolve_eq_some.mp he
    obtain ⟨m, hget'⟩ := List.mem_iff_getElem?.mp he'
    have hm := (inForceAt_iff h hget').mp hforce
    have hsame : m = n := by omega
    rw [hsame, hget] at hget'
    exact (Option.some.inj hget').symm
  last e he := by
    obtain ⟨n, hn, hget⟩ := resolve_eq_some.mp he
    refine ⟨n, hget, ?_⟩
    intro m e' hget'
    rw [effectiveAt_le_iff h instant hget']
    omega
  superseded := by
    rw [Final]
    constructor
    · rintro ⟨hpos, hlt⟩
      obtain ⟨n, hn⟩ := Nat.exists_eq_succ_of_ne_zero (Nat.pos_iff_ne_zero.mp hpos)
      have hget : entries[n]? = some entries[n] := List.getElem?_eq_getElem (by omega)
      refine ⟨entries[n], resolve_eq_some.mpr ⟨n, hn, hget⟩, ?_⟩
      intro hzero
      have := (h.superseded_eq_zero_iff hget).mp hzero
      omega
    · rintro ⟨e, he, hne⟩
      obtain ⟨n, hn, hget⟩ := resolve_eq_some.mp he
      have hlast := mt (h.superseded_eq_zero_iff hget).mpr hne
      have hlt := (List.getElem?_eq_some_iff.mp hget).1
      omega
  later := by
    rw [resolve_isSome, Final, TokenProjection.position_lt_length_iff h]
    refine and_congr_right fun _ => ⟨?_, ?_⟩
    · rintro ⟨last, hlast, hlt⟩
      exact ⟨last, List.mem_of_getLast? hlast, hlt⟩
    · rintro ⟨e, he, hlt⟩
      obtain ⟨last, hlast⟩ := Option.isSome_iff_exists.mp
        (List.getLast?_isSome.mpr (List.ne_nil_of_mem he))
      exact ⟨last, hlast, Int.lt_of_lt_of_le hlt (h.effectiveAt_le_last he hlast)⟩

end History

/-! ## The kernel -/

namespace TokenProjection

/-- A call of `admit`. A refused candidate leaves no trace. -/
def step (p : TokenProjection) (candidate : JsValue) : TokenProjection :=
  match p.admitEntry candidate with
  | .ok (p', _) => p'
  | .error _ => p

/-- The projection a list of candidates was shown to, one after the other. -/
def admissions (candidates : List JsValue) : TokenProjection :=
  LabelledRun.run step empty candidates

theorem Valid.step {p : TokenProjection} (h : p.Valid) (candidate : JsValue) :
    (p.step candidate).Valid := by
  unfold TokenProjection.step
  split
  next p' entry heq => exact h.admitEntry heq
  next => exact h

/-- A candidate that follows is appended. -/
theorem Valid.step_toJs {p : TokenProjection} (h : p.Valid) {c : CandidateEntry}
    (hc : Follows p.entries c) : p.step c.toJs = p.append c := by
  have hadmits := (admit_eq_ok h).mpr
    ⟨c, validateCandidateShape_toJs.mpr ⟨rfl, hc.shaped⟩, hc, rfl, rfl⟩
  rw [TokenProjection.step, hadmits]

theorem valid_admissions (candidates : List JsValue) : (admissions candidates).Valid :=
  LabelledRun.run_invariant TokenProjection.step Valid (fun _ candidate h => h.step candidate)
    .empty candidates

/-- What a query succeeded with. -/
def succeeded {α : Type} : Answer α → Option α
  | some (.ok a) => some a
  | _ => none

/-- The kernel answers every instant, and exactly. -/
structure Exact (p : TokenProjection) (instant : Int) : Prop where
  /-- The search ends, with an entry or with the one rejection. -/
  ends : (∃ e, p.entryAsOf instant = some (.ok e)) ∨
    ∃ message, p.entryAsOf instant = some (reject .instantNotCovered message)
  answer : AnswersExactly (fun e : ProjectionEntry => e.effectiveAt) (fun e => e.supersededAt)
    p.entries instant (succeeded (p.entryAsOf instant)) (p.isFinalAsOf instant = true)

theorem Valid.exact {p : TokenProjection} (h : p.Valid) (hbound : p.entries.length < searchBound)
    (instant : Int) : p.Exact instant := by
  have heq := entryAsOf_eq h.history hbound instant
  have hexact := h.history.answersExactly instant
  rw [← isFinalAsOf_iff h.history instant] at hexact
  constructor
  · rw [heq]
    cases resolve p.entries instant with
    | none => exact Or.inr ⟨_, rfl⟩
    | some e => exact Or.inl ⟨e, rfl⟩
  · have hsucceeded : succeeded (p.entryAsOf instant) = resolve p.entries instant := by
      rw [heq]
      cases resolve p.entries instant <;> rfl
    rw [hsucceeded]
    exact hexact

end TokenProjection

end Erc8415
