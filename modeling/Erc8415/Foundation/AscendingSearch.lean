import Mathlib.Data.List.Count
import Mathlib.Data.List.Pairwise
import Mathlib.Order.Lattice
import Mathlib.Tactic.Common

/-! # Searching an ascending sequence

The position an ascending sequence of times is at: how many of its members lie
at or before an instant. Appending a later member moves the position only for
instants at or after that member, which is what makes an answer given between
two members permanent.

An upper-midpoint binary search finds the position. The midpoint is a
parameter: the search is correct for any midpoint that stays in the half-open
interval above `low`, whatever machine arithmetic computes it.
-/

namespace AscendingSearch

section Position

variable {τ : Type*} [LinearOrder τ]

/-- How many members of a sequence lie at or before an instant. -/
def position (times : List τ) (t : τ) : Nat := times.countP (· ≤ t)

theorem position_le_length (times : List τ) (t : τ) : position times t ≤ times.length :=
  List.countP_le_length

/-- Members below the position are the ones at or before the instant. -/
theorem getElem_le_iff {times : List τ} (hasc : times.Pairwise (· < ·)) (t : τ)
    {i : Nat} (hi : i < times.length) : times[i] ≤ t ↔ i < position times t := by
  induction times generalizing i with
  | nil => simp at hi
  | cons head rest ih =>
      obtain ⟨hhead, hrest⟩ := List.pairwise_cons.mp hasc
      by_cases hle : head ≤ t
      · have hpos : position (head :: rest) t = position rest t + 1 := by
          simp [position, hle]
        cases i with
        | zero => simp [hpos, hle]
        | succ i => simp [hpos, ih hrest (by simpa using hi)]
      · -- Everything after a member beyond the instant is beyond it too.
        have hzero : position (head :: rest) t = 0 := by
          refine List.countP_eq_zero.mpr ?_
          intro x hx
          rcases List.mem_cons.mp hx with rfl | hx
          · simpa using hle
          · simpa using lt_trans (not_le.mp hle) (hhead x hx)
        rw [hzero]
        simp only [Nat.not_lt_zero, iff_false, not_le]
        cases i with
        | zero => simpa using hle
        | succ i =>
            exact lt_trans (not_le.mp hle) (hhead _ (List.getElem_mem _))

/-- A later member moves the position of the instants at or after it. -/
theorem position_concat (times : List τ) (next t : τ) :
    position (times ++ [next]) t = position times t + if next ≤ t then 1 else 0 := by
  by_cases h : next ≤ t <;> simp [position, h]

theorem position_eq_zero_iff {times : List τ} (hasc : times.Pairwise (· < ·)) (t : τ) :
    position times t = 0 ↔ ∀ first, times.head? = some first → t < first := by
  cases times with
  | nil => simp [position]
  | cons head rest =>
      have h := getElem_le_iff hasc t (i := 0) (by simp)
      simp only [List.getElem_cons_zero] at h
      simp only [List.head?_cons, Option.some.injEq, forall_eq']
      rw [← not_le (a := head) (b := t), h]
      omega

theorem position_lt_length_iff {times : List τ} (hasc : times.Pairwise (· < ·)) (t : τ) :
    position times t < times.length ↔ ∃ last, times.getLast? = some last ∧ t < last := by
  rcases List.eq_nil_or_concat times with rfl | ⟨init, last, rfl⟩
  · simp [position]
  · have h := getElem_le_iff hasc t (i := init.length) (by simp)
    simp only [List.concat_eq_append, List.getElem_append_right (Nat.le_refl _),
      Nat.sub_self, List.getElem_cons_zero] at h
    simp only [List.concat_eq_append, List.length_append, List.length_singleton,
      List.getLast?_append, List.getLast?_singleton, Option.some_or, Option.some.injEq,
      exists_eq_left']
    rw [← not_le (a := last) (b := t), h]
    omega

/-- Where a predicate holds exactly of the members before an index, filtering by it takes
them. -/
theorem filter_eq_take {α : Type*} {holds : α → Bool} {l : List α} {k : Nat}
    (h : ∀ i a, l[i]? = some a → (holds a = true ↔ i < k)) : l.filter holds = l.take k := by
  induction l generalizing k with
  | nil => rw [List.filter_nil, List.take_nil]
  | cons head rest ih =>
      have hhead := h 0 head rfl
      cases k with
      | zero =>
          rw [List.take_zero, List.filter_eq_nil_iff]
          intro a ha
          obtain ⟨i, hi⟩ := List.mem_iff_getElem?.mp ha
          exact fun hholds => absurd ((h i a hi).mp hholds) (Nat.not_lt_zero i)
      | succ k =>
          have hrest : ∀ i a, rest[i]? = some a → (holds a = true ↔ i < k) := by
            intro i a hi
            exact (h (i + 1) a hi).trans Nat.succ_lt_succ_iff
          rw [List.filter_cons_of_pos (hhead.mpr k.succ_pos), List.take_succ_cons, ih hrest]

end Position

section Search

/-- Narrow `[low, high]` to the last index at which `holds` is true, probing
`mid low high`. `none` means the fuel ran out before the interval closed. -/
def search (mid : Int → Int → Int) (holds : Int → Bool) : Nat → Int → Int → Option Int
  | 0, low, high => if low < high then none else some low
  | fuel + 1, low, high =>
      if low < high then
        let m := mid low high
        if holds m then search mid holds fuel m high else search mid holds fuel low (m - 1)
      else some low

/-- With a midpoint in the upper half of the interval and a predicate that
changes from true to false at `k`, the search ends at `k`. -/
theorem search_eq (mid : Int → Int → Int) (holds : Int → Bool) (k bound : Int)
    (hmid : ∀ low high, 0 ≤ low → low < high → high ≤ bound →
      low < mid low high ∧ mid low high ≤ high)
    (hholds : ∀ i, 0 ≤ i → i ≤ bound → (holds i = true ↔ i ≤ k))
    (fuel : Nat) (low high : Int) (hlow : 0 ≤ low) (hhigh : high ≤ bound)
    (hlk : low ≤ k) (hkh : k ≤ high) (hfuel : high - low ≤ fuel) :
    search mid holds fuel low high = some k := by
  induction fuel generalizing low high with
  | zero =>
      have hstop : ¬ low < high := by omega
      simp only [search, hstop, if_false, Option.some.injEq]
      omega
  | succ fuel ih =>
      by_cases hlt : low < high
      · obtain ⟨hlo, hhi⟩ := hmid low high hlow hlt hhigh
        simp only [search, hlt, if_true]
        by_cases hm : holds (mid low high) = true
        · have hmk := (hholds _ (by omega) (by omega)).mp hm
          rw [if_pos hm]
          exact ih _ _ (by omega) hhigh hmk hkh (by omega)
        · have hkm : ¬ mid low high ≤ k := fun h => hm ((hholds _ (by omega) (by omega)).mpr h)
          rw [if_neg hm]
          exact ih _ _ hlow (by omega) hlk (by omega) (by omega)
      · simp only [search, hlt, if_false, Option.some.injEq]
        omega

/-- A search ends inside its interval when every probe is above `low` and no further
than `high`, or else fails at or below `low`. `inv` is kept by the first kind of probe;
the second kind closes the interval. -/
theorem search_ends (mid : Int → Int → Int) (holds : Int → Bool) (inv : Int → Int → Prop)
    (hprobe : ∀ low high, low < high → inv low high →
      low < mid low high ∧ mid low high ≤ high ∧
          inv (mid low high) high ∧ inv low (mid low high - 1) ∨
        mid low high ≤ low ∧ holds (mid low high) = false)
    (fuel : Nat) (low high : Int) (hinv : inv low high) (hle : low ≤ high)
    (hfuel : high - low ≤ fuel) :
    ∃ k, search mid holds fuel low high = some k ∧ low ≤ k ∧ k ≤ high := by
  induction fuel generalizing low high with
  | zero =>
      have hstop : ¬ low < high := by omega
      exact ⟨low, by simp only [search, hstop, if_false], by omega, hle⟩
  | succ fuel ih =>
      by_cases hlt : low < high
      · simp only [search, hlt, if_true]
        rcases hprobe low high hlt hinv with ⟨hlo, hhi, hup, hdown⟩ | ⟨hlo, hfails⟩
        · by_cases hm : holds (mid low high) = true
          · rw [if_pos hm]
            obtain ⟨k, hk, hlk, hkh⟩ := ih _ _ hup hhi (by omega)
            exact ⟨k, hk, by omega, hkh⟩
          · rw [if_neg hm]
            obtain ⟨k, hk, hlk, hkh⟩ := ih _ _ hdown (by omega) (by omega)
            exact ⟨k, hk, hlk, by omega⟩
        · -- The interval is empty after this probe, whatever fuel is left.
          have hstop : ¬ low < mid low high - 1 := by omega
          rw [if_neg (by rw [hfails]; exact Bool.false_ne_true)]
          refine ⟨low, ?_, by omega, hle⟩
          cases fuel <;> simp only [search, hstop, if_false]
      · simp only [search, hlt, if_false]
        exact ⟨low, rfl, by omega, hle⟩

end Search

end AscendingSearch
