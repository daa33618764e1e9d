import Mathlib.Algebra.Group.Nat.Defs
import Mathlib.Tactic.Common

/-! # Pieces of a fixed width

A list cut into slices of one width, from the front. Pieces of that width, joined
without anything between them, are the slices of what they were joined to.
-/

namespace FixedWidth

variable {α : Type*}

/-- The slices of a list, the last one shorter where the width does not divide its length. -/
def slices (width : Nat) (items : List α) : List (List α) :=
  (List.range ((items.length + width - 1) / width)).map fun i =>
    (items.drop (i * width)).take width

theorem length_flatten {width : Nat} {pieces : List (List α)}
    (h : ∀ piece ∈ pieces, piece.length = width) :
    pieces.flatten.length = width * pieces.length := by
  induction pieces with
  | nil => rfl
  | cons piece rest ih =>
      have hpiece := h piece List.mem_cons_self
      have hrest := ih fun p hp => h p (List.mem_cons_of_mem _ hp)
      rw [List.flatten_cons, List.length_append, hpiece, hrest, List.length_cons, Nat.mul_succ,
        Nat.add_comm]

/-- The number of slices of a whole number of pieces. -/
theorem count_of_mul {width : Nat} (hwidth : 0 < width) (count : Nat) :
    (width * count + width - 1) / width = count := by
  have hsplit : width * count + width - 1 = width * count + (width - 1) := by omega
  rw [hsplit, Nat.mul_add_div hwidth, Nat.div_eq_of_lt (by omega), Nat.add_zero]

/-- Joined pieces are read back as slices. -/
theorem slices_flatten {width : Nat} (hwidth : 0 < width) {pieces : List (List α)}
    (h : ∀ piece ∈ pieces, piece.length = width) : slices width pieces.flatten = pieces := by
  rw [slices, length_flatten h, count_of_mul hwidth]
  induction pieces with
  | nil => rfl
  | cons piece rest ih =>
      have hpiece := h piece List.mem_cons_self
      have hrest := ih fun p hp => h p (List.mem_cons_of_mem _ hp)
      have hstep (i : Nat) : (piece ++ rest.flatten).drop ((i + 1) * width) =
          rest.flatten.drop (i * width) := by
        rw [Nat.succ_mul, Nat.add_comm, ← List.drop_drop, ← hpiece, List.drop_left]
      rw [List.length_cons, List.range_succ_eq_map, List.map_cons, List.map_map, List.flatten_cons,
        Nat.zero_mul, List.drop_zero, ← hpiece, List.take_left]
      congr 1
      rw [hpiece]
      simpa only [Function.comp_def, Nat.succ_eq_add_one, hstep] using hrest

end FixedWidth
