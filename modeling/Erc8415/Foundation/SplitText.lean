import Mathlib.Data.List.TakeWhile
import Mathlib.Tactic.Common

/-! # Text between separators

Splitting text at a one-character separator, and joining parts with it. Parts
that do not contain the separator are read back from their joined text.
-/

namespace SplitText

/-- `text.split(separator)` for a separator of one character. -/
def split (separator : Char) (text : String) : List String :=
  (text.toList.splitOn separator).map String.ofList

/-- `parts.join(separator)` for a separator of one character. -/
def join (separator : Char) (parts : List String) : String :=
  String.ofList ([separator].intercalate (parts.map String.toList))

/-- Joined parts are read back. -/
theorem split_join {separator : Char} {parts : List String} (hne : parts ≠ [])
    (h : ∀ part ∈ parts, separator ∉ part.toList) :
    split separator (join separator parts) = parts := by
  rw [split, join, String.toList_ofList, List.splitOn_intercalate separator]
  · simp
  · intro cs hcs
    obtain ⟨part, hpart, rfl⟩ := List.mem_map.mp hcs
    exact h part hpart
  · simpa using hne

theorem notMem_of_mem_splitOn {α : Type*} [DecidableEq α] {separator : α} {items part : List α}
    (h : part ∈ items.splitOn separator) : separator ∉ part := by
  induction items generalizing part with
  | nil =>
      rw [List.splitOn_nil, List.mem_singleton] at h
      rw [h]
      exact List.not_mem_nil
  | cons c rest ih =>
      rw [List.splitOn_cons_eq_if_modifyHead] at h
      split_ifs at h with hc
      · rcases List.mem_cons.mp h with rfl | h
        · exact List.not_mem_nil
        · exact ih h
      · cases hrest : rest.splitOn separator with
        | nil => exact absurd hrest (List.splitOn_ne_nil _ _)
        | cons first parts =>
            rw [hrest] at h ih
            rw [List.modifyHead_cons, List.mem_cons] at h
            rcases h with rfl | h
            · rw [List.mem_cons, not_or]
              exact ⟨fun heq => hc (beq_iff_eq.mpr heq.symm), ih List.mem_cons_self⟩
            · exact ih (List.mem_cons_of_mem _ h)

/-- The parts of a split text do not contain the separator. -/
theorem notMem_of_mem_split {separator : Char} {text part : String}
    (h : part ∈ split separator text) : separator ∉ part.toList := by
  obtain ⟨cs, hcs, rfl⟩ := List.mem_map.mp h
  rw [String.toList_ofList]
  exact notMem_of_mem_splitOn hcs

/-- Joined parts are told apart by their text, unless one side has none. -/
theorem join_inj {separator : Char} {parts parts' : List String} (hne : parts ≠ [])
    (hne' : parts' ≠ []) (h : ∀ part ∈ parts, separator ∉ part.toList)
    (h' : ∀ part ∈ parts', separator ∉ part.toList)
    (heq : join separator parts = join separator parts') : parts = parts' := by
  rw [← split_join hne h, heq, split_join hne' h']

theorem notMem_join {separator c : Char} {parts : List String} (hne : c ≠ separator)
    (h : ∀ part ∈ parts, c ∉ part.toList) : c ∉ (join separator parts).toList := by
  rw [join, String.toList_ofList]
  induction parts with
  | nil => simp
  | cons part rest ih =>
      have ih := ih fun part hpart => h part (List.mem_cons_of_mem _ hpart)
      have hpart := h part List.mem_cons_self
      cases rest with
      | nil => simpa using hpart
      | cons next rest =>
          rw [List.map_cons, List.map_cons, List.intercalate_cons_cons, List.mem_append,
            List.mem_append, List.mem_singleton, not_or, not_or]
          exact ⟨⟨hpart, hne⟩, ih⟩

/-- The part in front of the first separator, and what follows it. -/
def cut (separator : Char) (text : String) : String × Option String :=
  match text.toList.dropWhile (· ≠ separator) with
  | [] => (text, none)
  | _ :: rest => (String.ofList (text.toList.takeWhile (· ≠ separator)), some (String.ofList rest))

theorem cut_append {separator : Char} (first rest : String) (h : separator ∉ first.toList) :
    cut separator (first ++ String.singleton separator ++ rest) = (first, some rest) := by
  have hfirst : ∀ c ∈ first.toList, decide (c ≠ separator) = true := by
    intro c hc
    exact decide_eq_true fun heq => h (heq ▸ hc)
  have htext : (first ++ String.singleton separator ++ rest).toList =
      first.toList ++ separator :: rest.toList := by
    simp
  rw [cut, htext, List.dropWhile_append_of_pos hfirst, List.takeWhile_append_of_pos hfirst]
  simp

theorem cut_of_notMem {separator : Char} {text : String} (h : separator ∉ text.toList) :
    cut separator text = (text, none) := by
  have htext : text.toList.dropWhile (· ≠ separator) = [] := by
    apply List.dropWhile_eq_nil_iff.mpr
    intro c hc
    exact decide_eq_true fun heq => h (heq ▸ hc)
  rw [cut, htext]

end SplitText
