import Mathlib.Data.List.DropRight
import Mathlib.Tactic.Common

/-! # Logs of terminated lines

A text over any alphabet, as complete lines that each end in a terminator and a
torn tail without one. Splitting such a text gives its lines back, and dropping
the tail leaves the lines. Whatever part of a tail is cut away and whatever part
of a line is written, the text stays a log: of the same lines, or of one more.
-/

namespace LineLog

variable {α : Type*} {sep : α}

/-- Complete lines, one after the other. -/
def render (sep : α) (lines : List (List α)) : List α := lines.flatMap fun line => line ++ [sep]

theorem render_concat (lines : List (List α)) (line : List α) :
    render sep (lines ++ [line]) = render sep lines ++ (line ++ [sep]) := by
  simp [render]

/-- A prefix of a line and its terminator is the whole of it, or has no terminator. -/
theorem take_line {line : List α} (hline : sep ∉ line) (n : Nat) :
    line.length < n ∧ (line ++ [sep]).take n = line ++ [sep] ∨
      n ≤ line.length ∧ sep ∉ (line ++ [sep]).take n := by
  by_cases hn : n ≤ line.length
  · refine Or.inr ⟨hn, ?_⟩
    rw [List.take_append_of_le_length hn]
    exact fun hmem => hline (List.mem_of_mem_take hmem)
  · refine Or.inl ⟨by omega, List.take_of_length_le ?_⟩
    rw [List.length_append, List.length_singleton]
    omega

/-- A text of some complete lines and a torn tail. -/
def Torn (sep : α) (lines : List (List α)) (cs : List α) : Prop :=
  ∃ tail, sep ∉ tail ∧ cs = render sep lines ++ tail

theorem Torn.render (lines : List (List α)) : Torn sep lines (render sep lines) :=
  ⟨[], List.not_mem_nil, (List.append_nil _).symm⟩

/-- Cutting away some of the tail. -/
theorem Torn.take {lines : List (List α)} {cs : List α} (h : Torn sep lines cs) {n : Nat}
    (hn : (LineLog.render sep lines).length ≤ n) : Torn sep lines (cs.take n) := by
  obtain ⟨tail, htail, rfl⟩ := h
  refine ⟨tail.take (n - (LineLog.render sep lines).length), ?_, ?_⟩
  · exact fun hmem => htail (List.mem_of_mem_take hmem)
  · rw [List.take_append, List.take_of_length_le hn]

/-- Writing some of a line: another torn tail, or one more line. -/
theorem Torn.write {lines : List (List α)} {line : List α} (hline : sep ∉ line) (n : Nat) :
    Torn sep (if line.length < n then lines ++ [line] else lines)
      (LineLog.render sep lines ++ (line ++ [sep]).take n) := by
  rcases take_line hline n with ⟨hn, htake⟩ | ⟨hn, htail⟩
  · rw [if_pos hn, htake, ← render_concat]
    exact Torn.render _
  · rw [if_neg (by omega)]
    exact ⟨_, htail, rfl⟩

/-! ## Reading a log -/

variable [DecidableEq α]

/-- A text through its last terminator. -/
def complete (sep : α) (cs : List α) : List α := cs.rdropWhile fun c => c != sep

/-- Dropping the tail leaves the lines. -/
theorem Torn.complete {lines : List (List α)} {cs : List α} (h : Torn sep lines cs) :
    complete sep cs = LineLog.render sep lines := by
  obtain ⟨tail, htail, rfl⟩ := h
  induction tail using List.reverseRecOn with
  | nil =>
      rw [List.append_nil]
      induction lines using List.reverseRecOn with
      | nil => rfl
      | append_singleton rest line _ =>
          rw [render_concat, ← List.append_assoc, LineLog.complete]
          exact List.rdropWhile_concat_neg _ _ _ (by simp)
  | append_singleton rest c ih =>
      have hc : c ≠ sep := fun heq => htail (by simp [heq])
      have hrest : sep ∉ rest := fun hmem => htail (by simp [hmem])
      rw [← List.append_assoc, LineLog.complete,
        List.rdropWhile_concat_pos _ _ _ (by simpa using hc)]
      exact ih hrest

/-- What stands behind the last terminator. -/
def tail (sep : α) (cs : List α) : List α := cs.rtakeWhile fun c => c != sep

theorem tail_append {lines : List (List α)} {torn : List α} (htorn : sep ∉ torn) :
    tail sep (LineLog.render sep lines ++ torn) = torn := by
  have hcomplete : complete sep (LineLog.render sep lines ++ torn) = LineLog.render sep lines :=
    Torn.complete ⟨torn, htorn, rfl⟩
  have hsplit := List.rdropWhile_append_rtakeWhile (p := fun c => c != sep)
    (l := LineLog.render sep lines ++ torn)
  rw [← complete, hcomplete] at hsplit
  exact List.append_cancel_left hsplit

/-- Splitting at the terminator gives the lines, then the tail. -/
theorem splitOn_render {lines : List (List α)} {tail : List α} (hlines : ∀ l ∈ lines, sep ∉ l)
    (htail : sep ∉ tail) : (render sep lines ++ tail).splitOn sep = lines ++ [tail] := by
  induction lines with
  | nil => exact List.splitOn_eq_singleton htail
  | cons line rest ih =>
      have hline := hlines line List.mem_cons_self
      have hrest := ih fun l hl => hlines l (List.mem_cons_of_mem _ hl)
      have hcons : render sep (line :: rest) ++ tail =
          line ++ sep :: (render sep rest ++ tail) := by
        simp [render]
      rw [hcons, List.splitOn_append_cons_self, List.splitOn_eq_singleton hline, hrest]
      rfl

theorem Torn.lines {lines : List (List α)} {cs : List α} (h : Torn sep lines cs)
    (hlines : ∀ l ∈ lines, sep ∉ l) : (cs.splitOn sep).dropLast = lines := by
  obtain ⟨tail, htail, rfl⟩ := h
  rw [splitOn_render hlines htail, List.dropLast_concat]

end LineLog
