import Mathlib.Tactic.Common

/-! # Runs of a labelled step function

A system is a total step function on states and labels; a refused label is a
step that changes nothing. Every run is a finite list of labels. The rules
below package the inductions on runs once: an invariant, a relation between
two states of one run, and both for runs whose labels are restricted.
-/

namespace LabelledRun

variable {State Label : Type*} (step : State → Label → State)

/-- The state a run ends in. -/
def run (s : State) (labels : List Label) : State := labels.foldl step s

@[simp] theorem run_nil (s : State) : run step s [] = s := rfl

@[simp] theorem run_cons (s : State) (l : Label) (labels : List Label) :
    run step s (l :: labels) = run step (step s l) labels := rfl

theorem run_append (s : State) (first second : List Label) :
    run step s (first ++ second) = run step (run step s first) second :=
  List.foldl_append

theorem run_concat (s : State) (labels : List Label) (l : Label) :
    run step s (labels ++ [l]) = step (run step s labels) l := by
  simp [run_append]

/-- What every step preserves, every run preserves. -/
theorem run_invariant (inv : State → Prop) (hstep : ∀ s l, inv s → inv (step s l))
    {s : State} (hs : inv s) (labels : List Label) : inv (run step s labels) := by
  induction labels generalizing s with
  | nil => exact hs
  | cons l rest ih => exact ih (hstep s l hs)

/-- A reflexive and transitive relation that holds across each step of an
invariant's states holds between the two ends of a run. -/
theorem run_relates (inv : State → Prop) (rel : State → State → Prop)
    (hrefl : ∀ s, rel s s) (htrans : ∀ s t u, rel s t → rel t u → rel s u)
    (hinv : ∀ s l, inv s → inv (step s l)) (hrel : ∀ s l, inv s → rel s (step s l))
    {s : State} (hs : inv s) (labels : List Label) : rel s (run step s labels) := by
  induction labels generalizing s with
  | nil => exact hrefl s
  | cons l rest ih => exact htrans _ _ _ (hrel s l hs) (ih (hinv s l hs))

/-! ## Restricted runs -/

/-- Every label of the run is allowed in the state it is taken in. -/
def Admissible (allowed : State → Label → Prop) : State → List Label → Prop
  | _, [] => True
  | s, l :: rest => allowed s l ∧ Admissible allowed (step s l) rest

variable {allowed : State → Label → Prop}

theorem admissible_append (s : State) (first second : List Label) :
    Admissible step allowed s (first ++ second) ↔
      Admissible step allowed s first ∧ Admissible step allowed (run step s first) second := by
  induction first generalizing s with
  | nil => simp [Admissible]
  | cons l rest ih => simp [Admissible, ih, and_assoc]

/-- Labels that are allowed in every state. -/
theorem admissible_of_forall {labels : List Label} (h : ∀ l ∈ labels, ∀ s, allowed s l)
    (s : State) : Admissible step allowed s labels := by
  induction labels generalizing s with
  | nil => trivial
  | cons l rest ih =>
      exact ⟨h l List.mem_cons_self s, ih (fun l' hl' => h l' (List.mem_cons_of_mem _ hl')) _⟩

/-- What every allowed step preserves, every admissible run preserves. -/
theorem admissible_invariant (inv : State → Prop)
    (hstep : ∀ s l, inv s → allowed s l → inv (step s l))
    {s : State} (hs : inv s) {labels : List Label}
    (hlabels : Admissible step allowed s labels) : inv (run step s labels) := by
  induction labels generalizing s with
  | nil => exact hs
  | cons l rest ih => exact ih (hstep s l hs hlabels.1) hlabels.2

/-- A restriction that keeps the invariant allows only what another allows, when it does so
wherever the invariant holds. -/
theorem admissible_mono {allowed' : State → Label → Prop} (inv : State → Prop)
    (himp : ∀ s l, inv s → allowed s l → allowed' s l)
    (hstep : ∀ s l, inv s → allowed s l → inv (step s l))
    {s : State} (hs : inv s) {labels : List Label} (h : Admissible step allowed s labels) :
    Admissible step allowed' s labels := by
  induction labels generalizing s with
  | nil => exact h
  | cons l rest ih => exact ⟨himp s l hs h.1, ih (hstep s l hs h.1) h.2⟩

/-- Two restrictions that agree wherever the invariant holds allow the same runs, when the
second keeps the invariant. -/
theorem admissible_congr {allowed' : State → Label → Prop} (inv : State → Prop)
    (hiff : ∀ s l, inv s → (allowed s l ↔ allowed' s l))
    (hstep : ∀ s l, inv s → allowed' s l → inv (step s l))
    {s : State} (hs : inv s) (labels : List Label) :
    Admissible step allowed s labels ↔ Admissible step allowed' s labels :=
  ⟨admissible_mono step inv (fun s l h => (hiff s l h).mp)
      (fun s l h hallowed => hstep s l h ((hiff s l h).mp hallowed)) hs,
    admissible_mono step inv (fun s l h => (hiff s l h).mpr) hstep hs⟩

/-- The restricted form of `run_relates`. -/
theorem admissible_relates (inv : State → Prop) (rel : State → State → Prop)
    (hrefl : ∀ s, rel s s) (htrans : ∀ s t u, rel s t → rel t u → rel s u)
    (hinv : ∀ s l, inv s → allowed s l → inv (step s l))
    (hrel : ∀ s l, inv s → allowed s l → rel s (step s l))
    {s : State} (hs : inv s) {labels : List Label}
    (hlabels : Admissible step allowed s labels) : rel s (run step s labels) := by
  induction labels generalizing s with
  | nil => exact hrefl s
  | cons l rest ih =>
      exact htrans _ _ _ (hrel s l hs hlabels.1) (ih (hinv s l hs hlabels.1) hlabels.2)

end LabelledRun
