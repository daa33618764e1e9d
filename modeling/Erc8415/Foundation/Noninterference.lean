import Erc8415.Foundation.LabelledRun

/-! # Noninterference by unwinding

An observer of a system is concerned by some of the labels of a run. Whether
the labels that do not concern the observer interfere is a question about two
runs, the run itself and the run without them. Three facts about one step, told
over the states that look alike to the observer, answer it for every run.
-/

namespace Noninterference

variable {State Label Output : Type*}

/-- What one step owes an observer, to whom some states look alike. -/
structure Unwinds (step : State → Label → State) (output : State → Label → Output)
    (concerns : State → Label → Bool) (alike : State → State → Prop) : Prop where
  refl : ∀ s, alike s s
  trans : ∀ s t u, alike s t → alike t u → alike s u
  symm : ∀ s t, alike s t → alike t s
  /-- States that look alike are concerned by the same labels. -/
  concerns_eq : ∀ s t l, alike s t → concerns s l = concerns t l
  /-- A label of no concern leaves the state as it looks. -/
  unconcerned : ∀ s l, concerns s l = false → alike s (step s l)
  /-- A label of concern does the same to states that look alike. -/
  consistent : ∀ s t l, alike s t → concerns s l = true → alike (step s l) (step t l)
  /-- And gives the same output in both. -/
  outputs_eq : ∀ s t l, alike s t → concerns s l = true → output s l = output t l

section Purging

variable (step : State → Label → State) (output : State → Label → Output)
  (concerns : State → Label → Bool)

/-- The labels of a run that are of concern in the state they are taken in. -/
def purge : State → List Label → List Label
  | _, [] => []
  | s, l :: rest => if concerns s l then l :: purge (step s l) rest else purge (step s l) rest

/-- What the observer is told over a run. -/
def outputs : State → List Label → List Output
  | _, [] => []
  | s, l :: rest =>
      if concerns s l then output s l :: outputs (step s l) rest else outputs (step s l) rest

end Purging

variable {step : State → Label → State} {output : State → Label → Output}
  {concerns : State → Label → Bool} {alike : State → State → Prop}

namespace Unwinds

/-- A label that is not of concern in one state leads nowhere new from a state like it. -/
theorem skip (h : Unwinds step output concerns alike) {s t : State} {l : Label}
    (hst : alike s t) (hl : concerns s l = false) : alike (step s l) t :=
  h.trans _ _ _ (h.symm _ _ (h.unconcerned s l hl)) hst

/-- A run and its purged run, from states that look alike, end in states that look alike. -/
theorem run_purge (h : Unwinds step output concerns alike) {s t : State} (hst : alike s t)
    (labels : List Label) :
    alike (LabelledRun.run step s labels)
      (LabelledRun.run step t (purge step concerns s labels)) := by
  induction labels generalizing s t with
  | nil => exact hst
  | cons l rest ih =>
      rw [LabelledRun.run_cons, purge]
      cases hl : concerns s l with
      | true =>
          rw [if_pos rfl, LabelledRun.run_cons]
          exact ih (h.consistent s t l hst hl)
      | false =>
          rw [if_neg (by decide)]
          exact ih (h.skip hst hl)

/-- And tell the observer the same. -/
theorem outputs_purge (h : Unwinds step output concerns alike) {s t : State} (hst : alike s t)
    (labels : List Label) :
    outputs step output concerns s labels =
      outputs step output concerns t (purge step concerns s labels) := by
  induction labels generalizing s t with
  | nil => rfl
  | cons l rest ih =>
      rw [outputs, purge]
      cases hl : concerns s l with
      | true =>
          have ht : concerns t l = true := (h.concerns_eq s t l hst).symm.trans hl
          rw [if_pos rfl, if_pos rfl, outputs, ht, if_pos rfl, h.outputs_eq s t l hst hl,
            ih (h.consistent s t l hst hl)]
      | false =>
          rw [if_neg (by decide), if_neg (by decide)]
          exact ih (h.skip hst hl)

end Unwinds

/-! ## A slice of a system

Where the labels that concern an observer are known without the state, and what
the observer sees is a view, the run the observer is told is the run of those
labels alone. Two runs with the same ones look the same, however the others are
interleaved with them.
-/

/-- A view of a system's states that only some of the labels touch, under an invariant and
for the labels that are allowed. -/
structure Sliced {View : Type*} (step : State → Label → State) (output : State → Label → Output)
    (inv : State → Prop) (allowed : Label → Prop) (concerns : Label → Bool)
    (view : State → View) : Prop where
  keeps : ∀ s l, inv s → allowed l → inv (step s l)
  unconcerned : ∀ s l, inv s → allowed l → concerns l = false → view (step s l) = view s
  consistent : ∀ s t l, inv s → inv t → allowed l → concerns l = true → view s = view t →
    view (step s l) = view (step t l)
  outputs_eq : ∀ s t l, inv s → inv t → allowed l → concerns l = true → view s = view t →
    output s l = output t l

namespace Sliced

variable {View : Type*} {inv : State → Prop} {allowed : Label → Prop} {concerned : Label → Bool}
  {view : State → View}

theorem run_filter (h : Sliced step output inv allowed concerned view) {s t : State}
    (hs : inv s) (ht : inv t) (hst : view s = view t) {labels : List Label}
    (hlabels : ∀ l ∈ labels, allowed l) :
    view (LabelledRun.run step s labels) =
        view (LabelledRun.run step t (labels.filter concerned)) ∧
      outputs step output (fun _ l => concerned l) s labels =
        outputs step output (fun _ l => concerned l) t (labels.filter concerned) := by
  induction labels generalizing s t with
  | nil => exact ⟨hst, rfl⟩
  | cons l rest ih =>
      have hl := hlabels l List.mem_cons_self
      have hrest : ∀ l ∈ rest, allowed l := fun l' hl' => hlabels l' (List.mem_cons_of_mem l hl')
      have hs' := h.keeps s l hs hl
      cases hconcerned : concerned l with
      | true =>
          have hnext := ih hs' (h.keeps t l ht hl)
            (h.consistent s t l hs ht hl hconcerned hst) hrest
          rw [List.filter_cons_of_pos hconcerned, LabelledRun.run_cons, LabelledRun.run_cons]
          refine ⟨hnext.1, ?_⟩
          simp only [outputs, hconcerned, if_true]
          rw [h.outputs_eq s t l hs ht hl hconcerned hst, hnext.2]
      | false =>
          have hnext := ih hs' ht ((h.unconcerned s l hs hl hconcerned).trans hst) hrest
          rw [List.filter_cons_of_neg (by simp [hconcerned]), LabelledRun.run_cons]
          refine ⟨hnext.1, ?_⟩
          simp only [outputs, hconcerned, Bool.false_eq_true, if_false]
          exact hnext.2

/-- Two runs with the same labels of concern end looking the same, and say the same. -/
theorem run_congr (h : Sliced step output inv allowed concerned view) {s t : State}
    (hs : inv s) (ht : inv t) (hst : view s = view t) {labels labels' : List Label}
    (hlabels : ∀ l ∈ labels, allowed l) (hlabels' : ∀ l ∈ labels', allowed l)
    (hsame : labels.filter concerned = labels'.filter concerned) :
    view (LabelledRun.run step s labels) = view (LabelledRun.run step t labels') ∧
      outputs step output (fun _ l => concerned l) s labels =
        outputs step output (fun _ l => concerned l) t labels' := by
  have hleft := h.run_filter hs ht hst hlabels
  have hright := h.run_filter ht ht rfl hlabels'
  rw [hsame] at hleft
  exact ⟨hleft.1.trans hright.1.symm, hleft.2.trans hright.2.symm⟩

end Sliced

end Noninterference
