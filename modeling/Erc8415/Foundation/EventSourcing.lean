import Erc8415.Foundation.LabelledRun

/-! # Event logs of a labelled system

A system that reports what its steps do. The events of a run are those of its
steps, in order. A reader keeps a view of the state and applies each event to
it; where one step's events bring its view from the state before to the state
after, those of a run do, from whatever state the reader starts at.
-/

namespace EventSourcing

open LabelledRun

variable {State Label Event View : Type*}

section Log

variable (step : State → Label → State) (emits : State → Label → List Event)

/-- The events of a run, in the order they are emitted. -/
def log : State → List Label → List Event
  | _, [] => []
  | s, l :: rest => emits s l ++ log (step s l) rest

@[simp] theorem log_nil (s : State) : log step emits s [] = [] := rfl

@[simp] theorem log_cons (s : State) (l : Label) (rest : List Label) :
    log step emits s (l :: rest) = emits s l ++ log step emits (step s l) rest := rfl

/-- A relation between the events so far and the state, kept by every step of an invariant's
states, holds between the events of a run and the state it ends in. -/
theorem log_invariant (inv : State → Prop) (rel : List Event → State → Prop)
    (hinv : ∀ s l, inv s → inv (step s l))
    (hrel : ∀ past s l, inv s → rel past s → rel (past ++ emits s l) (step s l))
    {s : State} (hs : inv s) {past : List Event} (hpast : rel past s) (labels : List Label) :
    rel (past ++ log step emits s labels) (run step s labels) := by
  induction labels generalizing s past with
  | nil =>
      rw [log_nil, List.append_nil]
      exact hpast
  | cons l rest ih =>
      rw [log_cons, ← List.append_assoc]
      exact ih (hinv s l hs) (hrel past s l hs hpast)

end Log

/-- What a reader makes of a list of events. -/
def playback (apply : View → Event → View) (v : View) (events : List Event) : View :=
  events.foldl apply v

section Playback

variable (apply : View → Event → View)

@[simp] theorem playback_nil (v : View) : playback apply v [] = v := rfl

@[simp] theorem playback_cons (v : View) (e : Event) (rest : List Event) :
    playback apply v (e :: rest) = playback apply (apply v e) rest := rfl

theorem playback_append (v : View) (first second : List Event) :
    playback apply v (first ++ second) = playback apply (playback apply v first) second :=
  List.foldl_append

end Playback

/-- The events of a step tell a reader everything its view shows of the step. -/
structure Sourced (step : State → Label → State) (emits : State → Label → List Event)
    (apply : View → Event → View) (inv : State → Prop) (view : State → View) : Prop where
  keeps : ∀ s l, inv s → inv (step s l)
  applies : ∀ s l, inv s → playback apply (view s) (emits s l) = view (step s l)

/-- Then the log of a run tells it everything its view shows of the run. -/
theorem Sourced.run {step : State → Label → State} {emits : State → Label → List Event}
    {apply : View → Event → View} {inv : State → Prop} {view : State → View}
    (h : Sourced step emits apply inv view) {s : State} (hs : inv s) (labels : List Label) :
    playback apply (view s) (log step emits s labels) = view (LabelledRun.run step s labels) := by
  induction labels generalizing s with
  | nil => rfl
  | cons l rest ih =>
      rw [log_cons, playback_append, h.applies s l hs, run_cons]
      exact ih (h.keeps s l hs)

end EventSourcing
