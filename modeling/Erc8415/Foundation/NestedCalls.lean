import Mathlib.Data.List.Basic

/-! # Nested calls that can be undone

A machine runs calls inside calls over a world. Entering a call remembers where
the machine was; a call that fails puts that back, with everything done inside
it. What was not undone stands: the machine carries its standing states, so that
a property of a run can be stated of the states that remained part of it.
-/

namespace NestedCalls

variable {World Tag : Type*}

/-- The current state and the standing states before it, latest first. -/
structure Trail (World : Type*) where
  now : World
  earlier : List World

namespace Trail

def states (t : Trail World) : List World := t.now :: t.earlier

/-- Go on to another state. -/
def move (t : Trail World) (w : World) : Trail World := ⟨w, t.states⟩

theorem now_mem (t : Trail World) : t.now ∈ t.states := List.mem_cons_self

/-- What relates every state to the one it moves to relates it to every later one. -/
theorem pairwise_move {rel : World → World → Prop} {t : Trail World} {w : World}
    (htrans : ∀ u v, rel u v → rel v w → rel u w)
    (h : t.states.Pairwise fun later before => rel before later) (hmove : rel t.now w) :
    (t.move w).states.Pairwise fun later before => rel before later := by
  refine List.pairwise_cons.mpr ⟨fun u hu => ?_, h⟩
  rcases List.mem_cons.mp hu with rfl | hearlier
  · exact hmove
  · exact htrans u t.now ((List.pairwise_cons.mp h).1 u hearlier) hmove

end Trail

/-- A call in progress: where the machine was, and the state the call began in. -/
structure Frame (World Tag : Type*) where
  tag : Tag
  before : Trail World
  entered : World

/-- The trail the call began with. -/
def Frame.inside (f : Frame World Tag) : Trail World := f.before.move f.entered

structure Machine (World Tag : Type*) where
  trail : Trail World
  stack : List (Frame World Tag)

namespace Machine

variable {m : Machine World Tag}

/-- Between calls, with nothing done yet. -/
def start (w : World) : Machine World Tag := ⟨⟨w, []⟩, []⟩

def now (m : Machine World Tag) : World := m.trail.now

def move (m : Machine World Tag) (w : World) : Machine World Tag := ⟨m.trail.move w, m.stack⟩

/-- Begin a call, which starts in a state. -/
def enter (m : Machine World Tag) (tag : Tag) (w : World) : Machine World Tag :=
  ⟨m.trail.move w, ⟨tag, m.trail, w⟩ :: m.stack⟩

/-- End the innermost call. One that failed is undone. -/
def leave (m : Machine World Tag) (success : Bool) : Machine World Tag :=
  match m.stack with
  | [] => m
  | f :: rest => if success then ⟨m.trail, rest⟩ else ⟨f.before, rest⟩

/-- What holds of every trail the machine could still put back, and of every call it is in. -/
structure Coherent (inv : Trail World → Prop) (opens : Tag → World → World → Prop)
    (m : Machine World Tag) : Prop where
  trail : inv m.trail
  frames : ∀ f ∈ m.stack, inv f.before ∧ opens f.tag f.before.now f.entered
  nested : ∀ f ∈ m.stack, f.inside.states <:+ m.trail.states
  stacked : m.stack.Pairwise fun inner outer => outer.inside.states <:+ inner.before.states

namespace Coherent

variable {inv : Trail World → Prop} {opens : Tag → World → World → Prop} {w : World} {tag : Tag}

theorem start (h : inv ⟨w, []⟩) : (start w : Machine World Tag).Coherent inv opens where
  trail := h
  frames := nofun
  nested := nofun
  stacked := .nil

theorem move (h : m.Coherent inv opens) (hmove : inv (m.trail.move w)) :
    (m.move w).Coherent inv opens where
  trail := hmove
  frames := h.frames
  nested f hf := (h.nested f hf).trans (List.suffix_cons w _)
  stacked := h.stacked

theorem enter (h : m.Coherent inv opens) (hmove : inv (m.trail.move w))
    (hopens : opens tag m.now w) : (m.enter tag w).Coherent inv opens where
  trail := hmove
  frames f hf := by
    rcases List.mem_cons.mp hf with rfl | hold
    · exact ⟨h.trail, hopens⟩
    · exact h.frames f hold
  nested f hf := by
    rcases List.mem_cons.mp hf with rfl | hold
    · exact List.suffix_rfl
    · exact (h.nested f hold).trans (List.suffix_cons w _)
  stacked := List.pairwise_cons.mpr ⟨h.nested, h.stacked⟩

theorem leave (h : m.Coherent inv opens) (success : Bool) :
    (m.leave success).Coherent inv opens := by
  unfold Machine.leave
  cases hstack : m.stack with
  | nil => exact h
  | cons f rest =>
      obtain ⟨hframes, hnested, hstacked⟩ := (⟨h.frames, h.nested, h.stacked⟩ : _ ∧ _ ∧ _)
      rw [hstack] at hframes hnested hstacked
      obtain ⟨hinner, hrest⟩ := List.pairwise_cons.mp hstacked
      have hframesRest := fun g hg => hframes g (List.mem_cons_of_mem f hg)
      cases success with
      | true =>
          exact {
            trail := h.trail
            frames := hframesRest
            nested := fun g hg => hnested g (List.mem_cons_of_mem f hg)
            stacked := hrest }
      | false =>
          exact {
            trail := (hframes f List.mem_cons_self).1
            frames := hframesRest
            nested := hinner
            stacked := hrest }

end Coherent

/-- A state that stands and is not inside any call that can still be undone. -/
def Committed (w : World) (m : Machine World Tag) : Prop :=
  m.Coherent (fun t => w ∈ t.states) (fun _ _ _ => True)

namespace Committed

variable {w : World}

theorem of_idle (h : m.stack = []) : Committed m.now m where
  trail := m.trail.now_mem
  frames := by simp [h]
  nested := by simp [h]
  stacked := by simp [h]

theorem move (h : Committed w m) (next : World) : Committed w (m.move next) :=
  Coherent.move h (List.mem_cons_of_mem next h.trail)

theorem enter (h : Committed w m) (tag : Tag) (next : World) : Committed w (m.enter tag next) :=
  Coherent.enter h (List.mem_cons_of_mem next h.trail) trivial

theorem leave (h : Committed w m) (success : Bool) : Committed w (m.leave success) :=
  Coherent.leave h success

end Committed

end Machine

end NestedCalls
