import Mathlib.Order.RelClasses

/-! # Loops whose body may throw

`do s = body(k, s); while (again(s))`, where `k` numbers the passes, so that the
body may depend on what the environment does between them. The rule below is
for total correctness: an invariant that each pass keeps, and a state that goes
down in a well-founded relation from one pass to the next.
-/

namespace DoWhile

variable {State ε : Type*} (body : Nat → State → Except ε State) (again : State → Bool)

/-- The loop from pass `k` on: the last pass and what it came to, unless `fuel` passes are
not enough. -/
def run : Nat → Nat → State → Option (Nat × Except ε State)
  | 0, _, _ => none
  | fuel + 1, k, s =>
      match body k s with
      | .error e => some (k, .error e)
      | .ok s' => if again s' then run fuel (k + 1) s' else some (k, .ok s')

/-- The loop ends: any fuel from some amount on gives this result. -/
def Ends (k : Nat) (s : State) (last : Nat) (result : Except ε State) : Prop :=
  ∃ fuel, ∀ fuel' ≥ fuel, run body again fuel' k s = some (last, result)

section Ends

variable {body again}

theorem ends_of_error {k : Nat} {s : State} {e : ε} (h : body k s = .error e) :
    Ends body again k s k (.error e) := by
  refine ⟨1, fun fuel hfuel => ?_⟩
  obtain ⟨n, rfl⟩ := Nat.exists_eq_add_of_le' hfuel
  rw [run, h]

theorem ends_of_stop {k : Nat} {s s' : State} (h : body k s = .ok s') (hstop : again s' = false) :
    Ends body again k s k (.ok s') := by
  refine ⟨1, fun fuel hfuel => ?_⟩
  obtain ⟨n, rfl⟩ := Nat.exists_eq_add_of_le' hfuel
  simp only [run, h, hstop, Bool.false_eq_true, if_false]

theorem Ends.of_pass {k last : Nat} {s s' : State} {result : Except ε State}
    (h : body k s = .ok s') (hagain : again s' = true)
    (hrest : Ends body again (k + 1) s' last result) : Ends body again k s last result := by
  obtain ⟨fuel, hfuel⟩ := hrest
  refine ⟨fuel + 1, fun fuel' hle => ?_⟩
  obtain ⟨n, rfl⟩ := Nat.exists_eq_add_of_le' hle
  simp only [run, h, hagain, if_true]
  exact hfuel (n + fuel) (Nat.le_add_left fuel n)

end Ends

/-- Total correctness: the loop ends, and where it does not throw the last pass has the
postcondition. -/
theorem ends_of_invariant {rel : State → State → Prop} (hwf : WellFounded rel)
    (inv post : Nat → State → Prop)
    (hagain : ∀ k s s', inv k s → body k s = .ok s' → again s' = true →
      inv (k + 1) s' ∧ rel s' s)
    (hstop : ∀ k s s', inv k s → body k s = .ok s' → again s' = false → post k s')
    {k : Nat} {s : State} (h : inv k s) :
    ∃ last result, Ends body again k s last result ∧
      ((∃ s', result = .ok s' ∧ post last s') ∨
        ∃ e s', result = .error e ∧ inv last s' ∧ body last s' = .error e) := by
  induction s using hwf.induction generalizing k with
  | _ s ih =>
      cases hbody : body k s with
      | error e => exact ⟨k, .error e, ends_of_error hbody, Or.inr ⟨e, s, rfl, h, hbody⟩⟩
      | ok s' =>
          cases hcontinue : again s' with
          | false =>
              exact ⟨k, .ok s', ends_of_stop hbody hcontinue,
                Or.inl ⟨s', rfl, hstop k s s' h hbody hcontinue⟩⟩
          | true =>
              obtain ⟨hinv, hrel⟩ := hagain k s s' h hbody hcontinue
              obtain ⟨last, result, hends, hresult⟩ := ih s' hrel hinv
              exact ⟨last, result, hends.of_pass hbody hcontinue, hresult⟩

end DoWhile
