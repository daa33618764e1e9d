import Mathlib.Algebra.Group.Nat.Defs
import Mathlib.Tactic.Common

/-! # Merkle trees

A tree over a list of leaves, built level by level: neighbours are combined, and
a last node without a neighbour is combined with itself. A path is a list of
steps, each of which names a sibling and its side, and is climbed from a node by
combining. Nothing is said of how deep a path may be, so a path that leads to
the root need not start at a leaf.
-/

namespace MerkleTree

variable {α S : Type*}

/-- The neighbours of a level, the last one its own where it has none. -/
def pairUp : List α → List (α × α)
  | [] => []
  | [a] => [(a, a)]
  | a :: b :: rest => (a, b) :: pairUp rest

theorem length_pairUp (level : List α) : (pairUp level).length = (level.length + 1) / 2 := by
  induction level using pairUp.induct with
  | case1 => simp [pairUp]
  | case2 a => simp [pairUp]
  | case3 a b rest ih =>
      rw [pairUp, List.length_cons, ih, List.length_cons, List.length_cons]
      omega

theorem mem_of_mem_pairUp {level : List α} {pair : α × α} (h : pair ∈ pairUp level) :
    pair.1 ∈ level ∧ pair.2 ∈ level := by
  induction level using pairUp.induct with
  | case1 => cases h
  | case2 a =>
      rw [pairUp, List.mem_singleton] at h
      subst h
      exact ⟨List.mem_cons_self, List.mem_cons_self⟩
  | case3 a b rest ih =>
      rw [pairUp, List.mem_cons] at h
      rcases h with rfl | h
      · exact ⟨List.mem_cons_self, List.mem_cons_of_mem _ List.mem_cons_self⟩
      · obtain ⟨hfirst, hsecond⟩ := ih h
        exact ⟨List.mem_cons_of_mem _ (List.mem_cons_of_mem _ hfirst),
          List.mem_cons_of_mem _ (List.mem_cons_of_mem _ hsecond)⟩

variable (combine : α → α → α)

/-- One level up. -/
def above (level : List α) : List α := (pairUp level).map fun pair => combine pair.1 pair.2

/-- The root over a level, unless it has no node or `fuel` levels are not enough. -/
def rootFrom : Nat → List α → Option α
  | _, [] => none
  | _, [a] => some a
  | 0, _ => none
  | fuel + 1, level => rootFrom fuel (above combine level)

/-- The root over some leaves. There are no more levels than leaves. -/
def root (leaves : List α) : Option α := rootFrom combine leaves.length leaves

/-- Every pair that is combined on the way to the root. -/
def treePairs : Nat → List α → List (α × α)
  | _, [] => []
  | _, [_] => []
  | 0, _ => []
  | fuel + 1, level => pairUp level ++ treePairs fuel (above combine level)

variable {combine}

@[simp] theorem length_above (level : List α) :
    (above combine level).length = (level.length + 1) / 2 := by
  rw [above, List.length_map, length_pairUp]

/-- One node is its own root. -/
theorem rootFrom_of_le_one {level : List α} (h : level.length ≤ 1) (fuel : Nat) :
    rootFrom combine fuel level = level.head? := by
  cases level with
  | nil => cases fuel <;> rfl
  | cons a rest =>
      rw [List.length_eq_zero_iff.mp (Nat.le_zero.mp (Nat.le_of_succ_le_succ h))]
      cases fuel <;> rfl

theorem rootFrom_zero {level : List α} (h : 1 < level.length) :
    rootFrom combine 0 level = none := by
  match level, h with
  | _ :: _ :: _, _ => rfl

theorem rootFrom_succ {fuel : Nat} {level : List α} (h : 1 < level.length) :
    rootFrom combine (fuel + 1) level = rootFrom combine fuel (above combine level) := by
  match level, h with
  | _ :: _ :: _, _ => rfl

theorem treePairs_succ {fuel : Nat} {level : List α} (h : 1 < level.length) :
    treePairs combine (fuel + 1) level =
      pairUp level ++ treePairs combine fuel (above combine level) := by
  match level, h with
  | _ :: _ :: _, _ => rfl

theorem above_ne_nil {level : List α} (h : 1 < level.length) : above combine level ≠ [] := by
  intro heq
  have hlength := congrArg List.length heq
  rw [length_above, List.length_nil] at hlength
  omega

/-- Halving a level reaches one node, so some leaves have a root. -/
theorem rootFrom_isSome {fuel : Nat} {level : List α} (hne : level ≠ [])
    (hfuel : level.length ≤ fuel + 1) : ∃ r, rootFrom combine fuel level = some r := by
  induction fuel generalizing level with
  | zero =>
      rw [rootFrom_of_le_one hfuel]
      exact ⟨level.head hne, List.head?_eq_some_head hne⟩
  | succ fuel ih =>
      by_cases hone : 1 < level.length
      · rw [rootFrom_succ hone]
        refine ih (above_ne_nil hone) ?_
        rw [length_above]
        omega
      · rw [rootFrom_of_le_one (Nat.le_of_not_lt hone)]
        exact ⟨level.head hne, List.head?_eq_some_head hne⟩

theorem root_isSome {leaves : List α} (hne : leaves ≠ []) :
    ∃ r, root combine leaves = some r :=
  rootFrom_isSome hne (Nat.le_succ leaves.length)

/-! ## Steps -/

/-- What a step has to say: its sibling, and on which side that stands. -/
structure Steps (α S : Type*) where
  onLeft : α → S
  onRight : α → S
  pair : S → α → α × α
  pair_onLeft : ∀ sibling node, pair (onLeft sibling) node = (sibling, node)
  pair_onRight : ∀ sibling node, pair (onRight sibling) node = (node, sibling)
  node_mem : ∀ step node, (pair step node).1 = node ∨ (pair step node).2 = node

variable (combine) (steps : Steps α S)

/-- The node above, by one step. -/
def stepUp (node : α) (step : S) : α :=
  combine (steps.pair step node).1 (steps.pair step node).2

/-- The node a path leads to. -/
def climb (node : α) (path : List S) : α := path.foldl (stepUp combine steps) node

/-- Every pair that is combined along a path. -/
def pathPairs (node : α) : List S → List (α × α)
  | [] => []
  | step :: rest => steps.pair step node :: pathPairs (stepUp combine steps node step) rest

variable {combine steps}

theorem climb_concat (node : α) (front : List S) (step : S) :
    climb combine steps node (front ++ [step]) =
      stepUp combine steps (climb combine steps node front) step := by
  rw [climb, List.foldl_append]
  rfl

/-- The pair of a step is one of the pairs along the path. -/
theorem pair_mem_pathPairs {node : α} {front path : List S} {step : S}
    (h : front ++ [step] <+: path) :
    steps.pair step (climb combine steps node front) ∈ pathPairs combine steps node path := by
  obtain ⟨rest, rfl⟩ := h
  induction front generalizing node with
  | nil => exact List.mem_cons_self
  | cons first front ih => exact List.mem_cons_of_mem _ ih

/-! ## What is combined -/

section Combined

variable {P : α → Prop} (hcombine : ∀ a b, P (combine a b))

include hcombine

/-- What holds of the leaves and of everything combined holds throughout a tree. -/
theorem of_mem_treePairs {fuel : Nat} {level : List α} (hlevel : ∀ node ∈ level, P node)
    {pair : α × α} (h : pair ∈ treePairs combine fuel level) : P pair.1 ∧ P pair.2 := by
  induction fuel generalizing level with
  | zero =>
      obtain _ | ⟨a, _ | ⟨b, rest⟩⟩ := level <;> cases h
  | succ fuel ih =>
      by_cases hone : 1 < level.length
      · rw [treePairs_succ hone] at h
        rcases List.mem_append.mp h with hhere | habove
        · obtain ⟨hfirst, hsecond⟩ := mem_of_mem_pairUp hhere
          exact ⟨hlevel _ hfirst, hlevel _ hsecond⟩
        · refine ih (fun node hnode => ?_) habove
          obtain ⟨pair, _, rfl⟩ := List.mem_map.mp hnode
          exact hcombine pair.1 pair.2
      · obtain _ | ⟨a, _ | ⟨b, rest⟩⟩ := level
        · cases h
        · cases h
        · exact absurd (Nat.succ_lt_succ (Nat.succ_pos rest.length)) hone

/-- And along a path whose steps keep it. -/
theorem of_mem_pathPairs {node : α} {path : List S} (hnode : P node)
    (hsteps : ∀ step ∈ path, ∀ node, P node →
      P (steps.pair step node).1 ∧ P (steps.pair step node).2)
    {pair : α × α} (h : pair ∈ pathPairs combine steps node path) : P pair.1 ∧ P pair.2 := by
  induction path generalizing node with
  | nil => cases h
  | cons step rest ih =>
      rcases List.mem_cons.mp h with rfl | h
      · exact hsteps step List.mem_cons_self node hnode
      · exact ih (hcombine _ _) (fun step hstep => hsteps step (List.mem_cons_of_mem _ hstep)) h

end Combined

/-! ## Soundness -/

section Soundness

variable {pairs : List (α × α)} (hinj : ∀ pair ∈ pairs, ∀ pair' ∈ pairs,
    combine pair.1 pair.2 = combine pair'.1 pair'.2 → pair = pair')

include hinj

theorem mem_of_stepUp_mem {level : List α} {node : α} {step : S} (hlevel : pairUp level ⊆ pairs)
    (hstep : steps.pair step node ∈ pairs)
    (h : stepUp combine steps node step ∈ above combine level) : node ∈ level := by
  obtain ⟨pair, hpair, heq⟩ := List.mem_map.mp h
  obtain rfl := hinj pair (hlevel hpair) _ hstep heq
  obtain ⟨hfirst, hsecond⟩ := mem_of_mem_pairUp hpair
  rcases steps.node_mem step node with hnode | hnode
  · exact hnode ▸ hfirst
  · exact hnode ▸ hsecond

/-- A path that leads to the root passes through the level, unless it starts above it. -/
theorem passes_level {fuel : Nat} {level : List α} {start : α} {path : List S}
    (htree : treePairs combine fuel level ⊆ pairs)
    (hpath : pathPairs combine steps start path ⊆ pairs)
    (h : rootFrom combine fuel level = some (climb combine steps start path)) :
    (∃ front, front <+: path ∧ climb combine steps start front ∈ level) ∨
      ∃ pair ∈ pairs, combine pair.1 pair.2 = start := by
  induction fuel generalizing level with
  | zero =>
      by_cases hone : 1 < level.length
      · rw [rootFrom_zero hone] at h
        cases h
      · rw [rootFrom_of_le_one (Nat.le_of_not_lt hone)] at h
        exact Or.inl ⟨path, List.prefix_refl path, List.mem_of_head? h⟩
  | succ fuel ih =>
      by_cases hone : 1 < level.length
      · rw [rootFrom_succ hone] at h
        rw [treePairs_succ hone, List.append_subset] at htree
        rcases ih htree.2 h with ⟨front, hfront, hmem⟩ | habove
        · rcases List.eq_nil_or_concat front with rfl | ⟨init, step, rfl⟩
          · -- The path starts on the level above.
            obtain ⟨pair, hpair, heq⟩ := List.mem_map.mp hmem
            exact Or.inr ⟨pair, htree.1 hpair, heq⟩
          · rw [List.concat_eq_append] at hfront hmem
            have hinit : init <+: path := (List.prefix_append init [step]).trans hfront
            rw [climb_concat] at hmem
            exact Or.inl ⟨init, hinit,
              mem_of_stepUp_mem hinj htree.1 (hpath (pair_mem_pathPairs hfront)) hmem⟩
        · exact Or.inr habove
      · rw [rootFrom_of_le_one (Nat.le_of_not_lt hone)] at h
        exact Or.inl ⟨path, List.prefix_refl path, List.mem_of_head? h⟩

/-- Where nothing combined is a leaf or the start, a path to the root starts at a leaf. -/
theorem mem_of_climb_eq_root {leaves : List α} {start : α} {path : List S}
    (htree : treePairs combine leaves.length leaves ⊆ pairs)
    (hpath : pathPairs combine steps start path ⊆ pairs)
    (hleaves : ∀ pair ∈ pairs, combine pair.1 pair.2 ∉ leaves)
    (hstart : ∀ pair ∈ pairs, combine pair.1 pair.2 ≠ start)
    (h : root combine leaves = some (climb combine steps start path)) : start ∈ leaves := by
  rcases passes_level hinj htree hpath h with ⟨front, hfront, hmem⟩ | ⟨pair, hpair, heq⟩
  · rcases List.eq_nil_or_concat front with rfl | ⟨init, step, rfl⟩
    · exact hmem
    · -- Below the leaves the path would have combined two nodes into a leaf.
      rw [List.concat_eq_append] at hfront hmem
      rw [climb_concat] at hmem
      exact absurd hmem (hleaves _ (hpath (pair_mem_pathPairs hfront)))
  · exact absurd heq (hstart pair hpair)

end Soundness

/-! ## Completeness -/

variable (combine steps)

/-- The steps up from a position of a level: one, or none where it has no node. -/
def stepsAt : List α → Nat → List S
  | [], _ => []
  | [a], 0 => [steps.onRight a]
  | [_], _ + 1 => []
  | _ :: b :: _, 0 => [steps.onRight b]
  | a :: _ :: _, 1 => [steps.onLeft a]
  | _ :: _ :: rest, position + 2 => stepsAt rest position

/-- The path from a position of a level to the root. -/
def pathFrom : Nat → List α → Nat → List S
  | 0, _, _ => []
  | fuel + 1, level, position =>
      if 1 < level.length then
        stepsAt steps level position ++ pathFrom fuel (above combine level) (position / 2)
      else []

variable {combine steps}

/-- The step from a node leads to the node above it. -/
theorem stepsAt_eq {level : List α} {position : Nat} {node : α}
    (h : level[position]? = some node) :
    ∃ step, stepsAt steps level position = [step] ∧
      (above combine level)[position / 2]? = some (stepUp combine steps node step) := by
  have hright (a sibling : α) : stepUp combine steps a (steps.onRight sibling) =
      combine a sibling := by
    rw [stepUp, steps.pair_onRight]
  have hleft (a sibling : α) : stepUp combine steps a (steps.onLeft sibling) =
      combine sibling a := by
    rw [stepUp, steps.pair_onLeft]
  induction level, position using stepsAt.induct with
  | case1 position => cases h
  | case2 a =>
      obtain rfl := Option.some.inj h
      exact ⟨steps.onRight a, rfl, congrArg some (hright a a).symm⟩
  | case3 a position => cases h
  | case4 a b rest =>
      obtain rfl := Option.some.inj h
      exact ⟨steps.onRight b, rfl, congrArg some (hright a b).symm⟩
  | case5 a b rest =>
      obtain rfl := Option.some.inj h
      exact ⟨steps.onLeft a, rfl, congrArg some (hleft b a).symm⟩
  | case6 a b rest position ih =>
      obtain ⟨step, hstep, habove⟩ := ih h
      refine ⟨step, hstep, ?_⟩
      rw [show (position + 2) / 2 = position / 2 + 1 by omega]
      exact habove

theorem eq_rootFrom_of_le_one {fuel : Nat} {level : List α} {position : Nat} {node r : α}
    (hone : level.length ≤ 1) (hnode : level[position]? = some node)
    (hroot : rootFrom combine fuel level = some r) : node = r := by
  rw [rootFrom_of_le_one hone, List.head?_eq_getElem?] at hroot
  obtain ⟨hlt, _⟩ := List.getElem?_eq_some_iff.mp hnode
  rw [show position = 0 by omega, hroot] at hnode
  exact (Option.some.inj hnode).symm

/-- Every node of a level is climbed from to the root. -/
theorem climb_pathFrom {fuel : Nat} {level : List α} {position : Nat} {node r : α}
    (hnode : level[position]? = some node) (hroot : rootFrom combine fuel level = some r) :
    climb combine steps node (pathFrom combine steps fuel level position) = r := by
  induction fuel generalizing level position node with
  | zero =>
      by_cases hone : 1 < level.length
      · rw [rootFrom_zero hone] at hroot
        cases hroot
      · exact eq_rootFrom_of_le_one (Nat.le_of_not_lt hone) hnode hroot
  | succ fuel ih =>
      by_cases hone : 1 < level.length
      · obtain ⟨step, hstep, habove⟩ := stepsAt_eq hnode
        rw [rootFrom_succ hone] at hroot
        rw [pathFrom, if_pos hone, hstep]
        exact ih habove hroot
      · rw [pathFrom, if_neg hone]
        exact eq_rootFrom_of_le_one (Nat.le_of_not_lt hone) hnode hroot

theorem length_stepsAt_le (level : List α) (position : Nat) :
    (stepsAt steps level position).length ≤ 1 := by
  induction level, position using stepsAt.induct with
  | case1 position => exact Nat.zero_le 1
  | case2 a => exact Nat.le_refl 1
  | case3 a position => exact Nat.zero_le 1
  | case4 a b rest => exact Nat.le_refl 1
  | case5 a b rest => exact Nat.le_refl 1
  | case6 a b rest position ih => exact ih

/-- A path has as many steps as the leaves can be halved. -/
theorem length_pathFrom_le {fuel k : Nat} {level : List α} (h : level.length ≤ 2 ^ k)
    (position : Nat) : (pathFrom combine steps fuel level position).length ≤ k := by
  induction fuel generalizing level position k with
  | zero => exact Nat.zero_le k
  | succ fuel ih =>
      rw [pathFrom]
      split
      next hone =>
        cases k with
        | zero =>
            rw [Nat.pow_zero] at h
            omega
        | succ k =>
            have habove : (above combine level).length ≤ 2 ^ k := by
              rw [Nat.pow_succ] at h
              rw [length_above]
              omega
            have hstep : (stepsAt steps level position).length ≤ 1 :=
              length_stepsAt_le level position
            have hrest := ih habove (position / 2)
            rw [List.length_append]
            omega
      next => exact Nat.zero_le k

theorem mem_stepsAt {level : List α} {position : Nat} {step : S}
    (h : step ∈ stepsAt steps level position) :
    ∃ sibling ∈ level, step = steps.onLeft sibling ∨ step = steps.onRight sibling := by
  induction level, position using stepsAt.induct with
  | case1 position => cases h
  | case2 a => exact ⟨a, List.mem_cons_self, Or.inr (List.mem_singleton.mp h)⟩
  | case3 a position => cases h
  | case4 a b rest =>
      exact ⟨b, List.mem_cons_of_mem _ List.mem_cons_self, Or.inr (List.mem_singleton.mp h)⟩
  | case5 a b rest => exact ⟨a, List.mem_cons_self, Or.inl (List.mem_singleton.mp h)⟩
  | case6 a b rest position ih =>
      obtain ⟨sibling, hmem, heq⟩ := ih h
      exact ⟨sibling, List.mem_cons_of_mem _ (List.mem_cons_of_mem _ hmem), heq⟩

/-- Every step names a leaf or a node that was combined. -/
theorem mem_pathFrom {P : α → Prop} (hcombine : ∀ a b, P (combine a b)) {fuel : Nat}
    {level : List α} (hlevel : ∀ node ∈ level, P node) {position : Nat} {step : S}
    (h : step ∈ pathFrom combine steps fuel level position) :
    ∃ sibling, P sibling ∧ (step = steps.onLeft sibling ∨ step = steps.onRight sibling) := by
  induction fuel generalizing level position with
  | zero => cases h
  | succ fuel ih =>
      rw [pathFrom] at h
      split at h
      next =>
        rcases List.mem_append.mp h with hhere | habove
        · obtain ⟨sibling, hmem, heq⟩ := mem_stepsAt hhere
          exact ⟨sibling, hlevel sibling hmem, heq⟩
        · apply ih _ habove
          intro node hnode
          obtain ⟨pair, _, rfl⟩ := List.mem_map.mp hnode
          exact hcombine pair.1 pair.2
      next => cases h

end MerkleTree
