import Mathlib.Data.List.Nodup

/-! # Insertion-ordered maps

A finite map whose iteration order is the order in which its keys first
arrived: rewriting a present key keeps its place, a fresh key goes to the end,
and a deleted key that returns goes to the end again. Keys are distinct by
construction, so a lookup never has to say which of two bindings it found.
-/

/-- A finite map that remembers the order in which its keys arrived. -/
@[ext] structure InsertionMap (κ ν : Type*) where
  pairs : List (κ × ν)
  nodup : (pairs.map Prod.fst).Nodup

namespace InsertionMap

variable {κ ν : Type*} [DecidableEq κ]

/-! ## Bindings as a list -/

/-- The value bound to a key in a list of bindings. -/
def lookup (k : κ) : List (κ × ν) → Option ν
  | [] => none
  | (k', v) :: rest => if k' = k then some v else lookup k rest

/-- Rewrite the binding of a key in place, or append it when the key is fresh. -/
def insertPair (k : κ) (v : ν) : List (κ × ν) → List (κ × ν)
  | [] => [(k, v)]
  | (k', v') :: rest => if k' = k then (k', v) :: rest else (k', v') :: insertPair k v rest

theorem mem_keys_insertPair (k k' : κ) (v : ν) (pairs : List (κ × ν)) :
    k' ∈ (insertPair k v pairs).map Prod.fst ↔ k' = k ∨ k' ∈ pairs.map Prod.fst := by
  induction pairs with
  | nil => simp [insertPair]
  | cons head rest ih =>
      obtain ⟨j, w⟩ := head
      by_cases hj : j = k
      · subst hj
        simp [insertPair]
      · simp only [insertPair, hj, if_false, List.map_cons, List.mem_cons, ih]
        tauto

theorem nodup_insertPair (k : κ) (v : ν) (pairs : List (κ × ν))
    (hnodup : (pairs.map Prod.fst).Nodup) : ((insertPair k v pairs).map Prod.fst).Nodup := by
  induction pairs with
  | nil => simp [insertPair]
  | cons head rest ih =>
      obtain ⟨j, w⟩ := head
      simp only [List.map_cons, List.nodup_cons] at hnodup
      by_cases hj : j = k
      · subst hj
        simpa [insertPair] using hnodup
      · simp only [insertPair, hj, if_false, List.map_cons, List.nodup_cons]
        refine ⟨?_, ih hnodup.2⟩
        rw [mem_keys_insertPair]
        exact not_or.mpr ⟨hj, hnodup.1⟩

theorem lookup_insertPair (k k' : κ) (v : ν) (pairs : List (κ × ν)) :
    lookup k' (insertPair k v pairs) = if k = k' then some v else lookup k' pairs := by
  induction pairs with
  | nil => simp [insertPair, lookup]
  | cons head rest ih =>
      obtain ⟨j, w⟩ := head
      by_cases hj : j = k
      · subst hj
        by_cases hk : j = k' <;> simp [insertPair, lookup, hk]
      · by_cases hk : k = k'
        · subst hk
          simp [insertPair, lookup, hj, ih]
        · simp [insertPair, lookup, hj, hk, ih]

theorem lookup_eq_none (k : κ) (pairs : List (κ × ν)) :
    lookup k pairs = none ↔ k ∉ pairs.map Prod.fst := by
  induction pairs with
  | nil => simp [lookup]
  | cons head rest ih =>
      obtain ⟨j, w⟩ := head
      by_cases hj : j = k
      · simp [lookup, hj]
      · simp [lookup, hj, ih, Ne.symm hj]

theorem lookup_filter (k k' : κ) (pairs : List (κ × ν)) :
    lookup k' (pairs.filter fun pair => pair.1 ≠ k) =
      if k = k' then none else lookup k' pairs := by
  induction pairs with
  | nil => simp [lookup]
  | cons head rest ih =>
      obtain ⟨j, w⟩ := head
      by_cases hj : j = k
      · subst hj
        rw [List.filter_cons_of_neg (by simp), ih]
        by_cases hk : j = k' <;> simp [lookup, hk]
      · rw [List.filter_cons_of_pos (by simpa using hj)]
        by_cases hk : k = k'
        · subst hk
          simp only [lookup, hj, if_false, ih, if_true]
        · simp only [lookup, hk, if_false, ih]

theorem lookup_eq_some_iff (k : κ) (v : ν) (pairs : List (κ × ν))
    (hnodup : (pairs.map Prod.fst).Nodup) : lookup k pairs = some v ↔ (k, v) ∈ pairs := by
  induction pairs with
  | nil => simp [lookup]
  | cons head rest ih =>
      obtain ⟨j, w⟩ := head
      simp only [List.map_cons, List.nodup_cons] at hnodup
      by_cases hj : j = k
      · subst hj
        have hrest : (j, v) ∉ rest :=
          fun hmem => hnodup.1 (List.mem_map_of_mem (f := Prod.fst) hmem)
        simp [lookup, hrest, eq_comm]
      · simp [lookup, hj, Ne.symm hj, ih hnodup.2]

theorem insertPair_insertPair (k : κ) (v w : ν) (pairs : List (κ × ν)) :
    insertPair k w (insertPair k v pairs) = insertPair k w pairs := by
  induction pairs with
  | nil => simp [insertPair]
  | cons head rest ih =>
      obtain ⟨j, u⟩ := head
      by_cases hj : j = k <;> simp [insertPair, hj, ih]

theorem insertPair_of_lookup {k : κ} {v : ν} {pairs : List (κ × ν)}
    (h : lookup k pairs = some v) : insertPair k v pairs = pairs := by
  induction pairs with
  | nil => simp [lookup] at h
  | cons head rest ih =>
      obtain ⟨j, u⟩ := head
      by_cases hj : j = k
      · simp only [lookup, hj, if_true, Option.some.injEq] at h
        simp [insertPair, hj, h]
      · simp only [lookup, hj, if_false] at h
        simp [insertPair, hj, ih h]

theorem insertPair_of_lookup_none {k : κ} {v : ν} {pairs : List (κ × ν)}
    (h : lookup k pairs = none) : insertPair k v pairs = pairs ++ [(k, v)] := by
  induction pairs with
  | nil => rfl
  | cons head rest ih =>
      obtain ⟨j, u⟩ := head
      by_cases hj : j = k
      · simp [lookup, hj] at h
      · simp only [lookup, hj, if_false] at h
        simp [insertPair, hj, ih h]

/-! ## The map operations -/

/-- The map with no binding. -/
def empty : InsertionMap κ ν := ⟨[], List.nodup_nil⟩

instance : Inhabited (InsertionMap κ ν) := ⟨empty⟩

/-- The value bound to a key, if any. -/
def get (m : InsertionMap κ ν) (k : κ) : Option ν := lookup k m.pairs

/-- Whether a key is bound. -/
def has (m : InsertionMap κ ν) (k : κ) : Bool := (m.get k).isSome

/-- Bind a key: in place when it is present, at the end when it is fresh. -/
def set (m : InsertionMap κ ν) (k : κ) (v : ν) : InsertionMap κ ν :=
  ⟨insertPair k v m.pairs, nodup_insertPair k v m.pairs m.nodup⟩

/-- Remove a key. -/
def delete (m : InsertionMap κ ν) (k : κ) : InsertionMap κ ν where
  pairs := m.pairs.filter fun pair => pair.1 ≠ k
  nodup := m.nodup.sublist ((List.filter_sublist).map Prod.fst)

/-- The bound keys, in order of arrival. -/
def keys (m : InsertionMap κ ν) : List κ := m.pairs.map Prod.fst

/-- The bound values, in order of arrival of their keys. -/
def values (m : InsertionMap κ ν) : List ν := m.pairs.map Prod.snd

instance [DecidableEq ν] : DecidableEq (InsertionMap κ ν) := fun m n =>
  decidable_of_iff (m.pairs = n.pairs) InsertionMap.ext_iff.symm

variable (m : InsertionMap κ ν) (k k' : κ) (v w : ν)

@[simp] theorem get_empty (k : κ) : (empty : InsertionMap κ ν).get k = none := rfl

theorem get_set : (m.set k v).get k' = if k = k' then some v else m.get k' :=
  lookup_insertPair k k' v m.pairs

@[simp] theorem get_set_self : (m.set k v).get k = some v := by
  simp [get_set]

theorem get_set_of_ne {m : InsertionMap κ ν} {k k' : κ} {v : ν} (h : k ≠ k') :
    (m.set k v).get k' = m.get k' := by
  simp [get_set, h]

theorem get_delete : (m.delete k).get k' = if k = k' then none else m.get k' :=
  lookup_filter k k' m.pairs

@[simp] theorem get_delete_self : (m.delete k).get k = none := by
  simp [get_delete]

theorem get_delete_of_ne {m : InsertionMap κ ν} {k k' : κ} (h : k ≠ k') :
    (m.delete k).get k' = m.get k' := by
  simp [get_delete, h]

/-- Binding a fresh key keeps every binding. -/
theorem get_set_of_fresh {m : InsertionMap κ ν} {k k' : κ} {v w : ν} (hfresh : m.get k = none)
    (hget : m.get k' = some w) : (m.set k v).get k' = some w := by
  rw [get_set_of_ne, hget]
  rintro rfl
  rw [hfresh] at hget
  cases hget

/-- What holds of every binding, and of the new one, holds after it is bound. -/
theorem forall_set {m : InsertionMap κ ν} {p : κ → ν → Prop} {k : κ} {v : ν}
    (h : ∀ k v, m.get k = some v → p k v) (hv : p k v) :
    ∀ k' v', (m.set k v).get k' = some v' → p k' v' := by
  intro k' v' hget
  rw [get_set] at hget
  split at hget
  next heq =>
    cases hget
    exact heq ▸ hv
  next => exact h k' v' hget

/-- What holds of every binding holds after one is deleted. -/
theorem forall_delete {m : InsertionMap κ ν} {p : κ → ν → Prop}
    (h : ∀ k v, m.get k = some v → p k v) (k : κ) :
    ∀ k' v', (m.delete k).get k' = some v' → p k' v' := by
  intro k' v' hget
  rw [get_delete] at hget
  split at hget
  next => cases hget
  next => exact h k' v' hget

theorem has_eq_true : m.has k = true ↔ ∃ v, m.get k = some v := by
  simp [has, Option.isSome_iff_exists]

theorem has_eq_false : m.has k = false ↔ m.get k = none := by
  simp [has]

theorem mem_keys : k ∈ m.keys ↔ ∃ v, m.get k = some v := by
  rw [← Option.isSome_iff_exists, ← Option.ne_none_iff_isSome, Ne, get, lookup_eq_none,
    not_not]
  rfl

theorem mem_values : v ∈ m.values ↔ ∃ k, m.get k = some v := by
  simp only [get, lookup_eq_some_iff _ _ _ m.nodup, values, List.mem_map, Prod.exists,
    exists_eq_right]

/-- Values that tell their keys are bound once each. -/
theorem nodup_values {m : InsertionMap κ ν} {keyOf : ν → κ}
    (h : ∀ k v, m.get k = some v → keyOf v = k) : m.values.Nodup := by
  have hkeys : m.values.map keyOf = m.keys := by
    unfold values keys
    rw [List.map_map]
    apply List.map_congr_left
    intro pair hpair
    exact h pair.1 pair.2 ((lookup_eq_some_iff _ _ _ m.nodup).mpr hpair)
  apply List.Nodup.of_map keyOf
  rw [hkeys]
  exact m.nodup

@[simp] theorem set_set : (m.set k v).set k w = m.set k w :=
  InsertionMap.ext (insertPair_insertPair k v w m.pairs)

/-- Rebinding a key to the value it has changes nothing, its place included. -/
theorem set_of_get {m : InsertionMap κ ν} {k : κ} {v : ν} (h : m.get k = some v) :
    m.set k v = m :=
  InsertionMap.ext (insertPair_of_lookup h)

/-- Deleting a key that was fresh when it was bound restores the map. -/
theorem delete_set_of_get_none {m : InsertionMap κ ν} {k : κ} {v : ν} (h : m.get k = none) :
    (m.set k v).delete k = m := by
  have hfresh : k ∉ m.pairs.map Prod.fst := (lookup_eq_none k m.pairs).mp h
  apply InsertionMap.ext
  simp only [set, delete, insertPair_of_lookup_none h, List.filter_append]
  rw [List.filter_cons_of_neg (by simp), List.filter_nil, List.append_nil, List.filter_eq_self]
  intro pair hpair
  simp only [ne_eq, decide_not, Bool.not_eq_eq_eq_not, Bool.not_true, decide_eq_false_iff_not]
  rintro rfl
  exact hfresh (List.mem_map_of_mem (f := Prod.fst) hpair)

/-! ## Part of a map -/

/-- The bindings of the keys that are kept, in the order they have. -/
def restrict (m : InsertionMap κ ν) (keep : κ → Bool) : InsertionMap κ ν where
  pairs := m.pairs.filter fun pair => keep pair.1
  nodup := m.nodup.sublist ((List.filter_sublist).map Prod.fst)

section Restrict

variable {m : InsertionMap κ ν} {keep : κ → Bool} {k : κ} {v : ν}

theorem get_restrict (hkeep : keep k = true) : (m.restrict keep).get k = m.get k := by
  obtain ⟨pairs, hnodup⟩ := m
  change lookup k (pairs.filter fun pair => keep pair.1) = lookup k pairs
  clear hnodup
  induction pairs with
  | nil => rfl
  | cons head rest ih =>
      obtain ⟨j, w⟩ := head
      by_cases hj : j = k
      · subst hj
        simp [lookup, hkeep]
      · cases hkept : keep j with
        | true => simp [hkept, lookup, hj, ih]
        | false => simp [hkept, lookup, hj, ih]

/-- Binding a key that is kept binds it in the part. -/
theorem restrict_set_of_keep (hkeep : keep k = true) :
    (m.set k v).restrict keep = (m.restrict keep).set k v := by
  obtain ⟨pairs, hnodup⟩ := m
  apply InsertionMap.ext
  change (insertPair k v pairs).filter (fun pair => keep pair.1) =
    insertPair k v (pairs.filter fun pair => keep pair.1)
  clear hnodup
  induction pairs with
  | nil => simp [insertPair, hkeep]
  | cons head rest ih =>
      obtain ⟨j, w⟩ := head
      by_cases hj : j = k
      · subst hj
        simp [insertPair, hkeep]
      · cases hkept : keep j with
        | true => simp [insertPair, hj, hkept, ih]
        | false => simp [insertPair, hj, hkept, ih]

/-- Binding one that is not leaves the part as it was. -/
theorem restrict_set_of_not_keep (hkeep : keep k = false) :
    (m.set k v).restrict keep = m.restrict keep := by
  obtain ⟨pairs, hnodup⟩ := m
  apply InsertionMap.ext
  change (insertPair k v pairs).filter (fun pair => keep pair.1) =
    pairs.filter fun pair => keep pair.1
  clear hnodup
  induction pairs with
  | nil => exact List.filter_cons_of_neg (by simp [hkeep])
  | cons head rest ih =>
      obtain ⟨j, w⟩ := head
      by_cases hj : j = k
      · subst hj
        simp [insertPair, hkeep]
      · simp [insertPair, hj, List.filter_cons, ih]

end Restrict

/-! ## One map over another -/

/-- `m` has every binding of `m'`, and no other one if it is to be covered whole. -/
def Covers (whole : Bool) (m m' : InsertionMap κ ν) : Prop :=
  ∀ k, m.get k = m'.get k ∨ whole = false ∧ m'.get k = none

namespace Covers

variable {m m' : InsertionMap κ ν} {k : κ} {v : ν} {whole : Bool}

theorem of_get_eq (h : ∀ k, m.get k = m'.get k) : Covers whole m m' :=
  fun k => Or.inl (h k)

theorem get_some (h : Covers whole m m') (hget : m'.get k = some v) : m.get k = some v := by
  rcases h k with heq | ⟨_, hnone⟩
  · rw [heq, hget]
  · rw [hnone] at hget
    cases hget

theorem get_whole (h : Covers true m m') (k : κ) : m.get k = m'.get k :=
  (h k).resolve_right fun hpart => nomatch hpart.1

theorem set (h : Covers whole m m') (k : κ) (v : ν) : Covers whole (m.set k v) (m'.set k v) := by
  intro k'
  rw [get_set, get_set]
  split
  next => exact Or.inl rfl
  next => exact h k'

theorem delete (h : Covers whole m m') (k : κ) : Covers whole (m.delete k) (m'.delete k) := by
  intro k'
  rw [get_delete, get_delete]
  split
  next => exact Or.inl rfl
  next => exact h k'

end Covers

end InsertionMap
