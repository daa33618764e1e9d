import Erc8415.Foundation.InsertionMap
import Erc8415.Foundation.Json
import Erc8415.Projection.Errors

/-! # Metrics

Counters for monitoring. Labels carry the tenant, the route and the outcome,
and a label that would put projection data on the metrics surface is refused.
-/

namespace Erc8415

/-- Labels, each name once. -/
abbrev Labels := List (String × String)

structure Counter where
  name : String
  labels : Labels
  value : Nat
  deriving DecidableEq, Repr

structure Metrics where
  counters : InsertionMap String Counter

namespace Metrics

/-- `new Metrics()`. -/
def new : Metrics := ⟨InsertionMap.empty⟩

/-- `Metrics.FORBIDDEN_LABELS`. -/
def forbiddenLabels : List String :=
  ["tokenId", "holder", "commitment", "registryReference", "settlementId"]

/-- The text `sort` compares an entry by: its name and its value, joined by a comma. -/
def entryUnits (entry : String × String) : List Nat :=
  Text.units (entry.1 ++ "," ++ entry.2).toList

/-- `Object.entries(labels).sort()`. -/
def sortedEntries (labels : Labels) : Labels :=
  labels.mergeSort fun a b => !(entryUnits b).lex (entryUnits a)

/-- `JSON.stringify` of label entries. -/
def entriesText (entries : Labels) : String :=
  String.ofList (Json.stringify
    (.array (entries.map fun entry => .array [.string entry.1, .string entry.2])))

def counterKey (name : String) (labels : Labels) : String :=
  s!"{name}|{entriesText (sortedEntries labels)}"

/-- Count one more under a name and labels. -/
def increment (m : Metrics) (name : String) (labels : Labels) (amount : Nat := 1) :
    Except Thrown Metrics :=
  match labels.find? fun label => forbiddenLabels.contains label.1 with
  | some label =>
      .error (.error s!"metric label {label.1} would put projection data on the metrics surface")
  | none =>
      let key := counterKey name labels
      .ok ⟨m.counters.set key
        (match m.counters.get key with
        | none => ⟨name, labels, amount⟩
        | some existing => { existing with value := existing.value + amount })⟩

/-- Labels of other names than the forbidden ones are counted. -/
theorem increment_ne_error {m : Metrics} {name : String} {labels : Labels} {amount : Nat}
    {e : Thrown} (h : ∀ label ∈ labels, label.1 ∉ forbiddenLabels) :
    m.increment name labels amount ≠ .error e := by
  have hnone : labels.find? (fun label => forbiddenLabels.contains label.1) = none := by
    apply List.find?_eq_none.mpr
    intro label hlabel
    rw [List.contains_iff_mem]
    exact h label hlabel
  rw [increment, hnone]
  intro heq
  cases heq

theorem exists_increment (m : Metrics) (name : String) {labels : Labels} (amount : Nat)
    (h : ∀ label ∈ labels, label.1 ∉ forbiddenLabels) :
    ∃ m', m.increment name labels amount = .ok m' := by
  cases hm : m.increment name labels amount with
  | error e => exact absurd hm (increment_ne_error h)
  | ok m' => exact ⟨m', rfl⟩

section Increment

variable {m m' : Metrics} {name : String} {labels : Labels} {amount : Nat}
  (h : m.increment name labels amount = .ok m')

include h

/-- A counter keeps its key, its name and its labels. -/
theorem forall_increment {p : String → String → Labels → Prop}
    (hm : ∀ key counter, m.counters.get key = some counter → p key counter.name counter.labels)
    (hnew : p (counterKey name labels) name labels) :
    ∀ key counter, m'.counters.get key = some counter → p key counter.name counter.labels := by
  unfold increment at h
  split at h
  next => cases h
  next =>
    cases h
    refine InsertionMap.forall_set
      (p := fun key (counter : Counter) => p key counter.name counter.labels) hm ?_
    split
    next => exact hnew
    next existing hexisting => exact hm _ existing hexisting

/-- Only the counter counted under is new. -/
theorem mem_keys_increment {key : String} :
    key ∈ m'.counters.keys ↔ key = counterKey name labels ∨ key ∈ m.counters.keys := by
  unfold increment at h
  split at h
  next => cases h
  next =>
    cases h
    exact InsertionMap.mem_keys_insertPair _ _ _ _

end Increment

/-! ## What a key tells -/

theorem entriesText_injective : Function.Injective entriesText := by
  intro entries entries' h
  have hchars := congrArg String.toList h
  simp only [entriesText, String.toList_ofList] at hchars
  have hjson := congrArg Json.parse hchars
  rw [Json.parse_stringify, Json.parse_stringify, Option.some.injEq, Json.array.injEq] at hjson
  refine List.map_injective_iff.mpr ?_ hjson
  intro entry entry' heq
  simp only [Json.array.injEq, List.cons.injEq, Json.string.injEq, and_true] at heq
  exact Prod.ext heq.1 heq.2

/-- Counters of one name and one key have the same labels, in some order. -/
theorem perm_of_counterKey {name : String} {labels labels' : Labels}
    (h : counterKey name labels = counterKey name labels') : labels.Perm labels' := by
  have htext : entriesText (sortedEntries labels) = entriesText (sortedEntries labels') := by
    have happend (entries : Labels) : counterKey name entries =
        name ++ "|" ++ entriesText (sortedEntries entries) := rfl
    rw [happend, happend] at h
    exact (String.append_right_inj _).mp h
  have hsorted := entriesText_injective htext
  have hperm (entries : Labels) : (sortedEntries entries).Perm entries :=
    List.mergeSort_perm entries _
  have hperm' := hperm labels'
  rw [← hsorted] at hperm'
  exact (hperm labels).symm.trans hperm'

end Metrics

end Erc8415
