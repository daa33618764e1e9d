import Mathlib.Tactic.Common

/-! # Length-prefixed fields

A list of fields written as one text: each field behind its length and a colon,
fields joined by a separator. A length counts the units a character takes, so it
need not count characters. Whatever the fields hold, the text determines them.
-/

namespace LengthPrefixed

variable {α : Type*} (weight : α → Nat) (numeral : Nat → List α) (stop sep : α)

/-- The units a text takes. -/
def size : List α → Nat
  | [] => 0
  | a :: field => weight a + size field

def block (field : List α) : List α := numeral (size weight field) ++ stop :: field

def encode (fields : List (List α)) : List α :=
  [sep].intercalate (fields.map (block weight numeral stop))

variable {weight numeral stop sep}

/-- The first field, and every further one behind a separator. -/
theorem encode_cons (field : List α) (rest : List (List α)) :
    encode weight numeral stop sep (field :: rest) =
      block weight numeral stop field ++
        rest.flatMap fun field => sep :: block weight numeral stop field := by
  induction rest generalizing field with
  | nil => simp [encode]
  | cons next rest ih =>
      have htail := ih next
      simp only [encode, List.map_cons, List.intercalate_cons_cons, List.flatMap_cons] at htail ⊢
      rw [htail]
      simp

/-- A text of fields is longer than each of them. -/
theorem length_lt_encode {field : List α} {fields : List (List α)} (h : field ∈ fields) :
    field.length < (encode weight numeral stop sep fields).length := by
  have hblock (field : List α) : field.length < (block weight numeral stop field).length := by
    rw [block, List.length_append, List.length_cons]
    omega
  obtain _ | ⟨first, rest⟩ := fields
  · cases h
  · rw [encode_cons, List.length_append]
    rcases List.mem_cons.mp h with rfl | h
    · exact Nat.lt_add_right _ (hblock field)
    · obtain ⟨front, back, rfl⟩ := List.append_of_mem h
      have hfield := hblock field
      simp only [List.flatMap_append, List.flatMap_cons, List.length_append, List.length_cons]
      omega

/-- Two texts of one size, each at the front of one list, are equal. -/
theorem eq_of_append (hweight : ∀ a, 0 < weight a) {field field' rest rest' : List α}
    (hsize : size weight field = size weight field') (h : field ++ rest = field' ++ rest') :
    field = field' ∧ rest = rest' := by
  induction field generalizing field' with
  | nil =>
      cases field' with
      | nil => exact ⟨rfl, h⟩
      | cons a' tail' =>
          -- A longer text would weigh more.
          have hpos := hweight a'
          simp only [size] at hsize
          omega
  | cons a tail ih =>
      cases field' with
      | nil =>
          have hpos := hweight a
          simp only [size] at hsize
          omega
      | cons a' tail' =>
          obtain ⟨rfl, htail⟩ := List.cons.inj h
          simp only [size] at hsize
          obtain ⟨rfl, hrest⟩ := ih (Nat.add_left_cancel hsize) htail
          exact ⟨rfl, hrest⟩

/-- A list without a symbol, in front of the first occurrence of that symbol. -/
theorem eq_of_append_cons {front front' rest rest' : List α} (hfront : stop ∉ front)
    (hfront' : stop ∉ front') (h : front ++ stop :: rest = front' ++ stop :: rest') :
    front = front' ∧ rest = rest' := by
  induction front generalizing front' with
  | nil =>
      cases front' with
      | nil => exact ⟨rfl, (List.cons.inj h).2⟩
      | cons a' tail' =>
          have heq := (List.cons.inj h).1
          exact absurd (heq ▸ List.mem_cons_self) hfront'
  | cons a tail ih =>
      cases front' with
      | nil =>
          have heq := (List.cons.inj h).1
          exact absurd (heq ▸ List.mem_cons_self) hfront
      | cons a' tail' =>
          obtain ⟨rfl, htail⟩ := List.cons.inj h
          obtain ⟨rfl, hrest⟩ := ih (List.not_mem_of_not_mem_cons hfront)
            (List.not_mem_of_not_mem_cons hfront') htail
          exact ⟨rfl, hrest⟩

section Injective

variable (hweight : ∀ a, 0 < weight a) (hnumeral : Function.Injective numeral)
  (hstop : ∀ n, stop ∉ numeral n)

include hweight hnumeral hstop

theorem block_append {field field' rest rest' : List α}
    (h : block weight numeral stop field ++ rest = block weight numeral stop field' ++ rest') :
    field = field' ∧ rest = rest' := by
  simp only [block, List.append_assoc, List.cons_append] at h
  obtain ⟨hsize, htail⟩ := eq_of_append_cons (hstop _) (hstop _) h
  exact eq_of_append hweight (hnumeral hsize) htail

/-- Fields each behind a separator are determined by the text. -/
theorem joined_injective :
    Function.Injective fun fields : List (List α) =>
      fields.flatMap fun field => sep :: block weight numeral stop field := by
  intro fields
  induction fields with
  | nil =>
      intro fields' h
      cases fields' with
      | nil => rfl
      | cons field' rest' => cases h
  | cons field rest ih =>
      intro fields' h
      cases fields' with
      | nil => cases h
      | cons field' rest' =>
          simp only [List.flatMap_cons, List.cons_append, List.cons.injEq, true_and] at h
          obtain ⟨rfl, hrest⟩ := block_append hweight hnumeral hstop h
          rw [ih hrest]

/-- The fields of a text are determined by it. -/
theorem encode_injective : Function.Injective (encode weight numeral stop sep) := by
  intro fields fields' h
  cases fields with
  | nil =>
      cases fields' with
      | nil => rfl
      | cons field' rest' =>
          rw [encode_cons] at h
          simp [encode, block] at h
  | cons field rest =>
      cases fields' with
      | nil =>
          rw [encode_cons] at h
          simp [encode, block] at h
      | cons field' rest' =>
          rw [encode_cons, encode_cons] at h
          obtain ⟨rfl, hrest⟩ := block_append hweight hnumeral hstop h
          rw [joined_injective hweight hnumeral hstop hrest]

end Injective

end LengthPrefixed
