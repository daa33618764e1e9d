import Mathlib.Algebra.GroupWithZero.Nat
import Mathlib.Data.List.Basic
import Mathlib.Tactic.Common

/-! # Markup in text

What a reader of HTML takes for markup in a text: the tags, with all that stands
in them, the comments and the declarations. A `<` opens one if a letter, `!`, `?`
or `/` comes right after it, and what it opens runs to a `>` that no quoted value
or comment holds. Everything else is text, and the content of every element is
read alike.
-/

namespace Markup

/-! ## Reading -/

/-- Where a reader stands in a piece of markup. A name includes the space after it, and `bogus` is
whatever the next `>` closes. -/
inductive Place where
  | tagName
  | attributes
  | attributeName
  | beforeValue
  | quoted (quote : Char)
  | unquoted
  | declaration
  | declarationDash
  | commentStart
  | commentStartDash
  | comment
  | commentEndDash
  | commentEnd
  | commentEndBang
  | bogus
  deriving DecidableEq, Repr

inductive State where
  | data
  | tagOpen
  | endTagOpen
  | inside (read : List Char) (place : Place)
  deriving DecidableEq, Repr

def isSpace (c : Char) : Bool := c ∈ ['\t', '\n', '\x0c', '\r', ' ']

/-- Whether a `>` closes the piece. -/
def Place.closes : Place → Bool
  | .quoted _ | .comment | .commentEndDash => false
  | _ => true

/-- The place after a character that does not close the piece. -/
def Place.past (c : Char) : Place → Place
  | .tagName => if isSpace c || c = '/' then .attributes else .tagName
  | .attributes => if isSpace c || c = '/' then .attributes else .attributeName
  | .attributeName =>
      if c = '/' then .attributes else if c = '=' then .beforeValue else .attributeName
  | .beforeValue =>
      if isSpace c then .beforeValue else if c = '"' || c = '\'' then .quoted c else .unquoted
  | .quoted quote => if c = quote then .attributes else .quoted quote
  | .unquoted => if isSpace c then .attributes else .unquoted
  | .declaration => if c = '-' then .declarationDash else .bogus
  | .declarationDash => if c = '-' then .commentStart else .bogus
  | .commentStart => if c = '-' then .commentStartDash else .comment
  | .commentStartDash => if c = '-' then .commentEnd else .comment
  | .comment => if c = '-' then .commentEndDash else .comment
  | .commentEndDash => if c = '-' then .commentEnd else .comment
  | .commentEnd => if c = '!' then .commentEndBang else if c = '-' then .commentEnd else .comment
  | .commentEndBang => if c = '-' then .commentEndDash else .comment
  | .bogus => .bogus

/-- Read one character: the piece it closes, if it does, and the state after it. -/
def step (c : Char) : State → List String × State
  | .data => ([], if c = '<' then .tagOpen else .data)
  | .tagOpen =>
      if c.isAlpha then ([], .inside ['<', c] .tagName)
      else if c = '!' then ([], .inside ['<', c] .declaration)
      else if c = '?' then ([], .inside ['<', c] .bogus)
      else if c = '/' then ([], .endTagOpen)
      else ([], if c = '<' then .tagOpen else .data)
  | .endTagOpen =>
      if c = '>' then ([], .data)
      else ([], .inside ['<', '/', c] (if c.isAlpha then .tagName else .bogus))
  | .inside read place =>
      if c = '>' && place.closes then ([String.ofList (read ++ [c])], .data)
      else ([], .inside (read ++ [c]) (place.past c))

/-- Read characters: the pieces closed on the way, and the state at the end. -/
def scan : State → List Char → List String × State
  | s, [] => ([], s)
  | s, c :: rest =>
      let next := step c s
      let last := scan next.2 rest
      (next.1 ++ last.1, last.2)

/-- The piece a state is inside of. -/
def State.unclosed : State → List String
  | .inside read _ => [String.ofList read]
  | _ => []

/-- The markup of a text in its order, each piece as it is written. One that the text leaves open
is the last. -/
def pieces (text : String) : List String :=
  let read := scan .data text.toList
  read.1 ++ read.2.unclosed

theorem scan_append (s : State) (first second : List Char) :
    scan s (first ++ second) =
      ((scan s first).1 ++ (scan (scan s first).2 second).1, (scan (scan s first).2 second).2) := by
  induction first generalizing s with
  | nil => rfl
  | cons c rest ih => simp only [List.cons_append, scan, ih, List.append_assoc]

/-! ## Texts that close what they open -/

/-- A text whose markup is these pieces, each closed in it. -/
def Marks (text : String) (marks : List String) : Prop := scan .data text.toList = (marks, .data)

instance (text : String) (marks : List String) : Decidable (Marks text marks) :=
  inferInstanceAs (Decidable (_ = _))

section Marks

variable {text text' : String} {marks marks' : List String}

theorem Marks.pieces_eq (h : Marks text marks) : pieces text = marks := by
  rw [pieces, h]
  exact List.append_nil _

theorem Marks.congr (h : Marks text marks) (heq : marks = marks') : Marks text marks' :=
  heq ▸ h

theorem Marks.append (h : Marks text marks) (h' : Marks text' marks') :
    Marks (text ++ text') (marks ++ marks') := by
  rw [Marks, String.toList_append, scan_append, h, h']

/-- Text without a `<` holds no markup. -/
theorem marks_of_notMem (h : '<' ∉ text.toList) : Marks text [] := by
  unfold Marks
  generalize text.toList = cs at h
  induction cs with
  | nil => rfl
  | cons c rest ih =>
      rw [List.mem_cons, not_or] at h
      have hstep : step c .data = ([], .data) := by
        rw [step, if_neg (Ne.symm h.1)]
      rw [scan, hstep, ih h.2]
      rfl

/-- Texts put together. -/
theorem Marks.join {α : Type*} {items : List α} {part : α → String} {partMarks : α → List String}
    (h : ∀ item ∈ items, Marks (part item) (partMarks item)) :
    Marks (String.join (items.map part)) (items.flatMap partMarks) := by
  induction items with
  | nil => exact marks_of_notMem (by simp)
  | cons item rest ih =>
      rw [List.forall_mem_cons] at h
      rw [List.map_cons, String.join_cons, List.flatMap_cons]
      exact h.1.append (ih h.2)

/-- Texts put together with a separator that holds no markup. -/
theorem Marks.intercalate {α : Type*} {items : List α} {part : α → String}
    {partMarks : α → List String} (hseparator : Marks text [])
    (h : ∀ item ∈ items, Marks (part item) (partMarks item)) :
    Marks (text.intercalate (items.map part)) (items.flatMap partMarks) := by
  induction items with
  | nil => exact marks_of_notMem (by simp)
  | cons item rest ih =>
      rw [List.forall_mem_cons] at h
      cases rest with
      | nil => simpa using h.1
      | cons next rest =>
          have hfirst := h.1.append hseparator
          rw [List.append_nil] at hfirst
          rw [List.map_cons, List.map_cons, String.intercalate_cons_cons, List.flatMap_cons]
          exact hfirst.append (ih h.2)

end Marks

/-! ## Text that opens nothing -/

/-- What, right after a `<`, makes it open a piece. -/
def opens : List Char → Bool
  | '/' :: c :: _ => c ≠ '>'
  | c :: _ => c.isAlpha || c = '!' || c = '?'
  | [] => false

/-- How many `<` of a text open a piece where they are read as text. -/
def openings : List Char → Nat
  | [] => 0
  | c :: rest => openings rest + if c = '<' ∧ opens rest then 1 else 0

/-- No `<` of the text opens a piece, whatever tag comes after the text. -/
def Inert (text : String) : Prop := openings (text.toList ++ ['<']) = 0

instance (text : String) : Decidable (Inert text) := inferInstanceAs (Decidable (_ = _))

/-! ## Every opening stands in a piece -/

/-- The `<` that a state has read and that stand in a piece, for what comes next. -/
def State.held : State → List Char → Nat
  | .data, _ => 0
  | .tagOpen, rest => if opens rest then 1 else 0
  | .endTagOpen, rest => if opens ('/' :: rest) then 1 else 0
  | .inside read _, _ => read.count '<'

/-- The number of `<` in some pieces. -/
def weight (marks : List String) : Nat := (marks.map fun mark => mark.toList.count '<').sum

@[simp] theorem weight_nil : weight [] = 0 := rfl

@[simp] theorem weight_singleton (mark : String) : weight [mark] = mark.toList.count '<' := rfl

@[simp] theorem weight_append (marks marks' : List String) :
    weight (marks ++ marks') = weight marks + weight marks' := by
  rw [weight, List.map_append, List.sum_append]
  rfl

theorem opens_slash (c : Char) (rest : List Char) :
    opens ('/' :: c :: rest) = decide (c ≠ '>') := rfl

theorem opens_cons_of_ne {c : Char} (rest : List Char) (h : c ≠ '/') :
    opens (c :: rest) = (c.isAlpha || c = '!' || c = '?') := by
  unfold opens
  split
  next heq => exact absurd (List.cons.inj heq).1 h
  next heq => rw [(List.cons.inj heq).1]
  next heq => cases heq

theorem opens_lt (rest : List Char) : opens ('<' :: rest) = false :=
  opens_cons_of_ne rest (by decide)

/-- One step keeps the `<` that stand in a piece. -/
theorem held_le_step (c : Char) (rest : List Char) (s : State) :
    s.held (c :: rest) + (if c = '<' ∧ opens rest then 1 else 0) ≤
      weight (step c s).1 + (step c s).2.held rest := by
  by_cases hlt : c = '<'
  · subst hlt
    have hle : (if opens rest = true then 1 else 0) ≤ 1 := by
      split <;> decide
    cases s with
    | data => simp [step, State.held]
    | tagOpen => simp [step, State.held, opens_lt]
    | endTagOpen => simpa [step, State.held, opens_slash] using Nat.add_le_add_left hle 1
    | inside read place => simpa [step, State.held] using
        Nat.add_le_add_left hle (read.count '<')
  · rw [if_neg fun h => hlt h.1]
    cases s with
    | data => simp [State.held]
    | tagOpen =>
        by_cases hslash : c = '/'
        · subst hslash
          simp [step, State.held]
        · simp only [State.held, opens_cons_of_ne rest hslash, step]
          split_ifs <;> simp_all
    | endTagOpen => by_cases hgt : c = '>' <;> simp [step, State.held, opens_slash, hgt]
    | inside read place =>
        rw [step]
        split <;> simp [State.held, hlt]

/-- Every `<` that opens a piece stands in one, so the pieces hold at least as many of them as
the text has. -/
theorem openings_le_weight (s : State) (cs : List Char) :
    s.held cs + openings cs ≤ weight ((scan s cs).1 ++ (scan s cs).2.unclosed) := by
  induction cs generalizing s with
  | nil => cases s <;> simp [scan, openings, State.held, State.unclosed, opens]
  | cons c rest ih =>
      have hstep := held_le_step c rest s
      have hrest := ih (step c s).2
      simp only [scan, openings, weight_append] at hrest ⊢
      omega

/-- The pieces of a text hold at least as many `<` as open a piece in it. -/
theorem openings_le_weight_pieces (text : String) : openings text.toList ≤ weight (pieces text) :=
  Nat.le_trans (Nat.le_add_left _ _) (openings_le_weight .data text.toList)

/-! ## Counting openings -/

/-- A character that is no `/` tells what opens before it from what opens after it. -/
theorem openings_append_cons {c : Char} (hc : c ≠ '/') (cs rest : List Char) :
    openings (cs ++ c :: rest) = openings (cs ++ [c]) + openings (c :: rest) := by
  induction cs with
  | nil => simp [openings, opens]
  | cons d cs ih =>
      -- What a `<` opens is told by the two characters after it.
      have hopens : opens (cs ++ c :: rest) = opens (cs ++ [c]) := by
        cases cs with
        | nil => simp only [List.nil_append, opens_cons_of_ne _ hc]
        | cons e cs =>
            by_cases he : e = '/'
            · subst he
              cases cs <;> rfl
            · simp only [List.cons_append, opens_cons_of_ne _ he]
      rw [List.cons_append, List.cons_append, openings, openings, ih, hopens]
      omega

/-- A text opens so many pieces, whatever comes after it. -/
def Opens (text : String) (count : Nat) : Prop :=
  ∀ rest, openings (text.toList ++ rest) = count + openings rest

section Opens

variable {text text' : String} {count count' : Nat}

/-- A text that ends with a `>` opens what it opens alone. -/
theorem opens_of_getLast (h : text.toList.getLast? = some '>')
    (hcount : openings text.toList = count) : Opens text count := by
  intro rest
  obtain ⟨cs, hcs⟩ := List.getLast?_eq_some_iff.mp h
  rw [hcs] at hcount ⊢
  rw [List.append_assoc, List.singleton_append, openings_append_cons (by decide), hcount, openings]
  simp

theorem Opens.append (h : Opens text count) (h' : Opens text' count') :
    Opens (text ++ text') (count + count') := by
  intro rest
  rw [String.toList_append, List.append_assoc, h, h', Nat.add_assoc]

theorem Opens.join {α : Type*} {items : List α} {part : α → String} {counts : α → Nat}
    (h : ∀ item, Opens (part item) (counts item)) :
    Opens (String.join (items.map part)) (items.map counts).sum := by
  induction items with
  | nil => exact fun rest => by simp
  | cons item items ih =>
      rw [List.map_cons, List.map_cons, String.join_cons, List.sum_cons]
      exact (h item).append ih

/-- What a text opens in front of a tag. -/
theorem Opens.prepend {tail : List Char} (h : Opens text' count)
    (htext : text'.toList = '<' :: tail) (text : String) :
    Opens (text ++ text') (openings (text.toList ++ ['<']) + count) := by
  intro rest
  have hrest := h rest
  rw [htext, List.cons_append] at hrest
  rw [String.toList_append, List.append_assoc, htext, List.cons_append,
    openings_append_cons (by decide), hrest, Nat.add_assoc]

theorem Opens.openings_eq (h : Opens text count) : openings text.toList = count := by
  have hrest := h []
  rwa [List.append_nil] at hrest

end Opens

/-! ## Inert text before a tag -/

/-- Where nothing is held and nothing opens, a reader goes on outside of markup. -/
theorem step_of_held_eq_zero {c : Char} {rest : List Char} {s : State} (hs : s.unclosed = [])
    (hheld : s.held (c :: rest) = 0) (h : c = '<' → opens rest = false) :
    (step c s).1 = [] ∧ (step c s).2.unclosed = [] ∧ (step c s).2.held rest = 0 := by
  cases s with
  | data =>
      by_cases hc : c = '<'
      · simp [step, State.held, State.unclosed, hc, h hc]
      · simp [step, State.held, State.unclosed, hc]
  | tagOpen =>
      have hopens : opens (c :: rest) = false := by
        simpa [State.held] using hheld
      by_cases hslash : c = '/'
      · subst hslash
        simp [step, State.held, State.unclosed, hopens]
      · rw [opens_cons_of_ne rest hslash] at hopens
        by_cases hc : c = '<'
        · simp [step, State.held, State.unclosed, hc, h hc]
        · simp_all [step, State.held, State.unclosed]
  | endTagOpen =>
      have hgt : c = '>' := by
        simpa [State.held, opens_slash] using hheld
      simp [step, State.held, State.unclosed, hgt]
  | inside read place => cases hs

/-- Inert text is read without markup up to the `<` after it. -/
theorem scan_inert {cs : List Char} {s : State} (hs : s.unclosed = [])
    (h : s.held (cs ++ ['<']) + openings (cs ++ ['<']) = 0) :
    scan s (cs ++ ['<']) = ([], .tagOpen) := by
  induction cs generalizing s with
  | nil =>
      have hheld : s.held ['<'] = 0 := (Nat.add_eq_zero_iff.mp h).1
      cases s with
      | data | tagOpen => rfl
      | endTagOpen => simp [State.held, opens_slash] at hheld
      | inside read place => cases hs
  | cons c cs ih =>
      rw [List.cons_append, openings] at h
      have hopens : c = '<' → opens (cs ++ ['<']) = false := by
        intro hc
        by_contra hne
        rw [if_pos ⟨hc, by simpa using hne⟩] at h
        omega
      obtain ⟨hclosed, hunclosed, hheld⟩ := step_of_held_eq_zero hs (by omega) hopens
      rw [List.cons_append, scan, hclosed, ih hunclosed (by omega)]
      rfl

/-- Inert text before a tag adds nothing to the markup. -/
theorem Marks.inert {text rest : String} {tail : List Char} {marks : List String}
    (h : Inert text) (hrest : rest.toList = '<' :: tail) (hmarks : Marks rest marks) :
    Marks (text ++ rest) marks := by
  have hscan : scan .data (text.toList ++ ['<']) = ([], .tagOpen) :=
    scan_inert rfl (by rw [State.held, Nat.zero_add, h])
  have hsplit : text.toList ++ '<' :: tail = (text.toList ++ ['<']) ++ tail := by simp
  rw [Marks, hrest] at hmarks
  rw [Marks, String.toList_append, hrest, hsplit, scan_append, hscan, ← hmarks]
  rfl

example : Inert "1 < 2 </> <" ∧ ¬ Inert "<b" ∧ ¬ Inert "</" := by decide

end Markup
