import Mathlib.Order.WellFounded
import Mathlib.Order.WithBot
import Mathlib.Tactic.Common
import Erc8415.Foundation.DoWhile

/-! # Reading a list page by page

A client reads a list from a server that answers one page a request, and asks
for as many items as the first answer counted. The server may answer each
request from another list. Whatever it answers, the walk ends, and what it
returns has the length of the first count; when the lists only grow, and keep
all but their last item, it returns the start of the list the last page was
taken from.
-/

/-- What one page request comes to, for a client that throws `ε`, decodes items `ω` to `α`,
and knows a total once it has seen a page. -/
structure Pages (ε ω α : Type) where
  /-- The count and the items of a page whose metadata passes the client's checks. -/
  request : (offset limit : Nat) → (total : Option Nat) → Except ε (Nat × List ω)
  /-- What a page of another length is refused with. -/
  incomplete : ε
  decode : ω → Except ε α

namespace PagedWalk

variable {ε ω α β : Type}

/-- The items read so far, and the total once the first page has told it. -/
structure Cursor (α : Type) where
  entries : List α
  total : Option Nat

/-- The walk before its first request. -/
def Cursor.start : Cursor α := ⟨[], none⟩

/-- The loop asks again while items are missing. -/
def Cursor.unfinished (c : Cursor α) : Bool :=
  match c.total with
  | none => false
  | some total => c.entries.length < total

/-- The largest page a request asks for. -/
def Cursor.limit (size : Nat) (c : Cursor α) : Nat :=
  match c.total with
  | none => size
  | some total => min size (total - c.entries.length)

/-- One pass of the loop: ask, check, decode and append. -/
def turn (size : Nat) (pages : Pages ε ω α) (c : Cursor α) : Except ε (Cursor α) := do
  let offset := c.entries.length
  let limit := c.limit size
  let (count, items) ← pages.request offset limit c.total
  let total := c.total.getD count
  if items.length = min limit (total - offset) then
    let decoded ← items.mapM pages.decode
    return ⟨c.entries ++ decoded, some total⟩
  else .error pages.incomplete

/-- The walk, whose request `k` is answered by `pages k`: its last request and what it
returns or throws, unless `fuel` requests are not enough. -/
def walk (size : Nat) (pages : Nat → Pages ε ω α) (fuel : Nat) :
    Option (Nat × Except ε (List α)) :=
  (DoWhile.run (fun k => turn size (pages k)) Cursor.unfinished fuel 0 Cursor.start).map
    fun outcome => (outcome.1, outcome.2.map Cursor.entries)

/-- The walk ends: any fuel from some amount on gives this result. -/
def Ends (size : Nat) (pages : Nat → Pages ε ω α) (last : Nat) (result : Except ε (List α)) :
    Prop :=
  ∃ fuel, ∀ fuel' ≥ fuel, walk size pages fuel' = some (last, result)

theorem ends_of_loop {size : Nat} {pages : Nat → Pages ε ω α} {last : Nat}
    {result : Except ε (Cursor α)}
    (h : DoWhile.Ends (fun k => turn size (pages k)) Cursor.unfinished 0 Cursor.start last result) :
    Ends size pages last (result.map Cursor.entries) := by
  obtain ⟨fuel, hfuel⟩ := h
  refine ⟨fuel, fun fuel' hle => ?_⟩
  rw [walk, hfuel fuel' hle]
  rfl

/-! ## One turn -/

theorem length_of_mapM {decode : ω → Except ε α} {items : List ω} {decoded : List α}
    (h : items.mapM decode = .ok decoded) : decoded.length = items.length := by
  induction items generalizing decoded with
  | nil =>
      cases h
      rfl
  | cons item rest ih =>
      rw [List.mapM_cons] at h
      cases hitem : decode item with
      | error e =>
          rw [hitem] at h
          cases h
      | ok a =>
          cases hrest : rest.mapM decode with
          | error e =>
              rw [hitem, hrest] at h
              cases h
          | ok as =>
              rw [hitem, hrest] at h
              cases h
              rw [List.length_cons, List.length_cons, ih hrest]

theorem mapM_map {decode : ω → Except ε α} {wire : β → ω} {view : β → α} {bs : List β}
    (h : ∀ b ∈ bs, decode (wire b) = .ok (view b)) :
    (bs.map wire).mapM decode = .ok (bs.map view) := by
  induction bs with
  | nil => rfl
  | cons b rest ih =>
      rw [List.map_cons, List.mapM_cons, h b List.mem_cons_self,
        ih fun b' hb' => h b' (List.mem_cons_of_mem _ hb')]
      rfl

/-- What a turn that does not throw did. -/
theorem turn_eq_ok {size : Nat} {pages : Pages ε ω α} {c c' : Cursor α}
    (h : turn size pages c = .ok c') :
    ∃ count items decoded,
      pages.request c.entries.length (c.limit size) c.total = .ok (count, items) ∧
      decoded.length = min (c.limit size) (c.total.getD count - c.entries.length) ∧
      c' = ⟨c.entries ++ decoded, some (c.total.getD count)⟩ := by
  simp only [turn] at h
  cases hrequest : pages.request c.entries.length (c.limit size) c.total with
  | error e =>
      rw [hrequest] at h
      cases h
  | ok page =>
      obtain ⟨count, items⟩ := page
      simp only [hrequest, bind, Except.bind] at h
      split at h
      next hlength =>
        cases hdecoded : items.mapM pages.decode with
        | error e =>
            rw [hdecoded] at h
            cases h
        | ok decoded =>
            rw [hdecoded] at h
            cases h
            exact ⟨count, items, decoded, rfl, (length_of_mapM hdecoded).trans hlength, rfl⟩
      next => cases h

/-! ## Any server -/

/-- How many items are missing; before the first page, more than any number. -/
def Cursor.missing (c : Cursor α) : WithTop Nat :=
  match c.total with
  | none => ⊤
  | some total => WithTop.some (total - c.entries.length)

theorem wellFounded_missing : WellFounded fun c' c : Cursor α => c'.missing < c.missing :=
  InvImage.wf Cursor.missing wellFounded_lt

/-- The pass `k` of a walk is about to start: the first knows no total, and a later one knows
the count of the first page and misses items. -/
def Underway (size : Nat) (pages : Nat → Pages ε ω α) (k : Nat) (c : Cursor α) : Prop :=
  (k = 0 ∧ c = Cursor.start) ∨
    ∃ total items, c.total = some total ∧ c.entries.length < total ∧
      (pages 0).request 0 size none = .ok (total, items)

/-- A turn comes closer to the count of the first page. -/
theorem Underway.turn {size : Nat} (hsize : 0 < size) {pages : Nat → Pages ε ω α} {k : Nat}
    {c c' : Cursor α} (h : Underway size pages k c)
    (hturn : PagedWalk.turn size (pages k) c = .ok c') :
    ∃ total items, c'.total = some total ∧ c'.entries.length ≤ total ∧
      (pages 0).request 0 size none = .ok (total, items) ∧ c'.missing < c.missing := by
  obtain ⟨count, items, decoded, hrequest, hlength, rfl⟩ := turn_eq_ok hturn
  rcases h with ⟨rfl, rfl⟩ | ⟨total, first, htotal, hmissing, hfirst⟩
  · refine ⟨count, items, rfl, ?_, hrequest, WithTop.coe_lt_top _⟩
    simp only [Cursor.start, List.nil_append, List.length_nil, Option.getD_none] at hlength ⊢
    omega
  · simp only [Cursor.limit, htotal, Option.getD_some] at hlength
    refine ⟨total, first, by rw [htotal]; rfl, ?_, hfirst, ?_⟩
    · rw [List.length_append]
      omega
    · simp only [Cursor.missing, htotal, Option.getD_some, List.length_append]
      apply WithTop.coe_lt_coe.mpr
      omega

/-- A walk ends whatever the pages are, and what it returns has as many entries as the first
page counted. -/
theorem ends_any (size : Nat) (hsize : 0 < size) (pages : Nat → Pages ε ω α) :
    ∃ last result, Ends size pages last result ∧ ∀ entries, result = .ok entries →
      ∃ items, (pages 0).request 0 size none = .ok (entries.length, items) := by
  obtain ⟨last, result, hends, hresult⟩ := DoWhile.ends_of_invariant
    (fun k => turn size (pages k)) Cursor.unfinished wellFounded_missing
    (Underway size pages)
    (fun _ c => ∃ items, (pages 0).request 0 size none = .ok (c.entries.length, items))
    (fun k c c' h hturn hagain => by
      obtain ⟨total, items, htotal, _, hfirst, hless⟩ := h.turn hsize hturn
      simp only [Cursor.unfinished, htotal, decide_eq_true_eq] at hagain
      exact ⟨Or.inr ⟨total, items, htotal, hagain, hfirst⟩, hless⟩)
    (fun k c c' h hturn hstop => by
      obtain ⟨total, items, htotal, hle, hfirst, _⟩ := h.turn hsize hturn
      simp only [Cursor.unfinished, htotal, decide_eq_false_iff_not, Nat.not_lt] at hstop
      rw [Nat.le_antisymm hle hstop]
      exact ⟨items, hfirst⟩)
    (Or.inl ⟨rfl, rfl⟩)
  refine ⟨last, _, ends_of_loop hends, fun entries hentries => ?_⟩
  rcases hresult with ⟨c, rfl, hpost⟩ | ⟨e, _, rfl, _⟩
  · cases hentries
    exact hpost
  · cases hentries

/-! ## A growing list -/

/-- The lists grow from one request to the next, and keep all but their last item. -/
structure Grows (lists : Nat → List β) : Prop where
  length : ∀ k, (lists k).length ≤ (lists (k + 1)).length
  keeps : ∀ k i, i + 1 < (lists k).length → (lists (k + 1))[i]? = (lists k)[i]?

theorem Grows.le_length {lists : Nat → List β} (h : Grows lists) (k : Nat) :
    (lists 0).length ≤ (lists k).length := by
  induction k with
  | zero => exact Nat.le_refl _
  | succ k ih => exact Nat.le_trans ih (h.length k)

/-- What is read before the last item stays. -/
theorem Grows.take_eq {lists : Nat → List β} (h : Grows lists) {k m : Nat}
    (hm : m < (lists k).length) : (lists (k + 1)).take m = (lists k).take m := by
  apply List.ext_getElem?
  intro i
  rw [List.getElem?_take, List.getElem?_take]
  by_cases hi : i < m
  · rw [if_pos hi, if_pos hi]
    exact h.keeps k i (by omega)
  · rw [if_neg hi, if_neg hi]

/-- The requests of a walk over `count` items; an empty list is asked for once. -/
def Asked (size count k : Nat) : Prop := size * k < max 1 count

/-- Request `k` is answered with a page of `lists k`, whose items decode to a view of them. -/
structure Serves (size : Nat) (pages : Nat → Pages ε ω α) (lists : Nat → List β) (wire : β → ω)
    (view : β → α) : Prop where
  request : ∀ k offset limit total, Asked size (lists 0).length k → 0 < limit → limit ≤ size →
    offset ≤ (lists k).length → (∀ t ∈ total, t ≤ (lists k).length) →
    (pages k).request offset limit total =
      .ok ((lists k).length, (((lists k).drop offset).take limit).map wire)
  decode : ∀ k, ∀ b ∈ lists k, (pages k).decode (wire b) = .ok (view b)

/-- What a walk over growing lists has read before its pass `k`. -/
structure Reading (size : Nat) (lists : Nat → List β) (view : β → α) (k : Nat) (c : Cursor α) :
    Prop where
  place : c.entries.length = size * k
  entries : c.entries = ((lists k).take c.entries.length).map view
  total : (k = 0 ∧ c = Cursor.start) ∨
    c.total = some (lists 0).length ∧ c.entries.length < (lists 0).length

/-- A turn reads on from where it is, no further than the first count. -/
theorem Reading.turn {size : Nat} (hsize : 0 < size) {pages : Nat → Pages ε ω α}
    {lists : Nat → List β} {wire : β → ω} {view : β → α} (hgrows : Grows lists)
    (hserves : Serves size pages lists wire view) {k : Nat} {c : Cursor α}
    (h : Reading size lists view k c) :
    ∃ m, m ≤ (lists 0).length ∧ (m < (lists 0).length → m = size * (k + 1)) ∧
      PagedWalk.turn size (pages k) c =
        .ok ⟨((lists k).take m).map view, some (lists 0).length⟩ := by
  have hle := hgrows.le_length k
  have htotal : c.total.getD (lists k).length = (lists 0).length := by
    rcases h.total with ⟨rfl, rfl⟩ | ⟨htotal, _⟩
    · rfl
    · rw [htotal]
      rfl
  have hoffset : c.entries.length ≤ (lists 0).length := by
    rcases h.total with ⟨rfl, rfl⟩ | ⟨_, hlt⟩
    · exact Nat.zero_le _
    · exact Nat.le_of_lt hlt
  have hasked : Asked size (lists 0).length k := by
    rcases h.total with ⟨rfl, rfl⟩ | ⟨_, hlt⟩
    · rw [Asked, Nat.mul_zero]
      omega
    · rw [Asked, ← h.place]
      omega
  have hlimit : 0 < c.limit size ∧ c.limit size ≤ size ∧
      (c.limit size = min size ((lists 0).length - c.entries.length) ∨
        k = 0 ∧ c.limit size = size) := by
    rcases h.total with ⟨rfl, rfl⟩ | ⟨htotal, hlt⟩
    · exact ⟨hsize, Nat.le_refl _, Or.inr ⟨rfl, rfl⟩⟩
    · have hlimit : c.limit size = min size ((lists 0).length - c.entries.length) := by
        simp only [Cursor.limit, htotal]
      exact ⟨by omega, by omega, Or.inl hlimit⟩
  have hrequest := hserves.request k c.entries.length (c.limit size) c.total hasked hlimit.1
    hlimit.2.1 (Nat.le_trans hoffset hle) (fun t ht => by
      rw [Option.mem_def] at ht
      rw [ht] at htotal
      exact Nat.le_trans (Nat.le_of_eq htotal) hle)
  have hlength : ((((lists k).drop c.entries.length).take (c.limit size)).map wire).length =
      min (c.limit size) ((lists 0).length - c.entries.length) := by
    rw [List.length_map, List.length_take, List.length_drop]
    rcases hlimit.2.2 with hlimit | ⟨rfl, _⟩
    · omega
    · rfl
  have hdecode : ((((lists k).drop c.entries.length).take (c.limit size)).map wire).mapM
      (pages k).decode =
      .ok ((((lists k).drop c.entries.length).take (c.limit size)).map view) :=
    mapM_map fun b hb => hserves.decode k b (List.mem_of_mem_drop (List.mem_of_mem_take hb))
  have hplace := h.place
  refine ⟨c.entries.length + min (c.limit size) ((lists 0).length - c.entries.length), by omega,
    fun hlt => ?_, ?_⟩
  · rw [Nat.mul_succ]
    omega
  have htake : ((lists k).drop c.entries.length).take (c.limit size) =
      ((lists k).drop c.entries.length).take
        (min (c.limit size) ((lists 0).length - c.entries.length)) := by
    rw [List.length_map, List.length_take] at hlength
    rw [List.take_eq_take_iff, hlength]
    omega
  · simp only [PagedWalk.turn, hrequest, bind, Except.bind, htotal, hlength, if_true, hdecode, pure,
      Except.pure, List.take_add, List.map_append, ← h.entries]
    rw [htake]

/-- Served from growing lists, the walk ends without an error with the start of the last list
it read, as long as the first was. -/
theorem ends_growing {size : Nat} (hsize : 0 < size) {pages : Nat → Pages ε ω α}
    {lists : Nat → List β} {wire : β → ω} {view : β → α} (hgrows : Grows lists)
    (hserves : Serves size pages lists wire view) :
    ∃ last, Ends size pages last (.ok (((lists last).take (lists 0).length).map view)) := by
  have hlength : ∀ k m, m ≤ (lists 0).length → (((lists k).take m).map view).length = m := by
    intro k m hm
    rw [List.length_map, List.length_take]
    exact Nat.min_eq_left (Nat.le_trans hm (hgrows.le_length k))
  obtain ⟨last, result, hends, hresult⟩ := DoWhile.ends_of_invariant
    (fun k => turn size (pages k)) Cursor.unfinished wellFounded_missing
    (fun k c => Underway size pages k c ∧ Reading size lists view k c)
    (fun k c => c.entries = ((lists k).take (lists 0).length).map view)
    (fun k c c' h hturn hagain => by
      obtain ⟨m, hm, hplace, hread⟩ := h.2.turn hsize hgrows hserves
      obtain ⟨total, items, htotal, _, hfirst, hless⟩ := h.1.turn hsize hturn
      rw [hturn] at hread
      cases hread
      cases htotal
      simp only [Cursor.unfinished, hlength k m hm, decide_eq_true_eq] at hagain
      refine ⟨⟨Or.inr ⟨_, items, rfl, ?_, hfirst⟩, ⟨?_, ?_, Or.inr ⟨rfl, ?_⟩⟩⟩, hless⟩
      · rw [hlength k m hm]
        exact hagain
      · rw [hlength k m hm]
        exact hplace hagain
      · -- The items read so far are not the last ones, so the next list starts with them.
        rw [hlength k m hm, hgrows.take_eq (Nat.lt_of_lt_of_le hagain (hgrows.le_length k))]
      · rw [hlength k m hm]
        exact hagain)
    (fun k c c' h hturn hstop => by
      obtain ⟨m, hm, _, hread⟩ := h.2.turn hsize hgrows hserves
      rw [hturn] at hread
      cases hread
      simp only [Cursor.unfinished, hlength k m hm, decide_eq_false_iff_not, Nat.not_lt] at hstop
      rw [Nat.le_antisymm hm hstop])
    ⟨Or.inl ⟨rfl, rfl⟩, ⟨rfl, rfl, Or.inl ⟨rfl, rfl⟩⟩⟩
  rcases hresult with ⟨c, rfl, hpost⟩ | ⟨e, c, rfl, h, herror⟩
  · refine ⟨last, ?_⟩
    rw [← hpost]
    exact ends_of_loop hends
  · obtain ⟨m, _, _, hturn⟩ := h.2.turn hsize hgrows hserves
    rw [herror] at hturn
    cases hturn

end PagedWalk
