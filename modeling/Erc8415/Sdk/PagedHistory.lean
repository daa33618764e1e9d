import Erc8415.Proof.Binding
import Erc8415.Sdk.Answers
import Erc8415.Sdk.PythonClient

/-! # The paged history walk

`entries` of both clients, over a register that grows between two page requests.
An admission appends an entry and rewrites one field of the latest one, so every
entry a client has read, and knows another to follow, is still the stored one
at its next request.
-/

namespace Erc8415

namespace ProjectionStore

variable {σ : Type} {o : StoreConfig σ} {s t u : ProjectionStore σ}

/-! ## Growth -/

/-- Later, a token's history is no shorter and only its latest entry has moved. -/
structure Continues (s t : ProjectionStore σ) (tokenId : Int) : Prop where
  length : (s.entries tokenId).length ≤ (t.entries tokenId).length
  keeps : ∀ i, i + 1 < (s.entries tokenId).length →
    (t.entries tokenId)[i]? = (s.entries tokenId)[i]?

theorem Continues.refl (s : ProjectionStore σ) (tokenId : Int) : Continues s s tokenId :=
  ⟨Nat.le_refl _, fun _ _ => rfl⟩

theorem Continues.trans {tokenId : Int} (hst : Continues s t tokenId)
    (htu : Continues t u tokenId) : Continues s u tokenId where
  length := Nat.le_trans hst.length htu.length
  keeps i hi := (htu.keeps i (Nat.lt_of_lt_of_le hi hst.length)).trans (hst.keeps i hi)

theorem Valid.step_continues (h : s.Valid) (call : StoreCall σ) (tokenId : Int) :
    Continues s (s.step o call) tokenId := by
  rcases h.step_projections_get (o := o) call tokenId with ⟨result, hadmits⟩ | hsame
  · obtain ⟨c, _, _, hentries⟩ := h.admits hadmits
    constructor
    · rw [hentries, length_extend]
      exact Nat.le_succ _
    · intro i hi
      rw [hentries, getElem?_extend, if_pos hi]
  · have hentries : (s.step o call).entries tokenId = s.entries tokenId := by
      unfold entries
      rw [hsame]
    constructor
    · rw [hentries]
    · intro i _
      rw [hentries]

theorem Valid.run_continues (h : s.Valid) (calls : List (StoreCall σ)) (tokenId : Int) :
    Continues s (LabelledRun.run (ProjectionStore.step o) s calls) tokenId :=
  LabelledRun.run_relates (ProjectionStore.step o) ProjectionStore.Valid
    (fun s t => Continues s t tokenId) (fun s => Continues.refl s tokenId)
    (fun _ _ _ hst htu => hst.trans htu) (fun _ call hs => hs.step call)
    (fun _ call hs => hs.step_continues call tokenId) h calls

/-- The store at request `k` of a schedule, which makes the calls `between k` after it. -/
def storeAt (o : StoreConfig σ) (s : ProjectionStore σ) (between : Nat → List (StoreCall σ)) :
    Nat → ProjectionStore σ
  | 0 => s
  | k + 1 => LabelledRun.run (step o) (storeAt o s between k) (between k)

theorem Valid.storeAt (h : s.Valid) (between : Nat → List (StoreCall σ)) (k : Nat) :
    (storeAt o s between k).Valid := by
  induction k with
  | zero => exact h
  | succ k ih => exact ih.run (between k)

theorem Valid.grows (h : s.Valid) (between : Nat → List (StoreCall σ)) (tokenId : Int) :
    PagedWalk.Grows fun k => (ProjectionStore.storeAt o s between k).entries tokenId where
  length k := ((h.storeAt between k).run_continues (between k) tokenId).length
  keeps k := ((h.storeAt between k).run_continues (between k) tokenId).keeps

end ProjectionStore

/-- `Number.MAX_SAFE_INTEGER`, which no array is longer than. -/
def maxSafeInteger : Nat := 9007199254740991

/-- At every request of a walk the token's history is one an array can hold. -/
def SafeCounts {σ : Type} (stores : Nat → ProjectionStore σ) (tokenId : Int) : Prop :=
  ∀ k, PagedWalk.Asked 100 ((stores 0).entryCount tokenId) k →
    (stores k).entryCount tokenId ≤ maxSafeInteger

theorem SafeCounts.length_le {σ : Type} {stores : Nat → ProjectionStore σ} {tokenId : Int}
    (h : SafeCounts stores tokenId) {k : Nat}
    (hasked : PagedWalk.Asked 100 ((stores 0).entries tokenId).length k) :
    ((stores k).entries tokenId).length ≤ maxSafeInteger := by
  rw [← ProjectionStore.entryCount_eq] at hasked ⊢
  exact h k hasked

namespace ProjectionClient

variable {σ : Type} {o : StoreConfig σ} {s : ProjectionStore σ} {now verifierNow : Int}
  {append : Option Thrown}

/-! ## A page -/

theorem requestOf_pagePath (tokenId : Int) (offset limit : Nat) :
    requestOf (pagePath tokenId offset limit) =
      { method := "GET"
        path := SplitText.join '/' ["", "projection", toString tokenId, "entries"]
        body := .undefined
        query := [("offset", toString offset), ("limit", toString limit)] } := by
  have hpath : '?' ∉
      (SplitText.join '/' ["", "projection", toString tokenId, "entries"]).toList := by
    apply SplitText.notMem_join (by decide)
    intro part hpart
    simp only [List.mem_cons, List.not_mem_nil, or_false] at hpart
    rcases hpart with rfl | rfl | rfl | rfl
    · decide
    · decide
    · exact (part_toString tokenId).2.2
    · decide
  have hurl : pagePath tokenId offset limit =
      SplitText.join '/' ["", "projection", toString tokenId, "entries"] ++
        String.singleton '?' ++
          SplitText.join '&' ["offset=" ++ toString offset, "limit=" ++ toString limit] := by
    apply String.toList_injective
    simp [pagePath, SplitText.join, List.intercalate, toString]
  have hquery : SplitText.split '&' (SplitText.join '&'
      ["offset=" ++ toString offset, "limit=" ++ toString limit]) =
      ["offset=" ++ toString offset, "limit=" ++ toString limit] := by
    apply SplitText.split_join (by simp)
    intro part hpart
    have hoffset := BigIntText.notMem_toString (c := '&') rfl (by decide) (offset : Int)
    have hlimit := BigIntText.notMem_toString (c := '&') rfl (by decide) (limit : Int)
    simp only [List.mem_cons, List.not_mem_nil, or_false] at hpart
    rcases hpart with rfl | rfl
    · rw [String.toList_append, List.mem_append, not_or]
      exact ⟨by decide, hoffset⟩
    · rw [String.toList_append, List.mem_append, not_or]
      exact ⟨by decide, hlimit⟩
  have hoffset : SplitText.cut '=' ("offset=" ++ toString offset) =
      ("offset", some (toString offset)) :=
    SplitText.cut_append "offset" _ (by decide)
  have hlimit : SplitText.cut '=' ("limit=" ++ toString limit) =
      ("limit", some (toString limit)) :=
    SplitText.cut_append "limit" _ (by decide)
  rw [requestOf, hurl, SplitText.cut_append _ _ hpath]
  simp only [hquery, List.map_cons, List.map_nil, hoffset, hlimit, Option.getD_some]

theorem isSafeInteger_natCast {n : Nat} (h : n ≤ maxSafeInteger) :
    isSafeInteger (n : Rat) = true := by
  simp only [isSafeInteger, Rat.den_natCast, Rat.num_natCast, Int.natAbs_natCast, decide_true,
    Bool.true_and]
  exact decide_eq_true h

theorem pageNumber_toString {query : List (String × String)} {name : String} {default n : Nat}
    (hquery : query.lookup name = some (toString n)) (h : n ≤ maxSafeInteger) :
    pageNumber query name default = some (n : Rat) := by
  have hbound : n < 2 ^ 53 := Nat.lt_of_le_of_lt h (by decide)
  rw [pageNumber, hquery]
  exact NumberText.parse_toString hbound

theorem parsePage_toString {offset limit : Nat} (hoffset : offset ≤ maxSafeInteger)
    (hpos : 0 < limit) (hlimit : limit ≤ maxPage) :
    parsePage [("offset", toString offset), ("limit", toString limit)] = some ⟨offset, limit⟩ := by
  have hsafe : limit ≤ maxSafeInteger := Nat.le_trans hlimit (by decide)
  have hnonneg : (0 : Rat) ≤ offset := Nat.cast_nonneg offset
  have hpositive : (0 : Rat) < limit := Nat.cast_pos.mpr hpos
  have hpage : (limit : Rat) ≤ maxPage := Nat.cast_le.mpr hlimit
  rw [parsePage, pageNumber_toString (n := offset) rfl hoffset,
    pageNumber_toString (n := limit) rfl hsafe]
  simp [isSafeInteger_natCast hoffset, isSafeInteger_natCast hsafe, hpositive, hpage]

/-- The response to a page request within the parameters' bounds. -/
def pageResponse (s : ProjectionStore σ) (tokenId : Int) (offset limit : Nat) : JsValue :=
  .object [
    ("tokenId", .string (toString tokenId)),
    ("entryCount", .number (s.entries tokenId).length),
    ("offset", .number offset),
    ("limit", .number limit),
    ("entries", .array (((s.entries tokenId).drop offset).take limit |>.map entryResponse))]

theorem serve_page {tokenId : Int} {offset limit : Nat} (hlow : 0 ≤ tokenId)
    (hhigh : tokenId < uint256Bound) (hoffset : offset ≤ maxSafeInteger) (hpos : 0 < limit)
    (hlimit : limit ≤ maxPage) :
    fetchFrom o s now verifierNow append (pagePath tokenId offset limit) =
      respond ⟨200, pageResponse s tokenId offset limit⟩ := by
  have hpath : segments (requestOf (pagePath tokenId offset limit)).path =
      "projection" :: toString tokenId :: ["entries"] := by
    rw [requestOf_pagePath]
    apply segments_join
    intro part hpart
    simp only [List.mem_cons, List.not_mem_nil, or_false] at hpart
    rcases hpart with rfl | rfl | rfl
    · decide
    · exact ⟨(part_toString tokenId).1, (part_toString tokenId).2.1⟩
    · decide
  rw [fetchFrom, handle_read hlow hhigh (by rw [requestOf_pagePath]) hpath, requestOf_pagePath]
  simp only [readRoute, entriesRoute, parsePage_toString hoffset hpos hlimit,
    ProjectionStore.entryCount_eq]
  rfl

theorem pageOf_pageResponse {tokenId : Int} {offset limit : Nat} {total : Option Nat}
    (hcount : (s.entries tokenId).length ≤ maxSafeInteger)
    (htotal : ∀ t ∈ total, t ≤ (s.entries tokenId).length) :
    pageOf (pageResponse s tokenId offset limit) offset total =
      .ok ((s.entries tokenId).length,
        (((s.entries tokenId).drop offset).take limit).map entryResponse) := by
  have hle : (total.getD 0 : Int) ≤ (s.entries tokenId).length := by
    cases total with
    | none => exact Int.natCast_nonneg _
    | some t => exact Int.ofNat_le.mpr (htotal t rfl)
  simp [pageOf, pageResponse, fieldOf, JsValue.get, JsValue.property, safeInteger,
    isSafeInteger_natCast hcount, hle, bind, Except.bind]

/-- Served by `handle`, the pages of a walk are pages of the stored histories. -/
theorem serves {stores : Nat → ProjectionStore σ} {now verifierNow : Nat → Int}
    {append : Nat → Option Thrown} {tokenId : Int} (hlow : 0 ≤ tokenId)
    (hhigh : tokenId < uint256Bound) (hsafe : SafeCounts stores tokenId) :
    PagedWalk.Serves 100
      (fun k => pages (fetchFrom o (stores k) (now k) (verifierNow k) (append k)) tokenId)
      (fun k => (stores k).entries tokenId) entryResponse ClientEntry.ofEntry where
  request k offset limit total hasked hpos hlimit hoffset htotal := by
    have hcount := hsafe.length_le hasked
    have hget : get (fetchFrom o (stores k) (now k) (verifierNow k) (append k))
        (pagePath tokenId offset limit) =
        some (.ok (pageResponse (stores k) tokenId offset limit)) := by
      rw [get, serve_page hlow hhigh (Nat.le_trans hoffset hcount) hpos hlimit]
      rfl
    simp only [pages, hget, Option.getD_some, bind, Except.bind]
    exact pageOf_pageResponse hcount htotal
  decode _ e _ := decodeEntry_entryResponse e

/-! ### Any page -/

theorem fieldOf_eq_ok {value field : JsValue} {name : String}
    (h : fieldOf value name = .ok field) : field = value.get name := by
  unfold fieldOf at h
  split at h
  · cases h
  · cases h
  · exact (Except.ok.inj h).symm

theorem safeInteger_eq_some {value : JsValue} {n : Int} (h : safeInteger value = some n) :
    value = .number n := by
  cases value with
  | number q =>
      simp only [safeInteger, Option.ite_none_right_eq_some, Option.some.injEq] at h
      obtain ⟨hsafe, rfl⟩ := h
      simp only [isSafeInteger, Bool.and_eq_true, decide_eq_true_eq] at hsafe
      rw [Rat.coe_int_num_of_den_eq_one hsafe.1]
  | _ => simp [safeInteger] at h

theorem pageOf_eq_ok {body : JsValue} {offset count : Nat} {total : Option Nat}
    {items : List JsValue} (h : pageOf body offset total = .ok (count, items)) :
    body.get "entryCount" = .number count := by
  simp only [pageOf, bind_eq_ok] at h
  obtain ⟨entryCount, hcount, echoed, _, entries, _, h⟩ := h
  split at h
  next n q found hn _ _ =>
    split at h
    next hchecks =>
      obtain ⟨rfl, rfl⟩ := Prod.mk.inj (Except.ok.inj h)
      have hnonneg : 0 ≤ n := Int.le_trans (Int.natCast_nonneg _) hchecks.1
      rw [← fieldOf_eq_ok hcount, safeInteger_eq_some hn]
      congr 1
      exact_mod_cast (Int.toNat_of_nonneg hnonneg).symm
    next => cases h
  next => cases h

/-- The count of a first page is the one its response holds. -/
theorem first_count {fetch : Fetch} {tokenId : Int} {count : Nat} {items : List JsValue}
    (h : (pages fetch tokenId).request 0 100 none = .ok (count, items)) :
    ∃ body, get fetch (pagePath tokenId 0 100) = some (.ok body) ∧
      body.get "entryCount" = .number count := by
  simp only [pages, bind_eq_ok] at h
  obtain ⟨body, hbody, hpage⟩ := h
  refine ⟨body, ?_, pageOf_eq_ok hpage⟩
  cases hget : get fetch (pagePath tokenId 0 100) with
  | none =>
      rw [hget] at hbody
      cases hbody
  | some reply =>
      rw [hget] at hbody
      exact congrArg some hbody

end ProjectionClient

/-! ## A page in Python -/

/-- The instant an entry of a history is superseded at is a uint64 as well. -/
theorem IsHistory.isUint64_superseded {entries : List ProjectionEntry} (h : IsHistory entries)
    {e : ProjectionEntry} (he : e ∈ entries) : isUint64 e.supersededAt = true := by
  obtain ⟨i, hi⟩ := List.mem_iff_getElem?.mp he
  rw [h.superseded i e hi, supersession]
  cases hnext : entries[i + 1]? with
  | none => rfl
  | some next => exact (h.shaped next (List.mem_of_getElem? hnext)).effectiveAt

/-- A stored entry as the Python client holds it. -/
def PyEntry.ofEntry (e : ProjectionEntry) : PyEntry where
  version := e.version
  holder := .str e.holder
  effectiveAt := e.effectiveAt
  supersededAt := e.supersededAt
  recordCommitment := .str e.recordCommitment
  previousCommitment := .str e.previousCommitment
  registryReference := .str e.registryReference

namespace PythonClient

variable {σ : Type} {o : StoreConfig σ} {s : ProjectionStore σ}

/-- A stored entry as `json.loads` hands it to `from_wire`. -/
def entryDict (e : ProjectionEntry) : PyValue :=
  .dict [
    ("version", .str (toString e.version)),
    ("holder", .str e.holder),
    ("effectiveAt", .str (toString e.effectiveAt)),
    ("supersededAt", .str (toString e.supersededAt)),
    ("recordCommitment", .str e.recordCommitment),
    ("previousCommitment", .str e.previousCommitment),
    ("registryReference", .str e.registryReference)]

theorem ofItems_entries (entries : List ProjectionEntry) :
    PyValue.ofItems (entries.map entryResponse) = some (entries.map entryDict) := by
  induction entries with
  | nil => rfl
  | cons e rest ih =>
      have hentry : PyValue.ofJs (entryResponse e) = some (entryDict e) := rfl
      rw [List.map_cons, entryResponse, PyValue.ofItems, ← entryResponse, hentry, ih]
      · rfl
      · intro h
        cases h

theorem int_of_isUint64 {n : Int} (h : isUint64 n = true) :
    PythonText.int (toString n) = some n := by
  obtain ⟨hlow, hhigh⟩ := isUint64_eq_true.mp h
  obtain ⟨m, rfl⟩ := Int.eq_ofNat_of_zero_le hlow
  apply PythonText.int_toString
  have hbound : m ≤ 0xffffffffffffffff := Int.ofNat_le.mp hhigh
  have hsmall : (0xffffffffffffffff : Nat) < 10 ^ 20 := by decide
  have hpower : (10 : Nat) ^ 20 ≤ 10 ^ PythonText.maxDigits :=
    Nat.pow_le_pow_right (by decide) (by decide)
  exact Nat.lt_of_le_of_lt hbound (Nat.lt_of_lt_of_le hsmall hpower)

theorem fromWire_entryDict {e : ProjectionEntry} (hversion : isUint64 e.version = true)
    (heffective : isUint64 e.effectiveAt = true) (hsuperseded : isUint64 e.supersededAt = true) :
    fromWire (entryDict e) = .ok (PyEntry.ofEntry e) := by
  have hinteger : ∀ name n, subscript (entryDict e) name = .ok (.str (toString n)) →
      isUint64 n = true → integerItem (entryDict e) name = .ok n := by
    intro name n hitem hn
    simp only [integerItem, hitem, bind, Except.bind, PyValue.toInt, int_of_isUint64 hn]
  have hversion := hinteger "version" e.version rfl hversion
  have heffective := hinteger "effectiveAt" e.effectiveAt rfl heffective
  have hsuperseded := hinteger "supersededAt" e.supersededAt rfl hsuperseded
  simp only [fromWire, hversion, heffective, hsuperseded, bind, Except.bind]
  rfl

theorem ofNumber_natCast {n : Nat} (h : n ≤ maxSafeInteger) :
    PyValue.ofNumber (n : Rat) = .int n := by
  have hsmall : n < 10 ^ 21 := Nat.lt_of_le_of_lt h (by decide)
  rw [PyValue.ofNumber, Rat.den_natCast, Rat.num_natCast, if_pos ⟨rfl, hsmall⟩]

/-- The body of a page response as `json.loads` hands it over. -/
def pageDict (s : ProjectionStore σ) (tokenId : Int) (offset limit : Nat) : PyValue :=
  .dict [
    ("tokenId", .str (toString tokenId)),
    ("entryCount", .int (s.entries tokenId).length),
    ("offset", .int offset),
    ("limit", .int limit),
    ("entries", .list (((s.entries tokenId).drop offset).take limit |>.map entryDict))]

theorem ofJs_pageResponse {tokenId : Int} {offset limit : Nat}
    (hcount : (s.entries tokenId).length ≤ maxSafeInteger) (hoffset : offset ≤ maxSafeInteger)
    (hlimit : limit ≤ maxSafeInteger) :
    PyValue.ofJs (ProjectionClient.pageResponse s tokenId offset limit) =
      some (pageDict s tokenId offset limit) := by
  simp [ProjectionClient.pageResponse, PyValue.ofJs, PyValue.ofMembers, ofItems_entries,
    ofNumber_natCast hcount, ofNumber_natCast hoffset, ofNumber_natCast hlimit, pageDict,
    -List.map_take, -List.map_drop]

theorem pageOf_pageDict {tokenId : Int} {offset limit : Nat} {total : Option Nat}
    (htotal : ∀ t ∈ total, t ≤ (s.entries tokenId).length) :
    pageOf (pageDict s tokenId offset limit) offset total =
      .ok ((s.entries tokenId).length,
        (((s.entries tokenId).drop offset).take limit).map entryDict) := by
  have hle : (total.getD 0 : Int) ≤ (s.entries tokenId).length := by
    cases total with
    | none => exact Int.natCast_nonneg _
    | some t => exact Int.ofNat_le.mpr (htotal t rfl)
  simp [pageOf, pageDict, getItem, List.lookup_cons, PyValue.equals, hle, bind, Except.bind]

/-- Served by `handle`, the pages of a walk are pages of the stored histories. -/
theorem serves {stores : Nat → ProjectionStore σ} {now verifierNow : Nat → Int}
    {append : Nat → Option Thrown} {tokenId : Int} (hlow : 0 ≤ tokenId)
    (hhigh : tokenId < uint256Bound) (hvalid : ∀ k, (stores k).Valid)
    (hsafe : SafeCounts stores tokenId) :
    PagedWalk.Serves 100
      (fun k =>
        pages (openerOf (fetchFrom o (stores k) (now k) (verifierNow k) (append k))) tokenId)
      (fun k => (stores k).entries tokenId) entryDict PyEntry.ofEntry where
  request k offset limit total hasked hpos hlimit hoffset htotal := by
    have hcount := hsafe.length_le hasked
    have hoffset := Nat.le_trans hoffset hcount
    have hopen : openerOf (fetchFrom o (stores k) (now k) (verifierNow k) (append k))
        (ProjectionClient.pagePath tokenId offset limit) =
        some (200, pageDict (stores k) tokenId offset limit) := by
      rw [openerOf, ProjectionClient.serve_page hlow hhigh hoffset hpos hlimit]
      simp only [respond, ofJs_pageResponse hcount hoffset (Nat.le_trans hlimit (by decide)),
        Option.map_some]
    simp only [pages, get, hopen, bind, Except.bind]
    exact pageOf_pageDict htotal
  decode k e he := by
    have hhistory := (hvalid k).isHistory tokenId
    have hshaped := hhistory.shaped e he
    exact fromWire_entryDict hshaped.version hshaped.effectiveAt (hhistory.isUint64_superseded he)

theorem pageOf_eq_ok {body : PyValue} {offset count : Nat} {total : Option Nat}
    {items : List PyValue} (h : pageOf body offset total = .ok (count, items)) :
    getItem body "entryCount" = .ok (some (.int count)) := by
  simp only [pageOf, bind_eq_ok] at h
  obtain ⟨found, hcount, page, _, echoed, _, h⟩ := h
  split at h
  next n page _ =>
    split at h
    next hchecks =>
      obtain ⟨rfl, rfl⟩ := Prod.mk.inj (Except.ok.inj h)
      have hnonneg : 0 ≤ n := Int.le_trans (Int.natCast_nonneg _) hchecks.1
      rw [hcount, Int.toNat_of_nonneg hnonneg]
    next => cases h
  next => cases h

/-- The count of a first page is the one its response holds. -/
theorem first_count {opener : Opener} {tokenId : Int} {count : Nat} {items : List PyValue}
    (h : (pages opener tokenId).request 0 100 none = .ok (count, items)) :
    ∃ body, get opener (ProjectionClient.pagePath tokenId 0 100) = .ok body ∧
      getItem body "entryCount" = .ok (some (.int count)) := by
  simp only [pages, bind_eq_ok] at h
  obtain ⟨body, hbody, hpage⟩ := h
  exact ⟨body, hbody, pageOf_eq_ok hpage⟩

end PythonClient

/-! ## The walk -/

variable {σ : Type}

/-- The history walk of both clients. While calls of any kind run between its requests it
ends without an error, with the first entries of the history as they are stored at its last
request, as many as there were at its first. Whatever the responses are it ends, and what
it returns has as many entries as the first response counted. -/
theorem entries_walk (o : StoreConfig σ) (adapter : σ) (journal : JournalContent)
    (before : List (StoreCall σ)) (between : Nat → List (StoreCall σ))
    (now verifierNow : Nat → Int) (append : Nat → Option Thrown) (tokenId : Int)
    (htoken : 0 ≤ tokenId ∧ tokenId < uint256Bound) :
    let start := LabelledRun.run (ProjectionStore.step o)
      (ProjectionStore.initial adapter journal) before
    let stores := ProjectionStore.storeAt o start between
    let fetch := fun k => fetchFrom o (stores k) (now k) (verifierNow k) (append k)
    let read := fun last => ((stores last).entries tokenId).take (start.entryCount tokenId)
    (SafeCounts stores tokenId →
      (∃ last, ∃ fuel, ∀ fuel' ≥ fuel, ProjectionClient.entries fetch tokenId fuel' =
        some (last, .ok ((read last).map ClientEntry.ofEntry))) ∧
      (∃ last, ∃ fuel, ∀ fuel' ≥ fuel,
        PythonClient.entries (fun k => PythonClient.openerOf (fetch k)) tokenId fuel' =
          some (last, .ok ((read last).map PyEntry.ofEntry)))) ∧
    (∀ anyFetch : Nat → Fetch, ∃ last result,
      (∃ fuel, ∀ fuel' ≥ fuel,
        ProjectionClient.entries anyFetch tokenId fuel' = some (last, result)) ∧
      ∀ entries, result = .ok entries → ∃ body,
        ProjectionClient.get (anyFetch 0) (ProjectionClient.pagePath tokenId 0 100) =
          some (.ok body) ∧
        body.get "entryCount" = .number entries.length) ∧
    (∀ anyOpener : Nat → Opener, ∃ last result,
      (∃ fuel, ∀ fuel' ≥ fuel,
        PythonClient.entries anyOpener tokenId fuel' = some (last, result)) ∧
      ∀ entries, result = .ok entries → ∃ body,
        PythonClient.get (anyOpener 0) (ProjectionClient.pagePath tokenId 0 100) = .ok body ∧
        PythonClient.getItem body "entryCount" = .ok (some (.int entries.length))) := by
  have hstart := (ProjectionStore.Valid.initial adapter journal).run (o := o) before
  intro start stores fetch read
  have hvalid : ∀ k, (stores k).Valid := hstart.storeAt between
  have hgrows : PagedWalk.Grows fun k => (stores k).entries tokenId := hstart.grows between tokenId
  have hcount : start.entryCount tokenId = ((stores 0).entries tokenId).length :=
    ProjectionStore.entryCount_eq start tokenId
  refine ⟨fun hsafe => ⟨?_, ?_⟩, fun anyFetch => ?_, fun anyOpener => ?_⟩
  · simp only [read, hcount]
    exact PagedWalk.ends_growing (by decide) hgrows
      (ProjectionClient.serves htoken.1 htoken.2 hsafe)
  · simp only [read, hcount]
    exact PagedWalk.ends_growing (by decide) hgrows
      (PythonClient.serves htoken.1 htoken.2 hvalid hsafe)
  · obtain ⟨last, result, hends, hfirst⟩ := PagedWalk.ends_any 100 (by decide)
      fun k => ProjectionClient.pages (anyFetch k) tokenId
    refine ⟨last, result, hends, fun entries hentries => ?_⟩
    obtain ⟨items, hrequest⟩ := hfirst entries hentries
    exact ProjectionClient.first_count hrequest
  · obtain ⟨last, result, hends, hfirst⟩ := PagedWalk.ends_any 100 (by decide)
      fun k => PythonClient.pages (anyOpener k) tokenId
    refine ⟨last, result, hends, fun entries hentries => ?_⟩
    obtain ⟨items, hrequest⟩ := hfirst entries hentries
    exact PythonClient.first_count hrequest

/-! ### A history of more than one page -/

section SecondPage

open ProjectionStore ProjectionClient

/-- A word for each number below 256, the zero word for 0. -/
def commitment (n : Nat) : Bytes32 := hexText (List.replicate 31 0 ++ [UInt8.ofNat n])

theorem commitment_inj {m n : Nat} (hm : m < 256) (hn : n < 256) :
    commitment m = commitment n ↔ m = n := by
  refine ⟨fun h => ?_, fun h => by rw [h]⟩
  have hbyte := congrArg UInt8.toNat (List.singleton_inj.mp
    (List.append_cancel_left (hexText_injective h)))
  rw [UInt8.toNat_ofNat', UInt8.toNat_ofNat'] at hbyte
  omega

theorem isBytes32_commitment (n : Nat) : isBytes32 (commitment n) = true :=
  isBytes32_hexText rfl

theorem commitment_zero : commitment 0 = zeroBytes32 := by decide

/-- The candidate for entry `n`, which follows the one before it. -/
def numbered (n : Nat) : CandidateEntry where
  recordCommitment := commitment (n + 1)
  previousCommitment := commitment n
  registryReference := firstCandidate.registryReference
  holder := firstCandidate.holder
  version := n + 1
  effectiveAt := n + 1

theorem numbered_shaped {n : Nat} (hn : n < 255) : (numbered n).Shaped where
  holder := firstCandidate_shaped.holder
  recordCommitment := isBytes32_commitment _
  previousCommitment := isBytes32_commitment _
  registryReference := firstCandidate_shaped.registryReference
  effectiveAt := isUint64_eq_true.mpr (by simp only [numbered, uint64Max]; omega)
  version := isUint64_eq_true.mpr (by simp only [numbered, uint64Max]; omega)
  recordCommitment_ne_zero h := by
    rw [← commitment_zero] at h
    exact absurd ((commitment_inj (by omega) (by omega)).mp h) (Nat.succ_ne_zero n)
  recordCommitment_ne_previous h :=
    absurd ((commitment_inj (by omega) (by omega)).mp h) (Nat.succ_ne_self n)

def numberedCall (n : Nat) : StoreCall MemoryChain :=
  .mutate (.admitEntry lastToken (numbered n).toJs ⟨"trusting", n + 1, .null⟩ 0) none

/-- A store over an adapter with the first `n` entries. -/
structure Numbered (n : Nat) (s : ProjectionStore MemoryChain) : Prop where
  valid : s.Valid
  writable : s.poisoned = none
  height : memoryConfig.adapter.acceptedHeight s.adapter lastToken = n
  finalized : s.adapter.finalizedThrough = 0x100000000
  entries : (s.entries lastToken).map (fun e => e.toCandidateEntry) = (List.range n).map numbered

theorem Numbered.mem {n : Nat} {s : ProjectionStore MemoryChain} (h : Numbered n s)
    {e : ProjectionEntry} (he : e ∈ s.entries lastToken) :
    ∃ i < n, e.toCandidateEntry = numbered i := by
  have hmem : e.toCandidateEntry ∈ (s.entries lastToken).map (fun e => e.toCandidateEntry) :=
    List.mem_map_of_mem he
  rw [h.entries] at hmem
  obtain ⟨i, hi, heq⟩ := List.mem_map.mp hmem
  exact ⟨i, List.mem_range.mp hi, heq.symm⟩

theorem Numbered.length {n : Nat} {s : ProjectionStore MemoryChain} (h : Numbered n s) :
    (s.entries lastToken).length = n := by
  have hlength := congrArg List.length h.entries
  rwa [List.length_map, List.length_map, List.length_range] at hlength

theorem Numbered.tip {n : Nat} {s : ProjectionStore MemoryChain} (h : Numbered n s) :
    tip (s.entries lastToken) = commitment n := by
  cases n with
  | zero =>
      rw [List.length_eq_zero_iff.mp h.length, commitment_zero]
      rfl
  | succ n =>
      have hlast : (s.entries lastToken).getLast?.map (fun e => e.toCandidateEntry) =
          some (numbered n) := by
        rw [← List.getLast?_map, h.entries, List.getLast?_map, List.getLast?_range]
        rfl
      obtain ⟨e, he, heq⟩ := Option.map_eq_some_iff.mp hlast
      rw [Erc8415.tip, he]
      exact congrArg (fun c => c.recordCommitment) heq

/-- The next candidate follows the entries there are. -/
theorem Numbered.follows {n : Nat} {s : ProjectionStore MemoryChain} (h : Numbered n s)
    (hn : n < 255) : Follows (s.entries lastToken) (numbered n) where
  shaped := numbered_shaped hn
  version := by
    rw [h.length]
    rfl
  linkage := h.tip.symm
  later e he := by
    obtain ⟨i, hi, heq⟩ := h.mem (List.mem_of_getLast? he)
    rw [heq]
    simp only [numbered]
    omega
  fresh hmem := by
    obtain ⟨e, he, hsame⟩ := List.mem_map.mp hmem
    obtain ⟨i, hi, heq⟩ := h.mem he
    rw [heq] at hsame
    have hindex := (commitment_inj (by omega) (by omega)).mp hsame
    omega

theorem Numbered.step {n : Nat} {s : ProjectionStore MemoryChain} (h : Numbered n s)
    (hn : n < 255) : Numbered (n + 1) (s.step memoryConfig (numberedCall n)) := by
  have hc : Accepted memoryConfig s lastToken (numbered n).toJs ⟨"trusting", n + 1, .null⟩ 0
      (numbered n) := by
    refine ⟨h.writable, validateCandidateShape_toJs.mpr ⟨rfl, numbered_shaped hn⟩,
      checkProof_eq_ok.mpr ⟨rfl, ?_, ?_, rfl⟩, h.follows hn⟩
    · change (decide ((n : Int) + 1 > 0) && decide ((n : Int) + 1 ≤ s.adapter.finalizedThrough)) =
        true
      rw [h.finalized, Bool.and_eq_true, decide_eq_true_eq, decide_eq_true_eq]
      omega
    · rw [h.height]
      exact Int.lt_succ n
  obtain ⟨adapter, hadvance, heq⟩ := h.valid.admitEntry_of_accepted hc
  have hstep : s.step memoryConfig (numberedCall n) =
      s.admitted lastToken (numbered n) (n + 1) adapter := congrArg Prod.fst heq
  have hheight := hc.heights hadvance lastToken
  rw [if_pos rfl] at hheight
  rw [hstep]
  refine ⟨?_, ?_, ?_, ?_, ?_⟩
  · rw [← hstep]
    exact h.valid.step _
  · simp [admitted, h.writable]
  · simp only [admitted, entered_adapter, hheight]
    rfl
  · cases hadvance
    simp only [admitted, entered_adapter]
    exact h.finalized
  · have hextend := map_extend (s.entries lastToken) (numbered n) id
    simp only [id_eq] at hextend
    rw [admitted_entries, hextend, h.entries, List.range_succ, List.map_append]
    rfl

def numberedCalls (n : Nat) : List (StoreCall MemoryChain) := (List.range n).map numberedCall

/-- The store with the first `n` entries. -/
def numberedStore (n : Nat) : ProjectionStore MemoryChain :=
  LabelledRun.run (step memoryConfig) (initial (MemoryChain.new {}) JournalContent.empty)
    (numberedCalls n)

theorem numberedStore_numbered (n : Nat) (hn : n ≤ 255) : Numbered n (numberedStore n) := by
  induction n with
  | zero => exact ⟨Valid.initial _ _, rfl, rfl, rfl, rfl⟩
  | succ n ih =>
      rw [numberedStore, numberedCalls, List.range_succ, List.map_append, List.map_singleton,
        LabelledRun.run_concat]
      exact (ih (Nat.le_of_succ_le hn)).step hn

/-- One more entry is admitted after the first request. -/
def growing : Nat → List (StoreCall MemoryChain)
  | 0 => [numberedCall 150]
  | _ + 1 => []

theorem storeAt_growing (s : ProjectionStore MemoryChain) (k : Nat) :
    storeAt memoryConfig s growing (k + 1) = s.step memoryConfig (numberedCall 150) := by
  induction k with
  | zero => rfl
  | succ k ih => exact ih

/-- The walk takes two requests, and the history has grown at the second of them. -/
theorem entries_walk_second_page :
    let stores := storeAt memoryConfig (numberedStore 150) growing
    let fetch := fun k => fetchFrom memoryConfig (stores k) 0 0 none
    let read := fun last => ((stores last).entries lastToken).take 150
    ((stores 0).entries lastToken).length = 150 ∧ ((stores 1).entries lastToken).length = 151 ∧
      (∃ last, ∃ fuel, ∀ fuel' ≥ fuel, ProjectionClient.entries fetch lastToken fuel' =
        some (last, .ok ((read last).map ClientEntry.ofEntry))) ∧
      ∃ last, ∃ fuel, ∀ fuel' ≥ fuel,
        PythonClient.entries (fun k => PythonClient.openerOf (fetch k)) lastToken fuel' =
          some (last, .ok ((read last).map PyEntry.ofEntry)) := by
  have hfirst : Numbered 150 (numberedStore 150) := numberedStore_numbered 150 (by decide)
  have hlater : Numbered 151 ((numberedStore 150).step memoryConfig (numberedCall 150)) :=
    hfirst.step (by decide)
  have hwalk := (entries_walk memoryConfig (MemoryChain.new {}) JournalContent.empty
    (numberedCalls 150) growing (fun _ => 0) (fun _ => 0) (fun _ => none) lastToken (by decide)).1
  rw [← numberedStore] at hwalk
  -- Nothing below evaluates the store.
  generalize numberedStore 150 = start at hfirst hlater hwalk ⊢
  intro stores fetch read
  have hcount : start.entryCount lastToken = 150 := by
    rw [entryCount_eq, hfirst.length]
  have hgrown : ((stores 1).entries lastToken).length = 151 := by
    simp only [stores, storeAt_growing]
    exact hlater.length
  have hlength (k : Nat) : ((stores k).entries lastToken).length ≤ 151 := by
    cases k with
    | zero => exact hfirst.length.trans_le (by decide)
    | succ k =>
        simp only [stores, storeAt_growing]
        exact hlater.length.le
  have hsafe : SafeCounts stores lastToken := by
    intro k _
    rw [entryCount_eq]
    exact Nat.le_trans (hlength k) (by decide)
  obtain ⟨hclient, hpython⟩ := hwalk hsafe
  rw [hcount] at hclient hpython
  exact ⟨hfirst.length, hgrown, hclient, hpython⟩

end SecondPage

end Erc8415
