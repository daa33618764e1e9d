import Erc8415.Console.Server
import Erc8415.Foundation.Markup
import Erc8415.Settlement.SingleUse

/-! # The markup of a page

What tags a page has is told by numbers and by what is there: the token, whether
a gap is open, the times of entries and settlements, and how many users there
are. The text that a page escapes cannot add to them.
-/

namespace Erc8415

variable {σ : Type}

namespace Console

open Markup

/-! ## Outlines -/

def head : List String :=
  ["<!doctype html>", "<html lang=\"en\">", "<head>", "<meta charset=\"utf-8\">", "<title>",
    "</title>", "</head>", "<body>"]

def foot : List String := ["</body>", "</html>"]

def rowMarks : List String := ["<tr>", "<th scope=\"row\">", "</th>", "<td>", "</td>", "</tr>"]

def rowsMarks (count : Nat) : List String := (List.replicate count rowMarks).flatten

/-- How many fields a row of the timeline shows. -/
def fieldCount : RowKind → Nat
  | .entry => 6
  | .settlement => 5

def sectionMarks (kind : RowKind) : List String :=
  ["<section>", "<h2>", "</h2>", "<table>"] ++ rowsMarks (fieldCount kind) ++
    ["</table>", "</section>"]

def userMarks : List String := ["<tr>", "<td>", "</td>", "<td>", "</td>", "</tr>"]

def homeOutline : List String := head ++ ["<h1>", "</h1>", "<p>", "</p>"] ++ foot

def overviewOutline (gapOpen : Bool) : List String :=
  head ++ ["<h1>", "</h1>", "<p>", "</p>", "<h2>", "</h2>", "<table>"] ++
    rowsMarks 4 ++ rowsMarks (if gapOpen then 4 else 1) ++ rowsMarks 1 ++
    ["</table>", "<p>", "</p>", "<p>", "</p>"] ++ foot

def timelineOutline (kinds : List RowKind) : List String :=
  head ++ ["<h1>", "</h1>"] ++ (if kinds.length = 0 then ["<p>", "</p>"] else []) ++
    kinds.flatMap sectionMarks ++ ["<p>", "</p>"] ++ foot

def permissionsOutline (users : Nat) : List String :=
  head ++ ["<h1>", "</h1>", "<table>"] ++ (List.replicate users userMarks).flatten ++
    ["</table>"] ++ foot

/-! ## Escaped text -/

theorem notMem_escapeChar (c : Char) : '<' ∉ escapeChar c := by
  unfold escapeChar
  split
  any_goals decide
  next hlt _ _ _ => simpa using Ne.symm hlt

theorem marks_escape (value : String) : Marks (escape value) [] := by
  apply marks_of_notMem
  rw [escape, String.toList_ofList, List.mem_flatMap]
  rintro ⟨c, _, hc⟩
  exact notMem_escapeChar c hc

theorem marks_row (label value : String) : Marks (row label value) rowMarks :=
  (by rfl : Marks _ ["<tr>", "<th scope=\"row\">"]).append (marks_escape label)
    |>.append (by rfl : Marks _ ["</th>", "<td>"]) |>.append (marks_escape value)
    |>.append (by rfl : Marks _ ["</td>", "</tr>"])

theorem marks_rows (fields : List (String × String)) :
    Marks (String.join (fields.map fun field => row field.1 field.2))
      (rowsMarks fields.length) := by
  have hjoin := Marks.join fun field (_ : field ∈ fields) => marks_row field.1 field.2
  rw [List.flatMap, List.map_const'] at hjoin
  exact hjoin

/-! ## The home page and the pages of a token -/

theorem marks_homePage : Marks homePage homeOutline :=
  (by decide +kernel : Marks _ (head.take 4)).append
    (by decide +kernel : Marks _ (head.drop 4 ++ ["<h1>", "</h1>"]))
    |>.append (by decide +kernel : Marks _ (["<p>", "</p>"] ++ foot))

theorem marks_renderGap (gap : Option SettlementRow) :
    Marks (renderGap gap) (rowsMarks (if gap.isSome then 4 else 1)) := by
  cases gap with
  | none => exact marks_row _ _
  | some gap =>
      exact marks_rows [
        ("Change in flight", s!"settlement {gap.settlementId}"), ("Gap opened at", gap.openedAt),
        ("Gap deadline", if gap.expired then s!"{gap.deadline} (passed)" else gap.deadline),
        ("Expected holder", gap.expectedHolder)]

theorem marks_renderOverview (view : TokenOverview) :
    Marks (renderOverview view) (overviewOutline view.openGap.isSome) := by
  have hline : Marks "\n" [] := rfl
  have hgap := marks_renderGap view.openGap
  unfold renderOverview
  refine Marks.congr ((by decide +kernel : Marks _ (head.take 5)).append (marks_escape _)
    |>.append (by decide +kernel : Marks _ (head.drop 5 ++ ["<h1>"])) |>.append (marks_escape _)
    |>.append (by decide +kernel : Marks _ ["</h1>", "<p>"]) |>.append (marks_escape _)
    |>.append (by decide +kernel : Marks _ []) |>.append (marks_escape _)
    |>.append (by decide +kernel : Marks _ ["</p>", "<h2>"]) |>.append (marks_escape _)
    |>.append (by decide +kernel : Marks _ ["</h2>", "<table>"])
    |>.append (marks_row _ _) |>.append hline |>.append (marks_row _ _) |>.append hline
    |>.append (marks_row _ _) |>.append hline |>.append (marks_row _ _) |>.append hline
    |>.append hgap |>.append hline |>.append (marks_row _ _)
    |>.append (by decide +kernel : Marks _ ["</table>", "<p>"])
    |>.append (by decide +kernel : Marks _ []) |>.append (by decide +kernel : Marks _ ["</p>"])
    |>.append (by decide +kernel : Marks _ ["<p>"])
    |>.append (by decide +kernel : Marks _ ("</p>" :: foot))) ?_
  simp [overviewOutline, rowsMarks, head]

theorem marks_overview (o : StoreConfig σ) (store : ProjectionStore σ)
    (settlement : Option (EngineView σ)) (tokenId instant : Int) (owner : Option Address) :
    Marks (renderOverview (overview o store settlement tokenId instant owner))
      (overviewOutline (store.openGapOf tokenId ≠ zeroBytes32)) := by
  have hgap : (overview o store settlement tokenId instant owner).openGap.isSome =
      decide (store.openGapOf tokenId ≠ zeroBytes32) := by
    by_cases hopen : store.openGapOf tokenId = zeroBytes32 <;> simp [overview, hopen]
  rw [← hgap]
  exact marks_renderOverview _

theorem marks_renderSection {item : TimelineRow} (h : item.detail.length = fieldCount item.kind) :
    Marks (renderSection item) (sectionMarks item.kind) := by
  have hrows := marks_rows item.detail
  rw [h] at hrows
  refine Marks.congr ((by decide +kernel : Marks _ ["<section>", "<h2>"]).append (marks_escape _)
    |>.append (by decide +kernel : Marks _ []) |>.append (marks_escape _)
    |>.append (by decide +kernel : Marks _ ["</h2>", "<table>"]) |>.append hrows
    |>.append (by decide +kernel : Marks _ ["</table>", "</section>"])) ?_
  simp [sectionMarks]

theorem marks_renderTimeline (tokenId : String) {rows : List TimelineRow}
    (h : ∀ item ∈ rows, item.detail.length = fieldCount item.kind) :
    Marks (renderTimeline tokenId rows) (timelineOutline (rows.map TimelineRow.kind)) := by
  have hline : Marks "\n" [] := rfl
  have hempty : Marks (if rows.length = 0 then "<p>Nothing recorded for this token.</p>" else "")
      (if rows.length = 0 then ["<p>", "</p>"] else []) := by
    split
    · decide +kernel
    · rfl
  have hsections := hline.intercalate fun item hitem => marks_renderSection (h item hitem)
  unfold renderTimeline
  refine Marks.congr ((by decide +kernel : Marks _ (head.take 5)).append (marks_escape _)
    |>.append (by decide +kernel : Marks _ (head.drop 5 ++ ["<h1>"])) |>.append (marks_escape _)
    |>.append (by decide +kernel : Marks _ ["</h1>"]) |>.append hempty |>.append hline
    |>.append hsections |>.append (by decide +kernel : Marks _ ["<p>"])
    |>.append (by decide +kernel : Marks _ []) |>.append (by decide +kernel : Marks _ ["</p>"])
    |>.append (by decide +kernel : Marks _ foot)) ?_
  simp [timelineOutline, head, List.flatMap_map]

/-! ## The order of the timeline -/

/-- When a row takes effect, and its kind. -/
structure Moment where
  time : Int
  kind : RowKind
  deriving DecidableEq, Repr

def Moment.compare (a b : Moment) : Ordering :=
  if a.time ≠ b.time then
    if a.time < b.time then .lt else .gt
  else if a.kind = b.kind then .eq
  else if a.kind = .entry then .lt
  else .gt

/-- The kinds of a timeline's rows in their order, told by the times alone. -/
def kinds (effectiveAt openedAt : List Int) : List RowKind :=
  ((effectiveAt.map fun time => (⟨time, .entry⟩ : Moment)) ++
    openedAt.map fun time => (⟨time, .settlement⟩ : Moment)).mergeSort
      (fun a b => a.compare b ≠ .gt) |>.map Moment.kind

theorem kinds_timeline (locale : Locale) (entries : List ProjectionEntry)
    (settlements : List Settlement) :
    (timeline locale entries settlements).map TimelineRow.kind =
      kinds (entries.map fun entry => entry.effectiveAt)
        (settlements.map fun record => record.openedAt) := by
  let moment (item : TimelineRow) : Moment := ⟨item.bigInt, item.kind⟩
  have hkind : TimelineRow.kind = Moment.kind ∘ moment := rfl
  have hentry : moment ∘ TimelineRow.ofEntry = fun entry => ⟨entry.effectiveAt, .entry⟩ := by
    funext entry
    simp [moment, TimelineRow.bigInt, TimelineRow.ofEntry]
  have hsettlement : moment ∘ TimelineRow.ofSettlement locale =
      fun record => ⟨record.openedAt, .settlement⟩ := by
    funext record
    simp [moment, TimelineRow.bigInt, TimelineRow.ofSettlement]
  have hcompare (a b : TimelineRow) :
      decide (a.compare b ≠ .gt) = decide ((moment a).compare (moment b) ≠ .gt) := rfl
  rw [hkind, ← List.map_map, timeline, List.map_mergeSort (f := moment)
    (s := fun a b => decide (a.compare b ≠ .gt)) fun a _ b _ => hcompare a b, List.map_append,
    List.map_map, List.map_map, hentry, hsettlement, kinds, List.map_map, List.map_map]
  rfl

theorem detail_timeline (locale : Locale) (entries : List ProjectionEntry)
    (settlements : List Settlement) :
    ∀ item ∈ timeline locale entries settlements, item.detail.length = fieldCount item.kind := by
  intro item hitem
  rw [timeline, List.mem_mergeSort, List.mem_append, List.mem_map, List.mem_map] at hitem
  rcases hitem with ⟨entry, _, rfl⟩ | ⟨record, _, rfl⟩ <;> rfl

theorem marks_timeline (locale : Locale) (tokenId : String) (entries : List ProjectionEntry)
    (settlements : List Settlement) :
    Marks (renderTimeline tokenId (timeline locale entries settlements))
      (timelineOutline (kinds (entries.map fun entry => entry.effectiveAt)
        (settlements.map fun record => record.openedAt))) := by
  rw [← kinds_timeline locale]
  exact marks_renderTimeline tokenId (detail_timeline locale entries settlements)

/-! ## The permissions page -/

/-- A row of the permissions page as its reader sees it. -/
def shownRow (item : DirectoryUser) : String :=
  "<tr><td>" ++ ofJsText item.user ++ "</td><td>" ++ item.role.text ++ "</td></tr>"

/-- The permissions page as its reader sees it. -/
def shownPage (users : List DirectoryUser) : String :=
  "<!doctype html><html lang=\"en\"><head><meta charset=\"utf-8\">" ++
  "<title>Permissions</title></head><body><h1>Permissions</h1><table>" ++
  String.join (users.map shownRow) ++ "</table></body></html>"

theorem isAscii_afterUser (role : Role) :
    Text.IsAscii ("</td><td>" ++ role.text ++ "</td></tr>").toList ∧
      ("</td><td>" ++ role.text ++ "</td></tr>").toList ≠ [] := by
  cases role <;> decide +kernel

theorem chars_permissionsRow (item : DirectoryUser) (rest : JsText) :
    JsText.chars (permissionsRow item ++ rest) = (shownRow item).toList ++ JsText.chars rest := by
  have hfront : Text.IsAscii "<tr><td>".toList := by decide +kernel
  obtain ⟨hascii, hne⟩ := isAscii_afterUser item.role
  have hrow : permissionsRow item ++ rest = jsText "<tr><td>" ++
      (item.user ++ (jsText ("</td><td>" ++ item.role.text ++ "</td></tr>") ++ rest)) := by
    simp only [permissionsRow, jsText_append, List.append_assoc]
  rw [hrow]
  simp only [jsText]
  rw [JsText.chars_between hfront hascii hne]
  simp only [shownRow, ofJsText, String.toList_append, String.toList_ofList, List.append_assoc]

theorem chars_permissionsRows (users : List DirectoryUser) (rest : JsText) :
    JsText.chars ((users.map permissionsRow).flatten ++ rest) =
      (String.join (users.map shownRow)).toList ++ JsText.chars rest := by
  induction users with
  | nil => simp
  | cons item users ih =>
      rw [List.map_cons, List.flatten_cons, List.append_assoc, chars_permissionsRow, ih,
        List.map_cons, String.join_cons, String.toList_append, List.append_assoc]

theorem ofJsText_rows {opening title : String} (hopening : Text.IsAscii opening.toList)
    (htitle : Text.IsAscii title.toList) (users : List DirectoryUser) (closing : String) :
    ofJsText (jsText opening ++ jsText title ++ (users.map permissionsRow).flatten ++
        jsText closing) =
      opening ++ title ++ String.join (users.map shownRow) ++ closing := by
  apply String.toList_injective
  rw [ofJsText, String.toList_ofList, List.append_assoc, List.append_assoc]
  simp only [jsText]
  rw [JsText.chars_ofChars_append hopening, JsText.chars_ofChars_append htitle,
    chars_permissionsRows, JsText.chars_ofChars]
  simp only [String.toList_append, List.append_assoc]

theorem ofJsText_permissionsPage (users : List DirectoryUser) :
    ofJsText (permissionsPage users) = shownPage users := by
  unfold permissionsPage shownPage
  exact ofJsText_rows (by decide +kernel) (by decide +kernel) users _

theorem marks_shownRow {item : DirectoryUser} (h : Inert (ofJsText item.user)) :
    Marks (shownRow item) userMarks := by
  have hrole : Marks item.role.text [] := by
    cases item.role <;> rfl
  have htail : Marks ("</td><td>" ++ (item.role.text ++ "</td></tr>"))
      ["</td>", "<td>", "</td>", "</tr>"] :=
    (by rfl : Marks _ ["</td>", "<td>"]).append (hrole.append (by rfl : Marks _ ["</td>", "</tr>"]))
  have hhead : Marks "<tr><td>" ["<tr>", "<td>"] := rfl
  rw [shownRow, String.append_assoc, String.append_assoc, String.append_assoc]
  exact hhead.append (htail.inert h (by rw [String.toList_append]; rfl))

/-- How many pieces a name opens in front of a tag. -/
def nameOpenings (item : DirectoryUser) : Nat := openings ((ofJsText item.user).toList ++ ['<'])

theorem opens_shownRow (item : DirectoryUser) : Opens (shownRow item) (nameOpenings item + 6) := by
  have htail : Opens ("</td><td>" ++ (item.role.text ++ "</td></tr>")) 4 := by
    cases item.role <;> exact opens_of_getLast (by decide +kernel) (by decide +kernel)
  have hhead : Opens "<tr><td>" 2 := opens_of_getLast (by decide +kernel) (by decide +kernel)
  have hrow := hhead.append (htail.prepend (by rw [String.toList_append]; rfl) (ofJsText item.user))
  rw [shownRow, String.append_assoc, String.append_assoc, String.append_assoc]
  intro rest
  rw [hrow, nameOpenings]
  omega

theorem marks_shownPage {users : List DirectoryUser}
    (h : ∀ item ∈ users, Inert (ofJsText item.user)) :
    Marks (shownPage users) (permissionsOutline users.length) := by
  have hrows := Marks.join fun item hitem => marks_shownRow (h item hitem)
  rw [List.flatMap, List.map_const'] at hrows
  unfold shownPage
  refine Marks.congr ((by decide +kernel : Marks _ (head.take 4)).append
    (by decide +kernel : Marks _ (head.drop 4 ++ ["<h1>", "</h1>", "<table>"]))
    |>.append hrows |>.append (by decide +kernel : Marks _ ("</table>" :: foot))) ?_
  simp [permissionsOutline, head]

theorem weight_permissionsOutline (users : Nat) :
    weight (permissionsOutline users) = users * 6 + 14 := by
  have husers : weight (List.replicate users userMarks).flatten = users * 6 := by
    induction users with
    | zero => rfl
    | succ users ih =>
        rw [List.replicate_succ, List.flatten_cons, weight_append, ih]
        have huser : weight userMarks = 6 := by decide
        omega
  have hrest : weight head + weight ["<h1>", "</h1>", "<table>"] + weight ["</table>"] +
      weight foot = 14 := by decide
  rw [permissionsOutline, weight_append, weight_append, weight_append, weight_append, husers]
  omega

/-- The page opens what its outline has, and what the names open. -/
theorem opens_shownPage (users : List DirectoryUser) :
    Opens (shownPage users)
      (weight (permissionsOutline users.length) + (users.map nameOpenings).sum) := by
  have hrows : Opens (String.join (users.map shownRow))
      (users.map fun item => nameOpenings item + 6).sum := Opens.join opens_shownRow
  have hsum : (users.map fun item => nameOpenings item + 6).sum =
      (users.map nameOpenings).sum + users.length * 6 := by
    simp
  rw [hsum] at hrows
  have hpage : Opens (shownPage users)
      (4 + 7 + ((users.map nameOpenings).sum + users.length * 6) + 3) :=
    (opens_of_getLast (by decide +kernel) (by decide +kernel) : Opens _ 4).append
      (opens_of_getLast (by decide +kernel) (by decide +kernel) : Opens _ 7) |>.append hrows
      |>.append (opens_of_getLast (by decide +kernel) (by decide +kernel) : Opens _ 3)
  intro rest
  rw [hpage, weight_permissionsOutline]
  omega

/-- The permissions page has the markup of its outline if and only if no name opens any. -/
theorem pieces_permissionsPage_iff (users : List DirectoryUser) :
    pieces (ofJsText (permissionsPage users)) = permissionsOutline users.length ↔
      ∀ item ∈ users, Inert (ofJsText item.user) := by
  rw [ofJsText_permissionsPage]
  constructor
  · intro heq
    have hle := openings_le_weight_pieces (shownPage users)
    rw [heq, (opens_shownPage users).openings_eq] at hle
    have hsum : (users.map nameOpenings).sum = 0 := by omega
    intro item hitem
    exact List.sum_eq_zero_iff_forall_eq_nat.mp hsum _ (List.mem_map_of_mem hitem)
  · exact fun h => (marks_shownPage h).pieces_eq

/-! ## What is answered -/

section Answered

variable (locale : Locale) (options : ConsoleOptions σ)

/-- The pages a request is answered, as they are read, by the segments of its path. -/
inductive Answered : List String → String → Prop
  | home : Answered [] homePage
  | overview {tokenRaw : String} {tokenId : Int} (instant : Int)
      (htoken : BigIntText.parse tokenRaw = some tokenId) :
      Answered ["token", tokenRaw] (renderOverview (Erc8415.overview options.config options.store
        options.settlement tokenId instant (options.ownerOf tokenId)))
  | timeline {tokenRaw : String} {tokenId : Int}
      (htoken : BigIntText.parse tokenRaw = some tokenId) :
      Answered ["token", tokenRaw, "timeline"] (renderTimeline (toString tokenId)
        (Erc8415.timeline locale (options.store.entries tokenId)
          (options.store.settlementsFor tokenId)))
  | permissions :
      Answered ["permissions"] (ofJsText (permissionsPage (options.directory.users locale)))

variable {locale options}

theorem consoleBigInt_eq_ok {text : String} {n : Int} :
    consoleBigInt text = .ok n ↔ BigIntText.parse text = some n := by
  unfold consoleBigInt
  cases BigIntText.parse text <;> simp

theorem consoleRoute_answered {request : ConsoleRequest} {user : JsText} {parts : List String}
    {response : ConsoleResponse}
    (h : consoleRoute locale options request user parts = .ok (some response)) :
    Answered locale options parts (ofJsText response.body) := by
  unfold consoleRoute at h
  split at h
  · simp only [bind_eq_ok, consoleBigInt_eq_ok] at h
    obtain ⟨_, _, tokenId, htoken, instant, _, heq⟩ := h
    rw [← Option.some.inj (Except.ok.inj heq), html, ofJsText_jsText]
    exact .overview instant htoken
  · simp only [bind_eq_ok, consoleBigInt_eq_ok] at h
    obtain ⟨_, _, tokenId, htoken, heq⟩ := h
    rw [← Option.some.inj (Except.ok.inj heq), html, ofJsText_jsText]
    exact .timeline htoken
  · simp only [bind_eq_ok] at h
    obtain ⟨_, _, heq⟩ := h
    rw [← Option.some.inj (Except.ok.inj heq), html]
    exact .permissions
  · cases h

theorem handleConsole_answered {request : ConsoleRequest}
    (h : (handleConsole locale options request).status = 200) :
    Answered locale options (segments request.path)
      (ofJsText (handleConsole locale options request).body) := by
  unfold handleConsole at h ⊢
  generalize segments request.path = parts at h ⊢
  by_cases hnil : parts.length = 0
  · rw [if_pos hnil, List.length_eq_zero_iff.mp hnil, html, ofJsText_jsText]
    exact .home
  · rw [if_neg hnil] at h ⊢
    cases huser : request.user with
    | none =>
        rw [huser] at h
        cases h
    | some user =>
        rw [huser] at h
        cases hrole : options.directory.roleOf locale user with
        | none =>
            simp only [hrole] at h
            cases h
        | some role =>
            simp only [hrole] at h ⊢
            cases hroute : consoleRoute locale options request user parts with
            | error error =>
                rw [hroute] at h
                cases error <;> cases h
            | ok answered =>
                cases answered with
                | none =>
                    rw [hroute] at h
                    cases h
                | some response => exact consoleRoute_answered hroute

end Answered

/-! ## What a page shows -/

/-- The markup that the page of a path has, told by numbers and by what is there. The segment of a
token is read as the page reads it. -/
def outlineOf (options : ConsoleOptions σ) : List String → List String
  | [] => homeOutline
  | ["token", tokenRaw] =>
      let tokenId := (BigIntText.parse tokenRaw).getD 0
      overviewOutline (options.store.openGapOf tokenId ≠ zeroBytes32)
  | ["token", tokenRaw, "timeline"] =>
      let tokenId := (BigIntText.parse tokenRaw).getD 0
      timelineOutline (kinds ((options.store.entries tokenId).map fun entry => entry.effectiveAt)
        ((options.store.settlementsFor tokenId).map fun record => record.openedAt))
  | ["permissions"] => permissionsOutline options.directory.roles.pairs.length
  | _ => []

def outline (options : ConsoleOptions σ) (path : String) : List String :=
  outlineOf options (segments path)

/-- The names that a page shows as they are open nothing. -/
def NamesInert (options : ConsoleOptions σ) (path : String) : Prop :=
  segments path = ["permissions"] → ∀ user ∈ options.directory.roles.keys, Inert (ofJsText user)

/-- Two consoles differ in nothing but strings, as far as the outlines of their pages tell. -/
structure SamePresence (options options' : ConsoleOptions σ) : Prop where
  effectiveAt : ∀ tokenId,
    (options.store.entries tokenId).map (fun entry => entry.effectiveAt) =
      (options'.store.entries tokenId).map fun entry => entry.effectiveAt
  openedAt : ∀ tokenId,
    (options.store.settlementsFor tokenId).map (fun record => record.openedAt) =
      (options'.store.settlementsFor tokenId).map fun record => record.openedAt
  openGap : ∀ tokenId, options.store.openGapOf tokenId = zeroBytes32 ↔
    options'.store.openGapOf tokenId = zeroBytes32
  users : options.directory.roles.pairs.length = options'.directory.roles.pairs.length

theorem SamePresence.outline_eq {options options' : ConsoleOptions σ}
    (h : SamePresence options options') (path : String) :
    outline options' path = outline options path := by
  unfold outline outlineOf
  split
  · rfl
  · simp only [ne_eq, h.openGap]
  · simp only [h.effectiveAt, h.openedAt]
  · rw [h.users]
  · rfl

variable {locale : Locale} {options : ConsoleOptions σ} {request : ConsoleRequest}

/-- A page has the markup of its outline if and only if the names it shows as they are open
nothing. -/
theorem pieces_eq_outline_iff (h : (handleConsole locale options request).status = 200) :
    pieces (ofJsText (handleConsole locale options request).body) = outline options request.path ↔
      NamesInert options request.path := by
  have hanswered := handleConsole_answered h
  unfold outline NamesInert
  generalize segments request.path = parts,
    ofJsText (handleConsole locale options request).body = body at hanswered ⊢
  cases hanswered with
  | home =>
      refine ⟨fun _ hparts => ?_, fun _ => marks_homePage.pieces_eq⟩
      cases hparts
  | @overview tokenRaw tokenId instant htoken =>
      have hmarks := marks_overview options.config options.store options.settlement tokenId instant
        (options.ownerOf tokenId)
      refine ⟨fun _ hparts => ?_, fun _ => ?_⟩
      · simp at hparts
      · rw [hmarks.pieces_eq, outlineOf, htoken]
        rfl
  | @timeline tokenRaw tokenId htoken =>
      have hmarks := marks_timeline locale (toString tokenId) (options.store.entries tokenId)
        (options.store.settlementsFor tokenId)
      refine ⟨fun _ hparts => ?_, fun _ => ?_⟩
      · simp at hparts
      · rw [hmarks.pieces_eq, outlineOf, htoken]
        rfl
  | permissions =>
      have hiff := pieces_permissionsPage_iff (options.directory.users locale)
      rw [Directory.length_users,
        Directory.forall_users (p := fun user => Inert (ofJsText user))] at hiff
      exact hiff.trans ⟨fun hinert _ => hinert, fun hinert => hinert rfl⟩

/-! ## What a name may do -/

/-- A page has the markup of its outline if and only if the names it shows as they are open
nothing. If they do not, other strings in the places of its own keep the markup if and only if the
names among those open nothing either. -/
theorem markup_kept_iff (h : (handleConsole locale options request).status = 200) :
    (pieces (ofJsText (handleConsole locale options request).body) =
        outline options request.path ↔ NamesInert options request.path) ∧
    ∀ (options' : ConsoleOptions σ) (request' : ConsoleRequest),
      (handleConsole locale options' request').status = 200 → request'.path = request.path →
      SamePresence options options' → NamesInert options request.path →
        (pieces (ofJsText (handleConsole locale options' request').body) =
            pieces (ofJsText (handleConsole locale options request).body) ↔
          NamesInert options' request.path) := by
  refine ⟨pieces_eq_outline_iff h, fun options' request' h' hpath hsame hinert => ?_⟩
  have hiff := pieces_eq_outline_iff h'
  rw [hpath, hsame.outline_eq] at hiff
  rw [(pieces_eq_outline_iff h).mpr hinert]
  exact hiff

section Names

/-- A runtime that maps ASCII letters and compares code units. -/
def sampleLocale : Locale where
  toLowerCase text := text.map fun u => if 0x41 ≤ u ∧ u ≤ 0x5a then u + 0x20 else u
  localeCompare a b := compareOfLessAndEq a b

/-- A console with an administrator and another user. -/
def sampleConsole (name : String) : ConsoleOptions MemoryChain where
  config := ProjectionStore.leafConfig
  store := ProjectionStore.leafStart
  directory := Directory.new sampleLocale
    [(jsText "admin@example.org", .admin), (jsText name, .viewer)]
  settlement := none
  now := 1000
  ownerOf _ := none

def permissionsRequest : ConsoleRequest :=
  ⟨"GET", "/permissions", some (jsText "admin@example.org"), []⟩

theorem markup_kept_iff_viewer :
    pieces (ofJsText (handleConsole sampleLocale (sampleConsole "viewer@example.org")
      permissionsRequest).body) =
    outline (sampleConsole "viewer@example.org") "/permissions" :=
  (markup_kept_iff (by decide +kernel)).1.mpr fun _ => by decide +kernel

/-- A user name with a tag in it brings the tag to the permissions page. -/
theorem name_becomes_markup :
    let plain := sampleConsole "viewer@example.org"
    let named := sampleConsole "<script>alert(1)</script>"
    (handleConsole sampleLocale plain permissionsRequest).status = 200 ∧
      (handleConsole sampleLocale named permissionsRequest).status = 200 ∧
      SamePresence plain named ∧
      pieces (ofJsText (handleConsole sampleLocale named permissionsRequest).body) ≠
        pieces (ofJsText (handleConsole sampleLocale plain permissionsRequest).body) := by
  intro plain named
  have hplain : (handleConsole sampleLocale plain permissionsRequest).status = 200 := by
    decide +kernel
  have hnamed : (handleConsole sampleLocale named permissionsRequest).status = 200 := by
    decide +kernel
  have hsame : SamePresence plain named :=
    ⟨fun _ => rfl, fun _ => rfl, fun _ => Iff.rfl, by decide +kernel⟩
  have hpath : segments permissionsRequest.path = ["permissions"] := by decide
  refine ⟨hplain, hnamed, hsame, fun heq => ?_⟩
  have hinert : NamesInert plain permissionsRequest.path := fun _ => by decide +kernel
  rw [(pieces_eq_outline_iff hplain).mpr hinert, ← hsame.outline_eq,
    pieces_eq_outline_iff hnamed] at heq
  have hname : ¬ ∀ user ∈ named.directory.roles.keys, Inert (ofJsText user) := by decide +kernel
  exact hname (heq hpath)

end Names

end Console

end Erc8415
