import Mathlib.Data.List.Forall2
import Mathlib.Data.Set.Finite.Basic
import Erc8415.Api.Isolation

/-! # What the metrics tell

Every request is counted under a label of its path, in which a segment of digits
is masked and any other is copied. So a label tells the segments that are not
digits, and requests without a key can make as many counters as they can write
paths.
-/

namespace Erc8415

/-! ## Labels of paths -/

/-- What a label shows of a segment. -/
def segmentLabel (part : String) : String := if isDigits part then ":id" else part

/-- Shown as an identifier. -/
def Masked (part : String) : Prop := isDigits part = true ∨ part = ":id"

/-- Segments a label does not tell apart. -/
def SameSegment (part part' : String) : Prop := part = part' ∨ Masked part ∧ Masked part'

/-- Shown as `root`. -/
def IsRoot (path : String) : Prop := segments path = [] ∨ segments path = ["root"]

/-- Paths a label does not tell apart. -/
def SameLabel (path path' : String) : Prop :=
  List.Forall₂ SameSegment (segments path) (segments path') ∨ IsRoot path ∧ IsRoot path'

theorem segmentLabel_of_masked {part : String} (h : Masked part) : segmentLabel part = ":id" := by
  unfold segmentLabel
  split
  · rfl
  next hdigits => exact h.resolve_left hdigits

theorem segmentLabel_of_not_masked {part : String} (h : ¬ Masked part) :
    segmentLabel part = part := if_neg fun hdigits => h (Or.inl hdigits)

theorem segmentLabel_eq_iff {part part' : String} :
    segmentLabel part = segmentLabel part' ↔ SameSegment part part' := by
  by_cases h : Masked part <;> by_cases h' : Masked part'
  · rw [segmentLabel_of_masked h, segmentLabel_of_masked h']
    exact ⟨fun _ => Or.inr ⟨h, h'⟩, fun _ => rfl⟩
  · rw [segmentLabel_of_masked h, segmentLabel_of_not_masked h']
    refine ⟨fun heq => absurd (Or.inr heq.symm) h', fun heq => ?_⟩
    exact absurd (heq.elim (fun heq => heq ▸ h) And.right) h'
  · rw [segmentLabel_of_not_masked h, segmentLabel_of_masked h']
    refine ⟨fun heq => absurd (Or.inr heq) h, fun heq => ?_⟩
    exact absurd (heq.elim (fun heq => heq ▸ h') And.left) h
  · rw [segmentLabel_of_not_masked h, segmentLabel_of_not_masked h']
    exact ⟨Or.inl, fun heq => heq.resolve_right fun hmasked => h hmasked.1⟩

theorem mem_segments {path part : String} (h : part ∈ segments path) :
    part ≠ "" ∧ '/' ∉ part.toList := by
  rw [segments, List.mem_filter, decide_eq_true_eq] at h
  exact ⟨h.2, SplitText.notMem_of_mem_split h.1⟩

/-- The parts of a label. -/
def labelParts (path : String) : List String :=
  if segments path = [] then ["root"] else (segments path).map segmentLabel

theorem segmentLabel_spec {part : String} (h : part ≠ "" ∧ '/' ∉ part.toList) :
    segmentLabel part ≠ "" ∧ '/' ∉ (segmentLabel part).toList := by
  unfold segmentLabel
  split
  · exact ⟨by decide, by decide⟩
  · exact h

theorem labelParts_ne_nil (path : String) : labelParts path ≠ [] := by
  unfold labelParts
  split
  · exact List.cons_ne_nil _ _
  next h => simpa using h

theorem mem_labelParts {path part : String} (h : part ∈ labelParts path) :
    part ≠ "" ∧ '/' ∉ part.toList := by
  unfold labelParts at h
  split at h
  · rw [List.mem_singleton.mp h]
    exact ⟨by decide, by decide⟩
  · obtain ⟨segment, hsegment, rfl⟩ := List.mem_map.mp h
    exact segmentLabel_spec (mem_segments hsegment)

theorem join_ne_empty {parts : List String} (hne : parts ≠ [])
    (h : ∀ part ∈ parts, part ≠ "" ∧ '/' ∉ part.toList) : SplitText.join '/' parts ≠ "" := by
  intro heq
  have hparts := SplitText.split_join hne fun part hpart => (h part hpart).2
  rw [heq] at hparts
  have hempty : SplitText.split '/' "" = [""] := by
    simp [SplitText.split]
  rw [hempty] at hparts
  exact (h "" (hparts ▸ List.mem_singleton_self _)).1 rfl

theorem routeLabel_eq_join (path : String) :
    routeLabel path = SplitText.join '/' (labelParts path) := by
  have hmap : ((segments path).map fun part => if isDigits part then ":id" else part) =
      (segments path).map segmentLabel := rfl
  rw [routeLabel, hmap, labelParts]
  by_cases hnil : segments path = []
  · rw [if_pos hnil, hnil]
    rfl
  · have hne : (segments path).map segmentLabel ≠ [] := by simpa using hnil
    have hjoin := join_ne_empty hne fun part hpart => by
      obtain ⟨segment, hsegment, rfl⟩ := List.mem_map.mp hpart
      exact segmentLabel_spec (mem_segments hsegment)
    rw [if_neg hnil]
    exact if_neg hjoin

theorem map_segmentLabel_eq_root {parts : List String} :
    parts.map segmentLabel = ["root"] ↔ parts = ["root"] := by
  have hroot (part : String) : segmentLabel part = "root" ↔ part = "root" := by
    unfold segmentLabel
    split
    next hdigits =>
      refine ⟨fun h => absurd h (by decide), fun h => ?_⟩
      rw [h] at hdigits
      exact absurd hdigits (by decide)
    next => exact Iff.rfl
  rw [List.map_eq_singleton_iff]
  constructor
  · rintro ⟨part, rfl, hpart⟩
    rw [(hroot part).mp hpart]
  · rintro rfl
    exact ⟨"root", rfl, (hroot _).mpr rfl⟩

/-- A label tells two paths apart by a segment that is not masked on both sides. -/
theorem routeLabel_eq_iff {path path' : String} :
    routeLabel path = routeLabel path' ↔ SameLabel path path' := by
  have hparts : routeLabel path = routeLabel path' ↔ labelParts path = labelParts path' := by
    rw [routeLabel_eq_join, routeLabel_eq_join]
    exact ⟨SplitText.join_inj (labelParts_ne_nil _) (labelParts_ne_nil _)
      (fun part hpart => (mem_labelParts hpart).2) fun part hpart => (mem_labelParts hpart).2,
      congrArg _⟩
  have hmap : (segments path).map segmentLabel = (segments path').map segmentLabel ↔
      List.Forall₂ SameSegment (segments path) (segments path') := by
    rw [← List.forall₂_eq_eq_eq, List.forall₂_map_left_iff, List.forall₂_map_right_iff]
    simp only [segmentLabel_eq_iff]
  rw [hparts, labelParts, labelParts, SameLabel, IsRoot, IsRoot]
  by_cases h : segments path = [] <;> by_cases h' : segments path' = []
  · simp [h, h']
  · rw [if_pos h, if_neg h', eq_comm, map_segmentLabel_eq_root, h, List.forall₂_nil_left_iff]
    simp [h']
  · rw [if_neg h, if_pos h', map_segmentLabel_eq_root, h', List.forall₂_nil_right_iff]
    simp [h]
  · rw [if_neg h, if_neg h', hmap]
    simp only [h, h', false_or]
    refine ⟨Or.inl, fun heq => heq.elim id fun hroot => ?_⟩
    rw [hroot.1, hroot.2]
    exact .cons (Or.inl rfl) .nil

/-! ## Identifiers in a path -/

/-- A route: its fixed segments, and the places of its token ids, instants and versions. -/
abbrev RoutePattern := List (Option String)

/-- A path has the fixed segments of a route, and any segments in its other places. -/
def OnRoute (pattern : RoutePattern) (path : String) : Prop :=
  List.Forall₂ (fun part segment => ∀ literal ∈ part, segment = literal) pattern (segments path)

/-- Two paths of one route have one label if and only if each two segments in one place are equal
or both masked. -/
theorem routeLabel_onRoute_iff {pattern : RoutePattern} {path path' : String}
    (h : OnRoute pattern path) (h' : OnRoute pattern path') :
    routeLabel path = routeLabel path' ↔
      List.Forall₂ SameSegment (segments path) (segments path') := by
  rw [routeLabel_eq_iff, SameLabel]
  refine ⟨fun heq => heq.elim id fun hroot => ?_, Or.inl⟩
  have hlength := h.length_eq.symm.trans h'.length_eq
  have hsame : segments path = segments path' := by
    rcases hroot with ⟨hpath | hpath, hpath' | hpath'⟩ <;> rw [hpath, hpath'] at hlength ⊢ <;>
      cases hlength
  rw [hsame]
  exact List.forall₂_same.mpr fun part _ => Or.inl rfl

/-- What the API reads as an identifier is masked. -/
theorem masked_of_isCanonicalDecimal {raw : String} (h : isCanonicalDecimal raw = true) :
    Masked raw := by
  obtain ⟨n, rfl⟩ := exists_eq_toString h
  refine Or.inl ?_
  rw [isDigits, Bool.and_eq_true, decide_eq_true_eq, List.all_eq_true,
    BigIntText.toList_toString_natCast]
  refine ⟨BigIntText.toString_ne_empty _, fun c hc => ?_⟩
  have hdigit := BigIntText.isDigit_bounds (BigIntText.isDigit_of_mem_decimal hc)
  simp [hdigit.1, hdigit.2]

/-- Two paths of one route whose segments in its open places the API reads as identifiers have one
label. -/
theorem routeLabel_wellFormed {pattern : RoutePattern} {path path' : String}
    (h : OnRoute pattern path) (h' : OnRoute pattern path')
    (hread : List.Forall₂ (fun part segment => part = none → isCanonicalDecimal segment = true)
      pattern (segments path))
    (hread' : List.Forall₂ (fun part segment => part = none → isCanonicalDecimal segment = true)
      pattern (segments path')) : routeLabel path = routeLabel path' := by
  rw [routeLabel_onRoute_iff h h']
  unfold OnRoute at h h'
  generalize segments path = parts, segments path' = parts' at h h' hread hread' ⊢
  induction pattern generalizing parts parts' with
  | nil =>
      cases h
      cases h'
      exact .nil
  | cons part rest ih =>
      cases h with
      | cons hpart hrest =>
      cases h' with
      | cons hpart' hrest' =>
      cases hread with
      | cons hdecimal hdecimals =>
      cases hread' with
      | cons hdecimal' hdecimals' =>
      refine .cons ?_ (ih _ _ hrest hrest' hdecimals hdecimals')
      cases part with
      | none =>
          exact Or.inr ⟨masked_of_isCanonicalDecimal (hdecimal rfl),
            masked_of_isCanonicalDecimal (hdecimal' rfl)⟩
      | some literal =>
          exact Or.inl ((hpart literal rfl).trans (hpart' literal rfl).symm)

namespace Gateway

/-! ## What a request is counted under -/

/-- The outcomes of a request without a key that is valid. -/
def refusals : List String := ["unauthenticated", "rejected"]

def refusalLabels (path outcome : String) : Labels :=
  [("route", routeLabel path), ("outcome", outcome)]

/-- Labels that name one of those outcomes. -/
def isRefusal (labels : Labels) : Bool :=
  refusals.any fun outcome => labels.contains ("outcome", outcome)

/-- The counters that requests without a valid key have made. -/
def refusalCounters (g : Gateway) : List Counter :=
  g.metrics.counters.values.filter fun counter => isRefusal counter.labels

/-- The labels of a request: its path's and the outcome, and no outcome of those where a key is
valid. -/
def CountedUnder (g : Gateway) (request : GatewayRequest) (labels : Labels) : Prop :=
  ("route", routeLabel request.path) ∈ labels ∧
    match caller g.keys request with
    | none => ∃ outcome ∈ refusals, labels = refusalLabels request.path outcome
    | some _ => isRefusal labels = false

theorem meter_increment (g : Gateway) {labels : Labels} (outcome : Handled)
    (h : ∀ label ∈ labels, label.1 ∉ Metrics.forbiddenLabels) :
    g.metrics.increment "erc8415_requests_total" labels =
      .ok (g.meter labels outcome).1.metrics := by
  obtain ⟨metrics, hmetrics⟩ :=
    Metrics.exists_increment g.metrics "erc8415_requests_total" 1 h
  rw [meter, hmetrics]

theorem meterHandled_increment (g : Gateway) (tenantId route : String) (outcome : Handled) :
    ∃ labels, (("route", route) ∈ labels ∧ isRefusal labels = false) ∧
      g.metrics.increment "erc8415_requests_total" labels =
        .ok (g.meterHandled tenantId route outcome).1.metrics := by
  have hfailed : g.metrics.increment "erc8415_requests_total"
      [("tenant", tenantId), ("route", route), ("outcome", "error")] =
        .ok (g.meter [("tenant", tenantId), ("route", route), ("outcome", "error")]
          outcome).1.metrics := by
    apply meter_increment
    simp [Metrics.forbiddenLabels]
  unfold meterHandled
  split
  next response =>
    have hallowed : ∀ label ∈ ([("tenant", tenantId), ("route", route),
        ("outcome", if response.status < 400 then "ok" else "refused"),
        ("status", toString response.status)] : Labels), label.1 ∉ Metrics.forbiddenLabels := by
      simp [Metrics.forbiddenLabels]
    obtain ⟨metrics, hmetrics⟩ :=
      Metrics.exists_increment g.metrics "erc8415_requests_total" 1 hallowed
    refine ⟨_, ⟨?_, ?_⟩, by rw [hmetrics]⟩
    · simp
    · split <;> simp [isRefusal, refusals]
  next =>
    refine ⟨_, ⟨?_, ?_⟩, hfailed⟩
    · simp
    · simp [isRefusal, refusals]

/-- Every request is counted once, under the label of its path. -/
theorem handleGateway_increment (g : Gateway) (request : GatewayRequest) (now verifierNow : Int)
    (append : Option Thrown) :
    ∃ labels, CountedUnder g request labels ∧
      g.metrics.increment "erc8415_requests_total" labels =
        .ok (g.handleGateway request now verifierNow append).1.metrics := by
  have hrefusal (outcome : String) (outcomes : Handled) :
      g.metrics.increment "erc8415_requests_total" (refusalLabels request.path outcome) =
        .ok (g.meter (refusalLabels request.path outcome) outcomes).1.metrics := by
    apply meter_increment
    simp [refusalLabels, Metrics.forbiddenLabels]
  unfold CountedUnder caller handleGateway
  cases hsecret : request.apiKey with
  | none =>
      exact ⟨_, ⟨List.mem_cons_self, "unauthenticated", by decide, rfl⟩,
        hrefusal "unauthenticated" _⟩
  | some secret =>
      cases hkey : g.keys.authenticate secret with
      | none =>
          simp only [Option.bind_some, hkey]
          exact ⟨_, ⟨List.mem_cons_self, "rejected", by decide, rfl⟩, hrefusal "rejected" _⟩
      | some key =>
          simp only [Option.bind_some, hkey]
          cases htenant : g.tenants.storeFor key.tenantId with
          | error e =>
              simp only
              refine ⟨_, ⟨List.mem_cons_self, ?_⟩, meter_increment g _ ?_⟩
              · simp [isRefusal, refusals]
              · simp [Metrics.forbiddenLabels]
          | ok tenant =>
              simp only
              let done := handle tenant.config tenant.store request.toApiRequest now verifierNow
                append
              exact meterHandled_increment
                ⟨g.tenants.writeStore key.tenantId tenant done.1, g.keys, g.metrics⟩
                key.tenantId (routeLabel request.path) done.2

/-! ## The counters of a run -/

def refusalKey (label outcome : String) : String :=
  Metrics.counterKey "erc8415_requests_total" [("route", label), ("outcome", outcome)]

/-- Requests without a valid key come with some of these paths. -/
def Strangers (paths : Set String) (g : Gateway) : GatewayEvent → Prop
  | .request request _ _ _ => caller g.keys request = none → request.path ∈ paths
  | _ => True

/-- Every counter is under the key of its labels, and those of requests without a valid key are
under the labels of their paths. -/
def Counted (paths : Set String) (g : Gateway) : Prop :=
  ∀ key counter, g.metrics.counters.get key = some counter →
    isRefusal counter.labels = true →
      ∃ path ∈ paths, ∃ outcome ∈ refusals, key = refusalKey (routeLabel path) outcome

theorem Counted.step {paths : Set String} {g : Gateway} {event : GatewayEvent}
    (h : Counted paths g) (hevent : Strangers paths g event) : Counted paths (step g event) := by
  cases event with
  | issue call => exact h
  | revoke keyId now => exact h
  | add tenantId tenant => exact h
  | request request now verifierNow append =>
      obtain ⟨labels, hlabels, hmetrics⟩ :=
        handleGateway_increment g request now verifierNow append
      refine Metrics.forall_increment (p := fun key _ labels => isRefusal labels = true →
        ∃ path ∈ paths, ∃ outcome ∈ refusals, key = refusalKey (routeLabel path) outcome)
        hmetrics h ?_
      intro hrefusal
      have hlabels := hlabels.2
      cases hcaller : caller g.keys request with
      | none =>
          rw [hcaller] at hlabels
          obtain ⟨outcome, houtcome, rfl⟩ := hlabels
          exact ⟨request.path, hevent hcaller, outcome, houtcome, rfl⟩
      | some key =>
          rw [hcaller] at hlabels
          rw [hlabels] at hrefusal
          cases hrefusal

theorem counted_reached {paths : Set String} {events : List GatewayEvent}
    (h : LabelledRun.Admissible step (Strangers paths) new events) :
    Counted paths (reached events) :=
  LabelledRun.admissible_invariant step (Counted paths) (fun _ _ hg hevent => hg.step hevent)
    (fun _ _ hget => by cases hget) h

/-- Requests without a valid key have made at most two counters for each path that a label tells
from the others. -/
theorem length_refusalCounters_le {paths : Set String} {few : List String}
    (hfew : ∀ path ∈ paths, ∃ path' ∈ few, SameLabel path path') {events : List GatewayEvent}
    (h : LabelledRun.Admissible step (Strangers paths) new events) :
    (refusalCounters (reached events)).length ≤ 2 * few.length := by
  have hcounted := counted_reached h
  generalize reached events = g at hcounted ⊢
  let made := g.metrics.counters.pairs.filter fun pair => isRefusal pair.2.labels
  have hmade : (refusalCounters g).length = (made.map Prod.fst).length := by
    rw [refusalCounters, InsertionMap.values, List.filter_map, List.length_map, List.length_map]
    rfl
  have hnodup : (made.map Prod.fst).Nodup :=
    g.metrics.counters.nodup.sublist (List.filter_sublist.map Prod.fst)
  have hsubset : made.map Prod.fst ⊆
      few.flatMap fun path => refusals.map (refusalKey (routeLabel path)) := by
    intro key hkey
    obtain ⟨⟨key', counter⟩, hpair, rfl⟩ := List.mem_map.mp hkey
    obtain ⟨hpair, hrefusal⟩ := List.mem_filter.mp hpair
    have hget := (InsertionMap.lookup_eq_some_iff key' counter _ g.metrics.counters.nodup).mpr hpair
    obtain ⟨path, hpath, outcome, houtcome, rfl⟩ := hcounted key' counter hget hrefusal
    obtain ⟨path', hpath', hsame⟩ := hfew path hpath
    rw [routeLabel_eq_iff.mpr hsame]
    exact List.mem_flatMap.mpr ⟨path', hpath', List.mem_map_of_mem houtcome⟩
  calc (refusalCounters g).length = (made.map Prod.fst).length := hmade
    _ ≤ (few.flatMap fun path => refusals.map (refusalKey (routeLabel path))).length :=
        hnodup.length_le_of_subset hsubset
    _ = 2 * few.length := by
        simp [List.length_flatMap, refusals, Nat.mul_comm]

/-! ## Requests without a key -/

/-- A request without a key. -/
def probe (path : String) : GatewayEvent :=
  .request { method := "GET", path := path, body := .undefined, query := [], apiKey := none } 0 0
    none

theorem step_probe (g : Gateway) (path : String) :
    g.metrics.increment "erc8415_requests_total" (refusalLabels path "unauthenticated") =
      .ok (step g (probe path)).metrics := by
  apply meter_increment
  simp [refusalLabels, Metrics.forbiddenLabels]

theorem strangers_probes {paths : Set String} {probed : List String}
    (h : ∀ path ∈ probed, path ∈ paths) (g : Gateway) :
    LabelledRun.Admissible step (Strangers paths) g (probed.map probe) := by
  induction probed generalizing g with
  | nil => trivial
  | cons path rest ih =>
      rw [List.forall_mem_cons] at h
      exact ⟨fun _ => h.1, ih h.2 _⟩

/-- Requests without a key make a counter for each path's label, and no other ones. -/
theorem run_probes (g : Gateway) (probed : List String)
    (hg : ∀ key counter, g.metrics.counters.get key = some counter →
      isRefusal counter.labels = true) :
    let after := LabelledRun.run step g (probed.map probe)
    (∀ key counter, after.metrics.counters.get key = some counter →
      isRefusal counter.labels = true) ∧
    ∀ key, key ∈ after.metrics.counters.keys ↔
      key ∈ g.metrics.counters.keys ∨
        ∃ path ∈ probed, key = refusalKey (routeLabel path) "unauthenticated" := by
  induction probed generalizing g with
  | nil => exact ⟨hg, fun key => by simp⟩
  | cons path rest ih =>
      have hmetrics := step_probe g path
      have hstep := Metrics.forall_increment (p := fun _ _ labels => isRefusal labels = true)
        hmetrics hg (by simp [isRefusal, refusals, refusalLabels])
      obtain ⟨hrest, hkeys⟩ := ih _ hstep
      refine ⟨hrest, fun key => (hkeys key).trans ?_⟩
      rw [Metrics.mem_keys_increment hmetrics, List.exists_mem_cons_iff, or_assoc, or_left_comm]
      rfl

theorem refusalKey_injective (outcome : String) :
    Function.Injective fun label => refusalKey label outcome := by
  intro label label' h
  have hperm := Metrics.perm_of_counterKey h
  have hmem : ("route", label) ∈ [("route", label'), ("outcome", outcome)] :=
    hperm.mem_iff.mp List.mem_cons_self
  simpa using hmem

/-- As many counters as labels. -/
theorem length_probed {probed : List String} (h : (probed.map routeLabel).Nodup) :
    probed.length ≤ (refusalCounters (reached (probed.map probe))).length := by
  obtain ⟨hrefusals, hkeys⟩ := run_probes new probed fun _ _ hget => by cases hget
  rw [← reached] at hrefusals hkeys
  generalize reached (probed.map probe) = g at hrefusals hkeys ⊢
  have hall : refusalCounters g = g.metrics.counters.values := by
    apply List.filter_eq_self.mpr
    intro counter hcounter
    obtain ⟨key, hget⟩ := (InsertionMap.mem_values _ _).mp hcounter
    exact hrefusals key counter hget
  have hnodup : (probed.map fun path => refusalKey (routeLabel path) "unauthenticated").Nodup := by
    have hcomp := h.map (refusalKey_injective "unauthenticated")
    rw [List.map_map] at hcomp
    exact hcomp
  have hsubset : (probed.map fun path => refusalKey (routeLabel path) "unauthenticated") ⊆
      g.metrics.counters.keys := by
    intro key hkey
    obtain ⟨path, hpath, rfl⟩ := List.mem_map.mp hkey
    exact (hkeys _).mpr (Or.inr ⟨path, hpath, rfl⟩)
  have hle := hnodup.length_le_of_subset hsubset
  rw [List.length_map] at hle
  rw [hall, InsertionMap.values, List.length_map]
  simpa [InsertionMap.keys] using hle

/-- The counters of requests without a valid key are bounded over all runs with their paths if
and only if a label tells only finitely many of those paths apart. -/
theorem refusalCounters_bounded_iff (paths : Set String) :
    (∃ bound : ℕ, ∀ events, LabelledRun.Admissible step (Strangers paths) new events →
      (refusalCounters (reached events)).length ≤ bound) ↔
    ∃ few : List String, ∀ path ∈ paths, ∃ path' ∈ few, SameLabel path path' := by
  constructor
  · rintro ⟨bound, hbound⟩
    -- One path for each label: more of them than the bound would be probed into more counters.
    obtain ⟨distinct, hdistinct, hbij⟩ := (Set.surjOn_image routeLabel paths).exists_bijOn_subset
    have hfinite : distinct.Finite := by
      by_contra hinfinite
      obtain ⟨probed, hprobed, hcard⟩ :=
        (Set.not_finite.mp hinfinite).exists_subset_card_eq (bound + 1)
      have hmem : ∀ path ∈ probed.toList, path ∈ distinct :=
        fun path hpath => hprobed (Finset.mem_toList.mp hpath)
      have hnodup : (probed.toList.map routeLabel).Nodup :=
        probed.nodup_toList.map_on fun path hpath path' hpath' =>
          hbij.injOn (hmem path hpath) (hmem path' hpath')
      have hcounters := length_probed hnodup
      have hle := hbound _ (strangers_probes (fun path hpath => hdistinct (hmem path hpath)) new)
      rw [Finset.length_toList, hcard] at hcounters
      omega
    refine ⟨hfinite.toFinset.toList, fun path hpath => ?_⟩
    obtain ⟨path', hpath', hlabel⟩ := hbij.surjOn ⟨path, hpath, rfl⟩
    refine ⟨path', ?_, routeLabel_eq_iff.mp hlabel.symm⟩
    simpa using hpath'
  · rintro ⟨few, hfew⟩
    exact ⟨2 * few.length, fun events h => length_refusalCounters_le hfew h⟩

/-! ## What the metrics reveal -/

/-- Every request is counted under the label of its path. Two paths of one route have one label if
and only if each two segments in one place are equal or both masked; and the counters that
requests without a valid key make are bounded, over all runs with some paths, if and only if a
label tells only finitely many of these apart. -/
theorem metrics_reveal_iff (g : Gateway) (request : GatewayRequest) (now verifierNow : Int)
    (append : Option Thrown) (pattern : RoutePattern) (paths : Set String) :
    (∃ labels, ("route", routeLabel request.path) ∈ labels ∧
      g.metrics.increment "erc8415_requests_total" labels =
        .ok (g.handleGateway request now verifierNow append).1.metrics) ∧
    (∀ path path' : String, OnRoute pattern path → OnRoute pattern path' →
      (routeLabel path = routeLabel path' ↔
        List.Forall₂ SameSegment (segments path) (segments path'))) ∧
    ((∃ bound : ℕ, ∀ events, LabelledRun.Admissible step (Strangers paths) new events →
        (refusalCounters (reached events)).length ≤ bound) ↔
      ∃ few : List String, ∀ path ∈ paths, ∃ path' ∈ few, SameLabel path path') := by
  refine ⟨?_, fun path path' h h' => routeLabel_onRoute_iff h h', refusalCounters_bounded_iff paths⟩
  obtain ⟨labels, hlabels, hmetrics⟩ := handleGateway_increment g request now verifierNow append
  exact ⟨labels, hlabels.1, hmetrics⟩

/-- A segment of so many letters. -/
def letters (count : Nat) : String := String.ofList (List.replicate (count + 1) 'a')

theorem segments_letters (count : Nat) : segments (letters count) = [letters count] := by
  have hsplit : SplitText.split '/' (letters count) = [letters count] := by
    rw [SplitText.split, letters, String.toList_ofList, List.splitOn_eq_singleton]
    · rfl
    · simp
  have hne : letters count ≠ "" := by
    intro h
    have hchars := congrArg String.toList h
    simp [letters] at hchars
  rw [segments, hsplit, List.filter_singleton]
  simp [hne]

theorem routeLabel_letters (count : Nat) : routeLabel (letters count) = letters count := by
  have hdigits : isDigits (letters count) = false := by
    have hhead : (letters count).toList = 'a' :: List.replicate count 'a' := by
      rw [letters, String.toList_ofList, List.replicate_succ]
    rw [isDigits, hhead, List.all_cons]
    simp
  rw [routeLabel, segments_letters, List.map_singleton, hdigits]
  simp [SplitText.join, letters]

theorem letters_injective : Function.Injective letters := by
  intro count count' h
  have hlength := congrArg String.length h
  simpa [letters] using hlength

/-- An account in the place of a token id stands in the label as it is, and requests without a key
make more counters than any bound. -/
theorem probes_reveal_unbounded :
    let pattern : RoutePattern := [some "projection", none, some "holder", some "as-of", none]
    let account := "/projection/0xbbbbbbbbbbbbbbbbbbbbbbbbbbbbbbbbbbbbbbbb/holder/as-of/120"
    (OnRoute pattern account ∧ OnRoute pattern "/projection/7/holder/as-of/120" ∧
      routeLabel account =
        "projection/0xbbbbbbbbbbbbbbbbbbbbbbbbbbbbbbbbbbbbbbbb/holder/as-of/:id" ∧
      routeLabel "/projection/7/holder/as-of/120" = "projection/:id/holder/as-of/:id") ∧
    ∀ bound : ℕ, ∃ events : List GatewayEvent,
      (∀ event ∈ events, ∃ path, event = probe path) ∧
        bound < (refusalCounters (reached events)).length := by
  intro pattern account
  have hsegments : segments account =
      ["projection", "0xbbbbbbbbbbbbbbbbbbbbbbbbbbbbbbbbbbbbbbbb", "holder", "as-of", "120"] := by
    decide
  have hsegments' : segments "/projection/7/holder/as-of/120" =
      ["projection", "7", "holder", "as-of", "120"] := by decide
  refine ⟨⟨?_, ?_, by decide, by decide⟩, fun bound => ?_⟩
  · rw [OnRoute, hsegments]
    simp [pattern]
  · rw [OnRoute, hsegments']
    simp [pattern]
  · refine ⟨((List.range (bound + 1)).map letters).map probe, ?_, ?_⟩
    · intro event hevent
      obtain ⟨path, _, rfl⟩ := List.mem_map.mp hevent
      exact ⟨path, rfl⟩
    · have hlabels : (((List.range (bound + 1)).map letters).map routeLabel).Nodup := by
        rw [List.map_map]
        apply List.nodup_range.map
        intro count count' heq
        rw [Function.comp_apply, Function.comp_apply, routeLabel_letters, routeLabel_letters] at heq
        exact letters_injective heq
      have hcounters := length_probed hlabels
      rw [List.length_map, List.length_range] at hcounters
      exact hcounters

end Gateway

end Erc8415
