import Mathlib.Algebra.BigOperators.Group.List.Lemmas
import Mathlib.Data.List.Dedup
import Erc8415.Api.RouteLabels
import Erc8415.Foundation.EventSourcing

/-! # What the metrics count

Every request is counted once, a refused one too, under labels that its key,
its tenant and its response decide. The samples of a gateway list each set of
labels that came up, once, with the number of requests it came up for.
-/

namespace Erc8415

namespace Metrics

/-- `JSON.stringify(labels)`. -/
def labelsText (labels : Labels) : String :=
  String.ofList (Json.stringify (.object (labels.map fun label => (label.1, .string label.2))))

/-- `samples()`, by the order of a locale. -/
def samples (localeCompare : String → String → Ordering) (m : Metrics) : List Counter :=
  m.counters.values.mergeSort fun a b =>
    (localeCompare a.name b.name).then
      (localeCompare (labelsText a.labels) (labelsText b.labels)) ≠ .gt

/-! ## Tallies -/

/-- The counters are those of a list of labels, each counted under its key. -/
def Tallies (name : String) (m : Metrics) (counted : List Labels) : Prop :=
  ∀ key, m.counters.get key =
    (counted.find? fun labels => counterKey name labels = key).map fun labels =>
      ⟨name, labels, counted.countP fun labels => counterKey name labels = key⟩

theorem Tallies.new (name : String) : Tallies name Metrics.new [] := fun _ => rfl

theorem Tallies.increment {name : String} {m m' : Metrics} {counted : List Labels}
    (h : Tallies name m counted) {labels : Labels} (hm : m.increment name labels = .ok m') :
    Tallies name m' (counted ++ [labels]) := by
  unfold Metrics.increment at hm
  split at hm
  · cases hm
  cases hm
  intro key
  rw [InsertionMap.get_set, List.find?_append, List.countP_append]
  by_cases hkey : counterKey name labels = key
  · subst hkey
    have hone : [labels].countP (fun labels' =>
        counterKey name labels' = counterKey name labels) = 1 :=
      List.countP_singleton.trans (if_pos (decide_eq_true rfl))
    rw [if_pos rfl, h, hone]
    cases hfirst : counted.find? fun labels' =>
        counterKey name labels' = counterKey name labels with
    | none =>
        -- The first of its key.
        have hzero : counted.countP (fun labels' =>
            counterKey name labels' = counterKey name labels) = 0 :=
          List.countP_eq_zero.mpr (List.find?_eq_none.mp hfirst)
        simp [hzero]
    | some first => simp
  · have hskip : ([labels].find? fun labels' => counterKey name labels' = key) = none :=
      List.find?_eq_none.mpr (by simpa using hkey)
    have hzero : [labels].countP (fun labels' => counterKey name labels' = key) = 0 :=
      List.countP_eq_zero.mpr (by simpa using hkey)
    rw [if_neg hkey, h, hskip, hzero, Option.or_none, Nat.add_zero]

/-- What counters of such a tally list, where labels of one key are the same. -/
theorem Tallies.perm_values {name : String} {m : Metrics} {counted : List Labels}
    (h : Tallies name m counted)
    (hkeys : ∀ labels ∈ counted, ∀ labels' ∈ counted,
      counterKey name labels = counterKey name labels' → labels = labels') :
    m.counters.values.Perm
      (counted.dedup.map fun labels =>
        ⟨name, labels, counted.countP fun labels' => labels' = labels⟩) := by
  have hkey : ∀ key labels, counted.find? (fun labels => counterKey name labels = key) =
      some labels → labels ∈ counted ∧ counterKey name labels = key ∧
        counted.countP (fun labels' => counterKey name labels' = key) =
          counted.countP fun labels' => labels' = labels := by
    intro key labels hfind
    have hmem := List.mem_of_find?_eq_some hfind
    have hlabels : counterKey name labels = key := by simpa using List.find?_some hfind
    refine ⟨hmem, hlabels, ?_⟩
    apply List.countP_congr
    intro labels' hmem'
    rw [decide_eq_true_eq, decide_eq_true_eq, ← hlabels]
    exact ⟨hkeys labels' hmem' labels hmem, congrArg _⟩
  have hnodup : m.counters.values.Nodup := by
    have hkeyed : ∀ key counter, m.counters.get key = some counter →
        counterKey counter.name counter.labels = key := by
      intro key counter hget
      rw [h, Option.map_eq_some_iff] at hget
      obtain ⟨labels, hfind, rfl⟩ := hget
      exact (hkey key labels hfind).2.1
    exact InsertionMap.nodup_values hkeyed
  have hnodup' : (counted.dedup.map fun labels =>
      (⟨name, labels, counted.countP fun labels' => labels' = labels⟩ : Counter)).Nodup := by
    refine List.Nodup.map ?_ (List.nodup_dedup counted)
    intro labels labels' heq
    exact congrArg Counter.labels heq
  rw [List.perm_ext_iff_of_nodup hnodup hnodup']
  intro counter
  rw [InsertionMap.mem_values, List.mem_map]
  constructor
  · rintro ⟨key, hget⟩
    rw [h, Option.map_eq_some_iff] at hget
    obtain ⟨labels, hfind, rfl⟩ := hget
    obtain ⟨hmem, _, hcount⟩ := hkey key labels hfind
    exact ⟨labels, List.mem_dedup.mpr hmem, by rw [hcount]⟩
  · rintro ⟨labels, hmem, rfl⟩
    refine ⟨counterKey name labels, ?_⟩
    rw [h]
    cases hfind : counted.find? fun labels' =>
        counterKey name labels' = counterKey name labels with
    | none =>
        exact absurd (decide_eq_true rfl)
          (List.find?_eq_none.mp hfind labels (List.mem_dedup.mp hmem))
    | some first =>
        obtain ⟨hfirst, hsame, hcount⟩ := hkey _ first hfind
        have heq := hkeys first hfirst labels (List.mem_dedup.mp hmem) hsame
        rw [Option.map_some, hcount, heq]

end Metrics

namespace Gateway

/-! ## What a request is counted under -/

/-- The labels of what a tenant's store came to. -/
def handledLabels (tenantId route : String) : Handled → Labels
  | some (.ok response) =>
      [("tenant", tenantId), ("route", route),
        ("outcome", if response.status < 400 then "ok" else "refused"),
        ("status", toString response.status)]
  | _ => [("tenant", tenantId), ("route", route), ("outcome", "error")]

/-- The labels of a request: by the key it has, whether the key's tenant is known, and what the
request comes to. -/
def requestLabels (g : Gateway) (request : GatewayRequest) (outcome : Handled) : Labels :=
  let route := routeLabel request.path
  match request.apiKey with
  | none => [("route", route), ("outcome", "unauthenticated")]
  | some secret =>
      match g.keys.authenticate secret with
      | none => [("route", route), ("outcome", "rejected")]
      | some key =>
          match g.tenants.storeFor key.tenantId with
          | .error _ => [("route", route), ("outcome", "unknown_tenant")]
          | .ok _ => handledLabels key.tenantId route outcome

/-- The labels an event is counted under; only requests are counted. -/
def countedLabels (g : Gateway) : GatewayEvent → List Labels
  | .request request now verifierNow append =>
      [g.requestLabels request (g.handleGateway request now verifierNow append).2]
  | _ => []

theorem meterHandled_counts (g : Gateway) (tenantId route : String) (outcome : Handled) :
    g.metrics.increment "erc8415_requests_total" (handledLabels tenantId route outcome) =
      .ok (g.meterHandled tenantId route outcome).1.metrics := by
  rcases outcome with _ | e | response
  · exact meter_increment g none (by simp [handledLabels, Metrics.forbiddenLabels])
  · exact meter_increment g (some (.error e)) (by simp [handledLabels, Metrics.forbiddenLabels])
  · have hallowed : ∀ label ∈ handledLabels tenantId route (some (.ok response)),
        label.1 ∉ Metrics.forbiddenLabels := by
      simp [handledLabels, Metrics.forbiddenLabels]
    obtain ⟨metrics, hmetrics⟩ :=
      Metrics.exists_increment g.metrics "erc8415_requests_total" 1 hallowed
    rw [hmetrics]
    unfold handledLabels at hmetrics
    simp only [meterHandled, hmetrics]

/-- Whatever a request comes to, it is counted once. -/
theorem handleGateway_counts (g : Gateway) (request : GatewayRequest) (now verifierNow : Int)
    (append : Option Thrown) :
    g.metrics.increment "erc8415_requests_total"
        (g.requestLabels request (g.handleGateway request now verifierNow append).2) =
      .ok (g.handleGateway request now verifierNow append).1.metrics := by
  unfold requestLabels
  rw [handleGateway_outcome]
  unfold handleGateway relay caller
  cases hsecret : request.apiKey with
  | none => exact meter_increment g _ (by simp [Metrics.forbiddenLabels])
  | some secret =>
      simp only [Option.bind_some]
      cases hkey : g.keys.authenticate secret with
      | none => exact meter_increment g _ (by simp [Metrics.forbiddenLabels])
      | some key =>
          simp only
          cases htenant : g.tenants.storeFor key.tenantId with
          | error e => exact meter_increment g _ (by simp [Metrics.forbiddenLabels])
          | ok tenant =>
              exact meterHandled_counts
                ⟨g.tenants.writeStore key.tenantId tenant
                  (handle tenant.config tenant.store request.toApiRequest now verifierNow append).1,
                  g.keys, g.metrics⟩ key.tenantId (routeLabel request.path) _

/-- The labels gateways count under have one order for each set of names. -/
def labelNames : List (List String) :=
  [["route", "outcome"], ["tenant", "route", "outcome"], ["tenant", "route", "outcome", "status"]]

theorem requestLabels_names (g : Gateway) (request : GatewayRequest) (outcome : Handled) :
    (g.requestLabels request outcome).map Prod.fst ∈ labelNames := by
  unfold requestLabels
  simp only
  split
  · simp [labelNames]
  · split
    · simp [labelNames]
    · split
      · simp [labelNames]
      · unfold handledLabels
        split
        · simp [labelNames]
        · simp [labelNames]

/-- Labels under the same names, each once and in one order, are the same if they are the same
in some order. -/
theorem eq_of_perm {labels labels' : Labels} (h : labels.Perm labels')
    (hnames : labels.map Prod.fst = labels'.map Prod.fst)
    (hnodup : (labels.map Prod.fst).Nodup) : labels = labels' := by
  induction labels generalizing labels' with
  | nil => exact h.nil_eq
  | cons label rest ih =>
      cases labels' with
      | nil => exact absurd h.symm.nil_eq (List.cons_ne_nil _ _).symm
      | cons label' rest' =>
          rw [List.map_cons, List.map_cons, List.cons.injEq] at hnames
          rw [List.map_cons, List.nodup_cons] at hnodup
          have hhead : label = label' := by
            rcases List.mem_cons.mp (h.subset List.mem_cons_self) with heq | hmem
            · exact heq
            · apply absurd (List.mem_map_of_mem (f := Prod.fst) hmem)
              rw [← hnames.2]
              exact hnodup.1
          subst hhead
          rw [ih ((List.perm_cons _).mp h) hnames.2 hnodup.2]

theorem eq_of_counterKey {name : String} {labels labels' : Labels}
    (hnames : labels.map Prod.fst ∈ labelNames) (hnames' : labels'.map Prod.fst ∈ labelNames)
    (h : Metrics.counterKey name labels = Metrics.counterKey name labels') : labels = labels' := by
  have hperm := Metrics.perm_of_counterKey h
  have hlength : (labels.map Prod.fst).length = (labels'.map Prod.fst).length := by
    rw [List.length_map, List.length_map, hperm.length_eq]
  -- There is one set of names of each size.
  have hunique : ∀ names ∈ labelNames, ∀ names' ∈ labelNames,
      names.length = names'.length → names = names' ∧ names.Nodup := by decide
  obtain ⟨hsame, hnodup⟩ := hunique _ hnames _ hnames' hlength
  exact eq_of_perm hperm hsame hnodup

/-! ## Every run -/

/-- The labels the requests of a run are counted under, in their order. -/
def counted (events : List GatewayEvent) : List Labels :=
  EventSourcing.log step countedLabels new events

def isRequest : GatewayEvent → Bool
  | .request _ _ _ _ => true
  | _ => false

theorem countedLabels_names (g : Gateway) (event : GatewayEvent) :
    ∀ labels ∈ g.countedLabels event, labels.map Prod.fst ∈ labelNames := by
  intro labels hlabels
  cases event with
  | request request now verifierNow append =>
      rw [List.mem_singleton.mp hlabels]
      exact requestLabels_names _ _ _
  | _ => cases hlabels

theorem tallies_step {g : Gateway} {past : List Labels}
    (h : g.metrics.Tallies "erc8415_requests_total" past) (event : GatewayEvent) :
    (g.step event).metrics.Tallies "erc8415_requests_total" (past ++ g.countedLabels event) := by
  cases event with
  | request request now verifierNow append =>
      exact h.increment (handleGateway_counts g request now verifierNow append)
  | _ =>
      change Metrics.Tallies _ _ (past ++ [])
      rw [List.append_nil]
      exact h

/-- The counters of a run are those of the labels its requests are counted under. -/
theorem tallies_reached (events : List GatewayEvent) :
    (reached events).metrics.Tallies "erc8415_requests_total" (counted events) ∧
      ∀ labels ∈ counted events, labels.map Prod.fst ∈ labelNames := by
  refine EventSourcing.log_invariant step countedLabels (fun _ => True)
    (fun past g => g.metrics.Tallies "erc8415_requests_total" past ∧
      ∀ labels ∈ past, labels.map Prod.fst ∈ labelNames)
    (fun _ _ _ => trivial) (fun past g event _ hpast => ⟨tallies_step hpast.1 event, ?_⟩) trivial
    ⟨Metrics.Tallies.new _, List.forall_mem_nil _⟩ events
  intro labels hlabels
  rcases List.mem_append.mp hlabels with hold | hnew
  · exact hpast.2 labels hold
  · exact countedLabels_names g event labels hnew

theorem length_counted (events : List GatewayEvent) :
    (counted events).length = events.countP isRequest := by
  unfold counted
  generalize new = g
  induction events generalizing g with
  | nil => rfl
  | cons event rest ih =>
      rw [EventSourcing.log_cons, List.length_append, ih, List.countP_cons, Nat.add_comm]
      cases event <;> rfl

/-- The samples of a gateway list each set of labels that came up in a run, once, with the number
of requests that it came up for; and every request is in one of them. -/
theorem samples_exact (localeCompare : String → String → Ordering) (events : List GatewayEvent) :
    ((reached events).metrics.samples localeCompare).Perm
        ((counted events).dedup.map fun labels =>
          ⟨"erc8415_requests_total", labels,
            (counted events).countP fun labels' => labels' = labels⟩) ∧
      (((reached events).metrics.samples localeCompare).map Counter.value).sum =
        events.countP isRequest := by
  obtain ⟨htallies, hnames⟩ := tallies_reached events
  have hsamples : ((reached events).metrics.samples localeCompare).Perm
      ((counted events).dedup.map fun labels =>
        ⟨"erc8415_requests_total", labels,
          (counted events).countP fun labels' => labels' = labels⟩) :=
    (List.mergeSort_perm _ _).trans (htallies.perm_values fun labels hlabels labels' hlabels' =>
      eq_of_counterKey (hnames labels hlabels) (hnames labels' hlabels'))
  refine ⟨hsamples, ?_⟩
  rw [(hsamples.map Counter.value).sum_eq, List.map_map, ← length_counted]
  rw [← List.sum_map_count_dedup_eq_length (counted events)]
  rfl

end Gateway

end Erc8415
