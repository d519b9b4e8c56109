import DistributedCore.Cluster.StateFingerprint
import DistributedCore.Library.JsNumber
import Mathlib.Data.Finset.Card

/-!
# Reconciling the services that the nodes report

Every node of a cluster reports the services that it knows. The aggregator groups the reports by
the id of the service and looks for conflicts: different versions, statistics that are far apart,
different metadata. The reconciler resolves a conflict by a strategy and writes the resolved values
back into the services.

Source: `src/cluster/aggregation/StateAggregator.ts`: `detectConflicts`, `analyzeServiceConflicts`,
`resolveConflicts`, `src/cluster/reconciliation/StateReconciler.ts`,
`src/cluster/introspection/ClusterIntrospection.ts`: `LogicalService`, `StateConflict`.
-/

namespace DistributedCore.Cluster.Reconciliation

open OrderedMap List

/-! ### Values and services -/

/-- A value of a conflict: a JavaScript number, another JSON value or `undefined`. -/
inductive Value where
  | number (n : JsNumber)
  | json (v : Json)
  | undefined
  deriving DecidableEq

namespace Value

def ofJson : Json → Value
  | .number n => .number (.finite n.toRat)
  | v => .json v

def asNumber : Value → Option JsNumber
  | .number n => some n
  | _ => none

def atLeast : Value → ℤ → Bool
  | .number (.finite q), n => (n : ℚ) ≤ q
  | .number .posInfinity, _ => true
  | _, _ => false

end Value

/-- A service after a resolution, where the version may be any value. -/
structure ServiceRecord where
  id : String
  nodeId : String
  version : Value
  stats : OrderedMap String Value
  metadata : OrderedMap String Value
  vectorClock : OrderedMap String ℤ
  lastUpdated : ℤ

def toRecord (service : LogicalService) : ServiceRecord where
  id := service.id
  nodeId := service.nodeId
  version := .number (.finite service.version)
  stats := service.stats.mapValues fun _ n => .number (.finite n.toRat)
  metadata := service.metadata.mapValues fun _ v => .ofJson v
  vectorClock := service.vectorClock
  lastUpdated := service.lastUpdated

/-! ### Conflicts -/

inductive ResolutionStrategy where
  | maxValue
  | minValue
  | lastWriterWins
  | firstWriterWins
  | unionMerge
  | manual
  | average
  | majority
  | custom
  deriving DecidableEq

def ResolutionStrategy.name : ResolutionStrategy → String
  | .maxValue => "max-value"
  | .minValue => "min-value"
  | .lastWriterWins => "last-writer-wins"
  | .firstWriterWins => "first-writer-wins"
  | .unionMerge => "union-merge"
  | .manual => "manual"
  | .average => "average"
  | .majority => "majority"
  | .custom => "custom"

inductive ConflictType where
  | version
  | stats
  | metadata
  | missing
  deriving DecidableEq

def ConflictType.name : ConflictType → String
  | .version => "version"
  | .stats => "stats"
  | .metadata => "metadata"
  | .missing => "missing"

inductive Severity where
  | low
  | medium
  | high
  deriving DecidableEq

/-- The values that the nodes report for one field of a service. -/
structure StateConflict where
  serviceId : String
  conflictType : ConflictType
  nodes : List String
  values : OrderedMap String Value
  resolutionStrategy : ResolutionStrategy
  severity : Severity

def newMap {B : Type} (pairs : List (String × B)) : OrderedMap String B :=
  pairs.foldl (fun m p => m.set p.1 p.2) .empty

variable (serviceId : String)

def StateConflict.ofValues (conflictType : ConflictType)
    (strategy : ResolutionStrategy) (severity : Severity) (pairs : List (String × Value)) :
    StateConflict where
  serviceId := serviceId
  conflictType := conflictType
  nodes := pairs.map Prod.fst
  values := newMap pairs
  resolutionStrategy := strategy
  severity := severity

variable (services : List LogicalService)

def versionConflict : StateConflict :=
  .ofValues serviceId .version .maxValue .medium
    (services.map fun s => (s.nodeId, .number (.finite s.version)))

def allKeys {B : Type} (records : List (OrderedMap String B)) : List String :=
  (newMap ((records.flatMap OrderedMap.keys).map fun key => (key, ()))).keys

/-- The spread of the values exceeds a fifth of their average, or 10. -/
def farApart (values : List ℚ) : Bool :=
  let avg := values.sum / values.length
  let maxDiff := values.max?.getD 0 - values.min?.getD 0
  maxDiff > avg * (1 / 5) || maxDiff > 10

def statsConflicts : List StateConflict :=
  (allKeys (services.map LogicalService.stats)).flatMap fun statKey =>
    let statValues := services.filterMap fun s =>
      (s.stats.get statKey).map fun n => (s.nodeId, n.toRat)
    if statValues.length > 1 ∧ farApart (statValues.map Prod.snd) then
      [.ofValues s!"{serviceId}.{statKey}" .stats .maxValue .low
        (statValues.map fun p => (p.1, .number (.finite p.2)))]
    else []

def metadataConflicts : List StateConflict :=
  (allKeys (services.map LogicalService.metadata)).flatMap fun metaKey =>
    let metaValues := services.filterMap fun s =>
      (s.metadata.get metaKey).map fun v => (s.nodeId, v)
    let uniqueValues := (metaValues.map fun p => p.2.stringify).dedup
    if metaValues.length > 1 ∧ uniqueValues.length > 1 then
      [.ofValues s!"{serviceId}.{metaKey}" .metadata .lastWriterWins .medium
        (metaValues.map fun p => (p.1, .ofJson p.2))]
    else []

def analyzeServiceConflicts : List StateConflict :=
  if services.length ≤ 1 then []
  else
    let versions := (services.map LogicalService.version).dedup
    (if versions.length > 1 then [versionConflict serviceId services] else []) ++
      statsConflicts serviceId services ++ metadataConflicts serviceId services

structure StateAggregator where
  enableConflictDetection : Bool

def allServices (nodeStates : OrderedMap String (List LogicalService)) : List LogicalService :=
  nodeStates.values.flatten

def StateAggregator.detectConflicts (aggregator : StateAggregator)
    (nodeStates : OrderedMap String (List LogicalService)) : List StateConflict :=
  if aggregator.enableConflictDetection then
    let serviceGroups := OrderedMap.groupBy LogicalService.id (allServices nodeStates)
    serviceGroups.entries.flatMap fun group => analyzeServiceConflicts group.1 group.2
  else []

/-! ### Resolutions -/

abbrev Resolver := OrderedMap String Value → StateConflict → Value

structure ResolutionResult where
  conflictId : String
  strategy : ResolutionStrategy
  resolvedValue : Value
  sourceNodes : List String

/-- The resolvers that are registered by name. -/
structure StateReconciler where
  customResolvers : OrderedMap String Resolver

def numbers (values : List Value) : List JsNumber := values.filterMap Value.asNumber

/-- The value that occurs most often, and the first one of several. Values are compared by their
texts, and different values have different texts. -/
def majorityValue (values : List Value) : Value :=
  let counts := OrderedMap.groupBy id values
  let maxCount := (counts.values.map List.length).foldr max 0
  match counts.entries.find? fun p => p.2.length = maxCount with
  | some p => p.1
  | none => .undefined

def distinctItems : List Json → List Json
  | [] => []
  | v :: items =>
    let rest := distinctItems items
    match v with
    | .array _ | .object _ => v :: rest
    | _ => v :: rest.filter fun w => w ≠ v

def ownFields : Json → List (String × Json)
  | .object fields => fields
  | .array items => items.zipIdx.map fun p => (toString p.2, p.1)
  | _ => []

/-- Arrays are joined without repetition, objects are merged. -/
def unionMerge (values : List Value) : Value :=
  let jsons := values.filterMap fun
    | .json v => some v
    | _ => none
  let isArray : Json → Bool := fun
    | .array _ => true
    | _ => false
  let isObject : Json → Bool := fun
    | .array _ | .object _ => true
    | _ => false
  if jsons.length = values.length ∧ jsons.all isArray then
    .json (.array (distinctItems (jsons.flatMap fun
      | .array items => items
      | _ => [])))
  else if jsons.length = values.length ∧ jsons.all isObject then
    .json (.object (newMap (jsons.flatMap ownFields)).entries)
  else values.head?.getD .undefined

namespace StateReconciler

def create : StateReconciler where
  customResolvers := newMap
    [("timestamp-max", fun values _ => .number (.mathMax (numbers values.values))),
     ("string-longest", fun values _ => .json (.string
       ((values.values.filterMap fun
         | .json (.string s) => some s
         | _ => none).foldl (fun longest current =>
           if current.length > longest.length then current else longest) "")))]

variable (reconciler : StateReconciler)

def getResolver (strategy : ResolutionStrategy) : Option Resolver :=
  match reconciler.customResolvers.get strategy.name with
  | some resolver => some resolver
  | none =>
    match strategy with
    | .maxValue => some fun values _ => .number (.mathMax (numbers values.values))
    | .minValue => some fun values _ => .number (.mathMin (numbers values.values))
    | .average => some fun values _ =>
        let nums := numbers values.values
        .number ((nums.foldl JsNumber.add (.finite 0)).divNat nums.length)
    | .majority => some fun values _ => majorityValue values.values
    | .lastWriterWins | .firstWriterWins => some fun values _ =>
        values.values.head?.getD .undefined
    | .unionMerge => some fun values _ => unionMerge values.values
    | .manual | .custom => none

def conflictId (serviceId : String) (conflictType : ConflictType) : String :=
  serviceId ++ ("-" ++ conflictType.name)

def resolveConflict (conflict : StateConflict) (strategy : ResolutionStrategy) :
    Except String ResolutionResult :=
  if strategy = .manual then
    .error s!"Manual resolution required for conflict: {conflict.serviceId}"
  else
    match reconciler.getResolver strategy with
    | none => .error s!"No resolver found for strategy: {strategy.name}"
    | some resolver => .ok {
        conflictId := conflictId conflict.serviceId conflict.conflictType
        strategy := strategy
        resolvedValue := resolver conflict.values conflict
        sourceNodes := conflict.nodes }

def resolveEach (conflicts : List StateConflict) (strategy : ResolutionStrategy) :
    List ResolutionResult :=
  conflicts.filterMap fun conflict => (reconciler.resolveConflict conflict strategy).toOption

def resolutionMap (resolutions : List ResolutionResult) : OrderedMap String Value :=
  newMap (resolutions.map fun r => (r.conflictId, r.resolvedValue))

def applyResolution (now : ℤ) (resolutions : OrderedMap String Value) (service : ServiceRecord) :
    ServiceRecord :=
  { service with
    version := (resolutions.get (conflictId service.id .version)).getD service.version
    stats := service.stats.mapValues fun key value =>
      (resolutions.get (conflictId s!"{service.id}.{key}" .stats)).getD value
    metadata := service.metadata.mapValues fun key value =>
      (resolutions.get (conflictId s!"{service.id}.{key}" .metadata)).getD value
    vectorClock := service.vectorClock.set service.nodeId
      ((service.vectorClock.get service.nodeId).getD 0 + 1)
    lastUpdated := now }

def applyResolutions (now : ℤ) (services : List ServiceRecord)
    (resolutions : List ResolutionResult) : List ServiceRecord :=
  services.map (applyResolution now (resolutionMap resolutions))

def versionResolutions (aggregator : StateAggregator)
    (nodeStates : OrderedMap String (List LogicalService)) : List ResolutionResult :=
  reconciler.resolveEach ((aggregator.detectConflicts nodeStates).filter fun c =>
    c.conflictType = .version) .maxValue

def reconcileVersions (aggregator : StateAggregator) (now : ℤ)
    (nodeStates : OrderedMap String (List LogicalService)) : List ServiceRecord :=
  applyResolutions now ((allServices nodeStates).map toRecord)
    (reconciler.versionResolutions aggregator nodeStates)

/-- No service has a version below one that was reported for it. -/
def NeverBackwards (reports : List LogicalService) (services : List ServiceRecord) : Prop :=
  ∀ service ∈ services, ∀ report ∈ reports, report.id = service.id →
    service.version.atLeast report.version = true

instance decidableNeverBackwards {reports : List LogicalService}
    {services : List ServiceRecord} : Decidable (NeverBackwards reports services) :=
  inferInstanceAs (Decidable (∀ service ∈ _, ∀ report ∈ _, _ = _ → _ = true))

end StateReconciler

/-! ### The versions that remain -/

deriving instance DecidableEq for LogicalService

section Versions

variable {serviceId : String} {services reports : List LogicalService}
  {nodeStates : OrderedMap String (List LogicalService)} {s : LogicalService} {c : StateConflict}

def group (reports : List LogicalService) (serviceId : String) : List LogicalService :=
  reports.filter fun s => s.id = serviceId

def lastReport (reports : List LogicalService) (serviceId nodeId : String) :
    Option LogicalService :=
  ((group reports serviceId).filter fun s => s.nodeId = nodeId).getLast?

/-- Each version is reached by the last report of some node. -/
def MaximumKept (reports : List LogicalService) : Prop :=
  ∀ r ∈ reports, ∃ last ∈ reports, lastReport reports r.id last.nodeId = some last ∧
    r.version ≤ last.version

instance decidableMaximumKept : Decidable (MaximumKept reports) :=
  inferInstanceAs (Decidable (∀ r ∈ _, ∃ last ∈ _, _ = some last ∧ _ ≤ _))

/-- All reports of a service have the same version. -/
def VersionsAgree (reports : List LogicalService) : Prop :=
  ∀ r ∈ reports, ∀ s ∈ reports, r.id = s.id → r.version = s.version

/-- Two of the reports have different versions. -/
def Differ (services : List LogicalService) : Prop :=
  ∃ r ∈ services, ∃ s ∈ services, r.version ≠ s.version

theorem mem_group : s ∈ group reports serviceId ↔ s ∈ reports ∧ s.id = serviceId := by simp [group]

theorem one_lt_versions_iff :
    1 < (services.map LogicalService.version).dedup.length ↔ Differ services := by
  rw [← card_toFinset, Finset.one_lt_card, Differ]
  simp

theorem Differ.one_lt_length (h : Differ services) : 1 < services.length := by
  have hlt := one_lt_versions_iff.mpr h
  have hle := (dedup_sublist (services.map LogicalService.version)).length_le
  rw [length_map] at hle
  omega

theorem mem_versionConflicts :
    c ∈ analyzeServiceConflicts serviceId services ∧ c.conflictType = .version ↔
      Differ services ∧ c = versionConflict serviceId services := by
  have hothers : ∀ d ∈ statsConflicts serviceId services ++ metadataConflicts serviceId services,
      d.conflictType ≠ .version := by
    intro d hd
    rcases mem_append.mp hd with hd | hd
    all_goals
      obtain ⟨key, -, hd⟩ := mem_flatMap.mp hd
      dsimp only at hd
      split_ifs at hd
      · obtain rfl := mem_singleton.mp hd
        intro htype
        cases htype
      · cases hd
  by_cases hdiffer : Differ services
  · rw [analyzeServiceConflicts, if_neg (Nat.not_le.mpr hdiffer.one_lt_length)]
    dsimp only
    rw [if_pos (one_lt_versions_iff.mpr hdiffer), append_assoc, singleton_append, mem_cons]
    constructor
    · rintro ⟨rfl | hc, htype⟩
      · exact ⟨hdiffer, rfl⟩
      · exact absurd htype (hothers c hc)
    · rintro ⟨-, rfl⟩
      exact ⟨.inl rfl, rfl⟩
  · constructor
    · rintro ⟨hc, htype⟩
      rw [analyzeServiceConflicts] at hc
      split_ifs at hc
      · cases hc
      · dsimp only at hc
        rw [if_neg fun h => hdiffer (one_lt_versions_iff.mp h), nil_append] at hc
        exact absurd htype (hothers c hc)
    · rintro ⟨h, -⟩
      exact absurd h hdiffer

theorem mem_detectConflicts {aggregator : StateAggregator} :
    c ∈ aggregator.detectConflicts nodeStates ∧ c.conflictType = .version ↔
      aggregator.enableConflictDetection = true ∧ ∃ serviceId,
        Differ (group (allServices nodeStates) serviceId) ∧
          c = versionConflict serviceId (group (allServices nodeStates) serviceId) := by
  rw [StateAggregator.detectConflicts]
  split_ifs with henabled
  · dsimp only
    rw [mem_flatMap]
    constructor
    · rintro ⟨⟨⟨serviceId, services⟩, hgroup, hc⟩, htype⟩
      have hget := (mem_entries_iff _ _ _).mp hgroup
      rw [get_groupBy] at hget
      split_ifs at hget
      cases hget
      exact ⟨henabled, serviceId, mem_versionConflicts.mp ⟨hc, htype⟩⟩
    · rintro ⟨-, serviceId, hdiffer, rfl⟩
      refine ⟨⟨(serviceId, group (allServices nodeStates) serviceId), ?_,
        (mem_versionConflicts.mpr ⟨hdiffer, rfl⟩).1⟩, rfl⟩
      rw [mem_entries_iff, get_groupBy]
      refine if_neg fun hnil => ?_
      obtain ⟨r, hr, -⟩ := hdiffer
      rw [group, hnil] at hr
      cases hr
  · constructor
    · rintro ⟨hc, -⟩
      cases hc
    · rintro ⟨h, -⟩
      exact absurd h henabled

theorem values_versionConflict {v : Value} :
    v ∈ (versionConflict serviceId services).values.values ↔
      ∃ last, (services.filter fun s => s.nodeId = last.nodeId).getLast? = some last ∧
        v = .number (.finite last.version) := by
  rw [mem_values_iff]
  have hget : ∀ nodeId, (versionConflict serviceId services).values.get nodeId =
      (services.filter fun s => s.nodeId = nodeId).getLast?.map
        fun s => .number (.finite s.version) := by
    intro nodeId
    have h := get_foldl_set (fun s => s.nodeId)
      (fun s => Value.number (.finite s.version)) nodeId services .empty
    rw [get_empty, Option.or_none] at h
    rw [← h, versionConflict, StateConflict.ofValues, newMap, foldl_map]
  constructor
  · rintro ⟨nodeId, hv⟩
    rw [hget, Option.map_eq_some_iff] at hv
    obtain ⟨last, hlast, rfl⟩ := hv
    have hnode := (mem_filter.mp (mem_of_getLast? hlast)).2
    obtain rfl : last.nodeId = nodeId := by simpa using hnode
    exact ⟨last, hlast, rfl⟩
  · rintro ⟨last, hlast, rfl⟩
    exact ⟨last.nodeId, by rw [hget, hlast]; rfl⟩

theorem exists_last (hs : s ∈ services) :
    ∃ last ∈ services, (services.filter fun t => t.nodeId = last.nodeId).getLast? = some last := by
  have hne : services.filter (fun t => t.nodeId = s.nodeId) ≠ [] :=
    ne_nil_of_mem (mem_filter.mpr ⟨hs, by simp⟩)
  obtain ⟨last, hlast⟩ : ∃ last,
      (services.filter fun t => t.nodeId = s.nodeId).getLast? = some last :=
    ⟨_, getLast?_eq_some_getLast hne⟩
  obtain ⟨hmem, hnode⟩ := mem_filter.mp (mem_of_getLast? hlast)
  rw [decide_eq_true_eq] at hnode
  exact ⟨last, hmem, by rw [hnode, hlast]⟩

theorem exists_max_versionConflict (hne : services ≠ []) :
    ∃ last, (services.filter fun s => s.nodeId = last.nodeId).getLast? = some last ∧
      JsNumber.mathMax (numbers (versionConflict serviceId services).values.values) =
        .finite last.version ∧
      ∀ other, (services.filter fun s => s.nodeId = other.nodeId).getLast? = some other →
        other.version ≤ last.version := by
  have hmem : ∀ x, x ∈ numbers (versionConflict serviceId services).values.values ↔
      ∃ last, (services.filter fun s => s.nodeId = last.nodeId).getLast? = some last ∧
        x = .finite last.version := by
    intro x
    rw [numbers, mem_filterMap]
    constructor
    · rintro ⟨v, hv, hx⟩
      obtain ⟨last, hlast, rfl⟩ := values_versionConflict.mp hv
      exact ⟨last, hlast, (Option.some.inj hx).symm⟩
    · rintro ⟨last, hlast, rfl⟩
      exact ⟨_, values_versionConflict.mpr ⟨last, hlast, rfl⟩, rfl⟩
  have hnumbers : numbers (versionConflict serviceId services).values.values ≠ [] := by
    obtain ⟨s, hs⟩ := exists_mem_of_ne_nil _ hne
    obtain ⟨last, -, hlast⟩ := exists_last hs
    exact ne_nil_of_mem ((hmem _).mpr ⟨last, hlast, rfl⟩)
  obtain ⟨q, hq, hmax, hle⟩ := JsNumber.exists_mathMax_eq hnumbers fun x hx => by
    obtain ⟨last, -, rfl⟩ := (hmem x).mp hx
    exact ⟨_, rfl⟩
  obtain ⟨last, hlast, hversion⟩ := (hmem _).mp hq
  obtain rfl := JsNumber.finite.inj hversion
  exact ⟨last, hlast, hmax, fun other hother =>
    Int.cast_le.mp (hle _ ((hmem _).mpr ⟨other, hother, rfl⟩))⟩

theorem VersionsAgree.not_differ (h : VersionsAgree reports) :
    ¬Differ (group reports serviceId) := by
  rintro ⟨r, hr, s, hs, hne⟩
  obtain ⟨hr, hrid⟩ := mem_group.mp hr
  obtain ⟨hs, hsid⟩ := mem_group.mp hs
  exact hne (h r hr s hs (hrid.trans hsid.symm))

end Versions

namespace StateReconciler

variable {reconciler : StateReconciler} {aggregator : StateAggregator}
  {nodeStates : OrderedMap String (List LogicalService)} {serviceId : String} {now : ℤ}

theorem conflictId_inj {serviceId serviceId' : String} {conflictType : ConflictType} :
    conflictId serviceId conflictType = conflictId serviceId' conflictType ↔
      serviceId = serviceId' := by rw [conflictId, conflictId, String.append_left_inj]

def versionResolution (services : List LogicalService) (serviceId : String) : Value :=
  .number (.mathMax (numbers (versionConflict serviceId services).values.values))

section

variable (hcustom : reconciler.customResolvers.get ResolutionStrategy.maxValue.name = none)

include hcustom

theorem resolveConflict_maxValue (conflict : StateConflict) :
    reconciler.resolveConflict conflict .maxValue = .ok {
      conflictId := conflictId conflict.serviceId conflict.conflictType
      strategy := .maxValue
      resolvedValue := .number (.mathMax (numbers conflict.values.values))
      sourceNodes := conflict.nodes } := by
  rw [resolveConflict, if_neg (by decide), getResolver, hcustom]

theorem mem_versionResolutions {result : ResolutionResult} :
    result ∈ reconciler.versionResolutions aggregator nodeStates ↔
      aggregator.enableConflictDetection = true ∧ ∃ id,
        Differ (group (allServices nodeStates) id) ∧ result = {
          conflictId := conflictId id .version
          strategy := .maxValue
          resolvedValue := versionResolution (group (allServices nodeStates) id) id
          sourceNodes := (versionConflict id (group (allServices nodeStates) id)).nodes } := by
  rw [versionResolutions, resolveEach, mem_filterMap]
  simp only [resolveConflict_maxValue hcustom, mem_filter, decide_eq_true_eq, mem_detectConflicts]
  constructor
  · rintro ⟨c, ⟨henabled, id, hdiffer, rfl⟩, hr⟩
    exact ⟨henabled, id, hdiffer, (Option.some.inj hr).symm⟩
  · rintro ⟨henabled, id, hdiffer, rfl⟩
    exact ⟨_, ⟨henabled, id, hdiffer, rfl⟩, rfl⟩

theorem get_resolutionMap_eq_some_iff {value : Value} :
    (resolutionMap (reconciler.versionResolutions aggregator nodeStates)).get
        (conflictId serviceId .version) = some value ↔
      aggregator.enableConflictDetection = true ∧
        Differ (group (allServices nodeStates) serviceId) ∧
        versionResolution (group (allServices nodeStates) serviceId) serviceId = value := by
  rw [resolutionMap, newMap, foldl_map, get_foldl_set_eq_some_iff_of_agree
    ResolutionResult.conflictId ResolutionResult.resolvedValue]
  · simp only [mem_versionResolutions hcustom]
    constructor
    · rintro ⟨r, ⟨henabled, id, hdiffer, rfl⟩, hid, rfl⟩
      obtain rfl := conflictId_inj.mp hid
      exact ⟨henabled, hdiffer, rfl⟩
    · rintro ⟨henabled, hdiffer, rfl⟩
      exact ⟨_, ⟨henabled, serviceId, hdiffer, rfl⟩, rfl, rfl⟩
  · intro r hr r' hr' hid
    obtain ⟨-, id, -, rfl⟩ := (mem_versionResolutions hcustom).mp hr
    obtain ⟨-, id', -, rfl⟩ := (mem_versionResolutions hcustom).mp hr'
    obtain rfl := conflictId_inj.mp hid
    rfl

variable {report : LogicalService}

theorem version_of_differ (henabled : aggregator.enableConflictDetection = true)
    (hdiffer : Differ (group (allServices nodeStates) report.id)) :
    (applyResolution now (resolutionMap (reconciler.versionResolutions aggregator nodeStates))
      (toRecord report)).version =
      versionResolution (group (allServices nodeStates) report.id) report.id := by
  have hget := (get_resolutionMap_eq_some_iff hcustom).mpr ⟨henabled, hdiffer, rfl⟩
  rw [applyResolution]
  exact congrArg (Option.getD · _) hget

theorem version_of_not_differ (h : ¬(aggregator.enableConflictDetection = true ∧
      Differ (group (allServices nodeStates) report.id))) :
    (applyResolution now (resolutionMap (reconciler.versionResolutions aggregator nodeStates))
      (toRecord report)).version = .number (.finite report.version) := by
  have hget : (resolutionMap (reconciler.versionResolutions aggregator nodeStates)).get
      (conflictId report.id .version) = none := by
    rw [Option.eq_none_iff_forall_ne_some]
    intro value hvalue
    obtain ⟨henabled, hdiffer, -⟩ := (get_resolutionMap_eq_some_iff hcustom).mp hvalue
    exact h ⟨henabled, hdiffer⟩
  rw [applyResolution]
  exact congrArg (Option.getD · _) hget

end

/-- If the reports for an id differ, all its services reach every reported version exactly if the
greatest version is one of the last reports. -/
theorem atLeast_versionResolution {services : List LogicalService} (hreport : report ∈ services) :
    (versionResolution services serviceId).atLeast report.version = true ↔
      ∃ last ∈ services, (services.filter fun s => s.nodeId = last.nodeId).getLast? = some last ∧
        report.version ≤ last.version := by
  obtain ⟨last, hlast, hmax, hle⟩ := exists_max_versionConflict (ne_nil_of_mem hreport)
  rw [versionResolution, hmax, Value.atLeast, decide_eq_true_eq, Int.cast_le]
  constructor
  · exact fun h => ⟨last, (mem_filter.mp (mem_of_getLast? hlast)).1, hlast, h⟩
  · rintro ⟨other, -, hother, h⟩
    exact h.trans (hle other hother)

/-- No service falls behind a reported version exactly if the conflicts are looked for and the
greatest version reported for an id is the version of the last report of some owner, or if there
is nothing to reconcile. -/
theorem neverBackwards_iff (reconciler : StateReconciler)
    (hcustom : reconciler.customResolvers.get ResolutionStrategy.maxValue.name = none)
    (aggregator : StateAggregator) (now : ℤ)
    (nodeStates : OrderedMap String (List LogicalService)) :
    NeverBackwards (allServices nodeStates)
        (reconciler.reconcileVersions aggregator now nodeStates) ↔
      aggregator.enableConflictDetection = true ∧ MaximumKept (allServices nodeStates) ∨
        VersionsAgree (allServices nodeStates) := by
  simp only [NeverBackwards, reconcileVersions, applyResolutions, forall_mem_map]
  have hgroup : ∀ {r : LogicalService}, r ∈ allServices nodeStates →
      r ∈ group (allServices nodeStates) r.id := fun hr => mem_group.mpr ⟨hr, rfl⟩
  constructor
  · intro h
    by_cases hagree : VersionsAgree (allServices nodeStates)
    · exact .inr hagree
    have henabled : aggregator.enableConflictDetection = true := by
      by_contra hdisabled
      -- Without resolutions every service keeps its version.
      have hkept : ∀ s ∈ allServices nodeStates, ∀ r ∈ allServices nodeStates, r.id = s.id →
          r.version ≤ s.version := by
        intro s hs r hr hid
        have hversion := h s hs r hr hid
        rw [version_of_not_differ hcustom fun h => hdisabled h.1] at hversion
        simpa [Value.atLeast] using hversion
      exact hagree fun r hr s hs hid => le_antisymm (hkept s hs r hr hid) (hkept r hr s hs hid.symm)
    refine .inl ⟨henabled, fun r hr => ?_⟩
    by_cases hdiffer : Differ (group (allServices nodeStates) r.id)
    · have hversion := h r hr r hr rfl
      rw [version_of_differ hcustom henabled hdiffer] at hversion
      obtain ⟨last, hmem, hlast, hle⟩ := (atLeast_versionResolution (hgroup hr)).mp hversion
      exact ⟨last, (mem_group.mp hmem).1, hlast, hle⟩
    · obtain ⟨last, hmem, hlast⟩ := exists_last (hgroup hr)
      refine ⟨last, (mem_group.mp hmem).1, hlast, le_of_eq ?_⟩
      by_contra hne
      exact hdiffer ⟨r, hgroup hr, last, hmem, hne⟩
  · intro h s hs r hr hid
    have hr' : r ∈ group (allServices nodeStates) s.id := mem_group.mpr ⟨hr, hid⟩
    by_cases hdiffer : aggregator.enableConflictDetection = true ∧
        Differ (group (allServices nodeStates) s.id)
    · rw [version_of_differ hcustom hdiffer.1 hdiffer.2, atLeast_versionResolution hr']
      rcases h with ⟨-, hkept⟩ | hagree
      · obtain ⟨last, -, hget, hle⟩ := hkept r hr
        rw [lastReport, hid] at hget
        exact ⟨last, (mem_filter.mp (mem_of_getLast? hget)).1, hget, hle⟩
      · exact absurd hdiffer.2 hagree.not_differ
    · rw [version_of_not_differ hcustom hdiffer, Value.atLeast, decide_eq_true_eq, Int.cast_le]
      rcases h with ⟨henabled, -⟩ | hagree
      · by_contra hlt
        exact hdiffer ⟨henabled, r, hr', s, hgroup hs, fun heq => hlt heq.le⟩
      · exact (hagree r hr s hs hid).le

def plainService (id nodeId : String) (version : ℤ) : LogicalService where
  id := id
  type := "chat-room"
  nodeId := nodeId
  rangeId := none
  metadata := .empty
  stats := .empty
  lastUpdated := 0
  vectorClock := .empty
  version := version
  checksum := ""
  conflictPolicy := none

def collapsingStates : OrderedMap String (List LogicalService) :=
  newMap [("a", [plainService "room" "a" 5]), ("b", [plainService "room" "a" 3])]

/-- The two reports collapse into the second one, and the first node loses its version. -/
theorem version_goes_backwards : ¬NeverBackwards (allServices collapsingStates)
      (create.reconcileVersions ⟨true⟩ 0 collapsingStates) := by decide +kernel

def separateStates : OrderedMap String (List LogicalService) :=
  newMap [("a", [plainService "room" "a" 5]), ("b", [plainService "room" "b" 3])]

theorem neverBackwards_separateStates : NeverBackwards (allServices separateStates)
      (create.reconcileVersions ⟨true⟩ 0 separateStates) :=
  (neverBackwards_iff create rfl ⟨true⟩ 0 separateStates).mpr (.inl ⟨rfl, by decide +kernel⟩)

end StateReconciler

end DistributedCore.Cluster.Reconciliation
