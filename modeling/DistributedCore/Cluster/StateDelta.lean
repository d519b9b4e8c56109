import DistributedCore.Cluster.StateFingerprint

/-!
# Deltas between the services of two nodes

A delta carries operations on services: an added service, a modified one with the version that it
replaces, or a deleted one. A node applies a delta to its services as a whole: if an operation
fails, the services stay as they are.

Source: `src/cluster/delta-sync/StateDelta.ts`, `src/cluster/delta-sync/DeltaSync.ts`:
`applyIncomingDeltas`.
-/

namespace DistributedCore.Cluster

open Function OrderedMap List Except

/-- What a delta does with a service. -/
inductive DeltaOperation where
  | add
  | modify
  | delete
  deriving DecidableEq

/-- The fields that a modification replaces. -/
structure ServicePatch (S : Type := JsonNumber) (V : Type := Json) (C : Type := ℤ) where
  stats : Option (OrderedMap String S)
  metadata : Option (OrderedMap String V)
  version : Option ℤ
  vectorClock : Option (OrderedMap String C)
  lastUpdated : Option ℤ

structure ServiceDelta (S : Type := JsonNumber) (V : Type := Json) (C : Type := ℤ) where
  operation : DeltaOperation
  serviceId : String
  service : Option (LogicalService S V C)
  patch : Option (ServicePatch S V C)
  previousVersion : Option ℤ

/-- The operations on the services that one node sends to another. -/
structure StateDelta where
  id : String
  sourceNodeId : String
  targetNodeId : Option String
  sourceFingerprint : String
  services : List ServiceDelta
  sequenceNumber : ℕ

inductive ConflictType where
  | version
  | missingDependency
  deriving DecidableEq

structure ServiceConflict where
  serviceId : String
  conflictType : ConflictType
  expectedVersion : Option ℤ
  actualVersion : Option ℤ
  description : String

/-- The services after a delta, and what went wrong. -/
structure DeltaApplicationResult where
  success : Bool
  appliedOperations : ℕ
  failedOperations : List ServiceDelta
  conflicts : List ServiceConflict
  resultingServices : List LogicalService

structure DeltaConfig where
  maxDeltaSize : ℕ
  /-- The loop over the operations ends. -/
  maxDeltaSize_pos : 0 < maxDeltaSize
  includeFullServices : Bool

structure StateDeltaManager where
  config : DeltaConfig
  sequenceCounter : ℕ

/-! ### Patches -/

variable {S V C : Type} (service : LogicalService S V C)

def applyPatch (patch : ServicePatch S V C) : LogicalService S V C :=
  { service with
    stats := (patch.stats.map service.stats.spread).getD service.stats
    metadata := (patch.metadata.map service.metadata.spread).getD service.metadata
    version := patch.version.getD service.version
    vectorClock := (patch.vectorClock.map service.vectorClock.spread).getD service.vectorClock
    lastUpdated := patch.lastUpdated.getD service.lastUpdated }

def createFullPatch : ServicePatch S V C where
  stats := some service.stats
  metadata := some service.metadata
  version := some service.version
  vectorClock := some service.vectorClock
  lastUpdated := some service.lastUpdated

def createModifyPatch : ServicePatch S V C := createFullPatch service

variable (now : ℤ)

def createServiceFromPatch (serviceId : String) (patch : ServicePatch S V C) :
    LogicalService S V C where
  id := serviceId
  type := "unknown"
  nodeId := "unknown"
  rangeId := none
  metadata := patch.metadata.getD .empty
  stats := patch.stats.getD .empty
  lastUpdated := (patch.lastUpdated.filter (· ≠ 0)).getD now
  version := (patch.version.filter (· ≠ 0)).getD 1
  vectorClock := patch.vectorClock.getD .empty
  checksum := "pending"
  conflictPolicy := some "last-writer-wins"

namespace StateDeltaManager

variable (manager : StateDeltaManager)

/-! ### Generating deltas -/

def addOperation (service : LogicalService) (serviceId : String) : ServiceDelta where
  operation := .add
  serviceId := serviceId
  service := if manager.config.includeFullServices then some service else none
  patch := if manager.config.includeFullServices then none else some (createFullPatch service)
  previousVersion := none

def modifyOperation (service : LogicalService) (serviceId : String) : ServiceDelta where
  operation := .modify
  serviceId := serviceId
  service := if manager.config.includeFullServices then some service else none
  patch := if manager.config.includeFullServices then none else some (createModifyPatch service)
  previousVersion := some (if service.version = 0 then 0 else service.version - 1)

def deleteOperation (serviceId : String) : ServiceDelta where
  operation := .delete
  serviceId := serviceId
  service := none
  patch := none
  previousVersion := none

def allOperations (localServices : List LogicalService) (comparison : FingerprintComparison) :
    List ServiceDelta :=
  (comparison.addedServices.filterMap fun id =>
    ((serviceMap localServices).get id).map fun service => manager.addOperation service id) ++
  (comparison.modifiedServices.filterMap fun id =>
    ((serviceMap localServices).get id).map fun service => manager.modifyOperation service id) ++
  comparison.removedServices.map deleteOperation

def generateDelta (now : ℤ) (localServices : List LogicalService)
    (comparison : FingerprintComparison) (sourceNodeId sourceFingerprint : String)
    (targetNodeId : Option String) : List StateDelta :=
  let operations := manager.allOperations localServices comparison
  (chunks manager.config.maxDeltaSize operations.length operations).mapIdx fun i chunk =>
    { id := "delta-" ++ toString now ++ "-" ++ toString (manager.sequenceCounter + i + 1)
      sourceNodeId := sourceNodeId
      targetNodeId := targetNodeId
      sourceFingerprint := sourceFingerprint
      services := chunk
      sequenceNumber := manager.sequenceCounter + i + 1 }

end StateDeltaManager

/-! ### Applying deltas -/

def validateDelta (delta : StateDelta) : List String :=
  (if delta.id = "" ∨ delta.sourceNodeId = "" then ["Missing required delta identifiers"]
    else []) ++
  (if delta.sourceFingerprint = "" then ["Missing source fingerprint"] else []) ++
  (if delta.services.isEmpty then ["Delta contains no operations"] else []) ++
  delta.services.flatMap fun operation =>
    (if operation.serviceId = "" then ["Service operation missing serviceId"] else []) ++
    match operation.operation with
    | .add => if operation.service.isNone && operation.patch.isNone then
        ["add operation missing service data"] else []
    | .modify => if operation.service.isNone && operation.patch.isNone then
        ["modify operation missing service data"] else []
    | .delete => []

theorem validateDelta_eq_nil_iff (delta : StateDelta) :
    validateDelta delta = [] ↔ delta.id ≠ "" ∧ delta.sourceNodeId ≠ "" ∧
      delta.sourceFingerprint ≠ "" ∧ delta.services ≠ [] ∧
      ∀ op ∈ delta.services, op.serviceId ≠ "" ∧
        (op.operation = .delete ∨ op.service.isSome ∨ op.patch.isSome) := by
  have hop : ∀ op : ServiceDelta, (match op.operation with
      | .add => if op.service.isNone && op.patch.isNone then
          ["add operation missing service data"] else []
      | .modify => if op.service.isNone && op.patch.isNone then
          ["modify operation missing service data"] else []
      | .delete => ([] : List String)) = [] ↔
      (op.operation = .delete ∨ op.service.isSome ∨ op.patch.isSome) := by
    intro op
    obtain ⟨kind, _, service, patch, _⟩ := op
    cases kind <;> cases service <;> cases patch <;> simp
  simp only [validateDelta, append_eq_nil_iff, flatMap_eq_nil_iff, hop]
  simp [and_assoc]

def applyServiceOperation (serviceMap : OrderedMap String (LogicalService S V C))
    (operation : ServiceDelta S V C) :
    Except ServiceConflict (OrderedMap String (LogicalService S V C)) :=
  let id := operation.serviceId
  match operation.operation with
  | .add =>
    if serviceMap.has id then
      .error ⟨id, .version, none, none, "Service already exists"⟩
    else match operation.service, operation.patch with
      | some service, _ => .ok (serviceMap.set id service)
      | none, some patch => .ok (serviceMap.set id (createServiceFromPatch now id patch))
      | none, none => .ok serviceMap
  | .modify =>
    match serviceMap.get id with
    | none => .error ⟨id, .missingDependency, none, none, "Service does not exist for modification"⟩
    | some existing =>
      if operation.previousVersion.isSome ∧ operation.previousVersion ≠ some existing.version then
        .error ⟨id, .version, operation.previousVersion, some existing.version,
          "Version conflict during modification"⟩
      else match operation.service, operation.patch with
        | some service, _ => .ok (serviceMap.set id service)
        | none, some patch => .ok (serviceMap.set id (applyPatch existing patch))
        | none, none => .ok serviceMap
  | .delete => .ok (if serviceMap.has id then serviceMap.delete id else serviceMap)

/-- The loop of `applyDelta`: the services so far, and the conflicts. -/
structure DeltaProgress where
  serviceMap : OrderedMap String LogicalService
  appliedOperations : ℕ
  failedOperations : List ServiceDelta
  conflicts : List ServiceConflict

def DeltaProgress.apply (progress : DeltaProgress) (operation : ServiceDelta) : DeltaProgress :=
  match applyServiceOperation now progress.serviceMap operation with
  | .ok serviceMap =>
    { progress with
      serviceMap := serviceMap
      appliedOperations := progress.appliedOperations + 1 }
  | .error conflict =>
    { progress with
      failedOperations := progress.failedOperations ++ [operation]
      conflicts := progress.conflicts ++ [conflict] }

variable (currentState currentServices : List LogicalService)

def applyDelta (delta : StateDelta) : DeltaApplicationResult :=
  let progress := delta.services.foldl (DeltaProgress.apply now)
    ⟨serviceMap currentServices, 0, [], []⟩
  { success := progress.failedOperations.isEmpty
    appliedOperations := progress.appliedOperations
    failedOperations := progress.failedOperations
    conflicts := progress.conflicts
    resultingServices := progress.serviceMap.values }

def applyIfValid (delta : StateDelta) : DeltaApplicationResult :=
  if (validateDelta delta).isEmpty then applyDelta now currentState delta
  else ⟨false, 0, [], [], currentState⟩

/-- A delta that fails leaves the services as they were. -/
def afterDelta (delta : StateDelta) : List LogicalService :=
  if (applyIfValid now currentState delta).success then
    (applyIfValid now currentState delta).resultingServices
  else currentState

def applyDeltas (now : ℤ) : List LogicalService → List StateDelta →
    List LogicalService × List DeltaApplicationResult
  | currentState, [] => (currentState, [])
  | currentState, delta :: deltas =>
    let rest := applyDeltas now (afterDelta now currentState delta) deltas
    (rest.1, applyIfValid now currentState delta :: rest.2)

/-! ### The entries of the services -/

/-- What the operation makes of the stored service, or the conflict it meets. -/
def ServiceDelta.entry (operation : ServiceDelta) (existing : Option LogicalService) :
    Except ServiceConflict (Option LogicalService) :=
  let id := operation.serviceId
  match operation.operation with
  | .add =>
    match existing with
    | some _ => .error ⟨id, .version, none, none, "Service already exists"⟩
    | none => .ok (operation.service.or (operation.patch.map (createServiceFromPatch now id)))
  | .modify =>
    match existing with
    | none => .error ⟨id, .missingDependency, none, none, "Service does not exist for modification"⟩
    | some existing =>
      if operation.previousVersion.isSome ∧ operation.previousVersion ≠ some existing.version then
        .error ⟨id, .version, operation.previousVersion, some existing.version,
          "Version conflict during modification"⟩
      else .ok (operation.service.or (some
        ((operation.patch.map (applyPatch existing)).getD existing)))
  | .delete => .ok none

/-- The operation names the service that it carries. -/
def ServiceDelta.Keyed (operation : ServiceDelta) : Prop :=
  ∀ service, operation.service = some service → service.id = operation.serviceId

section Operations

variable {now : ℤ} {operation : ServiceDelta} {m : OrderedMap String LogicalService}

/-- **An operation is the change of one entry**. -/
theorem applyServiceOperation_spec (now : ℤ) (m : OrderedMap String LogicalService)
    (operation : ServiceDelta) :
    (applyServiceOperation now m operation).map get =
      (operation.entry now (m.get operation.serviceId)).map (update m.get operation.serviceId) := by
  have hset : ∀ id service, (m.set id service).get = update m.get id (some service) :=
    fun id service => funext fun j => by rw [get_set, update_apply]
  have hsame : ∀ {id v}, m.get id = v → m.get = update m.get id v := by
    rintro id _ rfl
    exact (update_eq_self id m.get).symm
  obtain ⟨kind, id, service, patch, previousVersion⟩ := operation
  cases kind with
  | add =>
    cases hget : m.get id with
    | some =>
      simp only [applyServiceOperation, ServiceDelta.entry, has, hget]
      rfl
    | none =>
      simp only [applyServiceOperation, ServiceDelta.entry, has, hget]
      cases service with
      | some service => exact congrArg ok (hset id service)
      | none =>
        cases patch with
        | some => exact congrArg ok (hset id _)
        | none => exact congrArg ok (hsame hget)
  | modify =>
    cases hget : m.get id with
    | none =>
      simp only [applyServiceOperation, ServiceDelta.entry, hget]
      rfl
    | some =>
      simp only [applyServiceOperation, ServiceDelta.entry, hget]
      split_ifs with _
      · rfl
      · cases service with
        | some service => exact congrArg ok (hset id service)
        | none =>
          cases patch with
          | some => exact congrArg ok (hset id _)
          | none => exact congrArg ok (hsame hget)
  | delete =>
    refine congrArg ok ?_
    split_ifs with hhas
    · exact funext fun j => by rw [get_delete, update_apply]
    · exact hsame ((m.has_eq_false_iff id).mp (by simpa using hhas))

end Operations

/-! ### One delta -/

/-- Every service is stored under its id. -/
def KeyedMap (m : OrderedMap String LogicalService) : Prop :=
  ∀ id service, m.get id = some service → service.id = id

theorem keyedMap_serviceMap (services : List LogicalService) : KeyedMap (serviceMap services) := by
  intro id service hget
  rw [serviceMap, get_foldl_set LogicalService.id (fun s => s), get_empty, Option.or_none,
    Option.map_id'] at hget
  exact of_decide_eq_true (mem_filter.mp (mem_of_getLast? hget)).2

theorem DeltaProgress.apply_cases (progress : DeltaProgress) (operation : ServiceDelta) :
    (∃ v, operation.entry now (progress.serviceMap.get operation.serviceId) = .ok v ∧
      (progress.apply now operation).serviceMap.get =
        update progress.serviceMap.get operation.serviceId v ∧
      (progress.apply now operation).failedOperations = progress.failedOperations) ∨
    (∃ conflict, operation.entry now (progress.serviceMap.get operation.serviceId) =
        .error conflict ∧
      (progress.apply now operation).serviceMap = progress.serviceMap ∧
      (progress.apply now operation).failedOperations =
        progress.failedOperations ++ [operation]) := by
  have hspec := applyServiceOperation_spec now progress.serviceMap operation
  rw [DeltaProgress.apply]
  cases happly : applyServiceOperation now progress.serviceMap operation with
  | ok =>
    rw [happly] at hspec
    cases hentry : operation.entry now (progress.serviceMap.get operation.serviceId) with
    | ok v =>
      rw [hentry] at hspec
      exact .inl ⟨v, rfl, ok.inj hspec, rfl⟩
    | error =>
      rw [hentry] at hspec
      cases hspec
  | error =>
    rw [happly] at hspec
    cases hentry : operation.entry now (progress.serviceMap.get operation.serviceId) with
    | ok =>
      rw [hentry] at hspec
      cases hspec
    | error conflict' => exact .inr ⟨conflict', rfl, rfl, rfl⟩

/-- The operations lead from an entry to another one, one after another. -/
def Leads (now : ℤ) : Option LogicalService → List ServiceDelta → Option LogicalService → Prop
  | entry, [], after => entry = after
  | entry, op :: operations, after => ∃ v, op.entry now entry = .ok v ∧ Leads now v operations after

theorem KeyedMap.apply {now : ℤ} {progress : DeltaProgress} {operation : ServiceDelta}
    (h : KeyedMap progress.serviceMap) (hop : operation.Keyed) :
    KeyedMap (progress.apply now operation).serviceMap := by
  obtain ⟨v, hentry, hget, -⟩ | ⟨-, -, hsame, -⟩ := progress.apply_cases now operation
  · intro id service hservice
    rw [hget, update_apply] at hservice
    split_ifs at hservice with hid
    · rw [hid]
      rw [hservice] at hentry
      -- the entry is the service that the operation carries, or what is made without it
      have hor : ∀ {made : Option LogicalService}, operation.service.or made = some service →
          (∀ other, made = some other → other.id = operation.serviceId) →
            service.id = operation.serviceId := by
        intro made h hmade
        rcases Option.or_eq_some_iff.mp h with h | ⟨-, h⟩
        · exact hop _ h
        · exact hmade _ h
      cases hkind : operation.operation with
      | add =>
        cases hold : progress.serviceMap.get operation.serviceId with
        | some => simp [ServiceDelta.entry, hkind, hold] at hentry
        | none =>
          simp only [ServiceDelta.entry, hkind, hold, ok.injEq] at hentry
          refine hor hentry fun other hother => ?_
          obtain ⟨patch, -, rfl⟩ := Option.map_eq_some_iff.mp hother
          rfl
      | modify =>
        cases hold : progress.serviceMap.get operation.serviceId with
        | none => simp [ServiceDelta.entry, hkind, hold] at hentry
        | some existing =>
          simp only [ServiceDelta.entry, hkind, hold] at hentry
          split_ifs at hentry
          refine hor (ok.inj hentry) ?_
          rintro _ ⟨⟩
          cases operation.patch <;> exact h _ existing hold
      | delete => simp [ServiceDelta.entry, hkind] at hentry
    · exact h id service hservice
  · rwa [hsame]

/-- **Operations succeed** if for every service those about it lead from its entry to another
one. -/
theorem foldl_apply_iff (now : ℤ) (after : String → Option LogicalService) :
    (operations : List ServiceDelta) → (progress : DeltaProgress) →
      ((operations.foldl (DeltaProgress.apply now) progress).failedOperations = [] ∧
          (operations.foldl (DeltaProgress.apply now) progress).serviceMap.get = after ↔
        progress.failedOperations = [] ∧ ∀ id, Leads now (progress.serviceMap.get id)
          (operations.filter fun op => op.serviceId = id) (after id))
  | [], progress => and_congr_right fun _ => funext_iff
  | op :: operations, progress => by
    rw [foldl_cons, foldl_apply_iff now after operations]
    obtain ⟨v, hentry, hget, hfailed⟩ | ⟨conflict, hentry, -, hfailed⟩ :=
      progress.apply_cases now op
    · rw [hfailed, hget]
      refine and_congr_right fun _ => forall_congr' fun id => ?_
      by_cases hid : op.serviceId = id
      · subst hid
        rw [update_self, filter_cons_of_pos (by simp)]
        simp [Leads, hentry]
      · rw [update_of_ne (Ne.symm hid), filter_cons_of_neg (by simpa using hid)]
    · rw [hfailed]
      refine iff_of_false (fun h => by simpa using h.1) fun h => ?_
      have hleads := h.2 op.serviceId
      rw [filter_cons_of_pos (by simp)] at hleads
      obtain ⟨v, hv, -⟩ := hleads
      exact absurd (hv.symm.trans hentry) nofun

theorem applyDelta_spec (now : ℤ) (services : List LogicalService) {delta : StateDelta}
    (hops : ∀ op ∈ delta.services, op.Keyed) :
    UniqueIds (applyDelta now services delta).resultingServices ∧
      ∀ after, ((applyDelta now services delta).success = true ∧
          (serviceMap (applyDelta now services delta).resultingServices).get = after ↔
        ∀ id, Leads now ((serviceMap services).get id)
          (delta.services.filter fun op => op.serviceId = id) (after id)) := by
  have hkeyed : KeyedMap (delta.services.foldl (DeltaProgress.apply now)
      ⟨serviceMap services, 0, [], []⟩).serviceMap :=
    List.foldlRecOn (motive := fun progress : DeltaProgress => KeyedMap progress.serviceMap) _ _
      (keyedMap_serviceMap services) fun _ h op hop => h.apply (hops op hop)
  refine ⟨nodup_map_values LogicalService.id _ hkeyed, fun after => ?_⟩
  have hmap : serviceMap (applyDelta now services delta).resultingServices = _ :=
    foldl_set_values LogicalService.id _ hkeyed
  rw [hmap, applyDelta, List.isEmpty_iff, foldl_apply_iff]
  exact and_iff_right rfl

/-- The delta is well formed, and each of its operations succeeds. -/
def StateDelta.Accepted (before : String → Option LogicalService) (delta : StateDelta) : Prop :=
  validateDelta delta = [] ∧ ∀ op ∈ delta.services, ∃ v, op.entry now (before op.serviceId) = .ok v

/-- The entries before and after some deltas about different services: a delta is taken over if it
is accepted, and leaves the entries of its services otherwise. -/
structure DeltasOutcome (now : ℤ) (deltas : List StateDelta)
    (before after : String → Option LogicalService) : Prop where
  taken : ∀ delta ∈ deltas, ∀ op ∈ delta.services,
    (delta.Accepted now before → op.entry now (before op.serviceId) = .ok (after op.serviceId)) ∧
      (¬ delta.Accepted now before → after op.serviceId = before op.serviceId)
  others : ∀ id, (∀ delta ∈ deltas, id ∉ delta.services.map ServiceDelta.serviceId) →
    after id = before id

variable {now : ℤ} {services : List LogicalService}

theorem filter_serviceId {operations : List ServiceDelta}
    (h : (operations.map ServiceDelta.serviceId).Nodup) {op : ServiceDelta}
    (hop : op ∈ operations) :
    (operations.filter fun other => other.serviceId = op.serviceId) = [op] := by
  induction operations with
  | nil => cases hop
  | cons _ _ ih =>
    rw [map_cons, nodup_cons, mem_map, not_exists] at h
    rcases mem_cons.mp hop with rfl | hop
    · rw [filter_cons_of_pos (by simp), filter_eq_nil_iff.mpr]
      exact fun other hother => by simpa using fun heq => h.1 other ⟨hother, heq⟩
    · rw [filter_cons_of_neg (by simpa using fun heq => h.1 op ⟨hop, heq.symm⟩), ih h.2 hop]

section Delta

variable {delta : StateDelta} (hops : ∀ op ∈ delta.services, op.Keyed)
  (hnodup : (delta.services.map ServiceDelta.serviceId).Nodup)

include hops hnodup

theorem applyIfValid_success_iff : (applyIfValid now services delta).success = true ↔
      delta.Accepted now (serviceMap services).get := by
  have hspec := (applyDelta_spec now services hops).2
  rw [applyIfValid, StateDelta.Accepted, ← List.isEmpty_iff]
  split_ifs with hvalid
  · rw [and_iff_right hvalid]
    constructor
    · intro hsuccess op hop
      have hleads := (hspec _).mp ⟨hsuccess, rfl⟩ op.serviceId
      rw [filter_serviceId hnodup hop] at hleads
      obtain ⟨v, hv, -⟩ := hleads
      exact ⟨v, hv⟩
    · intro hentries
      have hleads : ∀ id, ∃ v, Leads now ((serviceMap services).get id)
          (delta.services.filter fun op => op.serviceId = id) v := by
        intro id
        by_cases hid : ∃ op ∈ delta.services, op.serviceId = id
        · obtain ⟨op, hop, rfl⟩ := hid
          obtain ⟨v, hv⟩ := hentries op hop
          rw [filter_serviceId hnodup hop]
          exact ⟨v, v, hv, rfl⟩
        · rw [filter_eq_nil_iff.mpr fun op hop heq => hid ⟨op, hop, of_decide_eq_true heq⟩]
          exact ⟨_, rfl⟩
      choose after hafter using hleads
      exact ((hspec after).mpr hafter).1
  · exact iff_of_false not_false fun h => hvalid h.1

theorem afterDelta_outcome (hservices : UniqueIds services) :
    UniqueIds (afterDelta now services delta) ∧ DeltasOutcome now [delta] (serviceMap services).get
        (serviceMap (afterDelta now services delta)).get := by
  have hiff : _ ↔ delta.Accepted now (serviceMap services).get :=
    applyIfValid_success_iff hops hnodup
  rw [afterDelta]
  split_ifs with hsuccess
  · have hacc := hiff.mp hsuccess
    rw [applyIfValid, if_pos (List.isEmpty_iff.mpr hacc.1)] at hsuccess ⊢
    obtain ⟨hunique, hspec⟩ := applyDelta_spec now services hops
    have hleads := (hspec _).mp ⟨hsuccess, rfl⟩
    refine ⟨hunique, ?_, ?_⟩
    · simp only [mem_singleton, forall_eq]
      refine fun op hop => ⟨fun _ => ?_, fun hnot => absurd hacc hnot⟩
      have hop' := hleads op.serviceId
      rw [filter_serviceId hnodup hop] at hop'
      obtain ⟨v, hv, rfl⟩ := hop'
      exact hv
    · simp only [mem_singleton, forall_eq]
      intro id hid
      have hsame := hleads id
      rw [filter_eq_nil_iff.mpr fun op hop heq =>
        hid (mem_map.mpr ⟨op, hop, of_decide_eq_true heq⟩)] at hsame
      exact hsame.symm
  · refine ⟨hservices, ?_, fun _ _ => rfl⟩
    simp only [mem_singleton, forall_eq]
    exact fun op _ => ⟨fun h => absurd (hiff.mpr h) hsuccess, fun _ => trivial⟩

end Delta

/-- **Deltas about different services are independent**: each is taken over if it is accepted at
the start. -/
theorem applyDeltas_outcome : (deltas : List StateDelta) → (services : List LogicalService) →
    UniqueIds services → (∀ delta ∈ deltas, ∀ op ∈ delta.services, op.Keyed) →
    ((deltas.flatMap StateDelta.services).map ServiceDelta.serviceId).Nodup →
    UniqueIds (applyDeltas now services deltas).1 ∧
      DeltasOutcome now deltas (serviceMap services).get
        (serviceMap (applyDeltas now services deltas).1).get ∧
      ((applyDeltas now services deltas).2.all DeltaApplicationResult.success = true ↔
        ∀ delta ∈ deltas, delta.Accepted now (serviceMap services).get)
  | [], services, hservices, _, _ => ⟨hservices, ⟨nofun, fun _ _ => rfl⟩, by simp [applyDeltas]⟩
  | delta :: deltas, services, hservices, hops, hnodup => by
    rw [flatMap_cons, map_append, nodup_append] at hnodup
    obtain ⟨hfirst, hrest, hdisjoint⟩ := hnodup
    have hone : UniqueIds (afterDelta now services delta) ∧ _ :=
      afterDelta_outcome (hops delta mem_cons_self) hfirst hservices
    obtain ⟨hunique, hstep⟩ := hone
    obtain ⟨hunique', ih, hsuccess⟩ := applyDeltas_outcome deltas _ hunique
      (fun d hd => hops d (mem_cons_of_mem _ hd)) hrest
    have hlater : ∀ d ∈ deltas, ∀ op ∈ d.services,
        op.serviceId ∉ delta.services.map ServiceDelta.serviceId := fun d hd op hop hmem =>
      hdisjoint _ hmem _ (mem_map.mpr ⟨op, mem_flatMap.mpr ⟨d, hd, hop⟩, rfl⟩) rfl
    -- The first delta leaves the entries of the later ones.
    have hkept : ∀ d ∈ deltas, ∀ op ∈ d.services,
        (serviceMap (afterDelta now services delta)).get op.serviceId =
          (serviceMap services).get op.serviceId := fun d hd op hop =>
      hstep.others _ (by simpa using hlater d hd op hop)
    have haccepted : ∀ d ∈ deltas,
        (d.Accepted now (serviceMap (afterDelta now services delta)).get ↔
          d.Accepted now (serviceMap services).get) := fun d hd =>
      and_congr_right fun _ => forall₂_congr fun op hop => by rw [hkept d hd op hop]
    have hsame : ∀ op ∈ delta.services,
        (serviceMap (applyDeltas now services (delta :: deltas)).1).get op.serviceId =
          (serviceMap (afterDelta now services delta)).get op.serviceId := fun op hop =>
      ih.others _ fun d hd hmem => by
        obtain ⟨other, hother, heq⟩ := mem_map.mp hmem
        exact hlater d hd other hother (heq ▸ mem_map.mpr ⟨op, hop, rfl⟩)
    refine ⟨hunique', ⟨forall_mem_cons.mpr ⟨fun op hop => ?_, fun d hd op hop => ?_⟩, ?_⟩, ?_⟩
    · rw [hsame op hop]
      exact hstep.taken delta mem_cons_self op hop
    · rw [← haccepted d hd, ← hkept d hd op hop]
      exact ih.taken d hd op hop
    · intro id hid
      rw [forall_mem_cons] at hid
      exact (ih.others id hid.2).trans (hstep.others id (by simpa using hid.1))
    · rw [applyDeltas, all_cons, Bool.and_eq_true, hsuccess, forall_mem_cons,
        applyIfValid_success_iff (hops delta mem_cons_self) hfirst]
      exact and_congr_right fun _ => forall₂_congr haccepted

end DistributedCore.Cluster
