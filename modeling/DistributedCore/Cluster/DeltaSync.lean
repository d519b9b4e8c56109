import DistributedCore.Cluster.MerkleRoot
import DistributedCore.Cluster.StateDelta

/-!
# Sessions that bring a peer up to date

A node starts a session with the fingerprint of a peer: it compares the fingerprint with its own,
and generates the deltas that the peer then applies to its services.

Source: `src/cluster/delta-sync/DeltaSync.ts`, `src/cluster/delta-sync/StateDelta.ts`.
-/

namespace DistributedCore.Cluster

open FingerprintGenerator StateDeltaManager List ServiceDelta Except
open Option hiding guard map map_map mem_map

def applyIncomingDeltas (now : ℤ) (currentServices : List LogicalService)
    (deltas : List StateDelta) : DeltaApplicationResult :=
  let sortedDeltas := deltas.insertionSort fun a b => a.sequenceNumber ≤ b.sequenceNumber
  let (currentState, allResults) := applyDeltas now currentServices sortedDeltas
  { success := allResults.all DeltaApplicationResult.success
    appliedOperations := (allResults.map DeltaApplicationResult.appliedOperations).sum
    failedOperations := allResults.flatMap DeltaApplicationResult.failedOperations
    conflicts := allResults.flatMap DeltaApplicationResult.conflicts
    resultingServices := currentState }

/-! ### The operations of a comparison -/

namespace StateDeltaManager

variable {manager : StateDeltaManager} {now now' : ℤ} {localServices : List LogicalService}
  {x y : StateFingerprint} {comparison : FingerprintComparison}
  {sourceNodeId sourceFingerprint : String} {targetNodeId : Option String} {op : ServiceDelta}
  {delta : StateDelta}

theorem mem_allOperations_iff : op ∈ manager.allOperations localServices (compareFingerprints x y) ↔
      x.rootHash ≠ y.rootHash ∧
        ((x.serviceHashes.get op.serviceId = none ∧ y.serviceHashes.get op.serviceId ≠ none ∧
            ∃ service, (serviceMap localServices).get op.serviceId = some service ∧
              op = manager.addOperation service op.serviceId) ∨
          (x.serviceHashes.get op.serviceId ≠ none ∧ y.serviceHashes.get op.serviceId ≠ none ∧
            x.serviceHashes.get op.serviceId ≠ y.serviceHashes.get op.serviceId ∧
            ∃ service, (serviceMap localServices).get op.serviceId = some service ∧
              op = manager.modifyOperation service op.serviceId) ∨
          (x.serviceHashes.get op.serviceId ≠ none ∧ y.serviceHashes.get op.serviceId = none ∧
            op = deleteOperation op.serviceId)) := by
  simp only [allOperations, mem_append, mem_filterMap, mem_map, mem_addedServices,
    mem_modifiedServices, mem_removedServices, map_eq_some_iff]
  constructor
  · rintro ((⟨id, ⟨hroot, hx, hy⟩, service, hget, rfl⟩ | ⟨id, ⟨hroot, hx, hy, hne⟩, service, hget,
      rfl⟩) | ⟨id, ⟨hroot, hx, hy⟩, rfl⟩)
    · exact ⟨hroot, .inl ⟨hx, hy, service, hget, rfl⟩⟩
    · exact ⟨hroot, .inr (.inl ⟨hx, hy, hne, service, hget, rfl⟩)⟩
    · exact ⟨hroot, .inr (.inr ⟨hx, hy, rfl⟩)⟩
  · rintro ⟨hroot, ⟨hx, hy, service, hget, hop⟩ | ⟨hx, hy, hne, service, hget, hop⟩ | ⟨hx, hy, hop⟩⟩
    · exact .inl (.inl ⟨_, ⟨hroot, hx, hy⟩, service, hget, hop.symm⟩)
    · exact .inl (.inr ⟨_, ⟨hroot, hx, hy, hne⟩, service, hget, hop.symm⟩)
    · exact .inr ⟨_, ⟨hroot, hx, hy⟩, hop.symm⟩

theorem nodup_allOperations : ((manager.allOperations localServices (compareFingerprints x y)).map
      serviceId).Nodup := by
  have hmap : ∀ (f : LogicalService → String → ServiceDelta) (l : List String),
      (∀ service id, (f service id).serviceId = id) →
        (l.filterMap fun id => ((serviceMap localServices).get id).map fun service =>
          f service id).map serviceId = l.filter fun id => (serviceMap localServices).has id := by
    intro f l hf
    rw [map_filterMap, ← filterMap_eq_filter]
    refine filterMap_congr fun id _ => ?_
    cases hget : (serviceMap localServices).get id <;>
      simp [OrderedMap.has, hget, Option.guard, hf]
  rw [allOperations, map_append, map_append, hmap _ _ fun _ _ => rfl, hmap _ _ fun _ _ => rfl,
    map_map, nodup_append, nodup_append]
  refine ⟨⟨nodup_addedServices.filter _, nodup_modifiedServices.filter _, ?_⟩,
    nodup_removedServices.map fun _ _ h => h, ?_⟩
  · rintro id hid _ hid' rfl
    exact (mem_modifiedServices.mp (mem_filter.mp hid').1).2.1
      (mem_addedServices.mp (mem_filter.mp hid).1).2.1
  · rintro id hid _ hid' rfl
    obtain ⟨_, hremoved, rfl⟩ := mem_map.mp hid'
    obtain ⟨-, hx, hy⟩ := mem_removedServices.mp hremoved
    obtain hid | hid := mem_append.mp hid
    · exact hx (mem_addedServices.mp (mem_filter.mp hid).1).2.1
    · exact (mem_modifiedServices.mp (mem_filter.mp hid).1).2.2.1 hy

/-- An operation names the service that it carries, and one that deletes none carries data. -/
theorem keyed_of_mem_allOperations
    (h : op ∈ manager.allOperations localServices (compareFingerprints x y)) :
    op.Keyed ∧ (op.operation = .delete ∨ op.service.isSome ∨ op.patch.isSome) := by
  have hdata : ∀ {op : ServiceDelta} {service : LogicalService} {patch : ServicePatch},
      (serviceMap localServices).get op.serviceId = some service →
      op.service = (if manager.config.includeFullServices then some service else none) →
      op.patch = (if manager.config.includeFullServices then none else some patch) →
        op.Keyed ∧ (op.operation = .delete ∨ op.service.isSome ∨ op.patch.isSome) := by
    intro op service patch hget hservice hpatch
    rw [ServiceDelta.Keyed, hservice, hpatch]
    split_ifs
    · refine ⟨?_, .inr (.inl rfl)⟩
      rintro _ ⟨⟩
      exact keyedMap_serviceMap localServices _ _ hget
    · exact ⟨nofun, .inr (.inr rfl)⟩
  obtain ⟨-, ⟨-, -, service, hget, hop⟩ | ⟨-, -, -, service, hget, hop⟩ | ⟨-, -, hop⟩⟩ :=
    mem_allOperations_iff.mp h
  · exact hdata hget (congrArg ServiceDelta.service hop) (congrArg ServiceDelta.patch hop)
  · exact hdata hget (congrArg ServiceDelta.service hop) (congrArg ServiceDelta.patch hop)
  · refine ⟨?_, .inl (congrArg ServiceDelta.operation hop)⟩
    rw [hop]
    exact nofun

theorem flatMap_services_generateDelta :
    (manager.generateDelta now localServices comparison sourceNodeId sourceFingerprint
      targetNodeId).flatMap StateDelta.services =
      manager.allOperations localServices comparison := by
  rw [flatMap_def]
  refine Eq.trans (congrArg List.flatten ?_)
    (flatten_chunks manager.config.maxDeltaSize_pos _ _ le_rfl)
  exact ext_getElem (by simp [generateDelta]) (by simp [generateDelta])

theorem of_mem_generateDelta
    (h : delta ∈ manager.generateDelta now localServices comparison sourceNodeId sourceFingerprint
      targetNodeId) :
    delta.id ≠ "" ∧ delta.sourceNodeId = sourceNodeId ∧
      delta.sourceFingerprint = sourceFingerprint ∧ delta.services ≠ [] := by
  obtain ⟨i, hi, rfl⟩ := mem_mapIdx.mp h
  refine ⟨fun hid => ?_, rfl, rfl,
    ne_nil_of_mem_chunks manager.config.maxDeltaSize_pos _ _ (getElem_mem hi)⟩
  have := congrArg String.length hid
  simp at this

theorem mem_allOperations_iff_exists : op ∈ manager.allOperations localServices comparison ↔
      ∃ delta ∈ manager.generateDelta now localServices comparison sourceNodeId sourceFingerprint
        targetNodeId, op ∈ delta.services := by rw [← flatMap_services_generateDelta, mem_flatMap]

variable {before : String → Option LogicalService}

theorem accepted_iff
    (h : delta ∈ manager.generateDelta now localServices (compareFingerprints x y) sourceNodeId
      sourceFingerprint targetNodeId) :
    delta.Accepted now' before ↔ sourceNodeId ≠ "" ∧ sourceFingerprint ≠ "" ∧
      ∀ op ∈ delta.services, op.serviceId ≠ "" ∧
        ∃ v, op.entry now' (before op.serviceId) = .ok v := by
  obtain ⟨hid, hsource, hfingerprint, hne⟩ := of_mem_generateDelta h
  have hdata : ∀ op ∈ delta.services,
      op.operation = .delete ∨ op.service.isSome ∨ op.patch.isSome := fun op hop =>
    (keyed_of_mem_allOperations (mem_allOperations_iff_exists.mpr ⟨delta, h, hop⟩)).2
  rw [StateDelta.Accepted, validateDelta_eq_nil_iff, hsource, hfingerprint]
  constructor
  · rintro ⟨⟨-, hnode, hroot, -, hids⟩, hentries⟩
    exact ⟨hnode, hroot, fun op hop => ⟨(hids op hop).1, hentries op hop⟩⟩
  · rintro ⟨hnode, hroot, hops⟩
    exact ⟨⟨hid, hnode, hroot, hne, fun op hop => ⟨(hops op hop).1, hdata op hop⟩⟩,
      fun op hop => (hops op hop).2⟩

theorem forall_accepted_iff :
    (∀ delta ∈ manager.generateDelta now localServices (compareFingerprints x y) sourceNodeId
        sourceFingerprint targetNodeId, delta.Accepted now' before) ↔
      ∀ op ∈ manager.allOperations localServices (compareFingerprints x y), op.serviceId ≠ "" ∧
        (∃ v, op.entry now' (before op.serviceId) = .ok v) ∧
        sourceNodeId ≠ "" ∧ sourceFingerprint ≠ "" := by
  refine ⟨fun h op hop => ?_, fun h delta hdelta => (accepted_iff hdelta).mpr ?_⟩
  · obtain ⟨delta, hdelta, hmem⟩ := mem_allOperations_iff_exists.mp hop
    obtain ⟨hnode, hfingerprint, hops⟩ := (accepted_iff hdelta).mp (h delta hdelta)
    exact ⟨(hops op hmem).1, (hops op hmem).2, hnode, hfingerprint⟩
  · have hops := fun op hop => h op (mem_allOperations_iff_exists.mpr ⟨delta, hdelta, hop⟩)
    obtain ⟨op, hop⟩ := exists_mem_of_ne_nil _ (of_mem_generateDelta hdelta).2.2.2
    exact ⟨(hops op hop).2.2.1, (hops op hop).2.2.2, fun op hop =>
      ⟨(hops op hop).1, (hops op hop).2.1⟩⟩

/-- **Deltas that were generated for a comparison** concern different services. -/
theorem applyIncomingDeltas_outcome {services : List LogicalService} {deltas : List StateDelta}
    (hdeltas : deltas = manager.generateDelta now localServices (compareFingerprints x y)
      sourceNodeId sourceFingerprint targetNodeId) (h : UniqueIds services) :
    UniqueIds (applyIncomingDeltas now' services deltas).resultingServices ∧
      DeltasOutcome now' deltas (serviceMap services).get
        (serviceMap (applyIncomingDeltas now' services deltas).resultingServices).get ∧
      ((applyIncomingDeltas now' services deltas).success = true ↔
        ∀ delta ∈ deltas, delta.Accepted now' (serviceMap services).get) := by
  subst hdeltas
  have hperm := perm_insertionSort (fun a b : StateDelta => a.sequenceNumber ≤ b.sequenceNumber)
    (manager.generateDelta now localServices (compareFingerprints x y) sourceNodeId
      sourceFingerprint targetNodeId)
  have hrun : UniqueIds (applyDeltas now' services _).1 ∧ _ := applyDeltas_outcome _ services h
    (fun delta hdelta op hop => (keyed_of_mem_allOperations
      (mem_allOperations_iff_exists.mpr ⟨delta, hperm.mem_iff.mp hdelta, hop⟩)).1)
    (((hperm.flatMap_right _).map _).nodup_iff.mpr
      (flatMap_services_generateDelta ▸ nodup_allOperations))
  obtain ⟨hunique, hout, hsuccess⟩ := hrun
  refine ⟨hunique, ⟨?_, ?_⟩, hsuccess.trans ?_⟩
  · exact fun delta hdelta => hout.taken delta (hperm.mem_iff.mpr hdelta)
  · exact fun id hid => hout.others id fun delta hdelta => hid delta (hperm.mem_iff.mp hdelta)
  · exact forall_congr' fun delta => imp_congr_left hperm.mem_iff

variable (service existing : LogicalService)

def previousVersion : ℤ :=
  if service.version = 0 then 0 else service.version - 1

/-- What a peer with the service `existing` makes of the service of the node: the service itself,
or its own service with the statistics, metadata and clocks of both. -/
def arriving (manager : StateDeltaManager) (service existing : LogicalService) : LogicalService :=
  if manager.config.includeFullServices then service
  else
    { existing with
      stats := existing.stats.spread service.stats
      metadata := existing.metadata.spread service.metadata
      lastUpdated := service.lastUpdated
      vectorClock := existing.vectorClock.spread service.vectorClock
      version := service.version }

theorem entry_modifyOperation (id : String) :
    (manager.modifyOperation service id).entry now (some existing) =
      if existing.version = previousVersion service then
        .ok (some (manager.arriving service existing))
      else .error ⟨id, .version, some (previousVersion service), some existing.version,
        "Version conflict during modification"⟩ := by
  have hversion : (some (previousVersion service)).isSome ∧
      some (previousVersion service) ≠ some existing.version ↔
        ¬ existing.version = previousVersion service := by
    simp [eq_comm]
  change (if (some (previousVersion service)).isSome ∧
      some (previousVersion service) ≠ some existing.version then _ else _) = _
  rw [if_congr hversion rfl rfl, ite_not, modifyOperation, arriving]
  cases manager.config.includeFullServices <;> rfl

end StateDeltaManager

/-- The generator of fingerprints and the manager of deltas. -/
structure DeltaSyncEngine where
  fingerprintGenerator : FingerprintGenerator
  deltaManager : StateDeltaManager

structure SyncSessionConfig where
  nodeId : String
  targetNodeId : String

structure SyncSession where
  fingerprintComparison : FingerprintComparison
  generatedDeltas : List StateDelta

def DeltaSyncEngine.startSyncSession (engine : DeltaSyncEngine) (now : ℤ)
    (localServices : List LogicalService) (remoteFingerprint : StateFingerprint)
    (config : SyncSessionConfig) : SyncSession :=
  let localFingerprint := engine.fingerprintGenerator.generateServiceFingerprint localServices
  let comparison := compareFingerprints localFingerprint remoteFingerprint
  { fingerprintComparison := comparison
    generatedDeltas :=
      if comparison.identical then []
      else engine.deltaManager.generateDelta now localServices comparison config.nodeId
        localFingerprint.rootHash (some config.targetNodeId) }

namespace DeltaSyncEngine

section Session

variable (engine : DeltaSyncEngine) (now : ℤ) (L R : List LogicalService)
  (config : SyncSessionConfig)

abbrev fingerprint (services : List LogicalService) : StateFingerprint :=
  engine.fingerprintGenerator.generateServiceFingerprint services

abbrev hash (service : LogicalService) : String := engine.fingerprintGenerator.hashService service

abbrev sessionDeltas : List StateDelta :=
  (engine.startSyncSession now L (engine.fingerprint R) config).generatedDeltas

abbrev operations : List ServiceDelta :=
  engine.deltaManager.allOperations L
    (compareFingerprints (engine.fingerprint L) (engine.fingerprint R))

/-- Both nodes know the same services. Every service in which they differ is one version behind at
the peer, and what arrives there has the hash of the service of the node; the ids in the deltas are
not empty, and the root hashes do not collide. -/
def OneBehind : Prop :=
  (∀ id, id ∈ L.map LogicalService.id ↔ id ∈ R.map LogicalService.id) ∧
  ∀ l ∈ L, ∀ r ∈ R, l.id = r.id → engine.hash l ≠ engine.hash r →
    r.version = StateDeltaManager.previousVersion l ∧
    engine.hash (engine.deltaManager.arriving l r) = engine.hash l ∧
    config.nodeId ≠ "" ∧ l.id ≠ "" ∧
    (engine.fingerprint L).rootHash ≠ (engine.fingerprint R).rootHash

variable {engine now L R config} {op : ServiceDelta} {id : String}

/-- The deltas of a session carry the operations of the comparison; fingerprints with equal root
hashes give no operation. -/
theorem sessionDeltas_eq :
    engine.sessionDeltas now L R config = engine.deltaManager.generateDelta now L
      (compareFingerprints (engine.fingerprint L) (engine.fingerprint R)) config.nodeId
      (engine.fingerprint L).rootHash (some config.targetNodeId) := by
  by_cases hroot : (engine.fingerprint L).rootHash = (engine.fingerprint R).rootHash
  · have hcmp : compareFingerprints (engine.fingerprint L) (engine.fingerprint R) =
        ⟨true, [], [], []⟩ := if_pos hroot
    simp only [sessionDeltas, startSyncSession, hcmp, if_true]
    rfl
  · have hcmp : (compareFingerprints (engine.fingerprint L) (engine.fingerprint R)).identical =
        false := by
      rw [compareFingerprints, if_neg hroot]
    simp [sessionDeltas, startSyncSession, hcmp]

section Outcome

variable (hL : UniqueIds L) (hR : UniqueIds R)

include hL hR

/-- The operations of a comparison. None of them adds a service: the additions are looked up in the
list of the node. -/
theorem mem_operations_iff :
    op ∈ engine.operations L R ↔ (engine.fingerprint L).rootHash ≠ (engine.fingerprint R).rootHash ∧
      ((∃ l r, (serviceMap L).get op.serviceId = some l ∧ (serviceMap R).get op.serviceId = some r ∧
          engine.hash l ≠ engine.hash r ∧ op = engine.deltaManager.modifyOperation l op.serviceId) ∨
        (serviceMap L).get op.serviceId ≠ none ∧ (serviceMap R).get op.serviceId = none ∧
          op = deleteOperation op.serviceId) := by
  rw [operations, mem_allOperations_iff, get_serviceHashes hL, get_serviceHashes hR]
  cases (serviceMap L).get op.serviceId <;> cases (serviceMap R).get op.serviceId <;> simp

theorem oneBehind_iff : engine.OneBehind L R config ↔
    ∀ id, ((serviceMap L).get id = none ↔ (serviceMap R).get id = none) ∧
      ∀ l r, (serviceMap L).get id = some l → (serviceMap R).get id = some r →
        engine.hash l ≠ engine.hash r → r.version = previousVersion l ∧
        engine.hash (engine.deltaManager.arriving l r) = engine.hash l ∧ config.nodeId ≠ "" ∧
        id ≠ "" ∧ (engine.fingerprint L).rootHash ≠ (engine.fingerprint R).rootHash := by
  simp only [get_serviceMap_eq_none_iff hL, get_serviceMap_eq_none_iff hR, get_serviceMap_iff hL,
    get_serviceMap_iff hR, not_iff_not]
  rw [forall_and]
  refine and_congr_right fun _ => ⟨?_, fun h l hl r hr hid => h l.id l r ⟨hl, rfl⟩ ⟨hr, hid.symm⟩⟩
  rintro h _ l r ⟨hl, rfl⟩ ⟨hr, hid⟩
  exact h l hl r hr hid.symm

variable {now' : ℤ} {after : String → Option LogicalService}
  (hout : DeltasOutcome now' (engine.sessionDeltas now L R config) (serviceMap R).get after)

include hout

/-- A service is kept, or replaced by what arrives from the node if the delta of a modification is
accepted. -/
theorem after_cases (id : String) : after id = (serviceMap R).get id ∨
    ∃ l r, (serviceMap L).get id = some l ∧ (serviceMap R).get id = some r ∧
      engine.hash l ≠ engine.hash r ∧ r.version = previousVersion l ∧
      after id = some (engine.deltaManager.arriving l r) ∧ config.nodeId ≠ "" ∧ id ≠ "" ∧
      (engine.fingerprint L).rootHash ≠ (engine.fingerprint R).rootHash := by
  by_cases hid : ∃ delta ∈ engine.sessionDeltas now L R config, id ∈ delta.services.map
      serviceId
  swap
  · exact .inl (hout.others id fun delta hdelta hmem => hid ⟨delta, hdelta, hmem⟩)
  obtain ⟨delta, hdelta, hmem⟩ := hid
  obtain ⟨op, hop, rfl⟩ := mem_map.mp hmem
  by_cases hacc : delta.Accepted now' (serviceMap R).get
  swap
  · exact .inl ((hout.taken delta hdelta op hop).2 hacc)
  have hentry := (hout.taken delta hdelta op hop).1 hacc
  rw [sessionDeltas_eq] at hdelta
  obtain ⟨hnode, -, hids⟩ := (accepted_iff hdelta).mp hacc
  have hempty := (hids op hop).1
  obtain ⟨hroot, ⟨l, r, hl, hr, hne, hop⟩ | ⟨-, hr, hop⟩⟩ := (mem_operations_iff hL hR).mp
    (mem_allOperations_iff_exists.mpr ⟨delta, hdelta, hop⟩)
  · rw [hr, hop, entry_modifyOperation, ← hop] at hentry
    split_ifs at hentry with hversion
    exact .inr ⟨l, r, hl, hr, hne, hversion, (ok.inj hentry).symm, hnode, hempty, hroot⟩
  -- The peer does not have the service that it is told to delete.
  · rw [hop] at hentry
    exact .inl (hr ▸ hop ▸ (ok.inj hentry).symm)

theorem OneBehind.after_eq (h : engine.OneBehind L R config) {l r : LogicalService}
    (hl : (serviceMap L).get id = some l) (hr : (serviceMap R).get id = some r)
    (hne : engine.hash l ≠ engine.hash r) :
    after id = some (engine.deltaManager.arriving l r) := by
  rw [oneBehind_iff hL hR] at h
  have hready := fun {id l r} hl hr hne => (h id).2 l r hl hr hne
  have hacc : ∀ delta ∈ engine.sessionDeltas now L R config,
      delta.Accepted now' (serviceMap R).get := by
    rw [sessionDeltas_eq]
    refine forall_accepted_iff.mpr fun op hop => ?_
    obtain ⟨-, ⟨l, r, hl, hr, hne, hop⟩ | ⟨hl, hr, -⟩⟩ := (mem_operations_iff hL hR).mp hop
    · obtain ⟨hversion, -, hnode, hempty, -⟩ := hready hl hr hne
      refine ⟨hempty, ⟨some (engine.deltaManager.arriving l r), ?_⟩, hnode, rootHash_ne⟩
      rw [hr, hop, entry_modifyOperation, if_pos hversion]
    · exact absurd ((h _).1.mpr hr) hl
  obtain ⟨hversion, -, -, -, hroot⟩ := hready hl hr hne
  have hop : engine.deltaManager.modifyOperation l id ∈ engine.operations L R :=
    (mem_operations_iff hL hR).mpr ⟨hroot, .inl ⟨l, r, hl, hr, hne, rfl⟩⟩
  obtain ⟨delta, hdelta, hmem⟩ := mem_allOperations_iff_exists.mp hop
  rw [← sessionDeltas_eq] at hdelta
  have hentry : (engine.deltaManager.modifyOperation l id).entry now' ((serviceMap R).get id) =
    .ok (after id) := (hout.taken delta hdelta _ hmem).1 (hacc delta hdelta)
  rw [hr, entry_modifyOperation, if_pos hversion] at hentry
  exact (ok.inj hentry).symm

end Outcome

/-- **The peer gets the fingerprint of the node** exactly if both know the same services and every
service in which they differ is one version behind at the peer. -/
theorem sync_converges_iff (engine : DeltaSyncEngine) (now now' : ℤ) (config : SyncSessionConfig)
    (hL : UniqueIds L) (hR : UniqueIds R) :
    engine.fingerprint (applyIncomingDeltas now' R
        (engine.startSyncSession now L (engine.fingerprint R) config).generatedDeltas
      ).resultingServices = engine.fingerprint L ↔ engine.OneBehind L R config := by
  have hrun : UniqueIds (applyIncomingDeltas now' R
      (engine.sessionDeltas now L R config)).resultingServices ∧ _ :=
    applyIncomingDeltas_outcome sessionDeltas_eq hR
  obtain ⟨hunique, hout, -⟩ := hrun
  rw [fingerprint_eq_iff hunique hL]
  generalize (serviceMap (applyIncomingDeltas now' R
    (engine.sessionDeltas now L R config)).resultingServices).get = after at hout ⊢
  constructor
  · refine fun heq => (oneBehind_iff hL hR).mpr fun id => ⟨?_, fun l r hl hr hne => ?_⟩
    · rw [← map_eq_none_iff, ← heq id, map_eq_none_iff]
      rcases after_cases hL hR hout id with hafter | ⟨l, r, -, hr, -, -, hafter, -⟩
      · rw [hafter]
      · simp [hafter, hr]
    · have hhash := heq id
      rcases after_cases hL hR hout id with hafter |
        ⟨l', r', hl', hr', -, hversion, hafter, hnode, hempty, hroot⟩
      · rw [hafter, hl, hr] at hhash
        exact absurd (some.inj hhash).symm hne
      · cases hl.symm.trans hl'
        cases hr.symm.trans hr'
        rw [hafter, hl] at hhash
        exact ⟨hversion, some.inj hhash, hnode, hempty, hroot⟩
  · intro h id
    obtain ⟨hnone, hready⟩ := (oneBehind_iff hL hR).mp h id
    rcases after_cases hL hR hout id with hafter | ⟨l, r, hl, hr, hne, -, hafter, -⟩
    · cases hl : (serviceMap L).get id with
      | none => rw [hafter, hnone.mp hl]
      | some l =>
        obtain ⟨r, hr⟩ := ne_none_iff_exists'.mp (mt hnone.mpr (by simp [hl]))
        by_cases hne : engine.hash l = engine.hash r
        · rw [hafter, hr]
          exact congrArg some hne.symm
        · rw [h.after_eq hL hR hout hl hr hne]
          exact congrArg some (hready l r hl hr hne).2.1
    · rw [hafter, hl]
      exact congrArg some (hready l r hl hr hne).2.1

end Session

/-! ### Deltas that bring a node to the services of another one -/

section RoundTrip

variable (engine : DeltaSyncEngine) (A B : List LogicalService)

/-- The operations for the services of `B`, found by a comparison with those of `A`. -/
abbrev operationsTo : List ServiceDelta :=
  engine.deltaManager.allOperations B
    (compareFingerprints (engine.fingerprint A) (engine.fingerprint B))

abbrev hashMap (services : List LogicalService) : String → Option String :=
  engine.fingerprintGenerator.hashMap services

/-- A service that is modified has one version less in `A` than in `B`. -/
def OneVersionLess : Prop :=
  ∀ id a b, (serviceMap A).get id = some a → (serviceMap B).get id = some b →
    engine.hash a ≠ engine.hash b → a.version = b.version - 1

variable {engine A B} {id : String}

theorem hashMap_ne_iff {a b : LogicalService} (ha : (serviceMap A).get id = some a)
    (hb : (serviceMap B).get id = some b) :
    engine.hashMap A id ≠ engine.hashMap B id ↔ engine.hash a ≠ engine.hash b := by
  rw [hashMap, hashMap, FingerprintGenerator.hashMap, FingerprintGenerator.hashMap, ha, hb,
    map_some, map_some, Ne, some.injEq]

variable {now now' : ℤ} {op : ServiceDelta} (hA : UniqueIds A) (hB : UniqueIds B)

include hA hB

theorem exists_mem_operationsTo
    (hroot : (engine.fingerprint A).rootHash ≠ (engine.fingerprint B).rootHash)
    (hne : engine.hashMap A id ≠ engine.hashMap B id) :
    ∃ op ∈ engine.operationsTo A B, op.serviceId = id := by
  have hne' : (engine.fingerprint A).serviceHashes.get id ≠
      (engine.fingerprint B).serviceHashes.get id := by
    rwa [get_serviceHashes hA, get_serviceHashes hB]
  have hnone : (engine.fingerprint B).serviceHashes.get id = none ↔
      (serviceMap B).get id = none := by
    rw [get_serviceHashes hB, map_eq_none_iff]
  cases hb : (serviceMap B).get id with
  | none =>
    have hy := hnone.mpr hb
    exact ⟨deleteOperation id,
      mem_allOperations_iff.mpr ⟨hroot, .inr (.inr ⟨hy ▸ hne', hy, rfl⟩)⟩, rfl⟩
  | some b =>
    have hy := mt hnone.mp (hb ▸ some_ne_none b)
    by_cases hx : (engine.fingerprint A).serviceHashes.get id = none
    · exact ⟨engine.deltaManager.addOperation b id,
        mem_allOperations_iff.mpr ⟨hroot, .inl ⟨hx, hy, b, hb, rfl⟩⟩, rfl⟩
    · exact ⟨engine.deltaManager.modifyOperation b id,
        mem_allOperations_iff.mpr ⟨hroot, .inr (.inl ⟨hx, hy, hne', b, hb, rfl⟩)⟩, rfl⟩

variable (hversions : ∀ service ∈ B, 0 < service.version)
  (hfull : engine.deltaManager.config.includeFullServices = true)

include hversions hfull

variable (now') in
theorem entry_of_mem_operationsTo (hop : op ∈ engine.operationsTo A B) :
    engine.hashMap A op.serviceId ≠ engine.hashMap B op.serviceId ∧
      (∀ v, op.entry now' ((serviceMap A).get op.serviceId) = .ok v →
        v = (serviceMap B).get op.serviceId) ∧
      ((∃ v, op.entry now' ((serviceMap A).get op.serviceId) = .ok v) ↔
        ∀ a b, (serviceMap A).get op.serviceId = some a → (serviceMap B).get op.serviceId = some b →
          a.version = b.version - 1) := by
  obtain ⟨-, hcases⟩ := mem_allOperations_iff.mp hop
  simp only [get_serviceHashes hA, get_serviceHashes hB, ne_eq, map_eq_none_iff] at hcases
  generalize op.serviceId = id at hcases ⊢
  obtain ⟨ha, -, b, hb, rfl⟩ | ⟨ha, -, hne, b, hb, rfl⟩ | ⟨ha, hb, rfl⟩ := hcases
  · have hentry : (engine.deltaManager.addOperation b id).entry now' none = .ok (some b) := by
      simp [entry, addOperation, hfull]
    rw [hashMap, hashMap, FingerprintGenerator.hashMap, FingerprintGenerator.hashMap, ha, hb,
      hentry]
    refine ⟨by simp, ?_, iff_of_true ⟨_, rfl⟩ (by simp)⟩
    rintro _ ⟨⟩
    rfl
  · obtain ⟨a, ha⟩ := ne_none_iff_exists'.mp ha
    have hprevious : previousVersion b = b.version - 1 :=
      if_neg (hversions b ((get_serviceMap_iff hB).mp hb).1).ne'
    rw [ha, hb, entry_modifyOperation, hprevious, arriving, if_pos hfull]
    refine ⟨hne, fun v hv => ?_, ?_⟩
    · split_ifs at hv
      exact (ok.inj hv).symm
    · split_ifs with hversion
      · refine iff_of_true ⟨_, rfl⟩ ?_
        rintro _ _ ⟨⟩ ⟨⟩
        exact hversion
      · exact iff_of_false (by simp) fun h => hversion (h a b rfl rfl)
  · rw [hb]
    refine ⟨?_, ?_, iff_of_true ⟨_, rfl⟩ (by simp)⟩
    · rw [hashMap, hashMap, FingerprintGenerator.hashMap, FingerprintGenerator.hashMap, hb]
      simpa using ha
    · rintro _ ⟨⟩
      rfl

/-- **A node gets the hashes of another one** from the deltas that were generated for the
difference exactly if every modified service is one version behind, and no delta is invalid. -/
theorem generated_deltas_succeed_iff (hhex : engine.fingerprintGenerator.HexDigests)
    (hfree : engine.fingerprintGenerator.CollisionFree A B)
    {sourceNodeId sourceFingerprint : String} {targetNodeId : Option String}
    {deltas : List StateDelta}
    (hdeltas : deltas = engine.deltaManager.generateDelta now B
      (compareFingerprints (engine.fingerprint A) (engine.fingerprint B)) sourceNodeId
      sourceFingerprint targetNodeId) :
    ((applyIncomingDeltas now' A deltas).success = true ↔ engine.OneVersionLess A B ∧
        ∀ id, engine.hashMap A id ≠ engine.hashMap B id →
          id ≠ "" ∧ sourceNodeId ≠ "" ∧ sourceFingerprint ≠ "") ∧
      ((applyIncomingDeltas now' A deltas).success = true →
        (engine.fingerprint (applyIncomingDeltas now' A deltas).resultingServices).serviceHashes =
          (engine.fingerprint B).serviceHashes) := by
  have hrun : UniqueIds (applyIncomingDeltas now' A deltas).resultingServices ∧ _ :=
    applyIncomingDeltas_outcome hdeltas hA
  obtain ⟨hunique, hout, hsuccess⟩ := hrun
  subst hdeltas
  have hexists : ∀ {id}, engine.hashMap A id ≠ engine.hashMap B id →
      ∃ op ∈ engine.operationsTo A B, op.serviceId = id := fun hne =>
    exists_mem_operationsTo hA hB (fun heq => hne ((rootHash_eq_iff hhex hfree hA hB).mp heq _)) hne
  have hentry := fun op (hop : op ∈ engine.operationsTo A B) =>
    entry_of_mem_operationsTo now' hA hB hversions hfull hop
  refine ⟨(hsuccess.trans forall_accepted_iff).trans
    ⟨fun h => ⟨fun id a b ha hb hne => ?_, fun id hne => ?_⟩, fun h op hop => ?_⟩, fun h => ?_⟩
  · obtain ⟨op, hop, rfl⟩ := hexists ((hashMap_ne_iff ha hb).mpr hne)
    exact (hentry op hop).2.2.mp (h op hop).2.1 a b ha hb
  · obtain ⟨op, hop, rfl⟩ := hexists hne
    exact ⟨(h op hop).1, (h op hop).2.2⟩
  · obtain ⟨hne, -, hok⟩ := hentry op hop
    exact ⟨(h.2 _ hne).1, hok.mpr fun a b ha hb =>
      h.1 _ a b ha hb ((hashMap_ne_iff ha hb).mp hne), (h.2 _ hne).2⟩
  · refine congrArg StateFingerprint.serviceHashes
      ((fingerprint_eq_iff hunique hB).mpr fun id => ?_)
    by_cases hne : engine.hashMap A id = engine.hashMap B id
    · rw [hout.others id]
      · exact hne
      · intro delta hdelta hmem
        obtain ⟨op, hop, rfl⟩ := mem_map.mp hmem
        exact (hentry op (mem_allOperations_iff_exists.mpr ⟨delta, hdelta, hop⟩)).1 hne
    · obtain ⟨op, hop, rfl⟩ := hexists hne
      obtain ⟨delta, hdelta, hmem⟩ := mem_allOperations_iff_exists.mp hop
      rw [(hentry op hop).2.1 _ ((hout.taken delta hdelta op hmem).1 (hsuccess.mp h delta hdelta))]

end RoundTrip

def markingEngine : DeltaSyncEngine := ⟨marking, ⟨⟨100, marking.config.chunkSize_pos, true⟩, 0⟩⟩

/-- A delta with a service that has no name is refused. -/
theorem unnamed_service_refused :
    ¬ ∀ (engine : DeltaSyncEngine) (now now' : ℤ) (A B : List LogicalService)
        (sourceNodeId : String) (targetNodeId : Option String), UniqueIds A → UniqueIds B →
      (∀ service ∈ A ++ B, 0 < service.version) →
      engine.deltaManager.config.includeFullServices = true →
      engine.fingerprintGenerator.HexDigests → engine.fingerprintGenerator.CollisionFree A B →
      sourceNodeId ≠ "" → ∀ deltas, deltas = engine.deltaManager.generateDelta now B
        (compareFingerprints (engine.fingerprint A) (engine.fingerprint B)) sourceNodeId
        (engine.fingerprint B).rootHash targetNodeId →
      ((applyIncomingDeltas now' A deltas).success = true ↔ engine.OneVersionLess A B) ∧
      ((applyIncomingDeltas now' A deltas).success = true →
        (engine.fingerprint (applyIncomingDeltas now' A deltas).resultingServices).serviceHashes =
          (engine.fingerprint B).serviceHashes) := by
  intro h
  have hsuccess := (h markingEngine 0 0 [] [markedService "" ""] "node-1" none (by decide)
    (by decide) (by decide) rfl hexDigests_marking (collisionFree_marking _) (by decide) _
    rfl).1.mpr (fun _ _ _ => nofun)
  revert hsuccess
  decide +kernel

def oldServices : List LogicalService := [markedService "a" ""]

/-- The service has a new version, and there is another one. -/
def newServices : List LogicalService :=
  [{ markedService "a" "*" with version := 2 }, markedService "b" "+"]

theorem collisionFree_newServices : marking.CollisionFree oldServices newServices := by
  have hnew : marking.hashedTexts newServices =
      newServices.map (fun service => (marking.serviceData service).stringify) ++
        ["14".toList] := by
    change _ :: _ :: _ :: marking.treeTexts [_] = _
    rw [treeTexts]
    decide +kernel
  have hnodup : ((marking.hashedTexts oldServices ++ marking.hashedTexts newServices).map
      marking.digest).Nodup := by
    rw [hnew]
    decide +kernel
  exact fun text h text' h' =>
    inj_on_of_nodup_map hnodup (mem_append.mpr h) (mem_append.mpr h')

def changedDeltas : List StateDelta :=
  markingEngine.deltaManager.generateDelta 0 newServices
    (compareFingerprints (markingEngine.fingerprint oldServices)
      (markingEngine.fingerprint newServices)) "node-1" "root" none

theorem changedDeltas_succeed : (applyIncomingDeltas 0 oldServices changedDeltas).success = true ∧
      (markingEngine.fingerprint (applyIncomingDeltas 0 oldServices changedDeltas).resultingServices
        ).serviceHashes = (markingEngine.fingerprint newServices).serviceHashes := by
  have hfull : markingEngine.deltaManager.config.includeFullServices = true := rfl
  have hresult : ((applyIncomingDeltas 0 oldServices changedDeltas).success = true ↔ _) ∧ _ :=
    generated_deltas_succeed_iff (by decide) (by decide) (by decide) hfull hexDigests_marking
      collisionFree_newServices rfl
  obtain ⟨hiff, hhashes⟩ := hresult
  have hsuccess := hiff.mpr ⟨fun id a b ha hb _ => ?_, fun id hne => ⟨?_, by decide, by decide⟩⟩
  · exact ⟨hsuccess, hhashes hsuccess⟩
  · obtain ⟨hmem, rfl⟩ := (get_serviceMap_iff (by decide)).mp ha
    obtain rfl := mem_singleton.mp hmem
    cases hb
    rfl
  · rintro rfl
    exact hne rfl

/-! ### Sessions of two nodes -/

def quoting : DeltaSyncEngine where
  fingerprintGenerator :=
    { marking with
      config := ⟨false, true, true, 100, marking.config.chunkSize_pos⟩
      digest := fun text => "'" ++ String.ofList text
      digest_ne := fun text h => by simpa using congrArg String.length h }
  deltaManager := ⟨⟨100, marking.config.chunkSize_pos, true⟩, 0⟩

def cacheService (version : ℤ) : LogicalService :=
  ⟨"cache", "cache", "node-1", none, .empty, .empty, 0, .empty, version, "sum", none⟩

/-- A service that only the node knows does not reach the peer. -/
theorem sync_diverges : ¬ ∀ (engine : DeltaSyncEngine) (now now' : ℤ) (config : SyncSessionConfig)
        (L R : List LogicalService), UniqueIds L → UniqueIds R →
      (∀ l ∈ L, ∀ r ∈ R, l.id = r.id → r.version ≤ l.version) →
      engine.fingerprint (applyIncomingDeltas now' R
          (engine.startSyncSession now L (engine.fingerprint R) config).generatedDeltas
        ).resultingServices = engine.fingerprint L := by
  intro h
  have hcount := congrArg StateFingerprint.serviceCount
    (h quoting 0 0 ⟨"node-1", "node-2"⟩ [cacheService 1] [] (by decide) (by decide) (by simp))
  revert hcount
  decide +kernel

theorem sync_converges_cacheService :
    quoting.OneBehind [cacheService 2] [cacheService 1] ⟨"node-1", "node-2"⟩ ∧
      quoting.fingerprint (applyIncomingDeltas 0 [cacheService 1]
          (quoting.startSyncSession 0 [cacheService 2] (quoting.fingerprint [cacheService 1])
            ⟨"node-1", "node-2"⟩).generatedDeltas).resultingServices =
        quoting.fingerprint [cacheService 2] := by
  have hbehind : quoting.OneBehind [cacheService 2] [cacheService 1] ⟨"node-1", "node-2"⟩ := by
    refine ⟨fun id => Iff.rfl, ?_⟩
    simp only [mem_singleton, forall_eq]
    intro _ _
    decide +kernel
  exact ⟨hbehind, (sync_converges_iff quoting 0 0 _ (by decide) (by decide)).mpr hbehind⟩

end DeltaSyncEngine

end DistributedCore.Cluster
