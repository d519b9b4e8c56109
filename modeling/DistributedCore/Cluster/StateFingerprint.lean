import DistributedCore.Library.Json
import Mathlib.Data.List.Sort
import Mathlib.Data.String.Basic

/-!
# Fingerprints of the services of a node

The services that a node knows are summarised by a fingerprint: the hash of every service, and a
root hash that is computed from these hashes in the order of the ids of the services, as in a
Merkle tree. Two nodes compare their fingerprints to find the services in which they differ.

Source: `src/cluster/delta-sync/StateFingerprint.ts`,
`src/cluster/introspection/ClusterIntrospection.ts`.
-/

namespace DistributedCore.Cluster

open OrderedMap List
open Option hiding map map_map mem_map

/-- A service. Its numbers and metadata are JSON data unless other types are given. -/
structure LogicalService (S : Type := JsonNumber) (V : Type := Json) (C : Type := ℤ) where
  id : String
  type : String
  nodeId : String
  rangeId : Option String
  metadata : OrderedMap String V
  stats : OrderedMap String S
  lastUpdated : ℤ
  vectorClock : OrderedMap String C
  version : ℤ
  checksum : String
  conflictPolicy : Option String

mutual

def sortObject : Json → Json
  | .array items => .array (sortItems items)
  | .object fields => .object ((sortFields fields).insertionSort fun a b => a.1 ≤ b.1)
  | v => v

def sortItems : List Json → List Json
  | [] => []
  | v :: items => sortObject v :: sortItems items

def sortFields : List (String × Json) → List (String × Json)
  | [] => []
  | (k, v) :: fields => (k, sortObject v) :: sortFields fields

end

/-- The fields that a fingerprint covers, and the size of a chunk. -/
structure FingerprintConfig where
  includeTimestamps : Bool
  includeMetadata : Bool
  includeStats : Bool
  /-- The number of services of a leaf of the Merkle tree. -/
  chunkSize : ℕ
  /-- The loop over the chunks ends. -/
  chunkSize_pos : 0 < chunkSize

/-- A generator of fingerprints, with the hash function and the order that it takes from its
environment. -/
structure FingerprintGenerator where
  config : FingerprintConfig
  digest : List Char → String
  digest_ne : ∀ text, digest text ≠ ""
  /-- `a.localeCompare(b) <= 0` -/
  localeLe : String → String → Bool
  localeLe_trans : ∀ a b c, localeLe a b → localeLe b c → localeLe a c
  localeLe_total : ∀ a b, localeLe a b ∨ localeLe b a
  localeLe_antisymm : ∀ a b, localeLe a b → localeLe b a → a = b

/-- A hash for each service, and the root of the tree over them. -/
structure StateFingerprint where
  rootHash : String
  serviceHashes : OrderedMap String String
  serviceCount : ℕ

def chunks {B : Type*} (n : ℕ) : ℕ → List B → List (List B)
  | 0, _ => []
  | _ + 1, [] => []
  | rounds + 1, b :: l => (b :: l).take n :: chunks n rounds ((b :: l).drop n)

theorem flatten_chunks {B : Type*} {n : ℕ} (hn : 0 < n) :
    (rounds : ℕ) → (l : List B) → l.length ≤ rounds → (chunks n rounds l).flatten = l
  | 0, [], _ => rfl
  | _ + 1, [], _ => rfl
  | rounds + 1, b :: l, h => by
    rw [chunks, flatten_cons, flatten_chunks hn rounds _ (by
      rw [length_drop]
      rw [length_cons] at h ⊢
      omega), take_append_drop]

theorem ne_nil_of_mem_chunks {B : Type*} {n : ℕ} (hn : 0 < n) {chunk : List B} :
    (rounds : ℕ) → (l : List B) → chunk ∈ chunks n rounds l → chunk ≠ []
  | rounds + 1, b :: l, h => by
    rw [chunks, mem_cons] at h
    obtain rfl | h := h
    · simp [hn.ne']
    · exact ne_nil_of_mem_chunks hn rounds _ h

namespace FingerprintGenerator

variable (g : FingerprintGenerator)

def serviceData (service : LogicalService) : Json :=
  .object <|
    [("id", .string service.id), ("type", .string service.type),
      ("nodeId", .string service.nodeId)] ++
    (if g.config.includeMetadata then
      [("metadata", sortObject (.object service.metadata.entries))] else []) ++
    (if g.config.includeStats then
      [("stats", sortObject (.object (service.stats.entries.map fun p => (p.1, .number p.2))))]
      else []) ++
    (if g.config.includeTimestamps then
      [("lastUpdated", .number (.ofInt service.lastUpdated))] else []) ++
    [("version", .number (.ofInt service.version)), ("vectorClock", sortObject (.object
        (service.vectorClock.entries.map fun p => (p.1, .number (.ofInt p.2))))),
      ("checksum", .string service.checksum)]

def hashService (service : LogicalService) : String := g.digest (g.serviceData service).stringify

def hashString (input : String) : String := g.digest input.toList

def nextLevel : List String → List String
  | [] => []
  | [left] => [g.hashString (left ++ left)]
  | left :: right :: nodes => g.hashString (left ++ right) :: nextLevel nodes

theorem length_nextLevel : (nodes : List String) →
    (g.nextLevel nodes).length = (nodes.length + 1) / 2
  | [] => rfl
  | [_] => by simp [nextLevel]
  | _ :: _ :: nodes => by
    rw [nextLevel, length_cons, length_nextLevel nodes, length_cons, length_cons]
    omega

def buildTreeLevel (nodes : List String) : String :=
  match nodes with
  | [] => ""
  | [root] => root
  | left :: right :: nodes => buildTreeLevel (g.nextLevel (left :: right :: nodes))
termination_by nodes.length
decreasing_by
  rw [g.length_nextLevel, length_cons, length_cons]
  omega

def merkleRoot (hashes : List String) : String :=
  match hashes with
  | [] => g.hashString ""
  | [hash] => hash
  | hashes => g.buildTreeLevel
      ((chunks g.config.chunkSize hashes.length hashes).map fun chunk =>
        g.hashString (String.join chunk))

/-- The order of `sort((a, b) => a.id.localeCompare(b.id))`. -/
abbrev ById (a b : LogicalService) : Prop := g.localeLe a.id b.id = true

instance totalById : Std.Total g.ById := ⟨fun _ _ => g.localeLe_total _ _⟩

instance isTransById : IsTrans LogicalService g.ById := ⟨fun _ _ _ => g.localeLe_trans _ _ _⟩

def generateServiceFingerprint (services : List LogicalService) : StateFingerprint :=
  let sortedServices := services.insertionSort g.ById
  { rootHash := g.merkleRoot (sortedServices.map g.hashService)
    serviceHashes := sortedServices.foldl (fun m service =>
      m.set service.id (g.hashService service)) .empty
    serviceCount := sortedServices.length }

end FingerprintGenerator

/-- The services that only one side has, and those whose hashes differ. -/
structure FingerprintComparison where
  identical : Bool
  addedServices : List String
  removedServices : List String
  modifiedServices : List String

/-- `compareFingerprints`: what is added is in the remote fingerprint only, and what is removed is
in the local one only. -/
def compareFingerprints (loc remote : StateFingerprint) : FingerprintComparison :=
  if loc.rootHash = remote.rootHash then ⟨true, [], [], []⟩
  else
    { identical := false
      addedServices := remote.serviceHashes.keys.filter fun id => !loc.serviceHashes.has id
      removedServices := loc.serviceHashes.keys.filter fun id => !remote.serviceHashes.has id
      modifiedServices := (remote.serviceHashes.entries.filter fun p =>
        loc.serviceHashes.has p.1 && loc.serviceHashes.get p.1 ≠ some p.2).map Prod.fst }

/-! ### Equal fingerprints -/

variable (services : List LogicalService) {id : String}

def serviceMap : OrderedMap String LogicalService :=
  services.foldl (fun m service => m.set service.id service) .empty

/-- No two services have the same id. -/
def UniqueIds : Prop := (services.map LogicalService.id).Nodup

instance decidableUniqueIds : Decidable (UniqueIds services) :=
  inferInstanceAs (Decidable (services.map LogicalService.id).Nodup)

theorem get_serviceMap_iff {services : List LogicalService} {service : LogicalService}
    (h : UniqueIds services) :
    (serviceMap services).get id = some service ↔ service ∈ services ∧ service.id = id := by
  rw [serviceMap, get_foldl_set_eq_some_iff LogicalService.id (fun s => s) h]
  constructor
  · rintro ⟨_, hmem, hid, rfl⟩
    exact ⟨hmem, hid⟩
  · rintro ⟨hmem, hid⟩
    exact ⟨service, hmem, hid, rfl⟩

theorem get_serviceMap_eq_none_iff {services : List LogicalService} (h : UniqueIds services) :
    (serviceMap services).get id = none ↔ id ∉ services.map LogicalService.id := by
  rw [eq_none_iff_forall_ne_some, mem_map, not_exists]
  exact forall_congr' fun service => not_congr (get_serviceMap_iff h)

namespace FingerprintGenerator

variable {g : FingerprintGenerator} {services services' : List LogicalService}

section

variable (h : UniqueIds services)

include h

theorem uniqueIds_sort : UniqueIds (services.insertionSort g.ById) :=
  ((perm_insertionSort g.ById services).map _).nodup_iff.mpr h

theorem get_serviceHashes (id : String) :
    (g.generateServiceFingerprint services).serviceHashes.get id =
      ((serviceMap services).get id).map g.hashService := by
  refine ext fun hash => ?_
  rw [generateServiceFingerprint,
    get_foldl_set_eq_some_iff LogicalService.id g.hashService (uniqueIds_sort h),
    map_eq_some_iff]
  simp only [get_serviceMap_iff h, (perm_insertionSort g.ById services).mem_iff, and_assoc]

theorem sorted_pairs_eq (h' : UniqueIds services')
    (heq : ∀ id, ((serviceMap services).get id).map g.hashService =
      ((serviceMap services').get id).map g.hashService) :
    (services.insertionSort g.ById).map (fun s => (s.id, g.hashService s)) =
      (services'.insertionSort g.ById).map fun s => (s.id, g.hashService s) := by
  have hnodup : ∀ {l : List LogicalService}, UniqueIds l →
      (l.map fun s => (s.id, g.hashService s)).Nodup := fun {l} hl =>
    List.Nodup.of_map Prod.fst (by rwa [map_map])
  have hmem : ∀ {l : List LogicalService}, UniqueIds l → ∀ p : String × String,
      p ∈ (l.insertionSort g.ById).map (fun s => (s.id, g.hashService s)) ↔
        ((serviceMap l).get p.1).map g.hashService = some p.2 := by
    intro l hl p
    simp only [mem_map, (perm_insertionSort g.ById l).mem_iff, map_eq_some_iff,
      get_serviceMap_iff hl, Prod.ext_iff, and_assoc]
  have hsorted : ∀ l : List LogicalService,
      ((l.insertionSort g.ById).map fun s => (s.id, g.hashService s)).Pairwise
        fun p q => g.localeLe p.1 q.1 = true := fun l =>
    pairwise_map.mpr (pairwise_insertionSort g.ById l)
  refine List.Perm.eq_of_pairwise (fun p q hp hq hpq hqp => ?_) (hsorted services)
    (hsorted services') ?_
  · have hid := g.localeLe_antisymm _ _ hpq hqp
    have hp' := (hmem h p).mp hp
    rw [heq, hid, (hmem h' q).mp hq] at hp'
    exact Prod.ext hid (some.inj hp').symm
  · refine (perm_ext_iff_of_nodup (hnodup (uniqueIds_sort h)) (hnodup (uniqueIds_sort h'))).mpr
      fun p => ?_
    rw [hmem h, hmem h', heq]

/-- **Fingerprints are equal** exactly if they hold the same hash for every id. -/
theorem fingerprint_eq_iff (h' : UniqueIds services') :
    g.generateServiceFingerprint services = g.generateServiceFingerprint services' ↔
      ∀ id, ((serviceMap services).get id).map g.hashService =
        ((serviceMap services').get id).map g.hashService := by
  constructor
  · intro heq id
    rw [← get_serviceHashes h, ← get_serviceHashes h', heq]
  · intro heq
    have hpairs := sorted_pairs_eq h h' heq
    have hhashes : (services.insertionSort g.ById).map g.hashService =
        (services'.insertionSort g.ById).map g.hashService := by
      have := congrArg (List.map Prod.snd) hpairs
      rwa [map_map, map_map] at this
    have hfold : ∀ l : List LogicalService,
        l.foldl (fun m s => m.set s.id (g.hashService s)) OrderedMap.empty =
          (l.map fun s => (s.id, g.hashService s)).foldl (fun m p => m.set p.1 p.2) .empty :=
      fun l => by rw [foldl_map]
    have hlength := congrArg List.length hpairs
    rw [length_map, length_map] at hlength
    simp [generateServiceFingerprint, hhashes, hlength, hfold, hpairs]

end

theorem nextLevel_ne_nil {nodes : List String} (h : nodes ≠ []) : g.nextLevel nodes ≠ [] := by
  intro hnil
  have hlength := g.length_nextLevel nodes
  rw [hnil, length_nil] at hlength
  have := length_pos_iff.mpr h
  omega

theorem ne_of_mem_nextLevel {node : String} : (nodes : List String) → node ∈ g.nextLevel nodes →
    node ≠ ""
  | [], h => by simp [nextLevel] at h
  | [_], h => by
    rw [nextLevel, mem_singleton] at h
    exact h ▸ g.digest_ne _
  | _ :: _ :: nodes, h => by
    rw [nextLevel, mem_cons] at h
    obtain rfl | h := h
    · exact g.digest_ne _
    · exact ne_of_mem_nextLevel nodes h

theorem buildTreeLevel_ne (nodes : List String) (hnodes : nodes ≠ [])
    (hne : ∀ node ∈ nodes, node ≠ "") : g.buildTreeLevel nodes ≠ "" := by
  fun_induction buildTreeLevel g nodes with
  | case1 => exact absurd rfl hnodes
  | case2 root => exact hne root mem_cons_self
  | case3 _ _ _ ih =>
    exact ih (nextLevel_ne_nil (cons_ne_nil _ _)) fun _ h => ne_of_mem_nextLevel _ h

theorem rootHash_ne : (g.generateServiceFingerprint services).rootHash ≠ "" := by
  change g.merkleRoot _ ≠ ""
  obtain _ | ⟨first, _ | ⟨second, rest⟩⟩ := services.insertionSort g.ById
  · exact g.digest_ne _
  · exact g.digest_ne _
  · refine buildTreeLevel_ne _ (cons_ne_nil _ _) fun node hnode => ?_
    obtain ⟨chunk, _, rfl⟩ := mem_map.mp hnode
    exact g.digest_ne _

end FingerprintGenerator

/-! ### What a comparison finds -/

variable {loc remote : StateFingerprint} {id : String}

theorem mem_addedServices :
    id ∈ (compareFingerprints loc remote).addedServices ↔ loc.rootHash ≠ remote.rootHash ∧
      loc.serviceHashes.get id = none ∧ remote.serviceHashes.get id ≠ none := by
  rw [compareFingerprints]
  split_ifs with hroot
  · simp [hroot]
  · simp [mem_keys_iff, ← ne_none_iff_exists', has_eq_false_iff, hroot, and_comm]

theorem mem_removedServices :
    id ∈ (compareFingerprints loc remote).removedServices ↔ loc.rootHash ≠ remote.rootHash ∧
      loc.serviceHashes.get id ≠ none ∧ remote.serviceHashes.get id = none := by
  rw [compareFingerprints]
  split_ifs with hroot
  · simp [hroot]
  · simp [mem_keys_iff, ← ne_none_iff_exists', has_eq_false_iff, hroot]

theorem mem_modifiedServices :
    id ∈ (compareFingerprints loc remote).modifiedServices ↔ loc.rootHash ≠ remote.rootHash ∧
      loc.serviceHashes.get id ≠ none ∧ remote.serviceHashes.get id ≠ none ∧
        loc.serviceHashes.get id ≠ remote.serviceHashes.get id := by
  rw [compareFingerprints]
  split_ifs with hroot
  · simp [hroot]
  · simp only [mem_map, mem_filter, Prod.exists, exists_and_right, exists_eq_right,
      mem_entries_iff, Bool.and_eq_true, has_iff, ← ne_none_iff_exists',
      decide_eq_true_eq, ne_eq, hroot, not_false_eq_true, true_and]
    constructor
    · rintro ⟨hash, hremote, hloc, hne⟩
      simp [hremote, hloc, hne]
    · rintro ⟨hloc, hremote, hne⟩
      obtain ⟨hash, hash_eq⟩ := ne_none_iff_exists'.mp hremote
      exact ⟨hash, hash_eq, hloc, hash_eq ▸ hne⟩

theorem nodup_modifiedServices : (compareFingerprints loc remote).modifiedServices.Nodup := by
  rw [compareFingerprints]
  split_ifs
  · exact nodup_nil
  · exact remote.serviceHashes.nodup_keys.sublist (filter_sublist.map _)

theorem nodup_addedServices : (compareFingerprints loc remote).addedServices.Nodup := by
  rw [compareFingerprints]
  split_ifs
  · exact nodup_nil
  · exact remote.serviceHashes.nodup_keys.filter _

theorem nodup_removedServices : (compareFingerprints loc remote).removedServices.Nodup := by
  rw [compareFingerprints]
  split_ifs
  · exact nodup_nil
  · exact loc.serviceHashes.nodup_keys.filter _

end DistributedCore.Cluster
