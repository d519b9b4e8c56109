import DistributedCore.Cluster.MembershipTable
import DistributedCore.Locks.QuorumLock
import Mathlib.Data.List.Sort

/-!
# Quorums of a divided cluster

`ClusterQuorum` and `ConsensusQuorumStrategy` decide from the membership table of a node whether it
may go on alone. When a cluster is divided, every node still lists all members, those of its own
group as alive and all others as dead. `hasQuorum` and `validateOperationQuorum` compare the alive
members with half of all members, rounded up, so the two halves of an even cluster both pass; the
second also looks at the zones, and stops a group that lies in a single zone. The consensus
strategy counts its majority among the members that are alive, so that every group passes.
`ZoneQuorumStrategy` counts all zones when it foresees the failure of some, also those with too few
members to be of use.

Source: `src/cluster/quorum/ClusterQuorum.ts`, `src/cluster/quorum/ConsensusQuorumStrategy.ts`,
`src/cluster/quorum/ZoneQuorumStrategy.ts`.
-/

namespace DistributedCore.Cluster

open OrderedMap List

structure NodeMetadata where
  role : Option String
  region : Option String
  zone : Option String
  service : Option String
  deriving DecidableEq

abbrev Member := MembershipEntry NodeMetadata

/-- The constraints that a caller of `hasQuorum` may set. -/
structure QuorumOptions where
  service : Option String := none
  requiredRegionCount : Option ℕ := none
  minNodeCount : Option ℕ := none

structure PartitionInfo where
  isPartitioned : Bool
  visibleNodes : ℕ
  totalNodes : ℕ
  /-- The partition type `'zone-based'`. -/
  zoneBased : Bool := false

structure OperationQuorum where
  canProceed : Bool
  reason : Option String
  availableNodes : ℕ
  requiredNodes : ℕ

def ceilHalf (count : ℕ) : ℕ := (count + 1) / 2

namespace ClusterQuorum

variable (t : MembershipTable NodeMetadata)

def getRequiredQuorumSize : ℕ := ceilHalf t.getAllMembers.length

def hasQuorum (opts : QuorumOptions) : Bool :=
  let aliveMembers := t.getAliveMembers
  let serves (service : String) (member : Member) : Bool :=
    member.metadata.any fun m => m.role = some service ∨ m.service = some service
  let regions := (aliveMembers.filterMap fun member => member.metadata.bind (·.region)).dedup
  if opts.minNodeCount.any (aliveMembers.length < ·) then false
  else if opts.service.any fun service => service ≠ "" ∧
      (aliveMembers.filter (serves service)).length < ceilHalf aliveMembers.length then false
  else if opts.requiredRegionCount.any (regions.length < ·) then false
  else getRequiredQuorumSize t ≤ aliveMembers.length

def zoneOf (member : Member) : String :=
  match member.metadata.bind (·.zone) with
  | some zone => if zone = "" then "unknown" else zone
  | none => "unknown"

def zones (members : List Member) : OrderedMap String ℕ :=
  members.foldl (fun zones member =>
    zones.set (zoneOf member) ((zones.get (zoneOf member)).getD 0 + 1)) .empty

/-- Too few members are alive, or the alive ones share a zone and some member is not alive. -/
def detectPartition : Option PartitionInfo :=
  let aliveMembers := t.getAliveMembers
  let totalMembers := t.getAllMembers.length
  if aliveMembers.length < ceilHalf totalMembers then
    some ⟨true, aliveMembers.length, totalMembers, false⟩
  else if (zones aliveMembers).keys.length = 1 ∧ totalMembers > aliveMembers.length then
    some ⟨true, aliveMembers.length, totalMembers, true⟩
  else none

def validateOperationQuorum (operation : String) (requiredNodes : Option ℕ) : OperationQuorum :=
  let available := t.getAliveMembers.length
  let required := match requiredNodes with
    | none | some 0 => getRequiredQuorumSize t
    | some required => required
  if available < required then
    { canProceed := false
      reason := some s!"Insufficient nodes for {operation}: need {required}, have {available}"
      availableNodes := available
      requiredNodes := required }
  else if (detectPartition t).any (·.isPartitioned) then
    { canProceed := false
      reason := some s!"Network partition detected: operation {operation} not safe"
      availableNodes := available
      requiredNodes := required }
  else ⟨true, none, available, required⟩

end ClusterQuorum

namespace ConsensusQuorumStrategy

inductive Algorithm
  | raft
  | pbft
  | paxos
  deriving DecidableEq

/-- The algorithm, with the number of faults that PBFT is to tolerate. -/
structure ConsensusQuorumOptions where
  algorithm : Algorithm
  byzantineFaultTolerance : Option ℕ := none

structure QuorumResult where
  hasQuorum : Bool
  requiredCount : ℕ
  currentCount : ℕ
  strategy : String

/-- Raft and Paxos need the same majority. -/
def evaluateMajority (strategy : String) (members : List Member) : QuorumResult :=
  let requiredCount := Locks.majority members.length
  ⟨requiredCount ≤ members.length, requiredCount, members.length, strategy⟩

variable (members : List Member)

def evaluateRaftQuorum : QuorumResult := evaluateMajority "consensus-raft" members

def evaluatePaxosQuorum : QuorumResult := evaluateMajority "consensus-paxos" members

def evaluatePBFTQuorum (options : ConsensusQuorumOptions) : QuorumResult :=
  let faults := match options.byzantineFaultTolerance with
    | none | some 0 => 1
    | some faults => faults
  let requiredCount := 2 * faults + 1
  { hasQuorum := requiredCount ≤ members.length ∧ 3 * faults + 1 ≤ members.length
    requiredCount := requiredCount
    currentCount := members.length
    strategy := "consensus-pbft" }

def evaluate (options : ConsensusQuorumOptions) : QuorumResult :=
  let aliveMembers := members.filter fun member => member.status = .alive
  match options.algorithm with
  | .raft => evaluateRaftQuorum aliveMembers
  | .pbft => evaluatePBFTQuorum aliveMembers options
  | .paxos => evaluatePaxosQuorum aliveMembers

end ConsensusQuorumStrategy

/-! ### A divided cluster -/

open ClusterQuorum ConsensusQuorumStrategy

/-- The members `M` are divided into groups, and the table of each of them lists all members, with
exactly its own group alive and the others dead. -/
structure Divided {G : Type} [DecidableEq G] (M : Finset String) (group : String → G)
    (zone : String → String) (tables : String → MembershipTable NodeMetadata) : Prop where
  lists : ∀ x ∈ M, ∀ id, id ∈ (tables x).members.keys ↔ id ∈ M
  status : ∀ x ∈ M, ∀ id member, (tables x).members.get id = some member →
    member.status = if group id = group x then .alive else .dead
  zoneOf : ∀ x ∈ M, ∀ id member, (tables x).members.get id = some member →
    ClusterQuorum.zoneOf member = zone id

section Divided

variable {G : Type} [DecidableEq G] {M : Finset String} {group : String → G}

/-- No two members of different groups pass. -/
def AtMostOneGroup (M : Finset String) (group : String → G) (passes : String → Prop) : Prop :=
  ∀ x ∈ M, ∀ y ∈ M, passes x → passes y → group x = group y

/-- The members that the node `x` reaches in a division of the cluster. -/
def groupOf (M : Finset String) (group : String → G) (x : String) : Finset String :=
  M.filter fun id => group id = group x

/-- The group of `x` is exactly half of the members. -/
def IsHalf (M : Finset String) (group : String → G) (x : String) : Prop :=
  2 * (groupOf M group x).card = M.card

/-- The group of `x` lies in the zone of `x`. -/
def InOneZone (M : Finset String) (group : String → G) (zone : String → String) (x : String) :
    Prop :=
  ∀ id ∈ groupOf M group x, zone id = zone x

/-- The values of a map that meet a condition, counted by their keys. -/
theorem length_filter_values {B : Type} {m : OrderedMap String B} {p : B → Bool} {S : Finset String}
    (h : ∀ id, id ∈ S ↔ ∃ v, m.get id = some v ∧ p v = true) :
    (m.values.filter p).length = S.card := by
  have hkeys : ((m.entries.filter fun e => p e.2).map Prod.fst).toFinset = S := by
    ext id
    simp [h, mem_entries_iff]
  rw [← hkeys, toFinset_card_of_nodup (m.nodup_keys.sublist (filter_sublist.map _)),
    OrderedMap.values, filter_map, length_map, length_map]
  rfl

/-- A loop that counts the members of each zone leaves a key for each zone. -/
theorem mem_keys_zones {members : List Member} {z : String} :
    z ∈ (zones members).keys ↔ ∃ member ∈ members, ClusterQuorum.zoneOf member = z := by
  suffices h : ∀ (l : List Member) (m : OrderedMap String ℕ),
      z ∈ (l.foldl (fun zones member => zones.set (ClusterQuorum.zoneOf member)
        ((zones.get (ClusterQuorum.zoneOf member)).getD 0 + 1)) m).keys ↔
        (∃ member ∈ l, ClusterQuorum.zoneOf member = z) ∨ z ∈ m.keys by
    simpa [zones, OrderedMap.keys, OrderedMap.empty] using h members .empty
  intro l
  induction l with
  | nil => simp
  | cons _ _ ih =>
    intro m
    rw [foldl_cons, ih, OrderedMap.keys, OrderedMap.set, mem_keys_setEntries]
    simp only [mem_cons, exists_eq_or_imp, OrderedMap.keys]
    grind

theorem mem_groupOf_self {x : String} (hx : x ∈ M) : x ∈ groupOf M group x :=
  Finset.mem_filter.mpr ⟨hx, rfl⟩

theorem card_groupOf_add_le {x y : String} (hne : group x ≠ group y) :
    (groupOf M group x).card + (groupOf M group y).card ≤ M.card := by
  have hdisjoint : Disjoint (groupOf M group x) (groupOf M group y) :=
    Finset.disjoint_filter.mpr fun _ _ hgx hgy => hne (hgx.symm.trans hgy)
  rw [← Finset.card_union_of_disjoint hdisjoint]
  exact Finset.card_le_card (Finset.union_subset (Finset.filter_subset _ _)
    (Finset.filter_subset _ _))

omit [DecidableEq G] in
theorem atMostOneGroup_iff {P Q : String → Prop}
    (hP : ∀ x ∈ M, ∀ y ∈ M, group x ≠ group y → P x → P y → Q x) (hQ : ∀ x ∈ M, Q x → P x) :
    AtMostOneGroup M group P ↔ AtMostOneGroup M group Q := by
  constructor
  · intro h x hx y hy hqx hqy
    exact h x hx y hy (hQ x hx hqx) (hQ y hy hqy)
  · intro h x hx y hy hpx hpy
    by_contra hne
    exact hne (h x hx y hy (hP x hx y hy hne hpx hpy) (hP y hy x hx (Ne.symm hne) hpy hpx))

variable {zone : String → String} {tables : String → MembershipTable NodeMetadata} {x : String}

namespace Divided

section

variable (h : Divided M group zone tables) (hx : x ∈ M)

include h hx

theorem length_getAllMembers : (tables x).getAllMembers.length = M.card := by
  have hcount : ((tables x).members.values.filter fun _ => true).length = M.card :=
    length_filter_values fun id => by simp [← h.lists x hx id, mem_keys_iff]
  rwa [filter_true] at hcount

/-- The members that a node takes for alive are those of its group. -/
theorem get_alive_iff (id : String) :
    id ∈ groupOf M group x ↔ ∃ member, (tables x).members.get id = some member ∧
      decide (member.status = .alive) = true := by
  rw [groupOf, Finset.mem_filter, ← h.lists x hx id, mem_keys_iff]
  constructor
  · rintro ⟨⟨member, hmember⟩, hgroup⟩
    exact ⟨member, hmember, by simp [h.status x hx id member hmember, hgroup]⟩
  · rintro ⟨member, hmember, halive⟩
    refine ⟨⟨member, hmember⟩, ?_⟩
    by_contra hgroup
    simp [h.status x hx id member hmember, hgroup] at halive

theorem length_getAliveMembers : (tables x).getAliveMembers.length = (groupOf M group x).card :=
  length_filter_values (h.get_alive_iff hx)

/-- The zones that a node counts are those of its group. -/
theorem length_zones_iff : (zones (tables x).getAliveMembers).keys.length = 1 ↔
      InOneZone M group zone x := by
  have hmem : ∀ z, z ∈ (zones (tables x).getAliveMembers).keys ↔
      ∃ id ∈ groupOf M group x, zone id = z := by
    intro z
    constructor
    · intro hz
      obtain ⟨member, hmember, rfl⟩ := mem_keys_zones.mp hz
      obtain ⟨hvalue, halive⟩ := mem_filter.mp hmember
      obtain ⟨id, hid⟩ := (mem_values_iff _ _).mp hvalue
      exact ⟨id, (h.get_alive_iff hx id).mpr ⟨member, hid, halive⟩,
        (h.zoneOf x hx id member hid).symm⟩
    · rintro ⟨id, hid, rfl⟩
      obtain ⟨member, hget, halive⟩ := (h.get_alive_iff hx id).mp hid
      exact mem_keys_zones.mpr ⟨member, mem_filter.mpr
        ⟨(mem_values_iff _ _).mpr ⟨id, hget⟩, halive⟩, h.zoneOf x hx id member hget⟩
  have hself : x ∈ groupOf M group x := mem_groupOf_self hx
  constructor
  · intro hone id hid
    obtain ⟨z, hz⟩ := length_eq_one_iff.mp hone
    simp only [hz, mem_singleton] at hmem
    exact ((hmem _).mpr ⟨id, hid, rfl⟩).trans ((hmem _).mpr ⟨x, hself, rfl⟩).symm
  · intro hzone
    have hkeys : (zones (tables x).getAliveMembers).keys.toFinset = {zone x} := by
      ext z
      rw [mem_toFinset, hmem, Finset.mem_singleton]
      exact ⟨fun ⟨id, hid, hz⟩ => hz ▸ hzone id hid, fun hz => ⟨x, hself, hz.symm⟩⟩
    have hnodup : (zones (tables x).getAliveMembers).keys.Nodup := nodup_keys _
    rw [← toFinset_card_of_nodup hnodup, hkeys, Finset.card_singleton]

theorem hasQuorum_iff : hasQuorum (tables x) {} = true ↔ M.card ≤ 2 * (groupOf M group x).card := by
  simp only [hasQuorum, Option.any_none, Bool.false_eq_true, if_false,
    getRequiredQuorumSize, ceilHalf, h.length_getAllMembers hx,
    h.length_getAliveMembers hx, decide_eq_true_eq]
  omega

theorem canProceed_iff (operation : String) :
    (validateOperationQuorum (tables x) operation none).canProceed = true ↔
      M.card ≤ 2 * (groupOf M group x).card ∧
        ¬ (InOneZone M group zone x ∧ (groupOf M group x).card < M.card) := by
  have hpartition : ((detectPartition (tables x)).any (·.isPartitioned)) = true ↔
      (groupOf M group x).card < ceilHalf M.card ∨
        InOneZone M group zone x ∧ (groupOf M group x).card < M.card := by
    rw [← h.length_zones_iff hx, detectPartition, h.length_getAllMembers hx,
      h.length_getAliveMembers hx]
    split_ifs with hfew hzone
    · simp [hfew]
    · simpa using .inr hzone
    · simpa using ⟨not_lt.mp hfew, fun hone => not_lt.mp fun hlt => hzone ⟨hone, hlt⟩⟩
  rw [validateOperationQuorum, getRequiredQuorumSize,
    h.length_getAllMembers hx, h.length_getAliveMembers hx]
  rw [ceilHalf] at hpartition ⊢
  split_ifs with hfew hany
  · exact iff_of_false (by simp) fun hboth => by omega
  · rw [hpartition] at hany
    exact iff_of_false (by simp) fun hboth => hboth.2 (hany.resolve_left hfew)
  · rw [hpartition, not_or] at hany
    exact iff_of_true rfl ⟨by omega, hany.2⟩

/-- The strategy counts its majority among the group, so the group always has it. -/
theorem evaluate_hasQuorum {options : ConsensusQuorumOptions} (hpbft : options.algorithm ≠ .pbft) :
    (evaluate (tables x).getAllMembers options).hasQuorum = true := by
  have hpos : 0 < (tables x).getAliveMembers.length := by
    rw [h.length_getAliveMembers hx]
    exact Finset.card_pos.mpr ⟨x, mem_groupOf_self hx⟩
  have hmajority : Locks.majority (tables x).getAliveMembers.length ≤
      (tables x).getAliveMembers.length := by
    rw [Locks.majority]
    omega
  obtain ⟨algorithm, faults⟩ := options
  cases algorithm with
  | raft | paxos => exact decide_eq_true hmajority
  | pbft => exact absurd rfl hpbft

end

end Divided

/-- **When a divided cluster has one side only.** At most one group has a quorum, if and only if
there are not two halves; at most one group may go on with an operation, if and only if there are
not two halves that each span several zones; and the consensus strategy lets all groups pass. -/
theorem noSplitBrain_iff (h : Divided M group zone tables) (operation : String) :
    (AtMostOneGroup M group (fun x => hasQuorum (tables x) {} = true) ↔
      AtMostOneGroup M group (IsHalf M group)) ∧
    (AtMostOneGroup M group (fun x =>
        (validateOperationQuorum (tables x) operation none).canProceed = true) ↔
      AtMostOneGroup M group fun x => IsHalf M group x ∧ ¬ InOneZone M group zone x) ∧
    ∀ options : ConsensusQuorumOptions, options.algorithm ≠ .pbft →
      (AtMostOneGroup M group (fun x =>
          (evaluate (tables x).getAllMembers options).hasQuorum = true) ↔
        AtMostOneGroup M group fun _ => True) := by
  refine ⟨atMostOneGroup_iff ?_ ?_, atMostOneGroup_iff ?_ ?_, fun options hpbft =>
    atMostOneGroup_iff (fun _ _ _ _ _ _ _ => trivial) fun x hx _ => h.evaluate_hasQuorum hx hpbft⟩
  · intro x hx y hy hne hpx hpy
    have hsum := card_groupOf_add_le (M := M) hne
    have hpx := (h.hasQuorum_iff hx).mp hpx
    have hpy := (h.hasQuorum_iff hy).mp hpy
    rw [IsHalf]
    omega
  · intro x hx hhalf
    exact (h.hasQuorum_iff hx).mpr hhalf.ge
  · intro x hx y hy hne hpx hpy
    have hsum := card_groupOf_add_le (M := M) hne
    have hpos : 0 < (groupOf M group y).card := Finset.card_pos.mpr ⟨y, mem_groupOf_self hy⟩
    obtain ⟨hpx, hzone⟩ := (h.canProceed_iff hx operation).mp hpx
    have hpy := ((h.canProceed_iff hy operation).mp hpy).1
    refine ⟨?_, fun hone => hzone ⟨hone, by omega⟩⟩
    rw [IsHalf]
    omega
  · rintro x hx ⟨hhalf, hzone⟩
    exact (h.canProceed_iff hx operation).mpr ⟨hhalf.ge, fun hone => hzone hone.1⟩

/-- The table of the node `x` after a division: the nodes of other groups are dead. -/
def divide (ids : List String) (group : String → ℕ) (zone : String → String) (x : String) :
    MembershipTable NodeMetadata where
  localNodeId := x
  members := ids.foldl (fun members id => members.set id
    { id := id
      status := if group id = group x then .alive else .dead
      lastSeen := 0
      version := 1
      metadata := some ⟨none, none, some (zone id), none⟩
      lastUpdated := 0 }) .empty
  version := 0

theorem divided_divide (ids : List String) (group : String → ℕ) {zone : String → String}
    (hzone : ∀ id, zone id ≠ "") : Divided ids.toFinset group zone (divide ids group zone) := by
  have hget : ∀ x id member, (divide ids group zone x).members.get id = some member ↔
      ∃ id' ∈ ids, id' = id ∧ _ = member := fun x id member =>
    get_foldl_set_eq_some_iff_of_agree (fun id => id) _ fun _ _ _ _ h => h ▸ rfl
  refine ⟨fun x _ id => ?_, fun x _ id member h => ?_, fun x _ id member h => ?_⟩
  · simp [mem_keys_iff, hget]
  · obtain ⟨_, -, rfl, rfl⟩ := (hget x id member).mp h
    rfl
  · obtain ⟨id', -, rfl, rfl⟩ := (hget x id member).mp h
    exact if_neg (hzone id')

/-- A cluster of three nodes, one of which is cut off. -/
theorem noSplitBrain_three :
    AtMostOneGroup ["a", "b", "c"].toFinset (fun id => if id = "c" then 1 else 0) (fun x =>
      hasQuorum (divide ["a", "b", "c"] (fun id => if id = "c" then 1 else 0)
        (fun id => id ++ "z") x) {} = true) :=
  (noSplitBrain_iff (divided_divide ["a", "b", "c"] _ fun id h => by simp at h) "write").1.mpr
    (by unfold AtMostOneGroup IsHalf; decide)

/-- The two halves of a cluster of four nodes in two zones: a node of each half has a quorum, may go
on with an operation, and has the majority that the consensus strategy asks for. -/
theorem splitBrain_four : ∃ group : String → ℕ, ∃ zone : String → String,
      Divided ["a", "b", "c", "d"].toFinset group zone (divide ["a", "b", "c", "d"] group zone) ∧
      group "a" ≠ group "c" ∧ ∀ x ∈ ["a", "c"],
        hasQuorum (divide ["a", "b", "c", "d"] group zone x) {} = true ∧
        (validateOperationQuorum (divide ["a", "b", "c", "d"] group zone x) "write"
          none).canProceed = true ∧
        ∀ algorithm ∈ [.raft, .paxos], (evaluate
          (divide ["a", "b", "c", "d"] group zone x).getAllMembers ⟨algorithm, none⟩).hasQuorum =
            true :=
  ⟨fun id => if id = "a" ∨ id = "b" then 0 else 1,
    fun id => if id = "a" ∨ id = "c" then "east" else "west",
    divided_divide _ _ (fun id => by split_ifs <;> decide), by decide, by decide⟩

end Divided

/-! ### Failing zones -/

namespace ZoneQuorumStrategy

structure ZoneQuorumOptions where
  requiredZones : ℕ
  minNodesPerZone : ℕ
  maxZoneFailures : ℕ

structure ZoneDistribution where
  validZones : List String
  hasRequiredZones : Bool
  hasMinNodesPerZone : Bool

def groupMembersByZone : List Member → OrderedMap String (List Member) :=
  groupBy zoneOf

variable (members : List Member) (options : ZoneQuorumOptions)
  (zoneGroups : OrderedMap String (List Member))

def evaluateZoneDistribution : ZoneDistribution :=
  let validZones := (zoneGroups.entries.filter fun e =>
    options.minNodesPerZone ≤ e.2.length).map Prod.fst
  { validZones := validZones
    hasRequiredZones := options.requiredZones ≤ validZones.length
    hasMinNodesPerZone := validZones.all fun zone =>
      options.minNodesPerZone ≤ ((zoneGroups.get zone).getD []).length }

def checkFaultTolerance : Bool :=
  let totalZones := zoneGroups.entries.length
  let zonesAfterFailures : ℤ := totalZones - options.maxZoneFailures
  let sortedZoneSizes := (zoneGroups.values.map length).insertionSort (· ≥ ·)
  -- a negative end of `slice` counts from the end of the array
  let stop := if 0 ≤ zonesAfterFailures then zonesAfterFailures else totalZones + zonesAfterFailures
  options.requiredZones ≤ zonesAfterFailures ∧
    zonesAfterFailures * options.minNodesPerZone ≤ (sortedZoneSizes.take stop.toNat).foldl Nat.add 0

def aliveMembers : List Member := members.filter fun member => member.status = .alive

def evaluate : QuorumResult :=
  let zoneGroups := groupMembersByZone (aliveMembers members)
  let zoneEvaluation := evaluateZoneDistribution options zoneGroups
  { hasQuorum := zoneEvaluation.hasRequiredZones && zoneEvaluation.hasMinNodesPerZone &&
      checkFaultTolerance options zoneGroups
    requiredCount := options.requiredZones * options.minNodesPerZone
    currentCount := (aliveMembers members).length
    strategy := "zone-aware" }

def canHandleZoneFailures (failedZones : List String) : Bool :=
  let remainingMembers := (aliveMembers members).filter fun member =>
    zoneOf member ∉ failedZones
  let evaluation := evaluateZoneDistribution options (groupMembersByZone remainingMembers)
  evaluation.hasRequiredZones && evaluation.hasMinNodesPerZone

/-- The zones with enough alive members. -/
def validZones : List String :=
  (evaluateZoneDistribution options (groupMembersByZone (aliveMembers members))).validZones

theorem nodup_validZones : (evaluateZoneDistribution options zoneGroups).validZones.Nodup :=
  zoneGroups.nodup_keys.sublist (filter_sublist.map _)

theorem mem_validZones {z : String} : z ∈ (evaluateZoneDistribution options zoneGroups).validZones ↔
    ∃ group, zoneGroups.get z = some group ∧ options.minNodesPerZone ≤ group.length := by
  simp [evaluateZoneDistribution, mem_entries_iff]

/-- When zones fail, the other valid zones are left. -/
theorem canHandleZoneFailures_iff (failedZones : List String) :
    canHandleZoneFailures members options failedZones = true ↔ options.requiredZones ≤
      ((validZones members options).toFinset \ failedZones.toFinset).card := by
  have hleft : (evaluateZoneDistribution options (groupMembersByZone ((aliveMembers members).filter
      fun member => zoneOf member ∉ failedZones))).validZones.toFinset =
      (validZones members options).toFinset \ failedZones.toFinset := by
    ext z
    rw [Finset.mem_sdiff, mem_toFinset, mem_toFinset, mem_toFinset, validZones, mem_validZones,
      mem_validZones, groupMembersByZone, get_groupBy, get_groupBy, filter_filter]
    by_cases hz : z ∈ failedZones
    · simp +contextual [hz]
    · rw [filter_congr (q := fun member => zoneOf member = z) fun member _ => by
        by_cases h : zoneOf member = z <;> simp [h, hz], and_iff_left hz]
  rw [← hleft, toFinset_card_of_nodup (nodup_validZones _ _), canHandleZoneFailures,
    Bool.and_eq_true]
  refine (and_iff_left (all_eq_true.mpr fun z hz => ?_)).trans decide_eq_true_iff
  obtain ⟨group, hgroup, hlength⟩ := (mem_validZones _ _).mp hz
  rw [hgroup]
  exact decide_eq_true hlength

/-- **Which zone failures are survived.** A cluster has enough zones left after every failure of up
to `maxZoneFailures` zones exactly if it has so many more valid zones than it requires. -/
theorem survives_failures_iff :
    (∀ failedZones : List String, failedZones.toFinset.card ≤ options.maxZoneFailures →
      canHandleZoneFailures members options failedZones = true) ↔
      options.requiredZones = 0 ∨ options.requiredZones + options.maxZoneFailures ≤
        (validZones members options).length := by
  simp only [canHandleZoneFailures_iff]
  have hnodup : (validZones members options).Nodup := nodup_validZones _ _
  have hcard := toFinset_card_of_nodup hnodup
  constructor
  · intro h
    have hsubset : ((validZones members options).take options.maxZoneFailures).toFinset ⊆
        (validZones members options).toFinset :=
      fun z hz => mem_toFinset.mpr (mem_of_mem_take (mem_toFinset.mp hz))
    have hfailed := h ((validZones members options).take options.maxZoneFailures)
      ((toFinset_card_le _).trans (length_take_le _ _))
    rw [Finset.card_sdiff_of_subset hsubset, hcard,
      toFinset_card_of_nodup (hnodup.sublist (take_sublist _ _)), length_take] at hfailed
    omega
  · intro h failedZones _
    have hsdiff := Finset.le_card_sdiff failedZones.toFinset (validZones members options).toFinset
    omega

/-- The zone `a` may fail, and the zone `b` alone has too few members. -/
theorem quorum_lost_with_zone :
    let members := (divide ["1", "2", "3"] (fun _ => 0)
      (fun id => if id = "3" then "b" else "a") "1").getAllMembers
    (evaluate members ⟨1, 2, 1⟩).hasQuorum = true ∧
      canHandleZoneFailures members ⟨1, 2, 1⟩ ["a"] = false := by
  decide

end ZoneQuorumStrategy

end DistributedCore.Cluster
