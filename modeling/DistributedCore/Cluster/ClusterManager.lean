import DistributedCore.Library.Runs
import DistributedCore.Routing.HashRing

/-!
# Membership and routing

A cluster manager owns a membership table and a hash ring. It listens to the table: whenever the
table announces its members, the ring is rebuilt from the alive ones. Every operation of the table
either changes nothing, or changes the members and announces them afterwards, so that the ring
holds the virtual nodes of the alive members after every operation. If there is at least one
virtual node for every node, the owner of a key is always an alive member.

Source: `src/cluster/ClusterManager.ts`.
-/

namespace DistributedCore.Cluster

open Routing ConsistentHashRing MembershipTable OrderedMap List

variable {M : Type}

/-! ### The operations of a table -/

/-- The calls that change the membership table. -/
inductive MembershipOp (M : Type) where
  | addLocalNode (nodeInfo : NodeInfo M) (now : ℤ)
  | addMember (nodeInfo : NodeInfo M) (now : ℤ)
  | updateNode (nodeInfo : NodeInfo M) (now : ℤ)
  | markSuspect (nodeId : String) (timeout now : ℤ)
  | markDead (nodeId : String) (now : ℤ)
  | markLeaving (nodeId : String) (now : ℤ)
  | removeMember (nodeId : String)
  | pruneDeadNodes (maxAge now : ℤ)
  | clear

def MembershipChange.outcome {V : Type} (change : MembershipChange M V) :
    MembershipTable M × List (MembershipEvent M) :=
  (change.table, change.events)

namespace MembershipOp

variable (t : MembershipTable M)

def perform : MembershipOp M → MembershipTable M × List (MembershipEvent M)
  | addLocalNode nodeInfo now => (t.addLocalNode nodeInfo now).outcome
  | addMember nodeInfo now => (t.addMember nodeInfo now).outcome
  | updateNode nodeInfo now => (t.updateNode nodeInfo now).outcome
  | markSuspect nodeId timeout now => (t.markSuspect nodeId timeout now).outcome
  | markDead nodeId now => (t.markDead nodeId now).outcome
  | markLeaving nodeId now => (t.markLeaving nodeId now).outcome
  | removeMember nodeId => (t.removeMember nodeId).outcome
  | pruneDeadNodes maxAge now => (t.pruneDeadNodes maxAge now).outcome
  | clear => t.clear.outcome

/-- The call writes the record `r` of a node. -/
def Brings (r : NodeInfo M) : MembershipOp M → Prop
  | addLocalNode nodeInfo _ => nodeInfo = r
  | addMember nodeInfo _ => nodeInfo = r
  | updateNode nodeInfo _ =>
    nodeInfo = r ∧ r.id ≠ t.localNodeId ∧ r.Newer (t.getMember r.id)
  | _ => False

/-- A call leaves the table alone, or its last event carries the new members. -/
inductive Announces (t : MembershipTable M)
    (outcome : MembershipTable M × List (MembershipEvent M)) : Prop
  | unchanged (eq : outcome = (t, []))
  | changed (localNodeId : outcome.1.localNodeId = t.localNodeId)
      (first : List (MembershipEvent M))
      (events : outcome.2 = first ++ [.membershipUpdated outcome.1.members])
      (others : ∀ members, .membershipUpdated members ∉ first)

/-- **What is announced.** -/
theorem announces_perform (op : MembershipOp M) : Announces t (op.perform t) := by
  have hput : ∀ {V : Type} (nodeId : String) entry
      (event : MembershipEvent M) (returned : V), (∀ members, event ≠ .membershipUpdated members) →
        Announces t (t.put nodeId entry event returned).outcome :=
    fun nodeId entry event returned hevent => .changed rfl [event] rfl
      fun members h => hevent members (mem_singleton.mp h).symm
  cases op with
  | addLocalNode => exact hput _ _ _ _ fun _ h => by cases h
  | addMember => exact hput _ _ _ _ fun _ h => by cases h
  | updateNode =>
    rw [perform, updateNode_eq]
    split_ifs
    · refine hput _ _ _ _ fun _ h => ?_
      rw [updateEvent] at h
      split_ifs at h
    · exact .unchanged rfl
  | markSuspect =>
    rw [perform, MembershipTable.markSuspect]
    split
    · exact .unchanged rfl
    · split_ifs
      · exact hput _ _ _ _ fun _ h => by cases h
      · exact .unchanged rfl
  | markDead =>
    rw [perform, MembershipTable.markDead]
    split
    · exact .unchanged rfl
    · exact hput _ _ _ _ fun _ h => by cases h
  | markLeaving =>
    rw [perform, MembershipTable.markLeaving]
    split
    · exact .unchanged rfl
    · exact hput _ _ _ _ fun _ h => by cases h
  | removeMember nodeId =>
    rw [perform, MembershipTable.removeMember]
    split_ifs
    · exact .changed rfl [.memberLeft nodeId] rfl fun members h => by simp at h
    · exact .unchanged rfl
  | pruneDeadNodes =>
    rw [perform, MembershipTable.pruneDeadNodes]
    split_ifs
    · exact .changed rfl [] rfl fun members => not_mem_nil
    · exact .unchanged rfl
  | clear => exact .changed rfl [] rfl fun members => not_mem_nil

/-- Where the entry of a node comes from after a call. -/
inductive Origin (t : MembershipTable M) (op : MembershipOp M) (nodeId : String)
    (entry : MembershipEntry M) : Prop
  | kept (old : t.getMember nodeId = some entry)
  | marked {existing : MembershipEntry M} (old : t.getMember nodeId = some existing)
      (id : entry.id = existing.id) (status : entry.status ≠ .alive)
  | written {r : NodeInfo M} (brings : op.Brings t r) (key : r.id = nodeId)
      (id : entry.id = r.id) (status : entry.status = r.status)

variable {nodeId : String}

/-- **Where entries come from.** -/
theorem origin_of_getMember {t : MembershipTable M} {op : MembershipOp M}
    {entry : MembershipEntry M} (h : (op.perform t).1.getMember nodeId = some entry) :
    Origin t op nodeId entry := by
  -- an entry that was put under a key is the new one, or was there before
  have hput : ∀ {V : Type} {new : MembershipEntry M} {event : MembershipEvent M} {returned : V},
      {key : String} → (t.put key new event returned).outcome.1.getMember nodeId = some entry →
        (nodeId = key → new = entry → Origin t op nodeId entry) → Origin t op nodeId entry := by
    intro V new event returned key hget hnew
    have hset : (t.members.set key new).get nodeId = some entry := hget
    rw [get_set] at hset
    split_ifs at hset with hkey
    · exact hnew hkey (Option.some.inj hset)
    · exact .kept hset
  cases op with
  | addLocalNode nodeInfo now | addMember nodeInfo now =>
    refine hput h ?_
    rintro rfl rfl
    exact .written rfl rfl rfl rfl
  | updateNode nodeInfo =>
    rw [perform, updateNode_eq] at h
    split_ifs at h with htake
    · refine hput h ?_
      rintro rfl rfl
      exact .written (r := nodeInfo) ⟨rfl, htake⟩ rfl (by simp) (by simp)
    · exact .kept h
  | markSuspect =>
    rw [perform, MembershipTable.markSuspect] at h
    split at h
    · exact .kept h
    · rename_i member hmember
      split_ifs at h
      · refine hput h ?_
        rintro rfl rfl
        exact .marked hmember rfl (by simp)
      · exact .kept h
  | markDead key now | markLeaving key now =>
    simp only [perform, MembershipTable.markDead, MembershipTable.markLeaving] at h
    split at h
    · exact .kept h
    · rename_i member hmember
      refine hput h ?_
      rintro rfl rfl
      exact .marked hmember rfl (by simp)
  | removeMember key =>
    rw [perform, MembershipTable.removeMember] at h
    split_ifs at h
    · have hdelete : (t.members.delete key).get nodeId = some entry := h
      rw [get_delete] at hdelete
      split_ifs at hdelete
      exact .kept hdelete
    · exact .kept h
  | pruneDeadNodes maxAge now =>
    rw [perform, MembershipTable.pruneDeadNodes] at h
    split_ifs at h
    · have hfilter := get_filter (fun _ (member : MembershipEntry M) =>
        !(member.status = .dead && now - member.lastUpdated > maxAge)) t.members nodeId
      have hget : (t.members.get nodeId).filter _ = some entry := hfilter.symm.trans h
      exact .kept (Option.filter_eq_some_iff.mp hget).1
    · exact .kept h
  | clear => cases h

end MembershipOp

/-! ### The manager -/

/-- The table, the ring built from it and the records that gossip passes on. -/
structure ClusterManager (M : Type) where
  membership : MembershipTable M
  hashRing : ConsistentHashRing
  recentUpdates : List (NodeInfo M)

namespace ClusterManager

def create (localNodeId : String) (virtualNodesPerNode : ℕ) : ClusterManager M :=
  ⟨.create localNodeId, .create virtualNodesPerNode, []⟩

section Code

variable (hash : String → ℕ) (c : ClusterManager M)

/-- The listeners of the manager: the ring is rebuilt when members are announced. The manager
passes the other events on. -/
def onMembershipEvent : MembershipEvent M → ClusterManager M
  | .membershipUpdated members =>
    { c with
      hashRing := c.hashRing.rebuild hash
        (members.values.filter fun entry => entry.status = .alive) }
  | _ => c

def perform (op : MembershipOp M) : ClusterManager M :=
  let (membership, events) := op.perform c.membership
  events.foldl (onMembershipEvent hash) { c with membership := membership }

def step (op : MembershipOp M) : Option (ClusterManager M) := some (c.perform hash op)

def addToRecentUpdates (nodeInfo : NodeInfo M) : ClusterManager M :=
  let recentUpdates := c.recentUpdates ++ [nodeInfo]
  { c with
    recentUpdates :=
      if recentUpdates.length > 10 then recentUpdates.drop (recentUpdates.length - 10)
      else recentUpdates }

def rebuildHashRing : ClusterManager M :=
  { c with hashRing := c.hashRing.rebuild hash c.membership.getAliveMembers }

end Code

variable {hash : String → ℕ} {c c' : ClusterManager M} {ops : List (MembershipOp M)} {count : ℕ}

@[simp] theorem onMembershipEvent_membership (event : MembershipEvent M) :
    (c.onMembershipEvent hash event).membership = c.membership := by cases event <;> rfl

@[simp] theorem perform_membership (op : MembershipOp M) :
    (c.perform hash op).membership = (op.perform c.membership).1 := by
  have hevents : ∀ (events : List (MembershipEvent M)) (c : ClusterManager M),
      (events.foldl (onMembershipEvent hash) c).membership = c.membership := by
    intro events
    induction events with
    | nil => exact fun _ => rfl
    | cons event _ ih => exact fun c => (ih _).trans (onMembershipEvent_membership event)
  exact hevents _ _

/-- The virtual nodes on the ring are those of the alive members, and every entry is under its
id. -/
structure Routed (hash : String → ℕ) (count : ℕ) (c : ClusterManager M) : Prop where
  ids : ∀ nodeId entry, c.membership.getMember nodeId = some entry → entry.id = nodeId
  ring : c.hashRing = (ConsistentHashRing.create count).rebuild hash c.membership.getAliveMembers

theorem rebuild_congr {r r' : ConsistentHashRing}
    (h : r.virtualNodesPerNode = r'.virtualNodesPerNode) (members : List (MembershipEntry M)) :
    r.rebuild hash members = r'.rebuild hash members := by
  rw [rebuild, rebuild]
  congr 1
  rw [h]

theorem routed_create (localNodeId : String) (count : ℕ) :
    Routed hash count (create localNodeId count : ClusterManager M) :=
  ⟨(fun _ _ h => by cases h), rfl⟩

/-- **An operation keeps the ring current.** -/
theorem Routed.perform (h : Routed hash count c) (op : MembershipOp M) :
    Routed hash count (c.perform hash op) := by
  refine ⟨fun nodeId entry hget => ?_, ?_⟩
  · rw [perform_membership] at hget
    cases MembershipOp.origin_of_getMember hget with
    | kept hold => exact h.ids nodeId entry hold
    | marked hold hid _ => exact hid.trans (h.ids nodeId _ hold)
    | written _ hkey hid => exact hid.trans hkey
  · have hannounces := op.announces_perform c.membership
    rw [perform_membership]
    rw [ClusterManager.perform]
    generalize op.perform c.membership = result at hannounces ⊢
    cases hannounces with
    | unchanged heq =>
      subst heq
      exact h.ring
    | changed _ first hevents others =>
      have hfirst : ∀ (events : List (MembershipEvent M)) c,
          (∀ members, .membershipUpdated members ∉ events) →
            events.foldl (onMembershipEvent hash) c = c := by
        intro events
        induction events with
        | nil => exact fun _ _ => rfl
        | cons event _ ih =>
          intro c hothers
          have hevent : c.onMembershipEvent hash event = c := by
            cases event with
            | membershipUpdated members => exact absurd mem_cons_self (hothers members)
            | _ => rfl
          rw [foldl_cons, hevent]
          exact ih c fun members hmem => hothers members (mem_cons_of_mem _ hmem)
      dsimp only
      rw [hevents, foldl_append, hfirst first _ others]
      refine rebuild_congr ?_ _
      change c.hashRing.virtualNodesPerNode = count
      rw [h.ring, virtualNodesPerNode_rebuild]
      rfl

theorem Routed.run (h : Routed hash count c)
    (hrun : exec (step hash) c ops = some c') : Routed hash count c' := by
  refine exec_invariant ?_ h (allSteps_true _ _ _) hrun
  rintro c op _ hc - ⟨⟩
  exact hc.perform op

theorem localNodeId_of_run {localNodeId : String}
    (hrun : exec (step hash) (create localNodeId count) ops = some c) :
    c.membership.localNodeId = localNodeId := by
  refine exec_invariant (P := fun c => c.membership.localNodeId = localNodeId) ?_ rfl
    (allSteps_true _ _ _) hrun
  rintro c op _ hc - ⟨⟩
  rw [perform_membership]
  cases op.announces_perform c.membership with
  | unchanged heq => rwa [heq]
  | changed hlocal => exact hlocal.trans hc

/-! ### Routing follows liveness -/

/-- The node is in the table with status ALIVE. -/
def IsAlive (c : ClusterManager M) (nodeId : String) : Prop :=
  ∃ entry, c.membership.getMember nodeId = some entry ∧ entry.status = .alive

/-- The ring serves the alive members: it holds `count` virtual nodes of each of them and no
others, sorted by hash, and the owner of a key is an alive member, if there is one. -/
structure RoutesToAlive (hash : String → ℕ) (count : ℕ) (c : ClusterManager M) : Prop where
  nodes : ∀ nodeId, (∃ vnode ∈ c.hashRing.ring, vnode.nodeId = nodeId) ↔ c.IsAlive nodeId
  replicas : ∀ nodeId, c.IsAlive nodeId →
    (c.hashRing.ring.filter fun vnode => vnode.nodeId = nodeId).length = count
  sorted : c.hashRing.ring.Pairwise ByHash
  owner : ∀ key nodeId, c.hashRing.getNode hash key = some nodeId → c.IsAlive nodeId
  noOwner : ∀ key, c.hashRing.getNode hash key = none ↔ ∀ nodeId, ¬c.IsAlive nodeId

namespace Routed

variable {count : ℕ}

section

variable (h : Routed hash count c)

include h

theorem mem_aliveIds : nodeId ∈ aliveIds c.membership.getAliveMembers ↔ c.IsAlive nodeId := by
  simp only [aliveIds, getAliveMembers, mem_map,
    mem_filter, mem_values_iff, decide_eq_true_eq, IsAlive]
  constructor
  · rintro ⟨entry, ⟨⟨⟨key, hkey⟩, halive⟩, -⟩, rfl⟩
    exact ⟨entry, (h.ids key entry hkey).symm ▸ hkey, halive⟩
  · rintro ⟨entry, hget, halive⟩
    exact ⟨entry, ⟨⟨⟨nodeId, hget⟩, halive⟩, halive⟩, h.ids nodeId entry hget⟩

theorem nodup_ids : (c.membership.getAllMembers.map fun entry => entry.id).Nodup := by
  have hids : c.membership.members.values.map (fun entry => entry.id) =
      c.membership.members.keys := by
    rw [OrderedMap.values, OrderedMap.keys, map_map]
    refine map_congr_left fun p hp => ?_
    exact h.ids p.1 p.2 ((mem_entries_iff _ _ _).mp hp)
  rw [getAllMembers, hids]
  exact c.membership.members.nodup_keys

theorem nodup_aliveIds : (aliveIds c.membership.getAliveMembers).Nodup :=
  ConsistentHashRing.nodup_aliveIds (h.nodup_ids.sublist ((filter_sublist).map _))

theorem ring_perm : c.hashRing.ring.Perm ((aliveIds c.membership.getAliveMembers).flatMap
      (virtualNodes hash count)) := by
  rw [h.ring]
  exact ring_rebuild_perm _ _

theorem isAlive_of_mem_ring {vnode : VirtualNode}
    (hmem : vnode ∈ c.hashRing.ring) : c.IsAlive vnode.nodeId := by
  obtain ⟨id, hid, hvnode⟩ := mem_flatMap.mp (h.ring_perm.mem_iff.mp hmem)
  obtain ⟨i, -, rfl⟩ := mem_virtualNodes.mp hvnode
  exact h.mem_aliveIds.mp hid

theorem isAlive_of_getNode {key : String}
    (hnode : c.hashRing.getNode hash key = some nodeId) : c.IsAlive nodeId := by
  obtain ⟨vnode, hvnode, rfl⟩ := mem_of_getNode hnode
  exact h.isAlive_of_mem_ring hvnode

theorem exists_mem_ring (hcount : 0 < count)
    (halive : c.IsAlive nodeId) : ∃ vnode ∈ c.hashRing.ring, vnode.nodeId = nodeId := by
  refine ⟨⟨nodeId, hash (virtualNodeKey nodeId 0), 0⟩, h.ring_perm.mem_iff.mpr ?_, rfl⟩
  exact mem_flatMap.mpr ⟨nodeId, h.mem_aliveIds.mpr halive, mem_virtualNodes.mpr ⟨0, hcount, rfl⟩⟩

theorem routesToAlive (hcount : 0 < count) : RoutesToAlive hash count c where
  nodes nodeId := by
    refine ⟨?_, h.exists_mem_ring hcount⟩
    rintro ⟨vnode, hvnode, rfl⟩
    exact h.isAlive_of_mem_ring hvnode
  replicas nodeId halive := by
    rw [(h.ring_perm.filter _).length_eq]
    exact length_filter_flatMap_virtualNodes h.nodup_aliveIds (h.mem_aliveIds.mpr halive)
  sorted := by
    rw [h.ring]
    exact ring_rebuild_sorted _ _
  owner _ _ := h.isAlive_of_getNode
  noOwner key := by
    rw [getNode_eq_none_iff]
    constructor
    · intro hring nodeId halive
      obtain ⟨vnode, hvnode, -⟩ := h.exists_mem_ring hcount halive
      rw [hring] at hvnode
      exact absurd hvnode not_mem_nil
    · intro hnone
      refine eq_nil_iff_forall_not_mem.mpr fun vnode hvnode => ?_
      exact hnone _ (h.isAlive_of_mem_ring hvnode)

end

end Routed

/-- **Routing follows liveness.** After every sequence of operations the ring serves exactly the
alive members, if there is at least one virtual node for every node, and only then. -/
theorem routes_to_alive_iff (hash : String → ℕ) (localNodeId : String) (count : ℕ) :
    (∀ (ops : List (MembershipOp M)) (c : ClusterManager M),
      exec (step hash) (create localNodeId count) ops = some c → RoutesToAlive hash count c) ↔
      0 < count := by
  constructor
  · intro h
    by_contra hcount
    obtain rfl : count = 0 := by omega
    let nodeInfo : NodeInfo M :=
      { id := localNodeId, status := .alive, lastSeen := 0, version := 1, metadata := none }
    have hroutes := h [.addLocalNode nodeInfo 0] _ rfl
    have hrouted : Routed hash 0 ((create localNodeId 0).perform hash (.addLocalNode nodeInfo 0)) :=
      (routed_create localNodeId 0).perform _
    have halive : ((create localNodeId 0).perform hash (.addLocalNode nodeInfo 0)).IsAlive
        localNodeId := ⟨⟨nodeInfo, 0⟩, get_set_self .., rfl⟩
    obtain ⟨vnode, hvnode, -⟩ := (hroutes.nodes localNodeId).mpr halive
    obtain ⟨id, -, hvnode⟩ := mem_flatMap.mp (hrouted.ring_perm.mem_iff.mp hvnode)
    obtain ⟨i, hi, -⟩ := mem_virtualNodes.mp hvnode
    exact absurd hi (Nat.not_lt_zero i)
  · intro hcount ops c hrun
    exact ((routed_create localNodeId count).run hrun).routesToAlive hcount

/-- A node without virtual nodes is alive and not on the ring. -/
theorem alive_off_ring_of_no_replicas :
    ¬∀ (hash : String → ℕ) (localNodeId : String) (count : ℕ) (ops : List (MembershipOp Unit))
      (c : ClusterManager Unit), exec (step hash) (create localNodeId count) ops = some c →
        RoutesToAlive hash count c := by
  intro h
  have hroutes := h String.length "n1" 0 [.addLocalNode
      { id := "n1", status := .alive, lastSeen := 0, version := 1, metadata := none } 0] _ rfl
  have halive := (hroutes.noOwner "key").mp rfl "n1"
  exact halive ⟨_, rfl, rfl⟩

end ClusterManager

end DistributedCore.Cluster
