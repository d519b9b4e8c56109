import DistributedCore.Cluster.ClusterManager

/-!
# Draining and leaving nodes

A node that is drained, or that leaves, gets a record with the next version and the status
`DRAINING` or `LEAVING`. The record goes through `updateNode` and is gossiped, and after the gossip
`drainNode` rebuilds the ring. For another node the table takes the record, and from then on the
node is not alive and gets no keys until a newer record of it is written. For the local node
`updateNode` ignores the record, as it ignores every record of the local node: the node stays alive
and on the ring.

Source: `src/cluster/lifecycle/ClusterLifecycle.ts`.
-/

namespace DistributedCore.Cluster

open Routing Option List

variable {M : Type}

namespace ClusterManager

/-! ### The code -/

section Code

variable (hash : String → ℕ)

/-- The record of a node that drains or leaves. -/
def departing (entry : MembershipEntry M) (status : NodeStatus) (now : ℤ) : NodeInfo M :=
  { entry.toNodeInfo with status := status, version := entry.version + 1, lastSeen := now }

def announceDeparture (c : ClusterManager M) (status : NodeStatus) (now : ℤ)
    (entry : MembershipEntry M) : ClusterManager M :=
  let record := departing entry status now
  (c.perform hash (.updateNode record now)).addToRecentUpdates record

def beginDrain (c : ClusterManager M) (targetNodeId : String) (now : ℤ) :
    Option (ClusterManager M) :=
  (c.membership.getMember targetNodeId).map (c.announceDeparture hash .draining now)

def beginLeave (c : ClusterManager M) (now : ℤ) : Option (ClusterManager M) :=
  (c.membership.getMember c.membership.localNodeId).map (c.announceDeparture hash .leaving now)

end Code

/-! ### Nodes that are not alive -/

/-- The node is not alive in the table, and no key is routed to it. -/
def Avoids (hash : String → ℕ) (c : ClusterManager M) (nodeId : String) : Prop :=
  (∀ entry ∈ c.membership.getAliveMembers, entry.id ≠ nodeId) ∧
    ∀ key, c.hashRing.getNode hash key ≠ some nodeId

/-- The call brings no record of the node. -/
def NoRecordOf (nodeId : String) (c : ClusterManager M) (op : MembershipOp M) : Prop :=
  ∀ r, op.Brings c.membership r → r.id ≠ nodeId

variable {hash : String → ℕ} {count : ℕ} {c c' : ClusterManager M} {nodeId : String}

/-- **A node that is not alive stays so** until a record of it is written. -/
theorem not_isAlive_step {op : MembershipOp M} (h : ¬c.IsAlive nodeId)
    (hop : NoRecordOf nodeId c op) : ¬(c.perform hash op).IsAlive nodeId := by
  rintro ⟨entry, hget, halive⟩
  rw [perform_membership] at hget
  cases MembershipOp.origin_of_getMember hget with
  | kept hold => exact h ⟨entry, hold, halive⟩
  | marked _ _ hstatus => exact hstatus halive
  | written hbrings hkey _ _ => exact hop _ hbrings hkey

theorem not_isAlive_run {ops : List (MembershipOp M)} (h : ¬c.IsAlive nodeId)
    (hops : AllSteps (step hash) (NoRecordOf nodeId) c ops)
    (hrun : exec (step hash) c ops = some c') : ¬c'.IsAlive nodeId := by
  refine exec_invariant (P := fun c => ¬c.IsAlive nodeId) ?_ h hops hrun
  rintro c op _ hc hop ⟨⟩
  exact not_isAlive_step hc hop

theorem Routed.avoids_iff (h : Routed hash count c) : c.Avoids hash nodeId ↔ ¬c.IsAlive nodeId := by
  constructor
  · intro havoids halive
    obtain ⟨entry, hentry, hid⟩ := mem_map.mp (h.mem_aliveIds.mpr halive)
    exact havoids.1 entry (mem_of_mem_filter hentry) hid
  · refine fun hdead => ⟨fun entry hentry hid => hdead ?_, fun key hnode =>
      hdead (h.isAlive_of_getNode hnode)⟩
    rw [← h.mem_aliveIds, ConsistentHashRing.aliveIds]
    refine mem_map.mpr ⟨entry, mem_filter.mpr ⟨hentry, ?_⟩, hid⟩
    exact (mem_filter.mp hentry).2

theorem Routed.rebuildHashRing (h : Routed hash count c) :
    Routed hash count (c.rebuildHashRing hash) := by
  refine ⟨h.ids, rebuild_congr ?_ _⟩
  rw [h.ring, ConsistentHashRing.virtualNodesPerNode_rebuild]

/-! ### Departures -/

/-- After the ring was rebuilt by `drainNode`, the node gets no keys as long as no newer record of
it arrives, neither while the gossip is sent nor later. -/
def DrainSafe (hash : String → ℕ) (c : ClusterManager M) (nodeId : String) (now : ℤ) : Prop :=
  ∀ c₁ ∈ c.beginDrain hash nodeId now, ∀ during c₂, exec (step hash) c₁ during = some c₂ →
    AllSteps (step hash) (NoRecordOf nodeId) c₁ during →
      ∀ later c₃, exec (step hash) (c₂.rebuildHashRing hash) later = some c₃ →
        AllSteps (step hash) (NoRecordOf nodeId) (c₂.rebuildHashRing hash) later →
          c₃.Avoids hash nodeId

/-- After `beginLeave` the node stays out until a record of it arrives. -/
def LeaveSafe (hash : String → ℕ) (c : ClusterManager M) (now : ℤ) : Prop :=
  ∀ c₁ ∈ c.beginLeave hash now, ∀ ops c₂, exec (step hash) c₁ ops = some c₂ →
    AllSteps (step hash) (NoRecordOf c.membership.localNodeId) c₁ ops →
      c₂.Avoids hash c.membership.localNodeId

section Departure

variable {entry : MembershipEntry M} {status : NodeStatus} {now : ℤ}

section

variable (h : Routed hash count c)

include h

theorem Routed.announceDeparture : Routed hash count (c.announceDeparture hash status now entry) :=
  have hperform := h.perform (.updateNode (departing entry status now) now)
  ⟨hperform.ids, hperform.ring⟩

section

variable (hget : c.membership.getMember nodeId = some entry)

include hget

theorem Routed.isAlive_announceDeparture (hstatus : status ≠ .alive) :
    (c.announceDeparture hash status now entry).IsAlive nodeId ↔
      nodeId = c.membership.localNodeId ∧ entry.status = .alive := by
  have hid : (departing entry status now).id = nodeId := h.ids nodeId entry hget
  have hmembership : (c.announceDeparture hash status now entry).membership =
      (c.membership.updateNode (departing entry status now) now).table := perform_membership _
  have hnewer : (departing entry status now).Newer (some entry) := by
    rintro _ ⟨⟩
    exact NodeInfo.stamp_lt_iff.mpr (.inl (Int.lt_succ _))
  rw [IsAlive, hmembership, MembershipTable.getMember_updateNode, hget]
  by_cases hlocal : nodeId = c.membership.localNodeId
  · rw [if_neg fun hcond => hcond.2.1 hlocal]
    simp [hlocal]
  · rw [if_pos ⟨hid.symm, hlocal, hnewer⟩]
    simp [hlocal, departing, hstatus]

theorem Routed.drainSafe_iff :
    c.DrainSafe hash nodeId now ↔ ¬(nodeId = c.membership.localNodeId ∧ entry.status = .alive) := by
  have hbegin : c.beginDrain hash nodeId now =
      some (c.announceDeparture hash .draining now entry) := by
    rw [beginDrain, hget, map_some]
  have hrouted : Routed hash count (c.announceDeparture hash .draining now entry) :=
    h.announceDeparture
  have halive : (c.announceDeparture hash .draining now entry).IsAlive nodeId ↔ _ :=
    h.isAlive_announceDeparture hget (by decide)
  rw [← halive, DrainSafe]
  constructor
  · intro hsafe
    have havoids := hsafe _ hbegin [] _ rfl trivial [] _ rfl trivial
    exact hrouted.rebuildHashRing.avoids_iff.mp havoids
  · rintro hdead c₁ hc₁ during c₂ hduring hquiet later c₃ hlater hquiet'
    obtain rfl : c.announceDeparture hash .draining now entry = c₁ :=
      some.inj (hbegin.symm.trans hc₁)
    have hdead₂ : ¬c₂.IsAlive nodeId := not_isAlive_run hdead hquiet hduring
    have hrouted₂ := (hrouted.run hduring).rebuildHashRing
    have hdead₃ := not_isAlive_run (c := c₂.rebuildHashRing hash) hdead₂ hquiet' hlater
    exact (hrouted₂.run hlater).avoids_iff.mpr hdead₃

end

theorem Routed.leaveSafe (hget : c.membership.getMember c.membership.localNodeId = some entry)
    (hdead : ¬entry.status = .alive) : c.LeaveSafe hash now := by
  have hbegin : c.beginLeave hash now = some (c.announceDeparture hash .leaving now entry) := by
    rw [beginLeave, hget, map_some]
  have hrouted : Routed hash count (c.announceDeparture hash .leaving now entry) :=
    h.announceDeparture
  have halive : (c.announceDeparture hash .leaving now entry).IsAlive c.membership.localNodeId ↔
      entry.status = .alive :=
    (h.isAlive_announceDeparture hget (by decide)).trans (and_iff_right rfl)
  rw [← halive] at hdead
  rintro c₁ hc₁ ops c₂ hrun hquiet
  obtain rfl : c.announceDeparture hash .leaving now entry = c₁ :=
    some.inj (hbegin.symm.trans hc₁)
  exact (hrouted.run hrun).avoids_iff.mpr (not_isAlive_run hdead hquiet hrun)

end

end Departure

/-- **When a departing node gets no more keys.** In every state that operations lead to, a drained
node gets no keys until a newer record of it arrives, and so does the local node when it leaves,
exactly if the node is not the local node, or was not alive before. -/
theorem departure_safe_iff (hash : String → ℕ) (localNodeId : String) (count : ℕ)
    (ops : List (MembershipOp M)) (c : ClusterManager M)
    (hrun : exec (step hash) (create localNodeId count) ops = some c) (nodeId : String)
    (entry : MembershipEntry M) (hget : c.membership.getMember nodeId = some entry) (now : ℤ) :
    (c.DrainSafe hash nodeId now ∧ (nodeId = c.membership.localNodeId → c.LeaveSafe hash now)) ↔
      ¬(nodeId = c.membership.localNodeId ∧ entry.status = .alive) := by
  have hrouted := (routed_create localNodeId count).run hrun
  rw [hrouted.drainSafe_iff hget]
  refine and_iff_left_of_imp fun hsafe hlocal => ?_
  subst hlocal
  exact hrouted.leaveSafe hget fun halive => hsafe ⟨rfl, halive⟩

def aliveRecord (id : String) : NodeInfo Unit where
  id := id
  status := .alive
  lastSeen := 0
  version := 1
  metadata := none

def twoNodes : List (MembershipOp Unit) :=
  [.addLocalNode (aliveRecord "n1") 0, .updateNode (aliveRecord "n2") 5]

def twoNodesManager : ClusterManager Unit :=
  ((create "n1" 2).perform String.length (.addLocalNode (aliveRecord "n1") 0)).perform
    String.length (.updateNode (aliveRecord "n2") 5)

/-- A node that drains itself, or leaves, goes on to get keys. -/
theorem local_departure_unsafe :
    ¬∀ (hash : String → ℕ) (localNodeId : String) (count : ℕ) (ops : List (MembershipOp Unit))
      (c : ClusterManager Unit), exec (step hash) (create localNodeId count) ops = some c →
        ∀ (nodeId : String) (entry : MembershipEntry Unit),
          c.membership.getMember nodeId = some entry →
            (nodeId = c.membership.localNodeId ∨ entry.status = .alive) → ∀ now : ℤ,
              c.DrainSafe hash nodeId now ∧
                (nodeId = c.membership.localNodeId → c.LeaveSafe hash now) := by
  intro h
  have hsafe := (h String.length "n1" 2 twoNodes twoNodesManager rfl "n1" _ rfl (.inl rfl) 10).1
  have havoids := hsafe _ rfl [] _ rfl trivial [] _ rfl trivial
  exact havoids.2 "key" (by decide +kernel)

/-- The theorem at a peer. -/
theorem departure_safe_peer : (twoNodesManager.membership.getMember "n2").isSome ∧
      twoNodesManager.DrainSafe String.length "n2" 10 :=
  ⟨rfl, ((departure_safe_iff String.length "n1" 2 twoNodes twoNodesManager rfl "n2" _ rfl 10).mpr
    (by decide)).1⟩

end ClusterManager

end DistributedCore.Cluster
