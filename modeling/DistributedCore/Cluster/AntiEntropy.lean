import DistributedCore.Cluster.ClusterManager

/-!
# Anti-entropy

A node sends all entries of its table to another node, which takes the records that are newer than
its own entries, and the other node does the same in the opposite direction. A record is newer if
its version is higher, or if it has the same version and was seen later. The marks of the failure
detector change the status of an entry and leave its version and its time alone, so neither node
takes the record of the other if one of them has marked a node and both have the same record of it.

Source: `src/messaging/cluster/ClusterCommunication.ts`, `src/monitoring/FailureDetector.ts`.
-/

namespace DistributedCore.Cluster

open List
open Option hiding map map_map mem_map

variable {M : Type}

/-! ### The code -/

/-- The payload of a gossip message: a record, or the members the sender knows. -/
structure GossipMessage (M : Type) where
  nodeInfo : Option (NodeInfo M)
  membershipDiff : Option (List (NodeInfo M))
  isFullSync : Bool

namespace ClusterManager

section Code

variable (hash : String → ℕ) (c : ClusterManager M)

/-- `recordNodeActivity` of the failure detector: a suspect or dead node comes back to life under
the next version. The counters of missed heartbeats and the timers are left out. -/
def recordNodeActivity (nodeId : String) (now : ℤ) : ClusterManager M :=
  if nodeId = c.membership.localNodeId then c
  else
    match c.membership.getMember nodeId with
    | none => c
    | some member =>
      if member.status = .suspect ∨ member.status = .dead then
        c.perform hash (.updateNode
          { id := nodeId, status := .alive, lastSeen := now, version := member.version + 1,
            metadata := member.metadata } now)
      else c

/-- One received record goes through `updateNode` and, if it was news, into `recentUpdates`. -/
def receiveRecord (nodeInfo : NodeInfo M) (now : ℤ) : ClusterManager M :=
  let updated := (c.membership.updateNode nodeInfo now).returned
  let c := c.perform hash (.updateNode nodeInfo now)
  if updated then c.addToRecentUpdates nodeInfo else c

def handleGossipMessage (message : GossipMessage M) (now : ℤ) : ClusterManager M :=
  let c := message.nodeInfo.elim c fun nodeInfo => c.receiveRecord hash nodeInfo now
  message.membershipDiff.elim c fun diff =>
    diff.foldl (fun c nodeInfo => c.receiveRecord hash nodeInfo now) c

def handleMessage (senderId : String) (message : GossipMessage M) (now : ℤ) : ClusterManager M :=
  (c.recordNodeActivity hash senderId now).handleGossipMessage hash message now

end Code

/-- The message of an anti-entropy round holds every member. -/
def fullSync (c : ClusterManager M) : GossipMessage M where
  nodeInfo := none
  membershipDiff := some (c.membership.getAllMembers.map fun entry => entry.toNodeInfo)
  isFullSync := true

end ClusterManager

/-! ### Records of different nodes -/

def receiveEntry (stored : Option (MembershipEntry M)) (record : Option (NodeInfo M)) (now : ℤ) :
    Option (MembershipEntry M) :=
  match record with
  | none => stored
  | some r => if r.Newer stored then some (.absorb stored r now) else stored

namespace MembershipTable

variable {nodeId : String}

theorem getMember_receive_of_forall_ne :
    (arrivals : List (NodeInfo M × ℤ)) → (t : MembershipTable M) →
      (∀ arrival ∈ arrivals, arrival.1.id ≠ nodeId) →
        (t.receive arrivals).getMember nodeId = t.getMember nodeId
  | [], _, _ => rfl
  | arrival :: arrivals, t, hne => by
    refine (getMember_receive_of_forall_ne arrivals _ fun a ha =>
      hne a (mem_cons_of_mem _ ha)).trans ?_
    rw [getMember_updateNode, if_neg fun h => hne arrival mem_cons_self h.1.symm]

/-- **What a table holds after records of different nodes.** -/
theorem getMember_receive {t : MembershipTable M} {records : List (NodeInfo M)} {now : ℤ}
    (hnodup : (records.map NodeInfo.id).Nodup) (hpeer : nodeId ≠ t.localNodeId)
    {record : Option (NodeInfo M)} (hrecord : ∀ r, r ∈ record ↔ r ∈ records ∧ r.id = nodeId) :
    (t.receive (records.map fun r => (r, now))).getMember nodeId =
      receiveEntry (t.getMember nodeId) record now := by
  cases record with
  | none =>
    refine getMember_receive_of_forall_ne _ t fun arrival harrival hid => ?_
    obtain ⟨r, hr, rfl⟩ := mem_map.mp harrival
    exact absurd ((hrecord r).mpr ⟨hr, hid⟩) (not_mem_none _)
  | some r =>
    obtain ⟨hr, hid⟩ := (hrecord r).mp rfl
    obtain ⟨before, after, rfl⟩ := append_of_mem hr
    rw [map_append, map_cons, nodup_middle, nodup_cons, mem_append, not_or] at hnodup
    -- neither the records before this one nor those after it are of the same node
    have hothers : ∀ l : List (NodeInfo M), r.id ∉ l.map NodeInfo.id →
        ∀ arrival ∈ l.map (fun r => (r, now)), arrival.1.id ≠ nodeId := by
      intro l hl arrival harrival hsame
      obtain ⟨other, hother, rfl⟩ := mem_map.mp harrival
      exact hl (mem_map.mpr ⟨other, hother, hsame.trans hid.symm⟩)
    have hbefore := getMember_receive_of_forall_ne _ t (hothers before hnodup.1.1)
    rw [map_append, map_cons, receive, foldl_append, foldl_cons]
    refine (getMember_receive_of_forall_ne _ _ (hothers after hnodup.1.2)).trans ?_
    change ((t.receive (before.map fun r => (r, now))).updateNode r now).table.getMember nodeId = _
    rw [getMember_updateNode, hbefore, receive_localNodeId, receiveEntry]
    simp [hid, hpeer]

end MembershipTable

/-- **Two entries of a node after an exchange** have the same status exactly if they do not have the
same stamp and different statuses before. -/
theorem exchange_status_iff {x y x' y' : Option (MembershipEntry M)} {now now' : ℤ}
    (hy : y' = receiveEntry y (x.map fun entry => entry.toNodeInfo) now)
    (hx : x' = receiveEntry x (y'.map fun entry => entry.toNodeInfo) now') :
    x'.map (fun entry => entry.status) = y'.map (fun entry => entry.status) ↔
      ∀ e ∈ x, ∀ e' ∈ y, e.stamp = e'.stamp → e.status = e'.status := by
  have hnewer : ∀ {r : NodeInfo M} {entry : MembershipEntry M},
      r.Newer (some entry) ↔ entry.stamp < r.stamp := by
    simp [NodeInfo.Newer]
  have hnone : ∀ r : NodeInfo M, r.Newer none := fun r _ h => absurd h (not_mem_none _)
  cases x with
  | none =>
    obtain rfl : y' = y := hy
    refine iff_of_true ?_ fun _ h => absurd h (not_mem_none _)
    cases y' with
    | none => rw [hx]; rfl
    | some => simp [hx, receiveEntry, hnone]
  | some e =>
    cases y with
    | none =>
      refine iff_of_true ?_ fun _ _ _ h => absurd h (not_mem_none _)
      have hy' : y' = some (.absorb none e.toNodeInfo now) := by
        rw [hy, map_some, receiveEntry, if_pos (hnone _)]
      have hx' : x' = some e := by
        rw [hx, hy', map_some, receiveEntry, if_neg]
        rw [hnewer]
        simp
      simp [hx', hy']
    | some e' =>
      simp only [mem_some_iff, forall_eq']
      rcases lt_trichotomy e.stamp e'.stamp with hlt | heq | hgt
      · refine iff_of_true ?_ fun h => absurd h hlt.ne
        have hy' : y' = some e' := by
          rw [hy, map_some, receiveEntry, if_neg]
          exact fun h => absurd (hnewer.mp h) hlt.not_gt
        have hx' : x' = some (.absorb (some e) e'.toNodeInfo now') := by
          rw [hx, hy', map_some, receiveEntry, if_pos (hnewer.mpr hlt)]
        simp [hx', hy']
      · have hy' : y' = some e' := by
          rw [hy, map_some, receiveEntry, if_neg]
          exact fun h => absurd (hnewer.mp h) heq.not_gt
        have hx' : x' = some e := by
          rw [hx, hy', map_some, receiveEntry, if_neg]
          exact fun h => absurd (hnewer.mp h) heq.not_lt
        simp [hx', hy', heq]
      · refine iff_of_true ?_ fun h => absurd h hgt.ne'
        have hy' : y' = some (.absorb (some e') e.toNodeInfo now) := by
          rw [hy, map_some, receiveEntry, if_pos (hnewer.mpr hgt)]
        have hx' : x' = some e := by
          rw [hx, hy', map_some, receiveEntry, if_neg]
          rw [hnewer]
          simp
        simp [hx', hy']

namespace ClusterManager

variable {hash : String → ℕ} {c : ClusterManager M} {now : ℤ}

@[simp] theorem receiveRecord_membership (nodeInfo : NodeInfo M) :
    (c.receiveRecord hash nodeInfo now).membership =
      (c.membership.updateNode nodeInfo now).table := by
  rw [receiveRecord]
  split_ifs <;> exact perform_membership _

theorem recordNodeActivity_cases (hash : String → ℕ) (c : ClusterManager M) (senderId : String)
    (now : ℤ) :
    c.recordNodeActivity hash senderId now = c ∨ ∃ r : NodeInfo M, r.id = senderId ∧
        c.recordNodeActivity hash senderId now = c.perform hash (.updateNode r now) := by
  rw [recordNodeActivity]
  split_ifs
  · exact .inl rfl
  · split
    · exact .inl rfl
    · split_ifs
      · exact .inr ⟨_, rfl, rfl⟩
      · exact .inl rfl

variable {senderId : String}

theorem getMember_recordNodeActivity (h : nodeId ≠ senderId) :
    (c.recordNodeActivity hash senderId now).membership.getMember nodeId =
        c.membership.getMember nodeId ∧
      (c.recordNodeActivity hash senderId now).membership.localNodeId =
        c.membership.localNodeId := by
  rcases recordNodeActivity_cases hash c senderId now with heq | ⟨r, hid, heq⟩
  · rw [heq]
    exact ⟨rfl, rfl⟩
  · rw [heq, perform_membership]
    refine ⟨?_, MembershipTable.updateNode_localNodeId⟩
    refine (MembershipTable.getMember_updateNode nodeId).trans (if_neg fun hcond => ?_)
    exact h (hcond.1.trans hid)

variable {sender : ClusterManager M} {count : ℕ}

theorem membership_handleMessage_fullSync :
    (c.handleMessage hash senderId sender.fullSync now).membership =
      (c.recordNodeActivity hash senderId now).membership.receive
        ((sender.membership.getAllMembers.map fun entry => entry.toNodeInfo).map
          fun r => (r, now)) := by
  have hfold : ∀ (records : List (NodeInfo M)) (c : ClusterManager M),
      (records.foldl (fun c nodeInfo => c.receiveRecord hash nodeInfo now) c).membership =
        c.membership.receive (records.map fun r => (r, now)) := by
    intro records
    induction records with
    | nil => exact fun _ => rfl
    | cons _ _ ih =>
      intro c
      rw [foldl_cons, ih, receiveRecord_membership]
      rfl
  exact hfold _ _

/-- **What a node holds after a full synchronisation**, for every node but the two taking part. -/
theorem Routed.getMember_fullSync (h : Routed hash count sender) (hsender : nodeId ≠ senderId)
    (hlocal : nodeId ≠ c.membership.localNodeId) :
    (c.handleMessage hash senderId sender.fullSync now).membership.getMember nodeId =
      receiveEntry (c.membership.getMember nodeId)
        ((sender.membership.getMember nodeId).map fun entry => entry.toNodeInfo) now := by
  obtain ⟨hmember, hlocalId⟩ :
    (c.recordNodeActivity hash senderId now).membership.getMember nodeId = _ ∧ _ :=
    getMember_recordNodeActivity hsender
  rw [membership_handleMessage_fullSync, MembershipTable.getMember_receive, hmember]
  · rw [map_map]
    exact h.nodup_ids
  · rw [hlocalId]
    exact hlocal
  · intro r
    simp only [mem_def, map_eq_some_iff, mem_map, MembershipTable.getAllMembers,
      OrderedMap.mem_values_iff]
    constructor
    · rintro ⟨entry, hget, rfl⟩
      exact ⟨⟨entry, ⟨nodeId, hget⟩, rfl⟩, h.ids nodeId entry hget⟩
    · rintro ⟨⟨entry, ⟨key, hget⟩, rfl⟩, hid⟩
      obtain rfl : key = nodeId := (h.ids key entry hget).symm.trans hid
      exact ⟨entry, hget, rfl⟩

theorem Routed.handleMessage_fullSync (h : Routed hash count c) :
    Routed hash count (c.handleMessage hash senderId sender.fullSync now) := by
  have hactivity : Routed hash count (c.recordNodeActivity hash senderId now) := by
    rcases recordNodeActivity_cases hash c senderId now with heq | ⟨r, -, heq⟩
    · rwa [heq]
    · rw [heq]
      exact h.perform _
  have hreceive : ∀ c (r : NodeInfo M), Routed hash count c →
      Routed hash count (c.receiveRecord hash r now) := by
    intro c r hc
    have hperform := hc.perform (.updateNode r now)
    rw [receiveRecord]
    split_ifs
    · exact ⟨hperform.ids, hperform.ring⟩
    · exact hperform
  exact List.foldlRecOn _ _ hactivity fun c hc r _ => hreceive c r hc

/-- **When two nodes agree after an exchange.** Take nodes `P` and `Q` with tables that any
operations have led to. After the full synchronisation of `P` has been delivered to `Q`, and that
of `Q` to `P`, they hold the same status for all other nodes exactly if before there was no node
for which they held the same version and time and different statuses. -/
theorem anti_entropy_agrees_iff (hash : String → ℕ) (p q : String) (count count' : ℕ)
    (ops ops' : List (MembershipOp M)) (P Q : ClusterManager M)
    (hP : exec (step hash) (create p count) ops = some P)
    (hQ : exec (step hash) (create q count') ops' = some Q) (now now' : ℤ) :
    (let Q' := Q.handleMessage hash p P.fullSync now
      let P' := P.handleMessage hash q Q'.fullSync now'
      ∀ nodeId, nodeId ≠ p → nodeId ≠ q →
        (P'.membership.getMember nodeId).map (fun entry => entry.status) =
          (Q'.membership.getMember nodeId).map fun entry => entry.status) ↔
      ∀ nodeId, nodeId ≠ p → nodeId ≠ q → ∀ e ∈ P.membership.getMember nodeId,
        ∀ e' ∈ Q.membership.getMember nodeId, e.stamp = e'.stamp → e.status = e'.status := by
  have hrouted := (routed_create p count).run hP
  have hrouted' := (routed_create q count').run hQ
  have hp : P.membership.localNodeId = p := localNodeId_of_run hP
  have hq : Q.membership.localNodeId = q := localNodeId_of_run hQ
  refine forall_congr' fun nodeId => forall_congr' fun hnp => forall_congr' fun hnq => ?_
  exact exchange_status_iff (hrouted.getMember_fullSync hnp (hq ▸ hnq))
    (hrouted'.handleMessage_fullSync.getMember_fullSync hnq (hp ▸ hnp))

def sharedRecord : NodeInfo Unit where
  id := "n3"
  status := .alive
  lastSeen := 10
  version := 1
  metadata := none

def suspecting : ClusterManager Unit :=
  ((create "n1" 1).perform String.length (.updateNode sharedRecord 10)).perform String.length
    (.markSuspect "n3" 5000 20)

def trusting : ClusterManager Unit :=
  (create "n2" 1).perform String.length (.updateNode sharedRecord 10)

/-- The suspicion of one node never reaches the other one, nor is it given up. -/
theorem anti_entropy_disagrees :
    ¬∀ (hash : String → ℕ) (p q : String) (count count' : ℕ) (ops ops' : List (MembershipOp Unit))
      (P Q : ClusterManager Unit), exec (step hash) (create p count) ops = some P →
        exec (step hash) (create q count') ops' = some Q → ∀ now now' : ℤ,
          let Q' := Q.handleMessage hash p P.fullSync now
          let P' := P.handleMessage hash q Q'.fullSync now'
          ∀ nodeId, nodeId ≠ p → nodeId ≠ q →
            (P'.membership.getMember nodeId).map (fun entry => entry.status) =
              (Q'.membership.getMember nodeId).map fun entry => entry.status := by
  intro h
  have hn3 := h String.length "n1" "n2" 1 1
    [.updateNode sharedRecord 10, .markSuspect "n3" 5000 20] [.updateNode sharedRecord 10]
    suspecting trusting rfl rfl 30 40 "n3" (by decide) (by decide)
  exact absurd hn3 (by decide +kernel)

/-- A newer record of `n3`, and one of a node of which only one table has heard. -/
def newerRecords : List (MembershipOp Unit) :=
  [.updateNode sharedRecord 10, .updateNode { sharedRecord with status := .dead, version := 2 } 15,
    .updateNode { sharedRecord with id := "n4" } 16]

/-- The theorem where the tables have different records of `n3`. -/
theorem anti_entropy_agrees_newerRecords :
    let P := newerRecords.foldl (perform String.length) (create "n1" 1)
    let Q' := trusting.handleMessage String.length "n1" P.fullSync 30
    let P' := P.handleMessage String.length "n2" Q'.fullSync 40
    (trusting.membership.getMember "n3").map (fun entry => entry.status) ≠
        (P.membership.getMember "n3").map (fun entry => entry.status) ∧
      ∀ nodeId, nodeId ≠ "n1" → nodeId ≠ "n2" →
        (P'.membership.getMember nodeId).map (fun entry => entry.status) =
          (Q'.membership.getMember nodeId).map fun entry => entry.status := by
  refine ⟨by decide +kernel, ?_⟩
  refine (anti_entropy_agrees_iff String.length "n1" "n2" 1 1 newerRecords
    [.updateNode sharedRecord 10] _ trusting rfl rfl 30 40).mpr ?_
  intro nodeId _ hn2 e he e' he' hstamp
  by_cases hn3 : nodeId = "n3"
  · subst hn3
    cases he
    cases he'
    exact absurd hstamp (by decide +kernel)
  · have hnone : trusting.membership.getMember nodeId = none := by
      rw [trusting, perform_membership]
      exact (MembershipTable.getMember_updateNode _).trans (if_neg fun h => hn3 h.1)
    rw [hnone] at he'
    cases he'

end ClusterManager

end DistributedCore.Cluster
