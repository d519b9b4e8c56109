import DistributedCore.Cluster.MembershipTable
import DistributedCore.Library.Sorting
import Mathlib.Algebra.BigOperators.Group.Finset.Basic

/-!
# The consistent hash ring

The ring holds a number of virtual nodes for every node, each with the hash of a text that is made
from the node and a counter. A key belongs to the first virtual node whose hash is not below the
hash of the key, or to the first one of the ring. The ring is kept sorted by hash. The sort is
stable, so virtual nodes with the same hash stand in the order in which their nodes were added.

Source: `src/routing/ConsistentHashRing.ts`.
-/

namespace DistributedCore.Routing

open Cluster List

structure VirtualNode where
  nodeId : String
  hash : ℕ
  replica : ℕ
  deriving DecidableEq, Repr

/-- The virtual nodes in the order of their hashes. -/
structure ConsistentHashRing where
  ring : List VirtualNode
  virtualNodesPerNode : ℕ
  deriving DecidableEq, Repr

def virtualNodeKey (nodeId : String) (i : ℕ) : String := nodeId ++ ":" ++ toString i

variable (hash : String → ℕ) {nodeId : String}

def virtualNodes (count : ℕ) (nodeId : String) : List VirtualNode :=
  (List.range count).map fun i => ⟨nodeId, hash (virtualNodeKey nodeId i), i⟩

/-- The order of the ring. -/
abbrev ByHash (a b : VirtualNode) : Prop := a.hash ≤ b.hash

instance : Std.Total ByHash := ⟨fun _ _ => Nat.le_total _ _⟩

instance : IsTrans VirtualNode ByHash := ⟨fun _ _ _ => Nat.le_trans⟩

def collectNodes (count : ℤ) : List String → List String → List String
  | result, [] => result
  | result, nodeId :: rest =>
    if result.length < count then
      if nodeId ∈ result then collectNodes count result rest
      else collectNodes count (result ++ [nodeId]) rest
    else result

namespace ConsistentHashRing

def create (virtualNodesPerNode : ℕ) : ConsistentHashRing := ⟨[], virtualNodesPerNode⟩

variable (r : ConsistentHashRing)

def addNode (nodeId : String) : ConsistentHashRing :=
  { r with ring := (r.ring ++ virtualNodes hash r.virtualNodesPerNode nodeId).insertionSort ByHash }

/-- The node at or after the hash of the key, and otherwise the first one. -/
def getNode (key : String) : Option String :=
  match r.ring with
  | [] => none
  | first :: _ =>
    some ((r.ring.find? fun vnode => vnode.hash ≥ hash key).getD first).nodeId

/-- The first `count` distinct nodes from there on. -/
def getNodes (key : String) (count : ℤ) : List String :=
  if r.ring = [] ∨ count ≤ 0 then []
  else
    let startIndex := (r.ring.findIdx? fun vnode => vnode.hash ≥ hash key).getD 0
    collectNodes count [] ((r.ring.rotate startIndex).map VirtualNode.nodeId)

variable {M : Type}

def rebuild (r : ConsistentHashRing) (members : List (MembershipEntry M)) : ConsistentHashRing :=
  members.foldl (fun r member => if member.status = .alive then r.addNode hash member.id else r)
    { r with ring := [] }

/-! ### What a rebuilt ring holds -/

variable {hash}

def aliveIds (members : List (MembershipEntry M)) : List String :=
  (members.filter fun member => member.status = .alive).map fun member => member.id

variable (r : ConsistentHashRing) (members : List (MembershipEntry M))

theorem rebuild_eq_foldl :
    r.rebuild hash members = (aliveIds members).foldl (fun r id => r.addNode hash id)
      { r with ring := [] } := by
  rw [rebuild, aliveIds, foldl_map, foldl_filter]
  simp

@[simp] theorem virtualNodesPerNode_foldl (ids : List String) (r : ConsistentHashRing) :
    (ids.foldl (fun r id => r.addNode hash id) r).virtualNodesPerNode = r.virtualNodesPerNode := by
  induction ids generalizing r with
  | nil => rfl
  | cons _ _ ih => exact ih _

@[simp] theorem virtualNodesPerNode_rebuild :
    (r.rebuild hash members).virtualNodesPerNode = r.virtualNodesPerNode := by
  rw [rebuild_eq_foldl, virtualNodesPerNode_foldl]

theorem filter_hash_sort (h : ℕ) (l : List VirtualNode) :
    (l.insertionSort ByHash).filter (fun v => v.hash = h) = l.filter fun v => v.hash = h := by
  refine (filter_insertionSort ByHash _ _).trans (Pairwise.insertionSort_eq ?_)
  refine pairwise_of_forall_mem_list fun a ha b hb => ?_
  simp only [mem_filter, decide_eq_true_eq] at ha hb
  exact (ha.2.trans hb.2.symm).le

/-- The ring is the stable sort of what was pushed. -/
theorem ring_foldl_eq (ids : List String) {r : ConsistentHashRing} (h : r.ring.Pairwise ByHash) :
    (ids.foldl (fun r id => r.addNode hash id) r).ring =
      (r.ring ++ ids.flatMap (virtualNodes hash r.virtualNodesPerNode)).insertionSort ByHash := by
  induction ids generalizing r with
  | nil => simp [h.insertionSort_eq]
  | cons _ _ ih =>
    rw [foldl_cons, ih (pairwise_insertionSort ByHash _)]
    refine eq_of_filter_key_eq VirtualNode.hash (pairwise_insertionSort ByHash _)
      (pairwise_insertionSort ByHash _) fun k => ?_
    rw [filter_hash_sort, filter_hash_sort, filter_append, addNode, filter_hash_sort,
      ← filter_append, append_assoc, flatMap_cons]

theorem ring_rebuild_eq : (r.rebuild hash members).ring = ((aliveIds members).flatMap
      (virtualNodes hash r.virtualNodesPerNode)).insertionSort ByHash := by
  rw [rebuild_eq_foldl, ring_foldl_eq _ .nil, nil_append]

theorem ring_rebuild_perm : (r.rebuild hash members).ring.Perm
      ((aliveIds members).flatMap (virtualNodes hash r.virtualNodesPerNode)) := by
  rw [ring_rebuild_eq]
  exact perm_insertionSort _ _

theorem ring_rebuild_sorted : (r.rebuild hash members).ring.Pairwise ByHash := by
  rw [ring_rebuild_eq]
  exact pairwise_insertionSort _ _

theorem filter_ring_rebuild (h : ℕ) : (r.rebuild hash members).ring.filter (fun v => v.hash = h) =
      ((aliveIds members).flatMap (virtualNodes hash r.virtualNodesPerNode)).filter
        fun v => v.hash = h := by rw [ring_rebuild_eq, filter_hash_sort]

/-! ### The owner of a key -/

variable {r : ConsistentHashRing} {key : String}

theorem getNode_eq_head? (r : ConsistentHashRing) (key : String) : r.getNode hash key =
    ((r.ring.filter fun v => v.hash ≥ hash key) ++ r.ring).head?.map VirtualNode.nodeId := by
  rw [getNode, head?_append, head?_filter]
  cases r.ring with
  | nil => rfl
  | cons first rest => cases (first :: rest).find? fun v => v.hash ≥ hash key <;> rfl

theorem getNode_eq_none_iff : r.getNode hash key = none ↔ r.ring = [] := by
  rw [getNode_eq_head?, Option.map_eq_none_iff, head?_eq_none_iff, append_eq_nil_iff]
  exact and_iff_right_of_imp fun hring => by rw [hring, filter_nil]

theorem mem_of_getNode (h : r.getNode hash key = some nodeId) :
    ∃ vnode ∈ r.ring, vnode.nodeId = nodeId := by
  rw [getNode_eq_head?] at h
  obtain ⟨vnode, hhead, rfl⟩ := Option.map_eq_some_iff.mp h
  refine ⟨vnode, ?_, rfl⟩
  rcases mem_append.mp (mem_of_head? hhead) with hmem | hmem
  · exact mem_of_mem_filter hmem
  · exact hmem

end ConsistentHashRing

/-! ### Agreement of two processes -/

/-- No virtual nodes of two nodes have the same hash. -/
def CollisionFree (hash : String → ℕ) (count : ℕ) (ids : List String) : Prop :=
  ∀ a ∈ ids, ∀ b ∈ ids, ∀ i < count, ∀ j < count,
    hash (virtualNodeKey a i) = hash (virtualNodeKey b j) → a = b

instance (hash : String → ℕ) (count : ℕ) (ids : List String) :
    Decidable (CollisionFree hash count ids) :=
  List.decidableBAll _ _

variable {hash} {count : ℕ} {ids ids' : List String} {vnode : VirtualNode}

theorem mem_virtualNodes : vnode ∈ virtualNodes hash count nodeId ↔
      ∃ i < count, vnode = ⟨nodeId, hash (virtualNodeKey nodeId i), i⟩ := by
  simp [virtualNodes, eq_comm]

theorem length_filter_flatMap_virtualNodes (hnodup : ids.Nodup) (hmem : nodeId ∈ ids) :
    ((ids.flatMap (virtualNodes hash count)).filter fun v => v.nodeId = nodeId).length = count := by
  rw [← countP_eq_length_filter, countP_flatMap, ← sum_toFinset _ hnodup,
    Finset.sum_eq_single_of_mem nodeId (mem_toFinset.mpr hmem)]
  · simp [virtualNodes, Function.comp_def]
  · intro id _ hne
    simp [virtualNodes, hne]

/-- If no hashes collide, the virtual nodes with a hash are pushed in the same order whatever the
order of the nodes. -/
theorem CollisionFree.filter_flatMap_eq (h : CollisionFree hash count ids)
    (hperm : ids'.Perm ids) (k : ℕ) :
    (ids'.flatMap (virtualNodes hash count)).filter (fun v => v.hash = k) =
      (ids.flatMap (virtualNodes hash count)).filter fun v => v.hash = k := by
  -- the nodes that have a virtual node with the hash are the same, and there is at most one
  let has : String → Bool := fun id => (virtualNodes hash count id).any fun v => v.hash = k
  have hrestrict : ∀ l : List String,
      (l.flatMap (virtualNodes hash count)).filter (fun v => v.hash = k) =
        (l.filter has).flatMap fun id =>
          (virtualNodes hash count id).filter fun v => v.hash = k := by
    intro l
    induction l with
    | nil => rfl
    | cons id l ih =>
      rw [flatMap_cons, filter_append, ih]
      by_cases hid : has id = true
      · rw [filter_cons_of_pos hid, flatMap_cons]
      · rw [filter_cons_of_neg hid]
        have hnil : (virtualNodes hash count id).filter (fun v => v.hash = k) = [] :=
          filter_eq_nil_iff.mpr fun v hv hk => hid (any_eq_true.mpr ⟨v, hv, hk⟩)
        rw [hnil, nil_append]
  have heq : ids'.filter has = ids.filter has := by
    have hfilter := hperm.filter has
    have honly : ∀ a ∈ ids.filter has, ∀ b ∈ ids.filter has, a = b := by
      intro a ha b hb
      obtain ⟨ha, v, hv, hvk⟩ : a ∈ ids ∧ ∃ v ∈ virtualNodes hash count a, v.hash = k := by
        simpa [has] using ha
      obtain ⟨hb, w, hw, hwk⟩ : b ∈ ids ∧ ∃ w ∈ virtualNodes hash count b, w.hash = k := by
        simpa [has] using hb
      obtain ⟨i, hi, rfl⟩ := mem_virtualNodes.mp hv
      obtain ⟨j, hj, rfl⟩ := mem_virtualNodes.mp hw
      exact h a ha b hb i hi j hj (hvk.trans hwk.symm)
    have hpairs : ∀ l : List String, l.Pairwise fun _ _ => True :=
      fun l => pairwise_of_forall fun _ _ => trivial
    exact hfilter.eq_of_pairwise (fun a b ha hb _ _ => honly a (hfilter.mem_iff.mp ha) b hb)
      (hpairs _) (hpairs _)
  rw [hrestrict, hrestrict, heq]

namespace ConsistentHashRing

variable {M : Type} {r : ConsistentHashRing} {members order order' : List (MembershipEntry M)}

theorem nodup_aliveIds (h : (members.map fun member => member.id).Nodup) :
    (aliveIds members).Nodup :=
  h.sublist ((filter_sublist).map _)

theorem rebuild_eq_of_perm (h : CollisionFree hash r.virtualNodesPerNode (aliveIds members))
    (horder : order.Perm members) : r.rebuild hash order = r.rebuild hash members := by
  have hring : (r.rebuild hash order).ring = (r.rebuild hash members).ring := by
    refine eq_of_filter_key_eq VirtualNode.hash (ring_rebuild_sorted r order)
      (ring_rebuild_sorted r members) fun k => ?_
    rw [filter_ring_rebuild, filter_ring_rebuild]
    exact h.filter_flatMap_eq ((horder.filter _).map _) k
  have hcount : (r.rebuild hash order).virtualNodesPerNode =
      (r.rebuild hash members).virtualNodesPerNode := by
    rw [virtualNodesPerNode_rebuild, virtualNodesPerNode_rebuild]
  cases hr : r.rebuild hash order
  cases hr' : r.rebuild hash members
  simp_all

theorem getNode_rebuild_cons {a : MembershipEntry M} {i : ℕ} {key : String}
    (ha : a.status = .alive) (hi : i < r.virtualNodesPerNode)
    (hkey : hash key = hash (virtualNodeKey a.id i)) :
    (r.rebuild hash (a :: members)).getNode hash key = some a.id := by
  let vnode : VirtualNode := ⟨a.id, hash key, i⟩
  have hvnode : vnode ∈ virtualNodes hash r.virtualNodesPerNode a.id :=
    mem_virtualNodes.mpr ⟨i, hi, by rw [← hkey]⟩
  have hids : aliveIds (a :: members) = a.id :: aliveIds members := by simp [aliveIds, ha]
  have hmem : vnode ∈ (r.rebuild hash (a :: members)).ring := by
    rw [(ring_rebuild_perm r _).mem_iff, hids, flatMap_cons]
    exact mem_append_left _ hvnode
  have hfind : (r.rebuild hash (a :: members)).ring.find? (fun v => v.hash ≥ hash key) =
      ((virtualNodes hash r.virtualNodesPerNode a.id).filter fun v => v.hash = hash key).head? := by
    rw [find?_ge_eq_head?_filter VirtualNode.hash (ring_rebuild_sorted r _) ⟨vnode, hmem, rfl⟩,
      filter_ring_rebuild, hids, flatMap_cons, filter_append]
    refine head?_append_of_ne_nil _ (ne_nil_of_mem (a := vnode) ?_)
    exact mem_filter.mpr ⟨hvnode, by simp⟩
  rw [getNode_eq_head?, head?_append, head?_filter, hfind]
  cases hhead : ((virtualNodes hash r.virtualNodesPerNode a.id).filter
      fun v => v.hash = hash key).head? with
  | none =>
    refine absurd (head?_eq_none_iff.mp hhead) (ne_nil_of_mem (a := vnode) ?_)
    exact mem_filter.mpr ⟨hvnode, by simp [vnode]⟩
  | some =>
    have hfirst := mem_of_mem_filter (mem_of_head? hhead)
    obtain ⟨j, -, rfl⟩ := mem_virtualNodes.mp hfirst
    rfl

/-- **When all processes compute the same owners.** The order in which the members were inserted
makes no difference to the owners of any key exactly if no two of the nodes on the ring have
virtual nodes with the same hash. -/
theorem owners_agree_iff (hash : String → ℕ) (r : ConsistentHashRing)
    (members : List (MembershipEntry M)) (_hids : (members.map fun member => member.id).Nodup) :
    (∀ order order' : List (MembershipEntry M), order.Perm members → order'.Perm members →
      ∀ key, (r.rebuild hash order).getNode hash key = (r.rebuild hash order').getNode hash key ∧
        ∀ n, (r.rebuild hash order).getNodes hash key n =
          (r.rebuild hash order').getNodes hash key n) ↔
      CollisionFree hash r.virtualNodesPerNode (aliveIds members) := by
  constructor
  · intro hagree a ha b hb i hi j hj hhash
    obtain ⟨x, hx, hxid⟩ := mem_map.mp ha
    obtain ⟨y, hy, hyid⟩ := mem_map.mp hb
    obtain ⟨hx, hxalive⟩ := mem_filter.mp hx
    obtain ⟨hy, hyalive⟩ := mem_filter.mp hy
    obtain ⟨before, after, hsplit⟩ := append_of_mem hx
    obtain ⟨before', after', hsplit'⟩ := append_of_mem hy
    -- one process has learnt of `a` first, the other one of `b`
    have howners := (hagree (x :: (before ++ after)) (y :: (before' ++ after'))
      (hsplit ▸ perm_middle.symm) (hsplit' ▸ perm_middle.symm) (virtualNodeKey a i)).1
    rw [getNode_rebuild_cons (of_decide_eq_true hxalive) hi (by rw [hxid]),
      getNode_rebuild_cons (of_decide_eq_true hyalive) hj (by rw [hyid, hhash])] at howners
    exact hxid.symm.trans ((Option.some.inj howners).trans hyid)
  · intro hfree order order' horder horder' key
    rw [rebuild_eq_of_perm hfree horder, rebuild_eq_of_perm hfree horder']
    exact ⟨rfl, fun _ => rfl⟩

def aliveEntry (id : String) : MembershipEntry Unit where
  id := id
  status := .alive
  lastSeen := 0
  version := 1
  metadata := none
  lastUpdated := 0

/-- A node that has added `a` first routes a key to `a`, and a node that has added `b` first routes
it to `b`, if the hashes of their virtual nodes collide. -/
theorem owners_disagree :
    ¬∀ (hash : String → ℕ) (r : ConsistentHashRing) (members : List (MembershipEntry Unit)),
      (members.map fun member => member.id).Nodup →
        ∀ order order' : List (MembershipEntry Unit), order.Perm members → order'.Perm members →
          ∀ key,
            (r.rebuild hash order).getNode hash key = (r.rebuild hash order').getNode hash key ∧
            ∀ n, (r.rebuild hash order).getNodes hash key n =
              (r.rebuild hash order').getNodes hash key n := by
  intro h
  have hkey := (h (fun _ => 7) (.create 1) [aliveEntry "a", aliveEntry "b"] (by decide)
    [aliveEntry "a", aliveEntry "b"] [aliveEntry "b", aliveEntry "a"] (.refl _) (.swap _ _ _)
    "key").1
  exact absurd hkey (by decide)

/-- The theorem where texts are hashed to their lengths. -/
theorem owners_agree_lengths : ((["a", "bbbb"].map aliveEntry).map fun member => member.id).Nodup ∧
      (ConsistentHashRing.create 3).getNode String.length "key" = none ∧
      ∀ order : List (MembershipEntry Unit), order.Perm (["a", "bbbb"].map aliveEntry) →
        ((ConsistentHashRing.create 3).rebuild String.length order).getNode String.length "key" =
          some "a" := by
  refine ⟨by decide, rfl, fun order horder => ?_⟩
  refine (((owners_agree_iff String.length (.create 3) _ (by decide)).mpr (by decide)) order _
    horder (.refl _) "key").1.trans ?_
  decide

/-! ### Changes of the ring -/

section Changes

variable {r r' : ConsistentHashRing} {key x : String}

end Changes

end ConsistentHashRing

end DistributedCore.Routing
