import DistributedCore.Cluster.ClusterQuorum
import Mathlib.Algebra.BigOperators.Group.List.Basic
import Mathlib.Tactic.Linarith

/-!
# The consistent view of a cluster

`collectClusterState` asks every other member for its state and keeps the states that arrive; a
member that fails or does not answer in time is passed over. `getConsistentView` then compares the
number of states with `minQuorumSize` and with half of that same number, so the second bound never
refuses anything: the size of the membership does not enter, and a view of a minority resolves
unless `minQuorumSize` is large enough.

Source: `src/cluster/aggregation/StateAggregator.ts`.
-/

namespace DistributedCore.Cluster

open OrderedMap List

/-- What the consistency score looks at in the state of a node: `health.totalNodes`, and the ids of
its `logicalServices`. -/
structure ClusterState where
  totalNodes : ℕ
  serviceIds : List String

/-- The quorum that a view needs, and whether its consistency is checked. -/
structure StateAggregatorConfig where
  minQuorumSize : ℚ
  enableConsistencyChecks : Bool

structure AggregatedClusterState where
  nodeStates : OrderedMap String ClusterState
  consistencyScore : ℚ

/-- Why there is no consistent view. -/
inductive ViewError
  | insufficientNodes (nodeCount : ℕ) (requiredQuorum : ℚ)
  | inconsistency (score : ℚ)

namespace StateAggregator

/-- One point for each node whose number of members is within 1 of the average, and one if no id of
a service occurs twice. -/
def calculateConsistencyScore (nodeStates : OrderedMap String ClusterState) : ℚ :=
  let states := nodeStates.values
  if states.length ≤ 1 then 1
  else
    let membershipSizes : List ℚ := states.map fun state => state.totalNodes
    let avgMembershipSize := membershipSizes.sum / membershipSizes.length
    let close := membershipSizes.filter fun size => |size - avgMembershipSize| ≤ 1
    let unique := if (states.flatMap (·.serviceIds)).Nodup then 1 else 0
    (close.length + unique : ℕ) / (membershipSizes.length + 1 : ℕ)

/-- The states after the collections have settled in this order; `none` is a collection that failed
or timed out. The local state is always included. -/
def collectNodeStates (localId : String) (localState : ClusterState)
    (settled : List (String × Option ClusterState)) : OrderedMap String ClusterState :=
  settled.foldl (fun nodeStates (nodeId, result) =>
    match result with
    | some remoteState => nodeStates.set nodeId remoteState
    | none => nodeStates) (OrderedMap.empty.set localId localState)

def collectClusterState (localId : String) (localState : ClusterState)
    (settled : List (String × Option ClusterState)) : AggregatedClusterState :=
  let nodeStates := collectNodeStates localId localState settled
  ⟨nodeStates, calculateConsistencyScore nodeStates⟩

def getConsistentView (config : StateAggregatorConfig) (localId : String)
    (localState : ClusterState) (settled : List (String × Option ClusterState)) :
    Except ViewError AggregatedClusterState :=
  let state := collectClusterState localId localState settled
  if ¬ config.enableConsistencyChecks then .ok state
  else
    let nodeCount := state.nodeStates.keys.length
    let requiredQuorum : ℚ := max config.minQuorumSize (ceilHalf nodeCount)
    if nodeCount < requiredQuorum then .error (.insufficientNodes nodeCount requiredQuorum)
    else if state.consistencyScore < 4 / 5 then .error (.inconsistency state.consistencyScore)
    else .ok state

/-- Every member but the local one has answered or failed, in some order. -/
def Settles (members : List String) (localId : String)
    (settled : List (String × Option ClusterState)) : Prop :=
  (settled.map Prod.fst).Perm (members.filter (· ≠ localId))

/-- The number of members that answered, the local one included. -/
def collected (settled : List (String × Option ClusterState)) : ℕ := settled.countP (·.2.isSome) + 1

variable {config : StateAggregatorConfig} {members others : List String} {localId : String}
  {localState : ClusterState} {settled : List (String × Option ClusterState)} {k : ℕ}

/-- The states that were collected, one for each member that answered. -/
theorem entries_collectNodeStates (hfresh : (localId :: settled.map Prod.fst).Nodup) :
    (collectNodeStates localId localState settled).entries =
      (localId, localState) :: settled.filterMap fun p => p.2.map fun state => (p.1, state) := by
  suffices h : ∀ (l : List (String × Option ClusterState)) (m : OrderedMap String ClusterState),
      (m.keys ++ l.map Prod.fst).Nodup →
      (l.foldl (fun nodeStates (p : String × Option ClusterState) =>
        match p.2 with
        | some remoteState => nodeStates.set p.1 remoteState
        | none => nodeStates) m).entries =
        m.entries ++ l.filterMap fun p => p.2.map fun state => (p.1, state) by
    exact h settled (empty.set localId localState) hfresh
  intro l
  induction l with
  | nil => simp
  | cons p l ih =>
    intro m hnodup
    obtain ⟨nodeId, result⟩ := p
    cases result with
    | none =>
      rw [foldl_cons, ih m]
      · rfl
      · exact hnodup.sublist ((sublist_cons_self _ _).append_left _)
    | some state =>
      have hnone : m.get nodeId = none := by
        rw [← has_eq_false_iff, Bool.eq_false_iff, Ne, has_iff, ← mem_keys_iff]
        intro hmem
        exact (nodup_append.mp hnodup).2.2 nodeId hmem nodeId (by simp) rfl
      have hentries := entries_set_of_get_eq_none hnone state
      rw [foldl_cons, ih]
      · simp [hentries]
      · simpa [OrderedMap.keys, hentries] using hnodup

theorem Settles.fresh (h : Settles members localId settled) (hnodup : members.Nodup) :
    (localId :: settled.map Prod.fst).Nodup := by
  refine nodup_cons.mpr ⟨fun hmem => ?_, h.nodup_iff.mpr (hnodup.filter _)⟩
  simpa using h.mem_iff.mp hmem

theorem Settles.length_keys (h : Settles members localId settled) (hnodup : members.Nodup) :
    (collectNodeStates localId localState settled).keys.length = collected settled := by
  rw [OrderedMap.keys, entries_collectNodeStates (h.fresh hnodup), collected, length_map,
    length_cons, length_filterMap_eq_countP]
  simp

/-- States without services that count the same members agree completely. -/
theorem calculateConsistencyScore_eq_one {nodeStates : OrderedMap String ClusterState}
    (h : ∀ state ∈ nodeStates.values, state = ⟨0, []⟩) :
    calculateConsistencyScore nodeStates = 1 := by
  have hvalues := eq_replicate_of_mem h
  generalize nodeStates.values.length = n at hvalues
  rw [calculateConsistencyScore, hvalues]
  split
  · rfl
  · have hids : (List.replicate n (⟨0, []⟩ : ClusterState)).flatMap (·.serviceIds) = [] := by simp
    have hclose : (List.replicate n (0 : ℚ)).filter (fun size => |size - 0| ≤ 1) =
        List.replicate n 0 := by simp
    simp only [hids, map_replicate, Nat.cast_zero, sum_replicate, nsmul_zero, zero_div,
      hclose, length_replicate, nodup_nil, if_true]
    exact div_self (Nat.cast_ne_zero |>.mpr n.succ_ne_zero)

theorem getConsistentView_eq_ok (hchecks : config.enableConsistencyChecks = true)
    {view : AggregatedClusterState} :
    getConsistentView config localId localState settled = .ok view ↔
      config.minQuorumSize ≤ (collectNodeStates localId localState settled).keys.length ∧
        4 / 5 ≤ (collectClusterState localId localState settled).consistencyScore ∧
        collectClusterState localId localState settled = view := by
  have hhalf : (ceilHalf (collectNodeStates localId localState settled).keys.length : ℚ) ≤
      (collectNodeStates localId localState settled).keys.length := by
    rw [Nat.cast_le, ceilHalf]
    omega
  simp only [getConsistentView, hchecks, not_true_eq_false, if_false]
  split_ifs with hfew hscore
  · refine iff_of_false (by simp) fun h => not_le.mpr hfew (max_le h.1 hhalf)
  · exact iff_of_false (by simp) fun h => not_le.mpr hscore h.2.1
  · rw [not_lt] at hfew hscore
    rw [Except.ok.injEq]
    exact ⟨fun h => ⟨(le_max_left _ _).trans hfew, hscore, h⟩, fun h => h.2.2⟩

def answersOf (others : List String) (k : ℕ) : List (String × Option ClusterState) :=
  (others.take k).map (·, some ⟨0, []⟩) ++ (others.drop k).map (·, none)

theorem collected_answersOf (hk : k ≤ others.length) : collected (answersOf others k) = k + 1 := by
  rw [collected, answersOf, countP_append, countP_map, countP_map]
  simp [Function.comp_def, hk]

theorem eq_of_mem_answersOf {id : String} {state : ClusterState}
    (h : (id, some state) ∈ answersOf others k) : state = ⟨0, []⟩ := by
  rcases mem_append.mp h with h | h
  · obtain ⟨_, -, heq⟩ := mem_map.mp h
    cases heq
    rfl
  · obtain ⟨_, -, heq⟩ := mem_map.mp h
    cases heq

/-- **When a consistent view is backed by a quorum.** Whatever collections are answered, fail or
time out, a view resolves only with the states of half of the members, if and only if there are at
most two members, or `minQuorumSize` is more than half of the members, rounded up, minus one. -/
theorem consistentView_backed_iff (config : StateAggregatorConfig) (members : List String)
    (localId : String) (hchecks : config.enableConsistencyChecks = true)
    (hnodup : members.Nodup) (hlocal : localId ∈ members) :
    (∀ localState settled view, Settles members localId settled →
      getConsistentView config localId localState settled = .ok view →
      ceilHalf members.length ≤ collected settled) ↔
    members.length ≤ 2 ∨ (ceilHalf members.length : ℚ) - 1 < config.minQuorumSize := by
  constructor
  · intro h
    by_contra hsmall
    rw [not_or, not_le, not_lt] at hsmall
    obtain ⟨hmany, hmin⟩ := hsmall
    let others := members.filter (· ≠ localId)
    have hothers : others.length = members.length - 1 := by
      rw [← length_erase_of_mem hlocal, hnodup.erase_eq_filter]
      exact congrArg List.length (filter_congr fun x _ => decide_not)
    have hsettles : Settles members localId (answersOf others (ceilHalf members.length - 2)) := by
      simp [Settles, answersOf, Function.comp_def, others]
    -- one member less than half of them is collected
    have hcollected : collected (answersOf others (ceilHalf members.length - 2)) =
        ceilHalf members.length - 1 := by
      rw [collected_answersOf (by rw [hothers, ceilHalf]; omega), ceilHalf]
      omega
    have hview := h ⟨0, []⟩ _ _ hsettles ((getConsistentView_eq_ok hchecks).mpr ⟨?_, ?_, rfl⟩)
    · rw [hcollected, ceilHalf] at hview
      omega
    · rw [hsettles.length_keys hnodup, hcollected, Nat.cast_sub (by rw [ceilHalf]; omega)]
      exact_mod_cast hmin
    · rw [collectClusterState, calculateConsistencyScore_eq_one]
      · norm_num
      · intro state hstate
        rw [values, entries_collectNodeStates (hsettles.fresh hnodup), map_cons, mem_cons] at hstate
        rcases hstate with rfl | hstate
        · rfl
        · simp only [mem_map, mem_filterMap, Option.map_eq_some_iff] at hstate
          obtain ⟨_, ⟨⟨id, _⟩, hmem, _, rfl, rfl⟩, rfl⟩ := hstate
          exact eq_of_mem_answersOf hmem
  · rintro hsize localState settled view hsettles hview
    obtain ⟨hmin, -, -⟩ := (getConsistentView_eq_ok hchecks).mp hview
    rw [hsettles.length_keys hnodup] at hmin
    rcases hsize with htwo | hmany
    · rw [collected, ceilHalf]
      omega
    · have hlt : (ceilHalf members.length : ℚ) < collected settled + 1 := by linarith
      exact Nat.lt_succ_iff.mp (by exact_mod_cast hlt)

def twoAnswers : List (String × Option ClusterState) :=
  [("b", some ⟨5, []⟩), ("c", none), ("d", some ⟨5, []⟩), ("e", none)]

theorem consistentView_backed_five : ceilHalf 5 ≤ collected twoAnswers := by
  have hok : (getConsistentView ⟨3, true⟩ "a" ⟨5, []⟩ twoAnswers).isOk = true := by decide +kernel
  cases hview : getConsistentView ⟨3, true⟩ "a" ⟨5, []⟩ twoAnswers with
  | error =>
    rw [hview] at hok
    cases hok
  | ok =>
    exact (consistentView_backed_iff ⟨3, true⟩ ["a", "b", "c", "d", "e"] "a" rfl (by decide)
      (by decide)).mpr (.inr (by decide +kernel)) ⟨5, []⟩ _ _ (.of_eq (by decide)) hview

/-- An aggregator that was constructed when its node was alone: nobody of four others answers, and
the view resolves all the same. -/
theorem consistentView_of_minority :
    Settles ["a", "b", "c", "d", "e"] "a" [("b", none), ("c", none), ("d", none), ("e", none)] ∧
      (getConsistentView ⟨1, true⟩ "a" ⟨5, []⟩
        [("b", none), ("c", none), ("d", none), ("e", none)]).isOk = true ∧
      collected [("b", none), ("c", none), ("d", none), ("e", none)] < ceilHalf 5 :=
  ⟨.of_eq (by decide), by decide +kernel, by decide⟩

end StateAggregator

end DistributedCore.Cluster
