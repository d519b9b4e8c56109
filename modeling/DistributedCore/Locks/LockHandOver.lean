import DistributedCore.Entity.TombstoneOrder
import DistributedCore.Library.GossipCounter
import DistributedCore.Locks.LockFencing
import DistributedCore.Locks.LockWinners

/-!
# Handing a lock over to another node

Every node has a registry of its own, a `DistributedLock` on it and an `EntityRegistrySyncAdapter`
on a common topic. A node counts the tokens of a lock in the sidecar of its own registry, and a
lock that is handed over needs a larger token on the next node. So the sidecar has to follow the
lock.

Source: `src/cluster/locks/DistributedLock.ts`, `src/cluster/entity/EntityRegistrySyncAdapter.ts`,
`src/cluster/entity/InMemoryEntityRegistry.ts`, `src/cluster/entity/CrdtEntityRegistry.ts`.
-/

namespace DistributedCore.Locks

open Entity Function SyncNetwork List Option

variable {M S G : Type}

/-! ### The network -/

abbrev LockNetwork (M S G : Type) := SyncNetwork M (LockValue M) (LockSystem Unit M S G)

abbrev MemoryLockNetwork (M : Type) :=
  LockNetwork M (InMemoryEntityRegistry M (LockValue M)) (CallOutcome M (LockValue M))

/-- The events of the nodes and the deliveries between them. -/
inductive LockNetworkEvent (M : Type)
  /-- An event of the lock or of the registry of a node. -/
  | act (node : M) (ev : LockEvent Unit M)
  /-- The update at position `index` of the link from `publisher` to `dest` arrives. -/
  | deliver (publisher dest : M) (index : ℕ) (now : ℕ)

def LockEvent.now {ι : Type} : LockEvent ι M → ℕ
  | .tryAcquire _ _ _ now => now
  | .extend _ _ _ now => now
  | .release _ _ now => now
  | .expire _ _ now => now
  | .handleRemoteNodeFailure _ _ now => now
  | .call _ now => now
  | .update _ now => now
  | .resume _ now _ => now

namespace LockNetworkEvent

def InOrder : LockNetworkEvent M → Prop
  | .act .. => True
  | .deliver _ _ index _ => index = 0

def AvoidsFences : LockNetworkEvent M → Prop
  | .act _ ev => ev.AvoidsFences
  | .deliver .. => True

instance : (ev : LockNetworkEvent M) → Decidable ev.InOrder
  | .act .. => .isTrue trivial
  | .deliver _ _ index _ => inferInstanceAs (Decidable (index = 0))

instance : (ev : LockNetworkEvent M) → Decidable ev.AvoidsFences
  | .act _ ev => inferInstanceAs (Decidable ev.AvoidsFences)
  | .deliver .. => .isTrue trivial

end LockNetworkEvent

def newUpdates (before after : LockSystem Unit M S G) (now : ℕ) : List (LockUpdate M) :=
  (after.emitted.drop before.emitted.length).map (adapterUpdate now)

def lockNetworkStep [DecidableEq M] (A : LockRegistry M S G) (members : Finset M)
    (s : LockNetwork M S G) : LockNetworkEvent M → Option (LockNetwork M S G)
  | .act x ev =>
    if x ∈ members then
      (LockSystem.step A (s.node x) ev).map fun node =>
        (s.setNode x node).publish members x (newUpdates (s.node x) node ev.now)
    else none
  | .deliver p d i now =>
    (s.link p d)[i]?.bind fun u =>
      (LockSystem.step A (s.node d) (.update u now)).map fun node =>
        ((s.consume p d i).setNode d node).publish members d (newUpdates (s.node d) node now)

/-- No update is on its way, and no call has taken a token. -/
def AtRest (members : Finset M) (s : LockNetwork M S G) : Prop :=
  ∀ x ∈ members, (∀ d ∈ members, s.link x d = []) ∧ ∀ task ∈ (s.node x).tasks, task.token = none

instance [DecidableEq M] (members : Finset M) (s : LockNetwork M S G) :
    Decidable (AtRest members s) :=
  inferInstanceAs (Decidable (∀ x ∈ _, (∀ d ∈ members, _ = []) ∧ ∀ task ∈ _, _ = none))

/-- **Hand-over.** The handles that were returned between the states `s` and `t` have larger tokens
than all handles for the same lock that were returned before, on any node. -/
def HandsOver (members : Finset M) (s t : LockNetwork M S G) : Prop :=
  ∀ p ∈ members, ∀ d ∈ members, ∀ old ∈ (s.node p).returned,
    ∀ new ∈ (t.node d).returned.drop (s.node d).returned.length,
      old.2.lockId = new.2.lockId → old.2.fencingToken < new.2.fencingToken

/-! ### Sidecars as counters -/

/-- The update sets the fence to `n`. -/
structure Carries (u : LockUpdate M) (n : ℕ) : Prop where
  version : u.version = n
  token : u.patch "fencingToken" = some (.token n)
  operation : u.operation = if n = 1 then .create else .update

/-- The fence has counted up to `n`. -/
structure Counts (fence : Option (EntityRecord M (LockValue M))) (n : ℕ) : Prop where
  sidecar : Sidecar fence n
  created : n = 0 → fence = none

variable {fence : Option (EntityRecord M (LockValue M))} {u : LockUpdate M} {n : ℕ}

theorem Counts.eq_zero_iff (h : Counts fence n) : n = 0 ↔ fence = none := by
  refine ⟨h.created, ?_⟩
  rintro rfl
  cases h.sidecar
  rfl

theorem carries_fenceUpdate (h : Counts fence n) (x : M) (l : LockId) (now : ℕ) :
    Carries (fenceUpdate x l fence.isSome (n + 1) now) (n + 1) := by
  refine ⟨rfl, by simp [EntityUpdate.patch, fenceUpdate], ?_⟩
  cases fence <;> simp [fenceUpdate, h.eq_zero_iff]

/-- A sidecar takes the tokens that a counter accepts, and emits an event that carries the token;
the other tokens change nothing. -/
theorem Carries.apply {c : ℕ} (hu : Carries u n) (hc : Counts fence c) :
    Counts (u.apply fence).1 (GossipCounter.receive c n).1 ∧
      ∀ now, Forall₂ Carries ((u.apply fence).2.map (adapterUpdate now))
        (GossipCounter.receive c n).2 := by
  have happlied := u.applied_apply fence
  have hop := hu.operation
  have hzero := hc.eq_zero_iff
  generalize (u.apply fence).1 = after, (u.apply fence).2 = events at happlied ⊢
  rw [GossipCounter.receive]
  cases happlied with
  | created op =>
    obtain rfl : n = 1 := by
      by_contra hn
      rw [if_neg hn, op] at hop
      cases hop
    have htoken : u.newRecord.metadata.get "fencingToken" = some (.token 1) :=
      (u.get_getD_metadata _).trans hu.token
    rw [if_pos ⟨by rw [hzero.mpr rfl]; exact zero_lt_one, fun _ => rfl⟩]
    exact ⟨⟨.counting hu.version htoken, fun h => absurd h one_ne_zero⟩,
      fun now => .cons ⟨hu.version, htoken, rfl⟩ .nil⟩
  | @updated record op newer =>
    have hn : n ≠ 1 := by
      rintro rfl
      rw [op] at hop
      cases hop
    obtain _ | ⟨version, -⟩ := hc.sidecar
    rw [hu.version, version, Int.ofNat_lt] at newer
    have htoken : (record.updatedBy u).metadata.get "fencingToken" = some (.token n) := by
      simp [EntityRecord.updatedBy, OrderedMap.get_spread, u.get_getD_metadata, hu.token]
    rw [if_pos ⟨newer, fun h => absurd (hzero.mp h) (by simp)⟩]
    exact ⟨⟨.counting hu.version htoken, fun h => by omega⟩,
      fun now => .cons ⟨hu.version, htoken, (if_neg hn).symm⟩ .nil⟩
  | transferred op | deleted op =>
    rw [op] at hop
    split_ifs at hop
  | @present record op stale =>
    obtain _ | ⟨version, -⟩ := hc.sidecar
    have hstale : n ≠ 1 → n ≤ c := by
      intro hn
      have hle := stale (by rw [hop, if_neg hn]; decide)
      rwa [hu.version, version, Int.ofNat_le] at hle
    have hpos : c ≠ 0 := fun h => absurd (hzero.mp h) (by simp)
    rw [if_neg (by omega)]
    exact ⟨hc, fun _ => .nil⟩
  | absent op =>
    rw [if_neg fun h => op (by rw [hop, if_pos (h.2 (hzero.mpr rfl))])]
    exact ⟨hc, fun _ => .nil⟩

/-! ### What a node does -/

section Node

variable [DecidableEq M] {l : LockId} {x : M} {N c c' : ℕ} {base : List (Unit × LockHandle M)}
  {node node' : MemoryLocks Unit M}

omit [DecidableEq M] in
/-- The sidecar of `l` on the node `x` has counted `c` tokens. The tokens that the node has taken
since it had counted `N` tokens and returned the handles `base` are between these numbers. -/
structure NodeCounts (l : LockId) (x : M) (N : ℕ) (base : List (Unit × LockHandle M))
    (node : MemoryLocks Unit M) (c : ℕ) : Prop where
  valid : node.registry.Valid x
  tasks : ∀ task ∈ node.tasks, task.AvoidsFences
  counts : Counts (fences node.registry l) c
  floor : N ≤ c
  pending : ∀ {k t}, node.tokenOf k = some (l, t) → N < t ∧ t ≤ c
  returned : ∃ new, node.returned = base ++ new ∧ ∀ t ∈ tokensOf new l, N < t ∧ t ≤ c

section

variable (h : NodeCounts l x N base node c)

include h

omit [DecidableEq M] in
theorem NodeCounts.congr (hvalid : node'.registry.Valid x)
    (htasks : ∀ task ∈ node'.tasks, task.AvoidsFences)
    (hcounts : Counts (fences node'.registry l) c') (hc : c ≤ c')
    (htokens : ∀ {k t}, node'.tokenOf k = some (l, t) →
      node.tokenOf k = some (l, t) ∨ N < t ∧ t ≤ c')
    (hreturned : node'.returned = node.returned) : NodeCounts l x N base node' c' := by
  obtain ⟨new, hnew, htokens'⟩ := h.returned
  refine ⟨hvalid, htasks, hcounts, h.floor.trans hc, fun hk => ?_,
    new, hreturned.trans hnew, fun t ht => (htokens' t ht).imp_right (le_trans · hc)⟩
  exact (htokens hk).elim (fun hk => (h.pending hk).imp_right (le_trans · hc)) id

/-- **What a node does.** It leaves the sidecar of `l` alone, or it takes a token and emits one
event, which carries the token. -/
theorem NodeCounts.act {ev : LockEvent Unit M}
    (hev : ev.AvoidsFences) (hstep : memoryStep node ev = some node') :
    ∃ events, node'.emitted = node.emitted ++ events ∧ ((NodeCounts l x N base node' c ∧
          ∀ event ∈ events, event.record.entityId ≠ fenceEntityId l) ∨
        (NodeCounts l x N base node' (c + 1) ∧
          (∀ event ∈ events, event.record.entityId = fenceEntityId l) ∧
          ∀ now, Forall₂ Carries (events.map (adapterUpdate now)) [c + 1])) := by
  obtain ⟨hvalid, htoken⟩ := tokenStep_of_step h.valid h.tasks hev hstep
  have htasks := avoidsFences_step h.tasks hev hstep
  cases htoken with
  | quiet events hspares hemitted hfences htokens hreturned =>
    refine ⟨events, hemitted, .inl ⟨h.congr hvalid htasks ?_ le_rfl
      (fun hk => .inl (htokens ▸ hk)) hreturned, fun event hevent heq => ?_⟩⟩
    · rw [hfences]
      exact h.counts
    · exact ne_fenceEntityId (hspares event hevent) l heq.symm
  | dropped k hemitted hfences htokens hreturned =>
    refine ⟨[], by rw [hemitted, append_nil], .inl ⟨h.congr hvalid htasks ?_ le_rfl
      (fun {j t} hj => .inl ?_) hreturned, fun _ hevent => absurd hevent not_mem_nil⟩⟩
    · rw [hfences]
      exact h.counts
    · rw [htokens, update_apply] at hj
      split_ifs at hj
      exact hj
  | returned k i handle hemitted hfences hheld htokens hreturned =>
    refine ⟨[], by rw [hemitted, append_nil], .inl ⟨⟨hvalid, htasks, hfences ▸ h.counts,
      h.floor, fun {j t} hj => ?_, ?_⟩, fun _ hevent => absurd hevent not_mem_nil⟩⟩
    · rw [htokens, update_apply] at hj
      split_ifs at hj
      exact h.pending hj
    · obtain ⟨new, hnew, hnew'⟩ := h.returned
      refine ⟨new ++ [(i, handle)], by rw [hreturned, hnew, append_assoc], ?_⟩
      rw [tokensOf_append]
      split_ifs with hl
      · subst hl
        exact forall_mem_append.mpr ⟨hnew', forall_mem_singleton.mpr (h.pending hheld)⟩
      · exact hnew'
  | taken l' _ y token now _ hnext hemitted hfences htokens hreturned =>
    have hids := ((EntityUpdate.applied_apply
      (fenceUpdate y l' (fences node.registry l').isSome token now) _).entityId
        fun record hrecord => h.valid.keyed hrecord).1
    refine ⟨_, hemitted, ?_⟩
    by_cases hl : l = l'
    · subst hl
      obtain rfl : token = c + 1 := by
        rw [hnext, Sidecar.getCurrentFencingToken_eq h.counts.sidecar]
      obtain ⟨hcounts, hcarries⟩ := (carries_fenceUpdate h.counts y l now).apply h.counts
      rw [GossipCounter.receive, if_pos ⟨c.lt_succ_self, fun hc => by rw [hc]⟩] at hcounts hcarries
      refine .inr ⟨h.congr hvalid htasks ?_ c.le_succ (fun {j t} hj => ?_) hreturned, hids,
        hcarries⟩
      · rw [hfences, update_self]
        exact hcounts
      · rw [htokens, update_apply] at hj
        split_ifs at hj with hjk
        · cases hj
          exact .inr ⟨Nat.lt_succ_of_le h.floor, le_rfl⟩
        · exact .inl hj
    · refine .inl ⟨h.congr hvalid htasks ?_ le_rfl (fun {j t} hj => .inl ?_) hreturned,
        fun event hevent heq => hl (fenceEntityId_inj.mp (heq.symm.trans (hids event hevent)))⟩
      · rw [hfences, update_of_ne hl]
        exact h.counts
      · rw [htokens, update_apply] at hj
        split_ifs at hj with hjk
        · exact absurd (Prod.mk.inj (some.inj hj)).1.symm hl
        · exact hj

/-- **An update arrives.** -/
theorem NodeCounts.update {now : ℕ}
    (hstep : memoryStep node (.update u now) = some node') (hc : c ≤ c')
    (hcounts : Counts (fences (node.registry.applyRemoteUpdate u).1 l) c') :
    NodeCounts l x N base node' c' ∧
      node'.emitted = node.emitted ++ (u.apply (node.registry.entities.get u.entityId)).2 ∧
      ∀ event ∈ (u.apply (node.registry.entities.get u.entityId)).2,
        event.record.entityId = u.entityId := by
  have hevents := node.registry.applyRemoteUpdate_events u
  cases hstep
  refine ⟨h.congr (h.valid.applyRemoteUpdate u).1 ?_ hcounts hc (fun {k t} hk => .inl ?_) rfl,
    congrArg _ hevents, hevents ▸ (h.valid.applyRemoteUpdate u).2⟩
  · exact forall_mem_append.mpr ⟨h.tasks, forall_mem_singleton.mpr trivial⟩
  · exact LockSystem.tokenOf_addTasks_of_none node
      (forall_mem_singleton.mpr (rfl : LockTask.token (.cleanup _) = none)) ▸ hk

end

end Node

/-! ### The simulation -/

section Simulation

variable [DecidableEq M] {members : Finset M} {l : LockId} {N : M → ℕ}
  {base : M → List (Unit × LockHandle M)}

abbrev Simulates (l : LockId) (N : M → ℕ) (base : M → List (Unit × LockHandle M)) :
    MemoryLockNetwork M → GossipCounter M → Prop :=
  Projects (fun x node c => NodeCounts l x (N x) (base x) node c) Carries (fenceEntityId l)

variable {s s' : MemoryLockNetwork M} {a : GossipCounter M}

omit [DecidableEq M] in
theorem newUpdates_eq {before after : MemoryLocks Unit M}
    {events : List (RegistryEvent M (LockValue M))} (now : ℕ)
    (h : after.emitted = before.emitted ++ events) :
    newUpdates before after now = events.map (adapterUpdate now) := by rw [newUpdates, h, drop_left]

section

variable (h : Simulates l N base s a)

include h

/-- **A step of the network is a step of the counters.** -/
theorem Simulates.step {ev : LockNetworkEvent M}
    (ha : a.Inv members) (hev : ev.InOrder ∧ ev.AvoidsFences)
    (hstep : lockNetworkStep inMemoryRegistry members s ev = some s') :
    ∃ a' : GossipCounter M, a'.Inv members ∧ Simulates l N base s' a' := by
  cases ev with
  | act x ev =>
    simp only [lockNetworkStep] at hstep
    split_ifs at hstep with hx
    obtain ⟨node, hnode, rfl⟩ := map_eq_some_iff.mp hstep
    obtain ⟨events, hemitted, ⟨hcounts, hother⟩ | ⟨hcounts, hids, hcarries⟩⟩ :=
      (h.node x).act hev.2 hnode
    · rw [newUpdates_eq _ hemitted]
      exact ⟨a, ha, h.publish_others members _ hcounts hother _⟩
    · rw [newUpdates_eq _ hemitted]
      exact ⟨_, ha.raise hx (Nat.lt_succ_self _) fun hzero => by rw [hzero],
        h.publish_events members _ hcounts hids (hcarries ev.now)⟩
  | deliver p d i now =>
    obtain rfl : i = 0 := hev.1
    obtain ⟨u, hu, hstep⟩ := bind_eq_some_iff.mp hstep
    obtain ⟨node, hnode, rfl⟩ := map_eq_some_iff.mp hstep
    obtain ⟨rest, hlink⟩ := exists_link_eq_cons hu
    have hd := h.node d
    have hconsume := h.consume hlink
    have hget := (s.node d).registry.get_applyRemoteUpdate u
    by_cases hid : u.entityId = fenceEntityId l
    · obtain ⟨n, values, hvalues, hn⟩ := h.exists_head hlink hid
      have hfence : (s.node d).registry.entities.get u.entityId = fences (s.node d).registry l := by
        rw [hid, fences]
      obtain ⟨hcounts, hcarries⟩ := hn.apply hd.counts
      obtain ⟨hnode', hemitted, hids⟩ := hd.update hnode (GossipCounter.le_accept _ n)
        (by rw [fences, hget, if_pos hid.symm, hfence]; exact hcounts)
      rw [newUpdates_eq now hemitted]
      rw [if_pos hid] at hconsume
      exact ⟨_, ha.receive hvalues, hconsume.publish_events members _ hnode' (hid ▸ hids)
        (hfence ▸ hcarries now)⟩
    · obtain ⟨hnode', hemitted, hids⟩ := hd.update hnode le_rfl
        (by rw [fences, hget, if_neg (Ne.symm hid)]; exact hd.counts)
      rw [newUpdates_eq now hemitted]
      rw [if_neg hid] at hconsume
      exact ⟨a, ha, hconsume.publish_others members _ hnode'
        (fun event hevent => hids event hevent ▸ hid) now⟩

theorem Simulates.run {es : List (LockNetworkEvent M)} (ha : a.Inv members)
    (hes : ∀ ev ∈ es, ev.InOrder ∧ ev.AvoidsFences)
    (hrun : exec (lockNetworkStep inMemoryRegistry members) s es = some s') :
    ∃ a' : GossipCounter M, a'.Inv members ∧ Simulates l N base s' a' := by
  refine exec_invariant (P := fun s : MemoryLockNetwork M => ∃ a : GossipCounter M, a.Inv members ∧
      Simulates l N base s a)
    ?_ ⟨a, ha, h⟩ ((allSteps_true _ s es).and_forall hes) hrun
  rintro s ev s' ⟨a, ha, h⟩ ⟨-, hev⟩ hstep
  exact h.step ha hev hstep

theorem Simulates.restart (hs : ∀ x ∈ members, ∀ task ∈ (s.node x).tasks, task.token = none) :
    Simulates l (fun x => if x ∈ members then a.state x else N x)
      (fun x => if x ∈ members then (s.node x).returned else base x) s a := by
  refine ⟨fun x => ?_, h.link⟩
  by_cases hx : x ∈ members
  · simp only [if_pos hx]
    refine ⟨(h.node x).valid, (h.node x).tasks, (h.node x).counts, le_rfl, fun {k t} hk => ?_, [],
      (append_nil _).symm, fun t ht => absurd ht not_mem_nil⟩
    obtain ⟨task, htask, htoken⟩ := bind_eq_some_iff.mp hk
    rw [hs x hx task (mem_of_getElem? htask)] at htoken
    cases htoken
  · simp only [if_neg hx]
    exact h.node x

end

end Simulation

def lockNetworkInitial (lock : M → DistributedLock M) : MemoryLockNetwork M :=
  .initial fun x => .initial (InMemoryEntityRegistry.create x).start fun _ => lock x

theorem simulates_initial (lock : M → DistributedLock M) (l : LockId) :
    Simulates l (fun _ => 0) (fun _ => []) (lockNetworkInitial lock)
      ⟨fun _ => 0, fun _ _ => []⟩ := by
  refine ⟨fun x => ?_, fun p d => .nil⟩
  refine ⟨InMemoryEntityRegistry.valid_create x, fun _ h => absurd h not_mem_nil,
    ⟨.absent, fun _ => rfl⟩, le_rfl, fun {k t} hk => ?_, [], rfl,
    fun t ht => absurd ht not_mem_nil⟩
  simp [LockSystem.tokenOf, lockNetworkInitial, SyncNetwork.initial, LockSystem.initial] at hk

theorem mem_tokensOf {ι : Type} {returned : List (ι × LockHandle M)} {p : ι × LockHandle M}
    (h : p ∈ returned) : p.2.fencingToken ∈ tokensOf returned p.2.lockId :=
  mem_map_of_mem (mem_filter.mpr ⟨h, by simp⟩)

/-- **Hand-over between in-memory registries.** Updates are delivered in the order of their
publication, and no lock or entity has the name of a sidecar. After a state in which everything was
delivered and every call has returned its token, all tokens of a lock are larger than those that any
node has returned before. -/
theorem handsOver_run [DecidableEq M] (members : Finset M) (lock : M → DistributedLock M)
    (es es' : List (LockNetworkEvent M)) (s t : MemoryLockNetwork M)
    (hes : ∀ ev ∈ es ++ es', ev.InOrder ∧ ev.AvoidsFences)
    (hs : exec (lockNetworkStep inMemoryRegistry members) (lockNetworkInitial lock) es = some s)
    (hsettled : AtRest members s)
    (ht : exec (lockNetworkStep inMemoryRegistry members) s es' = some t) :
    HandsOver members s t := by
  intro p hp d hd old hold new hnew hlock
  obtain ⟨hes, hes'⟩ := forall_mem_append.mp hes
  obtain ⟨a, ha, hsim⟩ := (simulates_initial lock old.2.lockId).run GossipCounter.inv_initial hes hs
  obtain ⟨a', -, hsim'⟩ := (hsim.restart fun x hx => (hsettled x hx).2).run ha hes' ht
  -- everything was delivered, so the counter of `d` was not behind that of `p`
  have hquiet : a.link p d = [] := by
    have hlink := hsim.link p d
    rw [(hsettled p hp).1 d hd] at hlink
    exact forall₂_nil_left_iff.mp hlink
  calc old.2.fencingToken ≤ a.state p := by
        obtain ⟨before, hbefore, htokens⟩ := (hsim.node p).returned
        rw [nil_append] at hbefore
        exact (htokens _ (mem_tokensOf (hbefore ▸ hold))).2
    _ ≤ a.state d := ha.le_of_quiet hp hd hquiet
    _ < new.2.fencingToken := by
        have hnode := hsim'.node d
        simp only [if_pos hd] at hnode
        obtain ⟨after, hafter, htokens⟩ := hnode.returned
        rw [hafter, drop_left] at hnew
        exact (htokens _ (hlock ▸ mem_tokensOf hnew)).1

/-! ### Concrete runs -/

def defaultLock (x : String) : DistributedLock String := .create x 30000

def exchange (k now : ℕ) : List (LockNetworkEvent String) :=
  List.replicate k (.deliver "n1" "n2" 0 now) ++ List.replicate k (.deliver "n2" "n1" 0 now)

def acquireExtendRelease : List (LockNetworkEvent String) :=
  (acquireAlone () "x" 0 0).map (.act "n1") ++ exchange 3 1 ++
    [.act "n1" (.extend () (handleOf "x" 0 1) none 5), .act "n1" (.resume 4 5 none)] ++
    exchange 1 6 ++ [.act "n1" (.release () (handleOf "x" 0 1) 10)] ++ exchange 1 11

/-- `n1` has the lock with the tokens 1 and 2. Everything is delivered, and then `n2` acquires the
lock with token 3. -/
theorem handsOver_run_second_node :
    ∃ s t, exec (lockNetworkStep inMemoryRegistry {"n1", "n2"}) (lockNetworkInitial defaultLock)
        acquireExtendRelease = some s ∧
      exec (lockNetworkStep inMemoryRegistry {"n1", "n2"}) s
        ((acquireAlone () "x" 5 20).map (.act "n2")) = some t ∧
      tokensOf (s.node "n1").returned "x" = [1, 2] ∧
      tokensOf (t.node "n2").returned "x" = [3] ∧ HandsOver {"n1", "n2"} s t :=
  ⟨_, _, rfl, rfl, by decide, by decide, handsOver_run {"n1", "n2"} defaultLock
    acquireExtendRelease ((acquireAlone () "x" 5 20).map (.act "n2")) _ _ (by decide) rfl
    (by decide) rfl⟩

/-! ### CRDT registries -/

def crdtRegistry {α : Type} [LinearOrder M] [OrderBot M] :
    AsyncRegistry M α (CrdtEntityRegistry M α) (CallOutcome M α) :=
  crdtOps.async (fun r e => (r.entries.get e).map CrdtEntry.record)
    (fun r e => (r.entries.get e).bind fun entry => entry.record.ownerNodeId.map some)
    fun r => r.entries.values.map CrdtEntry.record

def crdtLockNetwork : LockNetwork String (CrdtEntityRegistry String (LockValue String))
    (CallOutcome String (LockValue String)) :=
  .initial fun x => .initial (CrdtEntityRegistry.create x).start fun _ => defaultLock x

/-- With CRDT registries, `n1` acquires the lock `x` and releases it. The entity of the lock is
created, stamped and deleted on `n2` as well, but its sidecar is not published: when everything was
delivered, `n2` acquires the lock with the same token 1. -/
theorem not_handsOver_of_crdt :
    ∃ s t, exec (lockNetworkStep crdtRegistry {"n1", "n2"}) crdtLockNetwork
        ((acquireAlone () "x" 0 0).map (.act "n1") ++
          [.act "n1" (.release () (handleOf "x" 0 1) 10)] ++
          List.replicate 3 (.deliver "n1" "n2" 0 20)) = some s ∧ AtRest {"n1", "n2"} s ∧
      exec (lockNetworkStep crdtRegistry {"n1", "n2"}) s
        ((acquireAlone () "x" 3 30).map (.act "n2")) = some t ∧
      tokensOf (s.node "n1").returned "x" = [1] ∧ tokensOf (t.node "n2").returned "x" = [1] ∧
      ¬HandsOver {"n1", "n2"} s t := by
  refine ⟨_, _, rfl, by decide, rfl, by decide, by decide, fun h => ?_⟩
  exact absurd (h "n1" (by decide) "n2" (by decide) ((), handleOf "x" 0 1) (by decide)
    ((), ⟨"x", "n2", 30, 30030, 1⟩) (by decide) rfl) (by decide)

end DistributedCore.Locks
