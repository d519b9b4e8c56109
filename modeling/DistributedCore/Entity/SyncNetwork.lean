import DistributedCore.Entity.Record
import DistributedCore.Library.Relay
import DistributedCore.Library.Runs

/-!
# Registries synced over a topic

Every member of a cluster runs an entity registry of one kind and an
`EntityRegistrySyncAdapter` on a common topic. The adapter publishes an update for every event
of its registry, rebuilt from the record the event carries, and hands every update of another
node to `applyRemoteUpdate`; the events that this call emits are published in turn.

Source: `src/cluster/entity/EntityRegistrySyncAdapter.ts`.
-/

namespace DistributedCore.Entity

open List

variable {N V S : Type}

/-! ### The adapter -/

def toEntityUpdate (record : EntityRecord N V) (operation : Operation) (now : ℕ) :
    EntityUpdate N V where
  entityId := record.entityId
  ownerNodeId := record.ownerNodeId
  version := record.version
  timestamp := now
  operation := operation
  metadata := some record.metadata

def adapterUpdate (now : ℕ) : RegistryEvent N V → EntityUpdate N V
  | .created record => toEntityUpdate record .create now
  | .updated record => toEntityUpdate record .update now
  | .deleted record => toEntityUpdate record .delete now
  | .transferred record => toEntityUpdate record .transfer now

@[simp] theorem adapterUpdate_entityId (now : ℕ) (event : RegistryEvent N V) :
    (adapterUpdate now event).entityId = event.record.entityId := by cases event <;> rfl

@[simp] theorem adapterUpdate_ownerNodeId (now : ℕ) (event : RegistryEvent N V) :
    (adapterUpdate now event).ownerNodeId = event.record.ownerNodeId := by cases event <;> rfl

@[simp] theorem adapterUpdate_version (now : ℕ) (event : RegistryEvent N V) :
    (adapterUpdate now event).version = event.record.version := by cases event <;> rfl

/-- What the adapter uses of a kind of registry: the local calls with the event they emit, and
`applyRemoteUpdate` with the events it emits. -/
structure RegistryOps (N V S : Type) where
  perform : S → LocalOp N V → ℕ → Except (RegistryError N) (S × RegistryEvent N V)
  applyRemoteUpdate : S → EntityUpdate N V → ℕ → S × List (RegistryEvent N V)

/-! ### The network -/

/-- The registries of the members and the updates in flight, for each publisher and each
destination, oldest first. -/
structure SyncNetwork (N V S : Type) where
  node : N → S
  link : N → N → List (EntityUpdate N V)

/-- The calls at a node and the deliveries of the adapter. -/
inductive SyncEvent (N V : Type)
  | call (node : N) (op : LocalOp N V) (now : ℕ)
  /-- The update at position `index` of the link from `publisher` to `dest` arrives. -/
  | deliver (publisher dest : N) (index : ℕ) (now : ℕ)

namespace SyncEvent

/-- The oldest update of a link is delivered first. -/
def InOrder : SyncEvent N V → Prop
  | .call .. => True
  | .deliver _ _ index _ => index = 0

def IsCallOn (e : EntityId) : SyncEvent N V → Prop
  | .call _ op _ => op.entityId = e
  | .deliver .. => False

instance : (ev : SyncEvent N V) → Decidable ev.InOrder
  | .call .. => .isTrue trivial
  | .deliver _ _ index _ => inferInstanceAs (Decidable (index = 0))

instance (e : EntityId) : (ev : SyncEvent N V) → Decidable (ev.IsCallOn e)
  | .call _ op _ => inferInstanceAs (Decidable (op.entityId = e))
  | .deliver .. => .isFalse id

end SyncEvent

namespace SyncNetwork

variable [DecidableEq N]

def initial (node : N → S) : SyncNetwork N V S := ⟨node, fun _ _ => []⟩

variable (s : SyncNetwork N V S) {us : List (EntityUpdate N V)}

def setNode (x : N) (r : S) : SyncNetwork N V S := { s with node := Function.update s.node x r }

/-- An update is sent to every other member. -/
def publish (members : Finset N) (x : N) (us : List (EntityUpdate N V)) : SyncNetwork N V S :=
  { s with
    link := fun p d => if p = x ∧ d ∈ members ∧ d ≠ x then s.link p d ++ us else s.link p d }

def consume (p d : N) (i : ℕ) : SyncNetwork N V S :=
  { s with
    link := fun p' d' => if p' = p ∧ d' = d then (s.link p d).eraseIdx i else s.link p' d' }

def step (R : RegistryOps N V S) (members : Finset N) (s : SyncNetwork N V S) :
    SyncEvent N V → Option (SyncNetwork N V S)
  | .call x op now =>
    if x ∈ members then
      match R.perform (s.node x) op now with
      | .ok (r, event) => some ((s.setNode x r).publish members x [adapterUpdate now event])
      | .error _ => some s
    else none
  | .deliver p d i now =>
    match (s.link p d)[i]? with
    | some u =>
      let outcome := R.applyRemoteUpdate (s.node d) u now
      some (((s.consume p d i).setNode d outcome.1).publish members d
        (outcome.2.map (adapterUpdate now)))
    | none => none

section Lemmas

variable {R : RegistryOps N V S} {members : Finset N} {s s' : SyncNetwork N V S} (x p d p' d' : N)

@[simp] theorem publish_node (us : List (EntityUpdate N V)) :
    (s.publish members x us).node = s.node := rfl

@[simp] theorem publish_nil : s.publish members x [] = s := by simp [publish]

@[simp] theorem setNode_node (r : S) : (s.setNode x r).node = Function.update s.node x r := rfl

@[simp] theorem setNode_link (r : S) : (s.setNode x r).link = s.link := rfl

@[simp] theorem consume_node (i : ℕ) : (s.consume p d i).node = s.node := rfl

theorem link_publish (us : List (EntityUpdate N V)) : (s.publish members x us).link p d =
      if p = x ∧ d ∈ members ∧ d ≠ x then s.link p d ++ us else s.link p d := rfl

theorem link_consume (i : ℕ) : (s.consume p d i).link p' d' =
      if p' = p ∧ d' = d then (s.link p d).eraseIdx i else s.link p' d' := rfl

variable {u : EntityUpdate N V}

theorem mem_link_publish {x p d : N}
    (h : u ∈ (s.publish members x us).link p d) : u ∈ s.link p d ∨ (p = x ∧ d ≠ x ∧ u ∈ us) := by
  rw [link_publish] at h
  split at h
  · rename_i hx
    exact (mem_append.mp h).imp_right fun hu => ⟨hx.1, hx.2.2, hu⟩
  · exact .inl h

theorem mem_link_consume {p d p' d' : N} {i : ℕ}
    (h : u ∈ (s.consume p d i).link p' d') : u ∈ s.link p' d' := by
  rw [link_consume] at h
  split at h
  · rename_i hpd
    obtain ⟨rfl, rfl⟩ := hpd
    exact mem_of_mem_eraseIdx h
  · exact h

/-- **What a step does.** -/
theorem step_cases {ev : SyncEvent N V} (h : step R members s ev = some s') :
    (∃ x op now err, ev = .call x op now ∧ R.perform (s.node x) op now = .error err ∧ s' = s) ∨
      (∃ x op now r event, ev = .call x op now ∧ x ∈ members ∧
        R.perform (s.node x) op now = .ok (r, event) ∧
        s' = (s.setNode x r).publish members x [adapterUpdate now event]) ∨
      ∃ p d i now u, ev = .deliver p d i now ∧ (s.link p d)[i]? = some u ∧
        s' = ((s.consume p d i).setNode d (R.applyRemoteUpdate (s.node d) u now).1).publish members
          d ((R.applyRemoteUpdate (s.node d) u now).2.map (adapterUpdate now)) := by
  cases ev with
  | call x op now =>
    simp only [step] at h
    split_ifs at h with hx
    split at h
    · rename_i r event hperform
      exact .inr (.inl ⟨x, op, now, r, event, rfl, hx, hperform, (Option.some.inj h).symm⟩)
    · rename_i err hperform
      exact .inl ⟨x, op, now, err, rfl, hperform, (Option.some.inj h).symm⟩
  | deliver p d i now =>
    simp only [step] at h
    split at h
    · rename_i u hu
      exact .inr (.inr ⟨p, d, i, now, u, rfl, hu, (Option.some.inj h).symm⟩)
    · cases h

omit [DecidableEq N] in
theorem exists_link_eq_cons {p d : N} (h : (s.link p d)[0]? = some u) :
    ∃ us, s.link p d = u :: us := by
  cases hlink : s.link p d with
  | nil => simp [hlink] at h
  | cons v us =>
    obtain rfl : v = u := by simpa [hlink] using h
    exact ⟨us, rfl⟩

end Lemmas

/-! ### One entity of a network -/

/-- What a relay has of a network: the states of the nodes and, on every link, the updates of one
entity. -/
structure Projects {σ M : Type} (R : N → S → σ → Prop) (C : EntityUpdate N V → M → Prop)
    (e : EntityId) (s : SyncNetwork N V S) (a : Relay N σ M) : Prop where
  node : ∀ x, R x (s.node x) (a.state x)
  link : ∀ p d, List.Forall₂ C ((s.link p d).filter fun u => u.entityId = e) (a.link p d)

namespace Projects

variable {σ M : Type} {R : N → S → σ → Prop} {C : EntityUpdate N V → M → Prop} {e : EntityId}
  {s : SyncNetwork N V S} {a : Relay N σ M} (h : Projects R C e s a) {ms : List M} {c : σ}

include h

theorem publish (members : Finset N) {x : N} {r : S} (hnode : R x r c)
    (hus : List.Forall₂ C (us.filter fun u => u.entityId = e) ms) :
    Projects R C e ((s.setNode x r).publish members x us) (a.announce members x c ms) := by
  refine ⟨fun y => ?_, fun p d => ?_⟩
  · by_cases hy : y = x
    · subst hy
      simpa [Relay.announce] using hnode
    · simpa [Relay.announce, hy] using h.node y
  · simp only [link_publish, setNode_link, Relay.announce]
    split_ifs
    · rw [filter_append]
      exact rel_append (h.link p d) hus
    · exact h.link p d

variable (members : Finset N) {x : N} {r : S} (events : List (RegistryEvent N V))

theorem publish_events (hnode : R x r c)
    (hevents : ∀ event ∈ events, event.record.entityId = e) {now : ℕ}
    (hms : List.Forall₂ C (events.map (adapterUpdate now)) ms) :
    Projects R C e ((s.setNode x r).publish members x (events.map (adapterUpdate now)))
      (a.announce members x c ms) := by
  refine h.publish members hnode ?_
  rwa [filter_eq_self.mpr fun u hu => ?_]
  obtain ⟨event, hevent, rfl⟩ := mem_map.mp hu
  simpa using hevents event hevent

theorem publish_others (hnode : R x r (a.state x))
    (hevents : ∀ event ∈ events, event.record.entityId ≠ e) (now : ℕ) :
    Projects R C e ((s.setNode x r).publish members x (events.map (adapterUpdate now))) a := by
  have hnone : List.Forall₂ C ((events.map (adapterUpdate now)).filter fun u => u.entityId = e)
      [] := by
    rw [filter_eq_nil_iff.mpr fun u hu => ?_]
    · exact .nil
    · obtain ⟨event, hevent, rfl⟩ := mem_map.mp hu
      simpa using hevents event hevent
  have hpublish := h.publish members hnode hnone
  rwa [Relay.announce_nil] at hpublish

variable {p d : N} {u : EntityUpdate N V} {us : List (EntityUpdate N V)}

omit [DecidableEq N] in
theorem exists_head (hlink : s.link p d = u :: us) (hu : u.entityId = e) :
    ∃ m ms, a.link p d = m :: ms ∧ C u m := by
  have hold := h.link p d
  rw [hlink, filter_cons_of_pos (by simpa using hu)] at hold
  obtain ⟨m, ms, hm, -, hms⟩ := forall₂_cons_left_iff.mp hold
  exact ⟨m, ms, hms, hm⟩

theorem consume (hlink : s.link p d = u :: us) :
    Projects R C e (s.consume p d 0) (if u.entityId = e then a.take p d else a) := by
  have hold := h.link p d
  rw [hlink] at hold
  split_ifs with hu
  · refine ⟨h.node, fun p' d' => ?_⟩
    simp only [link_consume, Relay.take]
    split_ifs
    · rw [hlink]
      rw [filter_cons_of_pos (by simpa using hu)] at hold
      obtain ⟨m, ms, -, hms, heq⟩ := forall₂_cons_left_iff.mp hold
      rwa [heq]
    · exact h.link p' d'
  · refine ⟨h.node, fun p' d' => ?_⟩
    rw [link_consume]
    split_ifs with hpd
    · obtain ⟨rfl, rfl⟩ := hpd
      rw [hlink]
      rwa [filter_cons_of_neg (by simpa using hu)] at hold
    · exact h.link p' d'

end Projects

end SyncNetwork

def createAndRelease : List (SyncEvent String ℕ) :=
  [.call "n1" (.proposeEntity "e" none) 0, .call "n1" (.releaseEntity "e") 1]

end DistributedCore.Entity
