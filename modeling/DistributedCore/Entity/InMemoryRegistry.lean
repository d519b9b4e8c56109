import DistributedCore.Entity.SyncNetwork
import DistributedCore.Entity.VersionedEntities

/-!
# The in-memory entity registry

`InMemoryEntityRegistry` keeps the records of all entities it has heard of. Its calls change the
record and emit an event with the new record (a release: with the removed one), and
`applyRemoteUpdate` emits the same events, so that a synced network of these registries echoes
every update that takes effect.

Source: `src/cluster/entity/InMemoryEntityRegistry.ts`.
-/

namespace DistributedCore.Entity

open Function OrderedMap Option

structure InMemoryEntityRegistry (N V : Type) where
  entities : Entities N V
  nodeId : N
  isRunning : Bool
  globalVersion : ℤ

namespace InMemoryEntityRegistry

variable {N V : Type}

/-! ### The code -/

def create (nodeId : N) : InMemoryEntityRegistry N V where
  entities := .empty
  nodeId := nodeId
  isRunning := false
  globalVersion := 0

def start (r : InMemoryEntityRegistry N V) : InMemoryEntityRegistry N V :=
  { r with isRunning := true }

def proposeEntity (r : InMemoryEntityRegistry N V) (entityId : EntityId)
    (metadata : Option (Metadata V)) (now : ℕ) :
    Except (RegistryError N) (InMemoryEntityRegistry N V × RegistryEvent N V) :=
  if !r.isRunning then .error .notRunning
  else if r.entities.has entityId then .error (.alreadyExists entityId)
  else
    let record : EntityRecord N V :=
      { entityId := entityId
        ownerNodeId := some r.nodeId
        version := 1
        createdAt := now
        lastUpdated := now
        metadata := metadata.getD .empty }
    .ok ({ r with
      entities := r.entities.set entityId record
      globalVersion := r.globalVersion + 1 }, .created record)

variable [DecidableEq N] (r : InMemoryEntityRegistry N V)

def releaseEntity (entityId : EntityId) :
    Except (RegistryError N) (InMemoryEntityRegistry N V × RegistryEvent N V) :=
  (r.entities.ownedRecord r.isRunning r.nodeId .release entityId).map fun entity =>
    ({ r with
      entities := r.entities.delete entityId
      globalVersion := r.globalVersion + 1 }, .deleted entity)

def updateEntity (entityId : EntityId) (metadata : Metadata V)
    (now : ℕ) : Except (RegistryError N) (InMemoryEntityRegistry N V × RegistryEvent N V) :=
  (r.entities.ownedRecord r.isRunning r.nodeId .update entityId).map fun entity =>
    let updatedEntity : EntityRecord N V :=
      { entity with
        version := entity.version + 1
        lastUpdated := now
        metadata := entity.metadata.spread metadata }
    ({ r with
      entities := r.entities.set entityId updatedEntity
      globalVersion := r.globalVersion + 1 }, .updated updatedEntity)

def transferEntity (entityId : EntityId) (targetNodeId : N)
    (now : ℕ) : Except (RegistryError N) (InMemoryEntityRegistry N V × RegistryEvent N V) :=
  (r.entities.ownedRecord r.isRunning r.nodeId .transfer entityId).map fun entity =>
    let transferredEntity : EntityRecord N V :=
      { entity with
        ownerNodeId := some targetNodeId
        version := entity.version + 1
        lastUpdated := now }
    ({ r with
      entities := r.entities.set entityId transferredEntity
      globalVersion := r.globalVersion + 1 }, .transferred transferredEntity)

def perform (op : LocalOp N V) (now : ℕ) :
    Except (RegistryError N) (InMemoryEntityRegistry N V × RegistryEvent N V) :=
  match op with
  | .proposeEntity e metadata => r.proposeEntity e metadata now
  | .updateEntity e metadata => r.updateEntity e metadata now
  | .transferEntity e target => r.transferEntity e target now
  | .releaseEntity e => r.releaseEntity e

omit [DecidableEq N] in
def applyRemoteUpdate (u : EntityUpdate N V) :
    InMemoryEntityRegistry N V × List (RegistryEvent N V) :=
  let applied := r.entities.applyUpdate u
  ({ r with
    entities := applied.1
    globalVersion := max r.globalVersion u.version }, applied.2)

/-! ### What calls and remote updates do -/

/-- The registry of the node `x` runs and files every record under its id. -/
structure Valid (r : InMemoryEntityRegistry N V) (x : N) : Prop where
  nodeId : r.nodeId = x
  running : r.isRunning = true
  keyed : ∀ {e c}, r.entities.get e = some c → c.entityId = e

/-- What a local call makes of the entity, and the event that it emits. -/
inductive Performed (x : N) : LocalOp N V → Option (EntityRecord N V) →
    Option (EntityRecord N V) → RegistryEvent N V → Prop
  | proposed {e : EntityId} {metadata : Option (Metadata V)} {record : EntityRecord N V}
      (id : record.entityId = e) (owner : record.ownerNodeId = some x)
      (version : record.version = 1) :
      Performed x (.proposeEntity e metadata) none (some record) (.created record)
  | updated {e : EntityId} {metadata : Metadata V} {old record : EntityRecord N V}
      (owned : old.ownerNodeId = some x) (id : record.entityId = old.entityId)
      (owner : record.ownerNodeId = some x) (version : record.version = old.version + 1) :
      Performed x (.updateEntity e metadata) (some old) (some record) (.updated record)
  | transferred {e : EntityId} {target : N} {old record : EntityRecord N V}
      (owned : old.ownerNodeId = some x) (id : record.entityId = old.entityId)
      (owner : record.ownerNodeId = some target) (version : record.version = old.version + 1) :
      Performed x (.transferEntity e target) (some old) (some record) (.transferred record)
  | released {e : EntityId} {old : EntityRecord N V} (owned : old.ownerNodeId = some x) :
      Performed x (.releaseEntity e) (some old) none (.deleted old)

variable {r r' : InMemoryEntityRegistry N V} {x : N} {op : LocalOp N V} {now : ℕ}
  {event : RegistryEvent N V} {u : EntityUpdate N V}

omit [DecidableEq N] in
theorem valid_create (x : N) : ((create x).start : InMemoryEntityRegistry N V).Valid x :=
  ⟨rfl, rfl, fun h => nomatch h⟩

/-- **What a call does.** -/
theorem perform_spec (h : r.perform op now = .ok (r', event)) :
    Performed r.nodeId op (r.entities.get op.entityId) (r'.entities.get op.entityId) event ∧
      r'.nodeId = r.nodeId ∧ r'.isRunning = r.isRunning ∧
      ∀ e, e ≠ op.entityId → r'.entities.get e = r.entities.get e := by
  cases op with
  | proposeEntity e =>
    simp only [perform, proposeEntity] at h
    split_ifs at h with hrun hhas
    cases h
    have hnone : r.entities.get e = none :=
      (r.entities.has_eq_false_iff e).mp (Bool.eq_false_iff.mpr hhas)
    refine ⟨?_, rfl, rfl, fun e' he => get_set_of_ne _ _ he⟩
    simp only [LocalOp.entityId, hnone, get_set_self]
    exact .proposed rfl rfl rfl
  | updateEntity | transferEntity =>
    obtain ⟨entity, hentity, hr⟩ := map_eq_ok_iff.mp h
    cases hr
    obtain ⟨-, hget, howner⟩ := Entities.ownedRecord_eq_ok hentity
    refine ⟨?_, rfl, rfl, fun e' he => get_set_of_ne _ _ he⟩
    simp only [LocalOp.entityId, hget, get_set_self]
    constructor <;> first | exact howner | rfl
  | releaseEntity =>
    obtain ⟨entity, hentity, hr⟩ := map_eq_ok_iff.mp h
    cases hr
    obtain ⟨-, hget, howner⟩ := Entities.ownedRecord_eq_ok hentity
    refine ⟨?_, rfl, rfl, fun e' he => get_delete_of_ne _ he⟩
    simp only [LocalOp.entityId, hget, get_delete_self]
    exact .released howner

omit [DecidableEq N] in
theorem Performed.entityId {before after : Option (EntityRecord N V)}
    (h : Performed x op before after event) (hbefore : ∀ c ∈ before, c.entityId = op.entityId) :
    event.record.entityId = op.entityId ∧ ∀ c ∈ after, c.entityId = op.entityId := by
  cases h with
  | proposed id => exact ⟨id, fun c hc => some.inj hc ▸ id⟩
  | updated owned id | transferred owned id =>
    have hid := id.trans (hbefore _ rfl)
    exact ⟨hid, fun c hc => some.inj hc ▸ hid⟩
  | released => exact ⟨hbefore _ rfl, fun c hc => nomatch hc⟩

theorem Valid.perform (hr : r.Valid x) (h : r.perform op now = .ok (r', event)) :
    r'.Valid x ∧ event.record.entityId = op.entityId := by
  obtain ⟨hspec, hnode, hrun, hother⟩ := perform_spec h
  obtain ⟨hevent, hafter⟩ := hspec.entityId fun c hc => hr.keyed hc
  refine ⟨⟨hnode.trans hr.nodeId, hrun.trans hr.running, fun {e c} hc => ?_⟩, hevent⟩
  by_cases he : e = op.entityId
  · subst he
    exact hafter c hc
  · exact hr.keyed ((hother e he).symm.trans hc)

section

omit [DecidableEq N]

variable (r : InMemoryEntityRegistry N V) (u : EntityUpdate N V)

theorem get_applyRemoteUpdate (e : EntityId) : (r.applyRemoteUpdate u).1.entities.get e =
      if e = u.entityId then (u.apply (r.entities.get u.entityId)).1 else r.entities.get e :=
  r.entities.get_applyUpdate u e

theorem applyRemoteUpdate_events :
    (r.applyRemoteUpdate u).2 = (u.apply (r.entities.get u.entityId)).2 :=
  r.entities.applyUpdate_events u

/-- **What a remote update does.** -/
theorem applyRemoteUpdate_spec :
    u.Applied (r.entities.get u.entityId) ((r.applyRemoteUpdate u).1.entities.get u.entityId)
        (r.applyRemoteUpdate u).2 ∧
      ∀ e, e ≠ u.entityId → (r.applyRemoteUpdate u).1.entities.get e = r.entities.get e := by
  constructor
  · rw [get_applyRemoteUpdate, if_pos rfl, applyRemoteUpdate_events]
    exact u.applied_apply _
  · intro e he
    rw [get_applyRemoteUpdate, if_neg he]

end

end InMemoryEntityRegistry

/-! ### One entity -/

section Applied

variable {N V : Type} {u : EntityUpdate N V} {before after : Option (EntityRecord N V)}
  {events : List (RegistryEvent N V)}

theorem EntityUpdate.Applied.entityId (h : u.Applied before after events)
    (hbefore : ∀ c ∈ before, c.entityId = u.entityId) :
    (∀ event ∈ events, event.record.entityId = u.entityId) ∧
      ∀ c ∈ after, c.entityId = u.entityId := by
  cases h with
  | created => exact ⟨fun event h => List.mem_singleton.mp h ▸ rfl, fun c hc => some.inj hc ▸ rfl⟩
  | updated | transferred =>
    have hid := hbefore _ rfl
    exact ⟨fun event h => List.mem_singleton.mp h ▸ hid, fun c hc => some.inj hc ▸ hid⟩
  | deleted =>
    have hid := hbefore _ rfl
    exact ⟨fun event h => List.mem_singleton.mp h ▸ hid, fun c hc => nomatch hc⟩
  | present | absent => exact ⟨fun event h => (nomatch h), hbefore⟩

end Applied

theorem InMemoryEntityRegistry.Valid.applyRemoteUpdate {N V : Type}
    {r : InMemoryEntityRegistry N V} {x : N} (hr : r.Valid x) (u : EntityUpdate N V) :
    (r.applyRemoteUpdate u).1.Valid x ∧
      ∀ event ∈ (r.applyRemoteUpdate u).2, event.record.entityId = u.entityId := by
  obtain ⟨hspec, hother⟩ := r.applyRemoteUpdate_spec u
  obtain ⟨hevents, hafter⟩ := hspec.entityId fun c hc => hr.keyed hc
  refine ⟨⟨hr.nodeId, hr.running, fun {e c} hc => ?_⟩, hevents⟩
  by_cases he : e = u.entityId
  · subst he
    exact hafter c hc
  · exact hr.keyed ((hother e he).symm.trans hc)

/-! ### Synced networks -/

variable {N V : Type} [DecidableEq N]

def inMemoryOps : RegistryOps N V (InMemoryEntityRegistry N V) where
  perform := InMemoryEntityRegistry.perform
  applyRemoteUpdate r u _ := r.applyRemoteUpdate u

abbrev InMemorySync (N V : Type) := SyncNetwork N V (InMemoryEntityRegistry N V)

omit [DecidableEq N] in
def inMemoryInitial : InMemorySync N V := .initial fun x => (InMemoryEntityRegistry.create x).start

abbrev inMemoryStep (members : Finset N) :
    InMemorySync N V → SyncEvent N V → Option (InMemorySync N V) :=
  SyncNetwork.step inMemoryOps members

theorem get_deliver {members : Finset N} {s s' : InMemorySync N V} {p d : N} {i now : ℕ}
    {u : EntityUpdate N V}
    (hs' : s' = ((s.consume p d i).setNode d ((s.node d).applyRemoteUpdate u).1).publish members
      d (((s.node d).applyRemoteUpdate u).2.map (adapterUpdate now))) (x : N) (e : EntityId) :
    (s'.node x).entities.get e =
      if x = d ∧ e = u.entityId then ((s.node d).applyRemoteUpdate u).1.entities.get u.entityId
      else (s.node x).entities.get e := by
  rw [hs', SyncNetwork.publish_node, SyncNetwork.setNode_node]
  by_cases hx : x = d
  · subst hx
    rw [update_self]
    split_ifs with he
    · rw [he.2]
    · exact ((s.node x).applyRemoteUpdate_spec u).2 e fun h => he ⟨rfl, h⟩
  · rw [update_of_ne hx, if_neg fun h => hx h.1]
    rfl

end DistributedCore.Entity
