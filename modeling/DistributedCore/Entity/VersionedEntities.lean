import DistributedCore.Entity.Record
import Mathlib.Data.Int.Order.Basic

/-!
# Entities guarded by their version

`InMemoryEntityRegistry` and `WriteAheadLogEntityRegistry` keep their entities in one map and
apply updates to it by the same rules: a `CREATE` only takes effect on an absent entity, an
`UPDATE` or a `TRANSFER` only on an entity with a smaller version, and a `DELETE` always. Both
start their calls with the same checks. This module has the map, the rules and the checks; the
in-memory registry also emits the events.

Source: `src/cluster/entity/InMemoryEntityRegistry.ts`,
`src/cluster/entity/WriteAheadLogEntityRegistry.ts`.
-/

namespace DistributedCore.Entity

open EntityRecord OrderedMap EntityUpdate

variable {N V : Type}

abbrev Entities (N V : Type) := OrderedMap EntityId (EntityRecord N V)

/-! ### The code -/

def EntityUpdate.newRecord (u : EntityUpdate N V) : EntityRecord N V where
  entityId := u.entityId
  ownerNodeId := u.ownerNodeId
  version := u.version
  createdAt := u.timestamp
  lastUpdated := u.timestamp
  metadata := u.metadata.getD .empty

def EntityRecord.updatedBy (existing : EntityRecord N V) (u : EntityUpdate N V) :
    EntityRecord N V :=
  { existing with
    version := u.version
    lastUpdated := u.timestamp
    metadata := existing.metadata.spread (u.metadata.getD .empty) }

def EntityRecord.transferredBy (existing : EntityRecord N V) (u : EntityUpdate N V) :
    EntityRecord N V :=
  { existing with
    ownerNodeId := u.ownerNodeId
    version := u.version
    lastUpdated := u.timestamp }

namespace Entities

def applyUpdate (entities : Entities N V) (u : EntityUpdate N V) :
    Entities N V × List (RegistryEvent N V) :=
  match u.operation with
  | .create =>
    if !entities.has u.entityId then
      (entities.set u.entityId u.newRecord, [.created u.newRecord])
    else (entities, [])
  | .update =>
    match entities.get u.entityId with
    | some existing =>
      if u.version > existing.version then
        (entities.set u.entityId (existing.updatedBy u), [.updated (existing.updatedBy u)])
      else (entities, [])
    | none => (entities, [])
  | .delete =>
    match entities.get u.entityId with
    | some deleted => (entities.delete u.entityId, [.deleted deleted])
    | none => (entities.delete u.entityId, [])
  | .transfer =>
    match entities.get u.entityId with
    | some existing =>
      if u.version > existing.version then
        (entities.set u.entityId (existing.transferredBy u),
          [.transferred (existing.transferredBy u)])
      else (entities, [])
    | none => (entities, [])

def ownedRecord [DecidableEq N] (entities : Entities N V) (isRunning : Bool) (nodeId : N)
    (call : OwnerCall) (entityId : EntityId) : Except (RegistryError N) (EntityRecord N V) :=
  if !isRunning then .error .notRunning
  else
    match entities.get entityId with
    | none => .error (.notFound entityId)
    | some entity =>
      if entity.ownerNodeId ≠ some nodeId then .error (.notOwned call entityId nodeId)
      else .ok entity

theorem ownedRecord_eq_ok [DecidableEq N] {entities : Entities N V} {isRunning : Bool} {nodeId : N}
    {call : OwnerCall} {e : EntityId} {entity : EntityRecord N V}
    (h : entities.ownedRecord isRunning nodeId call e = .ok entity) :
    isRunning = true ∧ entities.get e = some entity ∧ entity.ownerNodeId = some nodeId := by
  rw [ownedRecord] at h
  split_ifs at h with hrun
  cases hentity : entities.get e with
  | none => simp [hentity] at h
  | some =>
    simp only [hentity, ne_eq, ite_not] at h
    split_ifs at h with howner
    cases h
    exact ⟨by simpa using hrun, rfl, howner⟩

end Entities

/-! ### One entity -/

namespace EntityUpdate

/-- What an update does to one entity. -/
def apply (u : EntityUpdate N V) (existing : Option (EntityRecord N V)) :
    Option (EntityRecord N V) × List (RegistryEvent N V) :=
  match u.operation, existing with
  | .create, none => (some u.newRecord, [.created u.newRecord])
  | .create, some r => (some r, [])
  | .update, some r =>
    if u.version > r.version then (some (r.updatedBy u), [.updated (r.updatedBy u)])
    else (some r, [])
  | .transfer, some r =>
    if u.version > r.version then (some (r.transferredBy u), [.transferred (r.transferredBy u)])
    else (some r, [])
  | .delete, some r => (none, [.deleted r])
  | _, none => (none, [])

/-- The cases of `applyUpdate`, with the events. -/
inductive Applied (u : EntityUpdate N V) :
    Option (EntityRecord N V) → Option (EntityRecord N V) → List (RegistryEvent N V) → Prop
  | created (op : u.operation = .create) :
      Applied u none (some u.newRecord) [.created u.newRecord]
  | updated {r : EntityRecord N V} (op : u.operation = .update) (newer : r.version < u.version) :
      Applied u (some r) (some (r.updatedBy u)) [.updated (r.updatedBy u)]
  | transferred {r : EntityRecord N V} (op : u.operation = .transfer)
      (newer : r.version < u.version) :
      Applied u (some r) (some (r.transferredBy u)) [.transferred (r.transferredBy u)]
  | deleted {r : EntityRecord N V} (op : u.operation = .delete) :
      Applied u (some r) none [.deleted r]
  | present {r : EntityRecord N V} (op : u.operation ≠ .delete)
      (stale : u.operation ≠ .create → u.version ≤ r.version) : Applied u (some r) (some r) []
  | absent (op : u.operation ≠ .create) : Applied u none none []

/-- **What an update does to its entity.** -/
theorem applied_apply (u : EntityUpdate N V) (existing : Option (EntityRecord N V)) :
    u.Applied existing (u.apply existing).1 (u.apply existing).2 := by
  cases existing with
  | none =>
    cases hop : u.operation with
    | create =>
      simp only [apply, hop]
      exact .created hop
    | update | delete | transfer =>
      simp only [apply, hop]
      exact .absent (by simp [hop])
  | some =>
    cases hop : u.operation with
    | create =>
      simp only [apply, hop]
      exact .present (by simp [hop]) fun h => absurd hop h
    | delete =>
      simp only [apply, hop]
      exact .deleted hop
    | update =>
      simp only [apply, hop]
      split_ifs with hver
      · exact .updated hop hver
      · exact .present (by simp [hop]) fun _ => not_lt.mp hver
    | transfer =>
      simp only [apply, hop]
      split_ifs with hver
      · exact .transferred hop hver
      · exact .present (by simp [hop]) fun _ => not_lt.mp hver

end EntityUpdate

namespace Entities

variable (entities : Entities N V) (u : EntityUpdate N V)

private theorem applyUpdate_eq :
    (entities.applyUpdate u).2 = (u.apply (entities.get u.entityId)).2 ∧
      ((entities.applyUpdate u).1 = entities ∧
          (u.apply (entities.get u.entityId)).1 = entities.get u.entityId ∨
        (∃ r, (entities.applyUpdate u).1 = entities.set u.entityId r ∧
          (u.apply (entities.get u.entityId)).1 = some r) ∨
        (entities.applyUpdate u).1 = entities.delete u.entityId ∧
          (u.apply (entities.get u.entityId)).1 = none) := by
  cases hget : entities.get u.entityId with
  | none =>
    have hhas : entities.has u.entityId = false := (entities.has_eq_false_iff _).mpr hget
    cases hop : u.operation <;> simp [applyUpdate, EntityUpdate.apply, hop, hget, hhas]
  | some r =>
    have hhas : entities.has u.entityId = true := (entities.has_iff _).mpr ⟨r, hget⟩
    by_cases hver : r.version < u.version <;> cases hop : u.operation <;>
      simp [applyUpdate, EntityUpdate.apply, hop, hget, hhas, hver]

theorem applyUpdate_events : (entities.applyUpdate u).2 = (u.apply (entities.get u.entityId)).2 :=
  (entities.applyUpdate_eq u).1

theorem get_applyUpdate (e : EntityId) : (entities.applyUpdate u).1.get e =
      if e = u.entityId then (u.apply (entities.get u.entityId)).1 else entities.get e := by
  split_ifs with he
  · subst he
    rcases (entities.applyUpdate_eq u).2 with ⟨h, h'⟩ | ⟨r, h, h'⟩ | ⟨h, h'⟩
    · rw [h, h']
    · rw [h, h', get_set_self]
    · rw [h, h', get_delete_self]
  · rcases (entities.applyUpdate_eq u).2 with ⟨h, -⟩ | ⟨r, h, -⟩ | ⟨h, -⟩
    · rw [h]
    · rw [h, get_set_of_ne _ _ he]
    · rw [h, get_delete_of_ne _ he]

/-! ### Logs of updates -/

def replay (entities : Entities N V) (us : List (EntityUpdate N V)) : Entities N V :=
  us.foldl (fun entities u => (entities.applyUpdate u).1) entities

theorem replay_append (us us' : List (EntityUpdate N V)) :
    entities.replay (us ++ us') = (entities.replay us).replay us' :=
  List.foldl_append

theorem get_replay (e : EntityId) : (us : List (EntityUpdate N V)) → (entities : Entities N V) →
      (entities.replay us).get e = (us.filter fun u => u.entityId = e).foldl
        (fun record u => (u.apply record).1) (entities.get e)
  | [], _ => rfl
  | u :: us, entities => by
    have ih := get_replay e us (entities.applyUpdate u).1
    rw [get_applyUpdate] at ih
    by_cases hu : u.entityId = e
    · subst hu
      rw [if_pos rfl] at ih
      rw [List.filter_cons_of_pos (by simp), List.foldl_cons]
      exact ih
    · rw [if_neg fun h => hu h.symm] at ih
      rw [List.filter_cons_of_neg (by simpa using hu)]
      exact ih

end Entities

/-! ### What a log determines -/

variable {u : EntityUpdate N V}

def EntityRecord.durable (r : EntityRecord N V) : EntityView N V × ℕ := (r.view, r.lastUpdated)

theorem EntityRecord.view_updatedBy (r : EntityRecord N V) (u : EntityUpdate N V) :
    (r.updatedBy u).view =
      ⟨r.ownerNodeId, u.version, fun k => (u.patch k).or (r.metadata.get k)⟩ := by
  ext k
  · rfl
  · rfl
  · simp [EntityRecord.view, updatedBy, get_spread, u.get_getD_metadata]

theorem EntityUpdate.view_newRecord (u : EntityUpdate N V) :
    u.newRecord.view = ⟨u.ownerNodeId, u.version, u.patch⟩ := by
  ext k
  · rfl
  · rfl
  · simp [EntityRecord.view, newRecord, u.get_getD_metadata]

theorem EntityUpdate.durable_apply_congr {c c' : Option (EntityRecord N V)}
    (h : c.map durable = c'.map durable) (u : EntityUpdate N V) :
    (u.apply c).1.map durable = (u.apply c').1.map durable := by
  cases c with
  | none =>
    cases c' with
    | none => rfl
    | some => cases h
  | some c =>
    cases c' with
    | none => cases h
    | some c' =>
      have hdurable : c.durable = c'.durable := Option.some.inj h
      obtain ⟨hview, -⟩ := Prod.mk.inj hdurable
      obtain ⟨howner, hversion, hmetadata⟩ := EntityView.mk.inj hview
      have hupdated : (c.updatedBy u).durable = (c'.updatedBy u).durable := by
        simp only [durable, view_updatedBy, howner, hmetadata]
        rfl
      have htransferred : (c.transferredBy u).durable = (c'.transferredBy u).durable := by
        simp [durable, EntityRecord.view, transferredBy, hmetadata]
      cases hop : u.operation with
      | create => simpa [apply, hop] using h
      | delete => simp [apply, hop]
      | update =>
        simp only [apply, hop, hversion]
        split_ifs
        · exact congrArg some hupdated
        · exact h
      | transfer =>
        simp only [apply, hop, hversion]
        split_ifs
        · exact congrArg some htransferred
        · exact h

theorem Entities.durable_replay_congr (e : EntityId) :
    (us : List (EntityUpdate N V)) → (entities entities' : Entities N V) →
      (entities.get e).map durable = (entities'.get e).map durable →
      ((entities.replay us).get e).map durable = ((entities'.replay us).get e).map durable
  | [], _, _, h => h
  | u :: us, entities, entities', h => by
    refine durable_replay_congr e us _ _ ?_
    rw [get_applyUpdate, get_applyUpdate]
    by_cases he : e = u.entityId
    · subst he
      rw [if_pos rfl, if_pos rfl]
      exact durable_apply_congr h u
    · rw [if_neg he, if_neg he]
      exact h

end DistributedCore.Entity
