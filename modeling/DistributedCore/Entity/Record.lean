import DistributedCore.Library.OrderedMap
import Mathlib.Data.Int.Notation

/-!
# Entity records, updates and registry calls

The data shared by the entity registries: the records they keep, the updates they log and
exchange, the calls of their users, the events they emit and the errors they throw.

Source: `src/cluster/entity/types.ts`, `src/persistence/wal/types.ts`, `src/common/errors.ts`.
-/

namespace DistributedCore.Entity

abbrev EntityId := String

def beginsWith (start : String) (entityId : EntityId) : Bool :=
  start.toList.isPrefixOf entityId.toList

/-- `Record<string, any>`. -/
abbrev Metadata (V : Type) := OrderedMap String V

/-- The operations of an update. -/
inductive Operation
  | create
  | update
  | delete
  | transfer
  deriving DecidableEq

structure EntityRecord (N V : Type) where
  entityId : EntityId
  ownerNodeId : Option N
  version : ℤ
  createdAt : ℕ
  lastUpdated : ℕ
  metadata : Metadata V
  deriving DecidableEq

/-- An update as it is logged and sent. -/
structure EntityUpdate (N V : Type) where
  entityId : EntityId
  ownerNodeId : Option N := none
  version : ℤ
  timestamp : ℕ
  operation : Operation
  metadata : Option (Metadata V) := none
  previousVersion : Option ℤ := none
  deriving DecidableEq

/-- The calls of the owner and of a proposer. -/
inductive LocalOp (N V : Type)
  | proposeEntity (entityId : EntityId) (metadata : Option (Metadata V))
  | updateEntity (entityId : EntityId) (metadata : Metadata V)
  | transferEntity (entityId : EntityId) (targetNodeId : N)
  | releaseEntity (entityId : EntityId)

variable {N V ε B G : Type}

def LocalOp.entityId : LocalOp N V → EntityId
  | .proposeEntity e _ => e
  | .updateEntity e _ => e
  | .transferEntity e _ => e
  | .releaseEntity e => e

/-- The events that a registry emits. -/
inductive RegistryEvent (N V : Type)
  | created (record : EntityRecord N V)
  | updated (record : EntityRecord N V)
  | deleted (record : EntityRecord N V)
  | transferred (record : EntityRecord N V)
  deriving DecidableEq

def RegistryEvent.record : RegistryEvent N V → EntityRecord N V
  | .created r => r
  | .updated r => r
  | .deleted r => r
  | .transferred r => r

/-! ### Errors -/

inductive OwnerCall
  | release
  | update
  | transfer
  deriving DecidableEq

inductive RegistryError (N : Type)
  | notRunning
  | alreadyExists (entityId : EntityId)
  | notFound (entityId : EntityId)
  | notOwned (call : OwnerCall) (entityId : EntityId) (nodeId : N)
  deriving DecidableEq

theorem map_eq_ok_iff {x : Except ε B} {f : B → G} {c : G} :
    x.map f = .ok c ↔ ∃ b, x = .ok b ∧ f b = c := by cases x <;> simp [Except.map]

/-! ### What can be observed of a record -/

/-- A record without its id and its times. -/
@[ext] structure EntityView (N V : Type) where
  ownerNodeId : Option N
  version : ℤ
  metadata : String → Option V

def EntityRecord.view (r : EntityRecord N V) : EntityView N V :=
  ⟨r.ownerNodeId, r.version, r.metadata.get⟩

def EntityUpdate.patch (u : EntityUpdate N V) (k : String) : Option V :=
  u.metadata.bind fun m => m.get k

theorem EntityUpdate.get_getD_metadata (u : EntityUpdate N V) (k : String) :
    (u.metadata.getD .empty).get k = u.patch k := by
  rw [EntityUpdate.patch]
  cases u.metadata <;> rfl

end DistributedCore.Entity
