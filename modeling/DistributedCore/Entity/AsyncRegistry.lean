import DistributedCore.Entity.InMemoryRegistry

/-!
# Registries as their users call them

The calls of an entity registry return promises. A call runs up to its first `await` when it is
made; after that it goes on in pieces, and pieces of other calls run in between. An
`AsyncRegistry` is a kind of registry in this form: a call or an `applyRemoteUpdate` gives the
registry after its first piece and the state of the call, `advance` runs the next piece, and
`settled` says whether the promise is settled.

Source: `src/cluster/entity/types.ts`.
-/

namespace DistributedCore.Entity

variable {N V S G : Type}

/-- A promise is resolved, with the record that the call returns if it returns one, or it is
rejected. -/
inductive CallOutcome (N V : Type)
  | resolved (record : Option (EntityRecord N V))
  | rejected
  deriving DecidableEq

/-- The registry after a piece of a call, the state of the call, and the events that the piece
emits. -/
structure CallPiece (N V S G : Type) where
  registry : S
  call : G
  emitted : List (RegistryEvent N V) := []

/-- A kind of registry. A host is `none` if `getEntityHost` returns `null`; the host of an entity
without an owner can be `undefined`. -/
structure AsyncRegistry (N V S G : Type) where
  getEntity : S → EntityId → Option (EntityRecord N V)
  getEntityHost : S → EntityId → Option (Option N)
  getAllKnownEntities : S → List (EntityRecord N V)
  call : S → LocalOp N V → ℕ → CallPiece N V S G
  applyRemoteUpdate : S → EntityUpdate N V → ℕ → CallPiece N V S G
  /-- The next piece of a call that is not settled, or the error of what it waits for. -/
  advance : S → G → ℕ → Option String → CallPiece N V S G
  settled : G → Option (CallOutcome N V)

def RegistryEvent.returned : RegistryEvent N V → Option (EntityRecord N V)
  | .created record => some record
  | .updated record => some record
  | .transferred record => some record
  | .deleted _ => none

def RegistryOps.async (R : RegistryOps N V S) (getEntity : S → EntityId → Option (EntityRecord N V))
    (getEntityHost : S → EntityId → Option (Option N))
    (getAllKnownEntities : S → List (EntityRecord N V)) :
    AsyncRegistry N V S (CallOutcome N V) where
  getEntity := getEntity
  getEntityHost := getEntityHost
  getAllKnownEntities := getAllKnownEntities
  call r op now :=
    match R.perform r op now with
    | .ok (r', event) => ⟨r', .resolved event.returned, [event]⟩
    | .error _ => ⟨r, .rejected, []⟩
  applyRemoteUpdate r u now :=
    let (r', events) := R.applyRemoteUpdate r u now
    ⟨r', .resolved none, events⟩
  advance r call _ _ := ⟨r, call, []⟩
  settled := some

def inMemoryRegistry [DecidableEq N] :
    AsyncRegistry N V (InMemoryEntityRegistry N V) (CallOutcome N V) :=
  inMemoryOps.async (fun r e => r.entities.get e)
    (fun r e => (r.entities.get e).map EntityRecord.ownerNodeId) fun r => r.entities.values

end DistributedCore.Entity
