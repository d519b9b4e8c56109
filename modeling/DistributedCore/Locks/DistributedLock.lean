import DistributedCore.Entity.AsyncRegistry

/-!
# Locks kept in an entity registry

`DistributedLock` holds a lock by owning an entity of the same name in an entity registry. A
second entity, the fence sidecar, counts the fencing tokens that were given out for the lock; it
is written with `applyRemoteUpdate`. This file embeds the methods of one instance over any kind
of registry; the instances that share a registry are `DistributedCore.Locks.LockSystem`.

Source: `src/cluster/locks/DistributedLock.ts`.
-/

namespace DistributedCore.Locks

open Entity OrderedMap Option

abbrev LockId := String

/-- What the holder of a lock is given. -/
structure LockHandle (N : Type) where
  lockId : LockId
  nodeId : N
  acquiredAt : ℕ
  expiresAt : ℕ
  fencingToken : ℕ
  deriving DecidableEq

/-- The metadata values that locks store. -/
inductive LockValue (N : Type)
  | number (n : ℕ)
  | nodeId (x : N)
  /-- The decimal text of a fencing token. -/
  | token (n : ℕ)
  deriving DecidableEq

/-- The state of a `DistributedLock`. A timer map holds the times at which the armed timers
fire. -/
structure DistributedLock (N : Type) where
  localNodeId : N
  defaultTtlMs : ℕ
  heldLocks : OrderedMap LockId (LockHandle N)
  ttlTimers : OrderedMap LockId ℕ

def fenceStart : String := "__fence__:"

def fenceEntityId (lockId : LockId) : EntityId := fenceStart ++ lockId

def isFence (entityId : EntityId) : Bool := beginsWith fenceStart entityId

abbrev LockUpdate (N : Type) := EntityUpdate N (LockValue N)

abbrev LockRegistry (N S G : Type) := AsyncRegistry N (LockValue N) S G

/-- The registry, the lock and the result after a synchronous piece of a call. -/
structure LockPiece (N S B : Type) where
  registry : S
  lock : DistributedLock N
  emitted : List (RegistryEvent N (LockValue N))
  result : B

/-- The state of a call of `tryAcquire` or `extend`: the promise it waits for and its local
variables, or its end. -/
inductive LockCall (N G : Type)
  /-- `tryAcquire` waits for `proposeEntity`. -/
  | proposing (lockId : LockId) (ttl : ℕ) (promise : G)
  /-- `tryAcquire` waits for the write of the sidecar. -/
  | fencing (lockId : LockId) (ttl createdAt fencingToken : ℕ) (promise : G)
  /-- `tryAcquire` waits for the write of the token into the entity of the lock. -/
  | stamping (lockId : LockId) (ttl createdAt fencingToken : ℕ) (promise : G)
  /-- `extend` waits for the write of the sidecar. -/
  | extending (updated : LockHandle N) (extra : ℕ) (promise : G)
  /-- `tryAcquire` returned a handle. -/
  | acquired (handle : LockHandle N)
  /-- `extend` returned a handle. -/
  | extended (handle : LockHandle N)
  /-- `tryAcquire` returned `null`, or `extend` rejected. -/
  | refused

variable {N S G : Type}

section Sidecar

variable (A : LockRegistry N S G)

def storedToken (fence : EntityRecord N (LockValue N)) : ℕ :=
  match fence.metadata.get "fencingToken" with
  | some (.token n) => n
  | some (.number n) => n
  | some (.nodeId _) => 0
  | none => 0

/-- The token is read from the fence of the lock. -/
def getCurrentFencingToken (r : S) (lockId : LockId) : ℕ :=
  ((A.getEntity r (fenceEntityId lockId)).map storedToken).getD 0

def fenceUpdate (localNodeId : N) (lockId : LockId) (known : Bool) (token now : ℕ) :
    LockUpdate N where
  entityId := fenceEntityId lockId
  ownerNodeId := some localNodeId
  version := token
  timestamp := now
  operation := if known then .update else .create
  metadata := some (OrderedMap.empty.set "fencingToken" (.token token))

/-- The fence is created, or raised by one. -/
def bumpFencingToken (r : S) (localNodeId : N) (lockId : LockId) (now : ℕ) :
    ℕ × CallPiece N (LockValue N) S G :=
  let next := getCurrentFencingToken A r lockId + 1
  let known := (A.getEntity r (fenceEntityId lockId)).isSome
  (next, A.applyRemoteUpdate r (fenceUpdate localNodeId lockId known next now) now)

end Sidecar

namespace DistributedLock

variable (A : LockRegistry N S G)

def create (localNodeId : N) (defaultTtlMs : ℕ) : DistributedLock N where
  localNodeId := localNodeId
  defaultTtlMs := defaultTtlMs
  heldLocks := .empty
  ttlTimers := .empty

variable (lock : DistributedLock N) (lockId : LockId)

def clearTimer : DistributedLock N := { lock with ttlTimers := lock.ttlTimers.delete lockId }

def scheduleTtl (ttlMs now : ℕ) : DistributedLock N :=
  { lock with ttlTimers := lock.ttlTimers.set lockId (now + ttlMs) }

def hold (handle : LockHandle N) (ttlMs now : ℕ) : DistributedLock N :=
  { lock with heldLocks := lock.heldLocks.set handle.lockId handle }.scheduleTtl
    handle.lockId ttlMs now

def forget : DistributedLock N :=
  { lock.clearTimer lockId with heldLocks := lock.heldLocks.delete lockId }

def isHeldLocally : Bool := lock.heldLocks.has lockId

def lockMetadata (ttl : ℕ) : Metadata (LockValue N) :=
  (OrderedMap.empty.set "ttlMs" (.number ttl)).set "lockedBy" (.nodeId lock.localNodeId)

def tryAcquire (r : S) (lock : DistributedLock N) (lockId : LockId) (ttlMs : Option ℕ)
    (now : ℕ) : LockPiece N S (LockCall N G) :=
  let ttl := ttlMs.getD lock.defaultTtlMs
  let piece := A.call r (.proposeEntity lockId (some (lock.lockMetadata ttl))) now
  ⟨piece.registry, lock, piece.emitted, .proposing lockId ttl piece.call⟩

def extend (r : S) (lock : DistributedLock N) (handle : LockHandle N) (additionalMs : Option ℕ)
    (now : ℕ) : Option (LockPiece N S (LockCall N G)) :=
  if !lock.heldLocks.has handle.lockId || (A.getEntityHost r handle.lockId).isNone then none
  else
    let extra := additionalMs.getD lock.defaultTtlMs
    let (token, piece) := bumpFencingToken A r lock.localNodeId handle.lockId now
    let updated := { handle with expiresAt := now + extra, fencingToken := token }
    some ⟨piece.registry, lock.clearTimer handle.lockId, piece.emitted,
      .extending updated extra piece.call⟩

def release (r : S) (lock : DistributedLock N) (handle : LockHandle N) (now : ℕ) :
    Option (LockPiece N S G) :=
  if !lock.heldLocks.has handle.lockId then none
  else
    let piece := A.call r (.releaseEntity handle.lockId) now
    some ⟨piece.registry, lock.forget handle.lockId, piece.emitted, piece.call⟩

/-- The timer of `lockId` fires; the callback does not wait for `releaseEntity`, and only reports
its failure. -/
def onExpired (r : S) (lock : DistributedLock N) (lockId : LockId) (now : ℕ) : LockPiece N S G :=
  let piece := A.call r (.releaseEntity lockId) now
  ⟨piece.registry, lock.forget lockId, piece.emitted, piece.call⟩

section Failure

variable [DecidableEq N]

def victims (r : S) (nodeId : N) : List (EntityRecord N (LockValue N)) :=
  (A.getAllKnownEntities r).filter fun e => e.ownerNodeId = some nodeId ∧ !isFence e.entityId

def failureUpdate (entity : EntityRecord N (LockValue N)) (now : ℕ) : LockUpdate N where
  entityId := entity.entityId
  ownerNodeId := entity.ownerNodeId
  version := now
  timestamp := now
  operation := .delete
  metadata := some .empty

def cleanUp (now : ℕ) (piece : LockPiece N S (List G)) (entity : EntityRecord N (LockValue N)) :
    LockPiece N S (List G) :=
  let deletion := A.applyRemoteUpdate piece.registry (failureUpdate entity now) now
  ⟨deletion.registry, piece.lock.forget entity.entityId, piece.emitted ++ deletion.emitted,
    piece.result ++ [deletion.call]⟩

def handleRemoteNodeFailure (r : S) (lock : DistributedLock N) (nodeId : N) (now : ℕ) :
    LockPiece N S (List G) :=
  (victims A r nodeId).foldl (cleanUp A now) ⟨r, lock, [], []⟩

end Failure

/-! ### What the calls do -/

section Spec

variable {A} {r : S} {lock : DistributedLock N} {handle : LockHandle N} {now : ℕ}

theorem extend_eq_some {additionalMs : Option ℕ} {piece : LockPiece N S (LockCall N G)}
    (h : lock.extend A r handle additionalMs now = some piece) :
    lock.heldLocks.has handle.lockId = true ∧ (A.getEntityHost r handle.lockId).isSome ∧
      piece = ⟨(bumpFencingToken A r lock.localNodeId handle.lockId now).2.registry,
        lock.clearTimer handle.lockId,
        (bumpFencingToken A r lock.localNodeId handle.lockId now).2.emitted,
        .extending { handle with
            expiresAt := now + additionalMs.getD lock.defaultTtlMs
            fencingToken := getCurrentFencingToken A r handle.lockId + 1 }
          (additionalMs.getD lock.defaultTtlMs)
          (bumpFencingToken A r lock.localNodeId handle.lockId now).2.call⟩ := by
  rw [extend] at h
  split_ifs at h with hheld
  simp only [Bool.or_eq_true, Bool.not_eq_true', not_or, Bool.not_eq_false,
    isNone_iff_eq_none, ← isSome_iff_ne_none] at hheld
  exact ⟨hheld.1, hheld.2, (some.inj h).symm⟩

theorem release_eq_some {piece : LockPiece N S G} (h : lock.release A r handle now = some piece) :
    lock.heldLocks.has handle.lockId = true ∧
      piece = ⟨(A.call r (.releaseEntity handle.lockId) now).registry, lock.forget handle.lockId,
        (A.call r (.releaseEntity handle.lockId) now).emitted,
        (A.call r (.releaseEntity handle.lockId) now).call⟩ := by
  rw [release] at h
  split_ifs at h with hheld
  exact ⟨by simpa using hheld, (some.inj h).symm⟩

end Spec

/-! ### What is held -/

variable {A} {lock : DistributedLock N}

theorem isHeldLocally_forget {l l' : LockId} :
    (lock.forget l').isHeldLocally l = true ↔ lock.isHeldLocally l = true ∧ l' ≠ l := by
  by_cases h : l' = l <;>
    simp [isHeldLocally, forget, clearTimer, has, get_delete, Ne.symm, h]

theorem isHeldLocally_hold (lock : DistributedLock N) (handle : LockHandle N) (ttlMs now : ℕ)
    (l : LockId) :
    (lock.hold handle ttlMs now).isHeldLocally l =
      (decide (l = handle.lockId) || lock.isHeldLocally l) := by
  by_cases hl : l = handle.lockId <;>
    simp [isHeldLocally, hold, scheduleTtl, has, get_set, hl]

theorem isHeldLocally_handleRemoteNodeFailure [DecidableEq N] {r : S}
    {x : N} {l : LockId} {now : ℕ} :
    (lock.handleRemoteNodeFailure A r x now).lock.isHeldLocally l = true ↔
      lock.isHeldLocally l = true ∧ ∀ e ∈ victims A r x, e.entityId ≠ l := by
  have hfold : ∀ (es : List (EntityRecord N (LockValue N))) (piece : LockPiece N S (List G)),
      (es.foldl (cleanUp A now) piece).lock.isHeldLocally l = true ↔
        piece.lock.isHeldLocally l = true ∧ ∀ e ∈ es, e.entityId ≠ l := by
    intro es
    induction es with
    | nil => simp
    | cons _ _ ih =>
      intro piece
      rw [List.foldl_cons, ih, List.forall_mem_cons, ← and_assoc]
      exact and_congr_left' isHeldLocally_forget
  exact hfold _ _

end DistributedLock

namespace LockCall

def promise : LockCall N G → Option G
  | .proposing _ _ promise => some promise
  | .fencing _ _ _ _ promise => some promise
  | .stamping _ _ _ _ promise => some promise
  | .extending _ _ promise => some promise
  | .acquired _ => none
  | .extended _ => none
  | .refused => none

def setPromise (promise : G) : LockCall N G → LockCall N G
  | .proposing lockId ttl _ => .proposing lockId ttl promise
  | .fencing lockId ttl createdAt token _ => .fencing lockId ttl createdAt token promise
  | .stamping lockId ttl createdAt token _ => .stamping lockId ttl createdAt token promise
  | .extending updated extra _ => .extending updated extra promise
  | .acquired handle => .acquired handle
  | .extended handle => .extended handle
  | .refused => .refused

def proceed (A : LockRegistry N S G) (r : S) (lock : DistributedLock N) (now : ℕ) :
    LockCall N G → CallOutcome N (LockValue N) → LockPiece N S (LockCall N G)
  | .proposing lockId ttl _, .resolved record =>
    let (token, piece) := bumpFencingToken A r lock.localNodeId lockId now
    let createdAt := (record.map EntityRecord.createdAt).getD now
    ⟨piece.registry, lock, piece.emitted, .fencing lockId ttl createdAt token piece.call⟩
  | .fencing lockId ttl createdAt token _, .resolved _ =>
    let metadata := (lock.lockMetadata ttl).set "fencingToken" (.token token)
    let piece := A.call r (.updateEntity lockId metadata) now
    ⟨piece.registry, lock, piece.emitted, .stamping lockId ttl createdAt token piece.call⟩
  -- the failure of this write is ignored
  | .stamping lockId ttl createdAt token _, _ =>
    let handle : LockHandle N :=
      { lockId := lockId
        nodeId := lock.localNodeId
        acquiredAt := createdAt
        expiresAt := createdAt + ttl
        fencingToken := token }
    ⟨r, lock.hold handle ttl now, [], .acquired handle⟩
  | .extending updated extra _, .resolved _ =>
    ⟨r, lock.hold updated extra now, [], .extended updated⟩
  | .acquired handle, _ => ⟨r, lock, [], .acquired handle⟩
  | .extended handle, _ => ⟨r, lock, [], .extended handle⟩
  | _, _ => ⟨r, lock, [], .refused⟩

def resume (A : LockRegistry N S G) (r : S) (lock : DistributedLock N) (call : LockCall N G)
    (now : ℕ) (fault : Option String) : Option (LockPiece N S (LockCall N G)) :=
  call.promise.map fun promise =>
    match A.settled promise with
    | some outcome => call.proceed A r lock now outcome
    | none =>
      let piece := A.advance r promise now fault
      ⟨piece.registry, lock, piece.emitted, call.setPromise piece.call⟩

def handle : LockCall N G → Option (LockHandle N)
  | .acquired handle => some handle
  | .extended handle => some handle
  | _ => none

end LockCall

end DistributedCore.Locks
