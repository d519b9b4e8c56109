import DistributedCore.Entity.VersionedEntities
import DistributedCore.Library.Runs
import DistributedCore.Persistence.Checkpoint
import DistributedCore.Persistence.WriteAheadLog
import Mathlib.Algebra.Order.Ring.Unbundled.Rat

/-!
# The entity registry on a write-ahead log

`WriteAheadLogEntityRegistry` appends every update to a log before it applies it to its
entities, and writes a checkpoint of all entities from time to time. A registry that starts
restores the latest checkpoint and applies the log entries after it.

Source: `src/cluster/entity/WriteAheadLogEntityRegistry.ts`.
-/

namespace DistributedCore.Entity

open Persistence List

/-- The threshold between checkpoints; the source also allows `Infinity`. -/
inductive LsnThreshold
  | finite (n : ℚ)
  | infinite

namespace LsnThreshold

def isActive : LsnThreshold → Bool
  | finite n => 0 < n
  | infinite => true

def exceeds (diff : ℤ) : LsnThreshold → Bool
  | finite n => (diff : ℚ) < n
  | infinite => true

def divides (lsn : ℕ) : LsnThreshold → Bool
  | finite n => ((lsn : ℚ) / n).den = 1
  | infinite => lsn = 0

end LsnThreshold

structure WalRegistryConfig (N V : Type) extends WALConfig N V where
  lsnThreshold : LsnThreshold
  keepHistory : ℤ

/-- The entities in memory, and the number of the last checkpoint. -/
structure WriteAheadLogEntityRegistry (N V : Type) where
  entities : Entities N V
  walWriter : WALWriter
  nodeId : N
  isRunning : Bool
  globalVersion : ℤ
  lastCheckpointLSN : ℕ

/-- What a run has done to the files: an entry was appended, a snapshot of the entities was
written under an LSN, or a compaction has replaced the log. -/
inductive WalHappening (N V : Type)
  | appended (entry : WALEntry N V)
  | snapshotted (lsn : ℕ) (entities : Entities N V)
  | compacted (wal : WALFile N V)

/-- A registry with the files it writes. -/
structure WalHost (N V : Type) where
  registry : WriteAheadLogEntityRegistry N V
  wal : WALFile N V
  checkpoints : CheckpointDir N V
  history : List (WalHappening N V)

/-- The writes that the file system refuses during a call: the append, for a reason, and the
snapshot. -/
structure IoFaults where
  append : Option String := none
  checkpoint : Option SnapshotFault := none

inductive WalRegistryError (N : Type)
  | registry (err : RegistryError N)
  | wal (err : WALError)
  | checkpoint (fault : SnapshotFault)

/-- What a call has worked out when it appends to the log: the update, and the events that it is
going to emit, given the entities then. -/
structure PreparedCall (N V : Type) where
  update : EntityUpdate N V
  events : Entities N V → List (RegistryEvent N V)

structure WALEntityRegistryCompactionResult where
  entriesBefore : ℕ
  entriesKept : ℕ
  entriesRemoved : ℕ
  entitiesAlive : ℕ

variable {N V : Type}

/-! ### Snapshots -/

def EntityRecord.toState (record : EntityRecord N V) : EntityState N V where
  id := record.entityId
  data := record.metadata
  version := record.version
  hostNodeId := record.ownerNodeId
  lastModified := record.lastUpdated

def restoredRecord (entityState : EntityState N V) : EntityRecord N V where
  entityId := entityState.id
  ownerNodeId := entityState.hostNodeId
  version := entityState.version
  createdAt := entityState.lastModified
  lastUpdated := entityState.lastModified
  metadata := entityState.data

def checkpointEntities (entities : Entities N V) : OrderedMap EntityId (EntityState N V) :=
  entities.entries.foldl (fun o p => setProperty o p.1 p.2.toState) .empty

def restoredEntities (states : OrderedMap EntityId (EntityState N V)) : Entities N V :=
  states.entries.foldl (fun m p => m.set p.1 (restoredRecord p.2)) .empty

/-! ### The registry -/

namespace WriteAheadLogEntityRegistry

def applyUpdate (r : WriteAheadLogEntityRegistry N V) (u : EntityUpdate N V) :
    WriteAheadLogEntityRegistry N V :=
  { r with
    entities := (r.entities.applyUpdate u).1
    globalVersion := max r.globalVersion u.version }

def restoreFromCheckpoint (r : WriteAheadLogEntityRegistry N V) (checkpoints : CheckpointDir N V) :
    WriteAheadLogEntityRegistry N V :=
  match checkpoints.readLatest with
  | none => r
  | some snapshot =>
    { r with
      entities := restoredEntities snapshot.entities
      lastCheckpointLSN := snapshot.lsn
      globalVersion := (snapshot.entities.values.map EntityState.version).foldr max 0 }

def replayWAL (config : WalRegistryConfig N V) (r : WriteAheadLogEntityRegistry N V)
    (wal : WALFile N V) : WriteAheadLogEntityRegistry N V :=
  let startLSN := r.lastCheckpointLSN + 1
  (wal.readAll config.toWALConfig).foldl
    (fun r entry => if entry.logSequenceNumber ≥ startLSN then r.applyUpdate entry.data else r) r

def start (config : WalRegistryConfig N V) (nodeId : N) (wal : WALFile N V)
    (checkpoints : CheckpointDir N V) : WriteAheadLogEntityRegistry N V :=
  let r : WriteAheadLogEntityRegistry N V :=
    { entities := .empty
      walWriter := .initialized wal
      nodeId := nodeId
      isRunning := false
      globalVersion := 0
      lastCheckpointLSN := 0 }
  { (r.restoreFromCheckpoint checkpoints).replayWAL config wal with isRunning := true }

end WriteAheadLogEntityRegistry

namespace WalHost

variable (config : WalRegistryConfig N V)

def started (nodeId : N) (wal : WALFile N V) (checkpoints : CheckpointDir N V) : WalHost N V where
  registry := .start config nodeId wal checkpoints
  wal := wal
  checkpoints := checkpoints
  history := []

def fresh (nodeId : N) : WalHost N V := started config nodeId [] .empty

/-! ### Checkpoints -/

variable (h : WalHost N V)

/-- A fault of the file system ends the checkpoint where it occurs. -/
def createCheckpoint (fault : Option SnapshotFault) : WalHost N V × Except SnapshotFault Unit :=
  let currentLSN := h.registry.walWriter.currentLSN
  if config.lsnThreshold.isActive &&
      config.lsnThreshold.exceeds ((currentLSN : ℤ) - h.registry.lastCheckpointLSN) then
    (h, .ok ())
  else
    let entities := checkpointEntities h.registry.entities
    let written := h.checkpoints.writeSnapshot config.keepHistory currentLSN entities fault
    match fault with
    | none =>
      ({ h with
        registry := { h.registry with lastCheckpointLSN := currentLSN }
        checkpoints := written.1
        history := h.history ++ [.snapshotted currentLSN h.registry.entities] }, .ok ())
    | some .latest =>
      ({ h with
        checkpoints := written.1
        history := h.history ++ [.snapshotted currentLSN h.registry.entities] }, .error .latest)
    | some .snapshot => (h, .error .snapshot)

def checkNeedsCheckpoint (fault : Option SnapshotFault) : WalHost N V × Except SnapshotFault Unit :=
  if config.lsnThreshold.isActive then
    if config.lsnThreshold.divides h.registry.walWriter.currentLSN then
      h.createCheckpoint config fault
    else (h, .ok ())
  else (h, .ok ())

/-! ### Updates -/

/-- The update is logged before it is applied. -/
def logUpdate (update : EntityUpdate N V)
    (now : ℕ) (fault : Option String) : WalHost N V × Except WALError Unit :=
  let (writer, result) := h.registry.walWriter.append config.toWALConfig h.wal update now fault
  let registry := { h.registry with walWriter := writer }
  match result with
  | .error err => ({ h with registry := registry }, .error err)
  | .ok (wal, _) =>
    ({ h with
      registry := registry.applyUpdate update
      wal := wal
      history := h.history ++ (wal.drop h.wal.length).map .appended }, .ok ())

/-- What the four calls do after their checks: the update is logged and applied, a checkpoint is
written if it is due, and the events are emitted. -/
def commit (prepared : Except (RegistryError N) (PreparedCall N V)) (now : ℕ) (io : IoFaults) :
    WalHost N V × Except (WalRegistryError N) (List (RegistryEvent N V)) :=
  match prepared with
  | .error err => (h, .error (.registry err))
  | .ok call =>
    match h.logUpdate config call.update now io.append with
    | (h, .error err) => (h, .error (.wal err))
    | (h, .ok ()) =>
      match h.checkNeedsCheckpoint config io.checkpoint with
      | (h, .error fault) => (h, .error (.checkpoint fault))
      | (h, .ok ()) => (h, .ok (call.events h.registry.entities))

def preparePropose (entityId : EntityId) (metadata : Option (Metadata V))
    (now : ℕ) : Except (RegistryError N) (PreparedCall N V) :=
  if !h.registry.isRunning then .error .notRunning
  else if h.registry.entities.has entityId then .error (.alreadyExists entityId)
  else
    let record : EntityRecord N V :=
      { entityId := entityId
        ownerNodeId := some h.registry.nodeId
        version := 1
        createdAt := now
        lastUpdated := now
        metadata := metadata.getD .empty }
    .ok
      { update :=
          { entityId := entityId
            ownerNodeId := some h.registry.nodeId
            version := 1
            timestamp := now
            operation := .create
            metadata := metadata }
        events := fun _ => [.created record] }

def proposeEntity (entityId : EntityId) (metadata : Option (Metadata V)) (now : ℕ) (io : IoFaults) :
    WalHost N V × Except (WalRegistryError N) (List (RegistryEvent N V)) :=
  h.commit config (h.preparePropose entityId metadata now) now io

variable [DecidableEq N]

def ownedRecord (h : WalHost N V) (call : OwnerCall) (entityId : EntityId) :
    Except (RegistryError N) (EntityRecord N V) :=
  h.registry.entities.ownedRecord h.registry.isRunning h.registry.nodeId call entityId

def prepareRelease (h : WalHost N V) (entityId : EntityId) (now : ℕ) :
    Except (RegistryError N) (PreparedCall N V) :=
  (h.ownedRecord .release entityId).map fun entity =>
    { update :=
        { entityId := entityId
          version := entity.version + 1
          timestamp := now
          operation := .delete
          previousVersion := some entity.version }
      events := fun _ => [.deleted entity] }

variable (config : WalRegistryConfig N V) (h : WalHost N V) (entityId : EntityId)

def releaseEntity (now : ℕ) (io : IoFaults) :
    WalHost N V × Except (WalRegistryError N) (List (RegistryEvent N V)) :=
  h.commit config (h.prepareRelease entityId now) now io

def prepareUpdate (metadata : Metadata V) (now : ℕ) : Except (RegistryError N) (PreparedCall N V) :=
  (h.ownedRecord .update entityId).map fun entity =>
    { update :=
        { entityId := entityId
          ownerNodeId := some h.registry.nodeId
          version := entity.version + 1
          timestamp := now
          operation := .update
          metadata := some metadata
          previousVersion := some entity.version }
      events := fun entities => ((entities.get entityId).map RegistryEvent.updated).toList }

def updateEntity (metadata : Metadata V) (now : ℕ) (io : IoFaults) :
    WalHost N V × Except (WalRegistryError N) (List (RegistryEvent N V)) :=
  h.commit config (h.prepareUpdate entityId metadata now) now io

def prepareTransfer (targetNodeId : N) (now : ℕ) : Except (RegistryError N) (PreparedCall N V) :=
  (h.ownedRecord .transfer entityId).map fun entity =>
    { update :=
        { entityId := entityId
          ownerNodeId := some targetNodeId
          version := entity.version + 1
          timestamp := now
          operation := .transfer
          metadata := some entity.metadata
          previousVersion := some entity.version }
      events := fun entities => ((entities.get entityId).map RegistryEvent.transferred).toList }

def transferEntity (targetNodeId : N) (now : ℕ) (io : IoFaults) :
    WalHost N V × Except (WalRegistryError N) (List (RegistryEvent N V)) :=
  h.commit config (h.prepareTransfer entityId targetNodeId now) now io

def prepare (op : LocalOp N V) (now : ℕ) : Except (RegistryError N) (PreparedCall N V) :=
  match op with
  | .proposeEntity e metadata => h.preparePropose e metadata now
  | .updateEntity e metadata => h.prepareUpdate e metadata now
  | .transferEntity e target => h.prepareTransfer e target now
  | .releaseEntity e => h.prepareRelease e now

def perform (op : LocalOp N V) (now : ℕ)
    (io : IoFaults) : WalHost N V × Except (WalRegistryError N) (List (RegistryEvent N V)) :=
  match op with
  | .proposeEntity e metadata => h.proposeEntity config e metadata now io
  | .updateEntity e metadata => h.updateEntity config e metadata now io
  | .transferEntity e target => h.transferEntity config e target now io
  | .releaseEntity e => h.releaseEntity config e now io

omit [DecidableEq N] in
def applyRemoteUpdate
    (update : EntityUpdate N V) (now : ℕ) (fault : Option String) : WalHost N V × Bool :=
  match h.logUpdate config update now fault with
  | (h, .error _) => (h, false)
  | (h, .ok ()) => (h, true)

/-! ### Maintenance -/

omit [DecidableEq N] in
def truncateWALBefore (lsn : ℕ) : WalHost N V :=
  let truncated := h.registry.walWriter.truncateBefore h.wal lsn
  { h with
    registry := { h.registry with walWriter := truncated.1 }
    wal := truncated.2 }

def survivingUpdates (entries : List (WALEntry N V)) : List (EntityUpdate N V) :=
  let latestByEntity : OrderedMap EntityId (EntityUpdate N V) :=
    entries.foldl (fun m entry => m.set entry.data.entityId entry.data) .empty
  latestByEntity.values.filter fun update => update.operation ≠ .delete

def compactedUpdate (update : EntityUpdate N V) : EntityUpdate N V where
  entityId := update.entityId
  ownerNodeId := update.ownerNodeId
  version := update.version
  timestamp := update.timestamp
  operation := .create
  metadata := update.metadata

def appendAll (config : WALConfig N V) (now : ℕ) :
    WALWriter → WALFile N V → List (EntityUpdate N V) →
      Except (WALFile N V × WALError) (WALFile N V)
  | _, file, [] => .ok file
  | writer, file, update :: updates =>
    match writer.append config file update now none with
    | (_, .error err) => .error (file, err)
    | (writer, .ok (file, _)) => appendAll config now writer file updates

def freshConfig : WALConfig N V := { config.toWALConfig with maxFileSize := 100 * 1024 * 1024 }

/-- `compact`. The new file is written with the default size limit; if that fails the old file is
gone and the writer of the registry stays closed. -/
def compact (now : ℕ) : WalHost N V × Except WALError WALEntityRegistryCompactionResult :=
  let allEntries := h.wal.readAll config.toWALConfig
  let surviving := survivingUpdates allEntries
  match appendAll (freshConfig config) now (.initialized ([] : WALFile N V)) []
      (surviving.map compactedUpdate) with
  | .error (wal, err) =>
    ({ h with
      registry := { h.registry with walWriter := h.registry.walWriter.close }
      wal := wal
      history := h.history ++ [.compacted wal] }, .error err)
  | .ok wal =>
    ({ h with
      registry := { h.registry with walWriter := .initialized wal }
      wal := wal
      history := h.history ++ [.compacted wal] },
      .ok ⟨allEntries.length, surviving.length, allEntries.length - surviving.length,
        surviving.length⟩)

/-- The process ends, and a new one starts from the files. -/
def restart : WalHost N V :=
  { h with registry := .start config h.registry.nodeId h.wal h.checkpoints }

end WalHost

/-! ### Runs -/

/-- The calls, with the faults that the file system makes them meet. -/
inductive WalEvent (N V : Type)
  | call (op : LocalOp N V) (now : ℕ) (io : IoFaults)
  | remote (update : EntityUpdate N V) (now : ℕ) (fault : Option String)
  | checkpoint (fault : Option SnapshotFault)
  | compact (now : ℕ)
  | truncate (lsn : ℕ)
  | restart

/-- A call, a remote update or a checkpoint. -/
def WalEvent.IsOperation : WalEvent N V → Prop
  | .call .. | .remote .. | .checkpoint .. => True
  | .compact .. | .truncate .. | .restart => False

instance : (ev : WalEvent N V) → Decidable ev.IsOperation
  | .call .. | .remote .. | .checkpoint .. => .isTrue trivial
  | .compact .. | .truncate .. | .restart => .isFalse id

def WalHost.step [DecidableEq N] (config : WalRegistryConfig N V) (h : WalHost N V) :
    WalEvent N V → Option (WalHost N V)
  | .call op now io => some (h.perform config op now io).1
  | .remote update now fault => some (h.applyRemoteUpdate config update now fault).1
  | .checkpoint fault => some (h.createCheckpoint config fault).1
  | .compact now => some (h.compact config now).1
  | .truncate lsn => some (h.truncateWALBefore lsn)
  | .restart => some (h.restart config)

/-! ### What operations are made of -/

def WriteAheadLogEntityRegistry.nextLSN (r : WriteAheadLogEntityRegistry N V) :
    WriteAheadLogEntityRegistry N V :=
  { r with walWriter := { r.walWriter with currentLSN := r.walWriter.currentLSN + 1 } }

namespace WalHost

/-- The elementary changes: an append is refused, an entry is appended and applied, or a snapshot
is written. -/
inductive Change (config : WalRegistryConfig N V) (h : WalHost N V) : WalHost N V → Prop
  | refused : Change config h { h with registry := h.registry.nextLSN }
  | logged {entry : WALEntry N V}
      (lsn : entry.logSequenceNumber = h.registry.walWriter.currentLSN + 1)
      (valid : validateEntry config.toWALConfig entry = true) :
      Change config h
        { h with
          registry := h.registry.nextLSN.applyUpdate entry.data
          wal := h.wal ++ [entry]
          history := h.history ++ [.appended entry] }
  | snapshotted (fault : Option SnapshotFault) {last : ℕ}
      (last_eq : last = h.registry.walWriter.currentLSN ∨ last = h.registry.lastCheckpointLSN) :
      Change config h
        { h with
          registry := { h.registry with lastCheckpointLSN := last }
          checkpoints := (h.checkpoints.writeSnapshot config.keepHistory
            h.registry.walWriter.currentLSN (checkpointEntities h.registry.entities) fault).1
          history := h.history ++
            [.snapshotted h.registry.walWriter.currentLSN h.registry.entities] }

variable (config : WalRegistryConfig N V) (h : WalHost N V)

theorem change_logUpdate (update : EntityUpdate N V) (now : ℕ)
    (fault : Option String) : Change config h (h.logUpdate config update now fault).1 := by
  obtain ⟨hwriter, ⟨err, herr⟩ | ⟨entry, hlsn, rfl, hvalid, hok⟩⟩ :=
    h.registry.walWriter.append_spec config.toWALConfig h.wal update now fault
  · simp only [logUpdate, hwriter, herr]
    exact .refused
  · simp only [logUpdate, hwriter, hok, drop_left, map_cons, map_nil]
    exact .logged hlsn hvalid

theorem change_createCheckpoint (fault : Option SnapshotFault) :
    (h.createCheckpoint config fault).1 = h ∨
      Change config h (h.createCheckpoint config fault).1 := by
  rw [createCheckpoint]
  split_ifs
  · exact .inl rfl
  · match fault with
    | none => exact .inr (.snapshotted none (.inl rfl))
    | some .latest => exact .inr (.snapshotted (some .latest) (.inr rfl))
    | some .snapshot => exact .inl rfl

theorem changes_createCheckpoint (fault : Option SnapshotFault) :
    Relation.ReflTransGen (Change config) h (h.createCheckpoint config fault).1 := by
  rcases change_createCheckpoint config h fault with heq | hchange
  · rw [heq]
  · exact .single hchange

theorem changes_commit (prepared : Except (RegistryError N) (PreparedCall N V))
    (now : ℕ) (io : IoFaults) :
    Relation.ReflTransGen (Change config) h (h.commit config prepared now io).1 := by
  cases prepared with
  | error => exact .refl
  | ok call =>
    rw [commit]
    have hlog := change_logUpdate config h call.update now io.append
    rcases hlogged : h.logUpdate config call.update now io.append with ⟨h₁, result⟩
    rw [hlogged] at hlog
    cases result with
    | error => exact .single hlog
    | ok =>
      have hcheckpoint : Relation.ReflTransGen (Change config) h₁
          (h₁.checkNeedsCheckpoint config io.checkpoint).1 := by
        rw [checkNeedsCheckpoint]
        split_ifs
        · exact changes_createCheckpoint config h₁ io.checkpoint
        · exact .refl
        · exact .refl
      dsimp only
      rcases hchecked : h₁.checkNeedsCheckpoint config io.checkpoint with ⟨h₂, result⟩
      rw [hchecked] at hcheckpoint
      cases result with
      | error => exact .head hlog hcheckpoint
      | ok => exact .head hlog hcheckpoint

variable [DecidableEq N]

variable {config} in
/-- **What operations are made of.** -/
theorem changes_of_operation {h h' : WalHost N V} {ev : WalEvent N V} (hev : ev.IsOperation)
    (hstep : h.step config ev = some h') : Relation.ReflTransGen (Change config) h h' := by
  cases ev with
  | call op now io =>
    cases hstep
    have hcommit := changes_commit config h (h.prepare op now) now io
    cases op <;> exact hcommit
  | remote update now fault =>
    cases hstep
    have hlog := change_logUpdate config h update now fault
    rw [applyRemoteUpdate]
    rcases hlogged : h.logUpdate config update now fault with ⟨h₁, result⟩
    rw [hlogged] at hlog
    cases result with
    | error => exact .single hlog
    | ok => exact .single hlog
  | checkpoint fault => exact Option.some.inj hstep ▸ changes_createCheckpoint config h fault
  | compact | truncate | restart => exact hev.elim

/-! ### The numbers of the entries -/

/-- The numbers of the log increase and lie below the counter. -/
structure Numbered (config : WalRegistryConfig N V) (h : WalHost N V) : Prop where
  ordered : h.wal.Ordered config.toWALConfig
  lsn : ∀ entry ∈ h.wal, 1 ≤ entry.logSequenceNumber ∧
    entry.logSequenceNumber ≤ h.registry.walWriter.currentLSN

omit [DecidableEq N] in
theorem numbered_fresh (nodeId : N) : Numbered config (fresh config nodeId) where
  ordered := WALFile.ordered_nil
  lsn _ he := nomatch he

omit [DecidableEq N] in
variable {config} in
theorem Numbered.change {h h' : WalHost N V} (hnum : Numbered config h)
    (hchange : Change config h h') : Numbered config h' := by
  cases hchange with
  | refused =>
    exact ⟨hnum.ordered, fun entry he =>
      ⟨(hnum.lsn entry he).1, Nat.le_succ_of_le (hnum.lsn entry he).2⟩⟩
  | @logged entry lsn valid =>
    refine ⟨hnum.ordered.concat valid fun old hold => ?_, fun e he => ?_⟩
    · have := (hnum.lsn old hold).2
      omega
    · change 1 ≤ e.logSequenceNumber ∧ e.logSequenceNumber ≤ h.registry.walWriter.currentLSN + 1
      rcases mem_append.mp he with he | he
      · exact ⟨(hnum.lsn e he).1, Nat.le_succ_of_le (hnum.lsn e he).2⟩
      · rw [mem_singleton.mp he, lsn]
        omega
  | snapshotted => exact ⟨hnum.ordered, hnum.lsn⟩

end WalHost

end DistributedCore.Entity
