import DistributedCore.Entity.WalRegistry

/-!
# Interleaved calls of the registry on a write-ahead log

The calls of `WriteAheadLogEntityRegistry` are asynchronous. A call runs without interruption up to
its next `await`, and between two of its pieces any pieces of other calls can run. A `WalProcess` is
a registry with its files and the calls that are under way, grouped by what they wait for; an event
is one piece of one call.

Source: `src/cluster/entity/WriteAheadLogEntityRegistry.ts`, `src/persistence/wal/WALWriter.ts`,
`src/persistence/wal/WALFile.ts`, `src/persistence/checkpoint/CheckpointWriter.ts`.
-/

namespace DistributedCore.Entity

open Persistence

/-- An append that is under way, and whether its call looks for a due checkpoint afterwards, which
remote updates do not. -/
structure PendingAppend (N V : Type) where
  entry : WALEntry N V
  checks : Bool

/-- A registry with the calls and checkpoints that wait. -/
structure WalProcess (N V : Type) where
  host : WalHost N V
  /-- The appends that wait for the size of the log. -/
  sizing : List (PendingAppend N V)
  /-- The appends that wait for their write. -/
  writing : List (PendingAppend N V)
  /-- The appends whose entry is in the log. -/
  written : List (PendingAppend N V)
  /-- The number of calls that have applied their update. -/
  applied : ℕ
  /-- The LSNs that calls have read to see whether a checkpoint is due. -/
  checking : List ℕ
  /-- The checkpoints that have read the LSN. -/
  reading : List ℕ
  /-- The checkpoints that have copied the entities. -/
  copied : List (ℕ × Entities N V)
  /-- The checkpoints whose file is written. -/
  filed : List ℕ
  /-- The checkpoints that have written `latest.json`. -/
  published : List ℕ

/-- The calls, and the operations of the file system that end. -/
inductive WalProcessEvent (N V : Type)
  | call (op : LocalOp N V) (now : ℕ)
  | remote (update : EntityUpdate N V) (now : ℕ)
  | size (i : ℕ) (fault : Option String)
  | write (i : ℕ) (fault : Option String)
  | apply (i : ℕ)
  | check
  | due (i : ℕ)
  | checkpoint
  | copy (i : ℕ)
  | writeFile (i : ℕ) (failed : Bool)
  | writeLatest (i : ℕ) (failed : Bool)
  | finish (i : ℕ)

variable {N V : Type}

namespace WalProcess

def idle (h : WalHost N V) : WalProcess N V := ⟨h, [], [], [], 0, [], [], [], [], []⟩

def unapplied (s : WalProcess N V) : List (PendingAppend N V) := s.sizing ++ s.writing ++ s.written

theorem mem_unapplied {s : WalProcess N V} {pending : PendingAppend N V} :
    pending ∈ s.unapplied ↔ pending ∈ s.sizing ∨ pending ∈ s.writing ∨ pending ∈ s.written := by
  rw [unapplied, List.mem_append, List.mem_append, or_assoc]

def currentLSN (s : WalProcess N V) : ℕ := s.host.registry.walWriter.currentLSN

variable (config : WalRegistryConfig N V) (s : WalProcess N V)

def append (update : EntityUpdate N V) (now : ℕ) (checks : Bool) : WalProcess N V :=
  let (writer, entry) := s.host.registry.walWriter.createEntry config.toWALConfig update now
  let host := { s.host with registry := { s.host.registry with walWriter := writer } }
  if !validateEntry config.toWALConfig entry then { s with host := host }
  else { s with host := host, sizing := s.sizing ++ [⟨entry, checks⟩] }

def createCheckpoint : WalProcess N V := { s with reading := s.reading ++ [s.currentLSN] }

variable (i : ℕ)

def size (fault : Option String) : Option (WalProcess N V) :=
  s.sizing[i]?.map fun pending =>
    let s := { s with sizing := s.sizing.eraseIdx i }
    if fault.isSome then s
    else if s.host.wal.getSize config.toWALConfig > config.maxFileSize then s
    else if !s.host.registry.walWriter.isOpen then s
    else { s with writing := s.writing ++ [pending] }

def write (fault : Option String) : Option (WalProcess N V) :=
  s.writing[i]?.map fun pending =>
    let s := { s with writing := s.writing.eraseIdx i }
    if fault.isSome then s
    else
      { s with
        host :=
          { s.host with
            wal := s.host.wal ++ [pending.entry]
            history := s.host.history ++ [.appended pending.entry] }
        written := s.written ++ [pending] }

def apply : Option (WalProcess N V) :=
  s.written[i]?.map fun pending =>
    { s with
      host := { s.host with registry := s.host.registry.applyUpdate pending.entry.data }
      written := s.written.eraseIdx i
      applied := if pending.checks then s.applied + 1 else s.applied }

def check : Option (WalProcess N V) :=
  match s.applied with
  | 0 => none
  | applied + 1 =>
    let s := { s with applied := applied }
    if config.lsnThreshold.isActive then some { s with checking := s.checking ++ [s.currentLSN] }
    else some s

def due : Option (WalProcess N V) :=
  s.checking[i]?.map fun lsn =>
    let s := { s with checking := s.checking.eraseIdx i }
    if config.lsnThreshold.divides lsn then s.createCheckpoint else s

def skips (lsn : ℕ) : Bool :=
  config.lsnThreshold.isActive &&
    config.lsnThreshold.exceeds ((lsn : ℤ) - s.host.registry.lastCheckpointLSN)

def copy : Option (WalProcess N V) :=
  s.reading[i]?.map fun lsn =>
    let s := { s with reading := s.reading.eraseIdx i }
    if s.skips config lsn then s
    else { s with copied := s.copied ++ [(lsn, s.host.registry.entities)] }

def writeFile (failed : Bool) : Option (WalProcess N V) :=
  s.copied[i]?.map fun (lsn, entities) =>
    let s := { s with copied := s.copied.eraseIdx i }
    if failed then s
    else
      { s with
        host :=
          { s.host with
            checkpoints := s.host.checkpoints.writeFile lsn (checkpointEntities entities)
            history := s.host.history ++ [.snapshotted lsn entities] }
        filed := s.filed ++ [lsn] }

def writeLatest (failed : Bool) : Option (WalProcess N V) :=
  s.filed[i]?.map fun lsn =>
    let s := { s with filed := s.filed.eraseIdx i }
    if failed then s
    else
      { s with
        host := { s.host with checkpoints := s.host.checkpoints.writeLatest lsn }
        published := s.published ++ [lsn] }

def finish : Option (WalProcess N V) :=
  s.published[i]?.map fun lsn =>
    { s with
      host :=
        { s.host with
          registry := { s.host.registry with lastCheckpointLSN := lsn }
          checkpoints := s.host.checkpoints.cleanup config.keepHistory }
      published := s.published.eraseIdx i }

def step [DecidableEq N] (config : WalRegistryConfig N V) (s : WalProcess N V) :
    WalProcessEvent N V → Option (WalProcess N V)
  | .call op now =>
    match s.host.prepare op now with
    | .error _ => some s
    | .ok call => some (s.append config call.update now true)
  | .remote update now => some (s.append config update now false)
  | .size i fault => s.size config i fault
  | .write i fault => s.write i fault
  | .apply i => s.apply i
  | .check => s.check config
  | .due i => s.due config i
  | .checkpoint => some s.createCheckpoint
  | .copy i => s.copy config i
  | .writeFile i failed => s.writeFile i failed
  | .writeLatest i failed => s.writeLatest i failed
  | .finish i => s.finish config i

theorem append_eq (update : EntityUpdate N V) (now : ℕ) (checks : Bool) :
    s.append config update now checks =
      { s with
        host := { s.host with registry := s.host.registry.nextLSN }
        sizing := s.sizing ++ [⟨⟨s.currentLSN + 1, now, update,
          config.calculateChecksum update⟩, checks⟩] } := by
  rw [append]
  exact if_neg (by simp [validateEntry])

/-- **The pieces of an append.** If nothing happens between them, they do to the log and to its
counter what `WALWriter.append` does. -/
theorem append_undisturbed (update : EntityUpdate N V) (now : ℕ) (checks : Bool)
    (fault : Option String) :
    ∃ sized, (s.append config update now checks).size config s.sizing.length none = some sized ∧
      sized.host.registry.walWriter = (s.host.registry.walWriter.append config.toWALConfig
        s.host.wal update now fault).1 ∧
      ((sized.write s.writing.length fault).getD sized).host.wal =
        match (s.host.registry.walWriter.append config.toWALConfig s.host.wal update now fault).2
        with
        | .error _ => s.host.wal
        | .ok (file, _) => file := by
  rw [append_eq, WALWriter.append_eq]
  simp only [size, List.getElem?_concat_length, Option.map_some]
  refine ⟨_, rfl, ?_⟩
  by_cases hsize : s.host.wal.getSize config.toWALConfig > config.maxFileSize
  · simp [hsize, write, WriteAheadLogEntityRegistry.nextLSN]
  by_cases hopen : s.host.registry.walWriter.isOpen = true
  · cases fault <;>
      simp [hsize, hopen, write, WriteAheadLogEntityRegistry.nextLSN, currentLSN]
  · simp [hsize, hopen, write, WriteAheadLogEntityRegistry.nextLSN]

end WalProcess

end DistributedCore.Entity
