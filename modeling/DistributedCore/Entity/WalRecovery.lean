import DistributedCore.Entity.WalRegistry

/-!
# Recovery from the log and the checkpoints

A registry on a write-ahead log is stopped, or crashes, between two calls, and is started again
on its files. It has the entities of before, with their owner, version, metadata and time of the
last update, whatever calls were made before: local calls, remote updates that take effect or
not, checkpoints by threshold or on demand, and writes that the file system refuses
(`recovered_eq`).
-/

namespace DistributedCore.Entity

open Persistence EntityRecord WriteAheadLogEntityRegistry List Option WALEntry OrderedMap

variable {N V : Type} {wal : WALFile N V} {e : EntityId} (entities : Entities N V)

/-! ### Snapshots -/

theorem get_checkpointEntities (e : EntityId) : (checkpointEntities entities).get e =
      if e = "__proto__" then none else (entities.get e).map toState := by
  have hassign := get_assignIf (fun k => decide (k ≠ "__proto__")) toState entities .empty e
  have hloop : checkpointEntities entities = entities.entries.foldl (fun o p =>
      if decide (p.1 ≠ "__proto__") then o.set p.1 p.2.toState else o) .empty := by
    simp [checkpointEntities, setProperty]
  rw [hloop, hassign]
  by_cases he : e = "__proto__" <;> simp [he]

theorem durable_restored (he : e = "__proto__" → entities.get e = none) :
    ((restoredEntities (checkpointEntities entities)).get e).map durable =
      (entities.get e).map durable := by
  rw [restoredEntities, get_assign, get_empty, or_none, get_checkpointEntities]
  split_ifs with hproto
  · rw [he hproto]
    rfl
  · rw [Option.map_map, Option.map_map]
    rfl

/-! ### Replay -/

def updatesUpTo (wal : WALFile N V) (lsn : ℕ) : List (EntityUpdate N V) :=
  (wal.filter fun entry => entry.logSequenceNumber ≤ lsn).map WALEntry.data

def updatesAfter (wal : WALFile N V) (lsn : ℕ) : List (EntityUpdate N V) :=
  (wal.filter fun entry => lsn < entry.logSequenceNumber).map WALEntry.data

theorem updatesUpTo_append_updatesAfter {config : WALConfig N V}
    (hwal : wal.Ordered config) (lsn : ℕ) :
    updatesUpTo wal lsn ++ updatesAfter wal lsn = wal.map data := by
  have hsplit := hwal.filter_append_filter (fun entry => lsn < entry.logSequenceNumber)
    fun a b hab ha => decide_eq_true ((of_decide_eq_true ha).trans hab)
  have hnot : ∀ entry : WALEntry N V, (!decide (lsn < entry.logSequenceNumber)) =
      decide (entry.logSequenceNumber ≤ lsn) := fun entry => by
    rw [← decide_not, decide_eq_decide, not_lt]
  simp only [hnot] at hsplit
  rw [updatesUpTo, updatesAfter, ← map_append, hsplit]

variable (config : WalRegistryConfig N V) (nodeId : N) (r : WriteAheadLogEntityRegistry N V)

theorem entities_replayWAL (wal : WALFile N V) : (r.replayWAL config wal).entities =
      r.entities.replay (updatesAfter (wal.readAll config.toWALConfig) r.lastCheckpointLSN) := by
  rw [replayWAL]
  generalize r.lastCheckpointLSN = start
  induction wal.readAll config.toWALConfig generalizing r with
  | nil => rfl
  | cons entry _ ih =>
    rw [foldl_cons, ih, updatesAfter, updatesAfter]
    by_cases hlt : start < entry.logSequenceNumber
    · rw [if_pos (show entry.logSequenceNumber ≥ start + 1 from hlt),
        filter_cons_of_pos (by simpa using hlt), map_cons]
      rfl
    · rw [if_neg (show ¬ entry.logSequenceNumber ≥ start + 1 from hlt),
        filter_cons_of_neg (by simpa using hlt)]

theorem replayWAL_frame (wal : WALFile N V) : (r.replayWAL config wal).walWriter = r.walWriter ∧
      (r.replayWAL config wal).lastCheckpointLSN = r.lastCheckpointLSN := by
  rw [replayWAL]
  generalize r.lastCheckpointLSN + 1 = start
  induction wal.readAll config.toWALConfig generalizing r with
  | nil => exact ⟨rfl, rfl⟩
  | cons entry _ ih =>
    rw [foldl_cons]
    split_ifs
    · exact ih (r.applyUpdate entry.data)
    · exact ih r

def restoredLSN (checkpoints : CheckpointDir N V) : ℕ :=
  (checkpoints.readLatest.map CheckpointSnapshot.lsn).getD 0

/-- The entities that a restart reads from the checkpoint. -/
def restoredFrom (checkpoints : CheckpointDir N V) : Entities N V :=
  (checkpoints.readLatest.map fun snapshot => restoredEntities snapshot.entities).getD .empty

theorem entities_start (wal : WALFile N V) (checkpoints : CheckpointDir N V) :
    (WriteAheadLogEntityRegistry.start config nodeId wal checkpoints).entities =
      (restoredFrom checkpoints).replay
        (updatesAfter (wal.readAll config.toWALConfig) (restoredLSN checkpoints)) := by
  rw [WriteAheadLogEntityRegistry.start]
  rw [entities_replayWAL, restoreFromCheckpoint, restoredFrom, restoredLSN]
  cases checkpoints.readLatest <;> rfl

theorem start_frame (wal : WALFile N V) (checkpoints : CheckpointDir N V) :
    let started := WriteAheadLogEntityRegistry.start config nodeId wal checkpoints
    started.walWriter = .initialized wal ∧
      started.lastCheckpointLSN = restoredLSN checkpoints := by
  rw [WriteAheadLogEntityRegistry.start, restoreFromCheckpoint, restoredLSN]
  have hframe := fun r => replayWAL_frame (r := r) config wal
  cases checkpoints.readLatest <;> exact hframe _

theorem entities_start_of_none
    {checkpoints : CheckpointDir N V} (hwal : wal.Ordered config.toWALConfig)
    (hpos : ∀ entry ∈ wal, 1 ≤ entry.logSequenceNumber) (hread : checkpoints.readLatest = none) :
    (WriteAheadLogEntityRegistry.start config nodeId wal checkpoints).entities =
      Entities.replay .empty (wal.map data) := by
  have hall : updatesAfter wal 0 = wal.map data := by
    rw [updatesAfter, filter_eq_self.mpr]
    exact fun entry he => decide_eq_true (hpos entry he)
  rw [entities_start, hwal.readAll_eq, restoredFrom, restoredLSN, hread, map_none,
    map_none, getD_none, getD_none, hall]

/-! ### The invariant -/

/-- The entities are those of the log, and every snapshot has the entities of the log up to its
LSN. -/
structure Logged (config : WalRegistryConfig N V) (h : WalHost N V) : Prop
    extends WalHost.Numbered config h where
  entities : h.registry.entities = Entities.replay .empty (h.wal.map WALEntry.data)
  snapshot : ∀ {name snapshot}, h.checkpoints.files.get name = some snapshot →
    snapshot.lsn ≤ h.registry.walWriter.currentLSN ∧
      ∃ entities, .snapshotted snapshot.lsn entities ∈ h.history ∧
        snapshot.entities = checkpointEntities entities ∧
        entities = Entities.replay .empty (updatesUpTo h.wal snapshot.lsn)

section Invariant

variable {config : WalRegistryConfig N V} {h h' : WalHost N V}

theorem logged_fresh (config : WalRegistryConfig N V) (nodeId : N) :
    Logged config (WalHost.fresh config nodeId) where
  toNumbered := WalHost.numbered_fresh config nodeId
  entities := rfl
  snapshot hget := nomatch hget

section

variable (hlog : Logged config h)

include hlog

theorem Logged.updatesUpTo_currentLSN :
    updatesUpTo h.wal h.registry.walWriter.currentLSN = h.wal.map data := by
  rw [updatesUpTo, filter_eq_self.mpr]
  exact fun entry he => decide_eq_true (hlog.lsn entry he).2

/-- **The elementary changes keep the invariant.** -/
theorem Logged.change (hchange : WalHost.Change config h h') : Logged config h' := by
  have hnum := hlog.toNumbered.change hchange
  cases hchange with
  | refused =>
    exact {
      toNumbered := hnum
      entities := hlog.entities
      snapshot := fun hget => ⟨Nat.le_succ_of_le (hlog.snapshot hget).1, (hlog.snapshot hget).2⟩ }
  | @logged entry lsn valid =>
    exact {
      toNumbered := hnum
      entities := by
        rw [map_append, Entities.replay_append, ← hlog.entities]
        rfl
      snapshot := fun {name snapshot} hget => by
        obtain ⟨hle, entities, hmem, hentities, hreplay⟩ := hlog.snapshot hget
        refine ⟨Nat.le_succ_of_le hle, entities, mem_append_left _ hmem, hentities, ?_⟩
        -- the new entry is after every snapshot
        have hnot : ¬ entry.logSequenceNumber ≤ snapshot.lsn := by omega
        rw [updatesUpTo, filter_append, filter_cons_of_neg (by simpa using hnot),
          filter_nil, append_nil]
        exact hreplay }
  | snapshotted =>
    exact {
      toNumbered := hnum
      entities := hlog.entities
      snapshot := fun {name snapshot} hget => by
        rcases CheckpointDir.get_writeSnapshot hget with hold | rfl
        · obtain ⟨hle, entities, hmem, hrest⟩ := hlog.snapshot hold
          exact ⟨hle, entities, mem_append_left _ hmem, hrest⟩
        · refine ⟨le_rfl, _, mem_append_right _ (mem_singleton.mpr rfl), rfl, ?_⟩
          rw [hlog.updatesUpTo_currentLSN]
          exact hlog.entities }

theorem Logged.run [DecidableEq N] {es : List (WalEvent N V)}
    (hes : ∀ ev ∈ es, ev.IsOperation) (hrun : exec (WalHost.step config) h es = some h') :
    Logged config h' :=
  exec_invariant_of_changes (fun _ _ hs hchange => hs.change hchange)
    (fun _ _ _ _ hok hstep => WalHost.changes_of_operation hok.2 hstep) hlog
    ((allSteps_true _ _ es).and_forall hes) hrun

end

end Invariant

/-! ### Recovery -/

/-- **Recovery is exact.** After any sequence of calls, a registry that is started on the files
has the same owner, version, metadata and time of the last update for every entity, provided
that, if the entity is called `__proto__`, no snapshot was written while it was live. -/
theorem recovered_eq [DecidableEq N] (config : WalRegistryConfig N V) (nodeId : N)
    {es : List (WalEvent N V)} {h : WalHost N V} (hes : ∀ ev ∈ es, ev.IsOperation)
    (hrun : exec (WalHost.step config) (WalHost.fresh config nodeId) es = some h) (e : EntityId)
    (hproto : e = "__proto__" → ∀ lsn entities, .snapshotted lsn entities ∈ h.history →
      entities.get e = none) :
    ((h.restart config).registry.entities.get e).map durable =
      (h.registry.entities.get e).map durable := by
  have hlog := (logged_fresh config nodeId).run hes hrun
  rw [WalHost.restart]
  cases hread : h.checkpoints.readLatest with
  | none =>
    rw [entities_start_of_none config _ hlog.ordered (fun entry he => (hlog.lsn entry he).1)
      hread, hlog.entities]
  | some snapshot =>
    obtain ⟨name, hget⟩ := CheckpointDir.exists_get_of_readLatest hread
    obtain ⟨-, entities, hmem, hentities, hreplay⟩ := hlog.snapshot hget
    rw [entities_start, hlog.ordered.readAll_eq, restoredFrom, restoredLSN, hread,
      map_some, map_some, getD_some, getD_some, hlog.entities,
      ← updatesUpTo_append_updatesAfter hlog.ordered snapshot.lsn,
      Entities.replay_append, ← hreplay, hentities]
    exact Entities.durable_replay_congr e _ _ _
      (durable_restored entities fun he => hproto he snapshot.lsn entities hmem)

def onDemandConfig : WalRegistryConfig String ℕ where
  maxFileSize := 100
  calculateChecksum _ := ""
  lineLength _ := 0
  lsnThreshold := .finite 0
  keepHistory := 5

def checkpointBetween (e : EntityId) : List (WalEvent String ℕ) :=
  [.call (.proposeEntity e none) 0 {}, .checkpoint none,
    .call (.updateEntity e (OrderedMap.empty.set "k" 1)) 1 {}]

theorem recovered_eq_checkpointBetween :
    ∃ h, exec (WalHost.step onDemandConfig) (WalHost.fresh onDemandConfig "n1")
        (checkpointBetween "e") = some h ∧
      ((h.restart onDemandConfig).registry.entities.get "e").map durable =
        (h.registry.entities.get "e").map durable := by
  have hes : ∀ ev ∈ checkpointBetween "e", ev.IsOperation := by decide
  exact ⟨_, rfl, recovered_eq onDemandConfig "n1" hes rfl "e" fun h => absurd h (by decide)⟩

/-- Recovery can lose an entity: a checkpoint that is written while `__proto__` is live does not
have it. -/
theorem not_recovered_of_proto :
    ¬ ∀ (config : WalRegistryConfig String ℕ) (nodeId : String) (es : List (WalEvent String ℕ))
      (h : WalHost String ℕ), (∀ ev ∈ es, ev.IsOperation) →
      exec (WalHost.step config) (WalHost.fresh config nodeId) es = some h →
      ∀ e, ((h.restart config).registry.entities.get e).map durable =
        (h.registry.entities.get e).map durable := by
  intro hall
  have hlost := congrArg Option.isSome (hall onDemandConfig "n1" (checkpointBetween "__proto__") _
    (by decide) rfl "__proto__")
  exact absurd hlost (by decide)

end DistributedCore.Entity
