import DistributedCore.Entity.AsyncRegistry
import DistributedCore.Entity.WalInterleaving

/-!
# The registry on a write-ahead log as its users call it

A call of `WriteAheadLogEntityRegistry` checks its arguments, appends an update to the log, applies
it, looks for a due checkpoint and returns. It waits in between, and other calls run. Here a call
under way is a `WalCall`, which says where it waits, so that a caller can follow its own call. The
pieces are those of `WalProcess`, where the calls that wait for the same thing are kept together.

Source: `src/cluster/entity/WriteAheadLogEntityRegistry.ts`.
-/

namespace DistributedCore.Entity

open Persistence

variable {N V : Type}

/-- The wait at which a call stands. -/
inductive WalStage (N V : Type)
  /-- The size of the log. -/
  | sizing (entry : WALEntry N V)
  /-- The write of the entry. -/
  | writing (entry : WALEntry N V)
  /-- The end of the append. -/
  | written (entry : WALEntry N V)
  /-- The end of `applyUpdate`. -/
  | applied
  /-- `getCurrentLSN`, to see whether a checkpoint is due. -/
  | checking (lsn : ℕ)
  /-- `getCurrentLSN`, for a checkpoint. -/
  | reading (lsn : ℕ)
  /-- The write of the checkpoint file. -/
  | copied (lsn : ℕ) (entities : Entities N V)
  /-- The write of `latest.json`. -/
  | filed (lsn : ℕ)
  /-- The removal of old files. -/
  | published (lsn : ℕ)
  /-- The end of `checkNeedsCheckpoint`. -/
  | checked
  | settled (outcome : CallOutcome N V)

/-- A call under way, with the events that it emits in the end. A remote update has none: it ends
with its application, and with `false` if an append fails. -/
structure WalCall (N V : Type) where
  events : Option (Entities N V → List (RegistryEvent N V))
  stage : WalStage N V

namespace WalCall

variable (config : WalRegistryConfig N V)

def settled (call : WalCall N V) : Option (CallOutcome N V) :=
  match call.stage with
  | .settled outcome => some outcome
  | _ => none

def await (call : WalCall N V) (stage : WalStage N V) : WalCall N V := { call with stage := stage }

def fail (call : WalCall N V) : WalCall N V :=
  call.await (.settled (if call.events.isSome then .rejected else .resolved none))

def append (h : WalHost N V) (update : EntityUpdate N V) (now : ℕ)
    (events : Option (Entities N V → List (RegistryEvent N V))) :
    CallPiece N V (WalHost N V) (WalCall N V) :=
  let (writer, entry) := h.registry.walWriter.createEntry config.toWALConfig update now
  let h := { h with registry := { h.registry with walWriter := writer } }
  let call : WalCall N V := ⟨events, .sizing entry⟩
  if !validateEntry config.toWALConfig entry then ⟨h, call.fail, []⟩ else ⟨h, call, []⟩

def perform [DecidableEq N] (h : WalHost N V) (op : LocalOp N V) (now : ℕ) :
    CallPiece N V (WalHost N V) (WalCall N V) :=
  match h.prepare op now with
  | .error _ => ⟨h, ⟨none, .settled .rejected⟩, []⟩
  | .ok prepared => append config h prepared.update now (some prepared.events)

def advance (h : WalHost N V) (call : WalCall N V) (fault : Option String) :
    CallPiece N V (WalHost N V) (WalCall N V) :=
  match call.stage with
  | .sizing entry =>
    if fault.isSome then ⟨h, call.fail, []⟩
    else if h.wal.getSize config.toWALConfig > config.maxFileSize then ⟨h, call.fail, []⟩
    else if !h.registry.walWriter.isOpen then ⟨h, call.fail, []⟩
    else ⟨h, call.await (.writing entry), []⟩
  | .writing entry =>
    if fault.isSome then ⟨h, call.fail, []⟩
    else
      ⟨{ h with wal := h.wal ++ [entry], history := h.history ++ [.appended entry] },
        call.await (.written entry), []⟩
  | .written entry =>
    ⟨{ h with registry := h.registry.applyUpdate entry.data },
      call.await (if call.events.isSome then .applied else .settled (.resolved none)), []⟩
  | .applied =>
    if config.lsnThreshold.isActive then
      ⟨h, call.await (.checking h.registry.walWriter.currentLSN), []⟩
    else ⟨h, call.await .checked, []⟩
  | .checking lsn =>
    if config.lsnThreshold.divides lsn then
      ⟨h, call.await (.reading h.registry.walWriter.currentLSN), []⟩
    else ⟨h, call.await .checked, []⟩
  | .reading lsn =>
    if config.lsnThreshold.isActive &&
        config.lsnThreshold.exceeds ((lsn : ℤ) - h.registry.lastCheckpointLSN) then
      ⟨h, call.await .checked, []⟩
    else ⟨h, call.await (.copied lsn h.registry.entities), []⟩
  | .copied lsn entities =>
    if fault.isSome then ⟨h, call.fail, []⟩
    else
      ⟨{ h with
          checkpoints := h.checkpoints.writeFile lsn (checkpointEntities entities)
          history := h.history ++ [.snapshotted lsn entities] }, call.await (.filed lsn), []⟩
  | .filed lsn =>
    if fault.isSome then ⟨h, call.fail, []⟩
    else
      ⟨{ h with checkpoints := h.checkpoints.writeLatest lsn }, call.await (.published lsn), []⟩
  | .published lsn =>
    ⟨{ h with
        registry := { h.registry with lastCheckpointLSN := lsn }
        checkpoints := h.checkpoints.cleanup config.keepHistory }, call.await .checked, []⟩
  | .checked =>
    let events := (call.events.map fun events => events h.registry.entities).getD []
    ⟨h, call.await (.settled (.resolved (events.head?.bind RegistryEvent.returned))), events⟩
  | .settled _ => ⟨h, call, []⟩

end WalCall

def walRegistry [DecidableEq N] (config : WalRegistryConfig N V) :
    AsyncRegistry N V (WalHost N V) (WalCall N V) where
  getEntity h e := h.registry.entities.get e
  getEntityHost h e := (h.registry.entities.get e).map EntityRecord.ownerNodeId
  getAllKnownEntities h := h.registry.entities.values
  call h op now := WalCall.perform config h op now
  applyRemoteUpdate h u now := WalCall.append config h u now none
  advance h call _ fault := call.advance config h fault
  settled := WalCall.settled

namespace WalCall

variable {config : WalRegistryConfig N V} {h : WalHost N V} {call : WalCall N V}
  (config : WalRegistryConfig N V)

/-! ### Pieces and entities -/

def pending (call : WalCall N V) : Option (EntityUpdate N V) :=
  match call.stage with
  | .sizing entry => some entry.data
  | .writing entry => some entry.data
  | .written entry => some entry.data
  | _ => none

theorem prepare_spec [DecidableEq N] {op : LocalOp N V} {now : ℕ} {prepared : PreparedCall N V}
    (hprepare : h.prepare op now = .ok prepared) :
    prepared.update.entityId = op.entityId ∧
      (prepared.update.operation = .delete → op = .releaseEntity op.entityId) ∧
      ∀ e metadata, op = .proposeEntity e metadata →
        h.registry.entities.has e = false ∧ prepared.update.operation = .create := by
  cases op with
  | proposeEntity =>
    simp only [WalHost.prepare, WalHost.preparePropose] at hprepare
    split_ifs at hprepare with _ hhas
    cases hprepare
    refine ⟨rfl, (fun hop => by cases hop), fun e' metadata' hop => ?_⟩
    obtain ⟨rfl, -⟩ := LocalOp.proposeEntity.inj hop
    exact ⟨Bool.eq_false_iff.mpr hhas, rfl⟩
  | updateEntity e metadata | transferEntity e target =>
    obtain ⟨entity, -, rfl⟩ := map_eq_ok_iff.mp hprepare
    exact ⟨rfl, (fun hop => by cases hop), fun _ _ hop => by cases hop⟩
  | releaseEntity =>
    obtain ⟨entity, -, rfl⟩ := map_eq_ok_iff.mp hprepare
    exact ⟨rfl, fun _ => rfl, fun _ _ hop => by cases hop⟩

/-- **The pieces of a call up to the write.** If nothing happens between them, they do to the log
and to its counter what `WALWriter.append` does. -/
theorem append_undisturbed (h : WalHost N V) (update : EntityUpdate N V) (now : ℕ)
    (events : Option (Entities N V → List (RegistryEvent N V))) (fault : Option String) :
    let start := append config h update now events
    let sized := start.call.advance config start.registry none
    let written := sized.call.advance config sized.registry fault
    written.registry.registry.walWriter =
        (h.registry.walWriter.append config.toWALConfig h.wal update now fault).1 ∧
      match (h.registry.walWriter.append config.toWALConfig h.wal update now fault).2 with
      | .error _ => written.call = start.call.fail ∧ written.registry.wal = h.wal
      | .ok (file, _) =>
        (∃ entry, written.call = start.call.await (.written entry)) ∧
          written.registry.wal = file := by
  have hvalid := validateEntry_createEntry config.toWALConfig h.registry.walWriter update now
  simp only [append, hvalid, Bool.not_true, Bool.false_eq_true, ↓reduceIte, WALWriter.append_eq]
  by_cases hsize : h.wal.getSize config.toWALConfig > config.maxFileSize
  · simp [hsize, advance, fail, await, WALWriter.createEntry]
  by_cases hopen : h.registry.walWriter.isOpen = true
  · cases fault <;> simp [hsize, hopen, advance, fail, await, WALWriter.createEntry]
  · simp [hsize, hopen, advance, fail, await, WALWriter.createEntry]

theorem append_spec (h : WalHost N V) (update : EntityUpdate N V)
    (now : ℕ) (events : Option (Entities N V → List (RegistryEvent N V))) :
    (append config h update now events).registry.registry.entities = h.registry.entities ∧
      (append config h update now events).call.pending = some update ∧
      (append config h update now events).call.events = events := by
  rw [append]
  dsimp only
  rw [if_neg (by simp [validateEntry_createEntry])]
  exact ⟨rfl, rfl, rfl⟩

/-- The first piece of a local call leaves the entities alone. The call is refused, or it goes on
to apply its update. -/
theorem perform_spec [DecidableEq N] (h : WalHost N V) (op : LocalOp N V) (now : ℕ) :
    (perform config h op now).registry.registry.entities = h.registry.entities ∧
      ((perform config h op now).call.pending = none ∧
          (perform config h op now).call.settled = some .rejected ∨
        ∃ prepared, h.prepare op now = .ok prepared ∧
          (perform config h op now).call.pending = some prepared.update ∧
          (perform config h op now).call.events.isSome = true) := by
  rw [perform]
  cases hprepare : h.prepare op now with
  | error => exact ⟨rfl, .inl ⟨rfl, rfl⟩⟩
  | ok prepared =>
    obtain ⟨hentities, hpending, hevents⟩ :=
      append_spec config h prepared.update now (some prepared.events)
    exact ⟨hentities, .inr ⟨prepared, rfl, hpending, by rw [hevents]; rfl⟩⟩

/-- **Only the application of an update changes the entities.** A piece applies the update of the
call, after which the call has none, or it leaves the entities alone, and the call keeps its update
or fails. -/
theorem advance_spec (h : WalHost N V) (call : WalCall N V) (fault : Option String) :
    (∃ update, call.pending = some update ∧ (call.advance config h fault).call.pending = none ∧
      (call.advance config h fault).registry.registry.entities =
        (h.registry.entities.applyUpdate update).1) ∨
    ((call.advance config h fault).registry.registry.entities = h.registry.entities ∧
      ((call.advance config h fault).call.pending = call.pending ∨
        (call.advance config h fault).call = call.fail)) := by
  obtain ⟨events, stage⟩ := call
  cases stage with
  | sizing =>
    simp only [advance]
    split_ifs <;> first | exact .inr ⟨rfl, .inr rfl⟩ | exact .inr ⟨rfl, .inl rfl⟩
  | writing =>
    cases fault with
    | none => exact .inr ⟨rfl, .inl rfl⟩
    | some => exact .inr ⟨rfl, .inr rfl⟩
  | written entry => exact .inl ⟨entry.data, rfl, by cases events <;> rfl, rfl⟩
  | applied | checking lsn | reading lsn =>
    simp only [advance]
    split_ifs <;> exact .inr ⟨rfl, .inl rfl⟩
  | copied lsn entities | filed lsn =>
    cases fault with
    | none => exact .inr ⟨rfl, .inl rfl⟩
    | some => exact .inr ⟨rfl, .inr rfl⟩
  | published lsn | checked | settled outcome => exact .inr ⟨rfl, .inl rfl⟩

end WalCall

end DistributedCore.Entity
