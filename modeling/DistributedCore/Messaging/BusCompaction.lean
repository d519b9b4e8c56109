import DistributedCore.Messaging.BusVersions

/-!
# Publishes and a compaction at the same time

`publish` and `compact` run at the same time and wait often: a publish for a compaction that is in
flight, for the size of the log, for the write, for the log to be on the disk and for the other
nodes; a compaction for each entry that it reads, for the reader and the writer to be closed, for
the removal of the log, for each entry that it writes, and for the new writer.

Source: `src/messaging/EventBus.ts`, `src/persistence/wal/WALWriter.ts`,
`src/persistence/wal/WALFile.ts`.
-/

namespace DistributedCore.Messaging

open Persistence

variable {P : Type}

/-! ### Publishes and a compaction under way -/

/-- What a publish waits for. While its entry is appended, it holds the writer that it has found;
after the append it asks the bus for its writer again. -/
inductive PublishStage (P : Type)
  | waiting
  | sizing (writer : ℕ) (entry : BusEntry P)
  | writing (writer : ℕ) (entry : BusEntry P)
  | appended
  | syncing
  | sending
  | resolved
  | rejected (err : BusError)

/-- A call of `publish` and where it stands. -/
structure PublishTask (P : Type) where
  event : BusEvent P
  stage : PublishStage P

/-- The events that a compaction keeps. -/
structure Collected (P : Type) where
  entriesBefore : ℕ
  allEntries : List (BusEvent P)

def Collected.sorted (c : Collected P) : List (BusEvent P) :=
  c.allEntries.insertionSort fun a b => a.version ≤ b.version

/-- What a compaction waits for: the reader; the next entry; the reader and the writer to be
closed; the removal of the log; the new log; the size of the new log and the write of an entry to
it, with the events that are left; the new log to be closed; the new writer of the bus. It is
aborted before it removes the log, or it fails when it has begun to do so. -/
inductive Compaction (P : Type)
  | idle
  | opening
  | reading (pos count : ℕ) (topByType : OrderedMap String (List (BusEvent P)))
  | closingReader (c : Collected P)
  | closingWriter (c : Collected P) (writer : ℕ)
  | unlinking (c : Collected P)
  | creating (c : Collected P)
  | sizing (c : Collected P) (fresh : WALWriter) (entry : BusEntry P) (left : List (BusEvent P))
  | writing (c : Collected P) (fresh : WALWriter) (entry : BusEntry P) (left : List (BusEvent P))
  | closing (c : Collected P)
  | reopening (c : Collected P) (writer : ℕ)
  | finished (result : EventBusCompactionResult)
  | aborted
  | failed

def Compaction.inFlight : Compaction P → Bool
  | .closingWriter .. | .unlinking _ | .creating _ | .sizing .. | .writing .. | .closing _
  | .reopening .. => true
  | .idle | .opening | .reading .. | .closingReader _ | .finished _ | .aborted | .failed => false

/-- The bus, its writers in the order in which they were made, the log, the compaction and all
publishes that were called, in the order of the calls. -/
structure CompactingBus (P : Type) where
  versionCounter : ℤ
  walWriter : Option ℕ
  writers : List WALWriter
  wal : BusFile P
  compaction : Compaction P
  publishes : List (PublishTask P)

/-- The calls, and the operations of the file system that end. -/
inductive CompactingBusEvent (P : Type)
  | publish (id type : String) (payload : P) (now : ℕ)
  | resumed (k now : ℕ)
  | sized (k : ℕ)
  | written (k : ℕ) (fault : Option String)
  | sync (k : ℕ)
  | synced (k : ℕ) (fault : Option String)
  | sent (k : ℕ) (fault : Option String)
  | compact
  | advance (now : ℕ) (fault : Option String)

namespace CompactingBus

variable (config : EventBusConfig P)

def started (wal : BusFile P) : CompactingBus P where
  versionCounter := restoredVersion config.toWALConfig wal
  walWriter := some 0
  writers := [.initialized wal]
  wal := wal
  compaction := .idle
  publishes := []

variable (s : CompactingBus P) (w n k count : ℕ)

def writer : WALWriter := s.writers.getD w ⟨0, false⟩

def setStage (event : BusEvent P) (stage : PublishStage P) : CompactingBus P :=
  { s with publishes := s.publishes.set k ⟨event, stage⟩ }

/-! ### Publishes -/

def enter (event : BusEvent P) (now : ℕ) : List WALWriter × PublishStage P :=
  match s.walWriter with
  | none => (s.writers, .sending)
  | some w =>
    let (writer, entry) := (s.writer w).createEntry config.toWALConfig (walUpdate event) now
    (s.writers.set w writer,
      if !validateEntry config.toWALConfig entry then .rejected (.wal .invalidChecksum)
      else .sizing w entry)

def firstWait (event : BusEvent P) (now : ℕ) : List WALWriter × PublishStage P :=
  if s.compaction.inFlight then (s.writers, .waiting) else s.enter config event now

def callPublish (id type : String) (payload : P) (now : ℕ) : CompactingBus P :=
  let event : BusEvent P := ⟨id, type, payload, now, config.localNodeId, s.versionCounter + 1⟩
  let (writers, stage) := s.firstWait config event now
  { s with
    versionCounter := s.versionCounter + 1
    writers := writers
    publishes := s.publishes ++ [⟨event, stage⟩] }

def afterSize (entry : BusEntry P) : PublishStage P :=
  let currentSize := s.wal.getSize config.toWALConfig
  if currentSize > config.maxFileSize then
    .rejected (.wal (.sizeLimitExceeded currentSize config.maxFileSize))
  else if !(s.writer w).isOpen then .rejected (.wal .notOpen)
  else .writing w entry

def isWritingOn (task : PublishTask P) : Bool :=
  match task.stage with
  | .writing w' _ => w' = w
  | _ => false

/-! ### The compaction -/

def readEntry (topByType : OrderedMap String (List (BusEvent P))) (entry : BusEntry P) :
    Option (ℕ × OrderedMap String (List (BusEvent P))) :=
  if !validateEntry config.toWALConfig entry then some (count, topByType)
  else if !isBusEntry entry then some (count, topByType)
  else
    match eventOf entry with
    | some event => some (count + 1, collect n topByType event)
    | none => if n = 0 then some (count + 1, topByType) else none

def appendNext (c : Collected P) (fresh : WALWriter) (now : ℕ) : List (BusEvent P) → Compaction P
  | [] => .closing c
  | event :: left =>
    let (fresh, entry) := fresh.createEntry config.toWALConfig (walUpdate event) now
    if !validateEntry config.toWALConfig entry then .failed else .sizing c fresh entry left

def fail : Option (CompactingBus P) :=
  match s.compaction with
  | .opening | .reading .. | .closingReader _ | .closingWriter .. =>
    some { s with compaction := .aborted }
  | .unlinking _ | .creating _ | .sizing .. | .writing .. | .closing _ | .reopening .. =>
    some { s with compaction := .failed }
  | .idle | .finished _ | .aborted | .failed => none

def proceed (s : CompactingBus P) (now : ℕ) : Option (CompactingBus P) :=
  match s.compaction with
  | .opening => some { s with compaction := .reading 0 0 .empty }
  | .reading pos count topByType =>
    match s.wal[pos]? with
    | none => some { s with compaction := .closingReader ⟨count, topByType.values.flatten⟩ }
    | some entry =>
      match readEntry config n count topByType entry with
      | none => some { s with compaction := .aborted }
      | some (count, topByType) => some { s with compaction := .reading (pos + 1) count topByType }
  | .closingReader c =>
    match s.walWriter with
    | none => some { s with compaction := .unlinking c }
    | some w => some { s with compaction := .closingWriter c w }
  | .closingWriter c w =>
    if s.publishes.any (isWritingOn w) then none
    else
      some
        { s with
          compaction := .unlinking c
          walWriter := none
          writers := s.writers.set w (s.writer w).close }
  | .unlinking c => some { s with compaction := .creating c, wal := [] }
  | .creating c =>
    some { s with compaction := appendNext config c (.initialized s.wal) now c.sorted }
  | .sizing c fresh entry left =>
    if s.wal.getSize config.toWALConfig > config.maxFileSize then
      some { s with compaction := .failed }
    else if !fresh.isOpen then some { s with compaction := .failed }
    else some { s with compaction := .writing c fresh entry left }
  | .writing c fresh entry left =>
    some { s with compaction := appendNext config c fresh now left, wal := s.wal ++ [entry] }
  | .closing c =>
    some
      { s with
        compaction := .reopening c s.writers.length
        walWriter := some s.writers.length
        writers := s.writers ++ [⟨0, false⟩] }
  | .reopening c w =>
    some
      { s with
        compaction := .finished (BusHost.compactionResult c.entriesBefore c.allEntries)
        writers := s.writers.set w (.initialized s.wal)
        versionCounter := BusHost.raisedCounter s.versionCounter c.allEntries }
  | .idle | .finished _ | .aborted | .failed => none

/-- One step of a bus on which one compaction is called; `none` if the publish or the compaction
does not wait for this. -/
def step (s : CompactingBus P) : CompactingBusEvent P → Option (CompactingBus P)
  | .publish id type payload now => some (s.callPublish config id type payload now)
  | .resumed k now =>
    match s.publishes[k]? with
    | some ⟨event, .waiting⟩ =>
      if s.compaction.inFlight then none
      else
        let (writers, stage) := s.enter config event now
        some { s.setStage k event stage with writers := writers }
    | _ => none
  | .sized k =>
    match s.publishes[k]? with
    | some ⟨event, .sizing w entry⟩ =>
      some (s.setStage k event (s.afterSize config w entry))
    | _ => none
  | .written k fault =>
    match s.publishes[k]? with
    | some ⟨event, .writing _ entry⟩ =>
      match fault with
      | some reason =>
        some (s.setStage k event (.rejected (.wal (.writeFailed reason))))
      | none => some { s.setStage k event .appended with wal := s.wal ++ [entry] }
    | _ => none
  | .sync k =>
    match s.publishes[k]? with
    | some ⟨event, .appended⟩ =>
      some (s.setStage k event (if s.walWriter = none then .rejected .noWriter else .syncing))
    | _ => none
  | .synced k fault =>
    match s.publishes[k]? with
    | some ⟨event, .syncing⟩ =>
      match fault with
      | some reason =>
        some (s.setStage k event (.rejected (.wal (.writeFailed reason))))
      | none => some (s.setStage k event .sending)
    | _ => none
  | .sent k fault =>
    match s.publishes[k]? with
    | some ⟨event, .sending⟩ =>
      match fault with
      | some reason => some (s.setStage k event (.rejected (.send reason)))
      | none => some (s.setStage k event .resolved)
    | _ => none
  | .compact =>
    match s.compaction with
    | .idle => some { s with compaction := .opening }
    | _ => none
  | .advance now fault =>
    match fault with
    | some _ => s.fail
    | none => s.proceed config n now

end CompactingBus

/-! ### What is at stake -/

namespace PublishStage

def entry : PublishStage P → Option (BusEntry P)
  | .sizing _ entry | .writing _ entry => some entry
  | .waiting | .appended | .syncing | .sending | .resolved | .rejected _ => none

def isEnded : PublishStage P → Bool
  | .resolved | .rejected _ => true
  | .waiting | .sizing .. | .writing .. | .appended | .syncing | .sending => false

def isUndelivered : PublishStage P → Bool
  | .appended | .syncing => true
  | .waiting | .sizing .. | .writing .. | .sending | .resolved | .rejected _ => false

def isLogged : PublishStage P → Bool
  | .appended | .syncing | .sending | .resolved => true
  | .waiting | .sizing .. | .writing .. | .rejected _ => false

end PublishStage

namespace Compaction

def isPastEnd : Compaction P → Bool
  | .closingReader _ | .closingWriter .. | .unlinking _ => true
  | .idle | .opening | .reading .. | .creating _ | .sizing .. | .writing .. | .closing _
  | .reopening .. | .finished _ | .aborted | .failed => false

def isRewriting : Compaction P → Bool
  | .unlinking _ | .creating _ | .sizing .. | .writing .. | .closing _ | .reopening .. => true
  | .idle | .opening | .reading .. | .closingReader _ | .closingWriter .. | .finished _ | .aborted
  | .failed => false

def isSizing : Compaction P → Bool
  | .sizing .. => true
  | _ => false

def isEnded : Compaction P → Bool
  | .idle | .finished _ | .aborted | .failed => true
  | _ => false

end Compaction

namespace CompactingBus

/-- Neither the compaction nor a publication is under way. -/
def AllFinished (s : CompactingBus P) : Prop :=
  s.compaction.isEnded = true ∧ ∀ task ∈ s.publishes, task.stage.isEnded = true

instance (s : CompactingBus P) : Decidable s.AllFinished :=
  inferInstanceAs (Decidable (_ = true ∧ ∀ task ∈ _, _ = true))

/-- An event is written to the log not between the end of the reading and the removal of the log,
and the rewriting of the log is not refused. -/
def Sheltered (config : EventBusConfig P) (s : CompactingBus P) : CompactingBusEvent P → Prop
  | .written _ none => s.compaction.isPastEnd = false
  | .advance _ fault => s.compaction.isRewriting = true → fault = none ∧
        (s.compaction.isSizing = true → s.wal.getSize config.toWALConfig ≤ config.maxFileSize)
  | _ => True

instance (config : EventBusConfig P) (s : CompactingBus P) (ev : CompactingBusEvent P) :
    Decidable (s.Sheltered config ev) := by
  unfold Sheltered
  split <;> infer_instance

/-- Events are published without being logged. -/
def IsUnlogged (s : CompactingBus P) : Prop := s.compaction.inFlight = false ∧ s.walWriter = none

/-- The stage of a publish of an event may be followed by another one without a write: the publish
has not ended, it is not logged unless it was before, and its entry, if any, is one for its
event. -/
structure Follows (config : EventBusConfig P) (s : CompactingBus P) (event : BusEvent P)
    (old new : PublishStage P) : Prop where
  active : old.isEnded = false
  forward : new.isLogged = false → new.isEnded = false → old.isLogged = false
  logged : new.isLogged = true → old.isLogged = true ∨ s.IsUnlogged
  entry : ∀ entry, new.entry = some entry → old.entry = some entry ∨
    validateEntry config.toWALConfig entry = true ∧ entry.data = walUpdate event

/-- The cases of a step of a publication. -/
inductive PublishStep (config : EventBusConfig P) (s : CompactingBus P) :
    CompactingBusEvent P → CompactingBus P → Prop
  | called (id type : String) (payload : P) (now : ℕ) (event : BusEvent P)
      (writers : List WALWriter) (stage : PublishStage P)
      (version : event.version = s.versionCounter + 1)
      (follows : s.Follows config event .waiting stage) (eventType : event.type = type) :
      PublishStep config s (.publish id type payload now)
        { s with
          versionCounter := s.versionCounter + 1
          writers := writers
          publishes := s.publishes ++ [⟨event, stage⟩] }
  | moved (ev : CompactingBusEvent P) (k : ℕ) (event : BusEvent P) (old new : PublishStage P)
      (writers : List WALWriter) (task : s.publishes[k]? = some ⟨event, old⟩)
      (follows : s.Follows config event old new) (sent : old.isUndelivered = false) :
      PublishStep config s ev { s.setStage k event new with writers := writers }
  | written (k : ℕ) (event : BusEvent P) (w : ℕ) (entry : BusEntry P)
      (task : s.publishes[k]? = some ⟨event, .writing w entry⟩) :
      PublishStep config s (.written k none)
        { s.setStage k event .appended with wal := s.wal ++ [entry] }
  | sync (k : ℕ) (event : BusEvent P) (task : s.publishes[k]? = some ⟨event, .appended⟩) :
      PublishStep config s (.sync k)
        (s.setStage k event (if s.walWriter = none then .rejected .noWriter else .syncing))
  | unsynced (k : ℕ) (event : BusEvent P) (reason : String)
      (task : s.publishes[k]? = some ⟨event, .syncing⟩) :
      PublishStep config s (.synced k (some reason))
        (s.setStage k event (.rejected (.wal (.writeFailed reason))))
  | synced (k : ℕ) (event : BusEvent P) (task : s.publishes[k]? = some ⟨event, .syncing⟩) :
      PublishStep config s (.synced k none) (s.setStage k event .sending)

inductive Step (config : EventBusConfig P) (n : ℕ) (s : CompactingBus P) :
    CompactingBusEvent P → CompactingBus P → Prop
  | publish (ev : CompactingBusEvent P) {s' : CompactingBus P} (step : s.PublishStep config ev s') :
      Step config n s ev s'
  | compact (idle : s.compaction = .idle) :
      Step config n s .compact { s with compaction := .opening }
  | failed (now : ℕ) (reason : String) {s' : CompactingBus P} (fail : s.fail = some s') :
      Step config n s (.advance now (some reason)) s'
  | proceeded (now : ℕ) {s' : CompactingBus P} (proceed : s.proceed config n now = some s') :
      Step config n s (.advance now none) s'

variable {config : EventBusConfig P} {n : ℕ} {s s' : CompactingBus P} {event : BusEvent P}

theorem follows_rejected {old : PublishStage P} (hactive : old.isEnded = false)
    (err : BusError) : s.Follows config event old (.rejected err) :=
  ⟨hactive, fun _ h => (nomatch h), fun h => (nomatch h), fun _ h => (nomatch h)⟩

theorem follows_enter (event : BusEvent P) (now : ℕ) (hgate : s.compaction.inFlight = false) :
    s.Follows config event .waiting (s.enter config event now).2 := by
  rw [enter]
  split
  · next hnone => exact ⟨rfl, fun _ _ => rfl, fun _ => .inr ⟨hgate, hnone⟩, fun _ h => (nomatch h)⟩
  · next w hw =>
    have hvalid := validateEntry_createEntry config.toWALConfig (s.writer w) (walUpdate event) now
    dsimp only
    rw [if_neg (by rw [hvalid]; decide)]
    refine ⟨rfl, fun _ _ => rfl, fun h => (nomatch h), fun entry hentry => .inr ?_⟩
    cases hentry
    exact ⟨hvalid, rfl⟩

theorem follows_firstWait (event : BusEvent P) (now : ℕ) :
    s.Follows config event .waiting (s.firstWait config event now).2 := by
  rw [firstWait]
  split_ifs with hgate
  · exact ⟨rfl, fun _ _ => rfl, fun h => (nomatch h), fun _ h => (nomatch h)⟩
  · exact follows_enter event now (Bool.eq_false_of_not_eq_true hgate)

theorem follows_afterSize (event : BusEvent P) (w : ℕ) (entry : BusEntry P) :
    s.Follows config event (.sizing w entry) (s.afterSize config w entry) := by
  rw [afterSize]
  split_ifs
  · exact follows_rejected rfl _
  · exact follows_rejected rfl _
  · exact ⟨rfl, fun _ _ => rfl, fun h => (nomatch h), fun _ h => .inl h⟩

theorem follows_logged {old new : PublishStage P} (hactive : old.isEnded = false)
    (hold : old.isLogged = true) (hnew : new.isLogged = true) (hentry : new.entry = none) :
    s.Follows config event old new :=
  ⟨hactive, fun h => absurd (hnew.symm.trans h) (by decide), fun _ => .inl hold,
    fun entry h => absurd (hentry.symm.trans h) (Option.some_ne_none entry).symm⟩

/-- **What a step can do.** -/
theorem step_cases {ev : CompactingBusEvent P} (h : s.step config n ev = some s') :
    s.Step config n ev s' := by
  cases ev with
  | publish id type payload now =>
    cases h
    exact .publish _ (.called id type payload now _ _ _ rfl (follows_firstWait _ now) rfl)
  | resumed k now =>
    rw [step] at h
    split at h
    · next event htask =>
      split_ifs at h with hgate
      cases h
      have hopen := Bool.eq_false_of_not_eq_true hgate
      exact .publish _ (.moved _ k event _ _ _ htask (follows_enter event now hopen) rfl)
    · cases h
  | sized k =>
    rw [step] at h
    split at h
    · next event w entry htask =>
      cases h
      exact .publish _ (.moved _ k event _ _ s.writers htask (follows_afterSize event w entry) rfl)
    · cases h
  | written k fault =>
    rw [step] at h
    split at h
    · next event w entry htask =>
      cases fault with
      | some =>
        cases h
        exact .publish _ (.moved _ k event _ _ s.writers htask (follows_rejected rfl _) rfl)
      | none =>
        cases h
        exact .publish _ (.written k event w entry htask)
    · cases h
  | sync k =>
    rw [step] at h
    split at h
    · next event htask =>
      cases h
      exact .publish _ (.sync k event htask)
    · cases h
  | synced k fault =>
    rw [step] at h
    split at h
    · next event htask =>
      cases fault with
      | some reason =>
        cases h
        exact .publish _ (.unsynced k event reason htask)
      | none =>
        cases h
        exact .publish _ (.synced k event htask)
    · cases h
  | sent k fault =>
    rw [step] at h
    split at h
    · next event htask =>
      cases fault with
      | some =>
        cases h
        exact .publish _ (.moved _ k event _ _ s.writers htask (follows_rejected rfl _) rfl)
      | none =>
        cases h
        exact .publish _ (.moved _ k event _ _ s.writers htask (follows_logged rfl rfl rfl rfl) rfl)
    · cases h
  | compact =>
    rw [step] at h
    split at h
    · next hidle =>
      cases h
      exact .compact hidle
    · cases h
  | advance now fault =>
    cases fault with
    | some reason => exact .failed now reason h
    | none => exact .proceeded now h

end CompactingBus

end DistributedCore.Messaging
