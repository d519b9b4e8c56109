import DistributedCore.Locks.LockSystem

/-!
# Leader elections

A `LeaderElection` of a group competes for the lock `election:<groupId>` of its `DistributedLock`.
`start` runs a first cycle and then installs an interval timer that runs further ones. A cycle of
an election that has a handle extends the lock; a cycle of one that has none tries to acquire it.
`stop` clears the timer, gives up the handle and releases the lock. A `ClusterLeaderElection` wraps
an election: it claims and releases the resource `election:<groupId>` of its router when the
election reports that it was elected or deposed.

Source: `src/cluster/locks/LeaderElection.ts`, `src/cluster/locks/ClusterLeaderElection.ts`,
`src/routing/ResourceRouter.ts`.
-/

namespace DistributedCore.Locks

open Entity Option

/-- The election of one group at one node. -/
structure LeaderElection (N : Type) where
  groupId : String
  nodeId : N
  leaseDurationMs : ℕ
  currentHandle : Option (LockHandle N)
  renewTimer : Option ℕ
  isRunning : Bool

/-- A cycle of an election that is under way. -/
inductive ElectionCycle
  /-- It waits for the call `task` of `tryAcquire`. -/
  | acquiring (task : ℕ) (starts : Bool)
  /-- It waits for the call `task` of `extend`, or for the report that `extend` has thrown. -/
  | renewing (task : Option ℕ) (starts : Bool)
  /-- The cycle has ended, and `start` is going to install the timer. -/
  | installing
  deriving DecidableEq

structure ElectionProcess (N : Type) extends LeaderElection N where
  /-- The node id of the router of a `ClusterLeaderElection`, if the router uses the registry of
  the locks. -/
  router : Option N
  /-- The interval timers that are running. -/
  timers : List ℕ
  /-- The number of interval timers that were created. -/
  created : ℕ
  cycles : List ElectionCycle
  /-- The calls of `stop` that wait for the call `task` of the registry, or for nothing. -/
  stops : List (Option ℕ)

/-- The locks, with the elections that use them. -/
structure ElectionSystem (I N S G : Type) where
  locks : LockSystem I N S G
  process : I → ElectionProcess N

/-- The events of the elections, besides those of the locks. -/
inductive ElectionEvent (I N : Type)
  | start (i : I) (now : ℕ)
  | stop (i : I) (now : ℕ)
  /-- An interval timer fires. -/
  | tick (i : I) (timer now : ℕ)
  /-- The `k`-th cycle goes on. -/
  | cycle (i : I) (k now : ℕ)
  /-- The `k`-th call of `stop` goes on. -/
  | stopped (i : I) (k now : ℕ)
  | lock (ev : LockEvent I N)

variable {I N S G : Type}

def ElectionEvent.actor : ElectionEvent I N → Option I
  | .start i _ => some i
  | .stop i _ => some i
  | .tick i .. => some i
  | .cycle i .. => some i
  | .stopped i .. => some i
  | .lock _ => none

namespace LeaderElection

def create (groupId : String) (nodeId : N) (leaseDurationMs : ℕ) : LeaderElection N where
  groupId := groupId
  nodeId := nodeId
  leaseDurationMs := leaseDurationMs
  currentHandle := none
  renewTimer := none
  isRunning := false

variable (election : LeaderElection N)

def lockId : LockId := "election:" ++ election.groupId

def isLeader : Bool := election.currentHandle.isSome

def currentEpoch : Option ℕ := election.currentHandle.map LockHandle.fencingToken

end LeaderElection

def ElectionProcess.create (election : LeaderElection N) (router : Option N) :
    ElectionProcess N where
  toLeaderElection := election
  router := router
  timers := []
  created := 0
  cycles := []
  stops := []

namespace LockSystem

def startLock [DecidableEq I] (s : LockSystem I N S G) (i : I)
    (piece : LockPiece N S (LockCall N G)) : LockSystem I N S G :=
  (s.applyPiece i piece).addTasks [.lock i piece.result]

def startCall (A : LockRegistry N S G) (s : LockSystem I N S G) (op : LocalOp N (LockValue N))
    (now : ℕ) : LockSystem I N S G :=
  let piece := A.call s.registry op now
  (s.applyCall piece).addTasks [.user op piece.call]

end LockSystem

namespace ElectionSystem

def initial (locks : LockSystem I N S G) (election : I → LeaderElection N) (router : I → Option N) :
    ElectionSystem I N S G where
  locks := locks
  process i := .create (election i) (router i)

variable [DecidableEq I] [DecidableEq N] (A : LockRegistry N S G) (s : ElectionSystem I N S G)
  (i : I) (now : ℕ)

omit [DecidableEq N] in
def setProcess (process : ElectionProcess N) : ElectionSystem I N S G :=
  { s with process := Function.update s.process i process }

omit [DecidableEq I] [DecidableEq N] in
def elected : ElectionSystem I N S G :=
  let p := s.process i
  match p.router with
  | none => s
  | some _ =>
    let metadata := OrderedMap.empty.set "nodeId" (.nodeId p.nodeId)
    { s with locks := s.locks.startCall A (.proposeEntity p.lockId (some metadata)) now }

omit [DecidableEq I] in
def deposed : ElectionSystem I N S G :=
  let p := s.process i
  match p.router with
  | none => s
  | some x =>
    if (A.getEntity s.locks.registry p.lockId).any fun entity => entity.ownerNodeId = some x then
      { s with locks := s.locks.startCall A (.releaseEntity p.lockId) now }
    else s

omit [DecidableEq N] in
def beginCycle (starts : Bool) : ElectionSystem I N S G :=
  let p := s.process i
  let lock := s.locks.lock i
  let task := s.locks.tasks.length
  match p.currentHandle with
  | some handle =>
    match lock.extend A s.locks.registry handle (some p.leaseDurationMs) now with
    | some piece =>
      { s.setProcess i { p with cycles := p.cycles ++ [.renewing (some task) starts] } with
        locks := s.locks.startLock i piece }
    | none => s.setProcess i { p with cycles := p.cycles ++ [.renewing none starts] }
  | none =>
    let piece := lock.tryAcquire A s.locks.registry p.lockId (some p.leaseDurationMs) now
    { s.setProcess i { p with cycles := p.cycles ++ [.acquiring task starts] } with
      locks := s.locks.startLock i piece }

omit [DecidableEq N] in
def endCycle (k : ℕ) (starts : Bool) (handle : Option (LockHandle N)) : ElectionSystem I N S G :=
  let p := s.process i
  s.setProcess i
    { p with
      currentHandle := handle
      cycles := if starts then p.cycles.set k .installing else p.cycles.eraseIdx k }

def resumeCycle (k : ℕ) : Option (ElectionSystem I N S G) :=
  let p := s.process i
  match p.cycles[k]? with
  | some (.acquiring task starts) =>
    match s.locks.tasks[task]? with
    | some (.lock _ (.acquired handle)) =>
      -- `isRunning` is not looked at again
      some ((s.endCycle i k starts (some handle)).elected A i now)
    | some (.lock _ .refused) => some (s.endCycle i k starts p.currentHandle)
    | _ => none
  | some (.renewing (some task) starts) =>
    match s.locks.tasks[task]? with
    | some (.lock _ (.extended handle)) => some (s.endCycle i k starts (some handle))
    | some (.lock _ .refused) => some ((s.endCycle i k starts none).deposed A i now)
    | _ => none
  | some (.renewing none starts) => some ((s.endCycle i k starts none).deposed A i now)
  | some .installing =>
    some (s.setProcess i
      { p with
        renewTimer := some p.created
        timers := p.timers ++ [p.created]
        created := p.created + 1
        cycles := p.cycles.eraseIdx k })
  | none => none

omit [DecidableEq N] in
def stop : ElectionSystem I N S G :=
  let p := s.process i
  if !p.isRunning then s
  else
    let halted : ElectionProcess N :=
      { p with
        isRunning := false
        renewTimer := none
        timers := p.renewTimer.elim p.timers p.timers.erase
        currentHandle := none }
    match p.currentHandle with
    | none => s.setProcess i halted
    | some handle =>
      match (s.locks.lock i).release A s.locks.registry handle now with
      | some piece =>
        { s.setProcess i { halted with stops := p.stops ++ [some s.locks.tasks.length] } with
          locks := (s.locks.applyPiece i piece).addTasks [.cleanup piece.result] }
      | none => s.setProcess i { halted with stops := p.stops ++ [none] }

def resumeStop (k : ℕ) : Option (ElectionSystem I N S G) :=
  let p := s.process i
  let ended := s.setProcess i { p with stops := p.stops.eraseIdx k }
  match p.stops[k]? with
  | some none => some (ended.deposed A i now)
  | some (some task) =>
    match s.locks.tasks[task]? with
    | some (.cleanup promise) =>
      match A.settled promise with
      | some (.resolved _) => some (ended.deposed A i now)
      | some .rejected => some ended
      | none => none
    | _ => none
  | none => none

def step (s : ElectionSystem I N S G) : ElectionEvent I N → Option (ElectionSystem I N S G)
  | .start i now =>
    let p := s.process i
    if p.isRunning then some s
    else some ((s.setProcess i { p with isRunning := true }).beginCycle A i now true)
  | .stop i now => some (s.stop A i now)
  | .tick i timer now =>
    let p := s.process i
    if timer ∈ p.timers then
      some (if p.isRunning then s.beginCycle A i now false else s)
    else none
  | .cycle i k now => s.resumeCycle A i now k
  | .stopped i k now => s.resumeStop A i now k
  | .lock ev => (s.locks.step A ev).map fun locks => { s with locks := locks }

end ElectionSystem

/-! ### What an election does to the locks -/

/-- The event is not made by the instance. -/
def LockEvent.Foreign (i : I) : LockEvent I N → Prop
  | .tryAcquire j .. => j ≠ i
  | .extend j .. => j ≠ i
  | .release j .. => j ≠ i
  | .call .. => True
  | _ => False

variable [DecidableEq I] [DecidableEq N] {A : LockRegistry N S G}

/-- The run is made by others than the instance. -/
def ForeignRun (A : LockRegistry N S G) (i : I) (locks locks' : LockSystem I N S G) : Prop :=
  ∃ evs : List (LockEvent I N),
    (∀ ev ∈ evs, ev.Foreign i) ∧ exec (LockSystem.step A) locks evs = some locks'

namespace ForeignRun

variable {i : I} {locks locks' : LockSystem I N S G}

theorem refl (A : LockRegistry N S G) (i : I) (locks : LockSystem I N S G) :
    ForeignRun A i locks locks :=
  ⟨[], fun _ h => absurd h List.not_mem_nil, rfl⟩

theorem single (ev : LockEvent I N) (hev : ev.Foreign i) (h : locks.step A ev = some locks') :
    ForeignRun A i locks locks' :=
  ⟨[ev], by simpa using hev, (exec_singleton locks ev).trans h⟩

end ForeignRun

namespace ElectionSystem

variable {s s' : ElectionSystem I N S G} {i j : I} {now k : ℕ}

omit [DecidableEq N] in
@[simp] theorem setProcess_self (s : ElectionSystem I N S G) (i : I) (p : ElectionProcess N) :
    (s.setProcess i p).process i = p :=
  Function.update_self ..

omit [DecidableEq N] in
theorem setProcess_of_ne (s : ElectionSystem I N S G) (p : ElectionProcess N) (h : i ≠ j) :
    (s.setProcess j p).process i = s.process i :=
  Function.update_of_ne h ..

theorem foreign_elected (s : ElectionSystem I N S G) (i j : I) (now : ℕ) :
    ForeignRun A i s.locks (s.elected A j now).locks ∧ (s.elected A j now).process = s.process := by
  simp only [elected]
  split
  · exact ⟨.refl A i _, rfl⟩
  · exact ⟨.single (.call _ now) trivial rfl, rfl⟩

theorem foreign_deposed (s : ElectionSystem I N S G) (i j : I) (now : ℕ) :
    ForeignRun A i s.locks (s.deposed A j now).locks ∧ (s.deposed A j now).process = s.process := by
  simp only [deposed]
  split
  · exact ⟨.refl A i _, rfl⟩
  · split_ifs
    · exact ⟨.single (.call _ now) trivial rfl, rfl⟩
    · exact ⟨.refl A i _, rfl⟩

theorem resumeStop_spec (h : s.resumeStop A i now k = some s') : ForeignRun A i s.locks s'.locks ∧
      s'.process i = { s.process i with stops := (s.process i).stops.eraseIdx k } := by
  have hdeposed := foreign_deposed (A := A) (s.setProcess i
    { s.process i with stops := (s.process i).stops.eraseIdx k }) i i now
  rw [funext_iff] at hdeposed
  have hended := (hdeposed.2 i).trans (s.setProcess_self i _)
  simp only [resumeStop] at h
  split at h
  · cases h
    exact ⟨hdeposed.1, hended⟩
  · split at h
    · split at h <;> cases h
      · exact ⟨hdeposed.1, hended⟩
      · exact ⟨.refl A i _, s.setProcess_self i _⟩
    · cases h
  · cases h

/-- An election has run a piece: it has changed itself, and the locks in a way that is foreign to
the instance `i`. -/
def ForeignTo (A : LockRegistry N S G) (i : I) (s s' : ElectionSystem I N S G) : Prop :=
  ForeignRun A i s.locks s'.locks ∧ s'.process i = s.process i

variable (hij : i ≠ j)
include hij

variable {p : ElectionProcess N}

theorem ForeignTo.elected : ForeignTo A i s ((s.setProcess j p).elected A j now) := by
  obtain ⟨hrun, hprocess⟩ := foreign_elected (s.setProcess j p) i j now
  exact ⟨hrun, (congrFun hprocess i).trans (s.setProcess_of_ne p hij)⟩

theorem ForeignTo.deposed : ForeignTo A i s ((s.setProcess j p).deposed A j now) := by
  obtain ⟨hrun, hprocess⟩ := foreign_deposed (s.setProcess j p) i j now
  exact ⟨hrun, (congrFun hprocess i).trans (s.setProcess_of_ne p hij)⟩

theorem ForeignTo.setProcess : ForeignTo A i s (s.setProcess j p) :=
  ⟨.refl A i _, s.setProcess_of_ne p hij⟩

theorem foreign_beginCycle (s : ElectionSystem I N S G) (now : ℕ) (starts : Bool) :
    ForeignTo A i s (s.beginCycle A j now starts) := by
  simp only [beginCycle]
  split
  · rename_i handle _
    split
    · rename_i piece hpiece
      refine ⟨.single (.extend j handle (some (s.process j).leaseDurationMs) now) hij.symm ?_,
        s.setProcess_of_ne _ hij⟩
      simp only [LockSystem.step, hpiece]
      rfl
    · exact .setProcess hij
  · exact ⟨.single (.tryAcquire j _ _ now) hij.symm rfl, s.setProcess_of_ne _ hij⟩

theorem foreign_resumeCycle (h : s.resumeCycle A j now k = some s') : ForeignTo A i s s' := by
  simp only [resumeCycle] at h
  split at h
  · split at h <;> cases h
    · exact .elected hij
    · exact .setProcess hij
  · split at h <;> cases h
    · exact .setProcess hij
    · exact .deposed hij
  · cases h
    exact .deposed hij
  · cases h
    exact .setProcess hij
  · cases h

theorem foreign_stop (s : ElectionSystem I N S G) (now : ℕ) : ForeignTo A i s (s.stop A j now) := by
  simp only [stop]
  split_ifs
  · exact ⟨.refl A i _, rfl⟩
  · split
    · exact .setProcess hij
    · rename_i handle _
      split
      · rename_i piece hpiece
        refine ⟨.single (.release j handle now) hij.symm ?_, s.setProcess_of_ne _ hij⟩
        simp [LockSystem.step, hpiece]
      · exact .setProcess hij

theorem foreign_resumeStop (h : s.resumeStop A j now k = some s') : ForeignTo A i s s' := by
  simp only [resumeStop] at h
  split at h
  · cases h
    exact .deposed hij
  · split at h
    · split at h <;> cases h
      · exact .deposed hij
      · exact .setProcess hij
    · cases h
  · cases h

/-- **Elections and the locks of others.** A piece of the election `j` is foreign to the instance
`i`. -/
theorem foreign_step {ev : ElectionEvent I N} (hev : ev.actor = some j)
    (h : s.step A ev = some s') : ForeignTo A i s s' := by
  cases ev with
  | start j' now =>
    obtain rfl : j' = j := some.inj hev
    simp only [step] at h
    split_ifs at h <;> cases h
    · exact ⟨.refl A i _, rfl⟩
    · obtain ⟨hrun, hprocess⟩ := foreign_beginCycle hij
        (s.setProcess j' { s.process j' with isRunning := true }) now true
      exact ⟨hrun, hprocess.trans (s.setProcess_of_ne _ hij)⟩
  | stop j' now =>
    cases hev
    cases h
    exact foreign_stop hij s now
  | tick j' _ now =>
    cases hev
    simp only [step] at h
    split_ifs at h <;> cases h
    · exact foreign_beginCycle hij s now false
    · exact ⟨.refl A i _, rfl⟩
  | cycle j' =>
    cases hev
    exact foreign_resumeCycle hij h
  | stopped j' =>
    cases hev
    exact foreign_resumeStop hij h
  | lock => cases hev

end ElectionSystem

end DistributedCore.Locks
