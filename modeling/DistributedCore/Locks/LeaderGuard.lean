import DistributedCore.Locks.ElectionStop

/-!
# Guarded work of a leader

`guard(fn)` of a `ClusterLeaderElection` runs `fn` with the epoch of the leader, the fencing token
of its handle, and rejects with a `StaleLeaderError` if the token has changed when `fn` has
resolved. It is meant to detect that the lease was lost. But every renewal takes a new token: the
sidecar counts it when the renewal begins, and the election has the new handle when it ends. So
`guard` also rejects a leader that has held its lease all the time, as soon as one renewal begins
before `fn` resolves.

Source: `src/cluster/locks/ClusterLeaderElection.ts`, `src/common/errors.ts`.
-/

namespace DistributedCore.Locks

open Entity LockSystem DistributedLock OrderedMap

variable {I N S G B : Type}

/-! ### The code -/

/-- The error of a guard whose epoch is over. -/
structure StaleLeaderError where
  groupId : String
  heldEpoch : ℕ
  observedEpoch : Option ℕ
  deriving DecidableEq

inductive GuardError
  /-- `currentEpoch` throws because the node is not leader of the group. -/
  | notLeader (groupId : String)
  | stale (error : StaleLeaderError)
  deriving DecidableEq

def guardResult (A : LockRegistry N S G) (r : S) (election : LeaderElection N) (heldEpoch : ℕ)
    (result : B) : Except GuardError B :=
  match election.currentHandle with
  | none => .error (.stale ⟨election.groupId, heldEpoch, none⟩)
  | some stillHeld =>
    if stillHeld.fencingToken ≠ heldEpoch then
      .error (.stale ⟨election.groupId, heldEpoch, some stillHeld.fencingToken⟩)
    else
      let registryToken := getCurrentFencingToken A r election.lockId
      if heldEpoch < registryToken then
        .error (.stale ⟨election.groupId, heldEpoch, some registryToken⟩)
      else .ok result

variable [DecidableEq I] [DecidableEq N]

/-- `guard` of the election `i`, called in the state `s`, if the events `es` happen before `fn`
resolves with `result`; `none` if they cannot happen. -/
def guard (A : LockRegistry N S G) (s : ElectionSystem I N S G) (i : I)
    (es : List (ElectionEvent I N)) (result : B) : Option (Except GuardError B) :=
  match (s.process i).currentEpoch with
  | none => some (.error (.notLeader (s.process i).groupId))
  | some heldEpoch =>
    (exec (ElectionSystem.step A) s es).map fun t =>
      guardResult A t.locks.registry (t.process i).toLeaderElection heldEpoch result

/-! ### Holding the lease -/

section Lease

omit [DecidableEq I] [DecidableEq N]

/-- The running election `i` has the handle, its lock is held and known to the registry, and no
token after that of the handle is known. -/
structure HoldsLease (A : LockRegistry N S G) (s : ElectionSystem I N S G) (i : I)
    (handle : LockHandle N) : Prop where
  running : (s.process i).isRunning = true
  current : (s.process i).currentHandle = some handle
  lockId : handle.lockId = (s.process i).lockId
  held : (s.locks.lock i).isHeldLocally (s.process i).lockId = true
  known : (A.getEntityHost s.locks.registry (s.process i).lockId).isSome
  latest : getCurrentFencingToken A s.locks.registry (s.process i).lockId ≤ handle.fencingToken

/-- What the instance `i` and the registry know about the lock `l`: the handle that is held, the
entity and the sidecar. -/
def lockView (A : LockRegistry N S G) (locks : LockSystem I N S G) (i : I) (l : LockId) :
    Option (LockHandle N) × Option (Option N) × Option (EntityRecord N (LockValue N)) :=
  ((locks.lock i).heldLocks.get l, A.getEntityHost locks.registry l,
    A.getEntity locks.registry (fenceEntityId l))

/-- The event belongs to the renewals of the instance. -/
def ElectionEvent.Renews (s : ElectionSystem I N S G) (i : I) : ElectionEvent I N → Prop
  | .tick j .. => j = i
  | .cycle j .. => j = i
  | .lock (.resume k _ _) => ∃ cycle ∈ (s.process i).cycles, cycle.task = some k
  | _ => False

def ElectionEvent.Ticks (i : I) : ElectionEvent I N → Prop
  | .tick j .. => j = i
  | _ => False

end Lease

/-- The event renews the lease, or it leaves the lock as it is. -/
def ElectionEvent.Undisturbed (A : LockRegistry N S G) (i : I) (s : ElectionSystem I N S G)
    (ev : ElectionEvent I N) : Prop :=
  ev.Renews s i ∨ ∀ s' ∈ s.step A ev,
    lockView A s'.locks i (s.process i).lockId = lockView A s.locks i (s.process i).lockId

omit [DecidableEq N] in
instance (s : ElectionSystem I N S G) (i : I) : (ev : ElectionEvent I N) → Decidable (ev.Renews s i)
  | .tick j .. | .cycle j .. => inferInstanceAs (Decidable (j = i))
  | .lock (.resume k _ _) =>
    inferInstanceAs (Decidable (∃ cycle ∈ (s.process i).cycles, cycle.task = some k))
  | .lock (.tryAcquire ..) | .lock (.extend ..) | .lock (.release ..) | .lock (.expire ..)
  | .lock (.handleRemoteNodeFailure ..) | .lock (.call ..) | .lock (.update ..)
  | .start .. | .stop .. | .stopped .. => .isFalse id

omit [DecidableEq N] in
instance (i : I) : (ev : ElectionEvent I N) → Decidable (ev.Ticks i)
  | .tick j .. => inferInstanceAs (Decidable (j = i))
  | .start .. | .stop .. | .cycle .. | .stopped .. | .lock _ => .isFalse id

instance (A : LockRegistry N S G) (i : I) (s : ElectionSystem I N S G) (ev : ElectionEvent I N) :
    Decidable (ev.Undisturbed A i s) :=
  inferInstanceAs (Decidable (_ ∨ ∀ s' ∈ s.step A ev, _))

variable {A : LockRegistry N S G} {s s' : ElectionSystem I N S G} {i : I} {handle : LockHandle N}
  {ev : ElectionEvent I N}

theorem ForeignRun.getElem?_tasks {locks locks' : LockSystem I N S G} {k : ℕ}
    {task : LockTask I N G} (h : ForeignRun A i locks locks')
    (htask : locks.tasks[k]? = some task) : locks'.tasks[k]? = some task := by
  obtain ⟨evs, hevs, hexec⟩ := h
  refine exec_invariant (P := fun locks : LockSystem I N S G => locks.tasks[k]? = some task)
    (fun locks ev locks' htask hev hstep => ?_) htask ((allSteps_true _ locks evs).and_forall hevs)
    hexec
  refine getElem?_tasks_step hstep ?_ htask
  rintro now fault rfl
  exact hev.2

/-- **Other events leave a leader as it is.** An event that is not a piece of a cycle of the
election and does not touch its lock leaves the election and the calls of its cycles as they are.
In particular the election is not stopped. -/
theorem undisturbed_step (hrunning : (s.process i).isRunning = true)
    (hcurrent : (s.process i).currentHandle = some handle)
    (hl : handle.lockId = (s.process i).lockId)
    (hheld : (s.locks.lock i).isHeldLocally (s.process i).lockId = true)
    (hev : ¬ev.Renews s i)
    (hview : lockView A s'.locks i (s.process i).lockId = lockView A s.locks i (s.process i).lockId)
    (hstep : s.step A ev = some s') :
    (∃ stops, s'.process i = { s.process i with stops := stops }) ∧
      ∀ cycle ∈ (s.process i).cycles, ∀ k ∈ cycle.task, ∀ task,
        s.locks.tasks[k]? = some task → s'.locks.tasks[k]? = some task := by
  by_cases hactor : ∃ j, ev.actor = some j ∧ i ≠ j
  · obtain ⟨j, hj, hij⟩ := hactor
    obtain ⟨hrun, hprocess⟩ := ElectionSystem.foreign_step hij hj hstep
    exact ⟨⟨_, hprocess⟩, fun _ _ _ _ _ htask => hrun.getElem?_tasks htask⟩
  · have hown : ∀ j, ev.actor = some j → j = i := fun j hj =>
      (not_not.mp fun hij => hactor ⟨j, hj, hij⟩).symm
    cases ev with
    | start j =>
      obtain rfl := hown j rfl
      simp only [ElectionSystem.step, hrunning, if_true] at hstep
      cases hstep
      exact ⟨⟨_, rfl⟩, fun _ _ _ _ _ htask => htask⟩
    | stop j =>
      -- the lock would be released
      obtain rfl := hown j rfl
      have hhas : (s.locks.lock j).heldLocks.has handle.lockId = true := hl ▸ hheld
      simp only [ElectionSystem.step, ElectionSystem.stop, hrunning, hcurrent,
        release, hhas, Bool.not_true, Bool.false_eq_true, if_false] at hstep
      cases hstep
      have hget := congrArg Prod.fst hview
      simp only [lockView, addTasks, applyPiece, Function.update_self,
        forget, ← hl, get_delete_self] at hget
      rw [has, ← hget] at hhas
      cases hhas
    | tick j => exact absurd (hown j rfl) hev
    | cycle j => exact absurd (hown j rfl) hev
    | stopped j =>
      obtain rfl := hown j rfl
      obtain ⟨hrun, hprocess⟩ := ElectionSystem.resumeStop_spec hstep
      exact ⟨⟨_, hprocess⟩, fun _ _ _ _ _ htask => hrun.getElem?_tasks htask⟩
    | lock =>
      obtain ⟨locks, hlocks, rfl⟩ := Option.map_eq_some_iff.mp hstep
      refine ⟨⟨_, rfl⟩, fun cycle hcycle k hk task htask => getElem?_tasks_step hlocks ?_ htask⟩
      rintro now fault rfl
      exact hev ⟨cycle, hcycle, hk⟩

/-! ### No renewal -/

section

variable (h : HoldsLease A s i handle)

include h

omit [DecidableEq I] [DecidableEq N] in
theorem HoldsLease.of_view {stops : List (Option ℕ)}
    (hprocess : s'.process i = { s.process i with stops := stops })
    (hview : lockView A s'.locks i (s.process i).lockId =
      lockView A s.locks i (s.process i).lockId) : HoldsLease A s' i handle := by
  obtain ⟨hheld, hhost, hfence⟩ : _ ∧ _ ∧ _ := by simpa [lockView] using hview
  have hlockId : (s'.process i).lockId = (s.process i).lockId := by rw [hprocess]
  refine ⟨?_, ?_, h.lockId.trans hlockId.symm, ?_, ?_, ?_⟩
  · rw [hprocess]
    exact h.running
  · rw [hprocess]
    exact h.current
  · rw [hlockId, isHeldLocally, has, hheld]
    exact h.held
  · rw [hlockId, hhost]
    exact h.known
  · rw [hlockId, getCurrentFencingToken, hfence]
    exact h.latest

theorem HoldsLease.step (hcycles : (s.process i).cycles = [])
    (hev : ev.Undisturbed A i s) (hticks : ¬ev.Ticks i) (hstep : s.step A ev = some s') :
    HoldsLease A s' i handle ∧ (s'.process i).cycles = [] := by
  have hother : ¬ev.Renews s i := by
    intro hrenews
    match ev, hrenews with
    | .tick .., hj => exact hticks hj
    | .cycle j k now, hj =>
      obtain rfl : j = i := hj
      simp [ElectionSystem.step, ElectionSystem.resumeCycle, hcycles] at hstep
    | .lock (.resume ..), ⟨cycle, hcycle, _⟩ =>
      rw [hcycles] at hcycle
      cases hcycle
  have hview := hev.resolve_left hother s' hstep
  obtain ⟨⟨stops, hprocess⟩, -⟩ :=
    undisturbed_step h.running h.current h.lockId h.held hother hview hstep
  refine ⟨h.of_view hprocess hview, ?_⟩
  rw [hprocess]
  exact hcycles

omit [DecidableEq I] [DecidableEq N] in
theorem HoldsLease.guardResult (result : B) :
    guardResult A s.locks.registry (s.process i).toLeaderElection handle.fencingToken result =
      .ok result := by simp [Locks.guardResult, h.current, h.latest]

omit [DecidableEq I] [DecidableEq N] in
theorem HoldsLease.currentEpoch : (s.process i).currentEpoch = some handle.fencingToken := by
  rw [LeaderElection.currentEpoch, h.current]
  rfl

theorem HoldsLease.run {t : ElectionSystem I N S G} {es : List (ElectionEvent I N)}
    (hcycles : (s.process i).cycles = [])
    (hes : AllSteps (ElectionSystem.step A) (fun s ev => ev.Undisturbed A i s) s es)
    (hticks : ∀ ev ∈ es, ¬ev.Ticks i) (hrun : exec (ElectionSystem.step A) s es = some t) :
    HoldsLease A t i handle :=
  (exec_invariant (P := fun s => HoldsLease A s i handle ∧ (s.process i).cycles = [])
    (fun _ _ _ h hev hstep => h.1.step h.2 hev.1 hev.2 hstep) ⟨h, hcycles⟩
    (hes.and_forall hticks) hrun).1

end

/-- **`guard` resolves** with the result of `fn`, on every kind of registry, if the leader holds
its lease, no renewal is under way when `guard` is called, and none begins before `fn` resolves. -/
theorem guard_resolves (A : LockRegistry N S G) (s : ElectionSystem I N S G) (i : I)
    (handle : LockHandle N) (es : List (ElectionEvent I N)) (result : B)
    {t : ElectionSystem I N S G}
    (hlease : HoldsLease A s i handle) (hcycles : (s.process i).cycles = [])
    (hes : AllSteps (ElectionSystem.step A) (fun s ev => ev.Undisturbed A i s) s es)
    (hticks : ∀ ev ∈ es, ¬ev.Ticks i) (hrun : exec (ElectionSystem.step A) s es = some t) :
    guard A s i es result = some (.ok result) := by
  rw [guard, hlease.currentEpoch, hrun]
  exact congrArg some ((hlease.run hcycles hes hticks hrun).guardResult result)

def clusterElection : ElectionSystem Unit String (InMemoryEntityRegistry String (LockValue String))
      (CallOutcome String (LockValue String)) :=
  .initial singleLock (fun _ => .create "g" "n1" 15000) fun _ => some "n1"

def acquireOther : List (ElectionEvent Unit String) := (acquireAlone () "x" 2 3000).map .lock

theorem guard_resolves_acquireOther :
    ∃ s, exec (ElectionSystem.step inMemoryRegistry) clusterElection startAlone = some s ∧
      guard inMemoryRegistry s () acquireOther "done" = some (.ok "done") :=
  ⟨_, rfl, guard_resolves inMemoryRegistry _ () ⟨"election:g", "n1", 0, 15000, 1⟩ acquireOther
    "done" ⟨rfl, rfl, rfl, by decide, by decide, by decide⟩ rfl (by decide) (by decide) rfl⟩

def renewOnce : List (ElectionEvent Unit String) :=
  [.tick () 0 5000, .lock (.resume 2 5000 none), .cycle () 0 5000]

/-- One renewal happens while `fn` runs, and nothing else touches the lock. The node is leader and
holds the lease before and after, and `guard` rejects. -/
theorem guard_rejects_of_renewal :
    ∃ s t, exec (ElectionSystem.step inMemoryRegistry) clusterElection startAlone = some s ∧
      exec (ElectionSystem.step inMemoryRegistry) s renewOnce = some t ∧
      HoldsLease inMemoryRegistry s () ⟨"election:g", "n1", 0, 15000, 1⟩ ∧
      AllSteps (ElectionSystem.step inMemoryRegistry)
        (fun s ev => ev.Undisturbed inMemoryRegistry () s) s renewOnce ∧
      HoldsLease inMemoryRegistry t () ⟨"election:g", "n1", 0, 20000, 2⟩ ∧
      guard inMemoryRegistry s () renewOnce "done" = some (.error (.stale ⟨"g", 1, some 2⟩)) :=
  ⟨_, _, rfl, rfl, ⟨rfl, rfl, rfl, by decide, by decide, by decide⟩, by decide,
    ⟨rfl, rfl, rfl, by decide, by decide, by decide⟩, rfl⟩

end DistributedCore.Locks
