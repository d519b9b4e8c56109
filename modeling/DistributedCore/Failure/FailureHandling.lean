import DistributedCore.Cluster.MembershipTable
import DistributedCore.Locks.LockFencing

/-!
# Failure handling on a shared registry

One in-memory registry is shared by `DistributedLock` instances, a `ResourceRouter` with an
`AutoReclaimPolicy`, a `ConnectionRegistry` and a `FailureDetectorBridge`. When the detector reports
a failed node, the bridge lets the router announce the resources of the node as orphaned, then the
connection registry deletes the entities of the node one after another, and then the lock cleans
up. For every orphaned resource that the placement strategy gives to this node, the policy waits a
random time, deletes the entity and claims it again. The router also announces orphaned resources
when a member leaves the cluster.

Source: `src/cluster/failure/FailureDetectorBridge.ts`, `src/connections/ConnectionRegistry.ts`,
`src/routing/ResourceRouter.ts`, `src/routing/AutoReclaimPolicy.ts`.
-/

namespace DistributedCore.Failure

open Entity Locks List Option

/-! ### The code -/

/-- `cluster.getMembership()`. -/
abbrev Membership (N : Type) [DecidableEq N] := OrderedMap N Cluster.NodeStatus

structure ResourceHandle (N : Type) where
  resourceId : EntityId
  ownerNodeId : Option N
  metadata : Metadata (LockValue N)
  claimedAt : ℕ
  version : ℤ

structure ConnectionHandle (N : Type) where
  connectionId : EntityId
  nodeId : Option N
  metadata : Metadata (LockValue N)
  registeredAt : ℕ
  expiresAt : Option ℕ

structure RouteTarget (N : Type) where
  nodeId : N
  isLocal : Bool

structure FailureConfig (I N : Type) where
  /-- The node of the router. -/
  nodeId : N
  selectNode : InMemoryEntityRegistry N (LockValue N) → EntityId → N → List N → N
  maxClaimAttempts : ℕ
  connectionTtlMs : Option ℕ
  /-- The lock that the bridge cleans up. -/
  lock : I

/-- An attempt of a router to reclaim a resource. -/
inductive ClaimAttempt (N : Type)
  /-- It waits for `route`. -/
  | routing (handle : ResourceHandle N) (attemptsRemaining : ℕ) (target : Option (RouteTarget N))
  /-- It waits for `applyRemoteUpdate`. -/
  | deleting (handle : ResourceHandle N) (attemptsRemaining : ℕ)
  /-- It waits for `claim`. -/
  | claiming (handle : ResourceHandle N) (attemptsRemaining : ℕ)
      (outcome : CallOutcome N (LockValue N))
  | finished

/-- The removal of the connections of a failed node. -/
structure NodeCleanup (N : Type) where
  nodeId : N
  /-- The connections that are still to be deleted. -/
  victims : List (ConnectionHandle N)

/-- The locks of a node, with the failure handlers that run. -/
structure FailureSystem (I N : Type) where
  locks : MemoryLocks I N
  /-- The resources for which a timer of the policy is armed. A new timer for the same resource
  does not stop the old one. -/
  timers : List (ResourceHandle N)
  attempts : List (ClaimAttempt N)
  cleanups : List (NodeCleanup N)

/-- The events of the failure handlers, besides those of the locks. -/
inductive FailureEvent (I N : Type) [DecidableEq N]
  /-- An operation of a lock, or a call on the registry by a user. -/
  | lock (ev : LockEvent I N)
  /-- The detector reports a failed or, if this is configured, a suspected node. -/
  | nodeFailed (nodeId : N) (members : Membership N) (now : ℕ)
  /-- The cluster reports that a member has left. -/
  | memberLeft (nodeId : N) (members : Membership N)
  /-- The `k`-th timer of the policy fires. -/
  | timer (k : ℕ) (members : Membership N)
  /-- The `k`-th claim attempt goes on. -/
  | attempt (k : ℕ) (members : Membership N) (now : ℕ)
  /-- The `k`-th cleanup goes on. -/
  | cleanup (k : ℕ) (now : ℕ)

variable {I N : Type}

def toResourceHandle (record : EntityRecord N (LockValue N)) : ResourceHandle N where
  resourceId := record.entityId
  ownerNodeId := record.ownerNodeId
  metadata := record.metadata
  claimedAt := record.createdAt
  version := record.version

def toConnectionHandle (ttlMs : Option ℕ) (record : EntityRecord N (LockValue N)) :
    ConnectionHandle N where
  connectionId := record.entityId
  nodeId := record.ownerNodeId
  metadata := record.metadata
  registeredAt := record.createdAt
  expiresAt := ttlMs.map (record.createdAt + ·)

def connectionUpdate (victim : ConnectionHandle N) (now : ℕ) : LockUpdate N where
  entityId := victim.connectionId
  ownerNodeId := victim.nodeId
  version := now
  timestamp := now
  operation := .delete
  metadata := some .empty

def reclaimUpdate (handle : ResourceHandle N) (now : ℕ) : LockUpdate N where
  entityId := handle.resourceId
  ownerNodeId := handle.ownerNodeId
  version := handle.version + 1
  timestamp := now
  operation := .delete
  metadata := some .empty

namespace FailureSystem

def initial (locks : MemoryLocks I N) : FailureSystem I N := ⟨locks, [], [], []⟩

variable [DecidableEq N] (cfg : FailureConfig I N) (s : FailureSystem I N)

def entitiesOf (nodeId : N) : List (EntityRecord N (LockValue N)) :=
  s.locks.registry.entities.values.filter fun e => e.ownerNodeId = some nodeId

variable (members : Membership N)

def getAliveNodeIds : List N := (members.entries.filter fun p => p.2 = .alive).map Prod.fst

def route (resourceId : EntityId) : Option (RouteTarget N) :=
  match s.locks.registry.entities.get resourceId with
  | none => none
  | some record =>
    if record.ownerNodeId = some cfg.nodeId then some ⟨cfg.nodeId, true⟩
    else
      record.ownerNodeId.bind fun owner =>
        if members.has owner then some ⟨owner, false⟩ else none

/-- `_handleNodeLeft` with `_handleOrphaned`: a timer for every orphaned resource that the strategy
gives to this node. -/
def handleNodeLeft (nodeId : N) (members : Membership N) : FailureSystem I N :=
  let orphaned := (s.entitiesOf nodeId).map toResourceHandle
  let selected := orphaned.filter fun handle =>
    cfg.selectNode s.locks.registry handle.resourceId cfg.nodeId (getAliveNodeIds members) =
      cfg.nodeId
  { s with timers := s.timers ++ selected }

def startAttempt (handle : ResourceHandle N) (attemptsRemaining : ℕ) : ClaimAttempt N :=
  .routing handle attemptsRemaining (s.route cfg members handle.resourceId)

variable [DecidableEq I]

def lockStep (s : FailureSystem I N) (ev : LockEvent I N) : Option (FailureSystem I N) :=
  (memoryStep s.locks ev).map fun locks => { s with locks := locks }

def resumeAttempt (s : FailureSystem I N) (members : Membership N) (now : ℕ) :
    ClaimAttempt N → Option (FailureSystem I N × ClaimAttempt N)
  | .routing handle n target =>
    let alreadyClaimed := target.any fun target =>
      target.isLocal || (getAliveNodeIds members).contains target.nodeId
    if alreadyClaimed then some (s, .finished)
    else (s.lockStep (.update (reclaimUpdate handle now) now)).map (·, .deleting handle n)
  | .deleting handle n =>
    let op := .proposeEntity handle.resourceId (some .empty)
    let outcome := (inMemoryRegistry.call s.locks.registry op now).call
    (s.lockStep (.call op now)).map (·, .claiming handle n outcome)
  | .claiming _ _ (.resolved _) => some (s, .finished)
  | .claiming handle n .rejected =>
    if n > 1 then some (s, s.startAttempt cfg members handle (n - 1)) else some (s, .finished)
  | .finished => none

def resumeCleanup (s : FailureSystem I N) (now : ℕ) (cleanup : NodeCleanup N) :
    Option (FailureSystem I N × Option (NodeCleanup N)) :=
  match cleanup.victims with
  | victim :: victims =>
    (s.lockStep (.update (connectionUpdate victim now) now)).map
      (·, some { cleanup with victims := victims })
  | [] => (s.lockStep (.handleRemoteNodeFailure cfg.lock cleanup.nodeId now)).map (·, none)

def step (s : FailureSystem I N) : FailureEvent I N → Option (FailureSystem I N)
  | .lock ev => s.lockStep ev
  | .memberLeft nodeId members => some (s.handleNodeLeft cfg nodeId members)
  | .nodeFailed nodeId members now =>
    let s := s.handleNodeLeft cfg nodeId members
    match (s.entitiesOf nodeId).map (toConnectionHandle cfg.connectionTtlMs) with
    -- the first deletion belongs to the same piece
    | victim :: victims =>
      (s.lockStep (.update (connectionUpdate victim now) now)).map fun s =>
        { s with cleanups := s.cleanups ++ [⟨nodeId, victims⟩] }
    | [] => some { s with cleanups := s.cleanups ++ [⟨nodeId, []⟩] }
  | .timer k members =>
    s.timers[k]?.map fun handle =>
      { s with
        timers := s.timers.eraseIdx k
        attempts := s.attempts ++ [s.startAttempt cfg members handle cfg.maxClaimAttempts] }
  | .attempt k members now =>
    s.attempts[k]?.bind fun attempt =>
      (s.resumeAttempt cfg members now attempt).map fun (s, attempt) =>
        { s with attempts := s.attempts.set k attempt }
  | .cleanup k now =>
    s.cleanups[k]?.bind fun cleanup =>
      (s.resumeCleanup cfg now cleanup).map fun (s, cleanup) =>
        match cleanup with
        | some cleanup => { s with cleanups := s.cleanups.set k cleanup }
        | none => { s with cleanups := s.cleanups.eraseIdx k }

end FailureSystem

/-! ### What a step does to the registry -/

def ClaimAttempt.resourceId : ClaimAttempt N → Option EntityId
  | .routing handle _ _ => some handle.resourceId
  | .deleting handle _ => some handle.resourceId
  | .claiming handle _ _ => some handle.resourceId
  | .finished => none

variable [DecidableEq N]

/-- The event does not concern a fence. -/
def FailureEvent.SparesFences (s : FailureSystem I N) : FailureEvent I N → Prop
  | .lock ev => ev.AvoidsFences
  | .nodeFailed nodeId _ _ => ∀ e ∈ s.entitiesOf nodeId, isFence e.entityId = false
  | .memberLeft nodeId _ => ∀ e ∈ s.entitiesOf nodeId, isFence e.entityId = false
  | .timer .. => True
  | .attempt .. => True
  | .cleanup .. => True

instance (s : FailureSystem I N) (ev : FailureEvent I N) : Decidable (ev.SparesFences s) := by
  unfold FailureEvent.SparesFences
  split <;> infer_instance

namespace FailureSystem

omit [DecidableEq N] in
/-- No handler is about to touch a fence. -/
structure SparesFences (s : FailureSystem I N) : Prop where
  valid : ∃ x, s.locks.registry.Valid x
  tasks : ∀ task ∈ s.locks.tasks, task.AvoidsFences
  timers : ∀ handle ∈ s.timers, isFence handle.resourceId = false
  attempts : ∀ attempt ∈ s.attempts, ∀ e ∈ attempt.resourceId, isFence e = false
  cleanups : ∀ cleanup ∈ s.cleanups, ∀ v ∈ cleanup.victims, isFence v.connectionId = false

variable [DecidableEq I] {cfg : FailureConfig I N} {s s' : FailureSystem I N}
  {members : Membership N} {now : ℕ}

/-- The handlers act on the registry only as lock events do. -/
def LocksStep (s s' : FailureSystem I N) : Prop :=
  s'.locks = s.locks ∨ ∃ ev : LockEvent I N, ev.AvoidsFences ∧ memoryStep s.locks ev = some s'.locks

section

variable (hs : s.SparesFences)

include hs

theorem SparesFences.lockStep {ev : LockEvent I N}
    (h : s.lockStep ev = some s') (hev : ev.AvoidsFences) : s'.SparesFences ∧ LocksStep s s' := by
  obtain ⟨locks, hlocks, rfl⟩ := map_eq_some_iff.mp h
  obtain ⟨x, hx⟩ := hs.valid
  have hvalid := (tokenStep_of_step hx hs.tasks hev hlocks).1
  exact ⟨⟨⟨x, hvalid⟩, avoidsFences_step hs.tasks hev hlocks, hs.timers, hs.attempts, hs.cleanups⟩,
    .inr ⟨ev, hev, hlocks⟩⟩

omit [DecidableEq I] in
theorem SparesFences.handleNodeLeft {nodeId : N}
    (hnode : ∀ e ∈ s.entitiesOf nodeId, isFence e.entityId = false) :
    (s.handleNodeLeft cfg nodeId members).SparesFences := by
  refine ⟨hs.valid, hs.tasks, fun handle hhandle => ?_, hs.attempts, hs.cleanups⟩
  rcases mem_append.mp hhandle with hold | hnew
  · exact hs.timers handle hold
  · obtain ⟨e, he, rfl⟩ := mem_map.mp (mem_filter.mp hnew).1
    exact hnode e he

theorem SparesFences.resumeAttempt {attempt attempt' : ClaimAttempt N}
    (hattempt : ∀ e ∈ attempt.resourceId, isFence e = false)
    (h : s.resumeAttempt cfg members now attempt = some (s', attempt')) :
    s'.SparesFences ∧ LocksStep s s' ∧ ∀ e ∈ attempt'.resourceId, isFence e = false := by
  cases attempt with
  | routing =>
    simp only [FailureSystem.resumeAttempt] at h
    split_ifs at h
    · cases h
      exact ⟨hs, .inl rfl, fun e he => (nomatch he)⟩
    · obtain ⟨s₁, hs₁, h⟩ := map_eq_some_iff.mp h
      cases h
      obtain ⟨hspares, hlocks⟩ := hs.lockStep hs₁ (hattempt _ rfl)
      exact ⟨hspares, hlocks, hattempt⟩
  | deleting =>
    simp only [FailureSystem.resumeAttempt] at h
    obtain ⟨s₁, hs₁, h⟩ := map_eq_some_iff.mp h
    cases h
    obtain ⟨hspares, hlocks⟩ := hs.lockStep hs₁ (hattempt _ rfl)
    exact ⟨hspares, hlocks, hattempt⟩
  | claiming _ _ outcome =>
    cases outcome with
    | resolved =>
      cases h
      exact ⟨hs, .inl rfl, fun e he => (nomatch he)⟩
    | rejected =>
      simp only [FailureSystem.resumeAttempt] at h
      split_ifs at h <;> cases h
      · exact ⟨hs, .inl rfl, hattempt⟩
      · exact ⟨hs, .inl rfl, fun e he => (nomatch he)⟩
  | finished => cases h

theorem SparesFences.resumeCleanup {cleanup : NodeCleanup N} {cleanup' : Option (NodeCleanup N)}
    (hcleanup : ∀ v ∈ cleanup.victims, isFence v.connectionId = false)
    (h : s.resumeCleanup cfg now cleanup = some (s', cleanup')) :
    s'.SparesFences ∧ LocksStep s s' ∧
      ∀ c ∈ cleanup', ∀ v ∈ c.victims, isFence v.connectionId = false := by
  obtain ⟨nodeId, victims⟩ := cleanup
  rw [FailureSystem.resumeCleanup] at h
  cases victims with
  | nil =>
    obtain ⟨s₁, hs₁, h⟩ := map_eq_some_iff.mp h
    cases h
    obtain ⟨hspares, hlocks⟩ := hs.lockStep hs₁ trivial
    exact ⟨hspares, hlocks, fun c hc => (nomatch hc)⟩
  | cons victim =>
    obtain ⟨s₁, hs₁, h⟩ := map_eq_some_iff.mp h
    cases h
    obtain ⟨hspares, hlocks⟩ := hs.lockStep hs₁ (hcleanup victim mem_cons_self)
    refine ⟨hspares, hlocks, fun c hc v hv => ?_⟩
    cases hc
    exact hcleanup v (mem_cons_of_mem _ hv)

/-- **What a step does to the registry**, if it spares the sidecars. -/
theorem SparesFences.step {ev : FailureEvent I N} (hev : ev.SparesFences s)
    (h : s.step cfg ev = some s') : s'.SparesFences ∧ LocksStep s s' := by
  cases ev with
  | lock => exact hs.lockStep h hev
  | memberLeft =>
    cases h
    exact ⟨hs.handleNodeLeft hev, .inl rfl⟩
  | nodeFailed nodeId members =>
    have hleft : (s.handleNodeLeft cfg nodeId members).SparesFences := hs.handleNodeLeft hev
    have hvictims : ∀ v ∈ (s.entitiesOf nodeId).map (toConnectionHandle cfg.connectionTtlMs),
        isFence v.connectionId = false := by
      intro v hv
      obtain ⟨e, he, rfl⟩ := mem_map.mp hv
      exact hev e he
    have hcleanups : ∀ {cleanups : List (NodeCleanup N)} {victims : List (ConnectionHandle N)},
        (∀ c ∈ cleanups, ∀ v ∈ c.victims, isFence v.connectionId = false) →
        (∀ v ∈ victims, isFence v.connectionId = false) →
        ∀ c ∈ cleanups ++ [⟨nodeId, victims⟩], ∀ v ∈ c.victims, isFence v.connectionId = false := by
      intro cleanups victims hold hnew
      exact forall_mem_append.mpr ⟨hold, forall_mem_singleton.mpr hnew⟩
    simp only [FailureSystem.step] at h
    split at h
    · rename_i victim victims heq
      have heq' : (s.entitiesOf nodeId).map (toConnectionHandle cfg.connectionTtlMs) =
        victim :: victims := heq
      rw [heq'] at hvictims
      obtain ⟨s₁, hs₁, rfl⟩ := map_eq_some_iff.mp h
      obtain ⟨hspares, hlocks⟩ := hleft.lockStep hs₁ (hvictims victim mem_cons_self)
      exact ⟨{ hspares with
        cleanups := hcleanups hspares.cleanups fun v hv => hvictims v (mem_cons_of_mem _ hv) },
        hlocks⟩
    · cases h
      exact ⟨{ hleft with cleanups := hcleanups hleft.cleanups nofun }, .inl rfl⟩
  | timer =>
    obtain ⟨handle, hhandle, rfl⟩ := map_eq_some_iff.mp h
    refine ⟨⟨hs.valid, hs.tasks, fun handle hmem => hs.timers handle (mem_of_mem_eraseIdx hmem),
      forall_mem_append.mpr ⟨hs.attempts, forall_mem_singleton.mpr ?_⟩, hs.cleanups⟩,
      .inl rfl⟩
    intro e he
    cases he
    exact hs.timers handle (mem_of_getElem? hhandle)
  | attempt =>
    obtain ⟨attempt, hattempt, h⟩ := bind_eq_some_iff.mp h
    obtain ⟨⟨s₁, attempt'⟩, hresume, rfl⟩ := map_eq_some_iff.mp h
    obtain ⟨hspares, hlocks, hattempt'⟩ :=
      hs.resumeAttempt (hs.attempts attempt (mem_of_getElem? hattempt)) hresume
    exact ⟨{ hspares with attempts := forall_mem_set hspares.attempts hattempt' }, hlocks⟩
  | cleanup =>
    obtain ⟨cleanup, hcleanup, h⟩ := bind_eq_some_iff.mp h
    obtain ⟨⟨s₁, cleanup'⟩, hresume, rfl⟩ := map_eq_some_iff.mp h
    obtain ⟨hspares, hlocks, hcleanup'⟩ :=
      hs.resumeCleanup (hs.cleanups cleanup (mem_of_getElem? hcleanup)) hresume
    cases cleanup' with
    | some =>
      exact ⟨{ hspares with cleanups := forall_mem_set hspares.cleanups (hcleanup' _ rfl) }, hlocks⟩
    | none =>
      exact ⟨{ hspares with
        cleanups := fun c hc => hspares.cleanups c (mem_of_mem_eraseIdx hc) }, hlocks⟩

end

end FailureSystem

/-! ### Tokens are not lost -/

section Survival

variable [DecidableEq I] {cfg : FailureConfig I N} {s t : FailureSystem I N} {l : LockId} {m : ℕ}

section

omit [DecidableEq I]

def currentToken (s : FailureSystem I N) (l : LockId) : ℕ :=
  getCurrentFencingToken inMemoryRegistry s.locks.registry l

/-- The fence counts at least up to `m`. -/
def CountsFrom (s : FailureSystem I N) (l : LockId) (m : ℕ) : Prop :=
  ∃ n, m ≤ n ∧ Sidecar (fences s.locks.registry l) n

theorem CountsFrom.le_currentToken (h : CountsFrom s l m) : m ≤ currentToken s l := by
  obtain ⟨n, hmn, hn⟩ := h
  rwa [currentToken, Sidecar.getCurrentFencingToken_eq hn]

theorem CountsFrom.currentToken (h : CountsFrom s l m) : CountsFrom s l (currentToken s l) := by
  obtain ⟨n, -, hn⟩ := h
  refine ⟨n, ?_, hn⟩
  rw [Failure.currentToken, Sidecar.getCurrentFencingToken_eq hn]

end

theorem countsFrom_run {es : List (FailureEvent I N)} (hs : s.SparesFences) (hm : CountsFrom s l m)
    (hok : AllSteps (FailureSystem.step cfg) (fun s ev => ev.SparesFences s) s es)
    (hrun : exec (FailureSystem.step cfg) s es = some t) : t.SparesFences ∧ CountsFrom t l m := by
  refine exec_invariant (P := fun s : FailureSystem I N => s.SparesFences ∧ CountsFrom s l m) ?_
    ⟨hs, hm⟩ hok hrun
  rintro s ev s' ⟨hs, n, hmn, hn⟩ hev hstep
  obtain ⟨hs', hlocks | ⟨ev', hev', hlocks⟩⟩ := hs.step hev hstep
  · exact ⟨hs', n, hmn, hlocks ▸ hn⟩
  · obtain ⟨x, hx⟩ := hs.valid
    obtain ⟨n', hnn', hn'⟩ := (tokenStep_of_step hx hs.tasks hev' hlocks).2.sidecar hn
    exact ⟨hs', n', hmn.trans hnn', hn'⟩

/-- **Fencing tokens survive failures.** If no lock or entity that a caller names has the name of a
sidecar, and no node fails or leaves while it owns a sidecar, then the current fencing token of a
lock never decreases between two states of a run. -/
theorem fencingTokens_survive (cfg : FailureConfig I N) (x : N) (lock : I → DistributedLock N)
    (es es' : List (FailureEvent I N)) (s t : FailureSystem I N)
    (hok : AllSteps (FailureSystem.step cfg) (fun s ev => ev.SparesFences s)
      (.initial (.initial (InMemoryEntityRegistry.create x).start lock)) (es ++ es'))
    (hs : exec (FailureSystem.step cfg)
      (.initial (.initial (InMemoryEntityRegistry.create x).start lock)) es = some s)
    (ht : exec (FailureSystem.step cfg) s es' = some t) (l : LockId) :
    currentToken s l ≤ currentToken t l := by
  obtain ⟨hok, hok'⟩ := (allSteps_append_iff hs).mp hok
  have hinitial : (FailureSystem.initial (.initial (InMemoryEntityRegistry.create x).start lock) :
      FailureSystem I N).SparesFences :=
    ⟨⟨x, InMemoryEntityRegistry.valid_create x⟩, fun _ h => absurd h not_mem_nil,
      fun _ h => absurd h not_mem_nil, fun _ h => absurd h not_mem_nil,
      fun _ h => absurd h not_mem_nil⟩
  obtain ⟨hspares, hcounts⟩ := countsFrom_run hinitial ⟨0, le_rfl, .absent⟩ hok hs
  exact (countsFrom_run hspares hcounts.currentToken hok' ht).2.le_currentToken

end Survival

/-! ### Concrete runs -/

def localConfig : FailureConfig Unit String :=
  ⟨"n1", fun _ _ localNodeId _ => localNodeId, 1, none, ()⟩

def remoteLock : FailureSystem Unit String :=
  .initial (.initial (InMemoryEntityRegistry.create "n1").start fun _ => .create "n2" 30000)

def acquireEvents : List (FailureEvent Unit String) := (acquireAlone () "x" 0 0).map .lock

def localLock : FailureSystem Unit String :=
  .initial (.initial (InMemoryEntityRegistry.create "n1").start fun _ => .create "n1" 30000)

def connectionOfN2 : LockUpdate String where
  entityId := "connection"
  ownerNodeId := some "n2"
  version := 1
  timestamp := 0
  operation := .create

/-- `n2`, which owns a connection, fails and loses it; the lock of `n1` keeps its token. -/
theorem fencingTokens_survive_connection_lost :
    ∃ s t, exec (FailureSystem.step localConfig) localLock
        (acquireEvents ++ [.lock (.update connectionOfN2 4)]) = some s ∧
      exec (FailureSystem.step localConfig) s [.nodeFailed "n2" .empty 5, .cleanup 0 5] = some t ∧
      (s.locks.registry.entities.has "connection" = true ∧
        t.locks.registry.entities.has "connection" = false) ∧
      currentToken s "x" = 1 ∧ currentToken s "x" ≤ currentToken t "x" :=
  ⟨_, _, rfl, rfl, by decide, by decide,
    fencingTokens_survive localConfig "n1" (fun _ => .create "n1" 30000)
      (acquireEvents ++ [.lock (.update connectionOfN2 4)])
      [.nodeFailed "n2" .empty 5, .cleanup 0 5] _ _ (by decide) rfl rfl "x"⟩

/-- The lock of `n2` has token 1. When `n2` fails, the connection registry deletes the sidecar, and
the token is 0. -/
theorem fencingToken_lost_of_owner_failed :
    ∃ s t, exec (FailureSystem.step localConfig) remoteLock acquireEvents = some s ∧
      exec (FailureSystem.step localConfig) s [.nodeFailed "n2" .empty 5] = some t ∧
      currentToken s "x" = 1 ∧ currentToken t "x" = 0 :=
  ⟨_, _, rfl, rfl, by decide, by decide⟩

/-- The policy loses the token as well: `n2` leaves the cluster, and the sidecar is claimed again
without a token. -/
theorem fencingToken_lost_of_reclaim :
    ∃ s t, exec (FailureSystem.step localConfig) remoteLock acquireEvents = some s ∧
      exec (FailureSystem.step localConfig) s [.memberLeft "n2" .empty, .timer 0 .empty,
        .attempt 0 .empty 100, .attempt 0 .empty 100, .attempt 0 .empty 100] = some t ∧
      currentToken s "x" = 1 ∧ currentToken t "x" = 0 ∧
      (t.locks.registry.entities.get "__fence__:x").isSome :=
  ⟨_, _, rfl, rfl, by decide, by decide, by decide⟩

end DistributedCore.Failure
