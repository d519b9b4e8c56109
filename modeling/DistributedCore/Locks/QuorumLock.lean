import DistributedCore.Locks.DistributedLock
import Mathlib.Data.Finset.Card

/-!
# The majority-acknowledged lock of one node

`QuorumDistributedLock` keeps, on every node, the locks held by this node (`heldLocks`), the
lock it has acknowledged to some other node (`remoteLocks`, its *vote*), its own requests that
still wait for acknowledgements (`pendingRequests`) and the highest fencing token it has heard
of (`lastSeenTokens`). This file embeds the calls, timer callbacks and message handlers of one
node as functions of that state; the cluster they run in is
`DistributedCore.Locks.QuorumCluster`.

Source: `src/cluster/locks/QuorumDistributedLock.ts`.
-/

namespace DistributedCore.Locks

open OrderedMap

inductive DenyReason
  | locallyHeld
  | alreadyAcked
  deriving DecidableEq

inductive QuorumMsg (N : Type)
  | lockRequest (lockId : LockId) (requestId : ℕ) (nodeId : N) (ttlMs : ℕ)
  | lockGrant (requestId : ℕ) (lockId : LockId) (fromNodeId : N) (seenToken : ℕ)
  | lockDeny (requestId : ℕ) (lockId : LockId) (fromNodeId : N) (reason : DenyReason)
      (seenToken : ℕ)
  | lockAbandon (lockId : LockId) (nodeId : N)
  | lockRelease (lockId : LockId) (nodeId : N) (fencingToken : ℕ)
  deriving DecidableEq

/-- A request that waits for its answers. -/
structure PendingRequest (N : Type) where
  /-- The nodes that granted the request, this node included. -/
  grants : Finset N
  denies : Finset N
  /-- The highest `seenToken` any answer has reported so far. -/
  maxSeenToken : ℕ
  lockId : LockId
  ttlMs : ℕ

/-- The state of a `QuorumDistributedLock` instance. A timer map holds the durations of the
timers that are armed. -/
structure QuorumDistributedLock (N : Type) where
  localNodeId : N
  defaultTtlMs : ℕ
  heldLocks : OrderedMap LockId (LockHandle N)
  remoteLocks : OrderedMap LockId N
  remoteTimers : OrderedMap LockId ℕ
  pendingRequests : OrderedMap ℕ (PendingRequest N)
  ttlTimers : OrderedMap LockId ℕ
  lastSeenTokens : OrderedMap LockId ℕ

/-- A call of `_grantLocal`: the request it decided, the nodes whose grants had been counted
and the handle it created. -/
structure Grant (N : Type) where
  requestId : ℕ
  voters : Finset N
  handle : LockHandle N

/-- What a call or a callback does: the new state, the published messages in order, and the
handle created by `_grantLocal`, if it was called. -/
structure Outcome (N : Type) where
  node : QuorumDistributedLock N
  published : List (QuorumMsg N) := []
  granted : Option (Grant N) := none

def majority (alive : ℕ) : ℕ := alive / 2 + 1

namespace QuorumDistributedLock

variable {N : Type}

def create (localNodeId : N) (defaultTtlMs : ℕ) : QuorumDistributedLock N where
  localNodeId := localNodeId
  defaultTtlMs := defaultTtlMs
  heldLocks := .empty
  remoteLocks := .empty
  remoteTimers := .empty
  pendingRequests := .empty
  ttlTimers := .empty
  lastSeenTokens := .empty

variable (n : QuorumDistributedLock N)

def getCurrentFencingToken (lockId : LockId) : ℕ := (n.lastSeenTokens.get lockId).getD 0

def observeToken (lockId : LockId) (token : ℕ) : QuorumDistributedLock N :=
  if token > n.getCurrentFencingToken lockId then
    { n with lastSeenTokens := n.lastSeenTokens.set lockId token }
  else n

/-- `_grantLocal` for the pending request `requestId`, which the caller has just removed from
`pendingRequests`. The token is `maxSeenToken + 1n`. -/
def grantLocal (requestId : ℕ) (p : PendingRequest N) (now : ℕ) : Outcome N :=
  let handle : LockHandle N :=
    { lockId := p.lockId
      nodeId := n.localNodeId
      acquiredAt := now
      expiresAt := now + p.ttlMs
      fencingToken := p.maxSeenToken + 1 }
  let held := { n with heldLocks := n.heldLocks.set p.lockId handle }
  let observed := held.observeToken p.lockId handle.fencingToken
  { node := { observed with ttlTimers := observed.ttlTimers.set p.lockId p.ttlMs }
    granted := some ⟨requestId, p.grants, handle⟩ }

def dropRequest (requestId : ℕ) : QuorumDistributedLock N :=
  { n with pendingRequests := n.pendingRequests.delete requestId }

def tryResolveEarly (alive : ℕ) (requestId : ℕ) (now : ℕ) : Outcome N :=
  match n.pendingRequests.get requestId with
  | some p =>
    if p.grants.card ≥ majority alive then (n.dropRequest requestId).grantLocal requestId p now
    else { node := n }
  | none => { node := n }

variable [DecidableEq N] (n : QuorumDistributedLock N)

/-- `tryAcquire`, up to the point where the promise waits for the answers. A call for a held
lock or an acknowledged one returns at once and changes nothing. -/
def tryAcquire (alive : ℕ) (lockId : LockId)
    (ttlMs : Option ℕ) (requestId : ℕ) (now : ℕ) : Outcome N :=
  if n.heldLocks.has lockId then { node := n }
  else if n.remoteLocks.has lockId then { node := n }
  else
    let ttl := ttlMs.getD n.defaultTtlMs
    let pending : PendingRequest N :=
      { grants := {n.localNodeId}
        denies := ∅
        maxSeenToken := n.getCurrentFencingToken lockId
        lockId := lockId
        ttlMs := ttl }
    let waiting := { n with pendingRequests := n.pendingRequests.set requestId pending }
    if alive = 1 then waiting.tryResolveEarly alive requestId now
    else
      { node := waiting
        published := [.lockRequest lockId requestId n.localNodeId ttl] }

def publishRejected (requestId : ℕ) : Outcome N := { node := n.dropRequest requestId }

/-- The acknowledgement timer of the pending request `requestId`. The timer is cleared
whenever a request leaves `pendingRequests`, so it only fires for a pending one. -/
def ackTimeout (alive : ℕ) (requestId : ℕ) (now : ℕ) : Outcome N :=
  match n.pendingRequests.get requestId with
  | some p =>
    if p.grants.card ≥ majority alive then (n.dropRequest requestId).grantLocal requestId p now
    else
      { node := n.dropRequest requestId
        published := [.lockAbandon p.lockId n.localNodeId] }
  | none => { node := n }

variable (lockId : LockId)

/-- Gives up the handle of `lockId` and publishes `LOCK_RELEASE`; the common part of `release`
and `_onTtlExpired`. -/
def giveUp : Outcome N :=
  match n.heldLocks.get lockId with
  | some held =>
    { node := { n with heldLocks := n.heldLocks.delete lockId }
      published := [.lockRelease lockId n.localNodeId held.fencingToken] }
  | none => { node := n }

def release : Outcome N :=
  if n.heldLocks.has lockId then
    giveUp { n with ttlTimers := n.ttlTimers.delete lockId } lockId
  else { node := n }

def onTtlExpired : Outcome N := giveUp { n with ttlTimers := n.ttlTimers.delete lockId } lockId

def dropVote : QuorumDistributedLock N :=
  { n with
    remoteLocks := n.remoteLocks.delete lockId
    remoteTimers := n.remoteTimers.delete lockId }

def onRemoteTimer : Outcome N := { node := n.dropVote lockId }

variable (requestId alive token : ℕ)

def onLockRequest (nodeId : N) (ttlMs : ℕ) : Outcome N :=
  let seenToken := n.getCurrentFencingToken lockId
  if n.heldLocks.has lockId then
    { node := n
      published := [.lockDeny requestId lockId n.localNodeId .locallyHeld seenToken] }
  else if n.remoteLocks.has lockId then
    { node := n
      published := [.lockDeny requestId lockId n.localNodeId .alreadyAcked seenToken] }
  else
    { node :=
        { n with
          remoteLocks := n.remoteLocks.set lockId nodeId
          remoteTimers := n.remoteTimers.set lockId ttlMs }
      published := [.lockGrant requestId lockId n.localNodeId seenToken] }

def recordAnswer (p : PendingRequest N)
    (lockId : LockId) (peerSeen : ℕ) : QuorumDistributedLock N :=
  observeToken { n with pendingRequests := n.pendingRequests.set requestId p } lockId peerSeen

def onLockGrant (requestId : ℕ)
    (lockId : LockId) (fromNodeId : N) (peerSeen : ℕ) (now : ℕ) : Outcome N :=
  match n.pendingRequests.get requestId with
  | none => { node := n }
  | some pending =>
    let p :=
      { pending with
        grants := insert fromNodeId pending.grants
        maxSeenToken := max pending.maxSeenToken peerSeen }
    let counted := n.recordAnswer requestId p lockId peerSeen
    if p.grants.card ≥ majority alive then
      (counted.dropRequest requestId).grantLocal requestId p now
    else { node := counted }

/-- The handler of `LOCK_DENY`. The number of peers that may still answer is computed in the
integers, as the source's subtraction is not truncated. -/
def onLockDeny (requestId : ℕ) (lockId : LockId) (fromNodeId : N) (peerSeen : ℕ) : Outcome N :=
  match n.pendingRequests.get requestId with
  | none => { node := n }
  | some pending =>
    let p :=
      { pending with
        denies := insert fromNodeId pending.denies
        maxSeenToken := max pending.maxSeenToken peerSeen }
    let counted := n.recordAnswer requestId p lockId peerSeen
    let remainingPeers : ℤ := alive - 1 - p.grants.card - p.denies.card
    if p.grants.card + remainingPeers < majority alive then
      { node := counted.dropRequest requestId
        published := [.lockAbandon p.lockId n.localNodeId] }
    else { node := counted }

/-- `_onMessage`: a message published by this node itself is ignored, any other one goes to
its handler. `LOCK_ABANDON` and `LOCK_RELEASE` remove the acknowledgement whatever node it was
given to. -/
def onMessage (publisherNodeId : N) (now : ℕ) (msg : QuorumMsg N) : Outcome N :=
  if publisherNodeId = n.localNodeId then { node := n }
  else
    match msg with
    | .lockRequest lockId requestId nodeId ttlMs => n.onLockRequest lockId requestId nodeId ttlMs
    | .lockGrant requestId lockId fromNodeId seenToken =>
      n.onLockGrant alive requestId lockId fromNodeId seenToken now
    | .lockDeny requestId lockId fromNodeId _ seenToken =>
      n.onLockDeny alive requestId lockId fromNodeId seenToken
    | .lockAbandon lockId _ => { node := n.dropVote lockId }
    | .lockRelease lockId _ fencingToken =>
      { node := (n.dropVote lockId).observeToken lockId fencingToken }

/-! ### What the helpers leave unchanged -/

omit [DecidableEq N]

section Observe

variable (n : QuorumDistributedLock N) (lockId : LockId) (token : ℕ) (requestId : ℕ)
  (p : PendingRequest N) (l : LockId)

@[simp] theorem observeToken_localNodeId :
    (n.observeToken lockId token).localNodeId = n.localNodeId := by
  unfold observeToken
  split <;> rfl

@[simp] theorem observeToken_heldLocks : (n.observeToken lockId token).heldLocks = n.heldLocks := by
  unfold observeToken
  split <;> rfl

@[simp] theorem observeToken_remoteLocks :
    (n.observeToken lockId token).remoteLocks = n.remoteLocks := by
  unfold observeToken
  split <;> rfl

@[simp] theorem observeToken_pendingRequests :
    (n.observeToken lockId token).pendingRequests = n.pendingRequests := by
  unfold observeToken
  split <;> rfl

@[simp] theorem observeToken_zero : n.observeToken lockId 0 = n := by simp [observeToken]

theorem getCurrentFencingToken_observeToken :
    (n.observeToken lockId token).getCurrentFencingToken l =
      if l = lockId then max (n.getCurrentFencingToken l) token
      else n.getCurrentFencingToken l := by
  by_cases htok : token > n.getCurrentFencingToken lockId
  · by_cases hl : l = lockId
    · subst hl
      simp only [observeToken, htok, ↓reduceIte]
      simp only [getCurrentFencingToken, get_set_self, Option.getD_some] at htok ⊢
      omega
    · simp only [observeToken, htok, hl, ↓reduceIte]
      simp [getCurrentFencingToken, get_set_of_ne _ _ hl]
  · by_cases hl : l = lockId
    · subst hl
      simp only [observeToken, htok, ↓reduceIte]
      omega
    · simp [observeToken, htok, hl]

theorem le_getCurrentFencingToken_observeToken :
    n.getCurrentFencingToken l ≤ (n.observeToken lockId token).getCurrentFencingToken l := by
  rw [getCurrentFencingToken_observeToken]
  split <;> omega

theorem getCurrentFencingToken_grantLocal (now : ℕ) (l : LockId) :
    (n.grantLocal requestId p now).node.getCurrentFencingToken l =
      if l = p.lockId then max (n.getCurrentFencingToken l) (p.maxSeenToken + 1)
      else n.getCurrentFencingToken l := by
  exact getCurrentFencingToken_observeToken { n with heldLocks := _ } p.lockId
    (p.maxSeenToken + 1) l

end Observe

/-- A change of one node that gives no vote, takes none back and creates no handle: the vote
of every lock is unchanged, requests and handles can only disappear, and the tokens the node
and its requests know of can only grow. -/
structure Quiet (n n' : QuorumDistributedLock N) : Prop where
  localNodeId : n'.localNodeId = n.localNodeId
  vote : n'.remoteLocks = n.remoteLocks
  held : ∀ l h, n'.heldLocks.get l = some h → n.heldLocks.get l = some h
  seen : ∀ l, n.getCurrentFencingToken l ≤ n'.getCurrentFencingToken l
  pending : ∀ r p', n'.pendingRequests.get r = some p' →
    ∃ p, n.pendingRequests.get r = some p ∧ p'.grants = p.grants ∧ p'.lockId = p.lockId ∧
      p.maxSeenToken ≤ p'.maxSeenToken

namespace Quiet

variable {n n' n'' : QuorumDistributedLock N}

theorem refl (n : QuorumDistributedLock N) : Quiet n n where
  localNodeId := rfl
  vote := rfl
  held _ _ h := h
  seen _ := le_rfl
  pending _ p' h := ⟨p', h, rfl, rfl, le_rfl⟩

theorem trans (h : Quiet n n') (h' : Quiet n' n'') : Quiet n n'' where
  localNodeId := h'.localNodeId.trans h.localNodeId
  vote := h'.vote.trans h.vote
  held l k hk := h.held l k (h'.held l k hk)
  seen l := (h.seen l).trans (h'.seen l)
  pending r p'' hp'' := by
    obtain ⟨p', hp', hg', hl', hm'⟩ := h'.pending r p'' hp''
    obtain ⟨p, hp, hg, hl, hm⟩ := h.pending r p' hp'
    exact ⟨p, hp, hg'.trans hg, hl'.trans hl, hm.trans hm'⟩

end Quiet

theorem quiet_observeToken : Quiet n (n.observeToken lockId token) where
  localNodeId := by simp
  vote := by simp
  held l h hh := by simpa using hh
  seen l := n.le_getCurrentFencingToken_observeToken lockId token l
  pending r p' hp' := ⟨p', by simpa using hp', rfl, rfl, le_rfl⟩

theorem quiet_dropRequest : Quiet n (n.dropRequest requestId) where
  localNodeId := rfl
  vote := rfl
  held _ _ h := h
  seen _ := le_rfl
  pending r p' hp' := by
    simp only [dropRequest, get_delete] at hp'
    split at hp'
    · cases hp'
    · exact ⟨p', hp', rfl, rfl, le_rfl⟩

theorem quiet_giveUp : Quiet n (n.giveUp lockId).node := by
  unfold giveUp
  cases n.heldLocks.get lockId with
  | none => exact .refl n
  | some =>
    refine ⟨rfl, rfl, fun l h hh => ?_, fun _ => le_rfl,
      fun _ p' hp' => ⟨p', hp', rfl, rfl, le_rfl⟩⟩
    simp only [get_delete] at hh
    split at hh
    · cases hh
    · exact hh

theorem quiet_clearTtlTimer : Quiet n { n with ttlTimers := n.ttlTimers.delete lockId } :=
  ⟨rfl, rfl, fun _ _ h => h, fun _ => le_rfl, fun _ p' hp' => ⟨p', hp', rfl, rfl, le_rfl⟩⟩

theorem quiet_recordAnswer {requestId : ℕ}
    {pending p : PendingRequest N} (lockId : LockId) (peerSeen : ℕ)
    (hpending : n.pendingRequests.get requestId = some pending)
    (hgrants : p.grants = pending.grants) (hlock : p.lockId = pending.lockId)
    (hmax : pending.maxSeenToken ≤ p.maxSeenToken) :
    Quiet n (n.recordAnswer requestId p lockId peerSeen) := by
  have hset : Quiet n { n with pendingRequests := n.pendingRequests.set requestId p } := by
    refine ⟨rfl, rfl, fun _ _ h => h, fun _ => le_rfl, fun r p' hp' => ?_⟩
    simp only [get_set] at hp'
    split at hp'
    · rename_i hr
      cases hp'
      exact ⟨pending, hr ▸ hpending, hgrants, hlock, hmax⟩
    · exact ⟨p', hp', rfl, rfl, le_rfl⟩
  exact hset.trans (quiet_observeToken ..)

end QuorumDistributedLock

/-! ### Early abandonment -/

namespace QuorumDistributedLock

variable {N : Type} [DecidableEq N] {n : QuorumDistributedLock N}

/-- The request ends without a handle. -/
def ResolvesNull (n : QuorumDistributedLock N) (requestId : ℕ) (o : Outcome N) : Prop :=
  n.pendingRequests.has requestId = true ∧ o.node.pendingRequests.has requestId = false ∧
    o.granted = none

instance instDecidableResolvesNull (requestId : ℕ) (o : Outcome N) :
    Decidable (n.ResolvesNull requestId o) :=
  inferInstanceAs (Decidable (_ ∧ _))

/-- The grants cancel in the test of `LOCK_DENY`: what is compared with the majority is the number
of peers that have not denied, without the requester. -/
theorem resolvesNull_onLockDeny_iff {alive requestId : ℕ} {pending : PendingRequest N}
    (hpending : n.pendingRequests.get requestId = some pending) (lockId : LockId) (fromNodeId : N)
    (peerSeen : ℕ) :
    n.ResolvesNull requestId (n.onLockDeny alive requestId lockId fromNodeId peerSeen) ↔
      alive < (insert fromNodeId pending.denies).card + 1 + majority alive := by
  have hhas : n.pendingRequests.has requestId = true := by simp [has, hpending]
  simp only [ResolvesNull, hhas, onLockDeny, hpending, true_and]
  split_ifs with _
  · refine iff_of_true ⟨?_, rfl⟩ (by omega)
    simp [dropRequest, has]
  · refine iff_of_false (fun h => ?_) (by omega)
    simp [recordAnswer, has] at h

/-- **When a request is given up for a reason.** A denial resolves a pending request with `null`
only if the peers that have not denied are no majority any more, except when they are exactly a
majority: then the request is given up although the missing grants could still come. -/
theorem abandonment_justified_iff {alive requestId : ℕ} {publisherNodeId : N}
    {pending : PendingRequest N} (hpublisher : publisherNodeId ≠ n.localNodeId)
    (hpending : n.pendingRequests.get requestId = some pending) (now : ℕ) (lockId : LockId)
    (fromNodeId : N) (reason : DenyReason) (seenToken : ℕ) :
    (n.ResolvesNull requestId (n.onMessage alive publisherNodeId now
        (.lockDeny requestId lockId fromNodeId reason seenToken)) →
      alive < (insert fromNodeId pending.denies).card + majority alive) ↔
    alive ≠ (insert fromNodeId pending.denies).card + majority alive := by
  rw [onMessage, if_neg hpublisher, resolvesNull_onLockDeny_iff hpending]
  omega

def requester : QuorumDistributedLock ℕ := ((create 0 30000).tryAcquire 3 "job" none 7 0).node

theorem abandonment_justified_two :
    requester.ResolvesNull 7 (requester.onMessage 2 1 0 (.lockDeny 7 "job" 1 .locallyHeld 0)) ∧
      2 < (insert 1 (∅ : Finset ℕ)).card + majority 2 := by
  have hnull : requester.ResolvesNull 7
      (requester.onMessage 2 1 0 (.lockDeny 7 "job" 1 .locallyHeld 0)) := by decide
  exact ⟨hnull, (abandonment_justified_iff (by decide) (by rfl) 0 "job" 1 .locallyHeld 0).mpr
    (by decide) hnull⟩

/-- In a cluster of three the first denial resolves the request with `null`, although the two other
nodes are a majority, and the grant of the third would have decided it. -/
theorem abandoned_before_majority_lost :
    requester.ResolvesNull 7 (requester.onMessage 3 1 0 (.lockDeny 7 "job" 1 .locallyHeld 0)) ∧
      ¬ 3 < (insert 1 (∅ : Finset ℕ)).card + majority 3 ∧
      (requester.onMessage 3 2 0 (.lockGrant 7 "job" 2 0)).granted.isSome = true := by decide

end QuorumDistributedLock

end DistributedCore.Locks
