import DistributedCore.Locks.QuorumLock

/-!
# A cluster of majority-acknowledged locks

All nodes of a fixed membership run a `QuorumDistributedLock` on one topic. A publication puts
one message in flight to every other member, and any message in flight can arrive next, so the
messages are delivered in any order and with any delay. Calls, acknowledgement timeouts, the
settling of a publication and the two kinds of lease timers can happen at any time.

Source: `src/cluster/locks/QuorumDistributedLock.ts`, `src/gateway/pubsub/PubSubManager.ts`,
`publish` and `deliverToCluster`.
-/

namespace DistributedCore.Locks

open Function OrderedMap Option

variable {N : Type} [DecidableEq N] {y : N} (now : ℕ)

/-- The nodes of the cluster, which do not change. -/
structure Membership (N : Type) where
  nodes : List N
  nodup : nodes.Nodup

def Membership.size (M : Membership N) : ℕ := M.nodes.length

structure Envelope (N : Type) where
  dest : N
  publisher : N
  payload : QuorumMsg N
  deriving DecidableEq

/-- The nodes, the messages on their way and the handles that were issued. -/
structure Cluster (N : Type) where
  node : N → QuorumDistributedLock N
  inFlight : List (Envelope N)
  /-- The next unused request id. -/
  nextRequest : ℕ
  /-- The calls of `_grantLocal` so far, newest first. -/
  issued : List (Grant N)

/-- The calls, the timers and the deliveries. -/
inductive Event (N : Type)
  | tryAcquire (node : N) (lockId : LockId) (ttlMs : Option ℕ) (now : ℕ)
  | release (node : N) (lockId : LockId)
  /-- The message at position `index` of the messages in flight arrives. -/
  | deliver (index : ℕ) (now : ℕ)
  | ackTimeout (node : N) (requestId : ℕ) (now : ℕ)
  /-- The publication of a `LOCK_REQUEST` resolves. -/
  | publishResolved (node : N) (requestId : ℕ) (now : ℕ)
  /-- The publication of a `LOCK_REQUEST` rejects. -/
  | publishRejected (node : N) (requestId : ℕ)
  /-- The lease of a holder ends. -/
  | ttlExpired (node : N) (lockId : LockId)
  /-- The timer of an acknowledgement fires. -/
  | remoteExpired (node : N) (lockId : LockId)

def broadcast (M : Membership N) (publisher : N) (msg : QuorumMsg N) : List (Envelope N) :=
  (M.nodes.filter (· ≠ publisher)).map fun dest => ⟨dest, publisher, msg⟩

namespace Cluster

def initial (defaultTtlMs : ℕ) : Cluster N where
  node x := .create x defaultTtlMs
  inFlight := []
  nextRequest := 0
  issued := []

variable (c : Cluster N)

def apply (M : Membership N) (x : N) (o : Outcome N) : Cluster N :=
  { c with
    node := update c.node x o.node
    inFlight := c.inFlight ++ o.published.flatMap (broadcast M x)
    issued := o.granted.toList ++ c.issued }

def consume (i : ℕ) : Cluster N := { c with inFlight := c.inFlight.eraseIdx i }

def vote (x : N) (l : LockId) : Option N := (c.node x).remoteLocks.get l

def held (x : N) (l : LockId) : Option (LockHandle N) := (c.node x).heldLocks.get l

def pending (x : N) (r : ℕ) : Option (PendingRequest N) := (c.node x).pendingRequests.get r

def seen (x : N) (l : LockId) : ℕ := (c.node x).getCurrentFencingToken l

end Cluster

/-- One event of the cluster; `none` if it cannot happen in this state. A timer can only fire
while it is armed. -/
def step (M : Membership N) (c : Cluster N) : Event N → Option (Cluster N)
  | .tryAcquire x l ttlMs now =>
    if x ∈ M.nodes then
      some { c.apply M x ((c.node x).tryAcquire M.size l ttlMs c.nextRequest now) with
        nextRequest := c.nextRequest + 1 }
    else none
  | .release x l =>
    if x ∈ M.nodes then some (c.apply M x ((c.node x).release l)) else none
  | .deliver i now =>
    match c.inFlight[i]? with
    | some env =>
      some ((c.consume i).apply M env.dest
        ((c.node env.dest).onMessage M.size env.publisher now env.payload))
    | none => none
  | .ackTimeout x r now =>
    if (c.node x).pendingRequests.has r then
      some (c.apply M x ((c.node x).ackTimeout M.size r now))
    else none
  | .publishResolved x r now =>
    if (c.node x).pendingRequests.has r then
      some (c.apply M x ((c.node x).tryResolveEarly M.size r now))
    else none
  | .publishRejected x r =>
    if (c.node x).pendingRequests.has r then
      some (c.apply M x ((c.node x).publishRejected r))
    else none
  | .ttlExpired x l =>
    if (c.node x).ttlTimers.has l then some (c.apply M x ((c.node x).onTtlExpired l)) else none
  | .remoteExpired x l =>
    if (c.node x).remoteTimers.has l then some (c.apply M x ((c.node x).onRemoteTimer l))
    else none

/-! ### A sample run -/

def pairMembership : Membership String := ⟨["n1", "n2"], by decide⟩

def handOver : List (Event String) :=
  [.tryAcquire "n1" "job" none 0, .deliver 0 1, .deliver 0 2, .release "n1" "job",
    .deliver 0 3, .tryAcquire "n2" "job" none 4, .deliver 0 5, .deliver 0 6]

/-! ### Conditions on the steps -/

/-- The node has no open request for the lock. -/
def NoOwnRequest (c : Cluster N) (x : N) (l : LockId) : Prop :=
  ∀ q ∈ (c.node x).pendingRequests.entries, q.2.lockId ≠ l

def QuorumMsg.IsGrantOf (r : ℕ) (z : N) : QuorumMsg N → Prop
  | .lockGrant r' _ z' _ => r' = r ∧ z' = z
  | _ => False

instance (r : ℕ) (z : N) (m : QuorumMsg N) : Decidable (m.IsGrantOf r z) := by
  unfold QuorumMsg.IsGrantOf
  split <;> infer_instance

/-- The vote of node `z` for the lock `l` counts for no open request: if it was given to `y`,
no open request of `y` for `l` has counted a grant of `z` or still has one in flight. -/
def VoteUncounted (c : Cluster N) (z : N) (l : LockId) : Prop :=
  ∀ y ∈ c.vote z l, ∀ q ∈ (c.node y).pendingRequests.entries, q.2.lockId = l →
    z ∉ q.2.grants ∧ ∀ env ∈ c.inFlight, ¬ env.payload.IsGrantOf q.1 z

instance (c : Cluster N) (x : N) (l : LockId) : Decidable (NoOwnRequest c x l) :=
  inferInstanceAs (Decidable (∀ q ∈ (c.node x).pendingRequests.entries, q.2.lockId ≠ l))

instance (c : Cluster N) (z : N) (l : LockId) : Decidable (VoteUncounted c z l) :=
  inferInstanceAs (Decidable (∀ y ∈ _, ∀ q ∈ _, _ = _ → _ ∉ _ ∧ ∀ env ∈ _, ¬ _))

/-- Further conditions, beside `NoOwnRequest` for a vote and `VoteUncounted` for a dropped one,
on the state in which a node opens a request (`request`) or drops a vote (`drop`, whose last
argument is the token that arrives with the message). -/
structure Discipline (N : Type) where
  request : Cluster N → N → LockId → Prop
  drop : Cluster N → N → LockId → ℕ → Prop
  decidableRequest : ∀ c x l, Decidable (request c x l)
  decidableDrop : ∀ c z l t, Decidable (drop c z l t)

/-- The condition on the state in which a message arrives: a node that is asked for its vote
has no open request of its own for that lock, and a vote is dropped only while it counts for
no open request. -/
def DeliverOk (D : Discipline N) (c : Cluster N) (env : Envelope N) : Prop :=
  match env.payload with
  | .lockRequest l _ _ _ => NoOwnRequest c env.dest l
  | .lockAbandon l _ => VoteUncounted c env.dest l ∧ D.drop c env.dest l 0
  | .lockRelease l _ t => VoteUncounted c env.dest l ∧ D.drop c env.dest l t
  | _ => True

/-- The conditions under which a step keeps the votes together. -/
def StepOk (D : Discipline N) (c : Cluster N) : Event N → Prop
  | .tryAcquire x l _ _ => D.request c x l
  | .deliver i _ => ∀ env ∈ c.inFlight[i]?, DeliverOk D c env
  | .remoteExpired z l => VoteUncounted c z l ∧ D.drop c z l 0
  | _ => True

instance (D : Discipline N) (c : Cluster N) (z : N) (l : LockId) (t : ℕ) :
    Decidable (VoteUncounted c z l ∧ D.drop c z l t) :=
  haveI := D.decidableDrop c z l t
  inferInstanceAs (Decidable (VoteUncounted c z l ∧ D.drop c z l t))

instance (D : Discipline N) (c : Cluster N) (env : Envelope N) : Decidable (DeliverOk D c env) :=
  match env with
  | ⟨_, _, .lockRequest ..⟩ => inferInstanceAs (Decidable (NoOwnRequest ..))
  | ⟨_, _, .lockGrant ..⟩ | ⟨_, _, .lockDeny ..⟩ => .isTrue trivial
  | ⟨_, _, .lockAbandon ..⟩ | ⟨_, _, .lockRelease ..⟩ =>
    inferInstanceAs (Decidable (VoteUncounted .. ∧ D.drop ..))

instance (D : Discipline N) (c : Cluster N) : (e : Event N) → Decidable (StepOk D c e)
  | .tryAcquire x l _ _ => D.decidableRequest c x l
  | .deliver i _ => inferInstanceAs (Decidable (∀ env ∈ c.inFlight[i]?, DeliverOk D c env))
  | .remoteExpired z l => inferInstanceAs (Decidable (VoteUncounted c z l ∧ D.drop c z l 0))
  | .release .. | .ackTimeout .. | .publishResolved .. | .publishRejected .. | .ttlExpired .. =>
    .isTrue trivial

/-! ### The elementary changes of the cluster -/

def QuorumMsg.IsBallot : QuorumMsg N → Prop
  | .lockRequest .. => True
  | .lockGrant .. => True
  | _ => False

def NoNewBallot (c c' : Cluster N) : Prop :=
  ∀ env ∈ c'.inFlight, env.payload.IsBallot → env ∈ c.inFlight

/-- Names stay, and the tokens that were seen and the request ids that were used are kept. -/
structure Grows (c c' : Cluster N) : Prop where
  localNodeId : ∀ x, (c'.node x).localNodeId = (c.node x).localNodeId
  seen : ∀ x l, c.seen x l ≤ c'.seen x l
  next : c.nextRequest ≤ c'.nextRequest

/-- What a step does to the votes and the handles. -/
inductive Change (M : Membership N) (D : Discipline N) (c c' : Cluster N) : Prop
  /-- No vote changes and no handle is created. -/
  | quiet (nodes : ∀ x, (c.node x).Quiet (c'.node x)) (ballots : NoNewBallot c c')
      (issued : c'.issued = c.issued) (next : c.nextRequest ≤ c'.nextRequest)
  /-- Node `x`, which has not voted for the lock, opens a request. -/
  | request (x : N) (p : PendingRequest N) (grows : Grows c c') (mem : x ∈ M.nodes)
      (ok : D.request c x p.lockId) (unvoted : c.vote x p.lockId = none) (grants : p.grants = {x})
      (token : p.maxSeenToken = c.seen x p.lockId) (vote : c'.vote = c.vote)
      (held : c'.held = c.held) (pending : ∀ {y r q}, c'.pending y r = some q →
        (y = x ∧ r = c.nextRequest ∧ q = p) ∨ c.pending y r = some q)
      (ballots : ∀ env ∈ c'.inFlight, env.payload.IsBallot → env ∈ c.inFlight ∨
        env.dest ∈ M.nodes ∧ ∃ ttl, env.payload = .lockRequest p.lockId c.nextRequest x ttl)
      (issued : c'.issued = c.issued) (next : c.nextRequest < c'.nextRequest)
  /-- Node `env.dest` votes for the node `y` that asks for `l`. -/
  | castVote (env : Envelope N) (l : LockId) (r : ℕ) (y : N) (ttl : ℕ) (grows : Grows c c')
      (mem : env ∈ c.inFlight) (payload : env.payload = .lockRequest l r y ttl)
      (ok : NoOwnRequest c env.dest l) (unheld : c.held env.dest l = none)
      (unvoted : c.vote env.dest l = none)
      (vote : ∀ z l', c'.vote z l' = if z = env.dest ∧ l' = l then some y else c.vote z l')
      (held : c'.held = c.held) (pending : c'.pending = c.pending)
      (ballots : ∀ env' ∈ c'.inFlight, env'.payload.IsBallot → env' ∈ c.inFlight ∨
        env'.payload = .lockGrant r l env.dest (c.seen env.dest l))
      (issued : c'.issued = c.issued)
  /-- Node `env.dest` counts a grant of its open request `r`. -/
  | count (env : Envelope N) (r : ℕ) (l : LockId) (z : N) (t : ℕ) (p : PendingRequest N)
      (grows : Grows c c') (mem : env ∈ c.inFlight) (payload : env.payload = .lockGrant r l z t)
      (opened : c.pending env.dest r = some p) (vote : c'.vote = c.vote) (held : c'.held = c.held)
      (pending : ∀ {x r' q}, c'.pending x r' = some q → (x = env.dest ∧ r' = r ∧
          q = { p with grants := insert z p.grants, maxSeenToken := max p.maxSeenToken t }) ∨
        c.pending x r' = some q)
      (ballots : NoNewBallot c c') (issued : c'.issued = c.issued)
  /-- A majority has granted the open request `r` of node `x`, which creates the handle of `g`. -/
  | grant (x : N) (r : ℕ) (p : PendingRequest N) (g : Grant N) (grows : Grows c c')
      (opened : c.pending x r = some p) (majority : majority M.size ≤ p.grants.card)
      (lockId : g.handle.lockId = p.lockId) (nodeId : g.handle.nodeId = (c.node x).localNodeId)
      (token : g.handle.fencingToken = p.maxSeenToken + 1) (voters : g.voters = p.grants)
      (vote : c'.vote = c.vote) (held : ∀ {y l h}, c'.held y l = some h →
        (y = x ∧ l = p.lockId) ∨ c.held y l = some h)
      (pending : ∀ {y r' q}, c'.pending y r' = some q →
        ¬ (y = x ∧ r' = r) ∧ c.pending y r' = some q)
      (seen : g.handle.fencingToken ≤ c'.seen x p.lockId)
      (ballots : NoNewBallot c c') (issued : c'.issued = g :: c.issued)
  /-- Node `z` drops its vote for `l` and observes the token `t`. -/
  | dropVote (z : N) (l : LockId) (t : ℕ) (grows : Grows c c') (uncounted : VoteUncounted c z l)
      (ok : D.drop c z l t)
      (vote : ∀ w l', c'.vote w l' = if w = z ∧ l' = l then none else c.vote w l')
      (held : c'.held = c.held) (pending : c'.pending = c.pending) (seen : t ≤ c'.seen z l)
      (ballots : NoNewBallot c c') (issued : c'.issued = c.issued)

section Apply

variable {M : Membership N} {c : Cluster N} {x : N} {o : Outcome N}

omit [DecidableEq N] in
@[simp] theorem consume_node (i : ℕ) : (c.consume i).node = c.node := rfl

variable {env : Envelope N} {c₀ : Cluster N}

omit [DecidableEq N] in
theorem mem_inFlight_consume {i : ℕ} (h : env ∈ (c.consume i).inFlight) : env ∈ c.inFlight :=
  List.mem_of_mem_eraseIdx h

theorem mem_broadcast {msg : QuorumMsg N} : env ∈ broadcast M x msg ↔
      env.dest ∈ M.nodes ∧ env.dest ≠ x ∧ env.publisher = x ∧ env.payload = msg := by
  obtain ⟨d, q, m⟩ := env
  simp only [broadcast, List.mem_map, List.mem_filter, decide_eq_true_eq, Envelope.mk.injEq]
  constructor
  · rintro ⟨y, ⟨hy, hne⟩, rfl, rfl, rfl⟩
    exact ⟨hy, hne, rfl, rfl⟩
  · rintro ⟨hy, hne, rfl, rfl⟩
    exact ⟨d, ⟨hy, hne⟩, rfl, rfl, rfl⟩

theorem mem_inFlight_apply (h : env ∈ (c.apply M x o).inFlight) :
    env ∈ c.inFlight ∨ env.dest ∈ M.nodes ∧ env.payload ∈ o.published := by
  rcases List.mem_append.mp h with h | h
  · exact .inl h
  · obtain ⟨msg, hmsg, henv⟩ := List.mem_flatMap.mp h
    obtain ⟨hdest, -, -, hpayload⟩ := mem_broadcast.mp henv
    exact .inr ⟨hdest, hpayload ▸ hmsg⟩

theorem noNewBallot_apply (hsub : ∀ env ∈ c.inFlight, env ∈ c₀.inFlight)
    (hpub : ∀ msg ∈ o.published, ¬ msg.IsBallot) : NoNewBallot c₀ (c.apply M x o) := by
  intro env henv hballot
  rcases mem_inFlight_apply henv with h | ⟨-, h⟩
  · exact hsub env h
  · exact absurd hballot (hpub _ h)

theorem quiet_apply (hx : (c.node x).Quiet o.node) (y : N) :
    (c.node y).Quiet ((c.apply M x o).node y) := by
  by_cases hy : y = x
  · subst hy
    simpa [Cluster.apply] using hx
  · simpa [Cluster.apply, hy] using QuorumDistributedLock.Quiet.refl (c.node y)

theorem change_quiet {D : Discipline N} (hnode : c.node = c₀.node) (hissued : c.issued = c₀.issued)
    (hnext : c.nextRequest = c₀.nextRequest) (hsub : ∀ env ∈ c.inFlight, env ∈ c₀.inFlight)
    (hx : (c.node x).Quiet o.node) (hpub : ∀ msg ∈ o.published, ¬ msg.IsBallot)
    (hgranted : o.granted = none) : Change M D c₀ (c.apply M x o) := by
  refine .quiet (fun y => hnode ▸ quiet_apply hx y) (noNewBallot_apply hsub hpub) ?_ hnext.symm.le
  simp [Cluster.apply, hgranted, hissued]

end Apply

/-! ### The views after a change of one node -/

section Update

variable {c c' : Cluster N} {x : N} {n : QuorumDistributedLock N}
  (h : c'.node = update c.node x n) {V : Type} (f : QuorumDistributedLock N → V)

include h

theorem view_of_update (y : N) : f (c'.node y) = if y = x then f n else f (c.node y) := by
  rw [h, update_apply, apply_ite f]

theorem view_eq_of_update (hn : f n = f (c.node x)) (y : N) : f (c'.node y) = f (c.node y) := by
  rw [view_of_update h f]
  split_ifs with hy
  · rw [hn, hy]
  · rfl

theorem grows_of_update (hlocal : n.localNodeId = (c.node x).localNodeId)
    (hseen : ∀ l, (c.node x).getCurrentFencingToken l ≤ n.getCurrentFencingToken l)
    (hnext : c.nextRequest ≤ c'.nextRequest) : Grows c c' := by
  refine ⟨view_eq_of_update h _ hlocal, fun y l => ?_, hnext⟩
  rw [Cluster.seen, Cluster.seen, view_of_update h (·.getCurrentFencingToken l)]
  split_ifs with hy
  · exact hy ▸ hseen l
  · exact le_rfl

theorem vote_eq_of_update (hn : n.remoteLocks = (c.node x).remoteLocks) : c'.vote = c.vote :=
  funext₂ fun y l => view_eq_of_update h (·.remoteLocks.get l) (by rw [hn]) y

theorem held_eq_of_update (hn : n.heldLocks = (c.node x).heldLocks) : c'.held = c.held :=
  funext₂ fun y l => view_eq_of_update h (·.heldLocks.get l) (by rw [hn]) y

theorem pending_eq_of_update (hn : n.pendingRequests = (c.node x).pendingRequests) :
    c'.pending = c.pending :=
  funext₂ fun y r => view_eq_of_update h (·.pendingRequests.get r) (by rw [hn]) y

variable {l : LockId}

theorem vote_of_update {v : Option N}
    (hn : ∀ l', n.remoteLocks.get l' = if l' = l then v else (c.node x).remoteLocks.get l') (z : N)
    (l' : LockId) : c'.vote z l' = if z = x ∧ l' = l then v else c.vote z l' := by
  rw [Cluster.vote, view_of_update h (·.remoteLocks.get l')]
  by_cases hz : z = x
  · simp [hz, hn, Cluster.vote]
  · simp [hz, Cluster.vote]

variable {p q : PendingRequest N} {r r' : ℕ}

theorem pending_of_set (hn : n.pendingRequests = (c.node x).pendingRequests.set r p)
    (hq : c'.pending y r' = some q) :
    (y = x ∧ r' = r ∧ q = p) ∨ c.pending y r' = some q := by
  rw [Cluster.pending, view_of_update h (·.pendingRequests.get r'), hn, get_set] at hq
  split_ifs at hq with hy hr
  · exact .inl ⟨hy, hr, (some.inj hq).symm⟩
  · exact .inr (hy ▸ hq)
  · exact .inr hq

theorem held_of_set {k : LockHandle N}
    (hn : n.heldLocks = (c.node x).heldLocks.set l k) {l' : LockId} {k' : LockHandle N}
    (hk : c'.held y l' = some k') : (y = x ∧ l' = l) ∨ c.held y l' = some k' := by
  rw [Cluster.held, view_of_update h (·.heldLocks.get l'), hn, get_set] at hk
  split_ifs at hk with hy hl
  · exact .inl ⟨hy, hl⟩
  · exact .inr (hy ▸ hk)
  · exact .inr hk

theorem pending_of_delete (hn : n.pendingRequests = (c.node x).pendingRequests.delete r)
    (hq : c'.pending y r' = some q) :
    ¬ (y = x ∧ r' = r) ∧ c.pending y r' = some q := by
  rw [Cluster.pending, view_of_update h (·.pendingRequests.get r'), hn, get_delete] at hq
  split_ifs at hq with hy hr
  · exact ⟨fun h => hr h.2, hy ▸ hq⟩
  · exact ⟨fun h => hy h.1, hq⟩

end Update

open QuorumDistributedLock

variable {M : Membership N} {D : Discipline N} {c c' : Cluster N} {env : Envelope N} {t : ℕ} {z : N}

theorem change_grant {x : N} {c₀ : Cluster N}
    (hnode : update c₀.node x (c.node x) = c.node) (hp : c.pending x r = some p)
    (hmaj : majority M.size ≤ p.grants.card) (hissued : c₀.issued = c.issued)
    (hnext : c.nextRequest ≤ c₀.nextRequest) (hsub : ∀ env ∈ c₀.inFlight, env ∈ c.inFlight) :
    Change M D c (c₀.apply M x (((c.node x).dropRequest r).grantLocal r p now)) := by
  have hupdate : (c₀.apply M x (((c.node x).dropRequest r).grantLocal r p now)).node =
      update c.node x (((c.node x).dropRequest r).grantLocal r p now).node := by
    rw [← hnode]
    simp [Cluster.apply]
  have hseen := getCurrentFencingToken_grantLocal ((c.node x).dropRequest r) r p now
  refine .grant x r p _ (grows_of_update hupdate (observeToken_localNodeId ..) (fun l => ?_) hnext)
    hp hmaj rfl rfl rfl rfl (vote_eq_of_update hupdate (observeToken_remoteLocks ..))
    (held_of_set hupdate (observeToken_heldLocks ..))
    (pending_of_delete hupdate (observeToken_pendingRequests ..)) ?_ (noNewBallot_apply hsub ?_)
    (congrArg _ hissued)
  · rw [hseen]
    split_ifs
    · exact le_max_left ..
    · exact le_rfl
  · rw [Cluster.seen, view_of_update hupdate (·.getCurrentFencingToken p.lockId), if_pos rfl, hseen,
      if_pos rfl]
    exact le_max_right ..
  · simp [grantLocal]

/-- A request with a majority is granted; otherwise `o` is done. -/
theorem changes_resolve {x : N} {o : Outcome N}
    (hp : c.pending x r = some p) (hnode : (c.node x).Quiet o.node)
    (hpub : ∀ msg ∈ o.published, ¬ msg.IsBallot) (hgranted : o.granted = none) :
    Change M D c (c.apply M x (if p.grants.card ≥ majority M.size then
      ((c.node x).dropRequest r).grantLocal r p now else o)) := by
  split_ifs with hmaj
  · exact change_grant now (by simp) hp hmaj rfl le_rfl fun _ h => h
  · exact change_quiet rfl rfl rfl (fun _ h => h) hnode hpub hgranted

theorem changes_tryResolveEarly (x : N) (r : ℕ) (now : ℕ) :
    Change M D c (c.apply M x ((c.node x).tryResolveEarly M.size r now)) := by
  unfold tryResolveEarly
  cases hp : (c.node x).pendingRequests.get r with
  | none => exact change_quiet rfl rfl rfl (fun _ h => h) (.refl _) (by simp) rfl
  | some => exact changes_resolve now hp (.refl _) (by simp) rfl

theorem changes_ackTimeout (x : N) (r : ℕ) (now : ℕ) :
    Change M D c (c.apply M x ((c.node x).ackTimeout M.size r now)) := by
  unfold ackTimeout
  cases hp : (c.node x).pendingRequests.get r with
  | none => exact change_quiet rfl rfl rfl (fun _ h => h) (.refl _) (by simp) rfl
  | some =>
    exact changes_resolve now hp (quiet_dropRequest _ r) (by simp [QuorumMsg.IsBallot]) rfl

theorem change_request {x : N} (hnode : c'.node = update c.node x
      { c.node x with pendingRequests := (c.node x).pendingRequests.set c.nextRequest p })
    (hx : x ∈ M.nodes) (hok : D.request c x p.lockId) (hunvoted : c.vote x p.lockId = none)
    (hgrants : p.grants = {x}) (htoken : p.maxSeenToken = c.seen x p.lockId)
    (hballots : ∀ env ∈ c'.inFlight, env.payload.IsBallot → env ∈ c.inFlight ∨
      env.dest ∈ M.nodes ∧ ∃ ttl, env.payload = .lockRequest p.lockId c.nextRequest x ttl)
    (hissued : c'.issued = c.issued) (hnext : c'.nextRequest = c.nextRequest + 1) :
    Change M D c c' :=
  .request x p (grows_of_update hnode rfl (fun _ => le_rfl) (by omega)) hx hok hunvoted hgrants
    htoken (vote_eq_of_update hnode rfl) (held_eq_of_update hnode rfl) (pending_of_set hnode rfl)
    hballots hissued (by omega)

theorem changes_tryAcquire (hlocal : ∀ x, (c.node x).localNodeId = x) {x : N}
    (hx : x ∈ M.nodes) (l : LockId) (ttlMs : Option ℕ) (now : ℕ) (hok : D.request c x l) :
    Relation.ReflTransGen (Change M D) c
      { c.apply M x ((c.node x).tryAcquire M.size l ttlMs c.nextRequest now) with
        nextRequest := c.nextRequest + 1 } := by
  have hskip : Change M D c { c.apply M x { node := c.node x } with
      nextRequest := c.nextRequest + 1 } :=
    .quiet (fun y => quiet_apply (M := M) (.refl _) y)
      (noNewBallot_apply (M := M) (o := { node := c.node x }) (fun _ h => h) (by simp)) rfl
      (Nat.le_succ _)
  by_cases hheld : (c.node x).heldLocks.has l
  · simpa [tryAcquire, hheld] using .single hskip
  by_cases hvoted : (c.node x).remoteLocks.has l
  · simpa [tryAcquire, hvoted] using .single hskip
  rw [Bool.not_eq_true] at hheld hvoted
  have hunvoted : c.vote x l = none := (has_eq_false_iff _ _).mp hvoted
  let p : PendingRequest N :=
    { grants := {(c.node x).localNodeId}
      denies := ∅
      maxSeenToken := (c.node x).getCurrentFencingToken l
      lockId := l
      ttlMs := ttlMs.getD (c.node x).defaultTtlMs }
  let waiting : QuorumDistributedLock N :=
    { c.node x with pendingRequests := (c.node x).pendingRequests.set c.nextRequest p }
  have hgrants : p.grants = {x} := by simp [p, hlocal x]
  by_cases hone : M.size = 1
  · -- a single node decides its request in the same call
    let mid : Cluster N := { c.apply M x { node := waiting } with nextRequest := c.nextRequest + 1 }
    have hopen : Change M D c mid := by
      refine change_request rfl hx hok hunvoted hgrants rfl ?_ rfl rfl
      exact fun env henv hballot =>
        .inl (noNewBallot_apply (fun _ h => h) (by simp) env henv hballot)
    have hdecide := changes_tryResolveEarly (M := M) (D := D) (c := mid) x c.nextRequest now
    have hwait : mid.node x = waiting := by simp [mid, Cluster.apply]
    have heq : mid.apply M x (waiting.tryResolveEarly M.size c.nextRequest now) =
        { c.apply M x (waiting.tryResolveEarly M.size c.nextRequest now) with
          nextRequest := c.nextRequest + 1 } := by
      simp [mid, Cluster.apply]
    rw [hwait, heq] at hdecide
    have htry : (c.node x).tryAcquire M.size l ttlMs c.nextRequest now =
        waiting.tryResolveEarly M.size c.nextRequest now := by
      simp [tryAcquire, hheld, hvoted, hone, waiting, p]
    rw [htry]
    exact .trans (.single hopen) (.single hdecide)
  · refine .single (change_request ?_ hx hok hunvoted hgrants rfl ?_ ?_ rfl)
    · simp [Cluster.apply, tryAcquire, hheld, hvoted, hone, p]
    · intro env henv _
      rcases mem_inFlight_apply henv with h | ⟨hdest, hmsg⟩
      · exact .inl h
      · refine .inr ⟨hdest, ttlMs.getD (c.node x).defaultTtlMs, ?_⟩
        simpa [tryAcquire, hheld, hvoted, hone, hlocal x] using hmsg
    · simp [Cluster.apply, tryAcquire, hheld, hvoted, hone]

theorem changes_onLockRequest (hlocal : ∀ x, (c.node x).localNodeId = x) (i : ℕ)
    {ttl : ℕ} (henv : env ∈ c.inFlight)
    (hpayload : env.payload = .lockRequest l r y ttl) (hok : NoOwnRequest c env.dest l) :
    Change M D c ((c.consume i).apply M env.dest ((c.node env.dest).onLockRequest l r y ttl)) := by
  have hdeny (o : Outcome N) (hnode : o.node = c.node env.dest) (hgranted : o.granted = none)
      (hpub : ∀ msg ∈ o.published, ¬ msg.IsBallot) :
      Change M D c ((c.consume i).apply M env.dest o) :=
    change_quiet rfl rfl rfl (fun _ => mem_inFlight_consume) (hnode ▸ .refl _) hpub hgranted
  by_cases hheld : (c.node env.dest).heldLocks.has l
  · exact hdeny _ (by simp [onLockRequest, hheld]) (by simp [onLockRequest, hheld])
      (by simp [onLockRequest, hheld, QuorumMsg.IsBallot])
  by_cases hvoted : (c.node env.dest).remoteLocks.has l
  · exact hdeny _ (by simp [onLockRequest, hheld, hvoted]) (by simp [onLockRequest, hheld, hvoted])
      (by simp [onLockRequest, hheld, hvoted, QuorumMsg.IsBallot])
  rw [Bool.not_eq_true] at hheld hvoted
  have hnode : ((c.consume i).apply M env.dest
        ((c.node env.dest).onLockRequest l r y ttl)).node = update c.node env.dest
      { c.node env.dest with
        remoteLocks := (c.node env.dest).remoteLocks.set l y
        remoteTimers := (c.node env.dest).remoteTimers.set l ttl } := by
    simp [Cluster.apply, consume_node, onLockRequest, hheld, hvoted]
  refine .castVote env l r y ttl (grows_of_update hnode rfl (fun _ => le_rfl) le_rfl) henv hpayload
    hok ((has_eq_false_iff _ _).mp hheld) ((has_eq_false_iff _ _).mp hvoted)
    (vote_of_update hnode fun l' => get_set ..) (held_eq_of_update hnode rfl)
    (pending_eq_of_update hnode rfl) ?_ ?_
  · intro env' henv' _
    rcases mem_inFlight_apply henv' with h | ⟨-, hmsg⟩
    · exact .inl (mem_inFlight_consume h)
    · refine .inr ?_
      simpa [onLockRequest, hheld, hvoted, hlocal, Cluster.seen] using hmsg
  · simp [Cluster.apply, Cluster.consume, onLockRequest, hheld, hvoted]

theorem changes_onLockGrant (i : ℕ)
    (now : ℕ) (henv : env ∈ c.inFlight) (hpayload : env.payload = .lockGrant r l z t) :
    Relation.ReflTransGen (Change M D) c ((c.consume i).apply M env.dest
      ((c.node env.dest).onLockGrant M.size r l z t now)) := by
  cases hp : (c.node env.dest).pendingRequests.get r with
  | none =>
    refine .single (change_quiet rfl rfl rfl (fun _ => mem_inFlight_consume) ?_ ?_ ?_)
    · simpa [onLockGrant, hp] using Quiet.refl (c.node env.dest)
    · simp [onLockGrant, hp]
    · simp [onLockGrant, hp]
  | some p =>
    let p' : PendingRequest N :=
      { p with grants := insert z p.grants, maxSeenToken := max p.maxSeenToken t }
    let counted := (c.node env.dest).recordAnswer r p' l t
    let mid := (c.consume i).apply M env.dest { node := counted }
    have hcount : Change M D c mid := by
      have hnode : mid.node = update c.node env.dest counted := rfl
      have hquiet := quiet_observeToken { c.node env.dest with
        pendingRequests := (c.node env.dest).pendingRequests.set r p' } l t
      exact .count env r l z t p (grows_of_update hnode hquiet.localNodeId hquiet.seen le_rfl) henv
        hpayload hp (vote_eq_of_update hnode hquiet.vote)
        (held_eq_of_update hnode (observeToken_heldLocks ..))
        (pending_of_set hnode (observeToken_pendingRequests ..))
        (noNewBallot_apply (fun _ => mem_inFlight_consume) (by simp)) rfl
    by_cases hmaj : p'.grants.card ≥ majority M.size
    · -- the grant that completes the majority also creates the handle
      have hmid : mid.node env.dest = counted := by simp [mid, Cluster.apply]
      have hp' : mid.pending env.dest r = some p' := by
        rw [Cluster.pending, hmid]
        simp [counted, recordAnswer]
      have hgrant : Change M D mid ((c.consume i).apply M env.dest
          ((counted.dropRequest r).grantLocal r p' now)) := by
        rw [← hmid]
        refine change_grant now ?_ hp' hmaj rfl le_rfl fun env' h => ?_
        · simp [mid, Cluster.apply]
        · simpa [mid, Cluster.apply] using h
      have ho : (c.node env.dest).onLockGrant M.size r l z t now =
          (counted.dropRequest r).grantLocal r p' now := by
        simp only [onLockGrant, hp]
        exact if_pos hmaj
      rw [ho]
      exact .trans (.single hcount) (.single hgrant)
    · have ho : (c.node env.dest).onLockGrant M.size r l z t now = { node := counted } := by
        simp only [onLockGrant, hp]
        exact if_neg hmaj
      rw [ho]
      exact .single hcount

theorem changes_onLockDeny (i : ℕ) (x : N) (r : ℕ) (l : LockId) (z : N) (t : ℕ) :
    Change M D c ((c.consume i).apply M x ((c.node x).onLockDeny M.size r l z t)) := by
  cases hp : (c.node x).pendingRequests.get r with
  | none =>
    refine change_quiet rfl rfl rfl (fun _ => mem_inFlight_consume) ?_ ?_ ?_
    · simpa [onLockDeny, hp] using Quiet.refl (c.node x)
    · simp [onLockDeny, hp]
    · simp [onLockDeny, hp]
  | some p =>
    let p' : PendingRequest N :=
      { p with denies := insert z p.denies, maxSeenToken := max p.maxSeenToken t }
    have hquiet : (c.node x).Quiet ((c.node x).recordAnswer r p' l t) :=
      quiet_recordAnswer _ l t hp rfl rfl (le_max_left _ _)
    refine change_quiet rfl rfl rfl (fun _ => mem_inFlight_consume) ?_ ?_ ?_
    · simp only [onLockDeny, hp]
      split
      · exact hquiet.trans (quiet_dropRequest _ r)
      · exact hquiet
    · simp only [onLockDeny, hp]
      split <;> simp [QuorumMsg.IsBallot]
    · simp only [onLockDeny, hp]
      split <;> rfl

theorem change_giveUp (x : N) (l : LockId) : Change M D c (c.apply M x
      (giveUp { c.node x with ttlTimers := (c.node x).ttlTimers.delete l } l)) := by
  refine change_quiet rfl rfl rfl (fun _ h => h)
    ((quiet_clearTtlTimer _ l).trans (quiet_giveUp _ l)) ?_ ?_
  · unfold giveUp
    split <;> simp [QuorumMsg.IsBallot]
  · unfold giveUp
    split <;> rfl

theorem change_dropVote (i : Option ℕ) (hun : VoteUncounted c z l) (hok : D.drop c z l t) :
    Change M D c ((i.elim c c.consume).apply M z
      { node := ((c.node z).dropVote l).observeToken l t }) := by
  have hnode : ((i.elim c c.consume).apply M z
        { node := ((c.node z).dropVote l).observeToken l t }).node =
      update c.node z (((c.node z).dropVote l).observeToken l t) := by
    cases i <;> rfl
  have hquiet := quiet_observeToken ((c.node z).dropVote l) l t
  refine .dropVote z l t (grows_of_update hnode hquiet.localNodeId hquiet.seen ?_) hun hok
    (vote_of_update hnode fun l' => ?_) (held_eq_of_update hnode (observeToken_heldLocks ..))
    (pending_eq_of_update hnode (observeToken_pendingRequests ..)) ?_
    (noNewBallot_apply ?_ (by simp)) ?_
  · cases i <;> exact le_rfl
  · rw [hquiet.vote]
    exact get_delete ..
  · rw [Cluster.seen, view_of_update hnode (·.getCurrentFencingToken l), if_pos rfl,
      getCurrentFencingToken_observeToken, if_pos rfl]
    exact le_max_right ..
  · cases i with
    | none => exact fun _ h => h
    | some => exact fun _ => mem_inFlight_consume
  · cases i <;> rfl

/-- **What an event can do.** Every event that meets the conditions of a discipline is a
sequence of elementary changes. -/
theorem step_changes (hlocal : ∀ x, (c.node x).localNodeId = x) {e : Event N}
    (hok : StepOk D c e) (hstep : step M c e = some c') :
    Relation.ReflTransGen (Change M D) c c' := by
  cases e with
  | tryAcquire x l ttlMs now =>
    obtain ⟨hx, ⟨⟩⟩ := ite_none_right_eq_some.mp hstep
    exact changes_tryAcquire hlocal hx l ttlMs now hok
  | release x l =>
    obtain ⟨-, ⟨⟩⟩ := ite_none_right_eq_some.mp hstep
    by_cases hheld : (c.node x).heldLocks.has l
    · simp only [release, hheld, ↓reduceIte]
      exact .single (change_giveUp x l)
    · simp only [release, hheld]
      exact .single (change_quiet rfl rfl rfl (fun _ h => h) (.refl _) (by simp) rfl)
  | ackTimeout x r now =>
    obtain ⟨-, ⟨⟩⟩ := ite_none_right_eq_some.mp hstep
    exact .single (changes_ackTimeout x r now)
  | publishResolved x r now =>
    obtain ⟨-, ⟨⟩⟩ := ite_none_right_eq_some.mp hstep
    exact .single (changes_tryResolveEarly x r now)
  | publishRejected x r =>
    obtain ⟨-, ⟨⟩⟩ := ite_none_right_eq_some.mp hstep
    exact .single (change_quiet rfl rfl rfl (fun _ h => h) (quiet_dropRequest _ r)
      (by simp [publishRejected]) rfl)
  | ttlExpired x l =>
    obtain ⟨-, ⟨⟩⟩ := ite_none_right_eq_some.mp hstep
    exact .single (change_giveUp x l)
  | remoteExpired =>
    obtain ⟨-, ⟨⟩⟩ := ite_none_right_eq_some.mp hstep
    simpa [onRemoteTimer] using Relation.ReflTransGen.single (change_dropVote none hok.1 hok.2)
  | deliver i now =>
    cases hi : c.inFlight[i]? with
    | none => simp [step, hi] at hstep
    | some env =>
      simp only [step, hi, some.injEq] at hstep
      subst hstep
      have henv : env ∈ c.inFlight := List.mem_of_getElem? hi
      by_cases hown : env.publisher = (c.node env.dest).localNodeId
      · refine .single (change_quiet rfl rfl rfl (fun _ => mem_inFlight_consume) ?_ ?_ ?_)
        · simpa [onMessage, hown] using Quiet.refl (c.node env.dest)
        · simp [onMessage, hown]
        · simp [onMessage, hown]
      obtain ⟨z, q, msg⟩ := env
      simp only [onMessage, hown, ↓reduceIte]
      have hdeliver : DeliverOk D c ⟨z, q, msg⟩ := hok _ hi
      cases msg with
      | lockRequest => exact .single (changes_onLockRequest hlocal i henv rfl hdeliver)
      | lockGrant => exact changes_onLockGrant i now henv rfl
      | lockDeny r l z' _ t => exact .single (changes_onLockDeny i z r l z' t)
      | lockAbandon =>
        simpa using Relation.ReflTransGen.single (change_dropVote (some i) hdeliver.1 hdeliver.2)
      | lockRelease => exact .single (change_dropVote (some i) hdeliver.1 hdeliver.2)

end DistributedCore.Locks
