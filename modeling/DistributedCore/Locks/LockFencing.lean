import DistributedCore.Locks.LockSystem

/-!
# Fencing tokens of locks on one in-memory registry

The fencing tokens of a lock are counted by a sidecar entity `__fence__:<lockId>`. A token is
taken when `tryAcquire` has won the entity of the lock, and when `extend` is called; the call
returns it later. For the locks that share an `InMemoryEntityRegistry` this file follows the
sidecars and the tokens: a step takes one token, returns one token, drops one, or does none of
these.

Source: `src/cluster/locks/DistributedLock.ts`, `src/cluster/entity/InMemoryEntityRegistry.ts`.
-/

namespace DistributedCore.Locks

open Entity DistributedLock Function LockSystem List Option

variable {I N S G : Type}

/-! ### Sidecars -/

theorem isFence_fenceEntityId (lockId : LockId) : isFence (fenceEntityId lockId) = true := by
  simp [isFence, beginsWith, fenceEntityId]

theorem ne_fenceEntityId {e : EntityId} (h : isFence e = false) (lockId : LockId) :
    fenceEntityId lockId ≠ e := by
  rintro rfl
  rw [isFence_fenceEntityId] at h
  cases h

theorem fenceEntityId_inj {l l' : LockId} : fenceEntityId l = fenceEntityId l' ↔ l = l' :=
  String.append_right_inj fenceStart

/-- The record of a sidecar that has counted `n` tokens: there is none yet, or its version and the
token it stores are both `n`. -/
inductive Sidecar : Option (EntityRecord N (LockValue N)) → ℕ → Prop
  | absent : Sidecar none 0
  | counting {record : EntityRecord N (LockValue N)} {n : ℕ} (version : record.version = n)
      (stored : record.metadata.get "fencingToken" = some (.token n)) : Sidecar (some record) n

variable {A : LockRegistry N S G} {n : ℕ} {r : S}

theorem Sidecar.getCurrentFencingToken_eq {l : LockId}
    (h : Sidecar (A.getEntity r (fenceEntityId l)) n) : getCurrentFencingToken A r l = n := by
  rw [getCurrentFencingToken]
  cases hget : A.getEntity r (fenceEntityId l) with
  | none =>
    rw [hget] at h
    cases h
    rfl
  | some =>
    rw [hget] at h
    cases h with
    | counting _ stored => simp [storedToken, stored]

theorem Sidecar.bump {fence : Option (EntityRecord N (LockValue N))}
    (h : Sidecar fence n) (x : N) (l : LockId) (now : ℕ) :
    Sidecar ((fenceUpdate x l fence.isSome (n + 1) now).apply fence).1 (n + 1) := by
  cases h with
  | absent => exact .counting rfl (by simp [EntityUpdate.newRecord, fenceUpdate])
  | @counting record n version stored =>
    have hnewer : record.version < (fenceUpdate x l true (n + 1) now).version := by
      rw [version, fenceUpdate]
      push_cast
      omega
    simp only [isSome_some, EntityUpdate.apply, fenceUpdate, if_true] at hnewer ⊢
    rw [if_pos hnewer]
    exact .counting rfl (by simp [EntityRecord.updatedBy, OrderedMap.get_spread])

/-! ### What a step does -/

abbrev MemoryLocks (I N : Type) :=
  LockSystem I N (InMemoryEntityRegistry N (LockValue N)) (CallOutcome N (LockValue N))

variable [DecidableEq N]

abbrev memoryStep [DecidableEq I] : MemoryLocks I N → LockEvent I N → Option (MemoryLocks I N) :=
  LockSystem.step inMemoryRegistry

section Fences

variable {r : InMemoryEntityRegistry N (LockValue N)} {x : N}

omit [DecidableEq N] in
def fences (r : InMemoryEntityRegistry N (LockValue N)) (l : LockId) :
    Option (EntityRecord N (LockValue N)) :=
  r.entities.get (fenceEntityId l)

/-- The fences stay as they are. -/
structure LeavesFences (x : N) (r r' : InMemoryEntityRegistry N (LockValue N))
    (events : List (RegistryEvent N (LockValue N))) : Prop where
  valid : r'.Valid x
  fences : Locks.fences r' = Locks.fences r
  events : ∀ event ∈ events, isFence event.record.entityId = false

omit [DecidableEq N] in
theorem LeavesFences.refl (hr : r.Valid x) : LeavesFences x r r [] :=
  ⟨hr, rfl, fun _ h => absurd h not_mem_nil⟩

theorem leavesFences_call (hr : r.Valid x) (op : LocalOp N (LockValue N))
    (h : isFence op.entityId = false) (now : ℕ) :
    LeavesFences x r (inMemoryRegistry.call r op now).registry
      (inMemoryRegistry.call r op now).emitted := by
  simp only [inMemoryRegistry, RegistryOps.async, inMemoryOps]
  cases hperform : r.perform op now with
  | error => exact .refl hr
  | ok result =>
    obtain ⟨r', event⟩ := result
    obtain ⟨hvalid, hevent⟩ := hr.perform hperform
    refine ⟨hvalid, funext fun l => ?_, fun event' h' => ?_⟩
    · exact (InMemoryEntityRegistry.perform_spec hperform).2.2.2 _ (ne_fenceEntityId h l)
    · rw [mem_singleton.mp h', hevent, h]

theorem leavesFences_applyRemoteUpdate {u : LockUpdate N} (hr : r.Valid x)
    (h : isFence u.entityId = false) (now : ℕ) :
    LeavesFences x r (inMemoryRegistry.applyRemoteUpdate r u now).registry
      (inMemoryRegistry.applyRemoteUpdate r u now).emitted := by
  obtain ⟨hvalid, hevents⟩ := hr.applyRemoteUpdate u
  refine ⟨hvalid, funext fun l => ?_, fun event h' => ?_⟩
  · exact (r.applyRemoteUpdate_spec u).2 _ (ne_fenceEntityId h l)
  · rw [hevents event h', h]

theorem fences_bumpFencingToken (x : N) (l : LockId) (now : ℕ) :
    fences (bumpFencingToken inMemoryRegistry r x l now).2.registry = Function.update (fences r) l
        ((fenceUpdate x l (fences r l).isSome
          (getCurrentFencingToken inMemoryRegistry r l + 1) now).apply (fences r l)).1 := by
  funext l'
  rw [update_apply]
  by_cases hl : l' = l
  · subst hl
    rw [if_pos rfl]
    exact (r.get_applyRemoteUpdate _ _).trans (if_pos rfl)
  · rw [if_neg hl]
    exact (r.applyRemoteUpdate_spec _).2 _ fun h => hl (fenceEntityId_inj.mp h)

theorem leavesFences_handleRemoteNodeFailure (hr : r.Valid x) (lock : DistributedLock N) (y : N)
    (now : ℕ) :
    LeavesFences x r (lock.handleRemoteNodeFailure inMemoryRegistry r y now).registry
      (lock.handleRemoteNodeFailure inMemoryRegistry r y now).emitted := by
  have hfold : ∀ (victims : List (EntityRecord N (LockValue N)))
      (piece : LockPiece N (InMemoryEntityRegistry N (LockValue N))
        (List (CallOutcome N (LockValue N)))),
      (∀ e ∈ victims, isFence e.entityId = false) → LeavesFences x r piece.registry piece.emitted →
      LeavesFences x r (victims.foldl (cleanUp inMemoryRegistry now) piece).registry
        (victims.foldl (cleanUp inMemoryRegistry now) piece).emitted := by
    intro victims
    induction victims with
    | nil => exact fun _ _ hpiece => hpiece
    | cons e _ ih =>
      intro piece hvictims hpiece
      have hdelete := leavesFences_applyRemoteUpdate (u := failureUpdate e now)
        hpiece.valid (hvictims e mem_cons_self) now
      exact ih _ (fun e he => hvictims e (mem_cons_of_mem _ he))
        ⟨hdelete.valid, hdelete.fences.trans hpiece.fences,
          forall_mem_append.mpr ⟨hpiece.events, hdelete.events⟩⟩
  refine hfold _ _ (fun e he => ?_) (.refl hr)
  simpa using (of_decide_eq_true (mem_filter.mp he).2).2

end Fences

section Names

omit [DecidableEq N]

def LockCall.lockId : LockCall N G → Option LockId
  | .proposing lockId .. => some lockId
  | .fencing lockId .. => some lockId
  | .stamping lockId .. => some lockId
  | .extending updated .. => some updated.lockId
  | .acquired handle => some handle.lockId
  | .extended handle => some handle.lockId
  | .refused => none

/-- The call does not concern a fence. -/
def LockTask.AvoidsFences : LockTask I N G → Prop
  | .lock _ call => ∀ l ∈ call.lockId, isFence l = false
  | .user .. => True
  | .cleanup _ => True

/-- The event does not concern a fence. -/
def LockEvent.AvoidsFences : LockEvent I N → Prop
  | .tryAcquire _ lockId _ _ => isFence lockId = false
  | .extend _ handle _ _ => isFence handle.lockId = false
  | .release _ handle _ => isFence handle.lockId = false
  | .expire _ lockId _ => isFence lockId = false
  | .handleRemoteNodeFailure .. => True
  | .call op _ => isFence op.entityId = false
  | .update u _ => isFence u.entityId = false
  | .resume .. => True

instance (ev : LockEvent I N) : Decidable ev.AvoidsFences := by
  unfold LockEvent.AvoidsFences
  split <;> infer_instance

end Names

def takes (s : MemoryLocks I N) : LockEvent I N → Option LockId
  | .extend i handle _ _ =>
    if !(s.lock i).heldLocks.has handle.lockId ||
        (inMemoryRegistry.getEntityHost s.registry handle.lockId).isNone then none
    else some handle.lockId
  | .resume k _ _ =>
    match s.tasks[k]? with
    | some (.lock _ (.proposing lockId _ (.resolved _))) => some lockId
    | _ => none
  | _ => none

/-- What an event does to the tokens. -/
inductive TokenStep (s : MemoryLocks I N) (ev : LockEvent I N) (s' : MemoryLocks I N) : Prop
  /-- Nothing. -/
  | quiet (events : List (RegistryEvent N (LockValue N)))
      (spares : ∀ event ∈ events, isFence event.record.entityId = false)
      (emitted : s'.emitted = s.emitted ++ events)
      (fences : fences s'.registry = fences s.registry) (tokens : s'.tokenOf = s.tokenOf)
      (returned : s'.returned = s.returned)
  /-- The call at index `k` takes the next token of the lock `l`. -/
  | taken (l : LockId) (k : ℕ) (x : N) (token now : ℕ)
      (takes : takes s ev = some l)
      (next : token = getCurrentFencingToken inMemoryRegistry s.registry l + 1)
      (emitted : s'.emitted = s.emitted ++
        ((fenceUpdate x l (fences s.registry l).isSome token now).apply (fences s.registry l)).2)
      (fences : fences s'.registry = Function.update (fences s.registry) l
        ((fenceUpdate x l (Locks.fences s.registry l).isSome token now).apply
          (Locks.fences s.registry l)).1)
      (tokens : s'.tokenOf = Function.update s.tokenOf k (some (l, token)))
      (returned : s'.returned = s.returned)
  /-- The call at index `k` returns a handle with its token. -/
  | returned (k : ℕ) (i : I) (handle : LockHandle N) (emitted : s'.emitted = s.emitted)
      (fences : Locks.fences s'.registry = Locks.fences s.registry)
      (held : s.tokenOf k = some (handle.lockId, handle.fencingToken))
      (tokens : s'.tokenOf = Function.update s.tokenOf k none)
      (returned : s'.returned = s.returned ++ [(i, handle)])
  /-- The call at index `k` ends without a handle. -/
  | dropped (k : ℕ) (emitted : s'.emitted = s.emitted)
      (fences : fences s'.registry = fences s.registry)
      (tokens : s'.tokenOf = Function.update s.tokenOf k none)
      (returned : s'.returned = s.returned)

section Step

variable [DecidableEq I] {s s' : MemoryLocks I N} {ev : LockEvent I N} {x : N}

theorem valid_bumpFencingToken {r : InMemoryEntityRegistry N (LockValue N)} (hr : r.Valid x)
    (y : N) (l : LockId) (now : ℕ) :
    (bumpFencingToken inMemoryRegistry r y l now).2.registry.Valid x :=
  (hr.applyRemoteUpdate _).1

/-- **What a step does to the tokens**, if it names no sidecar. -/
theorem tokenStep_of_step (hvalid : s.registry.Valid x)
    (htasks : ∀ task ∈ s.tasks, task.AvoidsFences) (hev : ev.AvoidsFences)
    (h : memoryStep s ev = some s') : s'.registry.Valid x ∧ TokenStep s ev s' := by
  have hquiet : TokenStep s ev s :=
    .quiet [] (fun _ h => absurd h not_mem_nil) (append_nil _).symm rfl rfl rfl
  have hgiveUp : ∀ (i : I) (l : LockId) (now : ℕ), isFence l = false →
      (s.giveUp inMemoryRegistry i l now).registry.Valid x ∧
        TokenStep s ev (s.giveUp inMemoryRegistry i l now) := by
    intro i l now hl
    have hcall := leavesFences_call hvalid (.releaseEntity l) hl now
    exact ⟨hcall.valid, .quiet _ hcall.events rfl hcall.fences
      (tokenOf_addTasks_of_none _ (by simp [LockTask.token])) rfl⟩
  cases step_cases h with
  | tryAcquire i l ttlMs now _ hpiece =>
    subst hpiece
    have hcall := leavesFences_call hvalid (.proposeEntity l (some ((s.lock i).lockMetadata
      (ttlMs.getD (s.lock i).defaultTtlMs)))) hev now
    exact ⟨hcall.valid, .quiet _ hcall.events rfl hcall.fences
      (tokenOf_addTasks_of_none _ (by simp [LockTask.token, LockCall.token,
        DistributedLock.tryAcquire])) rfl⟩
  | extend i handle additionalMs now _ hpiece =>
    obtain ⟨hheld, hhost, rfl⟩ := extend_eq_some hpiece
    have htakes : takes s (.extend i handle additionalMs now) = some handle.lockId :=
      if_neg (by simp [hheld, isSome_iff_ne_none.mp hhost])
    exact ⟨valid_bumpFencingToken hvalid _ _ now, .taken handle.lockId s.tasks.length _ _ now
      htakes rfl (congrArg _ (s.registry.applyRemoteUpdate_events _))
      (fences_bumpFencingToken _ _ now) (tokenOf_addTasks _ _) rfl⟩
  | throws | returns => exact ⟨hvalid, hquiet⟩
  | release i handle now => exact hgiveUp i handle.lockId now hev
  | expire i l now => exact hgiveUp i l now hev
  | handleRemoteNodeFailure i y now _ hpiece =>
    subst hpiece
    have hcleanup := leavesFences_handleRemoteNodeFailure hvalid (s.lock i) y now
    exact ⟨hcleanup.valid, .quiet _ hcleanup.events rfl hcleanup.fences
      (tokenOf_addTasks_of_none _ (by simp [LockTask.token])) rfl⟩
  | call op now =>
    have hcall := leavesFences_call hvalid op hev now
    exact ⟨hcall.valid, .quiet _ hcall.events rfl hcall.fences
      (tokenOf_addTasks_of_none _ (by simp [LockTask.token])) rfl⟩
  | update u now =>
    have hupdate := leavesFences_applyRemoteUpdate hvalid hev now
    exact ⟨hupdate.valid, .quiet _ hupdate.events rfl hupdate.fences
      (tokenOf_addTasks_of_none _ (by simp [LockTask.token])) rfl⟩
  -- a settled call of the registry does not go on
  | user _ _ _ _ _ _ hwaits => cases hwaits
  | cleanup _ _ _ _ _ hwaits => cases hwaits
  | lock k now fault i call _ hk hpiece =>
    obtain ⟨promise, hpromise, rfl⟩ := map_eq_some_iff.mp hpiece
    have hl : ∀ l ∈ call.lockId, isFence l = false := htasks _ (mem_of_getElem? hk)
    cases call with
    | proposing l _ promise' =>
      obtain rfl : promise' = promise := some.inj hpromise
      cases promise' with
      | resolved =>
        have htakes : takes s (.resume k now fault) = some l := by simp [takes, hk]
        exact ⟨valid_bumpFencingToken hvalid _ _ now, .taken l k _ _ now htakes rfl
          (congrArg _ (s.registry.applyRemoteUpdate_events _)) (fences_bumpFencingToken _ _ now)
          (tokenOf_set hk rfl rfl) (append_nil _)⟩
      | rejected =>
        exact ⟨hvalid, .quiet [] (fun _ h => absurd h not_mem_nil) rfl rfl
          (tokenOf_set_of_token_eq hk rfl rfl) (append_nil _)⟩
    | fencing l ttl _ token promise' =>
      obtain rfl : promise' = promise := some.inj hpromise
      cases promise' with
      | resolved =>
        have hcall := leavesFences_call hvalid (.updateEntity l
          (((s.lock i).lockMetadata ttl).set "fencingToken" (.token token))) (hl l rfl) now
        exact ⟨hcall.valid, .quiet _ hcall.events rfl hcall.fences
          (tokenOf_set_of_token_eq hk rfl rfl) (append_nil _)⟩
      | rejected =>
        exact ⟨hvalid, .dropped k (append_nil _) rfl (tokenOf_set hk rfl rfl) (append_nil _)⟩
    | stamping l ttl createdAt token promise' =>
      obtain rfl : promise' = promise := some.inj hpromise
      let handle : LockHandle N := ⟨l, (s.lock i).localNodeId, createdAt, createdAt + ttl, token⟩
      cases promise' <;>
        exact ⟨hvalid, .returned k i handle (append_nil _) rfl
          (tokenOf_of_getElem? hk) (tokenOf_set hk rfl rfl) rfl⟩
    | extending updated _ promise' =>
      obtain rfl : promise' = promise := some.inj hpromise
      cases promise' with
      | resolved =>
        exact ⟨hvalid, .returned k i updated (append_nil _) rfl
          (tokenOf_of_getElem? hk) (tokenOf_set hk rfl rfl) rfl⟩
      | rejected =>
        exact ⟨hvalid, .dropped k (append_nil _) rfl (tokenOf_set hk rfl rfl) (append_nil _)⟩
    | acquired | extended | refused => cases hpromise

omit [DecidableEq N] in
/-- **What a piece of a call does**: the call stays a call for its lock or fails, and the lock stays
as it is or the call returns a handle that is held now. -/
theorem LockCall.resume_spec {lock : DistributedLock N}
    {call : LockCall N G} {now : ℕ} {fault : Option String} {piece : LockPiece N S (LockCall N G)}
    (h : call.resume A r lock now fault = some piece) :
    call.promise.isSome ∧ (piece.result.lockId = call.lockId ∨ piece.result = .refused) ∧
    (piece.lock = lock ∨ ∃ handle ttlMs, piece.lock = lock.hold handle ttlMs now ∧
      piece.result.handle = some handle ∧ call.lockId = some handle.lockId) := by
  obtain ⟨promise, hpromise, rfl⟩ := map_eq_some_iff.mp h
  refine ⟨by rw [hpromise]; rfl, ?_⟩
  split
  · rename_i outcome _
    cases call with
    | stamping => exact ⟨.inl rfl, .inr ⟨_, _, rfl, rfl, rfl⟩⟩
    | extending =>
      cases outcome with
      | resolved => exact ⟨.inl rfl, .inr ⟨_, _, rfl, rfl, rfl⟩⟩
      | rejected => exact ⟨.inr rfl, .inl rfl⟩
    | proposing | fencing =>
      cases outcome with
      | resolved => exact ⟨.inl rfl, .inl rfl⟩
      | rejected => exact ⟨.inr rfl, .inl rfl⟩
    | acquired | extended | refused => cases hpromise
  · refine ⟨.inl ?_, .inl rfl⟩
    cases call <;> rfl

theorem avoidsFences_step {s s' : LockSystem I N S G}
    {ev : LockEvent I N} (htasks : ∀ task ∈ s.tasks, task.AvoidsFences)
    (hev : ev.AvoidsFences) (h : step A s ev = some s') :
    ∀ task ∈ s'.tasks, task.AvoidsFences := by
  have hadd : ∀ {tasks : List (LockTask I N G)}, (∀ task ∈ tasks, task.AvoidsFences) →
      ∀ task ∈ s.tasks ++ tasks, task.AvoidsFences := by
    intro tasks hnew task htask
    exact (mem_append.mp htask).elim (htasks task) (hnew task)
  have hset : ∀ {k : ℕ} {task : LockTask I N G}, task.AvoidsFences →
      ∀ task' ∈ s.tasks.set k task, task'.AvoidsFences := forall_mem_set htasks
  cases step_cases h with
  | tryAcquire _ l _ _ _ hpiece =>
    subst hpiece
    refine hadd (forall_mem_singleton.mpr fun l' hl' => ?_)
    cases hl'
    exact hev
  | extend _ handle _ _ _ hpiece =>
    obtain ⟨-, -, rfl⟩ := extend_eq_some hpiece
    refine hadd (forall_mem_singleton.mpr fun l' hl' => ?_)
    cases hl'
    exact hev
  | throws | returns => exact htasks
  | release | expire | call | update => exact hadd (forall_mem_singleton.mpr trivial)
  | handleRemoteNodeFailure =>
    refine hadd fun task htask => ?_
    obtain ⟨promise, -, rfl⟩ := mem_map.mp htask
    trivial
  | lock _ _ _ _ call _ hk hpiece =>
    have hcall : ∀ l ∈ call.lockId, isFence l = false := htasks _ (mem_of_getElem? hk)
    refine hset fun l hl => ?_
    rcases (LockCall.resume_spec hpiece).2.1 with hresult | hrefused
    · exact hcall l (hresult ▸ hl)
    · rw [hrefused] at hl
      cases hl
  | user | cleanup => exact hset trivial

end Step

/-! ### Tokens increase -/

/-- The tokens of a lock in the order in which they were returned. -/
def tokensOf (returned : List (I × LockHandle N)) (l : LockId) : List ℕ :=
  (returned.filter fun p => p.2.lockId = l).map fun p => p.2.fencingToken

/-- Later handles have greater tokens. -/
def LockSystem.TokensIncrease (s : LockSystem I N S G) : Prop :=
  ∀ l, (tokensOf s.returned l).Pairwise (· < ·)

/-- No other call has taken a token of the lock and not yet returned it. -/
def TakesAlone (s : MemoryLocks I N) (ev : LockEvent I N) : Prop :=
  ∀ l ∈ takes s ev, ∀ task ∈ s.tasks, task.token.map Prod.fst ≠ some l

instance (s : MemoryLocks I N) (ev : LockEvent I N) : Decidable (TakesAlone s ev) :=
  inferInstanceAs (Decidable (∀ l ∈ takes s ev, ∀ task ∈ s.tasks, task.token.map Prod.fst ≠ some l))

/-- The sidecar of `l` has counted `n` tokens: the returned ones and at most one more, which is
larger than these. -/
structure Counted (s : MemoryLocks I N) (l : LockId) (n : ℕ) : Prop where
  sidecar : Sidecar (fences s.registry l) n
  alone : ∀ {k k' t t'}, s.tokenOf k = some (l, t) → s.tokenOf k' = some (l, t') → k = k'
  pending_le : ∀ {k t}, s.tokenOf k = some (l, t) → t ≤ n
  lt_pending : ∀ {k t}, s.tokenOf k = some (l, t) → ∀ t' ∈ tokensOf s.returned l, t' < t
  returned_le : ∀ t ∈ tokensOf s.returned l, t ≤ n
  increasing : (tokensOf s.returned l).Pairwise (· < ·)

omit [DecidableEq N] in
theorem tokensOf_append (returned : List (I × LockHandle N)) (i : I) (handle : LockHandle N)
    (l : LockId) :
    tokensOf (returned ++ [(i, handle)]) l =
      if handle.lockId = l then tokensOf returned l ++ [handle.fencingToken]
      else tokensOf returned l := by by_cases hl : handle.lockId = l <;> simp [tokensOf, hl]

section Counting

variable {s s' : MemoryLocks I N} {ev : LockEvent I N} {l : LockId} {n : ℕ}

omit [DecidableEq N] in
theorem Counted.congr (h : Counted s l n) (hfence : fences s'.registry l = fences s.registry l)
    (htokens : ∀ {k t}, s'.tokenOf k = some (l, t) → s.tokenOf k = some (l, t))
    (hreturned : tokensOf s'.returned l = tokensOf s.returned l) : Counted s' l n where
  sidecar := hfence ▸ h.sidecar
  alone hk hk' := h.alone (htokens hk) (htokens hk')
  pending_le hk := h.pending_le (htokens hk)
  lt_pending hk := hreturned ▸ h.lt_pending (htokens hk)
  returned_le := hreturned ▸ h.returned_le
  increasing := hreturned ▸ h.increasing

theorem TokenStep.sidecar (hstep : TokenStep s ev s') (h : Sidecar (fences s.registry l) n) :
    ∃ n', n ≤ n' ∧ Sidecar (fences s'.registry l) n' := by
  cases hstep with
  | quiet _ _ _ hfences | dropped _ _ hfences | returned _ _ _ _ hfences =>
    exact ⟨n, le_rfl, hfences ▸ h⟩
  | taken l' k x token now _ hnext _ hfences =>
    rw [hfences]
    by_cases hl : l = l'
    · subst hl
      obtain rfl : token = n + 1 := by rw [hnext, Sidecar.getCurrentFencingToken_eq h]
      exact ⟨n + 1, n.le_succ, by rw [update_self]; exact h.bump x l now⟩
    · exact ⟨n, le_rfl, by rwa [update_of_ne hl]⟩

theorem Counted.step (h : Counted s l n) (halone : TakesAlone s ev) (hstep : TokenStep s ev s') :
    ∃ n', n ≤ n' ∧ Counted s' l n' := by
  cases hstep with
  | quiet _ _ _ hfences htokens hreturned =>
    exact ⟨n, le_rfl, h.congr (by rw [hfences]) (fun hk => htokens ▸ hk) (by rw [hreturned])⟩
  | dropped k _ hfences htokens hreturned =>
    refine ⟨n, le_rfl, h.congr (by rw [hfences]) (fun {j t} hj => ?_) (by rw [hreturned])⟩
    rw [htokens, update_apply] at hj
    split_ifs at hj
    exact hj
  | taken l' k x token now htakes hnext _ hfences htokens hreturned =>
    by_cases hl : l = l'
    · subst hl
      have hcurrent : getCurrentFencingToken inMemoryRegistry s.registry l = n :=
        Sidecar.getCurrentFencingToken_eq h.sidecar
      obtain rfl : token = n + 1 := by rw [hnext, hcurrent]
      -- the new token is the only one of the lock that has not been returned
      have honly : ∀ {j t}, s'.tokenOf j = some (l, t) → j = k ∧ t = n + 1 := by
        intro j t hj
        rw [htokens, update_apply] at hj
        split_ifs at hj with hjk
        · exact ⟨hjk, (Prod.mk.inj (some.inj hj)).2.symm⟩
        · obtain ⟨task, htask, htoken⟩ := bind_eq_some_iff.mp hj
          exact absurd (by rw [htoken]; rfl) (halone l htakes task (mem_of_getElem? htask))
      refine ⟨n + 1, n.le_succ, ⟨?_, fun hj hj' => (honly hj).1.trans (honly hj').1.symm,
        fun hj => (honly hj).2.le, fun hj t ht => ?_, fun t ht => ?_, ?_⟩⟩
      · rw [hfences, update_self]
        exact h.sidecar.bump x l now
      · rw [(honly hj).2]
        exact Nat.lt_succ_of_le (h.returned_le t (hreturned ▸ ht))
      · exact (h.returned_le t (hreturned ▸ ht)).trans n.le_succ
      · exact hreturned ▸ h.increasing
    · refine ⟨n, le_rfl, h.congr ?_ (fun {j t} hj => ?_) (by rw [hreturned])⟩
      · rw [hfences, update_of_ne hl]
      · rw [htokens, update_apply] at hj
        split_ifs at hj with hjk
        · exact absurd (Prod.mk.inj (some.inj hj)).1.symm hl
        · exact hj
  | returned k i handle _ hfences hheld htokens hreturned =>
    have hother : ∀ {j t}, s'.tokenOf j = some (l, t) → j ≠ k ∧ s.tokenOf j = some (l, t) := by
      intro j t hj
      rw [htokens, update_apply] at hj
      split_ifs at hj with hjk
      exact ⟨hjk, hj⟩
    by_cases hl : handle.lockId = l
    · subst hl
      have happend : tokensOf s'.returned handle.lockId =
          tokensOf s.returned handle.lockId ++ [handle.fencingToken] := by
        rw [hreturned, tokensOf_append, if_pos rfl]
      refine ⟨n, le_rfl, ⟨hfences ▸ h.sidecar, fun hj hj' => h.alone (hother hj).2 (hother hj').2,
        fun hj => h.pending_le (hother hj).2,
        fun hj => absurd (h.alone (hother hj).2 hheld) (hother hj).1, ?_, ?_⟩⟩
      · rw [happend]
        exact forall_mem_append.mpr
          ⟨h.returned_le, forall_mem_singleton.mpr (h.pending_le hheld)⟩
      · rw [happend, pairwise_append]
        refine ⟨h.increasing, pairwise_singleton .., fun t ht t' ht' => ?_⟩
        rw [mem_singleton.mp ht']
        exact h.lt_pending hheld t ht
    · refine ⟨n, le_rfl, h.congr (by rw [hfences]) (fun hj => (hother hj).2) ?_⟩
      rw [hreturned, tokensOf_append, if_neg hl]

end Counting

/-- **Fencing tokens increase.** Any number of locks run on a new in-memory registry. If no lock
or entity has the name of a sidecar, and a token of a lock is only taken when no other call is
about to return one, then the tokens of the returned handles increase, for every lock. -/
theorem tokensIncrease_run [DecidableEq I] (x : N) (lock : I → DistributedLock N)
    (es : List (LockEvent I N)) (t : MemoryLocks I N)
    (hok : AllSteps memoryStep (fun s ev => ev.AvoidsFences ∧ TakesAlone s ev)
      (.initial (InMemoryEntityRegistry.create x).start lock) es)
    (hrun : exec memoryStep (.initial (InMemoryEntityRegistry.create x).start lock) es = some t) :
    t.TokensIncrease := by
  intro l
  have hcounted : t.registry.Valid x ∧ (∀ task ∈ t.tasks, task.AvoidsFences) ∧
      ∃ n, Counted t l n := by
    refine exec_invariant (P := fun s : MemoryLocks I N => s.registry.Valid x ∧
        (∀ task ∈ s.tasks, task.AvoidsFences) ∧ ∃ n, Counted s l n)
      ?_ ⟨InMemoryEntityRegistry.valid_create x, fun _ h => absurd h not_mem_nil, 0, ?_⟩
      hok hrun
    · rintro s ev s' ⟨hvalid, htasks, n, hs⟩ ⟨hev, halone⟩ hstep
      obtain ⟨hvalid', htoken⟩ := tokenStep_of_step hvalid htasks hev hstep
      obtain ⟨n', -, hs'⟩ := hs.step halone htoken
      exact ⟨hvalid', avoidsFences_step htasks hev hstep, n', hs'⟩
    · have hnone : ∀ {k p}, (initial (InMemoryEntityRegistry.create x).start lock :
          MemoryLocks I N).tokenOf k ≠ some p := by
        intro k p
        simp [tokenOf, initial]
      exact ⟨.absent, fun h => absurd h hnone, fun h => absurd h hnone, fun h => absurd h hnone,
        fun _ h => absurd h not_mem_nil, .nil⟩
  obtain ⟨-, -, n, hn⟩ := hcounted
  exact hn.increasing

/-! ### Concrete runs -/

def singleLock : MemoryLocks Unit String :=
  .initial (InMemoryEntityRegistry.create "n1").start fun _ => .create "n1" 30000

def acquireAlone {I N : Type} (i : I) (lockId : LockId) (k now : ℕ) : List (LockEvent I N) :=
  [.tryAcquire i lockId none now, .resume k now none, .resume k now none, .resume k now none]

def handleOf (lockId : LockId) (now token : ℕ) : LockHandle String :=
  ⟨lockId, "n1", now, now + 30000, token⟩

def reacquire : List (LockEvent Unit String) :=
  acquireAlone () "x" 0 0 ++ [.extend () (handleOf "x" 0 1) none 5, .resume 1 5 none,
    .release () (handleOf "x" 0 1) 10] ++ acquireAlone () "x" 3 20

theorem tokensIncrease_run_reacquire : ∃ t, exec memoryStep singleLock reacquire = some t ∧
      tokensOf t.returned "x" = [1, 2, 3] ∧ t.TokensIncrease :=
  ⟨_, rfl, by decide, tokensIncrease_run "n1" (fun _ => .create "n1" 30000) reacquire _
    (by decide) rfl⟩

/-- The lock `__fence__:x` and then the lock `x` are acquired, and `x` once more after its
release. Both handles for `x` have the token 2: its sidecar was created as a lock and has
version 2, so the write of token 2 is ignored. -/
theorem not_tokensIncrease_of_fence_lock :
    ∃ t, exec memoryStep singleLock (acquireAlone () "__fence__:x" 0 0 ++
        acquireAlone () "x" 1 10 ++ [.release () (handleOf "x" 10 2) 20] ++
        acquireAlone () "x" 3 30) = some t ∧
      tokensOf t.returned "x" = [2, 2] ∧ ¬t.TokensIncrease :=
  ⟨_, rfl, by decide, fun h => absurd (h "x") (by decide)⟩

end DistributedCore.Locks
