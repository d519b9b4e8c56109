import DistributedCore.Entity.WalCalls
import DistributedCore.Locks.LockSystem

/-!
# Winners of an entity on a write-ahead log

`proposeEntity` of the registry on a write-ahead log looks whether the entity exists, appends a
`CREATE` to the log, and applies it. A second proposal that is made while the first one waits for
its append finds no entity either. The second `CREATE` changes nothing when it is applied, but the
call does not notice, and resolves as well. So two calls of `proposeEntity` can win the same
entity, and two calls of `tryAcquire` can return a handle for the same lock.

Source: `src/cluster/entity/WriteAheadLogEntityRegistry.ts`, `src/cluster/locks/DistributedLock.ts`.
-/

namespace DistributedCore.Locks

open Entity DistributedLock WalCall List Option

variable {I N S G : Type}

/-! ### Winners -/

variable (A : LockRegistry N S G) {k : ℕ}

/-- The call has succeeded in creating the entity. -/
def LockTask.Wins (e : EntityId) : LockTask I N G → Prop
  | .user (.proposeEntity e' _) promise =>
    e' = e ∧ ∃ record, A.settled promise = some (.resolved record)
  | .lock _ (.acquired handle) => handle.lockId = e
  | _ => False

/-- At most one call has created the entity. -/
def AtMostOneWinner (e : EntityId) (s : LockSystem I N S G) : Prop :=
  ∀ (k k' : ℕ) (task task' : LockTask I N G), s.tasks[k]? = some task →
    s.tasks[k']? = some task' → task.Wins A e → task'.Wins A e → k = k'

def LockTask.proposal (e : EntityId) : LockTask I N G → Option G
  | .user (.proposeEntity e' _) promise => if e' = e then some promise else none
  | .lock _ (.proposing lockId _ promise) => if lockId = e then some promise else none
  | _ => none

/-- No proposal of the entity waits. -/
def Unproposed (s : LockSystem I N S G) (e : EntityId) : Prop :=
  ∀ task ∈ s.tasks, ∀ promise ∈ task.proposal e, A.settled promise ≠ none

/-- The event proposes the entity. -/
def LockEvent.Proposes (e : EntityId) : LockEvent I N → Prop
  | .tryAcquire _ lockId _ _ => lockId = e
  | .call (.proposeEntity e' _) _ => e' = e
  | _ => False

/-- The event may delete the entity. -/
def LockEvent.Deletes [DecidableEq N] (A : LockRegistry N S G) (s : LockSystem I N S G)
    (e : EntityId) : LockEvent I N → Prop
  | .release _ handle _ => handle.lockId = e
  | .expire _ lockId _ => lockId = e
  | .handleRemoteNodeFailure _ nodeId _ =>
    ∃ victim ∈ DistributedLock.victims A s.registry nodeId, victim.entityId = e
  | .call (.releaseEntity e') _ => e' = e
  | .update u _ => u.entityId = e ∧ u.operation = .delete
  | _ => False

section Decidable

variable (A : LockRegistry N S G) (s : LockSystem I N S G) (e : EntityId)

instance : Decidable (Unproposed A s e) :=
  inferInstanceAs (Decidable (∀ task ∈ _, ∀ promise ∈ _, A.settled promise ≠ none))

instance : (ev : LockEvent I N) → Decidable (ev.Proposes e)
  | .tryAcquire .. | .call (.proposeEntity ..) _ => inferInstanceAs (Decidable (_ = e))
  | .call (.updateEntity ..) _ | .call (.transferEntity ..) _ | .call (.releaseEntity ..) _
  | .extend .. | .release .. | .expire .. | .handleRemoteNodeFailure .. | .update .. | .resume .. =>
    .isFalse id

instance [DecidableEq N] : (ev : LockEvent I N) → Decidable (ev.Deletes A s e)
  | .release .. | .expire .. | .call (.releaseEntity _) _ => inferInstanceAs (Decidable (_ = e))
  | .handleRemoteNodeFailure .. => inferInstanceAs (Decidable (∃ victim ∈ _, _ = e))
  | .update .. => inferInstanceAs (Decidable (_ = e ∧ _ = _))
  | .call (.proposeEntity ..) _ | .call (.updateEntity ..) _ | .call (.transferEntity ..) _
  | .tryAcquire .. | .extend .. | .resume .. => .isFalse id

end Decidable

/-! ### The calls under way -/

abbrev WalLockCall (N : Type) := WalCall N (LockValue N)

section Invariant

variable {e : EntityId} {entities entities' : Entities N (LockValue N)}

def LockTask.promise : LockTask I N G → Option G
  | .lock _ call => call.promise
  | .user _ promise => some promise
  | .cleanup promise => some promise

/-- The lock call has created the entity. -/
def LockTask.HasWon (e : EntityId) : LockTask I N G → Prop
  | .lock _ (.fencing lockId ..) => lockId = e
  | .lock _ (.stamping lockId ..) => lockId = e
  | .lock _ (.acquired handle) => handle.lockId = e
  | _ => False

/-- The update that the call logs does not delete the entity. -/
def SparesEntity (e : EntityId) (call : WalLockCall N) : Prop :=
  ∀ u ∈ call.pending, u.entityId = e → u.operation ≠ .delete

/-- A proposal that is not rejected creates the entity or has created it. -/
structure ProposalOk (e : EntityId) (entities : Entities N (LockValue N)) (call : WalLockCall N) :
    Prop where
  creates : ∀ u ∈ call.pending, u.entityId = e ∧ u.operation = .create
  created : call.pending = none → call.settled ≠ some .rejected → entities.has e = true
  events : call.settled ≠ some .rejected → call.events.isSome = true

/-- The call proposes the entity and is not rejected, or it has won. -/
def LockTask.Alive (e : EntityId) (task : LockTask I N (WalLockCall N)) : Prop :=
  (∃ call ∈ task.proposal e, call.settled ≠ some .rejected) ∨ task.HasWon e

/-- The call does not delete `e`, and its proposal of `e` is as it should be. -/
structure TaskOk (e : EntityId) (entities : Entities N (LockValue N))
    (task : LockTask I N (WalLockCall N)) : Prop where
  spares : ∀ call ∈ task.promise, SparesEntity e call
  proposal : ∀ call ∈ task.proposal e, ProposalOk e entities call
  won : task.HasWon e → entities.has e = true

structure ProposalsOk (e : EntityId) (entities : Entities N (LockValue N))
    (tasks : List (LockTask I N (WalLockCall N))) : Prop where
  ok : ∀ task ∈ tasks, TaskOk e entities task
  unique : AtMostOne (LockTask.Alive e) tasks

variable {tasks : List (LockTask I N (WalLockCall N))} {task : LockTask I N (WalLockCall N)}

theorem TaskOk.mono (h : TaskOk e entities task)
    (hmono : entities.has e = true → entities'.has e = true) : TaskOk e entities' task where
  spares := h.spares
  proposal call hcall :=
    { h.proposal call hcall with
      created := fun hnone hsettled => hmono ((h.proposal call hcall).created hnone hsettled) }
  won hwon := hmono (h.won hwon)

/-- A call that does not have `e` and does not propose it. -/
theorem taskOk_of_dormant
    (hspares : ∀ call ∈ task.promise, SparesEntity e call) (hproposal : task.proposal e = none)
    (hwon : ¬task.HasWon e) : TaskOk e entities task ∧ ¬task.Alive e := by
  have hnone : ∀ call, call ∉ task.proposal e := by simp [hproposal]
  refine ⟨⟨hspares, fun call hcall => absurd hcall (hnone call), fun h => absurd h hwon⟩, ?_⟩
  rintro (⟨call, hcall, -⟩ | hwon')
  · exact hnone call hcall
  · exact hwon hwon'

variable {added : List (LockTask I N (WalLockCall N))}

theorem ProposalsOk.add (h : ProposalsOk e entities tasks)
    (hok : ∀ task ∈ added, TaskOk e entities task)
    (halive : ∀ task ∈ added, task.Alive e → added = [task] ∧ ∀ other ∈ tasks, ¬other.Alive e) :
    ProposalsOk e entities (tasks ++ added) :=
  ⟨forall_mem_append.mpr ⟨h.ok, hok⟩, h.unique.append halive⟩

theorem ProposalsOk.add_dormant (h : ProposalsOk e entities tasks)
    (hadded : ∀ task ∈ added, (∀ call ∈ task.promise, SparesEntity e call) ∧
      task.proposal e = none ∧ ¬task.HasWon e) : ProposalsOk e entities (tasks ++ added) := by
  have hok : ∀ task ∈ added, TaskOk e entities task ∧ ¬task.Alive e := by
    intro task htask
    obtain ⟨hspares, hproposal, hwon⟩ := hadded task htask
    exact taskOk_of_dormant hspares hproposal hwon
  exact h.add (fun task htask => (hok task htask).1) fun task htask halive =>
    absurd halive (hok task htask).2

variable {old : LockTask I N (WalLockCall N)}

theorem ProposalsOk.set (h : ProposalsOk e entities tasks) (hk : tasks[k]? = some old)
    (hmono : entities.has e = true → entities'.has e = true) (hok : TaskOk e entities' task)
    (halive : task.Alive e → old.Alive e) : ProposalsOk e entities' (tasks.set k task) :=
  ⟨forall_mem_set (fun t ht => (h.ok t ht).mono hmono) hok, h.unique.set hk halive⟩

end Invariant

/-! ### Pieces of registry calls -/

section Pieces

variable {e : EntityId} {config : WalRegistryConfig N (LockValue N)} {h : WalHost N (LockValue N)}
  {call : WalLockCall N}

theorem pending_eq_none_of_settled (hsettled : call.settled ≠ none) : call.pending = none := by
  obtain ⟨events, stage⟩ := call
  cases stage <;> first | rfl | exact absurd rfl hsettled

variable {u : LockUpdate N} {entities : Entities N (LockValue N)}

theorem has_applyUpdate
    (hu : u.entityId = e → u.operation ≠ .delete) (hhas : entities.has e = true) :
    (entities.applyUpdate u).1.has e = true := by
  obtain ⟨record, hrecord⟩ := (entities.has_iff e).mp hhas
  rw [OrderedMap.has_iff, Entities.get_applyUpdate]
  split_ifs with he
  · subst he
    rw [hrecord]
    cases hop : u.operation with
    | delete => exact absurd hop (hu rfl)
    | create => exact ⟨record, by simp [EntityUpdate.apply, hop]⟩
    | update | transfer =>
      simp only [EntityUpdate.apply, hop]
      split_ifs <;> exact ⟨_, rfl⟩
  · exact ⟨record, hrecord⟩

theorem has_applyUpdate_create (he : u.entityId = e) (hop : u.operation = .create) :
    (entities.applyUpdate u).1.has e = true := by
  rw [OrderedMap.has_iff, Entities.get_applyUpdate, if_pos he.symm]
  cases entities.get u.entityId with
  | none => exact ⟨u.newRecord, by simp [EntityUpdate.apply, hop]⟩
  | some record => exact ⟨record, by simp [EntityUpdate.apply, hop]⟩

theorem SparesEntity.advance (hspares : SparesEntity e call)
    (config : WalRegistryConfig N (LockValue N)) (h : WalHost N (LockValue N))
    (fault : Option String) :
    SparesEntity e (call.advance config h fault).call ∧ (h.registry.entities.has e = true →
      (call.advance config h fault).registry.registry.entities.has e = true) := by
  rcases advance_spec config h call fault with
    ⟨u, hpending, hnone, hentities⟩ | ⟨hentities, hpending | hfail⟩
  · refine ⟨fun u' hu' => ?_, fun hhas => ?_⟩
    · rw [hnone] at hu'
      cases hu'
    · rw [hentities]
      exact has_applyUpdate (hspares u hpending) hhas
  · exact ⟨fun u hu => hspares u (hpending ▸ hu), fun hhas => by rwa [hentities]⟩
  · refine ⟨fun u hu => ?_, fun _ => by rwa [hentities]⟩
    rw [hfail] at hu
    cases hu

theorem ProposalOk.advance (hcall : ProposalOk e h.registry.entities call)
    (hsettled : call.settled = none) (fault : Option String) :
    ProposalOk e (call.advance config h fault).registry.registry.entities
      (call.advance config h fault).call := by
  have halive : call.settled ≠ some .rejected := by simp [hsettled]
  have hevents : call.events.isSome = true := hcall.events halive
  have hevents' : (call.advance config h fault).call.events.isSome = true := by
    rw [WalCall.advance]
    split <;> (try split_ifs) <;> exact hevents
  rcases advance_spec config h call fault with
    ⟨u, hpending, hnone, hentities⟩ | ⟨hentities, hpending | hfail⟩
  · obtain ⟨he, hop⟩ := hcall.creates u hpending
    refine ⟨fun u' hu' => ?_, fun _ _ => ?_, fun _ => hevents'⟩
    · rw [hnone] at hu'
      cases hu'
    · rw [hentities]
      exact has_applyUpdate_create he hop
  · refine ⟨fun u hu => hcall.creates u (hpending ▸ hu), fun hnone _ => ?_, fun _ => hevents'⟩
    rw [hentities]
    exact hcall.created (hpending ▸ hnone) halive
  · have hrejected : call.fail.settled = some .rejected := by rw [fail, if_pos hevents]; rfl
    rw [hfail]
    refine ⟨fun u hu => ?_, fun _ h => absurd hrejected h, fun h => absurd hrejected h⟩
    cases hu

variable [DecidableEq N]

theorem sparesEntity_call {op : LocalOp N (LockValue N)} (hop : op ≠ .releaseEntity e) (now : ℕ) :
    SparesEntity e ((walRegistry config).call h op now).call := by
  intro u hu hue hdelete
  rcases (perform_spec config h op now).2 with
    ⟨hnone, -⟩ | ⟨prepared, hprepared, hpending, -⟩
  · cases hnone.symm.trans hu
  · cases hpending.symm.trans hu
    obtain ⟨hid, hrelease, -⟩ := prepare_spec hprepared
    rw [← hid, hue] at hrelease
    exact hop (hrelease hdelete)

theorem proposalOk_call (config : WalRegistryConfig N (LockValue N)) (h : WalHost N (LockValue N))
    (e : EntityId) (metadata : Option (Metadata (LockValue N))) (now : ℕ) :
    ProposalOk e h.registry.entities
        ((walRegistry config).call h (.proposeEntity e metadata) now).call ∧
      (((walRegistry config).call h (.proposeEntity e metadata) now).call.settled = some .rejected ∨
        h.registry.entities.has e = false) := by
  rcases (perform_spec config h (.proposeEntity e metadata) now).2 with
    ⟨hnone, hrejected⟩ | ⟨prepared, hprepared, hpending, hevents⟩
  · refine ⟨⟨fun u hu => ?_, fun _ h => absurd hrejected h, fun h => absurd hrejected h⟩,
      .inl hrejected⟩
    cases hnone.symm.trans hu
  · obtain ⟨hid, -, hpropose⟩ := prepare_spec hprepared
    obtain ⟨habsent, hop⟩ := hpropose e metadata rfl
    refine ⟨⟨fun u hu => ?_, fun hnone => ?_, fun _ => hevents⟩, .inr habsent⟩
    · cases hpending.symm.trans hu
      exact ⟨hid, hop⟩
    · cases hnone.symm.trans hpending

theorem entities_call (op : LocalOp N (LockValue N)) (now : ℕ) :
    ((walRegistry config).call h op now).registry.registry.entities = h.registry.entities :=
  (perform_spec config h op now).1

theorem sparesEntity_applyRemoteUpdate (hu : u.entityId = e → u.operation ≠ .delete) (now : ℕ) :
    SparesEntity e ((walRegistry config).applyRemoteUpdate h u now).call := by
  intro u' hu'
  cases (append_spec config h u now none).2.1.symm.trans hu'
  exact hu

theorem entities_applyRemoteUpdate (u : LockUpdate N) (now : ℕ) :
    ((walRegistry config).applyRemoteUpdate h u now).registry.registry.entities =
      h.registry.entities :=
  (append_spec config h u now none).1

omit [DecidableEq N] in
theorem fenceUpdate_operation_ne (x : N) (l : LockId) (known : Bool) (token now : ℕ) :
    (fenceUpdate x l known token now).operation ≠ .delete := by
  cases known <;> exact fun h => nomatch h

end Pieces

/-! ### Steps and runs -/

section Step

variable [DecidableEq I] [DecidableEq N] {e : EntityId} {config : WalRegistryConfig N (LockValue N)}
  {s s' : LockSystem I N (WalHost N (LockValue N)) (WalLockCall N)}
  {task : LockTask I N (WalLockCall N)} {now : ℕ}

omit [DecidableEq I] in
/-- When a proposal is made and none is under way, it is refused at once, or no other call can have
the entity. -/
theorem ProposalsOk.start (h : ProposalsOk e s.registry.registry.entities s.tasks)
    (hidle : Unproposed (walRegistry config) s e) {metadata : Option (Metadata (LockValue N))}
    (hpromise : task.promise =
      some ((walRegistry config).call s.registry (.proposeEntity e metadata) now).call)
    (hproposal : task.proposal e = task.promise) (hwon : ¬task.HasWon e) :
    ProposalsOk e s.registry.registry.entities (s.tasks ++ [task]) := by
  obtain ⟨hok, hcase⟩ := proposalOk_call config s.registry e metadata now
  rw [hpromise] at hproposal
  refine h.add (forall_mem_singleton.mpr ⟨?_, ?_, fun h => absurd h hwon⟩)
    (forall_mem_singleton.mpr ?_)
  · rw [hpromise]
    exact fun call hcall => some.inj hcall ▸ sparesEntity_call (by nofun) now
  · rw [hproposal]
    exact fun call hcall => some.inj hcall ▸ hok
  · rintro (⟨call, hcall, halive⟩ | hwon')
    · cases hproposal.symm.trans hcall
      have habsent := hcase.resolve_left halive
      refine ⟨rfl, fun task' htask' => ?_⟩
      obtain ⟨-, hproposals, hwon⟩ := h.ok task' htask'
      rintro (⟨call, hcall, halive⟩ | hwon')
      · have hpending := pending_eq_none_of_settled (hidle task' htask' call hcall)
        rw [(hproposals call hcall).created hpending halive] at habsent
        cases habsent
      · rw [hwon hwon'] at habsent
        cases habsent
    · exact absurd hwon' hwon

omit [DecidableEq I] in
theorem cleanUp_spec {h : WalHost N (LockValue N)} (lock : DistributedLock N) {nodeId : N} (now : ℕ)
    (hvictims : ∀ v ∈ DistributedLock.victims (walRegistry config) h nodeId, v.entityId ≠ e) :
    (lock.handleRemoteNodeFailure (walRegistry config) h nodeId now).registry.registry.entities =
        h.registry.entities ∧
      ∀ call ∈ (lock.handleRemoteNodeFailure (walRegistry config) h nodeId now).result,
        SparesEntity e call := by
  have hfold : ∀ (victims : List (EntityRecord N (LockValue N)))
      (piece : LockPiece N (WalHost N (LockValue N)) (List (WalLockCall N))),
      (∀ v ∈ victims, v.entityId ≠ e) →
      piece.registry.registry.entities = h.registry.entities ∧
        (∀ call ∈ piece.result, SparesEntity e call) →
      (victims.foldl (cleanUp (walRegistry config) now)
          piece).registry.registry.entities = h.registry.entities ∧
        ∀ call ∈ (victims.foldl (cleanUp (walRegistry config) now) piece).result,
          SparesEntity e call := by
    intro victims
    induction victims with
    | nil => exact fun _ _ hpiece => hpiece
    | cons v _ ih =>
      intro piece hvictims hpiece
      refine ih _ (fun v hv => hvictims v (mem_cons_of_mem _ hv)) ⟨?_, ?_⟩
      · exact (entities_applyRemoteUpdate _ now).trans hpiece.1
      · exact forall_mem_append.mpr ⟨hpiece.2, forall_mem_singleton.mpr
          (sparesEntity_applyRemoteUpdate (fun hv => absurd hv (hvictims v mem_cons_self)) now)⟩
  exact hfold _ _ hvictims ⟨rfl, fun _ hcall => absurd hcall not_mem_nil⟩

section

variable (h : ProposalsOk e s.registry.registry.entities s.tasks)

include h

omit [DecidableEq I] [DecidableEq N] in
theorem ProposalsOk.advance {call : WalLockCall N} {fault : Option String}
    (hk : s.tasks[k]? = some old) (hpromise : old.promise = some call)
    (hsettled : call.settled = none)
    (hpromise' : task.promise = some (call.advance config s.registry fault).call)
    (hproposal : old.proposal e = some call ∧
        task.proposal e = some (call.advance config s.registry fault).call ∨
      task.proposal e = none) (hwon : task.HasWon e → old.HasWon e) :
    ProposalsOk e (call.advance config s.registry fault).registry.registry.entities
      (s.tasks.set k task) := by
  have hold := h.ok old (mem_of_getElem? hk)
  obtain ⟨hspares, hmono⟩ := (hold.spares call hpromise).advance config s.registry fault
  refine h.set hk hmono ⟨fun call' hcall' => ?_, fun call' hcall' => ?_,
    fun hw => hmono (hold.won (hwon hw))⟩ ?_
  · cases hpromise'.symm.trans hcall'
    exact hspares
  · rcases hproposal with ⟨hprop, hprop'⟩ | hnone
    · cases hprop'.symm.trans hcall'
      exact (hold.proposal call hprop).advance hsettled fault
    · cases hnone.symm.trans hcall'
  · rintro (⟨call', hcall', -⟩ | hw)
    · rcases hproposal with ⟨hprop, -⟩ | hnone
      · exact .inl ⟨call, hprop, by simp [hsettled]⟩
      · cases hnone.symm.trans hcall'
    · exact .inr (hwon hw)

omit [DecidableEq I] in
theorem ProposalsOk.proceed {i : I} {call : LockCall N (WalLockCall N)} {promise : WalLockCall N}
    {outcome : CallOutcome N (LockValue N)} (hk : s.tasks[k]? = some (.lock i call))
    (hpromise : call.promise = some promise) (hsettled : promise.settled = some outcome) :
    ProposalsOk e (call.proceed (walRegistry config) s.registry (s.lock i) now
        outcome).registry.registry.entities
      (s.tasks.set k (.lock i
        (call.proceed (walRegistry config) s.registry (s.lock i) now outcome).result)) := by
  have hold := h.ok _ (mem_of_getElem? hk)
  -- the call proposes nothing any more, and has the entity if it had it or had proposed it
  have hnext : ∀ {entities : Entities N (LockValue N)} {call' : LockCall N (WalLockCall N)},
      entities = s.registry.registry.entities → (∀ c ∈ call'.promise, SparesEntity e c) →
      (LockTask.lock i call').proposal e = none → ((LockTask.lock i call').HasWon e →
        (LockTask.lock i call).Alive e ∧ s.registry.registry.entities.has e = true) →
      ProposalsOk e entities (s.tasks.set k (.lock i call')) := by
    rintro _ call' rfl hspares hproposal hwon
    have hnone : ∀ c, c ∉ (LockTask.lock i call').proposal e := by simp [hproposal]
    refine h.set hk id ⟨hspares, fun c hc => absurd hc (hnone c), fun hw => (hwon hw).2⟩ ?_
    rintro (⟨c, hc, -⟩ | hw)
    · exact absurd hc (hnone c)
    · exact (hwon hw).1
  cases call with
  | proposing l ttl promise' =>
    obtain rfl : promise' = promise := some.inj hpromise
    cases outcome with
    | rejected => exact hnext rfl (fun c hc => nomatch hc) rfl fun hw => absurd hw id
    | resolved =>
      refine hnext (entities_applyRemoteUpdate _ now) (fun c hc => ?_) rfl fun hw => ?_
      · cases hc
        exact sparesEntity_applyRemoteUpdate (fun _ => fenceUpdate_operation_ne _ _ _ _ _) now
      · -- the proposal has resolved, so the entity exists
        have hproposal : (LockTask.lock i (.proposing l ttl promise') :
            LockTask I N (WalLockCall N)).proposal e = some promise' := if_pos hw
        have hnot : promise'.settled ≠ some .rejected := by simp [hsettled]
        exact ⟨.inl ⟨promise', hproposal, hnot⟩, (hold.proposal promise' hproposal).created
          (pending_eq_none_of_settled (by simp [hsettled])) hnot⟩
  | fencing =>
    cases outcome with
    | rejected => exact hnext rfl (fun c hc => nomatch hc) rfl fun hw => absurd hw id
    | resolved =>
      refine hnext (entities_call _ now) (fun c hc => ?_) rfl fun hw => ⟨.inr hw, hold.won hw⟩
      cases hc
      exact sparesEntity_call (by nofun) now
  | stamping =>
    cases outcome <;>
      exact hnext rfl (fun c hc => nomatch hc) rfl fun hw => ⟨.inr hw, hold.won hw⟩
  | extending =>
    cases outcome <;> exact hnext rfl (fun c hc => nomatch hc) rfl fun hw => absurd hw id
  | acquired | extended | refused => cases hpromise

/-- **A step keeps the calls in order**, if it starts no deletion of `e`, and a proposal of `e` only
when none is under way. -/
theorem ProposalsOk.step {ev : LockEvent I N} (hdeletes : ¬ev.Deletes (walRegistry config) s e)
    (hproposes : ev.Proposes e → Unproposed (walRegistry config) s e)
    (hstep : LockSystem.step (walRegistry config) s ev = some s') :
    ProposalsOk e s'.registry.registry.entities s'.tasks := by
  -- a call on the registry, and an update that is handed to it
  have hcall : ∀ (op : LocalOp N (LockValue N)) (now : ℕ) (task : LockTask I N (WalLockCall N)),
      op ≠ .releaseEntity e →
      task.promise = some ((walRegistry config).call s.registry op now).call →
      (task.proposal e = none ∨ ∃ metadata, op = .proposeEntity e metadata ∧
        task.proposal e = task.promise ∧ Unproposed (walRegistry config) s e) → ¬task.HasWon e →
      ProposalsOk e ((walRegistry config).call s.registry op now).registry.registry.entities
        (s.tasks ++ [task]) := by
    intro op now task hop hpromise hproposal hwon
    rw [entities_call]
    rcases hproposal with hproposal | ⟨metadata, rfl, hproposal, hidle⟩
    · refine h.add_dormant (forall_mem_singleton.mpr ⟨fun call hcall => ?_, hproposal, hwon⟩)
      exact some.inj (hpromise.symm.trans hcall) ▸ sparesEntity_call hop now
    · exact h.start hidle hpromise hproposal hwon
  have hupdate : ∀ (u : LockUpdate N) (now : ℕ) (task : LockTask I N (WalLockCall N)),
      (u.entityId = e → u.operation ≠ .delete) →
      task.promise = some ((walRegistry config).applyRemoteUpdate s.registry u now).call →
      task.proposal e = none → ¬task.HasWon e →
      ProposalsOk e ((walRegistry config).applyRemoteUpdate s.registry u
        now).registry.registry.entities (s.tasks ++ [task]) := by
    intro u now task hu hpromise hproposal hwon
    rw [entities_applyRemoteUpdate]
    refine h.add_dormant (forall_mem_singleton.mpr ⟨fun call hcall => ?_, hproposal, hwon⟩)
    exact some.inj (hpromise.symm.trans hcall) ▸ sparesEntity_applyRemoteUpdate hu now
  have hgiveUp : ∀ (i : I) (l : LockId) (now : ℕ), l ≠ e →
      ProposalsOk e (s.giveUp (walRegistry config) i l now).registry.registry.entities
        (s.giveUp (walRegistry config) i l now).tasks :=
    fun i l now hl => hcall (.releaseEntity l) now _
      (fun hop => hl (LocalOp.releaseEntity.inj hop)) rfl (.inl rfl) id
  cases LockSystem.step_cases hstep with
  | tryAcquire _ l _ now _ hpiece =>
    subst hpiece
    refine hcall _ now _ nofun rfl ?_ id
    by_cases hl : l = e
    · exact .inr ⟨_, by rw [hl], if_pos hl, hproposes hl⟩
    · exact .inl (if_neg hl)
  | extend _ _ _ now _ hpiece =>
    obtain ⟨-, -, rfl⟩ := extend_eq_some hpiece
    exact hupdate _ now _ (fun _ => fenceUpdate_operation_ne _ _ _ _ _) rfl rfl id
  | throws | returns => exact h
  | release i handle now => exact hgiveUp i handle.lockId now hdeletes
  | expire i l now => exact hgiveUp i l now hdeletes
  | handleRemoteNodeFailure i x now _ hpiece =>
    subst hpiece
    obtain ⟨hentities, hspares⟩ := cleanUp_spec (s.lock i) now fun v hv hve => hdeletes ⟨v, hv, hve⟩
    change ProposalsOk e ((s.lock i).handleRemoteNodeFailure (walRegistry config) s.registry x
      now).registry.registry.entities _
    rw [hentities]
    refine h.add_dormant fun task htask => ?_
    obtain ⟨promise, hpromise, rfl⟩ := mem_map.mp htask
    exact ⟨fun call hcall => some.inj hcall ▸ hspares promise hpromise, rfl, id⟩
  | call op now =>
    cases op with
    | proposeEntity e' =>
      refine hcall _ now _ nofun rfl ?_ id
      by_cases he : e' = e
      · exact .inr ⟨_, by rw [he], if_pos he, hproposes he⟩
      · exact .inl (if_neg he)
    | updateEntity | transferEntity => exact hcall _ now _ nofun rfl (.inl rfl) id
    | releaseEntity =>
      exact hcall _ now _ (fun hop => hdeletes (LocalOp.releaseEntity.inj hop)) rfl (.inl rfl) id
  | update u now => exact hupdate u now _ (fun hu hop => hdeletes ⟨hu, hop⟩) rfl rfl id
  | lock _ _ _ _ call _ hk hpiece =>
    obtain ⟨promise, hpromise, rfl⟩ := map_eq_some_iff.mp hpiece
    cases hsettled : promise.settled with
    | some outcome =>
      have hsettled' : (walRegistry config).settled promise = some outcome := hsettled
      simp only [hsettled']
      exact h.proceed hk hpromise hsettled
    | none =>
      have hsettled' : (walRegistry config).settled promise = none := hsettled
      simp only [hsettled']
      refine h.advance hk hpromise hsettled ?_ ?_ ?_
      · cases call <;> first | rfl | cases hpromise
      · cases call with
        | proposing l _ promise' =>
          cases hpromise
          by_cases hl : l = e
          · exact .inl ⟨if_pos hl, if_pos hl⟩
          · exact .inr (if_neg hl)
        | fencing | stamping | extending => exact .inr rfl
        | acquired | extended | refused => cases hpromise
      · cases call <;> exact id
  | user _ _ _ op _ hk hsettled =>
    refine h.advance hk rfl hsettled rfl ?_ id
    cases op with
    | proposeEntity e' =>
      by_cases he : e' = e
      · exact .inl ⟨if_pos he, if_pos he⟩
      · exact .inr (if_neg he)
    | updateEntity | transferEntity | releaseEntity => exact .inr rfl
  | cleanup _ _ _ _ hk hsettled => exact h.advance hk rfl hsettled rfl (.inr rfl) id

end

omit [DecidableEq I] in
theorem LockTask.Wins.alive (h : task.Wins (walRegistry config) e) : task.Alive e := by
  cases task with
  | lock i call =>
    cases call with
    | acquired => exact .inr h
    | proposing | fencing | stamping | extending | extended | refused => exact absurd h id
  | user op promise =>
    cases op with
    | proposeEntity =>
      obtain ⟨he, record, hsettled⟩ := h
      have hsettled' : promise.settled = some (.resolved record) := hsettled
      exact .inl ⟨promise, if_pos he, by simp [hsettled']⟩
    | updateEntity | transferEntity | releaseEntity => exact absurd h id
  | cleanup => exact absurd h id

end Step

/-- **At most one winner.** Locks and other components share a registry on a write-ahead log. If no
proposal of `e` is made while another one is under way, and nothing deletes `e`, then at most one
call wins `e`, whether it is a proposal or a `tryAcquire`. -/
theorem winner_unique [DecidableEq I] [DecidableEq N] (config : WalRegistryConfig N (LockValue N))
    (h : WalHost N (LockValue N)) (lock : I → DistributedLock N) (e : EntityId)
    (es : List (LockEvent I N)) (t : LockSystem I N (WalHost N (LockValue N)) (WalLockCall N))
    (hok : AllSteps (LockSystem.step (walRegistry config)) (fun s ev =>
      ¬ev.Deletes (walRegistry config) s e ∧
        (ev.Proposes e → Unproposed (walRegistry config) s e)) (.initial h lock) es)
    (hrun : exec (LockSystem.step (walRegistry config)) (.initial h lock) es = some t) :
    AtMostOneWinner (walRegistry config) e t := by
  have hproposals : ProposalsOk e t.registry.registry.entities t.tasks := by
    refine exec_invariant (P := fun s : LockSystem I N (WalHost N (LockValue N)) (WalLockCall N) =>
      ProposalsOk e s.registry.registry.entities s.tasks) ?_ ?_ hok hrun
    · exact fun s ev s' hs hev hstep => hs.step hev.1 hev.2 hstep
    · exact ⟨fun _ h => absurd h not_mem_nil, fun _ _ _ _ h => by simp [LockSystem.initial] at h⟩
  exact fun k k' task task' hk hk' hwins hwins' =>
    hproposals.unique k k' task task' hk hk' hwins.alive hwins'.alive

/-! ### Concrete runs -/

def lockWalConfig : WalRegistryConfig String (LockValue String) where
  maxFileSize := 100
  calculateChecksum _ := ""
  lineLength _ := 0
  lsnThreshold := .finite 0
  keepHistory := 5

def walLocks : LockSystem Unit String (WalHost String (LockValue String)) (WalLockCall String) :=
  .initial (.fresh lockWalConfig "n1") fun _ => .create "n1" 30000

def pieces (k count now : ℕ) : List (LockEvent Unit String) :=
  List.replicate count (.resume k now none)

def proposeAgain : List (LockEvent Unit String) :=
  [.call (.proposeEntity "e" none) 0] ++ pieces 0 5 0 ++ [.call (.proposeEntity "e" none) 1]

theorem winner_unique_proposeAgain :
    ∃ t, exec (LockSystem.step (walRegistry lockWalConfig)) walLocks proposeAgain = some t ∧
      t.tasks.length = 2 ∧ AtMostOneWinner (walRegistry lockWalConfig) "e" t :=
  ⟨_, rfl, rfl, winner_unique lockWalConfig (.fresh lockWalConfig "n1")
    (fun _ => .create "n1" 30000) "e" proposeAgain _ (by decide) rfl⟩

/-- Two proposals of `e` that are made one right after the other both resolve, and two calls of
`tryAcquire` for `x` that are made one right after the other both return a handle. -/
theorem two_winners_of_concurrent_proposals :
    (∃ t, exec (LockSystem.step (walRegistry lockWalConfig)) walLocks
        ([.call (.proposeEntity "e" none) 0, .call (.proposeEntity "e" none) 0] ++ pieces 0 5 0 ++
          pieces 1 5 0) = some t ∧ ¬AtMostOneWinner (walRegistry lockWalConfig) "e" t) ∧
      ∃ t, exec (LockSystem.step (walRegistry lockWalConfig)) walLocks
        ([.tryAcquire () "x" none 0, .tryAcquire () "x" none 0] ++ pieces 0 16 0 ++
          pieces 1 16 0) = some t ∧
        t.returned = [((), ⟨"x", "n1", 0, 30000, 1⟩), ((), ⟨"x", "n1", 0, 30000, 2⟩)] ∧
        ¬AtMostOneWinner (walRegistry lockWalConfig) "x" t := by
  refine ⟨⟨_, rfl, fun h => ?_⟩, _, rfl, by decide, fun h => ?_⟩
  · exact absurd (h 0 1 _ _ rfl rfl ⟨rfl, _, rfl⟩ ⟨rfl, _, rfl⟩) zero_ne_one
  · exact absurd (h 0 1 _ _ rfl rfl rfl rfl) zero_ne_one

end DistributedCore.Locks
