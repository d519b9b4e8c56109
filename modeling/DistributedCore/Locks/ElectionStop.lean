import DistributedCore.Locks.LeaderElection
import DistributedCore.Locks.LockFencing

/-!
# Elections that were stopped

After `stop` an election should not be leader, its lock should not be held and no timer should
run. A call of `stop` does not wait for the cycles under way, and a cycle does not look again
whether the election is running. A cycle that waits for `tryAcquire` while `stop` is called makes
the election leader afterwards; if it is the first cycle, `start` installs the timer as well.

Source: `src/cluster/locks/LeaderElection.ts`.
-/

namespace DistributedCore.Locks

open Entity DistributedLock ElectionSystem List Option LockCall Bool Function

variable {I N S G : Type} {tasks : List (LockTask I N G)}

/-! ### The calls of one lock -/

/-- The lock call of the instance waits for the registry. -/
def LockTask.Waits (i : I) (l : LockId) : LockTask I N G → Prop
  | .lock j call => j = i ∧ call.lockId = some l ∧ call.promise.isSome
  | .user .. => False
  | .cleanup _ => False

/-- The event is a call on the lock by the instance. -/
def LockEvent.Calls (i : I) (l : LockId) : LockEvent I N → Prop
  | .tryAcquire j l' _ _ => j = i ∧ l' = l
  | .extend j handle _ _ => j = i ∧ handle.lockId = l
  | .release j handle _ => j = i ∧ handle.lockId = l
  | _ => False

/-- A step leaves the calls of the instance `i` for the lock `l` alone: the lock is not held unless
it was, calls that have ended or wait for the lock stay, and no call for the lock begins. -/
structure SparesLock (i : I) (l : LockId) (s s' : LockSystem I N S G) : Prop where
  held : (s'.lock i).isHeldLocally l = true → (s.lock i).isHeldLocally l = true
  keeps : ∀ (k : ℕ) (call : LockCall N G), s.tasks[k]? = some (.lock i call) →
    call.promise = none ∨ call.lockId = some l → s'.tasks[k]? = some (.lock i call)
  waits : ∀ (k : ℕ) (task : LockTask I N G), s'.tasks[k]? = some task → task.Waits i l →
    s.tasks[k]? = some task

namespace SparesLock

variable {i : I} {l : LockId} {s s' : LockSystem I N S G}

theorem of_eq (hlock : s'.lock i = s.lock i) (htasks : s'.tasks = s.tasks) : SparesLock i l s s' :=
  ⟨by rw [hlock]; exact id, fun k call h _ => htasks ▸ h, fun k task h _ => htasks ▸ h⟩

section

variable (hheld : (s'.lock i).isHeldLocally l = true → (s.lock i).isHeldLocally l = true)

include hheld

theorem append (htasks : s'.tasks = s.tasks ++ tasks) (hwaits : ∀ task ∈ tasks, ¬task.Waits i l) :
    SparesLock i l s s' := by
  refine ⟨hheld, fun k call h _ => ?_, fun k task h htask => ?_⟩
  · rw [htasks, List.getElem?_append_left (List.getElem?_eq_some_iff.mp h).1, h]
  · rw [htasks] at h
    rcases lt_or_ge k s.tasks.length with hk | hk
    · rwa [List.getElem?_append_left hk] at h
    · rw [getElem?_append_right hk] at h
      exact absurd htask (hwaits task (mem_of_getElem? h))

theorem set {k : ℕ} {old task : LockTask I N G}
    (hold : s.tasks[k]? = some old) (htasks : s'.tasks = s.tasks.set k task)
    (hkeeps : ∀ call, old = .lock i call → call.promise.isSome ∧ call.lockId ≠ some l)
    (hwaits : ¬task.Waits i l) : SparesLock i l s s' := by
  have hk : k < s.tasks.length := (List.getElem?_eq_some_iff.mp hold).1
  refine ⟨hheld, fun k' call h hcall => ?_, fun k' task' h htask' => ?_⟩
  · rw [htasks, getElem?_set]
    split_ifs with hk'
    · subst hk'
      obtain ⟨hpromise, hlockId⟩ := hkeeps call (some.inj (hold.symm.trans h))
      rcases hcall with hended | hl
      · rw [hended] at hpromise
        cases hpromise
      · exact absurd hl hlockId
    · exact h
  · rw [htasks, getElem?_set] at h
    split_ifs at h with hk'
    · cases h
      exact absurd htask' hwaits
    · exact h

end

end SparesLock

variable [DecidableEq I] [DecidableEq N] {A : LockRegistry N S G}
  {piece : LockPiece N S (LockCall N G)} {ev : LockEvent I N}

section LockStep

variable {i : I} {l : LockId} {s s' : LockSystem I N S G}

omit [DecidableEq N] in
theorem isHeldLocally_applyPiece {B : Type} {j : I} {piece : LockPiece N S B}
    (hpiece : j = i → piece.lock.isHeldLocally l = true → (s.lock j).isHeldLocally l = true)
    (h : ((s.applyPiece j piece).lock i).isHeldLocally l = true) :
    (s.lock i).isHeldLocally l = true := by
  change (update s.lock j piece.lock i).isHeldLocally l = true at h
  rw [update_apply] at h
  split_ifs at h with hi
  · subst hi
    exact hpiece rfl h
  · exact h

/-- **What a step of the locks does to the calls of one lock**, unless it calls a method for the
lock: a call for the lock goes on, or the step leaves these calls alone. -/
theorem lockStep_cases (hev : ¬ev.Calls i l) (h : s.step A ev = some s') :
    (∃ k now fault call piece, ev = .resume k now fault ∧ s.tasks[k]? = some (.lock i call) ∧
      call.lockId = some l ∧ call.resume A s.registry (s.lock i) now fault = some piece ∧
      s'.tasks = s.tasks.set k (.lock i piece.result) ∧ s'.lock i = piece.lock) ∨
    SparesLock i l s s' := by
  have hgiveUp : ∀ (j : I) (l' : LockId) (now : ℕ), SparesLock i l s (s.giveUp A j l' now) := by
    intro j l' now
    refine .append (isHeldLocally_applyPiece fun _ h => (isHeldLocally_forget.mp h).1) rfl ?_
    rintro _ (_ | ⟨_, ⟨⟩⟩) ⟨⟩
  cases LockSystem.step_cases h with
  | tryAcquire _ _ _ _ _ hpiece =>
    subst hpiece
    refine .inr (.append (isHeldLocally_applyPiece fun _ => id) rfl ?_)
    rintro _ (_ | ⟨_, ⟨⟩⟩) ⟨hj, hl, -⟩
    exact hev ⟨hj, some.inj hl⟩
  | extend _ _ _ _ _ hpiece =>
    obtain ⟨-, -, rfl⟩ := extend_eq_some hpiece
    refine .inr (.append (isHeldLocally_applyPiece fun _ => id) rfl ?_)
    rintro _ (_ | ⟨_, ⟨⟩⟩) ⟨hj, hl, -⟩
    exact hev ⟨hj, some.inj hl⟩
  | throws | returns => exact .inr (.of_eq rfl rfl)
  | release j handle now => exact .inr (hgiveUp j handle.lockId now)
  | expire j l' now => exact .inr (hgiveUp j l' now)
  | handleRemoteNodeFailure _ _ _ _ hpiece =>
    subst hpiece
    refine .inr (.append (isHeldLocally_applyPiece fun _ h =>
      (isHeldLocally_handleRemoteNodeFailure.mp h).1) rfl ?_)
    intro task htask
    obtain ⟨promise, -, rfl⟩ := mem_map.mp htask
    exact id
  | call | update =>
    refine .inr (.append id rfl ?_)
    rintro _ (_ | ⟨_, ⟨⟩⟩) ⟨⟩
  | lock k now fault j call piece htask hpiece =>
    by_cases hcall : j = i ∧ call.lockId = some l
    · obtain ⟨rfl, hl⟩ := hcall
      exact .inl ⟨k, now, fault, call, piece, rfl, htask, hl, hpiece, rfl, update_self ..⟩
    · obtain ⟨hpromise, hresult, hlock⟩ := resume_spec hpiece
      refine .inr (.set (isHeldLocally_applyPiece fun hj hheld => ?_) htask rfl ?_ ?_)
      · rcases hlock with hlock | ⟨handle, ttlMs, hlock, -, hl⟩
        · rwa [hlock] at hheld
        · have hne : l ≠ handle.lockId := by
            rintro rfl
            exact hcall ⟨hj, hl⟩
          rwa [hlock, isHeldLocally_hold, decide_eq_false hne, Bool.false_or] at hheld
      · rintro _ ⟨⟩
        exact ⟨hpromise, fun hl => hcall ⟨rfl, hl⟩⟩
      · rintro ⟨hj, hl, -⟩
        rcases hresult with hresult | hresult
        · exact hcall ⟨hj, hresult ▸ hl⟩
        · rw [hresult] at hl
          cases hl
  | user _ _ _ _ _ htask => exact .inr (.set id htask rfl (by rintro _ ⟨⟩) id)
  | cleanup _ _ _ _ htask => exact .inr (.set id htask rfl (by rintro _ ⟨⟩) id)

end LockStep

/-! ### The condition -/

section

omit [DecidableEq I] [DecidableEq N]

/-- Once the election is stopped and nothing is under way, it is not leader, its lock is not held
and no timer is running. -/
def StopIsFinal (s : ElectionSystem I N S G) (i : I) : Prop :=
  (s.process i).isRunning = false → (s.process i).cycles = [] → (s.process i).stops = [] →
    (s.process i).isLeader = false ∧
      (s.locks.lock i).isHeldLocally (s.process i).lockId = false ∧ (s.process i).timers = []

/-- The renewal of the lock has been rejected. -/
def LockTask.FailsRenewal (A : LockRegistry N S G) (i : I) (l : LockId) : LockTask I N G → Prop
  | .lock j (.extending updated _ promise) =>
    j = i ∧ updated.lockId = l ∧ A.settled promise = some .rejected
  | _ => False

/-- The event resumes a renewal that has been rejected. -/
def LockEvent.FailsRenewal (A : LockRegistry N S G) (locks : LockSystem I N S G) (i : I)
    (l : LockId) : LockEvent I N → Prop
  | .resume k _ _ => ∃ task ∈ locks.tasks[k]?, task.FailsRenewal A i l
  | _ => False

/-- No cycle of the election `i` is under way when `stop` is called or a timer fires, the entity of
a lock that is held is known when a cycle begins, the sidecar can be written, and only the election
uses its lock. -/
def ElectionEvent.Orderly (A : LockRegistry N S G) (i : I) (s : ElectionSystem I N S G) :
    ElectionEvent I N → Prop
  | .stop j _ => j = i → (s.process i).cycles = []
  | .tick j _ _ => j = i → (s.process i).cycles = [] ∧
      ((s.locks.lock i).isHeldLocally (s.process i).lockId = true →
        (A.getEntityHost s.locks.registry (s.process i).lockId).isSome)
  | .lock ev =>
    ¬ev.Calls i (s.process i).lockId ∧ ¬ev.FailsRenewal A s.locks i (s.process i).lockId
  | .start .. => True
  | .cycle .. => True
  | .stopped .. => True

end

/-! ### The invariant -/

section Invariant

omit [DecidableEq I] [DecidableEq N]

/-- The call is one of `tryAcquire`, or it has ended without a handle. -/
def LockCall.Acquires (l : LockId) : LockCall N G → Prop
  | .proposing l' .. => l' = l
  | .fencing l' .. => l' = l
  | .stamping l' .. => l' = l
  | .acquired handle => handle.lockId = l
  | .refused => True
  | .extending .. => False
  | .extended _ => False

/-- The call is one of `extend`. -/
def LockCall.Extends (l : LockId) : LockCall N G → Prop
  | .extending updated .. => updated.lockId = l
  | .extended handle => handle.lockId = l
  | _ => False

def ElectionCycle.task : ElectionCycle → Option ℕ
  | .acquiring task _ => some task
  | .renewing task _ => task
  | .installing => none

def ElectionCycle.starts : ElectionCycle → Bool
  | .acquiring _ starts => starts
  | .renewing _ starts => starts
  | .installing => true

/-- The cycle waits for a call on the lock of its election. -/
def CycleOk (locks : LockSystem I N S G) (p : ElectionProcess N) (i : I) : ElectionCycle → Prop
  | .acquiring task _ => p.currentHandle = none ∧ ∃ call : LockCall N G,
      locks.tasks[task]? = some (.lock i call) ∧ call.Acquires p.lockId ∧
        ((locks.lock i).isHeldLocally p.lockId = true → call.handle.isSome)
  | .renewing (some task) _ => ∃ call : LockCall N G,
      locks.tasks[task]? = some (.lock i call) ∧ call.Extends p.lockId
  | .renewing none _ => (locks.lock i).isHeldLocally p.lockId = false
  | .installing => (locks.lock i).isHeldLocally p.lockId = true → p.isLeader = true

/-- The invariant of the election `i`: at most one cycle is under way, only its call uses the lock,
and a lock that is held belongs to the handle or to the cycle. -/
structure ElectionOk (locks : LockSystem I N S G) (p : ElectionProcess N) (i : I) : Prop where
  handle : ∀ handle ∈ p.currentHandle, handle.lockId = p.lockId
  waits : ∀ (k : ℕ) (task : LockTask I N G), locks.tasks[k]? = some task → task.Waits i p.lockId →
    ∃ cycle ∈ p.cycles, cycle.task = some k
  timers : p.timers = p.renewTimer.toList
  stopped : p.isRunning = false → p.currentHandle = none ∧ p.renewTimer = none ∧ p.cycles = []
  idle : p.cycles = [] → (locks.lock i).isHeldLocally p.lockId = true → p.isLeader = true
  busy : ∀ cycle ∈ p.cycles, p.cycles = [cycle] ∧ CycleOk locks p i cycle ∧
    (cycle.starts = true → p.renewTimer = none)

end Invariant

section Lock

variable {locks locks' : LockSystem I N S G} {p : ElectionProcess N} {i : I} {call : LockCall N G}
  {l : LockId}

section

omit [DecidableEq I] [DecidableEq N]

theorem LockCall.ended_or_lockId
    (h : call.Acquires l ∨ call.Extends l) : call.promise = none ∨ call.lockId = some l := by
  cases call with
  | proposing | fencing | stamping => exact .inr (congrArg some (h.resolve_right id))
  | extending => exact .inr (congrArg some (h.resolve_left id))
  | acquired | extended | refused => exact .inl rfl

theorem ElectionOk.free (h : ElectionOk locks p i) (hcycles : p.cycles = [])
    (hhandle : p.currentHandle = none) : (locks.lock i).isHeldLocally p.lockId = false := by
  refine eq_false_iff.mpr fun hheld => ?_
  have hleader := h.idle hcycles hheld
  rw [LeaderElection.isLeader, hhandle] at hleader
  cases hleader

theorem ElectionOk.of_spares (h : ElectionOk locks p i)
    (hspares : SparesLock i p.lockId locks locks') : ElectionOk locks' p i := by
  refine ⟨h.handle, fun k task htask hwaits => ?_, h.timers, h.stopped,
    fun hcycles hheld => h.idle hcycles (hspares.held hheld), fun cycle hcycle => ?_⟩
  · exact h.waits k task (hspares.waits k task htask hwaits) hwaits
  · obtain ⟨hone, hok, hstarts⟩ := h.busy cycle hcycle
    refine ⟨hone, ?_, hstarts⟩
    match cycle, hok with
    | .acquiring task _, ⟨hhandle, call, htask, hcall, hheld⟩ =>
      exact ⟨hhandle, call, hspares.keeps task call htask (ended_or_lockId (.inl hcall)),
        hcall, fun h => hheld (hspares.held h)⟩
    | .renewing (some task) _, ⟨call, htask, hcall⟩ =>
      exact ⟨call, hspares.keeps task call htask (ended_or_lockId (.inr hcall)), hcall⟩
    | .renewing none _, hfree =>
      exact eq_false_iff.mpr fun h => eq_false_iff.mp hfree (hspares.held h)
    | .installing, hok => exact fun h => hok (hspares.held h)

theorem LockCall.resume_kind {r : S} {lock : DistributedLock N} {now : ℕ}
    {fault : Option String} (h : call.resume A r lock now fault = some piece) :
    (call.Acquires l → piece.result.Acquires l) ∧
    ((∀ promise ∈ call.promise, A.settled promise ≠ some .rejected) → call.Extends l →
      piece.result.Extends l) := by
  obtain ⟨promise, hpromise, rfl⟩ := map_eq_some_iff.mp h
  split
  · rename_i outcome hsettled
    cases call with
    | proposing | fencing =>
      refine ⟨?_, fun _ => False.elim⟩
      cases outcome
      exacts [id, fun _ => trivial]
    | stamping => exact ⟨id, fun _ => False.elim⟩
    | extending =>
      refine ⟨False.elim, fun hrejected => ?_⟩
      cases outcome with
      | resolved => exact id
      | rejected => exact absurd hsettled (hrejected promise hpromise)
    | acquired | extended | refused => cases hpromise
  · cases call <;> exact ⟨id, fun _ => id⟩

end

/-- **Events of the locks keep the invariant.** -/
theorem ElectionOk.lock (h : ElectionOk locks p i)
    (hcalls : ¬ev.Calls i p.lockId) (hfails : ¬ev.FailsRenewal A locks i p.lockId)
    (hstep : locks.step A ev = some locks') : ElectionOk locks' p i := by
  rcases lockStep_cases hcalls hstep with
    ⟨k, now, fault, call, piece, rfl, htask, hl, hpiece, htasks, hlock⟩ | hspares
  · -- the call of the cycle goes on
    obtain ⟨hpromise, -, hspec⟩ := resume_spec hpiece
    obtain ⟨cycle, hcycle, hk⟩ := h.waits k _ htask ⟨rfl, hl, hpromise⟩
    obtain ⟨hone, hok, hstarts⟩ := h.busy cycle hcycle
    have hnew : locks'.tasks[k]? = some (.lock i piece.result) := by
      rw [htasks, List.getElem?_set_self (List.getElem?_eq_some_iff.mp htask).1]
    refine ⟨h.handle, fun k' task htask' hwaits => ?_, h.timers, h.stopped, fun hcycles => ?_,
      fun cycle' hcycle' => ?_⟩
    · by_cases hk' : k = k'
      · exact ⟨cycle, hcycle, hk' ▸ hk⟩
      · rw [htasks, getElem?_set_ne hk'] at htask'
        exact h.waits k' task htask' hwaits
    · rw [hcycles] at hone
      cases hone
    · obtain rfl : cycle' = cycle := by simpa [hone] using hcycle'
      refine ⟨hone, ?_, hstarts⟩
      match cycle', hok, hk with
      | .acquiring task _, ⟨hhandle, call', htask', hcall, hheld⟩, hk =>
        cases hk
        obtain rfl : call' = call := by simpa using htask'.symm.trans htask
        refine ⟨hhandle, _, hnew, (resume_kind hpiece).1 hcall, fun hheld' => ?_⟩
        rcases hspec with hsame | ⟨handle, ttlMs, -, hresult, -⟩
        · -- a call that still waits has no handle, so the lock was not held
          rw [hlock, hsame] at hheld'
          have := hheld hheld'
          cases call' <;> cases this <;> cases hpromise
        · rw [hresult]
          rfl
      | .renewing (some task) _, ⟨call', htask', hcall⟩, hk =>
        cases hk
        obtain rfl : call' = call := by simpa using htask'.symm.trans htask
        refine ⟨_, hnew, (resume_kind hpiece).2 (fun promise hpromise h => ?_) hcall⟩
        cases call' with
        | extending _ _ promise' =>
          cases hpromise
          exact hfails ⟨_, htask, rfl, hcall, h⟩
        | extended => cases hpromise
        | proposing | fencing | stamping | acquired | refused => exact hcall
  · exact h.of_spares hspares

theorem ElectionOk.foreign (h : ElectionOk locks p i) (hrun : ForeignRun A i locks locks') :
    ElectionOk locks' p i := by
  obtain ⟨evs, hevs, hexec⟩ := hrun
  refine exec_invariant (P := fun locks => ElectionOk locks p i) (fun locks ev locks' h hev => ?_) h
    ((allSteps_true _ locks evs).and_forall hevs) hexec
  match ev, hev.2 with
  | .tryAcquire .., hj | .extend .., hj | .release .., hj => exact h.lock (fun h => hj h.1) id
  | .call .., _ => exact h.lock id id

end Lock

/-! ### The pieces of an election -/

section Pieces

variable {s s' : ElectionSystem I N S G} {locks locks' : LockSystem I N S G} {p : ElectionProcess N}
  {i : I} {now k : ℕ}

omit [DecidableEq I] [DecidableEq N] in
theorem ElectionOk.begin {cycle : ElectionCycle}
    (h : ElectionOk locks p i) (hrunning : p.isRunning = true) (hcycles : p.cycles = [])
    (htasks : locks'.tasks = locks.tasks ++ tasks)
    (hcall : tasks = [] ∨ ∃ task, tasks = [task] ∧ cycle.task = some locks.tasks.length)
    (hok : CycleOk locks' p i cycle) (hstarts : cycle.starts = true → p.renewTimer = none) :
    ElectionOk locks' { p with cycles := p.cycles ++ [cycle] } i := by
  refine ⟨h.handle, fun k task htask hwaits => ?_, h.timers, fun hstopped => ?_, fun hidle => ?_,
    fun cycle' hcycle' => ?_⟩
  · rw [htasks] at htask
    rcases lt_or_ge k locks.tasks.length with hk | hk
    · -- no call for the lock was waiting
      rw [List.getElem?_append_left hk] at htask
      obtain ⟨cycle', hcycle', -⟩ := h.waits k task htask hwaits
      rw [hcycles] at hcycle'
      cases hcycle'
    · rw [getElem?_append_right hk] at htask
      rcases hcall with rfl | ⟨task', rfl, htask'⟩
      · cases htask
      · have hlt := (List.getElem?_eq_some_iff.mp htask).1
        rw [length_singleton] at hlt
        refine ⟨cycle, by simp, ?_⟩
        rw [htask']
        congr 1
        omega
  · rw [hrunning] at hstopped
    cases hstopped
  · simp at hidle
  · obtain rfl : cycle' = cycle := by simpa [hcycles] using hcycle'
    exact ⟨by simp [hcycles], hok, hstarts⟩

omit [DecidableEq N] in
theorem ElectionOk.beginCycle {starts : Bool} (h : ElectionOk s.locks (s.process i) i)
    (hrunning : (s.process i).isRunning = true) (hcycles : (s.process i).cycles = [])
    (hhost : (s.locks.lock i).isHeldLocally (s.process i).lockId = true →
      (A.getEntityHost s.locks.registry (s.process i).lockId).isSome)
    (hstarts : starts = true → (s.process i).renewTimer = none) :
    ElectionOk (s.beginCycle A i now starts).locks ((s.beginCycle A i now starts).process i) i := by
  simp only [ElectionSystem.beginCycle]
  split
  · rename_i handle hhandle
    have hl : handle.lockId = (s.process i).lockId := h.handle handle hhandle
    split
    · rename_i piece hpiece
      obtain ⟨-, -, rfl⟩ := extend_eq_some hpiece
      rw [setProcess_self]
      refine h.begin hrunning hcycles rfl (.inr ⟨_, rfl, rfl⟩) ?_ hstarts
      exact ⟨_, getElem?_concat_length, hl⟩
    · rename_i hthrows
      rw [setProcess_self]
      refine h.begin hrunning hcycles (append_nil _).symm (.inl rfl) ?_ hstarts
      -- `extend` throws although the entity is known, so the lock is not held
      refine eq_false_iff.mpr fun hheld => ?_
      have hknown := hhost hheld
      have hhas : (s.locks.lock i).heldLocks.has handle.lockId = true := hl ▸ hheld
      rw [← hl] at hknown
      simp [DistributedLock.extend, hhas, isSome_iff_ne_none.mp hknown] at hthrows
  · rename_i hhandle
    rw [setProcess_self]
    refine h.begin hrunning hcycles rfl (.inr ⟨_, rfl, rfl⟩) ?_ hstarts
    refine ⟨hhandle, _, getElem?_concat_length, rfl, fun hheld => ?_⟩
    rw [isHeldLocally, show (s.locks.startLock i _).lock i = _ from update_self ..] at hheld
    cases hheld.symm.trans (h.free hcycles hhandle)

section

variable (h : ElectionOk locks p i)

include h

variable {cycle : ElectionCycle}

section

omit [DecidableEq I] [DecidableEq N]

theorem ElectionOk.only (hcycle : p.cycles[k]? = some cycle) :
    k = 0 ∧ p.cycles = [cycle] ∧ p.isRunning = true := by
  obtain ⟨hone, -⟩ := h.busy cycle (mem_of_getElem? hcycle)
  refine ⟨?_, hone, eq_true_of_not_eq_false fun hstopped => ?_⟩
  · have hk := (List.getElem?_eq_some_iff.mp hcycle).1
    rw [hone, length_singleton] at hk
    omega
  · have hempty := (h.stopped hstopped).2.2
    rw [hone] at hempty
    cases hempty

theorem ElectionOk.not_waits (hcycle : p.cycles = [cycle])
    (hended : ∀ k ∈ cycle.task, ∃ call : LockCall N G,
      locks.tasks[k]? = some (.lock i call) ∧ call.promise = none)
    {task : LockTask I N G} (htask : locks.tasks[k]? = some task) : ¬task.Waits i p.lockId := by
  intro hwaits
  obtain ⟨cycle', hcycle', hk⟩ := h.waits k task htask hwaits
  obtain rfl : cycle' = cycle := by simpa [hcycle] using hcycle'
  obtain ⟨call, hcall, hpromise⟩ := hended k hk
  cases htask.symm.trans hcall
  rw [LockTask.Waits, hpromise] at hwaits
  cases hwaits.2.2

theorem ElectionOk.endCycle {handle : Option (LockHandle N)} (hcycle : p.cycles[k]? = some cycle)
    (hended : ∀ k ∈ cycle.task, ∃ call : LockCall N G,
      locks.tasks[k]? = some (.lock i call) ∧ call.promise = none)
    (hhandle : ∀ x ∈ handle, x.lockId = p.lockId)
    (hheld : (locks.lock i).isHeldLocally p.lockId = true → handle.isSome) :
    ElectionOk locks
      { p with
        currentHandle := handle
        cycles := if cycle.starts then p.cycles.set k .installing else p.cycles.eraseIdx k } i := by
  obtain ⟨rfl, hone, hrunning⟩ := h.only hcycle
  obtain ⟨-, -, hstarts⟩ := h.busy cycle (mem_of_getElem? hcycle)
  refine ⟨hhandle, fun k task htask hwaits => absurd hwaits (h.not_waits hone hended htask),
    h.timers, fun hstopped => ?_, fun _ => hheld, fun cycle' hcycle' => ?_⟩
  · rw [hrunning] at hstopped
    cases hstopped
  · simp only [hone] at hcycle' ⊢
    split_ifs at hcycle' ⊢ with hcase
    · obtain rfl : cycle' = .installing := by simpa using hcycle'
      exact ⟨rfl, hheld, fun _ => hstarts hcase⟩
    · simp at hcycle'

theorem ElectionOk.install {timer created : ℕ} (hcycle : p.cycles[k]? = some .installing) :
    ElectionOk locks
      { p with
        renewTimer := some timer
        timers := p.timers ++ [timer]
        created := created
        cycles := p.cycles.eraseIdx k } i := by
  obtain ⟨rfl, hone, hrunning⟩ := h.only hcycle
  obtain ⟨-, hheld, htimer⟩ := h.busy _ (mem_of_getElem? hcycle)
  refine ⟨h.handle, fun k task htask hwaits => ?_, ?_, fun hstopped => ?_, fun _ => hheld,
    fun cycle' hcycle' => ?_⟩
  · exact absurd hwaits (h.not_waits hone (by rintro _ ⟨⟩) htask)
  · rw [h.timers, htimer rfl]
    rfl
  · rw [hrunning] at hstopped
    cases hstopped
  · simp [hone] at hcycle'

end

end

theorem ElectionOk.elected (h : ElectionOk s.locks p i) :
    ElectionOk ((s.setProcess i p).elected A i now).locks
      (((s.setProcess i p).elected A i now).process i) i := by
  obtain ⟨hrun, hprocess⟩ := foreign_elected (s.setProcess i p) i i now
  rw [hprocess, setProcess_self]
  exact h.foreign hrun

theorem ElectionOk.deposed (h : ElectionOk s.locks p i) :
    ElectionOk ((s.setProcess i p).deposed A i now).locks
      (((s.setProcess i p).deposed A i now).process i) i := by
  obtain ⟨hrun, hprocess⟩ := foreign_deposed (s.setProcess i p) i i now
  rw [hprocess, setProcess_self]
  exact h.foreign hrun

theorem ElectionOk.resumeCycle (h : ElectionOk s.locks (s.process i) i)
    (hstep : s.resumeCycle A i now k = some s') : ElectionOk s'.locks (s'.process i) i := by
  simp only [ElectionSystem.resumeCycle] at hstep
  split at hstep
  · rename_i task starts hcycle
    obtain ⟨-, ⟨-, call, htask, hcall, hheld⟩, -⟩ := h.busy _ (mem_of_getElem? hcycle)
    split at hstep
    · rename_i j handle htask'
      obtain ⟨rfl, rfl⟩ : j = i ∧ call = .acquired handle := by
        simpa [eq_comm] using htask'.symm.trans htask
      cases hstep
      refine (h.endCycle hcycle ?_ ?_ fun _ => rfl).elected
      · rintro _ ⟨⟩
        exact ⟨_, htask, rfl⟩
      · rintro _ ⟨⟩
        exact hcall
    · rename_i j htask'
      obtain ⟨rfl, rfl⟩ : j = i ∧ call = .refused := by
        simpa [eq_comm] using htask'.symm.trans htask
      cases hstep
      rw [ElectionSystem.endCycle, setProcess_self]
      refine h.endCycle hcycle ?_ h.handle fun hheld' => ?_
      · rintro _ ⟨⟩
        exact ⟨_, htask, rfl⟩
      · exact absurd (hheld hheld') (by simp [LockCall.handle])
    · cases hstep
  · rename_i task starts hcycle
    obtain ⟨-, ⟨call, htask, hcall⟩, -⟩ := h.busy _ (mem_of_getElem? hcycle)
    split at hstep
    · rename_i j handle htask'
      obtain ⟨rfl, rfl⟩ : j = i ∧ call = .extended handle := by
        simpa [eq_comm] using htask'.symm.trans htask
      cases hstep
      rw [ElectionSystem.endCycle, setProcess_self]
      refine h.endCycle hcycle ?_ ?_ fun _ => rfl
      · rintro _ ⟨⟩
        exact ⟨_, htask, rfl⟩
      · rintro _ ⟨⟩
        exact hcall
    · rename_i j htask'
      obtain ⟨rfl, rfl⟩ : j = i ∧ call = .refused := by
        simpa [eq_comm] using htask'.symm.trans htask
      exact hcall.elim
    · cases hstep
  · rename_i starts hcycle
    obtain ⟨-, hfree, -⟩ := h.busy _ (mem_of_getElem? hcycle)
    cases hstep
    refine (h.endCycle hcycle ?_ ?_ fun hheld => ?_).deposed
    · rintro _ ⟨⟩
    · rintro _ ⟨⟩
    · exact absurd hheld (eq_false_iff.mp hfree)
  · rename_i hcycle
    cases hstep
    rw [setProcess_self]
    exact h.install hcycle
  · cases hstep

omit [DecidableEq I] [DecidableEq N] in
theorem ElectionOk.halt {stops : List (Option ℕ)} (h : ElectionOk locks p i)
    (hcycles : p.cycles = []) (hfree : (locks.lock i).isHeldLocally p.lockId = false) :
    ElectionOk locks
      { p with
        isRunning := false
        renewTimer := none
        timers := p.renewTimer.elim p.timers p.timers.erase
        currentHandle := none
        stops := stops } i := by
  refine ⟨fun _ hnone => absurd hnone (not_mem_none _), h.waits, ?_,
    fun _ => ⟨rfl, rfl, hcycles⟩, fun _ hheld => ?_, fun cycle hcycle => ?_⟩
  · change p.renewTimer.elim p.timers p.timers.erase = []
    rw [h.timers]
    cases p.renewTimer <;> simp
  · exact absurd hheld (eq_false_iff.mp hfree)
  · rw [hcycles] at hcycle
    cases hcycle

section

variable (h : ElectionOk s.locks (s.process i) i)

include h

omit [DecidableEq N] in
theorem ElectionOk.stop (hcycles : (s.process i).cycles = []) :
    ElectionOk (s.stop A i now).locks ((s.stop A i now).process i) i := by
  simp only [ElectionSystem.stop]
  split_ifs
  · exact h
  · split
    · rename_i hhandle
      rw [setProcess_self]
      exact h.halt hcycles (h.free hcycles hhandle)
    · rename_i handle hhandle
      have hl : handle.lockId = (s.process i).lockId := h.handle handle hhandle
      split
      · rename_i piece hpiece
        obtain ⟨-, rfl⟩ := release_eq_some hpiece
        rw [setProcess_self]
        refine ElectionOk.halt (h.of_spares ?_) hcycles ?_
        · refine .append (isHeldLocally_applyPiece fun _ h => (isHeldLocally_forget.mp h).1) rfl ?_
          rintro _ (_ | ⟨_, ⟨⟩⟩) ⟨⟩
        · change (update s.locks.lock i ((s.locks.lock i).forget handle.lockId)
            i).isHeldLocally (s.process i).lockId = false
          rw [update_self, ← hl]
          exact eq_false_iff.mpr fun h => (isHeldLocally_forget.mp h).2 rfl
      · rename_i hthrows
        rw [setProcess_self]
        refine h.halt hcycles (eq_false_iff.mpr fun hheld => ?_)
        have hhas : (s.locks.lock i).heldLocks.has handle.lockId = true := hl ▸ hheld
        simp [DistributedLock.release, hhas] at hthrows

theorem ElectionOk.resumeStop
    (hstep : s.resumeStop A i now k = some s') : ElectionOk s'.locks (s'.process i) i := by
  obtain ⟨hrun, hprocess⟩ := resumeStop_spec hstep
  rw [hprocess]
  exact ElectionOk.foreign ⟨h.handle, h.waits, h.timers, h.stopped, h.idle, h.busy⟩ hrun

/-- **The invariant is kept by orderly events.** -/
theorem ElectionOk.step {ev : ElectionEvent I N}
    (hev : ev.Orderly A i s) (hstep : s.step A ev = some s') :
    ElectionOk s'.locks (s'.process i) i := by
  by_cases hactor : ∃ j, ev.actor = some j ∧ i ≠ j
  · obtain ⟨j, hj, hij⟩ := hactor
    obtain ⟨hrun, hprocess⟩ := foreign_step hij hj hstep
    rw [hprocess]
    exact h.foreign hrun
  · have hown : ∀ j, ev.actor = some j → j = i := fun j hj =>
      (not_not.mp fun hij => hactor ⟨j, hj, hij⟩).symm
    cases ev with
    | start j =>
      obtain rfl := hown j rfl
      simp only [ElectionSystem.step] at hstep
      split_ifs at hstep with hrunning
      · cases hstep
        exact h
      · cases hstep
        obtain ⟨hhandle, htimer, hcycles⟩ := h.stopped (eq_false_iff.mpr hrunning)
        have hfree := h.free hcycles hhandle
        refine ElectionOk.beginCycle ?_ ?_ ?_ ?_ ?_ <;> rw [setProcess_self]
        · exact ⟨h.handle, h.waits, h.timers, (fun hfalse => by cases hfalse), h.idle, h.busy⟩
        · exact hcycles
        · exact fun hheld => absurd hheld (eq_false_iff.mp hfree)
        · exact fun _ => htimer
    | stop j =>
      obtain rfl := hown j rfl
      cases hstep
      exact h.stop (hev rfl)
    | tick j =>
      obtain rfl := hown j rfl
      simp only [ElectionSystem.step] at hstep
      split_ifs at hstep with htimer hrunning <;> cases hstep
      · exact h.beginCycle hrunning (hev rfl).1 (hev rfl).2 fun hnew => by cases hnew
      · exact h
    | cycle j =>
      obtain rfl := hown j rfl
      exact h.resumeCycle hstep
    | stopped j =>
      obtain rfl := hown j rfl
      exact h.resumeStop hstep
    | lock =>
      obtain ⟨locks, hlocks, rfl⟩ := map_eq_some_iff.mp hstep
      exact h.lock hev.1 hev.2 hlocks

end

end Pieces

/-! ### Stopped elections -/

/-- **A stopped election has stopped**, after every run of orderly events from a state in which it
was constructed, on every kind of registry. -/
theorem stopIsFinal_run (A : LockRegistry N S G) (s : ElectionSystem I N S G) (i : I)
    (es : List (ElectionEvent I N)) {t : ElectionSystem I N S G} {groupId : String} {nodeId : N}
    {leaseDurationMs : ℕ} {router : Option N}
    (hcreate : s.process i = .create (.create groupId nodeId leaseDurationMs) router)
    (hfree : (s.locks.lock i).isHeldLocally ("election:" ++ groupId) = false)
    (hwaits : ∀ task ∈ s.locks.tasks, ¬task.Waits i ("election:" ++ groupId))
    (hes : AllSteps (ElectionSystem.step A) (fun s ev => ev.Orderly A i s) s es)
    (hrun : exec (ElectionSystem.step A) s es = some t) : StopIsFinal t i := by
  have hok : ElectionOk t.locks (t.process i) i := by
    refine exec_invariant
      (P := fun s : ElectionSystem I N S G => ElectionOk s.locks (s.process i) i)
      (fun _ _ _ h hev hstep => h.step hev hstep) ?_ hes hrun
    rw [hcreate]
    refine ⟨fun _ h => absurd h (not_mem_none _), fun k task htask h => ?_, rfl,
      fun _ => ⟨rfl, rfl, rfl⟩, fun _ hheld => ?_, fun _ h => absurd h not_mem_nil⟩
    · exact absurd h (hwaits task (mem_of_getElem? htask))
    · exact absurd hheld (eq_false_iff.mp hfree)
  intro hstopped hcycles _
  obtain ⟨hhandle, htimer, -⟩ := hok.stopped hstopped
  refine ⟨?_, hok.free hcycles hhandle, ?_⟩
  · rw [LeaderElection.isLeader, hhandle]
    rfl
  · rw [hok.timers, htimer]
    rfl

instance (i : I) (l : LockId) : (ev : LockEvent I N) → Decidable (ev.Calls i l)
  | .tryAcquire j l' _ _ => inferInstanceAs (Decidable (j = i ∧ l' = l))
  | .extend j handle _ _ | .release j handle _ =>
    inferInstanceAs (Decidable (j = i ∧ handle.lockId = l))
  | .expire .. | .handleRemoteNodeFailure .. | .call .. | .update .. | .resume .. => .isFalse id

instance (i : I) (l : LockId) (task : LockTask I N G) : Decidable (task.FailsRenewal A i l) := by
  unfold LockTask.FailsRenewal
  split <;> infer_instance

instance (locks : LockSystem I N S G) (i : I) (l : LockId) :
    (ev : LockEvent I N) → Decidable (ev.FailsRenewal A locks i l)
  | .resume k _ _ => inferInstanceAs (Decidable (∃ task ∈ locks.tasks[k]?, task.FailsRenewal A i l))
  | .tryAcquire .. | .extend .. | .release .. | .expire .. | .handleRemoteNodeFailure ..
  | .call .. | .update .. => .isFalse id

instance (i : I) (s : ElectionSystem I N S G) (ev : ElectionEvent I N) :
    Decidable (ev.Orderly A i s) := by
  unfold ElectionEvent.Orderly
  split <;> infer_instance

instance (i : I) (l : LockId) (task : LockTask I N G) : Decidable (task.Waits i l) := by
  unfold LockTask.Waits
  split <;> infer_instance

instance (s : ElectionSystem I N S G) (i : I) : Decidable (StopIsFinal s i) :=
  inferInstanceAs (Decidable (_ → _ → _ → _ ∧ _ ∧ _))

def singleElection : ElectionSystem Unit String (InMemoryEntityRegistry String (LockValue String))
      (CallOutcome String (LockValue String)) :=
  .initial singleLock (fun _ => .create "g" "n1" 15000) fun _ => none

def startAlone : List (ElectionEvent Unit String) :=
  [.start () 0, .lock (.resume 0 0 none), .lock (.resume 0 0 none), .lock (.resume 0 0 none),
    .cycle () 0 0, .cycle () 0 0]

def renewAndStop : List (ElectionEvent Unit String) :=
  startAlone ++ [.tick () 0 5000, .lock (.resume 1 5000 none), .cycle () 0 5000, .stop () 7000,
    .stopped () 0 7000]

theorem stopIsFinal_run_renewAndStop :
    ∃ t, exec (ElectionSystem.step inMemoryRegistry) singleElection renewAndStop = some t ∧
      (t.process ()).isRunning = false ∧ (t.process ()).stops = [] ∧ StopIsFinal t () :=
  ⟨_, rfl, rfl, rfl, stopIsFinal_run inMemoryRegistry singleElection () renewAndStop rfl (by decide)
    (by decide) (by decide) rfl⟩

/-- `stop` is called while the first cycle waits for `tryAcquire`, and returns. The cycle goes on:
the election is leader, its lock is held and its timer runs. -/
theorem not_stopIsFinal_of_stop_during_start :
    ∃ t, exec (ElectionSystem.step inMemoryRegistry) singleElection
        [.start () 0, .stop () 0, .lock (.resume 0 0 none), .lock (.resume 0 0 none),
          .lock (.resume 0 0 none), .cycle () 0 0, .cycle () 0 0] = some t ∧
      (t.process ()).isLeader = true ∧ (t.locks.lock ()).isHeldLocally "election:g" = true ∧
      (t.process ()).timers = [0] ∧ ¬StopIsFinal t () :=
  ⟨_, rfl, by decide, by decide, by decide, by decide⟩

/-- The entity of the lock is deleted while the lock is held. The next cycle drops the handle, and
`stop` does not release the lock. -/
theorem not_stopIsFinal_of_entity_deleted :
    ∃ t, exec (ElectionSystem.step inMemoryRegistry) singleElection
        (startAlone ++ [.lock (.call (.releaseEntity "election:g") 4000), .tick () 0 5000,
          .cycle () 0 5000, .stop () 7000]) = some t ∧
      (t.process ()).isLeader = false ∧ (t.locks.lock ()).isHeldLocally "election:g" = true ∧
      ¬StopIsFinal t () :=
  ⟨_, rfl, by decide, by decide, by decide⟩

end DistributedCore.Locks
