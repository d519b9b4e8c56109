import DistributedCore.Locks.DistributedLock
import DistributedCore.Library.Tasks

/-!
# Locks that share a registry

Any number of `DistributedLock` instances keep their locks in one entity registry, which other
components use as well. A `LockSystem` is the registry, the instances and the calls under way; an
event is one piece of a call, the callback of a timer, or a call of another component. Pieces of
different calls run in any order.

Source: `src/cluster/locks/DistributedLock.ts`.
-/

namespace DistributedCore.Locks

open Entity List Function Option

/-- The calls that were made, with the promises they wait for. -/
inductive LockTask (I N G : Type)
  /-- A call of `tryAcquire` or `extend` on the instance `i`. -/
  | lock (i : I) (call : LockCall N G)
  /-- A call on the registry by another component. -/
  | user (op : LocalOp N (LockValue N)) (promise : G)
  /-- A call on the registry whose result nobody uses. -/
  | cleanup (promise : G)

/-- The registry of a node, its locks and the calls that wait. -/
structure LockSystem (I N S G : Type) where
  registry : S
  lock : I → DistributedLock N
  tasks : List (LockTask I N G)
  /-- The handles that `tryAcquire` and `extend` have returned, and the instances. -/
  returned : List (I × LockHandle N)
  emitted : List (RegistryEvent N (LockValue N))

/-- The calls, the timers, the remote updates and the waits that end. -/
inductive LockEvent (I N : Type)
  | tryAcquire (i : I) (lockId : LockId) (ttlMs : Option ℕ) (now : ℕ)
  | extend (i : I) (handle : LockHandle N) (additionalMs : Option ℕ) (now : ℕ)
  | release (i : I) (handle : LockHandle N) (now : ℕ)
  /-- The TTL timer of a lock fires. -/
  | expire (i : I) (lockId : LockId) (now : ℕ)
  | handleRemoteNodeFailure (i : I) (nodeId : N) (now : ℕ)
  /-- Another component calls the registry. -/
  | call (op : LocalOp N (LockValue N)) (now : ℕ)
  /-- Another component applies a remote update. -/
  | update (u : LockUpdate N) (now : ℕ)
  /-- The call at index `k` goes on. -/
  | resume (k : ℕ) (now : ℕ) (fault : Option String)

variable {I N S G : Type} {k : ℕ}

namespace LockSystem

def initial (registry : S) (lock : I → DistributedLock N) : LockSystem I N S G :=
  ⟨registry, lock, [], [], []⟩

variable [DecidableEq I]

def applyPiece {B : Type} (s : LockSystem I N S G) (i : I) (piece : LockPiece N S B) :
    LockSystem I N S G :=
  { s with
    registry := piece.registry
    lock := Function.update s.lock i piece.lock
    emitted := s.emitted ++ piece.emitted }

omit [DecidableEq I] in
def applyCall (s : LockSystem I N S G) (piece : CallPiece N (LockValue N) S G) :
    LockSystem I N S G :=
  { s with registry := piece.registry, emitted := s.emitted ++ piece.emitted }

omit [DecidableEq I] in
def addTasks (s : LockSystem I N S G) (tasks : List (LockTask I N G)) : LockSystem I N S G :=
  { s with tasks := s.tasks ++ tasks }

variable (A : LockRegistry N S G) (s : LockSystem I N S G)

omit [DecidableEq I] in
def advance (promise : G) (now : ℕ)
    (fault : Option String) : Option (CallPiece N (LockValue N) S G) :=
  match A.settled promise with
  | none => some (A.advance s.registry promise now fault)
  | some _ => none

omit [DecidableEq I] in
theorem advance_eq_some {A : LockRegistry N S G} {s : LockSystem I N S G} {promise : G} {now : ℕ}
    {fault : Option String} {piece : CallPiece N (LockValue N) S G}
    (h : s.advance A promise now fault = some piece) :
    A.settled promise = none ∧ piece = A.advance s.registry promise now fault := by
  rw [advance] at h
  split at h
  · rename_i hsettled
    exact ⟨hsettled, (some.inj h).symm⟩
  · cases h

def resume (k now : ℕ) (fault : Option String) : Option (LockSystem I N S G) :=
  match s.tasks[k]? with
  | some (.lock i call) =>
    (call.resume A s.registry (s.lock i) now fault).map fun piece =>
      let s := s.applyPiece i piece
      { s with
        tasks := s.tasks.set k (.lock i piece.result)
        returned := s.returned ++ (piece.result.handle.map (Prod.mk i)).toList }
  | some (.user op promise) =>
    (s.advance A promise now fault).map fun piece =>
      { s.applyCall piece with tasks := s.tasks.set k (.user op piece.call) }
  | some (.cleanup promise) =>
    (s.advance A promise now fault).map fun piece =>
      { s.applyCall piece with tasks := s.tasks.set k (.cleanup piece.call) }
  | none => none

def step [DecidableEq N] (A : LockRegistry N S G) (s : LockSystem I N S G) :
    LockEvent I N → Option (LockSystem I N S G)
  | .tryAcquire i lockId ttlMs now =>
    let piece := (s.lock i).tryAcquire A s.registry lockId ttlMs now
    some ((s.applyPiece i piece).addTasks [.lock i piece.result])
  | .extend i handle additionalMs now =>
    match (s.lock i).extend A s.registry handle additionalMs now with
    | some piece => some ((s.applyPiece i piece).addTasks [.lock i piece.result])
    | none => some s
  | .release i handle now =>
    match (s.lock i).release A s.registry handle now with
    | some piece => some ((s.applyPiece i piece).addTasks [.cleanup piece.result])
    | none => some s
  | .expire i lockId now =>
    if (s.lock i).ttlTimers.has lockId then
      let piece := (s.lock i).onExpired A s.registry lockId now
      some ((s.applyPiece i piece).addTasks [.cleanup piece.result])
    else none
  | .handleRemoteNodeFailure i nodeId now =>
    let piece := (s.lock i).handleRemoteNodeFailure A s.registry nodeId now
    some ((s.applyPiece i piece).addTasks (piece.result.map .cleanup))
  | .call op now =>
    let piece := A.call s.registry op now
    some ((s.applyCall piece).addTasks [.user op piece.call])
  | .update u now =>
    let piece := A.applyRemoteUpdate s.registry u now
    some ((s.applyCall piece).addTasks [.cleanup piece.call])
  | .resume k now fault => s.resume A k now fault

def giveUp (i : I) (lockId : LockId) (now : ℕ) : LockSystem I N S G :=
  let piece := (s.lock i).onExpired A s.registry lockId now
  (s.applyPiece i piece).addTasks [.cleanup piece.result]

inductive Step [DecidableEq N] (A : LockRegistry N S G) (s : LockSystem I N S G) :
    LockEvent I N → LockSystem I N S G → Prop
  | tryAcquire (i : I) (lockId : LockId) (ttlMs : Option ℕ) (now : ℕ)
      (piece : LockPiece N S (LockCall N G))
      (runs : piece = (s.lock i).tryAcquire A s.registry lockId ttlMs now) :
      Step A s (.tryAcquire i lockId ttlMs now)
        ((s.applyPiece i piece).addTasks [.lock i piece.result])
  | extend (i : I) (handle : LockHandle N) (additionalMs : Option ℕ) (now : ℕ)
      (piece : LockPiece N S (LockCall N G))
      (runs : (s.lock i).extend A s.registry handle additionalMs now = some piece) :
      Step A s (.extend i handle additionalMs now)
        ((s.applyPiece i piece).addTasks [.lock i piece.result])
  /-- `extend` throws. -/
  | throws (i : I) (handle : LockHandle N) (additionalMs : Option ℕ) (now : ℕ) :
      Step A s (.extend i handle additionalMs now) s
  | release (i : I) (handle : LockHandle N) (now : ℕ) :
      Step A s (.release i handle now) (s.giveUp A i handle.lockId now)
  /-- `release` has nothing to do. -/
  | returns (i : I) (handle : LockHandle N) (now : ℕ) : Step A s (.release i handle now) s
  | expire (i : I) (lockId : LockId) (now : ℕ) :
      Step A s (.expire i lockId now) (s.giveUp A i lockId now)
  | handleRemoteNodeFailure (i : I) (nodeId : N) (now : ℕ) (piece : LockPiece N S (List G))
      (runs : piece = (s.lock i).handleRemoteNodeFailure A s.registry nodeId now) :
      Step A s (.handleRemoteNodeFailure i nodeId now)
        ((s.applyPiece i piece).addTasks (piece.result.map .cleanup))
  | call (op : LocalOp N (LockValue N)) (now : ℕ) :
      Step A s (.call op now) ((s.applyCall (A.call s.registry op now)).addTasks
        [.user op (A.call s.registry op now).call])
  | update (u : LockUpdate N) (now : ℕ) :
      Step A s (.update u now) ((s.applyCall (A.applyRemoteUpdate s.registry u now)).addTasks
        [.cleanup (A.applyRemoteUpdate s.registry u now).call])
  /-- A call of `tryAcquire` or `extend` goes on. -/
  | lock (k now : ℕ) (fault : Option String) (i : I) (call : LockCall N G)
      (piece : LockPiece N S (LockCall N G)) (task : s.tasks[k]? = some (.lock i call))
      (runs : call.resume A s.registry (s.lock i) now fault = some piece) :
      Step A s (.resume k now fault)
        { s.applyPiece i piece with
          tasks := s.tasks.set k (.lock i piece.result)
          returned := s.returned ++ (piece.result.handle.map (Prod.mk i)).toList }
  /-- A call on the registry by another component goes on. -/
  | user (k now : ℕ) (fault : Option String) (op : LocalOp N (LockValue N)) (promise : G)
      (task : s.tasks[k]? = some (.user op promise)) (waits : A.settled promise = none) :
      Step A s (.resume k now fault)
        { s.applyCall (A.advance s.registry promise now fault) with
          tasks := s.tasks.set k (.user op (A.advance s.registry promise now fault).call) }
  /-- A call on the registry whose result nobody uses goes on. -/
  | cleanup (k now : ℕ) (fault : Option String) (promise : G)
      (task : s.tasks[k]? = some (.cleanup promise)) (waits : A.settled promise = none) :
      Step A s (.resume k now fault)
        { s.applyCall (A.advance s.registry promise now fault) with
          tasks := s.tasks.set k (.cleanup (A.advance s.registry promise now fault).call) }

variable {A s} {s' : LockSystem I N S G} {ev : LockEvent I N}

/-- **What a step does.** -/
theorem step_cases [DecidableEq N] (h : s.step A ev = some s') : s.Step A ev s' := by
  cases ev with
  | tryAcquire i lockId ttlMs now =>
    cases h
    exact .tryAcquire i lockId ttlMs now _ rfl
  | extend i handle additionalMs now =>
    simp only [step] at h
    split at h <;> cases h
    · rename_i piece hpiece
      exact .extend i handle additionalMs now piece hpiece
    · exact .throws i handle additionalMs now
  | release i handle now =>
    simp only [step] at h
    split at h <;> cases h
    · rename_i piece hpiece
      obtain ⟨-, rfl⟩ := DistributedLock.release_eq_some hpiece
      exact .release i handle now
    · exact .returns i handle now
  | expire i lockId now =>
    simp only [step] at h
    split_ifs at h
    cases h
    exact .expire i lockId now
  | handleRemoteNodeFailure i nodeId now =>
    cases h
    exact .handleRemoteNodeFailure i nodeId now _ rfl
  | call op now =>
    cases h
    exact .call op now
  | update u now =>
    cases h
    exact .update u now
  | resume k now fault =>
    simp only [step, resume] at h
    split at h
    · rename_i i call htask
      obtain ⟨piece, hpiece, rfl⟩ := map_eq_some_iff.mp h
      exact .lock k now fault i call piece htask hpiece
    · rename_i op promise htask
      obtain ⟨piece, hpiece, rfl⟩ := map_eq_some_iff.mp h
      obtain ⟨hwaits, rfl⟩ := advance_eq_some hpiece
      exact .user k now fault op promise htask hwaits
    · rename_i promise htask
      obtain ⟨piece, hpiece, rfl⟩ := map_eq_some_iff.mp h
      obtain ⟨hwaits, rfl⟩ := advance_eq_some hpiece
      exact .cleanup k now fault promise htask hwaits
    · cases h

theorem tasks_step [DecidableEq N] (h : s.step A ev = some s') :
    (∃ tasks, s'.tasks = s.tasks ++ tasks) ∨
      ∃ k now fault task, ev = .resume k now fault ∧ s'.tasks = s.tasks.set k task := by
  cases step_cases h with
  | tryAcquire | extend | release | expire | handleRemoteNodeFailure | call | update =>
    exact .inl ⟨_, rfl⟩
  | throws | returns => exact .inl ⟨[], (append_nil _).symm⟩
  | lock k now fault => exact .inr ⟨k, now, fault, _, rfl, rfl⟩
  | user k now fault => exact .inr ⟨k, now, fault, _, rfl, rfl⟩
  | cleanup k now fault => exact .inr ⟨k, now, fault, _, rfl, rfl⟩

variable {task : LockTask I N G}

theorem getElem?_tasks_step [DecidableEq N] (h : s.step A ev = some s')
    (hev : ∀ now fault, ev ≠ .resume k now fault) (htask : s.tasks[k]? = some task) :
    s'.tasks[k]? = some task := by
  rcases tasks_step h with ⟨tasks, htasks⟩ | ⟨k', now, fault, task', rfl, htasks⟩
  · rw [htasks, List.getElem?_append_left (List.getElem?_eq_some_iff.mp htask).1, htask]
  · have hne : k' ≠ k := by
      rintro rfl
      exact hev now fault rfl
    rw [htasks, List.getElem?_set_ne hne, htask]

end LockSystem

/-! ### Tokens of calls under way -/

def LockCall.token : LockCall N G → Option (LockId × ℕ)
  | .fencing lockId _ _ token _ => some (lockId, token)
  | .stamping lockId _ _ token _ => some (lockId, token)
  | .extending updated _ _ => some (updated.lockId, updated.fencingToken)
  | .proposing .. => none
  | .acquired _ => none
  | .extended _ => none
  | .refused => none

def LockTask.token : LockTask I N G → Option (LockId × ℕ)
  | .lock _ call => call.token
  | .user .. => none
  | .cleanup _ => none

namespace LockSystem

variable {s s' : LockSystem I N S G} {old : LockTask I N G}

def tokenOf (s : LockSystem I N S G) (k : ℕ) : Option (LockId × ℕ) :=
  s.tasks[k]?.bind LockTask.token

theorem tokenOf_of_getElem? (h : s.tasks[k]? = some task) : s.tokenOf k = task.token := by
  simp [tokenOf, h]

theorem tokenOf_addTasks (s : LockSystem I N S G) (task : LockTask I N G) :
    (s.addTasks [task]).tokenOf = update s.tokenOf s.tasks.length task.token := by
  funext k
  rw [update_apply, tokenOf, addTasks]
  rcases lt_trichotomy k s.tasks.length with hk | rfl | hk
  · rw [if_neg hk.ne, getElem?_append_left hk]
    rfl
  · simp
  · rw [if_neg hk.ne', getElem?_eq_none (by simp; omega), tokenOf, getElem?_eq_none (by omega)]

theorem tokenOf_addTasks_of_none (s : LockSystem I N S G) {tasks : List (LockTask I N G)}
    (h : ∀ task ∈ tasks, task.token = none) : (s.addTasks tasks).tokenOf = s.tokenOf := by
  funext k
  rw [tokenOf, tokenOf, addTasks]
  rcases lt_or_ge k s.tasks.length with hk | hk
  · rw [getElem?_append_left hk]
  · rw [getElem?_append_right hk, getElem?_eq_none hk]
    cases htask : tasks[k - s.tasks.length]? with
    | none => rfl
    | some task => exact h task (mem_of_getElem? htask)

theorem tokenOf_set {token : Option (LockId × ℕ)} (h : s.tasks[k]? = some old)
    (hs' : s'.tasks = s.tasks.set k task) (htoken : task.token = token) :
    s'.tokenOf = update s.tokenOf k token := by
  have hk : k < s.tasks.length := (List.getElem?_eq_some_iff.mp h).1
  funext j
  rw [update_apply, tokenOf, tokenOf, hs', List.getElem?_set]
  by_cases hj : j = k
  · subst hj
    rw [if_pos rfl, if_pos rfl, if_pos hk, bind_some, htoken]
  · rw [if_neg (Ne.symm hj), if_neg hj]

theorem tokenOf_set_of_token_eq (h : s.tasks[k]? = some old) (hs' : s'.tasks = s.tasks.set k task)
    (htoken : task.token = old.token) : s'.tokenOf = s.tokenOf := by
  rw [tokenOf_set h hs' htoken, ← tokenOf_of_getElem? h, update_eq_self]

end LockSystem

end DistributedCore.Locks
