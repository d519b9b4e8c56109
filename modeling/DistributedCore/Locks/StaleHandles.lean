import DistributedCore.Locks.LockFencing

/-!
# Handles of earlier generations

A handle of a `DistributedLock` names a lock, and `release` and `extend` only look whether the
instance holds the lock of that name. They do not compare the token of the handle with the one
that is held. So a handle that was released or has expired gets its power back when the lock is
acquired again on the same node: `release` gives up the new lock, and `extend` replaces the new
handle. It is without power exactly while the instance does not hold the lock.

Source: `src/cluster/locks/DistributedLock.ts`.
-/

namespace DistributedCore.Locks

open Entity DistributedLock

variable {I N S G : Type} [DecidableEq I] [DecidableEq N] {A : LockRegistry N S G}
  {s s' : LockSystem I N S G}

/-- The handle can neither be released nor extended. -/
def Powerless (A : LockRegistry N S G) (s : LockSystem I N S G) (i : I) (handle : LockHandle N) :
    Prop :=
  ∀ now, s.step A (.release i handle now) = some s ∧
    ∀ additionalMs, s.step A (.extend i handle additionalMs now) = some s

variable {handle : LockHandle N} {i : I}

theorem powerless_of_not_held
    (h : (s.lock i).isHeldLocally handle.lockId = false) : Powerless A s i handle := by
  have hhas : (s.lock i).heldLocks.has handle.lockId = false := h
  refine fun now => ⟨?_, fun additionalMs => ?_⟩
  · simp [LockSystem.step, release, hhas]
  · simp [LockSystem.step, extend, hhas]

theorem not_powerless_of_held
    (h : (s.lock i).isHeldLocally handle.lockId = true) : ¬Powerless A s i handle := by
  intro hpowerless
  have hrelease := (hpowerless 0).1
  simp only [LockSystem.step, release] at hrelease
  rw [if_neg (by simpa [isHeldLocally] using h)] at hrelease
  -- the release has removed the lock from `heldLocks`
  have hlock : Function.update s.lock i ((s.lock i).forget handle.lockId) i = s.lock i :=
    congrFun (congrArg LockSystem.lock (Option.some.inj hrelease)) i
  rw [Function.update_self] at hlock
  rw [← hlock] at h
  exact (isHeldLocally_forget.mp h).2 rfl

/-- **Which handles are powerless.** In every state, and so after every run, the handles that are
powerless on an instance are those of locks that the instance does not hold: their generation
does not matter. -/
theorem powerless_iff_not_held (A : LockRegistry N S G) (s : LockSystem I N S G) (i : I)
    (handle : LockHandle N) :
    Powerless A s i handle ↔ (s.lock i).isHeldLocally handle.lockId = false := by
  constructor
  · intro h
    by_contra hheld
    exact not_powerless_of_held (Bool.eq_true_of_not_eq_false hheld) h
  · exact powerless_of_not_held

/-! ### Locks that are acquired again -/

/-- The lock `x` expires and is acquired again. The handle of the first generation, with token 1,
releases the lock of the second, with token 2: it is no longer held, its entity and its timer are
gone. -/
theorem not_powerless_of_reacquired :
    ∃ s s', exec memoryStep singleLock (acquireAlone () "x" 0 0 ++ [.expire () "x" 30000] ++
        acquireAlone () "x" 2 30001) = some s ∧
      s.returned = [((), handleOf "x" 0 1), ((), handleOf "x" 30001 2)] ∧
      (s.lock ()).heldLocks.get "x" = some (handleOf "x" 30001 2) ∧
      ¬Powerless inMemoryRegistry s () (handleOf "x" 0 1) ∧
      memoryStep s (.release () (handleOf "x" 0 1) 30002) = some s' ∧
      (s'.lock ()).heldLocks.get "x" = none ∧ (s'.lock ()).ttlTimers.get "x" = none ∧
      s'.registry.entities.get "x" = none :=
  ⟨_, _, rfl, by decide, by decide, not_powerless_of_held (by decide), rfl, by decide, by decide,
    by decide⟩

end DistributedCore.Locks
