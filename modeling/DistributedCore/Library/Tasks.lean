import Mathlib.Data.List.Nodup

/-!
# Lists of tasks

The calls that are under way are kept in a list in the order in which they were made, so that the
index of a call never changes; a step of a call replaces the entry at its index.

## Main results

* `forall_mem_set`: what all tasks have, they have after a step of one task that keeps it.
* `filterMap_set_of_eq`: a step of one task that keeps what is read off it.
* `OnlyTask`, with `onlyTask_concat`, `OnlyTask.set`, `OnlyTask.forall_not_set`: the only task with
  a property begins, goes on and ends.
* `AtMostOne.append`, `AtMostOne.set`: at most one task has a property.
-/

namespace DistributedCore

open List Option

variable {A B : Type*} {tasks : List A} {k : ℕ} {old new task other : A} {q : A → Prop}

theorem forall_mem_set (h : ∀ task ∈ tasks, q task) (hnew : q new) :
    ∀ task ∈ tasks.set k new, q task := by
  intro task htask
  rcases mem_or_eq_of_mem_set htask with htask | rfl
  · exact h task htask
  · exact hnew

section

variable (hk : tasks[k]? = some old)

include hk

/-- A step of a task that keeps what is read off it. -/
theorem filterMap_set_of_eq {f : A → Option B} (h : f new = f old) :
    (tasks.set k new).filterMap f = tasks.filterMap f := by
  obtain ⟨hlt, hold⟩ := List.getElem?_eq_some_iff.mp hk
  have hmap : (tasks.set k new).map f = tasks.map f := by
    have hlt' : k < (tasks.map f).length := by rwa [length_map]
    rw [map_set, h, ← hold, ← getElem_map f]
    exact set_getElem_self hlt'
  have hreduce : ∀ l : List A, l.filterMap f = (l.map f).filterMap id := fun l => by
    rw [filterMap_map]
    rfl
  rw [hreduce, hreduce, hmap]

end

/-! ### At most one task with a property -/

def AtMostOne (q : A → Prop) (tasks : List A) : Prop :=
  ∀ (k k' : ℕ) (task task' : A), tasks[k]? = some task → tasks[k']? = some task' →
    q task → q task' → k = k'

section

variable (h : AtMostOne q tasks)

include h

/-- A new task may have the property if no other new one does, and no old one. -/
theorem AtMostOne.append {added : List A}
    (hadded : ∀ task ∈ added, q task → added = [task] ∧ ∀ other ∈ tasks, ¬q other) :
    AtMostOne q (tasks ++ added) := by
  have hcases : ∀ {i : ℕ} {task : A}, (tasks ++ added)[i]? = some task → q task →
      tasks[i]? = some task ∨ i = tasks.length ∧ ∀ other ∈ tasks, ¬q other := by
    intro i task hi hq
    rcases Nat.lt_or_ge i tasks.length with hlt | hge
    · exact .inl ((List.getElem?_append_left hlt).symm.trans hi)
    · rw [getElem?_append_right hge] at hi
      obtain ⟨rfl, hnone⟩ := hadded task (mem_of_getElem? hi) hq
      have hlast := (List.getElem?_eq_some_iff.mp hi).1
      rw [length_singleton] at hlast
      exact .inr ⟨by omega, hnone⟩
  intro k k' task task' hk hk' hq hq'
  rcases hcases hk hq, hcases hk' hq' with ⟨hk | ⟨rfl, hnone⟩, hk' | ⟨rfl, hnone'⟩⟩
  · exact h k k' task task' hk hk' hq hq'
  · exact absurd hq (hnone' task (mem_of_getElem? hk))
  · exact absurd hq' (hnone task' (mem_of_getElem? hk'))
  · rfl

/-- A task may have the property after its step if it had it before. -/
theorem AtMostOne.set (hk : tasks[k]? = some old)
    (hnew : q new → q old) : AtMostOne q (tasks.set k new) := by
  have hold : ∀ {i : ℕ} {task : A}, (tasks.set k new)[i]? = some task → q task →
      ∃ other, tasks[i]? = some other ∧ q other := by
    intro i task hi hq
    rw [getElem?_set] at hi
    split_ifs at hi with hki hlt
    · subst hki
      exact ⟨old, hk, hnew (some.inj hi ▸ hq)⟩
    · exact ⟨task, hi, hq⟩
  intro i i' task task' hi hi' hq hq'
  obtain ⟨other, hi, hq⟩ := hold hi hq
  obtain ⟨other', hi', hq'⟩ := hold hi' hq'
  exact h i i' other other' hi hi' hq hq'

end

/-! ### The only task with a property -/

/-- The task at `k` is the only one that may have the property. -/
structure OnlyTask (q : A → Prop) (tasks : List A) (k : ℕ) (task : A) : Prop where
  here : tasks[k]? = some task
  only : ∀ j other, tasks[j]? = some other → q other → j = k

variable {q : A → Prop}

/-- A new task, while no other one has the property. -/
theorem onlyTask_concat (h : ∀ task ∈ tasks, ¬q task) (new : A) :
    OnlyTask q (tasks ++ [new]) tasks.length new where
  here := getElem?_concat_length
  only := by
    intro j other hj hq
    by_contra hne
    have hlt : j < tasks.length := by
      have := (List.getElem?_eq_some_iff.mp hj).1
      rw [length_append, length_singleton] at this
      omega
    rw [List.getElem?_append_left hlt] at hj
    exact h other (mem_of_getElem? hj) hq

section

variable (h : OnlyTask q tasks k task)

include h

theorem OnlyTask.concat (hnew : ¬q new) : OnlyTask q (tasks ++ [new]) k task where
  here := by
    rw [List.getElem?_append_left (List.getElem?_eq_some_iff.mp h.here).1]
    exact h.here
  only := by
    intro j other hj hq
    rcases Nat.lt_or_ge j tasks.length with hlt | hge
    · rw [List.getElem?_append_left hlt] at hj
      exact h.only j other hj hq
    · rw [getElem?_append_right hge, getElem?_singleton] at hj
      split_ifs at hj
      exact absurd (some.inj hj ▸ hq) hnew

theorem OnlyTask.set (new : A) : OnlyTask q (tasks.set k new) k new where
  here := List.getElem?_set_self (List.getElem?_eq_some_iff.mp h.here).1
  only := by
    intro j other hj hq
    by_contra hne
    rw [getElem?_set_ne (Ne.symm hne)] at hj
    exact hne (h.only j other hj hq)

theorem OnlyTask.forall_not_set (hnew : ¬q new) : ∀ task ∈ tasks.set k new, ¬q task := by
  intro other hother hq
  obtain ⟨j, hj⟩ := mem_iff_getElem?.mp hother
  obtain rfl := (h.set new).only j other hj hq
  rw [(h.set new).here] at hj
  exact hnew (some.inj hj ▸ hq)

/-- A task with the property is the one. -/
theorem OnlyTask.eq_of_getElem? {j : ℕ}
    (hj : tasks[j]? = some other) (hq : q other) : j = k ∧ other = task := by
  obtain rfl := h.only j other hj hq
  exact ⟨rfl, some.inj (hj.symm.trans h.here)⟩

end

end DistributedCore
