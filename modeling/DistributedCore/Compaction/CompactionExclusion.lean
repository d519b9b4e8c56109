import DistributedCore.Library.Runs

/-!
# One compaction at a time

A check for compactions compares their number with its limit before it scans the directories, and
adds its own after the scan, so the limit keeps no two checks apart. What does is the flag of the
strategy: it is read and set in one piece of a check, and a strategy is only replaced when no
compaction runs.

Source: `src/persistence/compaction/CompactionCoordinator.ts`,
`src/persistence/compaction/TimeBasedCompactionStrategy.ts`.
-/

namespace DistributedCore.Compaction

open List Function

/-- The strategy objects and the plans are numbered. `scanning` counts the checks that wait for the
directories, `executing` lists the plans under way with their strategies, and `completing` the plans
whose result has not yet reached the coordinator. -/
structure CompactionCoordinator where
  strategy : ℕ
  isRunning : ℕ → Bool
  runningCompactions : List ℕ
  scanning : ℕ
  executing : List (ℕ × ℕ)
  completing : List ℕ
  plans : ℕ

/-- The steps of a compaction check, and the switch of the strategy. -/
inductive CoordinatorEvent
  | triggerCompactionCheck
  | scanned (compacts : Bool)
  | executed (run : ℕ × ℕ)
  | completed (planId : ℕ)
  | switchStrategy

namespace CompactionCoordinator

def started : CompactionCoordinator := ⟨0, fun _ => false, [], 0, [], [], 0⟩

variable (maxConcurrentCompactions : ℕ) (c : CompactionCoordinator)

def step : CoordinatorEvent → Option CompactionCoordinator
  | .triggerCompactionCheck =>
    if c.runningCompactions.length ≥ maxConcurrentCompactions then some c
    else some { c with scanning := c.scanning + 1 }
  | .scanned compacts =>
    if c.scanning = 0 then none
    else if !c.isRunning c.strategy && compacts then
      some { c with
        isRunning := update c.isRunning c.strategy true
        runningCompactions := c.plans :: c.runningCompactions
        scanning := c.scanning - 1
        executing := (c.plans, c.strategy) :: c.executing
        plans := c.plans + 1 }
    else some { c with scanning := c.scanning - 1 }
  | .executed run =>
    if run ∈ c.executing then
      some { c with
        isRunning := update c.isRunning run.2 false
        executing := c.executing.erase run
        completing := run.1 :: c.completing }
    else none
  | .completed planId =>
    if planId ∈ c.completing then
      some { c with
        runningCompactions := c.runningCompactions.erase planId
        completing := c.completing.erase planId }
    else none
  | .switchStrategy =>
    if c.runningCompactions = [] then
      some { c with
        strategy := c.strategy + 1
        isRunning := update c.isRunning (c.strategy + 1) false }
    else none

/-- A plan under way is the only one, and its strategy is the current one and has its flag set. -/
structure Exclusive (c : CompactionCoordinator) : Prop where
  completing : ∀ planId ∈ c.completing, planId < c.plans
  executing : c.executing = [] ∨ ∃ planId, c.executing = [(planId, c.strategy)] ∧
    c.isRunning c.strategy = true ∧ planId ∈ c.runningCompactions ∧ planId ∉ c.completing ∧
    planId < c.plans

variable {maxConcurrentCompactions c} {c' : CompactionCoordinator}

theorem Exclusive.step {ev : CoordinatorEvent} (h : c.Exclusive)
    (hstep : c.step maxConcurrentCompactions ev = some c') : c'.Exclusive := by
  cases ev with
  | triggerCompactionCheck =>
    rw [CompactionCoordinator.step] at hstep
    split_ifs at hstep <;> cases hstep <;> exact ⟨h.1, h.2⟩
  | scanned =>
    rw [CompactionCoordinator.step] at hstep
    split_ifs at hstep with _ hcompacts <;> cases hstep
    · rcases h.executing with hnone | ⟨_, -, hflag, -⟩
      · exact ⟨fun planId hmem => Nat.lt_succ_of_lt (h.completing planId hmem),
          .inr ⟨c.plans, by rw [hnone], update_self .., mem_cons_self,
            fun hmem => absurd (h.completing _ hmem) (Nat.lt_irrefl _), Nat.lt_succ_self _⟩⟩
      · simp [hflag] at hcompacts
    · exact ⟨h.1, h.2⟩
  | executed run =>
    obtain ⟨hrun, ⟨⟩⟩ := Option.ite_none_right_eq_some.mp hstep
    rcases h.executing with hnone | ⟨planId, hone, -, -, -, hlt⟩
    · simp [hnone] at hrun
    · obtain rfl : run = (planId, c.strategy) := by simpa [hone] using hrun
      exact ⟨forall_mem_cons.mpr ⟨hlt, h.completing⟩, .inl (by simp [hone])⟩
  | completed planId =>
    obtain ⟨hmem, ⟨⟩⟩ := Option.ite_none_right_eq_some.mp hstep
    refine ⟨fun other hother => h.completing other (mem_of_mem_erase hother), ?_⟩
    refine h.executing.imp_right fun ⟨other, hone, hflag, hrunning, hnot, hlt⟩ => ?_
    have hne : other ≠ planId := fun heq => hnot (heq ▸ hmem)
    exact ⟨other, hone, hflag, (mem_erase_of_ne hne).mpr hrunning,
      fun hother => hnot (mem_of_mem_erase hother), hlt⟩
  | switchStrategy =>
    obtain ⟨hempty, ⟨⟩⟩ := Option.ite_none_right_eq_some.mp hstep
    rcases h.executing with hnone | ⟨_, -, -, hrunning, -⟩
    · exact ⟨h.completing, .inl hnone⟩
    · simp [hempty] at hrunning

/-- **Compactions never overlap**, in every run of checks, compactions and switches. -/
theorem compactions_never_overlap (maxConcurrentCompactions : ℕ) (es : List CoordinatorEvent)
    (hrun : exec (step maxConcurrentCompactions) started es = some c) : c.executing.length ≤ 1 := by
  have h : c.Exclusive := exec_invariant (fun _ _ _ h _ hstep => h.step hstep)
    ⟨by simp [started], .inl rfl⟩ (allSteps_true _ _ es) hrun
  rcases h.executing with hnone | ⟨_, hone, -⟩
  · simp [hnone]
  · simp [hone]

/-- Two checks scan at the same time. -/
def twoChecks : List CoordinatorEvent :=
  [.triggerCompactionCheck, .triggerCompactionCheck, .scanned true, .scanned true]

theorem never_overlap_twoChecks :
    ∃ c, exec (step 2) started twoChecks = some c ∧ c.executing.length ≤ 1 :=
  ⟨_, rfl, compactions_never_overlap 2 twoChecks rfl⟩

/-- **A strategy is never replaced while it compacts.** -/
theorem executing_current (es : List CoordinatorEvent)
    (hrun : exec (step maxConcurrentCompactions) started es = some c) :
    ∀ run ∈ c.executing, run.2 = c.strategy := by
  have h : c.Exclusive := exec_invariant (fun _ _ _ h _ hstep => h.step hstep)
    ⟨by simp [started], .inl rfl⟩ (allSteps_true _ _ es) hrun
  rcases h.executing with hnone | ⟨_, hone, -⟩
  · simp [hnone]
  · simp [hone]

/-- A compaction ends, the strategy is replaced, and the new one compacts. -/
def switched : List CoordinatorEvent :=
  [.triggerCompactionCheck, .scanned true, .executed (0, 0), .completed 0, .switchStrategy,
    .triggerCompactionCheck, .scanned true]

theorem current_switched : ∃ c ∈ exec (step 2) started switched,
    c.executing = [(1, 1)] ∧ ∀ run ∈ c.executing, run.2 = c.strategy :=
  ⟨_, rfl, rfl, @executing_current 2 _ switched rfl⟩

end CompactionCoordinator

end DistributedCore.Compaction
