import DistributedCore.Pipeline.PipelineExecutor

/-!
# Joins that fire once

An arrival at a Join publishes `join:waiting`, waits, and then looks whether the Join should fire.
Arrivals that come while another one waits are counted together: each of them finds that the Join
should fire, and each of them fires it, because the mark that it has fired is only looked at when an
arrival comes. If no two arrivals wait for their decisions at the same time, the Join fires once.

Source: `src/applications/pipeline/PipelineExecutor.ts`: `handleJoinArrival`, `fireJoin`.
-/

namespace DistributedCore.Pipeline

open PipelineEvent Stage List Option

theorem countP_modify {V : Type} (p : V → Bool) (f : V → V) {l : List V} {k : ℕ} {a : V}
    (h : l[k]? = some a) :
    (l.modify k f).countP p + (p a).toNat = l.countP p + (p (f a)).toNat := by
  induction l generalizing k with
  | nil => cases h
  | cons b l ih =>
    cases k with
    | zero =>
      obtain rfl : b = a := some.inj h
      rw [modify_zero_cons, countP_cons, countP_cons]
      cases p b <;> cases p (f b) <;> simp
    | succ =>
      have := ih h
      rw [modify_succ_cons, countP_cons, countP_cons]
      omega

variable (j : String)

def Stage.isUndecided : Stage → Bool
  | .joinStarted i _ _ | .joinWaiting i _ _ => i = j
  | _ => false

def Stage.isFiring : Stage → Bool
  | .firing i _ => i = j
  | _ => false

def Stage.isLeading : Stage → Bool
  | .firing i _ | .fired i _ | .joined i _ => i = j
  | _ => false

def Stage.view (stage : Stage) : Bool × Bool × Bool :=
  (stage.isUndecided j, stage.isFiring j, stage.isLeading j)

def PipelineEvent.isFired : PipelineEvent → Bool
  | .joinFired i _ => i = j
  | _ => false

namespace PipelineExecutor

def count (p : Stage → Bool) (s : PipelineExecutor) : ℕ := s.tasks.countP fun task => p task.stage

def announced (s : PipelineExecutor) : ℕ := s.published.countP (isFired j) + s.count (isFiring j)

def led (s : PipelineExecutor) : ℕ := s.followed.count j + s.count (isLeading j)

/-- The join was decided once, and nothing follows it twice. -/
structure Once (s : PipelineExecutor) : Prop where
  unfired : j ∉ s.firedJoins → s.announced j = 0 ∧ s.led j = 0
  fired : j ∈ s.firedJoins → s.count (isUndecided j) = 0
  announced_le : s.announced j ≤ 1
  led_le : s.led j ≤ 1

variable {d : PipelineDefinition} {s s' t : PipelineExecutor} {k : ℕ} {task : Task} {j : String}
  {scope : Scope} (p : Stage → Bool)

theorem count_setStage (hk : s.tasks[k]? = some task) (stage : Stage) :
    (s.setStage k stage).count p + (p task.stage).toNat = s.count p + (p stage).toNat :=
  countP_modify _ _ hk

theorem count_spawn (scope : Scope) (stage : Stage) :
    (s.spawn scope stage).count p = s.count p + (p stage).toNat := by
  simp only [count, spawn, countP_append, countP_singleton]
  cases p stage <;> rfl

theorem countP_isFired_emit (event : PipelineEvent) : (s.emit event).published.countP (isFired j) =
      s.published.countP (isFired j) + (event.isFired j).toNat := by
  simp only [emit, countP_append, countP_singleton]
  cases event.isFired j <;> rfl

namespace Once

/-- Nothing happens to the Join, an arrival decides not to fire it, or one comes before it fires. -/
theorem keep (h : s.Once j) (hfired : j ∈ t.firedJoins ↔ j ∈ s.firedJoins)
    (hundecided : t.count (isUndecided j) ≤ s.count (isUndecided j) ∨ j ∉ s.firedJoins)
    (hannounced : t.announced j = s.announced j) (hled : t.led j = s.led j) : t.Once j where
  unfired hj := by
    rw [hannounced, hled]
    exact h.unfired fun hs => hj (hfired.mpr hs)
  fired hj := by
    have hs := hfired.mp hj
    have := h.fired hs
    have := hundecided.resolve_right (not_not_intro hs)
    omega
  announced_le := hannounced ▸ h.announced_le
  led_le := hled ▸ h.led_le

/-- The Join does not tell the stages of the tasks apart. -/
theorem of_views (h : s.Once j)
    (hviews : t.tasks.map (·.stage.view j) = s.tasks.map (·.stage.view j))
    (hevents : t.published.countP (isFired j) = s.published.countP (isFired j))
    (hfollowed : t.followed = s.followed) (hfired : t.firedJoins = s.firedJoins) : t.Once j := by
  have hcount : ∀ q : Bool × Bool × Bool → Bool,
      t.count (fun stage => q (stage.view j)) = s.count fun stage => q (stage.view j) := by
    intro q
    have := congrArg (List.countP q) hviews
    rwa [countP_map, countP_map] at this
  refine h.keep (by rw [hfired]) (.inl (Nat.le_of_eq (hcount fun v => v.1))) ?_ ?_
  · exact congrArg₂ (· + ·) hevents (hcount fun v => v.2.1)
  · exact congrArg₂ (· + ·) (congrArg (List.count j) hfollowed) (hcount fun v => v.2.2)

theorem frame (h : s.Once j) (heq : (t.tasks, t.firedJoins, t.followed, t.published) =
    (s.tasks, s.firedJoins, s.followed, s.published)) : t.Once j := by
  simp only [Prod.mk.injEq] at heq
  obtain ⟨htasks, hfired, hfollowed, hpublished⟩ := heq
  exact h.of_views (by rw [htasks]) (by rw [hpublished]) hfollowed hfired

theorem emit (h : s.Once j) (event : PipelineEvent) (hevent : event.isFired j = false) :
    (s.emit event).Once j := by
  refine h.keep Iff.rfl (.inl (Nat.le_refl _)) ?_ rfl
  rw [announced, countP_isFired_emit, hevent]
  rfl

theorem reports (h : s.Once j) (hreports : s.Reports t) : t.Once j := by
  obtain ⟨pending, events, hevents, rfl⟩ := hreports
  refine h.keep Iff.rfl (.inl (Nat.le_refl _)) ?_ rfl
  have hzero : events.countP (isFired j) = 0 := by
    refine countP_eq_zero.mpr fun event hevent hfired => ?_
    cases event <;> first | cases hfired | cases hevents _ hevent
  change List.countP _ (_ ++ _) + _ = _
  rw [countP_append, hzero]
  rfl

section Tasks

variable (h : s.Once j) (hk : s.tasks[k]? = some task) (stage : Stage)

include h hk

theorem setStage (hundecided : (stage.isUndecided j).toNat ≤ (task.stage.isUndecided j).toNat)
    (hfiring : stage.isFiring j = task.stage.isFiring j)
    (hleading : stage.isLeading j = task.stage.isLeading j) : (s.setStage k stage).Once j := by
  have hcount := fun p => count_setStage p hk stage
  refine h.keep Iff.rfl (.inl ?_) ?_ ?_
  · have := hcount (isUndecided j)
    omega
  · have := hcount (isFiring j)
    rw [hfiring] at this
    exact congrArg (s.published.countP _ + ·) (Nat.add_right_cancel this)
  · have := hcount (isLeading j)
    rw [hleading] at this
    exact congrArg (s.followed.count j + ·) (Nat.add_right_cancel this)

/-- A task that is not at a Join goes on. -/
theorem pass (hold : task.stage.view j = (false, false, false))
    (hnew : stage.view j = (false, false, false)) : (s.setStage k stage).Once j := by
  simp only [Stage.view, Prod.mk.injEq] at hold hnew
  refine h.setStage hk stage ?_ (hnew.2.1.trans hold.2.1.symm) (hnew.2.2.trans hold.2.2.symm)
  rw [hnew.1]
  exact Nat.zero_le _

variable {i : String} {mode : JoinMode} {failed : Bool}

theorem announce (hstage : task.stage = .firing i mode) (inputs : List String) (failed : Bool) :
    ((s.emit (.joinFired i inputs)).setStage k (.fired i failed)).Once j := by
  have hcount := fun p => count_setStage p hk (.fired i failed)
  rw [hstage] at hcount
  refine h.keep Iff.rfl (.inl ?_) ?_ ?_
  · exact Nat.le_of_eq (hcount (isUndecided j))
  · have hfiring : _ = s.count (isFiring j) := hcount (isFiring j)
    have hevents := countP_isFired_emit (s := s) (j := j) (.joinFired i inputs)
    change (s.emit _).published.countP _ + _ = _
    rw [hevents, announced, ← hfiring, Nat.add_assoc, Nat.add_comm (Bool.toNat _)]
    rfl
  · exact congrArg (s.followed.count j + ·) (Nat.add_right_cancel (hcount (isLeading j)))

theorem goOn (hstage : task.stage = .joined i failed) : ((s.goOn i).setStage k .ended).Once j := by
  have hcount := fun p => count_setStage p hk .ended
  rw [hstage] at hcount
  refine h.keep Iff.rfl (.inl ?_) ?_ ?_
  · exact Nat.le_of_eq (hcount (isUndecided j))
  · exact congrArg (s.published.countP _ + ·) (hcount (isFiring j))
  · have hleading : _ = s.count (isLeading j) := hcount (isLeading j)
    have hfollowed : (s.followed ++ [i]).count j = s.followed.count j + (decide (i = j)).toNat := by
      rw [count_append, count_singleton]
      by_cases hij : i = j <;> simp [hij]
    change (s.followed ++ [i]).count j + _ = _
    rw [hfollowed, led, ← hleading, Nat.add_assoc, Nat.add_comm (Bool.toNat _)]
    rfl

/-- The state of the Join is deleted, which marks it as fired once more. -/
theorem clearJoin (hstage : task.stage = .fired i failed) : (s.clearJoin i).Once j := by
  refine h.keep ⟨fun hj => ?_, fun hj => mem_insert_of_mem hj⟩ (.inl (Nat.le_refl _)) rfl rfl
  obtain rfl | hj := mem_insert_iff.mp hj
  · by_contra hnot
    have hled := (h.unfired hnot).2
    have hpos : 0 < s.count (isLeading j) :=
      countP_pos_iff.mpr ⟨task, mem_of_getElem? hk, by simp [hstage, isLeading]⟩
    rw [led] at hled
    omega
  · exact hj

/-- The only undecided arrival fires the Join. -/
theorem fire {firstArrival : Bool} (hstage : task.stage = .joinWaiting i mode firstArrival)
    (hapart : s.count (isUndecided j) ≤ 1) :
    ((s.markFired i).setStage k (.firing i mode)).Once j := by
  by_cases hij : i = j
  · subst hij
    have hcount : ∀ p : Stage → Bool, ((s.markFired i).setStage k (.firing i mode)).count p +
          (p (.joinWaiting i mode firstArrival)).toNat = s.count p + (p (.firing i mode)).toNat :=
      fun p => hstage ▸ count_setStage p hk _
    have hundecided := hcount (isUndecided i)
    have hfiring := hcount (isFiring i)
    have hleading := hcount (isLeading i)
    simp only [isUndecided, isFiring, isLeading, decide_true, Bool.toNat_true,
      Bool.toNat_false] at hundecided hfiring hleading
    obtain ⟨hannounced, hled⟩ := h.unfired fun hfired => by
      have := h.fired hfired
      omega
    rw [announced] at hannounced
    rw [led] at hled
    refine ⟨fun hnot => absurd mem_insert_self hnot, fun _ => by omega, ?_, ?_⟩
    · change s.published.countP _ + _ ≤ 1
      omega
    · change s.followed.count i + _ ≤ 1
      omega
  · have hmark : (s.markFired i).Once j :=
      h.keep (by simp [markFired, Ne.symm hij]) (.inl (Nat.le_refl _)) rfl rfl
    exact hmark.pass hk _ (by simp [hstage, Stage.view, isUndecided, hij, isFiring,
      isLeading]) (by simp [Stage.view, isUndecided, hij, isFiring, isLeading])

end Tasks

section

variable (h : s.Once j)

include h

/-- A task begins that has not arrived at the Join, or arrives at it before it fires. -/
theorem spawn (scope : Scope) (stage : Stage)
    (hundecided : stage.isUndecided j = true → j ∉ s.firedJoins)
    (hfiring : stage.isFiring j = false) (hleading : stage.isLeading j = false) :
    (s.spawn scope stage).Once j := by
  refine h.keep Iff.rfl ?_ ?_ ?_
  · cases hstage : stage.isUndecided j with
    | true => exact .inr (hundecided hstage)
    | false => exact .inl (by rw [count_spawn, hstage]; exact Nat.le_refl _)
  · exact congrArg (s.published.countP _ + ·) (by rw [count_spawn, hfiring]; rfl)
  · exact congrArg (s.followed.count j + ·) (by rw [count_spawn, hleading]; rfl)

theorem executeFromNode (scope : Scope) (nodeId : String) :
    (s.executeFromNode d scope nodeId).Once j := by
  unfold PipelineExecutor.executeFromNode
  split_ifs
  · exact h
  · split
    · exact h
    · next node _ =>
      have henter : (s.enter node.id).Once j := h.frame rfl
      exact (henter.emit _ rfl).spawn scope _ Bool.noConfusion rfl rfl

theorem handleJoinArrival (scope : Scope) (i : String) (mode : JoinMode)
    (arrival : JoinArrival) : (s.handleJoinArrival d scope i mode arrival).Once j := by
  have hnot : i ∉ s.firedJoins → decide (i = j) = true → j ∉ s.firedJoins :=
    fun hfired hij => of_decide_eq_true hij ▸ hfired
  rw [PipelineExecutor.handleJoinArrival]
  split_ifs with hfired _
  · exact h
  · have hpush : (s.push i arrival).Once j := h.frame rfl
    exact (hpush.emit _ rfl).spawn scope _ (hnot hfired) rfl rfl
  · have henter : { s.enter i with joinStates := s.joinStates ++ [i] }.Once j := h.frame rfl
    exact (henter.emit _ rfl).spawn scope _ (hnot hfired) rfl rfl

theorem routeInto (scope : Scope) (edge : PipelineEdge) : (s.routeInto d scope edge).Once j := by
  unfold PipelineExecutor.routeInto
  split
  · exact h
  · split
    · exact h.handleJoinArrival ..
    · exact h.executeFromNode ..

theorem route (edges : List (Scope × PipelineEdge)) : (s.route d edges).Once j := by
  induction edges generalizing s with
  | nil => exact h
  | cons _ _ ih => exact ih (h.routeInto ..)

end

theorem afterFailed (h : (s.setStage k .ended).Once j) (stepId : String) :
    (s.afterFailed d k scope stepId).Once j := by
  unfold PipelineExecutor.afterFailed
  extract_lets errorEdges
  split_ifs
  · exact h.frame rfl
  · exact h.route _

section Steps

variable (h : s.Once j) (hk : s.tasks[k]? = some task)
  (hview : task.stage.view j = (false, false, false)) (node : PipelineNode)

include h hk hview

theorem finish (outcome : Option String) : (s.finish k node outcome).Once j := by
  have hleave : (s.leave node.id).Once j := h.frame rfl
  unfold PipelineExecutor.finish
  split_ifs
  · exact hleave.pass hk _ hview rfl
  · split
    · exact (h.emit _ rfl).pass hk _ hview rfl
    · exact (h.emit _ rfl).pass hk _ hview rfl

theorem afterCompleted (handle : String) : (s.afterCompleted d k scope node handle).Once j := by
  unfold PipelineExecutor.afterCompleted
  extract_lets edges
  split_ifs
  · exact h.pass hk _ hview rfl
  · exact (h.pass hk (.forked edges) hview rfl).route _
  · exact (h.pass hk .ended hview rfl).route _

theorem deliver (edges : List PipelineEdge) : (s.deliver d k edges).Once j := by
  induction edges with
  | nil => exact h.pass hk _ hview rfl
  | cons edge rest ih =>
    rw [PipelineExecutor.deliver]
    split
    · exact ih
    · exact (h.pass hk (.delivering edge rest) hview rfl).handleJoinArrival ..

end Steps

theorem settleApproval (h : s.Once j) (k : ℕ) (decision : Decision) :
    (s.settleApproval k decision).Once j := by
  unfold PipelineExecutor.settleApproval
  split
  · next hk => exact h.pass hk _ rfl rfl
  · exact h

end Once

theorem view_reject (task : Task) : task.reject.stage.view j = task.stage.view j := by
  unfold Task.reject
  split
  · next h => rw [h]; rfl
  · rfl

/-- **A task goes on.** -/
theorem once_resume {outcome : Option String} (h : s.Once j)
    (hapart : s.count (isUndecided j) ≤ 1) (hstep : s.resume d k outcome = some s') :
    s'.Once j := by
  rw [resume] at hstep
  split at hstep
  · cases hstep
  next scope stage hk =>
  cases stage with
  | entering =>
    cases hstep
    exact (h.pass hk .ended rfl rfl).executeFromNode ..
  | working _ progress =>
    obtain ⟨outcome, rfl⟩ | ⟨t, progress, hreports, rfl⟩ := dispatch_cases hstep
    · exact h.finish hk rfl ..
    · have htasks : t.tasks = s.tasks := by
        obtain ⟨_, _, -, rfl⟩ := hreports
        rfl
      exact (h.reports hreports).pass (htasks ▸ hk) _ rfl rfl
  | completing node =>
    cases hstep
    have hleave : (s.leave node.id).Once j := h.frame rfl
    split_ifs
    · exact hleave.pass hk _ rfl rfl
    · exact hleave.afterCompleted hk rfl ..
  | failing node =>
    cases hstep
    have hleave : (s.leave node.id).Once j := h.frame rfl
    have hend := hleave.pass hk .ended rfl rfl
    split_ifs
    · exact hend
    · exact hend.afterFailed _
  | forked =>
    obtain ⟨-, heq⟩ := ite_none_right_eq_some.mp hstep
    cases heq
    exact h.deliver hk rfl _
  | delivering =>
    obtain ⟨-, heq⟩ := ite_none_right_eq_some.mp hstep
    split at heq <;> cases heq
    · exact (h.pass hk .ended rfl rfl).frame rfl
    · exact h.deliver hk rfl _
  | joinStarted i _ arrival =>
    cases hstep
    have hpush : (s.push i arrival).Once j := h.frame rfl
    exact (hpush.emit _ rfl).setStage hk _ (Nat.le_refl _) rfl rfl
  | joinWaiting =>
    dsimp only at hstep
    split_ifs at hstep <;> cases hstep
    · exact h.fire hk rfl hapart
    · exact h.setStage hk _ (Nat.zero_le _) rfl rfl
  | firing =>
    cases hstep
    exact h.announce hk rfl ..
  | fired i failed =>
    cases hstep
    refine ((h.clearJoin hk rfl).emit _ ?_).setStage hk (.joined i failed) (Nat.le_refl _) rfl rfl
    cases failed <;> rfl
  | joined =>
    cases hstep
    have hend := h.goOn hk rfl
    split_ifs
    · exact hend.afterFailed _
    · exact hend.route _
  | ended => cases hstep

/-- At most one arrival at the Join has published `join:waiting`, or is about to, and has not gone
on to decide whether the Join fires. -/
def Apart (j : String) (s : PipelineExecutor) (_ : ExecutorEvent) : Prop :=
  s.count (isUndecided j) ≤ 1

instance decidableApart (j : String) (s : PipelineExecutor) (ev : ExecutorEvent) :
    Decidable (s.Apart j ev) :=
  inferInstanceAs (Decidable (_ ≤ _))

/-- **One event.** -/
theorem once_step {ev : ExecutorEvent} (h : s.Once j) (hapart : s.Apart j ev)
    (hstep : s.step d ev = some s') : s'.Once j := by
  cases ev with
  | proceed => exact once_resume h hapart hstep
  | run =>
    rw [step] at hstep
    split_ifs at hstep
    · cases hstep
      exact h
    · dsimp only at hstep
      split at hstep <;> cases hstep
      · exact (h.emit (.runFailed "(none)") rfl).frame rfl
      · have hstarted := h.emit .runStarted rfl
        exact (hstarted.spawn .root (.entering _) Bool.noConfusion rfl rfl).frame rfl
  | token =>
    rw [step] at hstep
    split at hstep
    · next hk =>
      cases hstep
      split_ifs
      · exact h.finish hk rfl ..
      · exact h.emit _ rfl
    · cases hstep
  | timeout k =>
    rw [step] at hstep
    split at hstep
    · cases hstep
      unfold onTimeout
      split_ifs
      · refine Once.settleApproval ?_ k _
        exact (h.emit (.approvalRecorded ..) rfl).frame rfl
      · exact h
    · cases hstep
  | resolveApproval stepId decision =>
    cases hstep
    unfold resolveApproval
    split
    · exact h
    · have hemit := h.emit (.approvalRecorded stepId decision) rfl
      extract_lets
      split_ifs
      · exact hemit.frame rfl
      · refine Once.settleApproval ?_ _ decision
        exact hemit.frame rfl
  | settle =>
    obtain ⟨-, heq⟩ := ite_none_right_eq_some.mp hstep
    cases heq
    unfold PipelineExecutor.settle
    split_ifs
    · exact h
    · split
      · exact (h.emit .runCompleted rfl).frame rfl
      · exact (h.emit (.runFailed _) rfl).frame rfl
  | cancel =>
    cases hstep
    unfold PipelineExecutor.cancel
    split_ifs
    · exact h
    · refine h.of_views ?_ ?_ rfl rfl
      · exact map_map.trans (map_congr_left fun task _ => view_reject task)
      · simp [isFired]

/-- The join is announced at most once, and followed at most once. -/
def FiredOnce (j : String) (s : PipelineExecutor) : Prop :=
  s.published.countP (isFired j) ≤ 1 ∧ s.followed.count j ≤ 1

/-- **A Join fires at most once** in every run of every pipeline in which arrivals at it do not
overlap. -/
theorem firedOnce_of_run (d : PipelineDefinition) (j : String) (es : List ExecutorEvent)
    {t : PipelineExecutor} (hall : AllSteps (step d) (Apart j) fresh es)
    (hrun : exec (step d) fresh es = some t) : t.FiredOnce j := by
  have h : t.Once j := exec_invariant (fun _ _ _ h hev hstep => once_step h hev hstep)
    ⟨fun _ => ⟨rfl, rfl⟩, fun h => absurd h not_mem_nil, Nat.zero_le _, Nat.zero_le _⟩
    hall hrun
  exact ⟨Nat.le_trans (Nat.le_add_right _ _) h.announced_le,
    Nat.le_trans (Nat.le_add_right _ _) h.led_le⟩

/-! ### Two branches -/

def twoBranches (mode : JoinMode) (handle : String) : PipelineDefinition where
  nodes := [⟨"t", .trigger⟩, ⟨"f", .fork⟩, ⟨"a", .transform⟩, ⟨"b", .transform⟩, ⟨"j", .join mode⟩,
    ⟨"c", .transform⟩]
  edges := [⟨"1", "t", "out", "f"⟩, ⟨"2", "f", "1", "a"⟩, ⟨"3", "f", "2", "b"⟩,
    ⟨"4", "a", "out", "j"⟩, ⟨"5", "b", "out", "j"⟩, ⟨"6", "j", handle, "c"⟩]

def passes (ks : List ℕ) : List ExecutorEvent := ks.map fun k => .proceed k (some "out")

def firstArrives : List ExecutorEvent := .run :: passes [0, 1, 1, 1, 2, 2, 2, 3, 3, 3, 5]

/-- The first arrival has decided when the second branch arrives. -/
theorem firedOnce_twoBranches : ∃ t,
    exec (step (twoBranches .all "out")) fresh (firstArrives ++ passes [5, 4, 4, 4, 6, 6, 6, 6]) =
      some t ∧ t.FiredOnce "j" ∧ t.followed = ["j"] :=
  ⟨_, rfl, firedOnce_of_run (twoBranches .all "out") "j"
    (firstArrives ++ passes [5, 4, 4, 4, 6, 6, 6, 6]) (by decide +kernel) rfl, rfl⟩

/-- **Both arrivals fire the Join** if the second branch arrives while the first arrival waits. They
come over different edges. -/
theorem fired_twice : ∃ t, exec (step (twoBranches .all "out")) fresh
      (firstArrives ++ passes [4, 4, 4, 5, 6, 5, 6, 5, 6, 5, 6]) = some t ∧
      (t.arrivals "j").map (·.edgeId) = ["4", "5"] ∧ ¬t.FiredOnce "j" ∧
      t.published.countP (isFired "j") = 2 ∧ t.followed = ["j", "j"] :=
  ⟨_, rfl, rfl, by unfold FiredOnce; decide +kernel, rfl, rfl⟩

end PipelineExecutor

end DistributedCore.Pipeline
