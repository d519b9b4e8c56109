import DistributedCore.Library.Runs

/-!
# Circuit breakers

A breaker counts the successes and failures of the calls that go through it. Too many failures open
it: it refuses calls until a timer half opens it. A half-open breaker lets a bounded number of calls
through; it is closed by enough successes and opened again by a failure. The number of calls is not
given back when they succeed, so a breaker that asks for more successes than it lets calls through
refuses calls for ever.

Source: `src/transport/CircuitBreaker.ts`.
-/

namespace DistributedCore.Transport

open Option

inductive CircuitState
  | closed
  | opened
  | halfOpen
  deriving DecidableEq

/-- The limits of the breaker. -/
structure CircuitBreakerOptions where
  failureThreshold : ℕ
  successThreshold : ℕ
  halfOpenMaxCalls : ℕ
  failureThreshold_pos : 0 < failureThreshold
  successThreshold_pos : 0 < successThreshold

/-- A breaker, with the number of calls in flight. -/
structure CircuitBreaker where
  state : CircuitState
  failures : ℕ
  successes : ℕ
  halfOpenCalls : ℕ
  resetTimer : Bool
  calls : ℕ

/-- A call ends as soon as its function settles or its time is out. -/
inductive CircuitEvent
  | execute
  | settle (success : Bool)
  | resetTimer
  | reset

namespace CircuitBreaker

def initial : CircuitBreaker := ⟨.closed, 0, 0, 0, false, 0⟩

variable (options : CircuitBreakerOptions) (b : CircuitBreaker)

def isCallAllowed : Bool :=
  match b.state with
  | .opened => false
  | .halfOpen => b.halfOpenCalls < options.halfOpenMaxCalls
  | .closed => true

def execute : CircuitBreaker :=
  if b.isCallAllowed options then
    { b with
      halfOpenCalls := if b.state = .halfOpen then b.halfOpenCalls + 1 else b.halfOpenCalls
      calls := b.calls + 1 }
  else b

def transitionTo (newState : CircuitState) : CircuitBreaker :=
  if b.state = newState then b
  else
    { b with
      state := newState
      halfOpenCalls := if b.state = .halfOpen then 0 else b.halfOpenCalls }

def resetCounters : CircuitBreaker := { b with failures := 0, successes := 0, halfOpenCalls := 0 }

def scheduleReset : CircuitBreaker := { b with resetTimer := true }

def onSuccess : CircuitBreaker :=
  let b := { b with successes := b.successes + 1 }
  match b.state with
  | .halfOpen =>
    if b.successes ≥ options.successThreshold then (b.transitionTo .closed).resetCounters else b
  | .closed => { b with failures := b.failures - 1 }
  | .opened => b

def onFailure : CircuitBreaker :=
  let b := { b with failures := b.failures + 1 }
  match b.state with
  | .closed =>
    if b.failures ≥ options.failureThreshold then (b.transitionTo .opened).scheduleReset else b
  | .halfOpen => (b.transitionTo .opened).scheduleReset
  | .opened => b

def resetTimerFired : CircuitBreaker :=
  let b := { b with resetTimer := false }
  if b.state = .opened then (b.transitionTo .halfOpen).resetCounters else b

def reset : CircuitBreaker := ({ b with resetTimer := false }.transitionTo .closed).resetCounters

def step : CircuitEvent → Option CircuitBreaker
  | .execute => some (b.execute options)
  | .settle success =>
    if 0 < b.calls then
      let b := { b with calls := b.calls - 1 }
      some (if success then b.onSuccess options else b.onFailure options)
    else none
  | .resetTimer => if b.resetTimer then some b.resetTimerFired else none
  | .reset => some b.reset

/-! ### Breakers that refuse calls for ever -/

variable {options b} {b' : CircuitBreaker}

/-- An open breaker waits for its timer, and a half-open one has not let more calls through than
have succeeded or are in flight. -/
structure Live (options : CircuitBreakerOptions) (b : CircuitBreaker) : Prop where
  opened : b.state = .opened → b.resetTimer = true
  halfOpen : b.state = .halfOpen →
    b.halfOpenCalls ≤ b.successes + b.calls ∧ b.successes < options.successThreshold

section

variable (hopened : b.state = .opened → b.resetTimer = true)

include hopened

theorem live_onSuccess (hhalf : b.state = .halfOpen → b.halfOpenCalls ≤ b.successes + 1 + b.calls) :
    (b.onSuccess options).Live options := by
  cases hstate : b.state with
  | closed => constructor <;> simp [onSuccess, hstate]
  | opened => constructor <;> simp [onSuccess, hstate, hopened]
  | halfOpen =>
    simp only [onSuccess, hstate]
    split_ifs with henough
    · constructor <;> simp [transitionTo, resetCounters]
    · exact ⟨fun h => by simp at h, fun _ => ⟨hhalf hstate, Nat.not_le.mp henough⟩⟩

theorem live_onFailure : (b.onFailure options).Live options := by
  cases hstate : b.state with
  | closed =>
    simp only [onFailure, hstate]
    split_ifs <;> constructor <;> simp [transitionTo, scheduleReset]
  | opened => constructor <;> simp [onFailure, hstate, hopened]
  | halfOpen => constructor <;> simp [onFailure, transitionTo, scheduleReset, hstate]

end

theorem Live.step {ev : CircuitEvent} (h : b.Live options) (hstep : b.step options ev = some b') :
    b'.Live options := by
  cases ev with
  | execute =>
    cases hstep
    rw [execute]
    split_ifs with _ hhalf
    · refine ⟨h.opened, fun _ => ?_⟩
      obtain ⟨hcount, hsuccesses⟩ := h.halfOpen hhalf
      exact ⟨Nat.succ_le_succ hcount, hsuccesses⟩
    · exact ⟨h.opened, fun hstate => absurd hstate hhalf⟩
    · exact h
  | settle =>
    rw [CircuitBreaker.step] at hstep
    split_ifs at hstep with hcalls hsuccess
    · refine some.inj hstep ▸ live_onSuccess h.opened fun hstate => ?_
      have hcount := (h.halfOpen hstate).1
      simp only
      omega
    · exact some.inj hstep ▸ live_onFailure h.opened
  | resetTimer =>
    rw [CircuitBreaker.step] at hstep
    split_ifs at hstep
    cases hstep
    by_cases hstate : b.state = .opened
    · constructor <;> simp [resetTimerFired, transitionTo, resetCounters, hstate,
        options.successThreshold_pos]
    · rw [resetTimerFired, if_neg hstate]
      exact ⟨fun h => absurd h hstate, h.halfOpen⟩
  | reset =>
    cases hstep
    by_cases hstate : b.state = .closed <;>
      constructor <;> simp [reset, transitionTo, resetCounters, hstate]

/-- Some run leads to the breaker. -/
def Reachable (options : CircuitBreakerOptions) (b : CircuitBreaker) : Prop :=
  ∃ es, exec (step options) initial es = some b

theorem Reachable.run (h : b.Reachable options) (es : List CircuitEvent)
    (hes : exec (step options) b es = some b') : b'.Reachable options := by
  obtain ⟨es', hes'⟩ := h
  exact ⟨es' ++ es, by rw [exec_append, hes', bind_some, hes]⟩

theorem reachable_failures : (n : ℕ) → n < options.failureThreshold →
    { initial with failures := n }.Reachable options
  | 0, _ => ⟨[], rfl⟩
  | n + 1, hn => by
    refine (reachable_failures n (Nat.lt_of_succ_lt hn)).run [.execute, .settle false] ?_
    simp [exec, step, execute, isCallAllowed, initial, onFailure, Nat.not_le_of_lt hn]

theorem reachable_halfOpen : (n : ℕ) → n ≤ options.halfOpenMaxCalls → n < options.successThreshold →
    (⟨.halfOpen, 0, n, n, false, 0⟩ : CircuitBreaker).Reachable options
  | 0, _, _ => by
    refine (reachable_failures (options.failureThreshold - 1)
      (Nat.sub_lt options.failureThreshold_pos Nat.one_pos)).run
      [.execute, .settle false, .resetTimer] ?_
    have hthreshold := Nat.sub_add_cancel options.failureThreshold_pos
    simp [exec, step, execute, isCallAllowed, initial, onFailure, transitionTo,
      scheduleReset, resetTimerFired, resetCounters, hthreshold]
  | n + 1, hmax, hn => by
    refine (reachable_halfOpen n (Nat.le_of_succ_le hmax) (Nat.lt_of_succ_lt hn)).run
      [.execute, .settle true] ?_
    simp [exec, step, execute, isCallAllowed, onSuccess, Nat.lt_of_succ_le hmax,
      Nat.not_le_of_lt hn]

/-- **Which breakers cannot wedge.** A breaker in which no call is in flight and no timer is set
allows calls, after every run, exactly if it lets at least as many calls through when it is half
open as it needs successes. -/
theorem never_wedged_iff (options : CircuitBreakerOptions) :
    (∀ b : CircuitBreaker, b.Reachable options → b.calls = 0 → b.resetTimer = false →
      b.isCallAllowed options = true) ↔ options.successThreshold ≤ options.halfOpenMaxCalls := by
  constructor
  · intro h
    by_contra hlt
    have hallowed := h _ (reachable_halfOpen _ (Nat.le_refl _) (Nat.not_le.mp hlt)) rfl rfl
    simp [isCallAllowed] at hallowed
  · rintro hle b ⟨es, hes⟩ hcalls htimer
    have hlive : b.Live options := exec_invariant (fun _ _ _ h _ hstep => h.step hstep)
      ⟨by simp [initial], by simp [initial]⟩ (allSteps_true _ _ _) hes
    cases hstate : b.state with
    | closed => simp [isCallAllowed, hstate]
    | opened => exact absurd (hlive.opened hstate) (by simp [htimer])
    | halfOpen =>
      obtain ⟨hcount, hsuccesses⟩ := hlive.halfOpen hstate
      simp only [isCallAllowed, hstate, decide_eq_true_eq]
      omega

def greedyOptions : CircuitBreakerOptions := ⟨1, 2, 1, Nat.one_pos, Nat.two_pos⟩

/-- A breaker that needs two successes and lets one call through. -/
theorem wedged_after_success : ∃ b, exec (step greedyOptions) initial [.execute, .settle false,
      .resetTimer, .execute, .settle true] = some b ∧ b.calls = 0 ∧ b.resetTimer = false ∧
      b.isCallAllowed greedyOptions = false :=
  ⟨_, rfl, rfl, rfl, rfl⟩

end CircuitBreaker

end DistributedCore.Transport
