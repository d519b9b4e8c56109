import Mathlib.Logic.Relation
import Mathlib.Tactic.Common

/-!
# Runs of a deterministic transition function

A system is given by a partial step function `step : S → E → Option S`: `step s e` is the state
after the event `e` in the state `s`, and `none` if `e` cannot happen there. Everything that
is left open by a program (the arguments of a call, the choice of the message that arrives
next, the timer that fires, the clock) is part of the event, so a statement about every run
is a statement about every list of events.

## Main results

* `exec_invariant`: an invariant of the steps that meet `ok` holds after every run of such
  steps; `exec_invariant_of_changes`: it is enough that the invariant is kept by the elementary
  changes that the steps are made of.
* `exec_invariant_allSteps`: an invariant of the allowed events that makes them meet `ok`.
* `exec_iff_allSteps`: a property that is kept exactly by the steps that meet `ok`.
* `allSteps_append_iff`, `exec_append`: runs can be cut in two.
* `exists_stateAt_eq_none_of_decreasing`: a schedule that keeps decreasing a natural number
  stops.
* `exists_schedule_of_recurrent`: a property that can always be reached again gives a schedule
  that never stops.
-/

namespace DistributedCore

open Option List

variable {S E : Type*} {allowed : E → Prop} {P : S → Prop}

/-- The state after the events `es`, taken one after another from `s`. -/
def exec (step : S → E → Option S) : S → List E → Option S
  | s, [] => some s
  | s, e :: es => (step s e).bind fun s' => exec step s' es

/-- Every step of the run `es` from `s` meets `ok` in the state in which it is taken. -/
def AllSteps (step : S → E → Option S) (ok : S → E → Prop) : S → List E → Prop
  | _, [] => True
  | s, e :: es => ok s e ∧
      match step s e with
      | none => True
      | some s' => AllSteps step ok s' es

instance decidableAllSteps (step : S → E → Option S) (ok : S → E → Prop)
    [∀ s e, Decidable (ok s e)] : (s : S) → (es : List E) → Decidable (AllSteps step ok s es)
  | _, [] => inferInstanceAs (Decidable True)
  | s, e :: es =>
    match h : step s e with
    | none => decidable_of_iff (ok s e) (by simp [AllSteps, h])
    | some s' =>
      haveI := decidableAllSteps step ok s' es
      decidable_of_iff (ok s e ∧ AllSteps step ok s' es) (by simp [AllSteps, h])

section Exec

variable {step : S → E → Option S} {ok : S → E → Prop} {P : S → Prop}

theorem exec_cons (s : S) (e : E) (es : List E) :
    exec step s (e :: es) = (step s e).bind fun s' => exec step s' es := rfl

theorem exec_singleton (s : S) (e : E) : exec step s [e] = step s e := by
  rw [exec_cons]
  cases step s e <;> rfl

variable {es : List E} {s t s' : S} {change : S → S → Prop} {e : E}

theorem exec_cons_eq_some :
    exec step s (e :: es) = some t ↔ ∃ s', step s e = some s' ∧ exec step s' es = some t := by
  rw [exec_cons, bind_eq_some_iff]

theorem exec_append (s : S) (es fs : List E) :
    exec step s (es ++ fs) = (exec step s es).bind fun s' => exec step s' fs := by
  induction es generalizing s with
  | nil => rfl
  | cons _ _ ih =>
    rw [cons_append, exec_cons, exec_cons, bind_assoc]
    exact congrArg _ (funext ih)

theorem allSteps_cons_of_eq_some (h : step s e = some s') :
    AllSteps step ok s (e :: es) ↔ ok s e ∧ AllSteps step ok s' es := by simp [AllSteps, h]

theorem allSteps_append_iff {fs : List E} (h : exec step s es = some s') :
    AllSteps step ok s (es ++ fs) ↔ AllSteps step ok s es ∧ AllSteps step ok s' fs := by
  induction es generalizing s with
  | nil =>
    cases h
    simp [AllSteps]
  | cons _ _ ih =>
    obtain ⟨s₁, hs₁, hrest⟩ := exec_cons_eq_some.mp h
    rw [cons_append, allSteps_cons_of_eq_some hs₁, allSteps_cons_of_eq_some hs₁, ih hrest,
      and_assoc]

theorem AllSteps.and_forall :
    {s : S} → {es : List E} → AllSteps step ok s es → (∀ e ∈ es, allowed e) →
      AllSteps step (fun s e => ok s e ∧ allowed e) s es
  | _, [], _, _ => trivial
  | s, e :: es, h, hes => by
    refine ⟨⟨h.1, hes e mem_cons_self⟩, ?_⟩
    cases hs : step s e with
    | none => trivial
    | some =>
      exact AllSteps.and_forall ((allSteps_cons_of_eq_some hs).mp h).2
        fun e he => hes e (mem_cons_of_mem _ he)
/-- Along a run whose steps meet `ok`, an invariant of such steps from which `ok'` follows. -/
theorem AllSteps.of_invariant {ok' : S → E → Prop}
    (hstep : ∀ s e s', P s → ok s e → step s e = some s' → P s' ∧ ok' s e) :
    {s t : S} → {es : List E} → P s → AllSteps step ok s es → exec step s es = some t →
      P t ∧ AllSteps step ok' s es
  | s, t, [], hs, _, h => by
    cases h
    exact ⟨hs, trivial⟩
  | s, t, e :: es, hs, hall, h => by
    obtain ⟨s', hs', hrest⟩ := exec_cons_eq_some.mp h
    rw [allSteps_cons_of_eq_some hs'] at hall
    obtain ⟨hP, hok⟩ := hstep s e s' hs hall.1 hs'
    obtain ⟨hPt, hall'⟩ := AllSteps.of_invariant hstep hP hall.2 hrest
    exact ⟨hPt, (allSteps_cons_of_eq_some hs').mpr ⟨hok, hall'⟩⟩

/-- **Invariants hold along runs.** A property of the first state that every step meeting `ok`
preserves holds after every run all of whose steps meet `ok`. -/
theorem exec_invariant (hstep : ∀ s e s', P s → ok s e → step s e = some s' → P s') {s t : S}
    {es : List E} (hs : P s) (hall : AllSteps step ok s es) (h : exec step s es = some t) : P t :=
  (AllSteps.of_invariant (fun s e s' hP hok hs' => ⟨hstep s e s' hP hok hs', trivial⟩) hs hall h).1

/-- A property that a step keeps exactly if it meets `ok` holds after a run exactly if it held at
the start and all steps met `ok`. -/
theorem exec_iff_allSteps {Q : S → Prop}
    (hstep : ∀ s e s', P s → step s e = some s' → P s' ∧ (Q s' ↔ Q s ∧ ok s e)) :
    {s t : S} → {es : List E} → P s → exec step s es = some t → (Q t ↔ Q s ∧ AllSteps step ok s es)
  | s, t, [], _, h => by
    cases h
    exact ⟨fun hQ => ⟨hQ, trivial⟩, And.left⟩
  | s, t, e :: es, hs, h => by
    obtain ⟨s', hs', hrest⟩ := exec_cons_eq_some.mp h
    obtain ⟨hP, hQ⟩ := hstep s e s' hs hs'
    rw [exec_iff_allSteps hstep hP hrest, hQ, allSteps_cons_of_eq_some hs', and_assoc]

theorem allSteps_true (step : S → E → Option S) (s : S) (es : List E) :
    AllSteps step (fun _ _ => True) s es := by
  induction es generalizing s with
  | nil => trivial
  | cons e _ ih =>
    refine ⟨trivial, ?_⟩
    cases step s e with
    | none => trivial
    | some s' => exact ih s'

/-- A property that allowed events preserve and that makes them meet `ok` holds after every run
of allowed events, and every step of the run meets `ok`. -/
theorem exec_invariant_allSteps
    (hstep : ∀ s e s', P s → allowed e → step s e = some s' → P s' ∧ ok s e) (hs : P s)
    (hes : ∀ e ∈ es, allowed e) (h : exec step s es = some t) :
    P t ∧ AllSteps step ok s es :=
  AllSteps.of_invariant (fun s e s' hP hallowed => hstep s e s' hP hallowed.2) hs
    ((allSteps_true step s es).and_forall hes) h

section

variable (hchange : ∀ s s', P s → change s s' → P s')

include hchange

/-- An invariant of the elementary changes is kept by what is composed of them. -/
theorem invariant_of_changes (hs : P s) (hchanges : Relation.ReflTransGen change s t) : P t := by
  induction hchanges with
  | refl => exact hs
  | tail _ hlast ih => exact hchange _ _ ih hlast

/-- An invariant of the elementary changes that every step meeting `ok` is composed of holds
after every run all of whose steps meet `ok`. -/
theorem exec_invariant_of_changes
    (hstep : ∀ s e s', P s → ok s e → step s e = some s' → Relation.ReflTransGen change s s')
    (hs : P s) (hok : AllSteps step ok s es) (hrun : exec step s es = some t) : P t :=
  exec_invariant
    (fun s e s' hs hok hs' => invariant_of_changes hchange hs (hstep s e s' hs hok hs'))
    hs hok hrun

end

end Exec

/-! ### Infinite schedules -/

/-- The state after the first `n` events of the schedule `evs`; `none` if one of them could not
happen. -/
def stateAt (step : S → E → Option S) (s : S) (evs : ℕ → E) : ℕ → Option S
  | 0 => some s
  | n + 1 => (stateAt step s evs n).bind fun t => step t (evs n)

variable {step : S → E → Option S} {s : S} {evs : ℕ → E}

theorem stateAt_succ_eq_some {n : ℕ} {t' : S} : stateAt step s evs (n + 1) = some t' ↔
      ∃ t, stateAt step s evs n = some t ∧ step t (evs n) = some t' := by
  rw [stateAt, bind_eq_some_iff]

/-- A schedule that has stopped does not go on. -/
theorem stateAt_eq_none_of_le {n m : ℕ} (h : stateAt step s evs n = none) (hnm : n ≤ m) :
    stateAt step s evs m = none := by
  induction hnm with
  | refl => exact h
  | step _ ih => rw [stateAt, ih, bind_none]

/-- An invariant of the steps of a schedule holds in every state of the schedule. -/
theorem stateAt_invariant (hs : P s) (hstep : ∀ n t t', P t → step t (evs n) = some t' → P t') :
    (n : ℕ) → {t : S} → stateAt step s evs n = some t → P t
  | 0, t, h => by
    cases h
    exact hs
  | n + 1, t, h => by
    obtain ⟨t₀, ht₀, hlast⟩ := stateAt_succ_eq_some.mp h
    exact hstep n t₀ t (stateAt_invariant hs hstep n ht₀) hlast

/-- **Decreasing measures.** A schedule along which a natural number decreases from some point
on stops. -/
theorem exists_stateAt_eq_none_of_decreasing (M : ℕ → ℕ) (N : ℕ)
    (hμ : ∀ n, N ≤ n → ∀ t t', stateAt step s evs n = some t → step t (evs n) = some t' →
      stateAt step s evs (n + 1) = some t' → M (n + 1) < M n) :
    ∃ n, stateAt step s evs n = none := by
  by_contra hsome
  have hstate : ∀ n, ∃ t, stateAt step s evs n = some t := fun n =>
    ne_none_iff_exists'.mp fun h => hsome ⟨n, h⟩
  have hsum : ∀ k, M (N + k) + k ≤ M N := by
    intro k
    induction k with
    | zero => simp
    | succ k =>
      obtain ⟨t', ht'⟩ := hstate (N + k + 1)
      obtain ⟨t, ht, hlast⟩ := stateAt_succ_eq_some.mp ht'
      have hk : M (N + (k + 1)) < M (N + k) := hμ (N + k) (Nat.le_add_right N k) t t' ht hlast ht'
      omega
  have := hsum (M N + 1)
  omega

/-- **Recurrence.** If from every state with the property `P` a nonempty run of allowed events
leads back to `P`, then a schedule of allowed events starts in every state with the property `P`
and never stops. -/
theorem exists_schedule_of_recurrent
    (hP : ∀ s, P s → ∃ es, es ≠ [] ∧ (∀ e ∈ es, allowed e) ∧ ∃ t, exec step s es = some t ∧ P t)
    (hs : P s) :
    ∃ evs : ℕ → E, (∀ n, allowed (evs n)) ∧ ∀ n, stateAt step s evs n ≠ none := by
  -- the states from which `P` is still ahead: one allowed event stays among them
  let Q : S → Prop := fun u => ∃ es, (∀ e ∈ es, allowed e) ∧ ∃ t, exec step u es = some t ∧ P t
  have hQ : ∀ u, Q u → ∃ e v, allowed e ∧ step u e = some v ∧ Q v := by
    rintro u ⟨es, hes, t, hut, ht⟩
    cases es with
    | nil =>
      cases hut
      obtain ⟨es, hne, hes', t', hut', ht'⟩ := hP u ht
      obtain ⟨e, es, rfl⟩ := exists_cons_of_ne_nil hne
      obtain ⟨v, huv, hvt'⟩ := exec_cons_eq_some.mp hut'
      exact ⟨e, v, hes' e mem_cons_self, huv, es,
        fun e he => hes' e (mem_cons_of_mem _ he), t', hvt', ht'⟩
    | cons e es =>
      obtain ⟨v, huv, hvt⟩ := exec_cons_eq_some.mp hut
      exact ⟨e, v, hes e mem_cons_self, huv, es,
        fun e he => hes e (mem_cons_of_mem _ he), t, hvt, ht⟩
  choose event next hallowed hnext hahead using fun u : {u // Q u} => hQ u.1 u.2
  let g : ℕ → {u // Q u} := fun n =>
    Nat.rec ⟨s, [], fun _ h => (nomatch h), s, rfl, hs⟩ (fun _ u => ⟨next u, hahead u⟩) n
  refine ⟨fun n => event (g n), fun n => hallowed (g n), ?_⟩
  have hstate : ∀ n, stateAt step s (fun n => event (g n)) n = some (g n).1 := by
    intro n
    induction n with
    | zero => rfl
    | succ n ih =>
      rw [stateAt, ih, bind_some]
      exact hnext (g n)
  exact fun n h => some_ne_none _ ((hstate n).symm.trans h)

end DistributedCore
