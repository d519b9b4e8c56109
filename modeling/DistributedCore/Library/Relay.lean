import Mathlib.Data.Finset.Basic

/-!
# Nodes that tell each other what they learn

Every node has a state and sends messages to all other members of a group. The messages from one
node to another arrive in the order in which they were sent.
-/

namespace DistributedCore

/-- The states of the nodes and the messages in flight, for each sender and each receiver, oldest
first. -/
@[ext] structure Relay (N S M : Type*) where
  state : N → S
  link : N → N → List M

namespace Relay

variable {N S M : Type*} (members : Finset N) (s : Relay N S M)

/-- Messages travel between different members. -/
def Among : Prop := ∀ p d, ¬ (p ∈ members ∧ d ∈ members ∧ d ≠ p) → s.link p d = []

variable [DecidableEq N]

/-- The state of `x` becomes `c`, and messages are sent to all other members. -/
def announce (x : N) (c : S) (ms : List M) : Relay N S M where
  state := Function.update s.state x c
  link p d := if p = x ∧ d ∈ members ∧ d ≠ x then s.link p d ++ ms else s.link p d

/-- The oldest message from `p` to `d` leaves its link. -/
def take (p d : N) : Relay N S M :=
  { s with link := fun p' d' => if p' = p ∧ d' = d then (s.link p d).tail else s.link p' d' }

theorem announce_nil (x : N) : s.announce members x (s.state x) [] = s := by
  ext1
  · exact Function.update_eq_self x s.state
  · funext p d
    simp [announce]

variable {members s} {x p d : N} {c : S} {ms : List M}

/-- A node that learns from a message may learn first, and the message leaves its link then. -/
theorem take_announce (hne : d ≠ p) :
    (s.take p d).announce members d c ms = (s.announce members d c ms).take p d := by
  ext1
  · rfl
  · funext p' d'
    by_cases hpd : p' = p ∧ d' = d
    · obtain ⟨rfl, rfl⟩ := hpd
      simp [announce, take]
    · simp [announce, take, hpd]

theorem link_announce_of_ne (h : p ≠ x) : (s.announce members x c ms).link p d = s.link p d :=
  if_neg fun hp => h hp.1

theorem link_announce_self (hd : d ∈ members) (hne : d ≠ x) :
    (s.announce members x c ms).link x d = s.link x d ++ ms :=
  if_pos ⟨rfl, hd, hne⟩

section

variable (h : s.Among members)

include h

theorem Among.announce (hx : x ∈ members) : (s.announce members x c ms).Among members := by
  intro p d hpd
  have hpx : ¬ (p = x ∧ d ∈ members ∧ d ≠ x) := by
    rintro ⟨rfl, hd, hne⟩
    exact hpd ⟨hx, hd, hne⟩
  simp only [Relay.announce, if_neg hpx]
  exact h p d hpd

theorem Among.take : (s.take p d).Among members := by
  intro p' d' hpd
  simp only [Relay.take]
  split_ifs with heq
  · obtain ⟨rfl, rfl⟩ := heq
    rw [h _ _ hpd, List.tail_nil]
  · exact h _ _ hpd

omit [DecidableEq N] in
theorem Among.mem_of_link {m : M} (hlink : s.link p d = m :: ms) :
    p ∈ members ∧ d ∈ members ∧ d ≠ p := by
  by_contra hpd
  rw [h p d hpd] at hlink
  cases hlink

end

end Relay

end DistributedCore
