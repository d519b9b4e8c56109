import DistributedCore.Library.Relay

/-!
# Counters passed on along links

Every member of a group has a counter, which is 0 until it is created. A member that changes its
counter sends the new value to all other members. A value that arrives is accepted if it is larger
than the counter; a counter that is not created yet only accepts the value 1, which creates it. A
member that accepts a value has changed its counter, so it sends the value on.

## Main results

* `GossipCounter.Inv.raise`, `GossipCounter.Inv.receive`: the changes keep the invariant.
* `GossipCounter.Inv.le_of_quiet`: when nothing is in flight, no counter is behind another.
-/

namespace DistributedCore

open Function

abbrev GossipCounter (N : Type*) := Relay N ℕ ℕ

namespace GossipCounter

/-- The counter after the value `n` has arrived at a counter `c`, and what is sent on. -/
def receive (c n : ℕ) : ℕ × List ℕ := if c < n ∧ (c = 0 → n = 1) then (n, [n]) else (c, [])

def accept (c n : ℕ) : ℕ := (receive c n).1

theorem accept_eq (c n : ℕ) : accept c n = if c < n ∧ (c = 0 → n = 1) then n else c :=
  apply_ite Prod.fst ..

theorem le_accept (c n : ℕ) : c ≤ accept c n := by
  rw [accept_eq]
  split_ifs <;> omega

theorem foldl_accept_mono : ∀ (ns : List ℕ) {c c' : ℕ}, c ≤ c' →
    ns.foldl accept c ≤ ns.foldl accept c'
  | [], _, _, h => h
  | n :: ns, c, c', h => by
    refine foldl_accept_mono ns ?_
    rw [accept_eq, accept_eq]
    split_ifs <;> omega

variable {N : Type*} {members : Finset N} {s : GossipCounter N} {x p d : N} {n : ℕ}

/-- When the messages in flight from a member have arrived, no counter is behind its counter. -/
structure Inv (members : Finset N) (s : GossipCounter N) : Prop where
  among : s.Among members
  caught : ∀ {p d}, p ∈ members → d ∈ members → d ≠ p →
    s.state p ≤ (s.link p d).foldl accept (s.state d)

theorem inv_initial : Inv members ⟨fun _ => 0, fun _ _ => []⟩ :=
  ⟨fun _ _ _ => rfl, fun _ _ _ => le_rfl⟩

section

variable (h : Inv members s)

include h

theorem Inv.le_of_quiet (hp : p ∈ members) (hd : d ∈ members) (hquiet : s.link p d = []) :
    s.state p ≤ s.state d := by
  by_cases hne : d = p
  · rw [hne]
  · have hcaught := h.caught hp hd hne
    rwa [hquiet] at hcaught

variable [DecidableEq N] {rest : List ℕ}

/-- **A member raises its counter** and sends the new value. -/
theorem Inv.raise (hx : x ∈ members) (hlt : s.state x < n) (hfirst : s.state x = 0 → n = 1) :
    Inv members (s.announce members x n [n]) := by
  refine ⟨h.among.announce hx, fun {p d} hp hd hne => ?_⟩
  have hcaught := h.caught hp hd hne
  by_cases hpx : p = x
  · subst hpx
    rw [Relay.link_announce_self hd hne, List.foldl_concat, accept_eq]
    simp only [Relay.announce, update_self, update_of_ne hne]
    split_ifs <;> omega
  · rw [Relay.link_announce_of_ne hpx]
    simp only [Relay.announce, update_of_ne hpx]
    refine hcaught.trans (foldl_accept_mono _ ?_)
    rw [update_apply]
    split_ifs with hdx
    · exact hdx ▸ hlt.le
    · exact le_rfl

theorem Inv.take (hlink : s.link p d = n :: rest)
    (hn : accept (s.state d) n = s.state d) : Inv members (s.take p d) := by
  refine ⟨h.among.take, fun {p' d'} hp hd hne => ?_⟩
  have hcaught := h.caught hp hd hne
  simp only [Relay.take]
  split_ifs with heq
  · obtain ⟨rfl, rfl⟩ := heq
    rw [hlink, List.foldl_cons, hn] at hcaught
    rwa [hlink]
  · exact hcaught

/-- **A value arrives.** A member that accepts it has raised its counter, and a counter does not
accept its own value. -/
theorem Inv.receive (hlink : s.link p d = n :: rest) :
    Inv members ((s.take p d).announce members d (receive (s.state d) n).1
      (receive (s.state d) n).2) := by
  obtain ⟨-, hd, hne⟩ := h.among.mem_of_link hlink
  rw [GossipCounter.receive]
  split_ifs with hn
  · rw [Relay.take_announce hne]
    refine (h.raise hd hn.1 hn.2).take ((Relay.link_announce_of_ne hne.symm).trans hlink) ?_
    simp [accept_eq, Relay.announce]
  · have hsame : accept (s.state d) n = s.state d := by rw [accept_eq, if_neg hn]
    exact (Relay.announce_nil members (s.take p d) d).symm ▸ h.take hlink hsame

end

end GossipCounter

end DistributedCore
