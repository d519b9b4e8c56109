import DistributedCore.Locks.QuorumBallots

/-!
# Mutual exclusion of the majority-acknowledged lock

At most one node should hold a lock, because two holders would have a common voter. The code
does not ensure that a vote lasts: a node that waits for grants of its own request, which it
counts as granted by itself, still votes for the request of another node, and `LOCK_ABANDON`
and `LOCK_RELEASE` remove a vote whatever node it was given to. Two nodes that ask each other
at the same time both obtain the lock (`not_mutualExclusion_of_crossing_requests`).
-/

namespace DistributedCore.Locks

open QuorumDistributedLock Option

variable {N : Type} [DecidableEq N]

def handleVoters (c : Cluster N) (x : N) (l : LockId) : Finset N :=
  match c.issued.find? fun g => g.handle.nodeId = x ∧ g.handle.lockId = l with
  | some g => g.voters
  | none => ∅

/-- A vote is dropped only if its node does not hold the lock, or holds it under a handle that
was created without this vote. -/
def exclusionDiscipline (N : Type) [DecidableEq N] : Discipline N where
  request _ _ _ := True
  drop c z l _ := ∀ y ∈ c.vote z l, (c.held y l).isSome → z ∉ handleVoters c y l
  decidableRequest := inferInstance
  decidableDrop := inferInstance

/-- The invariant of the handles in use: a holder has not voted, and the grants that created
its handle form a majority of members that keep their votes. -/
structure HoldersBacked (M : Membership N) (c : Cluster N) : Prop where
  unvoted : ∀ {x l h}, c.held x l = some h → c.vote x l = none
  majority : ∀ {x l h}, c.held x l = some h → majority M.size ≤ (handleVoters c x l).card
  backed : ∀ {x l h}, c.held x l = some h → ∀ z ∈ handleVoters c x l,
    z ∈ M.nodes ∧ (z = x ∨ c.vote z l = some x)

namespace HoldersBacked

variable {M : Membership N} {c c' : Cluster N}

theorem initial (M : Membership N) (ttl : ℕ) : HoldersBacked M (Cluster.initial ttl) where
  unvoted h := by simp [Cluster.initial, Cluster.held, create] at h
  majority h := by simp [Cluster.initial, Cluster.held, create] at h
  backed h := by simp [Cluster.initial, Cluster.held, create] at h

/-- The invariant is kept if no handle is created, no holder votes and no vote that backs a
handle is dropped. -/
theorem of_votes (h : HoldersBacked M c) (hissued : c'.issued = c.issued)
    (hheld : ∀ x l k, c'.held x l = some k → c.held x l = some k)
    (hunvoted : ∀ x l k, c.held x l = some k → c'.vote x l = none)
    (hkeep : ∀ x l k, c.held x l = some k → ∀ z ∈ handleVoters c x l, c.vote z l = some x →
      c'.vote z l = some x) : HoldersBacked M c' := by
  have hvoters : ∀ x l, handleVoters c' x l = handleVoters c x l := fun x l => by
    rw [handleVoters, hissued, handleVoters]
  refine ⟨fun hk => hunvoted _ _ _ (hheld _ _ _ hk),
    fun hk => hvoters _ _ ▸ h.majority (hheld _ _ _ hk), fun {x l k} hk z hz => ?_⟩
  rw [hvoters] at hz
  obtain ⟨hmem, hz'⟩ := h.backed (hheld _ _ _ hk) z hz
  exact ⟨hmem, hz'.imp_right (hkeep x l k (hheld _ _ _ hk) z hz)⟩

theorem change (h : HoldersBacked M c) (hb : Ballots M c)
    (hc : Change M (exclusionDiscipline N) c c') : HoldersBacked M c' := by
  cases hc with
  | quiet nodes _ issued =>
    have hvote : ∀ x l, c'.vote x l = c.vote x l := fun x l => by
      rw [Cluster.vote, (nodes x).vote, Cluster.vote]
    exact h.of_votes issued (fun x l k hk => (nodes x).held l k hk)
      (fun x l k hk => hvote x l ▸ h.unvoted hk) fun x l k _ z _ hz => hvote z l ▸ hz
  | request _ _ _ _ _ unvoted _ _ vote held _ _ issued =>
    exact h.of_votes issued (by simp [held]) (by simpa [vote] using fun _ _ _ => h.unvoted)
      (by simp [vote])
  | castVote _ _ _ _ _ _ _ _ _ unheld unvoted vote held _ _ issued =>
    -- the voter does not hold the lock and had not voted
    refine h.of_votes issued (by simp [held]) (fun x l' k hk => ?_) fun x l' k _ z _ hz => ?_
    · rw [vote, if_neg]
      · exact h.unvoted hk
      · rintro ⟨rfl, rfl⟩
        rw [unheld] at hk
        cases hk
    · rw [vote, if_neg]
      · exact hz
      · rintro ⟨rfl, rfl⟩
        rw [unvoted] at hz
        cases hz
  | count _ _ _ _ _ _ _ _ _ _ vote held _ _ issued =>
    exact h.of_votes issued (by simp [held]) (by simpa [vote] using fun _ _ _ => h.unvoted)
      (by simp [vote])
  | grant x r p g grows opened hmaj lockId nodeId token voters vote held pending seen ballots
      issued =>
    rw [hb.localNodeId] at nodeId
    -- a handle in use is the new one, or was in use before and has kept its voters
    have hcases : ∀ {y l k}, c'.held y l = some k →
        (y = x ∧ l = p.lockId ∧ handleVoters c' y l = p.grants) ∨
          (c.held y l = some k ∧ handleVoters c' y l = handleVoters c y l) := by
      intro y l k hk
      by_cases hnew : y = x ∧ l = p.lockId
      · obtain ⟨rfl, rfl⟩ := hnew
        exact .inl ⟨rfl, rfl, by simp [handleVoters, issued, nodeId, lockId, voters]⟩
      · refine .inr ⟨(held hk).resolve_left hnew, ?_⟩
        have hne : ¬ (x = y ∧ p.lockId = l) := fun h => hnew ⟨h.1.symm, h.2.symm⟩
        simp [handleVoters, issued, nodeId, lockId, hne]
    refine ⟨fun hk => ?_, fun hk => ?_, fun hk z hz => ?_⟩
    · rw [vote]
      rcases hcases hk with ⟨rfl, rfl, -⟩ | ⟨hk, -⟩
      · exact hb.unvoted opened
      · exact h.unvoted hk
    · rcases hcases hk with ⟨-, -, hv⟩ | ⟨hk, hv⟩
      · exact hv ▸ hmaj
      · exact hv ▸ h.majority hk
    · rw [vote]
      rcases hcases hk with ⟨rfl, rfl, hv⟩ | ⟨hk, hv⟩
      · exact hb.grants opened z (hv ▸ hz)
      · exact h.backed hk z (hv ▸ hz)
  | dropVote _ _ _ _ _ ok vote held _ _ _ issued =>
    refine h.of_votes issued (by simp [held]) (fun x l' k hk => ?_) fun x l' k hk w hw hv => ?_
    · rw [vote]
      split_ifs
      · rfl
      · exact h.unvoted hk
    · rw [vote, if_neg]
      · exact hv
      · rintro ⟨rfl, rfl⟩
        exact ok x hv (isSome_iff_exists.mpr ⟨k, hk⟩) hw

end HoldersBacked

/-- **Mutual exclusion.** In every run in which a node votes only while it has no open request
of its own for the lock, and drops a vote only while neither an open request nor a handle in
use relies on it, at most one node holds a lock. -/
theorem quorumLock_mutualExclusion (M : Membership N) (ttl : ℕ) {es : List (Event N)}
    {c : Cluster N} (hrun : exec (step M) (.initial ttl) es = some c)
    (hok : AllSteps (step M) (StepOk (exclusionDiscipline N)) (.initial ttl) es)
    (l : LockId) (x y : N) (hx : (c.held x l).isSome) (hy : (c.held y l).isSome) : x = y := by
  obtain ⟨-, hinv⟩ := Ballots.run (P := HoldersBacked M) (fun _ _ hb h hc => h.change hb hc)
    (.initial M ttl) hok hrun
  obtain ⟨hx', hx⟩ := isSome_iff_exists.mp hx
  obtain ⟨hy', hy⟩ := isSome_iff_exists.mp hy
  obtain ⟨z, hzx, hzy⟩ := exists_common_voter (fun z hz => (hinv.backed hx z hz).1)
    (fun z hz => (hinv.backed hy z hz).1) (hinv.majority hx) (hinv.majority hy)
  exact eq_of_common_voter (hinv.unvoted hx) (hinv.unvoted hy) (hinv.backed hx z hzx).2
    (hinv.backed hy z hzy).2

theorem quorumLock_mutualExclusion_handOver :
    ∃ c, exec (step pairMembership) (.initial 30000) handOver = some c ∧
      (c.held "n2" "job").isSome ∧ ∀ x, (c.held x "job").isSome → x = "n2" := by
  have hrun : exec (step pairMembership) (.initial 30000) handOver = some _ := rfl
  exact ⟨_, hrun, by decide, fun x hx =>
    quorumLock_mutualExclusion pairMembership 30000 hrun (by decide) "job" x "n2" hx (by decide)⟩

def Event.firesTtlTimer : Event N → Bool
  | .ttlExpired .. => true
  | .remoteExpired .. => true
  | _ => false

def crossingRequests : List (Event String) :=
  [.tryAcquire "n1" "job" none 0, .tryAcquire "n2" "job" none 0, .deliver 0 1, .deliver 0 1,
    .deliver 0 2, .deliver 0 2]

/-- Without the conditions mutual exclusion fails: each of the two members grants the request
of the other while it waits for its own, and both hold the lock. -/
theorem not_mutualExclusion_of_crossing_requests :
    ¬ ∀ (M : Membership String) (ttl : ℕ) (es : List (Event String)) (c : Cluster String),
      (∀ e ∈ es, e.firesTtlTimer = false) → exec (step M) (.initial ttl) es = some c →
      ∀ l x y, (c.held x l).isSome → (c.held y l).isSome → x = y := by
  intro h
  have hsame := h pairMembership 30000 crossingRequests _ (by decide) rfl "job" "n1" "n2"
    (by decide) (by decide)
  exact absurd hsame (by decide)

end DistributedCore.Locks
