import DistributedCore.Locks.QuorumBallots

/-!
# Fencing tokens of the majority-acknowledged lock

A handle gets the token `max + 1` over what the nodes that granted it had seen, so it exceeds
the token of every earlier handle that some common voter knew of. A voter learns the token of
the handle it voted for only from the `LOCK_RELEASE` of the holder: a vote that its timer
removes before that message arrives is given again with an old token, and two handles of one
lock carry the same token (`not_fencing_of_expired_vote`).
-/

namespace DistributedCore.Locks

open QuorumDistributedLock

variable {N : Type} [DecidableEq N]

/-- A node asks for a lock only while it has no open request for it, and drops a vote that
created a handle only when it has seen the token of that handle or is just being told of it. -/
def fencingDiscipline (N : Type) [DecidableEq N] : Discipline N where
  request c x l := NoOwnRequest c x l
  drop c z l t := ∀ y ∈ c.vote z l, ∀ g ∈ c.issued, g.handle.nodeId = y → g.handle.lockId = l →
    z ∈ g.voters → g.handle.fencingToken ≤ max (c.seen z l) t
  decidableRequest := inferInstance
  decidableDrop := inferInstance

/-- The token of every later grant of a lock exceeds the tokens of the earlier ones; the list
has the newest grant first. -/
def TokensIncrease (issued : List (Grant N)) : Prop :=
  issued.Pairwise fun later earlier => later.handle.lockId = earlier.handle.lockId →
    earlier.handle.fencingToken < later.handle.fencingToken

instance (issued : List (Grant N)) : Decidable (TokensIncrease issued) :=
  inferInstanceAs (Decidable (issued.Pairwise _))

/-- The tokens of the handles, and who knows them. -/
structure Fenced (M : Membership N) (c : Cluster N) : Prop where
  /-- A node has at most one open request for a lock. -/
  oneRequest : ∀ {x r r' p p'}, c.pending x r = some p → c.pending x r' = some p' →
    p.lockId = p'.lockId → r = r'
  majority : ∀ g ∈ c.issued, majority M.size ≤ g.voters.card
  members : ∀ g ∈ c.issued, ∀ z ∈ g.voters, z ∈ M.nodes
  /-- A voter of a handle knows its token or still keeps its vote. -/
  known : ∀ g ∈ c.issued, ∀ z ∈ g.voters, g.handle.fencingToken ≤ c.seen z g.handle.lockId ∨
    c.vote z g.handle.lockId = some g.handle.nodeId
  /-- An open request knows the tokens of the handles with which it shares a voter. -/
  counted : ∀ {x r p}, c.pending x r = some p → ∀ g ∈ c.issued, g.handle.lockId = p.lockId →
    ∀ z ∈ p.grants, z ∈ g.voters → g.handle.fencingToken ≤ p.maxSeenToken
  /-- A grant on its way to an open request reports the tokens of all handles of its voter. -/
  granted : ∀ env ∈ c.inFlight, ∀ r l z t, env.payload = .lockGrant r l z t →
    ∀ x p, c.pending x r = some p → ∀ g ∈ c.issued, g.handle.lockId = l → z ∈ g.voters →
      g.handle.fencingToken ≤ t
  increase : TokensIncrease c.issued

namespace Fenced

variable {M : Membership N} {c c' : Cluster N}

omit [DecidableEq N] in
theorem initial (M : Membership N) (ttl : ℕ) : Fenced M (Cluster.initial ttl) where
  oneRequest h := by simp [Cluster.initial, Cluster.pending, create] at h
  majority g h := by simp [Cluster.initial] at h
  members g h := by simp [Cluster.initial] at h
  known g h := by simp [Cluster.initial] at h
  counted h := by simp [Cluster.initial, Cluster.pending, create] at h
  granted env h := by simp [Cluster.initial] at h
  increase := .nil

section

variable (h : Fenced M c)

include h

variable {z x : N} {p : PendingRequest N} {r : ℕ} {g : Grant N}

section

omit [DecidableEq N]

theorem le_seen (hg : g ∈ c.issued) (hz : z ∈ g.voters) (hvote : c.vote z g.handle.lockId = none) :
    g.handle.fencingToken ≤ c.seen z g.handle.lockId := by
  rcases h.known g hg z hz with hle | hv
  · exact hle
  · rw [hvote] at hv
    cases hv

/-- The invariant is kept if no handle is created, every open request was open before and knows the
tokens of the handles of its voters, a voter that drops its vote knows the token, and new grants
report what a node without a vote has seen. -/
theorem keep (hissued : c'.issued = c.issued) (hseen : ∀ x l, c.seen x l ≤ c'.seen x l)
    (hpending : ∀ {x r p'}, c'.pending x r = some p' → ∃ p, c.pending x r = some p ∧
      p'.lockId = p.lockId ∧ ∀ g ∈ c.issued, g.handle.lockId = p.lockId → ∀ z ∈ p'.grants,
        z ∈ g.voters → g.handle.fencingToken ≤ p'.maxSeenToken)
    (hknown : ∀ g ∈ c.issued, ∀ z ∈ g.voters, c.vote z g.handle.lockId = some g.handle.nodeId →
        g.handle.fencingToken ≤ c'.seen z g.handle.lockId ∨
          c'.vote z g.handle.lockId = some g.handle.nodeId)
    (hballots : ∀ env ∈ c'.inFlight, env.payload.IsBallot → env ∈ c.inFlight ∨
      ∃ r l z, env.payload = .lockGrant r l z (c.seen z l) ∧ c.vote z l = none) :
    Fenced M c' where
  oneRequest hp' hq' hl := by
    obtain ⟨p, hp, hpl, -⟩ := hpending hp'
    obtain ⟨q, hq, hql, -⟩ := hpending hq'
    exact h.oneRequest hp hq (hpl.symm.trans (hl.trans hql))
  majority g hg := h.majority g (hissued ▸ hg)
  members g hg := h.members g (hissued ▸ hg)
  known g hg z hz := by
    rw [hissued] at hg
    rcases h.known g hg z hz with hle | hv
    · exact .inl (hle.trans (hseen z _))
    · exact hknown g hg z hz hv
  counted hp' g hg hl := by
    obtain ⟨p, -, hpl, hcounted⟩ := hpending hp'
    exact hcounted g (hissued ▸ hg) (hl.trans hpl)
  granted env henv r l z t hpayload x p' hp' g hg hl hz := by
    rw [hissued] at hg
    rcases hballots env henv (hpayload ▸ trivial) with hold | ⟨_, _, _, hnew, hvote⟩
    · obtain ⟨p, hp, -⟩ := hpending hp'
      exact h.granted env hold r l z t hpayload x p hp g hg hl hz
    · cases hnew.symm.trans hpayload
      subst hl
      exact h.le_seen hg hz hvote
  increase := hissued ▸ h.increase

end

section

variable (hb : Ballots M c)

include hb

/-- The token of a new handle exceeds the token of every earlier handle of the lock, because
the two have a common voter. -/
theorem lt_of_majority (pending : c.pending x r = some p)
    (hmaj : Locks.majority M.size ≤ p.grants.card) (hg : g ∈ c.issued)
    (hl : g.handle.lockId = p.lockId) : g.handle.fencingToken < p.maxSeenToken + 1 := by
  obtain ⟨z, hz, hzg⟩ := exists_common_voter (fun z hz => (hb.grants pending z hz).1)
    (h.members g hg) hmaj (h.majority g hg)
  exact Nat.lt_succ_of_le (h.counted pending g hg hl z hz hzg)

omit [DecidableEq N] in
theorem same_request {y : N} {r' : ℕ}
    {q : PendingRequest N} (hp : c.pending x r = some p) (hq : c.pending y r' = some q)
    (hl : p.lockId = q.lockId) (hzp : z ∈ p.grants)
    (hzq : z = y ∨ c.vote z q.lockId = some y) : y = x ∧ r' = r := by
  obtain rfl : x = y :=
    eq_of_common_voter (hl ▸ hb.unvoted hp) (hb.unvoted hq) (hl ▸ (hb.grants hp z hzp).2) hzq
  exact ⟨rfl, h.oneRequest hq hp hl.symm⟩

theorem change (hc : Change M (fencingDiscipline N) c c') : Fenced M c' := by
  cases hc with
  | quiet nodes ballots issued =>
    refine h.keep issued (fun x => (nodes x).seen) (fun {x r p'} hp' => ?_)
      (fun g hg z hz hv => .inr ?_) fun env henv hballot => .inl (ballots env henv hballot)
    · obtain ⟨p, hp, hgr, hpl, hmax⟩ := (nodes x).pending r p' hp'
      exact ⟨p, hp, hpl, fun g hg hl z hz hzg =>
        (h.counted hp g hg hl z (hgr ▸ hz) hzg).trans hmax⟩
    · rw [Cluster.vote, (nodes z).vote]
      exact hv
  | request x p grows _ ok unvoted grants token vote _ pending ballots issued =>
    have hno : ∀ {r q}, c.pending x r = some q → q.lockId ≠ p.lockId := fun hq =>
      ok _ ((OrderedMap.mem_entries_iff _ _ _).mpr hq)
    refine ⟨?_, issued ▸ h.majority, issued ▸ h.members, ?_, ?_, ?_, issued ▸ h.increase⟩
    · intro y r r' q q' hq hq' hl
      rcases pending hq with ⟨rfl, hr, rfl⟩ | hold <;>
        rcases pending hq' with ⟨hy, hr', hp⟩ | hold'
      · exact hr.trans hr'.symm
      · exact absurd hl.symm (hno hold')
      · subst hy hp
        exact absurd hl (hno hold)
      · exact h.oneRequest hold hold' hl
    · intro g hg z hz
      rw [vote]
      exact (h.known g (issued ▸ hg) z hz).imp_left fun hle => hle.trans (grows.seen z _)
    · intro y r q hq g hg hl z hz hzg
      rw [issued] at hg
      rcases pending hq with ⟨rfl, -, rfl⟩ | hold
      · obtain rfl : z = y := by simpa [grants] using hz
        rw [token, ← hl]
        exact h.le_seen hg hzg (hl ▸ unvoted)
      · exact h.counted hold g hg hl z hz hzg
    · intro env henv r l z t hpayload y q hq g hg
      rcases ballots env henv (hpayload ▸ trivial) with hold | ⟨-, ttl, hnew⟩
      · have hr := (hb.granted env hold r l z t hpayload).2.1
        have hq := (pending hq).resolve_left fun hnew => hr.ne hnew.2.1
        exact h.granted env hold r l z t hpayload y q hq g (issued ▸ hg)
      · cases hnew.symm.trans hpayload
  | castVote env l r _ _ grows _ _ _ _ unvoted vote _ pending ballots issued =>
    refine h.keep issued grows.seen (fun {x r p'} hp' => ?_) (fun g hg z hz hv => .inr ?_)
      fun env' henv' hballot => (ballots env' henv' hballot).imp_right fun hnew =>
        ⟨r, l, env.dest, hnew, unvoted⟩
    · rw [pending] at hp'
      exact ⟨p', hp', rfl, h.counted hp'⟩
    · rw [vote, if_neg]
      · exact hv
      · rintro ⟨rfl, rfl⟩
        rw [unvoted] at hv
        cases hv
  | count env _ l z t p grows mem payload opened vote _ pending ballots issued =>
    refine h.keep issued grows.seen (fun {x r' p'} hp' => ?_) (fun g hg w hw hv => .inr (vote ▸ hv))
      fun env' henv' hballot => .inl (ballots env' henv' hballot)
    rcases pending hp' with ⟨rfl, rfl, rfl⟩ | hold
    · -- the request learns the tokens of the new voter from its grant
      have hlock := ((hb.granted env mem _ l z t payload).2.2 _ p opened).1
      refine ⟨p, opened, rfl, fun g hg hl w hw hwg => ?_⟩
      rcases Finset.mem_insert.mp hw with rfl | hw
      · exact (h.granted env mem _ l _ t payload _ p opened g hg (hl.trans hlock) hwg).trans
          (le_max_right ..)
      · exact (h.counted opened g hg hl w hw hwg).trans (le_max_left ..)
    · exact ⟨p', hold, rfl, h.counted hold⟩
  | grant x r p new grows opened hmaj hlock hnode htoken hvoters vote held pending seen ballots
      issued =>
    rw [hb.localNodeId] at hnode
    have hcases : ∀ {P : Grant N → Prop}, P new → (∀ g ∈ c.issued, P g) → ∀ g ∈ c'.issued, P g := by
      intro P hnew hold
      rw [issued]
      exact List.forall_mem_cons.mpr ⟨hnew, hold⟩
    refine ⟨fun hp hq => h.oneRequest (pending hp).2 (pending hq).2,
      hcases (hvoters ▸ hmaj) h.majority,
      hcases (hvoters ▸ fun z hz => (hb.grants opened z hz).1) h.members, ?_, ?_, ?_, ?_⟩
    · rw [vote]
      refine hcases (fun z hz => ?_) fun g hg z hz =>
        (h.known g hg z hz).imp_left fun hle => hle.trans (grows.seen z _)
      rw [hlock, hnode]
      rcases (hb.grants opened z (hvoters ▸ hz)).2 with rfl | hv
      · exact .inl seen
      · exact .inr hv
    · intro y r' q hq
      obtain ⟨hother, hold⟩ := pending hq
      refine hcases (fun hl z hz hzg => ?_) (h.counted hold)
      exact absurd (h.same_request hb opened hold (hlock.symm.trans hl)
        (hvoters ▸ hzg) (hb.grants hold z hz).2) hother
    · intro env henv r' l z t hpayload y q hq
      obtain ⟨hother, hold⟩ := pending hq
      have henv := ballots env henv (hpayload ▸ trivial)
      refine hcases (fun hl hzg => ?_) (h.granted env henv r' l z t hpayload y q hold)
      obtain ⟨hql, hv⟩ := (hb.granted env henv r' l z t hpayload).2.2 y q hold
      exact absurd (h.same_request hb opened hold (hlock.symm.trans (hl.trans hql.symm))
        (hvoters ▸ hzg) (.inr (hql ▸ hv))) hother
    · rw [issued]
      refine List.pairwise_cons.mpr ⟨fun g hg hl => ?_, h.increase⟩
      rw [htoken]
      exact h.lt_of_majority hb opened hmaj hg (hl.symm.trans hlock)
  | dropVote _ _ _ grows _ ok vote _ pending seen ballots issued =>
    refine h.keep issued grows.seen (fun {x r p'} hp' => ?_) (fun g hg w hw hv => ?_)
      fun env' henv' hballot => .inl (ballots env' henv' hballot)
    · rw [pending] at hp'
      exact ⟨p', hp', rfl, h.counted hp'⟩
    · rw [vote]
      split_ifs with hz
      · obtain ⟨rfl, rfl⟩ := hz
        exact .inl ((ok _ hv g hg rfl rfl hw).trans (max_le (grows.seen _ _) seen))
      · exact .inr hv

end

end

end Fenced

/-- **Fencing tokens increase.** In every run in which a node votes or asks for a lock only
while it has no open request of its own for it, and drops a vote only while no open request
relies on it and only when it knows the token of the handle the vote created, the tokens of the
handles of a lock strictly increase in the order in which the handles are created. -/
theorem fencingToken_increasing (M : Membership N) (ttl : ℕ) {es : List (Event N)}
    {c : Cluster N} (hrun : exec (step M) (.initial ttl) es = some c)
    (hok : AllSteps (step M) (StepOk (fencingDiscipline N)) (.initial ttl) es) :
    TokensIncrease c.issued := by
  obtain ⟨-, hinv⟩ := Ballots.run (P := Fenced M) (fun _ _ hb h hc => h.change hb hc)
    (.initial M ttl) hok hrun
  exact hinv.increase

theorem fencingToken_increasing_handOver :
    ∃ c, exec (step pairMembership) (.initial 30000) handOver = some c ∧
      c.issued.map (·.handle.fencingToken) = [2, 1] ∧ TokensIncrease c.issued := by
  have hrun : exec (step pairMembership) (.initial 30000) handOver = some _ := rfl
  exact ⟨_, hrun, by decide, fencingToken_increasing pairMembership 30000 hrun (by decide)⟩

def trioMembership : Membership String := ⟨["n1", "n2", "n3"], by decide⟩

/-- `n1` obtains the lock with the vote of `n2`. Both leases end, and before the release of
`n1` arrives anywhere `n3` obtains the lock with a new vote of `n2`. -/
def expiredVote : List (Event String) :=
  [.tryAcquire "n1" "job" none 0, .deliver 0 1, .deliver 1 2, .remoteExpired "n2" "job",
    .ttlExpired "n1" "job", .tryAcquire "n3" "job" none 30000, .deliver 5 30001,
    .deliver 6 30002]

/-- Without the conditions tokens do not increase: after the vote of `n2` has expired, `n3`
obtains the lock with the token `n1` was given. -/
theorem not_fencing_of_expired_vote :
    ¬ ∀ (M : Membership String) (ttl : ℕ) (es : List (Event String)) (c : Cluster String),
      exec (step M) (.initial ttl) es = some c → TokensIncrease c.issued := by
  intro h
  exact absurd (h trioMembership 30000 expiredVote _ rfl) (by decide)

end DistributedCore.Locks
