import DistributedCore.Locks.QuorumCluster

/-!
# Votes back the grants of open requests

A node that counts a grant of `z` relies on `z` keeping its vote. The invariant `Ballots` says
that it does: the grants of an open request, counted or still in flight, are backed by votes
for the node of the request, and a node with an open request has not voted itself. It holds in
every run in which no node votes while it has an open request of its own for the same lock and
no vote is dropped while an open request relies on it.
-/

namespace DistributedCore.Locks

open QuorumDistributedLock Finset

variable {N : Type} [DecidableEq N]

/-! ### Votes back the grants of open requests -/

/-- A node votes once for a lock, and a counted grant is a vote that is kept. -/
structure Ballots (M : Membership N) (c : Cluster N) : Prop where
  localNodeId : ∀ x, (c.node x).localNodeId = x
  /-- Request ids are used once. -/
  fresh : ∀ {x r p}, c.pending x r = some p → r < c.nextRequest
  unique : ∀ {x y r p q}, c.pending x r = some p → c.pending y r = some q → x = y
  /-- A counted grant comes from a member that keeps its vote, or from the requester. -/
  grants : ∀ {x r p}, c.pending x r = some p → ∀ z ∈ p.grants,
    z ∈ M.nodes ∧ (z = x ∨ c.vote z p.lockId = some x)
  /-- A node with an open request has not voted. -/
  unvoted : ∀ {x r p}, c.pending x r = some p → c.vote x p.lockId = none
  /-- A `LOCK_REQUEST` in flight names the node and the lock of the request it belongs to. -/
  requests : ∀ env ∈ c.inFlight, ∀ l r y ttl, env.payload = .lockRequest l r y ttl →
    env.dest ∈ M.nodes ∧ r < c.nextRequest ∧ ∀ x p, c.pending x r = some p → x = y ∧ p.lockId = l
  /-- A `LOCK_GRANT` in flight comes from a member that keeps its vote. -/
  granted : ∀ env ∈ c.inFlight, ∀ r l z t, env.payload = .lockGrant r l z t →
    z ∈ M.nodes ∧ r < c.nextRequest ∧
      ∀ x p, c.pending x r = some p → p.lockId = l ∧ c.vote z l = some x

omit [DecidableEq N] in
theorem ballots_initial (M : Membership N) (ttl : ℕ) : Ballots M (Cluster.initial ttl) where
  localNodeId _ := rfl
  fresh h := by simp [Cluster.initial, Cluster.pending, create] at h
  unique h := by simp [Cluster.initial, Cluster.pending, create] at h
  grants h := by simp [Cluster.initial, Cluster.pending, create] at h
  unvoted h := by simp [Cluster.initial, Cluster.pending, create] at h
  requests env h := by simp [Cluster.initial] at h
  granted env h := by simp [Cluster.initial] at h

namespace Ballots

variable {M : Membership N} {D : Discipline N} {c c' : Cluster N}

section

variable (h : Ballots M c)

include h

section

omit [DecidableEq N]

variable {p : PendingRequest N}

theorem of_isGrantOf {x z : N} {r : ℕ} (hp : c.pending x r = some p)
    (hz : ∃ env ∈ c.inFlight, env.payload.IsGrantOf r z) :
    z ∈ M.nodes ∧ c.vote z p.lockId = some x := by
  obtain ⟨⟨d, y, msg⟩, henv, hgrant⟩ := hz
  cases msg with
  | lockGrant r' l z' t =>
    obtain ⟨rfl, rfl⟩ := hgrant
    obtain ⟨hmem, -, hgr⟩ := h.granted _ henv r' l z' t rfl
    obtain ⟨rfl, hv⟩ := hgr x p hp
    exact ⟨hmem, hv⟩
  | lockRequest | lockDeny | lockAbandon | lockRelease => exact hgrant.elim

/-- The invariant is kept if every open request was open before, with grants that were counted or
on their way, the votes on which the open requests rely are kept, and new grants come with a
vote. -/
theorem keep (hlocal : ∀ x, (c'.node x).localNodeId = (c.node x).localNodeId)
    (hnext : c.nextRequest ≤ c'.nextRequest)
    (hpending : ∀ {x r p'}, c'.pending x r = some p' → ∃ p, c.pending x r = some p ∧
      p'.lockId = p.lockId ∧
        ∀ z ∈ p'.grants, z ∈ p.grants ∨ ∃ env ∈ c.inFlight, env.payload.IsGrantOf r z)
    (hvote : ∀ {x r p}, c.pending x r = some p → c'.vote x p.lockId = none ∧
      ∀ z, c.vote z p.lockId = some x → (z ∈ p.grants ∨
        ∃ env ∈ c.inFlight, env.payload.IsGrantOf r z) → c'.vote z p.lockId = some x)
    (hballots : ∀ env ∈ c'.inFlight, env.payload.IsBallot → env ∈ c.inFlight ∨
      ∃ r l z t, env.payload = .lockGrant r l z t ∧ z ∈ M.nodes ∧ r < c.nextRequest ∧
        ∀ x p, c.pending x r = some p → p.lockId = l ∧ c'.vote z l = some x) :
    Ballots M c' where
  localNodeId x := (hlocal x).trans (h.localNodeId x)
  fresh hp' := by
    obtain ⟨p, hp, -⟩ := hpending hp'
    exact (h.fresh hp).trans_le hnext
  unique hp' hq' := by
    obtain ⟨p, hp, -⟩ := hpending hp'
    obtain ⟨q, hq, -⟩ := hpending hq'
    exact h.unique hp hq
  grants hp' z hz := by
    obtain ⟨p, hp, hl, hgrants⟩ := hpending hp'
    rw [hl]
    rcases hgrants z hz with hz | hz
    · exact (h.grants hp z hz).imp_right (Or.imp_right fun hv => (hvote hp).2 z hv (.inl hz))
    · obtain ⟨hmem, hv⟩ := h.of_isGrantOf hp hz
      exact ⟨hmem, .inr ((hvote hp).2 z hv (.inr hz))⟩
  unvoted hp' := by
    obtain ⟨p, hp, hl, -⟩ := hpending hp'
    exact hl ▸ (hvote hp).1
  requests env henv l r y ttl hpayload := by
    rcases hballots env henv (hpayload ▸ trivial) with hold | ⟨_, _, _, _, hnew, -⟩
    · obtain ⟨hdest, hr, hreq⟩ := h.requests env hold l r y ttl hpayload
      refine ⟨hdest, hr.trans_le hnext, fun x p' hp' => ?_⟩
      obtain ⟨p, hp, hl, -⟩ := hpending hp'
      exact hl ▸ hreq x p hp
    · cases hnew.symm.trans hpayload
  granted env henv r l z t hpayload := by
    rcases hballots env henv (hpayload ▸ trivial) with hold | ⟨_, _, _, _, hnew, hmem, hr, hgr⟩
    · obtain ⟨hz, hr, hgr⟩ := h.granted env hold r l z t hpayload
      refine ⟨hz, hr.trans_le hnext, fun x p' hp' => ?_⟩
      obtain ⟨p, hp, hl, -⟩ := hpending hp'
      obtain ⟨rfl, hv⟩ := hgr x p hp
      exact ⟨hl, (hvote hp).2 z hv (.inr ⟨env, hold, hpayload ▸ ⟨rfl, rfl⟩⟩)⟩
    · cases hnew.symm.trans hpayload
      refine ⟨hmem, hr.trans_le hnext, fun x p' hp' => ?_⟩
      obtain ⟨p, hp, hl, -⟩ := hpending hp'
      exact hl ▸ hgr x p hp

end

theorem change (hc : Change M D c c') : Ballots M c' := by
  cases hc with
  | quiet nodes ballots _ next =>
    have hvote : c'.vote = c.vote := funext₂ fun x l => by
      rw [Cluster.vote, (nodes x).vote, Cluster.vote]
    refine h.keep (fun x => (nodes x).localNodeId) next (fun {x r p'} hp' => ?_)
      (fun hp => by rw [hvote]; exact ⟨h.unvoted hp, fun _ hv _ => hv⟩)
      fun env henv hb => .inl (ballots env henv hb)
    obtain ⟨p, hp, hg, hl, -⟩ := (nodes x).pending r p' hp'
    exact ⟨p, hp, hl, fun z hz => .inl (hg ▸ hz)⟩
  | request x p grows mem _ unvoted grants _ vote _ pending ballots _ next =>
    -- a new request, under an id that was not used before
    -- an id that was used before belongs to an old request
    have hold : ∀ {y r q}, r < c.nextRequest → c'.pending y r = some q → c.pending y r = some q :=
      fun hr hq => (pending hq).resolve_left fun hnew => hr.ne hnew.2.1
    refine ⟨fun y => (grows.localNodeId y).trans (h.localNodeId y), ?_, ?_, ?_, ?_, ?_, ?_⟩
    · intro y r q hq
      rcases pending hq with ⟨-, rfl, -⟩ | hq
      · exact next
      · exact (h.fresh hq).trans next
    · intro y y' r q q' hq hq'
      rcases pending hq with ⟨rfl, rfl, -⟩ | hq
      · rcases pending hq' with ⟨rfl, -⟩ | hq'
        · rfl
        · exact absurd (h.fresh hq') (lt_irrefl _)
      · exact h.unique hq (hold (h.fresh hq) hq')
    · intro y r q hq z hz
      rw [vote]
      rcases pending hq with ⟨rfl, -, rfl⟩ | hq
      · rw [grants, mem_singleton] at hz
        exact ⟨hz ▸ mem, .inl hz⟩
      · exact h.grants hq z hz
    · intro y r q hq
      rw [vote]
      rcases pending hq with ⟨rfl, -, rfl⟩ | hq
      · exact unvoted
      · exact h.unvoted hq
    · intro env henv l r y ttl hpayload
      rcases ballots env henv (hpayload ▸ trivial) with henv | ⟨hdest, ttl', hnew⟩
      · obtain ⟨hdest, hr, hreq⟩ := h.requests env henv l r y ttl hpayload
        exact ⟨hdest, hr.trans next, fun w q hq => hreq w q (hold hr hq)⟩
      · cases hnew.symm.trans hpayload
        refine ⟨hdest, next, fun w q hq => ?_⟩
        rcases pending hq with ⟨rfl, -, rfl⟩ | hq
        · exact ⟨rfl, rfl⟩
        · exact absurd (h.fresh hq) (lt_irrefl _)
    · intro env henv r l z t hpayload
      rcases ballots env henv (hpayload ▸ trivial) with henv | ⟨-, ttl', hnew⟩
      · obtain ⟨hz, hr, hgr⟩ := h.granted env henv r l z t hpayload
        exact ⟨hz, hr.trans next, fun w q hq => vote ▸ hgr w q (hold hr hq)⟩
      · cases hnew.symm.trans hpayload
  | castVote env l r y ttl grows mem payload ok _ unvoted vote _ pending ballots =>
    obtain ⟨hdest, hr, hreq⟩ := h.requests env mem l r y ttl payload
    refine h.keep grows.localNodeId grows.next
      (fun hp' => ⟨_, pending ▸ hp', rfl, fun _ hz => .inl hz⟩) (fun {x r' p} hp => ⟨?_, ?_⟩)
      fun env' henv' hb => (ballots env' henv' hb).imp_right fun hnew =>
        ⟨r, l, env.dest, _, hnew, hdest, hr, fun x p hp => ?_⟩
    · rw [vote, if_neg]
      · exact h.unvoted hp
      · rintro ⟨rfl, rfl⟩
        exact ok (r', p) ((OrderedMap.mem_entries_iff _ _ _).mpr hp) rfl
    · -- votes are only added: the one that is cast was not there before
      intro z hv _
      rw [vote, if_neg]
      · exact hv
      · rintro ⟨rfl, hl⟩
        rw [hl, unvoted] at hv
        cases hv
    · obtain ⟨rfl, hl⟩ := hreq x p hp
      exact ⟨hl, by rw [vote, if_pos ⟨rfl, rfl⟩]⟩
  | count env _ _ _ _ p grows mem payload opened vote _ pending ballots =>
    refine h.keep grows.localNodeId grows.next (fun hp' => ?_)
      (fun hp => by rw [vote]; exact ⟨h.unvoted hp, fun _ hv _ => hv⟩)
      fun env henv hb => .inl (ballots env henv hb)
    rcases pending hp' with ⟨rfl, rfl, rfl⟩ | hp
    · refine ⟨p, opened, rfl, fun w hw => ?_⟩
      rcases mem_insert.mp hw with rfl | hw
      · exact .inr ⟨env, mem, payload ▸ ⟨rfl, rfl⟩⟩
      · exact .inl hw
    · exact ⟨_, hp, rfl, fun _ hw => .inl hw⟩
  | grant _ _ _ _ grows _ _ _ _ _ _ vote _ pending _ ballots =>
    exact h.keep grows.localNodeId grows.next
      (fun hp' => ⟨_, (pending hp').2, rfl, fun _ hz => .inl hz⟩)
      (fun hp => by rw [vote]; exact ⟨h.unvoted hp, fun _ hv _ => hv⟩)
      fun env henv hb => .inl (ballots env henv hb)
  | dropVote z l _ grows uncounted _ vote _ pending _ ballots =>
    refine h.keep grows.localNodeId grows.next
      (fun hp' => ⟨_, pending ▸ hp', rfl, fun _ hz => .inl hz⟩) (fun {x r p} hp => ⟨?_, ?_⟩)
      fun env henv hb => .inl (ballots env henv hb)
    · rw [vote]
      split_ifs
      · rfl
      · exact h.unvoted hp
    · -- the vote of `z` for `l` is not one an open request relies on
      intro w hv hrelies
      rw [vote, if_neg]
      · exact hv
      · rintro ⟨rfl, rfl⟩
        obtain ⟨hgrants, hflight⟩ :=
          uncounted x hv (r, p) ((OrderedMap.mem_entries_iff _ _ _).mpr hp) rfl
        rcases hrelies with hw | ⟨env, henv, hw⟩
        · exact hgrants hw
        · exact hflight env henv hw

end

theorem run {P : Cluster N → Prop} (hchange : ∀ c c', Ballots M c → P c → Change M D c c' → P c')
    {ttl : ℕ} {es : List (Event N)} (hinit : P (.initial ttl))
    (hok : AllSteps (step M) (StepOk D) (.initial ttl) es)
    (hrun : exec (step M) (.initial ttl) es = some c) : Ballots M c ∧ P c :=
  exec_invariant_of_changes (P := fun c => Ballots M c ∧ P c)
    (fun _ _ hs hc => ⟨hs.1.change hc, hchange _ _ hs.1 hs.2 hc⟩)
    (fun _ _ _ hs hok hstep => step_changes hs.1.localNodeId hok hstep)
    ⟨ballots_initial M ttl, hinit⟩ hok hrun

end Ballots

omit [DecidableEq N] in
/-- Two nodes that have not voted and have a voter in common are the same. -/
theorem eq_of_common_voter {c : Cluster N} {x y z : N} {l : LockId} (hx : c.vote x l = none)
    (hy : c.vote y l = none) (hzx : z = x ∨ c.vote z l = some x)
    (hzy : z = y ∨ c.vote z l = some y) : x = y := by
  rcases hzx with rfl | hvx <;> rcases hzy with rfl | hvy
  · rfl
  · cases hx.symm.trans hvy
  · cases hy.symm.trans hvx
  · exact Option.some.inj (hvx.symm.trans hvy)

theorem exists_common_voter {M : Membership N} {V W : Finset N}
    (hV : ∀ z ∈ V, z ∈ M.nodes) (hW : ∀ z ∈ W, z ∈ M.nodes)
    (hVcard : majority M.size ≤ V.card) (hWcard : majority M.size ≤ W.card) :
    ∃ z, z ∈ V ∧ z ∈ W := by
  have hsize : M.nodes.toFinset.card = M.size := List.toFinset_card_of_nodup M.nodup
  have hlt : M.nodes.toFinset.card < V.card + W.card := by
    rw [hsize]
    simp only [majority] at hVcard hWcard
    omega
  obtain ⟨z, hz⟩ := inter_nonempty_of_card_lt_card_add_card
    (fun z hz => List.mem_toFinset.mpr (hV z hz)) (fun z hz => List.mem_toFinset.mpr (hW z hz)) hlt
  exact ⟨z, mem_inter.mp hz⟩

end DistributedCore.Locks
