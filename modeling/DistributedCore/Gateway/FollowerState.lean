import DistributedCore.Gateway.SharedState

/-!
# Followers of a shared state

The node that owns a channel publishes every update. Another node with subscribers listens to the
updates and applies them to a state of its own, which starts as a new state: nobody tells it what
was applied before. So a node whose first subscriber comes late, or whose last subscriber leaves and
comes back, has the effect of some of the updates only. A subscriber that waits for `join` is not
counted yet; if all others leave meanwhile, the node stops listening and has a subscriber all the
same.

Source: `src/gateway/state/SharedStateManager.ts`, `src/cluster/sessions/DistributedSession.ts`.
-/

namespace DistributedCore.Gateway

open List

/-- A channel on two nodes. The owner has the state `session` after the updates `applied`; of these
some have reached the other node (`arrived`), which keeps the rest. `joining` calls of `subscribe`
wait for `join`. -/
structure FollowedChannel (S U : Type) where
  session : S
  applied : List U
  inFlight : List U
  arrived : List U
  crossNodeSub : Bool
  joining : ℕ
  subscriberCount : ℕ
  followerState : Option S

/-- The updates at the owner, and the follower that subscribes and listens. -/
inductive FollowerEvent (U : Type)
  | applyUpdate (update : U)
  /-- The next update reaches the follower. -/
  | deliver
  | subscribe
  /-- A `join` of the follower resolves. -/
  | joined
  | unsubscribe

namespace FollowedChannel

variable {S U : Type} (adapter : SharedStateAdapter S U) (x : FollowedChannel S U)

def opened : FollowedChannel S U := ⟨adapter.createState, [], [], [], false, 0, 0, none⟩

def onCrossNodeMessage (update : U) : FollowedChannel S U :=
  if x.crossNodeSub then
    let current := x.followerState.getD adapter.createState
    { x with followerState := some (adapter.applyUpdate current update) }
  else x

def unsubscribe : FollowedChannel S U :=
  if x.subscriberCount = 0 then x
  else
    let newCount := x.subscriberCount - 1
    if newCount = 0 then
      { x with subscriberCount := 0, crossNodeSub := false, followerState := none }
    else { x with subscriberCount := newCount }

/-- The follower returns its own state only. -/
def getSnapshot : Option S := x.followerState

def step : FollowerEvent U → Option (FollowedChannel S U)
  | .applyUpdate update => some
    { x with
      session := adapter.applyUpdate x.session update
      applied := x.applied ++ [update]
      inFlight := x.inFlight ++ [update] }
  | .deliver =>
    match x.inFlight with
    | [] => none
    | update :: rest => some
      (onCrossNodeMessage adapter { x with inFlight := rest, arrived := x.arrived ++ [update] }
        update)
  | .subscribe => some { x with crossNodeSub := true, joining := x.joining + 1 }
  | .joined =>
    if x.joining = 0 then none
    else some
      { x with joining := x.joining - 1, subscriberCount := x.subscriberCount + 1 }
  | .unsubscribe => some x.unsubscribe

/-- If no update is on its way and the follower has a subscriber, its snapshot is the state of the
owner, or there is none and no update was applied. -/
def Agrees : Prop :=
  x.inFlight = [] → 0 < x.subscriberCount →
    x.getSnapshot = some x.session ∨ x.getSnapshot = none ∧ x.applied = []

/-- The follower begins to listen before the first update has reached it, and the last subscriber
does not leave while another one waits for `join`. -/
def Orderly : FollowerEvent U → Prop
  | .subscribe => x.crossNodeSub = true ∨ x.arrived = []
  | .unsubscribe => x.subscriberCount = 1 → x.joining = 0
  | .applyUpdate _ | .deliver | .joined => True

instance decidableOrderly [DecidableEq U] (ev : FollowerEvent U) : Decidable (x.Orderly ev) := by
  unfold Orderly
  split <;> infer_instance

end FollowedChannel

def SharedStateAdapter.replica {S U : Type} (adapter : SharedStateAdapter S U) : List U → Option S
  | [] => none
  | update :: updates => some ((update :: updates).foldl adapter.applyUpdate adapter.createState)

namespace FollowedChannel

variable {S U : Type} {adapter : SharedStateAdapter S U} {x x' : FollowedChannel S U}

/-- The follower has applied what arrived since it listens. -/
structure Follows (adapter : SharedStateAdapter S U) (x : FollowedChannel S U) : Prop where
  session : x.session = x.applied.foldl adapter.applyUpdate adapter.createState
  applied : x.applied = x.arrived ++ x.inFlight
  listens : 0 < x.subscriberCount + x.joining → x.crossNodeSub = true
  state : x.followerState = if x.crossNodeSub then adapter.replica x.arrived else none

theorem follows_opened : (opened adapter).Follows adapter :=
  ⟨rfl, rfl, fun h => absurd h (Nat.lt_irrefl 0), rfl⟩

section

variable (h : x.Follows adapter)

include h

theorem Follows.agrees : x.Agrees := by
  intro hquiet hcount
  have happlied : x.applied = x.arrived := by rw [h.applied, hquiet, append_nil]
  have hstate : x.followerState = adapter.replica x.applied := by
    rw [h.state, h.listens (Nat.add_pos_left hcount _), if_pos rfl, happlied]
  cases hupdates : x.applied with
  | nil => exact .inr ⟨by rw [getSnapshot, hstate, hupdates]; rfl, rfl⟩
  | cons => exact .inl (by rw [getSnapshot, hstate, h.session, hupdates]; rfl)

theorem Follows.onCrossNodeMessage {update : U} {rest : List U}
    (hnext : x.inFlight = update :: rest) :
    (onCrossNodeMessage adapter { x with inFlight := rest, arrived := x.arrived ++ [update] }
      update).Follows adapter := by
  have happlied : x.applied = (x.arrived ++ [update]) ++ rest := by
    rw [h.applied, hnext, append_assoc, singleton_append]
  unfold FollowedChannel.onCrossNodeMessage
  split_ifs with hsub
  · refine ⟨h.session, happlied, h.listens, ?_⟩
    rw [if_pos hsub, h.state, if_pos hsub]
    cases x.arrived <;> simp [SharedStateAdapter.replica]
  · exact ⟨h.session, happlied, h.listens, h.state.trans ((if_neg hsub).trans (if_neg hsub).symm)⟩

theorem Follows.unsubscribe (hev : x.Orderly .unsubscribe) : x.unsubscribe.Follows adapter := by
  unfold FollowedChannel.unsubscribe
  extract_lets newCount
  split_ifs with _ _
  · exact h
  · refine ⟨h.session, h.applied, fun hpos => ?_, rfl⟩
    have hjoining : x.joining = 0 := hev (by omega)
    exact absurd hpos (by change ¬0 < 0 + x.joining; omega)
  · exact ⟨h.session, h.applied, fun _ => h.listens (by omega), h.state⟩

/-- **One event.** -/
theorem Follows.step {ev : FollowerEvent U} (hev : x.Orderly ev)
    (hstep : step adapter x ev = some x') : x'.Follows adapter := by
  cases ev with
  | applyUpdate =>
    cases hstep
    refine ⟨?_, ?_, h.listens, h.state⟩
    · simp [h.session]
    · simp [h.applied]
  | deliver =>
    rw [FollowedChannel.step] at hstep
    split at hstep
    · cases hstep
    · cases hstep
      exact h.onCrossNodeMessage ‹_›
  | subscribe =>
    cases hstep
    refine ⟨h.session, h.applied, fun _ => rfl, ?_⟩
    -- a follower that did not listen has no state, and nothing has arrived
    have hstate := h.state
    obtain hsub | hnone := hev
    · rw [hstate, if_pos hsub, if_pos rfl]
    · rw [hstate, hnone, if_pos rfl]
      exact ite_self _
  | joined =>
    obtain ⟨hjoining, heq⟩ := Option.ite_none_left_eq_some.mp hstep
    cases heq
    exact ⟨h.session, h.applied, fun _ => h.listens (by omega), h.state⟩
  | unsubscribe =>
    cases hstep
    exact h.unsubscribe hev

end

/-- **Followers agree with the owner** after every orderly run. -/
theorem agrees_of_run (adapter : SharedStateAdapter S U) (es : List (FollowerEvent U))
    {t : FollowedChannel S U} (hall : AllSteps (step adapter) Orderly (opened adapter) es)
    (hrun : exec (step adapter) (opened adapter) es = some t) : t.Agrees :=
  (exec_invariant (fun _ _ _ h hev hstep => h.step hev hstep) follows_opened hall hrun).agrees

def sumAdapter : SharedStateAdapter ℕ ℕ := ⟨0, (· + ·)⟩

def promptRun : List (FollowerEvent ℕ) :=
  [.subscribe, .joined, .applyUpdate 1, .unsubscribe, .subscribe, .joined, .deliver,
    .applyUpdate 2, .deliver]

theorem agrees_promptRun :
    ∃ t, exec (step sumAdapter) (opened sumAdapter) promptRun = some t ∧ t.Agrees :=
  ⟨_, rfl, agrees_of_run sumAdapter promptRun (by decide) rfl⟩

/-- A follower whose first subscriber comes after an update has the sum of the later ones. -/
theorem not_agrees_of_late_subscriber : ∃ t, exec (step sumAdapter) (opened sumAdapter)
      [.applyUpdate 1, .deliver, .subscribe, .joined, .applyUpdate 2, .deliver] = some t ∧
      t.session = 3 ∧ t.getSnapshot = some 2 ∧ ¬t.Agrees := by
  refine ⟨_, rfl, rfl, rfl, fun h => ?_⟩
  obtain hsame | ⟨hnone, -⟩ := h rfl Nat.one_pos
  · exact absurd hsame (by decide)
  · cases hnone

end FollowedChannel

end DistributedCore.Gateway
