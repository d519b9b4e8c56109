import DistributedCore.Gateway.SharedState
import DistributedCore.Library.Tasks

/-!
# Updates that a channel keeps

The state of a channel lives in its session, and otherwise only in the last snapshot. So an update
survives the end of a session only if a snapshot was taken after it, and the next session has to
read that snapshot before it is used. The conditions on a history (`Orderly`) say when: a channel is
subscribed and updated while it is served or at rest, its last subscriber leaves after a snapshot,
and no session with a subscriber is evicted.

Source: `src/gateway/state/SharedStateManager.ts`, `src/gateway/state/types.ts`,
`src/cluster/sessions/DistributedSession.ts`.
-/

namespace DistributedCore.Gateway

open OrderedMap List Option SharedChannel Bool

variable {S U : Type} {ev : ChannelEvent U}

def ChannelCall.isSettled : ChannelCall S U → Bool
  | .applyUpdate _ .publishing => true
  | .subscribe _ (.joined true) => true
  | call => !call.isSuspended

namespace ChannelCall

variable {call : ChannelCall S U}

theorem resolvedUpdate_cases (call : ChannelCall S U) :
    call.resolvedUpdate = none ∨ call.resolvedUpdate = call.appliedUpdate := by
  rcases call with _ | ⟨update, _ | _ | _ | _⟩ | _ | _
  all_goals first | exact .inl rfl | exact .inr rfl

theorem isSettled_of_not_isSuspended (h : call.isSuspended = false) : call.isSettled = true := by
  cases call with
  | subscribe _ stage => cases stage <;> simp_all [isSettled, isSuspended]
  | applyUpdate _ stage => cases stage <;> simp_all [isSettled]
  | unsubscribe => simpa [isSettled] using h
  | eviction => simpa [isSettled] using h

theorem eq_of_isSettled (hsettled : call.isSettled = true) (hcall : call.isSuspended = true) :
    (∃ update, call = .applyUpdate update .publishing) ∨
      ∃ clientId, call = .subscribe clientId (.joined true) := by
  cases call with
  | subscribe clientId stage =>
    cases stage with
    | joined isLocal =>
      cases isLocal with
      | false => simp [isSettled, isSuspended] at hsettled
      | true => exact .inr ⟨clientId, rfl⟩
    | _ => simp_all [isSettled, isSuspended]
  | applyUpdate update stage =>
    cases stage with
    | publishing => exact .inl ⟨update, rfl⟩
    | _ => simp [isSuspended] at hcall
  | unsubscribe released | eviction released => simp_all [isSettled]

end ChannelCall

namespace SharedChannel

/-! ### The property and the conditions -/

variable (x : SharedChannel S U)

def appliedUpdates : List U := x.calls.filterMap ChannelCall.appliedUpdate

def resolvedUpdates : List U := x.calls.filterMap ChannelCall.resolvedUpdate

variable (adapter : SharedStateAdapter S U)

/-- The session has a state that is made of applied updates, in order, and among them are all that
have resolved. -/
def KeepsUpdates (base : S) (x : SharedChannel S U) : Prop :=
  ∃ updates : List U, x.resolvedUpdates.Sublist updates ∧ updates.Sublist x.appliedUpdates ∧
    x.session = some (updates.foldl adapter.applyUpdate base)

/-- No call is suspended. -/
def Quiet : Prop := ∀ call ∈ x.calls, call.isSuspended = false

/-- The session is open and has subscribers, and no call is about to change that. -/
def Serving : Prop :=
  x.session.isSome = true ∧ 0 < x.subscriberCount ∧ ∀ call ∈ x.calls, call.isSettled = true

/-- The store holds the state, and every store that is under way writes it. -/
def Saved (x : SharedChannel S U) (state : S) : Prop :=
  x.latest.getD adapter.createState = state ∧ ∀ other ∈ x.stores, other = state

/-- The conditions on a channel. An idle timer runs only while the channel has a subscriber, so the
condition on `evict` says that no session is evicted. -/
def Orderly (x : SharedChannel S U) : ChannelEvent U → Prop
  | .subscribe _ => x.Serving ∨ x.Quiet
  | .applyUpdate _ => x.session.isNone = true ∨ x.Serving
  | .unsubscribe => x.subscriberCount = 1 → x.Quiet ∧ ∀ state ∈ x.session, x.Saved adapter state
  | .evict => x.subscriberCount = 0 ∧ x.Quiet
  | .proceed _ _ | .snapshotTimer | .stored _ => True

section Decidable

variable (adapter : SharedStateAdapter S U) (x : SharedChannel S U)

instance decidableQuiet : Decidable x.Quiet :=
  inferInstanceAs (Decidable (∀ call ∈ x.calls, _ = false))

instance decidableServing : Decidable x.Serving :=
  inferInstanceAs (Decidable (_ = true ∧ _ < _ ∧ ∀ call ∈ x.calls, _ = true))

instance decidableSaved [DecidableEq S] (state : S) : Decidable (x.Saved adapter state) :=
  inferInstanceAs (Decidable (_ = _ ∧ ∀ other ∈ x.stores, _ = _))

instance decidableOrderly [DecidableEq S] (ev : ChannelEvent U) :
    Decidable (x.Orderly adapter ev) := by
  unfold Orderly
  split <;> infer_instance

end Decidable

/-! ### Applied updates -/

variable {adapter : SharedStateAdapter S U} {base : S} {x x' : SharedChannel S U} {update : U}

/-- The base state with all applied updates. -/
def current (adapter : SharedStateAdapter S U) (base : S) (x : SharedChannel S U) : S :=
  x.appliedUpdates.foldl adapter.applyUpdate base

theorem current_eq_of_calls (h : x'.calls = x.calls) :
    x'.current adapter base = x.current adapter base := by
  rw [current, current, appliedUpdates, appliedUpdates, h]

theorem current_concat {call : ChannelCall S U} (h : x'.calls = x.calls ++ [call])
    (hcall : call.appliedUpdate = none) : x'.current adapter base = x.current adapter base := by
  rw [current, current, appliedUpdates, appliedUpdates, h, filterMap_append]
  simp [hcall]

theorem current_concat_update (h : x'.calls = x.calls ++ [.applyUpdate update .publishing]) :
    x'.current adapter base = adapter.applyUpdate (x.current adapter base) update := by
  rw [current, current, appliedUpdates, appliedUpdates, h, filterMap_append]
  simp [ChannelCall.appliedUpdate]

theorem current_unsubscribe : x.unsubscribe.current adapter base = x.current adapter base := by
  rw [unsubscribe]
  dsimp only
  split_ifs
  · rfl
  · exact current_concat rfl rfl
  · rfl
  · rfl

theorem current_snapshotTimerFired :
    x.snapshotTimerFired.current adapter base = x.current adapter base := by
  rw [snapshotTimerFired]
  cases x.session <;> exact current_eq_of_calls rfl

theorem resolvedUpdates_sublist (x : SharedChannel S U) :
    x.resolvedUpdates.Sublist x.appliedUpdates := by
  rw [resolvedUpdates, appliedUpdates]
  induction x.calls with
  | nil => exact .slnil
  | cons call _ ih =>
    rw [filterMap_cons, filterMap_cons]
    obtain hnone | hsame := ChannelCall.resolvedUpdate_cases call
    · rw [hnone]
      cases call.appliedUpdate with
      | none => exact ih
      | some update => exact ih.cons update
    · rw [hsame]
      cases call.appliedUpdate with
      | none => exact ih
      | some update => exact ih.cons_cons update

/-! ### Phases -/

/-- The call at `k` is the only suspended one. -/
abbrev Waits (x : SharedChannel S U) (k : ℕ) (call : ChannelCall S U) : Prop :=
  OnlyTask (fun call => call.isSuspended = true) x.calls k call

/-- The channel is closed and its state is saved. -/
structure Idle (adapter : SharedStateAdapter S U) (x : SharedChannel S U) (state : S) : Prop where
  session : x.session = none
  count : x.subscriberCount = 0
  snapshotTimer : x.snapshotTimer = false
  evictionTimer : x.evictionTimer = false
  owned : x.owned = false
  quiet : x.Quiet
  saved : x.Saved adapter state

/-- The session is open with the state. -/
structure Opened (x : SharedChannel S U) (state : S) : Prop where
  session : x.session = some state
  owned : x.owned = true
  count : 0 < x.subscriberCount
  settled : ∀ call ∈ x.calls, call.isSettled = true

/-- What a channel is like while a call is the only suspended one: the last subscriber waits for
the release, or one subscriber goes through the stages of opening a session. -/
def At (adapter : SharedStateAdapter S U) (x : SharedChannel S U) : ChannelCall S U → Prop
  | .unsubscribe false => x.session = none ∧ x.subscriberCount = 0 ∧ x.evictionTimer = false
  | .subscribe _ .claiming => x.session = none ∧ x.subscriberCount = 0 ∧ x.owned = false
  | .subscribe _ .claimed => x.session = none ∧ x.subscriberCount = 0 ∧ x.owned = true
  | .subscribe _ (.joined true) =>
    x.session = some adapter.createState ∧ x.subscriberCount = 0 ∧ x.owned = true
  | .subscribe _ .reading | .subscribe _ (.read _) =>
    x.session = some adapter.createState ∧ 0 < x.subscriberCount ∧ x.owned = true
  | _ => False

/-- The state of the channel is what the call has read, or still in the snapshots. -/
def Holds (adapter : SharedStateAdapter S U) (x : SharedChannel S U) (state : S) :
    ChannelCall S U → Prop
  | .subscribe _ (.read persisted) => persisted.getD adapter.createState = state
  | _ => x.Saved adapter state

/-- One call is suspended, and the state is kept where the call left it. -/
structure Busy (adapter : SharedStateAdapter S U) (x : SharedChannel S U) (state : S) (k : ℕ)
    (call : ChannelCall S U) : Prop where
  waits : x.Waits k call
  suspended : call.isSuspended = true
  timer : x.snapshotTimer = false
  stage : x.At adapter call
  holds : x.Holds adapter state call

/-- Where a channel is in an orderly history, if its updates make the state `state`: nobody uses it,
it is being opened or closed by one call, or the session is open. -/
inductive Phase (adapter : SharedStateAdapter S U) (x : SharedChannel S U) (state : S) : Prop
  | idle (here : x.Idle adapter state)
  | busy {k : ℕ} {call : ChannelCall S U} (here : x.Busy adapter state k call)
  | opened (here : x.Opened state)

variable {state other : S} {k : ℕ} {call : ChannelCall S U} {ok : Bool}

theorem Idle.not_serving (h : x.Idle adapter state) : ¬ x.Serving := by simp [Serving, h.session]

theorem Busy.not_quiet (h : x.Busy adapter state k call) : ¬ x.Quiet :=
  fun hquiet => absurd (hquiet call (mem_of_getElem? h.waits.here)) (by simp [h.suspended])

theorem Busy.not_serving (h : x.Busy adapter state k call) : ¬ x.Serving := by
  rintro ⟨-, hcount, hsettled⟩
  have hcall : call.isSettled = true := hsettled call (mem_of_getElem? h.waits.here)
  obtain ⟨update, rfl⟩ | ⟨clientId, rfl⟩ := ChannelCall.eq_of_isSettled hcall h.suspended
  · exact h.stage
  · exact absurd h.stage.2.1 (Nat.ne_of_gt hcount)

theorem Phase.idle_or_opened (h : Phase adapter x state) (hx : x.Serving ∨ x.Quiet) :
    x.Idle adapter state ∨ x.Opened state := by
  cases h with
  | idle here => exact .inl here
  | opened here => exact .inr here
  | busy here => exact (hx.elim here.not_serving here.not_quiet).elim

theorem Opened.settled_concat (h : x.Opened state) (hcall : call.isSettled = true) :
    ∀ other ∈ x.calls ++ [call], other.isSettled = true :=
  forall_mem_append.mpr ⟨h.settled, forall_mem_singleton.mpr hcall⟩

theorem Saved.stored (h : x.Saved adapter state) (hk : x.stores[k]? = some other) :
    Saved adapter { x with latest := some other, stores := x.stores.eraseIdx k } state :=
  ⟨h.2 other (mem_of_getElem? hk), fun other hother => h.2 other (mem_of_mem_eraseIdx hother)⟩

/-! ### Steps -/

theorem Quiet.waits_concat (h : x.Quiet) (call : ChannelCall S U) :
    OnlyTask (fun call => call.isSuspended = true) (x.calls ++ [call]) x.calls.length call :=
  onlyTask_concat (fun call hcall => by simp [h call hcall]) call

theorem Phase.subscribe (h : Phase adapter x state) (hx : x.Serving ∨ x.Quiet)
    (clientId : String) : Phase adapter (x.subscribe clientId) state := by
  obtain here | here := h.idle_or_opened hx
  · rw [SharedChannel.subscribe, here.owned, if_neg Bool.false_ne_true]
    exact .busy ⟨here.quiet.waits_concat _, rfl, here.snapshotTimer,
      ⟨here.session, here.count, rfl⟩, here.saved⟩
  · rw [SharedChannel.subscribe, here.owned, if_pos rfl]
    exact .opened ⟨here.session, rfl, here.count, here.settled_concat rfl⟩

theorem Phase.concat (h : Phase adapter x state) (hcall : call.isSuspended = false) :
    Phase adapter { x with calls := x.calls ++ [call] } state := by
  cases h with
  | idle here =>
    exact .idle { here with
      quiet := forall_mem_append.mpr ⟨here.quiet, forall_mem_singleton.mpr hcall⟩ }
  | busy here => exact .busy { here with waits := here.waits.concat (by simp [hcall]) }
  | opened here =>
    exact .opened { here with
      settled := here.settled_concat (ChannelCall.isSettled_of_not_isSuspended hcall) }

theorem Phase.applyUpdate (h : Phase adapter x (x.current adapter base))
    (hx : x.session.isNone = true ∨ x.Serving) :
    Phase adapter (x.applyUpdate adapter update)
      ((x.applyUpdate adapter update).current adapter base) := by
  obtain hnone | hserving := hx
  · have hreject : x.applyUpdate adapter update =
        { x with calls := x.calls ++ [.applyUpdate update .rejected] } := by
      rw [SharedChannel.applyUpdate, isNone_iff_eq_none.mp hnone]
      cases x.owned <;> rfl
    rw [hreject, current_concat rfl rfl]
    exact h.concat rfl
  · obtain here | here := h.idle_or_opened (.inl hserving)
    · exact absurd hserving here.not_serving
    · have happly : x.applyUpdate adapter update =
          { x with
            session := some (adapter.applyUpdate (x.current adapter base) update)
            evictionTimer := true
            calls := x.calls ++ [.applyUpdate update .publishing] } := by
        rw [SharedChannel.applyUpdate, here.owned, here.session]
      rw [happly]
      refine .opened ⟨?_, here.owned, here.count, here.settled_concat rfl⟩
      exact congrArg some (current_concat_update rfl).symm

section

variable (h : Phase adapter x state)

include h

theorem Phase.unsubscribe
    (hx : x.subscriberCount = 1 → x.Quiet ∧ ∀ state ∈ x.session, x.Saved adapter state) :
    Phase adapter x.unsubscribe state := by
  rw [SharedChannel.unsubscribe]
  by_cases hzero : x.subscriberCount = 0
  · rwa [if_pos hzero]
  rw [if_neg hzero]
  by_cases hlast : x.subscriberCount - 1 = 0
  · obtain ⟨hquiet, hsaved⟩ := hx (by omega)
    obtain here | here := h.idle_or_opened (.inr hquiet)
    · exact absurd here.count hzero
    · rw [if_pos hlast, if_pos here.owned]
      exact .busy ⟨hquiet.waits_concat _, rfl, rfl, ⟨rfl, rfl, rfl⟩, hsaved state here.session⟩
  · rw [if_neg hlast]
    have hcount : 0 < x.subscriberCount - 1 := Nat.pos_of_ne_zero hlast
    cases h with
    | idle here => exact absurd here.count hzero
    | busy here =>
      -- the only call that waits while there are subscribers is the one that reads the snapshot
      refine .busy { here with stage := ?_ }
      have hstage := here.stage
      unfold At at hstage ⊢
      split at hstage
      all_goals first
        | exact ⟨hstage.1, hcount, hstage.2.2⟩
        | exact absurd hstage.2.1 hzero
        | exact hstage
    | opened here => exact .opened { here with count := hcount }

theorem Phase.snapshotTimerFired (htimer : x.snapshotTimer = true) :
    Phase adapter x.snapshotTimerFired state := by
  cases h with
  | idle here => exact absurd (here.snapshotTimer.symm.trans htimer) false_ne_true
  | busy here => exact absurd (here.timer.symm.trans htimer) false_ne_true
  | opened here =>
    rw [SharedChannel.snapshotTimerFired, here.session]
    exact .opened { here with session := rfl }

theorem Phase.stored (hk : x.stores[k]? = some other) :
    Phase adapter { x with latest := some other, stores := x.stores.eraseIdx k } state := by
  cases h with
  | idle here => exact .idle { here with saved := here.saved.stored hk }
  | busy here =>
    refine .busy { here with holds := ?_ }
    have hholds := here.holds
    unfold Holds at hholds ⊢
    split at hholds
    · exact hholds
    · exact hholds.stored hk
  | opened here => exact .opened { here with }

end

theorem calls_proceed (h : x.proceed adapter k ok = some x') :
    ∃ old new, x.calls[k]? = some old ∧ old.isSuspended = true ∧ x'.calls = x.calls.set k new ∧
      new.appliedUpdate = old.appliedUpdate := by
  rw [proceed] at h
  split at h
  case h_6 hk =>
    cases h
    rw [hydrate.eq_def]
    split
    · exact ⟨_, _, hk, rfl, rfl, rfl⟩
    · split_ifs <;> exact ⟨_, _, hk, rfl, rfl, rfl⟩
  all_goals
    try split_ifs at h
    all_goals first
      | cases h; exact ⟨_, _, by assumption, by rfl, rfl, by rfl⟩
      | cases h

theorem current_proceed (h : x.proceed adapter k ok = some x') :
    x'.current adapter base = x.current adapter base := by
  obtain ⟨old, new, hk, -, hcalls, heq⟩ := calls_proceed h
  rw [current, current, appliedUpdates, appliedUpdates, hcalls, filterMap_set_of_eq hk heq]

theorem Busy.proceed (h : x.Busy adapter state k call)
    (hproceed : x.proceed adapter k ok = some x') : Phase adapter x' state := by
  obtain ⟨waits, -, timer, stage, holds⟩ := h
  rw [SharedChannel.proceed, waits.here] at hproceed
  have hquiet : ∀ new : ChannelCall S U, new.isSuspended = false →
      ∀ other ∈ x.calls.set k new, other.isSuspended = false := fun new hnew other hother =>
    eq_false_of_ne_true (waits.forall_not_set (by simp [hnew]) other hother)
  have hsettled : ∀ new : ChannelCall S U, new.isSuspended = false →
      ∀ other ∈ x.calls.set k new, other.isSettled = true := fun new hnew other hother =>
    ChannelCall.isSettled_of_not_isSuspended (hquiet new hnew other hother)
  unfold At at stage
  split at stage
  · -- the release
    obtain ⟨session, count, eviction⟩ := stage
    cases hproceed
    exact .idle ⟨session, count, timer, eviction, rfl, hquiet _ rfl, holds⟩
  · obtain ⟨session, count, owned⟩ := stage
    split_ifs at hproceed with hok hrefused
    · cases hproceed
      exact .busy ⟨waits.set _, rfl, timer, ⟨session, count, rfl⟩, holds⟩
    · exact absurd (owned.symm.trans hrefused) false_ne_true
  · cases hproceed
    exact .busy ⟨waits.set _, rfl, timer, ⟨rfl, stage.2⟩, holds⟩
  · obtain ⟨session, count, owned⟩ := stage
    cases hproceed
    rw [countSubscriber, if_pos rfl, if_pos count]
    exact .busy ⟨waits.set _, rfl, timer, ⟨session, Nat.succ_pos _, owned⟩, holds⟩
  · cases hproceed
    exact .busy ⟨waits.set _, rfl, timer, stage, holds.1⟩
  · obtain ⟨session, count, owned⟩ := stage
    rename_i persisted
    cases hproceed
    cases persisted with
    | none => exact .opened ⟨session.trans (congrArg some holds), owned, count, hsettled _ rfl⟩
    | some =>
      rw [hydrate, if_pos owned]
      exact .opened ⟨congrArg some holds, owned, count, hsettled _ rfl⟩
  · exact stage.elim

theorem Phase.proceed (h : Phase adapter x state)
    (hproceed : x.proceed adapter k ok = some x') : Phase adapter x' state := by
  obtain ⟨call, -, hk, hcall, -⟩ := calls_proceed hproceed
  cases h with
  | idle here => exact absurd (here.quiet call (mem_of_getElem? hk)) (by simp [hcall])
  | busy here =>
    obtain ⟨rfl, rfl⟩ := here.waits.eq_of_getElem? hk hcall
    exact here.proceed hproceed
  | opened here =>
    have hsettled := here.settled call (mem_of_getElem? hk)
    rw [SharedChannel.proceed, hk] at hproceed
    obtain ⟨update, rfl⟩ | ⟨clientId, rfl⟩ := ChannelCall.eq_of_isSettled hsettled hcall
    · dsimp only at hproceed
      split_ifs at hproceed <;> cases hproceed <;>
        exact .opened { here with settled := forall_mem_set here.settled rfl }
    · cases hproceed
      rw [countSubscriber, if_pos rfl, if_neg (Nat.ne_of_gt here.count)]
      exact .opened { here with
        count := Nat.succ_pos _, settled := forall_mem_set here.settled rfl }

section

variable (h : Phase adapter x (x.current adapter base))

include h

/-- **One step.** A step that meets the conditions keeps the phase of the channel. -/
theorem Phase.step (horderly : x.Orderly adapter ev) (hstep : x.step adapter ev = some x') :
    Phase adapter x' (x'.current adapter base) := by
  cases ev with
  | subscribe clientId =>
    cases hstep
    rw [current_concat rfl rfl]
    exact h.subscribe horderly clientId
  | applyUpdate =>
    cases hstep
    exact h.applyUpdate horderly
  | unsubscribe =>
    cases hstep
    rw [current_unsubscribe]
    exact h.unsubscribe horderly
  | proceed =>
    rw [current_proceed hstep]
    exact h.proceed hstep
  | snapshotTimer =>
    obtain ⟨htimer, heq⟩ := ite_none_right_eq_some.mp hstep
    cases heq
    rw [current_snapshotTimerFired]
    exact h.snapshotTimerFired htimer
  | stored =>
    obtain ⟨state, hk, rfl⟩ := map_eq_some_iff.mp hstep
    exact h.stored hk
  | evict =>
    -- a channel without subscribers and suspended calls has no session
    obtain ⟨htimer, -⟩ := ite_none_right_eq_some.mp hstep
    obtain here | here := h.idle_or_opened (.inr horderly.2)
    · exact absurd (here.evictionTimer.symm.trans htimer) false_ne_true
    · exact absurd horderly.1 (Nat.ne_of_gt here.count)

theorem Phase.keepsUpdates (hquiet : x.Quiet)
    (howned : x.owned = true) : x.KeepsUpdates adapter base := by
  obtain here | here := h.idle_or_opened (.inr hquiet)
  · exact absurd (here.owned.symm.trans howned) false_ne_true
  · exact ⟨x.appliedUpdates, x.resolvedUpdates_sublist, .refl _, here.session⟩

end

end SharedChannel

/-! ### The manager -/

namespace SharedStateManager

def Quiet (s : SharedStateManager S U) : Prop := ∀ x ∈ s.channels.values, x.Quiet

variable (adapter : SharedStateAdapter S U) (s : SharedStateManager S U)

def base (channelId : String) : S := (s.persisted channelId).getD adapter.createState

/-- If no call is suspended, every channel that the node owns and that has a subscriber has the
effect of all updates that have resolved. -/
def KeepsUpdates : Prop :=
  s.Quiet → ∀ clientId, ∀ channelId ∈ s.channelsOf clientId, (s.channel channelId).owned = true →
    (s.channel channelId).KeepsUpdates adapter (s.base adapter channelId)

def Orderly : SharedStateEvent U → Prop
  | .subscribe clientId channelId => (s.channel channelId).Orderly adapter (.subscribe clientId)
  | .applyUpdate channelId update => (s.channel channelId).Orderly adapter (.applyUpdate update)
  | .unsubscribe _ channelId => (s.channel channelId).Orderly adapter .unsubscribe
  | .onClientDisconnect clientId =>
    ∀ channelId ∈ s.channelsOf clientId, (s.channel channelId).Orderly adapter .unsubscribe
  | .evict channelId => (s.channel channelId).Orderly adapter .evict
  | .proceed _ _ _ | .snapshotTimer _ | .stored _ _ => True

instance decidableQuiet : Decidable s.Quiet :=
  inferInstanceAs (Decidable (∀ x ∈ s.channels.values, x.Quiet))

instance decidableOrderly [DecidableEq S] (adapter : SharedStateAdapter S U)
    (s : SharedStateManager S U) (ev : SharedStateEvent U) :
    Decidable (s.Orderly adapter ev) := by
  unfold Orderly
  split <;> infer_instance

variable {adapter : SharedStateAdapter S U} {s s' : SharedStateManager S U}

theorem channel_setChannel (s : SharedStateManager S U) (channelId : String)
    (x : SharedChannel S U) (other : String) :
    (s.setChannel channelId x).channel other =
      if other = channelId then x else s.channel other := by
  rw [channel, setChannel, get_set]
  split_ifs <;> rfl

/-- Every channel is in a phase of its life. -/
structure Sound (adapter : SharedStateAdapter S U) (persisted : String → Option S)
    (s : SharedStateManager S U) : Prop where
  persisted_eq : s.persisted = persisted
  phase : ∀ channelId, SharedChannel.Phase adapter (s.channel channelId)
    ((s.channel channelId).current adapter (s.base adapter channelId))
  nodup : ∀ clientId, (s.channelsOf clientId).Nodup

theorem sound_started (adapter : SharedStateAdapter S U) (persisted : String → Option S) :
    Sound adapter persisted (started persisted) :=
  ⟨rfl, fun _ => .idle ⟨rfl, rfl, rfl, rfl, rfl, fun _ h => absurd h not_mem_nil, rfl,
    fun _ h => absurd h not_mem_nil⟩, fun _ => .nil⟩

variable {persisted : String → Option S}

section

variable (h : s.Sound adapter persisted)

include h

variable {channelId : String}

theorem Sound.setChannel {x : SharedChannel S U}
    (hx : Phase adapter x (x.current adapter (s.base adapter channelId))) :
    (s.setChannel channelId x).Sound adapter persisted where
  persisted_eq := h.persisted_eq
  phase := by
    intro other
    rw [channel_setChannel]
    split_ifs with hother
    · exact hother ▸ hx
    · exact h.phase other
  nodup := h.nodup

theorem Sound.of_clientChannels {clientChannels : OrderedMap String (List String)}
    (hnodup : ∀ clientId, ((clientChannels.get clientId).getD []).Nodup) :
    Sound adapter persisted { s with clientChannels := clientChannels } :=
  ⟨h.persisted_eq, h.phase, hnodup⟩

theorem Sound.addClientChannel (clientId channelId : String) :
    (s.addClientChannel clientId channelId).Sound adapter persisted := by
  rw [SharedStateManager.addClientChannel]
  split_ifs with hmem
  · exact h
  · refine h.of_clientChannels fun other => ?_
    rw [get_set]
    split_ifs
    · rw [getD_some, ← concat_eq_append]
      exact (h.nodup clientId).concat hmem
    · exact h.nodup other

theorem Sound.removeClientChannel (clientId channelId : String) :
    (s.removeClientChannel clientId channelId).Sound adapter persisted := by
  rw [SharedStateManager.removeClientChannel]
  split
  · exact h
  · rename_i channels hchannels
    have hnodup : channels.Nodup := by
      have := h.nodup clientId
      rwa [channelsOf, hchannels] at this
    refine h.of_clientChannels fun other => ?_
    split_ifs
    · rw [get_delete]
      split_ifs
      · exact .nil
      · exact h.nodup other
    · rw [get_set]
      split_ifs
      · exact hnodup.filter _
      · exact h.nodup other

end

theorem channel_removeClientChannel (s : SharedStateManager S U) (clientId channelId : String)
    (other : String) : (s.removeClientChannel clientId channelId).channel other = s.channel other ∧
      (s.removeClientChannel clientId channelId).persisted = s.persisted := by
  rw [SharedStateManager.removeClientChannel]
  split <;> exact ⟨rfl, rfl⟩

theorem Sound.unsubscribe (h : s.Sound adapter persisted)
    (horderly : (s.channel channelId).Orderly adapter .unsubscribe) (clientId : String) :
    (s.unsubscribe clientId channelId).Sound adapter persisted := by
  refine (h.removeClientChannel clientId channelId).setChannel ?_
  have hbase : (s.removeClientChannel clientId channelId).base adapter channelId =
      s.base adapter channelId := by
    rw [base, base, (channel_removeClientChannel s clientId channelId channelId).2]
  rw [hbase]
  exact (h.phase channelId).step horderly rfl

theorem Sound.foldl_unsubscribe (clientId : String) : (channels : List String) →
    {s : SharedStateManager S U} → s.Sound adapter persisted → channels.Nodup →
    (∀ channelId ∈ channels, (s.channel channelId).Orderly adapter .unsubscribe) →
    Sound adapter persisted (channels.foldl (fun s channelId => s.unsubscribe clientId channelId) s)
  | [], _, h, _, _ => h
  | channelId :: channels, s, h, hnodup, horderly => by
    obtain ⟨hnotMem, hnodup⟩ := nodup_cons.mp hnodup
    refine Sound.foldl_unsubscribe clientId channels
      (h.unsubscribe (horderly channelId mem_cons_self) clientId) hnodup ?_
    intro other hother
    have hne : other ≠ channelId := fun heq => hnotMem (heq ▸ hother)
    simp only [SharedStateManager.unsubscribe, channel_setChannel, if_neg hne,
      (channel_removeClientChannel s clientId channelId other).1]
    exact horderly other (mem_cons_of_mem _ hother)

theorem Sound.stepChannel (h : s.Sound adapter persisted)
    (hstep : s.stepChannel adapter channelId ev = some s')
    (horderly : (s.channel channelId).Orderly adapter ev) : s'.Sound adapter persisted := by
  obtain ⟨x, hx, rfl⟩ := map_eq_some_iff.mp hstep
  exact h.setChannel ((h.phase channelId).step horderly hx)

theorem Sound.step (h : s.Sound adapter persisted) {ev : SharedStateEvent U}
    (horderly : s.Orderly adapter ev) (hstep : s.step adapter ev = some s') :
    s'.Sound adapter persisted := by
  cases ev with
  | subscribe clientId channelId | applyUpdate channelId update | snapshotTimer channelId
  | stored channelId k | evict channelId => exact h.stepChannel hstep horderly
  | unsubscribe clientId =>
    cases hstep
    exact h.unsubscribe horderly clientId
  | onClientDisconnect clientId =>
    cases hstep
    exact h.foldl_unsubscribe clientId _ (h.nodup clientId) horderly
  | proceed channelId k =>
    obtain ⟨next, hnext, rfl⟩ := map_eq_some_iff.mp hstep
    have hsound := h.stepChannel hnext trivial
    cases counted (s.channel channelId) k with
    | none => exact hsound
    | some clientId => exact hsound.addClientChannel clientId channelId

theorem Quiet.channel (h : s.Quiet) (channelId : String) : (s.channel channelId).Quiet := by
  rw [SharedStateManager.channel]
  cases hget : s.channels.get channelId with
  | none => exact fun _ hmem => absurd hmem not_mem_nil
  | some x => exact h x ((mem_values_iff _ _).mpr ⟨channelId, hget⟩)

/-- **Updates are kept along every orderly history.** -/
theorem keepsUpdates_of_run (adapter : SharedStateAdapter S U) (persisted : String → Option S)
    (events : List (SharedStateEvent U)) (s : SharedStateManager S U)
    (hrun : exec (step adapter) (started persisted) events = some s)
    (hall : AllSteps (step adapter) (Orderly adapter) (started persisted) events) :
    s.KeepsUpdates adapter := by
  have hsound : s.Sound adapter persisted :=
    exec_invariant
      (fun _ _ _ h horderly hstep => h.step horderly hstep) (sound_started adapter persisted) hall
      hrun
  intro hquiet clientId channelId _ howned
  exact (hsound.phase channelId).keepsUpdates (hquiet.channel channelId) howned

/-! ### Two histories -/

def logAdapter : SharedStateAdapter (List ℕ) ℕ where
  createState := []
  applyUpdate := fun state update => state ++ [update]

def openingEvents (clientId channelId : String) (k : ℕ) : List (SharedStateEvent ℕ) :=
  .subscribe clientId channelId :: List.replicate 5 (.proceed channelId k true)

def leavingEvents : List (SharedStateEvent ℕ) :=
  openingEvents "a" "room" 0 ++
    [.applyUpdate "room" 1, .proceed "room" 1 true, .unsubscribe "a" "room",
      .proceed "room" 2 true] ++ openingEvents "a" "room" 3

/-- The update of a client is lost when it leaves and comes back. -/
theorem updates_lost :
    ¬ ∀ (S U : Type) (adapter : SharedStateAdapter S U) (persisted : String → Option S)
      (events : List (SharedStateEvent U)) (s : SharedStateManager S U),
      exec (step adapter) (started persisted) events = some s → s.KeepsUpdates adapter := by
  intro h
  obtain ⟨updates, hresolved, happlied, hstate⟩ :=
    h (List ℕ) ℕ logAdapter (fun _ => none) leavingEvents _ rfl (by decide) "a" "room" (by decide)
      (by decide)
  have hone : [1] = updates := List.Sublist.antisymm hresolved happlied
  subst hone
  exact absurd hstate (by decide)

def savingEvents : List (SharedStateEvent ℕ) :=
  openingEvents "a" "room" 0 ++
    [.applyUpdate "room" 1, .proceed "room" 1 true, .snapshotTimer "room", .stored "room" 0,
      .onClientDisconnect "a", .proceed "room" 2 true] ++ openingEvents "b" "room" 3

/-- The update survives in the snapshot. -/
theorem updates_kept_savingEvents :
    ∃ s, exec (step logAdapter) (started fun _ => none) savingEvents = some s ∧
      (s.channel "room").session = some [1] ∧ s.KeepsUpdates logAdapter :=
  ⟨_, rfl, by decide, keepsUpdates_of_run logAdapter (fun _ => none) savingEvents _ rfl (by decide)⟩

end SharedStateManager

end DistributedCore.Gateway
