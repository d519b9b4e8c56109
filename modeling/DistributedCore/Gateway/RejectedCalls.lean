import DistributedCore.Gateway.QueueRecovery

/-!
# Calls that the log rejects

`ack` and `nack` take the message out of `processing` before they wait for the log, and `nack` also
puts it at its new place and counts it there. When the log rejects the append, nothing of this is
undone.

Source: `src/gateway/queue/DurableQueueManager.ts`.
-/

namespace DistributedCore.Gateway

open Entity Multiset OrderedMap

def Place.recovered : Place → Option QueueMessageStatus
  | .pending | .processing => some .pending
  | .dead => some .deadLetter
  | .enqueuing | .acking | .acked | .purged => none

namespace QueueManager

/-- The messages that wait, are processed or are dead letters. -/
def inMemory (s : QueueManager) : Multiset Token :=
  s.located.filter fun token => token.1.recovered.isSome

/-- The message is once in memory, a new manager gives it the status that it has there, and the
counters of the queues are right. -/
structure Sound (config : DurableQueueConfig) (s : QueueManager) (messageId : String) : Prop where
  once : ∃ token, s.inMemory.filter (fun token => token.2.id = messageId) = {token} ∧
    ((restoredMessages config s.wal).filter fun message => message.id = messageId).map
      RestoredMessage.status = token.1.recovered.toList
  stats : s.counters = (s.inMemory.map tally).sum

def Rejects (s : QueueManager) (k : ℕ) : Prop :=
  ∃ kind message err, s.calls[k]? = some ⟨kind, message, .rejected err⟩

section Rejected

variable {config : DurableQueueConfig} {s s' t : QueueManager} {message : QueueMessage}
  {kind : QueueCallKind} {now later : ℕ} {fault : Option String} {update : EntityUpdate String Json}

/-- When the log rejects the append, the call has done what it did before it waited. -/
theorem eq_of_rejects (hstep : (t.awaitAppend config kind message update now).step config
      (.appended t.calls.length later fault) = some s') (hrejects : s'.Rejects t.calls.length) :
    s'.inMemory = (kind.tokens message + t.located).filter (fun token => token.1.recovered.isSome) ∧
      s'.counters = t.counters ∧ s'.wal = t.wal := by
  rw [awaitAppend] at hstep
  cases hw : t.walWriter with
  | none =>
    rw [hw, step] at hstep
    rw [(resume_frame _ _ _ _).2.1, List.getElem?_concat_length] at hstep
    cases hstep
  | some =>
    rw [hw, step] at hstep
    dsimp only at hstep
    rw [List.getElem?_concat_length] at hstep
    cases hstep
    have hset : ∀ call call' : QueueCall, (t.calls ++ [call]).set t.calls.length call' =
        t.calls ++ [call'] := by simp
    rw [finishCall] at hrejects ⊢
    rw [hset] at hrejects
    split at hrejects
    · rw [hset]
      exact ⟨congrArg (Multiset.filter _) (located_concat_calls _), rfl, rfl⟩
    · obtain ⟨_, _, _, hcall⟩ := hrejects
      rw [(resume_frame _ _ _ _).2.1, List.getElem?_concat_length] at hcall
      cases hcall

theorem Sound.rejected_iff (h : s.Sound config message.id)
    (hget : s.processing.get message.id = some message) {new : Token}
    (hmoved : s.Moved message.id message kind new t)
    (hstep : (t.awaitAppend config kind new.2 update now).step config
      (.appended s.calls.length later fault) = some s') (hrejects : s'.Rejects s.calls.length) :
    s'.Sound config message.id ↔ new.1.recovered = some .pending := by
  have hframe := hmoved.frame
  simp only [Prod.mk.injEq] at hframe
  obtain ⟨-, hwal, hcalls, -, -⟩ := hframe
  rw [← hcalls] at hstep hrejects
  obtain ⟨hmemory', hcounters', hwal'⟩ := eq_of_rejects hstep hrejects
  have hmemory : s.inMemory =
      (.processing, message) ::ₘ (s.removeFromProcessing message.id).inMemory := by
    rw [inMemory, located_removeFromProcessing hget]
    exact filter_cons_of_pos _ rfl
  obtain ⟨⟨token, htoken, hrestored⟩, hstats⟩ := h
  rw [hmemory, filter_cons, if_pos rfl] at htoken
  obtain ⟨rfl, hrest⟩ := (singleton_eq_cons_iff _).mp htoken.symm
  have hid : new.2.origin.id = message.origin.id := congrArg QueueMessage.id hmoved.moves.origin_eq
  replace hid : new.2.id = message.id := hid
  rw [hmoved.tokens, filter_cons] at hmemory'
  change _ = _ + (s.removeFromProcessing message.id).inMemory at hmemory'
  constructor
  · rintro ⟨⟨token, htoken, hrestored'⟩, -⟩
    rw [hwal', hwal, hrestored] at hrestored'
    by_cases hplace : new.1.recovered.isSome = true
    · rw [hmemory', if_pos hplace, filter_add, hrest, filter_singleton, if_pos hid, add_zero,
        singleton_inj] at htoken
      exact htoken ▸ Option.toList_eq_singleton_iff.mp hrestored'.symm
    · rw [hmemory', if_neg hplace, zero_add] at htoken
      exact absurd (hrest.symm.trans htoken) (singleton_ne_zero token).symm
  · intro hplace
    have hsome : new.1.recovered.isSome = true := by rw [hplace]; rfl
    rw [if_pos hsome] at hmemory'
    refine ⟨⟨new, ?_, ?_⟩, ?_⟩
    · rw [hmemory', filter_add, hrest, filter_singleton, if_pos hid, add_zero]
    · rw [hwal', hwal, hrestored, hplace]
      rfl
    · rw [hcounters', hmoved.counters, hstats, hmemory, hmemory', map_cons, sum_cons,
        Multiset.map_add, map_singleton, sum_add, sum_singleton]
      abel

/-- **When a call that the log rejects leaves everything in order.** A rejected `ack` loses the
message, and a rejected `nack` of the last attempt leaves a dead letter that a new manager takes for
a message that waits; a rejected `nack` of an earlier attempt leaves everything in order. -/
theorem sound_of_rejected_iff {call : QueueEvent} {delayMs : Option ℤ}
    (hsound : s.Sound config message.id) (hget : s.processing.get message.id = some message)
    (hcall : call = .ack message.id now ∨ call = .nack message.id delayMs now)
    (hrun : exec (step config) s [call, .appended s.calls.length later fault] = some s')
    (hrejects : s'.Rejects s.calls.length) :
    s'.Sound config message.id ↔
      call ≠ .ack message.id now ∧ ((message.attempts + 1 : ℕ) : ℤ) < message.maxAttempts := by
  obtain ⟨s₁, hstep, hrun⟩ := exec_cons_eq_some.mp hrun
  obtain ⟨s₂, hstep', hrun⟩ := exec_cons_eq_some.mp hrun
  cases hrun
  rcases hcall with rfl | rfl
  · cases hstep
    obtain ⟨hmoved, heq⟩ := ack_eq config now hget
    rw [heq] at hstep'
    rw [hsound.rejected_iff hget hmoved hstep' hrejects]
    exact iff_of_false nofun fun h => h.1 rfl
  · cases hstep
    obtain ⟨new, t, heq, hplace, hmoved⟩ := nack_eq config delayMs now hget
    rw [heq] at hstep'
    rw [hsound.rejected_iff hget hmoved hstep' hrejects]
    cases hmoved.moves with
    | taken => exact absurd rfl hplace
    | requeued _ _ again => exact iff_of_true rfl ⟨nofun, again⟩
    | deadLettered _ last => exact iff_of_false nofun fun h => absurd h.2 (not_lt.mpr last)

end Rejected

/-! ### A message that is processed -/

def takenEvents : List QueueEvent :=
  [.consume "q", .enqueue "q" .null none "a" 1, .appended 0 2 none]

def takenMessage : QueueMessage :=
  { newMessage sampleQueueConfig "q" .null none "a" 1 with status := .processing }

def takenState : QueueManager :=
  (exec (step sampleQueueConfig) (started sampleQueueConfig) takenEvents).getD
    (started sampleQueueConfig)

theorem sound_takenState : takenState.Sound sampleQueueConfig takenMessage.id := by
  refine ⟨⟨(.processing, takenMessage), rfl, rfl⟩, funext fun queue => ?_⟩
  change (((OrderedMap.empty.set "q" ⟨0, 1, 0, 0, 1, 0, 0, 1⟩ : OrderedMap String QueueStats).get
    queue).getD .zero).counters = (tally (.processing, takenMessage) + 0) queue
  rw [get_set, add_zero, tally]
  split_ifs with hqueue
  · subst hqueue
    rfl
  · change 0 = (Pi.single "q" (0, 1, 0) : String → ℤ × ℤ × ℤ) queue
    rw [Pi.single_eq_of_ne hqueue]

/-- A rejected `ack` loses the message. -/
theorem acked_message_lost :
    ¬ ∀ (config : DurableQueueConfig) (events : List QueueEvent) (s s' : QueueManager)
        (message : QueueMessage) (call : QueueEvent) (delayMs : Option ℤ) (now later : ℕ)
        (fault : Option String), exec (step config) (started config) events = some s →
      s.Sound config message.id → s.processing.get message.id = some message →
      (call = .ack message.id now ∨ call = .nack message.id delayMs now) →
      exec (step config) s [call, .appended s.calls.length later fault] = some s' →
      s'.Rejects s.calls.length → s'.Sound config message.id := by
  intro h
  have hsound := h sampleQueueConfig takenEvents takenState _ takenMessage (.ack "qmsg-1-a" 3) none
    3 4 (some "full") rfl sound_takenState rfl (.inl rfl) rfl ⟨_, _, _, rfl⟩
  obtain ⟨token, htoken, -⟩ := hsound.once
  have hcard := congrArg card htoken
  rw [card_singleton] at hcard
  exact absurd hcard (by decide +kernel)

/-- A rejected `nack` puts the message back. -/
theorem sound_of_rejected_nack :
    ∃ s', exec (step sampleQueueConfig) takenState [.nack "qmsg-1-a" none 3,
        .appended takenState.calls.length 4 (some "full")] = some s' ∧
      s'.Sound sampleQueueConfig "qmsg-1-a" :=
  ⟨_, rfl, (sound_of_rejected_iff sound_takenState rfl (.inr rfl) rfl ⟨_, _, _, rfl⟩).mpr
    ⟨nofun, by decide⟩⟩

end QueueManager

end DistributedCore.Gateway
