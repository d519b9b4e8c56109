import DistributedCore.Gateway.MessageLedger

/-!
# No message is lost or doubled

The messages of a manager at their places are `located`. Each piece of code moves one message at a
time, or the messages of a queue one after another, and changes the counters by the weights of the
places (`Agrees`). A message is in no list while the code has it at hand: when it was taken out of
its queue or out of `processing`, and while its call waits for the log.

Source: `src/gateway/queue/DurableQueueManager.ts`.
-/

namespace DistributedCore.Gateway

open Multiset OrderedMap List Option

/-! ### The ledger of a manager -/

/-- The message of a call that waits, at its place; a call of `nack` has put its message back
before it waits. -/
def QueueCallKind.tokens (message : QueueMessage) : QueueCallKind → Multiset Token
  | .enqueue => {(.enqueuing, message)}
  | .ack => {(.acking, message)}
  | .nack => 0

def QueueCall.held (call : QueueCall) : Multiset Token :=
  if call.stage.isResolved then 0 else call.kind.tokens call.message

theorem QueueCall.held_resolved (kind : QueueCallKind) (message : QueueMessage) :
    QueueCall.held ⟨kind, message, .resolved⟩ = 0 := rfl

def QueueStats.counters (stats : QueueStats) : ℤ × ℤ × ℤ :=
  (stats.pending, stats.processing, stats.deadLetter)

theorem QueueStats.counters_purge {stats : QueueStats} {n : ℕ} (h : (n : ℤ) ≤ stats.pending) :
    (stats.purge n).counters = stats.counters + -((n : ℤ), 0, 0) := by
  have hpending : ¬stats.pending - n < 0 := not_lt.mpr (sub_nonneg.mpr h)
  rw [counters, purge]
  rw [if_neg hpending]
  simp [counters, sub_eq_add_neg]

/-- What the last entry about a message at a place says, apart from its time. A message that was
never refused still has the entry of its `enqueue`. -/
def Place.update (config : DurableQueueConfig) (message : QueueMessage) (time : ℕ) :
    Place → Entity.EntityUpdate String Json
  | .enqueuing | .pending | .processing | .purged =>
    if message.attempts = 0 then createUpdate config message time
    else requeueUpdate config message time
  | .acking | .acked => deleteUpdate config message time
  | .dead => deadLetterUpdate config message time

variable (config : DurableQueueConfig)

theorem Place.entityId_update (message : QueueMessage) (time : ℕ)
    (place : Place) : (place.update config message time).entityId = message.id := by
  cases place <;> simp only [Place.update] <;> (try split_ifs) <;> rfl

namespace QueueManager

variable (s : QueueManager) {messages : List QueueMessage} {k : ℕ}

def counters (queue : String) : ℤ × ℤ × ℤ := (s.getQueueStats queue).counters

def dispatched : List String := s.handlerCalls.map HandlerCall.messageId

/-- Every message with the place at which it is. -/
def located : Multiset Token :=
  (s.calls.map QueueCall.held).sum + tokensAt .pending s.queues.values.flatten +
    tokensAt .processing s.processing.values + tokensAt .dead s.deadLetters.values.flatten +
    tokensAt .acked s.acked + tokensAt .purged s.purged

/-- The messages of a manager are `tokens` and the counters of its queues `counters`, and every
message is filed under its queue or its id. -/
structure Agrees (s : QueueManager) (counters : String → ℤ × ℤ × ℤ) (tokens : Multiset Token) :
    Prop where
  accounts : Accounts s.enqueued s.dispatched counters tokens
  queues : s.queues.Filed QueueMessage.queue
  deadLetters : s.deadLetters.Filed QueueMessage.queue
  processing : ∀ messageId message, s.processing.get messageId = some message →
    message.id = messageId

/-- The counters agree with the messages at their places. -/
def Balanced : Prop := s.Agrees s.counters s.located

theorem balanced_started : (started config).Balanced where
  accounts :=
    { audited := ⟨rfl, rfl⟩
      nodup := nodup_nil
      inBounds := fun _ h => absurd h (notMem_zero _)
      known := fun _ h => nomatch h }
  queues := filed_empty _
  deadLetters := filed_empty _
  processing _ _ h := nomatch h

section Changes

variable {s : QueueManager} {message : QueueMessage} {messageId queue : String}
  {f : QueueStats → QueueStats} {change : ℤ × ℤ × ℤ}

theorem counters_updateStats_of_eq (s : QueueManager) (queue : String)
    (hf : (f (s.getQueueStats queue)).counters = s.counters queue + change) :
    (s.updateStats queue f).counters = s.counters + Pi.single queue change := by
  funext other
  rw [Pi.add_apply, counters, getQueueStats, updateStats, get_set]
  by_cases hother : other = queue
  · subst hother
    rw [if_pos rfl, Pi.single_eq_same]
    exact hf
  · rw [if_neg hother, Pi.single_eq_of_ne hother, add_zero]
    rfl

theorem counters_updateStats (s : QueueManager) (queue : String)
    (hf : ∀ stats, (f stats).counters = stats.counters + change) :
    (s.updateStats queue f).counters = s.counters + Pi.single queue change :=
  counters_updateStats_of_eq s queue (hf _)

theorem counters_updateStats_same (s : QueueManager) (queue : String)
    (hf : ∀ stats, (f stats).counters = stats.counters) :
    (s.updateStats queue f).counters = s.counters := by
  rw [counters_updateStats s queue fun stats => (hf stats).trans (add_zero _).symm, Pi.single_zero,
    add_zero]

theorem located_pushPending :
    (s.pushPending message).located = (.pending, message) ::ₘ s.located := by
  have hpush := tokensAt_push .pending s.queues message.queue message
  rw [located, located, pushPending, pendingMessages, hpush]
  simp only [← singleton_add]
  abel

theorem located_pushDeadLetter :
    (s.pushDeadLetter message).located = (.dead, message) ::ₘ s.located := by
  have hpush := tokensAt_push .dead s.deadLetters message.queue message
  rw [located, located, pushDeadLetter, getDeadLetterMessages, hpush]
  simp only [← singleton_add]
  abel

theorem located_removeFromProcessing (h : s.processing.get messageId = some message) :
    s.located = (.processing, message) ::ₘ (s.removeFromProcessing messageId).located := by
  have hold := tokensAt_perm .processing (s.processing.values_perm messageId)
  rw [h] at hold
  rw [located, located, removeFromProcessing, hold, ← singleton_add]
  simp only [toList_some, tokensAt_append, tokensAt_cons, tokensAt_nil, cons_zero]
  abel

theorem located_set_processing (h : s.processing.get messageId = none) :
    { s with processing := s.processing.set messageId message }.located =
      (.processing, message) ::ₘ s.located := by
  have hold := tokensAt_perm .processing (s.processing.values_perm messageId)
  have hnew := tokensAt_perm .processing (s.processing.values_set_perm messageId message)
  rw [h] at hold
  rw [located, located, hold, hnew, ← singleton_add]
  simp only [toList_none, nil_append, tokensAt_cons, ← singleton_add]
  abel

section DispatchOne

variable {first : QueueConsumer} {others : List QueueConsumer} {rrIndex : ℕ}

theorem dispatched_dispatchOne :
    (dispatchOne queue first others (s, rrIndex) message).1.dispatched =
      s.dispatched ++ [message.id] :=
  map_append

theorem counters_dispatchOne :
    (dispatchOne message.queue first others (s, rrIndex) message).1.counters =
      s.counters - tally (.pending, message) +
        tally (.processing, { message with status := .processing }) := by
  have hchange : ∀ stats : QueueStats, QueueStats.counters
      { stats with pending := stats.pending - 1, processing := stats.processing + 1 } =
        stats.counters + (Place.processing.weight - Place.pending.weight) := fun stats => by
    simp [QueueStats.counters, Place.weight, sub_eq_add_neg]
  refine (counters_updateStats s message.queue hchange).trans ?_
  rw [tally, tally, Pi.single_sub]
  abel

theorem located_dispatchOne (h : s.processing.get message.id = none) :
    (dispatchOne queue first others (s, rrIndex) message).1.located =
      (.processing, { message with status := .processing }) ::ₘ s.located :=
  located_set_processing h

end DispatchOne

theorem located_set_calls {old : QueueCall} (h : s.calls[k]? = some old) (new : QueueCall) :
    ∃ rest, s.located = old.held + rest ∧
      { s with calls := s.calls.set k new }.located = new.held + rest := by
  obtain ⟨hk, hget⟩ := List.getElem?_eq_some_iff.mp h
  have hold := ((getElem_cons_eraseIdx_perm hk).map QueueCall.held).sum_eq
  have hnew := ((set_perm_cons_eraseIdx hk new).map QueueCall.held).sum_eq
  rw [hget, List.map_cons, List.sum_cons] at hold
  rw [List.map_cons, List.sum_cons] at hnew
  refine ⟨((s.calls.eraseIdx k).map QueueCall.held).sum +
    tokensAt .pending s.queues.values.flatten + tokensAt .processing s.processing.values +
    tokensAt .dead s.deadLetters.values.flatten + tokensAt .acked s.acked +
    tokensAt .purged s.purged, ?_, ?_⟩
  · rw [located, ← hold]
    abel
  · rw [located, hnew]
    abel

theorem located_concat_calls (call : QueueCall) :
    { s with calls := s.calls ++ [call] }.located = call.held + s.located := by
  rw [located, located, List.map_append, List.sum_append, List.map_singleton, List.sum_singleton]
  abel

theorem located_concat_acked (message : QueueMessage) :
    { s with acked := s.acked ++ [message] }.located = (.acked, message) ::ₘ s.located := by
  rw [located, located, tokensAt_append, tokensAt_cons, tokensAt_nil, cons_zero, ← singleton_add]
  abel

end Changes

/-- Every message was there before, and its last entry is still right. -/
def Relabels (s s' : QueueManager) : Prop :=
  ∀ token ∈ s'.located, ∃ old ∈ s.located, old.2.id = token.2.id ∧
    ∀ config time, old.1.update config old.2 time = token.1.update config token.2 time

theorem relabels_of_located {s s' : QueueManager} (h : s'.located = s.located) : s.Relabels s' :=
  fun token htoken => ⟨token, h ▸ htoken, rfl, fun _ _ => rfl⟩

theorem relabels_of_map {s s' : QueueManager} {rest : Multiset Token}
    {place : Place} {f : QueueMessage → Token} (hold : s.located = tokensAt place messages + rest)
    (hnew : s'.located = (messages.map f : List Token) + rest)
    (hf : ∀ message, message.id = (f message).2.id ∧ ∀ config time,
      place.update config message time = (f message).1.update config (f message).2 time) :
    s.Relabels s' := by
  intro token htoken
  rw [hnew, mem_add, mem_coe] at htoken
  rw [hold]
  obtain hmem | htoken := htoken
  · obtain ⟨old, hmessage, rfl⟩ := mem_map.mp hmem
    exact ⟨(place, old), mem_add.mpr (.inl (mem_tokensAt hmessage)), hf old⟩
  · exact ⟨token, mem_add.mpr (.inr htoken), rfl, fun _ _ => rfl⟩

/-! ### Each piece of code keeps the balance -/

section Balance

variable {s : QueueManager} {message : QueueMessage} {messageId queue : String}
  {counters : String → ℤ × ℤ × ℤ} {tokens rest : Multiset Token} {old new : Token}
  {f : QueueStats → QueueStats}

theorem Agrees.move (h : s.Agrees counters (old ::ₘ rest)) (hmove : Moves old new) :
    s.Agrees (counters - tally old + tally new) (new ::ₘ rest) :=
  { h with accounts := h.accounts.move hmove }

theorem Balanced.updateStats (h : s.Balanced) (hf : ∀ stats, (f stats).counters = stats.counters) :
    (s.updateStats queue f).Balanced := by
  refine ⟨?_, h.queues, h.deadLetters, h.processing⟩
  rw [counters_updateStats_same s queue hf]
  exact h.accounts

theorem Agrees.pushPending
    (h : s.Agrees (s.counters + tally (.pending, message)) ((.pending, message) ::ₘ s.located))
    (hf : ∀ stats, (f stats).counters = stats.counters + Place.pending.weight) :
    ((s.pushPending message).updateStats message.queue f).Balanced where
  accounts := by
    rw [counters_updateStats _ _ hf]
    change Accounts _ _ _ (s.pushPending message).located
    rw [located_pushPending]
    exact h.accounts
  queues := h.queues.push rfl
  deadLetters := h.deadLetters
  processing := h.processing

theorem Agrees.get_processing_eq_none
    (h : s.Agrees counters ((.pending, message) ::ₘ tokens + s.located)) :
    s.processing.get message.id = none := by
  by_contra hne
  obtain ⟨other, hother⟩ := ne_none_iff_exists'.mp hne
  have hvalue : other ∈ s.processing.values :=
    mem_map_of_mem ((s.processing.mem_entries_iff _ _).mpr hother)
  have hmem : (Place.processing, other) ∈ tokens + s.located := by
    refine mem_add.mpr (.inr ?_)
    simp only [located, mem_add]
    exact .inl (.inl (.inl (.inr (mem_tokensAt hvalue))))
  have haccounts := h.accounts
  rw [cons_add] at haccounts
  exact haccounts.id_ne hmem (h.processing _ _ hother)

theorem Agrees.dispatchOne {first : QueueConsumer} {others : List QueueConsumer} {rrIndex : ℕ}
    (h : s.Agrees s.counters ((.pending, message) ::ₘ tokens + s.located))
    (hqueue : message.queue = queue) :
    (dispatchOne queue first others (s, rrIndex) message).1.Agrees
      (dispatchOne queue first others (s, rrIndex) message).1.counters
      (tokens + (dispatchOne queue first others (s, rrIndex) message).1.located) where
  accounts := by
    subst hqueue
    have haccounts := h.accounts
    rw [cons_add] at haccounts
    rw [dispatched_dispatchOne, counters_dispatchOne, located_dispatchOne h.get_processing_eq_none,
      add_cons]
    exact haccounts.dispatch
  queues := h.queues
  deadLetters := h.deadLetters
  processing messageId other hother := by
    change (s.processing.set message.id _).get messageId = some other at hother
    rw [get_set] at hother
    split_ifs at hother with hid
    · rw [← some.inj hother, hid]
    · exact h.processing messageId other hother

theorem Agrees.dispatchAll (first : QueueConsumer) (others : List QueueConsumer) :
    (messages : List QueueMessage) → (rrIndex : ℕ) → {s : QueueManager} →
      (∀ message ∈ messages, message.queue = queue) →
      s.Agrees s.counters (tokensAt .pending messages + s.located) →
      (messages.foldl (QueueManager.dispatchOne queue first others) (s, rrIndex)).1.Balanced ∧
        (messages.foldl (QueueManager.dispatchOne queue first others) (s, rrIndex)).1.located =
          (messages.map fun m => (.processing, { m with status := .processing }) : List Token) +
            s.located
  | [], _, s, _, h => by
    rw [tokensAt_nil, zero_add] at h
    exact ⟨h, (zero_add _).symm⟩
  | message :: messages, rrIndex, s, hqueue, h => by
    rw [tokensAt_cons] at h
    obtain ⟨hbalanced, hlocated⟩ := Agrees.dispatchAll first others messages (rrIndex + 1)
      (fun m hm => hqueue m (mem_cons_of_mem _ hm)) (h.dispatchOne (hqueue message mem_cons_self))
    refine ⟨hbalanced, hlocated.trans ?_⟩
    rw [located_dispatchOne h.get_processing_eq_none, List.map_cons, ← cons_coe, add_cons,
      cons_add]

theorem Balanced.dispatchToConsumers (h : s.Balanced) (now : ℕ) :
    (s.dispatchToConsumers queue now).Balanced ∧ s.Relabels (s.dispatchToConsumers queue now) := by
  have hsame : s.Balanced ∧ s.Relabels s := ⟨h, relabels_of_located rfl⟩
  rw [QueueManager.dispatchToConsumers]
  split
  · exact hsame
  · exact hsame
  rename_i first others _
  split
  · exact hsame
  · exact hsame
  rename_i message messages hmessages
  have hqueue : ∀ m ∈ message :: messages, m.queue = queue := h.queues queue _ hmessages
  set visible := (message :: messages).filter (isVisible now) with hvisible
  set remaining := (message :: messages).filter (fun m => !isVisible now m) with hremaining
  have hsplit : (message :: messages).Perm (visible ++ remaining) := (filter_append_perm _ _).symm
  have hold := tokensAt_perm .pending (s.queues.flatten_values_perm queue)
  have hnew := tokensAt_perm .pending (s.queues.flatten_values_set_perm queue remaining)
  have hlocated : s.located =
      tokensAt .pending visible + { s with queues := s.queues.set queue remaining }.located := by
    rw [located, located, hold, hnew, hmessages, getD_some, tokensAt_append,
      tokensAt_perm .pending hsplit, tokensAt_append, tokensAt_append]
    abel
  have hstats : (s.updateStats queue id).Balanced := h.updateStats fun _ => rfl
  have hbalanced : ({ s.updateStats queue id with
      queues := s.queues.set queue remaining }).Agrees (s.updateStats queue id).counters
      (tokensAt .pending visible + { s with queues := s.queues.set queue remaining }.located) :=
    { accounts := hlocated ▸ hstats.accounts
      queues := h.queues.set fun m hm => hqueue m (mem_of_mem_filter hm)
      deadLetters := h.deadLetters
      processing := h.processing }
  obtain ⟨hall, hlocated'⟩ := Agrees.dispatchAll first others visible
    ((s.roundRobinIndex.get queue).getD 0) (fun m hm => hqueue m (mem_of_mem_filter hm)) hbalanced
  exact ⟨⟨hall.accounts, hall.queues, hall.deadLetters, hall.processing⟩,
    relabels_of_map hlocated hlocated' fun _ => ⟨rfl, fun _ _ => rfl⟩⟩

variable {kind : QueueCallKind} {entry : Persistence.WALEntry String Json}

theorem Agrees.pushEnqueued
    (h : s.Agrees s.counters (QueueCallKind.enqueue.tokens message + s.located)) :
    ((s.pushPending message).updateStats message.queue fun stats => { stats with
      pending := stats.pending + 1, totalEnqueued := stats.totalEnqueued + 1 }).Balanced := by
  have hmoved := Agrees.move h (.enqueued message)
  have hzero : tally (.enqueuing, message) = 0 := Pi.single_zero _
  rw [hzero, sub_zero] at hmoved
  exact hmoved.pushPending fun stats => by simp [QueueStats.counters, Place.weight]

section

variable (h : s.Agrees s.counters (kind.tokens message + s.located))

include h

theorem Agrees.resume (now : ℕ) : (s.resume kind message now).Balanced := by
  cases kind with
  | enqueue => exact (h.pushEnqueued.dispatchToConsumers now).1
  | ack =>
    have hmoved := Agrees.move h (.acked message)
    have hzero : tally (.acked, { message with status := .completed }) = 0 := Pi.single_zero _
    rw [hzero, add_zero] at hmoved
    have hchange : ∀ stats : QueueStats, QueueStats.counters
        { stats with
          processing := stats.processing - 1
          completed := stats.completed + 1
          totalAcked := stats.totalAcked + 1 } = stats.counters + -Place.acking.weight :=
      fun stats => by simp [QueueStats.counters, Place.weight, sub_eq_add_neg]
    have hcounters : (s.resume .ack message now).counters =
        s.counters - tally (.acking, message) := by
      refine (counters_updateStats s message.queue hchange).trans ?_
      rw [Pi.single_neg, ← sub_eq_add_neg]
      rfl
    have hlocated : (s.resume .ack message now).located =
        (.acked, { message with status := .completed }) ::ₘ s.located := located_concat_acked _
    refine ⟨?_, hmoved.queues, hmoved.deadLetters, hmoved.processing⟩
    rw [hcounters, hlocated]
    exact hmoved.accounts
  | nack =>
    rw [QueueCallKind.tokens, zero_add] at h
    exact h

theorem Agrees.awaitAppend (config : DurableQueueConfig)
    (update : Entity.EntityUpdate String Json) (now : ℕ) :
    (s.awaitAppend config kind message update now).Balanced := by
  rw [QueueManager.awaitAppend]
  split
  · have hcalls := located_concat_calls (s := s) ⟨kind, message, .resolved⟩
    refine Agrees.resume ?_ now
    rw [hcalls, QueueCall.held_resolved, zero_add]
    exact ⟨h.accounts, h.queues, h.deadLetters, h.processing⟩
  · rename_i writer _
    have hcalls := located_concat_calls (s := s)
      ⟨kind, message, .appending (writer.createEntry config.walConfig update now).2⟩
    refine ⟨?_, h.queues, h.deadLetters, h.processing⟩
    exact hcalls ▸ h.accounts

end

/-- The call at index `k` returns from its append. -/
theorem Balanced.resolveCall (h : s.Balanced) (wal : Persistence.WALFile String Json)
    (hk : s.calls[k]? = some ⟨kind, message, .appending entry⟩) :
    kind.tokens message +
        { s with wal := wal, calls := s.calls.set k ⟨kind, message, .resolved⟩ }.located =
      s.located ∧
    { s with wal := wal, calls := s.calls.set k ⟨kind, message, .resolved⟩ }.Agrees s.counters
      s.located := by
  obtain ⟨rest, hold, hnew⟩ := located_set_calls hk ⟨kind, message, .resolved⟩
  rw [QueueCall.held_resolved, zero_add] at hnew
  exact ⟨(congrArg _ hnew).trans hold.symm, ⟨h.accounts, h.queues, h.deadLetters, h.processing⟩⟩

theorem Balanced.enqueue (h : s.Balanced) (config : DurableQueueConfig)
    (hnew : message.id ∉ s.enqueued.map QueueMessage.id) (horigin : message.origin = message)
    (now : ℕ) : (s.enqueue config message now).Balanced := by
  have hissued : { s with enqueued := s.enqueued ++ [message] }.Agrees s.counters
      (QueueCallKind.enqueue.tokens message + s.located) :=
    ⟨h.accounts.issue hnew horigin, h.queues, h.deadLetters, h.processing⟩
  exact Agrees.awaitAppend hissued config _ now

/-- What `ack` and `nack` do about a message that is processed: it is taken to a new place, and the
call waits for the log. -/
structure Moved (s : QueueManager) (messageId : String) (message : QueueMessage)
    (kind : QueueCallKind) (new : Token) (t : QueueManager) : Prop where
  moves : Moves (.processing, message) new
  tokens : kind.tokens new.2 + t.located = new ::ₘ (s.removeFromProcessing messageId).located
  counters : t.counters = s.counters - tally (.processing, message) + tally new
  queues : s.queues.Filed QueueMessage.queue → t.queues.Filed QueueMessage.queue
  deadLetters : s.deadLetters.Filed QueueMessage.queue → t.deadLetters.Filed QueueMessage.queue
  processing : t.processing = s.processing.delete messageId
  frame : (t.walWriter, t.wal, t.calls, t.enqueued, t.handlerCalls) =
    (s.walWriter, s.wal, s.calls, s.enqueued, s.handlerCalls)

/-- What `ack` and `nack` do with a message. -/
inductive Settles (config : DurableQueueConfig) (s : QueueManager) : QueueManager → Prop
  | unknown : Settles config s s
  | moved {messageId : String} {message : QueueMessage} {kind : QueueCallKind} {t : QueueManager}
      (get : s.processing.get messageId = some message) (new : Token)
      (moved : s.Moved messageId message kind new t) (now : ℕ) :
      Settles config s (t.awaitAppend config kind new.2 (new.1.update config new.2 now) now)

section Settles

variable (config : DurableQueueConfig) (delayMs : Option ℤ) (now : ℕ)

section

variable (h : s.processing.get messageId = some message)

include h

theorem ack_eq :
    s.Moved messageId message .ack (.acking, message) (s.removeFromProcessing messageId) ∧
      s.ack config messageId now =
        (s.removeFromProcessing messageId).awaitAppend config .ack message
          (Place.acking.update config message now) now := by
  refine ⟨⟨.taken message, singleton_add _ _, (sub_add_cancel _ _).symm, id, id, rfl, rfl⟩, ?_⟩
  rw [ack, h]
  rfl

theorem nack_eq : ∃ new t, s.nack config messageId delayMs now =
        t.awaitAppend config .nack new.2 (new.1.update config new.2 now) now ∧
      new.1 ≠ .acking ∧ s.Moved messageId message .nack new t := by
  have hchange : ∀ stats : QueueStats, QueueStats.counters
      { stats with processing := stats.processing - 1, totalNacked := stats.totalNacked + 1 } =
        stats.counters + -Place.processing.weight := fun stats => by
    simp [QueueStats.counters, Place.weight, sub_eq_add_neg]
  have htaken := counters_updateStats (s.removeFromProcessing messageId) message.queue hchange
  rw [Pi.single_neg, ← sub_eq_add_neg] at htaken
  rw [nack, h]
  dsimp only
  split_ifs with hlast
  · refine ⟨(.dead, { message with attempts := message.attempts + 1, status := .deadLetter }), _,
      rfl, by simp, .deadLettered message hlast, (zero_add _).trans located_pushDeadLetter, ?_, id,
      fun h => h.push rfl, rfl, rfl⟩
    refine (counters_updateStats _ _ fun stats => ?_).trans (congrArg (· + _) htaken)
    simp [QueueStats.counters, Place.weight]
  · refine ⟨(.pending,
      { message with
        attempts := message.attempts + 1
        status := .pending
        visibleAfter := now + delayMs.getD config.visibilityTimeout }), _,
      rfl, by simp, .requeued message _ (not_le.mp hlast), (zero_add _).trans located_pushPending,
      ?_, fun h => h.push rfl, id, rfl, rfl⟩
    refine (counters_updateStats _ _ fun stats => ?_).trans (congrArg (· + _) htaken)
    simp [QueueStats.counters, Place.weight]

end

variable (s messageId)

theorem settles_ack : s.Settles config (s.ack config messageId now) := by
  cases hget : s.processing.get messageId with
  | none =>
    rw [ack, hget]
    exact .unknown
  | some =>
    obtain ⟨hmoved, heq⟩ := ack_eq config now hget
    exact heq ▸ .moved hget _ hmoved now

theorem settles_nack : s.Settles config (s.nack config messageId delayMs now) := by
  cases hget : s.processing.get messageId with
  | none =>
    rw [nack, hget]
    exact .unknown
  | some =>
    obtain ⟨new, t, heq, -, hmoved⟩ := nack_eq config delayMs now hget
    exact heq ▸ .moved hget new hmoved now

theorem settles_nackIfProcessing : s.Settles config (s.nackIfProcessing config messageId now) := by
  rw [nackIfProcessing]
  split_ifs
  · exact settles_nack s messageId config none now
  · exact .unknown

end Settles

variable {config : DurableQueueConfig} {s' : QueueManager}

theorem Balanced.settle (h : s.Balanced) (hsettles : s.Settles config s') : s'.Balanced := by
  cases hsettles with
  | unknown => exact h
  | moved hget _ hmoved now =>
    have haccounts := h.accounts
    rw [located_removeFromProcessing hget] at haccounts
    have hframe := hmoved.frame
    simp only [Prod.mk.injEq] at hframe
    obtain ⟨-, -, -, henqueued, hcalls⟩ := hframe
    refine Agrees.awaitAppend ⟨?_, hmoved.queues h.queues, hmoved.deadLetters h.deadLetters,
      fun other message hget => ?_⟩ config _ now
    · rw [dispatched, henqueued, hcalls, hmoved.counters, hmoved.tokens]
      exact haccounts.move hmoved.moves
    · rw [hmoved.processing, get_delete] at hget
      split_ifs at hget
      exact h.processing other message hget

theorem located_purge (h : s.queues.get queue = some messages) :
    ∃ rest, s.located = tokensAt .pending messages + rest ∧
      { s with queues := s.queues.set queue [], purged := s.purged ++ messages }.located =
        tokensAt .purged messages + rest := by
  have hold := tokensAt_perm .pending (s.queues.flatten_values_perm queue)
  have hnew := tokensAt_perm .pending (s.queues.flatten_values_set_perm queue [])
  rw [h, getD_some, tokensAt_append] at hold
  rw [nil_append] at hnew
  refine ⟨(s.calls.map QueueCall.held).sum +
    tokensAt .pending (s.queues.delete queue).values.flatten +
    tokensAt .processing s.processing.values + tokensAt .dead s.deadLetters.values.flatten +
    tokensAt .acked s.acked + tokensAt .purged s.purged, ?_, ?_⟩
  · rw [located, hold]
    abel
  · rw [located, hnew, tokensAt_append]
    abel

theorem relabels_purgeQueue (s : QueueManager) (queue : String) :
    s.Relabels (s.purgeQueue queue) := by
  rw [purgeQueue]
  split
  · exact relabels_of_located rfl
  · rename_i messages hmessages
    obtain ⟨rest, hold, hnew⟩ := located_purge hmessages
    exact relabels_of_map hold hnew fun _ => ⟨rfl, fun _ _ => rfl⟩

theorem Balanced.purgeQueue (h : s.Balanced) (queue : String) : (s.purgeQueue queue).Balanced := by
  rw [QueueManager.purgeQueue]
  split
  · exact h
  rename_i messages hmessages
  have hqueue : ∀ message ∈ messages, message.queue = queue := h.queues queue _ hmessages
  obtain ⟨rest, hold, hnew⟩ := located_purge hmessages
  have haccounts := h.accounts
  rw [hold] at haccounts
  have hle := haccounts.length_le hqueue
  have hcounters := counters_updateStats_of_eq
    { s with queues := s.queues.set queue [], purged := s.purged ++ messages } queue
    (f := (·.purge messages.length)) (QueueStats.counters_purge hle)
  rw [Pi.single_neg, ← sub_eq_add_neg] at hcounters
  refine ⟨?_, h.queues.set (fun _ hmem => nomatch hmem), h.deadLetters, h.processing⟩
  rw [hcounters]
  exact hnew ▸ haccounts.purge hqueue

/-- The managers agree on all that the ledger and the log depend on. -/
structure Same (s s' : QueueManager) : Prop where
  lists : (s'.queues, s'.processing, s'.deadLetters, s'.acked, s'.purged) =
    (s.queues, s.processing, s.deadLetters, s.acked, s.purged)
  log : (s'.walWriter, s'.wal, s'.calls, s'.enqueued) = (s.walWriter, s.wal, s.calls, s.enqueued)
  counters : s'.counters = s.counters
  dispatched : s'.dispatched = s.dispatched

theorem same_consume (s : QueueManager) (queue : String) : s.Same (s.consume queue).1 :=
  ⟨rfl, rfl, counters_updateStats_same _ _ fun _ => rfl, rfl⟩

theorem same_removeConsumer (s : QueueManager) (consumerId : String) :
    s.Same (s.removeConsumer consumerId).1 := by
  rw [removeConsumer]
  split
  · exact ⟨rfl, rfl, rfl, rfl⟩
  · rename_i queue consumers _
    have hcounters := counters_updateStats_same
      { s with consumers := s.consumers.set queue (consumers.eraseP fun c => c.id = consumerId) }
      queue (f := fun stats =>
        { stats with consumerCount := (consumers.eraseP fun c => c.id = consumerId).length })
      fun _ => rfl
    dsimp only
    split_ifs
    · exact ⟨rfl, rfl, hcounters, rfl⟩
    · exact ⟨rfl, rfl, hcounters, rfl⟩

theorem same_endHandler {call : HandlerCall} (hk : s.handlerCalls[k]? = some call) :
    s.Same (s.endHandler k call) := by
  refine ⟨rfl, rfl, rfl, ?_⟩
  obtain ⟨hlt, -⟩ := List.getElem?_eq_some_iff.mp hk
  rw [dispatched, dispatched, endHandler, map_set]
  refine ext_getElem? fun i => ?_
  rw [getElem?_set]
  split_ifs with hik hlen
  · subst hik
    rw [getElem?_map, hk]
    rfl
  · exact absurd (by simpa using hlt) hlen
  · rfl

theorem Same.located (h : s.Same s') : s'.located = s.located := by
  obtain ⟨hlists, hlog, -, -⟩ := h
  simp only [Prod.mk.injEq] at hlists hlog
  simp [QueueManager.located, hlists, hlog]

theorem Balanced.of_same (hbalanced : s.Balanced) (h : s.Same s') : s'.Balanced := by
  have hlocated := h.located
  obtain ⟨hlists, hlog, hcounters, hdispatched⟩ := h
  simp only [Prod.mk.injEq] at hlists hlog
  refine ⟨?_, ?_, ?_, ?_⟩
  · rw [hlog.2.2.2, hdispatched, hcounters, hlocated]
    exact hbalanced.accounts
  · rw [hlists.1]
    exact hbalanced.queues
  · rw [hlists.2.2.1]
    exact hbalanced.deadLetters
  · rw [hlists.2.1]
    exact hbalanced.processing

/-- What a step does. -/
inductive Step (config : DurableQueueConfig) (s : QueueManager) : QueueManager → Prop
  | settled {t s' : QueueManager} (same : s.Same t) (settles : t.Settles config s') :
      Step config s s'
  | enqueued {message : QueueMessage} (fresh : message.id ∉ s.enqueued.map QueueMessage.id)
      (origin : message.origin = message)
      (limit : message.maxAttempts = config.defaultMaxAttempts) (now : ℕ) :
      Step config s (s.enqueue config message now)
  | dispatched (queue : String) (now : ℕ) : Step config s (s.dispatchToConsumers queue now)
  | purged (queue : String) : Step config s (s.purgeQueue queue)
  | finished {k : ℕ} {kind : QueueCallKind} {message : QueueMessage}
      {entry : Persistence.WALEntry String Json}
      (call : s.calls[k]? = some ⟨kind, message, .appending entry⟩) (now : ℕ)
      (fault : Option String) : Step config s (s.finishCall config k kind message entry now fault)

theorem step_cases {ev : QueueEvent} (hstep : s.step config ev = some s') :
    s.Step config s' := by
  have hsame : s.Same s := ⟨rfl, rfl, rfl, rfl⟩
  cases ev with
  | enqueue _ _ _ _ now =>
    rw [step] at hstep
    split_ifs at hstep with hused
    cases hstep
    refine .enqueued (fun hmem => hused ?_) rfl rfl now
    obtain ⟨other, hother, hid⟩ := mem_map.mp hmem
    exact any_eq_true.mpr ⟨other, hother, by simpa using hid⟩
  | consume queue =>
    cases hstep
    exact .settled (same_consume s queue) .unknown
  | removeConsumer consumerId =>
    cases hstep
    exact .settled (same_removeConsumer s consumerId) .unknown
  | ack messageId now =>
    cases hstep
    exact .settled hsame (settles_ack s messageId config now)
  | nack messageId delayMs now =>
    cases hstep
    exact .settled hsame (settles_nack s messageId config delayMs now)
  | purgeQueue queue =>
    cases hstep
    exact .purged queue
  | poll queue now =>
    rw [step] at hstep
    split_ifs at hstep
    cases hstep
    exact .dispatched queue now
  | visibilityExpired messageId now =>
    rw [step] at hstep
    split_ifs at hstep
    cases hstep
    exact .settled hsame (settles_nackIfProcessing s messageId config now)
  | handlerReturned =>
    rw [step] at hstep
    split at hstep
    · cases hstep
    · rename_i call hk
      split_ifs at hstep
      cases hstep
      exact .settled (same_endHandler hk) .unknown
  | handlerFailed k now =>
    rw [step] at hstep
    split at hstep
    · cases hstep
    · rename_i call hk
      split_ifs at hstep
      cases hstep
      exact .settled (same_endHandler hk) (settles_nackIfProcessing _ call.messageId config now)
  | appended k now fault =>
    rw [step] at hstep
    split at hstep
    · rename_i kind message entry hk
      cases hstep
      exact .finished hk now fault
    · cases hstep

/-- **A step keeps the balance.** -/
theorem Balanced.step (ev : QueueEvent) (h : s.Balanced)
    (hstep : s.step config ev = some s') : s'.Balanced := by
  cases step_cases hstep with
  | settled same settles => exact (h.of_same same).settle settles
  | enqueued fresh origin _ now => exact h.enqueue config fresh origin now
  | dispatched _ now => exact (h.dispatchToConsumers now).1
  | purged queue => exact h.purgeQueue queue
  | finished hk now fault =>
    rw [QueueManager.finishCall]
    split
    · rename_i err _
      obtain ⟨rest, hold, hnew⟩ := located_set_calls hk ⟨_, _, .rejected err⟩
      refine ⟨?_, h.queues, h.deadLetters, h.processing⟩
      rw [hnew]
      exact hold ▸ h.accounts
    · rename_i wal _ _
      obtain ⟨hlocated, hagrees⟩ := h.resolveCall wal hk
      exact Agrees.resume (hlocated ▸ hagrees) now

/-- **Every run keeps the balance.** -/
theorem balanced_of_run {events : List QueueEvent}
    (hrun : exec (step config) (started config) events = some s) : s.Balanced :=
  exec_invariant (fun _ ev _ h _ hstep => Balanced.step ev h hstep) (balanced_started config)
    (allSteps_true _ _ _) hrun

end Balance

/-! ### When no call waits -/

section Settled

variable {s : QueueManager} {message : QueueMessage} {m : OrderedMap String (List QueueMessage)}

def occurrences (message : QueueMessage) (messages : List QueueMessage) : ℕ :=
  messages.countP fun other => other.id = message.id

theorem AllResolved.located_eq (h : s.AllResolved) :
    s.located = tokensAt .pending s.queues.values.flatten +
      tokensAt .processing s.processing.values + tokensAt .dead s.deadLetters.values.flatten +
      tokensAt .acked s.acked + tokensAt .purged s.purged := by
  have hheld : (s.calls.map QueueCall.held).sum = 0 := by
    refine sum_eq_zero fun tokens htokens => ?_
    obtain ⟨call, hcall, rfl⟩ := mem_map.mp htokens
    exact if_pos (h call hcall)
  rw [located, hheld, zero_add]

theorem occurrences_flatten (hfiled : m.Filed QueueMessage.queue)
    (hqueue : ∀ other ∈ m.values.flatten, other.id = message.id → other.queue = message.queue) :
    occurrences message m.values.flatten = occurrences message ((m.get message.queue).getD []) := by
  rw [← m.filter_flatten_values QueueMessage.queue message.queue hfiled, occurrences, occurrences,
    List.countP_filter]
  refine countP_congr fun other hother => ?_
  simpa using hqueue other hother

theorem length_getD (hfiled : m.Filed QueueMessage.queue) (queue : String) :
    m.values.flatten.countP (fun other => other.queue = queue) =
      ((m.get queue).getD []).length := by
  rw [countP_eq_length_filter, m.filter_flatten_values QueueMessage.queue queue hfiled]

theorem Balanced.occurrences_eq_one (h : s.Balanced) (hresolved : s.AllResolved)
    (hmessage : message ∈ s.enqueued) :
    occurrences message (s.pendingMessages message.queue) +
      occurrences message s.processing.values +
      occurrences message (s.getDeadLetterMessages message.queue) +
      occurrences message s.acked + occurrences message s.purged = 1 := by
  have hcount := h.accounts.audited.countP_eq_one QueueMessage.id (by simpa using h.accounts.nodup)
    (mem_coe.mpr hmessage)
  have hqueue : ∀ token ∈ s.located, token.2.id = message.id → token.2.queue = message.queue := by
    intro token htoken hid
    have hsame : token.2.origin = message :=
      inj_on_of_nodup_map h.accounts.nodup (h.accounts.origin_mem htoken) hmessage hid
    exact hsame ▸ rfl
  rw [hresolved.located_eq] at hcount hqueue
  simp only [countP_add] at hcount
  have hpending := occurrences_flatten h.queues fun other hother =>
    hqueue (.pending, other) (by simp [mem_tokensAt hother])
  have hdead := occurrences_flatten h.deadLetters fun other hother =>
    hqueue (.dead, other) (by simp [mem_tokensAt hother])
  rw [pendingMessages, getDeadLetterMessages, ← hpending, ← hdead]
  have hplace : ∀ place messages, (tokensAt place messages).countP
      (fun token => token.2.origin.id = message.id) = occurrences message messages :=
    fun place messages => by rw [tokensAt, Multiset.coe_countP, List.countP_map]; rfl
  simpa [hplace] using hcount

theorem Balanced.counters_eq (h : s.Balanced) (hresolved : s.AllResolved) (queue : String) :
    s.counters queue = (((s.pendingMessages queue).length : ℤ),
      ((s.processing.values.countP fun other => other.queue = queue : ℕ) : ℤ),
      ((s.getDeadLetterMessages queue).length : ℤ)) := by
  rw [← h.accounts.audited.sum, hresolved.located_eq]
  simp only [map_add, sum_add, Pi.add_apply, sum_tally_tokensAt,
    length_getD h.queues, length_getD h.deadLetters]
  simp [Place.weight, pendingMessages, getDeadLetterMessages]

end Settled

structure Conserved (s : QueueManager) : Prop where
  /-- Every message that was enqueued is once in the list of its queue, in `processing`, among the
  dead letters of its queue, among the acknowledged messages or among the purged ones. -/
  atOnePlace : ∀ message ∈ s.enqueued, occurrences message (s.pendingMessages message.queue) +
      occurrences message s.processing.values +
      occurrences message (s.getDeadLetterMessages message.queue) +
      occurrences message s.acked + occurrences message s.purged = 1
  pending : ∀ queue, (s.getQueueStats queue).pending = (s.pendingMessages queue).length
  processing : ∀ queue, (s.getQueueStats queue).processing =
    (s.processing.values.countP fun message => message.queue = queue : ℕ)
  deadLetter : ∀ queue, (s.getQueueStats queue).deadLetter = (s.getDeadLetterMessages queue).length
  /-- No message was dispatched more often than its limit, or once. -/
  dispatches : ∀ message ∈ s.enqueued,
    (s.dispatched.count message.id : ℤ) ≤ max 1 message.maxAttempts
  attempts : ∀ queue, ∀ message ∈ s.getDeadLetterMessages queue,
    message.maxAttempts ≤ message.attempts

/-- **No message is lost or doubled.** After every run of a manager, when no call waits and no
append has failed, every message is at one place, the counters are the sizes of the lists, no
message was dispatched too often, and every dead letter has reached its limit. -/
theorem messages_conserved (config : DurableQueueConfig) (events : List QueueEvent)
    (s : QueueManager) (hrun : exec (step config) (started config) events = some s)
    (hresolved : s.AllResolved) : s.Conserved := by
  have h := balanced_of_run hrun
  have hcounters := h.counters_eq hresolved
  refine
    { atOnePlace := fun message hmessage => h.occurrences_eq_one hresolved hmessage
      pending := fun queue => congrArg Prod.fst (hcounters queue)
      processing := fun queue => congrArg (fun c => c.2.1) (hcounters queue)
      deadLetter := fun queue => congrArg (fun c => c.2.2) (hcounters queue)
      dispatches := fun message hmessage => ?_
      attempts := fun queue message hmessage => ?_ }
  · obtain ⟨token, htoken, rfl⟩ := h.accounts.exists_origin_eq hmessage
    exact (h.accounts.inBounds token htoken).le_max
  · have hmem : message ∈ s.deadLetters.values.flatten :=
      (s.deadLetters.flatten_values_perm queue).mem_iff.mpr (mem_append_left _ hmessage)
    have hbounds := h.accounts.inBounds (.dead, message) (by simp [located, mem_tokensAt hmem])
    exact hbounds.1 ▸ hbounds.2.1

def sampleQueueConfig : DurableQueueConfig :=
  { localNodeId := "n"
    defaultMaxAttempts := 2
    calculateChecksum := fun _ => ""
    lineLength := fun _ => 1 }

/-- The first message is refused by its handler and by its timer, the second one is acknowledged,
the third one is purged after the consumer has left, and the fourth one waits. -/
def mixedEvents : List QueueEvent :=
  [.consume "q", .enqueue "q" .null none "a" 1, .appended 0 2 none, .handlerFailed 0 3,
    .appended 1 4 none, .poll "q" 40000, .visibilityExpired "qmsg-1-a" 70001,
    .appended 2 70002 none, .enqueue "q" .null none "b" 70003, .appended 3 70004 none,
    .ack "qmsg-70003-b" 70005, .handlerReturned 2, .appended 4 70006 none,
    .removeConsumer "consumer-1", .enqueue "q" .null none "c" 70007, .appended 5 70008 none,
    .purgeQueue "q", .enqueue "q" .null none "d" 70009, .appended 6 70010 none]

/-- The messages of `mixedEvents`. -/
theorem messages_conserved_mixedEvents :
    ∃ s, exec (step sampleQueueConfig) (started sampleQueueConfig) mixedEvents = some s ∧
      s.AllResolved ∧
      (s.getDeadLetterMessages "q").map QueueMessage.id = ["qmsg-1-a"] ∧
      s.acked.map QueueMessage.id = ["qmsg-70003-b"] ∧
      s.purged.map QueueMessage.id = ["qmsg-70007-c"] ∧
      (s.pendingMessages "q").map QueueMessage.id = ["qmsg-70009-d"] ∧ s.Conserved :=
  ⟨_, rfl, by decide +kernel, by decide +kernel, by decide +kernel, by decide +kernel,
    by decide +kernel, messages_conserved sampleQueueConfig mixedEvents _ rfl (by decide +kernel)⟩

end QueueManager

end DistributedCore.Gateway
