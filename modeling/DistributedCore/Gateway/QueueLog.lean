import DistributedCore.Gateway.QueueConservation

/-!
# What the log of a queue manager says

A history of a manager is sequential if no call is made while another one waits for the log. In
such a history the last entry about a message tells its place: an entry of `enqueue` or of `nack`
for a message that waits or is processed, one of `nack` for a dead letter, and one of `ack` for an
acknowledged message. A dispatch and a purge write nothing.

Source: `src/gateway/queue/DurableQueueManager.ts`.
-/

namespace DistributedCore.Gateway

open Entity Persistence Multiset List Bool

/-! ### Last entries -/

/-- The last entry about a message. -/
def lastEntry (log : WALFile String Json) (entityId : String) : Option (WALEntry String Json) :=
  (log.filter fun entry => entry.data.entityId = entityId).getLast?

section LastEntry

variable {log : WALFile String Json} {entry : WALEntry String Json} {entityId : String}

theorem lastEntry_concat_self (h : entry.data.entityId = entityId) :
    lastEntry (log ++ [entry]) entityId = some entry := by
  rw [lastEntry, List.filter_append, List.filter_cons_of_pos (by simpa using h)]
  simp

theorem lastEntry_concat_of_ne (h : entry.data.entityId ≠ entityId) :
    lastEntry (log ++ [entry]) entityId = lastEntry log entityId := by
  rw [lastEntry, List.filter_append, List.filter_cons_of_neg (by simpa using h)]
  simp [lastEntry]

end LastEntry

variable (config : DurableQueueConfig)

/-- The last entry about each message records its place. -/
def Logged (log : WALFile String Json) (tokens : Multiset Token) : Prop :=
  ∀ token ∈ tokens, ∃ time,
    (lastEntry log token.2.id).map WALEntry.data = some (token.1.update config token.2 time)

section Logged

variable {config : DurableQueueConfig} {log : WALFile String Json} {rest : Multiset Token}
  {entry : WALEntry String Json}

theorem Logged.write (h : Logged config log rest) {new : Token}
    (hne : ∀ token ∈ rest, token.2.id ≠ new.2.id) {time : ℕ}
    (hentry : entry.data = new.1.update config new.2 time) :
    Logged config (log ++ [entry]) (new ::ₘ rest) := by
  have hid : entry.data.entityId = new.2.id := by rw [hentry, Place.entityId_update]
  intro token htoken
  obtain rfl | htoken := mem_cons.mp htoken
  · exact ⟨time, by rw [lastEntry_concat_self hid, Option.map_some, hentry]⟩
  · obtain ⟨time, htime⟩ := h token htoken
    refine ⟨time, ?_⟩
    rw [lastEntry_concat_of_ne (by rw [hid]; exact (hne token htoken).symm), htime]

theorem Logged.of_relabels {s s' : QueueManager} (h : Logged config log s.located)
    (hrelabels : s.Relabels s') :
    Logged config log s'.located := by
  intro token htoken
  obtain ⟨old, hold, hid, hupdate⟩ := hrelabels token htoken
  obtain ⟨time, htime⟩ := h old hold
  exact ⟨time, by rw [← hid, htime, hupdate]⟩

end Logged

def QueueEvent.isAppended : QueueEvent → Bool
  | .appended _ _ _ => true
  | _ => false

namespace QueueManager

/-! ### Sequential histories -/

/-- The log is ordered, numbered and records every message. -/
structure LogFits (config : DurableQueueConfig) (s : QueueManager) (log : WALFile String Json)
    (tokens : Multiset Token) : Prop where
  writer : ∃ writer, s.walWriter = some writer ∧
    ∀ entry ∈ log, entry.logSequenceNumber ≤ writer.currentLSN
  ordered : log.Ordered config.walConfig
  logged : Logged config log tokens
  known : ∀ entry ∈ log, entry.data.entityId ∈ s.enqueued.map QueueMessage.id

/-- No call waits, and the log records every message. -/
def Steady (config : DurableQueueConfig) (s : QueueManager) : Prop :=
  s.AllResolved ∧ s.LogFits config s.wal s.located

/-- One call waits, and the log with its entry records every message. -/
def Waiting (config : DurableQueueConfig) (s : QueueManager) : Prop :=
  ∃ (k : ℕ) (kind : QueueCallKind) (message : QueueMessage) (entry : WALEntry String Json),
    s.calls[k]? = some ⟨kind, message, .appending entry⟩ ∧
    (∀ (j : ℕ) (call : QueueCall), s.calls[j]? = some call → j ≠ k → call.stage.isResolved = true) ∧
    s.LogFits config (s.wal ++ [entry]) s.located

def Failed (s : QueueManager) : Prop :=
  ∃ (k : ℕ) (kind : QueueCallKind) (message : QueueMessage) (err : WALError),
    s.calls[k]? = some ⟨kind, message, .rejected err⟩

/-- The invariant of a run in which the calls come one by one. -/
structure Traced (config : DurableQueueConfig) (s : QueueManager) : Prop where
  balanced : s.Balanced
  limits : ∀ message ∈ s.enqueued, message.maxAttempts = config.defaultMaxAttempts
  log : s.Failed ∨ s.Steady config ∨ s.Waiting config

/-- A call is made only when no other one waits. -/
def Sequential (s : QueueManager) (ev : QueueEvent) : Prop := s.AllResolved ∨ ev.isAppended = true

instance decidableSequential (s : QueueManager) (ev : QueueEvent) : Decidable (s.Sequential ev) :=
  inferInstanceAs (Decidable (_ ∨ _ = true))

variable {config : DurableQueueConfig} {s s' : QueueManager} {message : QueueMessage}
  {messageId queue : String} {log : WALFile String Json}

theorem dispatchToConsumers_frame (s : QueueManager) (queue : String) (now : ℕ) :
    ((s.dispatchToConsumers queue now).walWriter, (s.dispatchToConsumers queue now).wal,
        (s.dispatchToConsumers queue now).calls, (s.dispatchToConsumers queue now).enqueued) =
      (s.walWriter, s.wal, s.calls, s.enqueued) := by
  have hfold : ∀ (first : QueueConsumer) (others : List QueueConsumer)
      (messages : List QueueMessage) (acc : QueueManager × ℕ),
      let s := (messages.foldl (dispatchOne queue first others) acc).1
      (s.walWriter, s.wal, s.calls, s.enqueued) =
        (acc.1.walWriter, acc.1.wal, acc.1.calls, acc.1.enqueued) := by
    intro first others messages
    induction messages with
    | nil => exact fun acc => rfl
    | cons _ _ ih => exact fun acc => ih _
  rw [dispatchToConsumers]
  split
  · rfl
  · rfl
  split
  · rfl
  · rfl
  exact hfold _ _ _ _

theorem purgeQueue_frame (s : QueueManager) (queue : String) :
    ((s.purgeQueue queue).walWriter, (s.purgeQueue queue).wal, (s.purgeQueue queue).calls,
      (s.purgeQueue queue).enqueued) = (s.walWriter, s.wal, s.calls, s.enqueued) := by
  rw [purgeQueue]
  split
  · rfl
  · rfl

variable {kind : QueueCallKind} {entry : WALEntry String Json} {now k : ℕ}

theorem LogFits.awaitAppend {update : EntityUpdate String Json} (new : Token)
    {rest : Multiset Token} (h : s.LogFits config s.wal rest) (hresolved : s.AllResolved)
    (htokens : kind.tokens message + s.located = new ::ₘ rest)
    (hne : ∀ token ∈ rest, token.2.id ≠ new.2.id) (hupdate : update = new.1.update config new.2 now)
    (hnew : new.2.id ∈ s.enqueued.map QueueMessage.id) :
    (s.awaitAppend config kind message update now).Waiting config := by
  obtain ⟨writer, hsome, hbound⟩ := h.writer
  rw [QueueManager.awaitAppend, hsome]
  set entry := (writer.createEntry config.walConfig update now).2 with hentry
  have hlsn : entry.logSequenceNumber = writer.currentLSN + 1 := rfl
  have hlocated := located_concat_calls (s := s) ⟨kind, message, .appending entry⟩
  refine ⟨s.calls.length, kind, message, entry, getElem?_concat_length, ?_, ?_⟩
  · intro j call hj hne
    obtain ⟨hlt, -⟩ := List.getElem?_eq_some_iff.mp hj
    rw [length_append, length_singleton] at hlt
    rw [getElem?_append_left (by omega)] at hj
    exact hresolved call (mem_of_getElem? hj)
  · refine ⟨⟨_, rfl, ?_⟩, ?_, ?_, ?_⟩
    · intro old hold
      obtain hold | hold := mem_append.mp hold
      · exact (hbound old hold).trans (Nat.le_succ _)
      · rw [List.mem_singleton.mp hold]
        exact le_of_eq hlsn
    · refine h.ordered.concat (validateEntry_createEntry _ _ _ _) fun old hold => ?_
      have := hbound old hold
      omega
    · change Logged config (s.wal ++ [entry]) (located _)
      have hlogged : Logged config (s.wal ++ [entry]) (kind.tokens message + s.located) :=
        htokens ▸ h.logged.write hne hupdate
      exact hlocated ▸ hlogged
    · intro old hold
      obtain hold | hold := mem_append.mp hold
      · exact h.known old hold
      · rw [List.mem_singleton.mp hold]
        change update.entityId ∈ _
        rw [hupdate, Place.entityId_update]
        exact hnew

/-! #### What a call does when its append has ended -/

theorem resume_frame (s : QueueManager) (kind : QueueCallKind) (message : QueueMessage) (now : ℕ) :
    (s.resume kind message now).wal = s.wal ∧ (s.resume kind message now).calls = s.calls ∧
      (s.resume kind message now).enqueued = s.enqueued ∧
      (s.resume kind message now).walWriter = s.walWriter := by
  cases kind with
  | enqueue =>
    have hframe := dispatchToConsumers_frame ((s.pushPending message).updateStats message.queue
      fun stats =>
        { stats with pending := stats.pending + 1, totalEnqueued := stats.totalEnqueued + 1 })
      message.queue now
    simp only [Prod.mk.injEq] at hframe
    exact ⟨hframe.2.1, hframe.2.2.1, hframe.2.2.2, hframe.1⟩
  | ack => exact ⟨rfl, rfl, rfl, rfl⟩
  | nack => exact ⟨rfl, rfl, rfl, rfl⟩

theorem LogFits.resume (h : s.LogFits config log (kind.tokens message + s.located))
    (hagrees : s.Agrees s.counters (kind.tokens message + s.located)) :
    (s.resume kind message now).LogFits config log (s.resume kind message now).located := by
  have hcons : ∀ old new : Token, old.2.id = new.2.id →
      (∀ time, old.1.update config old.2 time = new.1.update config new.2 time) →
      Logged config log (old ::ₘ s.located) → Logged config log (new ::ₘ s.located) := by
    intro old new hid hupdate h token htoken
    obtain rfl | htoken := mem_cons.mp htoken
    · obtain ⟨time, htime⟩ := h old (mem_cons_self _ _)
      exact ⟨time, by rw [← hid, htime, hupdate]⟩
    · exact h token (mem_cons_of_mem htoken)
  cases kind with
  | enqueue =>
    obtain ⟨-, -, henqueued, hsame⟩ := resume_frame s .enqueue message now
    refine ⟨hsame ▸ h.writer, h.ordered, Logged.of_relabels ?_
      (hagrees.pushEnqueued.dispatchToConsumers now).2, henqueued ▸ h.known⟩
    change Logged config log (s.pushPending message).located
    rw [located_pushPending]
    exact hcons (.enqueuing, message) _ rfl (fun _ => rfl) h.logged
  | ack =>
    refine ⟨h.writer, h.ordered, ?_, h.known⟩
    have hlocated : (s.resume .ack message now).located =
        (.acked, { message with status := .completed }) ::ₘ s.located := located_concat_acked _
    rw [hlocated]
    exact hcons (.acking, message) _ rfl (fun _ => rfl) h.logged
  | nack =>
    rw [QueueCallKind.tokens, zero_add] at h
    exact ⟨h.writer, h.ordered, h.logged, h.known⟩

theorem not_allResolved_of_failed (h : s.Failed) : ¬ s.AllResolved := by
  obtain ⟨k, kind, message, err, hk⟩ := h
  exact fun hresolved => absurd (hresolved _ (mem_of_getElem? hk)) false_ne_true

theorem Waiting.not_allResolved (h : s.Waiting config) : ¬ s.AllResolved := by
  obtain ⟨k, kind, message, entry, hk, -⟩ := h
  exact fun hresolved => absurd (hresolved _ (mem_of_getElem? hk)) false_ne_true

theorem Waiting.finishCall (h : s.Waiting config) (hbalanced : s.Balanced)
    (hk : s.calls[k]? = some ⟨kind, message, .appending entry⟩) (now : ℕ) (fault : Option String) :
    (s.finishCall config k kind message entry now fault).Failed ∨
      (s.finishCall config k kind message entry now fault).Steady config := by
  obtain ⟨k', kind', message', entry', hk', hothers, hfits⟩ := h
  obtain rfl : k = k' := by
    by_contra hne
    exact absurd (hothers k _ hk hne) false_ne_true
  obtain ⟨rfl, rfl, rfl⟩ : kind = kind' ∧ message = message' ∧ entry = entry' := by
    have heq := hk.symm.trans hk'
    simpa using heq
  obtain ⟨hlt, -⟩ := List.getElem?_eq_some_iff.mp hk
  rw [QueueManager.finishCall]
  split
  · rename_i err _
    exact .inl ⟨k, kind, message, err, getElem?_set_self hlt⟩
  · rename_i wal _ hok
    obtain rfl : s.wal ++ [entry] = wal := by
      simp only [WALWriter.finishAppend] at hok
      split_ifs at hok
      cases fault with
      | none => exact congrArg Prod.fst (Except.ok.inj hok)
      | some => cases hok
    refine .inr ⟨?_, ?_⟩
    · have hcalls := (resume_frame { s with
        wal := s.wal ++ [entry], calls := s.calls.set k ⟨kind, message, .resolved⟩ }
        kind message now).2.1
      intro call hcall
      rw [hcalls] at hcall
      obtain ⟨j, hj⟩ := mem_iff_getElem?.mp hcall
      rw [getElem?_set] at hj
      split_ifs at hj with hjk
      · cases hj
        rfl
      · exact hothers j call hj (Ne.symm hjk)
    · have hwal := (resume_frame { s with
        wal := s.wal ++ [entry], calls := s.calls.set k ⟨kind, message, .resolved⟩ }
        kind message now).1
      rw [hwal]
      obtain ⟨hlocated, hagrees⟩ := hbalanced.resolveCall (s.wal ++ [entry]) hk
      exact LogFits.resume ⟨hfits.writer, hfits.ordered, hlocated ▸ hfits.logged, hfits.known⟩
        (hlocated ▸ hagrees)

/-! #### Calls that find no other call waiting -/

theorem Steady.of_relabels (h : s.Steady config) (hrelabels : s.Relabels s')
    (hlog : (s'.walWriter, s'.wal, s'.calls, s'.enqueued) =
      (s.walWriter, s.wal, s.calls, s.enqueued)) : s'.Steady config := by
  simp only [Prod.mk.injEq] at hlog
  obtain ⟨hwriter, hwal, hcalls, henqueued⟩ := hlog
  refine ⟨fun call hcall => h.1 call (hcalls ▸ hcall), hwriter ▸ hwal ▸ h.2.writer,
    hwal ▸ h.2.ordered, hwal ▸ h.2.logged.of_relabels hrelabels, ?_⟩
  rw [hwal, henqueued]
  exact h.2.known

theorem Balanced.id_mem (h : s.Balanced) {token : Token} (htoken : token ∈ s.located) :
    token.2.id ∈ s.enqueued.map QueueMessage.id :=
  List.mem_map.mpr ⟨token.2.origin, h.accounts.origin_mem htoken, rfl⟩

section

variable (h : s.Steady config)

include h

section

variable (hbalanced : s.Balanced)

include hbalanced

theorem Steady.enqueue
    (hnew : message.id ∉ s.enqueued.map QueueMessage.id) (hattempts : message.attempts = 0)
    (now : ℕ) : (s.enqueue config message now).Waiting config := by
  refine LogFits.awaitAppend
    (.enqueuing, message) ⟨h.2.writer, h.2.ordered, h.2.logged, fun entry hentry => ?_⟩ h.1
    (singleton_add _ _) (fun token htoken heq => hnew (heq ▸ hbalanced.id_mem htoken))
    (if_pos hattempts).symm ?_
  · rw [map_append]
    exact mem_append_left _ (h.2.known entry hentry)
  · rw [map_append]
    exact List.mem_append_right _ (List.mem_singleton.mpr rfl)

theorem Steady.settle (hsettles : s.Settles config s') : s'.Steady config ∨ s'.Waiting config := by
  cases hsettles with
  | unknown => exact .inl h
  | @moved messageId message kind t hget new hmoved now =>
    have hframe := hmoved.frame
    simp only [Prod.mk.injEq] at hframe
    obtain ⟨hwriter, hwal, hcalls, henqueued, -⟩ := hframe
    have hid : new.2.origin.id = message.origin.id :=
      congrArg QueueMessage.id hmoved.moves.origin_eq
    replace hid : new.2.id = message.id := hid
    have hsplit := located_removeFromProcessing hget
    have haccounts := hbalanced.accounts
    rw [hsplit] at haccounts
    refine .inr (LogFits.awaitAppend new ⟨?_, hwal ▸ h.2.ordered, fun token htoken => ?_, ?_⟩
      (fun call hcall => h.1 call (hcalls ▸ hcall)) hmoved.tokens
      (fun token htoken => hid ▸ haccounts.id_ne htoken) rfl ?_)
    · rw [hwriter, hwal]
      exact h.2.writer
    · rw [hwal]
      exact h.2.logged token (hsplit ▸ mem_cons_of_mem htoken)
    · rw [hwal, henqueued]
      exact h.2.known
    · rw [henqueued, hid]
      have hmem : (Place.processing, message) ∈ s.located := hsplit ▸ mem_cons_self _ _
      exact hbalanced.id_mem hmem

theorem Steady.step {ev : QueueEvent}
    (hstep : s.step config ev = some s') : s'.Steady config ∨ s'.Waiting config := by
  cases step_cases hstep with
  | settled same settles =>
    exact (h.of_relabels (relabels_of_located same.located) same.log).settle
      (hbalanced.of_same same) settles
  | enqueued fresh origin _ now =>
    exact .inr (h.enqueue hbalanced fresh (congrArg QueueMessage.attempts origin.symm) now)
  | dispatched queue now =>
    exact .inl (h.of_relabels (hbalanced.dispatchToConsumers now).2
      (dispatchToConsumers_frame s queue now))
  | purged queue =>
    exact .inl (h.of_relabels (relabels_purgeQueue s queue) (purgeQueue_frame s queue))
  | finished call => exact absurd (h.1 _ (mem_of_getElem? call)) false_ne_true

end

end

theorem Failed.finishCall (h : s.Failed)
    (hk : s.calls[k]? = some ⟨kind, message, .appending entry⟩) (now : ℕ) (fault : Option String) :
    (s.finishCall config k kind message entry now fault).Failed := by
  obtain ⟨j, kind', message', err, hj⟩ := h
  have hne : k ≠ j := by
    rintro rfl
    rw [hk] at hj
    cases hj
  have hset : ∀ new : QueueCall, (s.calls.set k new)[j]? =
      some ⟨kind', message', .rejected err⟩ := fun new => by
    rw [getElem?_set_ne hne, hj]
  rw [QueueManager.finishCall]
  split
  · exact ⟨j, kind', message', err, hset _⟩
  · refine ⟨j, kind', message', err, ?_⟩
    rw [(resume_frame _ kind message now).2.1]
    exact hset _

theorem enqueued_awaitAppend (s : QueueManager) (kind : QueueCallKind)
    (message : QueueMessage) (update : EntityUpdate String Json) (now : ℕ) :
    (s.awaitAppend config kind message update now).enqueued = s.enqueued := by
  rw [awaitAppend]
  split
  · exact (resume_frame _ kind message now).2.2.1
  · rfl

theorem mem_enqueued_of_step {ev : QueueEvent} (hstep : s.step config ev = some s')
    (hmessage : message ∈ s'.enqueued) :
    message ∈ s.enqueued ∨ message.maxAttempts = config.defaultMaxAttempts := by
  have hsame : s'.enqueued = s.enqueued → message ∈ s.enqueued := fun heq => heq ▸ hmessage
  cases step_cases hstep with
  | settled same settles =>
    refine .inl (hsame (Eq.trans ?_ (congrArg (·.2.2.2) same.log)))
    cases settles with
    | unknown => rfl
    | moved _ _ hmoved =>
      exact (enqueued_awaitAppend _ _ _ _ _).trans (congrArg (·.2.2.2.1) hmoved.frame)
  | enqueued _ _ limit =>
    rw [enqueue, enqueued_awaitAppend, mem_append] at hmessage
    refine hmessage.imp id fun hnew => ?_
    rw [List.mem_singleton.mp hnew, limit]
  | dispatched queue now =>
    exact .inl (hsame (congrArg (·.2.2.2) (dispatchToConsumers_frame s queue now)))
  | purged queue => exact .inl (hsame (congrArg (·.2.2.2) (purgeQueue_frame s queue)))
  | finished =>
    refine .inl (hsame ?_)
    rw [finishCall]
    split
    · rfl
    · exact (resume_frame _ _ _ _).2.2.1

/-- **A step of a sequential history keeps the log fitting.** -/
theorem Traced.step (h : s.Traced config) {ev : QueueEvent} (hseq : s.Sequential ev)
    (hstep : s.step config ev = some s') : s'.Traced config := by
  refine ⟨h.balanced.step ev hstep, fun message hmessage => ?_, ?_⟩
  · obtain hold | hnew := mem_enqueued_of_step hstep hmessage
    · exact h.limits message hold
    · exact hnew
  · obtain hsteady | hnot : s.Steady config ∨ ¬ s.AllResolved := by
      obtain hfailed | hsteady | hwaiting := h.log
      · exact .inr (not_allResolved_of_failed hfailed)
      · exact .inl hsteady
      · exact .inr hwaiting.not_allResolved
    · exact .inr (hsteady.step h.balanced hstep)
    · obtain ⟨k, now, fault, rfl⟩ : ∃ k now fault, ev = .appended k now fault := by
        cases ev with
        | appended k now fault => exact ⟨k, now, fault, rfl⟩
        | _ => exact absurd (hseq.resolve_left hnot) false_ne_true
      rw [QueueManager.step] at hstep
      split at hstep
      · rename_i kind message entry hk
        cases hstep
        obtain hfailed | hsteady | hwaiting := h.log
        · exact .inl (hfailed.finishCall hk now fault)
        · exact absurd hsteady.1 hnot
        · exact (hwaiting.finishCall h.balanced hk now fault).imp_right .inl
      · cases hstep

theorem traced_started (hpersist : config.enablePersistence = true) :
    (started config).Traced config where
  balanced := balanced_started config
  limits := by rintro _ ⟨⟩
  log := by
    refine .inr (.inl ⟨by rintro _ ⟨⟩, ⟨_, if_pos hpersist, by rintro _ ⟨⟩⟩,
      WALFile.ordered_nil, ?_, by rintro _ ⟨⟩⟩)
    exact fun token htoken => absurd htoken (notMem_zero _)

/-- **After a sequential history** in which all calls have resolved, the log tells the places of
the messages. -/
theorem traced_of_run (hpersist : config.enablePersistence = true) {events : List QueueEvent}
    (hrun : exec (step config) (started config) events = some s)
    (hseq : AllSteps (step config) Sequential (started config) events) : s.Traced config :=
  exec_invariant (fun _ _ _ h hseq hstep => h.step hseq hstep) (traced_started hpersist) hseq hrun

theorem Traced.logFits (h : s.Traced config) (hresolved : s.AllResolved) :
    s.LogFits config s.wal s.located := by
  obtain hfailed | hsteady | hwaiting := h.log
  · exact absurd hresolved (not_allResolved_of_failed hfailed)
  · exact hsteady.2
  · exact absurd hresolved hwaiting.not_allResolved

end QueueManager

end DistributedCore.Gateway
