import DistributedCore.Gateway.QueueLog

/-!
# Recovery of the queues from the log

A manager that is initialised on a log rebuilds its queues from the last entry of every message.
What it finds there depends on the kind of the entry: an entry of `enqueue` holds the queue, the
payload and the limit, unless the caller's metadata replaced them; an entry of `nack` for a message
that waits again holds everything; an entry of `nack` for a dead letter holds no payload.

Source: `src/gateway/queue/DurableQueueManager.ts`.
-/

namespace DistributedCore.Gateway

open Entity Persistence Json Multiset OrderedMap
open Option hiding map map_coe map_id' map_map

/-! ### Rebuilding -/

/-- A message as the log gives it back. -/
structure RestoredMessage where
  id : String
  queue : Json
  payload : Option Json
  enqueuedAt : ℕ
  attempts : Json
  maxAttempts : Json
  status : QueueMessageStatus
  visibleAfter : Json
  metadata : Metadata Json

def orDefault (value : Option Json) (default : Json) : Json :=
  match value with
  | none => default
  | some v => if v.truthy then v else default

variable (config : DurableQueueConfig)

def restoredMessage (messageId : String) (entry : WALEntry String Json) : Option RestoredMessage :=
  let metadata := entry.data.metadata.getD .empty
  let zero : Json := .number (.ofNat 0)
  let maxAttempts :=
    orDefault (metadata.get "maxAttempts") (.number (.ofInt config.defaultMaxAttempts))
  match metadata.get "queue" with
  | none => none
  | some queue =>
    if !queue.truthy then none
    else
      match entry.data.operation with
      | .delete | .transfer => none
      | .update =>
        if metadata.get "status" = some (.string QueueMessageStatus.deadLetter.text) then
          some ⟨messageId, queue, metadata.get "payload", entry.timestamp,
            orDefault (metadata.get "attempts") zero, maxAttempts, .deadLetter, zero, metadata⟩
        else if metadata.get "status" = some (.string QueueMessageStatus.pending.text) then
          some ⟨messageId, queue, metadata.get "payload", entry.timestamp,
            orDefault (metadata.get "attempts") zero, maxAttempts, .pending,
            orDefault (metadata.get "visibleAfter") zero, metadata⟩
        else none
      | .create =>
        some ⟨messageId, queue, metadata.get "payload", entry.timestamp, zero, maxAttempts,
          .pending, zero, metadata⟩

/-- The queues that a restart builds. -/
structure RebuiltQueues where
  queues : OrderedMap Json (List RestoredMessage)
  deadLetters : OrderedMap Json (List RestoredMessage)
  stats : OrderedMap Json QueueStats

namespace RebuiltQueues

def empty : RebuiltQueues := ⟨.empty, .empty, .empty⟩

def updateStats (r : RebuiltQueues) (queue : Json) (f : QueueStats → QueueStats) : RebuiltQueues :=
  { r with stats := r.stats.set queue (f ((r.stats.get queue).getD .zero)) }

def restore (config : DurableQueueConfig) (r : RebuiltQueues)
    (state : String × WALEntry String Json) : RebuiltQueues :=
  let queue := (state.2.data.metadata.getD .empty).get "queue"
  match restoredMessage config state.1 state.2 with
  | none =>
    match queue with
    | some queue =>
      if queue.truthy && state.2.data.operation = .delete then
        r.updateStats queue fun stats =>
          { stats with
            totalAcked := stats.totalAcked + 1
            totalEnqueued := stats.totalEnqueued + 1
            completed := stats.completed + 1 }
      else r
    | none => r
  | some message =>
    if message.status = .deadLetter then
      { r with
        deadLetters := r.deadLetters.set message.queue
          ((r.deadLetters.get message.queue).getD [] ++ [message]) }.updateStats message.queue
        fun stats =>
          { stats with
            deadLetter := stats.deadLetter + 1
            totalEnqueued := stats.totalEnqueued + 1 }
    else
      { r with
        queues := r.queues.set message.queue
          ((r.queues.get message.queue).getD [] ++ [message]) }.updateStats message.queue
        fun stats =>
          { stats with
            pending := stats.pending + 1
            totalEnqueued := stats.totalEnqueued + 1 }

end RebuiltQueues

variable (file : WALFile String Json)

def messageStates : OrderedMap String (WALEntry String Json) :=
  (file.readAll config.walConfig).foldl (fun m entry => m.set entry.data.entityId entry) .empty

def rebuildFromWAL : RebuiltQueues :=
  (messageStates config file).entries.foldl (RebuiltQueues.restore config) .empty

/-! ### What is compared -/

@[ext] structure MessageView where
  id : String
  queue : Json
  payload : Option Json
  attempts : Json
  maxAttempts : Json
  status : QueueMessageStatus

def RestoredMessage.view (message : RestoredMessage) : MessageView :=
  ⟨message.id, message.queue, message.payload, message.attempts, message.maxAttempts,
    message.status⟩

def QueueMessage.view (status : QueueMessageStatus) (message : QueueMessage) : MessageView :=
  ⟨message.id, .string message.queue, some message.payload, .number (.ofNat message.attempts),
    .number (.ofInt message.maxAttempts), status⟩

namespace RebuiltQueues

def views (r : RebuiltQueues) (queue : Json) : List MessageView :=
  ((r.queues.get queue).getD [] ++ (r.deadLetters.get queue).getD []).map RestoredMessage.view

def messages (r : RebuiltQueues) : List RestoredMessage :=
  r.queues.values.flatten ++ r.deadLetters.values.flatten

end RebuiltQueues

namespace QueueManager

def heldViews (s : QueueManager) (queue : String) : List MessageView :=
  (s.pendingMessages queue ++ s.processing.values.filter fun message => message.queue = queue).map
      (QueueMessage.view .pending) ++
    (s.getDeadLetterMessages queue).map (QueueMessage.view .deadLetter)

/-- The new manager holds the messages of the old one, and no others that are acknowledged or
purged. -/
structure Recovers (s : QueueManager) (r : RebuiltQueues) : Prop where
  same : ∀ queue : String, (r.views (.string queue)).Perm (s.heldViews queue)
  gone : ∀ message ∈ s.acked ++ s.purged, ∀ restored ∈ r.messages, restored.id ≠ message.id

end QueueManager

variable (message : QueueMessage) {v : MessageView} {token : Token} {messageId : String}

/-- The message is in a queue with a name, and its entry is not changed by the metadata that it was
enqueued with: the metadata replaces no field by another value. (A limit that counts as false is
replaced by the default.) A message that was refused has an entry of its own. -/
def QueueMessage.Intact : Prop :=
  message.queue ≠ "" ∧ (message.attempts = 0 →
    ((message.metadata.getD .empty).get "queue").all (fun v => v = .string message.queue) ∧
    ((message.metadata.getD .empty).get "payload").all (fun v => v = message.payload) ∧
    ((message.metadata.getD .empty).get "maxAttempts").all fun v =>
      !v.truthy || v = .number (.ofInt config.defaultMaxAttempts))

/-- A restart reads no queue for the message, and drops it. -/
def QueueMessage.Unnamed : Prop :=
  if message.attempts = 0 then
    (((message.metadata.getD .empty).get "queue").getD (.string message.queue)).truthy = false
  else message.queue = ""

instance QueueMessage.decidableIntact : Decidable (message.Intact config) :=
  inferInstanceAs (Decidable (_ ≠ _ ∧ (_ = _ → _ ∧ _ ∧ _)))

instance QueueMessage.decidableUnnamed : Decidable message.Unnamed :=
  inferInstanceAs (Decidable (if _ = _ then _ = _ else _ = _))

/-- A restart finds the messages as they were. -/
structure QueueManager.Recoverable (config : DurableQueueConfig) (s : QueueManager) : Prop where
  noDeadLetter : s.deadLetters.values.flatten = []
  intact : ∀ message ∈ s.queues.values.flatten ++ s.processing.values, message.Intact config
  unnamed : ∀ message ∈ s.purged, message.Unnamed

/-! ### The rebuilt queues -/

def restoredMessages : List RestoredMessage :=
  (messageStates config file).entries.filterMap fun state => restoredMessage config state.1 state.2

section Rebuilt

variable {config : DurableQueueConfig} {file : WALFile String Json} {key : Json}

def RebuiltQueues.kept (r : RebuiltQueues) (dead : Bool) (key : Json) : List RestoredMessage :=
  ((if dead then r.deadLetters else r.queues).get key).getD []

theorem RebuiltQueues.kept_restore (r : RebuiltQueues) (state : String × WALEntry String Json)
    (dead : Bool) :
    (r.restore config state).kept dead key = r.kept dead key ++
      (restoredMessage config state.1 state.2).toList.filter
        fun m => (decide (m.status = .deadLetter) = dead) ∧ m.queue = key := by
  cases hmessage : restoredMessage config state.1 state.2 with
  | none =>
    have hsame : (r.restore config state).queues = r.queues ∧
        (r.restore config state).deadLetters = r.deadLetters := by
      simp only [RebuiltQueues.restore, hmessage]
      split
      · split_ifs <;> exact ⟨rfl, rfl⟩
      · exact ⟨rfl, rfl⟩
    simp [kept, hsame]
  | some message =>
    simp only [kept, RebuiltQueues.restore, hmessage, toList_some]
    by_cases hkey : message.queue = key
    · subst hkey
      by_cases hdead : message.status = .deadLetter <;> cases dead <;>
        simp [RebuiltQueues.updateStats, hdead]
    · by_cases hdead : message.status = .deadLetter <;> cases dead <;>
        simp [RebuiltQueues.updateStats, get_set_of_ne _ _ (Ne.symm hkey), hkey, hdead]

theorem RebuiltQueues.kept_foldl_restore (dead : Bool) :
    (states : List (String × WALEntry String Json)) → (r : RebuiltQueues) →
      (states.foldl (restore config) r).kept dead key = r.kept dead key ++
        (states.filterMap fun state => restoredMessage config state.1 state.2).filter
          fun m => (decide (m.status = .deadLetter) = dead) ∧ m.queue = key
  | [], r => by simp
  | state :: states, r => by
    rw [List.foldl_cons, kept_foldl_restore dead states, kept_restore, List.append_assoc,
      ← List.filter_append, List.filterMap_cons]
    cases restoredMessage config state.1 state.2 <;> rfl

theorem kept_rebuildFromWAL (config : DurableQueueConfig) (file : WALFile String Json)
    (dead : Bool) (key : Json) :
    (rebuildFromWAL config file).kept dead key = (restoredMessages config file).filter
      fun m => (decide (m.status = .deadLetter) = dead) ∧ m.queue = key := by
  cases dead <;> exact RebuiltQueues.kept_foldl_restore _ (messageStates config file).entries .empty

theorem views_rebuildFromWAL (config : DurableQueueConfig) (file : WALFile String Json)
    (key : Json) :
    ((rebuildFromWAL config file).views key).Perm
      (((restoredMessages config file).map RestoredMessage.view).filter fun v =>
        v.queue = key) := by
  change (((rebuildFromWAL config file).kept false key ++
    (rebuildFromWAL config file).kept true key).map RestoredMessage.view).Perm _
  rw [kept_rebuildFromWAL, kept_rebuildFromWAL, List.filter_map]
  refine List.Perm.map _ ?_
  have hsplit := List.filter_append_perm (fun m : RestoredMessage => m.status ≠ .deadLetter)
    ((restoredMessages config file).filter fun m => m.queue = key)
  change List.Perm _ ((restoredMessages config file).filter fun m => m.queue = key)
  simpa using hsplit

theorem mem_messages_rebuildFromWAL {message : RestoredMessage} :
    message ∈ (rebuildFromWAL config file).messages ↔ message ∈ restoredMessages config file := by
  have hflatten : ∀ m : OrderedMap Json (List RestoredMessage), message ∈ m.values.flatten ↔
      ∃ key, message ∈ (m.get key).getD [] := by
    intro m
    rw [List.mem_flatten]
    constructor
    · rintro ⟨l, hl, hmem⟩
      obtain ⟨key, hkey⟩ := (m.mem_values_iff l).mp hl
      exact ⟨key, by rwa [hkey]⟩
    · rintro ⟨key, hmem⟩
      cases hget : m.get key with
      | none =>
        rw [hget] at hmem
        cases hmem
      | some l =>
        rw [hget] at hmem
        exact ⟨l, (m.mem_values_iff l).mpr ⟨key, hget⟩, hmem⟩
  rw [RebuiltQueues.messages, List.mem_append, hflatten, hflatten]
  change (∃ key, message ∈ (rebuildFromWAL config file).kept false key) ∨
    (∃ key, message ∈ (rebuildFromWAL config file).kept true key) ↔ _
  by_cases hdead : message.status = .deadLetter <;> simp [kept_rebuildFromWAL, hdead]

end Rebuilt

/-! ### What the log says about a message -/

def restoredView (data : EntityUpdate String Json) : Option MessageView :=
  (restoredMessage config data.entityId ⟨0, 0, data, ""⟩).map RestoredMessage.view

def heldView : Token → Option MessageView
  | (.pending, message) | (.processing, message) => some (message.view .pending)
  | (.dead, message) => some (message.view .deadLetter)
  | (.enqueuing, _) | (.acking, _) | (.acked, _) | (.purged, _) => none

section Views

variable {config : DurableQueueConfig} {message : QueueMessage} {time : ℕ}

theorem map_view_restoredMessage (entry : WALEntry String Json) :
    (restoredMessage config entry.data.entityId entry).map RestoredMessage.view =
      restoredView config entry.data := by
  simp only [restoredView, restoredMessage]
  split
  · rfl
  · cases entry.data.operation with
    | update => split_ifs <;> rfl
    | create | delete | transfer => split_ifs <;> rfl

theorem restoredView_createUpdate : restoredView config (createUpdate config message time) =
      if (((message.metadata.getD .empty).get "queue").getD (.string message.queue)).truthy then
        some ⟨message.id, ((message.metadata.getD .empty).get "queue").getD (.string message.queue),
          some (((message.metadata.getD .empty).get "payload").getD message.payload),
          .number (.ofNat 0),
          orDefault (some (((message.metadata.getD .empty).get "maxAttempts").getD
              (.number (.ofInt message.maxAttempts))))
            (.number (.ofInt config.defaultMaxAttempts)), .pending⟩
      else none := by
  have hget : ∀ (key : String) (v : Json), (((OrderedMap.empty.set "queue"
      (.string message.queue)).set "payload" message.payload).set "maxAttempts"
        (.number (.ofInt message.maxAttempts)) : Metadata Json).get key = some v →
      ((createUpdate config message time).metadata.getD .empty).get key =
        some (((message.metadata.getD .empty).get key).getD v) := by
    intro key v hv
    change (spread _ _).get key = _
    rw [get_spread, hv]
    cases (message.metadata.getD .empty).get key <;> rfl
  simp only [restoredView, restoredMessage, hget "queue" (.string message.queue) rfl,
    hget "payload" message.payload rfl,
    hget "maxAttempts" (.number (.ofInt message.maxAttempts)) rfl]
  cases (((message.metadata.getD .empty).get "queue").getD (.string message.queue)).truthy <;> rfl

/-- A message is restored unless the name of its queue is empty. -/
theorem map_ite_queue {B G : Type} (f : B → G) (queue : String) (x : Option B) :
    (if (!(string queue).truthy) = true then none else x).map f =
      if queue ≠ "" then x.map f else none := by
  by_cases hqueue : queue = "" <;> simp [truthy, hqueue]

theorem restoredView_requeueUpdate :
    restoredView config (requeueUpdate config message time) = if message.queue ≠ "" then
        some ⟨message.id, .string message.queue, some message.payload,
          orDefault (some (.number (.ofNat message.attempts))) (.number (.ofNat 0)),
          orDefault (some (.number (.ofInt message.maxAttempts)))
            (.number (.ofInt config.defaultMaxAttempts)), .pending⟩
      else none :=
  map_ite_queue RestoredMessage.view message.queue (some _)

theorem restoredView_deleteUpdate :
    restoredView config (deleteUpdate config message time) = none := by
  change Option.map _ (if (!(string message.queue).truthy) = true then none else none) = none
  rw [ite_self]
  rfl

theorem orDefault_self (v : Json) : orDefault (some v) v = v := ite_self v

theorem orDefault_ofNat (n : ℕ) :
    orDefault (some (.number (.ofNat n))) (.number (.ofNat 0)) = .number (.ofNat n) := by
  by_cases hzero : (JsonNumber.ofNat n).isZero = true
  · rw [JsonNumber.eq_zero_of_isZero_ofNat hzero, orDefault_self]
  · exact if_pos (by simpa [truthy] using hzero)

theorem restoredView_waiting_iff (hlimit : message.maxAttempts = config.defaultMaxAttempts) :
    restoredView config (Place.pending.update config message time) =
      some (message.view .pending) ↔ message.Intact config := by
  rw [Place.update, QueueMessage.Intact, QueueMessage.view]
  split_ifs with hattempts
  · rw [restoredView_createUpdate, hattempts, hlimit]
    generalize message.metadata.getD .empty = user
    have hqueue : ((user.get "queue").getD (.string message.queue)).truthy = true ∧
        (user.get "queue").getD (.string message.queue) = .string message.queue ↔
        message.queue ≠ "" ∧ (user.get "queue").all (fun v => v = .string message.queue) := by
      cases user.get "queue" with
      | none => simp [truthy]
      | some =>
        simp only [getD_some, all_some, decide_eq_true_eq]
        refine and_congr_left fun hv => ?_
        simp [hv, truthy]
    have hpayload : some ((user.get "payload").getD message.payload) = some message.payload ↔
        (user.get "payload").all (fun v => v = message.payload) := by
      cases user.get "payload" <;> simp
    have hmax : orDefault (some ((user.get "maxAttempts").getD
          (.number (.ofInt config.defaultMaxAttempts))))
          (.number (.ofInt config.defaultMaxAttempts)) =
          .number (.ofInt config.defaultMaxAttempts) ↔
        (user.get "maxAttempts").all fun v =>
          !v.truthy || v = .number (.ofInt config.defaultMaxAttempts) := by
      cases user.get "maxAttempts" with
      | none => simp [orDefault_self]
      | some v =>
        rw [getD_some, orDefault]
        cases hv : v.truthy <;> simp [hv]
    rw [ite_none_right_eq_some, some.injEq, MessageView.mk.injEq, hpayload, hmax]
    simp only [true_and, and_true, forall_const]
    rw [← and_assoc, hqueue, and_assoc]
  · rw [restoredView_requeueUpdate, orDefault_ofNat, hlimit, orDefault_self, ite_none_right_eq_some]
    simp [hattempts]

theorem restoredView_purged_iff :
    restoredView config (Place.purged.update config message time) = none ↔ message.Unnamed := by
  rw [Place.update, QueueMessage.Unnamed]
  split_ifs with _
  · rw [restoredView_createUpdate]
    simp
  · rw [restoredView_requeueUpdate]
    simp

theorem restoredView_dead_ne : restoredView config (Place.dead.update config message time) ≠
      some (message.view .deadLetter) := by
  rw [Place.update, show restoredView _ (deadLetterUpdate ..) = _ from
    map_ite_queue RestoredMessage.view message.queue (some _)]
  split_ifs <;> intro h <;> cases congrArg (·.bind MessageView.payload) h

def tokenView (config : DurableQueueConfig) (token : Token) : Option MessageView :=
  restoredView config (token.1.update config token.2 0)

theorem restoredView_update (token : Token) (time : ℕ) :
    restoredView config (token.1.update config token.2 time) = tokenView config token := by
  obtain ⟨place, message⟩ := token
  cases place <;> simp only [tokenView, Place.update] <;> (try split_ifs) <;> rfl

theorem restoredMessage_id {entry : WALEntry String Json}
    {restored : RestoredMessage} (h : restoredMessage config messageId entry = some restored) :
    restored.id = messageId := by
  simp only [restoredMessage] at h
  split at h
  · cases h
  · cases hop : entry.data.operation with
    | update =>
      rw [hop] at h
      split_ifs at h <;> (obtain rfl := some.inj h; rfl)
    | create =>
      rw [hop] at h
      dsimp only at h
      split_ifs at h
      cases h
      rfl
    | delete | transfer =>
      rw [hop] at h
      dsimp only at h
      split_ifs at h

theorem id_of_tokenView (h : tokenView config token = some v) : v.id = token.2.id := by
  obtain ⟨restored, hrestored, rfl⟩ := map_eq_some_iff.mp h
  rw [← Place.entityId_update config token.2 0 token.1]
  exact restoredMessage_id hrestored

theorem id_of_heldView (h : heldView token = some v) :
    v.id = token.2.id ∧ v.queue = .string token.2.queue := by
  obtain ⟨place, message⟩ := token
  cases place with
  | pending | processing | dead =>
    cases h
    exact ⟨rfl, rfl⟩
  | enqueuing | acking | acked | purged => cases h

end Views

/-! ### The messages of a new manager -/

theorem get_messageStates {config : DurableQueueConfig} {file : WALFile String Json}
    (h : file.Ordered config.walConfig) (messageId : String) :
    (messageStates config file).get messageId = lastEntry file messageId := by
  rw [messageStates, h.readAll_eq,
    get_foldl_set (fun entry : WALEntry String Json => entry.data.entityId)
      (fun entry => entry), get_empty, or_none, Option.map_id', lastEntry]

theorem nodup_restoredMessages : ((restoredMessages config file).map RestoredMessage.id).Nodup := by
  rw [List.Nodup, List.pairwise_map, restoredMessages, List.pairwise_filterMap]
  have hkeys := (messageStates config file).nodup_keys
  rw [List.Nodup, List.pairwise_map] at hkeys
  refine hkeys.imp fun _ restored hrestored other hother => ?_
  rwa [restoredMessage_id hrestored, restoredMessage_id hother]

namespace QueueManager

section Recovery

variable {config : DurableQueueConfig} {s : QueueManager}

theorem Balanced.nodup_ids (h : s.Balanced) : (s.located.map fun token => token.2.id).Nodup := by
  have hkeys := congrArg (map QueueMessage.id) h.accounts.audited.keys
  rw [map_map] at hkeys
  exact hkeys ▸ coe_nodup.mpr h.accounts.nodup

theorem Balanced.eq_of_id_eq (h : s.Balanced) {other : Token} (htoken : token ∈ s.located)
    (hother : other ∈ s.located) (hid : token.2.id = other.2.id) : token = other :=
  inj_on_of_nodup_map h.nodup_ids token htoken other hother hid

theorem Balanced.exists_of_id_mem (h : s.Balanced)
    (hid : messageId ∈ s.enqueued.map QueueMessage.id) :
    ∃ token ∈ s.located, token.2.id = messageId := by
  obtain ⟨message, hmessage, rfl⟩ := List.mem_map.mp hid
  obtain ⟨token, htoken, rfl⟩ := h.accounts.exists_origin_eq hmessage
  exact ⟨token, htoken, rfl⟩

theorem mem_views_restored (hbalanced : s.Balanced) (hfits : s.LogFits config s.wal s.located) :
    v ∈ (restoredMessages config s.wal).map RestoredMessage.view ↔
      ∃ token ∈ s.located, tokenView config token = some v := by
  have hview : ∀ {entry : WALEntry String Json} {token : Token} {time : ℕ},
      entry.data = token.1.update config token.2 time →
      (restoredMessage config token.2.id entry).map RestoredMessage.view =
        tokenView config token := by
    intro entry token time hentry
    rw [← restoredView_update token time, ← hentry, ← map_view_restoredMessage, hentry,
      Place.entityId_update]
  constructor
  · intro hv
    obtain ⟨restored, hrestored, rfl⟩ := List.mem_map.mp hv
    obtain ⟨⟨messageId, entry⟩, hstate, hmessage⟩ := List.mem_filterMap.mp hrestored
    have hlast := (mem_entries_iff _ _ _).mp hstate
    rw [get_messageStates hfits.ordered] at hlast
    have hmem := List.mem_filter.mp (List.mem_of_getLast? hlast)
    have hid : entry.data.entityId = messageId := by simpa using hmem.2
    obtain ⟨token, htoken, rfl⟩ := hbalanced.exists_of_id_mem (hid ▸ hfits.known entry hmem.1)
    obtain ⟨time, htime⟩ := hfits.logged token htoken
    rw [hlast] at htime
    exact ⟨token, htoken, by rw [← hview (some.inj htime), hmessage]; rfl⟩
  · rintro ⟨token, htoken, hv⟩
    obtain ⟨time, htime⟩ := hfits.logged token htoken
    obtain ⟨entry, hlast, hentry⟩ := map_eq_some_iff.mp htime
    rw [← hview hentry] at hv
    obtain ⟨restored, hrestored, rfl⟩ := map_eq_some_iff.mp hv
    refine List.mem_map.mpr ⟨restored, List.mem_filterMap.mpr ⟨(token.2.id, entry), ?_, hrestored⟩,
      rfl⟩
    rw [mem_entries_iff, get_messageStates hfits.ordered, hlast]

theorem AllResolved.forall_located_iff (h : s.AllResolved) {P : Token → Prop} :
    (∀ token ∈ s.located, P token) ↔ (∀ message ∈ s.queues.values.flatten, P (.pending, message)) ∧
      (∀ message ∈ s.processing.values, P (.processing, message)) ∧
      (∀ message ∈ s.deadLetters.values.flatten, P (.dead, message)) ∧
      (∀ message ∈ s.acked, P (.acked, message)) ∧ ∀ message ∈ s.purged, P (.purged, message) := by
  have hat : ∀ place messages, (∀ token ∈ tokensAt place messages, P token) ↔
      ∀ message ∈ messages, P (place, message) := by
    simp [tokensAt]
  rw [h.located_eq]
  simp only [mem_add, or_imp, forall_and, hat, and_assoc]

theorem AllResolved.forall_gone_iff (h : s.AllResolved) {P : QueueMessage → Prop} :
    (∀ message ∈ s.acked ++ s.purged, P message) ↔
      ∀ token ∈ s.located, heldView token = none → P token.2 := by
  rw [h.forall_located_iff, List.forall_mem_append]
  simp [heldView]

theorem heldViews_eq (hbalanced : s.Balanced) (hresolved : s.AllResolved) (queue : String) :
    (s.heldViews queue : Multiset MessageView) =
      (s.located.filter fun token => token.2.queue = queue).filterMap heldView := by
  have hat : ∀ place messages, ((tokensAt place messages).filter fun token =>
      token.2.queue = queue).filterMap heldView =
      ((messages.filter fun message => message.queue = queue).filterMap fun message =>
        heldView (place, message) : List MessageView) := by
    intro place messages
    rw [tokensAt, filter_coe, filterMap_coe, List.filter_map, List.filterMap_map]
    rfl
  rw [hresolved.located_eq, heldViews, pendingMessages, getDeadLetterMessages,
    ← s.queues.filter_flatten_values QueueMessage.queue queue hbalanced.queues,
    ← s.deadLetters.filter_flatten_values QueueMessage.queue queue hbalanced.deadLetters]
  simp [hat, heldView]

theorem nodup_heldViews (hbalanced : s.Balanced) (hresolved : s.AllResolved) (queue : String) :
    (s.heldViews queue).Nodup := by
  have hids := nodup_of_le (map_le_map (filter_le (fun token : Token => token.2.queue = queue) _))
    hbalanced.nodup_ids
  obtain ⟨l, hl⟩ := Quotient.exists_rep (s.located.filter fun token => token.2.queue = queue)
  rw [← hl, quot_mk_to_coe, map_coe, coe_nodup, List.Nodup, List.pairwise_map] at hids
  rw [← coe_nodup, heldViews_eq hbalanced hresolved, ← hl, quot_mk_to_coe, filterMap_coe, coe_nodup,
    List.Nodup, List.pairwise_filterMap]
  refine hids.imp fun hne v hv w hw heq => hne ?_
  rw [← (id_of_heldView hv).1, ← (id_of_heldView hw).1, heq]

/-- The new manager holds the messages of the old one if the log says about every message what the
old one holds of it. -/
theorem recovers_iff_tokens (hbalanced : s.Balanced) (hresolved : s.AllResolved)
    (hfits : s.LogFits config s.wal s.located) :
    s.Recovers (rebuildFromWAL config s.wal) ↔
      ∀ token ∈ s.located, tokenView config token = heldView token := by
  have hviews : ∀ queue v, v ∈ (rebuildFromWAL config s.wal).views (.string queue) ↔
      (∃ token ∈ s.located, tokenView config token = some v) ∧ v.queue = .string queue := by
    intro queue v
    rw [(views_rebuildFromWAL config s.wal _).mem_iff, List.mem_filter, decide_eq_true_eq,
      mem_views_restored hbalanced hfits]
  have hheld : ∀ queue v, v ∈ s.heldViews queue ↔
      ∃ token ∈ s.located, token.2.queue = queue ∧ heldView token = some v := by
    intro queue v
    rw [← mem_coe, heldViews_eq hbalanced hresolved, mem_filterMap]
    simp [and_assoc]
  constructor
  · intro hrec token htoken
    cases hv : heldView token with
    | some v =>
      -- what is held of a message is restored, and of no other message
      have hmem := (hrec.same token.2.queue).mem_iff.mpr ((hheld _ v).mpr ⟨token, htoken, rfl, hv⟩)
      obtain ⟨⟨other, hother, hview⟩, -⟩ := (hviews _ v).mp hmem
      have hid : token.2.id = other.2.id := (id_of_heldView hv).1.symm.trans (id_of_tokenView hview)
      rwa [hbalanced.eq_of_id_eq htoken hother hid]
    | none =>
      by_contra hne
      obtain ⟨v, hview⟩ := ne_none_iff_exists'.mp hne
      obtain ⟨restored, hmem, rfl⟩ :=
        List.mem_map.mp ((mem_views_restored hbalanced hfits).mpr ⟨token, htoken, hview⟩)
      exact hresolved.forall_gone_iff.mp hrec.gone token htoken hv restored
        (mem_messages_rebuildFromWAL.mpr hmem) (id_of_tokenView hview)
  · intro htokens
    constructor
    · intro queue
      have hnodup : ((rebuildFromWAL config s.wal).views (.string queue)).Nodup := by
        refine (views_rebuildFromWAL config s.wal (.string queue)).nodup_iff.mpr (.filter _ ?_)
        refine List.Nodup.of_map MessageView.id ?_
        rw [List.map_map]
        exact nodup_restoredMessages config s.wal
      refine (List.perm_ext_iff_of_nodup hnodup
        (nodup_heldViews hbalanced hresolved queue)).mpr fun v => ?_
      rw [hviews, hheld]
      constructor
      · rintro ⟨⟨token, htoken, hview⟩, hqueue⟩
        rw [htokens token htoken] at hview
        exact ⟨token, htoken, string.inj ((id_of_heldView hview).2.symm.trans hqueue), hview⟩
      · rintro ⟨token, htoken, rfl, hview⟩
        exact ⟨⟨token, htoken, (htokens token htoken).trans hview⟩, (id_of_heldView hview).2⟩
    · refine hresolved.forall_gone_iff.mpr fun other hother hnone restored hrestored hid => ?_
      obtain ⟨token, htoken, hview⟩ := (mem_views_restored hbalanced hfits).mp
        (List.mem_map_of_mem (mem_messages_rebuildFromWAL.mp hrestored))
      have hid' : token.2.id = other.2.id := (id_of_tokenView hview).symm.trans hid
      rw [htokens token htoken, hbalanced.eq_of_id_eq htoken hother hid', hnone] at hview
      cases hview

/-- **The new manager holds the messages of the old one** exactly if there is no dead letter, the
messages that wait or are processed are intact, and the entries of the purged ones name no
queue. -/
theorem recovers_iff (config : DurableQueueConfig) (hpersist : config.enablePersistence = true)
    (events : List QueueEvent) (s : QueueManager)
    (hrun : exec (step config) (started config) events = some s)
    (hseq : AllSteps (step config) Sequential (started config) events)
    (hresolved : s.AllResolved) :
    s.Recovers (rebuildFromWAL config s.wal) ↔ s.Recoverable config := by
  have htraced := traced_of_run hpersist hrun hseq
  obtain ⟨hpending, hprocessing, -⟩ := (hresolved.forall_located_iff
    (P := fun token => token.2.maxAttempts = config.defaultMaxAttempts)).mp fun token htoken =>
      htraced.limits token.2.origin (htraced.balanced.accounts.origin_mem htoken)
  rw [recovers_iff_tokens htraced.balanced hresolved (htraced.logFits hresolved),
    hresolved.forall_located_iff]
  constructor
  · rintro ⟨hqueues, htasks, hdead, -, hpurged⟩
    refine ⟨List.eq_nil_iff_forall_not_mem.mpr fun m hm => restoredView_dead_ne (hdead m hm),
      List.forall_mem_append.mpr ⟨fun m hm => ?_, fun m hm => ?_⟩,
      fun m hm => restoredView_purged_iff.mp (hpurged m hm)⟩
    · exact (restoredView_waiting_iff (hpending m hm)).mp (hqueues m hm)
    · exact (restoredView_waiting_iff (hprocessing m hm)).mp (htasks m hm)
  · rintro ⟨hdead, hintact, hunnamed⟩
    obtain ⟨hqueues, htasks⟩ := List.forall_mem_append.mp hintact
    refine ⟨fun m hm => ?_, fun m hm => ?_, fun m hm => ?_, fun m _ => restoredView_deleteUpdate,
      fun m hm => restoredView_purged_iff.mpr (hunnamed m hm)⟩
    · exact (restoredView_waiting_iff (hpending m hm)).mpr (hqueues m hm)
    · exact (restoredView_waiting_iff (hprocessing m hm)).mpr (htasks m hm)
    · rw [hdead] at hm
      cases hm

end Recovery

/-! ### Two histories -/

def purgeEvents : List QueueEvent :=
  [.enqueue "q" .null none "a" 1, .appended 0 2 none, .purgeQueue "q"]

/-- A purged message comes back. -/
theorem purged_reappears : ¬ ∀ (config : DurableQueueConfig), config.enablePersistence = true →
      ∀ (events : List QueueEvent) (s : QueueManager),
        exec (step config) (started config) events = some s →
        AllSteps (step config) Sequential (started config) events → s.AllResolved →
        s.Recovers (rebuildFromWAL config s.wal) := by
  intro h
  have hrecovers := h sampleQueueConfig rfl purgeEvents _ rfl (by decide +kernel)
    (by decide +kernel)
  exact absurd hrecovers.gone (by decide +kernel)

/-- A message with metadata of its own is refused and waits again, a second one is acknowledged,
and a third one is processed. -/
def refusalEvents : List QueueEvent :=
  [.consume "q", .enqueue "q" (.string "p") (some (OrderedMap.empty.set "tag" (.bool true))) "a" 1,
    .appended 0 2 none, .nack "qmsg-1-a" none 3, .appended 1 4 none,
    .enqueue "q" .null none "b" 5, .appended 2 6 none, .ack "qmsg-5-b" 7, .appended 3 8 none,
    .enqueue "q" .null none "c" 9, .appended 4 10 none]

/-- The messages of `refusalEvents` are recovered. -/
theorem recovers_refusalEvents :
    ∃ s, exec (step sampleQueueConfig) (started sampleQueueConfig) refusalEvents = some s ∧
      (s.pendingMessages "q").map QueueMessage.id = ["qmsg-1-a"] ∧
      s.processing.keys = ["qmsg-9-c"] ∧ s.Recovers (rebuildFromWAL sampleQueueConfig s.wal) :=
  ⟨_, rfl, by decide +kernel, by decide +kernel,
    (recovers_iff sampleQueueConfig rfl refusalEvents _ rfl (by decide +kernel)
      (by decide +kernel)).mpr
      ⟨by decide +kernel, by decide +kernel, by decide +kernel⟩⟩

end QueueManager

end DistributedCore.Gateway
