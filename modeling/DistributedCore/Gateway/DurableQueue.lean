import DistributedCore.Library.Json
import DistributedCore.Library.Runs
import DistributedCore.Persistence.WriteAheadLog

/-!
# Durable queues

A queue manager keeps, for every queue, the messages that wait (`queues`), the messages that were
given to a consumer and are neither acknowledged nor refused (`processing`), and those that were
refused too often (`deadLetters`). Beside them it keeps counters (`stats`).

Source: `src/gateway/queue/DurableQueueManager.ts`, `src/gateway/queue/types.ts`.
-/

namespace DistributedCore.Gateway

open Entity Persistence

/-! ### Messages, consumers and settings -/

inductive QueueMessageStatus
  | pending
  | processing
  | completed
  | deadLetter
  deriving DecidableEq

def QueueMessageStatus.text : QueueMessageStatus → String
  | .pending => "pending"
  | .processing => "processing"
  | .completed => "completed"
  | .deadLetter => "dead-letter"

structure QueueMessage where
  id : String
  queue : String
  payload : Json
  enqueuedAt : ℕ
  attempts : ℕ
  maxAttempts : ℤ
  status : QueueMessageStatus
  visibleAfter : ℤ
  metadata : Option (Metadata Json)

structure QueueConsumer where
  id : String
  queue : String

structure QueueStats where
  pending : ℤ
  processing : ℤ
  completed : ℤ
  deadLetter : ℤ
  totalEnqueued : ℤ
  totalAcked : ℤ
  totalNacked : ℤ
  consumerCount : ℕ

def QueueStats.zero : QueueStats := ⟨0, 0, 0, 0, 0, 0, 0, 0⟩

def QueueStats.purge (stats : QueueStats) (purgedCount : ℕ) : QueueStats :=
  let pending := stats.pending - purgedCount
  { stats with pending := if pending < 0 then 0 else pending }

structure DurableQueueConfig where
  localNodeId : String
  enablePersistence : Bool := true
  defaultMaxAttempts : ℤ := 3
  visibilityTimeout : ℤ := 30000
  calculateChecksum : EntityUpdate String Json → String
  lineLength : WALEntry String Json → ℕ

def DurableQueueConfig.walConfig (config : DurableQueueConfig) : WALConfig String Json where
  maxFileSize := 100 * 1024 * 1024
  calculateChecksum := config.calculateChecksum
  lineLength := config.lineLength

/-! ### What is written to the log -/

section Updates

variable (config : DurableQueueConfig) (message : QueueMessage) (now : ℕ)

def createUpdate : EntityUpdate String Json where
  entityId := message.id
  ownerNodeId := some config.localNodeId
  version := 1
  timestamp := now
  operation := .create
  metadata := some <|
    (((OrderedMap.empty.set "queue" (.string message.queue)).set "payload" message.payload).set
      "maxAttempts" (.number (.ofInt message.maxAttempts))).spread (message.metadata.getD .empty)

def deleteUpdate : EntityUpdate String Json where
  entityId := message.id
  ownerNodeId := some config.localNodeId
  version := message.attempts + 1
  timestamp := now
  operation := .delete
  metadata := some (OrderedMap.empty.set "queue" (.string message.queue))

def deadLetterUpdate : EntityUpdate String Json where
  entityId := message.id
  ownerNodeId := some config.localNodeId
  version := message.attempts + 1
  timestamp := now
  operation := .update
  metadata := some <|
    ((OrderedMap.empty.set "queue" (.string message.queue)).set "status"
      (.string QueueMessageStatus.deadLetter.text)).set "attempts"
      (.number (.ofNat message.attempts))

def requeueUpdate : EntityUpdate String Json where
  entityId := message.id
  ownerNodeId := some config.localNodeId
  version := message.attempts + 1
  timestamp := now
  operation := .update
  metadata := some <|
    (((((OrderedMap.empty.set "queue" (.string message.queue)).set "status"
      (.string QueueMessageStatus.pending.text)).set "attempts"
      (.number (.ofNat message.attempts))).set "visibleAfter"
      (.number (.ofInt message.visibleAfter))).set "payload" message.payload).set "maxAttempts"
      (.number (.ofInt message.maxAttempts))

end Updates

/-! ### The manager -/

/-- The calls that wait for the log. -/
inductive QueueCallKind
  | enqueue
  | ack
  | nack
  deriving DecidableEq

inductive QueueCallStage
  | appending (entry : WALEntry String Json)
  | resolved
  | rejected (err : WALError)

def QueueCallStage.isResolved : QueueCallStage → Bool
  | .resolved => true
  | .appending _ | .rejected _ => false

/-- A call with the message it is about. -/
structure QueueCall where
  kind : QueueCallKind
  message : QueueMessage
  stage : QueueCallStage

/-- A handler that runs, with the message it was given. -/
structure HandlerCall where
  messageId : String
  consumerId : String
  running : Bool

/-- The fields of the manager; the log; all calls, in the order in which they were made; all calls
of handlers; and, to speak about what has happened, the messages of all calls of `enqueue`, the
messages whose `ack` has returned, and those that were purged. -/
structure QueueManager where
  queues : OrderedMap String (List QueueMessage)
  consumers : OrderedMap String (List QueueConsumer)
  processing : OrderedMap String QueueMessage
  deadLetters : OrderedMap String (List QueueMessage)
  walWriter : Option WALWriter
  pollTimers : List String
  visibilityTimers : List String
  stats : OrderedMap String QueueStats
  consumerIdCounter : ℕ
  roundRobinIndex : OrderedMap String ℕ
  wal : WALFile String Json
  calls : List QueueCall
  handlerCalls : List HandlerCall
  enqueued : List QueueMessage
  acked : List QueueMessage
  purged : List QueueMessage

namespace QueueManager

def started (config : DurableQueueConfig) : QueueManager where
  queues := .empty
  consumers := .empty
  processing := .empty
  deadLetters := .empty
  walWriter :=
    if config.enablePersistence then some (.initialized ([] : WALFile String Json)) else none
  pollTimers := []
  visibilityTimers := []
  stats := .empty
  consumerIdCounter := 0
  roundRobinIndex := .empty
  wal := []
  calls := []
  handlerCalls := []
  enqueued := []
  acked := []
  purged := []

variable (s : QueueManager) (queue : String)

def getQueueStats : QueueStats := (s.stats.get queue).getD .zero

def getDeadLetterMessages : List QueueMessage := (s.deadLetters.get queue).getD []

def pendingMessages : List QueueMessage := (s.queues.get queue).getD []

def updateStats (f : QueueStats → QueueStats) : QueueManager :=
  { s with stats := s.stats.set queue (f (s.getQueueStats queue)) }

def pushPending (message : QueueMessage) : QueueManager :=
  { s with queues := s.queues.set message.queue (s.pendingMessages message.queue ++ [message]) }

def pushDeadLetter (message : QueueMessage) : QueueManager :=
  { s with
    deadLetters :=
      s.deadLetters.set message.queue (s.getDeadLetterMessages message.queue ++ [message]) }

def removeFromProcessing (messageId : String) : QueueManager :=
  { s with
    processing := s.processing.delete messageId
    visibilityTimers := s.visibilityTimers.filter (· ≠ messageId) }

/-! ### Dispatch -/

/-- The message is due and not taken. -/
def isVisible (now : ℕ) (message : QueueMessage) : Bool :=
  message.status = .pending && message.visibleAfter ≤ now

def pickConsumer (first : QueueConsumer) (others : List QueueConsumer) (rrIndex : ℕ) :
    QueueConsumer :=
  (first :: others).get ⟨rrIndex % (first :: others).length, Nat.mod_lt _ (Nat.succ_pos _)⟩

/-- One round of the loop of `dispatchToConsumers`: the message is taken over by a consumer, its
timer is set, and the handler is called. -/
def dispatchOne (first : QueueConsumer) (others : List QueueConsumer)
    (acc : QueueManager × ℕ) (message : QueueMessage) : QueueManager × ℕ :=
  let (s, rrIndex) := acc
  let consumer := pickConsumer first others rrIndex
  let message := { message with status := .processing }
  let s := { s with processing := s.processing.set message.id message }
  let s := s.updateStats queue fun stats =>
    { stats with pending := stats.pending - 1, processing := stats.processing + 1 }
  ({ s with
      visibilityTimers := message.id :: s.visibilityTimers.filter (· ≠ message.id)
      handlerCalls := s.handlerCalls ++ [⟨message.id, consumer.id, true⟩] },
    rrIndex + 1)

def dispatchToConsumers (now : ℕ) : QueueManager :=
  match s.consumers.get queue with
  | none | some [] => s
  | some (first :: others) =>
    match s.queues.get queue with
    | none | some [] => s
    | some (message :: messages) =>
      let toDispatch := (message :: messages).filter (isVisible now)
      let remaining := (message :: messages).filter fun message => !isVisible now message
      let s := s.updateStats queue id
      let rrIndex := (s.roundRobinIndex.get queue).getD 0
      let (s, rrIndex) := toDispatch.foldl (dispatchOne queue first others)
        ({ s with queues := s.queues.set queue remaining }, rrIndex)
      { s with roundRobinIndex := s.roundRobinIndex.set queue rrIndex }

/-! ### Calls -/

def resume (kind : QueueCallKind) (message : QueueMessage) (now : ℕ) : QueueManager :=
  match kind with
  | .enqueue =>
    let s := (s.pushPending message).updateStats message.queue fun stats =>
      { stats with pending := stats.pending + 1, totalEnqueued := stats.totalEnqueued + 1 }
    s.dispatchToConsumers message.queue now
  | .ack =>
    let s := s.updateStats message.queue fun stats =>
      { stats with
        processing := stats.processing - 1
        completed := stats.completed + 1
        totalAcked := stats.totalAcked + 1 }
    { s with acked := s.acked ++ [{ message with status := .completed }] }
  | .nack => s

variable (config : DurableQueueConfig)

def awaitAppend (s : QueueManager) (kind : QueueCallKind)
    (message : QueueMessage) (update : EntityUpdate String Json) (now : ℕ) : QueueManager :=
  match s.walWriter with
  | none =>
    let call : QueueCall := ⟨kind, message, .resolved⟩
    { s with calls := s.calls ++ [call] }.resume kind message now
  | some writer =>
    let (writer, entry) := writer.createEntry config.walConfig update now
    let call : QueueCall := ⟨kind, message, .appending entry⟩
    { s with walWriter := some writer, calls := s.calls ++ [call] }

def newMessage (queue : String) (payload : Json)
    (metadata : Option (Metadata Json)) (random : String) (now : ℕ) : QueueMessage where
  id := s!"qmsg-{now}-{random}"
  queue := queue
  payload := payload
  enqueuedAt := now
  attempts := 0
  maxAttempts := config.defaultMaxAttempts
  status := .pending
  visibleAfter := 0
  metadata := metadata

def enqueue (s : QueueManager) (message : QueueMessage) (now : ℕ) : QueueManager :=
  { s with enqueued := s.enqueued ++ [message] }.awaitAppend config .enqueue message
    (createUpdate config message now) now

def consume : QueueManager × String :=
  let consumerId := s!"consumer-{s.consumerIdCounter + 1}"
  let consumer : QueueConsumer := ⟨consumerId, queue⟩
  let queueConsumers := (s.consumers.get queue).getD [] ++ [consumer]
  let s := { s with
    consumerIdCounter := s.consumerIdCounter + 1
    consumers := s.consumers.set queue queueConsumers
    pollTimers := if queue ∈ s.pollTimers then s.pollTimers else s.pollTimers ++ [queue] }
  (s.updateStats queue fun stats => { stats with consumerCount := queueConsumers.length },
    consumerId)

def removeConsumer (consumerId : String) : QueueManager × Bool :=
  match s.consumers.entries.find? fun p => p.2.any fun c => c.id = consumerId with
  | none => (s, false)
  | some (queue, consumers) =>
    let consumers := consumers.eraseP fun c => c.id = consumerId
    let s := { s with consumers := s.consumers.set queue consumers }.updateStats queue fun stats =>
      { stats with consumerCount := consumers.length }
    if consumers.isEmpty then
      ({ s with
          pollTimers := s.pollTimers.filter (· ≠ queue)
          consumers := s.consumers.delete queue },
        true)
    else (s, true)

def ack (s : QueueManager) (messageId : String) (now : ℕ) : QueueManager :=
  match s.processing.get messageId with
  | none => s
  | some message =>
    (s.removeFromProcessing messageId).awaitAppend config .ack message
      (deleteUpdate config message now) now

def nack (s : QueueManager) (messageId : String) (delayMs : Option ℤ) (now : ℕ) : QueueManager :=
  match s.processing.get messageId with
  | none => s
  | some message =>
    let attempts := message.attempts + 1
    let s := (s.removeFromProcessing messageId).updateStats message.queue fun stats =>
      { stats with processing := stats.processing - 1, totalNacked := stats.totalNacked + 1 }
    if message.maxAttempts ≤ attempts then
      let message := { message with attempts := attempts, status := .deadLetter }
      let s := (s.pushDeadLetter message).updateStats message.queue fun stats =>
        { stats with deadLetter := stats.deadLetter + 1 }
      s.awaitAppend config .nack message (deadLetterUpdate config message now) now
    else
      let message :=
        { message with
          attempts := attempts
          status := .pending
          visibleAfter := now + delayMs.getD config.visibilityTimeout }
      let s := (s.pushPending message).updateStats message.queue fun stats =>
        { stats with pending := stats.pending + 1 }
      s.awaitAppend config .nack message (requeueUpdate config message now) now

def nackIfProcessing (s : QueueManager) (messageId : String) (now : ℕ) : QueueManager :=
  if s.processing.has messageId then s.nack config messageId none now else s

def purgeQueue : QueueManager :=
  match s.queues.get queue with
  | none => s
  | some messages =>
    { s with queues := s.queues.set queue [], purged := s.purged ++ messages }.updateStats queue
      (·.purge messages.length)

end QueueManager

/-! ### Steps -/

/-- A call, a timer that fires, the end of the handler call number `k`, or the end of the append of
the call number `k`. -/
inductive QueueEvent
  | enqueue (queue : String) (payload : Json) (metadata : Option (Metadata Json)) (random : String)
      (now : ℕ)
  | consume (queue : String)
  | removeConsumer (consumerId : String)
  | ack (messageId : String) (now : ℕ)
  | nack (messageId : String) (delayMs : Option ℤ) (now : ℕ)
  | purgeQueue (queue : String)
  | poll (queue : String) (now : ℕ)
  | visibilityExpired (messageId : String) (now : ℕ)
  | handlerReturned (k : ℕ)
  | handlerFailed (k now : ℕ)
  | appended (k now : ℕ) (fault : Option String)

namespace QueueManager

def endHandler (s : QueueManager) (k : ℕ) (call : HandlerCall) : QueueManager :=
  { s with handlerCalls := s.handlerCalls.set k { call with running := false } }

def finishCall (config : DurableQueueConfig) (s : QueueManager) (k : ℕ) (kind : QueueCallKind)
    (message : QueueMessage) (entry : WALEntry String Json) (now : ℕ) (fault : Option String) :
    QueueManager :=
  let writer := s.walWriter.getD ⟨0, false⟩
  match writer.finishAppend config.walConfig s.wal entry fault with
  | .error err => { s with calls := s.calls.set k ⟨kind, message, .rejected err⟩ }
  | .ok (wal, _) =>
    { s with wal := wal, calls := s.calls.set k ⟨kind, message, .resolved⟩ }.resume kind message now

def step (config : DurableQueueConfig) (s : QueueManager) : QueueEvent → Option QueueManager
  | .enqueue queue payload metadata random now =>
    let message := newMessage config queue payload metadata random now
    if s.enqueued.any fun other => other.id = message.id then none
    else some (s.enqueue config message now)
  | .consume queue => some (s.consume queue).1
  | .removeConsumer consumerId => some (s.removeConsumer consumerId).1
  | .ack messageId now => some (s.ack config messageId now)
  | .nack messageId delayMs now => some (s.nack config messageId delayMs now)
  | .purgeQueue queue => some (s.purgeQueue queue)
  | .poll queue now => if queue ∈ s.pollTimers then some (s.dispatchToConsumers queue now) else none
  | .visibilityExpired messageId now =>
    if messageId ∈ s.visibilityTimers then some (s.nackIfProcessing config messageId now) else none
  | .handlerReturned k =>
    match s.handlerCalls[k]? with
    | none => none
    | some call => if call.running then some (s.endHandler k call) else none
  | .handlerFailed k now =>
    match s.handlerCalls[k]? with
    | none => none
    | some call =>
      if call.running then some ((s.endHandler k call).nackIfProcessing config call.messageId now)
      else none
  | .appended k now fault =>
    match s.calls[k]? with
    | some ⟨kind, message, .appending entry⟩ =>
      some (s.finishCall config k kind message entry now fault)
    | _ => none

/-- No call waits for the log, and none failed. -/
def AllResolved (s : QueueManager) : Prop := ∀ call ∈ s.calls, call.stage.isResolved = true

instance (s : QueueManager) : Decidable s.AllResolved :=
  inferInstanceAs (Decidable (∀ call ∈ _, _ = true))

end QueueManager

end DistributedCore.Gateway
