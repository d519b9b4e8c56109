import DistributedCore.Library.OrderedMap
import DistributedCore.Library.Runs
import DistributedCore.Library.Tasks
import DistributedCore.Library.Texts

/-!
# Sending with retries

`send` of the TCP and of the UDP adapter hands the writing of a message to a retry manager, under an
operation id that is made of the id of the target and the time in milliseconds. The retry manager
tries the operation again when it fails, and it remembers the ids of the operations that have
succeeded: an operation under such an id is not executed, and its call resolves at once.

Source: `src/transport/adapters/TCPAdapter.ts`, `src/transport/adapters/UDPAdapter.ts`: `send`,
`sendMessage`, `src/transport/RetryManager.ts`: `execute`, `executeWithRetries`.
-/

namespace DistributedCore.Transport

open OrderedMap List Option

/-! ### The retry manager -/

/-- What `retryCondition` reads of an error. -/
structure SendError where
  name : String
  message : String
  deriving DecidableEq

def includesText (text part : String) : Bool :=
  text.toList.tails.any fun rest => part.toList.isPrefixOf rest

def defaultRetryCondition (error : SendError) (_attempt : ℕ) : Bool :=
  if error.name = "SyntaxError" ∨ error.name = "TypeError" then false
  else if includesText error.message "400" ∨ includesText error.message "401" ∨
      includesText error.message "403" ∨ includesText error.message "404" then false
  else true

structure RetryOptions where
  maxRetries : ℕ := 3
  timeout : ℕ := 60000
  retryCondition : SendError → ℕ → Bool := defaultRetryCondition

/-- The options, and the operations that are known to have succeeded. -/
structure RetryManager where
  options : RetryOptions
  idempotencyCache : OrderedMap String Unit
  /-- The timers that delete an id from the cache, with the time at which they are due. -/
  cleanupTimers : List (String × ℕ)

def cacheTime : ℕ := 300000

/-! ### Calls and adapters -/

structure NodeId where
  id : String
  address : String
  port : ℕ
  deriving DecidableEq

def operationId (targetId : String) (now : ℕ) : String := "send-" ++ targetId ++ "-" ++ toString now

/-- The wait within an attempt. -/
inductive Operation where
  /-- A new connection is being opened. -/
  | connecting
  /-- A connection is there, and the attempt has not gone on yet. -/
  | connected (socket : ℕ)
  /-- The message has been handed to a socket; UDP has only one. -/
  | writing (socket : Option ℕ)
  deriving DecidableEq

/-- Where a call stands. -/
inductive Stage where
  | attempting (operation : Operation)
  | sleeping
  | resolved
  | rejected (error : SendError)
  deriving DecidableEq

/-- A call of `send`. -/
structure SendCall (M : Type) where
  message : M
  target : NodeId
  startTime : ℕ
  attempt : ℕ
  stage : Stage

def SendCall.operationId {M : Type} (call : SendCall M) : String :=
  Transport.operationId call.target.id call.startTime

structure TCPConnection where
  nodeId : NodeId
  isActive : Bool

inductive AdapterKind where
  | tcp
  | udp (maxPacketSize : ℕ)

structure Written (M : Type) where
  call : ℕ
  nodeId : String
  message : M
  deriving DecidableEq

/-- The connections, the calls and what was written. -/
structure SendAdapter (M : Type) where
  kind : AdapterKind
  /-- The number of bytes of a UDP packet with the message and the time. -/
  packetSize : M → ℕ → ℕ
  now : ℕ
  retryManager : RetryManager
  sockets : List TCPConnection
  connections : OrderedMap String ℕ
  calls : List (SendCall M)
  written : List (Written M)

inductive Signal where
  | resume
  | connect
  | connectFail (error : SendError)
  | write
  | writeFail (error : SendError)
  | wake

/-- The calls, and the events of sockets and timers. -/
inductive SendEvent (M : Type) where
  | send (message : M) (target : NodeId)
  | signal (call : ℕ) (signal : Signal)
  | closed (socket : ℕ)
  | cleanup (timer : ℕ)
  | advance (ms : ℕ)

namespace SendAdapter

variable {M : Type}

def started (kind : AdapterKind) (packetSize : M → ℕ → ℕ) (options : RetryOptions) (now : ℕ) :
    SendAdapter M where
  kind := kind
  packetSize := packetSize
  now := now
  retryManager := ⟨options, .empty, []⟩
  sockets := []
  connections := .empty
  calls := []
  written := []

variable (s : SendAdapter M)

/-! ### Attempts -/

variable (call : SendCall M)

def failureStage (error : SendError) : Stage :=
  if call.attempt > s.retryManager.options.maxRetries ∨
      !s.retryManager.options.retryCondition error call.attempt then .rejected error
  else .sleeping

def getOrCreateConnection (target : NodeId) : Operation :=
  match s.connections.get target.id with
  | none => .connecting
  | some socket =>
    if s.sockets[socket]?.any TCPConnection.isActive then .connected socket else .connecting

def operationStage : Stage :=
  match s.kind with
  | .tcp => .attempting (s.getOrCreateConnection call.target)
  | .udp maxPacketSize =>
    let size := s.packetSize call.message s.now
    if size > maxPacketSize then
      s.failureStage call ⟨"Error", s!"Message too large: {size} bytes (max: {maxPacketSize})"⟩
    else .attempting (.writing none)

def attemptStage : Stage :=
  let totalElapsed := s.now - call.startTime
  if totalElapsed ≥ s.retryManager.options.timeout then
    .rejected ⟨"Error", s!"Operation timeout after {totalElapsed}ms"⟩
  else s.operationStage call

variable (k socket timer : ℕ)

def setStage (call : SendCall M) (stage : Stage) : SendAdapter M :=
  { s with calls := s.calls.set k { call with stage := stage } }

def execute (message : M) (target : NodeId) : SendCall M :=
  let call : SendCall M := { message, target, startTime := s.now, attempt := 1, stage := .sleeping }
  if s.retryManager.idempotencyCache.has call.operationId then { call with stage := .resolved }
  else { call with stage := s.attemptStage call }

def send (message : M) (target : NodeId) : SendAdapter M :=
  { s with calls := s.calls ++ [s.execute message target] }

def sendMessage (call : SendCall M) (socket : ℕ) : SendAdapter M :=
  if s.sockets[socket]?.any TCPConnection.isActive then
    s.setStage k call (.attempting (.writing (some socket)))
  else s.setStage k call (s.failureStage call ⟨"Error", "Connection is not active"⟩)

def connectionEstablished (call : SendCall M) : SendAdapter M :=
  let opened : SendAdapter M := { s with
    sockets := s.sockets ++ [⟨call.target, true⟩]
    connections := s.connections.set call.target.id s.sockets.length }
  opened.setStage k call (.attempting (.connected s.sockets.length))

def socketNode (socket : Option ℕ) : Option String :=
  match socket with
  | none => some call.target.id
  | some i => s.sockets[i]?.map fun connection => connection.nodeId.id

def writeCompleted (call : SendCall M) (nodeId : String) : SendAdapter M :=
  let id := call.operationId
  let succeeded : SendAdapter M := { s with
    written := s.written ++ [⟨k, nodeId, call.message⟩]
    retryManager := { s.retryManager with
      idempotencyCache := s.retryManager.idempotencyCache.set id ()
      cleanupTimers := s.retryManager.cleanupTimers ++ [(id, s.now + cacheTime)] } }
  succeeded.setStage k call .resolved

def dropConnection : SendAdapter M :=
  match s.sockets[socket]? with
  | none => s
  | some connection => { s with
      sockets := s.sockets.set socket { connection with isActive := false }
      connections := s.connections.delete connection.nodeId.id }

def retry (call : SendCall M) : SendAdapter M :=
  let next := { call with attempt := call.attempt + 1 }
  s.setStage k next (s.attemptStage next)

/-! ### Steps -/

def onSignal (call : SendCall M) (signal : Signal) : Option (SendAdapter M) :=
  match call.stage, signal with
  | .attempting (.connected socket), .resume => some (s.sendMessage k call socket)
  | .attempting .connecting, .connect => some (s.connectionEstablished k call)
  | .attempting .connecting, .connectFail error =>
    some (s.setStage k call (s.failureStage call error))
  | .attempting (.writing socket), .write =>
    (s.socketNode call socket).map (s.writeCompleted k call)
  | .attempting (.writing none), .writeFail error =>
    some (s.setStage k call (s.failureStage call error))
  | .attempting (.writing (some socket)), .writeFail error =>
    some ((s.dropConnection socket).setStage k call (s.failureStage call error))
  | .sleeping, .wake => some (s.retry k call)
  | _, _ => none

def cleanup : Option (SendAdapter M) :=
  match s.retryManager.cleanupTimers[timer]? with
  | none => none
  | some (id, due) =>
    if due ≤ s.now then
      some { s with retryManager := { s.retryManager with
        idempotencyCache := s.retryManager.idempotencyCache.delete id
        cleanupTimers := s.retryManager.cleanupTimers.eraseIdx timer } }
    else none

def step : SendEvent M → Option (SendAdapter M)
  | .send message target => some (s.send message target)
  | .signal k signal => s.calls[k]?.bind fun call => s.onSignal k call signal
  | .closed socket => some (s.dropConnection socket)
  | .cleanup timer => s.cleanup timer
  | .advance ms => some { s with now := s.now + ms }

/-- The message of every call that succeeded was written to its target. -/
def AllSent : Prop :=
  ∀ k < s.calls.length, ∀ call ∈ s.calls[k]?, call.stage = .resolved →
    ⟨k, call.target.id, call.message⟩ ∈ s.written

instance decidableAllSent [DecidableEq M] : Decidable s.AllSent :=
  inferInstanceAs (Decidable (∀ k < s.calls.length, ∀ call ∈ _, _ = _ → _ ∈ s.written))

end SendAdapter

/-- No earlier send to the target at the same time has succeeded. -/
def SendEvent.Fresh {M : Type} (s : SendAdapter M) : SendEvent M → Prop
  | .send _ target => ∀ call ∈ s.calls,
      ¬(call.target.id = target.id ∧ call.startTime = s.now ∧ call.stage = .resolved)
  | _ => True

/-! ### Operation ids -/

theorem operationId_inj {id id' : String} {n n' : ℕ} :
    operationId id n = operationId id' n' ↔ id = id' ∧ n = n' := by
  refine ⟨fun h => ?_, fun h => by rw [h.1, h.2]⟩
  have hlist : ∀ (id : String) (n : ℕ), (operationId id n).toList.reverse =
      (toString n).toList.reverse ++ '-' :: (("send-" ++ id).toList).reverse := by
    intro id n
    simp [operationId]
  have hreverse := congrArg (fun x => x.toList.reverse) h
  rw [hlist, hlist, append_cons_inj_of_notMem, reverse_inj, reverse_inj,
    toList_toString, toList_toString, toDigits_inj, String.toList_inj, String.append_right_inj]
    at hreverse
  · exact hreverse.symm
  · rw [mem_reverse]
    exact hyphen_notMem_toString n
  · rw [mem_reverse]
    exact hyphen_notMem_toString n'

/-! ### The sockets of the calls -/

def Stage.socket : Stage → Option ℕ
  | .attempting (.connected socket) => some socket
  | .attempting (.writing socket) => socket
  | _ => none

namespace SendAdapter

variable {M : Type} {s s' : SendAdapter M} {k : ℕ} {call new : SendCall M}

def nodeOf (s : SendAdapter M) (socket : ℕ) : Option String :=
  s.sockets[socket]?.map fun connection => connection.nodeId.id

/-- Every socket belongs to the node it is used for. -/
structure Routed (s : SendAdapter M) : Prop where
  filed : ∀ id, ∀ i ∈ s.connections.get id, s.nodeOf i = some id
  used : ∀ call ∈ s.calls, ∀ i ∈ call.stage.socket, s.nodeOf i = some call.target.id

theorem nodeOf_dropConnection (socket i : ℕ) : (s.dropConnection socket).nodeOf i = s.nodeOf i := by
  rw [dropConnection]
  cases hsocket : s.sockets[socket]? with
  | none => rfl
  | some =>
    change ((s.sockets.set socket _)[i]?).map _ = _
    by_cases hi : socket = i
    · subst hi
      rw [List.getElem?_set_self (List.getElem?_eq_some_iff.mp hsocket).1, nodeOf, hsocket]
      rfl
    · rw [getElem?_set_ne hi, nodeOf]

theorem dropConnection_frame (s : SendAdapter M) (socket : ℕ) :
    (s.dropConnection socket).calls = s.calls ∧
      (s.dropConnection socket).retryManager = s.retryManager ∧
      (s.dropConnection socket).now = s.now ∧ (s.dropConnection socket).written = s.written := by
  rw [dropConnection]
  split <;> exact ⟨rfl, rfl, rfl, rfl⟩

theorem Routed.dropConnection (h : s.Routed) (socket : ℕ) : (s.dropConnection socket).Routed where
  filed := by
    intro id i hi
    rw [nodeOf_dropConnection]
    refine h.filed id i ?_
    rw [SendAdapter.dropConnection] at hi
    split at hi
    · exact hi
    · rw [get_delete] at hi
      split_ifs at hi
      · cases hi
      · exact hi
  used := by
    intro call hcall i hi
    rw [nodeOf_dropConnection]
    rw [(s.dropConnection_frame socket).1] at hcall
    exact h.used call hcall i hi

/-- What a call may go on to: it has not resolved, and a socket that it uses leads to its target. -/
def Awaits (s : SendAdapter M) (call : SendCall M) (stage : Stage) : Prop :=
  stage ≠ .resolved ∧ ∀ i ∈ stage.socket, s.nodeOf i = some call.target.id

theorem awaits_failureStage (s s' : SendAdapter M) (call : SendCall M) (error : SendError) :
    s'.Awaits call (s.failureStage call error) := by
  rw [failureStage]
  split_ifs <;> exact ⟨by simp, fun _ hi => nomatch hi⟩

theorem Routed.awaits_attemptStage (h : s.Routed) (call : SendCall M) :
    s.Awaits call (s.attemptStage call) := by
  rw [attemptStage]
  split_ifs
  · exact ⟨by simp, fun _ hi => nomatch hi⟩
  · rw [operationStage]
    split
    · refine ⟨by simp, fun i hi => ?_⟩
      rw [getOrCreateConnection] at hi
      split at hi
      · cases hi
      · next socket hsocket =>
        split_ifs at hi <;> cases hi
        exact h.filed _ _ hsocket
    · dsimp only
      split_ifs
      · exact awaits_failureStage _ _ _ _
      · exact ⟨by simp, fun _ hi => nomatch hi⟩

/-- The call at `k` goes on to another wait. -/
structure Waits (s s' : SendAdapter M) (k : ℕ) (call : SendCall M) : Prop where
  calls : ∃ new, s'.calls = s.calls.set k new ∧ new.target = call.target ∧
    new.startTime = call.startTime ∧ s'.Awaits call new.stage
  filed : ∀ id, ∀ i ∈ s'.connections.get id, s'.nodeOf i = some id
  nodes : ∀ i id, s.nodeOf i = some id → s'.nodeOf i = some id
  retryManager : s'.retryManager = s.retryManager
  now : s'.now = s.now
  written : s'.written = s.written

section

variable (h : s.Routed)

include h

theorem Routed.waits (hwaits : s.Waits s' k call) : s'.Routed := by
  obtain ⟨new, hcalls, htarget, -, -, hsocket⟩ := hwaits.calls
  refine ⟨hwaits.filed, ?_⟩
  rw [hcalls]
  exact forall_mem_set (fun other hother i hi => hwaits.nodes i _ (h.used other hother i hi))
    (htarget ▸ hsocket)

theorem Routed.waits_setStage {stage : Stage} (htarget : new.target = call.target)
    (hstart : new.startTime = call.startTime) (hstage : s.Awaits call stage) :
    s.Waits (s.setStage k new stage) k call :=
  ⟨⟨_, rfl, htarget, hstart, hstage⟩, h.filed, fun _ _ h => h, rfl, rfl, rfl⟩

theorem Routed.waits_connectionEstablished : s.Waits (s.connectionEstablished k call) k call := by
  have hold : ∀ i id, s.nodeOf i = some id →
      (s.connectionEstablished k call).nodeOf i = some id := by
    intro i id hi
    obtain ⟨connection, hconnection, -⟩ := map_eq_some_iff.mp hi
    rw [← hi]
    exact congrArg _ (List.getElem?_append_left (List.getElem?_eq_some_iff.mp hconnection).1)
  have hnew : (s.connectionEstablished k call).nodeOf s.sockets.length = some call.target.id :=
    congrArg _ getElem?_concat_length
  refine ⟨⟨_, rfl, rfl, rfl, by simp, fun i hi => ?_⟩, fun id i hi => ?_, hold, rfl, rfl, rfl⟩
  · cases hi
    exact hnew
  · change (s.connections.set call.target.id s.sockets.length).get id = some i at hi
    rw [get_set] at hi
    split_ifs at hi with hid
    · cases hi
      exact hid ▸ hnew
    · exact hold i id (h.filed id i hi)

/-- **What a signal does**: the call has written its message to its target, or waits. -/
theorem Routed.onSignal_cases (hcall : s.calls[k]? = some call) {signal : Signal}
    (hstep : s.onSignal k call signal = some s') :
    call.stage ≠ .resolved ∧ (s' = s.writeCompleted k call call.target.id ∨ s.Waits s' k call) := by
  have hused := h.used call (mem_of_getElem? hcall)
  unfold SendAdapter.onSignal at hstep
  split at hstep
  · next socket hstage =>
    cases hstep
    rw [hstage] at hused ⊢
    rw [sendMessage]
    split_ifs
    · exact ⟨by simp, .inr (h.waits_setStage rfl rfl ⟨by simp, hused⟩)⟩
    · exact ⟨by simp, .inr (h.waits_setStage rfl rfl (awaits_failureStage _ _ _ _))⟩
  · next hstage =>
    cases hstep
    exact ⟨by simp [hstage], .inr h.waits_connectionEstablished⟩
  · next hstage =>
    cases hstep
    exact ⟨by simp [hstage], .inr (h.waits_setStage rfl rfl (awaits_failureStage _ _ _ _))⟩
  · next socket hstage =>
    obtain ⟨nodeId, hnode, rfl⟩ := map_eq_some_iff.mp hstep
    rw [hstage] at hused ⊢
    obtain rfl : nodeId = call.target.id := by
      cases socket with
      | none => exact (some.inj hnode).symm
      | some i => exact some.inj (hnode.symm.trans (hused i rfl))
    exact ⟨by simp, .inl rfl⟩
  · next hstage =>
    cases hstep
    exact ⟨by simp [hstage], .inr (h.waits_setStage rfl rfl (awaits_failureStage _ _ _ _))⟩
  · next socket error hstage =>
    cases hstep
    obtain ⟨hcalls, hretry, hnow, hwritten⟩ := s.dropConnection_frame socket
    refine ⟨by simp [hstage], .inr ⟨⟨{ call with stage := s.failureStage call error }, ?_, rfl, rfl,
      awaits_failureStage _ _ _ _⟩, (h.dropConnection socket).filed, fun i id hi => ?_, hretry,
      hnow, hwritten⟩⟩
    · rw [← hcalls]
      rfl
    · exact (nodeOf_dropConnection socket i).trans hi
  · next hstage =>
    cases hstep
    exact ⟨by simp [hstage], .inr (h.waits_setStage rfl rfl (h.awaits_attemptStage
      { call with attempt := call.attempt + 1 }))⟩
  · cases hstep

end

theorem execute_target (message : M) (target : NodeId) :
    (s.execute message target).target = target ∧ (s.execute message target).startTime = s.now := by
  rw [execute]
  split_ifs <;> exact ⟨rfl, rfl⟩

theorem Routed.send (h : s.Routed) (message : M) (target : NodeId) :
    (s.send message target).Routed := by
  refine ⟨h.filed, forall_mem_append.mpr ⟨h.used, forall_mem_singleton.mpr fun i hi => ?_⟩⟩
  rw [(execute_target message target).1]
  rw [execute] at hi
  split_ifs at hi
  · cases hi
  · exact (h.awaits_attemptStage _).2 i hi

/-! ### The cache and the calls -/

def Done (s : SendAdapter M) (k : ℕ) (call : SendCall M) : Prop :=
  s.calls[k]? = some call ∧ call.stage = .resolved

def Knows (s : SendAdapter M) (id : String) : Prop := s.retryManager.idempotencyCache.has id = true

/-- The cache holds the ids of operations that have succeeded, at least those of the current
millisecond, and what was written was written by calls that have resolved. -/
structure Remembered (s : SendAdapter M) : Prop where
  issued : ∀ call ∈ s.calls, call.startTime ≤ s.now
  succeeded : ∀ id, s.Knows id → ∃ k call, s.Done k call ∧ call.operationId = id
  cached : ∀ k call, s.Done k call → call.startTime = s.now → s.Knows call.operationId
  timers : ∀ timer ∈ s.retryManager.cleanupTimers,
    ∃ id n, timer.1 = operationId id n ∧ n + cacheTime ≤ timer.2
  writers : ∀ w ∈ s.written, ∃ call, s.Done w.call call

/-- The call at `k`, which had not resolved, becomes `new` and has written `ws`. -/
structure Adds (s s' : SendAdapter M) (k : ℕ) (new : SendCall M) (ws : List (Written M)) :
    Prop where
  now : s'.now = s.now
  undone : ∀ call, ¬s.Done k call
  done : ∀ i call, s'.Done i call ↔ s.Done i call ∨ (i = k ∧ call = new) ∧ new.stage = .resolved
  knows : ∀ id, s'.Knows id ↔ s.Knows id ∨ id = new.operationId ∧ new.stage = .resolved
  written : s'.written = s.written ++ ws
  writer : ∀ w ∈ ws, w.call = k ∧ new.stage = .resolved

section Adds

variable {ws : List (Written M)} (h : s.Remembered) (hadds : s.Adds s' k new ws)

include h hadds

theorem Remembered.adds (hissued : ∀ call ∈ s'.calls, call.startTime ≤ s.now)
    (htimers : ∀ timer ∈ s'.retryManager.cleanupTimers,
      ∃ id n, timer.1 = operationId id n ∧ n + cacheTime ≤ timer.2) : s'.Remembered where
  issued := hadds.now ▸ hissued
  succeeded id hid := by
    rcases (hadds.knows id).mp hid with hid | ⟨rfl, hresolved⟩
    · obtain ⟨i, call, hdone, hcall⟩ := h.succeeded id hid
      exact ⟨i, call, (hadds.done i call).mpr (.inl hdone), hcall⟩
    · exact ⟨k, new, (hadds.done k new).mpr (.inr ⟨⟨rfl, rfl⟩, hresolved⟩), rfl⟩
  cached i call hdone hstart := by
    refine (hadds.knows _).mpr ?_
    rcases (hadds.done i call).mp hdone with hdone | ⟨⟨-, rfl⟩, hresolved⟩
    · exact .inl (h.cached i call hdone (hstart.trans hadds.now))
    · exact .inr ⟨rfl, hresolved⟩
  timers := htimers
  writers w hw := by
    rw [hadds.written] at hw
    rcases mem_append.mp hw with hw | hw
    · obtain ⟨call, hdone⟩ := h.writers w hw
      exact ⟨call, (hadds.done _ _).mpr (.inl hdone)⟩
    · obtain ⟨hk, hresolved⟩ := hadds.writer w hw
      exact ⟨new, (hadds.done _ _).mpr (.inr ⟨⟨hk, rfl⟩, hresolved⟩)⟩

/-- **All calls have sent** if they had before, and the call has written its message if it has
resolved. -/
theorem Remembered.allSent_adds : s'.AllSent ↔ s.AllSent ∧
    (new.stage = .resolved → ⟨k, new.target.id, new.message⟩ ∈ ws) := by
  have hall : ∀ s : SendAdapter M, s.AllSent ↔
      ∀ i call, s.Done i call → ⟨i, call.target.id, call.message⟩ ∈ s.written := fun s =>
    ⟨fun h i call hdone => h i (List.getElem?_eq_some_iff.mp hdone.1).1 call hdone.1 hdone.2,
      fun h i _ call hcall hresolved => h i call ⟨hcall, hresolved⟩⟩
  have hold : ∀ i call, s.Done i call → ((⟨i, call.target.id, call.message⟩ : Written M) ∈
      s'.written ↔ ⟨i, call.target.id, call.message⟩ ∈ s.written) := by
    intro i call hdone
    rw [hadds.written, mem_append, or_iff_left]
    intro hw
    obtain rfl : i = k := (hadds.writer _ hw).1
    exact hadds.undone call hdone
  have hnew : (⟨k, new.target.id, new.message⟩ : Written M) ∈ s'.written ↔
      ⟨k, new.target.id, new.message⟩ ∈ ws := by
    rw [hadds.written, mem_append, or_iff_right]
    intro hw
    obtain ⟨call, hdone⟩ := h.writers _ hw
    exact hadds.undone call hdone
  rw [hall, hall]
  constructor
  · intro hsent
    refine ⟨fun i call hdone => (hold i call hdone).mp (hsent i call ?_), fun hresolved =>
      hnew.mp (hsent k new ?_)⟩
    · exact (hadds.done i call).mpr (.inl hdone)
    · exact (hadds.done k new).mpr (.inr ⟨⟨rfl, rfl⟩, hresolved⟩)
  · rintro ⟨hsent, hwritten⟩ i call hdone
    rcases (hadds.done i call).mp hdone with hdone | ⟨⟨rfl, rfl⟩, hresolved⟩
    · exact (hold i call hdone).mpr (hsent i call hdone)
    · exact hnew.mpr (hwritten hresolved)

end Adds

theorem done_set (hcall : s.calls[k]? = some call) (hunresolved : call.stage ≠ .resolved)
    (hcalls : s'.calls = s.calls.set k new) : (∀ other, ¬s.Done k other) ∧
      ∀ i other, s'.Done i other ↔
        s.Done i other ∨ (i = k ∧ other = new) ∧ new.stage = .resolved := by
  have hundone : ∀ other, ¬s.Done k other := fun other hdone =>
    hunresolved (some.inj (hcall.symm.trans hdone.1) ▸ hdone.2)
  refine ⟨hundone, fun i other => ?_⟩
  by_cases hi : k = i
  · subst hi
    rw [Done, hcalls, List.getElem?_set_self (List.getElem?_eq_some_iff.mp hcall).1]
    constructor
    · rintro ⟨hother, hresolved⟩
      cases hother
      exact .inr ⟨⟨rfl, rfl⟩, hresolved⟩
    · rintro (hdone | ⟨⟨-, rfl⟩, hresolved⟩)
      · exact absurd hdone (hundone other)
      · exact ⟨rfl, hresolved⟩
  · rw [Done, hcalls, getElem?_set_ne hi]
    exact ⟨.inl, fun h => h.resolve_right fun hnew => hi hnew.1.1.symm⟩

theorem Waits.adds (hwaits : s.Waits s' k call) (hcall : s.calls[k]? = some call)
    (hunresolved : call.stage ≠ .resolved) : ∃ new, s.Adds s' k new [] ∧ new.stage ≠ .resolved ∧
      s'.calls = s.calls.set k new ∧ new.startTime = call.startTime := by
  obtain ⟨new, hcalls, -, hstart, hstage, -⟩ := hwaits.calls
  obtain ⟨hundone, hdone⟩ := done_set hcall hunresolved hcalls
  refine ⟨new, ⟨hwaits.now, hundone, hdone, fun id => ?_, ?_, fun _ hw => nomatch hw⟩, hstage,
    hcalls, hstart⟩
  · rw [Knows, hwaits.retryManager]
    exact ⟨.inl, fun h => h.resolve_right fun hnew => hstage hnew.2⟩
  · rw [hwaits.written, append_nil]

theorem adds_writeCompleted (hcall : s.calls[k]? = some call)
    (hunresolved : call.stage ≠ .resolved) :
    s.Adds (s.writeCompleted k call call.target.id) k { call with stage := .resolved }
      [⟨k, call.target.id, call.message⟩] := by
  have hcalls : (s.writeCompleted k call call.target.id).calls =
    s.calls.set k { call with stage := .resolved } := rfl
  obtain ⟨hundone, hdone⟩ := done_set hcall hunresolved hcalls
  refine ⟨rfl, hundone, hdone, fun id => ?_, rfl, forall_mem_singleton.mpr ⟨rfl, rfl⟩⟩
  change (s.retryManager.idempotencyCache.set call.operationId ()).has id = true ↔
    s.retryManager.idempotencyCache.has id = true ∨
      id = call.operationId ∧ Stage.resolved = .resolved
  rw [has, has, get_set]
  split_ifs with hid <;> simp [hid]

theorem execute_resolved_iff (h : s.Routed) (message : M) (target : NodeId) :
    (s.execute message target).stage = .resolved ↔ s.Knows (operationId target.id s.now) := by
  rw [execute, show SendCall.operationId ⟨message, target, s.now, 1, .sleeping⟩ =
    operationId target.id s.now from rfl]
  split_ifs with hcache
  · exact iff_of_true rfl hcache
  · exact iff_of_false (h.awaits_attemptStage _).1 hcache

theorem Routed.adds_send (h : s.Routed) (message : M) (target : NodeId) :
    s.Adds (s.send message target) s.calls.length (s.execute message target) [] := by
  have hundone : ∀ call, ¬s.Done s.calls.length call := fun call hdone =>
    lt_irrefl _ (List.getElem?_eq_some_iff.mp hdone.1).1
  refine ⟨rfl, hundone, fun i call => ?_, fun id => ?_, (append_nil _).symm, fun _ hw => nomatch hw⟩
  · rw [Done, SendAdapter.send]
    rcases Nat.lt_trichotomy i s.calls.length with hi | rfl | hi
    · rw [List.getElem?_append_left hi]
      exact ⟨.inl, fun h => h.resolve_right fun hnew => hi.ne hnew.1.1⟩
    · rw [getElem?_concat_length]
      constructor
      · rintro ⟨hcall, hresolved⟩
        cases hcall
        exact .inr ⟨⟨rfl, rfl⟩, hresolved⟩
      · rintro (hdone | ⟨⟨-, rfl⟩, hresolved⟩)
        · exact absurd hdone (hundone call)
        · exact ⟨rfl, hresolved⟩
    · rw [Done, getElem?_eq_none_iff.mpr (by simpa [Nat.succ_le_iff] using hi),
        getElem?_eq_none_iff.mpr hi.le]
      simp [hi.ne']
  · refine ⟨.inl, ?_⟩
    rintro (hid | ⟨rfl, hresolved⟩)
    · exact hid
    · obtain ⟨htarget, hstart⟩ := execute_target message target
      rw [SendCall.operationId, htarget, hstart]
      exact (execute_resolved_iff h message target).mp hresolved

theorem Remembered.cleanup (h : s.Remembered) {timer : ℕ} (hstep : s.cleanup timer = some s') :
    s'.Remembered := by
  rw [SendAdapter.cleanup] at hstep
  split at hstep
  · cases hstep
  · next id due htimer =>
    split_ifs at hstep with hdue
    cases hstep
    obtain ⟨targetId, n, hid, hn⟩ := h.timers _ (mem_of_getElem? htimer)
    have hknows : ∀ other, (s.retryManager.idempotencyCache.delete id).has other = true ↔
        other ≠ id ∧ s.Knows other := by
      intro other
      rw [Knows, has, has, get_delete]
      split_ifs with hother <;> simp [hother]
    refine ⟨h.issued, fun other hother => h.succeeded other ((hknows other).mp hother).2,
      fun k call hdone hstart => (hknows _).mpr ⟨fun heq => ?_, h.cached k call hdone hstart⟩,
      fun timer htimer => h.timers timer (mem_of_mem_eraseIdx htimer), h.writers⟩
    obtain ⟨-, htime⟩ := operationId_inj.mp (heq.trans hid)
    change call.startTime = s.now at hstart
    rw [cacheTime] at hn
    omega

theorem Remembered.advance (h : s.Remembered) (ms : ℕ) :
    ({ s with now := s.now + ms } : SendAdapter M).Remembered where
  issued call hcall := (h.issued call hcall).trans (Nat.le_add_right _ _)
  succeeded := h.succeeded
  cached := by
    intro k call hdone hstart
    have hissued := h.issued call (mem_of_getElem? hdone.1)
    change call.startTime = s.now + ms at hstart
    exact h.cached k call hdone (by omega)
  timers := h.timers
  writers := h.writers

/-! ### Runs -/

structure Sound (s : SendAdapter M) : Prop where
  routed : s.Routed
  remembered : s.Remembered

theorem sound_started (kind : AdapterKind) (packetSize : M → ℕ → ℕ) (options : RetryOptions)
    (now : ℕ) : (started kind packetSize options now).Sound where
  routed := ⟨fun _ _ h => (nomatch h), fun _ h => nomatch h⟩
  remembered := ⟨fun _ h => (nomatch h), fun _ h => (nomatch h), fun _ _ h => (nomatch h.1),
    fun _ h => (nomatch h), fun _ h => nomatch h⟩

theorem Sound.fresh_iff (h : s.Sound) (message : M) (target : NodeId) :
    (SendEvent.send message target).Fresh s ↔ ¬s.Knows (operationId target.id s.now) := by
  constructor
  · intro hfresh hcache
    obtain ⟨k, call, ⟨hcall, hresolved⟩, hid⟩ := h.remembered.succeeded _ hcache
    obtain ⟨htarget, hstart⟩ := operationId_inj.mp hid
    exact hfresh call (mem_of_getElem? hcall) ⟨htarget, hstart, hresolved⟩
  · rintro hcache call hcall ⟨htarget, hstart, hresolved⟩
    obtain ⟨k, hk⟩ := mem_iff_getElem?.mp hcall
    have hcached := h.remembered.cached k call ⟨hk, hresolved⟩ hstart
    rw [SendCall.operationId, htarget, hstart] at hcached
    exact hcache hcached

/-- The invariant is kept, and all calls have sent after a step exactly if they had before and the
step was fresh. -/
theorem Sound.step (h : s.Sound) (e : SendEvent M) (hstep : s.step e = some s') :
    s'.Sound ∧ (s'.AllSent ↔ s.AllSent ∧ e.Fresh s) := by
  obtain ⟨hrouted, hremembered⟩ := h
  cases e with
  | send message target =>
    cases hstep
    have hadds := hrouted.adds_send message target
    refine ⟨⟨hrouted.send message target, hremembered.adds hadds (forall_mem_append.mpr
      ⟨hremembered.issued, forall_mem_singleton.mpr (execute_target message target).2.le⟩)
      hremembered.timers⟩, ?_⟩
    rw [Sound.fresh_iff ⟨hrouted, hremembered⟩, hremembered.allSent_adds hadds,
      execute_resolved_iff hrouted]
    simp
  | signal =>
    obtain ⟨call, hcall, hsignal⟩ := bind_eq_some_iff.mp hstep
    have hissued := hremembered.issued call (mem_of_getElem? hcall)
    obtain ⟨hunresolved, rfl | hwaits⟩ := hrouted.onSignal_cases hcall hsignal
    · have hadds := adds_writeCompleted hcall hunresolved
      refine ⟨⟨⟨hrouted.filed, forall_mem_set hrouted.used fun _ hi => nomatch hi⟩,
        hremembered.adds hadds (forall_mem_set hremembered.issued hissued) ?_⟩, ?_⟩
      · exact forall_mem_append.mpr ⟨hremembered.timers, forall_mem_singleton.mpr
          ⟨call.target.id, call.startTime, rfl, Nat.add_le_add_right hissued _⟩⟩
      · simp [SendEvent.Fresh, hremembered.allSent_adds hadds]
    · obtain ⟨new, hadds, hstage, hcalls, hstart⟩ := hwaits.adds hcall hunresolved
      refine ⟨⟨hrouted.waits hwaits, hremembered.adds hadds ?_ ?_⟩, ?_⟩
      · rw [hcalls]
        exact forall_mem_set hremembered.issued (hstart ▸ hissued)
      · rw [hwaits.retryManager]
        exact hremembered.timers
      · simp [SendEvent.Fresh, hremembered.allSent_adds hadds, hstage]
  | closed socket =>
    cases hstep
    obtain ⟨hcalls, hretry, hnow, hwritten⟩ := s.dropConnection_frame socket
    refine ⟨⟨hrouted.dropConnection socket, ?_⟩, ?_⟩
    · obtain ⟨hissued, hsucceeded, hcached, htimers, hwriters⟩ := hremembered
      constructor
      all_goals simpa only [Done, Knows, hcalls, hretry, hnow, hwritten]
    · simp [AllSent, hcalls, hwritten, SendEvent.Fresh]
  | cleanup timer =>
    have hremembered := hremembered.cleanup hstep
    change s.cleanup timer = some s' at hstep
    rw [SendAdapter.cleanup] at hstep
    split at hstep
    · cases hstep
    · split_ifs at hstep
      cases hstep
      exact ⟨⟨⟨hrouted.filed, hrouted.used⟩, hremembered⟩, (and_iff_left trivial).symm⟩
  | advance ms =>
    cases hstep
    exact ⟨⟨⟨hrouted.filed, hrouted.used⟩, hremembered.advance ms⟩, (and_iff_left trivial).symm⟩

/-- Every call that has resolved has written its own message to a socket of its target exactly if
no send was made in a millisecond in which an earlier send for the same target had already
resolved. -/
theorem allSent_iff_of_run {kind : AdapterKind} {packetSize : M → ℕ → ℕ} {options : RetryOptions}
    {now : ℕ} {events : List (SendEvent M)}
    (hrun : exec step (started kind packetSize options now) events = some s) :
    s.AllSent ↔
      AllSteps step (fun s e => e.Fresh s) (started kind packetSize options now) events := by
  rw [exec_iff_allSteps (fun s e s' h hstep => Sound.step h e hstep)
    (sound_started kind packetSize options now) hrun, and_iff_right]
  intro k hk
  cases hk

def peer : NodeId := ⟨"b", "10.0.0.2", 9090⟩

def sameMillisecond : List (SendEvent String) :=
  [.send "first" peer, .signal 0 .connect, .signal 0 .resume, .signal 0 .write, .send "second" peer]

/-- The second call resolves, and its message is not written. -/
theorem resolved_without_write :
    ∃ s, exec step (started .tcp (fun _ _ => 0) {} 1000) sameMillisecond = some s ∧ ¬s.AllSent :=
  ⟨_, rfl, by decide⟩

def nextMillisecond : List (SendEvent String) :=
  [.send "first" peer, .signal 0 .connect, .signal 0 .resume, .signal 0 .write, .advance 1,
    .send "second" peer, .signal 1 .resume, .signal 1 (.writeFail ⟨"Error", "EPIPE"⟩),
    .signal 1 .wake, .signal 1 .connect, .signal 1 .resume, .signal 1 .write]

instance decidableFresh (s : SendAdapter String) (e : SendEvent String) : Decidable (e.Fresh s) :=
  match e with
  | .send .. => inferInstanceAs (Decidable (∀ call ∈ s.calls, ¬(_ = _ ∧ _ = _ ∧ _ = _)))
  | .signal _ _ | .closed _ | .cleanup _ | .advance _ => inferInstanceAs (Decidable True)

theorem allSent_nextMillisecond :
    ∃ s, exec step (started .tcp (fun _ _ => 0) {} 1000) nextMillisecond = some s ∧ s.AllSent := by
  have hrun : exec step (started .tcp (fun _ _ => 0) {} 1000) nextMillisecond = some _ := rfl
  exact ⟨_, hrun, (allSent_iff_of_run hrun).mpr (by decide +kernel)⟩

end SendAdapter

end DistributedCore.Transport
