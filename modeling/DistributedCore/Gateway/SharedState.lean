import DistributedCore.Library.OrderedMap
import DistributedCore.Library.Runs

/-!
# Shared state of channels

A manager keeps a state for every channel that has subscribers. The node that owns the channel
holds the state in a session. The first subscriber opens the session: the node claims the channel,
starts with a new state, and overwrites it with the last snapshot. An update changes the state of
the session at once and sets a timer for a snapshot. The last subscriber that leaves closes the
session; no snapshot is taken then. An idle session is evicted: its state is deleted before the
manager is told, so the manager finds no state to write.

Source: `src/gateway/state/SharedStateManager.ts`, `src/gateway/state/types.ts`,
`src/cluster/sessions/DistributedSession.ts`, `src/gateway/eviction/EvictionTimer.ts`,
`src/routing/ResourceRouter.ts`.
-/

namespace DistributedCore.Gateway

/-- The initial state, and how an update is applied. -/
structure SharedStateAdapter (S U : Type) where
  createState : S
  applyUpdate : S → U → S

/-! ### Calls -/

/-- Where a call of `subscribe` is: it waits for the claim of the channel, which has or has not
been refused when the wait is over, or for `join` to return, or for the last snapshot. -/
inductive SubscribeStage (S : Type)
  | claiming
  | claimed
  | refused
  | joined (isLocal : Bool)
  | reading
  | read (persisted : Option S)
  | resolved (state : S)
  | rejected

/-- Where a call of `applyUpdate` stands. -/
inductive UpdateStage
  | publishing
  | resolved
  | publishFailed
  | rejected

/-- The calls that are made on a channel, and the releases of evicted sessions. A call of
`unsubscribe` is only kept if it has something to wait for. -/
inductive ChannelCall (S U : Type)
  | subscribe (clientId : String) (stage : SubscribeStage S)
  | applyUpdate (update : U) (stage : UpdateStage)
  | unsubscribe (released : Bool)
  | eviction (released : Bool)

variable {S U : Type}

def ChannelCall.isSuspended : ChannelCall S U → Bool
  | .subscribe _ (.resolved _) | .subscribe _ .rejected => false
  | .subscribe _ _ => true
  | .applyUpdate _ .publishing => true
  | .applyUpdate _ _ => false
  | .unsubscribe released => !released
  | .eviction released => !released

def ChannelCall.appliedUpdate : ChannelCall S U → Option U
  | .applyUpdate _ .rejected => none
  | .applyUpdate update _ => some update
  | _ => none

def ChannelCall.resolvedUpdate : ChannelCall S U → Option U
  | .applyUpdate update .resolved => some update
  | _ => none

/-! ### Channels -/

/-- What is kept for a channel: whether the node owns it, its session, whether the timers of the
session and of the snapshot are set, the number of subscribers, the last snapshot and those that
are being written, and all calls in the order in which they were made. -/
structure SharedChannel (S U : Type) where
  owned : Bool
  session : Option S
  evictionTimer : Bool
  snapshotTimer : Bool
  subscriberCount : ℕ
  latest : Option S
  stores : List S
  calls : List (ChannelCall S U)

namespace SharedChannel

def fresh (persisted : Option S) : SharedChannel S U :=
  ⟨false, none, false, false, 0, persisted, [], []⟩

variable (adapter : SharedStateAdapter S U) (x : SharedChannel S U)

def subscribe (clientId : String) : SharedChannel S U :=
  { x with calls := x.calls ++ [.subscribe clientId (if x.owned then .joined true else .claiming)] }

def applyUpdate (update : U) : SharedChannel S U :=
  match x.owned, x.session with
  | true, some current =>
    { x with
      session := some (adapter.applyUpdate current update)
      evictionTimer := true
      calls := x.calls ++ [.applyUpdate update .publishing] }
  | _, _ => { x with calls := x.calls ++ [.applyUpdate update .rejected] }

def leave : SharedChannel S U :=
  { x with evictionTimer := false, session := none, calls := x.calls ++ [.unsubscribe false] }

def unsubscribe : SharedChannel S U :=
  if x.subscriberCount = 0 then x
  else
    let newCount := x.subscriberCount - 1
    if newCount = 0 then
      let x := { x with subscriberCount := 0, snapshotTimer := false }
      if x.owned then x.leave else x
    else { x with subscriberCount := newCount }

def onSessionEvicted : SharedChannel S U :=
  match x.session with
  | none => x
  | some state => { x with stores := x.stores ++ [state] }

def evict : SharedChannel S U :=
  let x := { x with evictionTimer := false, session := none }
  let x := if x.owned then { x with calls := x.calls ++ [.eviction false] } else x
  x.onSessionEvicted

def snapshotTimerFired : SharedChannel S U :=
  let x := { x with snapshotTimer := false }
  match x.session with
  | none => x
  | some state => { x with stores := x.stores ++ [state] }

def returned : S := x.session.getD adapter.createState

def countSubscriber (k : ℕ) (clientId : String) (isLocal : Bool) : SharedChannel S U :=
  let prevCount := x.subscriberCount
  let stage : SubscribeStage S :=
    if isLocal then if prevCount = 0 then .reading else .resolved (x.returned adapter)
    else .resolved adapter.createState
  { x with subscriberCount := prevCount + 1, calls := x.calls.set k (.subscribe clientId stage) }

def hydrate (k : ℕ) (clientId : String) : Option S → SharedChannel S U
  | none => { x with calls := x.calls.set k (.subscribe clientId (.resolved (x.returned adapter))) }
  | some state =>
    if x.owned then
      { x with
        session := some state
        calls := x.calls.set k (.subscribe clientId (.resolved state)) }
    else { x with calls := x.calls.set k (.subscribe clientId .rejected) }

/-- A claim, a release, a read or a publication of a call takes effect, or the call goes on to its
next wait. `ok` is whether a claim or a publication succeeds; a claim is only refused if the channel
is owned. -/
def proceed (k : ℕ) (ok : Bool) : Option (SharedChannel S U) :=
  match x.calls[k]? with
  | some (.subscribe clientId .claiming) =>
    if ok then
      some { x with owned := true, calls := x.calls.set k (.subscribe clientId .claimed) }
    else if x.owned then some { x with calls := x.calls.set k (.subscribe clientId .refused) }
    else none
  | some (.subscribe clientId .claimed) =>
    some { x with
      session := some adapter.createState
      evictionTimer := true
      calls := x.calls.set k (.subscribe clientId (.joined true)) }
  | some (.subscribe clientId .refused) =>
    some { x with calls := x.calls.set k (.subscribe clientId (.joined x.owned)) }
  | some (.subscribe clientId (.joined isLocal)) =>
    some (x.countSubscriber adapter k clientId isLocal)
  | some (.subscribe clientId .reading) =>
    some { x with calls := x.calls.set k (.subscribe clientId (.read x.latest)) }
  | some (.subscribe clientId (.read persisted)) => some (x.hydrate adapter k clientId persisted)
  | some (.applyUpdate update .publishing) =>
    if ok then
      some { x with snapshotTimer := true, calls := x.calls.set k (.applyUpdate update .resolved) }
    else some { x with calls := x.calls.set k (.applyUpdate update .publishFailed) }
  | some (.unsubscribe false) =>
    some { x with owned := false, calls := x.calls.set k (.unsubscribe true) }
  | some (.eviction false) =>
    some { x with owned := false, calls := x.calls.set k (.eviction true) }
  | _ => none

end SharedChannel

inductive ChannelEvent (U : Type)
  | subscribe (clientId : String)
  | applyUpdate (update : U)
  | unsubscribe
  | proceed (k : ℕ) (ok : Bool)
  | snapshotTimer
  | stored (k : ℕ)
  | evict

def SharedChannel.step (adapter : SharedStateAdapter S U) (x : SharedChannel S U) :
    ChannelEvent U → Option (SharedChannel S U)
  | .subscribe clientId => some (x.subscribe clientId)
  | .applyUpdate update => some (x.applyUpdate adapter update)
  | .unsubscribe => some x.unsubscribe
  | .proceed k ok => x.proceed adapter k ok
  | .snapshotTimer => if x.snapshotTimer then some x.snapshotTimerFired else none
  | .stored k =>
    x.stores[k]?.map fun state => { x with latest := some state, stores := x.stores.eraseIdx k }
  | .evict => if x.evictionTimer then some x.evict else none

/-! ### The manager -/

/-- The channels that were touched, the channels of every client, and what the snapshot store held
when the manager was started. -/
structure SharedStateManager (S U : Type) where
  persisted : String → Option S
  channels : OrderedMap String (SharedChannel S U)
  clientChannels : OrderedMap String (List String)

inductive SharedStateEvent (U : Type)
  | subscribe (clientId channelId : String)
  | applyUpdate (channelId : String) (update : U)
  | unsubscribe (clientId channelId : String)
  | onClientDisconnect (clientId : String)
  | proceed (channelId : String) (k : ℕ) (ok : Bool)
  | snapshotTimer (channelId : String)
  | stored (channelId : String) (k : ℕ)
  | evict (channelId : String)

namespace SharedStateManager

def started (persisted : String → Option S) : SharedStateManager S U := ⟨persisted, .empty, .empty⟩

variable (adapter : SharedStateAdapter S U) (s : SharedStateManager S U)
  (clientId channelId : String)

def channel : SharedChannel S U := (s.channels.get channelId).getD (.fresh (s.persisted channelId))

def setChannel (x : SharedChannel S U) : SharedStateManager S U :=
  { s with channels := s.channels.set channelId x }

def channelsOf : List String := (s.clientChannels.get clientId).getD []

def addClientChannel : SharedStateManager S U :=
  if channelId ∈ s.channelsOf clientId then s
  else
    { s with clientChannels :=
        s.clientChannels.set clientId (s.channelsOf clientId ++ [channelId]) }

def removeClientChannel : SharedStateManager S U :=
  match s.clientChannels.get clientId with
  | none => s
  | some channels =>
    let rest := channels.filter fun other => other ≠ channelId
    { s with clientChannels :=
        if rest.isEmpty then s.clientChannels.delete clientId
        else s.clientChannels.set clientId rest }

def unsubscribe : SharedStateManager S U :=
  (s.removeClientChannel clientId channelId).setChannel channelId (s.channel channelId).unsubscribe

def onClientDisconnect : SharedStateManager S U :=
  (s.channelsOf clientId).foldl (fun s channelId => s.unsubscribe clientId channelId) s

def counted (x : SharedChannel S U) (k : ℕ) : Option String :=
  match x.calls[k]? with
  | some (.subscribe clientId (.joined _)) => some clientId
  | _ => none

def stepChannel (ev : ChannelEvent U) : Option (SharedStateManager S U) :=
  ((s.channel channelId).step adapter ev).map (s.setChannel channelId)

def step (s : SharedStateManager S U) : SharedStateEvent U → Option (SharedStateManager S U)
  | .subscribe clientId channelId => s.stepChannel adapter channelId (.subscribe clientId)
  | .applyUpdate channelId update => s.stepChannel adapter channelId (.applyUpdate update)
  | .unsubscribe clientId channelId => some (s.unsubscribe clientId channelId)
  | .onClientDisconnect clientId => some (s.onClientDisconnect clientId)
  | .proceed channelId k ok =>
    (s.stepChannel adapter channelId (.proceed k ok)).map fun s' =>
      match counted (s.channel channelId) k with
      | none => s'
      | some clientId => s'.addClientChannel clientId channelId
  | .snapshotTimer channelId => s.stepChannel adapter channelId .snapshotTimer
  | .stored channelId k => s.stepChannel adapter channelId (.stored k)
  | .evict channelId => s.stepChannel adapter channelId .evict

end SharedStateManager

end DistributedCore.Gateway
