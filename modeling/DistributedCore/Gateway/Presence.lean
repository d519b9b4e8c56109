import DistributedCore.Library.OrderedMap
import DistributedCore.Library.Runs
import Mathlib.Data.Fintype.Basic
import Mathlib.Data.List.TakeWhile

/-!
# Presence of clients

Every node tells the others which clients it tracks: single clients as they come and go, and from
time to time all of them. The messages of one node arrive in their order, those of different nodes
in any order, and a receiver compares neither the sender nor a time with the entry that it has. So
a client that moves may be lost: a node that hears of its arrival at the new node first takes the
later message of its departure from the old node for a departure from the new one. And a client that
two nodes track is named twice when a message is sent to all clients.

Source: `src/gateway/presence/PresenceManager.ts`, `src/gateway/presence/types.ts`,
`src/gateway/routing/MessageRouter.ts`.
-/

namespace DistributedCore.Gateway

open Function OrderedMap List

variable {N M : Type}

/-- A client with the node it is connected to. -/
structure PresenceEntry (N M : Type) where
  clientId : String
  nodeId : N
  metadata : M
  connectedAt : ℕ
  lastSeen : ℕ

/-- The messages of the presence topic. -/
inductive PresenceMessage (N M : Type)
  | sync (entries : List (PresenceEntry N M))
  | track (entry : PresenceEntry N M)
  | untrack (clientId : String)

/-- The clients of this node, and those that other nodes reported. -/
structure PresenceManager (N M : Type) where
  localNodeId : N
  localClients : OrderedMap String (PresenceEntry N M)
  remoteClients : OrderedMap String (PresenceEntry N M)

namespace PresenceManager

variable (m : PresenceManager N M) (clientId : String)

def trackClient (metadata : M) (now : ℕ) : PresenceManager N M × PresenceMessage N M :=
  let entry := ⟨clientId, m.localNodeId, metadata, now, now⟩
  ({ m with localClients := m.localClients.set clientId entry }, .track entry)

def untrackClient : Option (PresenceManager N M × PresenceMessage N M) :=
  (m.localClients.get clientId).map fun _ =>
    ({ m with localClients := m.localClients.delete clientId }, .untrack clientId)

def updateClient (metadata : M) (now : ℕ) : Option (PresenceManager N M × PresenceMessage N M) :=
  (m.localClients.get clientId).map fun entry =>
    let entry := { entry with metadata := metadata, lastSeen := now }
    ({ m with localClients := m.localClients.set clientId entry }, .track entry)

def broadcastPresence : PresenceManager N M × PresenceMessage N M :=
  (m, .sync m.localClients.values)

def getClient : Option (PresenceEntry N M) :=
  (m.localClients.get clientId).or (m.remoteClients.get clientId)

def getClientNode : Option N := (m.getClient clientId).map (·.nodeId)

variable [DecidableEq N]

def handleRemoteMessage (senderNodeId : N) : PresenceMessage N M → PresenceManager N M
  | .sync entries =>
    let others := m.remoteClients.filter fun _ entry => entry.nodeId ≠ senderNodeId
    { m with remoteClients := entries.foldl (fun clients e => clients.set e.clientId e) others }
  | .track entry => { m with remoteClients := m.remoteClients.set entry.clientId entry }
  | .untrack clientId => { m with remoteClients := m.remoteClients.delete clientId }

theorem localClients_handleRemoteMessage (senderNodeId : N)
    (message : PresenceMessage N M) :
    (m.handleRemoteMessage senderNodeId message).localClients = m.localClients := by
  cases message <;> rfl

end PresenceManager

/-! ### What a message says about a client -/

namespace PresenceMessage

def entries : PresenceMessage N M → List (PresenceEntry N M)
  | .sync entries => entries
  | .track entry => [entry]
  | .untrack _ => []

/-- What the message says about a client, if anything. -/
def news (clientId : String) : PresenceMessage N M → Option (Option (PresenceEntry N M))
  | .sync entries => (entries.filter fun e => e.clientId = clientId).getLast?.map some
  | .track entry => if clientId = entry.clientId then some (some entry) else none
  | .untrack id => if clientId = id then some none else none

/-- The message is a sync that does not name the client. -/
def Omits (clientId : String) : PresenceMessage N M → Prop
  | .sync entries => news clientId (.sync entries) = none
  | .track _ | .untrack _ => False

def kept [DecidableEq N] (sender : N) (stored : Option (PresenceEntry N M)) :
    PresenceMessage N M → Option (PresenceEntry N M)
  | .sync _ => stored.filter fun e => e.nodeId ≠ sender
  | .track _ | .untrack _ => stored

variable {c : String} {msg : PresenceMessage N M} {e : PresenceEntry N M}

theorem mem_entries_of_news (h : msg.news c = some (some e)) :
    e ∈ msg.entries ∧ e.clientId = c := by
  cases msg with
  | sync =>
    obtain ⟨e', he', heq⟩ := Option.map_eq_some_iff.mp h
    cases heq
    have hmem := mem_filter.mp (mem_of_getLast? he')
    exact ⟨hmem.1, by simpa using hmem.2⟩
  | track =>
    rw [news] at h
    split_ifs at h with hc
    cases h
    exact ⟨mem_cons_self, hc.symm⟩
  | untrack =>
    rw [news] at h
    split_ifs at h
    cases h

theorem news_of_mem_entries (h : e ∈ msg.entries) : ∃ e', msg.news e.clientId = some (some e') := by
  cases msg with
  | sync entries =>
    have hmem : e ∈ entries.filter fun other => other.clientId = e.clientId :=
      mem_filter.mpr ⟨h, by simp⟩
    obtain ⟨e', he'⟩ := Option.isSome_iff_exists.mp
      (getLast?_isSome.mpr (ne_nil_of_mem hmem))
    exact ⟨e', by rw [news, he']; rfl⟩
  | track =>
    obtain rfl := mem_singleton.mp h
    exact ⟨e, if_pos rfl⟩
  | untrack => cases h

theorem get_handleRemoteMessage [DecidableEq N] (m : PresenceManager N M) (sender : N) :
    (m.handleRemoteMessage sender msg).remoteClients.get c =
      (msg.news c).getD (msg.kept sender (m.remoteClients.get c)) := by
  cases msg with
  | sync entries =>
    rw [PresenceManager.handleRemoteMessage, get_foldl_set, get_filter, news, kept]
    cases (entries.filter fun e => e.clientId = c).getLast? <;> rfl
  | track =>
    rw [PresenceManager.handleRemoteMessage, get_set, news, kept]
    split_ifs <;> rfl
  | untrack =>
    rw [PresenceManager.handleRemoteMessage, get_delete, news, kept]
    split_ifs <;> rfl

variable {stored last : Option (PresenceEntry N M)} {sender : N}

theorem mem_of_mem_kept [DecidableEq N] (h : e ∈ msg.kept sender stored) : e ∈ stored := by
  cases msg with
  | sync => exact (Option.filter_eq_some_iff.mp h).1
  | track | untrack => exact h

/-- What is stored after a message was stored before it, or the message names it. -/
theorem stored_or_named [DecidableEq N] {m : PresenceManager N M}
    (he : (m.handleRemoteMessage sender msg).remoteClients.get c = some e) :
    m.remoteClients.get c = some e ∨ e ∈ msg.entries ∧ e.clientId = c := by
  rw [get_handleRemoteMessage] at he
  cases hnews : msg.news c with
  | none =>
    rw [hnews] at he
    exact .inl (mem_of_mem_kept he)
  | some news =>
    rw [hnews] at he
    exact .inr (mem_entries_of_news (hnews.trans (congrArg some he)))

theorem kept_eq_self [DecidableEq N]
    (h : ∀ e ∈ stored, e.nodeId ≠ sender) : msg.kept sender stored = stored := by
  cases msg with
  | sync =>
    cases stored with
    | none => rfl
    | some e => simp [kept, h e rfl]
  | track | untrack => rfl

theorem getD_kept [DecidableEq N] (h : msg.Omits c → stored = none) :
    (msg.news c).getD (msg.kept sender stored) = (msg.news c).getD stored := by
  cases hnews : msg.news c with
  | some => rfl
  | none =>
    cases msg with
    | sync =>
      rw [h hnews]
      rfl
    | track | untrack => rfl

/-- Messages from a node that had the entry `last` for the client when it sent the last of them:
they lead from the entry `stored` to it. A list of clients omits no client that is stored. -/
def LeadTo (c : String) (last : Option (PresenceEntry N M)) :
    (stored : Option (PresenceEntry N M)) → List (PresenceMessage N M) → Prop
  | stored, [] => stored = last
  | stored, msg :: msgs =>
    (msg.Omits c → stored = none) ∧ LeadTo c last ((msg.news c).getD stored) msgs

theorem LeadTo.concat (hmsg : msg.Omits c → last = none) :
    {stored : Option (PresenceEntry N M)} → {msgs : List (PresenceMessage N M)} →
      LeadTo c last stored msgs → LeadTo c ((msg.news c).getD last) stored (msgs ++ [msg])
  | _, [], h => by
    obtain rfl : _ = last := h
    exact ⟨hmsg, rfl⟩
  | _, _ :: _, h => ⟨h.1, h.2.concat hmsg⟩

theorem leadTo_of_silent :
    {stored : Option (PresenceEntry N M)} → {msgs : List (PresenceMessage N M)} →
      (∀ msg ∈ msgs, msg.news c = none) → LeadTo c last stored msgs → stored = last
  | _, [], _, h => h
  | stored, msg :: msgs, hsilent, h => by
    have hmsg := hsilent msg mem_cons_self
    rw [LeadTo, hmsg] at h
    exact leadTo_of_silent (fun msg hm => hsilent msg (mem_cons_of_mem _ hm)) h.2

theorem leadTo_none : {msgs : List (PresenceMessage N M)} →
    (∀ msg ∈ msgs, msg.news c = none) → LeadTo c none none msgs
  | [], _ => rfl
  | msg :: msgs, hsilent => by
    refine ⟨fun _ => rfl, ?_⟩
    rw [hsilent msg mem_cons_self]
    exact leadTo_none fun msg hm => hsilent msg (mem_cons_of_mem _ hm)

end PresenceMessage

namespace PresenceManager

/-- The message tells all that the call changed. -/
structure Tells (m : PresenceManager N M) (call : PresenceManager N M × PresenceMessage N M) :
    Prop where
  localNodeId : call.1.localNodeId = m.localNodeId
  remote : call.1.remoteClients = m.remoteClients
  clients : ∀ c, call.1.localClients.get c = (call.2.news c).getD (m.localClients.get c)
  omits : ∀ c, call.2.Omits c → m.localClients.get c = none
  entries : ∀ e ∈ call.2.entries, e.nodeId = m.localNodeId

variable {m : PresenceManager N M} {call : PresenceManager N M × PresenceMessage N M}
  {clientId : String}

theorem tells_trackClient (clientId : String) (metadata : M) (now : ℕ) :
    Tells m (m.trackClient clientId metadata now) where
  localNodeId := rfl
  remote := rfl
  clients c := by
    simp only [PresenceManager.trackClient, get_set, PresenceMessage.news]
    split_ifs <;> rfl
  omits _ h := h.elim
  entries e he := by
    obtain rfl := mem_singleton.mp he
    rfl

theorem tells_updateClient {metadata : M} {now : ℕ}
    (hm : ∀ c, ∀ e ∈ m.localClients.get c, e.clientId = c ∧ e.nodeId = m.localNodeId)
    (h : m.updateClient clientId metadata now = some call) :
    Tells m call ∧ ∀ c, call.2.news c ≠ none → (m.localClients.get c).isSome := by
  obtain ⟨entry, hentry, rfl⟩ := Option.map_eq_some_iff.mp h
  obtain ⟨hclient, hnode⟩ := hm clientId entry hentry
  refine ⟨⟨rfl, rfl, fun c => ?_, fun _ h => h.elim, fun e he => ?_⟩, fun c hc => ?_⟩
  · simp only [get_set, PresenceMessage.news, hclient]
    split_ifs <;> rfl
  · obtain rfl := mem_singleton.mp he
    exact hnode
  · obtain rfl : c = clientId := by simpa [PresenceMessage.news, hclient] using hc
    rw [hentry]
    rfl

theorem tells_untrackClient (h : m.untrackClient clientId = some call) :
    Tells m call ∧ ∀ c, call.2.news c ≠ none → (m.localClients.get c).isSome := by
  obtain ⟨entry, hentry, rfl⟩ := Option.map_eq_some_iff.mp h
  refine ⟨⟨rfl, rfl, fun c => ?_, fun _ h => h.elim, fun e he => ?_⟩, fun c hc => ?_⟩
  · simp only [get_delete, PresenceMessage.news]
    split_ifs <;> rfl
  · cases he
  · obtain rfl : c = clientId := by simpa [PresenceMessage.news] using hc
    rw [hentry]
    rfl

theorem tells_broadcastPresence
    (hm : ∀ c, ∀ e ∈ m.localClients.get c, e.clientId = c ∧ e.nodeId = m.localNodeId) :
    Tells m m.broadcastPresence ∧
      ∀ c, m.broadcastPresence.2.news c ≠ none → (m.localClients.get c).isSome := by
  have hnews : ∀ c, m.broadcastPresence.2.news c = (m.localClients.get c).map some := by
    intro c
    rw [PresenceManager.broadcastPresence, PresenceMessage.news,
      filter_values _ _ _ fun k e he => (hm k e he).1]
    cases m.localClients.get c <;> rfl
  refine ⟨⟨rfl, rfl, fun c => ?_, fun c hc => ?_, fun e he => ?_⟩, fun c hc => ?_⟩
  · rw [hnews]
    cases hget : m.localClients.get c with
    | none => exact hget
    | some => exact hget
  · exact Option.map_eq_none_iff.mp ((hnews c).symm.trans hc)
  · obtain ⟨c, hc⟩ := (mem_values_iff _ _).mp he
    exact (hm c e hc).2
  · rw [hnews] at hc
    simpa [Option.isSome_iff_ne_none] using hc

end PresenceManager

/-! ### The nodes -/

/-- The managers, and the messages on their way. -/
structure PresenceNetwork (N M : Type) where
  node : N → PresenceManager N M
  channel : N → N → List (PresenceMessage N M)

/-- The calls, and the deliveries in the order of each channel. -/
inductive PresenceEvent (N M : Type)
  | trackClient (x : N) (clientId : String) (metadata : M) (now : ℕ)
  | updateClient (x : N) (clientId : String) (metadata : M) (now : ℕ)
  | untrackClient (x : N) (clientId : String)
  | broadcastPresence (x : N)
  | deliver (p d : N)

namespace PresenceNetwork

def started : PresenceNetwork N M := ⟨fun x => ⟨x, .empty, .empty⟩, fun _ _ => []⟩

variable (s : PresenceNetwork N M)

/-- The client is connected to the node. -/
def Tracks (x : N) (c : String) : Prop := ((s.node x).localClients.get c).isSome

/-- No message is on its way. -/
def Quiet : Prop := ∀ p d, s.channel p d = []

/-- If no message is in flight and no client is tracked at two nodes, every node knows where every
client is tracked. -/
def Converged : Prop :=
  s.Quiet → (∀ c x y, s.Tracks x c → s.Tracks y c → x = y) →
    ∀ c d x, (s.node d).getClientNode c = some x ↔ s.Tracks x c

/-- A node tracks a client only when no other node tracks it and no message from another node that
names it is in flight. -/
def Handed : PresenceEvent N M → Prop
  | .trackClient x c _ _ =>
    ∀ y, y ≠ x → ¬s.Tracks y c ∧ ∀ d, ∀ msg ∈ s.channel y d, msg.news c = none
  | _ => True

/-! ### One node speaks for a client -/

/-- Only the node `x` speaks of the client, and the messages lead to its state. -/
structure HeldBy (s : PresenceNetwork N M) (c : String) (x : N) : Prop where
  tracked : ∀ y, s.Tracks y c → y = x
  sent : ∀ p d, ∀ msg ∈ s.channel p d, msg.news c ≠ none → p = x
  stored : ∀ d, ∀ e ∈ (s.node d).remoteClients.get c, e.nodeId = x
  own : (s.node x).remoteClients.get c = none
  leads : ∀ d, d ≠ x → PresenceMessage.LeadTo c ((s.node x).localClients.get c)
    ((s.node d).remoteClients.get c) (s.channel x d)

/-- Entries carry their client and the node that made them, and every client has a node that speaks
for it. -/
structure Sound (s : PresenceNetwork N M) : Prop where
  localNodeId : ∀ x, (s.node x).localNodeId = x
  entry : ∀ x c, ∀ e ∈ (s.node x).localClients.get c, e.clientId = c ∧ e.nodeId = x
  message : ∀ p d, ∀ msg ∈ s.channel p d, ∀ e ∈ msg.entries, e.nodeId = p
  loopback : ∀ x, s.channel x x = []
  held : ∀ c, ∃ x, s.HeldBy c x

variable {s s' : PresenceNetwork N M} {c : String} {x y p d : N} {msg : PresenceMessage N M}
  {rest : List (PresenceMessage N M)} {call : PresenceManager N M × PresenceMessage N M}

theorem HeldBy.move (h : s.HeldBy c x)
    (hfree : ∀ z, z ≠ y → ¬s.Tracks z c ∧ ∀ d, ∀ msg ∈ s.channel z d, msg.news c = none) :
    s.HeldBy c y := by
  by_cases hxy : x = y
  · exact hxy ▸ h
  · have hgone : (s.node x).localClients.get c = none := by simpa [Tracks] using (hfree x hxy).1
    have hnone : ∀ d, (s.node d).remoteClients.get c = none := by
      intro d
      by_cases hd : d = x
      · rw [hd, h.own]
      · rw [PresenceMessage.leadTo_of_silent ((hfree x hxy).2 d) (h.leads d hd), hgone]
    refine ⟨fun z hz => by_contra fun hne => (hfree z hne).1 hz, fun p d msg hmsg hnews => ?_,
      fun d e he => ?_, hnone y, fun d _ => ?_⟩
    · exact by_contra fun hne => hnews ((hfree p hne).2 d msg hmsg)
    · rw [hnone] at he
      cases he
    · have hfresh : (s.node y).localClients.get c = none := by
        by_contra hsome
        exact hxy (h.tracked y (Option.isSome_iff_ne_none.mpr hsome)).symm
      rw [hfresh, hnone]
      exact PresenceMessage.leadTo_none fun msg hmsg =>
        by_contra fun hnews => hxy (h.sent y d msg hmsg hnews).symm

theorem Sound.speaks (h : s.Sound) (htracks : s.Tracks y c) : s.HeldBy c y := by
  obtain ⟨x, hx⟩ := h.held c
  exact hx.tracked y htracks ▸ hx

theorem sound_started [Nonempty N] : (started : PresenceNetwork N M).Sound where
  localNodeId _ := rfl
  entry _ _ _ he := by cases he
  message _ _ _ hmsg := by cases hmsg
  loopback _ := rfl
  held c := ‹Nonempty N›.elim fun x =>
    ⟨x, (fun _ h => by cases h), (fun _ _ _ h => by cases h), (fun _ _ h => by cases h), rfl,
      fun _ _ => rfl⟩

theorem Sound.converged (h : s.Sound) : s.Converged := by
  intro hquiet _ c d x
  obtain ⟨y, hy⟩ := h.held c
  have hlocal : ∀ z, ∀ e ∈ (s.node z).localClients.get c, e.nodeId = z := fun z e he =>
    (h.entry z c e he).2
  have htracks : s.Tracks x c ↔ x = y ∧ s.Tracks y c :=
    ⟨fun hx => ⟨hy.tracked x hx, hy.tracked x hx ▸ hx⟩, fun hx => hx.1 ▸ hx.2⟩
  have hclient : (s.node d).getClient c = (s.node y).localClients.get c := by
    rw [PresenceManager.getClient]
    by_cases hd : d = y
    · rw [hd, hy.own, Option.or_none]
    · have hnone : (s.node d).localClients.get c = none := by
        by_contra hsome
        exact hd (hy.tracked d (Option.isSome_iff_ne_none.mpr hsome))
      have hleads := hy.leads d hd
      rw [hquiet] at hleads
      rw [hnone, Option.none_or]
      exact hleads
  rw [htracks, PresenceManager.getClientNode, hclient, Tracks]
  cases hget : (s.node y).localClients.get c with
  | none => simp
  | some e => simp [hlocal y e hget, eq_comm]

/-! ### Runs -/

variable [DecidableEq N]

def act (s : PresenceNetwork N M) (x : N) (call : PresenceManager N M × PresenceMessage N M) :
    PresenceNetwork N M where
  node := update s.node x call.1
  channel p d := if p = x ∧ d ≠ x then s.channel p d ++ [call.2] else s.channel p d

def arrive (s : PresenceNetwork N M) (p d : N) (msg : PresenceMessage N M)
    (rest : List (PresenceMessage N M)) : PresenceNetwork N M where
  node := update s.node d ((s.node d).handleRemoteMessage p msg)
  channel x y := if x = p ∧ y = d then rest else s.channel x y

def step (s : PresenceNetwork N M) : PresenceEvent N M → Option (PresenceNetwork N M)
  | .trackClient x c metadata now => some (s.act x ((s.node x).trackClient c metadata now))
  | .updateClient x c metadata now =>
    some (((s.node x).updateClient c metadata now).elim s (s.act x))
  | .untrackClient x c => some (((s.node x).untrackClient c).elim s (s.act x))
  | .broadcastPresence x => some (s.act x (s.node x).broadcastPresence)
  | .deliver p d =>
    match s.channel p d with
    | [] => none
    | msg :: rest => some (s.arrive p d msg rest)

theorem node_act_self : (s.act y call).node y = call.1 := update_self ..

theorem node_act_of_ne (h : d ≠ y) : (s.act y call).node d = s.node d := update_of_ne h ..

theorem node_arrive_self :
    (s.arrive p d msg rest).node d = (s.node d).handleRemoteMessage p msg := update_self ..

theorem node_arrive_of_ne (h : x ≠ d) : (s.arrive p d msg rest).node x = s.node x :=
  update_of_ne h ..

theorem localClients_arrive (x : N) :
    ((s.arrive p d msg rest).node x).localClients = (s.node x).localClients := by
  by_cases hx : x = d
  · subst hx
    rw [node_arrive_self, PresenceManager.localClients_handleRemoteMessage]
  · rw [node_arrive_of_ne hx]

theorem channel_arrive_self : (s.arrive p d msg rest).channel p d = rest := if_pos ⟨rfl, rfl⟩

theorem channel_arrive_of_ne (h : ¬(x = p ∧ y = d)) :
    (s.arrive p d msg rest).channel x y = s.channel x y := if_neg h

theorem mem_channel_of_arrive (hchannel : s.channel p d = msg :: rest) {m : PresenceMessage N M}
    (hm : m ∈ (s.arrive p d msg rest).channel x y) : m ∈ s.channel x y := by
  by_cases h : x = p ∧ y = d
  · obtain ⟨rfl, rfl⟩ := h
    rw [channel_arrive_self] at hm
    exact hchannel ▸ mem_cons_of_mem _ hm
  · rwa [channel_arrive_of_ne h] at hm

theorem remoteClients_act (h : (s.node y).Tells call) (d : N) :
    ((s.act y call).node d).remoteClients = (s.node d).remoteClients := by
  by_cases hd : d = y
  · rw [hd, node_act_self, h.remote]
  · rw [node_act_of_ne hd]

theorem HeldBy.act (h : s.HeldBy c x) (hcall : (s.node y).Tells call)
    (hy : y = x ∨ call.2.news c = none) : (s.act y call).HeldBy c x := by
  have hremote := remoteClients_act hcall
  refine ⟨fun z hz => ?_, fun p d msg hmsg hnews => ?_, fun d e he => ?_, ?_, fun d hd => ?_⟩
  · by_cases hzy : z = y
    · subst hzy
      refine hy.elim id fun hnone => h.tracked z ?_
      rwa [Tracks, node_act_self, hcall.clients, hnone] at hz
    · rw [Tracks, node_act_of_ne hzy] at hz
      exact h.tracked z hz
  · simp only [PresenceNetwork.act] at hmsg
    split_ifs at hmsg with hp
    · rcases mem_append.mp hmsg with hold | hnew
      · exact h.sent p d msg hold hnews
      · obtain rfl := mem_singleton.mp hnew
        exact hp.1.trans (hy.resolve_right hnews)
    · exact h.sent p d msg hmsg hnews
  · rw [hremote] at he
    exact h.stored d e he
  · rw [hremote, h.own]
  · rw [hremote]
    by_cases hxy : x = y
    · subst hxy
      have hchannel : (s.act x call).channel x d = s.channel x d ++ [call.2] := if_pos ⟨rfl, hd⟩
      rw [hchannel, node_act_self, hcall.clients]
      exact (h.leads d hd).concat (hcall.omits c)
    · have hchannel : (s.act y call).channel x d = s.channel x d := if_neg fun h => hxy h.1
      rw [hchannel, node_act_of_ne hxy]
      exact h.leads d hd

theorem HeldBy.arrive (h : s.HeldBy c x) (hs : s.Sound) (hchannel : s.channel p d = msg :: rest) :
    (s.arrive p d msg rest).HeldBy c x := by
  have hmem : msg ∈ s.channel p d := hchannel ▸ mem_cons_self
  have hremote : ((s.arrive p d msg rest).node d).remoteClients.get c =
      (msg.news c).getD (msg.kept p ((s.node d).remoteClients.get c)) := by
    rw [node_arrive_self, PresenceMessage.get_handleRemoteMessage]
  -- a message of another node leaves the entry alone
  have hforeign : p ≠ x →
      ((s.arrive p d msg rest).node d).remoteClients.get c = (s.node d).remoteClients.get c := by
    intro hp
    have hnews : msg.news c = none := by_contra fun hne => hp (h.sent p d msg hmem hne)
    rw [hremote, hnews]
    exact PresenceMessage.kept_eq_self fun e he => (h.stored d e he).trans_ne hp.symm
  refine ⟨fun z hz => ?_, fun p' d' m hm hnews => ?_, fun z e he => ?_, ?_, fun z hz => ?_⟩
  · rw [Tracks, localClients_arrive] at hz
    exact h.tracked z hz
  · exact h.sent p' d' m (mem_channel_of_arrive hchannel hm) hnews
  · by_cases hzd : z = d
    · subst hzd
      by_cases hp : p = x
      · subst hp
        rw [node_arrive_self] at he
        rcases PresenceMessage.stored_or_named he with hstored | ⟨hnamed, _⟩
        · exact h.stored z e hstored
        · exact hs.message p z msg hmem e hnamed
      · rw [hforeign hp] at he
        exact h.stored z e he
    · rw [node_arrive_of_ne hzd] at he
      exact h.stored z e he
  · by_cases hxd : x = d
    · subst hxd
      rw [hforeign, h.own]
      rintro rfl
      rw [hs.loopback] at hchannel
      cases hchannel
    · rw [node_arrive_of_ne hxd, h.own]
  · rw [localClients_arrive]
    by_cases hzd : z = d
    · subst hzd
      by_cases hp : p = x
      · subst hp
        have hleads := h.leads z hz
        rw [hchannel] at hleads
        rw [channel_arrive_self, hremote, PresenceMessage.getD_kept hleads.1]
        exact hleads.2
      · rw [hforeign hp, channel_arrive_of_ne fun h => hp h.1.symm]
        exact h.leads z hz
    · rw [node_arrive_of_ne hzd, channel_arrive_of_ne fun h => hzd h.2]
      exact h.leads z hz

theorem Sound.act (h : s.Sound) (hcall : (s.node y).Tells call)
    (hspeaks : ∀ c, call.2.news c ≠ none → s.HeldBy c y) : (s.act y call).Sound where
  localNodeId x := by
    by_cases hx : x = y
    · rw [hx, node_act_self, hcall.localNodeId, h.localNodeId]
    · rw [node_act_of_ne hx, h.localNodeId]
  entry x c e he := by
    by_cases hx : x = y
    · subst hx
      rw [node_act_self, hcall.clients] at he
      cases hnews : call.2.news c with
      | none => exact h.entry x c e (by simpa [hnews] using he)
      | some o =>
        obtain rfl : o = some e := by simpa [hnews] using he
        obtain ⟨hmem, hclient⟩ := PresenceMessage.mem_entries_of_news hnews
        exact ⟨hclient, (hcall.entries e hmem).trans (h.localNodeId x)⟩
    · rw [node_act_of_ne hx] at he
      exact h.entry x c e he
  message p d msg hmsg e he := by
    simp only [PresenceNetwork.act] at hmsg
    split_ifs at hmsg with hp
    · rcases mem_append.mp hmsg with hold | hnew
      · exact h.message p d msg hold e he
      · obtain rfl := mem_singleton.mp hnew
        rw [hcall.entries e he, h.localNodeId, hp.1]
    · exact h.message p d msg hmsg e he
  loopback x := (if_neg fun hx => hx.2 hx.1).trans (h.loopback x)
  held c := by
    by_cases hnews : call.2.news c = none
    · obtain ⟨x, hx⟩ := h.held c
      exact ⟨x, hx.act hcall (.inr hnews)⟩
    · exact ⟨y, (hspeaks c hnews).act hcall (.inl rfl)⟩

theorem Sound.arrive (h : s.Sound) (hchannel : s.channel p d = msg :: rest) :
    (s.arrive p d msg rest).Sound where
  localNodeId x := by
    by_cases hx : x = d
    · subst hx
      rw [node_arrive_self]
      cases msg <;> exact h.localNodeId x
    · rw [node_arrive_of_ne hx, h.localNodeId]
  entry x c e he := by
    rw [localClients_arrive] at he
    exact h.entry x c e he
  message p' d' m hm := h.message p' d' m (mem_channel_of_arrive hchannel hm)
  loopback x := by
    by_cases hx : x = p ∧ x = d
    · rw [← hx.1, ← hx.2, h.loopback] at hchannel
      cases hchannel
    · rw [channel_arrive_of_ne hx, h.loopback]
  held c := by
    obtain ⟨x, hx⟩ := h.held c
    exact ⟨x, hx.arrive h hchannel⟩

theorem Sound.step {ev : PresenceEvent N M} (h : s.Sound) (hev : s.Handed ev)
    (hstep : s.step ev = some s') : s'.Sound := by
  have hm : ∀ x c, ∀ e ∈ (s.node x).localClients.get c,
      e.clientId = c ∧ e.nodeId = (s.node x).localNodeId := fun x c e he =>
    (h.localNodeId x).symm ▸ h.entry x c e he
  cases ev with
  | trackClient _ c =>
    cases hstep
    refine h.act (PresenceManager.tells_trackClient ..) fun c' hnews => ?_
    obtain rfl : c' = c := by simpa [PresenceManager.trackClient, PresenceMessage.news] using hnews
    obtain ⟨z, hz⟩ := h.held c'
    exact hz.move hev
  | updateClient x c metadata now =>
    cases hstep
    cases hcall : (s.node x).updateClient c metadata now with
    | none => exact h
    | some =>
      obtain ⟨htells, hnews⟩ := PresenceManager.tells_updateClient (hm x) hcall
      exact h.act htells fun c hc => h.speaks (hnews c hc)
  | untrackClient x c =>
    cases hstep
    cases hcall : (s.node x).untrackClient c with
    | none => exact h
    | some =>
      obtain ⟨htells, hnews⟩ := PresenceManager.tells_untrackClient hcall
      exact h.act htells fun c hc => h.speaks (hnews c hc)
  | broadcastPresence x =>
    cases hstep
    obtain ⟨htells, hnews⟩ := PresenceManager.tells_broadcastPresence (hm x)
    exact h.act htells fun c hc => h.speaks (hnews c hc)
  | deliver =>
    rw [PresenceNetwork.step] at hstep
    split at hstep
    · cases hstep
    · cases hstep
      exact h.arrive ‹_›

/-- **Presence converges** in every run in which clients are tracked only at nodes that may speak
for them. -/
theorem converged_of_run (es : List (PresenceEvent N M)) {t : PresenceNetwork N M}
    (hall : AllSteps step Handed started es) (hrun : exec step started es = some t) :
    t.Converged := by
  by_cases hnode : Nonempty N
  · exact (exec_invariant (fun _ _ _ h hev hstep => h.step hev hstep)
      sound_started hall hrun).converged
  · exact fun _ _ _ d => absurd ⟨d⟩ hnode

instance decidableHanded [Fintype N] (s : PresenceNetwork N M) (ev : PresenceEvent N M) :
    Decidable (s.Handed ev) := by
  unfold Handed Tracks
  split <;> infer_instance

def moving : List (PresenceEvent (Fin 3) Unit) :=
  [.trackClient 0 "c" () 1, .deliver 0 1, .deliver 0 2, .untrackClient 0 "c", .deliver 0 1,
    .deliver 0 2, .trackClient 1 "c" () 2, .deliver 1 0, .deliver 1 2]

theorem converged_moving : ∃ t, exec step started moving = some t ∧ t.Converged :=
  ⟨_, rfl, converged_of_run moving (by decide) rfl⟩

/-- The client is tracked at the node `1` at once, and its departure from the node `0` arrives last
at the node `2`. -/
def crossing : List (PresenceEvent (Fin 3) Unit) :=
  [.trackClient 0 "c" () 1, .trackClient 1 "c" () 2, .untrackClient 0 "c", .deliver 0 1,
    .deliver 0 1, .deliver 1 0, .deliver 0 2, .deliver 1 2, .deliver 0 2]

theorem client_lost : ∃ t, exec step started crossing = some t ∧ ¬t.Converged := by
  have hempty : ∀ t ∈ exec step started crossing, ∀ x, x ≠ 1 →
      (t.node x).localClients.keys = [] := by decide
  have hfinal : ∀ t ∈ exec step started crossing, (∀ p d, (t.channel p d).isEmpty) ∧
      ((t.node 1).localClients.get "c").isSome ∧ (t.node 2).getClientNode "c" = none := by decide
  obtain ⟨t, hrun⟩ := Option.isSome_iff_exists.mp (rfl : (exec step started crossing).isSome = true)
  obtain ⟨hquiet, htracked, hunknown⟩ := hfinal t hrun
  have hone : ∀ c x, t.Tracks x c → x = 1 := fun c x hx => by
    by_contra hne
    have hkey := (mem_keys_iff _ c).mpr (Option.isSome_iff_exists.mp hx)
    rw [hempty t hrun x hne] at hkey
    cases hkey
  refine ⟨t, hrun, fun h => ?_⟩
  have hknown := h (fun p d => isEmpty_iff.mp (hquiet p d)) fun c x y hx hy =>
    (hone c x hx).trans (hone c y hy).symm
  rw [(hknown "c" 2 1).mpr htracked] at hunknown
  cases hunknown

end PresenceNetwork

/-! ### Broadcasts -/

/-- What happens at one manager: a call of its user or a message from another node. -/
inductive PresenceInput (N M : Type)
  | trackClient (clientId : String) (metadata : M) (now : ℕ)
  | untrackClient (clientId : String)
  | handleRemoteMessage (sender : N) (message : PresenceMessage N M)

namespace PresenceManager

section Broadcast

variable [DecidableEq N] (m : PresenceManager N M) (rejects : N → Bool)
  (filter : PresenceEntry N M → Bool)

def step : PresenceInput N M → Option (PresenceManager N M)
  | .trackClient clientId metadata now => some (m.trackClient clientId metadata now).1
  | .untrackClient clientId => some ((m.untrackClient clientId).elim m Prod.fst)
  | .handleRemoteMessage sender message => some (m.handleRemoteMessage sender message)

def getOnlineClients : List (PresenceEntry N M) := m.localClients.values ++ m.remoteClients.values

/-- The nodes with those of their clients that pass the filter. -/
def byNode : List (N × List String) :=
  (groupBy (·.nodeId) (m.getOnlineClients.filter filter)).entries.map fun (nodeId, clients) =>
    (nodeId, clients.map (·.clientId))

/-- What `MessageRouter.broadcast` emits for the local node and sends to the others. It waits for
every `send`, and one that rejects ends it. -/
def broadcast : List (N × List String) :=
  (m.byNode filter).takeWhile fun (nodeId, _) => nodeId = m.localNodeId || !rejects nodeId

/-- The clients that a broadcast names, with the nodes to which it goes for them. -/
def addressees : List (N × String) :=
  (m.broadcast rejects filter).flatMap fun (nodeId, clientIds) => clientIds.map (nodeId, ·)

/-- Every client that passes the filter is named once, at its node. -/
def ReachesOnce : Prop := ∀ e ∈ m.getOnlineClients, filter e = true →
  ∃ nodeId, m.getClientNode e.clientId = some nodeId ∧
    (m.addressees rejects filter).filter (·.2 = e.clientId) = [(nodeId, e.clientId)]

/-- No message to another node with an online client is rejected. -/
def Sends : Prop := ∀ e ∈ m.getOnlineClients, e.nodeId = m.localNodeId ∨ rejects e.nodeId = false

/-- The step does not make a client of both maps: a client that is tracked is not stored as one of
another node, and a message names no client that is tracked here. -/
def KeepsApart : PresenceInput N M → Prop
  | .trackClient clientId _ _ => m.remoteClients.get clientId = none
  | .untrackClient _ => True
  | .handleRemoteMessage _ message =>
    ∀ e ∈ message.entries, m.localClients.get e.clientId = none

/-- No client is stored as one of this node and as one of another node. -/
def Apart : Prop := ∀ c, m.localClients.get c = none ∨ m.remoteClients.get c = none

/-- The entries stand under the ids of their clients. -/
structure ById : Prop where
  own : ∀ c e, m.localClients.get c = some e → e.clientId = c
  other : ∀ c e, m.remoteClients.get c = some e → e.clientId = c

variable {m rejects filter} {m' : PresenceManager N M} {ev : PresenceInput N M}

theorem broadcast_of_sends (h : m.Sends rejects) :
    m.broadcast rejects filter = m.byNode filter := by
  refine takeWhile_eq_self_iff.mpr fun p hp => ?_
  obtain ⟨⟨nodeId, clients⟩, hgroup, rfl⟩ := mem_map.mp hp
  rw [mem_entries_iff, get_groupBy] at hgroup
  split_ifs at hgroup with hnonempty
  obtain ⟨e, he⟩ := exists_mem_of_ne_nil _ hnonempty
  simp only [mem_filter, decide_eq_true_eq] at he
  simpa [← he.2] using h e he.1.1

theorem addressees_perm (h : m.Sends rejects) : (m.addressees rejects filter).Perm
    ((m.getOnlineClients.filter filter).map fun e => (e.nodeId, e.clientId)) := by
  refine Perm.trans (.of_eq ?_) ((flatten_groupBy_perm (·.nodeId) _).map _)
  rw [addressees, broadcast_of_sends h, byNode, flatMap_map, map_flatten, values, map_map,
    flatMap_def]
  refine congrArg _ (map_congr_left fun p hp => ?_)
  have hgroup := (mem_entries_iff _ _ _).mp hp
  rw [get_groupBy] at hgroup
  split_ifs at hgroup
  have hmem : ∀ e ∈ p.2, p.1 = e.nodeId := by simp +contextual [← Option.some.inj hgroup]
  simpa using hmem

/-- The addressees with an id are the clients with this id that pass the filter. -/
theorem filter_addressees_perm (h : m.Sends rejects) (c : String) :
    ((m.addressees rejects filter).filter (·.2 = c)).Perm
      ((m.getOnlineClients.filter fun e => e.clientId = c ∧ filter e).map
        fun e => (e.nodeId, e.clientId)) := by
  refine ((addressees_perm h).filter _).trans (.of_eq ?_)
  simp [filter_map, filter_filter, comp_def]

omit [DecidableEq N] in
theorem ById.filter_online (h : m.ById) (c : String) :
    m.getOnlineClients.filter (·.clientId = c) =
      (m.localClients.get c).toList ++ (m.remoteClients.get c).toList := by
  rw [getOnlineClients, filter_append, filter_values _ _ _ h.own, filter_values _ _ _ h.other]

omit [DecidableEq N] in
theorem ById.mem_online (h : m.ById) {e : PresenceEntry N M} : e ∈ m.getOnlineClients ↔
    m.localClients.get e.clientId = some e ∨ m.remoteClients.get e.clientId = some e := by
  have hmem : e ∈ m.getOnlineClients ↔ e ∈ m.getOnlineClients.filter (·.clientId = e.clientId) := by
    simp
  rw [hmem, h.filter_online, mem_append, Option.mem_toList, Option.mem_toList]

omit [DecidableEq N] in
/-- Clients that are apart are found at the nodes of their entries. -/
theorem ById.getClientNode (h : m.ById) (hapart : m.Apart) {e : PresenceEntry N M}
    (he : e ∈ m.getOnlineClients) : m.getClientNode e.clientId = some e.nodeId := by
  rw [PresenceManager.getClientNode, getClient]
  rcases h.mem_online.mp he with hget | hget
  · rw [hget]
    rfl
  · rw [(hapart e.clientId).resolve_right (by simp [hget]), hget]
    rfl

theorem ById.reachesOnce (h : m.ById) (hapart : m.Apart) (hsends : m.Sends rejects) :
    m.ReachesOnce rejects filter := by
  intro e he hfilter
  refine ⟨e.nodeId, h.getClientNode hapart he, perm_singleton.mp ?_⟩
  refine (filter_addressees_perm hsends _).trans (.of_eq ?_)
  have hone : m.getOnlineClients.filter (·.clientId = e.clientId) = [e] := by
    rw [h.filter_online]
    rcases h.mem_online.mp he with hget | hget
    · simp [hget, (hapart e.clientId).resolve_left (by simp [hget])]
    · simp [hget, (hapart e.clientId).resolve_right (by simp [hget])]
  simp only [Bool.decide_and, Bool.decide_eq_true, Bool.and_comm, ← filter_filter, hone]
  simp [hfilter]

/-- A broadcast to all clients would name a client of both maps twice. -/
theorem ById.apart (h : m.ById) (hreaches : m.ReachesOnce (fun _ => false) fun _ => true) :
    m.Apart := by
  intro c
  by_contra! hboth
  obtain ⟨⟨e, he⟩, ⟨e', he'⟩⟩ := hboth.imp Option.ne_none_iff_exists'.mp
    Option.ne_none_iff_exists'.mp
  obtain rfl := h.own c e he
  obtain ⟨nodeId, -, hnamed⟩ := hreaches e (h.mem_online.mpr (.inl he)) rfl
  have hperm : ((m.addressees (fun _ => false) fun _ => true).filter (·.2 = e.clientId)).Perm _ :=
    filter_addressees_perm (fun _ _ => .inr rfl) e.clientId
  simp only [hnamed, and_true, h.filter_online, he, he'] at hperm
  exact absurd hperm.length_eq (by simp)

theorem ById.sends (h : m.ById) (hapart : m.Apart)
    (hreaches : m.ReachesOnce rejects fun _ => true) : m.Sends rejects := by
  intro e he
  obtain ⟨nodeId, hnode, hnamed⟩ := hreaches e he rfl
  rw [h.getClientNode hapart he, Option.some.injEq] at hnode
  subst hnode
  have hmem : (e.nodeId, e.clientId) ∈ m.addressees rejects fun _ => true :=
    mem_of_mem_filter (hnamed ▸ mem_singleton_self _)
  obtain ⟨p, hp, hid⟩ := mem_flatMap.mp hmem
  obtain ⟨id, -, heq⟩ := mem_map.mp hid
  obtain ⟨hnode, -⟩ := Prod.mk.inj heq
  simpa [hnode] using mem_takeWhile_imp hp

theorem ById.step (h : m.ById) (hstep : m.step ev = some m') : m'.ById := by
  cases ev with
  | trackClient clientId metadata now =>
    cases hstep
    refine ⟨fun c e he => ?_, h.other⟩
    rw [trackClient, get_set] at he
    split_ifs at he with hc
    · exact Option.some.inj he ▸ hc.symm
    · exact h.own c e he
  | untrackClient clientId =>
    cases hstep
    rw [untrackClient]
    cases m.localClients.get clientId with
    | none => exact h
    | some =>
      refine ⟨fun c e he => h.own c e ?_, h.other⟩
      simp only [Option.map_some, Option.elim_some, get_delete] at he
      exact (Option.ite_none_left_eq_some.mp he).2
  | handleRemoteMessage sender message =>
    cases hstep
    refine ⟨?_, fun c e he => ?_⟩
    · rw [localClients_handleRemoteMessage]
      exact h.own
    rcases PresenceMessage.stored_or_named he with hstored | ⟨_, hid⟩
    · exact h.other c e hstored
    · exact hid

theorem Apart.step_iff (h : m.Apart) (hstep : m.step ev = some m') :
    m'.Apart ↔ m.KeepsApart ev := by
  cases ev with
  | trackClient clientId metadata now =>
    cases hstep
    refine ⟨fun h' => (h' clientId).resolve_left (by simp [trackClient]), fun hnone c => ?_⟩
    rw [trackClient, get_set]
    split_ifs with hc
    · exact .inr (hc ▸ hnone)
    · exact h c
  | untrackClient clientId =>
    cases hstep
    refine iff_of_true (fun c => ?_) trivial
    rw [untrackClient]
    cases m.localClients.get clientId with
    | none => exact h c
    | some =>
      refine (h c).imp_left fun hnone => ?_
      simp [get_delete, hnone]
  | handleRemoteMessage sender message =>
    cases hstep
    simp only [Apart, localClients_handleRemoteMessage]
    constructor
    · intro h' e he
      refine (h' e.clientId).resolve_right fun hnone => ?_
      obtain ⟨e', he'⟩ := PresenceMessage.news_of_mem_entries he
      rw [PresenceMessage.get_handleRemoteMessage, he'] at hnone
      cases hnone
    · intro hev c
      cases hlocal : m.localClients.get c with
      | none => exact .inl rfl
      | some =>
        have hnone : m.remoteClients.get c = none := (h c).resolve_left (by simp [hlocal])
        refine .inr (Option.eq_none_iff_forall_ne_some.mpr fun e he => ?_)
        rcases PresenceMessage.stored_or_named he with hstored | ⟨hmem, rfl⟩
        · rw [hnone] at hstored
          cases hstored
        · rw [hev e hmem] at hlocal
          cases hlocal

/-- **Broadcasts reach every client once** as long as no client gets into both maps, and not after
the first step that puts one there: the broadcasts with any filter name every client that passes it
once, at its node, exactly if no `send` for an online client rejects. -/
theorem broadcast_reaches_once (x : N) (es : List (PresenceInput N M))
    (hall : AllSteps PresenceManager.step KeepsApart ⟨x, .empty, .empty⟩ es)
    (hrun : exec PresenceManager.step ⟨x, .empty, .empty⟩ es = some m) :
    (∀ rejects, (∀ filter, m.ReachesOnce rejects filter) ↔ m.Sends rejects) ∧
      ∀ ev m', m.step ev = some m' →
        ((∀ filter, m'.ReachesOnce (fun _ => false) filter) ↔ m.KeepsApart ev) := by
  obtain ⟨hid, hapart⟩ : m.ById ∧ m.Apart :=
    exec_invariant (P := fun m : PresenceManager N M => m.ById ∧ m.Apart)
      (fun _ _ _ h hev hstep => ⟨h.1.step hstep, (h.2.step_iff hstep).mpr hev⟩)
      ⟨⟨by simp, by simp⟩, fun _ => .inl rfl⟩ hall hrun
  refine ⟨fun rejects => ⟨fun h => hid.sends hapart (h _), fun h _ => hid.reachesOnce hapart h⟩,
    fun ev m' hstep => ?_⟩
  rw [← hapart.step_iff hstep]
  have hid' := hid.step hstep
  exact ⟨fun h => hid'.apart (h _), fun h _ => hid'.reachesOnce h fun _ _ => .inr rfl⟩

end Broadcast

/-- A client of node 0 leaves it, another one comes, and nodes 1 and 2 tell of theirs. -/
def threeNodes : List (PresenceInput (Fin 3) Unit) :=
  [.trackClient "a" () 1, .handleRemoteMessage 1 (.track ⟨"b", 1, (), 2, 2⟩), .untrackClient "a",
    .handleRemoteMessage 2 (.sync [⟨"a", 2, (), 3, 3⟩, ⟨"c", 2, (), 3, 3⟩]), .trackClient "d" () 4]

theorem reaches_once_threeNodes : ∃ m, exec step ⟨0, .empty, .empty⟩ threeNodes = some m ∧
    m.addressees (fun _ => false) (fun _ => true) = [(0, "d"), (1, "b"), (2, "a"), (2, "c")] ∧
    ∀ filter, m.ReachesOnce (fun _ => false) filter := by
  have hall : AllSteps step KeepsApart ⟨0, .empty, .empty⟩ threeNodes := by
    refine ⟨rfl, ?_, trivial, ?_, rfl, trivial⟩ <;>
      simp [KeepsApart, PresenceMessage.entries, trackClient, untrackClient, handleRemoteMessage,
        get_set, get_delete]
  exact ⟨_, rfl, rfl, ((broadcast_reaches_once 0 _ hall rfl).1 _).mpr fun _ _ => .inr rfl⟩

/-- A client that is tracked here and, as another node says, there as well is named twice. -/
theorem named_twice : ∃ m, exec step (⟨0, .empty, .empty⟩ : PresenceManager (Fin 2) Unit)
      [.trackClient "c" () 1, .handleRemoteMessage 1 (.track ⟨"c", 1, (), 2, 2⟩)] = some m ∧
    m.addressees (fun _ => false) (fun _ => true) = [(0, "c"), (1, "c")] :=
  ⟨_, rfl, rfl⟩

end PresenceManager

end DistributedCore.Gateway
