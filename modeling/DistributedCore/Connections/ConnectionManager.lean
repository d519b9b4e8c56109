import DistributedCore.Library.OrderedMap
import DistributedCore.Library.Runs
import Mathlib.Data.Finset.Basic

/-!
# Connections and their manager

A `ConnectionManager` keeps the open connections under their ids and in an index of tags. It is told
by the event `closed` that a connection has closed, reports `connection-closed` and removes the
connection. But `close` removes all listeners of the connection before it emits `closed`, so that
the handler of the manager never runs: a connection that is closed by `close` or by its timeout
stays where it is. Only `removeConnection` and `cleanup` take connections out.

Source: `src/connections/Connection.ts`, `src/connections/ConnectionManager.ts`,
`src/connections/Session.ts`.
-/

namespace DistributedCore.Connections

open OrderedMap List Option

/-! ### The code -/

inductive ConnectionStatus
  | active
  | idle
  | closed
  | error
  deriving DecidableEq

structure SessionMetadata where
  userId : Option String := none
  roomId : Option String := none
  closed : Bool := false

def SessionMetadata.tags (metadata : SessionMetadata) : List (String × String) :=
  ((metadata.userId.filter (· ≠ "")).map (Prod.mk "userId")).toList ++
    ((metadata.roomId.filter (· ≠ "")).map (Prod.mk "room")).toList

/-- A connection object; it stays in existence after it is closed. -/
structure Connection where
  id : String
  status : ConnectionStatus := .active
  timeoutMs : ℕ
  /-- When the timer of `resetTimeout` is due. -/
  timeoutTimer : Option ℕ
  lastActivity : ℕ
  /-- Whether the handlers of the manager are installed. -/
  listening : Bool := true
  tags : List (String × String)
  /-- `session.isClosed()`. -/
  sessionClosed : Bool

/-- The events of the manager and its connections. -/
inductive ManagerEvent
  | connectionCreated (conn : ℕ)
  | connectionClosed (connectionId : String) (reason : Option String)
  | connectionRemoved (id : String)
  | messageReceived (connectionId : String)
  | cleanupCompleted (removed : ℕ)
  deriving DecidableEq

/-- All connections created, those listed by id, and the index of their tags. -/
structure ConnectionManager where
  created : List Connection
  connections : OrderedMap String ℕ
  /-- The key and the value of a tag, and a connection that has it. -/
  tagIndex : Finset (String × String × ℕ)
  timeoutMs : ℕ
  emitted : List ManagerEvent

namespace ConnectionManager

def fresh (timeoutMs : ℕ) : ConnectionManager := ⟨[], .empty, ∅, timeoutMs, []⟩

variable (m : ConnectionManager)

def emit (event : ManagerEvent) : ConnectionManager := { m with emitted := m.emitted ++ [event] }

def setConnection (c : ℕ) (conn : Connection) : ConnectionManager :=
  { m with created := m.created.set c conn }

def entriesOf (c : ℕ) (conn : Connection) : Finset (String × String × ℕ) :=
  (conn.tags.map fun tag => (tag.1, tag.2, c)).toFinset

def createConnection (id : String) (metadata : SessionMetadata) (timeoutMs : Option ℕ) (now : ℕ) :
    Option ConnectionManager :=
  if m.connections.has id then none
  else
    let timeoutMs := timeoutMs.getD m.timeoutMs
    let conn : Connection :=
      { id := id
        timeoutMs := timeoutMs
        timeoutTimer := some (now + timeoutMs)
        lastActivity := now
        tags := metadata.tags
        sessionClosed := metadata.closed }
    let c := m.created.length
    some ({ m with
      created := m.created ++ [conn]
      connections := m.connections.set id c
      tagIndex := m.tagIndex ∪ entriesOf c conn }.emit (.connectionCreated c))

def emitClosed (remove : ConnectionManager → String → ConnectionManager) (conn : Connection)
    (reason : Option String) : ConnectionManager :=
  if conn.listening then remove (m.emit (.connectionClosed conn.id reason)) conn.id else m

def closeWith (remove : ConnectionManager → String → ConnectionManager) (c : ℕ)
    (reason : Option String) : ConnectionManager :=
  match m.created[c]? with
  | none => m
  | some conn =>
    if conn.status = .closed then m
    else
      -- `cleanup` clears the timers and removes the listeners
      let conn := { conn with
        status := .closed
        sessionClosed := true
        timeoutTimer := none
        listening := false }
      (m.setConnection c conn).emitClosed remove conn reason

def removeWith (close : ConnectionManager → ℕ → Option String → ConnectionManager) (id : String) :
    ConnectionManager :=
  match m.connections.get id with
  | none => m
  | some c =>
    match m.created[c]? with
    | none => m
    | some conn =>
      let m := { m with
        tagIndex := m.tagIndex \ entriesOf c conn
        connections := m.connections.delete id }
      (if conn.sessionClosed then m else close m c (some "removed")).emit (.connectionRemoved id)

def close : (depth : ℕ) → ConnectionManager → ℕ → Option String → ConnectionManager
  | 0, m, c, reason => m.closeWith (fun m _ => m) c reason
  | depth + 1, m, c, reason => m.closeWith (fun m id => m.removeWith (close depth) id) c reason

def removeConnection (id : String) : ConnectionManager := m.removeWith (close m.created.length) id

def timeout (c now : ℕ) : Option ConnectionManager :=
  match m.created[c]? with
  | none => none
  | some conn =>
    if conn.timeoutTimer.any (· ≤ now) then
      let fired := { conn with timeoutTimer := none }
      some (if conn.status = .active then
        close m.created.length (m.setConnection c { fired with status := .idle }) c (some "timeout")
      else m.setConnection c fired)
    else none

def onMessageReceived (c now : ℕ) : ConnectionManager :=
  match m.created[c]? with
  | none => m
  | some conn =>
    let m := m.setConnection c
      { conn with lastActivity := now, timeoutTimer := some (now + conn.timeoutMs) }
    if conn.listening then m.emit (.messageReceived conn.id) else m

def cleanup (maxIdleTime : ℤ) (now : ℕ) : ConnectionManager :=
  let toRemove := (m.connections.entries.filter fun p =>
    m.created[p.2]?.any fun conn => (now - conn.lastActivity : ℤ) > maxIdleTime).map Prod.fst
  (toRemove.foldl removeConnection m).emit (.cleanupCompleted toRemove.length)

end ConnectionManager

/-- The calls on the manager, and the timers that fire. -/
inductive ManagerCall
  | createConnection (id : String) (metadata : SessionMetadata) (timeoutMs : Option ℕ) (now : ℕ)
  | close (conn : ℕ) (reason : Option String)
  | timeout (conn now : ℕ)
  | onMessageReceived (conn now : ℕ)
  | removeConnection (id : String)
  | cleanup (maxIdleTime : ℤ) (now : ℕ)

namespace ManagerCall

variable (m : ConnectionManager)

def run : ManagerCall → Option ConnectionManager
  | .createConnection id metadata timeoutMs now =>
    some ((m.createConnection id metadata timeoutMs now).getD m)
  | .close c reason => some (.close m.created.length m c reason)
  | .timeout c now => m.timeout c now
  | .onMessageReceived c now => some (m.onMessageReceived c now)
  | .removeConnection id => some (m.removeConnection id)
  | .cleanup maxIdleTime now => some (m.cleanup maxIdleTime now)

/-- The id of the connection that `close` or a timeout closes. -/
def ends : ManagerCall → Option String
  | .close c _ => (m.created[c]?.filter (·.status ≠ .closed)).map (·.id)
  | .timeout c _ => (m.created[c]?.filter (·.status = .active)).map (·.id)
  | .createConnection .. | .onMessageReceived .. | .removeConnection _ | .cleanup .. => none

end ManagerCall

def ManagerEvent.closes (id : String) : ManagerEvent → Bool
  | .connectionClosed connectionId _ => connectionId = id
  | .connectionCreated _ | .connectionRemoved _ | .messageReceived _ | .cleanupCompleted _ => false

/-- The manager, with the ids of the connections that were closed. -/
structure ConnectionHistory where
  manager : ConnectionManager
  ended : List String

namespace ConnectionHistory

variable (s : ConnectionHistory)

def step (call : ManagerCall) : Option ConnectionHistory :=
  (call.run s.manager).map fun m => ⟨m, s.ended ++ (call.ends s.manager).toList⟩

/-- A closed connection is nowhere listed, and its end is reported once. -/
structure ClosedLeave : Prop where
  unlisted : ∀ id c conn, s.manager.connections.get id = some c →
    s.manager.created[c]? = some conn → conn.status ≠ .closed
  unindexed : ∀ key value c conn, (key, value, c) ∈ s.manager.tagIndex →
    s.manager.created[c]? = some conn → conn.status ≠ .closed
  reported : ∀ id, s.manager.emitted.countP (ManagerEvent.closes id) = s.ended.count id
  free : ∀ id, (∀ conn ∈ s.manager.created, conn.id = id → conn.status = .closed) →
    ∀ metadata timeoutMs now, (s.manager.createConnection id metadata timeoutMs now).isSome

end ConnectionHistory

/-! ### What the manager knows -/

namespace ConnectionManager

/-- `closed` is emitted when nobody listens any more. -/
theorem close_eq (depth : ℕ) (m : ConnectionManager) (c : ℕ) (reason : Option String) :
    close depth m c reason = close 0 m c none := by
  cases depth with
  | zero => rfl
  | succ => rfl

/-- What is listed is open, unless `close` or a timeout has closed a connection; what is indexed is
listed. No `connection-closed` was ever emitted. -/
structure Kept (m : ConnectionManager) (ended : List String) : Prop where
  silent : ∀ id, m.emitted.countP (ManagerEvent.closes id) = 0
  listed : ∀ id c, m.connections.get id = some c → ∃ conn, m.created[c]? = some conn ∧
    conn.id = id ∧ (conn.status = .closed → ended ≠ [])
  indexed : ∀ key value c, (key, value, c) ∈ m.tagIndex → ∃ conn, m.created[c]? = some conn ∧
    m.connections.get conn.id = some c ∧ (key, value) ∈ conn.tags

namespace Kept

variable {m m' : ConnectionManager} {ended : List String} {c now : ℕ} {conn : Connection}
  {id : String} (h : m.Kept ended)

include h

theorem emit {event : ManagerEvent} (hevent : ∀ id, event.closes id = false) :
    (m.emit event).Kept ended :=
  ⟨fun id => by simp [ConnectionManager.emit, h.silent id, hevent id], h.listed, h.indexed⟩

theorem append (ids : List String) : m.Kept (ended ++ ids) :=
  ⟨h.silent, fun id c hid => by
    obtain ⟨conn, hconn, hcid, hclosed⟩ := h.listed id c hid
    exact ⟨conn, hconn, hcid, fun hs => append_ne_nil_of_left_ne_nil (hclosed hs) ids⟩,
    h.indexed⟩

theorem setConnection (conn' : Connection) (hconn : m.created[c]? = some conn)
    (hid : conn'.id = conn.id) (htags : conn'.tags = conn.tags)
    (hclosed : conn'.status = .closed → conn.status = .closed ∨ ended ≠ [] ∨
      ∀ id, m.connections.get id ≠ some c) : (m.setConnection c conn').Kept ended := by
  have hlt : c < m.created.length := (List.getElem?_eq_some_iff.mp hconn).1
  have hself : (m.created.set c conn')[c]? = some conn' := getElem?_set_self hlt
  have hother : ∀ {d}, d ≠ c → (m.created.set c conn')[d]? = m.created[d]? :=
    fun hdc => getElem?_set_ne hdc.symm
  refine ⟨h.silent, fun id d hd => ?_, fun key value d hd => ?_⟩
  · obtain ⟨old, hold, hoid, hoclosed⟩ := h.listed id d hd
    by_cases hdc : d = c
    · subst hdc
      cases hconn.symm.trans hold
      refine ⟨conn', hself, hid.trans hoid, fun hs => ?_⟩
      rcases hclosed hs with hs | hs | hs
      · exact hoclosed hs
      · exact hs
      · exact absurd hd (hs id)
    · exact ⟨old, (hother hdc).trans hold, hoid, hoclosed⟩
  · obtain ⟨old, hold, hlisted, htag⟩ := h.indexed key value d hd
    by_cases hdc : d = c
    · subst hdc
      cases hconn.symm.trans hold
      exact ⟨conn', hself, hid ▸ hlisted, htags ▸ htag⟩
    · exact ⟨old, (hother hdc).trans hold, hlisted, htag⟩

theorem close (depth : ℕ) (reason : Option String)
    (hc : ∀ conn, m.created[c]? = some conn → conn.status ≠ .closed → ended ≠ [] ∨
      ∀ id, m.connections.get id ≠ some c) : (close depth m c reason).Kept ended := by
  rw [close_eq, ConnectionManager.close, closeWith]
  cases hconn : m.created[c]? with
  | none => exact h
  | some conn =>
    dsimp only
    split_ifs with hclosed
    · exact h
    · exact h.setConnection _ hconn rfl rfl fun _ => .inr (hc conn hconn hclosed)

/-- A connection leaves the list and the index. -/
theorem drop (hid : m.connections.get id = some c) (hconn : m.created[c]? = some conn) :
    Kept { m with
      tagIndex := m.tagIndex \ entriesOf c conn
      connections := m.connections.delete id } ended ∧
      ∀ id', (m.connections.delete id).get id' ≠ some c := by
  obtain ⟨old, hold, hoid, -⟩ := h.listed id c hid
  cases hconn.symm.trans hold
  refine ⟨⟨h.silent, fun id' d hd => ?_, fun key value d hd => ?_⟩, fun id' hid' => ?_⟩
  · rw [get_delete] at hd
    split_ifs at hd
    exact h.listed id' d hd
  · obtain ⟨hd, hnot⟩ := Finset.mem_sdiff.mp hd
    obtain ⟨other, hother, hlisted, htag⟩ := h.indexed key value d hd
    refine ⟨other, hother, ?_, htag⟩
    rw [get_delete_of_ne _ fun heq => ?_]
    · exact hlisted
    · cases hid.symm.trans (heq ▸ hlisted)
      cases hconn.symm.trans hother
      exact hnot (mem_toFinset.mpr (mem_map.mpr ⟨_, htag, rfl⟩))
  · rw [get_delete] at hid'
    split_ifs at hid' with hne
    obtain ⟨other, hother, hother_id, -⟩ := h.listed id' c hid'
    exact hne (by rw [← hother_id, ← hoid, some.inj (hconn.symm.trans hother)])

theorem removeConnection (id : String) : (m.removeConnection id).Kept ended := by
  rw [ConnectionManager.removeConnection, removeWith]
  cases hid : m.connections.get id with
  | none => exact h
  | some c =>
    cases hconn : m.created[c]? with
    | none => simpa [hconn] using h
    | some =>
      obtain ⟨hdrop, hgone⟩ := h.drop hid hconn
      simp only [hconn]
      refine emit ?_ fun _ => rfl
      split_ifs
      · exact hdrop
      · exact hdrop.close _ _ fun _ _ _ => .inr hgone

theorem cleanup (maxIdleTime : ℤ) (now : ℕ) : (m.cleanup maxIdleTime now).Kept ended := by
  refine emit (List.foldlRecOn (motive := fun m => Kept m ended) _ _ h ?_) fun _ => rfl
  exact fun m hm id _ => hm.removeConnection id

theorem createConnection {metadata : SessionMetadata} {timeoutMs : Option ℕ}
    (hnew : m.createConnection id metadata timeoutMs now = some m') : m'.Kept ended := by
  rw [ConnectionManager.createConnection] at hnew
  split_ifs at hnew with hhas
  cases hnew
  have hold : ∀ {d old}, m.created[d]? = some old → ∀ conn, (m.created ++ [conn])[d]? = some old :=
    fun hd _ => (getElem?_append_left (List.getElem?_eq_some_iff.mp hd).1).trans hd
  refine emit ?_ fun _ => rfl
  refine ⟨h.silent, fun id' d hd => ?_, fun key value d hd => ?_⟩
  · rw [get_set] at hd
    split_ifs at hd with heq
    · cases hd
      exact ⟨_, getElem?_concat_length, heq.symm, fun hs => by cases hs⟩
    · obtain ⟨old, hget, hrest⟩ := h.listed id' d hd
      exact ⟨old, hold hget _, hrest⟩
  · rcases Finset.mem_union.mp hd with hd | hd
    · obtain ⟨old, hget, hlisted, htag⟩ := h.indexed key value d hd
      refine ⟨old, hold hget _, ?_, htag⟩
      rw [get_set_of_ne _ _ fun heq => ?_]
      · exact hlisted
      · exact hhas ((has_iff _ _).mpr ⟨d, heq ▸ hlisted⟩)
    · obtain ⟨tag, htag, heq⟩ := mem_map.mp (mem_toFinset.mp hd)
      cases heq
      exact ⟨_, getElem?_concat_length, get_set_self .., htag⟩

theorem onMessageReceived (c now : ℕ) : (m.onMessageReceived c now).Kept ended := by
  rw [ConnectionManager.onMessageReceived]
  cases hconn : m.created[c]? with
  | none => exact h
  | some conn =>
    have hset := h.setConnection { conn with
      lastActivity := now, timeoutTimer := some (now + conn.timeoutMs) } hconn rfl rfl .inl
    dsimp only
    split_ifs
    · exact hset.emit fun _ => rfl
    · exact hset

end Kept

end ConnectionManager

namespace ConnectionHistory

open ConnectionManager

variable {s s' : ConnectionHistory} {call : ManagerCall} (h : s.manager.Kept s.ended)

include h

theorem kept_step (hstep : s.step call = some s') : s'.manager.Kept s'.ended ∧
    (s'.ended = [] ↔ s.ended = [] ∧ call.ends s.manager = none) := by
  obtain ⟨m, hrun, rfl⟩ := map_eq_some_iff.mp hstep
  refine ⟨?_, by simp⟩
  have h := h.append (call.ends s.manager).toList
  cases call with
  | createConnection id metadata timeoutMs now =>
    cases hrun
    cases hnew : s.manager.createConnection id metadata timeoutMs now with
    | none => exact h
    | some => exact h.createConnection hnew
  | close =>
    cases hrun
    exact h.close _ _ fun conn hconn hopen => .inl (by simp [ManagerCall.ends, hconn, hopen])
  | timeout c now =>
    change s.manager.timeout c now = some _ at hrun
    rw [ConnectionManager.timeout] at hrun
    cases hconn : s.manager.created[c]? with
    | none => simp [hconn] at hrun
    | some conn =>
      simp only [hconn] at hrun
      split_ifs at hrun with hdue hactive <;> cases hrun
      · have hidle := h.setConnection { conn with status := .idle, timeoutTimer := none } hconn
          rfl rfl fun hs => by cases hs
        exact hidle.close _ _ fun _ _ _ => .inl (by simp [ManagerCall.ends, hconn, hactive])
      · exact h.setConnection _ hconn rfl rfl .inl
  | onMessageReceived c now => exact some.inj hrun ▸ h.onMessageReceived c now
  | removeConnection id => exact some.inj hrun ▸ h.removeConnection id
  | cleanup maxIdleTime now => exact some.inj hrun ▸ h.cleanup maxIdleTime now

theorem closedLeave_iff_ended : s.ClosedLeave ↔ s.ended = [] := by
  constructor
  · intro hleave
    refine eq_nil_iff_forall_not_mem.mpr fun id hid => ?_
    exact count_eq_zero.mp ((hleave.reported id).symm.trans (h.silent id)) hid
  · intro hnil
    have hopen : ∀ id c conn, s.manager.connections.get id = some c →
        s.manager.created[c]? = some conn → conn.status ≠ .closed := by
      intro id c conn hid hconn hs
      obtain ⟨old, hold, -, hclosed⟩ := h.listed id c hid
      cases hconn.symm.trans hold
      exact hclosed hs hnil
    refine ⟨hopen, fun key value c conn hindex hconn => ?_, fun id => ?_, fun id hall => ?_⟩
    · obtain ⟨old, -, hlisted, -⟩ := h.indexed key value c hindex
      exact hopen _ c conn hlisted hconn
    · rw [h.silent, hnil, count_nil]
    · intro metadata timeoutMs now
      have hfree : ¬ s.manager.connections.has id = true := fun hhas => by
        obtain ⟨c, hid⟩ := (has_iff _ _).mp hhas
        obtain ⟨conn, hconn, hcid, -⟩ := h.listed id c hid
        exact hopen id c conn hid hconn (hall conn (mem_of_getElem? hconn) hcid)
      simp [createConnection, hfree]

omit h in
/-- **Closed connections stay.** After a sequence of calls, closed connections have left the manager
exactly if `close` and timeouts have closed no open connection. -/
theorem closed_leave_iff (timeoutMs : ℕ) (calls : List ManagerCall) (s : ConnectionHistory)
    (hrun : exec step ⟨fresh timeoutMs, []⟩ calls = some s) :
    s.ClosedLeave ↔ AllSteps step (fun s call => call.ends s.manager = none)
      ⟨fresh timeoutMs, []⟩ calls := by
  have hnew : (fresh timeoutMs).Kept [] :=
    ⟨fun _ => rfl, fun _ _ h => absurd h (by simp [fresh]),
      fun _ _ _ h => absurd h (Finset.notMem_empty _)⟩
  have hinv := exec_invariant
    (fun s call s' h _ hstep => (kept_step h hstep).1) hnew (allSteps_true step _ calls) hrun
  rw [closedLeave_iff_ended hinv, exec_iff_allSteps
    (fun s call s' h hstep => kept_step h hstep) hnew hrun, and_iff_right rfl]

omit h

def replace : List ManagerCall :=
  [.createConnection "a" { userId := some "u" } none 0, .removeConnection "a",
    .createConnection "a" {} none 1]

theorem closed_leave_replace : ∃ s, exec step ⟨fresh 60000, []⟩ replace = some s ∧ s.ClosedLeave :=
  ⟨_, rfl, (closed_leave_iff 60000 replace _ rfl).mpr (by decide)⟩

/-- A connection is closed: it is still listed and indexed, nothing was reported, and its id cannot
be used again. -/
theorem closed_stays :
    ∃ s, exec step ⟨fresh 60000, []⟩ [.createConnection "a" { userId := some "u" } none 0,
        .close 0 none] = some s ∧ ¬ s.ClosedLeave ∧ s.manager.connections.get "a" = some 0 ∧
      s.manager.created.map Connection.status = [.closed] ∧
      ("userId", "u", 0) ∈ s.manager.tagIndex ∧ s.manager.emitted = [.connectionCreated 0] ∧
      (s.manager.createConnection "a" {} none 1).isNone := by
  refine ⟨_, rfl, fun h => ?_, rfl, rfl, by decide, rfl, rfl⟩
  exact h.unlisted "a" 0 _ rfl rfl rfl

end ConnectionHistory

end DistributedCore.Connections
