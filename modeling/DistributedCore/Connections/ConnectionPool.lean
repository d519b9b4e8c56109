import DistributedCore.Library.OrderedMap
import DistributedCore.Library.Runs

/-!
# A pool of connections

A `ConnectionPool` marks the connections that it has lent and keeps a list of available ids. A
connection that `acquire` creates for itself is put on that list too and stays there while it is in
use; after its release it is there twice. `acquire` skips such entries, but a call that waits gets
the first id of the list, whoever uses its connection (`two_holders_of_waiting`).

Source: `src/connections/ConnectionPool.ts`.
-/

namespace DistributedCore.Connections

open OrderedMap List Option Prod

/-! ### The code -/

structure ConnectionPoolOptions where
  minConnections : ℕ
  maxConnections : ℕ
  idleTimeout : ℕ
  maxAge : ℕ

/-- A connection of the pool; one that is lent is in use. -/
structure PoolConnection where
  createdAt : ℕ
  lastUsed : ℕ
  inUse : Bool := false
  healthChecks : ℕ := 0
  isHealthy : Bool := true

/-- What goes on when a call of `createConnection` settles. -/
inductive PoolTask
  /-- `createAndUseConnection`, for a call of `acquire`. -/
  | use (call : ℕ)
  /-- `createAndAddConnection`, with the rounds that the loop around it has left. -/
  | add (rounds : ℕ)

/-- The connections by id, those that are free and the calls that wait. -/
structure ConnectionPool where
  connections : OrderedMap String PoolConnection
  availableConnections : List String
  /-- The calls of `acquire` that wait. -/
  waitingQueue : List ℕ
  tasks : List PoolTask

/-- Calls of `acquire` and the connections that they return. -/
abbrev Lends := List (ℕ × String)

namespace ConnectionPool

variable (options : ConnectionPoolOptions) (p : ConnectionPool) (id : String) (now : ℕ)

def setConnection (c : PoolConnection) : ConnectionPool :=
  { p with connections := p.connections.set id c }

def lend (c : PoolConnection) : ConnectionPool :=
  p.setConnection id { c with inUse := true, lastUsed := now }

def size : ℕ := p.connections.keys.length

def getInUseCount : ℕ := (p.connections.values.filter (·.inUse)).length

/-- The first available id whose connection can be used, with the connection. -/
def getAvailableConnection : Option (String × PoolConnection) :=
  p.availableConnections.findSome? fun id =>
    ((p.connections.get id).filter fun c => !c.inUse && c.isHealthy).map (Prod.mk id)

def waitForConnection (call : ℕ) : ConnectionPool :=
  { p with waitingQueue := p.waitingQueue ++ [call] }

def acquireConnection (call : ℕ) : ConnectionPool × Lends :=
  match p.getAvailableConnection with
  | some (id, c) =>
    ({ p with availableConnections := p.availableConnections.erase id }.lend id now c, [(call, id)])
  | none =>
    if p.size < options.maxConnections then ({ p with tasks := p.tasks ++ [.use call] }, [])
    else (p.waitForConnection call, [])

def addConnectionToPool : ConnectionPool :=
  { p.setConnection id { createdAt := now, lastUsed := now } with
    availableConnections := p.availableConnections ++ [id] }

def settle (k : ℕ) (created : Option String) : Option (ConnectionPool × Lends) :=
  p.tasks[k]?.map fun task =>
    let p := { p with tasks := p.tasks.eraseIdx k }
    match task, created with
    | .use call, some id =>
      ((p.addConnectionToPool id now).lend id now { createdAt := now, lastUsed := now },
        [(call, id)])
    | .use call, none => (p.waitForConnection call, [])
    | .add rounds, some id =>
      let p := p.addConnectionToPool id now
      (if rounds = 0 then p else { p with tasks := p.tasks ++ [.add (rounds - 1)] }, [])
    | .add _, none => (p, [])

def ensureMinimumConnections : ConnectionPool :=
  let needed := options.minConnections - (p.size - p.getInUseCount)
  if 0 < needed ∧ p.size < options.maxConnections then
    { p with tasks := p.tasks ++ [.add (min needed (options.maxConnections - p.size) - 1)] }
  else p

def removeConnection : ConnectionPool :=
  if p.connections.has id then
    { p with
      availableConnections := p.availableConnections.erase id
      connections := p.connections.delete id }.ensureMinimumConnections options
  else p

/-- The loop of `processWaitingQueue`. It throws if there is no connection with the id. -/
def serve : List ℕ → ConnectionPool → ConnectionPool × Lends
  | [], p => (p, [])
  | waiter :: waiting, p =>
    match p.availableConnections with
    | [] => (p, [])
    | id :: available =>
      let p := { p with waitingQueue := waiting, availableConnections := available }
      match p.connections.get id with
      | none => (p, [])
      | some c =>
        let r := serve waiting (p.lend id now c)
        (r.1, (waiter, id) :: r.2)

def processWaitingQueue : ConnectionPool × Lends := serve now p.waitingQueue p

def isConnectionValid (c : PoolConnection) : Bool := !decide (now - c.createdAt > options.maxAge)

def release : ConnectionPool × Lends :=
  match p.connections.get id with
  | none => (p, [])
  | some c =>
    if c.inUse then
      let p := p.setConnection id { c with inUse := false, lastUsed := now }
      if c.isHealthy && isConnectionValid options now c then
        { p with availableConnections := p.availableConnections ++ [id] }.processWaitingQueue now
      else (p.removeConnection options id, [])
    else (p, [])

def handleConnectionError : ConnectionPool :=
  match p.connections.get id with
  | none => p
  | some c =>
    let p := p.setConnection id { c with isHealthy := false }
    if c.inUse then p else p.removeConnection options id

def checkConnectionHealth (c : PoolConnection) (isActive : Bool) : ConnectionPool :=
  let p := p.setConnection id
    { c with healthChecks := c.healthChecks + 1, isHealthy := isActive }
  if isActive then p else p.removeConnection options id

def performHealthCheck (isActive : String → Bool) : ConnectionPool :=
  p.connections.keys.foldl (fun p id =>
    match p.connections.get id with
    | none => p
    | some c => if c.inUse then p else p.checkConnectionHealth options id c (isActive id)) p

def performCleanup : ConnectionPool :=
  let connectionsToRemove := (p.connections.entries.filter fun e =>
    !e.2.inUse && (!isConnectionValid options now e.2 ||
      p.size > options.minConnections && now - e.2.lastUsed > options.idleTimeout)).map Prod.fst
  connectionsToRemove.foldl (removeConnection options) p

end ConnectionPool

/-- The pool with its callers. -/
structure PoolSystem where
  pool : ConnectionPool
  /-- The number of calls of `acquire`. -/
  calls : ℕ
  /-- The ids of the connections that were created. -/
  ids : List String
  /-- What `acquire` has returned and was not released. -/
  lent : Lends

inductive PoolEvent
  /-- `initialize()` is called. -/
  | start
  | acquire (now : ℕ)
  /-- A call of `createConnection` ends, with a connection or with an error. -/
  | settle (k : ℕ) (created : Option String) (now : ℕ)
  /-- The call that holds a connection is followed by its release. -/
  | release (call : ℕ) (id : String) (now : ℕ)
  | timeout (call : ℕ)
  | error (id : String)
  | close (id : String)
  | healthCheck (isActive : String → Bool)
  | cleanup (now : ℕ)

namespace PoolSystem

def fresh : PoolSystem := ⟨⟨.empty, [], [], []⟩, 0, [], []⟩

variable (options : ConnectionPoolOptions) (s : PoolSystem)

def step : PoolEvent → Option PoolSystem
  | .start => some { s with
      pool.tasks := s.pool.tasks ++ List.replicate options.minConnections (.add 0) }
  | .acquire now =>
    let r := s.pool.acquireConnection options now s.calls
    some { s with pool := r.1, calls := s.calls + 1, lent := s.lent ++ r.2 }
  | .settle k created now =>
    -- the ids of connections are different
    if ∃ id ∈ created, id ∈ s.ids ∨ id = "" then none
    else (s.pool.settle now k created).map fun r =>
      { s with pool := r.1, ids := s.ids ++ created.toList, lent := s.lent ++ r.2 }
  | .release call id now =>
    if (call, id) ∈ s.lent then
      let r := s.pool.release options id now
      some { s with pool := r.1, lent := s.lent.erase (call, id) ++ r.2 }
    else none
  | .timeout call =>
    if call ∈ s.pool.waitingQueue then
      some { s with pool.waitingQueue := s.pool.waitingQueue.erase call }
    else none
  | .error id => some { s with pool := s.pool.handleConnectionError options id }
  | .close id => some { s with pool := s.pool.removeConnection options id }
  | .healthCheck isActive => some { s with pool := s.pool.performHealthCheck options isActive }
  | .cleanup now => some { s with pool := s.pool.performCleanup options now }

/-- No connection is lent to two callers. -/
def OneHolder : Prop := (s.lent.map Prod.snd).Nodup

/-- The ids from which waiting calls are served: all different, and none of a connection in use. -/
def ServesIdle (id : String) : Prop :=
  (s.pool.availableConnections ++ [id]).Nodup ∧ ∀ i ∈ s.pool.availableConnections,
    ∀ c ∈ s.pool.connections.get i, c.inUse = false

/-- A release finds no waiting call, or serves it from connections that are idle. -/
def ReleaseOk : PoolEvent → Prop
  | .release _ id _ => s.pool.waitingQueue = [] ∨ s.ServesIdle id
  | _ => True

end PoolSystem

/-! ### Who holds a connection -/

namespace ConnectionPool

/-- No connection is held twice, and a connection that is held is marked. -/
structure Backed (ids : List String) (m : OrderedMap String PoolConnection) (held : List String) :
    Prop where
  one : held.Nodup
  created : held ⊆ ids
  known : ∀ i c, m.get i = some c → i ∈ ids
  marked : ∀ i ∈ held, ∀ c, m.get i = some c → c.inUse = true

namespace Backed

variable {options : ConnectionPoolOptions} {ids held : List String} {p : ConnectionPool}
  {m : OrderedMap String PoolConnection} {id : String} {c : PoolConnection} {call now : ℕ}

section Map

variable (h : Backed ids m held)

include h

theorem delete (id : String) : Backed ids (m.delete id) held := by
  have hsub : ∀ i c, (m.delete id).get i = some c → m.get i = some c := by
    intro i c hc
    rw [get_delete] at hc
    split_ifs at hc
    exact hc
  exact ⟨h.one, h.created, fun i c hc => h.known i c (hsub i c hc),
    fun i hi c hc => h.marked i hi c (hsub i c hc)⟩

theorem set (hid : id ∈ ids) (hin : id ∈ held → c.inUse = true) : Backed ids (m.set id c) held := by
  refine ⟨h.one, h.created, fun i d hd => ?_, fun i hi d hd => ?_⟩ <;>
    rw [get_set] at hd <;> split_ifs at hd with heq
  · exact heq ▸ hid
  · exact h.known i d hd
  · exact some.inj hd ▸ hin (heq ▸ hi)
  · exact h.marked i hi d hd

/-- A connection that nobody holds is lent. -/
theorem lend (hid : id ∈ ids) (hfree : id ∉ held) (hin : c.inUse = true) :
    Backed ids (m.set id c) (held ++ [id]) := by
  have hset := h.set hid fun _ => hin
  refine ⟨nodup_append_comm.mp (nodup_cons.mpr ⟨hfree, h.one⟩),
    append_subset.mpr ⟨h.created, by simpa using hid⟩, hset.known, fun i hi d hd => ?_⟩
  rcases mem_append.mp hi with hi | hi
  · exact hset.marked i hi d hd
  · rw [mem_singleton.mp hi, get_set_self] at hd
    exact some.inj hd ▸ hin

theorem free_of_idle (hc : m.get id = some c) (hidle : c.inUse = false) : id ∈ ids ∧ id ∉ held := by
  refine ⟨h.known id c hc, fun hmem => ?_⟩
  rw [h.marked id hmem c hc] at hidle
  cases hidle

end Map

variable (h : Backed ids p.connections held)

include h

theorem removeConnection (id : String) :
    Backed ids (p.removeConnection options id).connections held := by
  rw [ConnectionPool.removeConnection]
  split_ifs
  · rw [ensureMinimumConnections]
    split_ifs <;> exact h.delete id
  · exact h

/-- A connection is changed, and removed if it fails. -/
theorem check {c' : PoolConnection} (hc : p.connections.get id = some c)
    (hin : c'.inUse = c.inUse) (ok : Bool) :
    Backed ids (if ok then p.setConnection id c'
      else (p.setConnection id c').removeConnection options id).connections held := by
  have hset : Backed ids (p.setConnection id c').connections held :=
    h.set (h.known id c hc) fun hid => hin.trans (h.marked id hid c hc)
  cases ok with
  | true => exact hset
  | false => exact hset.removeConnection id

theorem performHealthCheck (isActive : String → Bool) :
    Backed ids (p.performHealthCheck options isActive).connections held := by
  refine foldlRecOn (motive := fun p : ConnectionPool => Backed ids p.connections held) _ _ h
    fun p h id _ => ?_
  cases hc : p.connections.get id with
  | none => exact h
  | some =>
    dsimp only
    split_ifs
    · exact h
    · exact h.check hc (by rfl) (isActive id)

theorem acquireConnection : Backed ids (p.acquireConnection options now call).1.connections
    (held ++ (p.acquireConnection options now call).2.map snd) := by
  rw [ConnectionPool.acquireConnection]
  cases hfound : p.getAvailableConnection with
  | some =>
    obtain ⟨i, -, hi⟩ := exists_of_findSome?_eq_some hfound
    obtain ⟨c, hc, rfl⟩ := map_eq_some_iff.mp hi
    obtain ⟨hc, -⟩ := filter_eq_some_iff.mp hc
    obtain ⟨hid, hfree⟩ := h.free_of_idle hc (by simp_all)
    exact h.lend hid hfree rfl
  | none => split_ifs <;> exact (append_nil held).symm ▸ h

theorem settle {k : ℕ} {created : Option String} {r : ConnectionPool × Lends}
    (hnew : ∀ id ∈ created, id ∉ ids) (hsettle : p.settle now k created = some r) :
    Backed (ids ++ created.toList) r.1.connections (held ++ r.2.map snd) := by
  obtain ⟨task, -, rfl⟩ := map_eq_some_iff.mp hsettle
  cases created with
  | none =>
    rw [toList_none, append_nil]
    cases task <;> exact (append_nil held).symm ▸ h
  | some id =>
    have hfree : id ∉ held := fun hmem => hnew id rfl (h.created hmem)
    have hmore : Backed (ids ++ [id]) p.connections held :=
      ⟨h.one, List.Subset.trans h.created (subset_append_left _ _),
        fun i c hc => mem_append_left _ (h.known i c hc), h.marked⟩
    have hadd := hmore.set (c := { createdAt := now, lastUsed := now }) (by simp)
      fun hid => absurd hid hfree
    cases task with
    | use => exact hadd.lend (by simp) hfree rfl
    | add =>
      dsimp only
      split_ifs <;> exact (append_nil held).symm ▸ hadd

/-- Waiting calls are served from ids that are different and not in use. -/
theorem serve (waiting : List ℕ) (hids : p.availableConnections.Nodup)
    (hidle : ∀ i ∈ p.availableConnections, ∀ c ∈ p.connections.get i, c.inUse = false) :
    Backed ids (p.serve now waiting).1.connections (held ++ (p.serve now waiting).2.map snd) := by
  induction waiting generalizing p held with
  | nil => exact (append_nil held).symm ▸ h
  | cons _ waiting ih =>
    rw [ConnectionPool.serve]
    cases havailable : p.availableConnections with
    | nil => simpa using h
    | cons id available =>
      rw [havailable] at hids hidle
      obtain ⟨hnot, hids⟩ := nodup_cons.mp hids
      cases hc : p.connections.get id with
      | none => simpa [hc] using h
      | some c =>
        obtain ⟨hid, hfree⟩ := h.free_of_idle hc (hidle id mem_cons_self c hc)
        have hrest := ih (p := ConnectionPool.lend
          { p with waitingQueue := waiting, availableConnections := available } id now c)
          (h.lend hid hfree rfl) hids fun i hi d hd => ?_
        · simpa [hc] using hrest
        · rw [ConnectionPool.lend, setConnection,
            get_set_of_ne _ _ fun heq : i = id => hnot (heq ▸ hi)] at hd
          exact hidle i (mem_cons_of_mem _ hi) d hd

/-- The holder of a connection gives it back. -/
theorem release (hid : id ∈ ids) (hfree : id ∉ held)
    (hok : p.waitingQueue = [] ∨ (p.availableConnections ++ [id]).Nodup ∧
      ∀ i ∈ p.availableConnections, ∀ c ∈ p.connections.get i, c.inUse = false) :
    Backed ids (p.release options id now).1.connections
      (held ++ (p.release options id now).2.map snd) := by
  rw [ConnectionPool.release]
  cases hc : p.connections.get id with
  | none => simpa using h
  | some c =>
    have hset := h.set (c := { c with inUse := false, lastUsed := now }) hid
      fun hheld => absurd hheld hfree
    dsimp only
    split_ifs
    · rw [processWaitingQueue]
      rcases hok with hnone | ⟨hnodup, hidle⟩
      · simpa [ConnectionPool.setConnection, hnone, ConnectionPool.serve] using hset
      · refine serve hset _ hnodup fun i hi d hd => ?_
        rw [ConnectionPool.setConnection, mem_def, get_set] at hd
        split_ifs at hd with heq
        · exact some.inj hd ▸ rfl
        · exact hidle i ((mem_append.mp hi).resolve_right fun hi => heq (mem_singleton.mp hi)) d hd
    · rw [map_nil, append_nil]
      exact removeConnection hset id
    · simpa using h

end Backed

end ConnectionPool

namespace PoolSystem

open ConnectionPool

variable (options : ConnectionPoolOptions)

/-- No connection is lent twice, and those that are lent are marked. -/
def Invariant (s : PoolSystem) : Prop := Backed s.ids s.pool.connections (s.lent.map Prod.snd)

/-- A connection that is given back is held by nobody. -/
theorem Invariant.erase {s : PoolSystem} {call : ℕ} {id : String} (h : s.Invariant)
    (hlent : (call, id) ∈ s.lent) :
    Backed s.ids s.pool.connections ((s.lent.erase (call, id)).map snd) ∧
      id ∉ (s.lent.erase (call, id)).map snd := by
  have hperm := (perm_cons_erase hlent).map snd
  obtain ⟨hfree, hone⟩ := nodup_cons.mp (hperm.nodup_iff.mp h.one)
  have hsub : (s.lent.erase (call, id)).map snd ⊆ s.lent.map snd := (erase_sublist.map _).subset
  exact ⟨⟨hone, List.Subset.trans hsub h.created, h.known, fun i hi => h.marked i (hsub hi)⟩, hfree⟩

theorem invariant_step {s s' : PoolSystem} {ev : PoolEvent} (h : s.Invariant)
    (hok : s.ReleaseOk ev) (hstep : s.step options ev = some s') : s'.Invariant := by
  cases ev with
  | settle =>
    rw [step] at hstep
    split_ifs at hstep with hold
    obtain ⟨r, hr, rfl⟩ := map_eq_some_iff.mp hstep
    rw [Invariant, map_append]
    exact h.settle (fun id hid hmem => hold ⟨id, hid, .inl hmem⟩) hr
  | release =>
    rw [step] at hstep
    split_ifs at hstep with hlent
    cases hstep
    obtain ⟨hrest, hfree⟩ := h.erase hlent
    rw [Invariant, map_append]
    exact hrest.release (h.created (mem_map_of_mem hlent)) hfree hok
  | timeout =>
    rw [step] at hstep
    split_ifs at hstep
    cases hstep
    exact h
  | start =>
    cases hstep
    exact h
  | acquire =>
    cases hstep
    rw [Invariant, map_append]
    exact h.acquireConnection
  | error id =>
    cases hstep
    dsimp only [Invariant, handleConnectionError]
    cases hc : s.pool.connections.get id with
    | none => exact h
    | some c => exact h.check hc (by rfl) c.inUse
  | close id =>
    cases hstep
    exact h.removeConnection id
  | healthCheck isActive =>
    cases hstep
    exact h.performHealthCheck isActive
  | cleanup =>
    cases hstep
    exact foldlRecOn (motive := fun p : ConnectionPool =>
      Backed s.ids p.connections (s.lent.map snd)) _ _ h fun _ h id _ => h.removeConnection id

/-- **One holder.** No connection is lent twice at a time, as long as waiting calls are served from
ids that are different and not in use. -/
theorem oneHolder_run (es : List PoolEvent) (s : PoolSystem)
    (hok : AllSteps (step options) ReleaseOk fresh es)
    (hrun : exec (step options) fresh es = some s) : s.OneHolder := by
  have hfresh : fresh.Invariant := ⟨nodup_nil, nil_subset _, by simp [fresh], by simp [fresh]⟩
  exact (exec_invariant (fun _ _ _ h hok hstep => invariant_step options h hok hstep) hfresh hok
    hrun).one

instance (s : PoolSystem) (ev : PoolEvent) : Decidable (s.ReleaseOk ev) := by
  unfold ReleaseOk ServesIdle
  split <;> infer_instance

/-- A connection that was there from the start is handed from one call to the next. -/
def handOn : List PoolEvent :=
  [.start, .settle 0 (some "c") 0, .acquire 1, .acquire 2, .release 0 "c" 3]

theorem oneHolder_run_handOn :
    ∃ s, exec (step ⟨1, 1, 300000, 3600000⟩) fresh handOn = some s ∧ s.lent = [(1, "c")] ∧
      s.OneHolder :=
  ⟨_, rfl, rfl, oneHolder_run ⟨1, 1, 300000, 3600000⟩ handOn _ (by decide) rfl⟩

/-- Two calls wait for a connection that a call of `acquire` has created. After its release the id
is on the list twice, and both calls get the connection. -/
theorem two_holders_of_waiting :
    ¬ ∀ (options : ConnectionPoolOptions) (es : List PoolEvent) (s : PoolSystem),
      exec (step options) fresh es = some s → s.OneHolder := by
  intro h
  have hone : ["c", "c"].Nodup := h ⟨1, 1, 300000, 3600000⟩
    [.acquire 0, .settle 0 (some "c") 1, .acquire 2, .acquire 3, .release 0 "c" 4] _ rfl
  exact absurd hone (by decide)

end PoolSystem

end DistributedCore.Connections
