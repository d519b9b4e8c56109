import DistributedCore.Library.Json
import DistributedCore.Persistence.WriteAheadLog

/-!
# Two stores for versions of a snapshot

Both stores keep the snapshots that were stored under a key, each with its time. One keeps them in
memory, newest first. The other one writes them to a log and reads the whole log for every call:
what was created and not deleted is sorted by time, newest first.

Source: `src/persistence/snapshot/types.ts`,
`src/persistence/snapshot/InMemorySnapshotVersionStore.ts`,
`src/persistence/snapshot/WALSnapshotVersionStore.ts`.
-/

namespace DistributedCore.Persistence

open Entity Json

/-! ### Snapshots -/

inductive SnapshotType
  | auto
  | manual
  | checkpoint
  deriving DecidableEq

def SnapshotType.text : SnapshotType → String
  | .auto => "auto"
  | .manual => "manual"
  | .checkpoint => "checkpoint"

def SnapshotType.ofText (text : String) : Option SnapshotType :=
  [SnapshotType.auto, .manual, .checkpoint].find? fun type => type.text = text

theorem SnapshotType.ofText_text (type : SnapshotType) : ofText type.text = some type := by
  cases type <;> decide

structure SnapshotEntry where
  id : String
  key : String
  timestamp : ℕ
  type : SnapshotType
  name : Option String
  data : Json
  sizeBytes : Option ℕ
  expiresAt : Option ℤ
  metadata : Option (Metadata Json)

structure StoreSnapshotOptions where
  type : Option SnapshotType := none
  name : Option String := none
  ttlMs : Option ℤ := none
  expiresAt : Option ℤ := none
  sizeBytes : Option ℕ := none
  metadata : Option (Metadata Json) := none

def isFresh (now : ℕ) (expiresAt : Option ℤ) : Bool := expiresAt.all fun time => (now : ℤ) < time

/-! ### The store in memory -/

/-- The snapshots of each key, the newest first. -/
structure InMemorySnapshotVersionStore where
  entries : OrderedMap String (List SnapshotEntry)
  idCounter : ℕ

namespace InMemorySnapshotVersionStore

def empty : InMemorySnapshotVersionStore := ⟨.empty, 0⟩

variable (s : InMemorySnapshotVersionStore) (key : String)

def snapshots : List SnapshotEntry := (s.entries.get key).getD []

def store (data : Json)
    (options : StoreSnapshotOptions) (now : ℕ) : InMemorySnapshotVersionStore × SnapshotEntry :=
  let entry : SnapshotEntry :=
    { id := s!"snap-{now}-{s.idCounter + 1}"
      key := key
      timestamp := now
      type := options.type.getD .auto
      name := options.name
      data := data
      sizeBytes := none
      expiresAt := options.ttlMs.map fun ttl => now + ttl
      metadata := options.metadata }
  (⟨s.entries.set key (entry :: s.snapshots key), s.idCounter + 1⟩, entry)

def getLatest (now : ℕ) : Option SnapshotEntry :=
  (s.snapshots key).find? fun entry => isFresh now entry.expiresAt

def listLoop (limit : ℤ) (now : ℕ) : List SnapshotEntry → List SnapshotEntry → List SnapshotEntry
  | result, [] => result
  | result, entry :: rest =>
    if limit ≤ result.length then result
    else listLoop limit now (if isFresh now entry.expiresAt then result ++ [entry] else result) rest

def list (limit : ℤ) (now : ℕ) : List SnapshotEntry := listLoop limit now [] (s.snapshots key)

def getAt (timestamp : ℤ) : Option SnapshotEntry :=
  (s.snapshots key).find? fun entry => (entry.timestamp : ℤ) = timestamp

def delete (timestamp : ℤ) : InMemorySnapshotVersionStore × Bool :=
  match (s.snapshots key).find? fun entry => (entry.timestamp : ℤ) = timestamp with
  | none => (s, false)
  | some _ =>
    let rest := (s.snapshots key).eraseP fun entry => (entry.timestamp : ℤ) = timestamp
    ({ s with entries := if rest.isEmpty then s.entries.delete key else s.entries.set key rest },
      true)

def purgeExpired (now : ℕ) : InMemorySnapshotVersionStore × ℕ :=
  let kept := s.entries.mapValues fun _ list => list.filter fun entry => isFresh now entry.expiresAt
  ({ s with entries := kept.filter fun _ list => !list.isEmpty },
    (s.entries.values.map fun list =>
      list.length - (list.filter fun entry => isFresh now entry.expiresAt).length).sum)

end InMemorySnapshotVersionStore

/-! ### The store in a log -/

variable (entry : SnapshotEntry)

def snapshotMetadata : Metadata Json :=
  let base := ((((((OrderedMap.empty.set "_snapshot" (.bool true)).set "id" (.string entry.id)).set
    "key" (.string entry.key)).set "type" (.string entry.type.text)).set
    "data" (.string (String.ofList entry.data.stringify))).set
    "sizeBytes" ((entry.sizeBytes.map fun n => Json.number (.ofNat n)).getD .null))
  let named := match entry.name with
    | none => base
    | some name => base.set "name" (.string name)
  let expiring := match entry.expiresAt with
    | none => named
    | some time => named.set "expiresAt" (.number (.ofInt time))
  match entry.metadata with
  | none => expiring
  | some metadata => expiring.set "metadata" (.object metadata.entries)

def deletionMetadata (id key : String) : Metadata Json :=
  ((OrderedMap.empty.set "_snapshot" (.bool true)).set "id" (.string id)).set "key" (.string key)

def isSnapshotMetadata (metadata : Metadata Json) : Bool :=
  metadata.get "_snapshot" = some (.bool true)

def entryFromMetadata (metadata : Metadata Json) (timestamp : ℕ) : Option SnapshotEntry := do
  let id ← (metadata.get "id").bind asString
  let key ← (metadata.get "key").bind asString
  let type ← ((metadata.get "type").bind asString).bind SnapshotType.ofText
  let text ← (metadata.get "data").bind asString
  let data ← parse text.toList
  some
    { id := id
      key := key
      timestamp := timestamp
      type := type
      name := (metadata.get "name").bind asString
      data := data
      sizeBytes := (metadata.get "sizeBytes").bind asNat
      expiresAt := (metadata.get "expiresAt").bind asInt
      metadata := (metadata.get "metadata").bind asRecord }

/-- The writer and its log; there is no other state. -/
structure WALSnapshotVersionStore where
  writer : WALWriter
  wal : WALFile String Json

namespace WALSnapshotVersionStore

def started : WALSnapshotVersionStore := ⟨.initialized ([] : WALFile String Json), []⟩

variable (config : WALConfig String Json) (s : WALSnapshotVersionStore)

def append (update : EntityUpdate String Json) (now : ℕ) : Option WALSnapshotVersionStore :=
  match s.writer.append config s.wal update now none with
  | (writer, .ok (wal, _)) => some ⟨writer, wal⟩
  | (_, .error _) => none

variable (key : String)

def snapshotUpdate (operation : Operation) (metadata : Metadata Json) (now : ℕ) :
    EntityUpdate String Json where
  entityId := "snapshot:" ++ key
  ownerNodeId := some "local"
  version := now
  timestamp := now
  operation := operation
  metadata := some metadata

def store (data : Json) (options : StoreSnapshotOptions) (id : String) (now : ℕ) :
    Option (WALSnapshotVersionStore × SnapshotEntry) :=
  let entry : SnapshotEntry :=
    { id := id
      key := key
      timestamp := now
      type := options.type.getD .auto
      name := options.name
      data := data
      sizeBytes := some (options.sizeBytes.getD (String.ofList data.stringify).utf8ByteSize)
      expiresAt := options.expiresAt
      metadata := options.metadata }
  (s.append config (snapshotUpdate key .create (snapshotMetadata entry) now) now).map (·, entry)

/-- What the loop over the log has found: the created snapshots, and the ids of the deleted
ones. -/
structure Found where
  creates : OrderedMap String SnapshotEntry
  deleted : List String

def Found.read (key : Option String) (found : Found) (entry : WALEntry String Json) : Found :=
  let metadata := entry.data.metadata.getD .empty
  if isSnapshotMetadata metadata && key.all fun key => metadata.get "key" = some (.string key) then
    match entry.data.operation, entryFromMetadata metadata entry.data.timestamp,
        (metadata.get "id").bind asString with
    | .create, some snapshot, _ => { found with creates := found.creates.set snapshot.id snapshot }
    | .delete, _, some id => { found with deleted := id :: found.deleted }
    | _, _, _ => found
  else found

def Found.alive (found : Found) : List SnapshotEntry :=
  (found.creates.entries.filter fun p => p.1 ∉ found.deleted).map Prod.snd

def find (key : Option String) : Found := (s.wal.readAll config).foldl (Found.read key) ⟨.empty, []⟩

def readAlive (key : Option String) : List SnapshotEntry :=
  (s.find config key).alive.insertionSort fun a b => b.timestamp ≤ a.timestamp

def getLatest : Option SnapshotEntry := (s.readAlive config (some key)).head?

def list (limit : ℤ) : List SnapshotEntry :=
  let alive := s.readAlive config (some key)
  alive.take (if 0 ≤ limit then limit else alive.length + limit).toNat

def getAt (timestamp : ℤ) : Option SnapshotEntry :=
  ((s.readAlive config (some key)).filter fun entry => (entry.timestamp : ℤ) ≤ timestamp).head?

def delete (timestamp : ℤ) (now : ℕ) : Option (WALSnapshotVersionStore × Bool) :=
  match (s.readAlive config (some key)).find? fun entry => (entry.timestamp : ℤ) = timestamp with
  | none => some (s, false)
  | some target =>
    (s.append config (snapshotUpdate key .delete (deletionMetadata target.id key) now) now).map
      (·, true)

def isExpired (now : ℕ) (expiresAt : Option ℤ) : Bool := expiresAt.any fun time => time < (now : ℤ)

def purgeLoop (now : ℕ) : List SnapshotEntry → WALSnapshotVersionStore × ℕ →
    Option (WALSnapshotVersionStore × ℕ)
  | [], acc => some acc
  | snapshot :: rest, (s, count) =>
    if isExpired now snapshot.expiresAt then
      match s.delete config snapshot.key snapshot.timestamp now with
      | none => none
      | some (s, deleted) => purgeLoop now rest (s, if deleted then count + 1 else count)
    else purgeLoop now rest (s, count)

def purgeExpired (now : ℕ) : Option (WALSnapshotVersionStore × ℕ) :=
  purgeLoop config now (s.readAlive config none) (s, 0)

end WALSnapshotVersionStore

/-! ### Calls -/

inductive SnapshotCall
  | store (key : String) (data : Json) (options : StoreSnapshotOptions) (id : String)
  | getLatest (key : String)
  | list (key : String) (limit : ℤ)
  | getAt (key : String) (timestamp : ℤ)
  | delete (key : String) (timestamp : ℤ)
  | purgeExpired

/-- What a caller sees of a snapshot; the ids differ between the stores. -/
structure SnapshotView where
  key : String
  timestamp : ℕ
  type : SnapshotType
  name : Option String
  data : Json
  expiresAt : Option ℤ
  deriving DecidableEq

def SnapshotEntry.view : SnapshotView :=
  ⟨entry.key, entry.timestamp, entry.type, entry.name, entry.data, entry.expiresAt⟩

inductive SnapshotResult
  | stored (entry : SnapshotView)
  | found (entry : Option SnapshotView)
  | listed (entries : List SnapshotView)
  | deleted (done : Bool)
  | purged (count : ℕ)
  deriving DecidableEq

def InMemorySnapshotVersionStore.call (s : InMemorySnapshotVersionStore) (now : ℕ) :
    SnapshotCall → InMemorySnapshotVersionStore × SnapshotResult
  | .store key data options _ =>
    let (s, entry) := s.store key data options now
    (s, .stored entry.view)
  | .getLatest key => (s, .found ((s.getLatest key now).map SnapshotEntry.view))
  | .list key limit => (s, .listed ((s.list key limit now).map SnapshotEntry.view))
  | .getAt key timestamp => (s, .found ((s.getAt key timestamp).map SnapshotEntry.view))
  | .delete key timestamp =>
    let (s, done) := s.delete key timestamp
    (s, .deleted done)
  | .purgeExpired =>
    let (s, count) := s.purgeExpired now
    (s, .purged count)

def WALSnapshotVersionStore.call (config : WALConfig String Json) (s : WALSnapshotVersionStore)
    (now : ℕ) : SnapshotCall → Option (WALSnapshotVersionStore × SnapshotResult)
  | .store key data options id =>
    (s.store config key data options id now).map fun r => (r.1, .stored r.2.view)
  | .getLatest key => some (s, .found ((s.getLatest config key).map SnapshotEntry.view))
  | .list key limit => some (s, .listed ((s.list config key limit).map SnapshotEntry.view))
  | .getAt key timestamp =>
    some (s, .found ((s.getAt config key timestamp).map SnapshotEntry.view))
  | .delete key timestamp =>
    (s.delete config key timestamp now).map fun r => (r.1, .deleted r.2)
  | .purgeExpired => (s.purgeExpired config now).map fun r => (r.1, .purged r.2)

/-! ### What is written is read back -/

theorem get_snapshotMetadata : (snapshotMetadata entry).get "_snapshot" = some (.bool true) ∧
      (snapshotMetadata entry).get "id" = some (.string entry.id) ∧
      (snapshotMetadata entry).get "key" = some (.string entry.key) ∧
      (snapshotMetadata entry).get "type" = some (.string entry.type.text) ∧
      (snapshotMetadata entry).get "data" = some (.string (String.ofList entry.data.stringify)) ∧
      (snapshotMetadata entry).get "sizeBytes" =
        some ((entry.sizeBytes.map fun n => Json.number (.ofNat n)).getD .null) ∧
      (snapshotMetadata entry).get "name" = entry.name.map string ∧
      (snapshotMetadata entry).get "expiresAt" =
        entry.expiresAt.map (fun time => Json.number (.ofInt time)) ∧
      (snapshotMetadata entry).get "metadata" =
        entry.metadata.map (fun metadata => object metadata.entries) := by
  obtain ⟨id, key, timestamp, type, name, data, sizeBytes, expiresAt, metadata⟩ := entry
  cases name <;> cases expiresAt <;> cases metadata <;>
    simp [snapshotMetadata, OrderedMap.get_set]

theorem entryFromMetadata_snapshotMetadata :
    entryFromMetadata (snapshotMetadata entry) entry.timestamp = some entry := by
  obtain ⟨-, hid, hkey, htype, hdata, hsize, hname, hexpires, hmetadata⟩ :=
    get_snapshotMetadata entry
  simp only [entryFromMetadata, hid, hkey, htype, hdata, hsize, hname, hexpires, hmetadata,
    Option.bind_some, asString, SnapshotType.ofText_text, String.toList_ofList,
    parse_stringify, Option.bind_eq_bind]
  obtain ⟨id, key, timestamp, type, name, data, sizeBytes, expiresAt, metadata⟩ := entry
  cases name <;> cases sizeBytes <;> cases expiresAt <;> cases metadata <;>
    simp [asString, asNat, asInt]

end DistributedCore.Persistence
