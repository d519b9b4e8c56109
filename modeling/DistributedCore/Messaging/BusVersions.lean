import DistributedCore.Messaging.EventBus

/-!
# Versions over the lifetime of a log

The counter of a bus lives in memory. The only trace of the versions that were given out is the
log: `start` takes the counter from it. So versions repeat when the log does not hold the greatest
one any more, be it that a compaction removed it or that it was never written.

Source: `src/messaging/EventBus.ts`.
-/

namespace DistributedCore.Messaging

open Entity Persistence List

variable {P : Type}

structure EventBusConfig (P : Type) extends BusConfig P where
  localNodeId : String

/-- The bus in memory. -/
structure EventBus where
  versionCounter : ℤ
  started : Bool
  walWriter : Option WALWriter

def EventBus.new : EventBus := ⟨0, false, none⟩

def EventBus.counted (bus : EventBus) (writer : WALWriter) : EventBus :=
  { bus with versionCounter := bus.versionCounter + 1, walWriter := some writer }

/-- Why a call is rejected: by the log, by the transport to the other nodes, because the writer has
become `null`, or because an entry of the log does not hold an event. -/
inductive BusError
  | wal (err : WALError)
  | send (reason : String)
  | noWriter
  | noEvent

structure EventBusCompactionResult where
  entriesBefore : ℕ
  entriesKept : ℕ
  entriesRemoved : ℤ
  typesVisited : ℕ

/-- The bus with its log and the events that `publish` returned. -/
structure BusHost (P : Type) where
  bus : EventBus
  wal : BusFile P
  returned : List (BusEvent P)

/-- The calls on the bus, with the faults that they meet. -/
inductive BusCall (P : Type)
  | publish (id type : String) (payload : P) (now : ℕ) (writeFault sendFault : Option String)
  | compact (keepLastNPerType now : ℕ)
  | start
  | stop
  | restart

namespace BusHost

def opened (wal : BusFile P) : BusHost P := ⟨.new, wal, []⟩

variable (config : EventBusConfig P) (h : BusHost P) {wal : BusFile P}

def start : BusHost P :=
  if h.bus.started then h
  else
    { h with
      bus :=
        { versionCounter := restoredVersion config.toWALConfig h.wal
          started := true
          walWriter := some (.initialized h.wal) } }

def stop : BusHost P :=
  if !h.bus.started then h
  else { h with bus := { h.bus with started := false, walWriter := none } }

def restart : BusHost P := start config { h with bus := .new }

def nextEvent (id type : String) (payload : P) (now : ℕ) : BusEvent P :=
  ⟨id, type, payload, now, config.localNodeId, h.bus.versionCounter + 1⟩

def broadcast (event : BusEvent P) : Option String → BusHost P × Except BusError (BusEvent P)
  | some reason => (h, .error (.send reason))
  | none => ({ h with returned := h.returned ++ [event] }, .ok event)

def publish (id type : String) (payload : P) (now : ℕ)
    (writeFault sendFault : Option String) : BusHost P × Except BusError (BusEvent P) :=
  let event := h.nextEvent config id type payload now
  match h.bus.walWriter with
  | none =>
    broadcast { h with bus := { h.bus with versionCounter := event.version } } event sendFault
  | some writer =>
    match writer.append config.toWALConfig h.wal (walUpdate event) now writeFault with
    | (writer, .error err) => ({ h with bus := h.bus.counted writer }, .error (.wal err))
    | (writer, .ok (wal, _)) =>
      broadcast { h with bus := h.bus.counted writer, wal := wal } event sendFault

def raisedCounter (counter : ℤ) (kept : List (BusEvent P)) : ℤ :=
  match (kept.map BusEvent.version).max? with
  | none => counter
  | some maxKeptVersion => if counter < maxKeptVersion then maxKeptVersion else counter

def compactionResult (entriesBefore : ℕ) (kept : List (BusEvent P)) : EventBusCompactionResult :=
  ⟨entriesBefore, kept.length, entriesBefore - kept.length, (kept.map BusEvent.type).dedup.length⟩

/-- `compact`. It can be called while the bus is stopped, and leaves a writer. If an append to the
new log fails, the old log is gone and there is no writer. -/
def compact (keepLastNPerType now : ℕ) : BusHost P × Except BusError EventBusCompactionResult :=
  let entries := (h.wal.streamEntries config.toWALConfig none none).filter isBusEntry
  if keepLastNPerType ≠ 0 ∧ ∃ entry ∈ entries, eventOf entry = none then (h, .error .noEvent)
  else
    let kept := keptEvents keepLastNPerType (busEvents config.toWALConfig h.wal)
    match WalHost.appendAll config.toWALConfig now (.initialized ([] : BusFile P)) []
        (kept.map walUpdate) with
    | .error (wal, err) =>
      ({ h with bus := { h.bus with walWriter := none }, wal := wal }, .error (.wal err))
    | .ok wal =>
      ({ h with
        bus :=
          { h.bus with
            walWriter := some (.initialized wal)
            versionCounter := raisedCounter h.bus.versionCounter kept }
        wal := wal },
        .ok (compactionResult entries.length kept))

def step : BusCall P → Option (BusHost P)
  | .publish id type payload now writeFault sendFault =>
    some (h.publish config id type payload now writeFault sendFault).1
  | .compact n now => some (h.compact config n now).1
  | .start => some (h.start config)
  | .stop => some h.stop
  | .restart => some (h.restart config)

/-! ### Calls that keep the greatest version -/

def compactedLog (wal : BusFile P) (keepLastNPerType now : ℕ) : BusFile P :=
  entriesFrom config.toWALConfig now 0
    ((keptEvents keepLastNPerType (busEvents config.toWALConfig wal)).map walUpdate)

/-- The rewritten log stays below the limit. -/
def RewriteFits (wal : BusFile P) (keepLastNPerType now : ℕ) : Prop :=
  ∀ k < (keptEvents keepLastNPerType (busEvents config.toWALConfig wal)).length,
    WALFile.getSize config.toWALConfig ((compactedLog config wal keepLastNPerType now).take k) ≤
      config.maxFileSize

/-- The call does not lose the greatest version: an event is published only while there is a writer,
and a compaction keeps some events of every type, if there are any, and is able to write them. -/
def KeepsGreatest : BusCall P → Prop
  | .publish .. => h.bus.walWriter ≠ none
  | .compact n now =>
    (0 < n ∨ busEvents config.toWALConfig h.wal = []) ∧ RewriteFits config h.wal n now
  | _ => True

instance (config : EventBusConfig P) (wal : BusFile P) (n now : ℕ) :
    Decidable (RewriteFits config wal n now) := inferInstanceAs (Decidable (∀ k < _, _ ≤ _))

instance [DecidableEq P] (config : EventBusConfig P) (h : BusHost P) (call : BusCall P) :
    Decidable (KeepsGreatest config h call) := by
  unfold KeepsGreatest
  split <;> infer_instance

section Calls

/-- Every event can be read, or none has to be. -/
def Readable (config : EventBusConfig P) (wal : BusFile P) (n : ℕ) : Prop :=
  n = 0 ∨ ∀ entry ∈ (wal.streamEntries config.toWALConfig none none).filter isBusEntry,
    eventOf entry ≠ none

theorem Readable.of_consistent (hwal : Consistent wal) (n : ℕ) : Readable config wal n := by
  refine .inr fun entry hentry => ?_
  obtain ⟨hmem, hbus⟩ := mem_filter.mp hentry
  obtain ⟨event, hevent, -⟩ := hwal entry (mem_of_mem_filter (mem_of_mem_filter hmem)) hbus
  exact hevent ▸ Option.some_ne_none event

variable (config : EventBusConfig P) (counter : ℤ)

/-- **What a compaction does.** It writes the events that it keeps, or it stops when the new log is
too large. -/
theorem compact_cases {h : BusHost P} {n : ℕ} (hread : Readable config h.wal n) (now : ℕ) :
    (RewriteFits config h.wal n now ∧ h.compact config n now = ({ h with
            bus :=
              { h.bus with
                walWriter := some (.initialized (compactedLog config h.wal n now))
                versionCounter := raisedCounter h.bus.versionCounter
                  (keptEvents n (busEvents config.toWALConfig h.wal)) }
            wal := compactedLog config h.wal n now },
          .ok (compactionResult
            ((h.wal.streamEntries config.toWALConfig none none).filter isBusEntry).length
            (keptEvents n (busEvents config.toWALConfig h.wal))))) ∨
      (¬ RewriteFits config h.wal n now ∧ ∃ k err, h.compact config n now = ({ h with
            bus := { h.bus with walWriter := none }
            wal := (compactedLog config h.wal n now).take k }, .error (.wal err))) := by
  have hnew : WALWriter.initialized ([] : BusFile P) = ⟨0, true⟩ := rfl
  have hread : ¬ (n ≠ 0 ∧ ∃ entry ∈ (h.wal.streamEntries config.toWALConfig none none).filter
      isBusEntry, eventOf entry = none) := fun ⟨hn, entry, hentry, hnone⟩ =>
    hread.resolve_left hn entry hentry hnone
  rcases appendAll_cases config.toWALConfig now
      ((keptEvents n (busEvents config.toWALConfig h.wal)).map walUpdate) 0 [] with
    ⟨hok, hfits⟩ | ⟨k, err, herr, hk, hlarge⟩
  · refine .inl ⟨fun k hk => hfits k (by rwa [length_map]), ?_⟩
    rw [compact]
    dsimp only
    rw [if_neg hread, hnew, hok]
    rfl
  · refine .inr ⟨fun hfits => ?_, k, err, ?_⟩
    · rw [length_map] at hk
      exact absurd (hfits k hk) (not_le.mpr hlarge)
    · rw [compact]
      dsimp only
      rw [if_neg hread, hnew, herr]
      rfl

/-- **What a publish does** while there is a writer: the counter moves, and the event is written or
not, and returned only if it is written. -/
theorem publish_cases {h : BusHost P} {writer : WALWriter}
    (hwriter : h.bus.walWriter = some writer) (id type : String) (payload : P) (now : ℕ)
    (writeFault sendFault : Option String) :
    ∃ writer', (h.publish config id type payload now writeFault sendFault).1 =
        { h with bus := h.bus.counted writer' } ∨
      ∃ entry : BusEntry P, validateEntry config.toWALConfig entry = true ∧
        entry.data = walUpdate (h.nextEvent config id type payload now) ∧
        ((h.publish config id type payload now writeFault sendFault).1 =
            { h with bus := h.bus.counted writer', wal := h.wal ++ [entry] } ∨
          (h.publish config id type payload now writeFault sendFault).1 =
            { bus := h.bus.counted writer'
              wal := h.wal ++ [entry]
              returned := h.returned ++ [h.nextEvent config id type payload now] }) := by
  obtain ⟨hcounter, hresult⟩ := writer.append_spec config.toWALConfig h.wal
    (walUpdate (h.nextEvent config id type payload now)) now writeFault
  refine ⟨{ writer with currentLSN := writer.currentLSN + 1 }, ?_⟩
  rcases hresult with ⟨err, herr⟩ | ⟨entry, -, hdata, hvalid, hok⟩
  · left
    rw [publish, hwriter]
    dsimp only
    rw [← Prod.eta (writer.append _ _ _ _ _), hcounter, herr]
  · right
    refine ⟨entry, hvalid, hdata, ?_⟩
    rw [publish, hwriter]
    dsimp only
    rw [← Prod.eta (writer.append _ _ _ _ _), hcounter, hok]
    cases sendFault with
    | some => exact .inl rfl
    | none => exact .inr rfl

theorem le_raisedCounter (kept : List (BusEvent P)) : counter ≤ raisedCounter counter kept := by
  rw [raisedCounter]
  split
  · exact le_rfl
  · split_ifs with hlt
    · exact hlt.le
    · exact le_rfl

variable {event : BusEvent P}

theorem version_le_raisedCounter {kept : List (BusEvent P)}
    (he : event ∈ kept) : event.version ≤ raisedCounter counter kept := by
  have hmem : event.version ∈ kept.map BusEvent.version := mem_map_of_mem he
  rw [raisedCounter]
  split
  next hnone => rw [max?_eq_none_iff.mp hnone] at hmem; exact nomatch hmem
  next maxKeptVersion hmax =>
    have hle : event.version ≤ maxKeptVersion := (max?_eq_some_iff.mp hmax).2 event.version hmem
    split_ifs with hlt
    · exact hle
    · exact hle.trans (not_lt.mp hlt)

end Calls

/-! ### The events that a compaction keeps -/

/-- The events that were kept, in the order of their versions: of each type the newest ones, as many
as there may be. -/
structure KeepsNewest (n : ℕ) (events kept : List (BusEvent P)) : Prop where
  sorted : kept.Pairwise fun a b => a.version ≤ b.version
  length : ∀ type, (kept.filter fun e => e.type = type).length =
    min n (events.filter fun e => e.type = type).length
  newest : ∀ type, ∃ rest,
    ((kept.filter fun e => e.type = type) ++ rest).Perm (events.filter fun e => e.type = type) ∧
      ∀ dropped ∈ rest, ∀ e ∈ kept, e.type = type → dropped.version ≤ e.version

theorem keepsNewest_keptEvents (n : ℕ) (events : List (BusEvent P)) :
    KeepsNewest n events (keptEvents n events) := by
  refine ⟨pairwise_insertionSort _ _, fun type => ?_, fun type => ?_⟩
  · rcases Nat.eq_zero_or_pos n with rfl | hn
    · simp [keptEvents_zero]
    · exact (filter_keptEvents hn events type).length_eq
  · rcases Nat.eq_zero_or_pos n with rfl | hn
    · exact ⟨_, by rw [keptEvents_zero]; exact .refl _, by simp [keptEvents_zero]⟩
    · obtain ⟨rest, hperm, hrest⟩ := (filter_keptEvents hn events type).dropped
      exact ⟨rest, hperm, fun dropped hdropped e he htype =>
        (hrest dropped hdropped).2 e (mem_filter.mpr ⟨he, decide_eq_true htype⟩)⟩

/-- **A compaction keeps exactly the newest events.** It succeeds if the events can be read and the
new log is not too large; then the log holds the newest events of each type and nothing else, and
the counts tell how many entries are gone. -/
theorem compact_keepsNewest (config : EventBusConfig P) (h : BusHost P) (n now : ℕ) :
    ((∃ result, (h.compact config n now).2 = .ok result) ↔
        Readable config h.wal n ∧ RewriteFits config h.wal n now) ∧
      ∀ result, (h.compact config n now).2 = .ok result →
        KeepsNewest n (busEvents config.toWALConfig h.wal)
            (busEvents config.toWALConfig (h.compact config n now).1.wal) ∧
          result.entriesBefore =
            ((h.wal.streamEntries config.toWALConfig none none).filter isBusEntry).length ∧
          result.entriesKept = (h.compact config n now).1.wal.length ∧
          result.entriesRemoved = result.entriesBefore - result.entriesKept := by
  by_cases hread : Readable config h.wal n
  · rcases compact_cases config hread now with ⟨hfits, hresult⟩ | ⟨hlarge, k, err, hresult⟩
    · rw [hresult]
      refine ⟨iff_of_true ⟨_, rfl⟩ ⟨hread, hfits⟩, fun result hok => ?_⟩
      cases hok
      refine ⟨?_, rfl, ?_, rfl⟩
      · rw [compactedLog, busEvents_entriesFrom]
        exact keepsNewest_keptEvents _ _
      · have hlength := congrArg length (map_data_entriesFrom config.toWALConfig now
          ((keptEvents n (busEvents config.toWALConfig h.wal)).map walUpdate) 0)
        rw [length_map, length_map] at hlength
        exact hlength.symm
    · rw [hresult]
      exact ⟨iff_of_false nofun fun hok => hlarge hok.2, nofun⟩
  · have hresult : (h.compact config n now).2 = .error .noEvent := by
      have hunread := hread
      rw [Readable] at hunread
      push Not at hunread
      rw [compact]
      rw [if_pos hunread]
    rw [hresult]
    exact ⟨iff_of_false nofun fun hok => hread hok.1, nofun⟩

/-! ### Runs -/

/-- The log knows the last version that was returned, and while there is a writer, the counter has
not fallen behind the log. -/
structure Versioned (config : EventBusConfig P) (h : BusHost P) : Prop where
  consistent : Consistent h.wal
  increasing : h.returned.Pairwise fun a b => a.version < b.version
  le_greatest : ∀ event ∈ h.returned,
    event.version ≤ maxVersion (busEvents config.toWALConfig h.wal)
  nonneg : 0 ≤ h.bus.versionCounter
  greatest_le : h.bus.walWriter ≠ none →
    maxVersion (busEvents config.toWALConfig h.wal) ≤ h.bus.versionCounter

namespace Versioned

variable {config : EventBusConfig P} {h : BusHost P}

theorem opened (hwal : Consistent wal) : (opened wal).Versioned config where
  consistent := hwal
  increasing := .nil
  le_greatest := fun _ he => nomatch he
  nonneg := le_rfl
  greatest_le := fun hnone => absurd rfl hnone

section

variable (hv : h.Versioned config)

include hv

theorem counted (hwriter : h.bus.walWriter ≠ none) (writer : WALWriter) :
    Versioned config { h with bus := h.bus.counted writer } where
  consistent := hv.consistent
  increasing := hv.increasing
  le_greatest := hv.le_greatest
  nonneg := hv.nonneg.trans (Int.le_add_one le_rfl)
  greatest_le := fun _ => (hv.greatest_le hwriter).trans (Int.le_add_one le_rfl)

theorem written (hwriter : h.bus.walWriter ≠ none) (writer : WALWriter)
    {entry : BusEntry P} (hversion : event.version = h.bus.versionCounter + 1)
    (hvalid : validateEntry config.toWALConfig entry = true)
    (hdata : entry.data = walUpdate event) :
    Versioned config { h with bus := h.bus.counted writer, wal := h.wal ++ [entry] } where
  consistent := hv.consistent.concat hdata
  increasing := hv.increasing
  le_greatest := fun e he => by
    rw [busEvents_concat hvalid hdata, maxVersion_concat]
    exact le_max_of_le_left (hv.le_greatest e he)
  nonneg := hv.nonneg.trans (Int.le_add_one le_rfl)
  greatest_le := fun _ => by
    rw [busEvents_concat hvalid hdata, maxVersion_concat, hversion]
    exact max_le ((hv.greatest_le hwriter).trans (Int.le_add_one le_rfl)) le_rfl

theorem returned (hmem : event ∈ busEvents config.toWALConfig h.wal)
    (hnewer : ∀ e ∈ h.returned, e.version < event.version) :
    Versioned config { h with returned := h.returned ++ [event] } where
  consistent := hv.consistent
  increasing := by
    refine pairwise_append.mpr ⟨hv.increasing, pairwise_singleton _ _, ?_⟩
    intro e he e' he'
    exact mem_singleton.mp he' ▸ hnewer e he
  le_greatest := fun e he => by
    rcases mem_append.mp he with he | he
    · exact hv.le_greatest e he
    · obtain rfl := mem_singleton.mp he
      exact le_maxVersion hmem
  nonneg := hv.nonneg
  greatest_le := hv.greatest_le

theorem publish (hwriter : h.bus.walWriter ≠ none) (id type : String)
    (payload : P) (now : ℕ) (writeFault sendFault : Option String) :
    (h.publish config id type payload now writeFault sendFault).1.Versioned config := by
  obtain ⟨writer, hsome⟩ := Option.ne_none_iff_exists'.mp hwriter
  obtain ⟨writer', hrejected | ⟨entry, hvalid, hdata, hresult⟩⟩ :=
    publish_cases config hsome id type payload now writeFault sendFault
  · rw [hrejected]
    exact hv.counted hwriter writer'
  · have hwritten := hv.written hwriter writer' rfl hvalid hdata
    rcases hresult with hresult | hresult
    · rw [hresult]
      exact hwritten
    · rw [hresult]
      refine hwritten.returned ?_ fun e he => ?_
      · rw [busEvents_concat hvalid hdata]
        exact mem_append_right _ mem_cons_self
      · exact Int.lt_add_one_of_le ((hv.le_greatest e he).trans (hv.greatest_le hwriter))

theorem compact {n now : ℕ} (hkeeps : 0 < n ∨ busEvents config.toWALConfig h.wal = [])
    (hfits : RewriteFits config h.wal n now) :
    (h.compact config n now).1.Versioned config := by
  have hevents : busEvents config.toWALConfig (compactedLog config h.wal n now) =
      keptEvents n (busEvents config.toWALConfig h.wal) := busEvents_entriesFrom _ _ _ _
  have hgreatest : maxVersion (keptEvents n (busEvents config.toWALConfig h.wal)) =
      maxVersion (busEvents config.toWALConfig h.wal) := by
    rcases hkeeps with hn | hnil
    · exact maxVersion_keptEvents hn _
    · rw [hnil]
      rfl
  rcases compact_cases config (.of_consistent config hv.consistent n) now with
    ⟨-, hresult⟩ | ⟨hlarge, -⟩
  · rw [hresult]
    refine ⟨consistent_entriesFrom _ _ _ _, hv.increasing, ?_, ?_, fun _ => ?_⟩
    · intro e he
      rw [hevents, hgreatest]
      exact hv.le_greatest e he
    · exact hv.nonneg.trans (le_raisedCounter _ _)
    · rw [hevents]
      exact maxVersion_le (hv.nonneg.trans (le_raisedCounter _ _)) fun e he =>
        version_le_raisedCounter _ he
  · exact absurd hfits hlarge

theorem start : (h.start config).Versioned config := by
  rw [BusHost.start]
  split_ifs
  · exact hv
  · have hcounter := restoredVersion_eq config.toWALConfig hv.consistent
    refine ⟨hv.consistent, hv.increasing, hv.le_greatest, ?_, fun _ => hcounter.ge⟩
    exact hcounter ▸ zero_le_maxVersion _

theorem stop : h.stop.Versioned config := by
  rw [BusHost.stop]
  split_ifs
  · exact hv
  · exact ⟨hv.consistent, hv.increasing, hv.le_greatest, hv.nonneg, fun hnone => absurd rfl hnone⟩

theorem restart : (h.restart config).Versioned config :=
  start ⟨hv.consistent, hv.increasing, hv.le_greatest, le_rfl, fun hnone => absurd rfl hnone⟩

/-- **One call**: the log still knows the last version. -/
theorem step {h' : BusHost P} {call : BusCall P}
    (hkeeps : KeepsGreatest config h call) (hstep : h.step config call = some h') :
    h'.Versioned config := by
  cases call with
  | publish id type payload now writeFault sendFault =>
    cases hstep
    exact hv.publish hkeeps id type payload now writeFault sendFault
  | compact =>
    cases hstep
    exact hv.compact hkeeps.1 hkeeps.2
  | start =>
    cases hstep
    exact hv.start
  | stop =>
    cases hstep
    exact hv.stop
  | restart =>
    cases hstep
    exact hv.restart

end

end Versioned

/-- **Versions never repeat**: along every run of calls that keep the greatest version, on any log,
the versions of the events that are returned increase. -/
theorem versions_increasing (calls : List (BusCall P))
    {wal : BusFile P} {h : BusHost P} (hwal : Consistent wal)
    (hrun : exec (step config) (opened wal) calls = some h)
    (hkeeps : AllSteps (step config) (KeepsGreatest config) (opened wal) calls) :
    (h.returned.map BusEvent.version).Pairwise (· < ·) := by
  have hv : h.Versioned config :=
    exec_invariant (fun _ _ _ hv hkeeps hstep => hv.step hkeeps hstep) (.opened hwal) hkeeps hrun
  exact pairwise_map.mpr hv.increasing

/-! ### A compaction that removes everything -/

def sampleConfig : EventBusConfig ℕ :=
  { maxFileSize := 100
    calculateChecksum := fun _ => ""
    lineLength := fun _ => 1
    localNodeId := "n" }

def keptCalls : List (BusCall ℕ) :=
  [.start, .publish "e1" "a" 1 10 none none, .publish "e2" "b" 2 11 none none, .compact 1 12,
    .restart, .publish "e3" "a" 3 13 none none]

/-- The versions of `keptCalls`. -/
theorem versions_increasing_keptCalls :
    ∃ h, exec (step sampleConfig) (opened []) keptCalls = some h ∧
      h.returned.map BusEvent.version = [1, 2, 3] ∧
      (h.returned.map BusEvent.version).Pairwise (· < ·) :=
  ⟨_, rfl, by decide +kernel,
    versions_increasing sampleConfig keptCalls consistent_nil rfl (by decide +kernel)⟩

def emptiedCalls : List (BusCall ℕ) :=
  [.start, .publish "e1" "a" 1 10 none none, .compact 0 11, .restart,
    .publish "e2" "a" 2 12 none none]

/-- After a compaction with `keepLastNPerType = 0` and a restart, the first version is given out
again. -/
theorem version_repeated_after_compaction :
    ¬ ∀ (P : Type) (config : EventBusConfig P) (calls : List (BusCall P)) (h : BusHost P),
      exec (step config) (opened []) calls = some h →
        (h.returned.map BusEvent.version).Pairwise (· < ·) := by
  intro hall
  have hversions := hall ℕ sampleConfig emptiedCalls _ rfl
  revert hversions
  decide +kernel

end BusHost

end DistributedCore.Messaging
