import DistributedCore.Entity.WalCompaction
import DistributedCore.Library.Sorting
import DistributedCore.Persistence.WalStreaming

/-!
# The event bus and its log

`EventBus` gives every event that is published a version, one more than the last one, and writes it
to a write-ahead log before it broadcasts it. When it starts, it takes its counter from the
greatest version in the log. A compaction keeps the events with the greatest versions of every type
and rewrites the log with them.

Source: `src/messaging/EventBus.ts`.
-/

namespace DistributedCore.Messaging

open Entity Persistence List

structure BusEvent (P : Type) where
  id : String
  type : String
  payload : P
  timestamp : ℕ
  sourceNodeId : String
  version : ℤ
  deriving DecidableEq

inductive BusValue (P : Type)
  | bool (b : Bool)
  | event (event : BusEvent P)
  deriving DecidableEq

abbrev BusEntry (P : Type) := WALEntry String (BusValue P)

abbrev BusFile (P : Type) := WALFile String (BusValue P)

abbrev BusConfig (P : Type) := WALConfig String (BusValue P)

variable {P : Type}

/-! ### Entries -/

def walUpdate (event : BusEvent P) : EntityUpdate String (BusValue P) where
  entityId := "event:" ++ event.type
  version := event.version
  timestamp := event.timestamp
  operation := .create
  metadata := some ((OrderedMap.empty.set "_eventBus" (.bool true)).set "event" (.event event))

def isBusEntry (entry : BusEntry P) : Bool :=
  match entry.data.patch "_eventBus" with
  | some (.bool true) => true
  | _ => false

def eventOf (entry : BusEntry P) : Option (BusEvent P) :=
  if isBusEntry entry then
    match entry.data.patch "event" with
    | some (.event event) => some event
    | _ => none
  else none

def busEvents (config : BusConfig P) (file : BusFile P) : List (BusEvent P) :=
  (file.streamEntries config none none).filterMap eventOf

def restoredVersion (config : BusConfig P) (file : BusFile P) : ℤ :=
  (file.streamEntries config none none).foldl (fun maxVersion entry =>
    if isBusEntry entry ∧ entry.data.version > maxVersion then entry.data.version else maxVersion) 0

/-- The entries of the bus carry the version of their event. -/
def Consistent (file : BusFile P) : Prop :=
  ∀ entry ∈ file, isBusEntry entry = true →
    ∃ event, eventOf entry = some event ∧ event.version = entry.data.version

section Entries

variable {config : BusConfig P} {file : BusFile P} {entry : BusEntry P} {event : BusEvent P}

theorem eventOf_walUpdate (h : entry.data = walUpdate event) : eventOf entry = some event := by
  have hmark : isBusEntry entry = true := by
    rw [isBusEntry, h]
    rfl
  rw [eventOf, if_pos hmark, h]
  rfl

theorem busEvents_eq (config : BusConfig P) (file : BusFile P) :
    busEvents config file = (file.filter (validateEntry config)).filterMap eventOf := by
  have hall : file.filter (WALFile.inRange none none) = file := filter_eq_self.mpr fun _ _ => rfl
  rw [busEvents, WALFile.streamEntries, hall]

theorem busEvents_append (file' : BusFile P) :
    busEvents config (file ++ file') = busEvents config file ++ busEvents config file' := by
  rw [busEvents_eq, busEvents_eq, busEvents_eq, filter_append, filterMap_append]

theorem busEvents_concat_valid (file : BusFile P) (hvalid : validateEntry config entry = true) :
    busEvents config (file ++ [entry]) = busEvents config file ++ (eventOf entry).toList := by
  rw [busEvents_append, busEvents_eq config [entry], filter_cons_of_pos hvalid, filter_nil]
  cases h : eventOf entry <;> simp [h]

theorem busEvents_concat
    (hvalid : validateEntry config entry = true) (h : entry.data = walUpdate event) :
    busEvents config (file ++ [entry]) = busEvents config file ++ [event] := by
  rw [busEvents_concat_valid file hvalid, eventOf_walUpdate h]
  rfl

theorem busEvents_entriesFrom (config : BusConfig P) (now : ℕ) :
    (events : List (BusEvent P)) → (lsn : ℕ) →
      busEvents config (entriesFrom config now lsn (events.map walUpdate)) = events
  | [], _ => by rw [busEvents_eq]; rfl
  | event :: events, lsn => by
    have hvalid : validateEntry config (⟨lsn + 1, now, walUpdate event,
        config.calculateChecksum (walUpdate event)⟩ : BusEntry P) = true := by
      simp [validateEntry]
    rw [map_cons, entriesFrom, ← singleton_append, busEvents_append,
      busEvents_entriesFrom config now events (lsn + 1), ← nil_append [_],
      busEvents_concat hvalid rfl, busEvents_eq]
    rfl

theorem consistent_nil : Consistent ([] : BusFile P) := fun _ h => nomatch h

theorem Consistent.concat (hfile : Consistent file)
    (h : entry.data = walUpdate event) : Consistent (file ++ [entry]) := by
  intro e he hbus
  rcases mem_append.mp he with he | he
  · exact hfile e he hbus
  · obtain rfl := mem_singleton.mp he
    exact ⟨event, eventOf_walUpdate h, by rw [h]; rfl⟩

theorem consistent_entriesFrom (config : BusConfig P) (now : ℕ) :
    (events : List (BusEvent P)) → (lsn : ℕ) →
      Consistent (entriesFrom config now lsn (events.map walUpdate))
  | [], _ => consistent_nil
  | event :: events, lsn => by
    intro e he hbus
    rcases mem_cons.mp he with rfl | he
    · exact ⟨event, eventOf_walUpdate rfl, rfl⟩
    · exact consistent_entriesFrom config now events (lsn + 1) e he hbus

end Entries

/-! ### Versions -/

def maxVersion (events : List (BusEvent P)) : ℤ :=
  events.foldl (fun maxVersion event => max maxVersion event.version) 0

section Versions

variable {events : List (BusEvent P)}

theorem maxVersion_concat (events : List (BusEvent P)) (event : BusEvent P) :
    maxVersion (events ++ [event]) = max (maxVersion events) event.version := by
  rw [maxVersion, foldl_append]
  rfl

theorem zero_le_maxVersion (events : List (BusEvent P)) : 0 ≤ maxVersion events := by
  induction events using reverseRecOn with
  | nil => exact le_rfl
  | append_singleton _ _ ih =>
    rw [maxVersion_concat]
    exact le_max_of_le_left ih

theorem le_maxVersion {event : BusEvent P} (h : event ∈ events) :
    event.version ≤ maxVersion events := by
  induction events using reverseRecOn with
  | nil => exact nomatch h
  | append_singleton _ _ ih =>
    rw [maxVersion_concat]
    rcases mem_append.mp h with h | h
    · exact le_max_of_le_left (ih h)
    · exact le_max_of_le_right (mem_singleton.mp h ▸ le_rfl)

theorem maxVersion_le {bound : ℤ} (hbound : 0 ≤ bound)
    (h : ∀ event ∈ events, event.version ≤ bound) : maxVersion events ≤ bound := by
  induction events using reverseRecOn with
  | nil => exact hbound
  | append_singleton _ last ih =>
    rw [maxVersion_concat]
    exact max_le (ih fun event he => h event (mem_append_left _ he))
      (h last (mem_append_right _ mem_cons_self))

theorem restoredVersion_eq (config : BusConfig P) {file : BusFile P} (hfile : Consistent file) :
    restoredVersion config file = maxVersion (busEvents config file) := by
  have hmem : ∀ entry ∈ file.streamEntries config none none, isBusEntry entry = true →
      ∃ event, eventOf entry = some event ∧ event.version = entry.data.version :=
    fun entry he => hfile entry (mem_of_mem_filter (mem_of_mem_filter he))
  rw [restoredVersion, busEvents, maxVersion]
  generalize file.streamEntries config none none = entries at hmem
  generalize (0 : ℤ) = first
  induction entries generalizing first with
  | nil => rfl
  | cons entry _ ih =>
    have ih' := ih fun e he => hmem e (mem_cons_of_mem _ he)
    rw [foldl_cons, ih']
    by_cases hbus : isBusEntry entry = true
    · obtain ⟨event, hevent, hversion⟩ := hmem entry mem_cons_self hbus
      rw [filterMap_cons_some hevent, foldl_cons, hversion]
      by_cases hgreater : entry.data.version > first
      · rw [if_pos ⟨hbus, hgreater⟩, max_eq_right hgreater.le]
      · rw [if_neg fun h => hgreater h.2, max_eq_left (not_lt.mp hgreater)]
    · have hnone : eventOf entry = none := by rw [eventOf, if_neg hbus]
      rw [if_neg fun h => hbus h.1, filterMap_cons_none hnone]

end Versions

/-! ### Compaction -/

variable (keepLastNPerType n : ℕ)

def collect (buckets : OrderedMap String (List (BusEvent P)))
    (event : BusEvent P) : OrderedMap String (List (BusEvent P)) :=
  if keepLastNPerType = 0 then buckets
  else
    let bucket := (buckets.get event.type).getD []
    buckets.set event.type (TopBucket.offer BusEvent.version keepLastNPerType bucket event)

variable (events : List (BusEvent P))

def topByType : OrderedMap String (List (BusEvent P)) :=
  events.foldl (collect keepLastNPerType) .empty

def keptEvents : List (BusEvent P) :=
  (topByType keepLastNPerType events).values.flatten.insertionSort fun a b => a.version ≤ b.version

/-- At least `n` later events have the same type. -/
def Superseded (event : BusEvent P) : Prop :=
  n ≤ (events.filter fun e => e.type = event.type ∧ event.version < e.version).length

/-- The event is kept, or superseded by `n` later ones. -/
def Retained (event : BusEvent P) : Prop := event ∈ events ∨ Superseded n events event

instance [DecidableEq P] (n : ℕ) (events : List (BusEvent P)) (event : BusEvent P) :
    Decidable (Retained n events event) := inferInstanceAs (Decidable (_ ∈ _ ∨ _ ≤ _))

variable {n : ℕ} {events : List (BusEvent P)} {event : BusEvent P}

theorem Retained.of_sublist {events' : List (BusEvent P)} (hsub : events.Sublist events')
    (h : Retained n events event) : Retained n events' event := by
  rcases h with hmem | hsuperseded
  · exact .inl (hsub.subset hmem)
  · exact .inr (le_trans hsuperseded (hsub.filter _).length_le)

theorem topByType_concat (n : ℕ) (events : List (BusEvent P)) (event : BusEvent P) :
    topByType n (events ++ [event]) = collect n (topByType n events) event := by
  rw [topByType, foldl_append]
  rfl

theorem greatestOf_topByType (hn : 0 < n) (events : List (BusEvent P)) (type : String) :
    TopBucket.GreatestOf BusEvent.version n (events.filter fun e => e.type = type)
      (((topByType n events).get type).getD []) := by
  induction events using reverseRecOn with
  | nil => exact TopBucket.greatestOf_nil n
  | append_singleton _ event ih =>
    rw [topByType_concat, collect, if_neg hn.ne', OrderedMap.get_set, filter_append]
    by_cases htype : type = event.type
    · subst htype
      rw [if_pos rfl, Option.getD_some, filter_cons_of_pos (by simp), filter_nil]
      exact ih.offer hn event
    · rw [if_neg htype, filter_cons_of_neg (by simpa using fun h => htype h.symm),
        filter_nil, append_nil]
      exact ih

theorem type_of_mem_topByType (hn : 0 < n) {type : String} {bucket : List (BusEvent P)}
    (h : (topByType n events).get type = some bucket) : ∀ event ∈ bucket, event.type = type := by
  intro event hevent
  have hgreatest := greatestOf_topByType hn events type
  rw [h, Option.getD_some] at hgreatest
  obtain ⟨rest, hperm, -⟩ := hgreatest.dropped
  have hmem := hperm.mem_iff.mp (mem_append_left rest hevent)
  exact of_decide_eq_true (mem_filter.mp hmem).2

instance : Std.Total fun a b : BusEvent P => a.version ≤ b.version := ⟨fun _ _ => le_total _ _⟩

instance : IsTrans (BusEvent P) fun a b => a.version ≤ b.version := ⟨fun _ _ _ => le_trans⟩

theorem keptEvents_zero (events : List (BusEvent P)) : keptEvents 0 events = [] := by
  have hempty : topByType 0 events = .empty := by
    induction events using reverseRecOn with
    | nil => rfl
    | append_singleton _ _ ih =>
      rw [topByType_concat, ih]
      rfl
  rw [keptEvents, hempty]
  rfl

/-- **What a compaction keeps of a type** is sorted and consists of the greatest events of the
type. -/
theorem filter_keptEvents (hn : 0 < n) (events : List (BusEvent P)) (type : String) :
    TopBucket.GreatestOf BusEvent.version n (events.filter fun e => e.type = type)
      ((keptEvents n events).filter fun e => e.type = type) := by
  have hbucket := greatestOf_topByType hn events type
  have hvalues := (topByType n events).filter_flatten_values BusEvent.type type
    fun _ _ => type_of_mem_topByType hn
  rw [keptEvents, filter_insertionSort, hvalues, hbucket.sorted.insertionSort_eq]
  exact hbucket

theorem keptEvents_subset (n : ℕ) (events : List (BusEvent P)) : keptEvents n events ⊆ events := by
  rcases Nat.eq_zero_or_pos n with rfl | hn
  · rw [keptEvents_zero]
    exact nil_subset _
  · intro event hevent
    obtain ⟨rest, hperm, -⟩ := (filter_keptEvents hn events event.type).dropped
    have hmem : event ∈ (keptEvents n events).filter fun e => e.type = event.type :=
      mem_filter.mpr ⟨hevent, decide_eq_true rfl⟩
    exact mem_of_mem_filter (hperm.mem_iff.mp (mem_append_left rest hmem))

theorem exists_keptEvents_ge (hn : 0 < n) (h : event ∈ events) :
    ∃ kept ∈ keptEvents n events, event.version ≤ kept.version := by
  obtain ⟨rest, hperm, hrest⟩ := (filter_keptEvents hn events event.type).dropped
  have hmem : event ∈ events.filter fun e => e.type = event.type :=
    mem_filter.mpr ⟨h, decide_eq_true rfl⟩
  rcases mem_append.mp (hperm.mem_iff.mpr hmem) with hkept | hdropped
  · exact ⟨event, mem_of_mem_filter hkept, le_rfl⟩
  · obtain ⟨hlength, hle⟩ := hrest event hdropped
    obtain ⟨kept, hkept⟩ := exists_mem_of_length_pos (hlength ▸ hn)
    exact ⟨kept, mem_of_mem_filter hkept, hle kept hkept⟩

theorem maxVersion_keptEvents (hn : 0 < n) (events : List (BusEvent P)) :
    maxVersion (keptEvents n events) = maxVersion events := by
  refine le_antisymm ?_ ?_
  · exact maxVersion_le (zero_le_maxVersion _) fun e he =>
      le_maxVersion (keptEvents_subset n events he)
  · refine maxVersion_le (zero_le_maxVersion _) fun e he => ?_
    obtain ⟨kept, hkept, hle⟩ := exists_keptEvents_ge hn he
    exact hle.trans (le_maxVersion hkept)

/-- **Nothing is lost in a compaction**: every event whose version no other event of its type has is
kept, or superseded by events that are kept. -/
theorem retained_keptEvents (hn : 0 < n) (h : event ∈ events)
    (hunique : ∀ e ∈ events, e.type = event.type → e.version = event.version → e = event) :
    Retained n (keptEvents n events) event := by
  have hmem : event ∈ events.filter fun e => e.type = event.type :=
    mem_filter.mpr ⟨h, decide_eq_true rfl⟩
  rcases (filter_keptEvents hn events event.type).mem_or_forall_lt hmem fun e he =>
      hunique e (mem_of_mem_filter he) (of_decide_eq_true (mem_filter.mp he).2) with
    hkept | ⟨hlength, hgreater⟩
  · exact .inl (mem_of_mem_filter hkept)
  · refine .inr ?_
    have hall : ((keptEvents n events).filter fun e => e.type = event.type).filter
        (fun e => event.version < e.version) =
          (keptEvents n events).filter fun e => e.type = event.type :=
      filter_eq_self.mpr fun e he => decide_eq_true (hgreater e he)
    have hfilter : ((keptEvents n events).filter fun e =>
        e.type = event.type ∧ event.version < e.version) =
          (keptEvents n events).filter fun e => e.type = event.type := by
      rw [← hall, filter_filter]
      congr 1
      funext e
      simp [Bool.and_comm]
    rw [Superseded, hfilter, hlength]

end DistributedCore.Messaging
