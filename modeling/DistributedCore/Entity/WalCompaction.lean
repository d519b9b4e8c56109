import DistributedCore.Entity.WalRecovery

/-!
# Compaction of the log

`compact` replaces the log by one `CREATE` for each entity whose last entry is not a `DELETE`,
with the data of that last entry. A registry that replays the new log has the entities of the old
one exactly if every last entry tells everything about its entity (`EntityUpdate.Complete`) and
the new log can be written (`compaction_preserves_iff`).
-/

namespace DistributedCore.Entity

open Persistence OrderedMap WalHost List WALEntry
open Option hiding filter filter_map map

variable {N V : Type} {u : EntityUpdate N V}

/-! ### The new log -/

def entriesFrom (config : WALConfig N V) (now : ℕ) : ℕ → List (EntityUpdate N V) → WALFile N V
  | _, [] => []
  | lsn, u :: us =>
    ⟨lsn + 1, now, u, config.calculateChecksum u⟩ :: entriesFrom config now (lsn + 1) us

section NewLog

variable (config : WALConfig N V) (now : ℕ)

theorem map_data_entriesFrom : (us : List (EntityUpdate N V)) → (lsn : ℕ) →
    (entriesFrom config now lsn us).map data = us
  | [], _ => rfl
  | u :: us, lsn => by rw [entriesFrom, map_cons, map_data_entriesFrom us (lsn + 1)]

theorem lt_of_mem_entriesFrom : {us : List (EntityUpdate N V)} → {lsn : ℕ} →
    {entry : WALEntry N V} → entry ∈ entriesFrom config now lsn us → lsn < entry.logSequenceNumber
  | [], _, _, h => nomatch h
  | u :: us, lsn, entry, h => by
    rcases mem_cons.mp h with rfl | h
    · exact Nat.lt_succ_self lsn
    · exact (Nat.lt_succ_self lsn).trans (lt_of_mem_entriesFrom h)

theorem ordered_entriesFrom : (us : List (EntityUpdate N V)) → (lsn : ℕ) →
    (entriesFrom config now lsn us).Ordered config
  | [], _ => WALFile.ordered_nil
  | u :: us, lsn => by
    have ih := ordered_entriesFrom us (lsn + 1)
    refine ⟨fun entry he => ?_, pairwise_cons.mpr ⟨fun entry he => ?_, ih.increasing⟩⟩
    · rcases mem_cons.mp he with rfl | he
      · simp [validateEntry]
      · exact ih.valid entry he
    · exact lt_of_mem_entriesFrom config now he

/-- **What a compaction writes.** It writes all entries if the size limit holds before each of its
appends; otherwise it stops at the first one before which the limit does not hold. -/
theorem appendAll_cases : (us : List (EntityUpdate N V)) → (lsn : ℕ) → (file : WALFile N V) →
    (appendAll config now ⟨lsn, true⟩ file us = .ok (file ++ entriesFrom config now lsn us) ∧
        ∀ k < us.length, WALFile.getSize config
          (file ++ (entriesFrom config now lsn us).take k) ≤ config.maxFileSize) ∨
      ∃ k err, appendAll config now ⟨lsn, true⟩ file us =
          .error (file ++ (entriesFrom config now lsn us).take k, err) ∧
        k < us.length ∧ config.maxFileSize < WALFile.getSize config
          (file ++ (entriesFrom config now lsn us).take k)
  | [], lsn, file => .inl ⟨by simp [appendAll, entriesFrom], fun _ hk => nomatch hk⟩
  | u :: us, lsn, file => by
    have hcons : ∀ k, file ++ [⟨lsn + 1, now, u, config.calculateChecksum u⟩] ++
        (entriesFrom config now (lsn + 1) us).take k =
          file ++ (entriesFrom config now lsn (u :: us)).take (k + 1) := fun k => by
      rw [append_assoc, singleton_append, entriesFrom, take_succ_cons]
    rw [appendAll, WALWriter.append_eq]
    dsimp only
    by_cases hsize : file.getSize config > config.maxFileSize
    · rw [if_pos hsize]
      refine .inr ⟨0, .sizeLimitExceeded (file.getSize config) config.maxFileSize, ?_,
        Nat.succ_pos _, ?_⟩
      · rw [take_zero, append_nil]
      · rwa [take_zero, append_nil]
    · simp only [hsize, Bool.not_true, Bool.false_eq_true, ↓reduceIte]
      rcases appendAll_cases us (lsn + 1) (file ++ [⟨lsn + 1, now, u,
        config.calculateChecksum u⟩]) with ⟨hok, hfits⟩ | ⟨k, err, herr, hk, hlarge⟩
      · refine .inl ⟨?_, fun k hk => ?_⟩
        · rw [hok, append_assoc, singleton_append, entriesFrom]
        · cases k with
          | zero =>
            rw [take_zero, append_nil]
            exact not_lt.mp hsize
          | succ k => exact hcons k ▸ hfits k (Nat.lt_of_succ_lt_succ hk)
      · refine .inr ⟨k + 1, err, ?_, Nat.succ_lt_succ hk, hcons k ▸ hlarge⟩
        rw [herr, hcons]

end NewLog

/-! ### One entity -/

def updatesAbout (wal : List (WALEntry N V)) (e : EntityId) : List (EntityUpdate N V) :=
  (wal.map WALEntry.data).filter fun u => u.entityId = e

/-- The record that a sequence of updates leads to. -/
def recordAfter (us : List (EntityUpdate N V)) : Option (EntityRecord N V) :=
  us.foldl (fun record u => (u.apply record).1) none

theorem recordAfter_concat (us : List (EntityUpdate N V)) (u : EntityUpdate N V) :
    recordAfter (us ++ [u]) = (u.apply (recordAfter us)).1 := by
  rw [recordAfter, foldl_append]
  rfl

theorem get_replay_updatesAbout (wal : WALFile N V) (e : EntityId) :
    (Entities.replay .empty (wal.map data)).get e = recordAfter (updatesAbout wal e) :=
  Entities.get_replay e _ _

theorem filter_survivingUpdates (entries : List (WALEntry N V)) (e : EntityId) :
    (survivingUpdates entries).filter (fun u => u.entityId = e) =
      ((updatesAbout entries e).getLast?.filter fun u => u.operation ≠ .delete).toList := by
  have hget : ∀ k, (entries.foldl (fun m entry => m.set entry.data.entityId entry.data)
      (.empty : OrderedMap EntityId (EntityUpdate N V))).get k =
        (updatesAbout entries k).getLast? := fun k => by
    rw [get_foldl_set (fun entry => entry.data.entityId) data,
      get_empty, or_none, updatesAbout, filter_map, getLast?_map]
    rfl
  have hkey : ∀ k v, (updatesAbout entries k).getLast? = some v → v.entityId = k := by
    intro k v hv
    exact of_decide_eq_true (mem_filter.mp (mem_of_getLast? hv)).2
  rw [survivingUpdates, filter_comm, filter_values EntityUpdate.entityId, hget]
  · cases (updatesAbout entries e).getLast? with
    | none => rfl
    | some u => by_cases hdel : u.operation = .delete <;> simp [Option.filter, hdel]
  · intro k v hv
    exact hkey k v ((hget k).symm.trans hv)

/-- The last update about an entity tells everything: compared with the record that it finds, it
is a `DELETE`, a `CREATE` of an absent entity, an `UPDATE` of all keys by the owner, a `TRANSFER`
with the metadata of the record, or an update that the registry ignores because the record is
already what the update says. -/
inductive EntityUpdate.Complete (u : EntityUpdate N V) : Option (EntityRecord N V) → Prop
  | deleted {existing : Option (EntityRecord N V)} (op : u.operation = .delete) :
      Complete u existing
  | created (op : u.operation = .create) : Complete u none
  | updated {r : EntityRecord N V} (op : u.operation = .update) (newer : r.version < u.version)
      (owner : r.ownerNodeId = u.ownerNodeId)
      (keys : ∀ k, u.patch k = none → r.metadata.get k = none) : Complete u (some r)
  | transferred {r : EntityRecord N V} (op : u.operation = .transfer)
      (newer : r.version < u.version) (metadata : ∀ k, r.metadata.get k = u.patch k) :
      Complete u (some r)
  | ignored {r : EntityRecord N V} (op : u.operation ≠ .delete)
      (stale : u.operation ≠ .create → u.version ≤ r.version)
      (owner : r.ownerNodeId = u.ownerNodeId) (version : r.version = u.version)
      (metadata : ∀ k, r.metadata.get k = u.patch k) : Complete u (some r)

theorem EntityUpdate.apply_delete (hdel : u.operation = .delete)
    (existing : Option (EntityRecord N V)) : (u.apply existing).1 = none := by
  cases existing <;> simp [EntityUpdate.apply, hdel]

theorem EntityUpdate.complete_iff (hdel : u.operation ≠ .delete)
    (existing : Option (EntityRecord N V)) :
    u.Complete existing ↔ (u.apply existing).1.map EntityRecord.view =
        some ⟨u.ownerNodeId, u.version, u.patch⟩ := by
  have happlied := u.applied_apply existing
  generalize (u.apply existing).1 = after, (u.apply existing).2 = events at happlied ⊢
  cases happlied with
  | created op =>
    refine iff_of_true (.created op) ?_
    rw [map_some, EntityUpdate.view_newRecord]
  | deleted op => exact absurd op hdel
  | absent op =>
    refine iff_of_false (fun h => ?_) fun h => nomatch h
    cases h with
    | deleted op' => exact hdel op'
    | created op' => exact op op'
  | @updated r op newer =>
    rw [map_some, EntityRecord.view_updatedBy, some.injEq, EntityView.ext_iff]
    constructor
    · intro h
      cases h with
      | deleted op' => exact absurd op' hdel
      | updated _ _ owner keys =>
        refine ⟨owner, rfl, funext fun k => ?_⟩
        cases hk : u.patch k with
        | none => simp [keys k hk]
        | some => simp [hk]
      | transferred op' => exact absurd (op.symm.trans op') (by decide)
      | ignored _ stale => exact absurd (stale (by rw [op]; decide)) (not_le.mpr newer)
    · rintro ⟨howner, -, hmetadata⟩
      refine .updated op newer howner fun k hk => ?_
      have hk' : (u.patch k).or (r.metadata.get k) = u.patch k := congrFun hmetadata k
      rwa [hk, none_or] at hk'
  | @transferred r op newer =>
    rw [map_some, some.injEq, EntityView.ext_iff]
    constructor
    · intro h
      cases h with
      | deleted op' => exact absurd op' hdel
      | updated op' => exact absurd (op.symm.trans op') (by decide)
      | transferred _ _ metadata => exact ⟨rfl, rfl, funext metadata⟩
      | ignored _ stale => exact absurd (stale (by rw [op]; decide)) (not_le.mpr newer)
    · rintro ⟨-, -, hmetadata⟩
      exact .transferred op newer (congrFun hmetadata)
  | @present r op stale =>
    rw [map_some, some.injEq, EntityView.ext_iff]
    constructor
    · intro h
      cases h with
      | deleted op' => exact absurd op' hdel
      | updated op' newer => exact absurd (stale (by rw [op']; decide)) (not_le.mpr newer)
      | transferred op' newer => exact absurd (stale (by rw [op']; decide)) (not_le.mpr newer)
      | ignored _ _ owner version metadata => exact ⟨owner, version, funext metadata⟩
    · rintro ⟨howner, hversion, hmetadata⟩
      exact .ignored op stale howner hversion (congrFun hmetadata)

/-! ### Compaction -/

def compactedLog (config : WalRegistryConfig N V) (now : ℕ) (entries : List (WALEntry N V)) :
    WALFile N V :=
  entriesFrom (freshConfig config) now 0
    ((survivingUpdates entries).map compactedUpdate)

/-- The rewritten log stays below the limit of its writer. -/
def CompactionFits (config : WalRegistryConfig N V) (now : ℕ) (entries : List (WALEntry N V)) :
    Prop :=
  ∀ k < (survivingUpdates entries).length,
    WALFile.getSize (freshConfig config) ((compactedLog config now entries).take k) ≤
      (freshConfig config).maxFileSize

instance (config : WalRegistryConfig N V) (now : ℕ) (entries : List (WALEntry N V)) :
    Decidable (CompactionFits config now entries) :=
  inferInstanceAs (Decidable (∀ k < _, _ ≤ _))

section Compaction

variable {config : WalRegistryConfig N V} {h : WalHost N V}

theorem ordered_compactedLog (config : WalRegistryConfig N V) (now : ℕ)
    (entries : List (WALEntry N V)) :
    (compactedLog config now entries).Ordered config.toWALConfig :=
  ⟨(ordered_entriesFrom (freshConfig config) now _ 0).valid,
    (ordered_entriesFrom (freshConfig config) now _ 0).increasing⟩

def WalHost.afterCompaction (h : WalHost N V) (writer : WALWriter) (wal : WALFile N V) :
    WalHost N V :=
  { h with
    registry := { h.registry with walWriter := writer }
    wal := wal
    history := h.history ++ [.compacted wal] }

/-- **What a compaction does.** It succeeds if the new log keeps within its size limit; otherwise
it leaves a part of the new log and a closed writer. -/
theorem compact_cases (hwal : h.wal.Ordered config.toWALConfig) (now : ℕ) :
    (CompactionFits config now h.wal ∧ (h.compact config now).1 =
          h.afterCompaction (.initialized (compactedLog config now h.wal))
            (compactedLog config now h.wal) ∧
        ∃ result, (h.compact config now).2 = .ok result) ∨
      ¬ CompactionFits config now h.wal ∧ ∃ k err, (h.compact config now).1 =
            h.afterCompaction h.registry.walWriter.close ((compactedLog config now h.wal).take k) ∧
          (h.compact config now).2 = .error err := by
  have hnew : WALWriter.initialized ([] : WALFile N V) = ⟨0, true⟩ := rfl
  rcases appendAll_cases (freshConfig config) now
    ((survivingUpdates h.wal).map compactedUpdate) 0 [] with
    ⟨hok, hfits⟩ | ⟨k, err, herr, hk, hlarge⟩
  · refine .inl ⟨fun k hk => hfits k (by rwa [length_map]), ?_⟩
    rw [WalHost.compact, hwal.readAll_eq]
    rw [hnew, hok]
    exact ⟨rfl, _, rfl⟩
  · refine .inr ⟨fun hfits => ?_, k, err, ?_⟩
    · rw [length_map] at hk
      exact absurd (hfits k hk) (not_le.mpr hlarge)
    · rw [WalHost.compact, hwal.readAll_eq]
      rw [hnew, herr]
      exact ⟨rfl, rfl⟩

theorem updatesAbout_compactedLog (config : WalRegistryConfig N V) (now : ℕ)
    (entries : List (WALEntry N V)) (e : EntityId) :
    updatesAbout (compactedLog config now entries) e =
      ((updatesAbout entries e).getLast?.filter fun u => u.operation ≠ .delete).toList.map
        compactedUpdate := by
  rw [← filter_survivingUpdates, updatesAbout, compactedLog, map_data_entriesFrom, filter_map]
  rfl

theorem view_compactedLog_eq_iff (config : WalRegistryConfig N V) (now : ℕ)
    (wal : WALFile N V) (e : EntityId) :
    ((Entities.replay .empty ((compactedLog config now wal).map data)).get e).map
          EntityRecord.view =
        ((Entities.replay .empty (wal.map data)).get e).map EntityRecord.view ↔
      ∀ u, (updatesAbout wal e).getLast? = some u →
        u.Complete (recordAfter (updatesAbout wal e).dropLast) := by
  rw [get_replay_updatesAbout, updatesAbout_compactedLog, get_replay_updatesAbout]
  cases hlast : (updatesAbout wal e).getLast? with
  | none =>
    rw [getLast?_eq_none_iff.mp hlast]
    exact iff_of_true rfl fun _ h => nomatch h
  | some u =>
    have hrecord : recordAfter (updatesAbout wal e) =
        (u.apply (recordAfter (updatesAbout wal e).dropLast)).1 := by
      rw [← recordAfter_concat, dropLast_append_getLast? u hlast]
    rw [hrecord]
    generalize recordAfter (updatesAbout wal e).dropLast = existing
    simp only [some.injEq, forall_eq']
    by_cases hdel : u.operation = .delete
    · refine iff_of_true ?_ (.deleted hdel)
      rw [u.apply_delete hdel]
      simp [Option.filter, hdel, recordAfter]
    · have hkept : (some u).filter (fun u => u.operation ≠ .delete) = some u := by simp [hdel]
      have hview : (recordAfter [compactedUpdate u]).map EntityRecord.view = some _ :=
        congrArg some (EntityUpdate.view_newRecord (compactedUpdate u))
      rw [u.complete_iff hdel, eq_comm, hkept]
      exact (Eq.congr_right hview).trans Iff.rfl

/-- **When a compaction preserves the entities.** After any sequence of calls, a compaction
succeeds and a registry that replays the new log has the same owner, version and metadata for every
entity as one that replays the old log, exactly if the new log keeps within its size limit and the
last entry of every entity tells everything about it. -/
theorem compaction_preserves_iff [DecidableEq N] (config : WalRegistryConfig N V) (nodeId : N)
    {es : List (WalEvent N V)} {h : WalHost N V} (hes : ∀ ev ∈ es, ev.IsOperation)
    (hrun : exec (WalHost.step config) (WalHost.fresh config nodeId) es = some h) (now : ℕ) :
    ((∃ result, (h.compact config now).2 = .ok result) ∧
        ∀ e, ((WriteAheadLogEntityRegistry.start config nodeId (h.compact config now).1.wal
              .empty).entities.get e).map EntityRecord.view =
          ((WriteAheadLogEntityRegistry.start config nodeId h.wal .empty).entities.get e).map
            EntityRecord.view) ↔
      CompactionFits config now h.wal ∧ ∀ e u, (updatesAbout h.wal e).getLast? = some u →
          u.Complete (recordAfter (updatesAbout h.wal e).dropLast) := by
  have hlog := (logged_fresh config nodeId).run hes hrun
  have hold := entities_start_of_none config nodeId hlog.ordered
    (fun entry he => (hlog.lsn entry he).1) (rfl : CheckpointDir.empty.readLatest = none)
  rcases compact_cases hlog.ordered now with ⟨hfits, hhost, hok⟩ | ⟨hnot, k, err, -, herr⟩
  · have hnew := entities_start_of_none config nodeId (ordered_compactedLog config now h.wal)
      (fun entry he => lt_of_mem_entriesFrom _ now he)
      (rfl : CheckpointDir.empty.readLatest = none)
    have hwal : (h.compact config now).1.wal = compactedLog config now h.wal := by rw [hhost]; rfl
    simp only [hwal, hnew, hold, view_compactedLog_eq_iff]
    exact and_congr_left' (iff_of_true hok hfits)
  · refine iff_of_false (fun h => ?_) fun h => hnot h.1
    obtain ⟨result, hresult⟩ := h.1
    exact absurd (herr.symm.trans hresult) (by simp)

end Compaction

/-- An entity is created with a value under one key, and then a value under another key is
written, or under the same one. -/
def createAndUpdate (key key' : String) : List (WalEvent String ℕ) :=
  [.call (.proposeEntity "e" (some (OrderedMap.empty.set key 1))) 0 {},
    .call (.updateEntity "e" (OrderedMap.empty.set key' 2)) 1 {}]

theorem compaction_preserves_iff_createAndUpdate :
    ∃ h, exec (WalHost.step onDemandConfig) (WalHost.fresh onDemandConfig "n1")
        (createAndUpdate "k" "k") = some h ∧
      (∃ result, (h.compact onDemandConfig 2).2 = .ok result) ∧
      ∀ e, ((WriteAheadLogEntityRegistry.start onDemandConfig "n1"
            (h.compact onDemandConfig 2).1.wal .empty).entities.get e).map EntityRecord.view =
        ((WriteAheadLogEntityRegistry.start onDemandConfig "n1" h.wal .empty).entities.get e).map
          EntityRecord.view := by
  have hes : ∀ ev ∈ createAndUpdate "k" "k", ev.IsOperation := by decide
  refine ⟨_, rfl, (compaction_preserves_iff onDemandConfig "n1" hes rfl 2).mpr
    ⟨by decide, fun e u hu => ?_⟩⟩
  obtain ⟨hmem, he⟩ := mem_filter.mp (mem_of_getLast? hu)
  have hid : u.entityId = "e" := (by decide : ∀ v ∈ _, EntityUpdate.entityId v = "e") u hmem
  obtain rfl : "e" = e := hid.symm.trans (of_decide_eq_true he)
  cases hu
  refine .updated rfl (by decide) rfl fun k hk => ?_
  have hne : k ≠ "k" := by
    rintro rfl
    exact absurd hk (by decide)
  exact get_set_of_ne .empty 1 hne

/-- A compaction can lose metadata: of an entity that was created with one key and updated with
another, the new log has only the second key. -/
theorem not_preserved_of_partial_update :
    ¬ ∀ (config : WalRegistryConfig String ℕ) (nodeId : String) (es : List (WalEvent String ℕ))
      (h : WalHost String ℕ), (∀ ev ∈ es, ev.IsOperation) →
      exec (WalHost.step config) (WalHost.fresh config nodeId) es = some h →
      ∀ now, (∃ result, (h.compact config now).2 = .ok result) →
        ∀ e, ((WriteAheadLogEntityRegistry.start config nodeId (h.compact config now).1.wal
              .empty).entities.get e).map EntityRecord.view =
          ((WriteAheadLogEntityRegistry.start config nodeId h.wal .empty).entities.get e).map
            EntityRecord.view := by
  intro hall
  have hlost := congrArg (bind · fun view => view.metadata "a")
    (hall onDemandConfig "n1" (createAndUpdate "a" "b") _ (by decide) rfl 2 ⟨_, rfl⟩ "e")
  exact absurd hlost (by decide)

end DistributedCore.Entity
