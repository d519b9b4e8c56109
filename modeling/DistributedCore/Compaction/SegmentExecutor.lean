import DistributedCore.Entity.WalCompaction
import DistributedCore.Library.Sorting

/-!
# Compaction of log segments

A log may be spread over several files, its segments. A compaction plan names some of them;
`executeRealCompaction` reads their entries, keeps for every entity the entry with the greatest log
sequence number (LSN) unless that is a `DELETE`, writes what it keeps to one new segment, and
removes the segments that it has read.

Source: `src/persistence/compaction/RealCompactionExecutor.ts`,
`src/persistence/compaction/types.ts`.
-/

namespace DistributedCore.Compaction

open Entity Persistence OrderedMap List WALEntry

/-! ### Segments and plans -/

structure SegmentPath where
  dir : String
  name : String
  deriving DecidableEq

/-- What the coordinator knows of a segment file. -/
structure WALSegment where
  segmentId : String
  filePath : SegmentPath
  startLSN : ℕ
  endLSN : ℕ
  createdAt : ℕ
  sizeBytes : ℕ
  entryCount : ℕ
  tombstoneCount : ℕ
  isImmutable : Bool
  deriving DecidableEq

structure LsnRange where
  start : ℕ
  stop : ℕ
  deriving DecidableEq

structure OutputSegment where
  segmentId : String
  estimatedSize : ℤ
  lsnRange : LsnRange
  deriving DecidableEq

inductive CompactionPriority
  | low
  | medium
  | high
  | urgent
  deriving DecidableEq

/-- The segments that a compaction replaces, and by what. -/
structure CompactionPlan where
  planId : String
  inputSegments : List WALSegment
  outputSegments : List OutputSegment
  estimatedSpaceSaved : ℤ
  estimatedDuration : ℕ
  priority : CompactionPriority
  deriving DecidableEq

structure CompactionCounts where
  entriesProcessed : ℕ
  entriesCompacted : ℕ
  tombstonesRemoved : ℕ
  duplicatesRemoved : ℕ
  deriving DecidableEq

/-- The report of an executed plan. -/
structure CompactionResult where
  planId : String
  actualSpaceSaved : ℕ
  actualDuration : ℤ
  segmentsCreated : List WALSegment
  segmentsDeleted : List String
  metrics : CompactionCounts
  deriving DecidableEq

variable {N V : Type}

abbrev Disk (N V : Type) := OrderedMap SegmentPath (WALFile N V)

/-! ### The executor -/

/-- The greater number wins, and for equal numbers the later time. -/
def supersedes (entry existing : WALEntry N V) : Bool :=
  entry.logSequenceNumber > existing.logSequenceNumber ||
    (entry.logSequenceNumber = existing.logSequenceNumber &&
      entry.data.timestamp > existing.data.timestamp)

def recordLatest (latest : OrderedMap EntityId (WALEntry N V)) (entry : WALEntry N V) :
    OrderedMap EntityId (WALEntry N V) :=
  match latest.get entry.data.entityId with
  | none => latest.set entry.data.entityId entry
  | some existing =>
    if supersedes entry existing then latest.set entry.data.entityId entry else latest

variable (entries : List (WALEntry N V))

def latestByEntity : OrderedMap EntityId (WALEntry N V) := entries.foldl recordLatest .empty

def sortByLSN : List (WALEntry N V) :=
  entries.insertionSort fun a b => a.logSequenceNumber ≤ b.logSequenceNumber

/-- The entries that a compaction writes: the latest ones, without tombstones. -/
def keptEntries : List (WALEntry N V) :=
  sortByLSN ((latestByEntity entries).values.filter fun entry => entry.data.operation ≠ .delete)

def readInputs (disk : Disk N V) : List WALSegment → Option (List (WALFile N V))
  | [] => some []
  | seg :: segs =>
    match disk.get seg.filePath, readInputs disk segs with
    | some file, some files => some (file :: files)
    | _, _ => none

def allEntries (files : List (WALFile N V)) : List (WALEntry N V) :=
  files.flatMap fun file => file.readEntries none none

def CompactionPlan.outputSegmentId (plan : CompactionPlan) (now : ℕ) : String :=
  (plan.outputSegments.head?.map OutputSegment.segmentId).getD s!"compacted-{now}"

def CompactionPlan.outputPath (plan : CompactionPlan) (first : WALSegment) (now : ℕ) :
    SegmentPath :=
  ⟨first.filePath.dir, plan.outputSegmentId now ++ ".wal"⟩

def unlinkAll (disk : Disk N V) (segs : List WALSegment) : Disk N V :=
  segs.foldl (fun disk seg => disk.delete seg.filePath) disk

/-- The compaction of the input segments of a plan. It fails if one of them is missing, if there is
none, and, after it has removed the input segments, if the output segment was among them. -/
def executeRealCompaction (config : WALConfig N V) (disk : Disk N V) (plan : CompactionPlan)
    (startTime now : ℕ) : Disk N V × Option CompactionResult :=
  match readInputs disk plan.inputSegments, plan.inputSegments with
  | some files, first :: rest =>
    let totalSizeBefore := (files.map fun file => file.getSize config).sum
    let entries := allEntries files
    let kept := keptEntries entries
    let tombstonedEntities := ((latestByEntity entries).values.filter fun entry =>
      entry.data.operation = .delete).length
    let totalTombstones := (entries.filter fun entry => entry.data.operation = .delete).length
    let entriesRemoved := entries.length - kept.length
    let outputPath := plan.outputPath first now
    let written := disk.set outputPath ((disk.get outputPath).getD [] ++ kept)
    let disk := unlinkAll written plan.inputSegments
    match disk.get outputPath with
    | none => (disk, none)
    | some output =>
      (disk, some {
        planId := plan.planId
        actualSpaceSaved := totalSizeBefore - output.getSize config
        actualDuration := (now : ℤ) - startTime
        segmentsCreated := [{
          segmentId := plan.outputSegmentId now
          filePath := outputPath
          startLSN := first.startLSN
          endLSN := (rest.getLastD first).endLSN
          createdAt := now
          sizeBytes := output.getSize config
          entryCount := kept.length
          tombstoneCount := 0
          isImmutable := true }]
        segmentsDeleted := plan.inputSegments.map WALSegment.segmentId
        metrics := {
          entriesProcessed := entries.length
          entriesCompacted := kept.length
          tombstonesRemoved := totalTombstones
          duplicatesRemoved := entriesRemoved - tombstonedEntities } })
  | _, _ => (disk, none)

theorem get_unlinkAll (path : SegmentPath) : (segs : List WALSegment) → (disk : Disk N V) →
    (unlinkAll disk segs).get path =
      if path ∈ segs.map WALSegment.filePath then none else disk.get path
  | [], _ => by simp [unlinkAll]
  | seg :: segs, disk => by
    have ih := get_unlinkAll path segs (disk.delete seg.filePath)
    rw [unlinkAll, foldl_cons, ← unlinkAll, ih, get_delete]
    by_cases hpath : path = seg.filePath
    · simp [hpath]
    · simp [hpath]

/-- **The files after a compaction.** The input segments are gone, the entries that were kept are at
the end of the output segment, and every other file is as it was. -/
theorem executeRealCompaction_spec (config : WALConfig N V) {disk : Disk N V}
    {plan : CompactionPlan} {first : WALSegment} {rest : List WALSegment}
    {files : List (WALFile N V)} (hplan : plan.inputSegments = first :: rest)
    (hread : readInputs disk plan.inputSegments = some files) (startTime now : ℕ)
    (path : SegmentPath) :
    (executeRealCompaction config disk plan startTime now).1.get path =
      if path ∈ plan.inputSegments.map WALSegment.filePath then none
      else if path = plan.outputPath first now then
        some ((disk.get path).getD [] ++ keptEntries (allEntries files))
      else disk.get path := by
  have hdisk : (executeRealCompaction config disk plan startTime now).1 =
      unlinkAll (disk.set (plan.outputPath first now)
        ((disk.get (plan.outputPath first now)).getD [] ++ keptEntries (allEntries files)))
        plan.inputSegments := by
    rw [hplan] at hread
    simp only [executeRealCompaction, hplan, hread]
    split <;> rfl
  rw [hdisk, get_unlinkAll, get_set]
  by_cases hpath : path = plan.outputPath first now
  · rw [if_pos hpath, if_pos hpath, hpath]
  · rw [if_neg hpath, if_neg hpath]

/-! ### The latest entry of every entity -/

section Latest

variable {entries : List (WALEntry N V)} {id : EntityId}

/-- The entry is the last one about the entity. -/
structure IsLatest (entries : List (WALEntry N V)) (id : EntityId) (entry : WALEntry N V) :
    Prop where
  mem : entry ∈ entries
  about : entry.data.entityId = id
  latest : ∀ other ∈ entries, other.data.entityId = id →
    other.logSequenceNumber ≤ entry.logSequenceNumber

private theorem get_recordLatest_of_ne (latest : OrderedMap EntityId (WALEntry N V))
    {entry : WALEntry N V} (h : entry.data.entityId ≠ id) :
    (recordLatest latest entry).get id = latest.get id := by
  rw [recordLatest]
  split
  · exact get_set_of_ne _ _ h.symm
  · split_ifs
    · exact get_set_of_ne _ _ h.symm
    · rfl

/-- Under its own entity, an entry is recorded or the one before it stays, and what is there then
has the greater LSN. -/
private theorem get_recordLatest_self (latest : OrderedMap EntityId (WALEntry N V))
    (entry : WALEntry N V) :
    ∃ chosen, (recordLatest latest entry).get entry.data.entityId = some chosen ∧
      (chosen = entry ∨ latest.get entry.data.entityId = some chosen) ∧
      entry.logSequenceNumber ≤ chosen.logSequenceNumber ∧
      ∀ existing, latest.get entry.data.entityId = some existing →
        existing.logSequenceNumber ≤ chosen.logSequenceNumber := by
  rw [recordLatest]
  cases hget : latest.get entry.data.entityId with
  | none => exact ⟨entry, get_set_self _ _ _, .inl rfl, le_rfl, fun _ h => nomatch h⟩
  | some existing =>
    simp only [Option.some.injEq, forall_eq']
    by_cases hsup : supersedes entry existing = true
    · have hle : existing.logSequenceNumber ≤ entry.logSequenceNumber := by
        simp only [supersedes, Bool.or_eq_true, Bool.and_eq_true, decide_eq_true_eq] at hsup
        omega
      exact ⟨entry, by rw [if_pos hsup]; exact get_set_self _ _ _, .inl rfl, le_rfl, hle⟩
    · have hle : entry.logSequenceNumber ≤ existing.logSequenceNumber := by
        simp only [supersedes, Bool.or_eq_true, decide_eq_true_eq, not_or] at hsup
        omega
      exact ⟨existing, by rw [if_neg hsup]; exact hget, .inr rfl, hle, le_rfl⟩

private theorem IsLatest.concat {entry new : WALEntry N V} (h : IsLatest entries id entry)
    (hnew : new.data.entityId = id → new.logSequenceNumber ≤ entry.logSequenceNumber) :
    IsLatest (entries ++ [new]) id entry := by
  refine ⟨mem_append_left _ h.mem, h.about, fun other hother hid => ?_⟩
  rcases mem_append.mp hother with hother | hother
  · exact h.latest other hother hid
  · obtain rfl := mem_singleton.mp hother
    exact hnew hid

private theorem isLatest_new {new : WALEntry N V}
    (h : ∀ other ∈ entries, other.data.entityId = new.data.entityId →
      other.logSequenceNumber ≤ new.logSequenceNumber) :
    IsLatest (entries ++ [new]) new.data.entityId new := by
  refine ⟨mem_append_right _ mem_cons_self, rfl, fun other hother hid => ?_⟩
  rcases mem_append.mp hother with hother | hother
  · exact h other hother hid
  · obtain rfl := mem_singleton.mp hother
    exact le_rfl

/-- **The entry that is recorded for an entity** is one about it with the greatest LSN; there is
none only if no entry is about the entity. -/
theorem latestByEntity_spec (id : EntityId) (entries : List (WALEntry N V)) :
    (∃ entry, (latestByEntity entries).get id = some entry ∧ IsLatest entries id entry) ∨
      (latestByEntity entries).get id = none ∧ ∀ entry ∈ entries, entry.data.entityId ≠ id := by
  induction entries using List.reverseRecOn with
  | nil => exact .inr ⟨rfl, fun _ h => nomatch h⟩
  | append_singleton entries entry ih =>
    rw [latestByEntity, foldl_append, ← latestByEntity, foldl_cons, foldl_nil]
    by_cases hid : entry.data.entityId = id
    · subst hid
      obtain ⟨chosen, hget, hchosen, hnew, hold⟩ :=
        get_recordLatest_self (latestByEntity entries) entry
      refine .inl ⟨chosen, hget, ?_⟩
      rcases ih with ⟨existing, hexisting, hlatest⟩ | ⟨hnone, hno⟩
      · rcases hchosen with rfl | hchosen
        · exact isLatest_new fun other hother hother' =>
            (hlatest.latest other hother hother').trans (hold existing hexisting)
        · cases hexisting.symm.trans hchosen
          exact hlatest.concat fun _ => hnew
      · rcases hchosen with rfl | hchosen
        · exact isLatest_new fun other hother hother' => absurd hother' (hno other hother)
        · exact absurd (hnone.symm.trans hchosen) (by simp)
    · rw [get_recordLatest_of_ne _ hid]
      rcases ih with ⟨existing, hexisting, hlatest⟩ | ⟨hnone, hno⟩
      · exact .inl ⟨existing, hexisting, hlatest.concat fun h => absurd h hid⟩
      · refine .inr ⟨hnone, fun other hother => ?_⟩
        rcases mem_append.mp hother with hother | hother
        · exact hno other hother
        · exact mem_singleton.mp hother ▸ hid

variable {entry : WALEntry N V}

theorem latestByEntity_about
    (h : (latestByEntity entries).get id = some entry) : IsLatest entries id entry := by
  rcases latestByEntity_spec id entries with ⟨entry', hget, hlatest⟩ | ⟨hnone, -⟩
  · exact Option.some.inj (h.symm.trans hget) ▸ hlatest
  · exact absurd (h.symm.trans hnone) (by simp)

end Latest

/-! ### Histories -/

/-- The entities after a replay of the entries in the order of their numbers. -/
def replayEntries : Entities N V := Entities.replay .empty ((sortByLSN entries).map WALEntry.data)

/-- The updates of one entity in the order of their numbers. -/
def historyOf (id : EntityId) : List (EntityUpdate N V) :=
  (sortByLSN (entries.filter fun entry => entry.data.entityId = id)).map WALEntry.data

/-- The last creation or deletion is a deletion. -/
def LeavesAbsent (us : List (EntityUpdate N V)) : Prop :=
  (us.filter fun u => u.operation = .create ∨ u.operation = .delete).getLast?.all
    fun u => u.operation = .delete

instance (us : List (EntityUpdate N V)) : Decidable (LeavesAbsent us) :=
  inferInstanceAs (Decidable (_ = true))

section Histories

instance : Std.Total fun a b : WALEntry N V => a.logSequenceNumber ≤ b.logSequenceNumber :=
  ⟨fun _ _ => le_total _ _⟩

instance : IsTrans (WALEntry N V) fun a b => a.logSequenceNumber ≤ b.logSequenceNumber :=
  ⟨fun _ _ _ => le_trans⟩

variable {entries : List (WALEntry N V)} {id : EntityId} (us : List (EntityUpdate N V))
  (u : EntityUpdate N V)

theorem mem_sortByLSN : entry ∈ sortByLSN entries ↔ entry ∈ entries := mem_insertionSort _

theorem pairwise_sortByLSN (entries : List (WALEntry N V)) :
    (sortByLSN entries).Pairwise fun a b => a.logSequenceNumber ≤ b.logSequenceNumber :=
  pairwise_insertionSort _ entries

theorem mem_historyOf {u : EntityUpdate N V}
    (h : u ∈ historyOf entries id) : ∃ entry ∈ entries, entry.data.entityId = id := by
  obtain ⟨entry, hentry, -⟩ := mem_map.mp h
  obtain ⟨hmem, hid⟩ := mem_filter.mp (mem_sortByLSN.mp hentry)
  exact ⟨entry, hmem, of_decide_eq_true hid⟩

theorem updatesAbout_sortByLSN (entries : List (WALEntry N V)) (id : EntityId) :
    updatesAbout (sortByLSN entries) id = historyOf entries id := by
  rw [updatesAbout, filter_map, historyOf, sortByLSN, sortByLSN, ← filter_insertionSort]
  rfl

theorem get_replayEntries (entries : List (WALEntry N V)) (id : EntityId) :
    (replayEntries entries).get id = recordAfter (historyOf entries id) := by
  rw [replayEntries, get_replay_updatesAbout, updatesAbout_sortByLSN]

theorem historyOf_append_of_eq_nil {entries' : List (WALEntry N V)}
    (h : historyOf entries' id = []) :
    historyOf (entries ++ entries') id = historyOf entries id := by
  have hnone : entries'.filter (fun entry => entry.data.entityId = id) = [] := by
    refine filter_eq_nil_iff.mpr fun entry hentry hid => ?_
    have hmem : entry.data ∈ historyOf entries' id :=
      mem_map_of_mem (mem_sortByLSN.mpr (mem_filter.mpr ⟨hentry, hid⟩))
    rw [h] at hmem
    exact nomatch hmem
  rw [historyOf, filter_append, hnone, append_nil, historyOf]

/-- An update leaves its entity absent if it is a `DELETE`, or if it finds the entity absent and is
not a `CREATE`. -/
theorem apply_eq_none_iff (existing : Option (EntityRecord N V)) : (u.apply existing).1 = none ↔
      u.operation = .delete ∨ u.operation ≠ .create ∧ existing = none := by
  have happlied := u.applied_apply existing
  generalize (u.apply existing).1 = after, (u.apply existing).2 = events at happlied ⊢
  cases happlied with
  | created op => simp [op]
  | updated op => simp [op]
  | transferred op => simp [op]
  | deleted op => simp [op]
  | present op => simp [op]
  | absent op => simp [op]

theorem leavesAbsent_concat :
    LeavesAbsent (us ++ [u]) ↔ u.operation = .delete ∨ u.operation ≠ .create ∧ LeavesAbsent us := by
  rw [LeavesAbsent, LeavesAbsent, filter_append]
  cases hop : u.operation <;> simp [hop]

/-- An entity is absent after its history exactly if the last `CREATE` or `DELETE` in it, if there
is one, is a `DELETE`. -/
theorem recordAfter_eq_none_iff : recordAfter us = none ↔ LeavesAbsent us := by
  induction us using List.reverseRecOn with
  | nil => exact iff_of_true rfl rfl
  | append_singleton _ _ ih => rw [recordAfter_concat, apply_eq_none_iff, leavesAbsent_concat, ih]

theorem getLast?_historyOf (h : IsLatest entries id entry)
    (hunique : ∀ other ∈ entries, other.data.entityId = id →
      other.logSequenceNumber = entry.logSequenceNumber → other = entry) :
    (historyOf entries id).getLast? = some entry.data := by
  have hentry : entry ∈ sortByLSN (entries.filter fun entry => entry.data.entityId = id) :=
    mem_sortByLSN.mpr (mem_filter.mpr ⟨h.mem, by simp [h.about]⟩)
  rw [historyOf, getLast?_map]
  cases hlast : (sortByLSN (entries.filter fun entry => entry.data.entityId = id)).getLast? with
  | none =>
    rw [getLast?_eq_none_iff.mp hlast] at hentry
    cases hentry
  | some last =>
    obtain ⟨hmem, hid⟩ := mem_filter.mp (mem_sortByLSN.mp (mem_of_getLast? hlast))
    have hid : last.data.entityId = id := of_decide_eq_true hid
    have hle : entry.logSequenceNumber ≤ last.logSequenceNumber := by
      have hsorted := pairwise_sortByLSN (entries.filter fun entry => entry.data.entityId = id)
      rw [← dropLast_append_getLast? last hlast] at hentry hsorted
      rcases mem_append.mp hentry with hentry | hentry
      · exact (pairwise_append.mp hsorted).2.2 entry hentry last mem_cons_self
      · exact (congrArg _ (mem_singleton.mp hentry)).le
    have hlast := hunique last hmem hid (le_antisymm (h.latest last hmem hid) hle)
    rw [hlast, Option.map_some]

end Histories

/-! ### Compaction of a whole log -/

section WholeLog

variable {entries : List (WALEntry N V)} {id : EntityId}

/-- The history of an entity in what a compaction keeps is the update of its latest entry, unless
that is a `DELETE`. -/
theorem historyOf_keptEntries (entries : List (WALEntry N V)) (id : EntityId) :
    historyOf (keptEntries entries) id = (((latestByEntity entries).get id).filter fun entry =>
        entry.data.operation ≠ .delete).toList.map data := by
  have hvalues := (latestByEntity entries).filter_values (fun entry => entry.data.entityId) id
    fun _ _ hget => (latestByEntity_about hget).about
  have hkept : ((latestByEntity entries).values.filter fun entry =>
      entry.data.operation ≠ .delete).filter (fun entry => entry.data.entityId = id) =
        (((latestByEntity entries).get id).filter fun entry =>
          entry.data.operation ≠ .delete).toList := by
    rw [filter_comm, hvalues]
    cases (latestByEntity entries).get id with
    | none => rfl
    | some entry => by_cases hdel : entry.data.operation = .delete <;> simp [Option.filter, hdel]
  rw [historyOf, keptEntries, sortByLSN, sortByLSN, filter_insertionSort, hkept]
  cases ((latestByEntity entries).get id).filter fun entry => entry.data.operation ≠ .delete <;> rfl

theorem keptEntries_subset (entries : List (WALEntry N V)) : keptEntries entries ⊆ entries := by
  intro entry hentry
  obtain ⟨⟨id, entry⟩, hpair, rfl⟩ := mem_map.mp (mem_of_mem_filter (mem_sortByLSN.mp hentry))
  exact (latestByEntity_about ((mem_entries_iff _ id entry).mp hpair)).mem

/-- The last update about an entity says on its own what it says after the others: it is a
`DELETE`, or it finds the entity absent, or it is a `CREATE` of what is already there. -/
def LastSuffices (us : List (EntityUpdate N V)) : Prop :=
  ∀ u, us.getLast? = some u → u.operation = .delete ∨ LeavesAbsent us.dropLast ∨
      u.operation = .create ∧
        (recordAfter us.dropLast).map EntityRecord.view = some u.newRecord.view

/-- An update that is not a `DELETE` leaves the same on its own as after others exactly if it finds
the entity absent, or if it is a `CREATE` of what is already there. -/
private theorem view_apply_none_eq_iff {u : EntityUpdate N V} (hdel : u.operation ≠ .delete)
    (existing : Option (EntityRecord N V)) :
    (u.apply none).1.map EntityRecord.view = (u.apply existing).1.map EntityRecord.view ↔
      existing = none ∨
        u.operation = .create ∧ existing.map EntityRecord.view = some u.newRecord.view := by
  cases existing with
  | none => exact iff_of_true rfl (.inl rfl)
  | some r =>
    cases hop : u.operation with
    | create => simp [EntityUpdate.apply, hop, eq_comm]
    | delete => exact absurd hop hdel
    | update | transfer =>
      have hsome : (u.apply (some r)).1 ≠ none := by simp [apply_eq_none_iff, hop]
      have hnone : (u.apply none).1 = none := by simp [apply_eq_none_iff, hop]
      rw [hnone]
      simpa [eq_comm] using hsome

theorem view_keptEntries_eq_iff (hlsn : (entries.map logSequenceNumber).Nodup) (id : EntityId) :
    ((replayEntries (keptEntries entries)).get id).map EntityRecord.view =
        ((replayEntries entries).get id).map EntityRecord.view ↔
      LastSuffices (historyOf entries id) := by
  rw [get_replayEntries, get_replayEntries, historyOf_keptEntries, LastSuffices]
  rcases latestByEntity_spec id entries with ⟨entry, hget, hlatest⟩ | ⟨hget, hno⟩
  · have hlast : (historyOf entries id).getLast? = some entry.data :=
      getLast?_historyOf hlatest fun other hother _ heq =>
        inj_on_of_nodup_map hlsn hother hlatest.mem heq
    have hrecord : recordAfter (historyOf entries id) =
        (entry.data.apply (recordAfter (historyOf entries id).dropLast)).1 := by
      rw [← recordAfter_concat, dropLast_append_getLast? _ hlast]
    rw [hget, hrecord, hlast]
    simp only [Option.some.injEq, forall_eq', ← recordAfter_eq_none_iff]
    by_cases hdel : entry.data.operation = .delete
    · rw [entry.data.apply_delete hdel]
      simp [Option.filter, hdel, recordAfter]
    · have hkept : (some entry).filter (fun entry => entry.data.operation ≠ .delete) =
          some entry := by simp [hdel]
      rw [hkept]
      exact (view_apply_none_eq_iff hdel _).trans (or_iff_right hdel).symm
  · have hempty : historyOf entries id = [] := by
      have hnil : entries.filter (fun entry => entry.data.entityId = id) = [] :=
        filter_eq_nil_iff.mpr fun entry hentry => by simpa using hno entry hentry
      rw [historyOf, hnil]
      rfl
    rw [hget, hempty]
    exact iff_of_true rfl fun _ h => absurd h (Option.not_mem_none _)

/-- **When the compaction of a whole log preserves its meaning.** If the LSNs of the entries of some
segments are distinct, a replay of the output segment gives the same owner, version and metadata for
every entity as a replay of the segments, exactly if the last update about every entity suffices. -/
theorem replay_keptEntries_iff (segments : List (WALFile N V))
    (hlsn : ((allEntries segments).map logSequenceNumber).Nodup) :
    (∀ id, ((replayEntries (keptEntries (allEntries segments))).get id).map EntityRecord.view =
        ((replayEntries (allEntries segments)).get id).map EntityRecord.view) ↔
      ∀ id, LastSuffices (historyOf (allEntries segments) id) :=
  forall_congr' (view_keptEntries_eq_iff hlsn)

end WholeLog

def sampleEntry (lsn : ℕ) (id : EntityId) (operation : Operation) (version : ℤ) :
    WALEntry String ℕ where
  logSequenceNumber := lsn
  timestamp := lsn
  data := ⟨id, some "n1", version, lsn, operation, none, none⟩
  checksum := ""

def settledSegments : List (WALFile String ℕ) :=
  [[sampleEntry 1 "a" .create 1, sampleEntry 2 "b" .create 1],
    [sampleEntry 3 "a" .update 2, sampleEntry 4 "a" .delete 2]]

/-- The entries of `settledSegments` have different LSNs; their compaction keeps every record. -/
theorem replay_keptEntries_settledSegments :
    ((allEntries settledSegments).map logSequenceNumber).Nodup ∧
      ∀ id, ((replayEntries (keptEntries (allEntries settledSegments))).get id).map
          EntityRecord.view =
        ((replayEntries (allEntries settledSegments)).get id).map EntityRecord.view := by
  refine ⟨by decide, (replay_keptEntries_iff settledSegments (by decide)).mpr fun id u hu => ?_⟩
  obtain ⟨entry, hentry, hid⟩ := mem_historyOf (mem_of_getLast? hu)
  have hids : ∀ entry ∈ allEntries settledSegments,
      entry.data.entityId = "a" ∨ entry.data.entityId = "b" := by decide
  rcases hids entry hentry with h | h
  all_goals
    obtain rfl := h.symm.trans hid
    cases hu
  · exact .inl rfl
  · exact .inr (.inl rfl)

def updatedSegments : List (WALFile String ℕ) :=
  [[sampleEntry 1 "a" .create 1], [sampleEntry 2 "a" .update 2]]

/-- The compaction of a whole log loses an entity whose last entry is an `UPDATE`. -/
theorem updated_entity_lost : ¬ ∀ segments : List (WALFile String ℕ),
      ((allEntries segments).map logSequenceNumber).Nodup →
        ∀ id, ((replayEntries (keptEntries (allEntries segments))).get id).map EntityRecord.view =
          ((replayEntries (allEntries segments)).get id).map EntityRecord.view := by
  intro h
  have hlost := congrArg Option.isSome (h updatedSegments (by decide) "a")
  exact absurd hlost (by decide)

end DistributedCore.Compaction
