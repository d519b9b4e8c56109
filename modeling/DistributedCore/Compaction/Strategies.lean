import DistributedCore.Compaction.SegmentExecutor
import Mathlib.Algebra.Order.Ring.Rat

/-!
# The choice of the segments to compact

A compaction strategy looks at the sizes, the numbers of entries and tombstones and the LSN ranges
of the segments, and chooses some of them for a plan. The size-tiered strategy takes the segments of
the tier with the most segments, the leveled one segments of a level whose LSN ranges overlap, and
the vacuum one up to four segments with many tombstones. None of them looks at the entries, so the
`DELETE` of an entity may be in a segment of the plan while the `CREATE` before it is in one that
the plan leaves alone. The executor drops the `DELETE`, and the `CREATE` takes effect again.

Source: `src/persistence/compaction/SizeTieredCompactionStrategy.ts`,
`src/persistence/compaction/LeveledCompactionStrategy.ts`,
`src/persistence/compaction/VacuumBasedCompactionStrategy.ts`,
`src/persistence/compaction/types.ts`.
-/

namespace DistributedCore.Compaction

open Persistence List Option OrderedMap WALFile

/-! ### What the strategies share -/

def total (f : WALSegment → ℕ) (segments : List WALSegment) : ℕ := (segments.map f).sum

def validatePlan (plan : CompactionPlan) (segments : List WALSegment) : Bool :=
  plan.inputSegments.all (fun seg => (segments.map WALSegment.segmentId).contains seg.segmentId) &&
    plan.inputSegments.all WALSegment.isImmutable &&
    plan.outputSegments.all fun output => output.lsnRange.start < output.lsnRange.stop

/-- The plan for some segments that writes one segment, and takes `minDuration` or the time that
its size needs at a rate. -/
def planFor (planId segmentId : String) (inputSegments : List WALSegment)
    (estimatedOutputSize : ℤ) (minDuration rate : ℕ) (priority : CompactionPriority) :
    CompactionPlan where
  planId := planId
  inputSegments := inputSegments
  outputSegments := [{
    segmentId := segmentId
    estimatedSize := estimatedOutputSize
    lsnRange := {
      start := (inputSegments.map WALSegment.startLSN).min?.getD 0
      stop := (inputSegments.map WALSegment.endLSN).max?.getD 0 } }]
  estimatedSpaceSaved := total WALSegment.sizeBytes inputSegments - estimatedOutputSize
  estimatedDuration := max minDuration (total WALSegment.sizeBytes inputSegments / rate)
  priority := priority

def estimatedOutputSize (inputSegments : List WALSegment) : ℤ :=
  let totalSize : ℤ := total WALSegment.sizeBytes inputSegments
  let totalEntries : ℤ := total WALSegment.entryCount inputSegments
  let totalTombstones : ℤ := total WALSegment.tombstoneCount inputSegments
  if totalEntries > 0 then totalSize * (totalEntries - totalTombstones) / totalEntries
  else totalSize

def groupBy (key : WALSegment → ℕ) (segments : List WALSegment) : OrderedMap ℕ (List WALSegment) :=
  segments.foldl (fun groups segment =>
    groups.set (key segment) ((groups.get (key segment)).getD [] ++ [segment])) .empty

def sampleSegment (name : String) (startLSN endLSN entryCount tombstoneCount : ℕ) : WALSegment where
  segmentId := name
  filePath := ⟨"/wal", name ++ ".wal"⟩
  startLSN := startLSN
  endLSN := endLSN
  createdAt := 0
  sizeBytes := 100
  entryCount := entryCount
  tombstoneCount := tombstoneCount
  isImmutable := true

/-! ### The size-tiered strategy -/

/-- Segments of similar size are merged. -/
structure SizeTieredCompactionStrategy where
  sizeTiers : List ℕ := [1024 * 1024, 10 * 1024 * 1024, 100 * 1024 * 1024]
  maxSegmentsPerTier : ℕ := 4

namespace SizeTieredCompactionStrategy

variable (strategy : SizeTieredCompactionStrategy)

def getSizeTier (segmentSize : ℕ) : ℕ := strategy.sizeTiers.findIdx fun bound => segmentSize ≤ bound

def groupSegmentsByTier (segments : List WALSegment) : OrderedMap ℕ (List WALSegment) :=
  groupBy (fun segment => strategy.getSizeTier segment.sizeBytes) segments

def considerTier (candidate : Option ℕ × ℕ) (group : ℕ × List WALSegment) : Option ℕ × ℕ :=
  let (candidateTier, maxCount) := candidate
  let (tier, tierSegments) := group
  if tierSegments.length ≥ strategy.maxSegmentsPerTier then
    if tierSegments.length > maxCount ∨
        tierSegments.length = maxCount ∧ candidateTier.any (fun candidate => tier < candidate) then
      (some tier, tierSegments.length)
    else candidate
  else candidate

def planCompaction (segments : List WALSegment) (now : ℕ) (random : String) :
    Option CompactionPlan :=
  let immutableSegments := segments.filter WALSegment.isImmutable
  if immutableSegments.length = 0 then none
  else
    let tierGroups := strategy.groupSegmentsByTier immutableSegments
    match (tierGroups.entries.foldl strategy.considerTier (none, 0)).1 with
    | none => none
    | some candidateTier =>
      let inputSegments := (tierGroups.get candidateTier).getD []
      let plan := planFor s!"size-tiered-T{candidateTier}-{now}-{random}"
        s!"size-tiered-T{candidateTier + 1}-{now}" inputSegments (estimatedOutputSize inputSegments)
        50 (15 * 1024 * 1024) .medium
      if validatePlan plan segments then some plan else none

end SizeTieredCompactionStrategy

/-! ### The leveled strategy -/

/-- Segments that overlap are merged within a level. -/
structure LeveledCompactionStrategy where
  maxLevels : ℕ := 7
  levelSizeMultiplier : ℕ := 10
  level0SegmentLimit : ℕ := 4
  baseLevelSize : ℕ := 10 * 1024 * 1024

namespace LeveledCompactionStrategy

variable (strategy : LeveledCompactionStrategy)

def climb (sizeBytes : ℕ) : ℕ → ℕ → ℕ → ℕ
  | 0, level, _ => level
  | left + 1, level, levelSize =>
    if sizeBytes > levelSize then
      climb sizeBytes left (level + 1) (levelSize * strategy.levelSizeMultiplier)
    else level

def assignSegmentToLevel (segment : WALSegment) : ℕ :=
  strategy.climb segment.sizeBytes (strategy.maxLevels - 1) 0 strategy.baseLevelSize

variable (segments : List WALSegment)

def organizeSegmentsByLevel : OrderedMap ℕ (List WALSegment) :=
  groupBy strategy.assignSegmentToLevel segments

/-- The scan over the segments, sorted by their first number. -/
structure OverlapScan where
  groups : List (List WALSegment) := []
  currentGroup : List WALSegment := []
  groupMaxEndLSN : ℤ := -1

def OverlapScan.closed (scan : OverlapScan) : List (List WALSegment) :=
  if scan.currentGroup.length > 1 then scan.groups ++ [scan.currentGroup] else scan.groups

/-- One round of the loop: a segment that overlaps the current group joins it, and another one
starts a new group. -/
def OverlapScan.next (scan : OverlapScan) (segment : WALSegment) : OverlapScan :=
  if scan.currentGroup.length = 0 then
    { scan with
      currentGroup := scan.currentGroup ++ [segment]
      groupMaxEndLSN := segment.endLSN }
  else if (segment.startLSN : ℤ) ≤ scan.groupMaxEndLSN then
    { scan with
      currentGroup := scan.currentGroup ++ [segment]
      groupMaxEndLSN := max scan.groupMaxEndLSN segment.endLSN }
  else
    { groups := scan.closed
      currentGroup := [segment]
      groupMaxEndLSN := segment.endLSN }

def findOverlappingSegments : List (List WALSegment) :=
  ((segments.insertionSort fun a b => a.startLSN ≤ b.startLSN).foldl OverlapScan.next {}).closed

def largestGroup (others : List WALSegment) : List (List WALSegment) → List WALSegment
  | [] => others
  | group :: groups =>
    groups.foldl (fun best group => if group.length > best.length then group else best) group

def planLevel (levelGroups : OrderedMap ℕ (List WALSegment))
    (now : ℕ) (random : String) (level : ℕ) : Option (Option CompactionPlan) :=
  let levelSegments := (levelGroups.get level).getD []
  if levelSegments.length < 2 then none
  else
    let isLevel0Overloaded := level = 0 ∧ levelSegments.length ≥ strategy.level0SegmentLimit
    let overlappingGroups := findOverlappingSegments levelSegments
    if ¬ isLevel0Overloaded ∧ overlappingGroups.length = 0 then none
    else
      let inputSegments := largestGroup levelSegments overlappingGroups
      if inputSegments.length < 2 then none
      else
        let plan := planFor s!"leveled-L{level}-{now}-{random}"
          s!"leveled-compacted-L{level + 1}-{now}" inputSegments (estimatedOutputSize inputSegments)
          100 (10 * 1024 * 1024) (if isLevel0Overloaded then .high else .medium)
        some (if validatePlan plan segments then some plan else none)

def planCompaction (now : ℕ) (random : String) : Option CompactionPlan :=
  let immutableSegments := segments.filter WALSegment.isImmutable
  if immutableSegments.length < 2 then none
  else
    let levelGroups := strategy.organizeSegmentsByLevel immutableSegments
    ((List.range strategy.maxLevels).findSome?
      (strategy.planLevel segments levelGroups now random)).join

end LeveledCompactionStrategy

/-! ### The vacuum strategy -/

theorem defaultDeadTupleThreshold_ne : (1 / 5 : ℚ) ≠ 0 := by decide +kernel

theorem defaultFragmentationThreshold_ne : (3 / 10 : ℚ) ≠ 0 := by decide +kernel

/-- The constructor replaces a threshold that is zero by the default one. -/
structure VacuumBasedCompactionStrategy where
  deadTupleThreshold : ℚ := 1 / 5
  fragmentationThreshold : ℚ := 3 / 10
  deadTupleThreshold_ne : deadTupleThreshold ≠ 0 := by exact defaultDeadTupleThreshold_ne
  fragmentationThreshold_ne : fragmentationThreshold ≠ 0 := by
    exact defaultFragmentationThreshold_ne

namespace VacuumBasedCompactionStrategy

variable (strategy : VacuumBasedCompactionStrategy)

/-- Each tombstone counts for two dead entries. -/
def calculateDeadTupleRatio (segment : WALSegment) : ℚ :=
  if segment.entryCount = 0 then 0
  else
    let deadTuples := min (segment.tombstoneCount * 2) segment.entryCount
    deadTuples / segment.entryCount

/-- The share of the entries that are not live, with two dead ones for each tombstone. -/
def calculateFragmentationRatio (segment : WALSegment) : ℚ :=
  if segment.entryCount = 0 then 0
  else
    let liveEntries := segment.entryCount - segment.tombstoneCount * 2
    let wastedEntries := segment.entryCount - liveEntries
    wastedEntries / segment.entryCount

def candidates (immutableSegments : List WALSegment) : List WALSegment :=
  (immutableSegments.filter fun segment =>
    calculateDeadTupleRatio segment ≥ strategy.deadTupleThreshold ∨
      calculateFragmentationRatio segment ≥ strategy.fragmentationThreshold).insertionSort
      fun a b => calculateDeadTupleRatio b + calculateFragmentationRatio b ≤
          calculateDeadTupleRatio a + calculateFragmentationRatio a

def planCompaction (segments : List WALSegment) (now : ℕ) (random : String) :
    Option CompactionPlan :=
  let immutableSegments := segments.filter WALSegment.isImmutable
  let candidates := strategy.candidates immutableSegments
  if immutableSegments.length = 0 ∨ candidates.length = 0 then none
  else
    let inputSegments := candidates.take 4
    let totalSize := total WALSegment.sizeBytes inputSegments
    let totalEntries := total WALSegment.entryCount inputSegments
    let retainedEntries := totalEntries - total WALSegment.tombstoneCount inputSegments
    let estimatedOutputSize : ℕ :=
      if totalEntries > 0 then totalSize * retainedEntries / totalEntries else totalSize
    let plan := planFor s!"vacuum-{now}-{random}" s!"vacuumed-{now}" inputSegments
      estimatedOutputSize 50 (20 * 1024 * 1024)
      (if immutableSegments.any (fun segment => 1 / 2 < calculateDeadTupleRatio segment) then .high
        else .medium)
    if validatePlan plan segments then some plan else none

end VacuumBasedCompactionStrategy

/-- The strategies that a coordinator can be given. -/
inductive CompactionStrategy
  | sizeTiered (strategy : SizeTieredCompactionStrategy)
  | leveled (strategy : LeveledCompactionStrategy)
  | vacuum (strategy : VacuumBasedCompactionStrategy)

def CompactionStrategy.planCompaction (segments : List WALSegment) (now : ℕ) (random : String) :
    CompactionStrategy → Option CompactionPlan
  | .sizeTiered strategy => strategy.planCompaction segments now random
  | .leveled strategy => strategy.planCompaction segments now random
  | .vacuum strategy => strategy.planCompaction segments now random

/-! ### The groups of overlapping segments -/

/-- The LSN ranges of the segments have an LSN in common. -/
def WALSegment.Overlaps (a b : WALSegment) : Prop := a.startLSN ≤ b.endLSN ∧ b.startLSN ≤ a.endLSN

instance (a b : WALSegment) : Decidable (a.Overlaps b) := inferInstanceAs (Decidable (_ ∧ _))

/-- Every segment has a range that is not empty. -/
def RangesValid (segments : List WALSegment) : Prop := ∀ s ∈ segments, s.startLSN ≤ s.endLSN

namespace LeveledCompactionStrategy

variable {segments : List WALSegment}

/-- The segments are joined by a chain of overlapping ones. -/
def Linked (segments : List WALSegment) : WALSegment → WALSegment → Prop :=
  Relation.ReflTransGen fun a b => a ∈ segments ∧ b ∈ segments ∧ a.Overlaps b

theorem Linked.symm {a b : WALSegment} (h : Linked segments a b) : Linked segments b a := by
  induction h with
  | refl => exact .refl
  | tail _ hlast ih =>
    obtain ⟨hb, hc, hbc⟩ := hlast
    exact .head ⟨hc, hb, hbc.2, hbc.1⟩ ih

/-- The segments of the current group are linked, and `groupMaxEndLSN` is where the last of them
ends. -/
structure OverlapScan.Open (segments : List WALSegment) (scan : OverlapScan) : Prop where
  linked : RangesValid segments →
    ∀ a ∈ scan.currentGroup, ∀ b ∈ scan.currentGroup, Linked segments a b
  le : ∀ a ∈ scan.currentGroup, (a.endLSN : ℤ) ≤ scan.groupMaxEndLSN
  last : ∃ a ∈ scan.currentGroup, (a.endLSN : ℤ) = scan.groupMaxEndLSN

theorem OverlapScan.open_singleton (groups : List (List WALSegment)) (s : WALSegment) :
    OverlapScan.Open segments ⟨groups, [s], s.endLSN⟩ :=
  ⟨fun _ => by simpa using .refl, by simp, by simp⟩

/-- A segment that starts before the last one of the group ends is linked to it. -/
theorem OverlapScan.Open.join {scan : OverlapScan} (h : scan.Open segments) {s : WALSegment}
    (hs : s ∈ segments) (hsub : scan.currentGroup ⊆ segments)
    (hsorted : ∀ a ∈ scan.currentGroup, a.startLSN ≤ s.startLSN)
    (hjoin : (s.startLSN : ℤ) ≤ scan.groupMaxEndLSN) :
    OverlapScan.Open segments
      ⟨scan.groups, scan.currentGroup ++ [s], max scan.groupMaxEndLSN s.endLSN⟩ := by
  obtain ⟨c, hc, hcmax⟩ := h.last
  refine ⟨fun hvalid => ?_, ?_, ?_⟩
  · have hcs : Linked segments c s :=
      .single ⟨hsub hc, hs, (hsorted c hc).trans (hvalid s hs), by omega⟩
    have hall : ∀ a ∈ scan.currentGroup ++ [s], Linked segments a s := by
      intro a ha
      rcases mem_append.mp ha with ha | ha
      · exact (h.linked hvalid a ha c hc).trans hcs
      · rw [mem_singleton.mp ha]
        exact .refl
    exact fun a ha b hb => (hall a ha).trans (hall b hb).symm
  · intro a ha
    rcases mem_append.mp ha with ha | ha
    · exact le_max_of_le_left (h.le a ha)
    · exact mem_singleton.mp ha ▸ le_max_right _ _
  · rcases le_total scan.groupMaxEndLSN s.endLSN with h | h
    · exact ⟨s, by simp, (max_eq_right h).symm⟩
    · exact ⟨c, by simp [hc], hcmax.trans (max_eq_left h).symm⟩

/-- A list of segments cut into blocks: those of a block are linked, and those of different blocks
do not overlap. -/
structure Blocks (segments sorted : List WALSegment) (blocks : List (List WALSegment)) : Prop where
  flatten : blocks.flatten = sorted
  linked : RangesValid segments → ∀ block ∈ blocks, ∀ a ∈ block, ∀ b ∈ block, Linked segments a b
  apart : blocks.Pairwise fun block later => ∀ a ∈ block, ∀ b ∈ later, ¬ a.Overlaps b

theorem OverlapScan.closed_eq (scan : OverlapScan) :
    scan.closed = scan.groups ++ [scan.currentGroup].filter fun block => 1 < block.length := by
  rw [OverlapScan.closed]
  split_ifs with h <;> simp [h]

/-- **The scan cuts a sorted list into blocks** and returns those of several segments. -/
theorem closed_foldl_next : (rest : List WALSegment) → (scan : OverlapScan) → scan.Open segments →
      scan.currentGroup ++ rest ⊆ segments →
      (scan.currentGroup ++ rest).Pairwise (fun a b => a.startLSN ≤ b.startLSN) →
      ∃ blocks, (rest.foldl OverlapScan.next scan).closed =
          scan.groups ++ blocks.filter (fun block => 1 < block.length) ∧
        Blocks segments (scan.currentGroup ++ rest) blocks
  | [], scan, hopen, _, _ =>
    ⟨[scan.currentGroup], scan.closed_eq, by simp, fun hvalid => by simpa using hopen.linked hvalid,
      pairwise_singleton _ _⟩
  | s :: rest, scan, hopen, hsub, hsorted => by
    obtain ⟨-, hrest, hstart⟩ := pairwise_append.mp hsorted
    obtain ⟨c, hc, -⟩ := hopen.last
    rw [foldl_cons, OverlapScan.next, if_neg (length_pos_of_mem hc).ne']
    split_ifs with hjoin
    · have hnext := hopen.join (hsub (by simp)) (fun a ha => hsub (mem_append_left _ ha))
        (fun a ha => hstart a ha s mem_cons_self) hjoin
      rw [append_cons scan.currentGroup s rest] at hsub hsorted ⊢
      exact closed_foldl_next rest _ hnext hsub hsorted
    · -- The group ends before `s` starts, and so before every later segment does.
      obtain ⟨blocks, hclosed, hblocks⟩ := closed_foldl_next rest _
        (OverlapScan.open_singleton scan.closed s)
        (fun a ha => hsub (mem_append_right _ ha)) hrest
      refine ⟨scan.currentGroup :: blocks, ?_, by simp [hblocks.flatten], fun hvalid =>
        forall_mem_cons.mpr ⟨hopen.linked hvalid, hblocks.linked hvalid⟩,
        pairwise_cons.mpr ⟨fun later hlater a ha b hb hover => ?_, hblocks.apart⟩⟩
      · rw [hclosed, scan.closed_eq, append_assoc, ← filter_append, singleton_append]
      · have hb' : b ∈ s :: rest := by
          simpa [hblocks.flatten] using mem_flatten.mpr ⟨later, hlater, hb⟩
        have hsb : s.startLSN ≤ b.startLSN := by
          rcases mem_cons.mp hb' with rfl | hb'
          · exact le_rfl
          · exact (pairwise_cons.mp hrest).1 b hb'
        have hle := hopen.le a ha
        have hover := hover.2
        omega

theorem findOverlappingSegments_blocks (segments : List WALSegment) :
    ∃ blocks, findOverlappingSegments segments = blocks.filter (fun block => 1 < block.length) ∧
      Blocks segments (segments.insertionSort fun a b => a.startLSN ≤ b.startLSN) blocks := by
  have hsub : segments.insertionSort (fun a b => a.startLSN ≤ b.startLSN) ⊆ segments :=
    (perm_insertionSort _ _).subset
  have hsorted := pairwise_insertionSort (fun a b : WALSegment => a.startLSN ≤ b.startLSN) segments
  rw [findOverlappingSegments]
  cases hsort : segments.insertionSort fun a b => a.startLSN ≤ b.startLSN with
  | nil => exact ⟨[], rfl, rfl, fun _ => by simp, .nil⟩
  | cons s rest =>
    rw [hsort] at hsub hsorted
    exact closed_foldl_next rest _ (OverlapScan.open_singleton [] s) hsub hsorted

/-- The segment overlaps another one of the list, be it an equal one at another place. -/
def OverlapsAnother (segments : List WALSegment) (a : WALSegment) : Prop :=
  ∃ b ∈ segments.erase a, a.Overlaps b

instance (segments : List WALSegment) (a : WALSegment) : Decidable (OverlapsAnother segments a) :=
  List.decidableBEx _ _

/-- The groups are the connected components of the overlap graph with several segments. -/
structure OverlapComponents (segments : List WALSegment) (groups : List (List WALSegment)) :
    Prop where
  flatten : groups.flatten.Perm (segments.filter (OverlapsAnother segments))
  disjoint : groups.Pairwise List.Disjoint
  length : ∀ group ∈ groups, 2 ≤ group.length
  linked : ∀ a ∈ segments, ∀ b ∈ segments, a ≠ b →
    ((∃ group ∈ groups, a ∈ group ∧ b ∈ group) ↔ Linked segments a b)

theorem Linked.overlapsAnother {a b : WALSegment} (h : Linked segments a b) (hne : b ≠ a) :
    OverlapsAnother segments a := by
  induction h with
  | refl => exact absurd rfl hne
  | @tail b c _ hlast ih =>
    by_cases hb : b = a
    · exact ⟨c, (mem_erase_of_ne hne).mpr hlast.2.1, hb ▸ hlast.2.2⟩
    · exact ih hb

section Blocks

variable {sorted : List WALSegment} {blocks : List (List WALSegment)} {block : List WALSegment}
  {a b : WALSegment} (h : Blocks segments sorted blocks) (hperm : sorted.Perm segments)
  (hvalid : RangesValid segments)

include h hperm

theorem Blocks.mem_iff : a ∈ segments ↔ ∃ block ∈ blocks, a ∈ block := by
  rw [← hperm.mem_iff, ← h.flatten, mem_flatten]

/-- The segments of a block, and the others, none of which overlaps one of them. -/
theorem Blocks.others (hblock : block ∈ blocks) :
    ∃ others, (block ++ others).Perm segments ∧ ∀ a ∈ block, ∀ b ∈ others, ¬ a.Overlaps b := by
  obtain ⟨before, after, rfl⟩ := append_of_mem hblock
  have hapart := (perm_middle.pairwise_iff fun h a ha b hb hab => h b hb a ha hab.symm).mp h.apart
  refine ⟨(before ++ after).flatten, ?_, fun a ha b hb => ?_⟩
  · refine Perm.trans ?_ (h.flatten ▸ hperm)
    exact (perm_middle.flatten : _).symm
  · obtain ⟨other, hother, hb⟩ := mem_flatten.mp hb
    exact (pairwise_cons.mp hapart).1 other hother a ha b hb

theorem Blocks.mem_of_linked (hblock : block ∈ blocks) (ha : a ∈ block)
    (hab : Linked segments a b) : b ∈ block := by
  obtain ⟨others, hsegments, hothers⟩ := h.others hperm hblock
  induction hab with
  | refl => exact ha
  | @tail b c _ hlast ih =>
    rcases mem_append.mp (hsegments.mem_iff.mpr hlast.2.1) with hc | hc
    · exact hc
    · exact absurd hlast.2.2 (hothers b ih c hc)

include hvalid

theorem Blocks.filter_block (hblock : block ∈ blocks) :
    block.filter (OverlapsAnother segments) = if 1 < block.length then block else [] := by
  obtain ⟨others, hsegments, hothers⟩ := h.others hperm hblock
  split_ifs with hlength
  · refine filter_eq_self.mpr fun a ha => decide_eq_true ?_
    have hpos : 0 < (block.erase a).length := by
      rw [length_erase_of_mem ha]
      omega
    obtain ⟨c, hc⟩ := exists_mem_of_length_pos hpos
    by_cases hca : c = a
    · subst hca
      have hmem : c ∈ segments.erase c :=
        ((sublist_append_left _ _).subperm.trans hsegments.subperm).erase c |>.subset hc
      have := hvalid c (mem_of_mem_erase hmem)
      exact ⟨c, hmem, this, this⟩
    · exact (h.linked hvalid block hblock a ha c (mem_of_mem_erase hc)).overlapsAnother hca
  · refine filter_eq_nil_iff.mpr fun a ha hover => ?_
    obtain ⟨b, hb, hab⟩ := of_decide_eq_true hover
    obtain ⟨x, rfl⟩ := length_eq_one_iff.mp (le_antisymm (not_lt.mp hlength) (length_pos_of_mem ha))
    obtain rfl := mem_singleton.mp ha
    have hrest := (hsegments.erase a).mem_iff.mpr hb
    rw [singleton_append, erase_cons_head] at hrest
    exact hothers a ha b hrest hab

end Blocks

/-- **The groups are the connected components** of several segments of the overlap graph. -/
theorem findOverlappingSegments_components (segments : List WALSegment)
    (hvalid : RangesValid segments) :
    OverlapComponents segments (findOverlappingSegments segments) := by
  obtain ⟨blocks, hgroups, hblocks⟩ := findOverlappingSegments_blocks segments
  have hperm := perm_insertionSort (fun a b : WALSegment => a.startLSN ≤ b.startLSN) segments
  rw [hgroups]
  refine ⟨?_, ?_, fun group hgroup => of_decide_eq_true (mem_filter.mp hgroup).2, ?_⟩
  · refine Perm.trans (.of_eq ?_) (hperm.filter _)
    have hfilter : ∀ block ∈ blocks, _ := fun _ hb => hblocks.filter_block hperm hvalid hb
    rw [← hblocks.flatten, filter_flatten]
    clear hgroups hblocks
    induction blocks with
    | nil => rfl
    | cons block _ ih =>
      rw [map_cons, flatten_cons, hfilter block mem_cons_self, filter_cons,
        ← ih fun b hb => hfilter b (mem_cons_of_mem _ hb)]
      split_ifs <;> simp_all
  · refine Pairwise.filter _ (hblocks.apart.imp_of_mem fun {g g'} hg _ hapart x hx hx' => ?_)
    have := hvalid x ((hblocks.mem_iff hperm).mpr ⟨g, hg, hx⟩)
    exact hapart x hx x hx' ⟨this, this⟩
  · intro a ha b hb hne
    constructor
    · rintro ⟨group, hgroup, ha, hb⟩
      exact hblocks.linked hvalid group (mem_filter.mp hgroup).1 a ha b hb
    · intro hlinked
      obtain ⟨block, hblock, ha⟩ := (hblocks.mem_iff hperm).mp ha
      have hb := hblocks.mem_of_linked hperm hblock ha hlinked
      refine ⟨block, mem_filter.mpr ⟨hblock, decide_eq_true ?_⟩, ha, hb⟩
      by_contra hlength
      obtain ⟨x, rfl⟩ := length_eq_one_iff.mp
        (le_antisymm (not_lt.mp hlength) (length_pos_of_mem ha))
      exact hne ((mem_singleton.mp ha).trans (mem_singleton.mp hb).symm)

theorem components_of_nested :
    ∃ a b c, findOverlappingSegments [a, b, c] = [[a, b]] ∧ OverlapComponents [a, b, c] [[a, b]] :=
  ⟨sampleSegment "a" 1 9 1 0, sampleSegment "b" 3 4 1 0, sampleSegment "c" 10 12 1 0, rfl,
    findOverlappingSegments_components _ (by simp [RangesValid, sampleSegment])⟩

end LeveledCompactionStrategy

/-! ### A plan is made of its segments -/

section Subset

variable {segments : List WALSegment}

theorem get_groupBy_subset (key : WALSegment → ℕ) (segments : List WALSegment) (k : ℕ) :
    ((groupBy key segments).get k).getD [] ⊆ segments := by
  have hget : (groupBy key segments).get k = _ := OrderedMap.get_groupBy key segments k
  rw [hget]
  split_ifs
  · exact nil_subset _
  · exact filter_subset_self _

variable {plan : CompactionPlan} {random : String} {now : ℕ}

theorem SizeTieredCompactionStrategy.inputSegments_subset {strategy : SizeTieredCompactionStrategy}
    (h : strategy.planCompaction segments now random = some plan) :
    plan.inputSegments ⊆ segments := by
  simp only [planCompaction] at h
  split_ifs at h
  split at h
  · cases h
  · split_ifs at h
    cases h
    exact Subset.trans (get_groupBy_subset _ _ _) (filter_subset_self _)

namespace LeveledCompactionStrategy

theorem findOverlappingSegments_subset {group : List WALSegment}
    (h : group ∈ findOverlappingSegments segments) : group ⊆ segments := by
  obtain ⟨blocks, hgroups, hblocks⟩ := findOverlappingSegments_blocks segments
  rw [hgroups] at h
  exact fun a ha => (hblocks.mem_iff (perm_insertionSort _ _)).mpr ⟨group, mem_of_mem_filter h, ha⟩

theorem largestGroup_subset {others : List WALSegment} (hothers : others ⊆ segments) :
    {groups : List (List WALSegment)} → (∀ group ∈ groups, group ⊆ segments) →
      largestGroup others groups ⊆ segments
  | [], _ => hothers
  | group :: groups, h => by
    rw [largestGroup]
    have hfirst := h group mem_cons_self
    have hrest : ∀ group ∈ groups, group ⊆ segments := fun g hg => h g (mem_cons_of_mem _ hg)
    clear h
    induction groups generalizing group with
    | nil => exact hfirst
    | cons next _ ih =>
      rw [foldl_cons]
      refine ih _ ?_ fun g hg => hrest g (mem_cons_of_mem _ hg)
      split_ifs
      · exact hrest next mem_cons_self
      · exact hfirst

theorem inputSegments_subset {strategy : LeveledCompactionStrategy} {random : String}
    {plan : CompactionPlan} (h : strategy.planCompaction segments now random = some plan) :
    plan.inputSegments ⊆ segments := by
  simp only [planCompaction] at h
  split_ifs at h
  obtain ⟨level, -, hlevel⟩ := exists_of_findSome?_eq_some (join_eq_some_iff.mp h)
  have hgroup := Subset.trans (get_groupBy_subset strategy.assignSegmentToLevel
    (segments.filter WALSegment.isImmutable) level) (filter_subset_self _)
  have hinput := largestGroup_subset hgroup fun group hg =>
    Subset.trans (findOverlappingSegments_subset hg) hgroup
  simp only [planLevel, ite_none_left_eq_some, some.injEq, ite_none_right_eq_some] at hlevel
  obtain ⟨-, -, -, -, rfl⟩ := hlevel
  exact hinput

end LeveledCompactionStrategy

theorem VacuumBasedCompactionStrategy.inputSegments_subset
    {strategy : VacuumBasedCompactionStrategy}
    (h : strategy.planCompaction segments now random = some plan) :
    plan.inputSegments ⊆ segments := by
  simp only [planCompaction, ite_none_left_eq_some, ite_none_right_eq_some, some.injEq] at h
  obtain ⟨-, -, rfl⟩ := h
  intro seg hseg
  have hcandidate := (mem_insertionSort _).mp (mem_of_mem_take hseg)
  exact mem_of_mem_filter (mem_of_mem_filter hcandidate)

/-- **A plan is made of the segments that it was made for.** -/
theorem CompactionStrategy.inputSegments_subset {strategy : CompactionStrategy}
    (h : strategy.planCompaction segments now random = some plan) :
    plan.inputSegments ⊆ segments := by
  cases strategy with
  | sizeTiered => exact SizeTieredCompactionStrategy.inputSegments_subset h
  | leveled => exact LeveledCompactionStrategy.inputSegments_subset h
  | vacuum => exact VacuumBasedCompactionStrategy.inputSegments_subset h

end Subset

/-! ### The entries that a compaction leaves -/

variable {N V : Type} {rest : List WALSegment} {first : WALSegment} (entries : List (WALEntry N V))
  (config : WALConfig N V)

def entriesOf (disk : Disk N V) (segments : List WALSegment) : List (WALEntry N V) :=
  allEntries (segments.map fun segment => (disk.get segment.filePath).getD [])

def remainingSegments (segments : List WALSegment) (plan : CompactionPlan) : List WALSegment :=
  segments.filter fun segment => segment.filePath ∉ plan.inputSegments.map WALSegment.filePath

/-- The entries on disk after the plan is carried out. -/
def entriesAfter (disk : Disk N V) (segments : List WALSegment) (plan : CompactionPlan) :
    List (WALEntry N V) :=
  entriesOf disk (remainingSegments segments plan) ++
    keptEntries (entriesOf disk plan.inputSegments)

section EntriesAfter

variable {disk : Disk N V} {segments : List WALSegment} {plan : CompactionPlan}
  {entry : WALEntry N V}

theorem mem_entriesOf : entry ∈ entriesOf disk segments ↔
      ∃ segment ∈ segments, ∃ file, disk.get segment.filePath = some file ∧ entry ∈ file := by
  rw [entriesOf, allEntries, mem_flatMap]
  constructor
  · rintro ⟨file, hfile, hentry⟩
    obtain ⟨segment, hsegment, rfl⟩ := mem_map.mp hfile
    rw [mem_readEntries] at hentry
    cases hget : disk.get segment.filePath with
    | none =>
      rw [hget] at hentry
      exact nomatch hentry
    | some file =>
      rw [hget] at hentry
      exact ⟨segment, hsegment, file, hget, hentry⟩
  · rintro ⟨segment, hsegment, file, hget, hentry⟩
    refine ⟨_, mem_map_of_mem hsegment, ?_⟩
    rw [mem_readEntries, hget]
    exact hentry

theorem readInputs_eq_some : {segments : List WALSegment} → {files : List (WALFile N V)} →
    readInputs disk segments = some files →
      files = segments.map (fun segment => (disk.get segment.filePath).getD []) ∧
        ∀ segment ∈ segments, disk.get segment.filePath ≠ none
  | [], _, h => by
    cases h
    exact ⟨rfl, fun _ h => nomatch h⟩
  | segment :: segments, files, h => by
    rw [readInputs] at h
    split at h
    · rename_i file rest hfile hrest
      cases h
      obtain ⟨hfiles, hexist⟩ := readInputs_eq_some hrest
      refine ⟨?_, forall_mem_cons.mpr ⟨by simp [hfile], hexist⟩⟩
      rw [map_cons, hfile, getD_some, hfiles]
    · cases h

theorem readEntries_keptEntries :
    readEntries (keptEntries entries) none none = keptEntries entries := by
  have hall : (keptEntries entries).filter (fun entry =>
      (none : Option ℕ).all (· ≤ entry.logSequenceNumber) &&
        (none : Option ℕ).all (entry.logSequenceNumber ≤ ·)) = keptEntries entries := by simp
  rw [readEntries, hall]
  exact (pairwise_sortByLSN _).insertionSort_eq

/-- **The entries after a compaction on the files.** If the output segment is a new file, the
segments that the plan leaves alone and the output segment hold `entriesAfter`. -/
theorem entriesOf_executeRealCompaction
    {files : List (WALFile N V)} (hplan : plan.inputSegments = first :: rest)
    (hread : readInputs disk plan.inputSegments = some files) (startTime now : ℕ)
    (hnew : plan.outputPath first now ∉ segments.map WALSegment.filePath)
    (hfile : disk.get (plan.outputPath first now) = none) {output : WALSegment}
    (houtput : output.filePath = plan.outputPath first now) :
    entriesOf (executeRealCompaction config disk plan startTime now).1
        (remainingSegments segments plan ++ [output]) =
      entriesAfter disk segments plan := by
  obtain ⟨hfiles, hexist⟩ := readInputs_eq_some hread
  have hspec := executeRealCompaction_spec config hplan hread startTime now
  have hremaining : (remainingSegments segments plan).map (fun segment =>
      ((executeRealCompaction config disk plan startTime now).1.get segment.filePath).getD []) =
        (remainingSegments segments plan).map fun segment =>
          (disk.get segment.filePath).getD [] := by
    refine map_congr_left fun segment hsegment => ?_
    obtain ⟨hmem, hnot⟩ := mem_filter.mp hsegment
    have hne : segment.filePath ≠ plan.outputPath first now := fun heq =>
      hnew (heq ▸ mem_map_of_mem hmem)
    rw [hspec, if_neg (of_decide_eq_true hnot), if_neg hne]
  have hwritten : (executeRealCompaction config disk plan startTime now).1.get output.filePath =
      some (keptEntries (entriesOf disk plan.inputSegments)) := by
    have hinput : plan.outputPath first now ∉ plan.inputSegments.map WALSegment.filePath := by
      intro hmem
      obtain ⟨segment, hsegment, heq⟩ := mem_map.mp hmem
      exact hexist segment hsegment (heq ▸ hfile)
    rw [houtput, hspec, if_neg hinput, if_pos rfl, hfile, getD_none, nil_append, hfiles]
    rfl
  rw [entriesOf, map_append, hremaining, map_singleton, hwritten, getD_some,
    allEntries, flatMap_append, flatMap_singleton, readEntries_keptEntries]
  rfl

theorem subset_entriesOf {segments' : List WALSegment} (h : segments' ⊆ segments) :
    entriesOf disk segments' ⊆ entriesOf disk segments := by
  intro entry hentry
  obtain ⟨segment, hsegment, file, hget, hmem⟩ := mem_entriesOf.mp hentry
  exact mem_entriesOf.mpr ⟨segment, h hsegment, file, hget, hmem⟩

theorem mem_entriesOf_cases (h : entry ∈ entriesOf disk segments) (plan : CompactionPlan) :
    entry ∈ entriesOf disk (remainingSegments segments plan) ∨
      entry ∈ entriesOf disk plan.inputSegments := by
  obtain ⟨segment, hsegment, file, hget, hmem⟩ := mem_entriesOf.mp h
  by_cases hpath : segment.filePath ∈ plan.inputSegments.map WALSegment.filePath
  · obtain ⟨input, hinput, heq⟩ := mem_map.mp hpath
    exact .inr (mem_entriesOf.mpr ⟨input, hinput, file, heq ▸ hget, hmem⟩)
  · exact .inl (mem_entriesOf.mpr
      ⟨segment, mem_filter.mpr ⟨hsegment, decide_eq_true hpath⟩, file, hget, hmem⟩)

/-- **When a deleted entity stays absent.** If the last entry about an entity over all segments is a
`DELETE`, the entity is absent after the compaction of any plan that a strategy returns exactly if
the entries about it in the segments that the plan leaves alone leave it absent on their own. -/
theorem absent_entriesAfter_iff {strategy : CompactionStrategy} {now : ℕ} {random : String}
    (hplan : strategy.planCompaction segments now random = some plan) {entry : WALEntry N V}
    (hentry : entry ∈ entriesOf disk segments) (hdelete : entry.data.operation = .delete)
    (hlast : ∀ other ∈ entriesOf disk segments, other.data.entityId = entry.data.entityId →
      other = entry ∨ other.logSequenceNumber < entry.logSequenceNumber) :
    (replayEntries (entriesAfter disk segments plan)).get entry.data.entityId = none ↔
      LeavesAbsent (historyOf (entriesOf disk (remainingSegments segments plan))
        entry.data.entityId) := by
  have hinputs : entriesOf disk plan.inputSegments ⊆ entriesOf disk segments :=
    subset_entriesOf (CompactionStrategy.inputSegments_subset hplan)
  have hremaining : entriesOf disk (remainingSegments segments plan) ⊆ entriesOf disk segments :=
    subset_entriesOf (filter_subset_self _)
  have hends : ∀ entries, entries ⊆ entriesOf disk segments →
      entry ∈ entries → LeavesAbsent (historyOf entries entry.data.entityId) := by
    intro entries hsub hmem
    rw [← dropLast_append_getLast? _ (getLast?_historyOf ⟨hmem, rfl, fun other hother hid => ?_⟩
      fun other hother hid heq => ?_), leavesAbsent_concat]
    · exact .inl hdelete
    · rcases hlast other (hsub hother) hid with rfl | hlt
      · exact le_rfl
      · exact hlt.le
    · exact (hlast other (hsub hother) hid).resolve_right heq.not_lt
  rw [get_replayEntries, recordAfter_eq_none_iff]
  rcases mem_entriesOf_cases hentry plan with hmem | hmem
  · have hafter : entriesAfter disk segments plan ⊆ entriesOf disk segments :=
      append_subset.mpr ⟨hremaining, Subset.trans (keptEntries_subset _) hinputs⟩
    exact iff_of_true (hends _ hafter (mem_append_left _ hmem)) (hends _ hremaining hmem)
  · -- The executor has read the `DELETE` and drops it, with every other entry about the entity.
    have hdropped : historyOf (keptEntries (entriesOf disk plan.inputSegments))
        entry.data.entityId = [] := by
      rw [historyOf_keptEntries]
      rcases latestByEntity_spec entry.data.entityId (entriesOf disk plan.inputSegments) with
        ⟨latest, hget, hlatest⟩ | ⟨-, hno⟩
      · have hle := hlatest.latest entry hmem rfl
        obtain rfl := (hlast latest (hinputs hlatest.mem) hlatest.about).resolve_right hle.not_gt
        simp [hget, hdelete]
      · exact absurd rfl (hno entry hmem)
    rw [entriesAfter, historyOf_append_of_eq_nil hdropped]

end EntriesAfter

/-! ### The range that is reported for the output segment -/

section Reported

variable {disk : Disk N V} {plan : CompactionPlan}

/-- The numbers of the entries lie in the range of their segment. -/
def RangesCorrect (disk : Disk N V) (segments : List WALSegment) : Prop :=
  ∀ segment ∈ segments, ∀ file ∈ disk.get segment.filePath, ∀ entry ∈ file,
    segment.startLSN ≤ entry.logSequenceNumber ∧ entry.logSequenceNumber ≤ segment.endLSN

/-- Every LSN that the file of an input may hold, by all ranges that are given for the file, lies
between the start of the first input and the end of the last one. -/
def CompactionPlan.Spans (plan : CompactionPlan) : Prop :=
  ∀ first rest, plan.inputSegments = first :: rest → ∀ segment ∈ first :: rest, ∀ lsn,
    (∀ other ∈ first :: rest, other.filePath = segment.filePath →
      other.startLSN ≤ lsn ∧ lsn ≤ other.endLSN) →
    first.startLSN ≤ lsn ∧ lsn ≤ (rest.getLastD first).endLSN

/-- The output segment is not one of the files that the plan removes. -/
def CompactionPlan.WritesApart (plan : CompactionPlan) (now : ℕ) : Prop :=
  ∀ first ∈ plan.inputSegments.head?,
    plan.outputPath first now ∉ plan.inputSegments.map WALSegment.filePath

/-- The number of entities whose latest entry is a deletion. -/
def tombstonedEntities (entries : List (WALEntry N V)) : ℕ :=
  ((latestByEntity entries).values.filter fun entry => entry.data.operation = .delete).length

theorem readInputs_of_forall : (segments : List WALSegment) →
    (∀ segment ∈ segments, disk.get segment.filePath ≠ none) → readInputs disk segments =
        some (segments.map fun segment => (disk.get segment.filePath).getD [])
  | [], _ => rfl
  | segment :: segments, h => by
    obtain ⟨hfile, hrest⟩ := forall_mem_cons.mp h
    obtain ⟨file, hfile⟩ := ne_none_iff_exists'.mp hfile
    rw [readInputs, readInputs_of_forall segments hrest, map_cons, hfile]
    rfl

theorem length_latestByEntity_le : (latestByEntity entries).values.length ≤ entries.length := by
  have hnodup := nodup_map_values (fun entry => entry.data.entityId)
    (latestByEntity entries) fun _ _ hget => (latestByEntity_about hget).about
  refine (subperm_of_subset hnodup.of_map fun entry hentry => ?_).length_le
  obtain ⟨id, hid⟩ := ((latestByEntity entries).mem_values_iff entry).mp hentry
  exact (latestByEntity_about hid).mem

theorem length_keptEntries : (latestByEntity entries).values.length =
      (keptEntries entries).length + tombstonedEntities entries := by
  rw [keptEntries, sortByLSN, length_insertionSort, tombstonedEntities,
    length_eq_length_filter_add fun entry => entry.data.operation ≠ .delete]
  simp

/-- **What is reported about a compaction.** -/
theorem executeRealCompaction_result {config : WALConfig N V} {startTime : ℕ}
    {result : CompactionResult}
    (h : result ∈ (executeRealCompaction config disk plan startTime now).2) :
    ∃ first rest created, plan.inputSegments = first :: rest ∧ plan.WritesApart now ∧
      result.segmentsCreated = [created] ∧
      created.startLSN = first.startLSN ∧ created.endLSN = (rest.getLastD first).endLSN ∧
      result.metrics.entriesProcessed =
        result.metrics.entriesCompacted + result.metrics.duplicatesRemoved +
          tombstonedEntities (entriesOf disk plan.inputSegments) := by
  rw [executeRealCompaction] at h
  split at h
  next files first rest hread hplan =>
    dsimp only at h
    split at h
    · cases h
    next output houtput =>
      cases h
      rw [get_unlinkAll, ite_none_left_eq_some] at houtput
      refine ⟨first, rest, _, hplan, ?_, rfl, rfl, rfl, ?_⟩
      · intro first' hfirst
        rw [hplan, head?_cons, mem_some_iff] at hfirst
        exact hfirst ▸ houtput.1
      obtain ⟨rfl, -⟩ := readInputs_eq_some hread
      have hle := length_latestByEntity_le (entriesOf disk plan.inputSegments)
      have hkept := length_keptEntries (entriesOf disk plan.inputSegments)
      rw [entriesOf, tombstonedEntities] at *
      dsimp only
      omega
  · cases h

def probeEntry (lsn : ℕ) : WALEntry N V := ⟨lsn, 0, ⟨"a", none, 1, 0, .create, none, none⟩, ""⟩

/-- The files of the segments, empty but for one entry in the file at a path. -/
def probeDisk (segments : List WALSegment) (path : SegmentPath) (lsn : ℕ) : Disk N V :=
  segments.foldl (fun disk segment => disk.set segment.filePath
    (if segment.filePath = path then [probeEntry lsn] else [])) .empty

variable {segments : List WALSegment} {path path' : SegmentPath} {lsn : ℕ} {file : WALFile N V}

theorem get_probeDisk : (probeDisk segments path lsn).get path' = some file ↔
      ∃ segment ∈ segments, segment.filePath = path' ∧
        (if segment.filePath = path then [probeEntry lsn] else []) = file :=
  get_foldl_set_eq_some_iff_of_agree WALSegment.filePath _ fun x _ y _ hxy => by rw [hxy]

theorem mem_probeDisk (h : (probeDisk segments path lsn).get path' = some file)
    (hmem : entry ∈ file) : path' = path ∧ entry = probeEntry lsn := by
  obtain ⟨segment, -, rfl, rfl⟩ := get_probeDisk.mp h
  simpa using hmem

theorem mem_keptEntries_probeDisk {segment : WALSegment} (h : segment ∈ segments) (lsn : ℕ) :
    probeEntry lsn ∈
      keptEntries (entriesOf (probeDisk segments segment.filePath lsn : Disk N V) segments) := by
  have hmem : probeEntry lsn ∈
      entriesOf (probeDisk segments segment.filePath lsn : Disk N V) segments :=
    mem_entriesOf.mpr ⟨segment, h, _, get_probeDisk.mpr ⟨segment, h, rfl, rfl⟩, by simp⟩
  refine mem_sortByLSN.mpr (mem_filter.mpr ⟨(mem_values_iff _ _).mpr ?_, rfl⟩)
  rcases latestByEntity_spec "a" (entriesOf (probeDisk segments segment.filePath lsn : Disk N V)
    segments) with ⟨latest, hget, hlatest⟩ | ⟨-, hno⟩
  · obtain ⟨_, -, file, hfile, hlatest⟩ := mem_entriesOf.mp hlatest.mem
    exact ⟨_, (mem_probeDisk hfile hlatest).2 ▸ hget⟩
  · exact absurd rfl (hno _ hmem)

/-- The range that is reported covers the entries that are kept, and the counts add up. -/
structure CompactionResult.Describes (result : CompactionResult) (entries : List (WALEntry N V)) :
    Prop where
  covers : ∀ created ∈ result.segmentsCreated, ∀ entry ∈ keptEntries entries,
    created.startLSN ≤ entry.logSequenceNumber ∧ entry.logSequenceNumber ≤ created.endLSN
  counts : result.metrics.entriesProcessed = result.metrics.entriesCompacted +
    result.metrics.duplicatesRemoved + tombstonedEntities entries

/-- **When the report of a compaction is right.** Whatever the files hold within the ranges of the
inputs, the range of the output segment covers the entries that are kept and the counts add up,
exactly if the plan spans its inputs or removes its own output. -/
theorem result_describes_iff (config : WALConfig N V) (plan : CompactionPlan) (startTime now : ℕ) :
    (∀ disk : Disk N V, RangesCorrect disk plan.inputSegments →
        ∀ result ∈ (executeRealCompaction config disk plan startTime now).2,
          result.Describes (entriesOf disk plan.inputSegments)) ↔
      (plan.WritesApart now → plan.Spans) := by
  constructor
  · intro h hapart first rest hplan segment hsegment lsn hlsn
    rw [← hplan] at hsegment hlsn
    have hexist : ∀ other ∈ plan.inputSegments,
        (probeDisk plan.inputSegments segment.filePath lsn : Disk N V).get other.filePath ≠ none :=
      fun other hother => by simp [get_probeDisk.mpr ⟨other, hother, rfl, rfl⟩]
    have hread := readInputs_of_forall plan.inputSegments hexist
    have hout := hapart first (by rw [hplan]; rfl)
    rw [hplan] at hread hout
    obtain ⟨result, hresult⟩ : ∃ result, result ∈ (executeRealCompaction config
        (probeDisk plan.inputSegments segment.filePath lsn : Disk N V) plan startTime now).2 := by
      simp only [executeRealCompaction, hplan, hread, get_unlinkAll, if_neg hout, get_set_self]
      exact ⟨_, rfl⟩
    obtain ⟨first', rest', created, hplan', -, hcreated, hstart, hend, -⟩ :=
      executeRealCompaction_result hresult
    obtain ⟨rfl, rfl⟩ := cons.inj (hplan.symm.trans hplan')
    have hcorrect : RangesCorrect (probeDisk plan.inputSegments segment.filePath lsn : Disk N V)
        plan.inputSegments := by
      intro other hother file hfile entry hentry
      obtain ⟨hpath, rfl⟩ := mem_probeDisk hfile hentry
      exact hlsn other hother hpath
    rw [← hstart, ← hend]
    exact (h _ hcorrect result hresult).covers created (hcreated ▸ mem_cons_self) _
      (mem_keptEntries_probeDisk hsegment lsn)
  · intro h disk hdisk result hresult
    obtain ⟨first, rest, created, hplan, hapart, hsegments, hstart, hend, hcounts⟩ :=
      executeRealCompaction_result hresult
    refine ⟨fun created' hcreated entry hentry => ?_, hcounts⟩
    rw [hsegments, mem_singleton] at hcreated
    obtain ⟨segment, hsegment, file, hget, hmem⟩ := mem_entriesOf.mp (keptEntries_subset _ hentry)
    rw [hcreated, hstart, hend]
    refine h hapart first rest hplan segment (hplan ▸ hsegment) _ fun other hother hpath => ?_
    exact hdisk other (hplan ▸ hother) file (hpath ▸ hget) entry hmem

end Reported

def deletedSegments : List WALSegment := [sampleSegment "s1" 1 2 2 0, sampleSegment "s2" 3 4 2 1]

def deletedDisk : Disk String ℕ :=
  (OrderedMap.empty.set ⟨"/wal", "s1.wal"⟩
    [sampleEntry 1 "a" .create 1, sampleEntry 2 "b" .create 1]).set ⟨"/wal", "s2.wal"⟩
    [sampleEntry 3 "c" .create 1, sampleEntry 4 "a" .delete 1]

/-- The size-tiered strategy takes both segments, and the entity stays absent. -/
theorem absent_entriesAfter_sizeTiered :
    ∃ plan, (CompactionStrategy.sizeTiered ⟨[1000], 2⟩).planCompaction deletedSegments 0 "r" =
        some plan ∧
      (replayEntries (entriesAfter deletedDisk deletedSegments plan)).get "a" = none := by
  have hentry : sampleEntry 4 "a" .delete 1 ∈ entriesOf deletedDisk deletedSegments := by decide
  have hplan : (CompactionStrategy.sizeTiered ⟨[1000], 2⟩).planCompaction deletedSegments 0 "r" =
    some _ := rfl
  exact ⟨_, hplan, (absent_entriesAfter_iff hplan hentry rfl (by decide)).mpr (by decide)⟩

def vacuumPlan : CompactionPlan :=
  planFor "vacuum-0-r" "vacuumed-0" [sampleSegment "s2" 3 4 2 1] 50 50 (20 * 1024 * 1024) .high

theorem compacted_vacuumPlan :
    entriesOf (executeRealCompaction ⟨1000, fun _ => "", fun _ => 1⟩ deletedDisk vacuumPlan 0 0).1
        (remainingSegments deletedSegments vacuumPlan ++ [sampleSegment "vacuumed-0" 3 3 1 0]) =
      entriesAfter deletedDisk deletedSegments vacuumPlan :=
  entriesOf_executeRealCompaction _ rfl rfl 0 0 (by decide) (by decide) (by decide)

/-- The vacuum strategy takes the segment with the `DELETE` and leaves the one with the `CREATE`
alone: the entity is there again. -/
theorem deleted_entity_resurrected :
    ¬ ∀ (strategy : CompactionStrategy) (segments : List WALSegment) (now : ℕ) (random : String)
        (plan : CompactionPlan) (disk : Disk String ℕ) (entry : WALEntry String ℕ),
      strategy.planCompaction segments now random = some plan →
      entry ∈ entriesOf disk segments → entry.data.operation = .delete →
      (∀ other ∈ entriesOf disk segments, other.data.entityId = entry.data.entityId →
        other = entry ∨ other.logSequenceNumber < entry.logSequenceNumber) →
      (replayEntries (entriesAfter disk segments plan)).get entry.data.entityId = none := by
  intro h
  have hnone := h (.vacuum {}) deletedSegments 0 "r" vacuumPlan deletedDisk
    (sampleEntry 4 "a" .delete 1) (by decide +kernel) (by decide) rfl (by decide)
  exact absurd hnone (by decide)

def scoredSegments : List WALSegment := [sampleSegment "s1" 1 4 4 1, sampleSegment "s2" 5 6 2 1]

def scoredDisk : Disk String ℕ :=
  (OrderedMap.empty.set ⟨"/wal", "s1.wal"⟩ [sampleEntry 1 "a" .create 1,
    sampleEntry 2 "b" .create 1, sampleEntry 3 "c" .create 1, sampleEntry 4 "a" .delete 1]).set
    ⟨"/wal", "s2.wal"⟩ [sampleEntry 5 "d" .create 1, sampleEntry 6 "e" .delete 1]

def scoredPlan : CompactionPlan :=
  planFor "vacuum-0-r" "vacuumed-0" scoredSegments.reverse 133 50 (20 * 1024 * 1024) .high

/-- The vacuum strategy puts the segment with the larger share of tombstones first, and the range
that is reported for the output segment starts at 5 and ends at 4. -/
theorem scored_range_misses_entries :
    (CompactionStrategy.vacuum {}).planCompaction scoredSegments 0 "r" = some scoredPlan ∧
      ¬ ∀ (plan : CompactionPlan) (disk : Disk String ℕ) (config : WALConfig String ℕ)
          (startTime now : ℕ), RangesCorrect disk plan.inputSegments →
        ∀ result ∈ (executeRealCompaction config disk plan startTime now).2,
          result.Describes (entriesOf disk plan.inputSegments) := by
  refine ⟨by decide +kernel, fun h => ?_⟩
  have hreport := h scoredPlan scoredDisk ⟨1000, fun _ => "", fun _ => 1⟩ 0 0
    (by unfold RangesCorrect; decide) _ rfl
  have hcovers := hreport.covers _ mem_cons_self (sampleEntry 2 "b" .create 1) (by decide)
  exact absurd hcovers.1 (by decide)

end DistributedCore.Compaction
