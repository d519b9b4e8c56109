import DistributedCore.Compaction.Strategies
import DistributedCore.Library.FileSystem
import DistributedCore.Persistence.WalStreaming

/-!
# Appends while segments are compacted

A writer has a log file of a directory open, and a coordinator checks the directory for segments to
compact. Both work on the same files and wait often: an append for the size of its file and for the
write; a check for the list of the files, for the contents of each of them, and then, for every
segment of its plan, for its size, its handle and its contents, for the writes to the output, and
for the removal of each segment. The coordinator takes every `.wal` file of the directory for an
immutable segment, the one of the writer included.

Source: `src/persistence/compaction/CompactionCoordinator.ts`,
`src/persistence/compaction/RealCompactionExecutor.ts`, `src/persistence/wal/WALWriter.ts`,
`src/persistence/wal/WALFile.ts`.
-/

namespace DistributedCore.Compaction

open Entity Persistence FileSystem List

structure CoordinatorConfig (N V : Type) extends WALConfig N V where
  walPath : String

variable {N V : Type} {plan : CompactionPlan} {now k : ℕ}

/-! ### Checks under way -/

/-- The loop over the input segments of a plan: those that were read, those that are left, and the
entries so far. -/
structure InputScan (N V : Type) where
  plan : CompactionPlan
  done : List WALSegment
  left : List WALSegment
  entries : List (WALEntry N V)
  /-- Nothing is read twice or passed over. -/
  split : done ++ left = plan.inputSegments

namespace InputScan

/-- The executor starts to read the inputs of a plan. -/
def start (plan : CompactionPlan) : InputScan N V := ⟨plan, [], plan.inputSegments, [], rfl⟩

def next (scan : InputScan N V) {seg : WALSegment} {rest : List WALSegment}
    (h : scan.left = seg :: rest) (file : WALFile N V) : InputScan N V where
  plan := scan.plan
  done := scan.done ++ [seg]
  left := rest
  entries := scan.entries ++ file.readEntries none none
  split := by rw [append_assoc, singleton_append, ← h, scan.split]

end InputScan

/-- What a check waits for: the list of the files; the handles and the contents of the files; the
answer whether the segments of its plan exist; the size, the handle or the contents of the next
segment; the next write to the output, which is open under a handle; the output to be on the disk;
the removal of the next segment. -/
inductive CheckTask (N V : Type)
  | listing
  | loading (toOpen toRead : List String) (segments : List WALSegment)
  | accessing (plan : CompactionPlan)
  | stating (scan : InputScan N V)
  | opening (scan : InputScan N V)
  | reading (scan : InputScan N V)
  | writing (plan : CompactionPlan) (output : String) (inode : ℕ) (left : List (WALEntry N V))
  | syncing (plan : CompactionPlan) (output : String)
  | unlinking (left : List WALSegment)
  | ended

def dropFirst (text : List Char) : List Char → List Char
  | [] => []
  | c :: cs =>
    if text.isPrefixOf (c :: cs) then (c :: cs).drop text.length else c :: dropFirst text cs

def loadSegment (config : CoordinatorConfig N V) (name : String) (file : WALFile N V)
    (sizeBytes createdAt : ℕ) : Option WALSegment :=
  let entries := file.readAll config.toWALConfig
  if entries.isEmpty then none
  else
    some {
      segmentId := String.ofList (dropFirst ".wal".toList name.toList)
      filePath := ⟨config.walPath, name⟩
      startLSN := (entries.map WALEntry.logSequenceNumber).min?.getD 0
      endLSN := (entries.map WALEntry.logSequenceNumber).max?.getD 0
      createdAt := createdAt
      sizeBytes := sizeBytes
      entryCount := entries.length
      tombstoneCount := (entries.filter fun entry => entry.data.operation = .delete).length
      isImmutable := true }

/-- The `.wal` files of the directory, the file that the writer has open, the appends and the checks
that were called, and, for the record, the entries whose appends have succeeded and all entries
that there ever were. -/
structure CompactingLog (N V : Type) where
  files : FileSystem String (WALEntry N V)
  writerName : String
  writerInode : ℕ
  writer : WALWriter
  appends : List (AppendTask N V)
  checks : List (CheckTask N V)
  appended : List (WALEntry N V)
  known : List (WALEntry N V)

/-- A call, or the completion of what an append or a check waits for. The size and the creation
time of a file come from the file system, as does the answer of the access checks; the plan comes
from the strategy, with `none` if there is nothing to compact. -/
inductive CompactingEvent (N V : Type)
  | append (update : EntityUpdate N V) (now : ℕ)
  | sized (k : ℕ)
  | written (k : ℕ) (fault : Option String)
  | triggerCompactionCheck
  | listed (k : ℕ)
  | segmentOpened (k : ℕ) (name : String)
  | segmentRead (k : ℕ) (name : String) (stats : Option (ℕ × ℕ))
  | planned (k : ℕ) (plan : Option CompactionPlan)
  | accessed (k : ℕ) (exist : Bool)
  | advance (k : ℕ) (now : ℕ)
  | failed (k : ℕ)

namespace CompactingLog

def opened (files : FileSystem String (WALEntry N V)) (writerName : String) : CompactingLog N V :=
  let (files, writerInode) := files.openFile writerName
  { files := files
    writerName := writerName
    writerInode := writerInode
    writer := .initialized (files.contents writerInode)
    appends := []
    checks := []
    appended := []
    known := files.records }

variable (s : CompactingLog N V)

def setAppend (k : ℕ) (task : AppendTask N V) : CompactingLog N V :=
  { s with appends := s.appends.set k task }

def setCheck (k : ℕ) (task : CheckTask N V) : CompactingLog N V :=
  { s with checks := s.checks.set k task }

def openFile (name : String) : CompactingLog N V := { s with files := (s.files.openFile name).1 }

def write (i : ℕ) (entry : WALEntry N V) : CompactingLog N V :=
  { s with files := s.files.write i entry }

def unlink (name : String) : CompactingLog N V := { s with files := s.files.unlink name }

variable (config : CoordinatorConfig N V)

def callAppend (s : CompactingLog N V) (update : EntityUpdate N V) (now : ℕ) : CompactingLog N V :=
  let (w, entry) := s.writer.createEntry config.toWALConfig update now
  let task : AppendTask N V :=
    if !validateEntry config.toWALConfig entry then .ended (.error .invalidChecksum)
    else .sizing entry
  { s with writer := w, appends := s.appends ++ [task] }

/-- The check of the size of the file under the name, which is 0 if there is none, and the call of
the write. -/
def afterSize (s : CompactingLog N V) (entry : WALEntry N V) : AppendTask N V :=
  let currentSize := WALFile.getSize config.toWALConfig ((s.files.readFile s.writerName).getD [])
  if currentSize > config.maxFileSize then
    .ended (.error (.sizeLimitExceeded currentSize config.maxFileSize))
  else if !s.writer.isOpen then .ended (.error .notOpen)
  else .writing entry

def completeAppend (k : ℕ) (entry : WALEntry N V) : CompactingLog N V :=
  { (s.write s.writerInode entry).setAppend k (.ended (.ok entry.logSequenceNumber)) with
    appended := s.appended ++ [entry]
    known := s.known ++ [entry] }

def advance (k now : ℕ) : CheckTask N V → Option (CompactingLog N V)
  | .stating scan =>
    match scan.left with
    | [] =>
      let output := scan.plan.outputSegmentId now ++ ".wal"
      let inode := (s.files.openFile output).2
      some ((s.openFile output).setCheck k
        (.writing scan.plan output inode (keptEntries scan.entries)))
    | seg :: _ =>
      some (s.setCheck k (if s.files.dir.has seg.filePath.name then .opening scan else .ended))
  | .opening scan =>
    match scan.left with
    | [] => none
    | seg :: _ => some ((s.openFile seg.filePath.name).setCheck k (.reading scan))
  | .reading scan =>
    match h : scan.left with
    | [] => none
    | seg :: _ =>
      some (s.setCheck k (.stating (scan.next h ((s.files.readFile seg.filePath.name).getD []))))
  | .writing plan output _ [] => some (s.setCheck k (.syncing plan output))
  | .writing plan output inode (entry :: left) =>
    some ((s.write inode entry).setCheck k (.writing plan output inode left))
  | .syncing plan output =>
    some (s.setCheck k (if s.files.dir.has output then .unlinking plan.inputSegments else .ended))
  | .unlinking [] => some (s.setCheck k .ended)
  | .unlinking (seg :: left) => some ((s.unlink seg.filePath.name).setCheck k (.unlinking left))
  | _ => none

def step (s : CompactingLog N V) : CompactingEvent N V → Option (CompactingLog N V)
  | .append update now => some (s.callAppend config update now)
  | .sized k =>
    match s.appends[k]? with
    | some (.sizing entry) => some (s.setAppend k (s.afterSize config entry))
    | _ => none
  | .written k fault =>
    match s.appends[k]? with
    | some (.writing entry) =>
      match fault with
      | some reason => some (s.setAppend k (.ended (.error (.writeFailed reason))))
      | none => some (s.completeAppend k entry)
    | _ => none
  | .triggerCompactionCheck => some { s with checks := s.checks ++ [.listing] }
  | .listed k =>
    match s.checks[k]? with
    | some .listing => some (s.setCheck k (.loading s.files.dir.keys s.files.dir.keys []))
    | _ => none
  | .segmentOpened k name =>
    match s.checks[k]? with
    | some (.loading toOpen toRead segments) =>
      if name ∈ toOpen then
        some ((s.openFile name).setCheck k (.loading (toOpen.erase name) toRead segments))
      else none
    | _ => none
  | .segmentRead k name stats =>
    match s.checks[k]? with
    | some (.loading toOpen toRead segments) =>
      if name ∉ toOpen ∧ name ∈ toRead then
        let segment := stats.bind fun (sizeBytes, createdAt) =>
          loadSegment config name ((s.files.readFile name).getD []) sizeBytes createdAt
        some (s.setCheck k (.loading toOpen (toRead.erase name) (segments ++ segment.toList)))
      else none
    | _ => none
  | .planned k plan =>
    match s.checks[k]? with
    | some (.loading [] [] segments) =>
      match plan with
      | none => some (s.setCheck k .ended)
      | some plan =>
        if ∀ seg ∈ plan.inputSegments, seg ∈ segments then some (s.setCheck k (.accessing plan))
        else none
    | _ => none
  | .accessed k exist =>
    match s.checks[k]? with
    | some (.accessing plan) =>
      some (s.setCheck k
        (if exist = true ∧ plan.inputSegments ≠ [] then .stating (.start plan) else .ended))
    | _ => none
  | .advance k now => s.checks[k]?.bind (s.advance k now)
  | .failed k =>
    match s.checks[k]? with
    | none => none
    | some (.unlinking (_ :: left)) => some (s.setCheck k (.unlinking left))
    | some _ => some (s.setCheck k .ended)

theorem step_planned {s : CompactingLog N V}
    {segments : List WALSegment} (hload : s.checks[k]? = some (.loading [] [] segments))
    {strategy : CompactionStrategy} {random : String}
    (hplan : strategy.planCompaction (segments.insertionSort fun a b => a.startLSN ≤ b.startLSN) now
      random = some plan) :
    s.step config (.planned k (some plan)) = some (s.setCheck k (.accessing plan)) := by
  have hsub : ∀ seg ∈ plan.inputSegments, seg ∈ segments := fun seg hseg =>
    (mem_insertionSort _).mp (CompactionStrategy.inputSegments_subset hplan hseg)
  simp only [step, hload]
  rw [if_pos hsub]

end CompactingLog

/-! ### Threatened files -/

namespace CheckTask

/-- The files that the check is to remove, as far as it has read them. -/
def threatened : CheckTask N V → List String
  | .stating scan | .opening scan | .reading scan => scan.done.map fun seg => seg.filePath.name
  | .writing plan _ _ _ | .syncing plan _ => plan.inputSegments.map fun seg => seg.filePath.name
  | .unlinking left => left.map fun seg => seg.filePath.name
  | .listing | .loading _ _ _ | .accessing _ | .ended => []

/-- The entries that the check has read and not yet written. -/
def holding : CheckTask N V → List (WALEntry N V)
  | .stating scan | .opening scan | .reading scan => scan.entries
  | .writing _ _ _ left => left
  | .syncing _ _ | .unlinking _ | .listing | .loading _ _ _ | .accessing _ | .ended => []

end CheckTask

namespace CompactingLog

variable (s : CompactingLog N V)

/-- The file has a name, and no check means to remove it. -/
def Unthreatened (i : ℕ) : Prop :=
  ∃ p ∈ s.files.dir.entries, p.2 = i ∧ ∀ task ∈ s.checks, p.1 ∉ task.threatened

instance (s : CompactingLog N V) (i : ℕ) : Decidable (s.Unthreatened i) :=
  inferInstanceAs (Decidable (∃ p ∈ _, _))

/-- The file that the event writes to. -/
def writeTarget : CompactingEvent N V → Option ℕ
  | .written k none =>
    match s.appends[k]? with
    | some (.writing _) => some s.writerInode
    | _ => none
  | .advance k _ =>
    match s.checks[k]? with
    | some (.writing _ _ inode (_ :: _)) => some inode
    | _ => none
  | _ => none

/-- What the event writes goes to a file that no check removes. -/
def Sheltered (ev : CompactingEvent N V) : Prop := ∀ i ∈ s.writeTarget ev, s.Unthreatened i

instance (s : CompactingLog N V) (ev : CompactingEvent N V) : Decidable (s.Sheltered ev) :=
  inferInstanceAs (Decidable (∀ i ∈ _, _))

/-! ### Live entries -/

/-- The entry is the latest of its entity, and not a deletion. -/
def Live (entry : WALEntry N V) : Prop :=
  entry.data.operation ≠ .delete ∧ ∀ other ∈ s.known, other.data.entityId = entry.data.entityId →
      other = entry ∨ other.logSequenceNumber < entry.logSequenceNumber

instance [DecidableEq N] [DecidableEq V] (s : CompactingLog N V) (entry : WALEntry N V) :
    Decidable (s.Live entry) :=
  inferInstanceAs (Decidable (_ ∧ ∀ other ∈ _, _ → _))

/-- A file holds the entry, and a check that removes the file writes it again. -/
def Safe (entry : WALEntry N V) : Prop :=
  ∃ name, s.files.Holds name entry ∧
    ∀ task ∈ s.checks, name ∈ task.threatened → entry ∈ task.holding

/-- All entries of the files and of the checks are known, and the live ones that were appended are
safe. -/
structure Inv (s : CompactingLog N V) : Prop where
  files : s.files.records ⊆ s.known
  checks : ∀ task ∈ s.checks, task.holding ⊆ s.known
  safe : ∀ entry ∈ s.appended, s.Live entry → s.Safe entry

section Invariant

variable {s : CompactingLog N V} {entry : WALEntry N V}

section

variable (h : s.Inv)

include h

/-- The invariant is kept if a live entry stays in its files and if the check that goes on, where it
threatens such a file, has the entry. -/
theorem Inv.setCheck {files : FileSystem String (WALEntry N V)}
    {new : CheckTask N V} (hfiles : files.records ⊆ s.known) (hholding : new.holding ⊆ s.known)
    (hnew : ∀ entry name, s.Live entry → s.files.Holds name entry →
      (∀ task ∈ s.checks, name ∈ task.threatened → entry ∈ task.holding) →
        files.Holds name entry ∧ (name ∈ new.threatened → entry ∈ new.holding)) :
    Inv { s with files := files, checks := s.checks.set k new } := by
  refine ⟨hfiles, forall_mem_set h.checks hholding, fun entry hentry hlive => ?_⟩
  obtain ⟨name, hholds, htasks⟩ := h.safe entry hentry hlive
  obtain ⟨hfile, htask⟩ := hnew entry name hlive hholds htasks
  exact ⟨name, hfile, forall_mem_set htasks htask⟩

theorem Inv.openFile (name : String) : (s.openFile name).Inv := by
  refine ⟨(s.files.records_openFile name).symm ▸ h.files, h.checks, fun entry hentry hlive => ?_⟩
  obtain ⟨file, hholds, htasks⟩ := h.safe entry hentry hlive
  exact ⟨file, hholds.openFile name, htasks⟩

variable {k : ℕ} {s' : CompactingLog N V}

/-- A check that threatens no more files and has what it had, or gives up. -/
theorem Inv.follows {old new : CheckTask N V} (htask : s.checks[k]? = some old)
    (hfollows : new.threatened ⊆ old.threatened ∧ new.holding = old.holding ∨
      new.threatened = [] ∧ new.holding = []) : (s.setCheck k new).Inv := by
  have hmem := mem_of_getElem? htask
  rcases hfollows with ⟨hsub, heq⟩ | ⟨hnone, hempty⟩
  · exact h.setCheck h.files (heq ▸ h.checks old hmem)
      fun e name _ hholds htasks => ⟨hholds, fun hname => heq ▸ htasks old hmem (hsub hname)⟩
  · refine h.setCheck h.files (hempty ▸ nil_subset _) fun e name _ hholds _ => ⟨hholds, ?_⟩
    rw [hnone]
    exact fun hname => nomatch hname

omit h in
theorem safe_write {i : ℕ} (h : s.Unthreatened i) (entry : WALEntry N V) :
    ∃ name, (s.files.write i entry).Holds name entry ∧
      ∀ task ∈ s.checks, name ∉ task.threatened := by
  obtain ⟨⟨name, i'⟩, hp, rfl, hno⟩ := h
  exact ⟨name, holds_write ((OrderedMap.mem_entries_iff _ _ _).mp hp) entry, hno⟩

theorem Inv.completeAppend (hfile : s.Unthreatened s.writerInode) :
    (s.completeAppend k entry).Inv := by
  refine ⟨fun e he => ?_, fun task ht e he => mem_append_left _ (h.checks task ht he),
    fun e he hlive => ?_⟩
  · rcases mem_records_write he with he | rfl
    · exact mem_append_left _ (h.files he)
    · exact mem_append_right _ mem_cons_self
  · have hbefore : s.Live e :=
      ⟨hlive.1, fun other hother => hlive.2 other (mem_append_left _ hother)⟩
    rcases mem_append.mp he with he | he
    · obtain ⟨name, hholds, htasks⟩ := h.safe e he hbefore
      exact ⟨name, hholds.write _ _, htasks⟩
    · obtain rfl := mem_singleton.mp he
      obtain ⟨name, hholds, hno⟩ := safe_write hfile e
      exact ⟨name, hholds, fun task ht hname => absurd hname (hno task ht)⟩

theorem Inv.writeOutput {inode : ℕ} {output : String} {left : List (WALEntry N V)}
    (htask : s.checks[k]? = some (.writing plan output inode (entry :: left)))
    (hfile : s.Unthreatened inode) :
    ((s.write inode entry).setCheck k (.writing plan output inode left)).Inv := by
  have hmem := mem_of_getElem? htask
  have hleft : entry :: left ⊆ s.known := h.checks _ hmem
  refine ⟨fun e he => ?_, forall_mem_set h.checks fun e he => hleft (mem_cons_of_mem _ he),
    fun e he hlive => ?_⟩
  · rcases mem_records_write he with he | rfl
    · exact h.files he
    · exact hleft mem_cons_self
  · by_cases heq : e = entry
    · subst heq
      obtain ⟨name, hholds, hno⟩ := safe_write hfile e
      exact ⟨name, hholds, forall_mem_set (fun task ht hname => absurd hname (hno task ht))
        fun hname => absurd hname (hno (.writing plan output inode (e :: left)) hmem)⟩
    · obtain ⟨name, hholds, htasks⟩ := h.safe e he hlive
      refine ⟨name, hholds.write _ _, forall_mem_set htasks fun hname => ?_⟩
      exact (mem_cons.mp (htasks _ hmem hname)).resolve_left heq

/-- **A check goes on.** -/
theorem Inv.advance {task : CheckTask N V}
    (htask : s.checks[k]? = some task) (hok : s.Sheltered (.advance k now))
    (hstep : s.advance k now task = some s') : s'.Inv := by
  have hmem := mem_of_getElem? htask
  cases task with
  | listing | loading | accessing | ended => cases hstep
  | stating scan =>
    have hentries : scan.entries ⊆ s.known := h.checks _ hmem
    simp only [CompactingLog.advance] at hstep
    split at hstep <;> cases hstep
    · next hleft =>
      -- everything has been read, so the check threatens the same files as before
      have hdone : scan.done = scan.plan.inputSegments := by
        rw [← scan.split, hleft, append_nil]
      have hopen := h.openFile (scan.plan.outputSegmentId now ++ ".wal")
      refine hopen.setCheck hopen.files (Subset.trans (keptEntries_subset _) hentries)
        fun e name hlive hholds htasks => ⟨hholds, fun hname => ?_⟩
      have hread : e ∈ scan.entries := htasks _ hmem (by rwa [CheckTask.threatened, hdone])
      rcases latestByEntity_spec e.data.entityId scan.entries with
        ⟨latest, hget, hlatest⟩ | ⟨-, hno⟩
      · have hle := hlatest.latest e hread rfl
        obtain rfl := (hlive.2 latest (hentries hlatest.mem) hlatest.about).resolve_right hle.not_gt
        have hvalue : latest ∈ (latestByEntity scan.entries).values :=
          mem_map.mpr ⟨_, (OrderedMap.mem_entries_iff _ _ _).mpr hget, rfl⟩
        exact mem_sortByLSN.mpr (mem_filter.mpr ⟨hvalue, decide_eq_true hlive.1⟩)
      · exact absurd rfl (hno e hread)
    · refine h.follows htask ?_
      split_ifs
      · exact .inl ⟨Subset.refl _, rfl⟩
      · exact .inr ⟨rfl, rfl⟩
  | opening =>
    simp only [CompactingLog.advance] at hstep
    split at hstep <;> cases hstep
    exact (h.openFile _).follows htask (.inl ⟨Subset.refl _, rfl⟩)
  | reading =>
    simp only [CompactingLog.advance] at hstep
    split at hstep <;> cases hstep
    next seg rest hleft =>
    have hfile : WALFile.readEntries ((s.files.readFile seg.filePath.name).getD []) none none ⊆
        s.known := fun e he =>
      h.files (s.files.readFile_subset_records _ (WALFile.mem_readEntries.mp he))
    refine h.setCheck h.files (append_subset.mpr ⟨h.checks _ hmem, hfile⟩)
      fun e name _ hholds htasks => ⟨hholds, fun hname => ?_⟩
    rw [CheckTask.threatened, InputScan.next, map_append] at hname
    rcases mem_append.mp hname with hname | hname
    · exact mem_append_left _ (htasks _ hmem hname)
    · obtain rfl := mem_singleton.mp hname
      exact mem_append_right _ (WALFile.mem_readEntries.mpr hholds.mem_readFile)
  | writing _ _ _ left =>
    cases left with
    | nil =>
      cases hstep
      exact h.follows htask (.inl ⟨Subset.refl _, rfl⟩)
    | cons =>
      cases hstep
      exact h.writeOutput htask (hok _ (by simp only [writeTarget, htask]; rfl))
  | syncing =>
    cases hstep
    refine h.follows htask ?_
    split_ifs
    · exact .inl ⟨Subset.refl _, rfl⟩
    · exact .inr ⟨rfl, rfl⟩
  | unlinking left =>
    cases left with
    | nil =>
      cases hstep
      exact h.follows htask (.inr ⟨rfl, rfl⟩)
    | cons seg left =>
      cases hstep
      refine h.setCheck h.files (nil_subset _) fun e name _ hholds htasks => ?_
      -- a check that removes files has written everything, so it does not threaten this entry
      have hname : name ∉ (CheckTask.unlinking (seg :: left) : CheckTask N V).threatened :=
        fun hname => not_mem_nil (htasks _ hmem hname)
      refine ⟨hholds.unlink fun heq => hname (heq ▸ mem_cons_self), fun hname' => ?_⟩
      exact absurd (mem_cons_of_mem _ hname') hname

/-- **One step.** -/
theorem Inv.step {config : CoordinatorConfig N V}
    {ev : CompactingEvent N V} (hok : s.Sheltered ev) (hstep : s.step config ev = some s') :
    s'.Inv := by
  cases ev with
  | append =>
    cases hstep
    exact ⟨h.files, h.checks, h.safe⟩
  | sized =>
    rw [CompactingLog.step] at hstep
    split at hstep <;> cases hstep
    exact ⟨h.files, h.checks, h.safe⟩
  | written k fault =>
    rw [CompactingLog.step] at hstep
    split at hstep
    · next entry htask =>
      cases fault with
      | some =>
        cases hstep
        exact ⟨h.files, h.checks, h.safe⟩
      | none =>
        cases hstep
        exact h.completeAppend (hok _ (by simp only [writeTarget, htask]; rfl))
    · cases hstep
  | triggerCompactionCheck =>
    cases hstep
    refine ⟨h.files, forall_mem_append.mpr ⟨h.checks,
      forall_mem_singleton.mpr (nil_subset _)⟩, fun e he hlive => ?_⟩
    obtain ⟨name, hholds, htasks⟩ := h.safe e he hlive
    exact ⟨name, hholds, forall_mem_append.mpr ⟨htasks,
      forall_mem_singleton.mpr fun hname => nomatch hname⟩⟩
  | listed =>
    rw [CompactingLog.step] at hstep
    split at hstep <;> cases hstep
    next htask => exact h.follows htask (.inr ⟨rfl, rfl⟩)
  | segmentOpened k name | segmentRead k name stats =>
    rw [CompactingLog.step] at hstep
    split at hstep
    · next htask =>
      split_ifs at hstep
      cases hstep
      first
        | exact h.follows htask (.inr ⟨rfl, rfl⟩)
        | exact (h.openFile name).follows htask (.inr ⟨rfl, rfl⟩)
    · cases hstep
  | planned k plan =>
    rw [CompactingLog.step] at hstep
    split at hstep
    · next htask =>
      cases plan with
      | none =>
        cases hstep
        exact h.follows htask (.inr ⟨rfl, rfl⟩)
      | some =>
        dsimp only at hstep
        split_ifs at hstep
        cases hstep
        exact h.follows htask (.inr ⟨rfl, rfl⟩)
    · cases hstep
  | accessed =>
    rw [CompactingLog.step] at hstep
    split at hstep <;> cases hstep
    next htask =>
    refine h.follows htask (.inr ?_)
    split_ifs <;> exact ⟨rfl, rfl⟩
  | advance =>
    obtain ⟨task, htask, hadvance⟩ := Option.bind_eq_some_iff.mp hstep
    exact h.advance htask hok hadvance
  | failed =>
    rw [CompactingLog.step] at hstep
    split at hstep <;> cases hstep
    · next htask => exact h.follows htask (.inl ⟨map_subset _ (subset_cons_self _ _), rfl⟩)
    · next htask => exact h.follows htask (.inr ⟨rfl, rfl⟩)

end

end Invariant

/-- **Compaction beside appends.** A writer is initialised on a file of a directory. After every
interleaving of appends and compaction checks, with any plans, in which every entry is written to a
file that no check threatens, every entry whose append has succeeded is in a file of the directory
if it is the latest one of its entity and no `DELETE`. -/
theorem appended_present (config : CoordinatorConfig N V)
    (files : FileSystem String (WALEntry N V)) (writerName : String)
    (es : List (CompactingEvent N V)) (s : CompactingLog N V)
    (hok : AllSteps (step config) Sheltered (opened files writerName) es)
    (hrun : exec (step config) (opened files writerName) es = some s) :
    ∀ entry ∈ s.appended, s.Live entry → ∃ name, s.files.Holds name entry := by
  have hfirst : (opened files writerName).Inv :=
    ⟨Subset.refl _, fun _ h => (nomatch h), fun _ h => (nomatch h)⟩
  have hlast : s.Inv := exec_invariant (fun _ _ _ h hok hstep => h.step hok hstep) hfirst hok hrun
  intro entry hentry hlive
  obtain ⟨name, hholds, -⟩ := hlast.safe entry hentry hlive
  exact ⟨name, hholds⟩

def sampleFiles : FileSystem String (WALEntry String ℕ) :=
  ((FileSystem.empty.openFile "entity.wal").1.write 0 (sampleEntry 1 "a" .create 1)).write 0
    (sampleEntry 2 "a" .delete 1)

def sampleConfig : CoordinatorConfig String ℕ where
  maxFileSize := 1000
  calculateChecksum _ := ""
  lineLength _ := 10
  walPath := "/wal"

def activeSegment : WALSegment where
  segmentId := "entity"
  filePath := ⟨"/wal", "entity.wal"⟩
  startLSN := 1
  endLSN := 2
  createdAt := 0
  sizeBytes := 20
  entryCount := 2
  tombstoneCount := 1
  isImmutable := true

def activePlan : CompactionPlan :=
  planFor "vacuum-0-r" "vacuumed-0" [activeSegment] 10 50 (20 * 1024 * 1024) .high

def checkUntilPlanned : List (CompactingEvent String ℕ) :=
  [.triggerCompactionCheck, .listed 0, .segmentOpened 0 "entity.wal",
    .segmentRead 0 "entity.wal" (some (20, 0)), .planned 0 (some activePlan), .accessed 0 true]

def goOn (n : ℕ) : List (CompactingEvent String ℕ) := List.replicate n (.advance 0 0)

def appendB : List (CompactingEvent String ℕ) :=
  [.append (sampleEntry 3 "b" .create 1).data 3, .sized 0, .written 0 none]

def appendBeforeRead : List (CompactingEvent String ℕ) := checkUntilPlanned ++ appendB ++ goOn 9

theorem appended_present_appendBeforeRead :
    ∃ s, exec (step sampleConfig) (opened sampleFiles "entity.wal") appendBeforeRead = some s ∧
      s.appended = [sampleEntry 3 "b" .create 1] ∧
      ∀ entry ∈ s.appended, s.Live entry → ∃ name, s.files.Holds name entry :=
  ⟨_, rfl, rfl,
    appended_present sampleConfig sampleFiles "entity.wal" appendBeforeRead _ (by decide) rfl⟩

def appendAfterRead : List (CompactingEvent String ℕ) :=
  checkUntilPlanned ++ goOn 3 ++ appendB ++ goOn 5

/-- An entry that is appended after a check has read the log is gone when the check has removed it.
The plan is that of the vacuum strategy. -/
theorem append_lost_during_check :
    (CompactionStrategy.vacuum {}).planCompaction [activeSegment] 0 "r" = some activePlan ∧
      ∃ s, exec (step sampleConfig) (opened sampleFiles "entity.wal") appendAfterRead = some s ∧
        s.appended = [sampleEntry 3 "b" .create 1] ∧ s.Live (sampleEntry 3 "b" .create 1) ∧
        ¬ ∃ name, s.files.Holds name (sampleEntry 3 "b" .create 1) :=
  ⟨by decide +kernel, _, rfl, rfl, by decide, not_holds_of_forall (by decide)⟩

end CompactingLog

end DistributedCore.Compaction
