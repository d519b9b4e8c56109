import DistributedCore.Library.Runs
import DistributedCore.Library.Tasks
import DistributedCore.Persistence.WriteAheadLog

/-!
# Concurrent appends and the streaming reader

An append takes its log sequence number (LSN) when it is called, and waits twice before its entry
is in the file: for the size of the file, and for the write. Appends that run at the same time may
therefore reach the file in another order than that of their numbers.

Source: `src/persistence/wal/WALReader.ts`, `src/persistence/wal/WALWriter.ts`,
`src/persistence/wal/WALFile.ts`.
-/

namespace DistributedCore.Persistence

open Entity List

variable {N V : Type}

/-! ### The streaming reader -/

namespace WALFile

def inRange (startLSN endLSN : Option ℕ) (entry : WALEntry N V) : Bool :=
  startLSN.all (· ≤ entry.logSequenceNumber) && endLSN.all (entry.logSequenceNumber ≤ ·)

def streamEntries (config : WALConfig N V) (file : WALFile N V) (startLSN endLSN : Option ℕ) :
    List (WALEntry N V) :=
  (file.filter (inRange startLSN endLSN)).filter (validateEntry config)

/-- The readers give the same entries, in increasing order. -/
def ReadersAgree (config : WALConfig N V) (file : WALFile N V) : Prop :=
  ∀ startLSN endLSN, file.streamEntries config startLSN endLSN =
        (file.readAll config).filter (inRange startLSN endLSN) ∧
      (file.streamEntries config startLSN endLSN).Pairwise fun a b =>
        a.logSequenceNumber < b.logSequenceNumber

theorem readers_agree_iff {config : WALConfig N V} {file : WALFile N V}
    (hvalid : ∀ entry ∈ file, validateEntry config entry = true) :
    file.ReadersAgree config ↔
      file.Pairwise fun a b => a.logSequenceNumber < b.logSequenceNumber := by
  have hstream : ∀ startLSN endLSN,
      file.streamEntries config startLSN endLSN = file.filter (inRange startLSN endLSN) :=
    fun startLSN endLSN => filter_eq_self.mpr fun entry he => hvalid entry (mem_of_mem_filter he)
  constructor
  · intro hagree
    have hincreasing := (hagree none none).2
    have hall : file.filter (inRange none none) = file := filter_eq_self.mpr fun _ _ => rfl
    rwa [hstream, hall] at hincreasing
  · intro hincreasing startLSN endLSN
    have hordered : file.Ordered config := ⟨hvalid, hincreasing⟩
    rw [hstream, hordered.readAll_eq]
    exact ⟨rfl, hincreasing.filter _⟩

end WALFile

/-! ### Appends under way -/

/-- The waits of an append. -/
inductive AppendTask (N V : Type)
  | sizing (entry : WALEntry N V)
  | writing (entry : WALEntry N V)
  | ended (result : Except WALError ℕ)

def AppendTask.entry : AppendTask N V → Option (WALEntry N V)
  | .sizing entry => some entry
  | .writing entry => some entry
  | .ended _ => none

/-- The file, the writer and the appends that wait. -/
structure ConcurrentLog (N V : Type) where
  file : WALFile N V
  writer : WALWriter
  tasks : List (AppendTask N V)

/-- The calls, and the operations of the file system that end. -/
inductive ConcurrentEvent (N V : Type)
  | append (update : EntityUpdate N V) (now : ℕ)
  | sized (k : ℕ)
  | written (k : ℕ) (fault : Option String)

namespace ConcurrentLog

def opened (file : WALFile N V) : ConcurrentLog N V := ⟨file, .initialized file, []⟩

variable (config : WALConfig N V) (s : ConcurrentLog N V)

def callAppend (update : EntityUpdate N V) (now : ℕ) : ConcurrentLog N V :=
  let (w, entry) := s.writer.createEntry config update now
  let task : AppendTask N V :=
    if !validateEntry config entry then .ended (.error .invalidChecksum) else .sizing entry
  { s with writer := w, tasks := s.tasks ++ [task] }

def afterSize (entry : WALEntry N V) : AppendTask N V :=
  let currentSize := s.file.getSize config
  if currentSize > config.maxFileSize then
    .ended (.error (.sizeLimitExceeded currentSize config.maxFileSize))
  else if !s.writer.isOpen then .ended (.error .notOpen)
  else .writing entry

def step : ConcurrentEvent N V → Option (ConcurrentLog N V)
  | .append update now => some (s.callAppend config update now)
  | .sized k =>
    match s.tasks[k]? with
    | some (.sizing entry) => some { s with tasks := s.tasks.set k (s.afterSize config entry) }
    | _ => none
  | .written k fault =>
    match s.tasks[k]? with
    | some (.writing entry) =>
      match fault with
      | some reason =>
        some { s with tasks := s.tasks.set k (.ended (.error (.writeFailed reason))) }
      | none =>
        some
          { s with
            file := s.file ++ [entry]
            tasks := s.tasks.set k (.ended (.ok entry.logSequenceNumber)) }
    | _ => none

inductive Step (config : WALConfig N V) (s : ConcurrentLog N V) :
    ConcurrentEvent N V → ConcurrentLog N V → Prop
  | called (update : EntityUpdate N V) (now : ℕ) (entry : WALEntry N V)
      (valid : validateEntry config entry = true) :
      Step config s (.append update now)
        { s with
          writer := { s.writer with currentLSN := s.writer.currentLSN + 1 }
          tasks := s.tasks ++ [.sizing entry] }
  | sized (k : ℕ) (entry : WALEntry N V) (task : s.tasks[k]? = some (.sizing entry)) :
      Step config s (.sized k) { s with tasks := s.tasks.set k (s.afterSize config entry) }
  | refused (k : ℕ) (reason : String) (entry : WALEntry N V)
      (task : s.tasks[k]? = some (.writing entry)) :
      Step config s (.written k (some reason))
        { s with tasks := s.tasks.set k (.ended (.error (.writeFailed reason))) }
  | written (k : ℕ) (entry : WALEntry N V) (task : s.tasks[k]? = some (.writing entry)) :
      Step config s (.written k none)
        { s with
          file := s.file ++ [entry]
          tasks := s.tasks.set k (.ended (.ok entry.logSequenceNumber)) }

variable {config s} {s' : ConcurrentLog N V} {ev : ConcurrentEvent N V}

/-- **What a step can do.** -/
theorem step_cases (h : s.step config ev = some s') : s.Step config ev s' := by
  cases ev with
  | append update now =>
    have hvalid := validateEntry_createEntry config s.writer update now
    simp only [step, callAppend, hvalid] at h
    cases h
    exact .called update now _ hvalid
  | sized k =>
    rw [step] at h
    split at h
    · next entry htask =>
      cases h
      exact .sized k entry htask
    · cases h
  | written k fault =>
    rw [step] at h
    split at h
    · next entry htask =>
      cases fault with
      | some reason =>
        cases h
        exact .refused k reason entry htask
      | none =>
        cases h
        exact .written k entry htask
    · cases h

/-! ### Valid entries -/

/-- All checksums are right. -/
structure Valid (config : WALConfig N V) (s : ConcurrentLog N V) : Prop where
  file : ∀ entry ∈ s.file, validateEntry config entry = true
  tasks : ∀ task ∈ s.tasks, ∀ entry ∈ task.entry, validateEntry config entry = true

theorem entry_afterSize {entry e : WALEntry N V}
    (h : e ∈ (s.afterSize config entry).entry) : e = entry := by
  simp only [afterSize] at h
  split_ifs at h
  · exact nomatch h
  · exact nomatch h
  · exact (Option.some.inj h).symm

theorem Valid.setTask (h : s.Valid config) {k : ℕ}
    {task : AppendTask N V} (htask : ∀ entry ∈ task.entry, validateEntry config entry = true) :
    Valid config { s with tasks := s.tasks.set k task } :=
  ⟨h.file, forall_mem_set h.tasks htask⟩

theorem Valid.step (h : s.Valid config) (hstep : s.step config ev = some s') : s'.Valid config := by
  cases step_cases hstep with
  | called _ _ _ hvalid =>
    exact ⟨h.file, forall_mem_append.mpr ⟨h.tasks,
      forall_mem_singleton.mpr fun e he => Option.some.inj he ▸ hvalid⟩⟩
  | sized k entry htask =>
    have hentry := h.tasks _ (mem_of_getElem? htask) entry rfl
    exact h.setTask fun e he => entry_afterSize he ▸ hentry
  | refused => exact h.setTask fun _ he => nomatch he
  | written k entry htask =>
    have hentry := h.tasks _ (mem_of_getElem? htask) entry rfl
    have hended : Valid config { s with
        tasks := s.tasks.set k (.ended (.ok entry.logSequenceNumber)) } :=
      h.setTask fun _ he => nomatch he
    refine ⟨fun e he => ?_, hended.tasks⟩
    rcases mem_append.mp he with he | he
    · exact h.file e he
    · exact mem_singleton.mp he ▸ hentry

/-! ### The order of the writes -/

variable (config s)

/-- The appends write in the order of their numbers. -/
def InOrder : ConcurrentEvent N V → Prop
  | .written k none =>
    match s.tasks[k]? with
    | some (.writing entry) => ∀ e ∈ s.file, e.logSequenceNumber < entry.logSequenceNumber
    | _ => True
  | _ => True

variable {config s} in
theorem increasing_step_iff (hstep : s.step config ev = some s') :
    (s'.file.Pairwise fun a b => a.logSequenceNumber < b.logSequenceNumber) ↔
      (s.file.Pairwise fun a b => a.logSequenceNumber < b.logSequenceNumber) ∧ s.InOrder ev := by
  cases step_cases hstep with
  | called | sized | refused => exact (and_iff_left trivial).symm
  | written _ _ htask =>
    simp [InOrder, htask, pairwise_append]

/-- **Streaming and collecting.** A writer is initialised on a file of valid entries in increasing
order, and appends to it run with their waits ending in any order. Afterwards the streaming reader
returns, for all bounds, what the collecting reader returns, in increasing order, if and only if no
entry was written behind one with a greater LSN. -/
theorem readersAgree_iff_inOrder (file : WALFile N V)
    (hfile : file.Ordered config) (es : List (ConcurrentEvent N V)) (s : ConcurrentLog N V)
    (hrun : exec (step config) (opened file) es = some s) :
    s.file.ReadersAgree config ↔ AllSteps (step config) InOrder (opened file) es := by
  have hvalid : (opened file).Valid config := ⟨hfile.valid, fun _ h => nomatch h⟩
  have hfinal := exec_invariant (fun _ _ _ h _ hstep => Valid.step h hstep) hvalid
    (allSteps_true _ _ es) hrun
  rw [WALFile.readers_agree_iff hfinal.file, exec_iff_allSteps
      (fun _ _ _ _ hstep => ⟨trivial, increasing_step_iff hstep⟩) trivial hrun,
    and_iff_right]
  exact hfile.increasing

def callCreate : ConcurrentEvent String ℕ :=
  .append { entityId := "a", version := 1, timestamp := 0, operation := .create } 0

def roomyConfig : WALConfig String ℕ := ⟨1000, fun _ => "", fun _ => 1⟩

def overtakingRun : List (ConcurrentEvent String ℕ) :=
  [callCreate, callCreate, .sized 1, .sized 0, .written 1 none, .written 0 none]

theorem readersAgree_iff_inOrder_overtakingRun :
    ∃ s, exec (step roomyConfig) (opened []) overtakingRun = some s ∧
      (s.file.ReadersAgree roomyConfig ↔
        AllSteps (step roomyConfig) InOrder (opened []) overtakingRun) :=
  ⟨_, rfl, readersAgree_iff_inOrder roomyConfig [] WALFile.ordered_nil overtakingRun _ rfl⟩

/-- The streaming reader returns the entries 2 and 1, the collecting reader the entries 1 and 2. -/
theorem readers_disagree_overtakingRun :
    ∃ s, exec (step roomyConfig) (opened []) overtakingRun = some s ∧
      (s.file.streamEntries roomyConfig none none).map WALEntry.logSequenceNumber = [2, 1] ∧
      (s.file.readAll roomyConfig).map WALEntry.logSequenceNumber = [1, 2] ∧
      ¬s.file.ReadersAgree roomyConfig :=
  ⟨_, rfl, by decide, by decide, fun h => absurd (h none none).1 (by decide)⟩

end ConcurrentLog

end DistributedCore.Persistence
