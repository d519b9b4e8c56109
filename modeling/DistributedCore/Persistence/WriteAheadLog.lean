import DistributedCore.Entity.Record
import Mathlib.Algebra.GroupWithZero.Nat
import Mathlib.Order.Lattice.Nat

/-!
# The write-ahead log

A log file is the list of the entries in it, oldest first. The writer numbers the entries: it
counts up the log sequence number (LSN) before it knows whether the append will succeed, so a
failed append leaves a gap. It takes its counter from the file when it is opened, and again
after a truncation that removed the last entry. A reader sorts the entries by LSN and drops
those whose checksum does not fit.

Source: `src/persistence/wal/WALWriter.ts`, `src/persistence/wal/WALFile.ts`,
`src/persistence/wal/WALReader.ts`, `src/persistence/wal/WALCoordinator.ts`.
-/

namespace DistributedCore.Persistence

open Entity List

structure WALEntry (N V : Type) where
  logSequenceNumber : ℕ
  timestamp : ℕ
  data : EntityUpdate N V
  checksum : String
  deriving DecidableEq

/-- The configuration, with the checksum and the length of a line as parameters. -/
structure WALConfig (N V : Type) where
  maxFileSize : ℕ
  calculateChecksum : EntityUpdate N V → String
  lineLength : WALEntry N V → ℕ

variable {N V : Type}

abbrev WALFile (N V : Type) := List (WALEntry N V)

def validateEntry (config : WALConfig N V) (entry : WALEntry N V) : Bool :=
  entry.checksum = config.calculateChecksum entry.data

/-! ### The file and the reader -/

namespace WALFile

def readEntries (file : WALFile N V) (startLSN endLSN : Option ℕ) : List (WALEntry N V) :=
  (file.filter fun entry => startLSN.all (· ≤ entry.logSequenceNumber) &&
    endLSN.all (entry.logSequenceNumber ≤ ·)).insertionSort
      fun a b => a.logSequenceNumber ≤ b.logSequenceNumber

def truncate (file : WALFile N V) (beforeLSN : ℕ) : WALFile N V :=
  (file.readEntries none none).filter fun entry => entry.logSequenceNumber ≥ beforeLSN

def getSize (config : WALConfig N V) (file : WALFile N V) : ℕ := (file.map config.lineLength).sum

def getLastLSN (file : WALFile N V) : ℕ :=
  ((file.readEntries none none).map WALEntry.logSequenceNumber).foldr max 0

def readAll (config : WALConfig N V) (file : WALFile N V) : List (WALEntry N V) :=
  (file.readEntries none none).filter (validateEntry config)

end WALFile

/-! ### The writer -/

inductive WALError
  | invalidChecksum
  | sizeLimitExceeded (currentSize maxFileSize : ℕ)
  | notOpen
  | writeFailed (reason : String)
  deriving DecidableEq

/-- The counter, and whether the file is open. -/
structure WALWriter where
  currentLSN : ℕ
  isOpen : Bool
  deriving DecidableEq

namespace WALWriter

def initialized (file : WALFile N V) : WALWriter :=
  if file.getLastLSN > 0 then ⟨file.getLastLSN, true⟩ else ⟨0, true⟩

def close (w : WALWriter) : WALWriter := { w with isOpen := false }

variable (config : WALConfig N V)

def createEntry (w : WALWriter) (update : EntityUpdate N V) (now : ℕ) : WALWriter × WALEntry N V :=
  let lsn := w.currentLSN + 1
  ({ w with currentLSN := lsn }, ⟨lsn, now, update, config.calculateChecksum update⟩)

def append (w : WALWriter) (file : WALFile N V)
    (update : EntityUpdate N V) (now : ℕ) (fault : Option String) :
    WALWriter × Except WALError (WALFile N V × ℕ) :=
  let (w, entry) := w.createEntry config update now
  if !validateEntry config entry then (w, .error .invalidChecksum)
  else
    let currentSize := file.getSize config
    if currentSize > config.maxFileSize then
      (w, .error (.sizeLimitExceeded currentSize config.maxFileSize))
    else if !w.isOpen then (w, .error .notOpen)
    else
      match fault with
      | some reason => (w, .error (.writeFailed reason))
      | none => (w, .ok (file ++ [entry], entry.logSequenceNumber))

/-- The append after its entry is made: the checks, then the write. -/
def finishAppend (w : WALWriter) (file : WALFile N V)
    (entry : WALEntry N V) (fault : Option String) : Except WALError (WALFile N V × ℕ) :=
  if !validateEntry config entry then .error .invalidChecksum
  else
    let currentSize := file.getSize config
    if currentSize > config.maxFileSize then
      .error (.sizeLimitExceeded currentSize config.maxFileSize)
    else if !w.isOpen then .error .notOpen
    else
      match fault with
      | some reason => .error (.writeFailed reason)
      | none => .ok (file ++ [entry], entry.logSequenceNumber)

/-- The entries before `lsn` are removed, and the counter returns to the last entry that is
left if it was ahead of it. The rewritten file is opened again. -/
def truncateBefore (w : WALWriter) (file : WALFile N V) (lsn : ℕ) : WALWriter × WALFile N V :=
  let file := file.truncate lsn
  (if file.getLastLSN < w.currentLSN then ⟨file.getLastLSN, true⟩ else ⟨w.currentLSN, true⟩, file)

end WALWriter

/-! ### Files in increasing order -/

/-- Valid entries with increasing numbers. -/
structure WALFile.Ordered (config : WALConfig N V) (file : WALFile N V) : Prop where
  valid : ∀ entry ∈ file, validateEntry config entry = true
  increasing : file.Pairwise fun a b => a.logSequenceNumber < b.logSequenceNumber

variable {config : WALConfig N V} {file : WALFile N V}

theorem validateEntry_createEntry (config : WALConfig N V) (w : WALWriter)
    (update : EntityUpdate N V) (now : ℕ) :
    validateEntry config (w.createEntry config update now).2 = true := by
  simp [validateEntry, WALWriter.createEntry]

namespace WALFile

theorem ordered_nil : WALFile.Ordered config [] := ⟨fun _ h => (nomatch h), .nil⟩

variable {entry : WALEntry N V}

theorem mem_readEntries : entry ∈ file.readEntries none none ↔ entry ∈ file := by simp [readEntries]

section

variable (h : file.Ordered config)

include h

theorem Ordered.readEntries_eq : file.readEntries none none = file := by
  have hall : file.filter (fun entry => (none : Option ℕ).all (· ≤ entry.logSequenceNumber) &&
      (none : Option ℕ).all (entry.logSequenceNumber ≤ ·)) = file := by simp
  rw [readEntries, hall]
  exact (h.increasing.imp Nat.le_of_lt).insertionSort_eq

theorem Ordered.readAll_eq : file.readAll config = file := by
  rw [readAll, h.readEntries_eq]
  exact filter_eq_self.mpr h.valid

theorem Ordered.truncate_eq (lsn : ℕ) :
    file.truncate lsn = file.filter fun entry => entry.logSequenceNumber ≥ lsn := by
  rw [truncate, h.readEntries_eq]

theorem Ordered.filter (q : WALEntry N V → Bool) : WALFile.Ordered config (file.filter q) :=
  ⟨fun entry he => h.valid entry (mem_of_mem_filter he), h.increasing.filter q⟩

end

theorem Ordered.filter_append_filter (q : WALEntry N V → Bool)
    (hq : ∀ a b : WALEntry N V, a.logSequenceNumber < b.logSequenceNumber → q a = true →
      q b = true) :
    {file : WALFile N V} → file.Ordered config →
      file.filter (fun entry => !q entry) ++ file.filter q = file
  | [], _ => rfl
  | entry :: file, h => by
    obtain ⟨hfirst, hrest⟩ := pairwise_cons.mp h.increasing
    have ih := filter_append_filter q hq ⟨fun e he => h.valid e (mem_cons_of_mem _ he), hrest⟩
    by_cases hentry : q entry = true
    · have hall : ∀ later ∈ file, q later = true := fun later hlater =>
        hq entry later (hfirst later hlater) hentry
      have hnone : file.filter (fun entry => !q entry) = [] :=
        filter_eq_nil_iff.mpr fun later hlater => by simp [hall later hlater]
      rw [hnone, nil_append] at ih
      rw [filter_cons_of_neg (by simp [hentry]), hnone, filter_cons_of_pos hentry, ih, nil_append]
    · rw [filter_cons_of_pos (by simp [hentry]), filter_cons_of_neg hentry, cons_append, ih]

theorem Ordered.concat (h : file.Ordered config) (hvalid : validateEntry config entry = true)
    (hlsn : ∀ old ∈ file, old.logSequenceNumber < entry.logSequenceNumber) :
    WALFile.Ordered config (file ++ [entry]) := by
  refine ⟨fun e he => ?_, ?_⟩
  · rcases mem_append.mp he with he | he
    · exact h.valid e he
    · exact mem_singleton.mp he ▸ hvalid
  · refine pairwise_append.mpr ⟨h.increasing, pairwise_singleton _ _, ?_⟩
    intro old hold e he
    exact mem_singleton.mp he ▸ hlsn old hold

theorem le_getLastLSN (h : entry ∈ file) : entry.logSequenceNumber ≤ file.getLastLSN := by
  have hmem : entry.logSequenceNumber ∈
      (file.readEntries none none).map WALEntry.logSequenceNumber :=
    mem_map_of_mem (mem_readEntries.mpr h)
  rw [getLastLSN]
  generalize (file.readEntries none none).map WALEntry.logSequenceNumber = lsns at hmem
  induction lsns with
  | nil => cases hmem
  | cons _ _ ih =>
    rcases mem_cons.mp hmem with rfl | hmem
    · exact le_max_left _ _
    · exact (ih hmem).trans (le_max_right _ _)

end WALFile

namespace WALWriter

theorem initialized_currentLSN (file : WALFile N V) :
    (initialized file).currentLSN = file.getLastLSN := by
  rw [initialized]
  split_ifs with h
  · rfl
  · exact (Nat.eq_zero_of_not_pos h).symm

theorem truncateBefore_currentLSN (w : WALWriter) (file : WALFile N V) (lsn : ℕ) :
    (w.truncateBefore file lsn).1.currentLSN = min (file.truncate lsn).getLastLSN w.currentLSN := by
  rw [truncateBefore]
  split_ifs with h
  · exact (min_eq_left h.le).symm
  · exact (min_eq_right (not_lt.mp h)).symm

theorem append_eq (config : WALConfig N V) (w : WALWriter) (file : WALFile N V)
    (update : EntityUpdate N V) (now : ℕ) (fault : Option String) :
    w.append config file update now fault = ({ w with currentLSN := w.currentLSN + 1 },
        if file.getSize config > config.maxFileSize then
          .error (.sizeLimitExceeded (file.getSize config) config.maxFileSize)
        else if !w.isOpen then .error .notOpen
        else
          match fault with
          | some reason => .error (.writeFailed reason)
          | none => .ok (file ++ [⟨w.currentLSN + 1, now, update, config.calculateChecksum update⟩],
            w.currentLSN + 1)) := by
  have hvalid := validateEntry_createEntry config w update now
  have hopen : (w.createEntry config update now).1.isOpen = w.isOpen := rfl
  simp only [append]
  rw [if_neg (by rw [hvalid]; decide), hopen]
  split_ifs
  · rfl
  · rfl
  · cases fault <;> rfl

/-- The two parts of an append, for callers that wait in between. -/
theorem append_eq_finishAppend (config : WALConfig N V) (w : WALWriter) (file : WALFile N V)
    (update : EntityUpdate N V) (now : ℕ) (fault : Option String) :
    w.append config file update now fault = ((w.createEntry config update now).1,
      (w.createEntry config update now).1.finishAppend config file
        (w.createEntry config update now).2 fault) := by
  simp only [append, finishAppend]
  split_ifs
  · rfl
  · rfl
  · rfl
  · cases fault <;> rfl

/-- **What an append does.** The counter moves to the next LSN, and the append fails or adds one
valid entry with that LSN. -/
theorem append_spec (config : WALConfig N V) (w : WALWriter) (file : WALFile N V)
    (update : EntityUpdate N V) (now : ℕ) (fault : Option String) :
    (w.append config file update now fault).1 = { w with currentLSN := w.currentLSN + 1 } ∧
      ((∃ err, (w.append config file update now fault).2 = .error err) ∨
        ∃ entry : WALEntry N V, entry.logSequenceNumber = w.currentLSN + 1 ∧ entry.data = update ∧
          validateEntry config entry = true ∧
          (w.append config file update now fault).2 = .ok (file ++ [entry], w.currentLSN + 1)) := by
  rw [append_eq]
  refine ⟨rfl, ?_⟩
  split_ifs
  · exact .inl ⟨_, rfl⟩
  · exact .inl ⟨_, rfl⟩
  · cases fault with
    | some => exact .inl ⟨_, rfl⟩
    | none => exact .inr ⟨_, rfl, rfl, validateEntry_createEntry config w update now, rfl⟩

end WALWriter

end DistributedCore.Persistence
