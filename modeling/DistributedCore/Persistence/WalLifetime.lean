import DistributedCore.Library.Runs
import DistributedCore.Persistence.WriteAheadLog

/-!
# The lifetime of a log

A log outlives its writers: it is appended to, truncated, closed, opened again by the same writer
and opened by new ones, in any order. The writer keeps the last log sequence number (LSN) in
memory, and takes it from the file again whenever it is initialised and after every truncation.
Only the entries in the file remember which numbers were given out, so a truncation that removes
the last entry lets the writer start again at the first number.

Source: `src/persistence/wal/WALWriter.ts`, `src/persistence/wal/WALCoordinator.ts`,
`src/persistence/wal/WALFile.ts`.
-/

namespace DistributedCore.Persistence

open Entity List WALFile Nat

variable {N V : Type} {lsn : ℕ} {entry : WALEntry N V}

def WALWriter.initializeOn (w : WALWriter) (file : WALFile N V) : WALWriter :=
  if file.getLastLSN > 0 then ⟨file.getLastLSN, true⟩ else ⟨w.currentLSN, true⟩

/-- The file, the writer and the entries that `append` returned. -/
structure WALLog (N V : Type) where
  file : WALFile N V
  writer : WALWriter
  appended : List (WALEntry N V)

/-- The calls on the log, and the restarts. -/
inductive WALLogEvent (N V : Type)
  | append (update : EntityUpdate N V) (now : ℕ) (fault : Option String)
  | truncateBefore (lsn : ℕ)
  | close
  | initializeAgain
  | restart

namespace WALLog

def returnedLSNs (s : WALLog N V) : List ℕ := s.appended.map WALEntry.logSequenceNumber

def fresh : WALLog N V := ⟨[], .initialized ([] : WALFile N V), []⟩

def step (config : WALConfig N V) (s : WALLog N V) : WALLogEvent N V → Option (WALLog N V)
  | .append update now fault =>
    match s.writer.append config s.file update now fault with
    | (w, .error _) => some { s with writer := w }
    | (w, .ok (file, _)) =>
      some ⟨file, w, s.appended ++ file.drop s.file.length⟩
  | .truncateBefore lsn =>
    let (w, file) := s.writer.truncateBefore s.file lsn
    some { s with writer := w, file := file }
  | .close => some { s with writer := s.writer.close }
  | .initializeAgain => some { s with writer := s.writer.initializeOn s.file }
  | .restart => some { s with writer := .initialized s.file }

theorem truncateBefore_eq (w : WALWriter) (file : WALFile N V) (lsn : ℕ) :
    w.truncateBefore file lsn =
      (⟨min (file.truncate lsn).getLastLSN w.currentLSN, true⟩, file.truncate lsn) := by
  rw [← w.truncateBefore_currentLSN]
  rw [WALWriter.truncateBefore]
  split_ifs <;> rfl

end WALLog

/-! ### The last LSN of a file -/

namespace WALFile

variable {file : WALFile N V}

theorem getLastLSN_le {n : ℕ}
    (h : ∀ entry ∈ file, entry.logSequenceNumber ≤ n) : file.getLastLSN ≤ n := by
  have hmem : ∀ m ∈ (file.readEntries none none).map WALEntry.logSequenceNumber, m ≤ n := by
    rw [forall_mem_map]
    exact fun entry he => h entry (mem_readEntries.mp he)
  rw [getLastLSN]
  generalize (file.readEntries none none).map WALEntry.logSequenceNumber = lsns at hmem
  induction lsns with
  | nil => exact zero_le n
  | cons m _ ih =>
    exact max_le (hmem m mem_cons_self) (ih fun k hk => hmem k (mem_cons_of_mem _ hk))

theorem exists_getLastLSN (h : file ≠ []) :
    ∃ entry ∈ file, entry.logSequenceNumber = file.getLastLSN := by
  by_contra hnone
  have hlt : ∀ entry ∈ file, entry.logSequenceNumber < file.getLastLSN := fun entry he =>
    lt_of_le_of_ne (le_getLastLSN he) fun heq => hnone ⟨entry, he, heq⟩
  obtain ⟨entry, he⟩ := exists_mem_of_ne_nil file h
  have hle : file.getLastLSN ≤ file.getLastLSN - 1 :=
    getLastLSN_le fun entry he => le_sub_one_of_lt (hlt entry he)
  have hpos := hlt entry he
  omega

theorem mem_truncate :
    entry ∈ file.truncate lsn ↔ entry ∈ file ∧ lsn ≤ entry.logSequenceNumber := by
  rw [truncate, mem_filter, mem_readEntries, decide_eq_true_eq]

theorem getLastLSN_truncate (h : lsn ≤ file.getLastLSN) :
    (file.truncate lsn).getLastLSN = file.getLastLSN := by
  refine le_antisymm (getLastLSN_le fun entry he => le_getLastLSN (mem_truncate.mp he).1) ?_
  by_cases hnil : file = []
  · subst hnil
    exact zero_le _
  · obtain ⟨entry, he, hlast⟩ := exists_getLastLSN hnil
    exact hlast ▸ le_getLastLSN (mem_truncate.mpr ⟨he, hlast.symm ▸ h⟩)

theorem truncate_eq_nil (h : file.getLastLSN < lsn) : file.truncate lsn = [] := by
  refine eq_nil_iff_forall_not_mem.mpr fun entry he => ?_
  obtain ⟨hmem, hle⟩ := mem_truncate.mp he
  exact absurd (hle.trans (le_getLastLSN hmem)) (not_le.mpr h)

end WALFile

/-! ### Runs -/

namespace WALLog

/-- A truncation keeps the last entry of the file. -/
def KeepsLast (s : WALLog N V) : WALLogEvent N V → Prop
  | .truncateBefore lsn => s.file = [] ∨ lsn ≤ s.file.getLastLSN
  | _ => True

instance [DecidableEq N] [DecidableEq V] (s : WALLog N V) (ev : WALLogEvent N V) :
    Decidable (s.KeepsLast ev) := by
  unfold KeepsLast
  split <;> infer_instance

/-- The file knows the last number that was returned, and the writer has not fallen behind the
file. -/
structure Numbered (s : WALLog N V) : Prop where
  increasing : s.returnedLSNs.Pairwise (· < ·)
  le_last : ∀ n ∈ s.returnedLSNs, n ≤ s.file.getLastLSN
  last_le : s.file.getLastLSN ≤ s.writer.currentLSN
  pos : ∀ entry ∈ s.file, 0 < entry.logSequenceNumber
  returned : ∀ entry ∈ s.file, entry.logSequenceNumber ∈ s.returnedLSNs

theorem numbered_fresh : (fresh : WALLog N V).Numbered :=
  ⟨.nil, fun _ h => (nomatch h), zero_le _, fun _ h => (nomatch h), fun _ h => (nomatch h)⟩

theorem last_le_initializeOn (s : WALLog N V) (w : WALWriter) :
    s.file.getLastLSN ≤ (w.initializeOn s.file).currentLSN := by
  rw [WALWriter.initializeOn]
  split_ifs with h
  · exact le_rfl
  · exact (not_lt.mp h).trans (zero_le _)

variable {s : WALLog N V} {config : WALConfig N V}

section

variable (h : s.Numbered)

include h

theorem Numbered.concat (hlsn : entry.logSequenceNumber = s.writer.currentLSN + 1) :
    Numbered ⟨s.file ++ [entry], { s.writer with currentLSN := s.writer.currentLSN + 1 },
      s.appended ++ [entry]⟩ := by
  have hreturned : returnedLSNs ⟨s.file ++ [entry],
      { s.writer with currentLSN := s.writer.currentLSN + 1 }, s.appended ++ [entry]⟩ =
        s.returnedLSNs ++ [s.writer.currentLSN + 1] := by
    rw [returnedLSNs, map_append, map_singleton, hlsn]
    rfl
  have hold : ∀ n ∈ s.returnedLSNs, n < s.writer.currentLSN + 1 := fun n hn =>
    lt_succ_of_le ((h.le_last n hn).trans h.last_le)
  have hnew : s.writer.currentLSN + 1 ≤ (s.file ++ [entry]).getLastLSN := by
    rw [← hlsn]
    exact le_getLastLSN (mem_append_right _ mem_cons_self)
  constructor
  · rw [hreturned, pairwise_append]
    refine ⟨h.increasing, pairwise_singleton _ _, fun n hn m hm => ?_⟩
    exact mem_singleton.mp hm ▸ hold n hn
  · rw [hreturned]
    intro n hn
    rcases mem_append.mp hn with hn | hn
    · exact (hold n hn).le.trans hnew
    · exact mem_singleton.mp hn ▸ hnew
  · refine getLastLSN_le fun e he => ?_
    rcases mem_append.mp he with he | he
    · exact ((le_getLastLSN he).trans h.last_le).trans (le_succ _)
    · exact mem_singleton.mp he ▸ hlsn.le
  · intro e he
    rcases mem_append.mp he with he | he
    · exact h.pos e he
    · rw [mem_singleton.mp he, hlsn]
      exact succ_pos _
  · rw [hreturned]
    intro e he
    rcases mem_append.mp he with he | he
    · exact mem_append_left _ (h.returned e he)
    · rw [mem_singleton.mp he, hlsn]
      exact mem_append_right _ mem_cons_self

theorem Numbered.withWriter {w : WALWriter}
    (hw : s.file.getLastLSN ≤ w.currentLSN) : Numbered { s with writer := w } :=
  ⟨h.increasing, h.le_last, hw, h.pos, h.returned⟩

theorem Numbered.truncate (hkeeps : s.file = [] ∨ lsn ≤ s.file.getLastLSN) : Numbered { s with
      writer := ⟨min (s.file.truncate lsn).getLastLSN s.writer.currentLSN, true⟩
      file := s.file.truncate lsn } := by
  have hlast : (s.file.truncate lsn).getLastLSN = s.file.getLastLSN := by
    rcases hkeeps with hnil | hle
    · rw [hnil]
      rfl
    · exact getLastLSN_truncate hle
  refine ⟨h.increasing, fun n hn => hlast ▸ h.le_last n hn, ?_, fun entry he => ?_,
    fun entry he => ?_⟩
  · exact le_min le_rfl (hlast ▸ h.last_le)
  · exact h.pos entry (mem_truncate.mp he).1
  · exact h.returned entry (mem_truncate.mp he).1

/-- **One step.** -/
theorem Numbered.step {s' : WALLog N V} {ev : WALLogEvent N V}
    (hok : s.KeepsLast ev) (hstep : s.step config ev = some s') : s'.Numbered := by
  cases ev with
  | append update now fault =>
    rw [WALLog.step] at hstep
    obtain ⟨hwriter, ⟨err, herr⟩ | ⟨entry, hlsn, -, -, hok⟩⟩ :=
      s.writer.append_spec config s.file update now fault
    · rw [show s.writer.append config s.file update now fault = (_, _) from
        Prod.ext hwriter herr] at hstep
      cases hstep
      exact h.withWriter (h.last_le.trans (le_succ _))
    · rw [show s.writer.append config s.file update now fault = (_, _) from
        Prod.ext hwriter hok] at hstep
      simp only [drop_left] at hstep
      cases hstep
      exact h.concat hlsn
  | truncateBefore =>
    rw [WALLog.step, truncateBefore_eq] at hstep
    cases hstep
    exact h.truncate hok
  | close =>
    cases hstep
    exact h.withWriter h.last_le
  | initializeAgain =>
    cases hstep
    exact h.withWriter (s.last_le_initializeOn _)
  | restart =>
    cases hstep
    exact h.withWriter (s.last_le_initializeOn ⟨0, false⟩)

end

theorem step_append_nil (config : WALConfig N V) (lsn : ℕ) (appended : List (WALEntry N V))
    (update : EntityUpdate N V) (now : ℕ) :
    step config ⟨[], ⟨lsn, true⟩, appended⟩ (.append update now none) =
      some ⟨[⟨lsn + 1, now, update, config.calculateChecksum update⟩], ⟨lsn + 1, true⟩,
        appended ++ [⟨lsn + 1, now, update, config.calculateChecksum update⟩]⟩ := by
  have hsize : ¬getSize config ([] : WALFile N V) > config.maxFileSize := not_lt_zero _
  rw [step, WALWriter.append_eq, if_neg hsize]
  rfl

/-- **When numbers are never given out twice.** Along every run of appends, truncations, closings,
initialisations and restarts in which every truncation keeps the last entry of the file, the
LSNs that are returned increase. After such a run a truncation lets them go on increasing with the
next append if and only if it keeps the last entry. -/
theorem returnedLSNs_increasing_iff (config : WALConfig N V) (es : List (WALLogEvent N V))
    (s : WALLog N V) (hok : AllSteps (step config) KeepsLast fresh es)
    (hrun : exec (step config) fresh es = some s) :
    s.returnedLSNs.Pairwise (· < ·) ∧ ∀ lsn, (∀ update now s',
          exec (step config) s [.truncateBefore lsn, .append update now none] = some s' →
            s'.returnedLSNs.Pairwise (· < ·)) ↔
        s.KeepsLast (.truncateBefore lsn) := by
  have h := exec_invariant (fun _ _ _ h hok hstep => h.step hok hstep) numbered_fresh hok hrun
  refine ⟨h.increasing, fun lsn => ⟨fun hincreasing => ?_, fun hkeeps update now s' hs' => ?_⟩⟩
  · by_contra hlost
    obtain ⟨hne, hlt⟩ := not_or.mp hlost
    -- the file is emptied, so the next number is 1, and the last entry had a number as well
    have htruncate : step config s (.truncateBefore lsn) = some ⟨[], ⟨0, true⟩, s.appended⟩ := by
      rw [step, truncateBefore_eq, truncate_eq_nil (not_le.mp hlt),
        show getLastLSN ([] : WALFile N V) = 0 from rfl, Nat.zero_min]
    obtain ⟨entry, he⟩ := exists_mem_of_ne_nil _ hne
    have hbad := hincreasing entry.data 0 _
      (exec_cons_eq_some.mpr ⟨_, htruncate, (exec_singleton _ _).trans
        (step_append_nil config 0 s.appended entry.data 0)⟩)
    rw [returnedLSNs, map_append, pairwise_append] at hbad
    have hlt' := hbad.2.2 _ (h.returned entry he) _ mem_cons_self
    exact absurd (h.pos entry he) (by simpa using hlt')
  · refine Numbered.increasing (exec_invariant (fun _ _ _ h hok hstep => h.step hok hstep) h ?_ hs')
    refine ⟨hkeeps, ?_⟩
    split
    · trivial
    · exact ⟨trivial, by split <;> trivial⟩

def createCall : WALLogEvent String ℕ :=
  .append { entityId := "a", version := 1, timestamp := 0, operation := .create } 0 none

def openConfig : WALConfig String ℕ := ⟨1000, fun _ => "", fun _ => 1⟩

def keepingRun : List (WALLogEvent String ℕ) :=
  [createCall, createCall, .truncateBefore 2, .close, .restart, createCall]

theorem returnedLSNs_keepingRun :
    ∃ s, exec (step openConfig) fresh keepingRun = some s ∧ s.returnedLSNs.Pairwise (· < ·) ∧
      ∀ lsn, (∀ update now s',
          exec (step openConfig) s [.truncateBefore lsn, .append update now none] = some s' →
            s'.returnedLSNs.Pairwise (· < ·)) ↔
        s.KeepsLast (.truncateBefore lsn) :=
  ⟨_, rfl, returnedLSNs_increasing_iff openConfig keepingRun _ (by decide) rfl⟩

/-- An append, a truncation of everything and another append: both appends return 1. -/
theorem returnedLSNs_repeat :
    ∃ s, exec (step openConfig) fresh [createCall, .truncateBefore 2, createCall] = some s ∧
      s.returnedLSNs = [1, 1] ∧ ¬s.returnedLSNs.Pairwise (· < ·) :=
  ⟨_, rfl, by decide, by decide⟩

end WALLog

end DistributedCore.Persistence
