import DistributedCore.Persistence.WalLifetime
import DistributedCore.Persistence.WalText

/-!
# The write-ahead log as a faithful log

A log is appended to, truncated, closed and opened again, one call after another, and an append may
be refused. As long as no truncation goes beyond the last update that was appended, the text of the
file gives back exactly the updates that were acknowledged and not truncated, in their order, with
the numbers that the appends returned.

Source: `src/persistence/wal/WALWriter.ts`, `src/persistence/wal/WALFile.ts`,
`src/persistence/wal/WALReader.ts`, `src/persistence/wal/WALCoordinator.ts`.
-/

namespace DistributedCore.Persistence

open Entity WALFile List

/-! ### Calls on the text -/

namespace WALText

def truncate (content : WALText) (beforeLSN : ℕ) : WALText :=
  fileText ((readEntries content none none).filter fun entry => entry.logSequenceNumber ≥ beforeLSN)

def readRange (content : WALText) (startLSN endLSN : ℕ) : List (WALEntry String Json) :=
  readEntries content (some startLSN) (some endLSN)

end WALText

namespace WALTextLog

variable (log : WALTextLog)

def truncateBefore (lsn : ℕ) : WALTextLog :=
  let content := WALText.truncate log.content lsn
  let lastLSN := WALText.getLastLSN content
  { log with
    content := content
    writer := ⟨if lastLSN < log.writer.currentLSN then lastLSN else log.writer.currentLSN, true⟩ }

def reopen : WALTextLog :=
  let lastLSN := WALText.getLastLSN log.content
  { log with writer := ⟨if lastLSN > 0 then lastLSN else log.writer.currentLSN, true⟩ }

def restart : WALTextLog := { log with writer := (opened log.content).writer }

end WALTextLog

/-- A log, what the appends that were not refused returned and wrote, and the greatest LSN of a
truncation so far. -/
structure WALHistory where
  log : WALTextLog
  acknowledged : List (ℕ × EntityUpdate String Json)
  floor : ℕ

inductive WALCall
  | append (request : AppendRequest)
  | truncateBefore (lsn : ℕ)
  | reopen
  | restart

namespace WALHistory

def fresh : WALHistory := ⟨.opened [], [], 0⟩

def step (config : WALTextConfig) (s : WALHistory) : WALCall → Option WALHistory
  | .append request =>
    let (log, result) := s.log.append config request
    match result with
    | .ok lsn =>
      some { s with log := log, acknowledged := s.acknowledged ++ [(lsn, request.update)] }
    | .error _ => some { s with log := log }
  | .truncateBefore lsn =>
    some { s with log := s.log.truncateBefore lsn, floor := max s.floor lsn }
  | .reopen => some { s with log := s.log.reopen }
  | .restart => some { s with log := s.log.restart }

/-- A truncation keeps the last acknowledged entry. -/
def Within (s : WALHistory) : WALCall → Prop
  | .truncateBefore lsn => ∃ last ∈ s.acknowledged.getLast?, lsn ≤ last.1
  | _ => True

instance instDecidableWithin (s : WALHistory) (call : WALCall) : Decidable (s.Within call) := by
  unfold Within
  split <;> infer_instance

/-! ### What the file holds -/

def observed (entry : WALEntry String Json) : ℕ × EntityUpdate String Json :=
  (entry.logSequenceNumber, entry.data)

/-- The entries `all` were acknowledged, and the text has those of them that were not truncated. The
last one is among them, and the counter is not behind it. -/
structure Holds (config : WALTextConfig) (s : WALHistory) (all : WALFile String Json) : Prop where
  ordered : all.Ordered config.toWALConfig
  acknowledged : s.acknowledged = all.map observed
  content : s.log.content = WALText.fileText (all.truncate s.floor)
  floor_le : s.floor ≤ all.getLastLSN
  le_current : all.getLastLSN ≤ s.log.writer.currentLSN

variable {config : WALTextConfig} {s s' : WALHistory} {all : WALFile String Json}

namespace Holds

section

variable (h : s.Holds config all)

include h

theorem kept : Ordered config.toWALConfig (all.truncate s.floor) := by
  rw [h.ordered.truncate_eq]
  exact h.ordered.filter _

theorem entries_eq : WALText.entries s.log.content = all.truncate s.floor := by
  rw [h.content, WALText.entries_fileText]

theorem getLastLSN_eq : WALText.getLastLSN s.log.content = all.getLastLSN := by
  rw [WALText.getLastLSN, h.entries_eq, getLastLSN_truncate h.floor_le]

theorem concat {entry : WALEntry String Json} {log : WALTextLog}
    (hlsn : entry.logSequenceNumber = s.log.writer.currentLSN + 1)
    (hvalid : validateEntry config.toWALConfig entry = true)
    (hcontent : log.content = WALText.fileText (all.truncate s.floor ++ [entry]))
    (hcurrent : log.writer.currentLSN = s.log.writer.currentLSN + 1) :
    Holds config { s with log := log, acknowledged := s.acknowledged ++ [observed entry] }
      (all ++ [entry]) := by
  have hbehind : ∀ old ∈ all, old.logSequenceNumber < entry.logSequenceNumber := fun old hold => by
    have := (le_getLastLSN hold).trans h.le_current
    omega
  have hordered := h.ordered.concat hvalid hbehind
  have hlast : getLastLSN (all ++ [entry]) = entry.logSequenceNumber := by
    refine le_antisymm (getLastLSN_le fun e he => ?_) (le_getLastLSN (by simp))
    rcases mem_append.mp he with he | he
    · exact (hbehind e he).le
    · exact (mem_singleton.mp he ▸ le_rfl)
  have hfloor : s.floor ≤ entry.logSequenceNumber := by
    have := h.floor_le.trans h.le_current
    omega
  refine ⟨hordered, by simp [h.acknowledged], ?_, hlast ▸ hfloor, by rw [hlast, hcurrent, hlsn]⟩
  rw [hcontent, hordered.truncate_eq, h.ordered.truncate_eq, filter_append,
    filter_cons_of_pos (by simpa using hfloor), filter_nil]

theorem append (request : AppendRequest)
    (hstep : s.step config (.append request) = some s') : ∃ all', s'.Holds config all' := by
  obtain ⟨hwriter, hresult⟩ := WALTextLog.append_fileText config h.content request
  obtain ⟨hnext, ⟨err, herr⟩ | ⟨entry, hlsn, hdata, hvalid, hok⟩⟩ :=
    s.log.writer.append_spec config.toWALConfig (all.truncate s.floor) request.update request.now
      request.fault
  · rw [herr] at hresult
    obtain ⟨herror, hcontent⟩ := hresult
    simp only [step, herror] at hstep
    cases hstep
    refine ⟨all, h.ordered, h.acknowledged, hcontent, h.floor_le, h.le_current.trans ?_⟩
    rw [hwriter, hnext]
    exact Nat.le_succ _
  · rw [hok] at hresult
    obtain ⟨hreturned, hcontent⟩ := hresult
    simp only [step, hreturned] at hstep
    cases hstep
    have hconcat := h.concat hlsn hvalid hcontent (by rw [hwriter, hnext])
    rw [observed, hlsn, hdata] at hconcat
    exact ⟨_, hconcat⟩

theorem truncateBefore {lsn : ℕ} (hwithin : ∃ last ∈ s.acknowledged.getLast?, lsn ≤ last.1) :
    Holds config { s with log := s.log.truncateBefore lsn, floor := max s.floor lsn } all := by
  have hlsn : lsn ≤ all.getLastLSN := by
    obtain ⟨last, hlast, hle⟩ := hwithin
    have hmem := mem_of_getLast? hlast
    rw [h.acknowledged] at hmem
    obtain ⟨entry, hentry, rfl⟩ := mem_map.mp hmem
    exact hle.trans (le_getLastLSN hentry)
  have hfloor : max s.floor lsn ≤ all.getLastLSN := max_le h.floor_le hlsn
  have hcontent : WALText.truncate s.log.content lsn =
      WALText.fileText (all.truncate (max s.floor lsn)) := by
    rw [WALText.truncate, WALText.readEntries, h.entries_eq, h.kept.readEntries_eq,
      h.ordered.truncate_eq, h.ordered.truncate_eq, filter_filter]
    refine congrArg WALText.fileText (filter_congr fun entry _ => ?_)
    simp [and_comm]
  refine ⟨h.ordered, h.acknowledged, hcontent, hfloor, ?_⟩
  simp only [WALTextLog.truncateBefore, hcontent, WALText.getLastLSN, WALText.entries_fileText,
    getLastLSN_truncate hfloor]
  split_ifs
  · exact le_rfl
  · exact h.le_current

theorem withWriter {writer : WALWriter} (hcurrent : all.getLastLSN ≤ writer.currentLSN) :
    Holds config { s with log := { s.log with writer := writer } } all :=
  ⟨h.ordered, h.acknowledged, h.content, h.floor_le, hcurrent⟩

theorem step {call : WALCall} (hwithin : s.Within call)
    (hstep : s.step config call = some s') : ∃ all', s'.Holds config all' := by
  cases call with
  | append request => exact h.append request hstep
  | truncateBefore =>
    cases hstep
    exact ⟨all, h.truncateBefore hwithin⟩
  | reopen =>
    cases hstep
    refine ⟨all, h.withWriter ?_⟩
    rw [h.getLastLSN_eq]
    split_ifs with hpos
    · exact le_rfl
    · exact (not_lt.mp hpos).trans (Nat.zero_le _)
  | restart =>
    cases hstep
    refine ⟨all, h.withWriter ?_⟩
    rw [WALTextLog.opened_writer, h.getLastLSN_eq]

end

end Holds

theorem holds_fresh : fresh.Holds config [] := ⟨ordered_nil, rfl, rfl, Nat.zero_le _, Nat.zero_le _⟩

/-- **The log is faithful.** After any sequence of appends, truncations up to the last append and
reopenings, `readAll` returns exactly the updates that were acknowledged and not truncated, in
their order and with the LSNs that were returned; no entry is rejected, and `readRange` returns
those in the range. -/
theorem readAll_faithful (config : WALTextConfig) (calls : List WALCall) (s : WALHistory)
    (hok : AllSteps (step config) Within fresh calls)
    (hrun : exec (step config) fresh calls = some s) :
    (WALText.readAll config s.log.content).map observed =
        s.acknowledged.filter (fun p => s.floor ≤ p.1) ∧
      (∀ entry ∈ WALText.readEntries s.log.content none none,
        validateEntry config.toWALConfig entry = true) ∧
      ∀ a b, (WALText.readRange s.log.content a b).map observed =
        s.acknowledged.filter fun p => s.floor ≤ p.1 ∧ a ≤ p.1 ∧ p.1 ≤ b := by
  obtain ⟨all, h⟩ := exec_invariant (P := fun s => ∃ all, Holds config s all)
    (fun _ _ _ ⟨_, h⟩ hwithin hstep => h.step hwithin hstep) ⟨[], holds_fresh⟩ hok hrun
  refine ⟨?_, ?_, fun a b => ?_⟩
  · rw [h.content, WALText.readAll_fileText, h.kept.readAll_eq, h.ordered.truncate_eq,
      h.acknowledged, filter_map]
    rfl
  · rw [WALText.readEntries, h.entries_eq, h.kept.readEntries_eq]
    exact h.kept.valid
  · rw [WALText.readRange, WALText.readEntries, h.entries_eq, readEntries,
      ((h.kept.filter _).increasing.imp Nat.le_of_lt).insertionSort_eq, h.ordered.truncate_eq,
      filter_filter, h.acknowledged, filter_map]
    refine congrArg (List.map observed) (filter_congr fun entry _ => ?_)
    grind [observed]

def sampleCalls : List WALCall :=
  let update : EntityUpdate String Json :=
    { entityId := "a", version := 1, timestamp := 0, operation := .create }
  [.append ⟨update, 0, none⟩, .append ⟨update, 1, none⟩, .truncateBefore 2,
    .append ⟨update, 2, some "EIO"⟩, .restart, .append ⟨update, 3, none⟩]

theorem readAll_sampleCalls : ∃ s, exec (step ⟨1000, fun _ => "sum"⟩) fresh sampleCalls = some s ∧
      (WALText.readAll ⟨1000, fun _ => "sum"⟩ s.log.content).map observed =
        s.acknowledged.filter (fun p => s.floor ≤ p.1) ∧
      s.acknowledged.map Prod.fst = [1, 2, 3] ∧ s.floor = 2 := by
  have hok : AllSteps (step ⟨1000, fun _ => "sum"⟩) Within fresh sampleCalls := by decide +kernel
  have hsome : (exec (step ⟨1000, fun _ => "sum"⟩) fresh sampleCalls).map
      (fun s => (s.acknowledged.map Prod.fst, s.floor)) = some ([1, 2, 3], 2) := by decide +kernel
  obtain ⟨s, hrun, hs⟩ := Option.map_eq_some_iff.mp hsome
  obtain ⟨hlsns, hfloor⟩ := Prod.mk.inj hs
  exact ⟨s, hrun, (readAll_faithful _ _ s hok hrun).1, hlsns, hfloor⟩

end WALHistory

end DistributedCore.Persistence
