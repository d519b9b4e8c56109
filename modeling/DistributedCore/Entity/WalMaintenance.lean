import DistributedCore.Entity.WalCompaction

/-!
# Maintenance of the log

A registry that starts replays the entries after the LSN of the latest checkpoint. An entry that
was written after a checkpoint is replayed only if its LSN is greater than the one of the
checkpoint, so the counter of the writer must never fall behind a checkpoint.
-/

namespace DistributedCore.Entity

open Persistence WALFile WalHost List Nat

variable {N V : Type} {wal : WALFile N V}

/-! ### The history of a run -/

namespace WalHappening

def snapshotLSN : WalHappening N V → Option ℕ
  | .snapshotted lsn _ => some lsn
  | .appended _ => none
  | .compacted _ => none

def written : WalHappening N V → List (WALEntry N V)
  | .snapshotted _ _ => []
  | .appended entry => [entry]
  | .compacted wal => wal

def recent (entries : List (WALEntry N V)) : WalHappening N V → List (WALEntry N V)
  | .snapshotted _ _ => []
  | .appended entry => entries ++ [entry]
  | .compacted wal => wal

def acknowledged (entries : List (WALEntry N V)) : WalHappening N V → List (WALEntry N V)
  | .snapshotted _ _ => []
  | .appended entry => entries ++ [entry]
  | .compacted _ => entries

/-- The snapshot `a` is older than every entry that `b` has written. -/
def Before (a b : WalHappening N V) : Prop :=
  ∀ lsn ∈ a.snapshotLSN, ∀ entry ∈ b.written, lsn < entry.logSequenceNumber

end WalHappening

section History

variable {history : List (WalHappening N V)} {x : WalHappening N V}

def snapshotLSNs (history : List (WalHappening N V)) : List ℕ :=
  history.filterMap WalHappening.snapshotLSN

/-- The entries written since the last snapshot. A compaction writes its entries in place of those
before it. -/
def recentEntries (history : List (WalHappening N V)) : List (WALEntry N V) :=
  history.foldl WalHappening.recent []

def acknowledgedEntries (history : List (WalHappening N V)) : List (WALEntry N V) :=
  history.foldl WalHappening.acknowledged []

theorem snapshotLSNs_concat :
    snapshotLSNs (history ++ [x]) = snapshotLSNs history ++ x.snapshotLSN.toList := by
  rw [snapshotLSNs, filterMap_append]
  cases hx : x.snapshotLSN <;> simp [snapshotLSNs, hx]

theorem recentEntries_concat :
    recentEntries (history ++ [x]) = x.recent (recentEntries history) := by
  rw [recentEntries, foldl_append]
  rfl

theorem acknowledgedEntries_concat :
    acknowledgedEntries (history ++ [x]) = x.acknowledged (acknowledgedEntries history) := by
  rw [acknowledgedEntries, foldl_append]
  rfl

theorem pairwise_before_concat (hbefore : history.Pairwise WalHappening.Before)
    (hlsn : ∀ lsn ∈ snapshotLSNs history, ∀ entry ∈ x.written, lsn < entry.logSequenceNumber) :
    (history ++ [x]).Pairwise WalHappening.Before := by
  refine pairwise_append.mpr ⟨hbefore, pairwise_singleton _ _, ?_⟩
  intro a ha b hb lsn ha' entry hentry
  obtain rfl := mem_singleton.mp hb
  exact hlsn lsn (mem_filterMap.mpr ⟨a, ha, ha'⟩) entry hentry

def laterEntries (history : List (WalHappening N V)) (wal : WALFile N V) : WALFile N V :=
  wal.filter fun entry => ∀ lsn ∈ snapshotLSNs history, lsn < entry.logSequenceNumber

theorem laterEntries_eq_self
    (hwal : ∀ entry ∈ wal, ∀ lsn ∈ snapshotLSNs history, lsn < entry.logSequenceNumber) :
    laterEntries history wal = wal :=
  filter_eq_self.mpr fun entry he => decide_eq_true (hwal entry he)

end History

/-! ### What a log tells -/

/-- The last of some updates about an entity is `u`, or what a compaction has made of it: a
`CREATE` with the same data, or nothing if `u` is a `DELETE`. -/
inductive Told (us : List (EntityUpdate N V)) (u : EntityUpdate N V) : Prop
  | last (getLast : us.getLast? = some u)
  | compacted (op : u.operation ≠ .delete) (getLast : us.getLast? = some (compactedUpdate u))
  | deleted (op : u.operation = .delete) (nil : us = [])

variable {u : EntityUpdate N V} {e : EntityId} {entry : WALEntry N V}

theorem Told.compactedLog
    (htold : Told (updatesAbout wal e) u) (config : WalRegistryConfig N V) (now : ℕ) :
    Told (updatesAbout (compactedLog config now wal) e) u := by
  rw [updatesAbout_compactedLog]
  cases htold with
  | last getLast =>
    rw [getLast]
    by_cases hdel : u.operation = .delete
    · exact .deleted hdel (by simp [hdel])
    · exact .compacted hdel (by simp [Option.filter, hdel])
  | compacted op getLast =>
    rw [getLast]
    exact .compacted op rfl
  | deleted op nil =>
    rw [nil]
    exact .deleted op rfl

theorem Told.append_left {us : List (EntityUpdate N V)}
    (htold : Told us u) (hne : us ≠ []) (earlier : List (EntityUpdate N V)) :
    Told (earlier ++ us) u := by
  cases htold with
  | last getLast => exact .last (by rw [getLast?_append, getLast, Option.some_or])
  | compacted op getLast => exact .compacted op (by rw [getLast?_append, getLast, Option.some_or])
  | deleted _ nil => exact absurd nil hne

theorem updatesAbout_append (wal wal' : WALFile N V) (e : EntityId) :
    updatesAbout (wal ++ wal') e = updatesAbout wal e ++ updatesAbout wal' e := by
  rw [updatesAbout, map_append, filter_append]
  rfl

theorem updatesAbout_singleton
    (he : entry.data.entityId = e) : updatesAbout [entry] e = [entry.data] :=
  filter_cons_of_pos (decide_eq_true he)

theorem updatesAbout_singleton_of_ne (he : entry.data.entityId ≠ e) : updatesAbout [entry] e = [] :=
  filter_cons_of_neg (by simpa using he)

/-! ### Conditions on maintenance -/

namespace WalHost

/-- A truncation removes only entries that a checkpoint covers. -/
def TruncatesCovered (h : WalHost N V) : WalEvent N V → Prop
  | .truncate lsn => lsn ≤ h.registry.lastCheckpointLSN + 1
  | _ => True

/-- Each snapshot has number 0, or an entry from `start` on is at least as new. -/
def CounterFrom (h : WalHost N V) (start : ℕ) : Prop :=
  ∀ lsn ∈ snapshotLSNs h.history, lsn = 0 ∨
    ∃ entry ∈ h.wal, start ≤ entry.logSequenceNumber ∧ lsn ≤ entry.logSequenceNumber

variable (config : WalRegistryConfig N V)

/-- Maintenance does not leave the counter behind a checkpoint: there is no compaction after a
checkpoint of a log with entries, and an entry with the LSN of the checkpoint, or a later one, is
in the log at a restart and survives a truncation. A compaction succeeds. -/
def KeepsLog (h : WalHost N V) : WalEvent N V → Prop
  | .compact now => (∀ lsn ∈ snapshotLSNs h.history, lsn = 0) ∧ CompactionFits config now h.wal
  | .truncate lsn => h.CounterFrom lsn
  | .restart => h.CounterFrom 0
  | _ => True

instance (h : WalHost N V) (start : ℕ) : Decidable (h.CounterFrom start) :=
  inferInstanceAs (Decidable (∀ lsn ∈ _, _ ∨ _))

instance (h : WalHost N V) (ev : WalEvent N V) : Decidable (h.TruncatesCovered ev) := by
  unfold TruncatesCovered
  split <;> infer_instance

instance (config : WalRegistryConfig N V) (h : WalHost N V) (ev : WalEvent N V) :
    Decidable (h.KeepsLog config ev) := by
  unfold KeepsLog
  split <;> infer_instance

/-! ### What a restart replays -/

/-- The entries that a restart replays over the checkpoint. -/
def replayedEntries (h : WalHost N V) : List (WALEntry N V) :=
  (h.wal.readAll config.toWALConfig).filter fun entry =>
    restoredLSN h.checkpoints < entry.logSequenceNumber

theorem entities_restart (h : WalHost N V) : (h.restart config).registry.entities =
      (restoredFrom h.checkpoints).replay ((h.replayedEntries config).map WALEntry.data) :=
  entities_start config h.registry.nodeId h.wal h.checkpoints

end WalHost

/-! ### The invariant -/

/-- The counter has passed every snapshot, the entries written after a snapshot have greater LSNs,
and those since the last snapshot are in the log, or a compaction has replaced them. -/
structure Sequenced (config : WalRegistryConfig N V) (h : WalHost N V) : Prop
    extends WalHost.Numbered config h where
  counter : ∀ lsn ∈ snapshotLSNs h.history, lsn ≤ h.registry.walWriter.currentLSN
  checkpoint : h.registry.lastCheckpointLSN = 0 ∨
    h.registry.lastCheckpointLSN ∈ snapshotLSNs h.history
  files : ∀ {name snapshot}, h.checkpoints.files.get name = some snapshot →
    snapshot.lsn ∈ snapshotLSNs h.history
  before : h.history.Pairwise WalHappening.Before
  recent : recentEntries h.history ⊆ laterEntries h.history h.wal
  uncompacted : (∀ lsn ∈ snapshotLSNs h.history, lsn = 0) ∨
    acknowledgedEntries h.history = recentEntries h.history
  told : ∀ {e u}, (updatesAbout (acknowledgedEntries h.history) e).getLast? = some u →
    Told (updatesAbout (laterEntries h.history h.wal) e) u

section Invariant

variable {config : WalRegistryConfig N V} {h h' : WalHost N V}

theorem sequenced_fresh (config : WalRegistryConfig N V) (nodeId : N) :
    Sequenced config (WalHost.fresh config nodeId) where
  toNumbered := numbered_fresh config nodeId
  counter _ hlsn := nomatch hlsn
  checkpoint := .inl rfl
  files hget := nomatch hget
  before := .nil
  recent _ he := nomatch he
  uncompacted := .inr rfl
  told hlast := nomatch hlast

theorem Sequenced.of_later (hseq : Sequenced config h) (hnum : WalHost.Numbered config h')
    (hhistory : h'.history = h.history) (hfiles : h'.checkpoints = h.checkpoints)
    (hlater : laterEntries h.history h'.wal = laterEntries h.history h.wal)
    (hcounter : ∀ lsn ∈ snapshotLSNs h.history, lsn ≤ h'.registry.walWriter.currentLSN)
    (hcheckpoint : h'.registry.lastCheckpointLSN = 0 ∨
      h'.registry.lastCheckpointLSN ∈ snapshotLSNs h.history) :
    Sequenced config h' where
  toNumbered := hnum
  counter := hhistory ▸ hcounter
  checkpoint := hhistory ▸ hcheckpoint
  files := hhistory ▸ hfiles ▸ hseq.files
  before := hhistory ▸ hseq.before
  recent := hhistory ▸ hlater ▸ hseq.recent
  uncompacted := hhistory ▸ hseq.uncompacted
  told := hhistory ▸ hlater ▸ hseq.told

theorem Sequenced.change (hseq : Sequenced config h) (hchange : WalHost.Change config h h') :
    Sequenced config h' := by
  have hnum := hseq.toNumbered.change hchange
  cases hchange with
  | refused =>
    exact hseq.of_later hnum rfl rfl rfl
      (fun lsn hlsn => le_succ_of_le (hseq.counter lsn hlsn)) hseq.checkpoint
  | @logged entry lsn valid =>
    have hsnapshots : snapshotLSNs (h.history ++ [.appended entry]) = snapshotLSNs h.history :=
      snapshotLSNs_concat.trans (append_nil _)
    have hentry : ∀ m ∈ snapshotLSNs h.history, m < entry.logSequenceNumber := fun m hm => by
      rw [lsn]
      exact lt_succ_of_le (hseq.counter m hm)
    have hlater : laterEntries (h.history ++ [.appended entry]) (h.wal ++ [entry]) =
        laterEntries h.history h.wal ++ [entry] := by
      rw [laterEntries, hsnapshots, filter_append]
      exact congrArg _ (laterEntries_eq_self fun e he m hm => mem_singleton.mp he ▸ hentry m hm)
    exact {
      toNumbered := hnum
      counter := fun m hm => le_succ_of_le (hseq.counter m (hsnapshots ▸ hm))
      checkpoint := hsnapshots.symm ▸ hseq.checkpoint
      files := fun hget => hsnapshots.symm ▸ hseq.files hget
      before := pairwise_before_concat hseq.before fun m hm e he =>
        mem_singleton.mp he ▸ hentry m hm
      recent := by
        rw [recentEntries_concat, hlater]
        exact append_subset.mpr
          ⟨subset_append_of_subset_left _ hseq.recent, subset_append_right _ _⟩
      uncompacted := by
        rw [hsnapshots, acknowledgedEntries_concat, recentEntries_concat]
        exact hseq.uncompacted.imp_right (congrArg (· ++ [entry]))
      told := fun {e u} hu => by
        rw [acknowledgedEntries_concat] at hu
        change (updatesAbout (acknowledgedEntries h.history ++ [entry]) e).getLast? = some u at hu
        rw [hlater]
        rw [updatesAbout_append] at hu ⊢
        by_cases he : entry.data.entityId = e
        · rw [updatesAbout_singleton he, getLast?_concat] at hu
          cases hu
          exact .last (by rw [updatesAbout_singleton he, getLast?_concat])
        · rw [updatesAbout_singleton_of_ne he, append_nil] at hu ⊢
          exact hseq.told hu }
  | @snapshotted fault last last_eq =>
    have hmem : ∀ {m}, m ∈ snapshotLSNs (h.history ++
        [.snapshotted h.registry.walWriter.currentLSN h.registry.entities]) ↔
          m ∈ snapshotLSNs h.history ∨ m = h.registry.walWriter.currentLSN := by
      intro m
      rw [snapshotLSNs_concat, mem_append]
      exact or_congr_right mem_singleton
    exact {
      toNumbered := hnum
      counter := fun m hm => (hmem.mp hm).elim (hseq.counter m) le_of_eq
      checkpoint := by
        rcases last_eq with rfl | rfl
        · exact .inr (hmem.mpr (.inr rfl))
        · exact hseq.checkpoint.imp_right fun hm => hmem.mpr (.inl hm)
      files := fun hget => by
        rcases CheckpointDir.get_writeSnapshot hget with hold | rfl
        · exact hmem.mpr (.inl (hseq.files hold))
        · exact hmem.mpr (.inr rfl)
      before := pairwise_before_concat hseq.before fun _ _ _ he => nomatch he
      recent := by
        rw [recentEntries_concat]
        exact nil_subset _
      uncompacted := .inr (by rw [acknowledgedEntries_concat, recentEntries_concat]; rfl)
      told := fun hu => by
        rw [acknowledgedEntries_concat] at hu
        exact nomatch hu }

/-! ### Maintenance -/

section

variable (hseq : Sequenced config h)

include hseq

theorem Sequenced.compact {now : ℕ}
    (hzero : ∀ lsn ∈ snapshotLSNs h.history, lsn = 0) (hfits : CompactionFits config now h.wal) :
    Sequenced config (h.compact config now).1 := by
  rcases compact_cases hseq.ordered now with ⟨-, hhost, -⟩ | ⟨hnot, -⟩
  swap
  · exact absurd hfits hnot
  have hsnapshots : snapshotLSNs (h.history ++ [.compacted (compactedLog config now h.wal)]) =
      snapshotLSNs h.history :=
    snapshotLSNs_concat.trans (append_nil _)
  have hpos : ∀ entry ∈ compactedLog config now h.wal, 1 ≤ entry.logSequenceNumber :=
    fun entry he => lt_of_mem_entriesFrom _ now he
  have hafter : ∀ entry ∈ compactedLog config now h.wal, ∀ m ∈ snapshotLSNs h.history,
      m < entry.logSequenceNumber := fun entry he m hm => hzero m hm ▸ hpos entry he
  have hold : laterEntries h.history h.wal = h.wal :=
    laterEntries_eq_self fun entry he m hm => hzero m hm ▸ (hseq.lsn entry he).1
  have hnew : laterEntries (h.history ++ [.compacted (compactedLog config now h.wal)])
      (compactedLog config now h.wal) = compactedLog config now h.wal :=
    laterEntries_eq_self (hsnapshots ▸ hafter)
  rw [hhost]
  exact {
    ordered := ordered_compactedLog config now h.wal
    lsn := fun entry he => ⟨hpos entry he, by
      change entry.logSequenceNumber ≤ (WALWriter.initialized _).currentLSN
      rw [WALWriter.initialized_currentLSN]
      exact le_getLastLSN he⟩
    counter := fun m hm => hzero m (hsnapshots ▸ hm) ▸ zero_le _
    checkpoint := hsnapshots.symm ▸ hseq.checkpoint
    files := fun hget => hsnapshots.symm ▸ hseq.files hget
    before := pairwise_before_concat hseq.before fun m hm entry he => hafter entry he m hm
    recent := fun entry he => by
      rw [afterCompaction, recentEntries_concat] at he
      exact hnew.symm ▸ he
    uncompacted := .inl (hsnapshots.symm ▸ hzero)
    told := fun {e u} hu => by
      rw [afterCompaction, acknowledgedEntries_concat] at hu
      have htold := hseq.told hu
      rw [hold] at htold
      exact hnew.symm ▸ htold.compactedLog config now }

/-- A truncation keeps the invariant if it only removes covered entries and does not leave the
counter behind a checkpoint. -/
theorem Sequenced.truncate {beforeLSN : ℕ}
    (hcovered : beforeLSN ≤ h.registry.lastCheckpointLSN + 1) (hkeeps : h.CounterFrom beforeLSN) :
    Sequenced config (h.truncateWALBefore beforeLSN) := by
  have hwal : (h.truncateWALBefore beforeLSN).wal =
      h.wal.filter fun entry => entry.logSequenceNumber ≥ beforeLSN :=
    hseq.ordered.truncate_eq beforeLSN
  have hcounter : (h.truncateWALBefore beforeLSN).registry.walWriter.currentLSN =
      min (h.truncateWALBefore beforeLSN).wal.getLastLSN h.registry.walWriter.currentLSN :=
    WALWriter.truncateBefore_currentLSN _ _ _
  refine hseq.of_later ⟨hwal ▸ hseq.ordered.filter _, fun entry he => ?_⟩ rfl rfl ?_
    (fun m hm => ?_) hseq.checkpoint
  · have hold := hseq.lsn entry (mem_of_mem_filter (hwal ▸ he))
    rw [hcounter]
    exact ⟨hold.1, le_min (le_getLastLSN he) hold.2⟩
  · -- the last checkpoint is before a later entry, so the entry is not removed
    rw [hwal, laterEntries, laterEntries, filter_filter]
    refine filter_congr fun entry he => ?_
    rw [Bool.and_eq_left_iff_imp, decide_eq_true_eq, decide_eq_true_eq]
    intro hlater
    rcases hseq.checkpoint with hlast | hlast
    · have hpos := (hseq.lsn entry he).1
      omega
    · have hlt := hlater _ hlast
      omega
  · rw [hcounter]
    refine le_min ?_ (hseq.counter m hm)
    rcases hkeeps m hm with rfl | ⟨entry, hentry, hle, hm'⟩
    · exact zero_le _
    · refine hm'.trans (le_getLastLSN ?_)
      rw [hwal]
      exact mem_filter.mpr ⟨hentry, decide_eq_true hle⟩

theorem Sequenced.restoredLSN_eq :
    restoredLSN h.checkpoints = 0 ∨ restoredLSN h.checkpoints ∈ snapshotLSNs h.history := by
  rw [restoredLSN]
  cases hread : h.checkpoints.readLatest with
  | none => exact .inl rfl
  | some =>
    obtain ⟨name, hget⟩ := CheckpointDir.exists_get_of_readLatest hread
    exact .inr (hseq.files hget)

theorem Sequenced.restart (hkeeps : h.CounterFrom 0) : Sequenced config (h.restart config) := by
  have hcounter : (h.restart config).registry.walWriter.currentLSN = h.wal.getLastLSN := by
    rw [WalHost.restart, (start_frame ..).1, WALWriter.initialized_currentLSN]
  refine hseq.of_later ⟨hseq.ordered, fun entry he => ?_⟩ rfl rfl rfl (fun m hm => ?_) ?_
  · rw [hcounter]
    exact ⟨(hseq.lsn entry he).1, le_getLastLSN he⟩
  · rw [hcounter]
    rcases hkeeps m hm with rfl | ⟨entry, hentry, -, hm'⟩
    · exact zero_le _
    · exact hm'.trans (le_getLastLSN hentry)
  · rw [WalHost.restart, (start_frame ..).2]
    exact hseq.restoredLSN_eq

/-- **Every step keeps the invariant.** -/
theorem Sequenced.step [DecidableEq N] {ev : WalEvent N V}
    (hcovered : h.TruncatesCovered ev) (hkeeps : h.KeepsLog config ev)
    (hstep : h.step config ev = some h') : Sequenced config h' := by
  have hoperation : ev.IsOperation → Sequenced config h' := fun hev =>
    invariant_of_changes (fun _ _ hs hchange => hs.change hchange) hseq
      (changes_of_operation hev hstep)
  cases ev with
  | call => exact hoperation trivial
  | remote => exact hoperation trivial
  | checkpoint => exact hoperation trivial
  | compact => exact Option.some.inj hstep ▸ hseq.compact hkeeps.1 hkeeps.2
  | truncate => exact Option.some.inj hstep ▸ hseq.truncate hcovered hkeeps
  | restart => exact Option.some.inj hstep ▸ hseq.restart hkeeps

end

/-! ### What a restart replays -/

section

variable (hseq : Sequenced config h)

include hseq

theorem Sequenced.exists_replayedEntries_eq :
    ∃ earlier, h.replayedEntries config = earlier ++ laterEntries h.history h.wal := by
  have hsplit := (hseq.ordered.filter fun entry =>
    restoredLSN h.checkpoints < entry.logSequenceNumber).filter_append_filter
      (fun entry => ∀ lsn ∈ snapshotLSNs h.history, lsn < entry.logSequenceNumber)
      fun a b hab ha => decide_eq_true fun lsn hlsn => (of_decide_eq_true ha lsn hlsn).trans hab
  rw [WalHost.replayedEntries, hseq.ordered.readAll_eq]
  refine ⟨_, hsplit.symm.trans (congrArg _ ?_)⟩
  rw [filter_filter]
  refine filter_congr fun entry he => ?_
  rw [Bool.and_eq_left_iff_imp, decide_eq_true_eq, decide_eq_true_eq]
  intro hlater
  rcases hseq.restoredLSN_eq with hzero | hlsn
  · exact hzero ▸ (hseq.lsn entry he).1
  · exact hlater _ hlsn

theorem Sequenced.replayedEntries_eq_wal
    (hzero : ∀ lsn ∈ snapshotLSNs h.history, lsn = 0) : h.replayedEntries config = h.wal := by
  rw [WalHost.replayedEntries, hseq.ordered.readAll_eq, hseq.restoredLSN_eq.elim id (hzero _)]
  exact filter_eq_self.mpr fun entry he => decide_eq_true (hseq.lsn entry he).1

theorem Sequenced.told_replayedEntries
    (hu : (updatesAbout (acknowledgedEntries h.history) e).getLast? = some u) :
    Told (updatesAbout (h.replayedEntries config) e) u := by
  have htold := hseq.told hu
  rcases hseq.uncompacted with hzero | hrecent
  · rw [laterEntries_eq_self fun entry he m hm => hzero m hm ▸ (hseq.lsn entry he).1] at htold
    rwa [hseq.replayedEntries_eq_wal hzero]
  · obtain ⟨earlier, hreplayed⟩ := hseq.exists_replayedEntries_eq
    -- the update itself is in the log
    rw [hrecent] at hu
    obtain ⟨hmem, he⟩ := mem_filter.mp (mem_of_getLast? hu)
    have hlater : u ∈ updatesAbout (laterEntries h.history h.wal) e :=
      mem_filter.mpr ⟨map_subset _ hseq.recent hmem, he⟩
    rw [hreplayed, updatesAbout_append]
    exact htold.append_left (ne_nil_of_mem hlater) _

end

end Invariant

/-! ### No acknowledged write is lost -/

/-- **No acknowledged write is lost by maintenance.** In every run in which truncations only remove
entries up to the LSN of the last checkpoint and maintenance never leaves the counter behind a
checkpoint, every entry has a greater LSN than the checkpoints before it, and a restart restores a
checkpoint and replays every entry written since the last one. Where a compaction has replaced
entries, what is replayed still tells the last update about every entity. -/
theorem acknowledged_replayed [DecidableEq N] (config : WalRegistryConfig N V) (nodeId : N)
    {es : List (WalEvent N V)} {h : WalHost N V}
    (hok : AllSteps (WalHost.step config)
      (fun h ev => h.TruncatesCovered ev ∧ h.KeepsLog config ev) (WalHost.fresh config nodeId) es)
    (hrun : exec (WalHost.step config) (WalHost.fresh config nodeId) es = some h) :
    h.history.Pairwise WalHappening.Before ∧ (h.restart config).registry.entities =
        (restoredFrom h.checkpoints).replay ((h.replayedEntries config).map WALEntry.data) ∧
      recentEntries h.history ⊆ h.replayedEntries config ∧
      ∀ e u, (updatesAbout (acknowledgedEntries h.history) e).getLast? = some u →
        Told (updatesAbout (h.replayedEntries config) e) u := by
  have hseq : Sequenced config h :=
    exec_invariant (fun _ _ _ hs hok hstep => hs.step hok.1 hok.2 hstep)
      (sequenced_fresh config nodeId) hok hrun
  refine ⟨hseq.before, WalHost.entities_restart config h, ?_,
    fun e u hu => hseq.told_replayedEntries hu⟩
  obtain ⟨earlier, hreplayed⟩ := hseq.exists_replayedEntries_eq
  rw [hreplayed]
  exact subset_append_of_subset_right _ hseq.recent

/-- An entity is created and updated, a checkpoint is written, some maintenance is done, and the
entity is updated again. -/
def updateAfter (maintenance : List (WalEvent String ℕ)) : List (WalEvent String ℕ) :=
  [.call (.proposeEntity "e" none) 0 {}, .call (.updateEntity "e" .empty) 1 {},
    .checkpoint none] ++ maintenance ++ [.call (.updateEntity "e" .empty) 3 {}]

theorem acknowledged_replayed_updateAfter :
    ∃ h, exec (WalHost.step onDemandConfig) (WalHost.fresh onDemandConfig "n1")
        (updateAfter [.truncate 2, .restart]) = some h ∧
      h.history.Pairwise WalHappening.Before ∧
      (h.restart onDemandConfig).registry.entities = (restoredFrom h.checkpoints).replay
          ((h.replayedEntries onDemandConfig).map WALEntry.data) ∧
      recentEntries h.history ⊆ h.replayedEntries onDemandConfig ∧
      ∀ e u, (updatesAbout (acknowledgedEntries h.history) e).getLast? = some u →
        Told (updatesAbout (h.replayedEntries onDemandConfig) e) u := by
  have hrun : exec (WalHost.step onDemandConfig) (WalHost.fresh onDemandConfig "n1")
      (updateAfter [.truncate 2, .restart]) = some _ := rfl
  exact ⟨_, hrun, acknowledged_replayed onDemandConfig "n1" (by decide) hrun⟩

/-- An acknowledged update can be lost: after a checkpoint, a compaction starts the LSNs again, and
the next update is numbered like entries that the checkpoint covers. -/
theorem not_replayed_of_compact :
    ¬ ∀ (config : WalRegistryConfig String ℕ) (nodeId : String) (es : List (WalEvent String ℕ))
      (h : WalHost String ℕ),
      AllSteps (WalHost.step config) (fun h ev => h.TruncatesCovered ev)
        (WalHost.fresh config nodeId) es →
      exec (WalHost.step config) (WalHost.fresh config nodeId) es = some h →
      h.history.Pairwise WalHappening.Before ∧
        recentEntries h.history ⊆ h.replayedEntries config := by
  intro hall
  have hlost := (hall onDemandConfig "n1" (updateAfter [.compact 2]) _ (by decide) rfl).2
  exact absurd hlost (by decide)

/-- A truncation up to the checkpoint has the same effect. -/
example : (exec (WalHost.step onDemandConfig) (WalHost.fresh onDemandConfig "n1")
    (updateAfter [.truncate 3])).any (fun h => recentEntries h.history ≠ [] ∧
      h.replayedEntries onDemandConfig = []) = true := by decide

end DistributedCore.Entity
