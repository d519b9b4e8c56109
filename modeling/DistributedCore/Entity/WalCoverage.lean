import DistributedCore.Entity.WalInterleaving
import DistributedCore.Entity.WalMaintenance

/-!
# What a checkpoint covers

A registry that starts takes the entries up to the LSN of the latest checkpoint to be in the
checkpoint. A checkpoint has the LSN that was given out last, and the entities at the time of its
copy. An update has its LSN long before it is applied, so a checkpoint that runs in between has the
LSN of the update but not its effect, and after a crash the update is lost although it was
acknowledged (`not_covers_of_pending_append`).
-/

namespace DistributedCore.Entity

open Persistence EntityRecord WalProcess List Option

variable {N V : Type}

/-! ### The condition -/

/-- When a checkpoint copies the entities, no update with an LSN up to that of the checkpoint is
under way, and `__proto__` is not live. -/
def WalProcess.CopiesApplied (config : WalRegistryConfig N V) (s : WalProcess N V) :
    WalProcessEvent N V → Prop
  | .copy i => ∀ lsn ∈ s.reading[i]?.toList, s.skips config lsn = false →
      (∀ pending ∈ s.unapplied, lsn < pending.entry.logSequenceNumber) ∧
        s.host.registry.entities.has "__proto__" = false
  | _ => True

instance (config : WalRegistryConfig N V) (s : WalProcess N V) (ev : WalProcessEvent N V) :
    Decidable (s.CopiesApplied config ev) := by
  unfold CopiesApplied
  split <;> infer_instance

/-! ### The invariant -/

/-- The entities of a checkpoint are those after a first part of the applied updates, which has all
entries up to an LSN; and no update up to that LSN is under way. -/
structure Covers (start : WalHost N V) (applied : List (WALEntry N V)) (counter : ℕ)
    (unapplied : List (PendingAppend N V)) (lsn : ℕ) (entities : Entities N V) : Prop where
  counter : lsn ≤ counter
  unapplied : ∀ pending ∈ unapplied, lsn < pending.entry.logSequenceNumber
  proto : entities.has "__proto__" = false
  covered : ∃ covered, covered <+: applied ∧
    entities = start.registry.entities.replay (covered.map WALEntry.data) ∧
    ∀ entry ∈ applied, entry.logSequenceNumber ≤ lsn → entry ∈ covered

/-- The entities are those after the applied updates, which are the entries of the log but for those
of the start and those whose call has yet to go on; and the checkpoints cover the entries up to
their LSN. -/
structure Coverage (config : WalRegistryConfig N V) (start : WalHost N V)
    (applied : List (WALEntry N V)) (s : WalProcess N V) : Prop where
  entities : s.host.registry.entities = start.registry.entities.replay (applied.map WALEntry.data)
  log : s.host.wal ~ start.wal ++ applied ++ s.written.map PendingAppend.entry
  valid : ∀ entry ∈ applied, validateEntry config.toWALConfig entry = true
  pending : ∀ pending ∈ s.unapplied, validateEntry config.toWALConfig pending.entry = true
  reading : ∀ lsn ∈ s.reading, lsn ≤ s.currentLSN
  copied : ∀ p ∈ s.copied, Covers start applied s.currentLSN s.unapplied p.1 p.2
  files : ∀ {name snapshot}, s.host.checkpoints.files.get name = some snapshot →
    start.checkpoints.files.get name = some snapshot ∨
      ∃ entities, snapshot.entities = checkpointEntities entities ∧
        Covers start applied s.currentLSN s.unapplied snapshot.lsn entities

section Invariant

variable {config : WalRegistryConfig N V} {start : WalHost N V}
  {applied applied' : List (WALEntry N V)} {s s' : WalProcess N V} {entities : Entities N V}
  {lsn : ℕ}

/-- A step that gives out greater LSNs and applies updates that were under way. -/
theorem Covers.mono (h : Covers start applied s.currentLSN s.unapplied lsn entities)
    (hcounter : s.currentLSN ≤ s'.currentLSN)
    (hunapplied : ∀ p ∈ s'.unapplied, p ∈ s.unapplied ∨ s.currentLSN < p.entry.logSequenceNumber)
    (hgrows : applied <+: applied')
    (happlied : ∀ entry ∈ applied', entry ∈ applied ∨ ∃ p ∈ s.unapplied, p.entry = entry) :
    Covers start applied' s'.currentLSN s'.unapplied lsn entities where
  counter := h.counter.trans hcounter
  unapplied := fun p hp => (hunapplied p hp).elim (h.unapplied p) fun hlt => h.counter.trans_lt hlt
  proto := h.proto
  covered := by
    obtain ⟨covered, hcovered, hentities, hall⟩ := h.covered
    refine ⟨covered, hcovered.trans hgrows, hentities, fun entry he hle => ?_⟩
    rcases happlied entry he with he | ⟨p, hp, rfl⟩
    · exact hall entry he hle
    · exact absurd (h.unapplied p hp) (not_lt.mpr hle)

theorem coverage_idle (config : WalRegistryConfig N V) (start : WalHost N V) :
    Coverage config start [] (.idle start) where
  entities := rfl
  log := by simp [idle]
  valid _ he := nomatch he
  pending _ hp := nomatch hp
  reading _ hlsn := nomatch hlsn
  copied _ hp := nomatch hp
  files hget := .inl hget

section

variable (h : Coverage config start applied s)

include h

/-! ### Calls -/

theorem Coverage.advance (hentities : s'.host.registry.entities =
      start.registry.entities.replay (applied'.map WALEntry.data))
    (hlog : s'.host.wal ~ start.wal ++ applied' ++ s'.written.map PendingAppend.entry)
    (hgrows : applied <+: applied')
    (happlied : ∀ entry ∈ applied', entry ∈ applied ∨ ∃ p ∈ s.unapplied, p.entry = entry)
    (hcounter : s.currentLSN ≤ s'.currentLSN)
    (hunapplied : ∀ p ∈ s'.unapplied, p ∈ s.unapplied ∨
      validateEntry config.toWALConfig p.entry = true ∧ s.currentLSN < p.entry.logSequenceNumber)
    (hreading : s'.reading = s.reading) (hcopied : s'.copied = s.copied)
    (hfiles : s'.host.checkpoints = s.host.checkpoints) : Coverage config start applied' s' := by
  have hmono : ∀ {lsn entities}, Covers start applied s.currentLSN s.unapplied lsn entities →
      Covers start applied' s'.currentLSN s'.unapplied lsn entities := fun hcovers =>
    hcovers.mono hcounter (fun p hp => (hunapplied p hp).imp_right And.right) hgrows happlied
  refine ⟨hentities, hlog, fun entry he => ?_, fun p hp => ?_, ?_, ?_, ?_⟩
  · rcases happlied entry he with he | ⟨p, hp, rfl⟩
    · exact h.valid entry he
    · exact h.pending p hp
  · exact (hunapplied p hp).elim (h.pending p) And.left
  · rw [hreading]
    exact fun lsn hlsn => (h.reading lsn hlsn).trans hcounter
  · rw [hcopied]
    exact fun p hp => hmono (h.copied p hp)
  · rw [hfiles]
    exact fun hget => (h.files hget).imp_right fun ⟨entities, heq, hcovers⟩ =>
      ⟨entities, heq, hmono hcovers⟩

theorem Coverage.append (update : EntityUpdate N V) (now : ℕ) (checks : Bool) :
    Coverage config start applied (s.append config update now checks) := by
  rw [WalProcess.append_eq]
  refine h.advance h.entities h.log (prefix_refl _) (fun _ => .inl) (Nat.le_succ _)
    (fun p hp => ?_) rfl rfl rfl
  simp only [mem_unapplied, mem_append, mem_singleton] at hp ⊢
  rcases hp with (hp | rfl) | hp
  · exact .inl (.inl hp)
  · exact .inr ⟨by simp [validateEntry], Nat.lt_succ_self _⟩
  · exact .inl (.inr hp)

variable {i : ℕ} {fault : Option String} {failed : Bool}

theorem Coverage.calls {sizing writing : List (PendingAppend N V)} (hsizing : sizing ⊆ s.sizing)
    (hwriting : writing ⊆ s.sizing ++ s.writing) :
    Coverage config start applied { s with sizing := sizing, writing := writing } := by
  refine h.advance h.entities h.log (prefix_refl _) (fun _ => .inl) le_rfl
    (fun p hp => .inl ?_) rfl rfl rfl
  rw [mem_unapplied] at hp ⊢
  rcases hp with hp | hp | hp
  · exact .inl (hsizing hp)
  · exact (mem_append.mp (hwriting hp)).imp_right .inl
  · exact .inr (.inr hp)

theorem Coverage.size (hstep : s.size config i fault = some s') :
    Coverage config start applied s' := by
  obtain ⟨pending, hget, rfl⟩ := map_eq_some_iff.mp hstep
  have herase : s.sizing.eraseIdx i ⊆ s.sizing := eraseIdx_subset
  have hdropped : Coverage config start applied { s with sizing := s.sizing.eraseIdx i } :=
    h.calls herase (subset_append_right s.sizing s.writing)
  dsimp only
  split_ifs
  · exact hdropped
  · exact hdropped
  · exact hdropped
  · exact h.calls herase (append_subset.mpr ⟨subset_append_right _ _,
      cons_subset.mpr ⟨mem_append_left _ (mem_of_getElem? hget), nil_subset _⟩⟩)

theorem Coverage.write (hstep : s.write i fault = some s') : Coverage config start applied s' := by
  obtain ⟨pending, hget, rfl⟩ := map_eq_some_iff.mp hstep
  have herase : s.writing.eraseIdx i ⊆ s.writing := eraseIdx_subset
  split_ifs
  · exact h.calls (Subset.refl _) (subset_append_of_subset_right _ herase)
  refine h.advance h.entities ?_ (prefix_refl _) (fun _ => .inl) le_rfl (fun p hp => .inl ?_)
    rfl rfl rfl
  · rw [map_append, ← append_assoc]
    exact h.log.append_right _
  · simp only [mem_unapplied, mem_append, mem_singleton] at hp ⊢
    rcases hp with hp | hp | hp | rfl
    · exact .inl hp
    · exact .inr (.inl (herase hp))
    · exact .inr (.inr hp)
    · exact .inr (.inl (mem_of_getElem? hget))

theorem Coverage.apply (hstep : s.apply i = some s') :
    ∃ applied', Coverage config start applied' s' := by
  obtain ⟨pending, hget, rfl⟩ := map_eq_some_iff.mp hstep
  obtain ⟨hlt, hpending⟩ := List.getElem?_eq_some_iff.mp hget
  refine ⟨applied ++ [pending.entry], h.advance ?_ ?_ (prefix_append _ _) (fun entry he => ?_)
    le_rfl (fun p hp => .inl ?_) rfl rfl rfl⟩
  · rw [map_append, Entities.replay_append, ← h.entities]
    rfl
  · have hperm : pending :: s.written.eraseIdx i ~ s.written := hpending ▸
      getElem_cons_eraseIdx_perm hlt
    refine h.log.trans ?_
    rw [append_assoc, append_assoc, append_assoc]
    exact ((hperm.map _).symm.append_left _).append_left _
  · rcases mem_append.mp he with he | he
    · exact .inl he
    · exact .inr ⟨pending, mem_unapplied.mpr (.inr (.inr (mem_of_getElem? hget))),
        (mem_singleton.mp he).symm⟩
  · rw [mem_unapplied] at hp ⊢
    exact hp.imp_right (Or.imp_right mem_of_mem_eraseIdx)

theorem Coverage.check (hstep : s.check config = some s') : Coverage config start applied s' := by
  rw [WalProcess.check] at hstep
  split at hstep
  · cases hstep
  · split_ifs at hstep
    all_goals
      cases hstep
      exact { h with }

/-! ### Checkpoints -/

theorem Coverage.createCheckpoint : Coverage config start applied s.createCheckpoint :=
  { h with reading := forall_mem_append.mpr ⟨h.reading, forall_mem_singleton.mpr le_rfl⟩ }

theorem Coverage.due (hstep : s.due config i = some s') : Coverage config start applied s' := by
  obtain ⟨lsn, -, rfl⟩ := map_eq_some_iff.mp hstep
  have herase : Coverage config start applied { s with checking := s.checking.eraseIdx i } :=
    { h with }
  split_ifs
  · exact herase.createCheckpoint
  · exact herase

theorem Coverage.copy (hok : s.CopiesApplied config (.copy i)) (hstep : s.copy config i = some s') :
    Coverage config start applied s' := by
  obtain ⟨lsn, hget, rfl⟩ := map_eq_some_iff.mp hstep
  have hreading : ∀ lsn ∈ s.reading.eraseIdx i, lsn ≤ s.currentLSN :=
    fun lsn hlsn => h.reading lsn (mem_of_mem_eraseIdx hlsn)
  dsimp only
  split_ifs with hskips
  · exact { h with reading := hreading }
  · obtain ⟨hunapplied, hproto⟩ := hok lsn (by rw [hget]; exact mem_singleton.mpr rfl)
      (Bool.eq_false_iff.mpr hskips)
    have hcovers : Covers start applied s.currentLSN s.unapplied lsn s.host.registry.entities :=
      ⟨h.reading lsn (mem_of_getElem? hget), hunapplied, hproto, applied, prefix_refl _,
        h.entities, fun _ he _ => he⟩
    exact { h with
      reading := hreading
      copied := forall_mem_append.mpr ⟨h.copied, forall_mem_singleton.mpr hcovers⟩ }

theorem Coverage.writeFile (hstep : s.writeFile i failed = some s') :
    Coverage config start applied s' := by
  obtain ⟨⟨lsn, entities⟩, hget, rfl⟩ := map_eq_some_iff.mp hstep
  have hcopied := fun p hp => h.copied p (mem_of_mem_eraseIdx (i := i) hp)
  split_ifs
  · exact { h with copied := hcopied }
  · refine { h with copied := hcopied, files := fun hfile => ?_ }
    rcases CheckpointDir.get_writeFile hfile with hfile | rfl
    · exact h.files hfile
    · exact .inr ⟨entities, rfl, h.copied _ (mem_of_getElem? hget)⟩

theorem Coverage.writeLatest (hstep : s.writeLatest i failed = some s') :
    Coverage config start applied s' := by
  obtain ⟨lsn, -, rfl⟩ := map_eq_some_iff.mp hstep
  split_ifs <;> exact { h with }

theorem Coverage.finish (hstep : s.finish config i = some s') :
    Coverage config start applied s' := by
  obtain ⟨lsn, -, rfl⟩ := map_eq_some_iff.mp hstep
  exact { h with files := fun hget => h.files (CheckpointDir.get_cleanup hget) }

/-- **Every piece of a call keeps the invariant.** -/
theorem Coverage.step [DecidableEq N] {ev : WalProcessEvent N V} (hok : s.CopiesApplied config ev)
    (hstep : s.step config ev = some s') : ∃ applied', Coverage config start applied' s' := by
  cases ev with
  | call _ now =>
    rw [WalProcess.step] at hstep
    split at hstep
    · exact ⟨applied, some.inj hstep ▸ h⟩
    · exact ⟨applied, some.inj hstep ▸ h.append _ now true⟩
  | remote update now => exact ⟨applied, some.inj hstep ▸ h.append update now false⟩
  | size => exact ⟨applied, h.size hstep⟩
  | write => exact ⟨applied, h.write hstep⟩
  | apply => exact h.apply hstep
  | check => exact ⟨applied, h.check hstep⟩
  | due => exact ⟨applied, h.due hstep⟩
  | checkpoint => exact ⟨applied, some.inj hstep ▸ h.createCheckpoint⟩
  | copy => exact ⟨applied, h.copy hok hstep⟩
  | writeFile => exact ⟨applied, h.writeFile hstep⟩
  | writeLatest => exact ⟨applied, h.writeLatest hstep⟩
  | finish => exact ⟨applied, h.finish hstep⟩

theorem Coverage.mem_wal {entry : WALEntry N V} : entry ∈ s.host.wal ↔ entry ∈ start.wal ∨
    entry ∈ applied ∨ ∃ pending ∈ s.written, pending.entry = entry := by
  rw [h.log.mem_iff, mem_append, mem_append, List.mem_map]
  exact or_assoc

theorem Coverage.covers (hcovers : Covers start applied s.currentLSN s.unapplied lsn entities) :
    ∃ covered, covered <+: applied ∧
      (∀ e, ((restoredEntities (checkpointEntities entities)).get e).map durable =
        ((start.registry.entities.replay (covered.map WALEntry.data)).get e).map durable) ∧
      ∀ entry ∈ s.host.wal, entry.logSequenceNumber ≤ lsn →
        entry ∈ start.wal ∨ entry ∈ covered := by
  obtain ⟨covered, hgrows, hentities, hall⟩ := hcovers.covered
  refine ⟨covered, hgrows, fun e => ?_, fun entry he hle => ?_⟩
  · rw [← hentities]
    refine durable_restored entities ?_
    rintro rfl
    exact (entities.has_eq_false_iff _).mp hcovers.proto
  · refine (h.mem_wal.mp he).imp_right fun hlogged => ?_
    rcases hlogged with happlied | ⟨pending, hpending, rfl⟩
    · exact hall entry happlied hle
    · have hlt := hcovers.unapplied pending (mem_unapplied.mpr (.inr (.inr hpending)))
      exact absurd hle (not_le.mpr hlt)

end

end Invariant

/-! ### Checkpoints cover what they claim -/

/-- The checkpoints since the start cover the entries up to their LSN, where `applied` are the
entries that were applied since the start, in this order. -/
structure CheckpointsCover (config : WalRegistryConfig N V) (start : WalHost N V)
    (applied : List (WALEntry N V)) (s : WalProcess N V) : Prop where
  /-- The entities are those after the applied updates. -/
  entities : s.host.registry.entities = start.registry.entities.replay (applied.map WALEntry.data)
  /-- Only updates with an entry are applied. -/
  subset : applied ⊆ s.host.wal
  /-- A checkpoint since the start has the entities after a first part of the applied updates, which
  has every entry up to its LSN but for those of the start; and no update that is still under way
  has such an LSN. -/
  covered : ∀ name snapshot, s.host.checkpoints.files.get name = some snapshot →
    start.checkpoints.files.get name = some snapshot ∨ (∃ covered, covered <+: applied ∧
        (∀ e, ((restoredEntities snapshot.entities).get e).map durable =
          ((start.registry.entities.replay (covered.map WALEntry.data)).get e).map
            durable) ∧
        ∀ entry ∈ s.host.wal, entry.logSequenceNumber ≤ snapshot.lsn →
          entry ∈ start.wal ∨ entry ∈ covered) ∧
      ∀ pending ∈ s.unapplied, snapshot.lsn < pending.entry.logSequenceNumber
  /-- A restart restores the latest checkpoint and replays some entries. -/
  restart : (s.host.restart config).registry.entities =
    (restoredFrom s.host.checkpoints).replay ((s.host.replayedEntries config).map WALEntry.data)
  /-- Every entry since the start is replayed if its LSN is not up to that of the checkpoint. -/
  replayed : ∀ entry ∈ s.host.wal, entry ∈ start.wal ∨
    entry.logSequenceNumber ≤ restoredLSN s.host.checkpoints ∨
    entry ∈ s.host.replayedEntries config

/-- **Checkpoints cover what they claim.** A registry is started on any files, and calls and
checkpoints interleave in any way, but no update up to the LSN of a checkpoint is under way when the
checkpoint copies the entities. Then every checkpoint has the effect of every entry up to its LSN,
and a restart replays every other entry. -/
theorem checkpoint_covers [DecidableEq N] (config : WalRegistryConfig N V) (nodeId : N)
    (wal : WALFile N V) (checkpoints : CheckpointDir N V) {es : List (WalProcessEvent N V)}
    {s : WalProcess N V}
    (hok : AllSteps (WalProcess.step config) (WalProcess.CopiesApplied config)
      (.idle (.started config nodeId wal checkpoints)) es)
    (hrun : exec (WalProcess.step config) (.idle (.started config nodeId wal checkpoints)) es =
      some s) :
    ∃ applied, CheckpointsCover config (.started config nodeId wal checkpoints) applied s := by
  obtain ⟨applied, h⟩ := exec_invariant
    (P := fun s => ∃ applied, Coverage config (.started config nodeId wal checkpoints) applied s)
    (fun _ _ _ ⟨_, hs⟩ hok hstep => hs.step hok hstep) ⟨[], coverage_idle config _⟩ hok hrun
  refine ⟨applied, h.entities, fun entry he => h.mem_wal.mpr (.inr (.inl he)),
    fun name snapshot hget => ?_, WalHost.entities_restart config s.host, fun entry he => ?_⟩
  · refine (h.files hget).imp_right ?_
    rintro ⟨entities, heq, hcovers⟩
    rw [heq]
    exact ⟨h.covers hcovers, hcovers.unapplied⟩
  · refine (h.mem_wal.mp he).imp_right fun hsince => ?_
    have hvalid : validateEntry config.toWALConfig entry = true := by
      rcases hsince with happlied | ⟨pending, hpending, rfl⟩
      · exact h.valid entry happlied
      · exact h.pending pending (mem_unapplied.mpr (.inr (.inr hpending)))
    rw [or_iff_not_imp_left, not_le]
    intro hlt
    exact mem_filter.mpr ⟨mem_filter.mpr ⟨WALFile.mem_readEntries.mpr he, hvalid⟩,
      decide_eq_true hlt⟩

/-- An entity is created, and a checkpoint reads the LSN and copies the entities while the next
call, which begins in between, is under way. -/
def checkpointDuringUpdate : List (WalProcessEvent String ℕ) :=
  [.call (.proposeEntity "e" none) 0, .size 0 none, .write 0 none, .apply 0, .check, .checkpoint,
    .call (.updateEntity "e" .empty) 1, .copy 0, .size 0 none, .writeFile 0 false, .write 0 none,
    .writeLatest 0 false, .apply 0, .finish 0]

theorem checkpoint_covers_checkpointDuringUpdate : ∃ s, exec (WalProcess.step onDemandConfig)
        (.idle (.started onDemandConfig "n1" [] .empty)) checkpointDuringUpdate = some s ∧
      ∃ applied, CheckpointsCover onDemandConfig (.started onDemandConfig "n1" [] .empty)
        applied s := by
  have hok : AllSteps (WalProcess.step onDemandConfig) (WalProcess.CopiesApplied onDemandConfig)
      (.idle (.started onDemandConfig "n1" [] .empty)) checkpointDuringUpdate := by decide
  exact ⟨_, rfl, checkpoint_covers onDemandConfig "n1" [] .empty hok rfl⟩

def checkpointDuringCreate : List (WalProcessEvent String ℕ) :=
  [.call (.proposeEntity "e" none) 0, .checkpoint, .copy 0, .writeFile 0 false,
    .writeLatest 0 false, .finish 0, .size 0 none, .write 0 none, .apply 0, .check]

theorem foldl_apply_create {u : EntityUpdate N V} (hop : u.operation = .create)
    (r : EntityRecord N V) :
    (us : List (EntityUpdate N V)) → (∀ v ∈ us, v = u) →
      us.foldl (fun record v => (v.apply record).1) (some r) = some r
  | [], _ => rfl
  | v :: us, h => by
    obtain rfl := h v mem_cons_self
    have hv : (v.apply (some r)).1 = some r := by simp [EntityUpdate.apply, hop]
    rw [foldl_cons, hv]
    exact foldl_apply_create hop r us fun w hw => h w (mem_cons_of_mem _ hw)

theorem get_replay_create {u : EntityUpdate N V} (hop : u.operation = .create)
    {us : List (EntityUpdate N V)} (hus : ∀ v ∈ us, v = u) (hne : us ≠ []) :
    (Entities.replay .empty us).get u.entityId = some u.newRecord := by
  have hall : us.filter (fun v => v.entityId = u.entityId) = us :=
    filter_eq_self.mpr fun v hv => decide_eq_true (congrArg _ (hus v hv))
  rw [Entities.get_replay, hall, OrderedMap.get_empty]
  cases us with
  | nil => exact absurd rfl hne
  | cons v us =>
    obtain rfl := hus v mem_cons_self
    have hv : (v.apply none).1 = some v.newRecord := by simp [EntityUpdate.apply, hop]
    rw [foldl_cons, hv]
    exact foldl_apply_create hop _ us fun w hw => hus w (mem_cons_of_mem _ hw)

/-- A checkpoint can miss an acknowledged update: it has the LSN of an update that has begun but is
not applied yet. -/
theorem not_covers_of_pending_append :
    ¬ ∀ (config : WalRegistryConfig String ℕ) (nodeId : String) (wal : WALFile String ℕ)
      (checkpoints : CheckpointDir String ℕ) (es : List (WalProcessEvent String ℕ))
      (s : WalProcess String ℕ),
      exec (WalProcess.step config) (.idle (.started config nodeId wal checkpoints)) es = some s →
      ∃ applied, CheckpointsCover config (.started config nodeId wal checkpoints) applied s := by
  intro hall
  obtain ⟨applied, hcover⟩ := hall onDemandConfig "n1" [] .empty checkpointDuringCreate _ rfl
  rcases hcover.covered (checkpointFilename 1) _ rfl with
    hget | ⟨⟨covered, hfirst, hdurable, hmem⟩, -⟩
  · exact nomatch hget
  · rcases hmem _ mem_cons_self le_rfl with hnil | hentry
    · exact nomatch hnil
    · -- the log has only the entry of the `CREATE`
      have hsame : ∀ u ∈ covered.map WALEntry.data, u = _ := fun u hu => by
        obtain ⟨entry, he, rfl⟩ := List.mem_map.mp hu
        exact congrArg _ (mem_singleton.mp (hcover.subset (hfirst.subset he)))
      have hcreated := get_replay_create rfl hsame (ne_nil_of_mem (mem_map_of_mem hentry))
      have hlost : none = some _ := (hdurable "e").trans (congrArg _ hcreated)
      exact nomatch hlost

end DistributedCore.Entity
