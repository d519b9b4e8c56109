import DistributedCore.Messaging.BusCompaction

/-!
# Events published during a compaction

A compaction has met the end of the log before publishes are made to wait for it, and a publish that
has passed the check may write to the old log until the old writer is closed. What is written to the
log between the end of the reading and the removal of the log is gone. If no write falls in between,
and if the rewriting of the log does not fail, then every event whose publish is resolved is in the
log or has been superseded.

Source: `src/messaging/EventBus.ts`, `src/persistence/wal/WALWriter.ts`,
`src/persistence/wal/WALFile.ts`.
-/

namespace DistributedCore.Messaging

open Persistence List Option

variable {P : Type}

namespace CompactingBus

/-! ### The events of the publishes -/

def issued (s : CompactingBus P) : List (BusEvent P) := s.publishes.map PublishTask.event

/-- The publishes that have written their entries have their events among the given ones, or
superseded by them. -/
def Keeps (n : ℕ) (s : CompactingBus P) (events : List (BusEvent P)) : Prop :=
  ∀ task ∈ s.publishes, task.stage.isLogged = true → Retained n events task.event

/-- The log as it is before a compaction removes it: the events of the publishes that have written
theirs are there, and every event is from a publish or from before the run, when the counter was at
`start`. -/
structure Present (config : EventBusConfig P) (start : ℤ) (publishes : List (PublishTask P))
    (wal : BusFile P) : Prop where
  logged : ∀ task ∈ publishes, task.stage.isLogged = true →
    task.event ∈ busEvents config.toWALConfig wal
  known : ∀ event ∈ busEvents config.toWALConfig wal,
    event.version ≤ start ∨ event ∈ publishes.map PublishTask.event

variable (config : EventBusConfig P) {wal : BusFile P} {entry : BusEntry P}

/-- The logged events are in the file, or the compaction writes them again. -/
def Tracks (n : ℕ) (start : ℤ) (s : CompactingBus P) : Compaction P → Prop
  | .idle | .opening | .aborted => s.walWriter ≠ none ∧ Present config start s.publishes s.wal
  | .reading pos _ top => s.walWriter ≠ none ∧ Present config start s.publishes s.wal ∧
      pos ≤ s.wal.length ∧ top = topByType n (busEvents config.toWALConfig (s.wal.take pos))
  | .closingReader c | .closingWriter c _ =>
      s.walWriter ≠ none ∧ Present config start s.publishes s.wal ∧
      c.sorted = keptEvents n (busEvents config.toWALConfig s.wal)
  | .unlinking c => Present config start s.publishes s.wal ∧
      c.sorted = keptEvents n (busEvents config.toWALConfig s.wal)
  | .creating c => s.Keeps n (busEvents config.toWALConfig s.wal ++ c.sorted)
  | .sizing _ fresh entry left | .writing _ fresh entry left =>
      fresh.isOpen = true ∧ validateEntry config.toWALConfig entry = true ∧
        s.Keeps n (busEvents config.toWALConfig s.wal ++ ((eventOf entry).toList ++ left))
  | .closing _ => s.Keeps n (busEvents config.toWALConfig s.wal)
  | .reopening .. | .finished _ =>
      s.walWriter ≠ none ∧ s.Keeps n (busEvents config.toWALConfig s.wal)
  | .failed => False

/-- **The invariant.** Versions increase from publish to publish, the entries that wait to be
written are those of their events, and no event is missing. -/
structure Safe (config : EventBusConfig P) (n : ℕ) (start : ℤ) (s : CompactingBus P) : Prop where
  le_counter : start ≤ s.versionCounter
  versions : ∀ event ∈ s.issued, start < event.version ∧ event.version ≤ s.versionCounter
  increasing : s.issued.Pairwise fun a b => a.version < b.version
  prepared : ∀ task ∈ s.publishes, ∀ entry, task.stage.entry = some entry →
    validateEntry config.toWALConfig entry = true ∧ entry.data = walUpdate task.event
  tracks : s.Tracks config n start s.compaction

section Tasks

variable {config : EventBusConfig P} {n : ℕ} {start : ℤ} {s : CompactingBus P} {event : BusEvent P}
  {k : ℕ} {old new : PublishStage P}

theorem issued_setStage (new : PublishStage P)
    (htask : s.publishes[k]? = some ⟨event, old⟩) : (s.setStage k event new).issued = s.issued := by
  have hsame : s.issued[k]? = some event := by
    rw [issued, getElem?_map, htask]
    rfl
  obtain ⟨hk, hget⟩ := List.getElem?_eq_some_iff.mp hsame
  rw [issued, setStage, map_set]
  exact (congrArg (s.issued.set k) hget.symm).trans (set_getElem_self hk)

theorem mem_issued_setStage {e : BusEvent P}
    (new : PublishStage P) (htask : s.publishes[k]? = some ⟨event, old⟩) :
    e ∈ (s.setStage k event new).issued ↔ e ∈ s.issued := by rw [issued_setStage new htask]

section

variable (h : s.Tracks config n start s.compaction)

include h

theorem Tracks.not_isUnlogged : ¬ s.IsUnlogged := by
  rintro ⟨hgate, hnone⟩
  cases hc : s.compaction <;> rw [hc] at h hgate
  case idle | opening | aborted | reading | closingReader | finished => exact h.1 hnone
  case failed => exact h
  all_goals cases hgate

/-- What is tracked carries over to a step of a publish: the log may grow, but not in the window
between the end of the reading and the removal of the log. -/
theorem Tracks.transfer (s' : CompactingBus P)
    (hcompaction : s'.compaction = s.compaction) (hwriter : s'.walWriter = s.walWriter)
    (hgrows : s.wal <+: s'.wal) (hpast : s'.wal = s.wal ∨ s.compaction.isPastEnd = false)
    (hpresent : Present config start s.publishes s.wal → Present config start s'.publishes s'.wal)
    (hkeeps : ∀ later, s.Keeps n (busEvents config.toWALConfig s.wal ++ later) →
      s'.Keeps n (busEvents config.toWALConfig s'.wal ++ later)) :
    s'.Tracks config n start s'.compaction := by
  have hkeeps' : s.Keeps n (busEvents config.toWALConfig s.wal) →
      s'.Keeps n (busEvents config.toWALConfig s'.wal) := by simpa using hkeeps []
  have hsame : s.compaction.isPastEnd = true → s'.wal = s.wal := fun hend =>
    hpast.resolve_right fun hopen => absurd (hend.symm.trans hopen) Bool.true_eq_false_eq_False
  rw [hcompaction]
  cases hc : s.compaction <;> rw [hc] at h hsame <;> simp only [Tracks, hwriter] at h ⊢
  case idle | opening | aborted => exact ⟨h.1, hpresent h.2⟩
  case reading pos count top =>
    obtain ⟨hsome, hlog, hpos, htop⟩ := h
    obtain ⟨more, hmore⟩ := hgrows
    refine ⟨hsome, hpresent hlog, ?_, ?_⟩
    · exact hmore ▸ hpos.trans (length_append ▸ Nat.le_add_right _ _)
    · rw [← hmore, take_append_of_le_length hpos]
      exact htop
  case closingReader | closingWriter => exact ⟨h.1, hpresent h.2.1, hsame rfl ▸ h.2.2⟩
  case unlinking => exact ⟨hpresent h.1, hsame rfl ▸ h.2⟩
  case creating => exact hkeeps _ h
  case sizing | writing => exact ⟨h.1, h.2.1, hkeeps _ h.2.2⟩
  case closing => exact hkeeps' h
  case reopening | finished => exact ⟨h.1, hkeeps' h.2⟩

end

theorem mem_setStage {stage : PublishStage P} {task : PublishTask P}
    (h : task ∈ (s.setStage k event stage).publishes) :
    task ∈ s.publishes ∨ task = ⟨event, stage⟩ :=
  mem_or_eq_of_mem_set h

section

variable (h : s.Safe config n start)

include h

theorem Safe.setStage (htask : s.publishes[k]? = some ⟨event, old⟩)
    (hentry : ∀ entry, new.entry = some entry → old.entry = some entry ∨
      validateEntry config.toWALConfig entry = true ∧ entry.data = walUpdate event)
    (writers : List WALWriter) (htracks : Tracks config n start
      { s.setStage k event new with writers := writers, wal := wal } s.compaction) :
    Safe config n start { s.setStage k event new with writers := writers, wal := wal } := by
  have hissued := issued_setStage new htask
  constructor
  · exact h.le_counter
  · exact fun e he => h.versions e (hissued ▸ he)
  · exact hissued.symm ▸ h.increasing
  · intro task ht entry hsome
    rcases mem_setStage ht with ht | rfl
    · exact h.prepared task ht entry hsome
    · exact (hentry entry hsome).elim (h.prepared _ (mem_of_getElem? htask) entry) id
  · exact htracks

theorem Safe.moved (writers : List WALWriter) (htask : s.publishes[k]? = some ⟨event, old⟩)
    (hfollows : s.Follows config event old new) :
    Safe config n start { s.setStage k event new with writers := writers } := by
  have hold : (⟨event, old⟩ : PublishTask P) ∈ s.publishes := mem_of_getElem? htask
  have hwas : new.isLogged = true → old.isLogged = true := fun hlogged =>
    (hfollows.logged hlogged).resolve_right h.tracks.not_isUnlogged
  refine h.setStage htask hfollows.entry writers ?_
  refine h.tracks.transfer { s.setStage k event new with writers := writers } rfl rfl
    (prefix_refl _) (.inl rfl) (fun hpresent => ⟨?_, ?_⟩) ?_
  · intro task ht hl
    rcases mem_setStage ht with ht | rfl
    · exact hpresent.logged task ht hl
    · exact hpresent.logged ⟨event, old⟩ hold (hwas hl)
  · exact fun e he => (hpresent.known e he).imp_right (mem_issued_setStage new htask).mpr
  · intro events hkeeps task ht hl
    rcases mem_setStage ht with ht | rfl
    · exact hkeeps task ht hl
    · exact hkeeps ⟨event, old⟩ hold (hwas hl)

theorem Safe.written {w : ℕ} (htask : s.publishes[k]? = some ⟨event, .writing w entry⟩)
    (hpast : s.compaction.isPastEnd = false) :
    Safe config n start { s.setStage k event .appended with wal := s.wal ++ [entry] } := by
  have hold : (⟨event, .writing w entry⟩ : PublishTask P) ∈ s.publishes := mem_of_getElem? htask
  obtain ⟨hvalid, hdata⟩ := h.prepared _ hold entry rfl
  have hevents : busEvents config.toWALConfig (s.wal ++ [entry]) =
      busEvents config.toWALConfig s.wal ++ [event] := busEvents_concat hvalid hdata
  have hissued : event ∈ s.issued := mem_map_of_mem hold
  refine h.setStage htask (by intro _ h; cases h) s.writers ?_
  refine h.tracks.transfer { s.setStage k event .appended with wal := s.wal ++ [entry] } rfl rfl
    (prefix_append _ _) (.inr hpast) (fun hpresent => ⟨?_, ?_⟩) ?_
  · rw [hevents]
    intro task ht hl
    rcases mem_setStage ht with ht | rfl
    · exact mem_append_left _ (hpresent.logged task ht hl)
    · exact mem_append_right _ mem_cons_self
  · rw [hevents]
    intro e he
    have hknown : e.version ≤ start ∨ e ∈ s.issued := by
      rcases mem_append.mp he with he | he
      · exact hpresent.known e he
      · exact .inr (mem_singleton.mp he ▸ hissued)
    exact hknown.imp_right (mem_issued_setStage .appended htask).mpr
  · rw [hevents]
    intro later hkeeps task ht hl
    rcases mem_setStage ht with ht | rfl
    · exact (hkeeps task ht hl).of_sublist ((sublist_append_left _ _).append_right later)
    · exact .inl (mem_append_left _ (mem_append_right _ mem_cons_self))

end

end Tasks

/-! ### The compaction -/

section Compacting

variable {config : EventBusConfig P} {n now : ℕ} {start : ℤ} {s s' : CompactingBus P}
  {top : OrderedMap String (List (BusEvent P))}

theorem Safe.of_publishes_eq (h : s.Safe config n start) (hpublishes : s'.publishes = s.publishes)
    (hcounter : s.versionCounter ≤ s'.versionCounter)
    (htracks : s'.Tracks config n start s'.compaction) : s'.Safe config n start := by
  have hissued : s'.issued = s.issued := congrArg (List.map PublishTask.event) hpublishes
  refine ⟨h.le_counter.trans hcounter, ?_, hissued.symm ▸ h.increasing, ?_, htracks⟩
  · intro e he
    have hversion := h.versions e (hissued ▸ he)
    exact ⟨hversion.1, hversion.2.trans hcounter⟩
  · exact fun task ht => h.prepared task (hpublishes ▸ ht)

theorem topByType_readEntry {count count' pos : ℕ} {top' : OrderedMap String (List (BusEvent P))}
    (hentry : wal[pos]? = some entry)
    (htop : top = topByType n (busEvents config.toWALConfig (wal.take pos)))
    (h : readEntry config n count top entry = some (count', top')) :
    top' = topByType n (busEvents config.toWALConfig (wal.take (pos + 1))) := by
  rw [take_add_one, hentry, toList_some]
  rw [readEntry] at h
  by_cases hvalid : validateEntry config.toWALConfig entry = true
  · rw [if_neg (by rw [hvalid]; decide)] at h
    rw [busEvents_concat_valid _ hvalid]
    by_cases hbus : isBusEntry entry = true
    · rw [if_neg (by rw [hbus]; decide)] at h
      cases hevent : eventOf entry with
      | some =>
        rw [hevent] at h
        cases h
        rw [toList_some, topByType_concat, htop]
      | none =>
        rw [hevent] at h
        split_ifs at h
        cases h
        rw [toList_none, append_nil, htop]
    · have hnone : eventOf entry = none := by rw [eventOf, if_neg hbus]
      rw [if_pos (by simpa using hbus)] at h
      cases h
      rw [hnone, toList_none, append_nil, htop]
  · rw [if_pos (by simpa using hvalid)] at h
    cases h
    rw [busEvents_append, busEvents_eq _ [_], filter_cons_of_neg hvalid, filter_nil,
      filterMap_nil, append_nil, htop]

theorem Safe.keeps_kept (h : s.Safe config n start) (hn : 0 < n)
    (hpresent : Present config start s.publishes s.wal) :
    s.Keeps n (keptEvents n (busEvents config.toWALConfig s.wal)) := by
  intro task ht hlogged
  refine retained_keptEvents hn (hpresent.logged task ht hlogged) fun e he _ hversion => ?_
  have hnodup : (s.issued.map BusEvent.version).Nodup :=
    (pairwise_map.mpr h.increasing).imp ne_of_lt
  have hissued : task.event ∈ s.issued := mem_map_of_mem ht
  rcases hpresent.known e he with hold | hnew
  · exact absurd (hversion ▸ (h.versions _ hissued).1) (not_lt.mpr hold)
  · exact inj_on_of_nodup_map hnodup hnew hissued hversion

theorem isOpen_initialized (wal : BusFile P) : (WALWriter.initialized wal).isOpen = true := by
  rw [WALWriter.initialized]
  split_ifs <;> rfl

theorem tracks_appendNext {c : Collected P} {fresh : WALWriter} {left : List (BusEvent P)}
    (hopen : fresh.isOpen = true)
    (hkeeps : s.Keeps n (busEvents config.toWALConfig s.wal ++ left)) :
    s.Tracks config n start (appendNext config c fresh now left) := by
  cases left with
  | nil =>
    rw [append_nil] at hkeeps
    exact hkeeps
  | cons event =>
    have hvalid := validateEntry_createEntry config.toWALConfig fresh (walUpdate event) now
    rw [appendNext]
    dsimp only
    rw [if_neg (by rw [hvalid]; decide)]
    refine ⟨hopen, hvalid, ?_⟩
    rw [eventOf_walUpdate rfl]
    exact hkeeps

section

variable (h : s.Safe config n start) {ev : CompactingBusEvent P}

include h

theorem Safe.fail (hrewriting : ¬ s.compaction.isRewriting = true)
    (hfail : s.fail = some s') : s'.Safe config n start := by
  have htracks := h.tracks
  rw [CompactingBus.fail] at hfail
  cases hc : s.compaction <;> rw [hc] at hfail htracks hrewriting
  case opening =>
    cases hfail
    exact h.of_publishes_eq rfl le_rfl htracks
  case reading | closingReader | closingWriter =>
    cases hfail
    exact h.of_publishes_eq rfl le_rfl ⟨htracks.1, htracks.2.1⟩
  case idle | finished | aborted | failed => cases hfail
  all_goals exact absurd rfl hrewriting

theorem Safe.proceed (hn : 0 < n)
    (hsize : s.compaction.isSizing = true → s.wal.getSize config.toWALConfig ≤ config.maxFileSize)
    (hproceed : s.proceed config n now = some s') : s'.Safe config n start := by
  have htracks := h.tracks
  rw [CompactingBus.proceed] at hproceed
  cases hc : s.compaction with
  | opening =>
    rw [hc] at hproceed htracks
    cases hproceed
    exact h.of_publishes_eq rfl le_rfl ⟨htracks.1, htracks.2, Nat.zero_le _, rfl⟩
  | reading pos =>
    rw [hc] at hproceed htracks
    obtain ⟨hwriter, hpresent, -, htop⟩ := htracks
    dsimp only at hproceed
    cases hentry : s.wal[pos]? with
    | none =>
      rw [hentry] at hproceed
      cases hproceed
      refine h.of_publishes_eq rfl le_rfl ⟨hwriter, hpresent, ?_⟩
      rw [take_of_length_le (getElem?_eq_none_iff.mp hentry)] at htop
      rw [htop]
      rfl
    | some entry =>
      rw [hentry] at hproceed
      dsimp only at hproceed
      cases hread : readEntry config n _ _ entry with
      | none =>
        rw [hread] at hproceed
        cases hproceed
        exact h.of_publishes_eq rfl le_rfl ⟨hwriter, hpresent⟩
      | some =>
        rw [hread] at hproceed
        cases hproceed
        have hlt : pos < s.wal.length := (List.getElem?_eq_some_iff.mp hentry).1
        exact h.of_publishes_eq rfl le_rfl
          ⟨hwriter, hpresent, hlt, topByType_readEntry hentry htop hread⟩
  | closingReader =>
    rw [hc] at hproceed htracks
    obtain ⟨w, hw⟩ := ne_none_iff_exists'.mp htracks.1
    rw [hw] at hproceed
    cases hproceed
    exact h.of_publishes_eq rfl le_rfl ⟨some_ne_none w, htracks.2⟩
  | closingWriter =>
    rw [hc] at hproceed htracks
    dsimp only at hproceed
    split_ifs at hproceed
    cases hproceed
    exact h.of_publishes_eq rfl le_rfl htracks.2
  | unlinking =>
    rw [hc] at hproceed htracks
    cases hproceed
    refine h.of_publishes_eq rfl le_rfl ?_
    have hkeeps := htracks.2 ▸ h.keeps_kept hn htracks.1
    exact hkeeps
  | creating =>
    rw [hc] at hproceed htracks
    cases hproceed
    exact h.of_publishes_eq rfl le_rfl (tracks_appendNext (isOpen_initialized s.wal) htracks)
  | sizing =>
    rw [hc] at hproceed htracks hsize
    dsimp only at hproceed
    rw [if_neg (not_lt.mpr (hsize rfl)), if_neg (by rw [htracks.1]; decide)] at hproceed
    cases hproceed
    exact h.of_publishes_eq rfl le_rfl htracks
  | writing =>
    rw [hc] at hproceed htracks
    cases hproceed
    obtain ⟨hopen, hvalid, hkeeps⟩ := htracks
    refine h.of_publishes_eq rfl le_rfl (tracks_appendNext hopen ?_)
    rw [busEvents_concat_valid s.wal hvalid, append_assoc]
    exact hkeeps
  | closing =>
    rw [hc] at hproceed htracks
    cases hproceed
    exact h.of_publishes_eq rfl le_rfl ⟨some_ne_none _, htracks⟩
  | reopening =>
    rw [hc] at hproceed htracks
    cases hproceed
    exact h.of_publishes_eq rfl (BusHost.le_raisedCounter _ _) htracks
  | idle => rw [hc] at hproceed; cases hproceed
  | finished => rw [hc] at hproceed; cases hproceed
  | aborted => rw [hc] at hproceed; cases hproceed
  | failed => rw [hc] at hproceed; cases hproceed

/-- **One step** of a publish. -/
theorem Safe.publishStep (hsheltered : s.Sheltered config ev) (hstep : s.PublishStep config ev s') :
    s'.Safe config n start := by
  cases hstep with
  | called _ _ _ _ event writers stage hversion hfollows =>
    have hunlogged : ¬ stage.isLogged = true := fun hlogged =>
      (hfollows.logged hlogged).elim (fun h => nomatch h) h.tracks.not_isUnlogged
    have hissued : issued { s with
        versionCounter := s.versionCounter + 1
        writers := writers
        publishes := s.publishes ++ [⟨event, stage⟩] } = s.issued ++ [event] := map_append
    -- the new publish is not logged, so the old ones are all there is to say
    have hlogged : ∀ task ∈ s.publishes ++ [⟨event, stage⟩], task.stage.isLogged = true →
        task ∈ s.publishes := fun task ht hlogged =>
      (mem_append.mp ht).elim id fun hnew => by
        obtain rfl := mem_singleton.mp hnew
        exact absurd hlogged hunlogged
    constructor
    · exact h.le_counter.trans (Int.le_add_one le_rfl)
    · rw [hissued]
      intro e he
      rcases mem_append.mp he with he | he
      · exact ⟨(h.versions e he).1, (h.versions e he).2.trans (Int.le_add_one le_rfl)⟩
      · rw [mem_singleton.mp he, hversion]
        exact ⟨Int.lt_add_one_of_le h.le_counter, le_rfl⟩
    · rw [hissued, pairwise_append]
      refine ⟨h.increasing, pairwise_singleton _ _, fun e he e' he' => ?_⟩
      rw [mem_singleton.mp he', hversion]
      exact Int.lt_add_one_of_le (h.versions e he).2
    · intro task ht entry hentry
      rcases mem_append.mp ht with ht | ht
      · exact h.prepared task ht entry hentry
      · obtain rfl := mem_singleton.mp ht
        exact (hfollows.entry entry hentry).resolve_left (fun h => nomatch h)
    · refine h.tracks.transfer _ rfl rfl (prefix_refl _) (.inl rfl) (fun hpresent => ⟨?_, ?_⟩) ?_
      · exact fun task ht hl => hpresent.logged task (hlogged task ht hl) hl
      · intro e he
        rw [map_append]
        exact (hpresent.known e he).imp_right (mem_append_left _)
      · exact fun later hkeeps task ht hl => hkeeps task (hlogged task ht hl) hl
  | moved _ _ _ _ _ writers htask hfollows => exact h.moved writers htask hfollows
  | written _ _ _ _ htask => exact h.written htask hsheltered
  | sync _ _ htask =>
    refine h.moved s.writers htask ?_
    split_ifs
    · exact follows_rejected rfl _
    · exact follows_logged rfl rfl rfl rfl
  | unsynced _ _ _ htask => exact h.moved s.writers htask (follows_rejected rfl _)
  | synced _ _ htask => exact h.moved s.writers htask (follows_logged rfl rfl rfl rfl)

/-- **One step** of a publish or of the compaction. -/
theorem Safe.step (hn : 0 < n)
    (hsheltered : s.Sheltered config ev) (hstep : s.step config n ev = some s') :
    s'.Safe config n start := by
  cases step_cases hstep with
  | publish _ hpublish => exact h.publishStep hsheltered hpublish
  | compact hidle =>
    have htracks := h.tracks
    rw [hidle] at htracks
    exact h.of_publishes_eq rfl le_rfl htracks
  | failed _ _ hfail =>
    exact h.fail (fun hrewriting => nomatch (hsheltered hrewriting).1) hfail
  | proceeded _ hproceed =>
    refine h.proceed hn (fun hsizing => ?_) hproceed
    have hrewriting : s.compaction.isRewriting = true := by
      cases hc : s.compaction <;> rw [hc] at hsizing <;> first | rfl | cases hsizing
    exact (hsheltered hrewriting).2 hsizing

end

end Compacting

theorem safe_started (n : ℕ) (hwal : Consistent wal) :
    (started config wal).Safe config n (restoredVersion config.toWALConfig wal) where
  le_counter := le_rfl
  versions := fun _ he => nomatch he
  increasing := .nil
  prepared := fun _ ht => nomatch ht
  tracks := by
    refine ⟨some_ne_none 0, ⟨fun _ ht => (nomatch ht), fun event he => .inl ?_⟩⟩
    rw [restoredVersion_eq config.toWALConfig hwal]
    exact le_maxVersion he

/-- **No event is lost**: along every schedule of publishes and one compaction in which no event is
written between the end of the reading and the removal of the log, and in which the rewriting is
not refused, once the compaction has ended, the event of every resolved publish is in the log, or
`n` newer events of its type are. -/
theorem resolved_retained (n : ℕ) (events : List (CompactingBusEvent P))
    {wal : BusFile P} {s : CompactingBus P} (hwal : Consistent wal) (hn : 0 < n)
    (hrun : exec (step config n) (started config wal) events = some s)
    (hsheltered : AllSteps (step config n) (Sheltered config) (started config wal) events)
    (hended : s.compaction.isEnded = true) :
    ∀ task ∈ s.publishes, task.stage = .resolved →
      Retained n (busEvents config.toWALConfig s.wal) task.event := by
  have hsafe : s.Safe config n (restoredVersion config.toWALConfig wal) :=
    exec_invariant (fun _ _ _ h hsheltered hstep => h.step hn hsheltered hstep)
      (safe_started config n hwal) hsheltered hrun
  intro task ht hresolved
  have hlogged : task.stage.isLogged = true := by
    rw [hresolved]
    rfl
  have htracks := hsafe.tracks
  cases hc : s.compaction <;> rw [hc] at htracks hended
  case idle | aborted => exact .inl (htracks.2.logged task ht hlogged)
  case finished => exact htracks.2 task ht hlogged
  case failed => exact htracks.elim
  all_goals cases hended

/-! ### An event that is lost -/

def publishSteps (k : ℕ) (id type : String) (payload now : ℕ) : List (CompactingBusEvent ℕ) :=
  [.publish id type payload now, .sized k, .written k none, .sync k, .synced k none, .sent k none]

def shelteredEvents : List (CompactingBusEvent ℕ) :=
  publishSteps 0 "e1" "a" 1 10 ++ [.compact, .advance 11 none, .advance 11 none] ++
    publishSteps 1 "e2" "a" 2 12 ++ List.replicate 10 (.advance 13 none)

/-- The second event of `shelteredEvents` supersedes the first one. -/
theorem resolved_retained_shelteredEvents :
    ∃ s, exec (step BusHost.sampleConfig 1) (started BusHost.sampleConfig []) shelteredEvents =
        some s ∧
      (busEvents BusHost.sampleConfig.toWALConfig s.wal).map BusEvent.version = [2] ∧
      ∀ task ∈ s.publishes, task.stage = .resolved →
        Retained 1 (busEvents BusHost.sampleConfig.toWALConfig s.wal) task.event :=
  ⟨_, rfl, by decide +kernel,
    resolved_retained BusHost.sampleConfig 1 shelteredEvents consistent_nil
    (by decide) rfl (by decide +kernel) (by decide +kernel)⟩

def lostEvents : List (CompactingBusEvent ℕ) :=
  publishSteps 0 "e1" "a" 1 10 ++
    [.compact, .advance 11 none, .advance 11 none, .advance 11 none] ++
    publishSteps 1 "e2" "a" 2 12 ++ List.replicate 8 (.advance 13 none)

/-- An event that is published between the end of the reading and the removal of the log is lost. -/
theorem event_lost_during_compaction :
    ¬ ∀ (P : Type) (config : EventBusConfig P) (n : ℕ) (events : List (CompactingBusEvent P))
      (s : CompactingBus P), 0 < n → exec (step config n) (started config []) events = some s →
        s.AllFinished → ∀ task ∈ s.publishes, task.stage = .resolved →
          Retained n (busEvents config.toWALConfig s.wal) task.event := by
  intro hall
  have hretained := hall ℕ BusHost.sampleConfig 1 lostEvents _ (by decide) rfl (by decide +kernel)
    ⟨⟨"e2", "a", 2, 12, "n", 2⟩, .resolved⟩ (.tail _ (.head _)) rfl
  exact absurd hretained (by decide +kernel)

end CompactingBus

end DistributedCore.Messaging
