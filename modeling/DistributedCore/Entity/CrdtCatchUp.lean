import DistributedCore.Entity.CrdtClock
import DistributedCore.Entity.CrdtConvergence

/-!
# Catching up from the log of a CRDT registry

A fresh `CrdtEntityRegistry` that applies `getUpdatesAfter(0)` of another one, in the order of
the log, is meant to end with the same live entities. The log does not say everything, though. A
write that loses is not logged, but a `DELETE` that loses is. A local `DELETE` is logged without
an author, and a local `TRANSFER` is logged under the new owner, while the registry itself has
stamped both with its own id. The author of a tombstone turns out not to matter. The author of a
transferred entity does: a later update with the same logical time may win against one of the two
authors and lose against the other (`not_catchesUp_of_transfer_tie`).

Source: `src/cluster/entity/CrdtEntityRegistry.ts`.
-/

namespace DistributedCore.Entity

open CrdtEntityRegistry Option Prod EntityUpdate List

variable {N V : Type}

/-! ### Catching up -/

def CrdtEntityRegistry.getUpdatesAfter (r : CrdtEntityRegistry N V) (version : ℤ) :
    List (EntityUpdate N V) :=
  r.updateLog.filter fun u => u.version > version

variable [LinearOrder N] [OrderBot N] (r : CrdtEntityRegistry N V)

/-- A fresh registry that applies `getUpdatesAfter(0)` in the order of the log, at any times, has
the live entities of `r`, with their owners, versions and metadata. -/
def CatchesUp : Prop :=
  ∀ (y : N) (ds : List (EntityUpdate N V × ℕ)), ds.map Prod.fst = r.getUpdatesAfter 0 →
    ∀ e, liveView (receive (create y).start ds) e = liveView r e

/-- If `u` has the logical time of an entity that this node has transferred, it is on the same
side of this node, which is the author of the entry, and of the new owner, which is the author of
the logged `TRANSFER`. -/
def TieAgrees (u : EntityUpdate N V) : Prop :=
  match r.entries.get u.entityId with
  | none => True
  | some c => c.logicalTs = u.version → c.authorNodeId = r.nodeId → ∀ owner ∈ c.record.ownerNodeId,
        (r.nodeId ≤ u.ownerNodeId.getD ⊥ ↔ owner ≤ u.ownerNodeId.getD ⊥)

/-- The operation is a local call or the merge of an update that has a positive version, as all
updates of peers have, and decides ties with transferred entities as the replay does. -/
def Replayable : CrdtEvent N V → Prop
  | .start | .stop | .call .. => True
  | .applyRemoteUpdate u _ => 0 < u.version ∧ TieAgrees r u
  | .compact _ | .importSnapshot _ => False

/-! ### Registers of the replay -/

/-- The register of an entity on node `x`, and its register in the replay: a tombstone may have a
smaller stamp in the replay, and a transferred entity has the new owner as its author there. -/
inductive Replayed (x : N) : Option (Stamp N × Option (EntityView N V)) →
    Option (Stamp N × Option (EntityView N V)) → Prop
  | absent : Replayed x none none
  | deleted {m m' : Stamp N} (le : m' ≤ m) : Replayed x (some (m, none)) (some (m', none))
  | same {m : Stamp N} {v : EntityView N V} : Replayed x (some (m, some v)) (some (m, some v))
  | transferred {t : ℤ} {owner : N} {v : EntityView N V} (owned : v.ownerNodeId = some owner) :
      Replayed x (some (toLex (t, x), some v)) (some (toLex (t, owner), some v))

namespace Replayed

variable {x : N} {slot slot' : Option (Stamp N × Option (EntityView N V))} {u : EntityUpdate N V}

omit [OrderBot N] in
theorem payload_eq (h : Replayed x slot slot') : slot'.map snd = slot.map snd := by cases h <;> rfl

/-- The author and the owner of the stored entry compare alike with the update. -/
def Agrees (x : N) (u : EntityUpdate N V)
    (slot : Option (Stamp N × Option (EntityView N V))) : Prop :=
  ∀ v owner, slot = some (toLex (u.version, x), some v) → v.ownerNodeId = some owner →
    (x ≤ u.ownerNodeId.getD ⊥ ↔ owner ≤ u.ownerNodeId.getD ⊥)

theorem transferred_le_iff {t : ℤ} {owner : N} {v : EntityView N V}
    (owned : v.ownerNodeId = some owner) (htie : Agrees x u (some (toLex (t, x), some v))) :
    (toLex (t, owner) : Stamp N) ≤ u.stamp ↔ (toLex (t, x) : Stamp N) ≤ u.stamp := by
  rw [stamp, Lex.toLex_le_toLex, Lex.toLex_le_toLex]
  by_cases ht : t = u.version
  · subst ht
    simp only [lt_irrefl, false_or, true_and]
    exact (htie v owner rfl owned).symm
  · simp [ht]

theorem lwwWrite_eq (h : Replayed x slot slot') (htie : Agrees x u slot)
    (hwins : ∀ c ∈ slot, c.1 ≤ u.stamp) :
    lwwWrite slot' u.toWrite = some (u.stamp, u.effect (slot.map snd)) := by
  have hwins' : ∀ c ∈ slot', c.1 ≤ u.toWrite.stamp := by
    cases h with
    | absent => exact fun c hc => nomatch hc
    | deleted le => exact fun c hc => some.inj hc ▸ le.trans (hwins _ rfl)
    | same => exact hwins
    | transferred owned =>
      exact fun c hc => some.inj hc ▸ (transferred_le_iff owned htie).mpr (hwins _ rfl)
  rw [lwwWrite_of_le hwins', h.payload_eq]
  rfl

theorem delete_of_lt (h : Replayed x slot slot') (htie : Agrees x u slot)
    (hu : u.operation = .delete) {c : Stamp N × Option (EntityView N V)} (hc : slot = some c)
    (hlt : u.stamp < c.1) : Replayed x slot (lwwWrite slot' u.toWrite) := by
  cases h with
  | absent => cases hc
  | deleted le =>
    cases hc
    rcases lt_or_ge u.stamp _ with hlt' | hge
    · rw [lwwWrite_of_lt hlt']
      exact .deleted le
    · rw [lwwWrite_some_of_le hge]
      change Replayed x _ (some (u.stamp, u.effect _))
      rw [effect_eq_none hu]
      exact .deleted hlt.le
  | same =>
    cases hc
    rw [lwwWrite_of_lt hlt]
    exact .same
  | transferred owned =>
    cases hc
    rw [lwwWrite_of_lt (not_le.mp fun h => hlt.not_ge ((transferred_le_iff owned htie).mp h))]
    exact .transferred owned

omit [OrderBot N] in
theorem refl (s : Stamp N × Option (EntityView N V)) : Replayed x (some s) (some s) := by
  obtain ⟨m, v⟩ := s
  cases v with
  | none => exact .deleted le_rfl
  | some => exact .same

omit [OrderBot N] in
theorem time_le (h : Replayed x slot slot') {clock : ℤ} (hclock : SlotClocked clock slot) :
    ∀ c ∈ slot', (ofLex c.1).1 ≤ clock := by
  cases h with
  | absent => exact fun c hc => nomatch hc
  | deleted le =>
    intro c hc
    cases hc
    exact (Lex.monotone_fst _ _ le).trans (hclock _ rfl).1
  | same => exact fun c hc => (hclock c hc).1
  | transferred => exact fun c hc => some.inj hc ▸ (hclock _ rfl).1

/-- A local call writes the register under the id of the node, and the replay under the author
that the logged update names. -/
theorem of_logged (author : N) (b : Option (Option (EntityView N V)))
    (hu : u.operation = .delete ∧ u.ownerNodeId = none ∨
      u.operation ≠ .delete ∧ ∃ owner, u.ownerNodeId = some owner ∧
        (owner = author ∨ u.operation = .transfer)) :
    Replayed author (some (toLex (u.version, author), u.effect b))
      (some (u.stamp, u.effect b)) := by
  rcases hu with ⟨hdel, howner⟩ | ⟨hwrite, owner, howner, -⟩
  · rw [effect_eq_none hdel, stamp, howner]
    exact .deleted (Lex.toLex_mono ⟨le_rfl, bot_le⟩)
  · rw [stamp, howner, effect, if_neg hwrite, howner]
    exact .transferred rfl

end Replayed

/-! ### Runs -/

section Runs

variable {r r' : CrdtEntityRegistry N V} {u : EntityUpdate N V} {now : ℕ} {e : EntityId}

theorem updateLog_applyRemoteUpdate (hex : r.Exclusive) (u : EntityUpdate N V) (now : ℕ) :
    (r.applyRemoteUpdate u now).updateLog = r.updateLog ++ [u] ∧
        (u.operation = .delete ∨ ∀ c ∈ r.slot u.entityId, c.1 ≤ u.stamp) ∨
      (r.applyRemoteUpdate u now).updateLog = r.updateLog ∧
        ∃ c, r.slot u.entityId = some c ∧ u.stamp < c.1 := by
  cases hop : u.operation with
  | delete =>
    simp only [CrdtEntityRegistry.applyRemoteUpdate, hop, mergeDelete]
    refine .inl ⟨?_, .inl trivial⟩
    cases r.entries.get u.entityId <;> dsimp only <;> split_ifs <;> rfl
  | create | update | transfer =>
    simp only [CrdtEntityRegistry.applyRemoteUpdate, hop]
    have hex' : CrdtEntityRegistry.Exclusive
      { r with logicalClock := max r.logicalClock u.version } := hex
    rcases mergeWrite_cases hex' u now with ⟨c, hc, hlt, heq⟩ | ⟨hle, heq⟩
    · exact .inr ⟨by rw [heq], c, hc, hlt⟩
    · exact .inl ⟨by rw [heq], .inr hle⟩

def replayedSlot (us : List (EntityUpdate N V)) (e : EntityId) :
    Option (Stamp N × Option (EntityView N V)) :=
  (writesOf us e).foldl lwwWrite none

theorem replayedSlot_concat (us : List (EntityUpdate N V)) (u : EntityUpdate N V) (e : EntityId) :
    replayedSlot (us ++ [u]) e =
      if u.entityId = e then lwwWrite (replayedSlot us e) u.toWrite else replayedSlot us e := by
  rw [replayedSlot, writesOf_append, foldl_append, ← replayedSlot]
  split_ifs with he
  · rw [writesOf_cons he]
    rfl
  · have hnil : writesOf [u] e = [] := by simp [writesOf, he]
    rw [hnil]
    rfl

/-- What every run keeps: the clock invariant, positive versions in the log, and registers that
are related to those of the replay. -/
structure LogFaithful (r : CrdtEntityRegistry N V) : Prop where
  clocked : r.Clocked
  clock_nonneg : 0 ≤ r.logicalClock
  positive : ∀ u ∈ r.updateLog, 0 < u.version
  replayed : ∀ e, Replayed r.nodeId (r.slot e) (replayedSlot r.updateLog e)

theorem logFaithful_create (x : N) : LogFaithful (create x : CrdtEntityRegistry N V) :=
  ⟨clocked_create x, le_rfl, fun _ hu => absurd hu not_mem_nil, fun _ => .absent⟩

theorem LogFaithful.positive_concat (hr : LogFaithful r) (hu : 0 < u.version) :
    ∀ v ∈ r.updateLog ++ [u], 0 < v.version := by
  intro v hv
  rcases mem_append.mp hv with hv | hv
  · exact hr.positive v hv
  · exact mem_singleton.mp hv ▸ hu

theorem LogFaithful.perform (hr : LogFaithful r) {op : LocalOp N V} {event : RegistryEvent N V}
    (h : r.perform op now = .ok (r', event)) : LogFaithful r' := by
  obtain ⟨u, hlog, hid, hversion, hslot, howner⟩ := slot_perform h
  obtain ⟨hnode, -, hclock, -⟩ := perform_spec h
  have hnonneg := hr.clock_nonneg
  refine ⟨hr.clocked.perform h, by omega, ?_, fun e => ?_⟩
  · rw [hlog]
    exact hr.positive_concat (by omega)
  · rw [hnode, hlog, replayedSlot_concat, hid]
    split_ifs with he
    · subst he
      have hrep := hr.replayed op.entityId
      -- the update is later than everything in the replay
      have hwins : ∀ c ∈ replayedSlot r.updateLog op.entityId, c.1 ≤ u.toWrite.stamp := by
        intro c hc
        have htime := hrep.time_le ((clocked_iff.mp hr.clocked).2 op.entityId) c hc
        exact (Lex.lt_iff.mpr (.inl (show (ofLex c.1).1 < u.version by omega))).le
      rw [lwwWrite_of_le hwins, hrep.payload_eq, hslot]
      exact .of_logged r.nodeId _ howner
    · rw [slot_perform_of_ne h he]
      exact hr.replayed e

theorem TieAgrees.agrees (h : TieAgrees r u) : Replayed.Agrees r.nodeId u (r.slot u.entityId) := by
  intro v owner hslot howner
  rw [TieAgrees] at h
  cases hentry : r.entries.get u.entityId with
  | some =>
    rw [hentry] at h
    rw [slot_of_entry hentry] at hslot
    obtain ⟨hstamp, hview⟩ := mk.inj (some.inj hslot)
    obtain ⟨htime, hauthor⟩ := mk.inj (toLex.injective hstamp)
    cases hview
    exact h htime hauthor owner howner
  | none =>
    rw [slot, hentry] at hslot
    obtain ⟨tomb, -, heq⟩ := map_eq_some_iff.mp hslot
    cases congrArg snd heq

theorem LogFaithful.applyRemoteUpdate (hr : LogFaithful r) (hu : 0 < u.version)
    (htie : TieAgrees r u) : LogFaithful (r.applyRemoteUpdate u now) := by
  have hex := hr.clocked.exclusive
  obtain ⟨hnode, -, hclock⟩ := r.applyRemoteUpdate_frame u now
  have hrep := hr.replayed u.entityId
  have hkeep : ∀ {us : List (EntityUpdate N V)} {e}, u.entityId ≠ e →
      replayedSlot us e = replayedSlot r.updateLog e →
      Replayed r.nodeId ((r.applyRemoteUpdate u now).slot e) (replayedSlot us e) := by
    intro us e he hus
    rw [slot_applyRemoteUpdate_of_ne fun h => he h.symm, hus]
    exact hr.replayed e
  have hslot : (r.applyRemoteUpdate u now).slot u.entityId = _ := slot_applyRemoteUpdate hex
  refine ⟨hr.clocked.applyRemoteUpdate u now, hclock ▸ hr.clock_nonneg.trans (le_max_left ..),
    ?_, fun e => ?_⟩
  · rcases updateLog_applyRemoteUpdate hex u now with ⟨hlog, -⟩ | ⟨hlog, -⟩ <;> rw [hlog]
    · exact hr.positive_concat hu
    · exact hr.positive
  · rw [hnode]
    rcases updateLog_applyRemoteUpdate hex u now with ⟨hlog, hwins⟩ | ⟨hlog, c, hc, hlt⟩
    · rw [hlog]
      by_cases he : u.entityId = e
      · subst he
        rw [replayedSlot_concat, if_pos rfl, hslot]
        by_cases hle : ∀ c ∈ r.slot u.entityId, c.1 ≤ u.stamp
        · have hle' : ∀ c ∈ r.slot u.entityId, c.1 ≤ u.toWrite.stamp := hle
          rw [hrep.lwwWrite_eq htie.agrees hle, lwwWrite_of_le hle']
          exact .refl _
        · push Not at hle
          obtain ⟨c, hc, hlt⟩ := hle
          have hlose : lwwWrite (r.slot u.entityId) u.toWrite = r.slot u.entityId := by
            rw [hc]
            exact lwwWrite_of_lt hlt
          rw [hlose]
          exact hrep.delete_of_lt htie.agrees
            (hwins.resolve_right fun h => (h c hc).not_gt hlt) hc hlt
      · exact hkeep he (by rw [replayedSlot_concat, if_neg he])
    · rw [hlog]
      by_cases he : u.entityId = e
      · subst he
        rw [hslot, hc, lwwWrite_of_lt hlt, ← hc]
        exact hrep
      · exact hkeep he rfl

theorem LogFaithful.step (hr : LogFaithful r) {options : CrdtRegistryOptions} {ev : CrdtEvent N V}
    (hev : Replayable r ev) (h : r.step options ev = some r') : LogFaithful r' := by
  cases ev with
  | start | stop =>
    cases h
    have hc := hr.clocked
    exact ⟨⟨hc.entries_le, hc.tombstones_le, hc.exclusive, hc.version_eq⟩, hr.clock_nonneg,
      hr.positive, hr.replayed⟩
  | call =>
    simp only [CrdtEntityRegistry.step] at h
    split at h
    · rename_i r₁ event hperform
      exact some.inj h ▸ hr.perform hperform
    · exact some.inj h ▸ hr
  | applyRemoteUpdate => exact some.inj h ▸ hr.applyRemoteUpdate hev.1 hev.2
  | compact => exact hev.elim
  | importSnapshot => exact hev.elim

theorem LogFaithful.catchesUp (hr : LogFaithful r) : CatchesUp r := by
  intro y ds hds e
  have hall : r.getUpdatesAfter 0 = r.updateLog :=
    filter_eq_self.mpr fun u hu => decide_eq_true (hr.positive u hu)
  have hfresh : ((create y).start : CrdtEntityRegistry N V).Exclusive := fun _ => .inl rfl
  have hslot := slot_receive e ds _ hfresh
  rw [hds, hall] at hslot
  have hpayload := (hr.replayed e).payload_eq
  rw [liveView, ← join_slot, hslot, liveView, ← join_slot]
  exact congrArg Option.join hpayload

end Runs

/-- **A fresh registry can catch up from the log.** After every run of local calls and merges of
updates with positive versions in which every tie with a transferred entity is decided the same
way by both authors, replaying the log gives the same live entities, owners, versions and
metadata. -/
theorem catchesUp_run (options : CrdtRegistryOptions) (x : N) {es : List (CrdtEvent N V)}
    {r : CrdtEntityRegistry N V}
    (hok : AllSteps (step options) Replayable (create x) es)
    (hrun : exec (step options) (create x) es = some r) : CatchesUp r :=
  (exec_invariant (fun _ _ _ hr hev hstep => LogFaithful.step hr hev hstep)
    (logFaithful_create x) hok hrun).catchesUp

def createAndTransfer : List (CrdtEvent String ℕ) :=
  [.start, .call (.proposeEntity "e" none) 0, .call (.transferEntity "e" "n3") 1]

def createdByN2 (version : ℤ) : EntityUpdate String ℕ where
  entityId := "e"
  ownerNodeId := some "n2"
  version := version
  timestamp := 0
  operation := .create

/-- A later creation wins against both authors. -/
theorem catchesUp_run_later_create : ∃ r, exec (step {}) (create "n1")
      (createAndTransfer ++ [.applyRemoteUpdate (createdByN2 3) 2]) = some r ∧ CatchesUp r := by
  have hok : AllSteps (step {}) Replayable (create "n1")
      (createAndTransfer ++ [.applyRemoteUpdate (createdByN2 3) 2]) := by
    refine ⟨trivial, trivial, trivial, ⟨by decide, ?_⟩, trivial⟩
    exact fun h => absurd h (by decide)
  exact ⟨_, rfl, catchesUp_run {} "n1" hok rfl⟩

/-- The replay does not always catch up: `n2` wins against `n1`, which has written the entry, but
not against `n3`, under which the `TRANSFER` is logged. -/
theorem not_catchesUp_of_transfer_tie :
    ¬ ∀ (es : List (CrdtEvent String ℕ)) (r : CrdtEntityRegistry String ℕ),
      (∀ ev ∈ es, (∃ op now, ev = .call op now) ∨ ev = .start ∨
        ∃ u now, ev = .applyRemoteUpdate u now) →
      exec (step {}) (create "n1") es = some r → CatchesUp r := by
  intro h
  have hcatch := h (createAndTransfer ++ [.applyRemoteUpdate (createdByN2 2) 2]) _
    (by simp [createAndTransfer]) rfl
  have hview := congrArg (Option.map EntityView.ownerNodeId) (hcatch "n4"
    [({ entityId := "e", ownerNodeId := some "n1", version := 1, timestamp := 0,
        operation := .create }, 3),
      ({ entityId := "e", ownerNodeId := some "n3", version := 2, timestamp := 1,
         operation := .transfer, metadata := some .empty, previousVersion := some 1 }, 4),
      (createdByN2 2, 5)] rfl "e")
  exact absurd hview (by decide)

end DistributedCore.Entity
