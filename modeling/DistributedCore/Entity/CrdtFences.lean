import DistributedCore.Entity.CrdtCatchUp

/-!
# Compaction of a CRDT registry and fences

`compact` spares the ids that start with `__fence__:`, the sidecars that count the fencing tokens of
locks. Other tombstones and log entries go, and updates that arrive later are merged differently
from then on. This reaches no fence: a merge reads and writes the entry and the tombstone of its own
entity only, and the clock, which all entities share, advances with every update that arrives,
whether it wins or not.

Source: `src/cluster/entity/CrdtEntityRegistry.ts`.
-/

namespace DistributedCore.Entity

open CrdtEntityRegistry OrderedMap List

variable {N V B : Type} {r r₀ : CrdtEntityRegistry N V} {op : LocalOp N V} {u : EntityUpdate N V}

/-- The local calls concern fences only, and no snapshot is imported. -/
def CrdtEvent.OnFences : CrdtEvent N V → Prop
  | .call op _ => beginsWith "__fence__:" op.entityId = true
  | .start | .stop | .applyRemoteUpdate .. | .compact _ => True
  | .importSnapshot _ => False

def CrdtEvent.isCompact : CrdtEvent N V → Bool
  | .compact _ => true
  | .start | .stop | .call .. | .applyRemoteUpdate .. | .importSnapshot _ => false

theorem isCompactionExempt_eq (e : EntityId) :
    isCompactionExempt e = beginsWith "__fence__:" e := by
  simp [isCompactionExempt, compactionExemptPrefixes]

/-- The maps agree on the entities that compaction spares. -/
def AgreeOnFences {B : Type} (m m₀ : OrderedMap EntityId B) : Prop :=
  ∀ e, isCompactionExempt e = true → m.get e = m₀.get e

theorem AgreeOnFences.set {m m₀ : OrderedMap EntityId B} (h : AgreeOnFences m m₀)
    (e : EntityId) (v : B) : AgreeOnFences (m.set e v) (m₀.set e v) := by
  intro e' he'
  rw [get_set, get_set, h e' he']

theorem AgreeOnFences.delete {m m₀ : OrderedMap EntityId B} (h : AgreeOnFences m m₀)
    (e : EntityId) : AgreeOnFences (m.delete e) (m₀.delete e) := by
  intro e' he'
  rw [get_delete, get_delete, h e' he']

/-- A merge reads and writes the entry and the tombstone of its own entity only. -/
theorem applyRemoteUpdate_congr [LinearOrder N] [OrderBot N]
    (hentry : r.entries.get u.entityId = r₀.entries.get u.entityId)
    (htomb : r.tombstones.get u.entityId = r₀.tombstones.get u.entityId) (now : ℕ) :
    (r.applyRemoteUpdate u now).entries.get u.entityId =
        (r₀.applyRemoteUpdate u now).entries.get u.entityId ∧
      (r.applyRemoteUpdate u now).tombstones.get u.entityId =
        (r₀.applyRemoteUpdate u now).tombstones.get u.entityId ∧
      ∃ us, (∀ v ∈ us, v.entityId = u.entityId) ∧
        (r.applyRemoteUpdate u now).updateLog = r.updateLog ++ us ∧
        (r₀.applyRemoteUpdate u now).updateLog = r₀.updateLog ++ us := by
  cases hop : u.operation with
  | create | update | transfer =>
    simp only [CrdtEntityRegistry.applyRemoteUpdate, hop, mergeWrite, hentry, htomb]
    split_ifs
    · exact ⟨hentry, htomb, [], by simp, by simp, by simp⟩
    · exact ⟨hentry, htomb, [], by simp, by simp, by simp⟩
    · exact ⟨by simp, by simp, [u], by simp, rfl, rfl⟩
  | delete =>
    simp only [CrdtEntityRegistry.applyRemoteUpdate, hop, mergeDelete, hentry, htomb]
    cases hget : r₀.entries.get u.entityId with
    | some =>
      dsimp only
      split_ifs
      · exact ⟨by simp, by simp, [u], by simp, rfl, rfl⟩
      · exact ⟨hentry, htomb, [u], by simp, rfl, rfl⟩
    | none =>
      dsimp only
      split_ifs
      · exact ⟨hentry, by simp, [u], by simp, rfl, rfl⟩
      · exact ⟨hentry, htomb, [u], by simp, rfl, rfl⟩

theorem filter_updateLog_of_not_exempt [LinearOrder N] [OrderBot N]
    (hu : ¬ isCompactionExempt u.entityId = true) {now : ℕ} :
    (r.applyRemoteUpdate u now).updateLog.filter (fun u => isCompactionExempt u.entityId) =
      r.updateLog.filter fun u => isCompactionExempt u.entityId := by
  obtain ⟨-, -, us, hus, hlog, -⟩ := applyRemoteUpdate_congr (u := u) rfl rfl now
  have hnil : us.filter (fun u => isCompactionExempt u.entityId) = [] :=
    filter_eq_nil_iff.mpr fun v hv => hus v hv ▸ hu
  rw [hlog, filter_append, hnil, append_nil]

/-- The registries differ only outside the fences. -/
structure FencesAgree (r r₀ : CrdtEntityRegistry N V) : Prop where
  nodeId : r.nodeId = r₀.nodeId
  isRunning : r.isRunning = r₀.isRunning
  logicalClock : r.logicalClock = r₀.logicalClock
  entries : AgreeOnFences r.entries r₀.entries
  tombstones : AgreeOnFences r.tombstones r₀.tombstones
  updateLog : r.updateLog.filter (fun u => isCompactionExempt u.entityId) =
    r₀.updateLog.filter fun u => isCompactionExempt u.entityId

namespace FencesAgree

variable (h : FencesAgree r r₀)

include h

theorem compact (options : CrdtRegistryOptions) (now : ℤ) :
    FencesAgree (r.compact options now).1 r₀ := by
  refine ⟨h.nodeId, h.isRunning, h.logicalClock, h.entries, fun e he => ?_, ?_⟩
  · rw [← h.tombstones e he, CrdtEntityRegistry.compact]
    cases options.tombstoneTTLMs with
    | none => rfl
    | some ttl =>
      refine (get_evictTombstones r.tombstones (now - ttl) e).resolve_right fun hevicted => ?_
      exact absurd (he.symm.trans hevicted.1) (by simp)
  · rw [← h.updateLog, CrdtEntityRegistry.compact]
    cases options.updateLogRetentionMs with
    | none => rfl
    | some =>
      rw [Option.elim_some, evictUpdates, filter_filter]
      exact filter_congr fun u _ => by cases isCompactionExempt u.entityId <;> simp

/-- Both registries log the same updates and advance to the same clock. -/
theorem change (x : N) (running : Bool) (us : List (EntityUpdate N V)) (clock : ℤ)
    {entries entries₀ : OrderedMap EntityId (CrdtEntry N V)}
    {tombstones tombstones₀ : OrderedMap EntityId (CrdtTombstone N)}
    (hentries : AgreeOnFences entries entries₀)
    (htombstones : AgreeOnFences tombstones tombstones₀) :
    FencesAgree ⟨x, running, entries, tombstones, r.updateLog ++ us, clock⟩
      ⟨x, running, entries₀, tombstones₀, r₀.updateLog ++ us, clock⟩ := by
  refine ⟨rfl, rfl, rfl, hentries, htombstones, ?_⟩
  simp [h.updateLog]

variable [LinearOrder N]

theorem ownedEntry (call : OwnerCall) {e : EntityId} (he : isCompactionExempt e = true) :
    r.ownedEntry call e = r₀.ownedEntry call e := by
  rw [CrdtEntityRegistry.ownedEntry, CrdtEntityRegistry.ownedEntry, h.isRunning, h.entries e he,
    h.nodeId]

/-- A local operation on a fence has the same outcome in both registries. -/
theorem perform (hop : isCompactionExempt op.entityId = true) (now : ℕ) :
    (∃ err, r.perform op now = .error err ∧ r₀.perform op now = .error err) ∨
      ∃ r' r₀' event, r.perform op now = .ok (r', event) ∧
        r₀.perform op now = .ok (r₀', event) ∧ FencesAgree r' r₀' := by
  cases op with
  | proposeEntity e =>
    have hhas : r.entries.has e = r₀.entries.has e := congrArg Option.isSome (h.entries e hop)
    simp only [CrdtEntityRegistry.perform, proposeEntity, ← h.nodeId, ← h.isRunning,
      ← h.logicalClock, ← hhas]
    split_ifs
    · exact .inl ⟨_, rfl, rfl⟩
    · exact .inl ⟨_, rfl, rfl⟩
    · exact .inr ⟨_, _, _, rfl, rfl, h.change _ _ _ _ (h.entries.set e _) (h.tombstones.delete e)⟩
  | updateEntity e =>
    simp only [CrdtEntityRegistry.perform, updateEntity]
    rw [h.ownedEntry .update (e := e) hop, ← h.nodeId, ← h.isRunning, ← h.logicalClock]
    cases r₀.ownedEntry .update e with
    | error err => exact .inl ⟨err, rfl, rfl⟩
    | ok => exact .inr ⟨_, _, _, rfl, rfl, h.change _ _ _ _ (h.entries.set e _) h.tombstones⟩
  | transferEntity e =>
    simp only [CrdtEntityRegistry.perform, transferEntity]
    rw [h.ownedEntry .transfer (e := e) hop, ← h.nodeId, ← h.isRunning, ← h.logicalClock]
    cases r₀.ownedEntry .transfer e with
    | error err => exact .inl ⟨err, rfl, rfl⟩
    | ok => exact .inr ⟨_, _, _, rfl, rfl, h.change _ _ _ _ (h.entries.set e _) h.tombstones⟩
  | releaseEntity e =>
    simp only [CrdtEntityRegistry.perform, releaseEntity]
    rw [h.ownedEntry .release (e := e) hop, ← h.nodeId, ← h.isRunning, ← h.logicalClock]
    cases r₀.ownedEntry .release e with
    | error err => exact .inl ⟨err, rfl, rfl⟩
    | ok =>
      exact .inr ⟨_, _, _, rfl, rfl, h.change _ _ _ _ (h.entries.delete e) (h.tombstones.set e _)⟩

variable [OrderBot N]

theorem applyRemoteUpdate (u : EntityUpdate N V) (now : ℕ) :
    FencesAgree (r.applyRemoteUpdate u now) (r₀.applyRemoteUpdate u now) := by
  obtain ⟨hnode, hrunning, hclock⟩ := r.applyRemoteUpdate_frame u now
  obtain ⟨hnode₀, hrunning₀, hclock₀⟩ := r₀.applyRemoteUpdate_frame u now
  refine ⟨?_, ?_, ?_, fun e he => ?_, fun e he => ?_, ?_⟩
  · rw [hnode, hnode₀, h.nodeId]
  · rw [hrunning, hrunning₀, h.isRunning]
  · rw [hclock, hclock₀, h.logicalClock]
  · by_cases heu : e = u.entityId
    · subst heu
      exact (applyRemoteUpdate_congr (h.entries _ he) (h.tombstones _ he) now).1
    · rw [(get_applyRemoteUpdate_of_ne heu).1, (get_applyRemoteUpdate_of_ne heu).1, h.entries e he]
  · by_cases heu : e = u.entityId
    · subst heu
      exact (applyRemoteUpdate_congr (h.entries _ he) (h.tombstones _ he) now).2.1
    · rw [(get_applyRemoteUpdate_of_ne heu).2, (get_applyRemoteUpdate_of_ne heu).2,
        h.tombstones e he]
  · by_cases hu : isCompactionExempt u.entityId = true
    · obtain ⟨-, -, us, -, hlog, hlog₀⟩ :=
        applyRemoteUpdate_congr (h.entries _ hu) (h.tombstones _ hu) now
      rw [hlog, hlog₀, filter_append, filter_append, h.updateLog]
    · rw [filter_updateLog_of_not_exempt hu, filter_updateLog_of_not_exempt hu, h.updateLog]

/-- Everything but a compaction, which only one of the registries makes. -/
theorem step (options : CrdtRegistryOptions) {ev : CrdtEvent N V} (hev : ev.OnFences)
    (hcompact : ev.isCompact = false) : ∃ r' r₀', r.step options ev = some r' ∧
      r₀.step {} ev = some r₀' ∧ FencesAgree r' r₀' := by
  cases ev with
  | start =>
    exact ⟨_, _, rfl, rfl, h.nodeId, rfl, h.logicalClock, h.entries, h.tombstones, h.updateLog⟩
  | stop =>
    exact ⟨_, _, rfl, rfl, h.nodeId, rfl, h.logicalClock, h.entries, h.tombstones, h.updateLog⟩
  | call op now =>
    rcases h.perform ((isCompactionExempt_eq op.entityId).trans hev) now with
      ⟨err, herr, herr₀⟩ | ⟨r', r₀', event, hok, hok₀, hagree⟩
    · simp only [CrdtEntityRegistry.step, herr, herr₀]
      exact ⟨r, r₀, rfl, rfl, h⟩
    · simp only [CrdtEntityRegistry.step, hok, hok₀]
      exact ⟨r', r₀', rfl, rfl, hagree⟩
  | applyRemoteUpdate u now => exact ⟨_, _, rfl, rfl, h.applyRemoteUpdate u now⟩
  | compact => cases hcompact
  | importSnapshot => exact hev.elim

omit h in
theorem run (options : CrdtRegistryOptions) :
    {es : List (CrdtEvent N V)} → {r r₀ : CrdtEntityRegistry N V} → FencesAgree r r₀ →
      (∀ ev ∈ es, ev.OnFences) → ∃ r' r₀', exec (CrdtEntityRegistry.step options) r es = some r' ∧
        exec (CrdtEntityRegistry.step {}) r₀ (es.filter fun ev => !ev.isCompact) = some r₀' ∧
        FencesAgree r' r₀'
  | [], r, r₀, h, _ => ⟨r, r₀, rfl, rfl, h⟩
  | ev :: es, r, r₀, h, hes => by
    have hes' := fun ev hev => hes ev (mem_cons_of_mem _ hev)
    cases hcompact : ev.isCompact with
    | true =>
      cases ev with
      | compact now =>
        have hrest := run options (h.compact options now) hes'
        exact hrest
      | start | stop | call | applyRemoteUpdate | importSnapshot => cases hcompact
    | false =>
      obtain ⟨r₁, r₂, hr₁, hr₂, h'⟩ := h.step options (hes ev mem_cons_self) hcompact
      rw [filter_cons_of_pos (by simp [hcompact]), exec_cons, exec_cons, hr₁, hr₂]
      exact run options h' hes'

end FencesAgree

/-- **Compaction is invisible to fences.** A registry with any retention windows, and one that keeps
everything and leaves the compactions out, have the same fences after every sequence of events whose
calls are about fences, and the next call on a fence has the same outcome in both. -/
theorem compaction_invisible [LinearOrder N] [OrderBot N] (options : CrdtRegistryOptions) (x : N)
    (es : List (CrdtEvent N V)) (hes : ∀ ev ∈ es, ev.OnFences) :
    ∃ r r₀, exec (CrdtEntityRegistry.step options) (create x) es = some r ∧
      exec (CrdtEntityRegistry.step {}) (create x) (es.filter fun ev => !ev.isCompact) = some r₀ ∧
      (∀ op now, beginsWith "__fence__:" op.entityId = true →
        (r.perform op now).map Prod.snd = (r₀.perform op now).map Prod.snd) ∧
      (∀ e, beginsWith "__fence__:" e = true →
        r.entries.get e = r₀.entries.get e ∧ r.tombstones.get e = r₀.tombstones.get e) ∧
      ∀ v, (r.getUpdatesAfter v).filter (fun u => beginsWith "__fence__:" u.entityId) =
        (r₀.getUpdatesAfter v).filter fun u => beginsWith "__fence__:" u.entityId := by
  have hnew : FencesAgree (create x : CrdtEntityRegistry N V) (create x) :=
    ⟨rfl, rfl, rfl, fun _ _ => rfl, fun _ _ => rfl, rfl⟩
  obtain ⟨r, r₀, hr, hr₀, h⟩ := hnew.run options hes
  simp only [← isCompactionExempt_eq]
  refine ⟨r, r₀, hr, hr₀, fun op now hop => ?_, fun e he => ⟨h.entries e he, h.tombstones e he⟩,
    fun v => ?_⟩
  · rcases h.perform hop now with ⟨err, herr, herr₀⟩ | ⟨r', r₀', event, hok, hok₀, -⟩
    · rw [herr, herr₀]
    · rw [hok, hok₀]
      rfl
  · rw [getUpdatesAfter, getUpdatesAfter, filter_filter, filter_filter]
    simp only [Bool.and_comm (isCompactionExempt _), ← filter_filter, h.updateLog]

def evictAndFence : List (CrdtEvent String ℕ) :=
  [.start, .applyRemoteUpdate
      { entityId := "e", version := 5, timestamp := 0, operation := .delete } 0,
    .compact 100,
    .applyRemoteUpdate
      { entityId := "e", ownerNodeId := some "n2", version := 3, timestamp := 0,
        operation := .create } 100,
    .call (.proposeEntity "__fence__:l" none) 100]

theorem compaction_invisible_evictAndFence : ∃ r r₀ : CrdtEntityRegistry String ℕ,
      exec (CrdtEntityRegistry.step ⟨some 10, some 10⟩) (create "n1") evictAndFence = some r ∧
      exec (CrdtEntityRegistry.step {}) (create "n1")
        (evictAndFence.filter fun ev => !ev.isCompact) = some r₀ ∧
      ∀ e, beginsWith "__fence__:" e = true →
        r.entries.get e = r₀.entries.get e ∧ r.tombstones.get e = r₀.tombstones.get e := by
  obtain ⟨r, r₀, hr, hr₀, -, hget, -⟩ := compaction_invisible ⟨some 10, some 10⟩ "n1" evictAndFence
    (by simp [evictAndFence, CrdtEvent.OnFences, beginsWith, LocalOp.entityId])
  exact ⟨r, r₀, hr, hr₀, hget⟩

end DistributedCore.Entity
