import DistributedCore.Entity.CrdtRegistry
import DistributedCore.Library.Runs

/-!
# The clock of the CRDT entity registry

The merge of `CrdtEntityRegistry` is only right if the logical clock is never behind what the
registry stores: a local call must get a logical time that beats everything it has seen. This
module adds compaction and snapshots to the calls and the merge, and proves that in every run the
clock bounds all stored logical times, that no entity is both live and deleted, and that a record
has the logical time of its entry as its version. The clock is a JavaScript number: from 2^53 on
it may stand still, and a call then repeats a version.

Source: `src/cluster/entity/CrdtEntityRegistry.ts`.
-/

namespace DistributedCore.Entity

open Option OrderedMap

/-- The retention times of the registry. -/
structure CrdtRegistryOptions where
  tombstoneTTLMs : Option ℤ := none
  updateLogRetentionMs : Option ℤ := none

/-- A copy of the entities of a registry. -/
structure EntitySnapshot (N V : Type) where
  timestamp : ℕ
  version : ℤ
  entities : OrderedMap EntityId (EntityRecord N V)
  nodeId : N

structure CompactionCounts where
  tombstonesEvicted : ℕ
  updatesEvicted : ℕ
  deriving DecidableEq

def compactionExemptPrefixes : List String := ["__fence__:"]

def isCompactionExempt (entityId : EntityId) : Bool :=
  compactionExemptPrefixes.any fun start => beginsWith start entityId

namespace CrdtEntityRegistry

variable {N V : Type}

/-! ### The code -/

def evictTombstones (tombstones : OrderedMap EntityId (CrdtTombstone N)) (cutoff : ℤ) :
    OrderedMap EntityId (CrdtTombstone N) × ℕ :=
  tombstones.entries.foldl
    (fun (kept, evicted) (entityId, tomb) =>
      if isCompactionExempt entityId then (kept, evicted)
      else if (tomb.deletedAt : ℤ) ≤ cutoff then (kept.delete entityId, evicted + 1)
      else (kept, evicted))
    (tombstones, 0)

def evictUpdates (updateLog : List (EntityUpdate N V)) (cutoff : ℤ) : List (EntityUpdate N V) × ℕ :=
  let kept := updateLog.filter fun u =>
    (u.timestamp : ℤ) > cutoff || isCompactionExempt u.entityId
  (kept, updateLog.length - kept.length)

def compact (options : CrdtRegistryOptions) (r : CrdtEntityRegistry N V) (now : ℤ) :
    CrdtEntityRegistry N V × CompactionCounts :=
  let tombstones := options.tombstoneTTLMs.elim (r.tombstones, 0) fun ttl =>
    evictTombstones r.tombstones (now - ttl)
  let updateLog := options.updateLogRetentionMs.elim (r.updateLog, 0) fun retention =>
    evictUpdates r.updateLog (now - retention)
  ({ r with tombstones := tombstones.1, updateLog := updateLog.1 }, ⟨tombstones.2, updateLog.2⟩)

def exportSnapshot (r : CrdtEntityRegistry N V) (now : ℕ) : EntitySnapshot N V where
  timestamp := now
  version := r.logicalClock
  entities := r.entries.mapValues fun _ e => e.record
  nodeId := r.nodeId

def stop (r : CrdtEntityRegistry N V) : CrdtEntityRegistry N V := { r with isRunning := false }

variable [LinearOrder N] [OrderBot N]

def importSnapshot (r : CrdtEntityRegistry N V) (snapshot : EntitySnapshot N V) :
    Except (RegistryError N) (CrdtEntityRegistry N V) :=
  if !r.isRunning then .error .notRunning
  else .ok
    { r with
      entries := snapshot.entities.mapValues fun _ record =>
        ⟨record, record.version, record.ownerNodeId.getD ⊥⟩
      tombstones := .empty
      logicalClock := max r.logicalClock snapshot.version }

end CrdtEntityRegistry

/-- The events of one registry. -/
inductive CrdtEvent (N V : Type)
  | start
  | stop
  | call (op : LocalOp N V) (now : ℕ)
  | applyRemoteUpdate (update : EntityUpdate N V) (now : ℕ)
  | compact (now : ℤ)
  | importSnapshot (snapshot : EntitySnapshot N V)

namespace CrdtEntityRegistry

variable {N V : Type} [LinearOrder N] [OrderBot N]

def step (options : CrdtRegistryOptions) (r : CrdtEntityRegistry N V) :
    CrdtEvent N V → Option (CrdtEntityRegistry N V)
  | .start => some r.start
  | .stop => some r.stop
  | .call op now =>
    match r.perform op now with
    | .ok (r', _) => some r'
    | .error _ => some r
  | .applyRemoteUpdate u now => some (r.applyRemoteUpdate u now)
  | .compact now => some (r.compact options now).1
  | .importSnapshot snapshot =>
    match r.importSnapshot snapshot with
    | .ok r' => some r'
    | .error _ => some r

/-- `2 ^ 53`: the integers up to it are numbers. -/
def exactBound : ℤ := 9007199254740992

/-- `logicalClock + 1` for a number that is not negative. The sum is exact below 2^53. From there
to 2^54 the numbers are the even integers, and the sum is rounded to the multiple of 4 among its
neighbours; later it is rounded down. -/
def tick (clock : ℤ) : ℤ :=
  if clock < exactBound then clock + 1
  else if clock < 2 * exactBound ∧ clock % 4 = 2 then clock + 2
  else clock

/-- A call whose logical time is the rounded one: `perform` adds 1 to the clock. -/
def performNumber (r : CrdtEntityRegistry N V) (op : LocalOp N V) (now : ℕ) :
    Except (RegistryError N) (CrdtEntityRegistry N V × RegistryEvent N V) :=
  perform { r with logicalClock := tick r.logicalClock - 1 } op now

/-- The step with rounded logical times. -/
def numberStep (options : CrdtRegistryOptions) (r : CrdtEntityRegistry N V) :
    CrdtEvent N V → Option (CrdtEntityRegistry N V)
  | .call op now =>
    match r.performNumber op now with
    | .ok (r', _) => some r'
    | .error _ => some r
  | ev => r.step options ev

/-! ### The invariant -/

section

omit [LinearOrder N] [OrderBot N]

/-- The clock is not behind any stored logical time, no entity is both live and deleted, and the
version of a record is the logical time of its entry. -/
structure Clocked (r : CrdtEntityRegistry N V) : Prop where
  entries_le : ∀ {e c}, r.entries.get e = some c → c.logicalTs ≤ r.logicalClock
  tombstones_le : ∀ {e t}, r.tombstones.get e = some t → t.logicalTs ≤ r.logicalClock
  exclusive : r.Exclusive
  version_eq : ∀ {e c}, r.entries.get e = some c → c.record.version = c.logicalTs

/-- The registry holds the version or the timestamp `v`. -/
def Stores (r : CrdtEntityRegistry N V) (v : ℤ) : Prop :=
  (∃ e c, r.entries.get e = some c ∧ (v = c.record.version ∨ v = c.logicalTs)) ∨
    ∃ e t, r.tombstones.get e = some t ∧ v = t.logicalTs

/-- What the invariant says of a register: its logical time is not ahead of the clock, and it is
the version of the record if the entity is live. -/
def SlotClocked (clock : ℤ) (slot : Option (Stamp N × Option (EntityView N V))) : Prop :=
  ∀ s ∈ slot, (ofLex s.1).1 ≤ clock ∧ ∀ v ∈ s.2, v.version = (ofLex s.1).1

end

section Slots

variable {r : CrdtEntityRegistry N V} {clock clock' : ℤ}

omit [LinearOrder N] [OrderBot N] in
/-- **The invariant in terms of registers.** -/
theorem clocked_iff : r.Clocked ↔ r.Exclusive ∧ ∀ e, SlotClocked r.logicalClock (r.slot e) := by
  constructor
  · intro h
    refine ⟨h.exclusive, fun e s hs => ?_⟩
    cases hentry : r.entries.get e with
    | some =>
      rw [slot_of_entry hentry] at hs
      cases hs
      exact ⟨h.entries_le hentry, fun v hv => some.inj hv ▸ h.version_eq hentry⟩
    | none =>
      cases htomb : r.tombstones.get e with
      | some =>
        rw [slot_of_tombstone hentry htomb] at hs
        cases hs
        exact ⟨h.tombstones_le htomb, fun v hv => nomatch hv⟩
      | none =>
        rw [slot_eq_none hentry htomb] at hs
        cases hs
  · rintro ⟨hex, hslot⟩
    refine ⟨fun {e c} hc => (hslot e _ (slot_of_entry hc)).1, fun {e t} ht => ?_, hex,
      fun {e c} hc => (hslot e _ (slot_of_entry hc)).2 _ rfl⟩
    have hentry : r.entries.get e = none := (hex e).resolve_right fun h => by
      rw [ht] at h
      cases h
    exact (hslot e _ (slot_of_tombstone hentry ht)).1

variable {slot : Option (Stamp N × Option (EntityView N V))}

omit [LinearOrder N] [OrderBot N] in
theorem SlotClocked.mono
    (h : SlotClocked clock slot) (hle : clock ≤ clock') : SlotClocked clock' slot :=
  fun s hs => ⟨(h s hs).1.trans hle, (h s hs).2⟩

theorem version_of_mem_effect {u : EntityUpdate N V} {b : Option (Option (EntityView N V))}
    {v : EntityView N V} (h : v ∈ u.effect b) : v.version = u.version := by
  rw [EntityUpdate.effect] at h
  by_cases hu : u.operation = .delete
  · rw [if_pos hu] at h
    cases h
  · rw [if_neg hu] at h
    exact some.inj h ▸ rfl

/-- A register that is written with an update, under any author, by a registry whose clock has
reached the version. -/
theorem slotClocked_write (u : EntityUpdate N V) (author : N)
    (b : Option (Option (EntityView N V))) (hle : u.version ≤ clock) :
    SlotClocked clock (some (toLex (u.version, author), u.effect b)) := by
  intro s hs
  cases hs
  exact ⟨hle, fun v hv => version_of_mem_effect hv⟩

theorem SlotClocked.lwwWrite (h : SlotClocked clock slot) (u : EntityUpdate N V) :
    SlotClocked (max clock u.version) (lwwWrite slot u.toWrite) := by
  by_cases hle : ∀ c ∈ slot, c.1 ≤ u.toWrite.stamp
  · rw [lwwWrite_of_le hle]
    exact slotClocked_write u _ _ (le_max_right ..)
  · push Not at hle
    obtain ⟨c, hc, hlt⟩ := hle
    obtain rfl : slot = some c := hc
    rw [lwwWrite_of_lt hlt]
    exact h.mono (le_max_left ..)

end Slots

/-! ### Operations keep the invariant -/

section Operations

variable {r r' : CrdtEntityRegistry N V} {op : LocalOp N V} {now : ℕ} {event : RegistryEvent N V}

theorem le_tick (clock : ℤ) : clock ≤ tick clock := by
  rw [tick]
  split_ifs <;> omega

/-- A call keeps the invariant if the logical time that it takes is not behind the clock. -/
theorem Clocked.perform_of_le {clock : ℤ} (hr : r.Clocked) (hle : r.logicalClock ≤ clock + 1)
    (h : CrdtEntityRegistry.perform { r with logicalClock := clock } op now = .ok (r', event)) :
    r'.Clocked := by
  obtain ⟨hex, hslot⟩ := clocked_iff.mp hr
  have hclock : r'.logicalClock = clock + 1 := (perform_spec h).2.2.1
  have hex' : r'.Exclusive := Exclusive.perform (r := { r with logicalClock := clock }) hex h
  refine clocked_iff.mpr ⟨hex', fun e => ?_⟩
  by_cases he : op.entityId = e
  · subst he
    obtain ⟨u, -, -, hversion, hu, -⟩ := slot_perform h
    rw [hu]
    exact slotClocked_write u _ _ (by rw [hclock, hversion])
  · rw [slot_perform_of_ne h he]
    exact (hslot e).mono (by omega)

theorem Clocked.perform (hr : r.Clocked) (h : r.perform op now = .ok (r', event)) : r'.Clocked :=
  hr.perform_of_le (by omega) h

theorem Clocked.performNumber (hr : r.Clocked) (h : r.performNumber op now = .ok (r', event)) :
    r'.Clocked ∧ r.logicalClock ≤ r'.logicalClock := by
  have hle := le_tick r.logicalClock
  have hclock : r'.logicalClock = tick r.logicalClock - 1 + 1 := (perform_spec h).2.2.1
  exact ⟨hr.perform_of_le (by omega) h, by omega⟩

theorem Clocked.applyRemoteUpdate (hr : r.Clocked) (u : EntityUpdate N V) (now : ℕ) :
    (r.applyRemoteUpdate u now).Clocked := by
  obtain ⟨hex, hslot⟩ := clocked_iff.mp hr
  have hclock := (r.applyRemoteUpdate_frame u now).2.2
  refine clocked_iff.mpr ⟨hex.applyRemoteUpdate, fun e => ?_⟩
  rw [hclock]
  by_cases he : e = u.entityId
  · subst he
    rw [slot_applyRemoteUpdate hex]
    exact (hslot u.entityId).lwwWrite u
  · rw [slot_applyRemoteUpdate_of_ne he]
    exact (hslot e).mono (le_max_left ..)

omit [LinearOrder N] [OrderBot N] in
/-- The loop leaves the tombstone of an entity alone, or removes it if the entity is not exempt. -/
theorem get_evictTombstones (tombstones : OrderedMap EntityId (CrdtTombstone N)) (cutoff : ℤ)
    (e : EntityId) : (evictTombstones tombstones cutoff).1.get e = tombstones.get e ∨
      isCompactionExempt e = false ∧ (evictTombstones tombstones cutoff).1.get e = none := by
  refine List.foldlRecOn (motive := fun acc : OrderedMap EntityId (CrdtTombstone N) × ℕ =>
    acc.1.get e = tombstones.get e ∨ isCompactionExempt e = false ∧ acc.1.get e = none)
    _ _ (.inl rfl) fun acc hacc p _ => ?_
  dsimp only
  split_ifs with hexempt
  · exact hacc
  · rw [get_delete]
    split_ifs with he
    · exact .inr ⟨by simpa [he] using hexempt, rfl⟩
    · exact hacc
  · exact hacc

omit [LinearOrder N] [OrderBot N] in
theorem Clocked.compact (hr : r.Clocked) (options : CrdtRegistryOptions) (now : ℤ) :
    (r.compact options now).1.Clocked := by
  have htomb : ∀ {e t}, (r.compact options now).1.tombstones.get e = some t →
      r.tombstones.get e = some t := by
    intro e t h
    rw [CrdtEntityRegistry.compact] at h
    cases hopt : options.tombstoneTTLMs with
    | none =>
      rw [hopt] at h
      exact h
    | some ttl =>
      rw [hopt] at h
      rcases get_evictTombstones r.tombstones (now - ttl) e with heq | ⟨-, hnone⟩
      · exact heq ▸ h
      · exact absurd (h.symm.trans hnone) (by simp)
  refine ⟨hr.entries_le, fun h => hr.tombstones_le (htomb h), fun e => ?_, hr.version_eq⟩
  refine (hr.exclusive e).imp_right fun hnone => eq_none_iff_forall_ne_some.mpr ?_
  intro t ht
  rw [htomb ht] at hnone
  cases hnone

theorem Clocked.importSnapshot (q : CrdtEntityRegistry N V) (hq : q.Clocked) (now : ℕ)
    (h : r.importSnapshot (q.exportSnapshot now) = .ok r') : r'.Clocked := by
  rw [CrdtEntityRegistry.importSnapshot] at h
  split_ifs at h
  cases h
  -- an imported entry is an entry of `q`, stamped with its version
  have hentry : ∀ {e c}, get ((q.exportSnapshot now).entities.mapValues
      fun _ record => (⟨record, record.version, record.ownerNodeId.getD ⊥⟩ : CrdtEntry N V)) e =
        some c → c.record.version = c.logicalTs ∧ c.logicalTs ≤ q.logicalClock := by
    intro e c hc
    rw [get_mapValues, exportSnapshot, get_mapValues, map_map, map_eq_some_iff] at hc
    obtain ⟨c₀, hc₀, rfl⟩ := hc
    exact ⟨rfl, (hq.version_eq hc₀).trans_le (hq.entries_le hc₀)⟩
  exact ⟨fun hc => (hentry hc).2.trans (le_max_right ..), fun ht => (nomatch ht),
    fun _ => .inr rfl, fun hc => (hentry hc).1⟩

end Operations

/-! ### Runs -/

/-- An imported snapshot was exported by a registry that satisfies `Clocked`. -/
def Exported : CrdtEvent N V → Prop
  | .importSnapshot snapshot => ∃ (q : CrdtEntityRegistry N V) (now : ℕ), q.Clocked ∧
      snapshot = q.exportSnapshot now
  | _ => True

section Runs

variable {options : CrdtRegistryOptions} {r r' : CrdtEntityRegistry N V} {ev : CrdtEvent N V}

omit [LinearOrder N] [OrderBot N] in
theorem clocked_create (x : N) : (create x : CrdtEntityRegistry N V).Clocked :=
  ⟨fun h => (nomatch h), fun h => (nomatch h), fun _ => .inl rfl, fun h => (nomatch h)⟩

theorem Clocked.step (hr : r.Clocked) (hev : Exported ev) (h : r.step options ev = some r') :
    r'.Clocked ∧ r.logicalClock ≤ r'.logicalClock := by
  cases ev with
  | start | stop =>
    cases h
    exact ⟨⟨hr.entries_le, hr.tombstones_le, hr.exclusive, hr.version_eq⟩, le_rfl⟩
  | call =>
    simp only [CrdtEntityRegistry.step] at h
    split at h
    · rename_i r₁ event hperform
      cases h
      have hclock := (perform_spec hperform).2.2.1
      exact ⟨hr.perform hperform, by omega⟩
    · exact some.inj h ▸ ⟨hr, le_rfl⟩
  | applyRemoteUpdate u now =>
    cases h
    exact ⟨hr.applyRemoteUpdate u now, (r.applyRemoteUpdate_frame u now).2.2 ▸ le_max_left ..⟩
  | compact now =>
    cases h
    exact ⟨hr.compact options now, le_rfl⟩
  | importSnapshot =>
    obtain ⟨q, now, hq, rfl⟩ := hev
    simp only [CrdtEntityRegistry.step] at h
    split at h
    · rename_i r₁ himport
      cases h
      refine ⟨Clocked.importSnapshot q hq now himport, ?_⟩
      rw [CrdtEntityRegistry.importSnapshot] at himport
      split_ifs at himport
      exact Except.ok.inj himport ▸ le_max_left ..
    · exact some.inj h ▸ ⟨hr, le_rfl⟩

theorem Clocked.numberStep (hr : r.Clocked) (hev : Exported ev)
    (h : r.numberStep options ev = some r') : r'.Clocked ∧ r.logicalClock ≤ r'.logicalClock := by
  cases ev with
  | call =>
    simp only [CrdtEntityRegistry.numberStep] at h
    split at h
    · rename_i hperform
      exact some.inj h ▸ hr.performNumber hperform
    · exact some.inj h ▸ ⟨hr, le_rfl⟩
  | start | stop | applyRemoteUpdate | compact | importSnapshot =>
    exact hr.step hev (show r.step options _ = some r' from h)

theorem Clocked.run (hr : r.Clocked) {es : List (CrdtEvent N V)} (hes : ∀ ev ∈ es, Exported ev)
    (hrun : exec (CrdtEntityRegistry.numberStep options) r es = some r') :
    r'.Clocked ∧ r.logicalClock ≤ r'.logicalClock :=
  exec_invariant (P := fun t : CrdtEntityRegistry N V =>
      t.Clocked ∧ r.logicalClock ≤ t.logicalClock)
    (fun _ _ _ ht hok hstep =>
      (ht.1.numberStep hok.2 hstep).imp_right ht.2.trans)
    ⟨hr, le_rfl⟩ ((allSteps_true ..).and_forall hes) hrun

omit [LinearOrder N] [OrderBot N] in
theorem Clocked.le_of_stores (hr : r.Clocked) {v : ℤ} (hv : r.Stores v) : v ≤ r.logicalClock := by
  rcases hv with ⟨e, c, hc, rfl | rfl⟩ | ⟨e, t, ht, rfl⟩
  · exact (hr.version_eq hc).trans_le (hr.entries_le hc)
  · exact hr.entries_le hc
  · exact hr.tombstones_le ht

/-- **The clock invariant.** In every run of a fresh registry the clock is not behind any stored
logical time, no entity is both live and deleted and records have the logical time of their entry
as version. A call that succeeds while the clock is below 2^53 writes its entity and logs an update
with one and the same new version, which is above every version that was stored at any time
before. -/
theorem clocked_run (x : N) {es₁ es₂ : List (CrdtEvent N V)}
    (hes : ∀ ev ∈ es₁ ++ es₂, Exported ev) {r₁ : CrdtEntityRegistry N V}
    (hrun₁ : exec (CrdtEntityRegistry.numberStep options) (create x) es₁ = some r₁)
    (hrun₂ : exec (CrdtEntityRegistry.numberStep options) r₁ es₂ = some r) :
    r.Clocked ∧ ∀ op now r' event, r.logicalClock < exactBound →
      r.performNumber op now = .ok (r', event) →
      ∃ u, r'.updateLog = r.updateLog ++ [u] ∧ u.entityId = op.entityId ∧
        (∀ c, r'.entries.get op.entityId = some c → c.record.version = u.version) ∧
        (∀ t, r'.tombstones.get op.entityId = some t → t.logicalTs = u.version) ∧
        ∀ v, r₁.Stores v → v < u.version := by
  have hr₁ := ((clocked_create x).run (fun ev h => hes ev (List.mem_append_left _ h)) hrun₁).1
  obtain ⟨hr, hclock⟩ := hr₁.run (fun ev h => hes ev (List.mem_append_right _ h)) hrun₂
  refine ⟨hr, fun op now r' event hbound hperform => ?_⟩
  obtain ⟨u, hlog, he, hversion, hslot, -⟩ := slot_perform hperform
  have hr' := (hr.performNumber hperform).1
  refine ⟨u, hlog, he, fun c hc => ?_, fun t ht => ?_, fun v hv => ?_⟩
  · rw [slot_of_entry hc] at hslot
    have hstamp := congrArg (fun s => (ofLex s.1).1) (some.inj hslot)
    exact (hr'.version_eq hc).trans hstamp
  · have hnone := (hr'.exclusive op.entityId).resolve_right (by simp [ht])
    rw [slot_of_tombstone hnone ht] at hslot
    exact congrArg (fun s => (ofLex s.1).1) (some.inj hslot)
  · have hle := hr₁.le_of_stores hv
    have hnext : tick r.logicalClock = r.logicalClock + 1 := if_pos hbound
    have hversion : u.version = tick r.logicalClock - 1 + 1 := hversion
    omega

end Runs

/-- An update of another node. -/
def fromN2 (entityId : EntityId) (version : ℤ) (operation : Operation) : EntityUpdate String ℕ :=
  { entityId, ownerNodeId := some "n2", version, timestamp := 1, operation }

def createAndImport : List (CrdtEvent String ℕ) :=
  [.start, .importSnapshot
      (((create "n2").applyRemoteUpdate (fromN2 "h" 3 .create) 0).exportSnapshot 2),
    .call (.proposeEntity "e" none) 2, .applyRemoteUpdate (fromN2 "f" 5 .delete) 3, .compact 4]

theorem clocked_run_createAndImport :
    ∃ r : CrdtEntityRegistry String ℕ, exec (numberStep { tombstoneTTLMs := some 10 })
        (create "n1") createAndImport = some r ∧
      r.entries.keys = ["h", "e"] ∧ r.tombstones.keys = ["f"] ∧ r.logicalClock = 5 ∧ r.Clocked ∧
      ∃ r' event u, r.performNumber (.releaseEntity "e") 5 = .ok (r', event) ∧
        r'.updateLog = r.updateLog ++ [u] ∧ ∀ v, r.Stores v → v < u.version := by
  have hes : ∀ ev ∈ createAndImport ++ [], Exported ev := by
    simp only [createAndImport, List.append_nil, List.forall_mem_cons, Exported, true_and]
    exact ⟨⟨_, 2, (clocked_create "n2").applyRemoteUpdate _ 0, rfl⟩, by simp⟩
  have hrun : exec (numberStep { tombstoneTTLMs := some 10 }) (create "n1") createAndImport =
    some _ := rfl
  obtain ⟨hclocked, hcall⟩ := clocked_run "n1" hes hrun rfl
  obtain ⟨u, hlog, -, -, -, hlt⟩ := hcall (.releaseEntity "e") 5 _ _ (by decide) rfl
  exact ⟨_, rfl, by decide, by decide, by decide, hclocked, _, _, u, rfl, hlog, hlt⟩

/-- After an update with version 2^53 the clock stands still, and a call repeats the version. -/
theorem version_repeated : ∃ r r' event, exec (numberStep {}) (create "n1")
      [.start, .applyRemoteUpdate (fromN2 "e" exactBound .create) 0] = some r ∧
    r.performNumber (.proposeEntity "f" none) 1 = .ok (r', event) ∧ r.Stores exactBound ∧
      event.record.version = exactBound :=
  ⟨_, _, _, rfl, rfl, .inl ⟨"e", _, rfl, .inl rfl⟩, rfl⟩

end CrdtEntityRegistry

end DistributedCore.Entity
