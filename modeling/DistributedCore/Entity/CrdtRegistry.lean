import DistributedCore.Entity.Record
import DistributedCore.Library.LastWriterWins
import Mathlib.Data.Prod.Lex
import Mathlib.Data.String.Basic

/-!
# The CRDT entity registry

`CrdtEntityRegistry` keeps, for every entity, either a live entry or a tombstone, each with the
logical time and the author of the write that put it there. Local calls advance the logical
clock; `applyRemoteUpdate` merges an update of another node: the higher logical time wins, and
on a tie the greater author.

Source: `src/cluster/entity/CrdtEntityRegistry.ts`.
-/

namespace DistributedCore.Entity

open OrderedMap Option EntityUpdate

/-- A logical timestamp with the id of the author, which breaks ties. -/
abbrev Stamp (N : Type) := ℤ ×ₗ N

/-- The empty node id is the least one. -/
instance instOrderBotString : OrderBot String where
  bot := ""
  bot_le s := by
    rw [String.le_iff_toList_le, String.toList_empty]
    cases s.toList with
    | nil => exact le_rfl
    | cons c l => exact (List.nil_lt_cons c l).le

/-- A live entity with the stamp of its last write. -/
structure CrdtEntry (N V : Type) where
  record : EntityRecord N V
  logicalTs : ℤ
  authorNodeId : N
  deriving DecidableEq

/-- The stamp of a deletion. -/
structure CrdtTombstone (N : Type) where
  logicalTs : ℤ
  authorNodeId : N
  deletedAt : ℕ
  deriving DecidableEq

def CrdtEntry.stamp {N V : Type} (c : CrdtEntry N V) : Stamp N :=
  toLex (c.logicalTs, c.authorNodeId)

def CrdtTombstone.stamp {N : Type} (t : CrdtTombstone N) : Stamp N :=
  toLex (t.logicalTs, t.authorNodeId)

/-- Live entities, tombstones, the log of updates and the logical clock. -/
structure CrdtEntityRegistry (N V : Type) where
  nodeId : N
  isRunning : Bool
  entries : OrderedMap EntityId (CrdtEntry N V)
  tombstones : OrderedMap EntityId (CrdtTombstone N)
  updateLog : List (EntityUpdate N V)
  logicalClock : ℤ

namespace CrdtEntityRegistry

variable {N V : Type} [LinearOrder N]

/-! ### The code -/

omit [LinearOrder N] in
def create (nodeId : N) : CrdtEntityRegistry N V where
  nodeId := nodeId
  isRunning := false
  entries := .empty
  tombstones := .empty
  updateLog := []
  logicalClock := 0

variable (r : CrdtEntityRegistry N V)

omit [LinearOrder N] in
def start : CrdtEntityRegistry N V := { r with isRunning := true }

/-- The comparison of the stamps, as the source writes it. -/
def winsOver (aTs : ℤ) (aNode : N) (bTs : ℤ) (bNode : N) : Bool :=
  if aTs ≠ bTs then aTs > bTs else aNode > bNode

variable (entityId : EntityId)

omit [LinearOrder N] in
def proposeEntity (metadata : Option (Metadata V)) (now : ℕ) :
    Except (RegistryError N) (CrdtEntityRegistry N V × RegistryEvent N V) :=
  if !r.isRunning then .error .notRunning
  else if r.entries.has entityId then .error (.alreadyExists entityId)
  else
    let ts := r.logicalClock + 1
    let record : EntityRecord N V :=
      { entityId := entityId
        ownerNodeId := some r.nodeId
        version := ts
        createdAt := now
        lastUpdated := now
        metadata := metadata.getD .empty }
    let update : EntityUpdate N V :=
      { entityId := entityId
        ownerNodeId := some r.nodeId
        version := ts
        timestamp := now
        operation := .create
        metadata := metadata }
    .ok ({ r with
      logicalClock := ts
      entries := r.entries.set entityId ⟨record, ts, r.nodeId⟩
      tombstones := r.tombstones.delete entityId
      updateLog := r.updateLog ++ [update] }, .created record)

def ownedEntry (call : OwnerCall) (entityId : EntityId) :
    Except (RegistryError N) (CrdtEntry N V) :=
  if !r.isRunning then .error .notRunning
  else
    match r.entries.get entityId with
    | none => .error (.notFound entityId)
    | some entry =>
      if entry.record.ownerNodeId ≠ some r.nodeId then .error (.notOwned call entityId r.nodeId)
      else .ok entry

def releaseEntity (now : ℕ) :
    Except (RegistryError N) (CrdtEntityRegistry N V × RegistryEvent N V) :=
  (r.ownedEntry .release entityId).map fun entry =>
    let ts := r.logicalClock + 1
    let update : EntityUpdate N V :=
      { entityId := entityId
        version := ts
        timestamp := now
        operation := .delete
        previousVersion := some entry.record.version }
    ({ r with
      logicalClock := ts
      entries := r.entries.delete entityId
      tombstones := r.tombstones.set entityId ⟨ts, r.nodeId, now⟩
      updateLog := r.updateLog ++ [update] }, .deleted entry.record)

def updateEntity (metadata : Metadata V)
    (now : ℕ) : Except (RegistryError N) (CrdtEntityRegistry N V × RegistryEvent N V) :=
  (r.ownedEntry .update entityId).map fun entry =>
    let ts := r.logicalClock + 1
    let updated : EntityRecord N V :=
      { entry.record with
        version := ts
        lastUpdated := now
        metadata := entry.record.metadata.spread metadata }
    let update : EntityUpdate N V :=
      { entityId := entityId
        ownerNodeId := some r.nodeId
        version := ts
        timestamp := now
        operation := .update
        metadata := some metadata
        previousVersion := some entry.record.version }
    ({ r with
      logicalClock := ts
      entries := r.entries.set entityId ⟨updated, ts, r.nodeId⟩
      updateLog := r.updateLog ++ [update] }, .updated updated)

def transferEntity (targetNodeId : N)
    (now : ℕ) : Except (RegistryError N) (CrdtEntityRegistry N V × RegistryEvent N V) :=
  (r.ownedEntry .transfer entityId).map fun entry =>
    let ts := r.logicalClock + 1
    let transferred : EntityRecord N V :=
      { entry.record with
        ownerNodeId := some targetNodeId
        version := ts
        lastUpdated := now }
    let update : EntityUpdate N V :=
      { entityId := entityId
        ownerNodeId := some targetNodeId
        version := ts
        timestamp := now
        operation := .transfer
        metadata := some entry.record.metadata
        previousVersion := some entry.record.version }
    ({ r with
      logicalClock := ts
      entries := r.entries.set entityId ⟨transferred, ts, r.nodeId⟩
      updateLog := r.updateLog ++ [update] }, .transferred transferred)

def perform (op : LocalOp N V) (now : ℕ) :
    Except (RegistryError N) (CrdtEntityRegistry N V × RegistryEvent N V) :=
  match op with
  | .proposeEntity e metadata => r.proposeEntity e metadata now
  | .updateEntity e metadata => r.updateEntity e metadata now
  | .transferEntity e target => r.transferEntity e target now
  | .releaseEntity e => r.releaseEntity e now

variable {e : EntityId} {entry : CrdtEntry N V}

theorem ownedEntry_eq_ok {r : CrdtEntityRegistry N V} {call : OwnerCall}
    (h : r.ownedEntry call e = .ok entry) :
    r.isRunning ∧ r.entries.get e = some entry ∧ entry.record.ownerNodeId = some r.nodeId := by
  rw [ownedEntry] at h
  split_ifs at h with hrun
  cases hentry : r.entries.get e with
  | none => simp [hentry] at h
  | some =>
    simp only [hentry, ne_eq, ite_not] at h
    split_ifs at h with howner
    cases h
    exact ⟨by simpa using hrun, rfl, howner⟩

variable [OrderBot N]

def mergedEntry (existing : Option (CrdtEntry N V)) (u : EntityUpdate N V) (now : ℕ) :
    CrdtEntry N V where
  record :=
    { entityId := u.entityId
      ownerNodeId := some (u.ownerNodeId.getD ((existing.bind (·.record.ownerNodeId)).getD ⊥))
      version := u.version
      createdAt := (existing.map (·.record.createdAt)).getD u.timestamp
      lastUpdated := now
      metadata :=
        if u.operation = .update then
          (existing.elim .empty fun c => c.record.metadata).spread (u.metadata.getD .empty)
        else u.metadata.getD .empty }
  logicalTs := u.version
  authorNodeId := u.ownerNodeId.getD ⊥

/-- A remote write is merged unless what is stored wins over it. -/
def mergeWrite (r : CrdtEntityRegistry N V) (u : EntityUpdate N V) (now : ℕ) :
    CrdtEntityRegistry N V :=
  let author := u.ownerNodeId.getD ⊥
  let existing := r.entries.get u.entityId
  if (r.tombstones.get u.entityId).any
      fun tomb => winsOver tomb.logicalTs tomb.authorNodeId u.version author then r
  else if existing.any
      fun entry => winsOver entry.logicalTs entry.authorNodeId u.version author then r
  else
    { r with
      entries := r.entries.set u.entityId (mergedEntry existing u now)
      tombstones := r.tombstones.delete u.entityId
      updateLog := r.updateLog ++ [u] }

/-- A remote deletion is merged unless what is stored wins over it. -/
def mergeDelete (r : CrdtEntityRegistry N V) (u : EntityUpdate N V) (now : ℕ) :
    CrdtEntityRegistry N V :=
  let author := u.ownerNodeId.getD ⊥
  let tomb : CrdtTombstone N := ⟨u.version, author, now⟩
  let merged :=
    match r.entries.get u.entityId with
    | some entry =>
      if !winsOver entry.logicalTs entry.authorNodeId u.version author then
        { r with
          entries := r.entries.delete u.entityId
          tombstones := r.tombstones.set u.entityId tomb }
      else r
    | none =>
      if (r.tombstones.get u.entityId).all fun old : CrdtTombstone N =>
          !winsOver old.logicalTs old.authorNodeId u.version author then
        { r with tombstones := r.tombstones.set u.entityId tomb }
      else r
  { merged with updateLog := merged.updateLog ++ [u] }

/-- `applyRemoteUpdate`. A write that loses returns before it is logged; a `DELETE` is always
logged. No event is emitted. -/
def applyRemoteUpdate (r : CrdtEntityRegistry N V) (u : EntityUpdate N V) (now : ℕ) :
    CrdtEntityRegistry N V :=
  let r := { r with logicalClock := max r.logicalClock u.version }
  match u.operation with
  | .create => r.mergeWrite u now
  | .update => r.mergeWrite u now
  | .transfer => r.mergeWrite u now
  | .delete => r.mergeDelete u now

/-! ### The register of an entity -/

omit [OrderBot N] in
theorem winsOver_iff (aTs bTs : ℤ) (aNode bNode : N) :
    winsOver aTs aNode bTs bNode = true ↔ (toLex (bTs, bNode) : Stamp N) < toLex (aTs, aNode) := by
  rw [Prod.Lex.toLex_lt_toLex, winsOver]
  by_cases h : aTs = bTs
  · subst h
    simp
  · have h' : bTs ≠ aTs := fun hb => h hb.symm
    simp [h, h']

omit [LinearOrder N] [OrderBot N] in
/-- The stored stamp of an entity, with its view if it is live. -/
def slot (r : CrdtEntityRegistry N V) (e : EntityId) : Option (Stamp N × Option (EntityView N V)) :=
  match r.entries.get e with
  | some entry => some (entry.stamp, some entry.record.view)
  | none => (r.tombstones.get e).map fun tomb => (tomb.stamp, none)

omit [LinearOrder N] [OrderBot N] in
/-- No entity has both an entry and a tombstone. -/
def Exclusive (r : CrdtEntityRegistry N V) : Prop :=
  ∀ e, r.entries.get e = none ∨ r.tombstones.get e = none

end CrdtEntityRegistry

section Write

variable {N V : Type} [LinearOrder N] [OrderBot N] (u : EntityUpdate N V)

def EntityUpdate.stamp : Stamp N := toLex (u.version, u.ownerNodeId.getD ⊥)

/-- What an update leaves in a register in which it wins, given what the register holds: a
tombstone, or the record merged with the live one, if there is one. -/
def EntityUpdate.effect (cur : Option (Option (EntityView N V))) : Option (EntityView N V) :=
  if u.operation = .delete then none
  else some
    { ownerNodeId := some (u.ownerNodeId.getD ((cur.join.bind (·.ownerNodeId)).getD ⊥))
      version := u.version
      metadata := fun k =>
        if u.operation = .update then (u.patch k).or (cur.join.bind (·.metadata k))
        else u.patch k }

def EntityUpdate.toWrite : StampedWrite (Stamp N) (Option (EntityView N V)) := ⟨u.stamp, u.effect⟩

end Write

namespace CrdtEntityRegistry

variable {N V : Type} [LinearOrder N] [OrderBot N] {tomb : CrdtTombstone N}
  (r : CrdtEntityRegistry N V)

theorem view_mergedEntry (existing : Option (CrdtEntry N V)) (u : EntityUpdate N V) (now : ℕ)
    (hu : u.operation ≠ .delete) (cur : Option (Option (EntityView N V)))
    (hcur : cur.join = existing.map fun c => c.record.view) :
    some (mergedEntry existing u now).record.view = u.effect cur := by
  rw [effect, if_neg hu, hcur]
  congr 1
  ext k
  · cases existing <;> rfl
  · rfl
  · by_cases hup : u.operation = .update
    · cases existing <;>
        simp [EntityRecord.view, mergedEntry, hup, get_spread, u.get_getD_metadata]
    · simp [EntityRecord.view, mergedEntry, hup, u.get_getD_metadata]

section Slot

variable {r : CrdtEntityRegistry N V} {u : EntityUpdate N V} {now : ℕ} {e : EntityId}

section

omit [LinearOrder N] [OrderBot N]

theorem slot_of_entry (h : r.entries.get e = some entry) :
    r.slot e = some (entry.stamp, some entry.record.view) := by rw [slot, h]

theorem slot_of_tombstone (h : r.entries.get e = none)
    (htomb : r.tombstones.get e = some tomb) : r.slot e = some (tomb.stamp, none) := by
  rw [slot, h, htomb]
  rfl

theorem exists_tombstone_of_slot {m : Stamp N} (h : r.slot e = some (m, none)) :
    ∃ tomb, r.tombstones.get e = some tomb ∧ tomb.stamp = m := by
  rw [slot] at h
  cases hentry : r.entries.get e with
  | some => simp [hentry] at h
  | none =>
    rw [hentry] at h
    obtain ⟨tomb, htomb, heq⟩ := map_eq_some_iff.mp h
    exact ⟨tomb, htomb, congrArg Prod.fst heq⟩

theorem slot_eq_none (h : r.entries.get e = none) (htomb : r.tombstones.get e = none) :
    r.slot e = none := by
  rw [slot, h, htomb]
  rfl

theorem join_slot (e : EntityId) :
    ((r.slot e).map Prod.snd).join = (r.entries.get e).map fun c => c.record.view := by
  rw [slot]
  cases r.entries.get e with
  | some => rfl
  | none => cases r.tombstones.get e <;> rfl

theorem slot_congr {r' : CrdtEntityRegistry N V} (hentry : r'.entries.get e = r.entries.get e)
    (htomb : r'.tombstones.get e = r.tombstones.get e) : r'.slot e = r.slot e := by
  rw [slot, hentry, htomb, slot]

theorem slot_set_entry (entry : CrdtEntry N V) (tombs : OrderedMap EntityId (CrdtTombstone N))
    (log : List (EntityUpdate N V)) :
    slot { r with
      entries := r.entries.set e entry
      tombstones := tombs
      updateLog := log } e = some (entry.stamp, some entry.record.view) :=
  slot_of_entry (get_set_self ..)

theorem slot_set_tombstone (tomb : CrdtTombstone N) (log : List (EntityUpdate N V))
    {entries : OrderedMap EntityId (CrdtEntry N V)} (h : entries.get e = none) :
    slot { r with
      entries := entries
      tombstones := r.tombstones.set e tomb
      updateLog := log } e = some (tomb.stamp, none) :=
  slot_of_tombstone h (get_set_self ..)

end

/-- In a registry in which no entity is both live and deleted, a write loses against the register
of its entity and changes nothing, or it is applied and logged. -/
theorem mergeWrite_cases (hex : r.Exclusive) (u : EntityUpdate N V) (now : ℕ) :
    (∃ c, r.slot u.entityId = some c ∧ u.stamp < c.1 ∧ r.mergeWrite u now = r) ∨
      (∀ c ∈ r.slot u.entityId, c.1 ≤ u.stamp) ∧ r.mergeWrite u now =
          { r with
            entries := r.entries.set u.entityId (mergedEntry (r.entries.get u.entityId) u now)
            tombstones := r.tombstones.delete u.entityId
            updateLog := r.updateLog ++ [u] } := by
  rw [mergeWrite]
  split_ifs with htomb hentry
  · obtain ⟨tomb, ht, hwins⟩ := (any_eq_true _ _).mp htomb
    have hnone := (hex u.entityId).resolve_right (by simp [ht])
    exact .inl ⟨_, slot_of_tombstone hnone ht, (winsOver_iff ..).mp hwins, rfl⟩
  · obtain ⟨entry, he, hwins⟩ := (any_eq_true _ _).mp hentry
    exact .inl ⟨_, slot_of_entry he, (winsOver_iff ..).mp hwins, rfl⟩
  · refine .inr ⟨fun c hc => not_lt.mp fun hlt => ?_, rfl⟩
    cases he : r.entries.get u.entityId with
    | some entry =>
      rw [slot_of_entry he] at hc
      cases hc
      exact hentry ((any_eq_true _ _).mpr ⟨entry, he, (winsOver_iff ..).mpr hlt⟩)
    | none =>
      cases ht : r.tombstones.get u.entityId with
      | some tomb =>
        rw [slot_of_tombstone he ht] at hc
        cases hc
        exact htomb ((any_eq_true _ _).mpr ⟨tomb, ht, (winsOver_iff ..).mpr hlt⟩)
      | none =>
        rw [slot_eq_none he ht] at hc
        cases hc

/-- In a registry in which no entity is both live and deleted, a write is a last-writer-wins
write to the register of its entity. -/
theorem slot_mergeWrite (hex : r.Exclusive) (hu : u.operation ≠ .delete) :
    (r.mergeWrite u now).slot u.entityId = lwwWrite (r.slot u.entityId) u.toWrite := by
  rcases mergeWrite_cases hex u now with ⟨c, hc, hlt, heq⟩ | ⟨hle, heq⟩
  · rw [heq, hc]
    exact (lwwWrite_of_lt hlt).symm
  · have hle : ∀ c ∈ r.slot u.entityId, c.1 ≤ u.toWrite.stamp := hle
    have heffect := view_mergedEntry (r.entries.get u.entityId) u now hu
      ((r.slot u.entityId).map Prod.snd) (join_slot u.entityId)
    rw [heq, slot_set_entry, heffect]
    exact (lwwWrite_of_le hle).symm

/-- In a registry in which no entity is both live and deleted, a `DELETE` is a last-writer-wins
write of a tombstone. -/
theorem slot_mergeDelete (hu : u.operation = .delete) :
    (r.mergeDelete u now).slot u.entityId = lwwWrite (r.slot u.entityId) u.toWrite := by
  have heffect : ∀ cur, u.toWrite.effect cur = none := fun cur => by simp [toWrite, effect, hu]
  cases hentry : r.entries.get u.entityId with
  | some entry =>
    by_cases hwins : winsOver entry.logicalTs entry.authorNodeId u.version (u.ownerNodeId.getD ⊥)
    · have hlt : u.stamp < entry.stamp := (winsOver_iff ..).mp hwins
      simp only [mergeDelete, hentry, hwins, Bool.not_true, Bool.false_eq_true, ↓reduceIte]
      rw [slot_of_entry hentry, lwwWrite_of_lt hlt]
      exact slot_of_entry hentry
    · have hle : entry.stamp ≤ u.stamp := not_lt.mp fun h => hwins ((winsOver_iff ..).mpr h)
      simp only [mergeDelete, hentry, hwins, Bool.not_false, ↓reduceIte]
      rw [slot_of_entry hentry, lwwWrite_some_of_le hle, heffect]
      exact slot_set_tombstone _ _ (get_delete_self ..)
  | none =>
    cases htomb : r.tombstones.get u.entityId with
    | some tomb =>
      by_cases hwins : winsOver tomb.logicalTs tomb.authorNodeId u.version (u.ownerNodeId.getD ⊥)
      · have hlt : u.stamp < tomb.stamp := (winsOver_iff ..).mp hwins
        simp only [mergeDelete, hentry, htomb, all_some, hwins, Bool.not_true,
          Bool.false_eq_true, ↓reduceIte]
        rw [slot_of_tombstone hentry htomb, lwwWrite_of_lt hlt]
        exact slot_of_tombstone hentry htomb
      · have hle : tomb.stamp ≤ u.stamp := not_lt.mp fun h => hwins ((winsOver_iff ..).mpr h)
        simp only [mergeDelete, hentry, htomb, all_some, hwins, Bool.not_false, ↓reduceIte]
        rw [slot_of_tombstone hentry htomb, lwwWrite_some_of_le hle, heffect]
        exact slot_set_tombstone _ _ hentry
    | none =>
      simp only [mergeDelete, hentry, htomb, all_none, ↓reduceIte]
      rw [slot_eq_none hentry htomb, lwwWrite_of_le (by simp), heffect]
      exact slot_set_tombstone _ _ hentry

theorem applyRemoteUpdate_frame (u : EntityUpdate N V) (now : ℕ) :
    (r.applyRemoteUpdate u now).nodeId = r.nodeId ∧
      (r.applyRemoteUpdate u now).isRunning = r.isRunning ∧
      (r.applyRemoteUpdate u now).logicalClock = max r.logicalClock u.version := by
  have hwrite : ∀ r : CrdtEntityRegistry N V, (r.mergeWrite u now).nodeId = r.nodeId ∧
      (r.mergeWrite u now).isRunning = r.isRunning ∧
      (r.mergeWrite u now).logicalClock = r.logicalClock := by
    intro r
    rw [mergeWrite]
    split_ifs <;> exact ⟨rfl, rfl, rfl⟩
  have hdelete : ∀ r : CrdtEntityRegistry N V, (r.mergeDelete u now).nodeId = r.nodeId ∧
      (r.mergeDelete u now).isRunning = r.isRunning ∧
      (r.mergeDelete u now).logicalClock = r.logicalClock := by
    intro r
    rw [mergeDelete]
    cases r.entries.get u.entityId <;> dsimp only <;> split_ifs <;> exact ⟨rfl, rfl, rfl⟩
  cases hop : u.operation with
  | create | update | transfer =>
    simp only [applyRemoteUpdate, hop]
    exact hwrite _
  | delete =>
    simp only [applyRemoteUpdate, hop]
    exact hdelete _

/-- What a merge does to the entry and the tombstone of an entity: nothing, or it replaces one
of them and removes the other. -/
theorem applyRemoteUpdate_cases (u : EntityUpdate N V) (now : ℕ) :
    ((r.applyRemoteUpdate u now).entries = r.entries ∧
        (r.applyRemoteUpdate u now).tombstones = r.tombstones) ∨
      (∃ entry, entry.record.entityId = u.entityId ∧
        (r.applyRemoteUpdate u now).entries = r.entries.set u.entityId entry ∧
        (r.applyRemoteUpdate u now).tombstones = r.tombstones.delete u.entityId) ∨
      ∃ tomb, (r.applyRemoteUpdate u now).entries.get = (r.entries.delete u.entityId).get ∧
        (r.applyRemoteUpdate u now).tombstones = r.tombstones.set u.entityId tomb := by
  have hwrite : ∀ r : CrdtEntityRegistry N V, r.mergeWrite u now = r ∨
      ∃ entry, entry.record.entityId = u.entityId ∧
        (r.mergeWrite u now).entries = r.entries.set u.entityId entry ∧
        (r.mergeWrite u now).tombstones = r.tombstones.delete u.entityId := by
    intro r
    rw [mergeWrite]
    split_ifs
    · exact .inl rfl
    · exact .inl rfl
    · exact .inr ⟨_, rfl, rfl, rfl⟩
  cases hop : u.operation with
  | create | update | transfer =>
    simp only [applyRemoteUpdate, hop]
    rcases hwrite { r with logicalClock := max r.logicalClock u.version } with h | h
    · rw [h]
      exact .inl ⟨rfl, rfl⟩
    · exact .inr (.inl h)
  | delete =>
    simp only [applyRemoteUpdate, hop, mergeDelete]
    cases hentry : r.entries.get u.entityId with
    | some entry =>
      by_cases hwins : winsOver entry.logicalTs entry.authorNodeId u.version (u.ownerNodeId.getD ⊥)
      · simp [hwins]
      · dsimp only
        rw [if_pos (by simp [hwins])]
        exact .inr (.inr ⟨_, rfl, rfl⟩)
    | none =>
      have hget : (r.entries.delete u.entityId).get = r.entries.get := by
        funext e
        rw [get_delete]
        split
        · subst_vars
          exact hentry.symm
        · rfl
      rw [hget]
      split_ifs
      · exact .inr (.inr ⟨_, rfl, rfl⟩)
      · simp

theorem get_applyRemoteUpdate_of_ne (h : e ≠ u.entityId) :
    (r.applyRemoteUpdate u now).entries.get e = r.entries.get e ∧
      (r.applyRemoteUpdate u now).tombstones.get e = r.tombstones.get e := by
  rcases r.applyRemoteUpdate_cases u now with ⟨h₁, h₂⟩ | ⟨entry, -, h₁, h₂⟩ | ⟨tomb, h₁, h₂⟩
  · exact ⟨by rw [h₁], by rw [h₂]⟩
  · exact ⟨by rw [h₁, get_set_of_ne _ _ h], by rw [h₂, get_delete_of_ne _ h]⟩
  · exact ⟨by rw [h₁, get_delete_of_ne _ h], by rw [h₂, get_set_of_ne _ _ h]⟩

theorem slot_applyRemoteUpdate_of_ne (h : e ≠ u.entityId) :
    (r.applyRemoteUpdate u now).slot e = r.slot e :=
  slot_congr (get_applyRemoteUpdate_of_ne h).1 (get_applyRemoteUpdate_of_ne h).2

theorem Exclusive.applyRemoteUpdate (hex : r.Exclusive) :
    (r.applyRemoteUpdate u now).Exclusive := by
  intro e
  rcases r.applyRemoteUpdate_cases u now with ⟨h₁, h₂⟩ | ⟨entry, -, h₁, h₂⟩ | ⟨tomb, h₁, h₂⟩ <;>
    rw [h₁, h₂]
  · exact hex e
  · rw [get_set, get_delete]
    split
    · exact .inr rfl
    · exact hex e
  · rw [get_set, get_delete]
    split
    · exact .inl rfl
    · exact hex e

/-- **The merge refines a last-writer-wins register.** In a registry in which no entity is both
live and deleted, merging an update is writing it to the register of its entity. -/
theorem slot_applyRemoteUpdate (hex : r.Exclusive) :
    (r.applyRemoteUpdate u now).slot u.entityId = lwwWrite (r.slot u.entityId) u.toWrite := by
  cases hop : u.operation with
  | delete =>
    simp only [CrdtEntityRegistry.applyRemoteUpdate, hop]
    exact slot_mergeDelete hop
  | create | update | transfer =>
    simp only [CrdtEntityRegistry.applyRemoteUpdate, hop]
    exact slot_mergeWrite (r := { r with logicalClock := _ }) hex (by simp [hop])

end Slot

/-! ### Well-formed registries -/

/-- The registry of node `x` is running, no entity is both live and deleted, and every entry is
stored under the id of its record. -/
structure Valid (r : CrdtEntityRegistry N V) (x : N) : Prop where
  nodeId : r.nodeId = x
  running : r.isRunning = true
  exclusive : r.Exclusive
  keyed : ∀ {e c}, r.entries.get e = some c → c.record.entityId = e

variable {r r' : CrdtEntityRegistry N V} {x : N} {op : LocalOp N V} {now : ℕ}
  {event : RegistryEvent N V}

omit [LinearOrder N] [OrderBot N] in
theorem valid_create (x : N) : ((create x).start : CrdtEntityRegistry N V).Valid x :=
  ⟨rfl, rfl, fun _ => .inl rfl, fun h => nomatch h⟩

omit [LinearOrder N] [OrderBot N] in
theorem Valid.slot_of_tombstone (hr : r.Valid x)
    (h : r.tombstones.get e = some tomb) : r.slot e = some (tomb.stamp, none) := by
  rcases hr.exclusive e with hnone | hnone
  · exact CrdtEntityRegistry.slot_of_tombstone hnone h
  · rw [h] at hnone
    cases hnone

section

omit [OrderBot N]

/-- What a successful call does: it ticks the clock and replaces the entry of its entity, or
replaces it by a tombstone. -/
theorem perform_spec (h : r.perform op now = .ok (r', event)) :
    r'.nodeId = r.nodeId ∧ r'.isRunning = r.isRunning ∧ r'.logicalClock = r.logicalClock + 1 ∧
      ((∃ c, r'.entries = r.entries.set op.entityId c ∧ event.record = c.record ∧
          (c.record.entityId = op.entityId ∧ r'.tombstones = r.tombstones.delete op.entityId ∨
            ∃ c₀, r.entries.get op.entityId = some c₀ ∧
              c.record.entityId = c₀.record.entityId ∧ r'.tombstones = r.tombstones)) ∨
        ∃ c tomb, r.entries.get op.entityId = some c ∧ event.record = c.record ∧
          r'.entries = r.entries.delete op.entityId ∧
          r'.tombstones = r.tombstones.set op.entityId tomb) := by
  cases op with
  | proposeEntity =>
    simp only [perform, proposeEntity] at h
    split_ifs at h
    cases h
    exact ⟨rfl, rfl, rfl, .inl ⟨_, rfl, rfl, .inl ⟨rfl, rfl⟩⟩⟩
  | updateEntity | transferEntity =>
    obtain ⟨entry, hentry, hr⟩ := map_eq_ok_iff.mp h
    cases hr
    exact ⟨rfl, rfl, rfl, .inl ⟨_, rfl, rfl, .inr ⟨entry, (ownedEntry_eq_ok hentry).2.1, rfl, rfl⟩⟩⟩
  | releaseEntity =>
    obtain ⟨entry, hentry, hr⟩ := map_eq_ok_iff.mp h
    cases hr
    exact ⟨rfl, rfl, rfl, .inr ⟨entry, _, (ownedEntry_eq_ok hentry).2.1, rfl, rfl, rfl⟩⟩

theorem perform_get_of_ne (h : r.perform op now = .ok (r', event)) (he : op.entityId ≠ e) :
    r'.entries.get e = r.entries.get e ∧ r'.tombstones.get e = r.tombstones.get e := by
  have he' : e ≠ op.entityId := fun h => he h.symm
  obtain ⟨-, -, -, ⟨c, hc, -, ⟨-, ht⟩ | ⟨_, -, -, ht⟩⟩ | ⟨c, tomb, -, -, hc, ht⟩⟩ := perform_spec h
  · exact ⟨by rw [hc, get_set_of_ne _ _ he'], by rw [ht, get_delete_of_ne _ he']⟩
  · exact ⟨by rw [hc, get_set_of_ne _ _ he'], by rw [ht]⟩
  · exact ⟨by rw [hc, get_delete_of_ne _ he'], by rw [ht, get_set_of_ne _ _ he']⟩

theorem Valid.record_entityId (hr : r.Valid x) (h : r.perform op now = .ok (r', event)) :
    event.record.entityId = op.entityId := by
  obtain ⟨-, -, -, ⟨c, -, hev, ⟨hid, -⟩ | ⟨c₀, hc₀, hid, -⟩⟩ | ⟨c, tomb, hc, hev, -, -⟩⟩ :=
    perform_spec h
  · rw [hev, hid]
  · rw [hev, hid, hr.keyed hc₀]
  · rw [hev, hr.keyed hc]

theorem Exclusive.perform (hex : r.Exclusive) (h : r.perform op now = .ok (r', event)) :
    r'.Exclusive := by
  intro e
  by_cases he : e = op.entityId
  · subst he
    obtain ⟨-, -, -, ⟨c, hc, -, ⟨-, ht⟩ | ⟨c₀, hc₀, -, ht⟩⟩ | ⟨c, tomb, -, -, hc, -⟩⟩ :=
      perform_spec h
    · exact .inr (by rw [ht, get_delete_self])
    · refine .inr ?_
      rcases hex op.entityId with hnone | hnone
      · rw [hc₀] at hnone
        cases hnone
      · rw [ht, hnone]
    · exact .inl (by rw [hc, get_delete_self])
  · obtain ⟨h₁, h₂⟩ := perform_get_of_ne h fun h => he h.symm
    rw [h₁, h₂]
    exact hex e

theorem slot_perform_of_ne (h : r.perform op now = .ok (r', event))
    (he : op.entityId ≠ e) : r'.slot e = r.slot e :=
  slot_congr (perform_get_of_ne h he).1 (perform_get_of_ne h he).2

end

/-- **A call is a write of the update it logs.** The update has the next logical time, and the
register of the entity is written with it under the id of the node. The update itself may name
another author: a `DELETE` names none, and a `TRANSFER` names the new owner. -/
theorem slot_perform (h : r.perform op now = .ok (r', event)) :
    ∃ u, r'.updateLog = r.updateLog ++ [u] ∧ u.entityId = op.entityId ∧
      u.version = r.logicalClock + 1 ∧
      r'.slot op.entityId = some (toLex (u.version, r.nodeId),
        u.effect ((r.slot op.entityId).map Prod.snd)) ∧
      (u.operation = .delete ∧ u.ownerNodeId = none ∨
        u.operation ≠ .delete ∧ ∃ owner, u.ownerNodeId = some owner ∧
          (owner = r.nodeId ∨ u.operation = .transfer)) := by
  cases op with
  | proposeEntity e metadata =>
    simp only [CrdtEntityRegistry.perform, CrdtEntityRegistry.proposeEntity] at h
    split_ifs at h
    cases h
    refine ⟨_, rfl, rfl, rfl, ?_, .inr ⟨by simp, _, rfl, .inl rfl⟩⟩
    refine (slot_of_entry (get_set_self ..)).trans (congrArg (fun v => some (_, v)) ?_)
    simp only [effect, reduceCtorEq, ↓reduceIte, EntityRecord.view]
    refine congrArg some (EntityView.ext rfl rfl (funext fun k => ?_))
    cases metadata <;> rfl
  | updateEntity =>
    obtain ⟨entry, hentry, hr⟩ := map_eq_ok_iff.mp h
    cases hr
    obtain ⟨-, hget, howner⟩ := ownedEntry_eq_ok hentry
    refine ⟨_, rfl, rfl, rfl, ?_, .inr ⟨by simp, _, rfl, .inl rfl⟩⟩
    refine (slot_of_entry (get_set_self ..)).trans (congrArg (fun v => some (_, v)) ?_)
    simp only [LocalOp.entityId, slot_of_entry hget, effect, reduceCtorEq, ↓reduceIte,
      EntityRecord.view, map_some, join_some]
    refine congrArg some (EntityView.ext howner rfl (funext fun k => ?_))
    exact get_spread ..
  | transferEntity =>
    obtain ⟨entry, hentry, hr⟩ := map_eq_ok_iff.mp h
    cases hr
    refine ⟨_, rfl, rfl, rfl, ?_, .inr ⟨by simp, _, rfl, .inr rfl⟩⟩
    exact (slot_of_entry (get_set_self ..)).trans (congrArg (fun v => some (_, v)) rfl)
  | releaseEntity =>
    obtain ⟨entry, -, hr⟩ := map_eq_ok_iff.mp h
    cases hr
    refine ⟨_, rfl, rfl, rfl, ?_, .inl ⟨rfl, rfl⟩⟩
    simp only [slot, LocalOp.entityId, get_delete_self, get_set_self]
    rfl

section

variable (hr : r.Valid x)

include hr

omit [OrderBot N] in
theorem Valid.perform (h : r.perform op now = .ok (r', event)) : r'.Valid x := by
  have hid := hr.record_entityId h
  obtain ⟨hnode, hrun, -, hcases⟩ := perform_spec h
  refine ⟨hnode.trans hr.nodeId, hrun.trans hr.running, hr.exclusive.perform h,
    fun {e c'} hc' => ?_⟩
  by_cases he : e = op.entityId
  · subst he
    rcases hcases with ⟨c, hc, hev, -⟩ | ⟨c, tomb, -, -, hc, -⟩
    · rw [hc, get_set_self] at hc'
      cases hc'
      rw [← hev, hid]
    · rw [hc, get_delete_self] at hc'
      cases hc'
  · rw [(perform_get_of_ne h fun h => he h.symm).1] at hc'
    exact hr.keyed hc'

theorem Valid.applyRemoteUpdate (u : EntityUpdate N V) (now : ℕ) :
    (r.applyRemoteUpdate u now).Valid x := by
  obtain ⟨hnode, hrun, -⟩ := r.applyRemoteUpdate_frame u now
  refine ⟨hnode.trans hr.nodeId, hrun.trans hr.running, hr.exclusive.applyRemoteUpdate,
    fun {e c} hc => ?_⟩
  rcases r.applyRemoteUpdate_cases u now with ⟨h₁, -⟩ | ⟨entry, hid, h₁, -⟩ | ⟨tomb, h₁, -⟩
  · exact hr.keyed (h₁ ▸ hc)
  · rw [h₁, get_set] at hc
    split at hc
    · cases hc
      subst_vars
      exact hid
    · exact hr.keyed hc
  · rw [h₁, get_delete] at hc
    split at hc
    · cases hc
    · exact hr.keyed hc

variable {e : EntityId} {c : CrdtEntry N V}

section

omit [OrderBot N]

theorem Valid.ownedEntry (call : OwnerCall)
    (hc : r.entries.get e = some c) (howner : c.record.ownerNodeId = some x) :
    r.ownedEntry call e = .ok c := by
  simp [CrdtEntityRegistry.ownedEntry, hr.running, hc, howner, hr.nodeId]

theorem Valid.proposeEntity (metadata : Option (Metadata V))
    (now : ℕ) (hnone : r.entries.get e = none) :
    ∃ r' c, r.perform (.proposeEntity e metadata) now = .ok (r', .created c.record) ∧
      r'.entries.get e = some c ∧ c.record.ownerNodeId = some x ∧
      c.record.version = r'.logicalClock := by
  cases h : r.perform (.proposeEntity e metadata) now with
  | error =>
    simp [CrdtEntityRegistry.perform, CrdtEntityRegistry.proposeEntity, hr.running,
      (has_eq_false_iff _ _).mpr hnone] at h
  | ok =>
    simp only [CrdtEntityRegistry.perform, CrdtEntityRegistry.proposeEntity] at h
    split_ifs at h
    cases h
    exact ⟨_, ⟨_, _, _⟩, rfl, get_set_self .., congrArg some hr.nodeId, rfl⟩

theorem Valid.updateEntity (patch : Metadata V) (now : ℕ) (hc : r.entries.get e = some c)
    (howner : c.record.ownerNodeId = some x) :
    ∃ r' c', r.perform (.updateEntity e patch) now = .ok (r', .updated c'.record) ∧
      r'.entries.get e = some c' ∧ c'.record.ownerNodeId = some x ∧
      c'.record.version = r'.logicalClock ∧ r'.logicalClock = r.logicalClock + 1 := by
  have h : r.perform (.updateEntity e patch) now = _ :=
    map_eq_ok_iff.mpr ⟨c, hr.ownedEntry .update hc howner, rfl⟩
  exact ⟨_, ⟨_, _, _⟩, h, get_set_self .., howner, rfl, rfl⟩

theorem Valid.releaseEntity (now : ℕ)
    (hc : r.entries.get e = some c) (howner : c.record.ownerNodeId = some x) :
    ∃ r', r.perform (.releaseEntity e) now = .ok (r', .deleted c.record) ∧
      r'.entries.get e = none :=
  ⟨_, map_eq_ok_iff.mpr ⟨c, hr.ownedEntry .release hc howner, rfl⟩, get_delete_self ..⟩

end

end

end CrdtEntityRegistry

end DistributedCore.Entity
