import DistributedCore.Library.Sorting
import DistributedCore.Persistence.SnapshotStores

/-!
# What a snapshot store holds

To a caller a snapshot store is a shelf: a multiset of snapshots without ids. The snapshots of a
key are listed newest first. If the snapshots of a key that have the same time are equal to a
caller, then there is only one such list (`Lists.unique`); otherwise the order of insertion shows.

Source: `src/persistence/snapshot/InMemorySnapshotVersionStore.ts`,
`src/persistence/snapshot/WALSnapshotVersionStore.ts`.
-/

namespace DistributedCore.Persistence

open Entity Multiset OrderedMap

/-! ### Shelves -/

/-- Snapshots of a key with the same time are equal. -/
def Untied (held : Multiset SnapshotView) : Prop :=
  ∀ a ∈ held, ∀ b ∈ held, a.key = b.key → a.timestamp = b.timestamp → a = b

/-- The list is that of the key, the newest first. -/
structure Lists (held : Multiset SnapshotView) (key : String) (l : List SnapshotView) : Prop where
  items : (l : Multiset SnapshotView) = held.filter fun view => view.key = key
  newestFirst : l.Pairwise fun a b => b.timestamp ≤ a.timestamp

section Shelf

variable {held held' : Multiset SnapshotView} {key : String} {l l' : List SnapshotView}

theorem Untied.mono (h : Untied held) (hle : held' ≤ held) : Untied held' := fun a ha b hb =>
  h a (mem_of_le hle ha) b (mem_of_le hle hb)

variable {view : SnapshotView}

theorem Untied.cons (h : Untied held)
    (hview : ∀ other ∈ held, other.key = view.key → other.timestamp = view.timestamp →
      other = view) : Untied (view ::ₘ held) := by
  intro a ha b hb hkey htime
  rcases mem_cons.mp ha with rfl | hold <;> rcases mem_cons.mp hb with rfl | hold'
  · rfl
  · exact (hview b hold' hkey.symm htime.symm).symm
  · exact hview a hold hkey htime
  · exact h a hold b hold' hkey htime

theorem Lists.mem_iff (h : Lists held key l) : view ∈ l ↔ view ∈ held ∧ view.key = key := by
  rw [← mem_coe, h.items, mem_filter]

theorem Lists.unique (h : Lists held key l) (h' : Lists held key l') (hties : Untied held) :
    l = l' := by
  refine List.Perm.eq_of_pairwise ?_ h.newestFirst h'.newestFirst
    (coe_eq_coe.mp (h.items.trans h'.items.symm))
  intro a b ha hb hab hba
  obtain ⟨ha, hakey⟩ := h.mem_iff.mp ha
  obtain ⟨hb, hbkey⟩ := h'.mem_iff.mp hb
  exact hties a ha b hb (hakey.trans hbkey.symm) (le_antisymm hba hab)

end Shelf

/-! ### The store in memory -/

namespace InMemorySnapshotVersionStore

def held (s : InMemorySnapshotVersionStore) : Multiset SnapshotView :=
  (s.entries.values.flatten.map SnapshotEntry.view : List SnapshotView)

structure Sound (s : InMemorySnapshotVersionStore) : Prop where
  filed : OrderedMap.Filed SnapshotEntry.key s.entries
  newestFirst : ∀ key, (s.snapshots key).Pairwise fun a b => b.timestamp ≤ a.timestamp

theorem sound_empty : empty.Sound := ⟨filed_empty _, fun _ => .nil⟩

variable {s : InMemorySnapshotVersionStore} {key : String} {now : ℕ}

theorem Sound.lists (h : s.Sound) (key : String) :
    Lists s.held key ((s.snapshots key).map SnapshotEntry.view) where
  items := by
    have hfilter := filter_flatten_values SnapshotEntry.key s.entries key h.filed
    rw [held, filter_coe, List.filter_map, coe_eq_coe]
    exact .of_eq (congrArg _ hfilter.symm)
  newestFirst := List.pairwise_map.mpr (h.newestFirst key)

theorem Sound.key_eq (h : s.Sound) {entry : SnapshotEntry} (hentry : entry ∈ s.snapshots key) :
    entry.key = key :=
  ((h.lists key).mem_iff.mp (List.mem_map_of_mem hentry)).2

theorem held_perm (s : InMemorySnapshotVersionStore) (key : String) :
    s.held = (s.snapshots key).map SnapshotEntry.view +
      ((s.entries.delete key).values.flatten.map SnapshotEntry.view : List SnapshotView) := by
  rw [held, coe_add, ← List.map_append, coe_eq_coe]
  exact (s.entries.flatten_values_perm key).map _

theorem held_set (s : InMemorySnapshotVersionStore) (key : String) (list : List SnapshotEntry)
    (idCounter : ℕ) :
    held ⟨s.entries.set key list, idCounter⟩ = list.map SnapshotEntry.view +
      ((s.entries.delete key).values.flatten.map SnapshotEntry.view : List SnapshotView) := by
  rw [held, coe_add, ← List.map_append, coe_eq_coe]
  exact (s.entries.flatten_values_set_perm key list).map _

theorem Sound.set (h : s.Sound) {list : List SnapshotEntry} (idCounter : ℕ)
    (hkey : ∀ entry ∈ list, entry.key = key)
    (hsorted : list.Pairwise fun a b => b.timestamp ≤ a.timestamp) :
    Sound ⟨s.entries.set key list, idCounter⟩ where
  filed := h.filed.set hkey
  newestFirst := by
    intro other
    rw [snapshots, get_set]
    split_ifs
    · exact hsorted
    · exact h.newestFirst other

theorem store_spec (h : s.Sound) (key : String) (data : Json) (options : StoreSnapshotOptions)
    (hnow : ∀ view ∈ s.held, view.timestamp ≤ now) :
    (s.store key data options now).1.Sound ∧
      (s.store key data options now).1.held = (s.store key data options now).2.view ::ₘ s.held := by
  set entry := (s.store key data options now).2 with hentry
  have hstore : (s.store key data options now).1 =
      ⟨s.entries.set key (entry :: s.snapshots key), s.idCounter + 1⟩ := rfl
  rw [hstore]
  constructor
  · refine h.set _ ?_ (List.pairwise_cons.mpr ⟨fun old hold => ?_, h.newestFirst key⟩)
    · intro old hold
      obtain rfl | hold := List.mem_cons.mp hold
      · rfl
      · exact h.key_eq hold
    · exact hnow _ ((h.lists key).mem_iff.mp (List.mem_map_of_mem hold)).1
  · rw [held_set, s.held_perm key, List.map_cons, ← cons_coe, cons_add]

theorem delete_spec (h : s.Sound) (key : String) (timestamp : ℤ) :
    (s.delete key timestamp).1.Sound ∧
      match (s.snapshots key).find? fun entry => (entry.timestamp : ℤ) = timestamp with
      | none => s.delete key timestamp = (s, false)
      | some entry => (s.delete key timestamp).2 = true ∧
          s.held = entry.view ::ₘ (s.delete key timestamp).1.held := by
  rw [delete]
  cases hfind : (s.snapshots key).find? fun entry => (entry.timestamp : ℤ) = timestamp with
  | none => exact ⟨h, rfl⟩
  | some entry =>
    dsimp only
    set rest := (s.snapshots key).eraseP fun entry => (entry.timestamp : ℤ) = timestamp with hrest
    have hsub : rest.Sublist (s.snapshots key) := List.eraseP_sublist
    have hperm : (s.snapshots key).Perm (entry :: rest) := perm_cons_eraseP _ hfind
    have hheld : s.held = entry.view ::ₘ (rest.map SnapshotEntry.view +
        ((s.entries.delete key).values.flatten.map SnapshotEntry.view : List SnapshotView)) := by
      rw [s.held_perm key, coe_eq_coe.mpr (hperm.map _), List.map_cons, ← cons_coe, cons_add]
    split_ifs with hempty
    · rw [List.isEmpty_iff] at hempty
      refine ⟨⟨fun other list hlist => ?_, fun other => ?_⟩, rfl, ?_⟩
      · rw [get_delete] at hlist
        split_ifs at hlist
        exact h.filed other list hlist
      · rw [snapshots, get_delete]
        split_ifs
        · exact .nil
        · exact h.newestFirst other
      · rw [hheld, hempty]
        simp [held]
    · refine ⟨h.set _ (fun other hother => h.key_eq (hsub.subset hother))
        ((h.newestFirst key).sublist hsub), rfl, ?_⟩
      rw [hheld, held_set]

theorem snapshots_purgeExpired (s : InMemorySnapshotVersionStore) (now : ℕ) (key : String) :
    (s.purgeExpired now).1.snapshots key =
      (s.snapshots key).filter fun entry => isFresh now entry.expiresAt := by
  rw [snapshots, snapshots, purgeExpired, get_filter, get_mapValues]
  cases s.entries.get key with
  | none => rfl
  | some list =>
    by_cases hlist : list.filter (fun entry => isFresh now entry.expiresAt) = []
    · simp [Option.filter, hlist]
    · simp [Option.filter, hlist]

theorem purgeExpired_spec (h : s.Sound) (now : ℕ) : (s.purgeExpired now).1.Sound ∧
      (s.purgeExpired now).1.held = (s.held.filter fun view => isFresh now view.expiresAt) ∧
      (s.purgeExpired now).2 = (s.held.filter fun view => ¬isFresh now view.expiresAt).card := by
  refine ⟨⟨fun key list hlist entry _ => ?_, fun key => ?_⟩, ?_, ?_⟩
  · have hmem : entry ∈ (s.purgeExpired now).1.snapshots key := by rwa [snapshots, hlist]
    rw [snapshots_purgeExpired] at hmem
    exact h.key_eq (List.mem_of_mem_filter hmem)
  · rw [snapshots_purgeExpired]
    exact (h.newestFirst key).filter _
  · rw [held, held, purgeExpired, values_filter, values_mapValues,
      List.flatten_filter_not_isEmpty, ← List.filter_flatten, filter_coe, List.filter_map]
    simp [Function.comp_def, SnapshotEntry.view]
  · rw [held, purgeExpired, filter_coe, coe_card, List.filter_map,
      List.length_map, sum_length_sub_length_filter]
    refine congrArg _ (List.filter_congr fun entry _ => ?_)
    simp [SnapshotEntry.view]

end InMemorySnapshotVersionStore

/-! ### What the loop over a log finds -/

namespace WALSnapshotVersionStore

def entryId (entry : WALEntry String Json) : Option String :=
  ((entry.data.metadata.getD .empty).get "id").bind Json.asString

def ids (s : WALSnapshotVersionStore) : List String := s.wal.filterMap entryId

structure Found.Within (found : Found) (ids : List String) : Prop where
  creates : ∀ id snapshot, found.creates.get id = some snapshot → snapshot.id = id ∧ id ∈ ids
  deleted : ∀ id ∈ found.deleted, id ∈ ids

variable {snapshot : SnapshotEntry}

theorem id_of_entryFromMetadata {metadata : Metadata Json} {timestamp : ℕ}
    (h : entryFromMetadata metadata timestamp = some snapshot) :
    (metadata.get "id").bind Json.asString = some snapshot.id := by
  simp only [entryFromMetadata, Option.bind_eq_bind, Option.bind_eq_some_iff,
    Option.some.injEq] at h
  obtain ⟨id, ⟨value, hvalue, hid⟩, -, -, -, -, -, -, -, -, rfl⟩ := h
  rw [hvalue]
  exact hid

section Found

variable {found : Found} {ids : List String} {snapshot : SnapshotEntry}
  {entry : WALEntry String Json} (key : Option String)

theorem Found.Within.read (h : found.Within ids) (key : Option String)
    (entry : WALEntry String Json) :
    (found.read key entry).Within (ids ++ (entryId entry).toList) := by
  have hkeep : found.Within (ids ++ (entryId entry).toList) :=
    ⟨fun id snapshot hget => ⟨(h.creates id snapshot hget).1,
      List.mem_append_left _ (h.creates id snapshot hget).2⟩,
      fun id hid => List.mem_append_left _ (h.deleted id hid)⟩
  rw [Found.read]
  split_ifs
  · split
    · rename_i snapshot _ hsnapshot
      have hid : entryId entry = some snapshot.id := id_of_entryFromMetadata hsnapshot
      refine ⟨fun id other hget => ?_, hkeep.deleted⟩
      rw [get_set] at hget
      split_ifs at hget with hsame
      · cases hget
        exact ⟨hsame.symm, by rw [hid, hsame]; simp⟩
      · exact hkeep.creates id other hget
    · rename_i id hid
      refine ⟨hkeep.creates, fun other hother => ?_⟩
      rcases List.mem_cons.mp hother with rfl | hother
      · have hentry : entryId entry = some other := hid
        rw [hentry]
        simp
      · exact hkeep.deleted other hother
    · exact hkeep
  · exact hkeep

theorem found_within (file : WALFile String Json) :
    (file.foldl (Found.read key) ⟨.empty, []⟩).Within (file.filterMap entryId) := by
  induction file using List.reverseRecOn with
  | nil => exact ⟨by simp, by simp⟩
  | append_singleton _ entry ih =>
    rw [List.foldl_append, List.filterMap_append]
    have hone : [entry].filterMap entryId = (entryId entry).toList := by
      cases h : entryId entry <;> simp [h]
    rw [hone]
    exact ih.read key entry

section

variable (h : found.Within ids)

include h

theorem Found.Within.mem_alive_iff : snapshot ∈ found.alive ↔
      found.creates.get snapshot.id = some snapshot ∧ snapshot.id ∉ found.deleted := by
  simp only [Found.alive, List.mem_map, List.mem_filter, decide_eq_true_eq]
  constructor
  · rintro ⟨⟨id, other⟩, ⟨hmem, hdeleted⟩, rfl⟩
    have hget := (mem_entries_iff _ _ _).mp hmem
    obtain ⟨rfl, -⟩ := h.creates id _ hget
    exact ⟨hget, hdeleted⟩
  · rintro ⟨hget, hdeleted⟩
    exact ⟨(snapshot.id, snapshot), ⟨(mem_entries_iff _ _ _).mpr hget, hdeleted⟩, rfl⟩

theorem Found.Within.nodup_ids : (found.alive.map SnapshotEntry.id).Nodup := by
  have hids : found.alive.map SnapshotEntry.id =
      (found.creates.entries.filter fun p => p.1 ∉ found.deleted).map Prod.fst := by
    rw [Found.alive, List.map_map]
    refine List.map_congr_left fun p hp => ?_
    have hget := (mem_entries_iff _ p.1 p.2).mp (List.mem_of_mem_filter hp)
    exact (h.creates p.1 p.2 hget).1
  rw [hids]
  exact found.creates.nodup_keys.sublist (List.filter_sublist.map _)

theorem Found.Within.alive_set (hnew : snapshot.id ∉ ids) :
    Found.alive { found with creates := found.creates.set snapshot.id snapshot } =
      found.alive ++ [snapshot] := by
  have hnone : found.creates.get snapshot.id = none := by
    cases hget : found.creates.get snapshot.id with
    | none => rfl
    | some other => exact absurd (h.creates _ other hget).2 hnew
  have hdeleted : snapshot.id ∉ found.deleted := fun hmem => hnew (h.deleted _ hmem)
  rw [Found.alive, Found.alive, entries_set_of_get_eq_none hnone, List.filter_append,
    List.map_append, List.filter_cons_of_pos (by simpa using hdeleted)]
  rfl

theorem Found.Within.alive_delete (id : String) :
    Found.alive { found with deleted := id :: found.deleted } =
      found.alive.filter fun snapshot => snapshot.id ≠ id := by
  rw [Found.alive, Found.alive, List.filter_map, List.filter_filter]
  refine congrArg _ (List.filter_congr fun p hp => ?_)
  have hid := (h.creates p.1 p.2 ((mem_entries_iff _ p.1 p.2).mp hp)).1
  simp [hid]

end

theorem Found.read_create
    (hdata : entry.data = snapshotUpdate snapshot.key .create (snapshotMetadata snapshot)
      snapshot.timestamp) :
    found.read key entry = if key.all (· = snapshot.key) then
        { found with creates := found.creates.set snapshot.id snapshot }
      else found := by
  obtain ⟨hmark, -, hkey, -⟩ := get_snapshotMetadata snapshot
  rw [Found.read, hdata]
  simp only [snapshotUpdate, Option.getD_some, isSnapshotMetadata, hmark, hkey, decide_true,
    Bool.true_and, entryFromMetadata_snapshotMetadata, Option.some.injEq, Json.string.injEq]
  cases key with
  | none => rfl
  | some => simp [eq_comm]

theorem Found.read_delete {id snapshotKey : String} {now : ℕ}
    (hdata : entry.data = snapshotUpdate snapshotKey .delete (deletionMetadata id snapshotKey)
      now) :
    found.read key entry =
      if key.all (· = snapshotKey) then { found with deleted := id :: found.deleted }
      else found := by
  have hmark : (deletionMetadata id snapshotKey).get "_snapshot" = some (.bool true) := by
    simp [deletionMetadata, get_set]
  have hkey : (deletionMetadata id snapshotKey).get "key" = some (.string snapshotKey) := by
    simp [deletionMetadata]
  have hid : (deletionMetadata id snapshotKey).get "id" = some (.string id) := by
    simp [deletionMetadata, get_set]
  rw [Found.read, hdata]
  simp only [snapshotUpdate, Option.getD_some, isSnapshotMetadata, hmark, hkey, hid, decide_true,
    Bool.true_and, Option.bind_some, Json.asString, Option.some.injEq, Json.string.injEq]
  cases key with
  | none => rfl
  | some => simp [eq_comm]

end Found

/-! ### The store in a log -/

def alive (config : WALConfig String Json) (s : WALSnapshotVersionStore) (key : Option String) :
    List SnapshotEntry :=
  (s.find config key).alive

def held (config : WALConfig String Json) (s : WALSnapshotVersionStore) : Multiset SnapshotView :=
  ((s.alive config none).map SnapshotEntry.view : List SnapshotView)

structure Sound (config : WALConfig String Json) (s : WALSnapshotVersionStore) : Prop where
  ordered : s.wal.Ordered config
  bound : ∀ entry ∈ s.wal, entry.logSequenceNumber ≤ s.writer.currentLSN
  keyed : ∀ key, s.alive config (some key) =
    (s.alive config none).filter fun snapshot => snapshot.key = key

variable {config : WALConfig String Json} {s s' : WALSnapshotVersionStore} {key : String}
  {now : ℕ}

theorem sound_started (config : WALConfig String Json) : Sound config started :=
  ⟨WALFile.ordered_nil, by simp [started], fun _ => rfl⟩

theorem find_eq (h : s.wal.Ordered config) (key : Option String) :
    s.find config key = s.wal.foldl (Found.read key) ⟨.empty, []⟩ := by rw [find, h.readAll_eq]

section

variable (h : s.Sound config)

include h

theorem Sound.within (key : Option String) : (s.find config key).Within s.ids := by
  rw [find_eq h.ordered]
  exact found_within key s.wal

theorem Sound.lists (key : String) :
    Lists (s.held config) key ((s.readAlive config (some key)).map SnapshotEntry.view) where
  items := by
    have hperm : (s.readAlive config (some key)).Perm (s.alive config (some key)) :=
      List.perm_insertionSort _ _
    rw [held, filter_coe, List.filter_map, coe_eq_coe]
    refine (hperm.map _).trans (.of_eq ?_)
    rw [h.keyed]
    rfl
  newestFirst := List.pairwise_map.mpr (List.pairwise_insertionSort _ _)

variable {snapshot : SnapshotEntry} {done : Bool}

theorem Sound.mem_alive_of_readAlive (hmem : snapshot ∈ s.readAlive config (some key)) :
    snapshot ∈ s.alive config none ∧ snapshot.key = key := by
  have halive : snapshot ∈ s.alive config (some key) :=
    (List.perm_insertionSort _ _).mem_iff.mp hmem
  rw [h.keyed] at halive
  simpa using halive

theorem Sound.append {update : EntityUpdate String Json}
    (happend : s.append config update now = some s') :
    s'.wal.Ordered config ∧ (∀ entry ∈ s'.wal, entry.logSequenceNumber ≤ s'.writer.currentLSN) ∧
      ∃ entry : WALEntry String Json, entry.data = update ∧
        ∀ key, s'.find config key = (s.find config key).read key entry := by
  obtain ⟨hwriter, ⟨err, herr⟩ | ⟨entry, hlsn, hdata, hvalid, hok⟩⟩ :=
    WALWriter.append_spec config s.writer s.wal update now none
  · rw [WALSnapshotVersionStore.append, ← Prod.mk.eta (p := s.writer.append _ _ _ _ _),
      herr] at happend
    cases happend
  · rw [WALSnapshotVersionStore.append, ← Prod.mk.eta (p := s.writer.append _ _ _ _ _), hok,
      hwriter] at happend
    cases happend
    have hordered : WALFile.Ordered config (s.wal ++ [entry]) :=
      h.ordered.concat hvalid fun old hold => by
        rw [hlsn]
        exact Nat.lt_succ_of_le (h.bound old hold)
    refine ⟨hordered, fun old hold => ?_, entry, hdata, fun key => ?_⟩
    · rcases List.mem_append.mp hold with hold | hold
      · exact (h.bound old hold).trans (Nat.le_succ _)
      · rw [List.mem_singleton.mp hold, hlsn]
    · rw [find_eq hordered, find_eq h.ordered]
      exact List.foldl_concat _ _ _ _

theorem Sound.create (hid : snapshot.id ∉ s.ids)
    (happend : s.append config (snapshotUpdate snapshot.key .create (snapshotMetadata snapshot)
      snapshot.timestamp) now = some s') :
    s'.Sound config ∧ s'.held config = snapshot.view ::ₘ s.held config := by
  obtain ⟨hordered, hbound, entry, hdata, hfind⟩ := h.append happend
  have halive : ∀ key : Option String, s'.alive config key =
      if key.all (· = snapshot.key) then s.alive config key ++ [snapshot]
      else s.alive config key := by
    intro key
    rw [alive, hfind, Found.read_create key hdata]
    split_ifs
    · exact (h.within key).alive_set hid
    · rfl
  have hall : s'.alive config none = s.alive config none ++ [snapshot] := halive none
  refine ⟨⟨hordered, hbound, fun key => ?_⟩, ?_⟩
  · rw [halive, hall, h.keyed, List.filter_append]
    by_cases hkey : key = snapshot.key
    · rw [if_pos (by simpa using hkey), List.filter_cons_of_pos (by simpa using hkey.symm),
        List.filter_nil]
    · rw [if_neg (by simpa using hkey),
        List.filter_cons_of_neg (by simpa using fun heq : snapshot.key = key => hkey heq.symm),
        List.filter_nil, List.append_nil]
  · rw [held, held, hall, List.map_append, cons_coe, coe_eq_coe]
    exact List.perm_append_singleton _ _

theorem Sound.remove (hmem : snapshot ∈ s.alive config none)
    (happend : s.append config (snapshotUpdate snapshot.key .delete
      (deletionMetadata snapshot.id snapshot.key) now) now = some s') :
    s'.Sound config ∧ s.held config = snapshot.view ::ₘ s'.held config := by
  obtain ⟨hordered, hbound, entry, hdata, hfind⟩ := h.append happend
  have halive : ∀ key : Option String, s'.alive config key =
      if key.all (· = snapshot.key) then
        (s.alive config key).filter fun other => other.id ≠ snapshot.id
      else s.alive config key := by
    intro key
    rw [alive, hfind, Found.read_delete key hdata]
    split_ifs
    · exact (h.within key).alive_delete snapshot.id
    · rfl
  have hall : s'.alive config none =
      (s.alive config none).filter fun other => other.id ≠ snapshot.id := halive none
  refine ⟨⟨hordered, hbound, fun key => ?_⟩, ?_⟩
  · rw [halive, hall, h.keyed, List.filter_comm]
    split_ifs with hkey
    · rfl
    -- the id belongs to a snapshot of another key
    · rw [List.filter_comm]
      refine (List.filter_eq_self.mpr fun other hother => ?_).symm
      obtain ⟨hother, hotherkey⟩ := List.mem_filter.mp hother
      obtain ⟨hget, -⟩ := (h.within none).mem_alive_iff.mp hmem
      obtain ⟨hget', -⟩ := (h.within none).mem_alive_iff.mp hother
      simp only [ne_eq, decide_not, Bool.not_eq_true', decide_eq_false_iff_not]
      intro hid
      rw [hid, hget] at hget'
      cases hget'
      exact hkey (by simpa using (of_decide_eq_true hotherkey).symm)
  · rw [held, held, hall, cons_coe, coe_eq_coe]
    exact (perm_cons_filter_key_ne SnapshotEntry.id (h.within none).nodup_ids hmem).map _

theorem store_spec {data : Json} {options : StoreSnapshotOptions} {id : String} (hid : id ∉ s.ids)
    (hstore : s.store config key data options id now = some (s', snapshot)) :
    s'.Sound config ∧ s'.held config = snapshot.view ::ₘ s.held config := by
  obtain ⟨next, happend, heq⟩ := Option.map_eq_some_iff.mp hstore
  cases heq
  exact h.create hid happend

theorem delete_spec {timestamp : ℤ}
    (hdelete : s.delete config key timestamp now = some (s', done)) :
    s'.Sound config ∧
      match (s.readAlive config (some key)).find? fun entry =>
          (entry.timestamp : ℤ) = timestamp with
      | none => s' = s ∧ done = false
      | some target => done = true ∧ s.held config = target.view ::ₘ s'.held config := by
  rw [delete] at hdelete
  cases hfind : (s.readAlive config (some key)).find? fun entry =>
      (entry.timestamp : ℤ) = timestamp with
  | none =>
    rw [hfind] at hdelete
    cases hdelete
    exact ⟨h, rfl, rfl⟩
  | some =>
    rw [hfind] at hdelete
    obtain ⟨next, happend, heq⟩ := Option.map_eq_some_iff.mp hdelete
    cases heq
    obtain ⟨hmem, rfl⟩ := h.mem_alive_of_readAlive (List.mem_of_find?_eq_some hfind)
    obtain ⟨hsound, hheld⟩ := h.remove hmem happend
    exact ⟨hsound, rfl, hheld⟩

theorem delete_of_mem_held (hties : Untied (s.held config)) (hview : view ∈ s.held config)
    (hdelete : s.delete config view.key view.timestamp now = some (s', done)) :
    s'.Sound config ∧ done = true ∧ s.held config = view ::ₘ s'.held config := by
  obtain ⟨hsound, hspec⟩ := delete_spec h hdelete
  obtain ⟨other, hother, hsame⟩ := List.mem_map.mp ((h.lists view.key).mem_iff.mpr ⟨hview, rfl⟩)
  cases hfind : (s.readAlive config (some view.key)).find? fun entry =>
      (entry.timestamp : ℤ) = view.timestamp with
  | none =>
    have hne := List.find?_eq_none.mp hfind other hother
    have htime : other.timestamp = view.timestamp := congrArg SnapshotView.timestamp hsame
    exact absurd (by simp [htime]) hne
  | some target =>
    rw [hfind] at hspec
    have htime : target.timestamp = view.timestamp := by simpa using List.find?_some hfind
    obtain ⟨htarget, hkey⟩ := (h.lists view.key).mem_iff.mp
      (List.mem_map_of_mem (List.mem_of_find?_eq_some hfind))
    have hequal : target.view = view := hties _ htarget _ hview hkey htime
    exact ⟨hsound, hspec.1, hequal ▸ hspec.2⟩

end

theorem purgeLoop_spec : (snapshots : List SnapshotEntry) → (s : WALSnapshotVersionStore) →
    (count : ℕ) → (kept : Multiset SnapshotView) → s.Sound config → Untied (s.held config) →
    s.held config = kept + (snapshots.map SnapshotEntry.view : List SnapshotView) →
    ∀ {s' count'}, purgeLoop config now snapshots (s, count) = some (s', count') → s'.Sound config ∧
        s'.held config = kept + ((snapshots.map SnapshotEntry.view).filter fun view =>
          !isExpired now view.expiresAt : List SnapshotView) ∧
        count' = count + ((snapshots.map SnapshotEntry.view).filter fun view =>
          isExpired now view.expiresAt).length
  | [], s, count, kept, h, _, hheld, s', count', hloop => by
    cases hloop
    exact ⟨h, hheld, rfl⟩
  | snapshot :: snapshots, s, count, kept, h, hties, hheld, s', count', hloop => by
    rw [purgeLoop] at hloop
    rw [List.map_cons]
    split_ifs at hloop with hexpired
    · have hview : snapshot.view ∈ s.held config := by
        rw [hheld]
        simp
      cases hdelete : s.delete config snapshot.key snapshot.timestamp now with
      | none =>
        rw [hdelete] at hloop
        cases hloop
      | some result =>
        obtain ⟨next, done⟩ := result
        rw [hdelete] at hloop
        obtain ⟨hsound, rfl, hremoved⟩ := delete_of_mem_held h hties hview hdelete
        have hnext : Untied (next.held config) := hties.mono (hremoved ▸ le_cons_self _ _)
        rw [hheld, List.map_cons, ← cons_coe, add_cons, cons_inj_right] at hremoved
        obtain ⟨hsound', hheld', hcount⟩ := purgeLoop_spec snapshots next (count + 1) kept
          hsound hnext hremoved.symm hloop
        rw [List.filter_cons_of_neg (by simpa [SnapshotEntry.view] using hexpired),
          List.filter_cons_of_pos (by simpa [SnapshotEntry.view] using hexpired)]
        refine ⟨hsound', hheld', ?_⟩
        rw [hcount, List.length_cons]
        omega
    · obtain ⟨hsound', hheld', hcount⟩ := purgeLoop_spec snapshots s count
        (snapshot.view ::ₘ kept) h hties
        (by rw [hheld, List.map_cons, ← cons_coe, add_cons, cons_add])
        hloop
      rw [List.filter_cons_of_pos (by simpa [SnapshotEntry.view] using hexpired),
        List.filter_cons_of_neg (by simpa [SnapshotEntry.view] using hexpired)]
      refine ⟨hsound', ?_, hcount⟩
      rw [hheld', ← cons_coe, add_cons, cons_add]

theorem purgeExpired_spec (h : s.Sound config) (hties : Untied (s.held config)) {count : ℕ}
    (hpurge : s.purgeExpired config now = some (s', count)) :
    s'.Sound config ∧
      s'.held config = ((s.held config).filter fun view => ¬isExpired now view.expiresAt) ∧
      count = ((s.held config).filter fun view => isExpired now view.expiresAt).card := by
  have hperm : (s.readAlive config none).Perm (s.alive config none) := List.perm_insertionSort _ _
  have hheld : s.held config =
      ((s.readAlive config none).map SnapshotEntry.view : List SnapshotView) :=
    coe_eq_coe.mpr (hperm.map _).symm
  obtain ⟨hsound, hheld', hcount⟩ := purgeLoop_spec _ s 0 0 h hties (by rw [hheld, zero_add]) hpurge
  refine ⟨hsound, ?_, ?_⟩
  · rw [hheld', hheld, zero_add, filter_coe]
    simp
  · rw [hcount, hheld, zero_add, filter_coe, coe_card]
    simp

end WALSnapshotVersionStore

end DistributedCore.Persistence
