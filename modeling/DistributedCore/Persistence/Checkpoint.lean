import DistributedCore.Entity.Record
import DistributedCore.Library.Texts
import Mathlib.Data.List.Sort

/-!
# Checkpoints

A checkpoint is a snapshot of the entities of a registry together with the LSN of the last log
entry it is meant to cover. The checkpoint directory holds one file for each LSN, named so that
the names sort by LSN as long as the LSN has at most eight digits, and `latest.json`, which names
the file written last. Both are written by renaming a finished temporary file, so a failed write
leaves the old file. After every snapshot the oldest files, by name, are removed.

Source: `src/persistence/checkpoint/CheckpointWriter.ts`,
`src/persistence/checkpoint/CheckpointReader.ts`, `src/persistence/atomicWrite.ts`.
-/

namespace DistributedCore.Persistence

open Entity OrderedMap List

structure EntityState (N V : Type) where
  id : EntityId
  data : Metadata V
  version : ℤ
  hostNodeId : Option N
  lastModified : ℕ
  deriving DecidableEq

structure CheckpointSnapshot (N V : Type) where
  lsn : ℕ
  entities : OrderedMap EntityId (EntityState N V)
  deriving DecidableEq

variable {N V : Type}

def setProperty {B : Type} (o : OrderedMap String B) (k : String) (v : B) : OrderedMap String B :=
  if k = "__proto__" then o else o.set k v

/-- The checkpoint files, and the file that names the latest one. -/
structure CheckpointDir (N V : Type) where
  files : OrderedMap String (CheckpointSnapshot N V)
  latest : Option String

/-- Which of the two writes of a snapshot fails: that of the snapshot itself, or that of
`latest.json` after it. -/
inductive SnapshotFault
  | snapshot
  | latest
  deriving DecidableEq

def checkpointFilename (lsn : ℕ) : String :=
  let digits := toString lsn
  "checkpoint-lsn-" ++ "".pushn '0' (8 - digits.length) ++ digits ++ ".json"

theorem checkpointFilename_lt {a b : ℕ} (hab : a < b) (hb : b < 10 ^ 8) :
    checkpointFilename a < checkpointFilename b := by
  have hname : ∀ n < 10 ^ 8, (checkpointFilename n).toList =
      "checkpoint-lsn-".toList ++ (fixedDigits 8 n ++ ".json".toList) := by
    intro n hn
    simp only [checkpointFilename, String.toList_append, toList_pushn, toList_toString,
      ← replicate_append_toDigits 7 hn, append_assoc, ← String.length_toList,
      String.toList_empty, nil_append]
  rw [String.lt_iff_toList_lt, hname a (hab.trans hb), hname b hb]
  refine append_left_lt (append_lt_append_of_length_eq ?_ (fixedDigits_lt 8 hab hb))
  rw [length_fixedDigits, length_fixedDigits]

namespace CheckpointDir

def empty : CheckpointDir N V := ⟨.empty, none⟩

variable (dir : CheckpointDir N V)

def cleanup (keepHistory : ℤ) : CheckpointDir N V :=
  if keepHistory ≤ 0 then dir
  else
    let checkpointFiles := (dir.files.keys.insertionSort (· ≤ ·)).reverse
    let filesToDelete := checkpointFiles.drop keepHistory.toNat
    { dir with files := filesToDelete.foldl (fun files file => files.delete file) dir.files }

def writeFile (lsn : ℕ) (entities : OrderedMap EntityId (EntityState N V)) : CheckpointDir N V :=
  { dir with files := dir.files.set (checkpointFilename lsn) ⟨lsn, entities⟩ }

def writeLatest (lsn : ℕ) : CheckpointDir N V :=
  { dir with latest := some (checkpointFilename lsn) }

def writeSnapshot (keepHistory : ℤ) (dir : CheckpointDir N V) (lsn : ℕ)
    (entities : OrderedMap EntityId (EntityState N V)) (fault : Option SnapshotFault) :
    CheckpointDir N V × Bool :=
  match fault with
  | some .snapshot => (dir, false)
  | some .latest => (dir.writeFile lsn entities, false)
  | none => (((dir.writeFile lsn entities).writeLatest lsn).cleanup keepHistory, true)

def readLatest : Option (CheckpointSnapshot N V) := dir.latest.bind dir.files.get

section Lemmas

variable {dir : CheckpointDir N V} {keepHistory : ℤ} {name : String}
  {snapshot : CheckpointSnapshot N V}

theorem get_foldl_delete :
    (names : List String) → (files : OrderedMap String (CheckpointSnapshot N V)) →
      (names.foldl (fun files file => files.delete file) files).get name = some snapshot →
      files.get name = some snapshot
  | [], _, h => h
  | file :: names, files, h => by
    have hdelete := get_foldl_delete names (files.delete file) h
    rw [get_delete] at hdelete
    split_ifs at hdelete
    exact hdelete

theorem get_cleanup (h : (dir.cleanup keepHistory).files.get name = some snapshot) :
    dir.files.get name = some snapshot := by
  rw [cleanup] at h
  split_ifs at h
  · exact h
  · exact get_foldl_delete _ _ h

variable {entities : OrderedMap EntityId (EntityState N V)} {lsn : ℕ}

theorem get_writeFile (h : (dir.writeFile lsn entities).files.get name = some snapshot) :
    dir.files.get name = some snapshot ∨ snapshot = ⟨lsn, entities⟩ := by
  rw [writeFile, get_set] at h
  split_ifs at h
  · exact .inr (Option.some.inj h).symm
  · exact .inl h

theorem get_writeSnapshot {fault : Option SnapshotFault}
    (h : (dir.writeSnapshot keepHistory lsn entities fault).1.files.get name = some snapshot) :
    dir.files.get name = some snapshot ∨ snapshot = ⟨lsn, entities⟩ := by
  match fault with
  | some .snapshot => exact .inl h
  | some .latest => exact get_writeFile h
  | none =>
    have hwritten := get_cleanup h
    exact get_writeFile hwritten

theorem exists_get_of_readLatest (h : dir.readLatest = some snapshot) :
    ∃ name, dir.files.get name = some snapshot := by
  obtain ⟨name, -, hname⟩ := Option.bind_eq_some_iff.mp h
  exact ⟨name, hname⟩

end Lemmas

/-! ### The history -/

def written (keepHistory : ℤ) (ws : List (CheckpointSnapshot N V)) : CheckpointDir N V :=
  ws.foldl (fun dir w => (dir.writeSnapshot keepHistory w.lsn w.entities none).1) empty

def newest (keepHistory : ℤ) (ws : List (CheckpointSnapshot N V)) : List (CheckpointSnapshot N V) :=
  ws.drop (ws.length - keepHistory.toNat)

/-- The directory holds these snapshots and no others. -/
def Holds (dir : CheckpointDir N V) (ws : List (CheckpointSnapshot N V)) : Prop :=
  dir.files.entries = ws.map fun w => (checkpointFilename w.lsn, w)

/-- The numbers increase, and their file names sort as they do. -/
structure Rising (ws : List (CheckpointSnapshot N V)) : Prop where
  increasing : ws.Pairwise fun a b => a.lsn < b.lsn
  bounded : ∀ w ∈ ws, w.lsn < 10 ^ 8

variable {dir : CheckpointDir N V} {ws : List (CheckpointSnapshot N V)} {keepHistory : ℤ}
  (w : CheckpointSnapshot N V)

theorem Rising.sublist {ws' : List (CheckpointSnapshot N V)} (h : Rising ws)
    (hsub : List.Sublist ws' ws) : Rising ws' :=
  ⟨h.increasing.sublist hsub, fun w hw => h.bounded w (hsub.subset hw)⟩

theorem Rising.pairwise_names (h : Rising ws) :
    (ws.map fun w => checkpointFilename w.lsn).Pairwise (· < ·) :=
  pairwise_map.mpr (h.increasing.imp_of_mem fun _ hb hab =>
    checkpointFilename_lt hab (h.bounded _ hb))

theorem Holds.keys (h : dir.Holds ws) :
    dir.files.keys = ws.map fun w => checkpointFilename w.lsn := by
  rw [OrderedMap.keys, h, map_map]
  rfl

theorem entries_foldl_delete :
    (names : List String) → (files : OrderedMap String (CheckpointSnapshot N V)) →
      (names.foldl (fun files file => files.delete file) files).entries =
        files.entries.filter fun p => p.1 ∉ names
  | [], files => by simp
  | file :: names, files => by
    rw [foldl_cons, entries_foldl_delete names, delete, filter_filter]
    refine filter_congr fun p _ => ?_
    simp [Bool.and_comm]

/-- A map without its first `j` keys. -/
theorem filter_notMem_take {files : OrderedMap String (CheckpointSnapshot N V)} (j : ℕ) :
    files.entries.filter (fun p => p.1 ∉ (files.keys.take j).reverse) = files.entries.drop j := by
  have hsplit : files.entries.take j ++ files.entries.drop j = files.entries := take_append_drop j _
  have hdisjoint : List.Disjoint (files.keys.take j) ((files.entries.drop j).map Prod.fst) := by
    have hnodup := files.nodup_keys
    rw [← hsplit, map_append] at hnodup
    rw [OrderedMap.keys, ← map_take]
    exact disjoint_of_nodup_append hnodup
  rw [← hsplit, filter_append, filter_eq_nil_iff.mpr, filter_eq_self.mpr, hsplit]
  · rfl
  · intro p hp
    simpa using fun hmem => hdisjoint hmem (mem_map_of_mem hp)
  · intro p hp
    have hkey : p.1 ∈ files.keys.take j := by
      rw [OrderedMap.keys, ← map_take]
      exact mem_map_of_mem hp
    simp [hkey]

/-- The greatest names are those of the newest snapshots. -/
theorem Holds.cleanup (h : dir.Holds ws) (hrising : Rising ws) (hkeep : 1 ≤ keepHistory) :
    (dir.cleanup keepHistory).Holds (newest keepHistory ws) := by
  have hsorted : dir.files.keys.Pairwise (· ≤ ·) := h.keys ▸ hrising.pairwise_names.imp le_of_lt
  rw [Holds, CheckpointDir.cleanup, if_neg (by omega)]
  dsimp only
  rw [hsorted.insertionSort_eq, drop_reverse, entries_foldl_delete, filter_notMem_take, h,
    h.keys, length_map, newest, map_drop]

theorem Holds.get_iff (h : dir.Holds ws) {name : String} {snapshot : CheckpointSnapshot N V} :
    dir.files.get name = some snapshot ↔
      snapshot ∈ ws ∧ name = checkpointFilename snapshot.lsn := by
  rw [← mem_entries_iff, h, mem_map]
  constructor
  · rintro ⟨w, hw, heq⟩
    cases heq
    exact ⟨hw, rfl⟩
  · rintro ⟨hw, rfl⟩
    exact ⟨snapshot, hw, rfl⟩

theorem Holds.writeSnapshot (h : dir.Holds ws) {w : CheckpointSnapshot N V}
    (hrising : Rising (ws ++ [w])) (hkeep : 1 ≤ keepHistory) :
    (dir.writeSnapshot keepHistory w.lsn w.entities none).1.Holds
      (newest keepHistory (ws ++ [w])) := by
  refine Holds.cleanup ?_ hrising hkeep
  have hnew : dir.files.get (checkpointFilename w.lsn) = none := by
    rw [Option.eq_none_iff_forall_ne_some]
    intro old hold
    obtain ⟨hmem, hname⟩ := h.get_iff.mp hold
    have hlt : old.lsn < w.lsn :=
      (pairwise_append.mp hrising.increasing).2.2 old hmem w (mem_singleton_self w)
    exact absurd hname.symm (checkpointFilename_lt hlt (hrising.bounded w (by simp))).ne
  rw [Holds, writeLatest, writeFile, entries_set_of_get_eq_none hnew, h, map_append]
  rfl

theorem newest_append_newest (hkeep : 1 ≤ keepHistory) :
    newest keepHistory (newest keepHistory ws ++ [w]) = newest keepHistory (ws ++ [w]) := by
  have hk : 1 ≤ keepHistory.toNat := by omega
  simp only [newest, length_append, length_drop, length_singleton]
  rw [drop_append_of_le_length (by rw [length_drop]; omega), drop_drop,
    drop_append_of_le_length (by omega)]
  congr 2
  omega

theorem written_append : written keepHistory (ws ++ [w]) =
      ((written keepHistory ws).writeSnapshot keepHistory w.lsn w.entities none).1 := by
  rw [written, foldl_append]
  rfl

/-- **What writes leave in the directory.** -/
theorem holds_written (hkeep : 1 ≤ keepHistory) (hrising : Rising ws) :
    (written keepHistory ws).Holds (newest keepHistory ws) := by
  induction ws using List.reverseRecOn with
  | nil => simp [Holds, newest, written, empty, OrderedMap.empty]
  | append_singleton ws w ih =>
    have hold : Rising ws := hrising.sublist (sublist_append_left ws [w])
    have hkept : Rising (newest keepHistory ws ++ [w]) :=
      hrising.sublist ((drop_sublist _ ws).append_right [w])
    rw [written_append, ← newest_append_newest w hkeep]
    exact (ih hold).writeSnapshot hkept hkeep

/-- **The newest checkpoints are kept.** After any number of writes with increasing LSNs of at most
eight digits, the directory holds the files of the `keepHistory` highest LSNs and no others, and
`readLatest` returns the snapshot that was written last. -/
theorem keeps_newest (hkeep : 1 ≤ keepHistory)
    (hincreasing : ws.Pairwise fun a b => a.lsn < b.lsn) (hbounded : ∀ w ∈ ws, w.lsn < 10 ^ 8) :
    (∀ name snapshot, (written keepHistory ws).files.get name = some snapshot ↔
      snapshot ∈ newest keepHistory ws ∧ name = checkpointFilename snapshot.lsn) ∧
    (written keepHistory ws).readLatest = ws.getLast? := by
  have hholds := holds_written hkeep ⟨hincreasing, hbounded⟩
  refine ⟨fun name snapshot => hholds.get_iff, ?_⟩
  induction ws using List.reverseRecOn with
  | nil => rfl
  | append_singleton ws w _ =>
    have hlatest : (written keepHistory (ws ++ [w])).latest = some (checkpointFilename w.lsn) := by
      rw [written_append]
      simp only [CheckpointDir.writeSnapshot, CheckpointDir.cleanup]
      split_ifs <;> rfl
    rw [readLatest, hlatest, getLast?_concat]
    refine hholds.get_iff.mpr ⟨?_, rfl⟩
    rw [newest, length_append, drop_append_of_le_length (by simp; omega)]
    exact mem_append_right _ (mem_singleton_self w)

theorem keeps_newest_of_three :
    (written 2 [⟨8, .empty⟩, ⟨9, .empty⟩, ⟨10, .empty⟩] : CheckpointDir ℕ ℕ).readLatest =
      some ⟨10, .empty⟩ :=
  (keeps_newest (by decide) (by decide) (by decide)).2

/-- The name of the first LSN of nine digits is smaller than that of the last one of eight, so its
file is removed as soon as it is written. -/
theorem newest_removed :
    (written 1 [⟨99999999, .empty⟩, ⟨100000000, .empty⟩] : CheckpointDir ℕ ℕ).readLatest = none ∧
      (written 1 [⟨99999999, .empty⟩, ⟨100000000, .empty⟩] : CheckpointDir ℕ ℕ).files.keys =
        [checkpointFilename 99999999] := by decide +kernel

end CheckpointDir

end DistributedCore.Persistence
