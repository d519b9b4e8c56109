import DistributedCore.Library.OrderedMap

/-!
# Files by name and by handle

A directory maps names to inodes, and an inode holds the records of a file in the order in which
they were appended. A handle is the number of an inode: who has opened a file goes on writing to
its inode when the name is removed, and a file that is created under the same name afterwards is
another one. Every name of the directory leads to an inode (the field `linked`).

## Main results

* `FileSystem.Holds.openFile`, `FileSystem.Holds.write`, `FileSystem.Holds.unlink`: what an
  operation keeps; `FileSystem.holds_write`: what a write adds.
-/

namespace DistributedCore

open OrderedMap List

/-- A directory of names and the records of its inodes. -/
structure FileSystem (K R : Type*) [DecidableEq K] where
  dir : OrderedMap K ℕ
  inodes : List (List R)
  /-- Every name leads to an inode. -/
  linked : ∀ name i, dir.get name = some i → i < inodes.length

namespace FileSystem

variable {K R : Type*} [DecidableEq K]

/-- No files. -/
def empty : FileSystem K R := ⟨.empty, [], fun _ _ h => nomatch h⟩

variable (fs : FileSystem K R)

/-- The records of an inode. -/
def contents (i : ℕ) : List R := fs.inodes[i]?.getD []

/-- The records under a name, if there is such a file. -/
def readFile (name : K) : Option (List R) := (fs.dir.get name).map fs.contents

/-- A new file without records. -/
def create (name : K) : FileSystem K R where
  dir := fs.dir.set name fs.inodes.length
  inodes := fs.inodes ++ [[]]
  linked j i h := by
    rw [length_append, length_singleton]
    rw [get_set] at h
    split_ifs at h
    · exact Option.some.inj h ▸ Nat.lt_succ_self _
    · exact Nat.lt_succ_of_lt (fs.linked j i h)

/-- The handle of a file that is opened for append, and created if it is missing. -/
def openFile (name : K) : FileSystem K R × ℕ :=
  match fs.dir.get name with
  | some i => (fs, i)
  | none => (fs.create name, fs.inodes.length)

/-- A record at the end of an inode. -/
def write (i : ℕ) (record : R) : FileSystem K R where
  dir := fs.dir
  inodes := fs.inodes.modify i (· ++ [record])
  linked j i' h := by simpa using fs.linked j i' h

/-- The name is removed; the inode stays for those who have opened it. -/
def unlink (name : K) : FileSystem K R where
  dir := fs.dir.delete name
  inodes := fs.inodes
  linked j i h := by
    rw [get_delete] at h
    split_ifs at h
    exact fs.linked j i h

/-- All records of all inodes. -/
def records : List R := fs.inodes.flatten

/-- The record can be read under the name. -/
def Holds (name : K) (record : R) : Prop := ∃ i, fs.dir.get name = some i ∧ record ∈ fs.contents i

variable {fs : FileSystem K R} {name : K} {record : R} {i : ℕ}

theorem Holds.mem_readFile (h : fs.Holds name record) : record ∈ (fs.readFile name).getD [] := by
  obtain ⟨i, hi, hrecord⟩ := h
  rwa [readFile, hi]

/-- A record that is in no file of the directory cannot be read. -/
theorem not_holds_of_forall (h : ∀ p ∈ fs.dir.entries, record ∉ fs.contents p.2) :
    ¬∃ name, fs.Holds name record := by
  rintro ⟨name, i, hi, hrecord⟩
  exact h (name, i) ((mem_entries_iff _ _ _).mpr hi) hrecord

theorem contents_subset_records (fs : FileSystem K R) (i : ℕ) : fs.contents i ⊆ fs.records := by
  intro record hrecord
  rw [contents] at hrecord
  cases hfile : fs.inodes[i]? with
  | none =>
    rw [hfile] at hrecord
    exact nomatch hrecord
  | some file =>
    rw [hfile] at hrecord
    exact mem_flatten.mpr ⟨file, mem_of_getElem? hfile, hrecord⟩

theorem readFile_subset_records (fs : FileSystem K R) (name : K) :
    (fs.readFile name).getD [] ⊆ fs.records := by
  rw [readFile]
  cases fs.dir.get name with
  | none => exact nil_subset _
  | some i => exact fs.contents_subset_records i

/-! ### Opening -/

theorem contents_create (fs : FileSystem K R) (name : K) (i : ℕ) :
    (fs.create name).contents i = fs.contents i := by
  rw [contents, contents, create, getElem?_append]
  split_ifs with hi
  · rfl
  · rw [getElem?_eq_none (Nat.not_lt.mp hi)]
    cases i - fs.inodes.length <;> simp

theorem Holds.create (h : fs.Holds name record) {new : K} (hnew : fs.dir.get new = none) :
    (fs.create new).Holds name record := by
  obtain ⟨i, hi, hrecord⟩ := h
  have hne : name ≠ new := by
    rintro rfl
    exact absurd (hnew.symm.trans hi) (by simp)
  exact ⟨i, (get_set_of_ne _ _ hne).trans hi, (fs.contents_create new i).symm ▸ hrecord⟩

/-- **Opening a file** leaves every record where it was. -/
theorem Holds.openFile (h : fs.Holds name record) (new : K) :
    (fs.openFile new).1.Holds name record := by
  rw [FileSystem.openFile]
  split
  · exact h
  · next hnew => exact h.create hnew

theorem records_openFile (fs : FileSystem K R) (new : K) :
    (fs.openFile new).1.records = fs.records := by
  rw [openFile]
  split
  · rfl
  · simp [records, create]

/-! ### Writing -/

theorem contents_write (fs : FileSystem K R) (i : ℕ) (record : R) (j : ℕ) :
    (fs.write i record).contents j =
      if i = j ∧ j < fs.inodes.length then fs.contents j ++ [record] else fs.contents j := by
  rw [contents, contents, write, getElem?_modify]
  by_cases hj : j < fs.inodes.length
  · by_cases hij : i = j <;> simp [hij, hj]
  · simp [hj]

/-- **A write** can be read under every name of the inode. -/
theorem holds_write (h : fs.dir.get name = some i) (record : R) :
    (fs.write i record).Holds name record := by
  refine ⟨i, h, ?_⟩
  rw [contents_write, if_pos ⟨rfl, fs.linked name i h⟩]
  exact mem_append_right _ mem_cons_self

theorem Holds.write (h : fs.Holds name record) (i : ℕ) (new : R) :
    (fs.write i new).Holds name record := by
  obtain ⟨j, hj, hrecord⟩ := h
  refine ⟨j, hj, ?_⟩
  rw [contents_write]
  split_ifs
  · exact mem_append_left _ hrecord
  · exact hrecord

theorem mem_records_write {new : R} (h : record ∈ (fs.write i new).records) :
    record ∈ fs.records ∨ record = new := by
  obtain ⟨file, hfile, hrecord⟩ := mem_flatten.mp h
  obtain ⟨j, hj⟩ := getElem?_of_mem hfile
  have hcontents : record ∈ (fs.write i new).contents j := by rwa [contents, hj]
  rw [contents_write] at hcontents
  split_ifs at hcontents
  · rcases mem_append.mp hcontents with hold | hnew
    · exact .inl (fs.contents_subset_records j hold)
    · exact .inr (mem_singleton.mp hnew)
  · exact .inl (fs.contents_subset_records j hcontents)

/-! ### Removing -/

/-- **Removing a name** leaves the records under every other name. -/
theorem Holds.unlink (h : fs.Holds name record) {removed : K} (hne : name ≠ removed) :
    (fs.unlink removed).Holds name record := by
  obtain ⟨i, hi, hrecord⟩ := h
  exact ⟨i, (get_delete_of_ne _ hne).trans hi, hrecord⟩

end FileSystem

end DistributedCore
