import Mathlib.Algebra.GroupWithZero.Nat
import Mathlib.Order.Lattice.Nat

/-!
# Sorting, and the greatest few items

A stable sort commutes with leaving items out: the items with a property come in the same order
whether the others are there or not. A sorted list is determined by its items under every key.

A bucket holds at most `n` items, sorted by a key, and items are offered to it one after another.
While there is room an item is inserted at the place that a binary search finds; afterwards it is
inserted only if its key is greater than the first one, whose item then leaves the bucket. What is
in the bucket are always `n` items with the greatest keys of all that were offered, or all of them.

## Main results

* `filter_insertionSort`: a stable sort of the items with a property.
* `eq_of_filter_key_eq`: sorted lists with the same items under every key.
* `take_filter_eq_take_iff`, `find?_eq_head?_iff`: when a filter does not show.
* `filter_greatest_eq_drop`: the items with the greatest keys of a list with increasing keys.
* `TopBucket.lowerBound_spec`: the search finds the first place with a key that is not smaller.
* `TopBucket.GreatestOf.offer`: the invariant of the bucket.
* `TopBucket.GreatestOf.mem_or_forall_lt`: an item is in the bucket, or the bucket is full of
  greater ones.
-/

namespace DistributedCore

open List

/-! ### Stable sorting -/

section Sorting

variable {B : Type*} (r : B → B → Prop) [DecidableRel r] [Std.Total r] [IsTrans B r]

omit [Std.Total r] [IsTrans B r] in
private theorem orderedInsert_of_forall {a : B} {l : List B} (h : ∀ b ∈ l, r a b) :
    l.orderedInsert r a = a :: l := by
  cases l with
  | nil => rfl
  | cons b l => exact orderedInsert_cons_of_le r l (h b mem_cons_self)

omit [Std.Total r] in
private theorem filter_orderedInsert (p : B → Bool) (a : B) {l : List B} (hl : l.Pairwise r) :
    (l.orderedInsert r a).filter p =
      if p a then (l.filter p).orderedInsert r a else l.filter p := by
  induction l with
  | nil => by_cases ha : p a = true <;> simp [ha]
  | cons b l ih =>
    obtain ⟨hb, hl'⟩ := pairwise_cons.mp hl
    by_cases hab : r a b
    · have hfirst : ∀ c ∈ (b :: l).filter p, r a c := fun c hc => by
        rcases mem_cons.mp (mem_of_mem_filter hc) with rfl | hc
        · exact hab
        · exact IsTrans.trans a b c hab (hb c hc)
      rw [orderedInsert_cons_of_le r l hab, filter_cons, orderedInsert_of_forall r hfirst]
    · rw [orderedInsert_of_not_le r l hab]
      by_cases hpb : p b = true
      · rw [filter_cons_of_pos hpb, filter_cons_of_pos hpb, ih hl', orderedInsert_of_not_le r _ hab]
        split_ifs <;> rfl
      · rw [filter_cons_of_neg hpb, filter_cons_of_neg hpb, ih hl']

/-- A stable sort of the items with a property is the stable sort of all items, with the others
left out. -/
theorem filter_insertionSort (p : B → Bool) : (l : List B) →
    (l.insertionSort r).filter p = (l.filter p).insertionSort r
  | [] => rfl
  | a :: l => by
    rw [insertionSort_cons, filter_orderedInsert r p a (pairwise_insertionSort r l),
      filter_insertionSort p l]
    by_cases ha : p a = true
    · rw [if_pos ha, filter_cons_of_pos ha, insertionSort_cons]
    · rw [if_neg ha, filter_cons_of_neg ha]

end Sorting

section Filters

variable {B : Type*} (p : B → Bool) {l : List B} {a : B}

/-- The number of items without a property, list by list. -/
theorem sum_length_sub_length_filter (lists : List (List B)) :
    (lists.map fun l => l.length - (l.filter p).length).sum =
      (lists.flatten.filter fun a => !p a).length := by
  induction lists with
  | nil => rfl
  | cons l _ ih =>
    have hl := length_eq_length_filter_add p (l := l)
    rw [map_cons, sum_cons, flatten_cons, filter_append, length_append, ih]
    omega

/-- The first `n` items with a property are the first `n` items if and only if these have it. -/
theorem take_filter_eq_take_iff {n : ℕ} :
    (l.filter p).take n = l.take n ↔ ∀ a ∈ l.take n, p a = true := by
  constructor
  · intro h a ha
    rw [← h] at ha
    exact (mem_filter.mp (mem_of_mem_take ha)).2
  · intro h
    conv_lhs => rw [← take_append_drop n l, filter_append, filter_eq_self.mpr h]
    rcases le_total n l.length with hn | hn
    · exact take_left' (length_take_of_le hn)
    · rw [drop_eq_nil_of_le hn, filter_nil, append_nil, take_take, min_self]

/-- The first item with a property is the first item if and only if that one has it. -/
theorem find?_eq_head?_iff : l.find? p = l.head? ↔ ∀ a ∈ l.head?, p a = true := by
  cases l with
  | nil => simp
  | cons a =>
    rw [head?_cons]
    constructor
    · intro h b hb
      exact find?_some (h.trans hb)
    · intro h
      exact find?_cons_of_pos (h a rfl)

/-- The first item with a property, and what is left without it. -/
theorem perm_cons_eraseP (h : l.find? p = some a) : l.Perm (a :: l.eraseP p) := by
  obtain ⟨hp, before, after, rfl, hbefore⟩ := find?_eq_some_iff_append.mp h
  rw [eraseP_append_right _ fun b hb => by simpa using hbefore b hb, eraseP_cons_of_pos hp]
  exact perm_middle

/-- In a list with different keys, an item and those with another key. -/
theorem perm_cons_filter_key_ne {K : Type*} [DecidableEq K] (key : B → K) :
    {l : List B} → (l.map key).Nodup → a ∈ l → l.Perm (a :: l.filter fun b => key b ≠ key a)
  | b :: l, hl, ha => by
    obtain ⟨hb, hl⟩ := nodup_cons.mp (map_cons ▸ hl)
    rcases mem_cons.mp ha with rfl | ha
    · have hall : l.filter (fun b => key b ≠ key a) = l :=
        filter_eq_self.mpr fun c hc => by
          simpa using fun heq : key c = key a => hb (heq ▸ mem_map_of_mem hc)
      rw [filter_cons_of_neg (by simp), hall]
    · have hba : key b ≠ key a := fun heq => hb (heq ▸ mem_map_of_mem ha)
      rw [filter_cons_of_pos (by simpa using hba)]
      exact ((perm_cons_filter_key_ne key hl ha).cons b).trans (.swap _ _ _)

end Filters

variable {B K : Type*} [LinearOrder K] (key : B → K) {l : List B}

/-- In a sorted list with a key, the first item that is not below the key is the first one with
it. -/
theorem find?_ge_eq_head?_filter {k : K} :
    {l : List B} → l.Pairwise (fun a b => key a ≤ key b) → (∃ a ∈ l, key a = k) →
      l.find? (fun a => key a ≥ k) = (l.filter fun a => key a = k).head?
  | [], _, h => by simp at h
  | a :: l, hl, h => by
    obtain ⟨ha, htail⟩ := pairwise_cons.mp hl
    obtain ⟨b, hb, rfl⟩ := h
    rcases mem_cons.mp hb with rfl | hb
    · simp
    rcases (ha b hb).eq_or_lt with heq | hlt
    · simp [heq]
    · rw [find?_cons_of_neg (by simpa using hlt), filter_cons_of_neg (by simpa using hlt.ne)]
      exact find?_ge_eq_head?_filter htail ⟨b, hb, rfl⟩

/-- In a list that is sorted downwards, the first item that is not above a key has that key if there
is one. -/
theorem find?_key_eq_iff_find?_key_le {k : K} (h : l.Pairwise fun a b => key b ≤ key a) :
    l.find? (fun a => key a = k) = l.find? (fun a => key a ≤ k) ↔
      (∃ a ∈ l, key a = k) ∨ ∀ a ∈ l, k < key a := by
  constructor
  · intro heq
    cases hfind : l.find? fun a => key a ≤ k with
    | none => exact .inr (by simpa using hfind)
    | some a =>
      rw [hfind] at heq
      exact .inl ⟨a, mem_of_find?_eq_some heq, by simpa using find?_some heq⟩
  · rintro (hex | hall)
    · have hdual := find?_ge_eq_head?_filter (fun a => OrderDual.toDual (key a))
        (k := OrderDual.toDual k) (h.imp OrderDual.toDual_le_toDual.mpr) (by simpa using hex)
      rw [head?_filter] at hdual
      simpa using hdual.symm
    · rw [find?_eq_none.mpr fun a ha => by simpa using (hall a ha).ne',
        find?_eq_none.mpr fun a ha => by simpa using hall a ha]

/-- Sorted lists are equal if they have the same items under every key, in the same order. -/
theorem eq_of_filter_key_eq : {l l' : List B} → l.Pairwise (fun a b => key a ≤ key b) →
      l'.Pairwise (fun a b => key a ≤ key b) →
        (∀ k, l.filter (fun a => key a = k) = l'.filter (fun a => key a = k)) → l = l'
  | [], [], _, _, _ => rfl
  | [], b :: l', _, _, h => by simpa using h (key b)
  | a :: l, [], _, _, h => by simpa using h (key a)
  | a :: l, b :: l', hl, hl', h => by
    obtain ⟨ha, htail⟩ := pairwise_cons.mp hl
    obtain ⟨hb, htail'⟩ := pairwise_cons.mp hl'
    have hmem : a ∈ (b :: l').filter (fun c => key c = key a) := by
      rw [← h]
      simp
    have hmem' : b ∈ (a :: l).filter (fun c => key c = key b) := by
      rw [h]
      simp
    have hab : key a ≤ key b := by
      rcases mem_cons.mp (mem_of_mem_filter hmem') with rfl | hmem'
      · exact le_rfl
      · exact ha b hmem'
    have hba : key b ≤ key a := by
      rcases mem_cons.mp (mem_of_mem_filter hmem) with rfl | hmem
      · exact le_rfl
      · exact hb a hmem
    have hkey : key b = key a := le_antisymm hba hab
    have hfirst := h (key a)
    rw [filter_cons_of_pos (by simp), filter_cons_of_pos (by simpa using hkey)] at hfirst
    obtain rfl := (List.cons.inj hfirst).1
    refine congrArg _ (eq_of_filter_key_eq htail htail' fun k => ?_)
    have hk := h k
    rw [filter_cons, filter_cons] at hk
    split_ifs at hk
    · exact (List.cons.inj hk).2
    · exact hk

/-- In a list with increasing keys, the items whose keys are not beyond the `n` greatest ones are
the last `n`. -/
theorem filter_greatest_eq_drop (h : l.Pairwise fun a b => key a < key b) (n : ℕ) :
    l.filter (fun a => key a ∉ ((l.map key).insertionSort (· ≥ ·)).drop n) =
      l.drop (l.length - n) := by
  have hkeys : (l.map key).Pairwise (· < ·) := pairwise_map.mpr h
  have hsort : (l.map key).insertionSort (· ≥ ·) = (l.map key).reverse := by
    refine List.Perm.eq_of_pairwise (fun a b _ _ hab hba => le_antisymm hba hab)
      (pairwise_insertionSort _ _) (pairwise_reverse.mpr (hkeys.imp fun hlt => hlt.le)) ?_
    exact (perm_insertionSort _ _).trans (reverse_perm _).symm
  rw [hsort, drop_reverse, length_map, ← map_take]
  generalize l.length - n = k
  rw [← take_append_drop k l, pairwise_append] at h
  conv_lhs => rw [← take_append_drop k l]
  rw [filter_append, filter_eq_nil_iff.mpr, filter_eq_self.mpr, nil_append]
  · intro a ha
    simp only [mem_reverse, mem_map, decide_eq_true_eq, not_exists, not_and]
    intro b hb
    rw [take_append_drop] at hb
    exact (h.2.2 b hb a ha).ne
  · intro a ha
    simp only [take_append_drop, mem_reverse, decide_eq_true_eq, not_not]
    exact mem_map_of_mem ha

end DistributedCore

namespace DistributedCore.TopBucket

open List

variable {B K : Type*} [LinearOrder K] (key : B → K)

/-- Binary search in the positions from `lo` to `hi`, with a bound on the number of rounds. -/
def lowerBound (bucket : List B) (k : K) : ℕ → ℕ → ℕ → ℕ
  | 0, lo, _ => lo
  | rounds + 1, lo, hi =>
    if lo < hi then
      let mid := (lo + hi) / 2
      match bucket[mid]? with
      | none => lo
      | some y =>
        if key y < k then lowerBound bucket k rounds (mid + 1) hi
        else lowerBound bucket k rounds lo mid
    else lo

/-- The item at the place that the search finds. -/
def insertSorted (bucket : List B) (x : B) : List B :=
  bucket.insertIdx (lowerBound key bucket (key x) bucket.length 0 bucket.length) x

/-- The item is inserted if there is room, or in place of the first item if its key is greater. -/
def offer (n : ℕ) (bucket : List B) (x : B) : List B :=
  if bucket.length < n then insertSorted key bucket x
  else
    match bucket with
    | [] => []
    | first :: rest => if key x > key first then insertSorted key rest x else first :: rest

/-- The keys do not decrease. -/
def Sorted (bucket : List B) : Prop := bucket.Pairwise fun a b => key a ≤ key b

section Search

variable {key} {bucket : List B} {k : K}

theorem Sorted.le_of_le (h : Sorted key bucket) {i j : ℕ} (hij : i ≤ j) (hj : j < bucket.length) :
    key (bucket[i]) ≤ key (bucket[j]) := by
  rcases lt_or_eq_of_le hij with hlt | rfl
  · exact pairwise_iff_getElem.mp h i j _ hj hlt
  · exact le_rfl

/-- **The search** finds the place before which the keys are smaller and after which they are
not. -/
theorem lowerBound_spec (hsorted : Sorted key bucket) :
    (rounds lo hi : ℕ) → lo ≤ hi → hi ≤ bucket.length → hi - lo ≤ rounds →
      (∀ y ∈ bucket.take lo, key y < k) → (∀ y ∈ bucket.drop hi, k ≤ key y) →
        lowerBound key bucket k rounds lo hi ≤ bucket.length ∧
          (∀ y ∈ bucket.take (lowerBound key bucket k rounds lo hi), key y < k) ∧
          ∀ y ∈ bucket.drop (lowerBound key bucket k rounds lo hi), k ≤ key y
  | 0, lo, hi, hle, hhi, hrounds, hbelow, habove => by
    obtain rfl : lo = hi := by omega
    exact ⟨hhi, hbelow, habove⟩
  | rounds + 1, lo, hi, hle, hhi, hrounds, hbelow, habove => by
    rw [lowerBound]
    split_ifs with _
    · have hmid : (lo + hi) / 2 < bucket.length := by omega
      simp only [getElem?_eq_getElem hmid]
      split_ifs with hkey
      · refine lowerBound_spec hsorted rounds _ hi (by omega) hhi (by omega)
          (fun y hy => ?_) habove
        obtain ⟨i, hi', rfl⟩ := mem_take_iff_getElem.mp hy
        have hi'' : i ≤ (lo + hi) / 2 := by omega
        exact lt_of_le_of_lt (hsorted.le_of_le hi'' hmid) hkey
      · refine lowerBound_spec hsorted rounds lo _ (by omega) (by omega) (by omega) hbelow
          fun y hy => ?_
        obtain ⟨i, -, rfl⟩ := mem_drop_iff_getElem.mp hy
        have hmid' : (lo + hi) / 2 ≤ (lo + hi) / 2 + i := Nat.le_add_right _ _
        exact le_trans (not_lt.mp hkey) (hsorted.le_of_le hmid' (by omega))
    · obtain rfl : lo = hi := by omega
      exact ⟨hhi, hbelow, habove⟩

private theorem insertIdx_eq {x : B} : {l : List B} → (i : ℕ) → i ≤ l.length →
    l.insertIdx i x = l.take i ++ x :: l.drop i
  | l, 0, _ => by simp
  | [], i + 1, h => by simp at h
  | y :: l, i + 1, h => by
    rw [insertIdx_succ_cons, take_succ_cons, drop_succ_cons, cons_append,
      insertIdx_eq i (Nat.le_of_succ_le_succ h)]

section

variable (hsorted : Sorted key bucket)

include hsorted

/-- A sorted bucket with a new item: the smaller ones, the item, and the others. -/
theorem insertSorted_spec (x : B) :
    ∃ below above, bucket = below ++ above ∧ insertSorted key bucket x = below ++ x :: above ∧
      (∀ y ∈ below, key y < key x) ∧ ∀ y ∈ above, key x ≤ key y := by
  obtain ⟨hle, hbelow, habove⟩ := lowerBound_spec hsorted bucket.length 0 bucket.length
    (Nat.zero_le _) (Nat.le_refl _) (Nat.sub_le _ _)
    (fun _ h => by simp at h) (fun _ h => by simp at h)
  exact ⟨_, _, (take_append_drop _ _).symm, insertIdx_eq _ hle, hbelow, habove⟩

theorem insertSorted_perm (x : B) : (insertSorted key bucket x).Perm (x :: bucket) := by
  obtain ⟨below, above, rfl, hinsert, -, -⟩ := insertSorted_spec hsorted x
  rw [hinsert]
  exact perm_middle

theorem sorted_insertSorted (x : B) : Sorted key (insertSorted key bucket x) := by
  obtain ⟨below, above, rfl, hinsert, hbelow, habove⟩ := insertSorted_spec hsorted x
  obtain ⟨hb, ha, hba⟩ := pairwise_append.mp hsorted
  rw [hinsert]
  refine pairwise_append.mpr ⟨hb, pairwise_cons.mpr ⟨habove, ha⟩, fun y hy z hz => ?_⟩
  rcases mem_cons.mp hz with rfl | hz
  · exact le_of_lt (hbelow y hy)
  · exact hba y hy z hz

end

end Search

/-! ### Bounded buckets -/

/-- The bucket is sorted and not too long, and it is what is left of the list after items were
dropped that are not greater than those of a full bucket. -/
structure GreatestOf (n : ℕ) (l bucket : List B) : Prop where
  sorted : Sorted key bucket
  length_le : bucket.length ≤ n
  dropped : ∃ rest, (bucket ++ rest).Perm l ∧
    ∀ d ∈ rest, bucket.length = n ∧ ∀ b ∈ bucket, key d ≤ key b

variable {key} {n : ℕ} {l bucket : List B}

theorem greatestOf_nil (n : ℕ) : GreatestOf key n [] [] :=
  ⟨.nil, Nat.zero_le _, [], .refl _, fun _ h => nomatch h⟩

section

variable (h : GreatestOf key n l bucket)

include h

/-- **One more item.** -/
theorem GreatestOf.offer (hn : 0 < n) (x : B) :
    GreatestOf key n (l ++ [x]) (offer key n bucket x) := by
  obtain ⟨hsorted, hlength, rest, hperm, hrest⟩ := h
  have hlast : (x :: (bucket ++ rest)).Perm (l ++ [x]) :=
    (hperm.cons x).trans (perm_append_singleton x l).symm
  rw [TopBucket.offer.eq_def]
  split_ifs with hroom
  · have hins := insertSorted_perm hsorted x
    refine ⟨sorted_insertSorted hsorted x, by rw [hins.length_eq]; exact hroom, rest, ?_, ?_⟩
    · exact (hins.append_right rest).trans hlast
    · intro d hd
      exact absurd (hrest d hd).1 (ne_of_lt hroom)
  · have hfull : bucket.length = n := le_antisymm hlength (not_lt.mp hroom)
    cases bucket with
    | nil => exact absurd hfull (ne_of_lt hn)
    | cons first others =>
      obtain ⟨hfirst, hothers⟩ := pairwise_cons.mp hsorted
      dsimp only
      split_ifs with hgreater
      · have hins := insertSorted_perm hothers x
        have hlength' : (insertSorted key others x).length = n := by
          rw [hins.length_eq]
          exact hfull
        refine ⟨sorted_insertSorted hothers x, hlength'.le, first :: rest, ?_, fun d hd => ?_⟩
        · refine ((hins.append_right _).trans ?_).trans hlast
          exact List.Perm.cons x perm_middle
        · refine ⟨hlength', fun b hb => ?_⟩
          have hd' : key d ≤ key first := by
            rcases mem_cons.mp hd with rfl | hd
            · exact le_rfl
            · exact (hrest d hd).2 first mem_cons_self
          rcases mem_cons.mp (hins.mem_iff.mp hb) with rfl | hb
          · exact le_trans hd' (le_of_lt hgreater)
          · exact le_trans hd' (hfirst b hb)
      · refine ⟨hsorted, hlength, x :: rest, ?_, fun d hd => ⟨hfull, fun b hb => ?_⟩⟩
        · exact perm_middle.trans hlast
        · rcases mem_cons.mp hd with rfl | hd
          · rcases mem_cons.mp hb with rfl | hb
            · exact not_lt.mp hgreater
            · exact le_trans (not_lt.mp hgreater) (hfirst b hb)
          · exact (hrest d hd).2 b hb

theorem GreatestOf.length_eq : bucket.length = min n l.length := by
  obtain ⟨-, hle, rest, hperm, hrest⟩ := h
  rw [← hperm.length_eq, length_append]
  cases rest with
  | nil => simpa using hle
  | cons d => simp [(hrest d mem_cons_self).1]

/-- An item of the list is in the bucket, or the bucket is full of items that are greater, if no
other item has its key. -/
theorem GreatestOf.mem_or_forall_lt {x : B} (hx : x ∈ l)
    (hunique : ∀ y ∈ l, key y = key x → y = x) :
    x ∈ bucket ∨ bucket.length = n ∧ ∀ b ∈ bucket, key x < key b := by
  obtain ⟨-, -, rest, hperm, hrest⟩ := h
  by_cases hmem : x ∈ bucket
  · exact .inl hmem
  · have hx' : x ∈ rest := (mem_append.mp (hperm.mem_iff.mpr hx)).resolve_left hmem
    refine .inr ⟨(hrest x hx').1, fun b hb => lt_of_le_of_ne ((hrest x hx').2 b hb) fun heq => ?_⟩
    have hb' : b ∈ l := hperm.mem_iff.mp (mem_append_left _ hb)
    exact hmem (hunique b hb' heq.symm ▸ hb)

end

end DistributedCore.TopBucket
