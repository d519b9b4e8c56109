import Mathlib.Data.List.Induction
import Mathlib.Data.List.Nodup

/-!
# Insertion-ordered finite maps

A map with finitely many keys that remembers the order in which its keys were first inserted:
assigning to a present key keeps the position of that key, assigning to an absent key appends
it, and deleting removes the key together with its position. This is the map of the
JavaScript language (`Map`, and plain objects used as records), so a loop over the map visits
the entries of `entries` from the first to the last.

The keys are pairwise distinct by construction (the field `nodup_keys`), and every operation
is characterised by what `get` returns afterwards; proofs about a map use these equations and
do not unfold the operations.

## Main results

* `OrderedMap.get_set`, `OrderedMap.get_delete`, `OrderedMap.get_spread`,
  `OrderedMap.get_mapValues`: the value of every key after an operation.
* `OrderedMap.get_assign`, `OrderedMap.get_assignIf`: the value of every key after a loop that
  assigns the entries of another map.
* `OrderedMap.get_foldl_set`: the value of every key after a loop that files the items of a list
  under their keys.
* `OrderedMap.get_foldl_set_eq_some_iff_of_agree`, `OrderedMap.get_foldl_set_eq_some_iff`: the same
  if items with the same key agree, and for distinct keys.
* `OrderedMap.get_groupBy`: the group of a key.
* `OrderedMap.mem_entries_iff`: the entries are the pairs that `get` finds.
* `OrderedMap.get_filter`: the value of every key after a removal by a condition.
* `OrderedMap.values_set_of_get_eq_none`, `OrderedMap.values_filter`: the values after an assignment
  to a new key and after a removal by a condition.
* `OrderedMap.foldl_set_entries`, `OrderedMap.foldl_set_values`: a map is rebuilt from its pairs,
  and from its values if these know their keys.
* `OrderedMap.filter_flatten_values`: the items of a map of lists that belong to a key.
* `OrderedMap.values_perm`, `OrderedMap.values_set_perm`: the values before and after an
  assignment, up to their order.
-/

namespace DistributedCore

open List
open Option hiding filter filter_map map map_map

/-- An insertion-ordered map from `K` to `B`. -/
structure OrderedMap (K B : Type*) where
  /-- The pairs of the map, in the order in which a loop over the map visits them. -/
  entries : List (K × B)
  /-- No key occurs twice. -/
  nodup_keys : (entries.map Prod.fst).Nodup

namespace OrderedMap

variable {K B G : Type*} [DecidableEq K]

instance [DecidableEq B] : DecidableEq (OrderedMap K B) := fun a b =>
  decidable_of_iff (a.entries = b.entries) (by cases a; cases b; simp)

/-- The map without entries. -/
def empty : OrderedMap K B := ⟨[], nodup_nil⟩

variable (m : OrderedMap K B)

/-- The keys, in insertion order. -/
def keys : List K := m.entries.map Prod.fst

/-- The values, in insertion order of their keys. -/
def values : List B := m.entries.map Prod.snd

variable (k : K)

/-- The value stored under `k`, if any. -/
def get : Option B := m.entries.lookup k

/-- Whether `k` is a key of the map. -/
def has : Bool := (m.get k).isSome

/-- Assignment on a list of pairs: in place if the key occurs, at the end otherwise. -/
def setEntries (k : K) (v : B) : List (K × B) → List (K × B)
  | [] => [(k, v)]
  | p :: l => if p.1 = k then (k, v) :: l else p :: setEntries k v l

theorem mem_keys_setEntries (k j : K) (v : B) : (l : List (K × B)) →
      (j ∈ (setEntries k v l).map Prod.fst ↔ j = k ∨ j ∈ l.map Prod.fst)
  | [] => by simp [setEntries]
  | p :: l => by
    have ih := mem_keys_setEntries k j v l
    by_cases hp : p.1 = k
    · simp [setEntries, hp]
    · simp only [setEntries, hp, ↓reduceIte, map_cons, mem_cons, ih]
      tauto

theorem nodup_keys_setEntries (k : K) (v : B) :
    (l : List (K × B)) → (l.map Prod.fst).Nodup → ((setEntries k v l).map Prod.fst).Nodup
  | [], _ => by simp [setEntries]
  | p :: l, h => by
    rw [map_cons, nodup_cons] at h
    by_cases hp : p.1 = k
    · simpa only [setEntries, hp, ↓reduceIte, map_cons, nodup_cons] using hp ▸ h
    · rw [setEntries, if_neg hp, map_cons, nodup_cons, mem_keys_setEntries, not_or]
      exact ⟨⟨hp, h.1⟩, nodup_keys_setEntries k v l h.2⟩

/-- Assignment `m[k] = v`. -/
def set (v : B) : OrderedMap K B :=
  ⟨setEntries k v m.entries, nodup_keys_setEntries k v _ m.nodup_keys⟩

/-- Removal of a key. -/
def delete : OrderedMap K B :=
  ⟨m.entries.filter fun p => p.1 ≠ k, m.nodup_keys.sublist ((filter_sublist).map Prod.fst)⟩

/-- Removal of the entries that do not meet `p`. -/
def filter (p : K → B → Bool) (m : OrderedMap K B) : OrderedMap K B :=
  ⟨m.entries.filter fun e => p e.1 e.2, m.nodup_keys.sublist ((filter_sublist).map Prod.fst)⟩

/-- `{ ...a, ...b }`: the entries of `b` assigned one after another to a copy of `a`. -/
def spread (a b : OrderedMap K B) : OrderedMap K B := b.entries.foldl (fun m p => m.set p.1 p.2) a

/-- Every value replaced by its image under `f`. -/
def mapValues (f : K → B → G) (m : OrderedMap K B) : OrderedMap K G :=
  ⟨m.entries.map fun p => (p.1, f p.1 p.2), by
    simpa only [map_map, Function.comp_def] using m.nodup_keys⟩

/-! ### The value of every key after an operation -/

@[simp] theorem get_empty : (empty : OrderedMap K B).get k = none := rfl

theorem has_iff : m.has k = true ↔ ∃ v, m.get k = some v := by rw [has, isSome_iff_exists]

theorem has_eq_false_iff : m.has k = false ↔ m.get k = none := by
  rw [has, isSome_eq_false_iff, isNone_iff_eq_none]

private theorem lookup_cons_of_ne {j k : K} (h : j ≠ k) (v : B) (l : List (K × B)) :
    ((k, v) :: l).lookup j = l.lookup j := by rw [lookup_cons, beq_eq_false_iff_ne.mpr h]

private theorem lookup_eq_none_of_notMem {k : K} {l : List (K × B)} (h : k ∉ l.map Prod.fst) :
    l.lookup k = none := by
  rw [lookup_eq_none_iff]
  intro p hp
  exact bne_iff_ne.mpr fun hk => h (mem_map.mpr ⟨p, hp, hk.symm⟩)

private theorem lookup_setEntries (k j : K) (v : B) : (l : List (K × B)) →
      (setEntries k v l).lookup j = if j = k then some v else l.lookup j
  | [] => by
    by_cases hj : j = k
    · simp [setEntries, hj]
    · simp [setEntries, hj, lookup_cons_of_ne hj]
  | (k', v') :: l => by
    have ih := lookup_setEntries k j v l
    by_cases hp : k' = k
    · subst hp
      by_cases hj : j = k'
      · simp [setEntries, hj]
      · simp [setEntries, hj, lookup_cons_of_ne hj]
    · by_cases hj : j = k'
      · simp [setEntries, hp, hj]
      · simp [setEntries, hp, lookup_cons_of_ne hj, ih]

/-- After `m[k] = v` the key `k` holds `v` and every other key is untouched. -/
theorem get_set (k j : K) (v : B) : (m.set k v).get j = if j = k then some v else m.get j :=
  lookup_setEntries k j v m.entries

@[simp] theorem get_set_self (v : B) : (m.set k v).get k = some v := by rw [get_set, if_pos rfl]

theorem get_set_of_ne {k j : K} (v : B) (h : j ≠ k) : (m.set k v).get j = m.get j := by
  rw [get_set, if_neg h]

private theorem lookup_filter_ne (k j : K) : (l : List (K × B)) →
      (l.filter fun p => p.1 ≠ k).lookup j = if j = k then none else l.lookup j
  | [] => by simp
  | (k', v') :: l => by
    have ih := lookup_filter_ne k j l
    by_cases hp : k' = k
    · subst hp
      rw [filter_cons_of_neg (by simp), ih]
      by_cases hj : j = k'
      · simp [hj]
      · simp [hj, lookup_cons_of_ne hj]
    · rw [filter_cons_of_pos (by simpa using hp)]
      by_cases hj : j = k'
      · simp [hp, hj]
      · rw [lookup_cons_of_ne hj, lookup_cons_of_ne hj, ih]

/-- After the removal of `k` the key `k` is absent and every other key is untouched. -/
theorem get_delete (k j : K) : (m.delete k).get j = if j = k then none else m.get j :=
  lookup_filter_ne k j m.entries

@[simp] theorem get_delete_self : (m.delete k).get k = none := by rw [get_delete, if_pos rfl]

theorem get_delete_of_ne {k j : K} (h : j ≠ k) : (m.delete k).get j = m.get j := by
  rw [get_delete, if_neg h]

/-- The entries of a map are the pairs that `get` finds. -/
theorem mem_entries_iff (v : B) : (k, v) ∈ m.entries ↔ m.get k = some v := by
  obtain ⟨l, hl⟩ := m
  induction l with
  | nil => simp [get]
  | cons p l ih =>
    obtain ⟨k', v'⟩ := p
    rw [map_cons, nodup_cons] at hl
    have ih' : (k, v) ∈ l ↔ l.lookup k = some v := ih hl.2
    by_cases hk : k = k'
    · subst hk
      have hnot : (k, v) ∉ l := fun h => hl.1 (mem_map.mpr ⟨(k, v), h, rfl⟩)
      simp [get, hnot, eq_comm]
    · simp [get, lookup_cons_of_ne hk, hk, ih']

/-- After a removal by a condition, a key holds its value if that meets the condition. -/
theorem get_filter (p : K → B → Bool) (m : OrderedMap K B) (k : K) :
    (m.filter p).get k = (m.get k).filter (p k) := by
  refine ext fun v => ?_
  rw [← mem_entries_iff, filter_eq_some_iff, ← mem_entries_iff, filter, mem_filter]

private theorem get_foldl_assign (q : K → Bool) (f : B → G) (k : K) :
    (l : List (K × B)) → (l.map Prod.fst).Nodup → (o : OrderedMap K G) →
      (l.foldl (fun o p => if q p.1 then o.set p.1 (f p.2) else o) o).get k =
        if q k then ((l.lookup k).map f).or (o.get k) else o.get k
  | [], _, o => by simp
  | (k', v') :: l, hl, o => by
    rw [map_cons, nodup_cons] at hl
    rw [foldl_cons, get_foldl_assign q f k l hl.2]
    by_cases hk : k = k'
    · subst hk
      have hnone := lookup_eq_none_of_notMem hl.1
      by_cases hq : q k = true <;> simp [hnone, hq]
    · have hother : (if q k' then o.set k' (f v') else o).get k = o.get k := by
        split_ifs
        · exact get_set_of_ne o (f v') hk
        · rfl
      rw [lookup_cons_of_ne hk, hother]

/-- The values of `m` under the keys that meet `q`, mapped by `f` and assigned one after another
to `o`, take precedence over the values of `o`. -/
theorem get_assignIf (q : K → Bool) (f : B → G) (m : OrderedMap K B) (o : OrderedMap K G) (k : K) :
    (m.entries.foldl (fun o p => if q p.1 then o.set p.1 (f p.2) else o) o).get k =
      if q k then ((m.get k).map f).or (o.get k) else o.get k :=
  get_foldl_assign q f k m.entries m.nodup_keys o

/-- The values of `m`, mapped by `f` and assigned one after another to `o`, take precedence over
the values of `o`. -/
theorem get_assign (f : B → G) (m : OrderedMap K B) (o : OrderedMap K G) (k : K) :
    (m.entries.foldl (fun o p => o.set p.1 (f p.2)) o).get k = ((m.get k).map f).or (o.get k) := by
  simpa using get_assignIf (fun _ => true) f m o k

/-- A loop that files the items of a list under their keys leaves the last item under every
key. -/
theorem get_foldl_set (key : G → K) (f : G → B) (k : K) : (l : List G) → (m : OrderedMap K B) →
      (l.foldl (fun m x => m.set (key x) (f x)) m).get k =
        ((l.filter fun x => key x = k).getLast?.map f).or (m.get k)
  | [], _ => rfl
  | x :: l, m => by
    rw [foldl_cons, get_foldl_set key f k l, get_set]
    by_cases hx : key x = k
    · rw [if_pos hx.symm, filter_cons_of_pos (by simpa using hx), getLast?_cons]
      cases (l.filter fun x => key x = k).getLast? <;> rfl
    · rw [if_neg fun h => hx h.symm, filter_cons_of_neg (by simpa using hx)]

/-- If items with the same key have the same value, this value is found under the key. -/
theorem get_foldl_set_eq_some_iff_of_agree (key : G → K) (f : G → B) {l : List G}
    (h : ∀ x ∈ l, ∀ y ∈ l, key x = key y → f x = f y) {k : K} {v : B} :
    (l.foldl (fun m x => m.set (key x) (f x)) empty).get k = some v ↔
      ∃ x ∈ l, key x = k ∧ f x = v := by
  rw [get_foldl_set, get_empty, or_none, map_eq_some_iff]
  constructor
  · rintro ⟨x, hx, rfl⟩
    have hx' := mem_filter.mp (mem_of_getLast? hx)
    exact ⟨x, hx'.1, by simpa using hx'.2, rfl⟩
  · rintro ⟨x, hx, rfl, rfl⟩
    have hne : l.filter (fun y => key y = key x) ≠ [] :=
      ne_nil_of_mem (mem_filter.mpr ⟨hx, by simp⟩)
    have hlast := mem_filter.mp (getLast_mem hne)
    exact ⟨_, getLast?_eq_some_getLast hne, h _ hlast.1 x hx (by simpa using hlast.2)⟩

/-- If the keys of the items are distinct, every item is found under its key. -/
theorem get_foldl_set_eq_some_iff (key : G → K) (f : G → B) {l : List G} (h : (l.map key).Nodup)
    {k : K} {v : B} :
    (l.foldl (fun m x => m.set (key x) (f x)) empty).get k = some v ↔
      ∃ x ∈ l, key x = k ∧ f x = v :=
  get_foldl_set_eq_some_iff_of_agree key f fun _ hx _ hy hkey =>
    congrArg f (inj_on_of_nodup_map h hx hy hkey)

variable (key : B → K)

/-- The items of a list by their keys, every group in the order of the list. -/
def groupBy (l : List B) : OrderedMap K (List B) :=
  l.foldl (fun groups x => groups.set (key x) ((groups.get (key x)).getD [] ++ [x])) empty

/-- The group of a key holds the items with this key; there is no empty group. -/
theorem get_groupBy (l : List B) (k : K) : (groupBy key l).get k =
      if l.filter (fun x => key x = k) = [] then none else some (l.filter fun x => key x = k) := by
  induction l using List.reverseRecOn with
  | nil => rfl
  | append_singleton l x ih =>
    rw [groupBy, foldl_append, ← groupBy, foldl_cons, foldl_nil, get_set, filter_append]
    by_cases hx : key x = k
    · subst hx
      rw [if_pos rfl, ih, filter_cons_of_pos (by simp), filter_nil,
        if_neg (append_ne_nil_of_right_ne_nil _ (cons_ne_nil _ _))]
      by_cases hnil : l.filter (fun y => key y = key x) = []
      · rw [if_pos hnil, hnil]
        rfl
      · rw [if_neg hnil, getD_some]
    · rw [if_neg fun h => hx h.symm, ih, filter_cons_of_neg (by simpa using hx),
        filter_nil, append_nil]

theorem mem_keys_iff : k ∈ m.keys ↔ ∃ v, m.get k = some v := by
  simp [keys, mem_entries_iff]

private theorem setEntries_of_notMem (k : K) (v : B) :
    (l : List (K × B)) → k ∉ l.map Prod.fst → setEntries k v l = l ++ [(k, v)]
  | [], _ => rfl
  | p :: l, h => by
    rw [map_cons, mem_cons, not_or] at h
    rw [setEntries, if_neg fun hp => h.1 hp.symm, setEntries_of_notMem k v l h.2, cons_append]

/-- An assignment to a new key comes last. -/
theorem entries_set_of_get_eq_none {m : OrderedMap K B} {k : K} (h : m.get k = none) (v : B) :
    (m.set k v).entries = m.entries ++ [(k, v)] := by
  have hk : k ∉ m.entries.map Prod.fst := by
    intro hmem
    obtain ⟨p, hp, rfl⟩ := mem_map.mp hmem
    rw [(m.mem_entries_iff p.1 p.2).mp hp] at h
    cases h
  exact setEntries_of_notMem k v _ hk

theorem values_set_of_get_eq_none {m : OrderedMap K B} {k : K} (h : m.get k = none) (v : B) :
    (m.set k v).values = m.values ++ [v] := by
  rw [values, entries_set_of_get_eq_none h, map_append]
  rfl

omit [DecidableEq K] in
theorem values_filter (p : B → Bool) (m : OrderedMap K B) :
    (m.filter fun _ v => p v).values = m.values.filter p := by
  rw [values, values, filter, filter_map]
  rfl

private theorem entries_foldl_set :
    (l : List (K × B)) → (m : OrderedMap K B) → ((m.entries ++ l).map Prod.fst).Nodup →
      (l.foldl (fun m p => m.set p.1 p.2) m).entries = m.entries ++ l
  | [], m, _ => (append_nil _).symm
  | (k, v) :: l, m, h => by
    have hk : k ∉ m.entries.map Prod.fst := by
      rw [map_append, map_cons, nodup_append] at h
      exact fun hmem => h.2.2 k hmem k mem_cons_self rfl
    have hset : (m.set k v).entries = m.entries ++ [(k, v)] := setEntries_of_notMem k v _ hk
    rw [foldl_cons, entries_foldl_set l (m.set k v) (by simpa [hset] using h), hset,
      append_assoc, singleton_append]

/-- The pairs of a map, assigned one after another to the empty map, give the map again. -/
theorem foldl_set_entries : m.entries.foldl (fun m p => m.set p.1 p.2) empty = m := by
  have h := entries_foldl_set m.entries empty (by simpa [empty] using m.nodup_keys)
  rw [show (empty : OrderedMap K B).entries = [] from rfl, nil_append] at h
  cases hm : m.entries.foldl (fun m p => m.set p.1 p.2) empty with
  | mk l =>
    rw [hm] at h
    obtain rfl : l = m.entries := h
    rfl

/-- A map whose values know their key is rebuilt from its values. -/
theorem foldl_set_values (m : OrderedMap K B) (hkey : ∀ k v, m.get k = some v → key v = k) :
    m.values.foldl (fun m v => m.set (key v) v) empty = m := by
  rw [values, foldl_map]
  refine Eq.trans ?_ m.foldl_set_entries
  refine foldl_ext _ _ _ fun acc p hp => ?_
  rw [hkey p.1 p.2 ((m.mem_entries_iff p.1 p.2).mp hp)]

/-- In a map whose values know their key, different values have different keys. -/
theorem nodup_map_values (m : OrderedMap K B)
    (hkey : ∀ k v, m.get k = some v → key v = k) : (m.values.map key).Nodup := by
  have hkeys : m.values.map key = m.keys := by
    rw [values, keys, map_map]
    exact map_congr_left fun p hp => hkey p.1 p.2 ((m.mem_entries_iff p.1 p.2).mp hp)
  rw [hkeys]
  exact m.nodup_keys

theorem mem_values_iff (v : B) : v ∈ m.values ↔ ∃ k, m.get k = some v := by
  simp [values, mem_entries_iff]

/-- In a map of lists whose items know their key, the items with a key are the list under it. -/
theorem filter_flatten_values (m : OrderedMap K (List B)) (k : K)
    (hkey : ∀ k l, m.get k = some l → ∀ v ∈ l, key v = k) :
    m.values.flatten.filter (fun v => key v = k) = (m.get k).getD [] := by
  have hmem : ∀ p ∈ m.entries, ∀ v ∈ p.2, key v = p.1 := fun p hp =>
    hkey p.1 p.2 ((m.mem_entries_iff p.1 p.2).mp hp)
  obtain ⟨l, hl⟩ := m
  rw [values, get]
  clear hkey
  induction l with
  | nil => rfl
  | cons p l ih =>
    obtain ⟨k', items⟩ := p
    rw [map_cons, nodup_cons] at hl
    have ih' := ih hl.2 fun p hp => hmem p (mem_cons_of_mem _ hp)
    have hitems : ∀ v ∈ items, key v = k' := hmem _ mem_cons_self
    rw [map_cons, flatten_cons, filter_append, ih']
    by_cases hk : k = k'
    · subst hk
      rw [lookup_eq_none_of_notMem hl.1, filter_eq_self.mpr (by simpa using hitems)]
      simp
    · rw [lookup_cons_of_ne hk, filter_eq_nil_iff.mpr fun v hv => by
        simpa [hitems v hv] using fun h : k' = k => hk h.symm]
      simp

/-- The values are the one under a key and those that are left without that key. -/
theorem values_perm : m.values.Perm ((m.get k).toList ++ (m.delete k).values) := by
  obtain ⟨l, hl⟩ := m
  rw [values, get, values, delete]
  dsimp only
  induction l with
  | nil => exact .nil
  | cons p l ih =>
    obtain ⟨k', v'⟩ := p
    rw [map_cons, nodup_cons] at hl
    by_cases hk : k = k'
    · subst hk
      have hnone := lookup_eq_none_of_notMem hl.1
      have ih' := ih hl.2
      rw [hnone] at ih'
      rw [filter_cons_of_neg (by simp)]
      simpa using ih'
    · rw [filter_cons_of_pos (by simpa using fun h : k' = k => hk h.symm),
        lookup_cons_of_ne hk, map_cons, map_cons]
      exact ((ih hl.2).cons v').trans perm_middle.symm

/-- After an assignment to a key, the values are the new one and those of the other keys. -/
theorem values_set_perm (v : B) : (m.set k v).values.Perm (v :: (m.delete k).values) := by
  have h := (m.set k v).values_perm k
  have hdelete : ((m.set k v).delete k).values = (m.delete k).values := by
    obtain ⟨l, hl⟩ := m
    rw [values, values, delete, delete, set]
    dsimp only
    clear h hl
    induction l with
    | nil => simp [setEntries]
    | cons p l ih =>
      by_cases hp : p.1 = k
      · simp [setEntries, hp]
      · simp only [setEntries, hp, ↓reduceIte, filter_cons, ne_eq, not_false_eq_true,
          decide_true, map_cons]
        exact congrArg _ ih
  rwa [get_set_self, toList_some, hdelete, singleton_append] at h

/-- The items of a map of lists are those under a key and those that are left without that key. -/
theorem flatten_values_perm (m : OrderedMap K (List B)) (k : K) :
    m.values.flatten.Perm ((m.get k).getD [] ++ (m.delete k).values.flatten) := by
  have h := (m.values_perm k).flatten
  rw [flatten_append] at h
  cases hk : m.get k <;> simpa [hk] using h

theorem flatten_values_set_perm (m : OrderedMap K (List B)) (k : K) (l : List B) :
    (m.set k l).values.flatten.Perm (l ++ (m.delete k).values.flatten) :=
  (m.values_set_perm k l).flatten

/-- The groups hold the items of the list. -/
theorem flatten_groupBy_perm (l : List B) : (groupBy key l).values.flatten.Perm l := by
  induction l using List.reverseRecOn with
  | nil => exact .nil
  | append_singleton l x ih =>
    rw [groupBy, foldl_append, ← groupBy, foldl_cons, foldl_nil]
    refine (flatten_values_set_perm ..).trans ?_
    rw [append_assoc]
    refine (perm_append_comm.append_left _).trans ?_
    rw [← append_assoc]
    exact ((flatten_values_perm _ _).symm.trans ih).append_right [x]

/-- Every item of a map of lists is in the list of its key. -/
def Filed (m : OrderedMap K (List B)) : Prop := ∀ k l, m.get k = some l → ∀ v ∈ l, key v = k

theorem filed_empty : Filed key empty := fun _ _ h => nomatch h

theorem Filed.set {key : B → K} {m : OrderedMap K (List B)} (h : Filed key m) {k : K} {l : List B}
    (hl : ∀ v ∈ l, key v = k) : Filed key (m.set k l) := by
  intro j l' hj
  rw [get_set] at hj
  split_ifs at hj with hjk
  · cases hj
    exact hjk ▸ hl
  · exact h j l' hj

theorem Filed.push {key : B → K} {m : OrderedMap K (List B)} (h : Filed key m) {k : K} {v : B}
    (hv : key v = k) : Filed key (m.set k ((m.get k).getD [] ++ [v])) := by
  refine h.set fun other hother => ?_
  rcases mem_append.mp hother with hother | hother
  · cases hk : m.get k with
    | none => simp [hk] at hother
    | some l => exact h k l hk other (by simpa [hk] using hother)
  · rw [mem_singleton.mp hother, hv]

omit [DecidableEq K] in
theorem values_mapValues (f : B → G) (m : OrderedMap K B) :
    (m.mapValues fun _ v => f v).values = m.values.map f := by
  rw [values, values, mapValues, map_map, map_map]
  rfl

/-- In `{ ...a, ...b }` the entries of `b` take precedence over those of `a`. -/
theorem get_spread (a b : OrderedMap K B) (k : K) :
    (a.spread b).get k = (b.get k).or (a.get k) := by simpa [spread] using get_assign id b a k

theorem get_mapValues (f : K → B → G) (m : OrderedMap K B) (k : K) :
    (m.mapValues f).get k = (m.get k).map (f k) := by
  obtain ⟨l, hl⟩ := m
  induction l with
  | nil => rfl
  | cons p l ih =>
    obtain ⟨k', v'⟩ := p
    rw [map_cons, nodup_cons] at hl
    have ih' : (l.map fun p => (p.1, f p.1 p.2)).lookup k = (l.lookup k).map (f k) := ih hl.2
    by_cases hk : k = k'
    · subst hk
      simp [get, mapValues]
    · simp [get, mapValues, lookup_cons_of_ne hk, ih']

/-- In a map whose values know their key, the values with a key are the one under it. -/
theorem filter_values (m : OrderedMap K B) (k : K) (hkey : ∀ k v, m.get k = some v → key v = k) :
    m.values.filter (fun v => key v = k) = (m.get k).toList := by
  have hsingle := filter_flatten_values key (m.mapValues fun _ v => [v]) k fun k l hl v hv => by
    rw [get_mapValues, map_eq_some_iff] at hl
    obtain ⟨v', hv', rfl⟩ := hl
    exact hkey k v (mem_singleton.mp hv ▸ hv')
  rw [values_mapValues, get_mapValues, ← flatMap_def, flatMap_singleton'] at hsingle
  rw [hsingle]
  cases m.get k <;> rfl

end OrderedMap

end DistributedCore
