import Mathlib.Order.Lattice

/-!
# Last-writer-wins registers

A register holds a payload together with the stamp of the write that put it there. A write
whose stamp is below that stamp is ignored, any other write replaces the stamp and computes the
new payload from the one that is present. Writes with equal stamps are both applied, in the
order in which they arrive.

However the writes arrive, the register ends with the greatest stamp, and from the moment the
first write with that stamp arrives only writes with that stamp are applied. So the final
payload is the effect of these writes, in their order, on whatever payload the other writes had
left before (`foldl_lwwWrite_eq`).

## Main results

* `foldl_lwwWrite_of_top`, `foldl_lwwWrite_eq`: the register after a list of writes.
* `foldl_lwwWrite_invariant`: a property of payloads that every effect establishes.
-/

namespace DistributedCore

open List Prod

variable {T B : Type*}

/-- A write: its stamp and the payload it leaves, given the payload that is present. -/
structure StampedWrite (T B : Type*) where
  stamp : T
  effect : Option B → B

/-- The payload after the effects of the writes `ws`, one after another. -/
def applyEffects (b : Option B) (ws : List (StampedWrite T B)) : Option B :=
  ws.foldl (fun b w => some (w.effect b)) b

variable [LinearOrder T]

/-- The register after the write `w`. -/
def lwwWrite (cur : Option (T × B)) (w : StampedWrite T B) : Option (T × B) :=
  match cur with
  | none => some (w.stamp, w.effect none)
  | some (s, b) => if w.stamp < s then some (s, b) else some (w.stamp, w.effect (some b))

variable {cur : Option (T × B)} {w w : StampedWrite T B} {P : T × B → Prop} {s : T} {b : B}

/-- A write that is not below the stamp of the register is applied. -/
theorem lwwWrite_of_le (h : ∀ c ∈ cur, c.1 ≤ w.stamp) :
    lwwWrite cur w = some (w.stamp, w.effect (cur.map snd)) := by
  cases cur with
  | none => rfl
  | some c =>
    have hle : ¬ w.stamp < c.1 := not_lt.mpr (h c rfl)
    simp [lwwWrite, hle]

theorem lwwWrite_some_of_le (h : s ≤ w.stamp) :
    lwwWrite (some (s, b)) w = some (w.stamp, w.effect (some b)) := by simp [lwwWrite, not_lt.mpr h]

/-- A write below the stamp of the register is ignored. -/
theorem lwwWrite_of_lt (h : w.stamp < s) : lwwWrite (some (s, b)) w = some (s, b) := by
  simp [lwwWrite, h]

/-- A register with the greatest stamp changes only by the writes with that stamp. -/
theorem foldl_lwwWrite_of_top {m : T} :
    (ws : List (StampedWrite T B)) → (b : B) → (∀ w ∈ ws, w.stamp ≤ m) →
      ws.foldl lwwWrite (some (m, b)) =
        (applyEffects (some b) (ws.filter fun w => w.stamp = m)).map (m, ·)
  | [], _, _ => rfl
  | w :: ws, b, h => by
    have hws : ∀ w ∈ ws, w.stamp ≤ m := fun v hv => h v (mem_cons_of_mem _ hv)
    rcases (h w mem_cons_self).lt_or_eq with hlt | rfl
    · rw [foldl_cons, lwwWrite_of_lt hlt, foldl_lwwWrite_of_top ws b hws,
        filter_cons_of_neg (by simpa using hlt.ne)]
    · rw [foldl_cons, lwwWrite_of_le (by simp), foldl_lwwWrite_of_top ws _ hws,
        filter_cons_of_pos (by simp)]
      rfl

/-- If the first write has the greatest stamp, the register changes only by the writes with that
stamp. -/
theorem foldl_lwwWrite_cons_top {ws : List (StampedWrite T B)} (hcur : ∀ c ∈ cur, c.1 ≤ w.stamp)
    (hws : ∀ v ∈ ws, v.stamp ≤ w.stamp) :
    (w :: ws).foldl lwwWrite cur =
      (applyEffects (cur.map snd) ((w :: ws).filter fun v => v.stamp = w.stamp)).map
        (w.stamp, ·) := by
  rw [foldl_cons, lwwWrite_of_le hcur, foldl_lwwWrite_of_top ws _ hws, filter_cons_of_pos (by simp)]
  rfl

theorem lwwWrite_invariant (hw : P (w.stamp, w.effect (cur.map snd)))
    (hcur : ∀ c ∈ cur, P c) : ∀ c ∈ lwwWrite cur w, P c := by
  by_cases hle : ∀ c ∈ cur, c.1 ≤ w.stamp
  · rw [lwwWrite_of_le hle]
    rintro _ ⟨⟩
    exact hw
  · push Not at hle
    obtain ⟨c, hc, hlt⟩ := hle
    obtain rfl : cur = some c := hc
    rw [lwwWrite_of_lt hlt]
    exact hcur

/-- A property of registers that every write establishes, provided the register that is present
has it, holds after the writes. -/
theorem foldl_lwwWrite_invariant : (ws : List (StampedWrite T B)) → (cur : Option (T × B)) →
      (∀ w ∈ ws, ∀ cur : Option (T × B), (∀ c ∈ cur, P c) →
        P (w.stamp, w.effect (cur.map snd))) → (∀ c ∈ cur, P c) →
      ∀ c ∈ ws.foldl lwwWrite cur, P c
  | [], _, _, hcur => hcur
  | w :: ws, cur, hws, hcur =>
      foldl_lwwWrite_invariant ws _ (fun v hv => hws v (mem_cons_of_mem _ hv))
        (lwwWrite_invariant (hws w mem_cons_self cur hcur) hcur)
theorem foldl_lwwWrite_stamp_le {m : T} (ws : List (StampedWrite T B)) (cur : Option (T × B))
    (hws : ∀ w ∈ ws, w.stamp ≤ m) : (∀ c ∈ cur, c.1 ≤ m) → ∀ c ∈ ws.foldl lwwWrite cur, c.1 ≤ m :=
  foldl_lwwWrite_invariant ws cur fun w hw _ _ => hws w hw

omit [LinearOrder T] in
/-- The payload after several effects is the effect of one of them. -/
theorem exists_applyEffects_eq {b : Option B} : {ws : List (StampedWrite T B)} → ws ≠ [] →
      ∃ w ∈ ws, ∃ b', applyEffects b ws = some (w.effect b')
  | [], h => absurd rfl h
  | [w], _ => ⟨w, mem_cons_self, b, rfl⟩
  | w :: v :: ws, _ => by
    obtain ⟨w', hw', b', heq⟩ := exists_applyEffects_eq (cons_ne_nil v ws)
    exact ⟨w', mem_cons_of_mem _ hw', b', heq⟩

/-- **The register after a list of writes.** If `m` is the greatest stamp of the writes, the
register ends with the stamp `m`, and its payload is the effect of the writes with that stamp
on a payload that the writes before the first of them have left. -/
theorem foldl_lwwWrite_eq {m : T} :
    (ws : List (StampedWrite T B)) → (cur : Option (T × B)) → (∀ w ∈ ws, w.stamp ≤ m) →
      (∃ w ∈ ws, w.stamp = m) → (∀ c ∈ cur, c.1 < m) →
      ∃ l, l <+: ws ∧ ws.foldl lwwWrite cur = (applyEffects ((l.foldl lwwWrite cur).map snd)
          (ws.filter fun w => w.stamp = m)).map (m, ·)
  | [], _, _, hex, _ => by
    obtain ⟨w, hw, -⟩ := hex
    exact absurd hw not_mem_nil
  | w :: ws, cur, h, hex, hcur => by
    have hws : ∀ w ∈ ws, w.stamp ≤ m := fun v hv => h v (mem_cons_of_mem _ hv)
    rcases (h w mem_cons_self).lt_or_eq with hlt | rfl
    · -- `w` is below: the first write with the stamp `m` is still to come
      have hex' : ∃ w ∈ ws, w.stamp = m := by
        obtain ⟨v, hv, hvm⟩ := hex
        rcases mem_cons.mp hv with rfl | hv
        · exact absurd hvm hlt.ne
        · exact ⟨v, hv, hvm⟩
      have hcur' : ∀ c ∈ lwwWrite cur w, c.1 < m := lwwWrite_invariant hlt hcur
      obtain ⟨l, hl, heq⟩ := foldl_lwwWrite_eq ws (lwwWrite cur w) hws hex' hcur'
      refine ⟨w :: l, cons_prefix_cons.mpr ⟨rfl, hl⟩, ?_⟩
      rw [foldl_cons, heq, foldl_cons, filter_cons_of_neg (by simpa using hlt.ne)]
    · refine ⟨[], nil_prefix, ?_⟩
      rw [foldl_lwwWrite_cons_top (fun c hc => (hcur c hc).le) hws]
      rfl

end DistributedCore
