import DistributedCore.Entity.CrdtRegistry
import DistributedCore.Library.Runs
import Mathlib.Data.Set.Finite.Lemmas

/-!
# Convergence of the CRDT entity registry

Nodes make local calls, whose updates they log, and may receive updates of each other. Two
fresh replicas then receive the same set of logged updates, each in some order and any number
of times. They agree on stamps whatever the order, but not on records: an `UPDATE` carries only
the changed metadata and is merged into what happens to be present, a `DELETE` carries no author
and a `TRANSFER` carries the author of somebody else, so that different updates can have the
same stamp. A `CREATE` and an `UPDATE` of one node that arrive in the other order already leave
different metadata (`not_converges_of_late_create`).
-/

namespace DistributedCore.Entity

open CrdtEntityRegistry EntityUpdate List
open Prod hiding map map_map

variable {N V : Type} [LinearOrder N] [OrderBot N]

/-! ### Nodes and replicas -/

/-- The registries, and all updates that were ever logged. -/
structure CrdtNet (N V : Type) where
  node : N → CrdtEntityRegistry N V
  logged : List (EntityUpdate N V)

/-- The calls and the deliveries; a logged update may arrive any number of times. -/
inductive CrdtNetEvent (N V : Type)
  | call (node : N) (op : LocalOp N V) (now : ℕ)
  /-- A node receives the logged update number `index`. -/
  | deliver (node : N) (index : ℕ) (now : ℕ)

namespace CrdtNet

omit [LinearOrder N] [OrderBot N] in
def initial : CrdtNet N V := ⟨fun x => (create x).start, []⟩

def step (s : CrdtNet N V) : CrdtNetEvent N V → Option (CrdtNet N V)
  | .call x op now =>
    match (s.node x).perform op now with
    | .ok (r, _) => some
        { node := Function.update s.node x r
          logged := s.logged ++ r.updateLog.drop (s.node x).updateLog.length }
    | .error _ => some s
  | .deliver x i now =>
    (s.logged[i]?).map fun u =>
      { s with node := Function.update s.node x ((s.node x).applyRemoteUpdate u now) }

end CrdtNet

def receive (r : CrdtEntityRegistry N V) (ds : List (EntityUpdate N V × ℕ)) :
    CrdtEntityRegistry N V :=
  ds.foldl (fun r d => r.applyRemoteUpdate d.1 d.2) r

omit [LinearOrder N] [OrderBot N] in
/-- What a caller sees of the entity. -/
def liveView (r : CrdtEntityRegistry N V) (e : EntityId) : Option (EntityView N V) :=
  (r.entries.get e).map fun c => c.record.view

variable (S : List (EntityUpdate N V))

/-- Any two fresh replicas that receive exactly the updates of `S`, in any order and with any
duplication, have the same live entities with the same owner, version and metadata. -/
def Converges : Prop :=
  ∀ (x y : N) (ds ds' : List (EntityUpdate N V × ℕ)),
    (∀ u, u ∈ ds.map Prod.fst ↔ u ∈ S) → (∀ u, u ∈ ds'.map Prod.fst ↔ u ∈ S) →
    ∀ e, liveView (receive (create x).start ds) e = liveView (receive (create y).start ds') e

/-! ### The condition -/

/-- The update has the greatest stamp of those of the entity. -/
def IsLatest (e : EntityId) (t : EntityUpdate N V) : Prop :=
  t ∈ S ∧ t.entityId = e ∧ ∀ u ∈ S, u.entityId = e → u.stamp ≤ t.stamp

omit [LinearOrder N] [OrderBot N] in
/-- The update writes the metadata key. -/
def EntityUpdate.Sets (u : EntityUpdate N V) (k : String) : Prop :=
  u.operation ≠ .update ∨ (u.patch k).isSome

/-- The latest updates of `e` are all deletions; or they are all writes, agree on every key that
several of them fix, and leave open only keys that no write of `e` carries. -/
def Unambiguous (e : EntityId) : Prop :=
  (∀ t, IsLatest S e t → t.operation = .delete) ∨ (∀ t, IsLatest S e t → t.operation ≠ .delete) ∧
      ∀ k, (∀ t t', IsLatest S e t → IsLatest S e t' → t.Sets k → t'.Sets k →
          t.patch k = t'.patch k) ∧
        ((∃ t, IsLatest S e t ∧ t.Sets k) ∨
          ∀ w ∈ S, w.entityId = e → w.operation ≠ .delete → w.patch k = none)

/-! ### A replica is a family of registers -/

def writesOf (us : List (EntityUpdate N V)) (e : EntityId) :
    List (StampedWrite (Stamp N) (Option (EntityView N V))) :=
  (us.filter fun u => u.entityId = e).map toWrite

variable {w : StampedWrite (Stamp N) (Option (EntityView N V))}

theorem mem_writesOf {us : List (EntityUpdate N V)} {e : EntityId} :
    w ∈ writesOf us e ↔ ∃ u ∈ us, u.entityId = e ∧ u.toWrite = w := by simp [writesOf, and_assoc]

def finalView (us : List (EntityUpdate N V)) (e : EntityId) : Option (EntityView N V) :=
  (((writesOf us e).foldl lwwWrite none).map Prod.snd).join

theorem slot_receive (e : EntityId) :
    (ds : List (EntityUpdate N V × ℕ)) → (r : CrdtEntityRegistry N V) → r.Exclusive →
      (receive r ds).slot e = (writesOf (ds.map fst) e).foldl lwwWrite (r.slot e)
  | [], _, _ => rfl
  | (u, now) :: ds, r, hr => by
    have ih := slot_receive e ds (r.applyRemoteUpdate u now) hr.applyRemoteUpdate
    rw [receive, foldl_cons, ← receive, ih, map_cons, writesOf, writesOf]
    by_cases he : u.entityId = e
    · subst he
      rw [filter_cons_of_pos (by simp), map_cons, foldl_cons, slot_applyRemoteUpdate hr]
    · rw [filter_cons_of_neg (by simpa using he), slot_applyRemoteUpdate_of_ne fun h => he h.symm]

/-- **A replica shows what the registers hold.** -/
theorem liveView_receive (x : N) (ds : List (EntityUpdate N V × ℕ)) (e : EntityId) :
    liveView (receive (create x).start ds) e = finalView (ds.map fst) e := by
  have hfresh : ((create x).start : CrdtEntityRegistry N V).Exclusive := fun _ => .inl rfl
  rw [liveView, ← join_slot, slot_receive e ds _ hfresh]
  rfl

theorem converges_iff_finalView :
    Converges S ↔ ∀ us us' : List (EntityUpdate N V), (∀ u, u ∈ us ↔ u ∈ S) →
      (∀ u, u ∈ us' ↔ u ∈ S) → ∀ e, finalView us e = finalView us' e := by
  constructor
  · intro h us us' _ _ e
    have hfst : ∀ us : List (EntityUpdate N V), (us.map fun u => (u, 0)).map fst = us :=
      fun us => by rw [map_map]; exact map_id us
    have := h ⊥ ⊥ (us.map fun u => (u, 0)) (us'.map fun u => (u, 0))
      (by rwa [hfst]) (by rwa [hfst]) e
    rwa [liveView_receive, liveView_receive, hfst, hfst] at this
  · intro h x y ds ds' hds hds' e
    rw [liveView_receive, liveView_receive]
    exact h _ _ hds hds' e

/-! ### The metadata the latest updates leave -/

section Effects

variable {t u : EntityUpdate N V} {k : String}

omit [LinearOrder N] [OrderBot N] in
def metadataAt (b : Option (Option (EntityView N V))) (k : String) : Option V :=
  b.join.bind fun v => v.metadata k

theorem effect_eq_none (hu : u.operation = .delete) (b : Option (Option (EntityView N V))) :
    u.effect b = none := by simp [effect, hu]

theorem effect_eq_some (hu : u.operation ≠ .delete) (howner : u.ownerNodeId.isSome)
    (b : Option (Option (EntityView N V))) :
    ∃ v, u.effect b = some v ∧ v.ownerNodeId = some (ofLex u.stamp).2 ∧
      v.version = (ofLex u.stamp).1 := by
  obtain ⟨x, hx⟩ := Option.isSome_iff_exists.mp howner
  refine ⟨_, if_neg hu, ?_, rfl⟩
  simp [stamp, hx]

theorem metadataAt_effect_of_sets (hu : u.operation ≠ .delete) (hk : u.Sets k)
    (b : Option (Option (EntityView N V))) :
    metadataAt (some (u.effect b)) k = u.patch k := by
  rcases hk with hk | hk
  · simp [metadataAt, effect, hu, hk]
  · obtain ⟨v, hv⟩ := Option.isSome_iff_exists.mp hk
    simp [metadataAt, effect, hu, hv]

theorem metadataAt_effect_of_not_sets (hk : ¬ u.Sets k) (b : Option (Option (EntityView N V))) :
    metadataAt (some (u.effect b)) k = metadataAt b k := by
  simp only [Sets, not_or, not_not, Option.not_isSome_iff_eq_none] at hk
  simp [metadataAt, effect, hk.1, hk.2]

theorem metadataAt_effect_none (hu : u.operation ≠ .delete) :
    metadataAt (some (u.effect none)) k = u.patch k := by
  by_cases hk : u.Sets k
  · exact metadataAt_effect_of_sets hu hk none
  · have hpatch : u.patch k = none := Option.not_isSome_iff_eq_none.mp fun h => hk (.inr h)
    rw [metadataAt_effect_of_not_sets hk, hpatch]
    rfl

theorem metadataAt_applyEffects_of_not_sets :
    (ts : List (EntityUpdate N V)) → (b : Option (Option (EntityView N V))) →
      (∀ t ∈ ts, ¬ t.Sets k) →
      metadataAt (applyEffects b (ts.map toWrite)) k = metadataAt b k
  | [], _, _ => rfl
  | t :: ts, b, h => by
    have ih := metadataAt_applyEffects_of_not_sets ts (some (t.effect b))
      fun t ht => h t (mem_cons_of_mem _ ht)
    rw [metadataAt_effect_of_not_sets (h t mem_cons_self)] at ih
    exact ih

theorem metadataAt_applyEffects_of_sets {v : Option V} :
    (ts : List (EntityUpdate N V)) → (b : Option (Option (EntityView N V))) →
      (∀ t ∈ ts, t.operation ≠ .delete) → (∀ t ∈ ts, t.Sets k → t.patch k = v) →
      (∃ t ∈ ts, t.Sets k) →
      metadataAt (applyEffects b (ts.map toWrite)) k = v
  | [], _, _, _, hex => by
    obtain ⟨t, ht, -⟩ := hex
    exact absurd ht not_mem_nil
  | t :: ts, b, hwrite, hval, hex => by
    by_cases hrest : ∃ t ∈ ts, t.Sets k
    · exact metadataAt_applyEffects_of_sets ts (some (t.effect b))
        (fun t ht => hwrite t (mem_cons_of_mem _ ht))
        (fun t ht => hval t (mem_cons_of_mem _ ht)) hrest
    · -- `t` is the last write that fixes the key
      push Not at hrest
      have ht : t.Sets k := by
        obtain ⟨t', ht', hk⟩ := hex
        rcases mem_cons.mp ht' with rfl | ht'
        · exact hk
        · exact absurd hk (hrest t' ht')
      have hlast := metadataAt_applyEffects_of_not_sets ts (some (t.effect b)) hrest
      rw [metadataAt_effect_of_sets (hwrite t mem_cons_self) ht, hval t mem_cons_self ht] at hlast
      exact hlast

end Effects

/-! ### The registers after a set of updates -/

section Latest

variable {S us : List (EntityUpdate N V)} {e : EntityId} {t : EntityUpdate N V}

theorem IsLatest.congr (h : ∀ u, u ∈ us ↔ u ∈ S) : IsLatest us e t ↔ IsLatest S e t := by
  simp [IsLatest, h]

variable {u : EntityUpdate N V} {k : String}

theorem exists_isLatest (hu : u ∈ S) (he : u.entityId = e) : ∃ t, IsLatest S e t := by
  have hfinite : {u | u ∈ S ∧ u.entityId = e}.Finite := S.finite_toSet.subset fun u hu => hu.1
  obtain ⟨t, ht, hmax⟩ := Set.exists_max_image _ stamp hfinite ⟨u, hu, he⟩
  exact ⟨t, ht.1, ht.2, fun v hv hve => hmax v ⟨hv, hve⟩⟩

theorem IsLatest.stamp_le (ht : IsLatest us e t) (hw : w ∈ writesOf us e) :
    w.stamp ≤ t.toWrite.stamp := by
  obtain ⟨u, hu, he, rfl⟩ := mem_writesOf.mp hw
  exact ht.2.2 u hu he

theorem writesOf_append (us us' : List (EntityUpdate N V)) (e : EntityId) :
    writesOf (us ++ us') e = writesOf us e ++ writesOf us' e := by
  rw [writesOf, filter_append, map_append, writesOf, writesOf]

theorem writesOf_cons (he : t.entityId = e) (us : List (EntityUpdate N V)) :
    writesOf (t :: us) e = t.toWrite :: writesOf us e := by
  rw [writesOf, filter_cons_of_pos (by simpa using he), map_cons, writesOf]

def latestOf (us : List (EntityUpdate N V)) (e : EntityId) (t : EntityUpdate N V) :
    List (EntityUpdate N V) :=
  (us.filter fun u => u.entityId = e).filter fun u => u.stamp = t.stamp

theorem filter_writesOf (us : List (EntityUpdate N V)) (e : EntityId) (t : EntityUpdate N V) :
    (writesOf us e).filter (fun w => w.stamp = t.toWrite.stamp) =
      (latestOf us e t).map toWrite := by
  rw [writesOf, filter_map, latestOf]
  rfl

section

variable (ht : IsLatest us e t)

include ht

theorem mem_latestOf : u ∈ latestOf us e t ↔ IsLatest us e u := by
  rw [latestOf, mem_filter, mem_filter]
  simp only [decide_eq_true_eq]
  constructor
  · rintro ⟨⟨hu, he⟩, hs⟩
    exact ⟨hu, he, fun v hv hve => hs ▸ ht.2.2 v hv hve⟩
  · rintro ⟨hu, he, hmax⟩
    exact ⟨⟨hu, he⟩, le_antisymm (ht.2.2 u hu he) (hmax t ht.1 ht.2.1)⟩

theorem finalView_concat : ∃ b, finalView (us ++ [t]) e = t.effect b := by
  have hcur := foldl_lwwWrite_stamp_le (writesOf us e) none (fun w hw => ht.stamp_le hw)
    (fun c hc => nomatch hc)
  refine ⟨((writesOf us e).foldl lwwWrite none).map snd, ?_⟩
  rw [finalView, writesOf_append, foldl_append, writesOf_cons ht.2.1, foldl_cons,
    lwwWrite_of_le hcur]
  rfl

/-- If a latest update arrives before all others but those of `pre`, the latest updates act on
what those of `pre` have left. -/
theorem finalView_latest_first (pre : List (EntityUpdate N V)) (hpre : ∀ u ∈ pre, u ∈ us) :
    finalView (pre ++ t :: us) e = (applyEffects (((writesOf pre e).foldl lwwWrite none).map snd)
        ((latestOf (t :: us) e t).map toWrite)).join := by
  have hcur := foldl_lwwWrite_stamp_le (writesOf pre e) none (fun w hw => by
      obtain ⟨u, hu, he, rfl⟩ := mem_writesOf.mp hw
      exact ht.2.2 u (hpre u hu) he) (fun c hc => nomatch hc)
  rw [finalView, writesOf_append, foldl_append, ← filter_writesOf, writesOf_cons ht.2.1,
    foldl_lwwWrite_cons_top hcur fun w hw => ht.stamp_le hw, Option.map_map]
  simp

theorem exists_finalView_eq :
    ∃ l, l <+: writesOf us e ∧ finalView us e = (applyEffects ((l.foldl lwwWrite none).map snd)
        ((latestOf us e t).map toWrite)).join := by
  obtain ⟨l, hl, heq⟩ := foldl_lwwWrite_eq (writesOf us e) none (fun w hw => ht.stamp_le hw)
    ⟨t.toWrite, mem_writesOf.mpr ⟨t, ht.1, ht.2.1, rfl⟩, rfl⟩ (fun c hc => nomatch hc)
  refine ⟨l, hl, ?_⟩
  rw [finalView, heq, Option.map_map, filter_writesOf]
  simp

theorem exists_finalView_eq_effect :
    ∃ t', IsLatest us e t' ∧ ∃ b, finalView us e = t'.effect b := by
  obtain ⟨l, -, heq⟩ := exists_finalView_eq ht
  have hne : (latestOf us e t).map toWrite ≠ [] := by
    rw [Ne, map_eq_nil_iff]
    exact ne_nil_of_mem ((mem_latestOf ht).mpr ht)
  obtain ⟨w, hw, b, hb⟩ := exists_applyEffects_eq hne
  obtain ⟨t', ht', rfl⟩ := mem_map.mp hw
  refine ⟨t', (mem_latestOf ht).mp ht', b, ?_⟩
  rw [heq, hb]
  rfl

end

theorem finalView_metadata_of_absent
    (hnone : ∀ w ∈ us, w.entityId = e → w.operation ≠ .delete → w.patch k = none) :
    ((finalView us e).bind fun v => v.metadata k) = none := by
  have hinv := foldl_lwwWrite_invariant (P := fun c => (c.2.bind fun v => v.metadata k) = none)
    (writesOf us e) none (fun w hw cur hcur => ?_) (fun c hc => nomatch hc)
  · rw [finalView]
    cases hc : (writesOf us e).foldl lwwWrite none with
    | none => rfl
    | some c => exact hinv c hc
  · obtain ⟨u, hu, he, rfl⟩ := mem_writesOf.mp hw
    change (u.effect (cur.map snd)).bind _ = none
    by_cases hdel : u.operation = .delete
    · rw [effect_eq_none hdel]
      rfl
    · have hpatch := hnone u hu he hdel
      change metadataAt (some (u.effect _)) k = none
      by_cases hk : u.Sets k
      · rw [metadataAt_effect_of_sets hdel hk, hpatch]
      · rw [metadataAt_effect_of_not_sets hk]
        cases cur with
        | none => rfl
        | some c => exact hcur c rfl

end Latest

/-! ### Agreement of replicas -/

section Agreement

variable {S : List (EntityUpdate N V)} {e : EntityId}

/-- All updates but deletions name an owner. -/
def Owned (S : List (EntityUpdate N V)) : Prop :=
  ∀ u ∈ S, u.operation ≠ .delete → u.ownerNodeId.isSome

theorem exists_finalView_of_unambiguous (hown : Owned S) (hS : Unambiguous S e) :
    ∃ view, ∀ us : List (EntityUpdate N V), (∀ u, u ∈ us ↔ u ∈ S) → finalView us e = view := by
  by_cases hex : ∃ u ∈ S, u.entityId = e
  swap
  · -- no update concerns `e`
    push Not at hex
    refine ⟨none, fun us hus => ?_⟩
    have : writesOf us e = [] := by
      rw [writesOf, map_eq_nil_iff, filter_eq_nil_iff]
      exact fun u hu => by simpa using hex u ((hus u).mp hu)
    rw [finalView, this]
    rfl
  obtain ⟨u, hu, he⟩ := hex
  obtain ⟨t, ht⟩ := exists_isLatest hu he
  have hlatest : ∀ {us : List (EntityUpdate N V)} {t'}, (∀ u, u ∈ us ↔ u ∈ S) →
      (IsLatest us e t' ↔ IsLatest S e t') := fun h => IsLatest.congr h
  rcases hS with hdel | ⟨hwrites, hkeys⟩
  · -- the latest updates are deletions
    refine ⟨none, fun us hus => ?_⟩
    obtain ⟨t', ht', b, hb⟩ := exists_finalView_eq_effect ((hlatest hus).mpr ht)
    rw [hb, effect_eq_none (hdel t' ((hlatest hus).mp ht'))]
  · have hpatch : ∀ k, ∃ value, ∀ us, (∀ u, u ∈ us ↔ u ∈ S) →
        ((finalView us e).bind fun v => v.metadata k) = value := by
      intro k
      obtain ⟨hagree, ⟨t', ht', hk⟩ | habsent⟩ := hkeys k
      · refine ⟨t'.patch k, fun us hus => ?_⟩
        have hlast := (hlatest hus).mpr ht'
        have hmem : ∀ u ∈ latestOf us e t', IsLatest S e u := fun u hu =>
          (hlatest hus).mp ((mem_latestOf hlast).mp hu)
        obtain ⟨l, -, heq⟩ := exists_finalView_eq hlast
        rw [heq]
        exact metadataAt_applyEffects_of_sets _ _ (fun u hu => hwrites u (hmem u hu))
          (fun u hu hsk => hagree u t' (hmem u hu) ht' hsk hk)
          ⟨t', (mem_latestOf hlast).mpr hlast, hk⟩
      · exact ⟨none, fun us hus =>
          finalView_metadata_of_absent fun w hw => habsent w ((hus w).mp hw)⟩
    choose metadata hmetadata using hpatch
    refine ⟨some ⟨some (ofLex t.stamp).2, (ofLex t.stamp).1, metadata⟩, fun us hus => ?_⟩
    obtain ⟨t', ht', b, hb⟩ := exists_finalView_eq_effect ((hlatest hus).mpr ht)
    have ht'' := (hlatest hus).mp ht'
    have hstamp : t'.stamp = t.stamp :=
      le_antisymm (ht.2.2 t' ht''.1 ht''.2.1) (ht''.2.2 t ht.1 ht.2.1)
    have hw := hwrites t' ht''
    obtain ⟨v, hv, howner, hversion⟩ := effect_eq_some hw (hown t' ht''.1 hw) b
    have hview := hb.trans hv
    refine hview.trans (congrArg some (EntityView.ext (hstamp ▸ howner) (hstamp ▸ hversion) ?_))
    exact funext fun k => by simpa [hview] using hmetadata k us hus

theorem unambiguous_of_finalView_eq (hown : Owned S)
    (h : ∀ us us' : List (EntityUpdate N V), (∀ u, u ∈ us ↔ u ∈ S) → (∀ u, u ∈ us' ↔ u ∈ S) →
      finalView us e = finalView us' e) : Unambiguous S e := by
  have hself : ∀ {t}, t ∈ S → ∀ u, u ∈ S ++ [t] ↔ u ∈ S := by
    intro t ht u
    rw [mem_append, mem_singleton]
    exact ⟨fun hu => hu.elim id fun hu => hu ▸ ht, .inl⟩
  -- any two latest updates leave the same view when they arrive last
  have hlast : ∀ t t', IsLatest S e t → IsLatest S e t' → ∃ b b', t.effect b = t'.effect b' := by
    intro t t' ht ht'
    obtain ⟨b, hb⟩ := finalView_concat ht
    obtain ⟨b', hb'⟩ := finalView_concat ht'
    exact ⟨b, b', hb ▸ hb' ▸ h _ _ (hself ht.1) (hself ht'.1)⟩
  by_cases hdel : ∃ d, IsLatest S e d ∧ d.operation = .delete
  · obtain ⟨d, hd, hdop⟩ := hdel
    refine .inl fun t ht => ?_
    by_contra hw
    obtain ⟨b, b', heq⟩ := hlast d t hd ht
    obtain ⟨v, hv, -⟩ := effect_eq_some hw (hown t ht.1 hw) b'
    rw [effect_eq_none hdop, hv] at heq
    cases heq
  · push Not at hdel
    refine .inr ⟨hdel, fun k => ⟨fun t t' ht ht' hk hk' => ?_, ?_⟩⟩
    · obtain ⟨b, b', heq⟩ := hlast t t' ht ht'
      rw [← metadataAt_effect_of_sets (hdel t ht) hk b, heq,
        metadataAt_effect_of_sets (hdel t' ht') hk' b']
    · by_contra hcover
      push Not at hcover
      obtain ⟨hopen, w, hw, hwe, hwop, hwk⟩ := hcover
      obtain ⟨t, ht⟩ := exists_isLatest hw hwe
      -- the write `w` arrives before the first latest update, or not
      have hmem : ∀ u, u ∈ t :: S ↔ u ∈ S := fun u =>
        ⟨fun hu => (mem_cons.mp hu).elim (fun hu => hu ▸ ht.1) id, mem_cons_of_mem _⟩
      have hmem' : ∀ u, u ∈ w :: t :: S ↔ u ∈ S := fun u =>
        ⟨fun hu => (mem_cons.mp hu).elim (fun hu => hu ▸ hw) (hmem u).mp,
          fun hu => mem_cons_of_mem _ ((hmem u).mpr hu)⟩
      have hlatest : ∀ u ∈ latestOf (t :: S) e t, ¬ u.Sets k := fun u hu =>
        hopen u ((IsLatest.congr hmem).mp ((mem_latestOf ((IsLatest.congr hmem).mpr ht)).mp hu))
      have hwithout := finalView_latest_first ht [] (fun u hu => nomatch hu)
      have hwith := finalView_latest_first ht [w] (fun u hu => by
        rwa [mem_singleton.mp hu])
      have heq := h ([] ++ t :: S) ([w] ++ t :: S) hmem hmem'
      rw [hwithout, hwith] at heq
      have hk := congrArg (fun v => v.bind fun v => v.metadata k) heq
      have hleft := metadataAt_applyEffects_of_not_sets _
        (((writesOf ([] : List (EntityUpdate N V)) e).foldl lwwWrite none).map snd) hlatest
      have hright := metadataAt_applyEffects_of_not_sets (k := k) _
        (((writesOf [w] e).foldl lwwWrite none).map snd) hlatest
      have hval : metadataAt (((writesOf [w] e).foldl lwwWrite none).map snd) k =
          w.patch k := by
        rw [writesOf_cons hwe]
        exact metadataAt_effect_none hwop
      exact hwk (hval.symm.trans (hright.symm.trans (hk.symm.trans hleft)))

end Agreement

/-! ### Runs -/

section Runs

variable {s s' : CrdtNet N V} {ev : CrdtNetEvent N V}

theorem owned_step (hs : Owned s.logged) (h : s.step ev = some s') : Owned s'.logged := by
  cases ev with
  | call =>
    simp only [CrdtNet.step] at h
    split at h
    · rename_i r event hperform
      cases h
      obtain ⟨u, hlog, -, -, -, hu⟩ := slot_perform hperform
      intro v hv hwrite
      simp only [hlog, drop_left, mem_append, mem_singleton] at hv
      rcases hv with hv | rfl
      · exact hs v hv hwrite
      · obtain ⟨hdel, -⟩ | ⟨-, owner, howner, -⟩ := hu
        · exact absurd hdel hwrite
        · exact Option.isSome_iff_exists.mpr ⟨owner, howner⟩
    · cases h
      exact hs
  | deliver =>
    obtain ⟨u, -, rfl⟩ := Option.map_eq_some_iff.mp h
    exact hs

theorem owned_logged {evs : List (CrdtNetEvent N V)}
    (h : exec CrdtNet.step CrdtNet.initial evs = some s) : Owned s.logged :=
  exec_invariant (fun _ _ _ hs _ hstep => owned_step hs hstep)
    (fun _ hu => absurd hu not_mem_nil) (allSteps_true ..) h

end Runs

/-- **Replicas agree exactly if every entity is unambiguous.** For every run of local calls and
every set `S` of updates they have logged, all fresh replicas that receive exactly `S` show the
same entities if and only if, for every entity, the updates of `S` with the greatest stamp
determine its record. -/
theorem converges_iff {evs : List (CrdtNetEvent N V)} {s : CrdtNet N V}
    (hrun : exec CrdtNet.step CrdtNet.initial evs = some s) {S : List (EntityUpdate N V)}
    (hS : ∀ u ∈ S, u ∈ s.logged) : Converges S ↔ ∀ e, Unambiguous S e := by
  have hown : Owned S := fun u hu => owned_logged hrun u (hS u hu)
  rw [converges_iff_finalView]
  constructor
  · intro h e
    exact unambiguous_of_finalView_eq hown fun us us' hus hus' => h us us' hus hus' e
  · intro h us us' hus hus' e
    obtain ⟨view, hview⟩ := exists_finalView_of_unambiguous hown (h e)
    exact (hview us hus).trans (hview us' hus').symm

def createdByN1 : EntityUpdate String ℕ where
  entityId := "e"
  ownerNodeId := some "n1"
  version := 1
  timestamp := 0
  operation := .create
  metadata := some (OrderedMap.empty.set "a" 1)

def deletedByN1 : EntityUpdate String ℕ where
  entityId := "e"
  version := 2
  timestamp := 1
  operation := .delete
  previousVersion := some 1

def otherOfN2 : EntityUpdate String ℕ where
  entityId := "f"
  ownerNodeId := some "n2"
  version := 1
  timestamp := 2
  operation := .create
  metadata := some (OrderedMap.empty.set "b" 2)

/-- An entity that is created and deleted, and one of another node. -/
theorem converges_iff_deleted : Converges [createdByN1, deletedByN1, otherOfN2] := by
  have hrun : exec CrdtNet.step CrdtNet.initial
      [.call "n1" (.proposeEntity "e" createdByN1.metadata) 0, .call "n1" (.releaseEntity "e") 1,
        .call "n2" (.proposeEntity "f" otherOfN2.metadata) 2] =
    some ⟨_, [createdByN1, deletedByN1, otherOfN2]⟩ := rfl
  refine (converges_iff hrun fun u hu => hu).mpr fun e => ?_
  have hid : ∀ t ∈ [createdByN1, deletedByN1, otherOfN2], t.entityId = e → e ≠ "e" →
      t = otherOfN2 := by
    simp only [forall_mem_cons]
    exact ⟨fun h hne => absurd h.symm hne, fun h hne => absurd h.symm hne,
      fun _ _ => trivial, fun _ h => nomatch h⟩
  by_cases he : e = "e"
  · subst he
    refine .inl fun t ⟨hmem, hte, hle⟩ => ?_
    simp only [mem_cons, not_mem_nil, or_false] at hmem
    rcases hmem with rfl | rfl | rfl
    · exact absurd (hle deletedByN1 (by simp) rfl) (by decide)
    · rfl
    · exact absurd hte (by decide)
  have hone : ∀ t, IsLatest [createdByN1, deletedByN1, otherOfN2] e t → t = otherOfN2 :=
    fun t ht => hid t ht.1 ht.2.1 he
  refine .inr ⟨fun t ht => hone t ht ▸ by decide, fun k => ⟨fun t t' ht ht' _ _ => ?_, ?_⟩⟩
  · rw [hone t ht, hone t' ht']
  · by_cases hf : "f" = e
    · exact .inl ⟨otherOfN2, ⟨by simp, hf, fun u hu hue => (hid u hu hue he ▸ le_rfl)⟩,
        .inl (by decide)⟩
    · refine .inr fun w hw hwe => absurd ?_ hf
      rw [hid w hw hwe he] at hwe
      exact hwe

def createThenUpdate : List (CrdtNetEvent String ℕ) :=
  [.call "n1" (.proposeEntity "e" createdByN1.metadata) 0,
    .call "n1" (.updateEntity "e" (OrderedMap.empty.set "b" 2)) 1]

def updatedByN1 : EntityUpdate String ℕ where
  entityId := "e"
  ownerNodeId := some "n1"
  version := 2
  timestamp := 1
  operation := .update
  metadata := some (OrderedMap.empty.set "b" 2)
  previousVersion := some 1

/-- Replicas need not agree: a replica that receives the `UPDATE` before the `CREATE` lacks the
key that the `CREATE` carries. -/
theorem not_converges_of_late_create :
    ¬ ∀ (evs : List (CrdtNetEvent String ℕ)) (s : CrdtNet String ℕ),
      exec CrdtNet.step CrdtNet.initial evs = some s → Converges s.logged := by
  intro h
  have hconv : Converges [createdByN1, updatedByN1] := h createThenUpdate _ rfl
  have heq := hconv "n2" "n3" [(createdByN1, 2), (updatedByN1, 3)]
    [(updatedByN1, 2), (createdByN1, 3)] (fun u => by simp)
    (fun u => by simp [or_comm]) "e"
  have hkey := congrArg (Option.map fun v => v.metadata "a") heq
  exact absurd hkey (by decide)

end DistributedCore.Entity
