import DistributedCore.Entity.CrdtRegistry
import DistributedCore.Entity.SyncNetwork

/-!
# Deleted entities and late writes

One node creates an entity, updates it any number of times and releases it; nobody else writes
it. The adapter rebuilds the published updates from the records of the events, so the `DELETE`
carries the version of the last write, and the two have the same stamp. A tombstone only keeps
out writes with a smaller stamp: if the last write reaches a node after the `DELETE`, the entity
is live there for good (`not_deleted_of_late_write`).
-/

namespace DistributedCore.Entity

open CrdtEntityRegistry SyncNetwork Function List Option EntityUpdate

variable {N V : Type} [LinearOrder N] [OrderBot N] {r : CrdtEntityRegistry N V}
  {event : RegistryEvent N V} {op : LocalOp N V} {x : N}

def crdtOps : RegistryOps N V (CrdtEntityRegistry N V) where
  perform := CrdtEntityRegistry.perform
  applyRemoteUpdate r u now := (r.applyRemoteUpdate u now, [])

abbrev CrdtSync (N V : Type) := SyncNetwork N V (CrdtEntityRegistry N V)

omit [LinearOrder N] [OrderBot N] in
def crdtInitial : CrdtSync N V := .initial fun x => (create x).start

/-- Node `A` creates `e`, updates it any number of times and finally releases it, and there is
no other call on `e`. -/
def IsReleaseRun (A : N) (e : EntityId) (es : List (SyncEvent N V)) : Prop :=
  ∃ before metadata t between t' after, es = before ++ .call A (.proposeEntity e metadata) t ::
      (between ++ .call A (.releaseEntity e) t' :: after) ∧
    (∀ ev ∈ before, ¬ ev.IsCallOn e) ∧
    (∀ ev ∈ between, ev.IsCallOn e → ∃ patch now, ev = .call A (.updateEntity e patch) now) ∧
    ∀ ev ∈ after, ¬ ev.IsCallOn e

/-- No write of the entity arrives with the stamp of a stored tombstone. -/
def NoTiedTombstone (e : EntityId) (s : CrdtSync N V) : SyncEvent N V → Prop
  | .deliver p d i _ => ∀ u ∈ (s.link p d)[i]?, u.entityId = e → u.operation ≠ .delete →
      ∀ tomb ∈ (s.node d).tombstones.get e, tomb.stamp ≠ u.stamp
  | .call .. => True

instance (e : EntityId) (s : CrdtSync N V) :
    (ev : SyncEvent N V) → Decidable (NoTiedTombstone e s ev)
  | .deliver .. => inferInstanceAs (Decidable (∀ u ∈ _, _ = _ → _ ≠ _ → ∀ tomb ∈ _, _ ≠ _))
  | .call .. => .isTrue trivial

/-! ### What a step does to one entity -/

def onLink (s : CrdtSync N V) (A : N) (e : EntityId) (d : N) : List (EntityUpdate N V) :=
  (s.link A d).filter fun u => u.entityId = e

/-- Only the node `A` sends updates of the entity, and none to itself. -/
structure OnlyFrom (A : N) (e : EntityId) (s : CrdtSync N V) : Prop where
  valid : ∀ x, (s.node x).Valid x
  silent : ∀ p d, p ≠ A ∨ d = A → ∀ u ∈ s.link p d, u.entityId ≠ e

/-- A step that is not a call on `e` leaves `A` its entry of `e`. -/
structure Undisturbed (A : N) (e : EntityId) (s s' : CrdtSync N V) : Prop extends
    OnlyFrom A e s' where
  clock : (s.node A).logicalClock ≤ (s'.node A).logicalClock
  entry : (s'.node A).entries.get e = (s.node A).entries.get e

/-- What a step that is not a call on `e` does to `e`: the entity and its updates in flight are
untouched, or an update that `A` has published arrives at a node and is merged there. -/
inductive EntityStep (A : N) (e : EntityId) (s s' : CrdtSync N V) (ev : SyncEvent N V) : Prop
  | untouched (tied : NoTiedTombstone e s ev)
      (slots : ∀ x, (s'.node x).slot e = (s.node x).slot e)
      (links : ∀ d, onLink s' A e d = onLink s A e d)
  | merged (d : N) (u : EntityUpdate N V) (other : d ≠ A)
      (tied : NoTiedTombstone e s ev ↔
        ¬ (u.operation ≠ .delete ∧ (s.node d).slot e = some (u.stamp, none)))
      (slot : (s'.node d).slot e = lwwWrite ((s.node d).slot e) u.toWrite)
      (perm : (onLink s A e d).Perm (u :: onLink s' A e d))
      (slots : ∀ x, x ≠ d → (s'.node x).slot e = (s.node x).slot e)
      (links : ∀ x, x ≠ d → onLink s' A e x = onLink s A e x)

section Step

variable {members : Finset N} {A : N} {e : EntityId} {s s' : CrdtSync N V} {ev : SyncEvent N V}

omit [OrderBot N] in
theorem onLink_publish_of_ne {us : List (EntityUpdate N V)}
    (hus : ∀ u ∈ us, u.entityId ≠ e) (d : N) :
    onLink (s.publish members x us) A e d = onLink s A e d := by
  rw [onLink, link_publish]
  split
  · have : us.filter (fun u => u.entityId = e) = [] :=
      filter_eq_nil_iff.mpr fun u hu => by simpa using hus u hu
    rw [filter_append, this, append_nil, onLink]
  · rfl

private theorem filter_eraseIdx_of_neg {B : Type} {P : B → Bool} {u : B} (hu : P u = false) :
    (l : List B) → (i : ℕ) → l[i]? = some u → (l.eraseIdx i).filter P = l.filter P
  | [], _, h => by simp at h
  | v :: l, 0, h => by
    obtain rfl : v = u := by simpa using h
    simp [hu]
  | v :: l, i + 1, h => by
    have ih := filter_eraseIdx_of_neg hu l i (by simpa using h)
    rw [eraseIdx_cons_succ, filter_cons, filter_cons, ih]

private theorem perm_cons_eraseIdx {B : Type} {l : List B} {i : ℕ} {u : B} (h : l[i]? = some u) :
    l.Perm (u :: l.eraseIdx i) := by
  obtain ⟨hi, rfl⟩ := List.getElem?_eq_some_iff.mp h
  exact (getElem_cons_eraseIdx_perm hi).symm

section

variable (hs : OnlyFrom A e s)

include hs

theorem OnlyFrom.deliver {p d : N} {i now : ℕ} {u : EntityUpdate N V}
    (hu : (s.link p d)[i]? = some u)
    (hs' : s' = (s.consume p d i).setNode d ((s.node d).applyRemoteUpdate u now)) :
    Undisturbed A e s s' ∧ EntityStep A e s s' (.deliver p d i now) := by
  have hmem := mem_of_getElem? hu
  have hnode : ∀ y, s'.node y =
      if y = d then (s.node d).applyRemoteUpdate u now else s.node y := by
    intro y
    rw [hs', setNode_node, consume_node, update_apply]
  have hlink : ∀ p' d', s'.link p' d' =
      if p' = p ∧ d' = d then (s.link p d).eraseIdx i else s.link p' d' := by
    intro p' d'
    rw [hs', setNode_link, link_consume]
  have honly : OnlyFrom A e s' := by
    refine ⟨fun y => ?_, fun p' d' hpd v hv => hs.silent p' d' hpd v ?_⟩
    · rw [hnode]
      split_ifs with hy
      · exact hy ▸ (hs.valid d).applyRemoteUpdate u now
      · exact hs.valid y
    · exact mem_link_consume (hs' ▸ hv)
  have hclock : (s.node A).logicalClock ≤ (s'.node A).logicalClock := by
    rw [hnode]
    split_ifs with hA
    · rw [((s.node d).applyRemoteUpdate_frame u now).2.2, hA]
      exact le_max_left ..
    · exact le_rfl
  have hslots : ∀ x, x ≠ d → (s'.node x).slot e = (s.node x).slot e := fun x hx => by
    rw [hnode, if_neg hx]
  have hlinks : ∀ x, x ≠ d → onLink s' A e x = onLink s A e x := fun x hx => by
    rw [onLink, hlink, if_neg fun h => hx h.2, onLink]
  by_cases he : u.entityId = e
  · -- only `A` publishes updates of `e`, and not to itself
    obtain ⟨rfl, hd⟩ : p = A ∧ d ≠ A := by
      refine ⟨?_, fun hd => hs.silent p d (.inr hd) u hmem he⟩
      by_contra hp
      exact hs.silent p d (.inl hp) u hmem he
    refine ⟨⟨honly, hclock, by rw [hnode, if_neg fun h => hd h.symm]⟩,
      .merged d u hd ?_ ?_ ?_ hslots hlinks⟩
    · simp only [NoTiedTombstone, hu, mem_def, some.injEq]
      constructor
      · rintro h ⟨hop, hslot⟩
        obtain ⟨tomb, htomb, hm⟩ := exists_tombstone_of_slot hslot
        exact h u rfl he hop tomb htomb hm
      · rintro h w rfl - hop tomb htomb hm
        exact h ⟨hop, hm ▸ (hs.valid d).slot_of_tombstone htomb⟩
    · rw [hnode, if_pos rfl, ← he]
      exact slot_applyRemoteUpdate (hs.valid d).exclusive
    · rw [onLink, onLink, hlink, if_pos ⟨rfl, rfl⟩]
      have := (perm_cons_eraseIdx hu).filter fun u => u.entityId = e
      rwa [filter_cons_of_pos (by simpa using he)] at this
  · have he' : e ≠ u.entityId := fun h => he h.symm
    refine ⟨⟨honly, hclock, ?_⟩, .untouched ?_ (fun x => ?_) fun x => ?_⟩
    · rw [hnode]
      split_ifs with hA
      · exact hA ▸ (get_applyRemoteUpdate_of_ne he').1
      · rfl
    · intro v hv hve
      rw [hu] at hv
      cases hv
      exact absurd hve he
    · by_cases hx : x = d
      · subst hx
        rw [hnode, if_pos rfl]
        exact slot_applyRemoteUpdate_of_ne he'
      · exact hslots x hx
    · by_cases hx : A = p ∧ x = d
      · obtain ⟨rfl, rfl⟩ := hx
        rw [onLink, onLink, hlink, if_pos ⟨rfl, rfl⟩]
        exact filter_eraseIdx_of_neg (by simpa using he) _ i hu
      · rw [onLink, hlink, if_neg hx, onLink]

/-- **What a step that is not a call on `e` does to `e`.** -/
theorem OnlyFrom.step (hcall : ¬ ev.IsCallOn e)
    (hstep : SyncNetwork.step crdtOps members s ev = some s') :
    Undisturbed A e s s' ∧ EntityStep A e s s' ev := by
  rcases step_cases hstep with ⟨x, op, now, err, rfl, -, rfl⟩ |
    ⟨x, op, now, r, event, rfl, -, hperform, hs'⟩ | ⟨p, d, i, now, u, rfl, hu, hs'⟩
  · exact ⟨⟨hs, le_rfl, rfl⟩, .untouched trivial (fun _ => rfl) fun _ => rfl⟩
  · subst hs'
    have hvalid := hs.valid x
    have hid : ∀ u ∈ [adapterUpdate now event], u.entityId ≠ e := by
      intro u hu
      rw [mem_singleton.mp hu, adapterUpdate_entityId, hvalid.record_entityId hperform]
      exact hcall
    obtain ⟨hentry, htomb⟩ := perform_get_of_ne hperform hcall
    -- what holds of the other registries and of the new one holds of all
    have hnode : ∀ P : N → CrdtEntityRegistry N V → Prop, P x r → (∀ y, P y (s.node y)) →
        ∀ y, P y (update s.node x r y) := fun P hx h =>
      (forall_update_iff s.node P).mpr ⟨hx, fun y _ => h y⟩
    refine ⟨⟨⟨hnode (fun y r => r.Valid y) (hvalid.perform hperform) hs.valid,
        fun p d hpd v hv => ?_⟩,
        hnode (fun y r => (s.node y).logicalClock ≤ r.logicalClock) ?_ (fun _ => le_rfl) A,
        hnode (fun y r => r.entries.get e = (s.node y).entries.get e) hentry (fun _ => rfl) A⟩,
      .untouched trivial (hnode (fun y r => r.slot e = (s.node y).slot e) (slot_congr hentry htomb)
        fun _ => rfl) (onLink_publish_of_ne hid)⟩
    · rcases mem_link_publish hv with hv | ⟨-, -, hv⟩
      · exact hs.silent p d hpd v hv
      · exact hid v hv
    · rw [(perform_spec hperform).2.2.1]
      omega
  · exact hs.deliver hu (hs'.trans (publish_nil d))

end

end Step

/-! ### The register of a node -/

/-- The register after the updates `us`. -/
def merged (us : List (EntityUpdate N V)) : Option (Stamp N × Option (EntityView N V)) :=
  (us.map EntityUpdate.toWrite).foldl lwwWrite none

/-- A write has met a tombstone with its own stamp. -/
def Tied (us : List (EntityUpdate N V)) : Prop :=
  ∃ p u, p ++ [u] <+: us ∧ u.operation ≠ .delete ∧ merged p = some (u.stamp, none)

section Merged

variable {us p q : List (EntityUpdate N V)} {u del : EntityUpdate N V} {m : Stamp N}

theorem merged_concat : merged (us ++ [u]) = lwwWrite (merged us) u.toWrite := by
  rw [merged, map_append, foldl_append, merged, map_singleton, foldl_cons, foldl_nil]

theorem tied_concat :
    Tied (us ++ [u]) ↔ Tied us ∨ u.operation ≠ .delete ∧ merged us = some (u.stamp, none) := by
  constructor
  · rintro ⟨p, w, hp, hw⟩
    rcases prefix_concat_iff.mp hp with h | h
    · obtain ⟨rfl, hu⟩ := append_inj' h rfl
      exact .inr (singleton_inj.mp hu ▸ hw)
    · exact .inl ⟨p, w, h, hw⟩
  · rintro (⟨p, w, hp, hw⟩ | hw)
    · exact ⟨p, w, hp.trans (prefix_append us [u]), hw⟩
    · exact ⟨us, u, prefix_rfl, hw⟩

theorem stamp_merged_le (hus : ∀ u ∈ us, u.stamp ≤ m) : ∀ c ∈ merged us, c.1 ≤ m :=
  foldl_lwwWrite_stamp_le _ none (forall_mem_map.mpr hus) fun _ h => nomatch h

section

variable (hus : ∀ u ∈ us, u.operation ≠ .delete)

include hus

theorem merged_of_writes : ∀ c ∈ merged us, c.2.isSome :=
  foldl_lwwWrite_invariant _ none (forall_mem_map.mpr fun u hu _ _ => by
    simp [toWrite, effect, hus u hu]) fun _ h => nomatch h

theorem not_tied_of_writes : ¬ Tied us := by
  rintro ⟨p, u, hp, -, h⟩
  have := merged_of_writes (fun v hv => hus v (hp.subset (mem_append_left _ hv))) _ h
  cases this

end

/-- **A `DELETE` with the stamp of the last write.** The entity is live in the end exactly if a
write has met the tombstone. -/
theorem merged_of_delete (hdel : del.operation = .delete)
    (hwrites : ∀ u ∈ p ++ q, u.operation ≠ .delete ∧ u.stamp ≤ del.stamp) :
    ∃ b, merged (p ++ del :: q) = some (del.stamp, b) ∧ (b.isSome ↔ Tied (p ++ del :: q)) := by
  induction q using List.reverseRecOn with
  | nil =>
    rw [append_nil] at hwrites
    refine ⟨none, ?_, ?_⟩
    · rw [merged_concat, lwwWrite_of_le (stamp_merged_le fun u hu => (hwrites u hu).2)]
      simp [toWrite, effect, hdel]
    · rw [tied_concat]
      refine iff_of_false Bool.false_ne_true ?_
      rintro (h | h)
      · exact not_tied_of_writes (fun u hu => (hwrites u hu).1) h
      · exact h.1 hdel
  | append_singleton q u ih =>
    rw [← append_assoc] at hwrites
    obtain ⟨b, hb, hiff⟩ := ih fun v hv => hwrites v (mem_append_left _ hv)
    obtain ⟨hop, hstamp⟩ := hwrites u (mem_append_right _ mem_cons_self)
    rw [← cons_append, ← append_assoc, merged_concat, tied_concat, hb]
    rcases hstamp.lt_or_eq with hlt | heq
    · refine ⟨b, lwwWrite_of_lt hlt, hiff.trans (or_iff_left ?_).symm⟩
      rintro ⟨-, h⟩
      exact hlt.ne (congrArg Prod.fst (some.inj h)).symm
    · -- the last write brings the entity back if it is not live
      refine ⟨u.effect (some b), ?_, iff_of_true (by simp [effect, hop]) ?_⟩
      · rw [lwwWrite_some_of_le heq.ge, ← heq]
        rfl
      · cases b with
        | none => exact .inr ⟨hop, by rw [heq]⟩
        | some => exact .inl (hiff.mp rfl)

end Merged

/-! ### Runs -/

/-- `A` has published the updates `pub` of `e`: a member has received those of `hist`, and the
others are in flight to it. -/
structure Spread (members : Finset N) (A : N) (e : EntityId) (pub : List (EntityUpdate N V))
    (hist : N → List (EntityUpdate N V)) (s : CrdtSync N V) : Prop where
  only : OnlyFrom A e s
  slot : ∀ x, x ≠ A → (s.node x).slot e = merged (hist x)
  perm : ∀ x, x ≠ A → (hist x ++ onLink s A e x).Perm (if x ∈ members then pub else [])

/-- `A` owns `e` with the entry `c`, and has published writes up to its version. -/
structure Published (members : Finset N) (A : N) (e : EntityId) (pub : List (EntityUpdate N V))
    (hist : N → List (EntityUpdate N V)) (c : CrdtEntry N V) (s : CrdtSync N V) : Prop extends
    Spread members A e pub hist s where
  clock : c.record.version ≤ (s.node A).logicalClock
  entry : (s.node A).entries.get e = some c
  owner : c.record.ownerNodeId = some A
  writes : ∀ u ∈ pub, u.operation ≠ .delete ∧ u.stamp ≤ toLex (c.record.version, A)

section Runs

variable {members : Finset N} {A : N} {e : EntityId} {s s' : CrdtSync N V} {ev : SyncEvent N V}
  {pub : List (EntityUpdate N V)} {hist : N → List (EntityUpdate N V)} {c : CrdtEntry N V}
  {now : ℕ}

theorem Spread.not_tied (hs : Spread members A e pub hist s)
    (hpub : ∀ u ∈ pub, u.operation ≠ .delete) : ∀ x, x ≠ A → ¬ Tied (hist x) := by
  refine fun x hx => not_tied_of_writes fun u hu => ?_
  have hmem := (hs.perm x hx).subset (mem_append_left _ hu)
  split_ifs at hmem
  · exact hpub u hmem
  · exact absurd hmem not_mem_nil

/-- **A write ties exactly if it meets a tombstone with its own stamp.** -/
theorem Spread.step (hs : Spread members A e pub hist s) (hcall : ¬ ev.IsCallOn e)
    (hstep : SyncNetwork.step crdtOps members s ev = some s') :
    Undisturbed A e s s' ∧ ∃ hist', Spread members A e pub hist' s' ∧
      ((∀ x, x ≠ A → ¬ Tied (hist' x)) ↔
        (∀ x, x ≠ A → ¬ Tied (hist x)) ∧ NoTiedTombstone e s ev) := by
  obtain ⟨hkept, hentity⟩ := hs.only.step hcall hstep
  refine ⟨hkept, ?_⟩
  cases hentity with
  | untouched tied slots links =>
    exact ⟨hist, ⟨hkept.toOnlyFrom, fun x hx => (slots x).trans (hs.slot x hx),
      fun x hx => links x ▸ hs.perm x hx⟩, (and_iff_left tied).symm⟩
  | merged d u other tied slot perm slots links =>
    have hd : Tied (hist d ++ [u]) ↔ _ := tied_concat
    rw [← hs.slot d other] at hd
    refine ⟨update hist d (hist d ++ [u]), ⟨hkept.toOnlyFrom,
      (forall_update_iff hist fun x us => x ≠ A → (s'.node x).slot e = merged us).mpr
        ⟨fun _ => ?_, fun x hx hA => (slots x hx).trans (hs.slot x hA)⟩,
      (forall_update_iff hist fun x us => x ≠ A → (us ++ onLink s' A e x).Perm _).mpr
        ⟨fun _ => ?_, fun x hx hA => links x hx ▸ hs.perm x hA⟩⟩, ?_⟩
    · rw [merged_concat, ← hs.slot d other, slot]
    · rw [append_assoc]
      exact (perm.symm.append_left (hist d)).trans (hs.perm d other)
    · rw [forall_update_iff hist fun x us => x ≠ A → ¬ Tied us, hd, not_or, ← tied]
      constructor
      · rintro ⟨h, hothers⟩
        refine ⟨fun x hx => ?_, (h other).2⟩
        by_cases hxd : x = d
        · exact hxd ▸ (h other).1
        · exact hothers x hxd hx
      · rintro ⟨h, hok⟩
        exact ⟨fun hx => ⟨h d hx, hok⟩, fun x _ => h x⟩

theorem Spread.run :
    {s s' : CrdtSync N V} → {hist : N → List (EntityUpdate N V)} → {es : List (SyncEvent N V)} →
      Spread members A e pub hist s → (∀ ev ∈ es, ¬ ev.IsCallOn e) →
      exec (SyncNetwork.step crdtOps members) s es = some s' →
      (s'.node A).entries.get e = (s.node A).entries.get e ∧ ∃ hist',
        Spread members A e pub hist' s' ∧ ((∀ x, x ≠ A → ¬ Tied (hist' x)) ↔
          (∀ x, x ≠ A → ¬ Tied (hist x)) ∧
            AllSteps (SyncNetwork.step crdtOps members) (NoTiedTombstone e) s es)
  | s, s', hist, [], hs, _, h => by
    cases h
    exact ⟨rfl, hist, hs, (and_iff_left trivial).symm⟩
  | s, s', hist, ev :: es, hs, hcalls, h => by
    obtain ⟨s₁, hstep, hrest⟩ := exec_cons_eq_some.mp h
    obtain ⟨hkept, hist₁, hs₁, hiff₁⟩ := hs.step (hcalls ev mem_cons_self) hstep
    obtain ⟨hentry, hist', hs', hiff⟩ :=
      hs₁.run (fun ev hev => hcalls ev (mem_cons_of_mem _ hev)) hrest
    refine ⟨hentry.trans hkept.entry, hist', hs', ?_⟩
    rw [hiff, hiff₁, allSteps_cons_of_eq_some hstep, and_assoc]

/-- A call of `A` on `e` publishes one more update. -/
theorem Spread.ownCall (hs : Spread members A e pub hist s)
    (hop : op.entityId = e) (hperform : (s.node A).perform op now = .ok (r, event))
    (hstep : SyncNetwork.step crdtOps members s (.call A op now) = some s') :
    A ∈ members ∧ s'.node A = r ∧
      Spread members A e (pub ++ [adapterUpdate now event]) hist s' := by
  have hvalid := hs.only.valid A
  rcases step_cases hstep with ⟨x, op', now', err, hev, herr, -⟩ |
    ⟨x, op', now', r', event', hev, hA, hok, hs'⟩ | ⟨p, d, i, now', u, hev, -⟩
  · obtain ⟨rfl, rfl, rfl⟩ := SyncEvent.call.inj hev
    rw [show crdtOps.perform (s.node A) op now = .ok (r, event) from hperform] at herr
    cases herr
  · obtain ⟨rfl, rfl, rfl⟩ := SyncEvent.call.inj hev
    rw [show crdtOps.perform (s.node A) op now = .ok (r, event) from hperform] at hok
    cases hok
    subst hs'
    have hid : (adapterUpdate now event).entityId = e := by
      rw [adapterUpdate_entityId, hvalid.record_entityId hperform, hop]
    refine ⟨hA, by simp, ⟨?_, fun p d hpd u hu => ?_⟩, fun x hx => ?_, fun x hx => ?_⟩
    · exact (forall_update_iff s.node fun x r => r.Valid x).mpr
        ⟨hvalid.perform hperform, fun x _ => hs.only.valid x⟩
    · rcases mem_link_publish hu with hu | ⟨rfl, hd, -⟩
      · exact hs.only.silent p d hpd u hu
      · exact absurd hpd (by simp [hd])
    · rw [publish_node, setNode_node, update_of_ne hx, hs.slot x hx]
    · have hperm := hs.perm x hx
      rw [onLink, link_publish, setNode_link]
      by_cases hmem : x ∈ members
      · rw [if_pos hmem] at hperm ⊢
        rw [if_pos ⟨rfl, hmem, hx⟩, filter_append, filter_cons_of_pos (by simpa using hid),
          filter_nil, ← append_assoc]
        exact hperm.append_right _
      · rw [if_neg hmem] at hperm ⊢
        rwa [if_neg fun h => hmem h.2.1]
  · cases hev

theorem stamp_adapterUpdate (now : ℕ) (event : RegistryEvent N V)
    (howner : event.record.ownerNodeId = some A) :
    (adapterUpdate now event).stamp = toLex (event.record.version, A) := by
  rw [stamp, adapterUpdate_ownerNodeId, adapterUpdate_version, howner]
  rfl

theorem Spread.propose (hs : Spread members A e [] hist s)
    (hnone : (s.node A).entries.get e = none) {metadata : Option (Metadata V)}
    (hstep : SyncNetwork.step crdtOps members s (.call A (.proposeEntity e metadata) now) =
      some s') :
    A ∈ members ∧ ∃ pub hist c, Published members A e pub hist c s' := by
  obtain ⟨r, c, hperform, hc, howner, hclock⟩ := (hs.only.valid A).proposeEntity metadata now hnone
  obtain ⟨hA, hnode, hs'⟩ := hs.ownCall rfl hperform hstep
  refine ⟨hA, _, hist, c, hs', ?_, hnode ▸ hc, howner, fun u hu => ?_⟩
  · rw [hnode, hclock]
  · obtain rfl := mem_singleton.mp hu
    exact ⟨by simp [adapterUpdate, toEntityUpdate],
      (stamp_adapterUpdate now (.created c.record) howner).le⟩

theorem Published.update (hs : Published members A e pub hist c s) {patch : Metadata V}
    (hstep : SyncNetwork.step crdtOps members s (.call A (.updateEntity e patch) now) = some s') :
    ∃ pub hist c, Published members A e pub hist c s' := by
  obtain ⟨r, c', hperform, hc', howner', hclock, hclock'⟩ :=
    (hs.only.valid A).updateEntity patch now hs.entry hs.owner
  obtain ⟨-, hnode, hs'⟩ := hs.toSpread.ownCall rfl hperform hstep
  -- the new version exceeds the old one
  have hle : (toLex (c.record.version, A) : Stamp N) ≤ toLex (c'.record.version, A) := by
    have := hs.clock
    exact (Prod.Lex.toLex_lt_toLex.mpr (.inl (by omega))).le
  refine ⟨_, hist, c', hs', ?_, hnode ▸ hc', howner', fun u hu => ?_⟩
  · rw [hnode, hclock]
  · rcases mem_append.mp hu with hu | hu
    · exact ⟨(hs.writes u hu).1, (hs.writes u hu).2.trans hle⟩
    · obtain rfl := mem_singleton.mp hu
      exact ⟨by simp [adapterUpdate, toEntityUpdate],
        (stamp_adapterUpdate now (.updated c'.record) howner').le⟩

theorem published_step (hs : ∃ pub hist c, Published members A e pub hist c s)
    (hev : ev.IsCallOn e → ∃ patch now, ev = .call A (.updateEntity e patch) now)
    (hstep : SyncNetwork.step crdtOps members s ev = some s') :
    (∃ pub hist c, Published members A e pub hist c s') ∧ NoTiedTombstone e s ev := by
  obtain ⟨pub, hist, c, hs⟩ := hs
  by_cases hcall : ev.IsCallOn e
  · obtain ⟨patch, now, rfl⟩ := hev hcall
    exact ⟨hs.update hstep, trivial⟩
  · obtain ⟨hkept, hist', hs', hiff⟩ := hs.toSpread.step hcall hstep
    have htied := hs'.not_tied fun u hu => (hs.writes u hu).1
    exact ⟨⟨pub, hist', c, hs', hs.clock.trans hkept.clock, hkept.entry ▸ hs.entry, hs.owner,
      hs.writes⟩, (hiff.mp htied).2⟩

theorem Published.release (hs : Published members A e pub hist c s)
    (hstep : SyncNetwork.step crdtOps members s (.call A (.releaseEntity e) now) = some s') :
    ∃ del, Spread members A e (pub ++ [del]) hist s' ∧ del.operation = .delete ∧
      (∀ u ∈ pub, u.operation ≠ .delete ∧ u.stamp ≤ del.stamp) ∧
      (s'.node A).entries.get e = none := by
  obtain ⟨r, hperform, hgone⟩ := (hs.only.valid A).releaseEntity now hs.entry hs.owner
  obtain ⟨-, hnode, hs'⟩ := hs.toSpread.ownCall rfl hperform hstep
  refine ⟨_, hs', rfl, ?_, hnode ▸ hgone⟩
  rw [stamp_adapterUpdate now (.deleted c.record) hs.owner]
  exact hs.writes

/-- Once everything is delivered, a node is live exactly if a write has met its tombstone. -/
theorem Spread.live_iff {del : EntityUpdate N V} (hs : Spread members A e (pub ++ [del]) hist s)
    (hdel : del.operation = .delete) (hpub : ∀ u ∈ pub, u.operation ≠ .delete ∧ u.stamp ≤ del.stamp)
    (hlink : ∀ d ∈ members, onLink s A e d = []) (hx : x ≠ A) :
    (s.node x).entries.get e = none ↔ ¬ Tied (hist x) := by
  have hperm := hs.perm x hx
  rw [← map_eq_none_iff, ← join_slot, hs.slot x hx]
  by_cases hmem : x ∈ members
  · rw [if_pos hmem, hlink x hmem, append_nil] at hperm
    obtain ⟨p, q, hpq⟩ := append_of_mem (hperm.mem_iff.mpr (mem_append_right _ mem_cons_self))
    rw [hpq] at hperm ⊢
    have hwrites : (p ++ q).Perm pub :=
      (perm_middle.symm.trans (hperm.trans (perm_append_singleton del pub))).cons_inv
    obtain ⟨b, hb, hiff⟩ := merged_of_delete hdel fun u hu => hpub u (hwrites.subset hu)
    rw [hb, ← hiff]
    simp
  · rw [if_neg hmem] at hperm
    rw [(append_eq_nil_iff.mp hperm.eq_nil).1]
    exact iff_of_true rfl (not_tied_of_writes fun _ h => absurd h not_mem_nil)

end Runs

/-- **The entity stays deleted exactly if no late write ties with the tombstone.** One node
creates an entity, updates it any number of times and releases it, and nobody else writes it.
Once all its updates are delivered, in whatever order, no node has the entity live if and only
if no write was delivered to a node whose tombstone had the stamp of that write. -/
theorem no_resurrection_iff (members : Finset N) {A : N} {e : EntityId}
    {es : List (SyncEvent N V)} {s : CrdtSync N V} (hes : IsReleaseRun A e es)
    (hrun : exec (SyncNetwork.step crdtOps members) crdtInitial es = some s)
    (hdelivered : ∀ p ∈ members, ∀ d ∈ members, ∀ u ∈ s.link p d, u.entityId ≠ e) :
    (∀ x, (s.node x).entries.get e = none) ↔
      AllSteps (SyncNetwork.step crdtOps members) (NoTiedTombstone e) crdtInitial es := by
  obtain ⟨before, metadata, t, between, t', after, rfl, hbefore, hbetween, hafter⟩ := hes
  -- cut the run at the creation and at the release
  rw [exec_append, bind_eq_some_iff] at hrun
  obtain ⟨s₁, hrun₁, hrun⟩ := hrun
  obtain ⟨s₂, hpropose, hrun⟩ := exec_cons_eq_some.mp hrun
  rw [exec_append, bind_eq_some_iff] at hrun
  obtain ⟨s₃, hrun₃, hrun⟩ := hrun
  obtain ⟨s₄, hrelease, hrun⟩ := exec_cons_eq_some.mp hrun
  have hinit : Spread members A e [] (fun _ => []) (crdtInitial : CrdtSync N V) :=
    ⟨⟨valid_create, fun _ _ _ _ hu => absurd hu not_mem_nil⟩, fun _ _ => rfl,
      fun x _ => by simp [onLink, crdtInitial, initial]⟩
  obtain ⟨hnone, hist₁, hs₁, hiff₁⟩ := hinit.run hbefore hrun₁
  have hok₁ := (hiff₁.mp (hs₁.not_tied fun _ h => absurd h not_mem_nil)).2
  obtain ⟨hA, hs₂⟩ := hs₁.propose hnone hpropose
  obtain ⟨⟨pub, hist₃, c, hs₃⟩, hok₃⟩ := exec_invariant_allSteps (fun _ _ _ => published_step)
    hs₂ hbetween hrun₃
  obtain ⟨del, hs₄, hdel, hpub, hgone⟩ := hs₃.release hrelease
  obtain ⟨hentry, hist, hs, hiff⟩ := hs₄.run hafter hrun
  have hlink : ∀ d ∈ members, onLink s A e d = [] := fun d hd =>
    filter_eq_nil_iff.mpr fun u hu => by simpa using hdelivered A hA d hd u hu
  have hlive : (∀ x, (s.node x).entries.get e = none) ↔ ∀ x, x ≠ A → ¬ Tied (hist x) := by
    refine ⟨fun h x hx => (hs.live_iff hdel hpub hlink hx).mp (h x), fun h x => ?_⟩
    by_cases hx : x = A
    · exact hx ▸ hentry.trans hgone
    · exact (hs.live_iff hdel hpub hlink hx).mpr (h x hx)
  rw [hlive, hiff, and_iff_right (hs₃.not_tied fun u hu => (hs₃.writes u hu).1),
    allSteps_append_iff hrun₁, and_iff_right hok₁, allSteps_cons_of_eq_some hpropose,
    allSteps_append_iff hrun₃, and_iff_right hok₃, allSteps_cons_of_eq_some hrelease]
  exact ⟨fun h => ⟨trivial, trivial, h⟩, fun h => h.2.2⟩

def releaseDelivered (i j : ℕ) : List (SyncEvent String ℕ) :=
  createAndRelease ++ [.deliver "n1" "n2" i 2, .deliver "n1" "n2" j 3]

theorem isReleaseRun_releaseDelivered (i j : ℕ) : IsReleaseRun "n1" "e" (releaseDelivered i j) := by
  refine ⟨[], none, 0, [], 1, [.deliver "n1" "n2" i 2, .deliver "n1" "n2" j 3], rfl, ?_⟩
  simp [SyncEvent.IsCallOn]

theorem no_resurrection_iff_in_order : ∃ s : CrdtSync String ℕ,
      exec (SyncNetwork.step crdtOps {"n1", "n2"}) crdtInitial (releaseDelivered 0 0) = some s ∧
        ∀ x, (s.node x).entries.get "e" = none := by
  exact ⟨_, rfl, (no_resurrection_iff {"n1", "n2"} (isReleaseRun_releaseDelivered 0 0) rfl
    (by decide)).mpr (by decide)⟩

/-- A deleted entity can come back: the `CREATE` that reaches `n2` after the `DELETE` has the
stamp of the tombstone, and the entity is live on `n2` when everything is delivered. -/
theorem not_deleted_of_late_write :
    ¬ ∀ (members : Finset String) (A : String) (e : EntityId) (es : List (SyncEvent String ℕ))
      (s : CrdtSync String ℕ), IsReleaseRun A e es →
      exec (SyncNetwork.step crdtOps members) crdtInitial es = some s →
      (∀ p ∈ members, ∀ d ∈ members, ∀ u ∈ s.link p d, u.entityId ≠ e) →
      ∀ x, (s.node x).entries.get e = none := by
  intro h
  have hgone := h {"n1", "n2"} "n1" "e" _ _ (isReleaseRun_releaseDelivered 1 0) rfl (by decide) "n2"
  exact absurd hgone (by decide)

end DistributedCore.Entity
