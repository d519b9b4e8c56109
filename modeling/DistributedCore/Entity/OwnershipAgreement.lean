import DistributedCore.Entity.InMemoryRegistry
import DistributedCore.Entity.OwnershipLineage

/-!
# Agreement on the owner of an entity

When no message about an entity is in flight, should all members of a synced network of
in-memory registries agree on its owner? Two nodes that create the same entity before they hear
of each other never do (`not_agree_of_concurrent_proposals`): a `CREATE` of a present entity is
ignored.
-/

namespace DistributedCore.Entity

open SyncNetwork EntityRecord EntityUpdate InMemoryEntityRegistry List Option

variable {N V : Type} [DecidableEq N]

/-- The entity `e` is created only while no message about it is in flight, and released only
while no `CREATE` of it is in flight; calls that throw are not restricted. -/
def Settled (members : Finset N) (e : EntityId) (s : InMemorySync N V) : SyncEvent N V → Prop
  | .call x (.proposeEntity e' _) _ => e' = e → (s.node x).entities.get e = none →
      ∀ p ∈ members, ∀ d ∈ members, ∀ u ∈ s.link p d, u.entityId ≠ e
  | .call x (.releaseEntity e') _ => e' = e →
      (∃ c ∈ (s.node x).entities.get e, c.ownerNodeId = some x) →
      ∀ p ∈ members, ∀ d ∈ members, ∀ u ∈ s.link p d, u.entityId = e → u.operation ≠ .create
  | _ => True

instance (members : Finset N) (e : EntityId) (s : InMemorySync N V) :
    (ev : SyncEvent N V) → Decidable (Settled members e s ev)
  | .call _ (.proposeEntity ..) _ => inferInstanceAs (Decidable (_ = _ → _ = none →
      ∀ p ∈ members, ∀ d ∈ members, ∀ u ∈ _, _ ≠ _))
  | .call _ (.releaseEntity _) _ => inferInstanceAs (Decidable (_ = _ → (∃ c ∈ _, _ = _) →
      ∀ p ∈ members, ∀ d ∈ members, ∀ u ∈ _, _ = _ → _ ≠ _))
  | .call _ (.updateEntity ..) _ | .call _ (.transferEntity ..) _ | .deliver .. => .isTrue trivial

/-! ### Projection to one entity -/

/-- The part of an update that concerns the owner. -/
def EntityUpdate.toNotice (u : EntityUpdate N V) : Notice N :=
  ⟨u.operation, u.ownerNodeId, u.version⟩

def EntityRecord.toCell (c : EntityRecord N V) : Option N × ℤ := (c.ownerNodeId, c.version)

/-- The relay is the projection of the network to the entity. -/
abbrev Shows (e : EntityId) : InMemorySync N V → Ownership N → Prop :=
  Projects (fun x r c => r.Valid x ∧ c = (r.entities.get e).map toCell)
    (fun u n => u.toNotice = n) e

section Projection

variable {members : Finset N} {e : EntityId} {s s' : InMemorySync N V} {ev : SyncEvent N V}

omit [DecidableEq N] in
theorem receive_toNotice (u : EntityUpdate N V) (c : Option (EntityRecord N V)) (now : ℕ) :
    u.toNotice.receive (c.map toCell) = ((u.apply c).1.map toCell,
        ((u.apply c).2.map (adapterUpdate now)).map toNotice) := by
  cases c with
  | none =>
    cases hop : u.operation <;>
      simp [Notice.receive, toNotice, apply, hop, adapterUpdate, toEntityUpdate, newRecord, toCell]
  | some c =>
    by_cases hver : c.version < u.version <;> cases hop : u.operation <;>
      simp [Notice.receive, toNotice, apply, hop, hver, adapterUpdate,
        toEntityUpdate, updatedBy, transferredBy, toCell]

section

variable {o : Ownership N} (h : Shows e s o) (hamong : o.Among members)

include h

omit [DecidableEq N] in
theorem link_eq (p d : N) :
    o.link p d = ((s.link p d).filter fun u => u.entityId = e).map toNotice := by
  have hlink := forall₂_map_left_iff.mpr (h.link p d)
  rw [forall₂_eq_eq_eq] at hlink
  exact hlink.symm

include hamong

omit [DecidableEq N] in
theorem link_eq_nil
    (hquiet : ∀ p ∈ members, ∀ d ∈ members, ∀ u ∈ s.link p d, u.entityId ≠ e) (p d : N) :
    o.link p d = [] := by
  by_cases hpd : p ∈ members ∧ d ∈ members ∧ d ≠ p
  · rw [link_eq h, filter_eq_nil_iff.mpr fun u hu => by simpa using hquiet p hpd.1 d hpd.2.1 u hu]
    rfl
  · exact hamong p d hpd

theorem shows_call {x : N} (hx : x ∈ members) {op : LocalOp N V} (hop : op.entityId = e) {now : ℕ}
    {r : InMemoryEntityRegistry N V} {event : RegistryEvent N V}
    (hok : Settled members e s (.call x op now))
    (hperform : (s.node x).perform op now = .ok (r, event)) :
    ∃ o', Shows e ((s.setNode x r).publish members x [adapterUpdate now event]) o' ∧
      OwnershipStep members o o' := by
  obtain ⟨hvalid, hcell⟩ := h.node x
  obtain ⟨hspec, -⟩ := perform_spec hperform
  obtain ⟨hr, hid⟩ := hvalid.perform hperform
  refine ⟨_, h.publish_events members [event] ⟨hr, rfl⟩ (by simp [hid, hop]) (.cons rfl .nil), ?_⟩
  rw [hop, hvalid.nodeId] at hspec
  generalize hbefore : (s.node x).entities.get e = before at hspec hcell
  generalize r.entities.get e = after at hspec ⊢
  cases hspec with
  | @proposed _ _ record id owner version =>
    simp only [map_some, toCell, toNotice, adapterUpdate, toEntityUpdate, owner, version]
    exact .propose hx hcell (link_eq_nil h hamong (hok hop hbefore))
  | @updated _ _ old record owned id owner version =>
    simp only [map_some, toCell, toNotice, adapterUpdate, toEntityUpdate, owner, version]
    exact .update hx (hcell.trans (by rw [map_some, toCell, owned]))
  | @transferred _ target old record owned id owner version =>
    simp only [map_some, toCell, toNotice, adapterUpdate, toEntityUpdate, owner, version]
    exact .transfer hx (hcell.trans (by rw [map_some, toCell, owned]))
  | @released _ old owned =>
    simp only [map_none, toNotice, adapterUpdate, toEntityUpdate, owned]
    refine .release hx (hcell.trans (by rw [map_some, toCell, owned])) fun p d n hn => ?_
    by_cases hpd : p ∈ members ∧ d ∈ members ∧ d ≠ p
    · rw [link_eq h] at hn
      obtain ⟨u, hu, rfl⟩ := mem_map.mp hn
      obtain ⟨hu, hue⟩ := mem_filter.mp hu
      exact hok hop ⟨old, hbefore, owned⟩ p hpd.1 d hpd.2.1 u hu (of_decide_eq_true hue)
    · rw [hamong p d hpd] at hn
      cases hn

/-- **The network refines the abstract rules.** A step that delivers in publication order and
meets `Settled` is a step of the abstract rules for `e`, or does not concern `e`. -/
theorem shows_step (hok : Settled members e s ev) (hfifo : ev.InOrder)
    (hstep : inMemoryStep members s ev = some s') :
    ∃ o', Shows e s' o' ∧ (o' = o ∨ OwnershipStep members o o') := by
  rcases step_cases hstep with ⟨_, _, _, _, -, -, rfl⟩ |
    ⟨x, op, now, r, event, rfl, hx, hperform, rfl⟩ | ⟨p, d, i, now, u, rfl, hu, rfl⟩
  · exact ⟨o, h, .inl rfl⟩
  · by_cases hop : op.entityId = e
    · obtain ⟨o', hshows, hnext⟩ := shows_call h hamong hx hop hok hperform
      exact ⟨o', hshows, .inr hnext⟩
    · obtain ⟨hvalid, hcell⟩ := h.node x
      obtain ⟨hr, hid⟩ := hvalid.perform hperform
      have hget := (perform_spec hperform).2.2.2 e fun h => hop h.symm
      exact ⟨o, h.publish_others members [event] ⟨hr, hget ▸ hcell⟩ (by simp [hid, hop]) now,
        .inl rfl⟩
  · obtain rfl : i = 0 := hfifo
    obtain ⟨us, hlink⟩ := exists_link_eq_cons hu
    obtain ⟨hvalid, hcell⟩ := h.node d
    obtain ⟨hr, hids⟩ := hvalid.applyRemoteUpdate u
    have hconsume := h.consume hlink
    by_cases hue : u.entityId = e
    · subst hue
      obtain ⟨n, ns, hhead, rfl⟩ := h.exists_head hlink rfl
      have hreceive : OwnershipStep members _ _ := .receive hhead
      rw [hcell, receive_toNotice u _ now] at hreceive
      rw [if_pos rfl] at hconsume
      refine ⟨_, hconsume.publish_events members _ ⟨hr, ?_⟩ hids ?_, .inr hreceive⟩
      · rw [get_applyRemoteUpdate, if_pos rfl]
      · rw [← applyRemoteUpdate_events]
        exact forall₂_map_right_iff.mpr (forall₂_same.mpr fun _ _ => rfl)
    · rw [if_neg hue] at hconsume
      refine ⟨o, hconsume.publish_others members _ ⟨hr, ?_⟩ (fun event hevent => ?_) now, .inl rfl⟩
      · rwa [get_applyRemoteUpdate, if_neg fun h => hue h.symm]
      · rwa [hids event hevent]

end

end Projection

/-! ### Agreement -/

/-- **Agreement on the owner.** In every run that delivers in publication order, and in which `e`
is created only while no message about it is in flight and released only while no `CREATE` of it
is in flight, all members agree on the owner of `e` whenever no message about it is in flight. -/
theorem owners_agree (members : Finset N) (e : EntityId) {es : List (SyncEvent N V)}
    {s : InMemorySync N V} (hfifo : ∀ ev ∈ es, ev.InOrder)
    (hsettled : AllSteps (inMemoryStep members) (Settled members e) inMemoryInitial es)
    (hrun : exec (inMemoryStep members) inMemoryInitial es = some s)
    (hquiet : ∀ p ∈ members, ∀ d ∈ members, ∀ u ∈ s.link p d, u.entityId ≠ e) {x y : N}
    (hx : x ∈ members) (hy : y ∈ members) :
    ((s.node x).entities.get e).map (·.ownerNodeId) =
      ((s.node y).entities.get e).map (·.ownerNodeId) := by
  obtain ⟨o, hshows, hist, top, ver, h⟩ : ∃ o, Shows e s o ∧
      ∃ hist top ver, Lineage members hist top ver o := by
    refine exec_invariant (P := fun s => ∃ o, Shows e s o ∧
      ∃ hist top ver, Lineage members hist top ver o) (fun s ev s' hs hok hstep => ?_)
      ⟨⟨fun _ => none, fun _ _ => []⟩, ⟨fun x => ⟨valid_create x, rfl⟩, fun _ _ => .nil⟩, _, _, _,
        Lineage.of_unknown (fun _ _ => rfl) (fun _ _ => rfl) x⟩ (hsettled.and_forall hfifo) hrun
    obtain ⟨o, hshows, hist, top, ver, h⟩ := hs
    obtain ⟨o', hshows', rfl | hnext⟩ := shows_step hshows h.among hok.1 hok.2 hstep
    · exact ⟨o', hshows', hist, top, ver, h⟩
    · exact ⟨o', hshows', h.step hnext⟩
  have hcell := h.agree (link_eq_nil hshows h.among hquiet) hx hy
  have howner := congrArg (Option.map Prod.fst) hcell
  rw [(hshows.node x).2, (hshows.node y).2, Option.map_map, Option.map_map] at howner
  exact howner

/-- `n1` creates an entity and hands it over to `n2`, which updates it once it has heard of that;
everything is delivered. -/
def handOverEntity : List (SyncEvent String ℕ) :=
  [.call "n1" (.proposeEntity "e" none) 0, .call "n1" (.transferEntity "e" "n2") 1,
    .deliver "n1" "n2" 0 2, .deliver "n1" "n2" 0 3,
    .call "n2" (.updateEntity "e" (OrderedMap.empty.set "k" 5)) 4,
    .deliver "n2" "n1" 0 5, .deliver "n2" "n1" 0 6, .deliver "n2" "n1" 0 7,
    .deliver "n1" "n2" 0 8]

theorem owners_agree_handOver :
    ∃ s, exec (inMemoryStep {"n1", "n2"}) inMemoryInitial handOverEntity = some s ∧
      ((s.node "n1").entities.get "e").map (·.ownerNodeId) =
        ((s.node "n2").entities.get "e").map (·.ownerNodeId) := by
  have hrun : exec (inMemoryStep {"n1", "n2"}) inMemoryInitial handOverEntity = some _ := rfl
  exact ⟨_, hrun, owners_agree {"n1", "n2"} "e" (by decide) (by decide) hrun (by decide)
    (by decide) (by decide)⟩

def concurrentProposals : List (SyncEvent String ℕ) :=
  [.call "n1" (.proposeEntity "e" none) 0, .call "n2" (.proposeEntity "e" none) 0,
    .deliver "n1" "n2" 0 1, .deliver "n2" "n1" 0 1]

/-- The members need not agree: after two concurrent creations each node keeps its own. -/
theorem not_agree_of_concurrent_proposals :
    ¬ ∀ (members : Finset String) (es : List (SyncEvent String ℕ)) (s : InMemorySync String ℕ),
      (∀ ev ∈ es, ev.InOrder) → exec (inMemoryStep members) inMemoryInitial es = some s →
      (∀ p ∈ members, ∀ d ∈ members, s.link p d = []) →
      ∀ e, ∀ x ∈ members, ∀ y ∈ members, ((s.node x).entities.get e).map (·.ownerNodeId) =
          ((s.node y).entities.get e).map (·.ownerNodeId) := by
  intro h
  have hsame := h {"n1", "n2"} concurrentProposals _ (by decide) rfl (by decide) "e" "n1"
    (by decide) "n2" (by decide)
  exact absurd hsame (by decide)

end DistributedCore.Entity
