import DistributedCore.Entity.InMemoryRegistry
import Mathlib.Algebra.BigOperators.Group.Finset.Piecewise
import Mathlib.Algebra.Order.BigOperators.Group.Finset

/-!
# Termination of the echo

An in-memory registry emits an event for every remote update that takes effect, and the adapter
publishes it again. Nothing bounds these echoes by itself: a node that has lost an entity by a
`DELETE` accepts its next `CREATE`, so a `CREATE` and a `DELETE` of one entity can chase each
other around the cluster for ever (`not_terminates_of_release_before_echo`).
-/

namespace DistributedCore.Entity

open SyncNetwork Finset InMemoryEntityRegistry List Option

variable {M W : Type} [DecidableEq M] {now i : ℕ} {us : List (EntityUpdate M W)}
  {u : EntityUpdate M W}

def SyncEvent.IsDelivery : SyncEvent M W → Prop
  | .call .. => False
  | .deliver .. => True

/-- Delivery `n` of the schedule hands a `CREATE` to a node that lacks the entity but held it
earlier in the schedule. -/
def Recreates (members : Finset M) (s : InMemorySync M W) (evs : ℕ → SyncEvent M W) (n : ℕ) :
    Prop :=
  ∃ p d i now t u, evs n = .deliver p d i now ∧
    stateAt (inMemoryStep members) s evs n = some t ∧ (t.link p d)[i]? = some u ∧
    u.operation = .create ∧ (t.node d).entities.get u.entityId = none ∧
    ∃ m < n, ∃ t₀, stateAt (inMemoryStep members) s evs m = some t₀ ∧
      (t₀.node d).entities.get u.entityId ≠ none

/-! ### Bounds -/

/-- The entity and the version lie within the bounds. -/
def Within (U : Finset EntityId) (V : ℤ) (e : EntityId) (version : ℤ) : Prop :=
  e ∈ U ∧ 0 ≤ version ∧ version ≤ V

/-- Every record is stored under its id, messages only travel between different members, and
the entities and versions of records and messages are in `U` and at most `V`. -/
structure Bounded (members : Finset M) (U : Finset EntityId) (V : ℤ) (s : InMemorySync M W) :
    Prop where
  nonneg : 0 ≤ V
  node : ∀ x, (s.node x).Valid x ∧ ∀ e, ∀ c ∈ (s.node x).entities.get e, Within U V e c.version
  message : ∀ {p d u}, u ∈ s.link p d →
    (p ∈ members ∧ d ∈ members) ∧ Within U V u.entityId u.version

section Bounded

variable {members : Finset M} {U : Finset EntityId} {V : ℤ} {s s' : InMemorySync M W}

omit [DecidableEq M] in
theorem bounded_initial (members : Finset M) :
    Bounded members ∅ 0 (inMemoryInitial : InMemorySync M W) where
  nonneg := le_rfl
  node x := ⟨valid_create x, fun _ _ h => nomatch h⟩
  message h := nomatch h

section

variable (hs : Bounded members U V s)

include hs

variable {r : InMemoryEntityRegistry M W} {x : M}

theorem Bounded.publish (hx : x ∈ members) (hr : r.Valid x)
    {e : EntityId} (he : e ∈ U) (hget : ∀ e' ≠ e, r.entities.get e' = (s.node x).entities.get e')
    (hrecord : ∀ c ∈ r.entities.get e, 0 ≤ c.version ∧ c.version ≤ V) (now : ℕ)
    (events : List (RegistryEvent M W)) (hevents : ∀ event ∈ events, event.record.entityId = e ∧
      0 ≤ event.record.version ∧ event.record.version ≤ V) :
    Bounded members U V ((s.setNode x r).publish members x (events.map (adapterUpdate now))) where
  nonneg := hs.nonneg
  node := by
    refine (Function.forall_update_iff s.node fun x r => r.Valid x ∧ ∀ e, ∀ c ∈ r.entities.get e,
      Within U V e c.version).mpr ⟨⟨hr, fun e' c hc => ?_⟩, fun y _ => hs.node y⟩
    by_cases heq : e' = e
    · subst heq
      exact ⟨he, hrecord c hc⟩
    · exact (hs.node x).2 e' c (hget e' heq ▸ hc)
  message {p d u} h := by
    rw [link_publish, setNode_link] at h
    split_ifs at h with hpd
    · rcases mem_append.mp h with h | h
      · exact hs.message h
      · obtain ⟨event, hevent, rfl⟩ := mem_map.mp h
        obtain ⟨rfl, hver⟩ := hevents event hevent
        rw [adapterUpdate_entityId, adapterUpdate_version]
        exact ⟨⟨hpd.1 ▸ hx, hpd.2.1⟩, he, hver⟩
    · exact hs.message h

omit [DecidableEq M] in
theorem Bounded.mono {U' : Finset EntityId} {V' : ℤ} (hU : U ⊆ U')
    (hV : V ≤ V') : Bounded members U' V' s := by
  have hwithin : ∀ {e v}, Within U V e v → Within U' V' e v := fun h =>
    ⟨hU h.1, h.2.1, h.2.2.trans hV⟩
  exact ⟨hs.nonneg.trans hV, fun x => ⟨(hs.node x).1, fun e c hc => hwithin ((hs.node x).2 e c hc)⟩,
    fun h => ⟨(hs.message h).1, hwithin (hs.message h).2⟩⟩

theorem Bounded.consume (p d : M) (i : ℕ) : Bounded members U V (s.consume p d i) :=
  ⟨hs.nonneg, hs.node, fun h => hs.message (mem_link_consume h)⟩

theorem Bounded.call (hx : x ∈ members) {op : LocalOp M W}
    {event : RegistryEvent M W} (hperform : (s.node x).perform op now = .ok (r, event)) :
    Bounded members (insert op.entityId U) (V + 1)
      ((s.setNode x r).publish members x [adapterUpdate now event]) := by
  obtain ⟨hr, hid⟩ := (hs.node x).1.perform hperform
  obtain ⟨hspec, -, -, hother⟩ := perform_spec hperform
  have hold := (hs.node x).2 op.entityId
  have hnonneg := hs.nonneg
  -- the versions of the event and of the record after the call
  have hver : (0 ≤ event.record.version ∧ event.record.version ≤ V + 1) ∧
      ∀ c ∈ r.entities.get op.entityId, 0 ≤ c.version ∧ c.version ≤ V + 1 := by
    generalize (s.node x).entities.get op.entityId = before at hspec hold
    generalize r.entities.get op.entityId = after at hspec
    cases hspec with
    | @proposed _ _ record id owner version =>
      have hrecord : 0 ≤ record.version ∧ record.version ≤ V + 1 := by omega
      exact ⟨hrecord, fun c hc => some.inj hc ▸ hrecord⟩
    | @updated _ _ old record owned id owner version
    | @transferred _ _ old record owned id owner version =>
      have hold := (hold old rfl).2
      have hrecord : 0 ≤ record.version ∧ record.version ≤ V + 1 := by omega
      exact ⟨hrecord, fun c hc => some.inj hc ▸ hrecord⟩
    | @released _ old =>
      exact ⟨(hold old rfl).2.imp_right (le_trans · (by omega)), fun c hc => nomatch hc⟩
  refine (hs.mono (subset_insert op.entityId U) (by omega)).publish hx hr (mem_insert_self _ _)
    hother hver.2 now [event] fun event' hevent => ?_
  rw [List.mem_singleton.mp hevent]
  exact ⟨hid, hver.1⟩

theorem Bounded.deliver {p d : M} (hu : (s.link p d)[i]? = some u) :
    Bounded members U V (((s.consume p d i).setNode d ((s.node d).applyRemoteUpdate u).1).publish
      members d (((s.node d).applyRemoteUpdate u).2.map (adapterUpdate now))) := by
  obtain ⟨hr, hid⟩ := (hs.node d).1.applyRemoteUpdate u
  obtain ⟨hspec, hother⟩ := (s.node d).applyRemoteUpdate_spec u
  obtain ⟨⟨-, hd⟩, hU, hver⟩ := hs.message (mem_of_getElem? hu)
  have hold := (hs.node d).2 u.entityId
  -- every version after the delivery is the one of a record or of the update
  have hvers : (∀ event ∈ ((s.node d).applyRemoteUpdate u).2,
        0 ≤ event.record.version ∧ event.record.version ≤ V) ∧
      ∀ c ∈ ((s.node d).applyRemoteUpdate u).1.entities.get u.entityId,
        0 ≤ c.version ∧ c.version ≤ V := by
    generalize (s.node d).entities.get u.entityId = before at hspec hold
    generalize ((s.node d).applyRemoteUpdate u).1.entities.get u.entityId = after at hspec ⊢
    generalize ((s.node d).applyRemoteUpdate u).2 = events at hspec ⊢
    cases hspec with
    | created | updated | transferred =>
      exact ⟨fun event h => List.mem_singleton.mp h ▸ hver, fun c hc => some.inj hc ▸ hver⟩
    | deleted =>
      exact ⟨fun event h => List.mem_singleton.mp h ▸ (hold _ rfl).2, fun c hc => nomatch hc⟩
    | present => exact ⟨fun event h => (nomatch h), fun c hc => (hold c hc).2⟩
    | absent => exact ⟨fun event h => (nomatch h), fun c hc => (nomatch hc)⟩
  exact (hs.consume p d i).publish hd hr hU hother hvers.2 now _ fun event hevent =>
    ⟨hid event hevent, hvers.1 event hevent⟩

end

theorem exists_bounded {es : List (SyncEvent M W)}
    (hrun : exec (inMemoryStep members) inMemoryInitial es = some s) :
    ∃ U V, Bounded members U V s := by
  refine exec_invariant (P := fun s => ∃ U V, Bounded members U V s) (fun s ev s' hs _ hstep => ?_)
    ⟨∅, 0, bounded_initial members⟩ (allSteps_true _ _ es) hrun
  obtain ⟨U, V, hs⟩ := hs
  rcases step_cases hstep with
    ⟨_, _, _, _, -, -, rfl⟩ | ⟨x, op, now, r, event, -, hx, hperform, rfl⟩ |
    ⟨p, d, i, now, u, -, hu, rfl⟩
  · exact ⟨U, V, hs⟩
  · exact ⟨_, _, hs.call hx hperform⟩
  · exact ⟨U, V, hs.deliver hu⟩

end Bounded

/-! ### The measure -/

section Measure

variable {members : Finset M} {U : Finset EntityId} {V : ℤ} {s : InMemorySync M W}
  {evs : ℕ → SyncEvent M W}

/-- The node held the entity at some time up to `n`. -/
def HeldBy (members : Finset M) (s : InMemorySync M W) (evs : ℕ → SyncEvent M W) (n : ℕ) (x : M)
    (e : EntityId) : Prop :=
  ∃ m ≤ n, ∃ t, stateAt (inMemoryStep members) s evs m = some t ∧ (t.node x).entities.get e ≠ none

open Classical in
/-- How many updates of an entity may still take effect on a node: the versions that its record
has not reached and its removal, and its first creation if that is still ahead. -/
noncomputable def potential (V : ℤ) (record : Option (EntityRecord M W)) (held : Prop) : ℕ :=
  match record with
  | some c => (V - c.version).toNat + 1
  | none => if held then 0 else V.toNat + 2

/-- The measure: the potentials of all entities on all members, each worth as many messages as
an event publishes at most, and the messages in flight. -/
noncomputable def weight (members : Finset M) (U : Finset EntityId) (V : ℤ) (s : InMemorySync M W)
    (evs : ℕ → SyncEvent M W) (n : ℕ) (t : InMemorySync M W) : ℕ :=
  members.card * (∑ q ∈ members ×ˢ U,
      potential V ((t.node q.1).entities.get q.2) (HeldBy members s evs n q.1 q.2)) +
    ∑ q ∈ members ×ˢ members, (t.link q.1 q.2).length

variable {u : EntityUpdate M W}

omit [DecidableEq M] in
theorem EntityUpdate.Applied.potential_add_le
    {before after : Option (EntityRecord M W)} {events : List (RegistryEvent M W)}
    {held held' : Prop} (h : u.Applied before after events) (hu : 0 ≤ u.version ∧ u.version ≤ V)
    (hheld : held' ↔ held ∨ before ≠ none ∨ after ≠ none)
    (hfirst : u.operation = .create → before = none → ¬ held) :
    potential V after held' + events.length ≤ potential V before held := by
  cases h with
  | created op =>
    have hnot : ¬ held := hfirst op rfl
    simp only [potential, if_neg hnot, EntityUpdate.newRecord, length_singleton]
    omega
  | updated =>
    simp only [potential, EntityRecord.updatedBy, length_singleton]
    omega
  | transferred =>
    simp only [potential, EntityRecord.transferredBy, length_singleton]
    omega
  | deleted =>
    have hyes : held' := hheld.mpr (.inr (.inl (by simp)))
    simp [potential, hyes]
  | present => simp [potential]
  | absent =>
    obtain rfl : held' = held := propext (by simpa using hheld)
    simp

variable {t t' : InMemorySync M W} {n : ℕ}

/-- The messages in flight after a delivery with `k` events, counted by the copies that are
taken out and put in. -/
theorem length_link_deliver {p d : M} (hu : (t.link p d)[i]? = some u) (q : M × M) :
    ((((t.consume p d i).setNode d r).publish members d us).link q.1 q.2).length +
        (if q = (p, d) then 1 else 0) ≤
      (t.link q.1 q.2).length + if q.1 = d then us.length else 0 := by
  obtain ⟨p', d'⟩ := q
  have hi := (List.getElem?_eq_some_iff.mp hu).1
  have hconsume : ((t.consume p d i).link p' d').length + (if (p', d') = (p, d) then 1 else 0) =
      (t.link p' d').length := by
    rw [link_consume]
    by_cases hq : p' = p ∧ d' = d
    · obtain ⟨rfl, rfl⟩ := hq
      simp only [and_self, ↓reduceIte, length_eraseIdx, hi]
      omega
    · rw [if_neg hq, if_neg (by simpa using hq), add_zero]
  have hpublish : ((((t.consume p d i).setNode d r).publish members d us).link p' d').length ≤
      ((t.consume p d i).link p' d').length + if p' = d then us.length else 0 := by
    rw [link_publish, setNode_link]
    by_cases hp : p' = d
    · rw [if_pos hp]
      split_ifs
      · rw [length_append]
      · exact Nat.le_add_right _ _
    · rw [if_neg hp, if_neg fun h => hp h.1, add_zero]
  dsimp only
  omega

omit [DecidableEq M] in
theorem potential_eq_of_iff {record : Option (EntityRecord M W)} {held held' : Prop}
    (h : held' ↔ held ∨ record ≠ none ∨ record ≠ none) :
    potential V record held' = potential V record held := by
  cases record with
  | some => rfl
  | none =>
    obtain rfl : held' = held := propext (by simpa using h)
    rfl

section

variable (hn : stateAt (inMemoryStep members) s evs n = some t)

include hn

theorem heldBy_succ_iff
    (hn' : stateAt (inMemoryStep members) s evs (n + 1) = some t') (x : M) (e : EntityId) :
    HeldBy members s evs (n + 1) x e ↔ HeldBy members s evs n x e ∨
      (t.node x).entities.get e ≠ none ∨ (t'.node x).entities.get e ≠ none := by
  constructor
  · rintro ⟨m, hm, t₀, ht₀, hget⟩
    rcases Nat.lt_or_ge n m with hlt | hle
    · obtain rfl : m = n + 1 := by omega
      cases hn'.symm.trans ht₀
      exact .inr (.inr hget)
    · exact .inl ⟨m, hle, t₀, ht₀, hget⟩
  · rintro (⟨m, hm, t₀, ht₀, hget⟩ | hget | hget)
    · exact ⟨m, by omega, t₀, ht₀, hget⟩
    · exact ⟨n, by omega, t, hn, hget⟩
    · exact ⟨n + 1, le_rfl, t', hn', hget⟩

theorem not_heldBy_of_not_recreates {p d : M}
    (hev : evs n = .deliver p d i now) (hu : (t.link p d)[i]? = some u)
    (hfirst : ¬ Recreates members s evs n) (hop : u.operation = .create)
    (hnone : (t.node d).entities.get u.entityId = none) :
    ¬ HeldBy members s evs n d u.entityId := by
  rintro ⟨m, hm, t₀, ht₀, hget⟩
  rcases Nat.lt_or_ge m n with hlt | hle
  · exact hfirst ⟨p, d, i, now, t, u, hev, hn, hu, hop, hnone, m, hlt, t₀, ht₀, hget⟩
  · obtain rfl : m = n := by omega
    cases hn.symm.trans ht₀
    exact hget hnone

end

private theorem sum_prod_ite_eq {d : M} (hd : d ∈ members) (k : ℕ) :
    (∑ q ∈ members ×ˢ members, if q.1 = d then k else 0) = members.card * k := by
  rw [sum_product_right]
  simp [hd]

/-- **A delivery that re-creates nothing decreases the measure.** -/
theorem weight_lt (ht : Bounded members U V t)
    (hn : stateAt (inMemoryStep members) s evs n = some t)
    (hn' : stateAt (inMemoryStep members) s evs (n + 1) = some t') {p d : M}
    (hev : evs n = .deliver p d i now) (hu : (t.link p d)[i]? = some u)
    (ht' : t' = ((t.consume p d i).setNode d ((t.node d).applyRemoteUpdate u).1).publish members
      d (((t.node d).applyRemoteUpdate u).2.map (adapterUpdate now)))
    (hfirst : ¬ Recreates members s evs n) :
    weight members U V s evs (n + 1) t' < weight members U V s evs n t := by
  obtain ⟨⟨hp, hd⟩, hU, hver⟩ := ht.message (mem_of_getElem? hu)
  have hspec := ((t.node d).applyRemoteUpdate_spec u).1
  have hget := get_deliver ht'
  set k := ((t.node d).applyRemoteUpdate u).2.length with hk
  have hpotential : ∀ q ∈ members ×ˢ U,
      potential V ((t'.node q.1).entities.get q.2) (HeldBy members s evs (n + 1) q.1 q.2) +
          (if q = (d, u.entityId) then k else 0) ≤
        potential V ((t.node q.1).entities.get q.2) (HeldBy members s evs n q.1 q.2) := by
    rintro ⟨x, e⟩ -
    have hheld := heldBy_succ_iff hn hn' x e
    rw [hget] at hheld ⊢
    by_cases hq : x = d ∧ e = u.entityId
    · obtain ⟨rfl, rfl⟩ := hq
      simp only [and_self, ↓reduceIte] at hheld ⊢
      exact hspec.potential_add_le hver hheld fun hop hnone =>
        not_heldBy_of_not_recreates hn hev hu hfirst hop hnone
    · rw [if_neg hq] at hheld ⊢
      rw [if_neg (by simpa using hq), add_zero, potential_eq_of_iff hheld]
  have hmessages : ∀ q ∈ members ×ˢ members,
      (t'.link q.1 q.2).length + (if q = (p, d) then 1 else 0) ≤
        (t.link q.1 q.2).length + if q.1 = d then k else 0 := by
    intro q _
    rw [ht', hk, ← length_map (adapterUpdate now)]
    exact length_link_deliver hu q
  have hsum := sum_le_sum hpotential
  have hsum' := sum_le_sum hmessages
  rw [sum_add_distrib, sum_ite_eq', if_pos (mk_mem_product hd hU)] at hsum
  rw [sum_add_distrib, sum_add_distrib, sum_ite_eq', if_pos (mk_mem_product hp hd),
    sum_prod_ite_eq hd] at hsum'
  have hmul := Nat.mul_le_mul_left members.card hsum
  rw [Nat.mul_add] at hmul
  rw [weight, weight]
  omega

end Measure

/-! ### Which schedules stop -/

/-- **When the echo terminates.** From any network that is reached by calls and deliveries, a
schedule of deliveries stops exactly if from some point on it re-creates no entity. -/
theorem deliveries_stop_iff (members : Finset M) {es : List (SyncEvent M W)}
    {s : InMemorySync M W} (hrun : exec (inMemoryStep members) inMemoryInitial es = some s)
    (evs : ℕ → SyncEvent M W) (hevs : ∀ n, (evs n).IsDelivery) :
    (∃ n, stateAt (inMemoryStep members) s evs n = none) ↔
      ∃ N, ∀ n, N ≤ n → ¬ Recreates members s evs n := by
  constructor
  · rintro ⟨N, hN⟩
    refine ⟨N, fun n hn => ?_⟩
    rintro ⟨p, d, i, now, t, u, -, ht, -⟩
    rw [stateAt_eq_none_of_le hN hn] at ht
    cases ht
  · rintro ⟨N, hN⟩
    obtain ⟨U, V, hs⟩ := exists_bounded hrun
    have hdelivers : ∀ n t t', inMemoryStep members t (evs n) = some t' →
        ∃ p d i now u, evs n = .deliver p d i now ∧ (t.link p d)[i]? = some u ∧
          t' = ((t.consume p d i).setNode d ((t.node d).applyRemoteUpdate u).1).publish members
            d (((t.node d).applyRemoteUpdate u).2.map (adapterUpdate now)) := by
      intro n t t' hstep
      have hev := hevs n
      rcases step_cases hstep with ⟨_, _, _, _, hcall, -⟩ | ⟨_, _, _, _, _, hcall, -⟩ | hdeliver
      · rw [hcall] at hev
        exact hev.elim
      · rw [hcall] at hev
        exact hev.elim
      · exact hdeliver
    have hbounded : ∀ n {t}, stateAt (inMemoryStep members) s evs n = some t →
        Bounded members U V t := by
      refine stateAt_invariant hs fun n t t' ht hstep => ?_
      obtain ⟨p, d, i, now, u, -, hu, rfl⟩ := hdelivers n t t' hstep
      exact ht.deliver hu
    refine exists_stateAt_eq_none_of_decreasing (fun n =>
      (stateAt (inMemoryStep members) s evs n).elim 0 (weight members U V s evs n)) N ?_
    intro n hn t t' ht hstep ht'
    obtain ⟨p, d, i, now, u, hev, hu, heq⟩ := hdelivers n t t' hstep
    rw [ht, ht']
    exact weight_lt (hbounded n ht) ht ht' hev hu heq (hN n hn)

def createOnly : List (SyncEvent String ℕ) := [.call "n1" (.proposeEntity "e" none) 0]

theorem deliveries_stop_iff_create :
    ∃ s, exec (inMemoryStep {"n1", "n2"}) inMemoryInitial createOnly = some s ∧
      ∃ n, stateAt (inMemoryStep {"n1", "n2"}) s (fun _ => .deliver "n1" "n2" 0 1) n = none := by
  let evs : ℕ → SyncEvent String ℕ := fun _ => .deliver "n1" "n2" 0 1
  have hrun : ((exec (inMemoryStep {"n1", "n2"}) inMemoryInitial createOnly).any fun s =>
      (stateAt (inMemoryStep {"n1", "n2"}) s evs 1).any fun t => t.link "n1" "n2" = []) = true := by
    decide
  obtain ⟨s, hs, hs'⟩ := (any_eq_true _ _).mp hrun
  obtain ⟨t₁, ht₁, hempty⟩ := (any_eq_true _ _).mp hs'
  have hempty := of_decide_eq_true hempty
  have hstop : stateAt (inMemoryStep {"n1", "n2"}) s evs 2 = none := by
    rw [stateAt, ht₁, bind_some]
    simp [step, evs, hempty]
  refine ⟨s, hs, (deliveries_stop_iff _ hs evs fun _ => trivial).mpr ⟨0, fun n _ => ?_⟩⟩
  rintro ⟨p, d, i, now, t, u, hev, ht, hu, -, -, m, hm, -⟩
  have hn : n = 1 := by
    by_contra hn
    rw [stateAt_eq_none_of_le hstop (by omega)] at ht
    cases ht
  obtain ⟨rfl, rfl, rfl, rfl⟩ := SyncEvent.deliver.inj hev
  cases ht₁.symm.trans (hn ▸ ht)
  rw [hempty] at hu
  cases hu

/-! ### A schedule that never stops -/

/-- Both nodes lack `e`, and a `CREATE` and then a `DELETE` of `e` are in flight from `x` to
`y`, nothing the other way. -/
structure Chasing (e : EntityId) (x y : M) (s : InMemorySync M W) : Prop where
  sender : (s.node x).entities.get e = none
  receiver : (s.node y).entities.get e = none
  forth : ∃ c d : EntityUpdate M W, s.link x y = [c, d] ∧ c.entityId = e ∧ d.entityId = e ∧
    c.operation = .create ∧ d.operation = .delete
  back : s.link y x = []

section Chasing

variable {e : EntityId} {x y : M} {s : InMemorySync M W}

theorem exists_deliver_head (members : Finset M) (hxy : x ≠ y) (hx : x ∈ members)
    (hlink : s.link x y = u :: us) (now : ℕ) :
    ∃ s', inMemoryStep members s (.deliver x y 0 now) = some s' ∧ s'.link x y = us ∧
      s'.link y x = s.link y x ++
        (u.apply ((s.node y).entities.get u.entityId)).2.map (adapterUpdate now) ∧
      ∀ z e', (s'.node z).entities.get e' = if z = y ∧ e' = u.entityId then
        (u.apply ((s.node y).entities.get u.entityId)).1 else (s.node z).entities.get e' := by
  refine ⟨((s.consume x y 0).setNode y ((s.node y).applyRemoteUpdate u).1).publish members
    y (((s.node y).applyRemoteUpdate u).2.map (adapterUpdate now)), ?_, ?_, ?_, fun z e' => ?_⟩
  · simp [step, hlink, inMemoryOps]
  · simp [link_publish, link_consume, hlink]
  · simp [link_publish, link_consume, hx, hxy, applyRemoteUpdate_events]
  · rw [get_deliver rfl, get_applyRemoteUpdate, if_pos rfl]

theorem Chasing.turn (hs : Chasing e x y s) (members : Finset M) (hxy : x ≠ y) (hx : x ∈ members)
    (now : ℕ) :
    ∃ s', exec (inMemoryStep members) s [.deliver x y 0 now, .deliver x y 0 now] = some s' ∧
      Chasing e y x s' := by
  obtain ⟨c, d, hlink, rfl, hde, hc, hd⟩ := hs.forth
  obtain ⟨s₁, hstep₁, hforth₁, hback₁, hget₁⟩ := exists_deliver_head members hxy hx hlink now
  obtain ⟨s₂, hstep₂, hforth₂, hback₂, hget₂⟩ := exists_deliver_head members hxy hx hforth₁ now
  have hcreate : c.apply ((s.node y).entities.get c.entityId) =
      (some c.newRecord, [.created c.newRecord]) := by
    rw [hs.receiver]
    simp [EntityUpdate.apply, hc]
  have hdelete : d.apply ((s₁.node y).entities.get d.entityId) =
      (none, [.deleted c.newRecord]) := by
    rw [hget₁, hde, if_pos ⟨rfl, rfl⟩, hcreate]
    simp [EntityUpdate.apply, hd]
  rw [hcreate, hs.back] at hback₁
  rw [hdelete, hback₁] at hback₂
  refine ⟨s₂, ?_, ?_, ?_, ⟨_, _, hback₂, rfl, rfl, rfl, rfl⟩, hforth₂⟩
  · simp [exec, hstep₁, hstep₂]
  · rw [hget₂, hde, if_pos ⟨rfl, rfl⟩, ← hde, hdelete]
  · rw [hget₂, if_neg fun h => hxy h.1, hget₁, if_neg fun h => hxy h.1]
    exact hs.sender

end Chasing

/-- The echo need not terminate: `n1` creates an entity and releases it before the first echo,
and the two messages go back and forth for ever, in publication order. -/
theorem not_terminates_of_release_before_echo :
    ¬ ∀ (members : Finset String) (es : List (SyncEvent String ℕ)) (s : InMemorySync String ℕ),
      (∀ ev ∈ es, ev.InOrder) → exec (inMemoryStep members) inMemoryInitial es = some s →
      ∀ evs : ℕ → SyncEvent String ℕ, (∀ n, (evs n).IsDelivery ∧ (evs n).InOrder) →
      ∃ n, stateAt (inMemoryStep members) s evs n = none := by
  intro h
  have hrun : ((exec (inMemoryStep {"n1", "n2"}) inMemoryInitial createAndRelease).any fun s =>
      (s.node "n1").entities.get "e" = none ∧ (s.node "n2").entities.get "e" = none ∧
        s.link "n2" "n1" = [] ∧ (s.link "n1" "n2").map (fun u => (u.entityId, u.operation)) =
          [("e", .create), ("e", .delete)]) = true := by decide
  obtain ⟨s, hs, hs'⟩ := (any_eq_true _ _).mp hrun
  obtain ⟨hsender, hreceiver, hback, hforth⟩ := of_decide_eq_true hs'
  have hchasing : Chasing "e" "n1" "n2" s := by
    refine ⟨hsender, hreceiver, ?_, hback⟩
    match hlink : s.link "n1" "n2" with
    | [c, d] =>
      rw [hlink] at hforth
      simp only [List.map_cons, List.map_nil, List.cons.injEq, Prod.mk.injEq] at hforth
      exact ⟨c, d, rfl, hforth.1.1, hforth.2.1.1, hforth.1.2, hforth.2.1.2⟩
    | [] | [_] | _ :: _ :: _ :: _ => simp [hlink] at hforth
  have hrecurs : ∀ s : InMemorySync String ℕ, Chasing "e" "n1" "n2" s →
      ∃ es, es ≠ [] ∧ (∀ ev ∈ es, ev.IsDelivery ∧ ev.InOrder) ∧
        ∃ t, exec (inMemoryStep {"n1", "n2"}) s es = some t ∧ Chasing "e" "n1" "n2" t := by
    intro s hs
    obtain ⟨s₁, hs₁, hchasing₁⟩ := hs.turn {"n1", "n2"} (by decide) (by decide) 0
    obtain ⟨s₂, hs₂, hchasing₂⟩ := hchasing₁.turn {"n1", "n2"} (by decide) (by decide) 0
    refine ⟨[.deliver "n1" "n2" 0 0, .deliver "n1" "n2" 0 0] ++
      [.deliver "n2" "n1" 0 0, .deliver "n2" "n1" 0 0], by simp, ?_, s₂, ?_, hchasing₂⟩
    · simp [SyncEvent.IsDelivery, SyncEvent.InOrder]
    · rw [exec_append, hs₁, bind_some, hs₂]
  obtain ⟨evs, hevs, hnever⟩ := exists_schedule_of_recurrent hrecurs hchasing
  obtain ⟨n, hn⟩ := h _ _ s (by simp [createAndRelease, SyncEvent.InOrder]) hs evs hevs
  exact hnever n hn

end DistributedCore.Entity
