import DistributedCore.Entity.CrdtClock
import DistributedCore.Entity.CrdtConvergence
import DistributedCore.Entity.TombstoneOrder
import DistributedCore.Entity.InMemoryRegistry

/-!
# Bootstrapping a registry from the snapshots of its peers

`EntityRegistryBootstrapper.bootstrap` collects the snapshots that peers send within a time
window, keeps for every entity the record with the highest version and hands it as a `CREATE` to
`applyRemoteUpdate` of the local registry. The result does not depend on the order in which the
responses arrive, if records of one entity with equal versions are identical.

Source: `src/cluster/entity/EntityRegistryBootstrapper.ts`.
-/

namespace DistributedCore.Entity

open CrdtEntityRegistry EntityRecord OrderedMap List Prod

variable {N V S : Type}

/-! ### The code -/

/-- The answer of a peer to a bootstrap request. -/
structure SnapshotResponse (N V : Type) where
  requestId : String
  fromNodeId : N
  entities : List (EntityRecord N V)

structure BootstrapResult where
  respondersCount : ℕ
  entitiesMerged : ℕ
  metMinResponders : Bool

def EntityRecord.toCreate (record : EntityRecord N V) : EntityUpdate N V where
  entityId := record.entityId
  ownerNodeId := record.ownerNodeId
  version := record.version
  timestamp := record.lastUpdated
  operation := .create
  metadata := some record.metadata

/-- A record replaces a held one of a lower version. -/
def keepBest (best : Entities N V) (record : EntityRecord N V) : Entities N V :=
  match best.get record.entityId with
  | none => best.set record.entityId record
  | some existing =>
    if record.version > existing.version then best.set record.entityId record else best

def bestRecords (responses : List (SnapshotResponse N V)) : Entities N V :=
  responses.foldl (fun best response => response.entities.foldl keepBest best) .empty

/-- `bootstrap`, from the responses on, in the order in which they have arrived. Both registries
answer `true` to every update. `clock e` is the time at which the record of `e` is applied. -/
def bootstrap (R : RegistryOps N V S) (minResponders : ℕ) (clock : EntityId → ℕ) (r : S)
    (responses : List (SnapshotResponse N V)) : S × BootstrapResult :=
  let best := (bestRecords responses).values
  (best.foldl (fun r record =>
      (R.applyRemoteUpdate r record.toCreate (clock record.entityId)).1) r,
    { respondersCount := responses.length
      entitiesMerged := best.length
      metMinResponders := responses.length ≥ minResponders })

/-! ### The best record of an entity -/

def allRecords (responses : List (SnapshotResponse N V)) : List (EntityRecord N V) :=
  responses.flatMap SnapshotResponse.entities

/-- The first of the records of the entity with the highest version. -/
def FirstHighest (records : List (EntityRecord N V)) (e : EntityId) (b : EntityRecord N V) : Prop :=
  ∃ l₁ l₂, records = l₁ ++ b :: l₂ ∧ b.entityId = e ∧
    (∀ c ∈ l₁, c.entityId = e → c.version < b.version) ∧
    ∀ c ∈ l₂, c.entityId = e → c.version ≤ b.version

section Best

variable {responses responses' : List (SnapshotResponse N V)} {records : List (EntityRecord N V)}
  {e : EntityId} {b b' : EntityRecord N V}

theorem bestRecords_eq (responses : List (SnapshotResponse N V)) :
    bestRecords responses = (allRecords responses).foldl keepBest .empty := by
  rw [bestRecords, allRecords, flatMap, foldl_flatten, foldl_map]

theorem FirstHighest.mem (h : FirstHighest records e b) : b ∈ records ∧ b.entityId = e := by
  obtain ⟨l₁, l₂, rfl, he, -, -⟩ := h
  exact ⟨mem_append_right _ mem_cons_self, he⟩

theorem FirstHighest.le (h : FirstHighest records e b) {c : EntityRecord N V} (hc : c ∈ records)
    (he : c.entityId = e) : c.version ≤ b.version := by
  obtain ⟨l₁, l₂, rfl, -, hl₁, hl₂⟩ := h
  rcases mem_append.mp hc with hc | hc
  · exact (hl₁ c hc he).le
  · rcases mem_cons.mp hc with rfl | hc
    · exact le_rfl
    · exact hl₂ c hc he

theorem get_keepBest (best : Entities N V) (record : EntityRecord N V) (e : EntityId) :
    (keepBest best record).get e =
      if record.entityId = e ∧ ∀ c ∈ best.get e, c.version < record.version then some record
      else best.get e := by
  rw [keepBest]
  by_cases he : record.entityId = e
  · subst he
    cases hget : best.get record.entityId with
    | none => simp [get_set_self]
    | some existing =>
      by_cases hver : existing.version < record.version
      · simp [hver, get_set_self]
      · simp [hver, hget]
  · have hne : e ≠ record.entityId := fun h => he h.symm
    cases best.get record.entityId with
    | none => simp [he, get_set_of_ne _ _ hne]
    | some existing =>
      by_cases hver : existing.version < record.version <;>
        simp [he, hver, get_set_of_ne _ _ hne]

/-- What the loop has found after the records: the first one with the highest version, if there is
one at all. -/
theorem get_foldl_keepBest (records : List (EntityRecord N V)) (e : EntityId) :
    (∀ b, (records.foldl keepBest .empty).get e = some b → FirstHighest records e b) ∧
      ((records.foldl keepBest .empty).get e = none → ∀ c ∈ records, c.entityId ≠ e) := by
  induction records using reverseRecOn with
  | nil => exact ⟨fun b hb => (nomatch hb), fun _ c hc => absurd hc not_mem_nil⟩
  | append_singleton records record ih =>
    obtain ⟨ihsome, ihnone⟩ := ih
    rw [foldl_append, foldl_cons, foldl_nil, get_keepBest]
    split_ifs with hbest
    · refine ⟨fun b hb => ?_, fun h => nomatch h⟩
      cases hb
      refine ⟨records, [], rfl, hbest.1, fun c hc hce => ?_, fun c hc => absurd hc not_mem_nil⟩
      cases hget : (records.foldl keepBest .empty).get e with
      | none => exact absurd hce (ihnone hget c hc)
      | some b => exact ((ihsome b hget).le hc hce).trans_lt (hbest.2 b hget)
    · refine ⟨fun b hb => ?_, fun h c hc => ?_⟩
      · obtain ⟨l₁, l₂, rfl, hbe, hl₁, hl₂⟩ := ihsome b hb
        refine ⟨l₁, l₂ ++ [record], by simp, hbe, hl₁, fun c hc hce => ?_⟩
        rcases mem_append.mp hc with hc | hc
        · exact hl₂ c hc hce
        · obtain rfl := mem_singleton.mp hc
          exact not_lt.mp fun hlt => hbest ⟨hce, fun b' hb' => by
            rw [hb] at hb'
            exact Option.some.inj hb' ▸ hlt⟩
      · rcases mem_append.mp hc with hc | hc
        · exact ihnone h c hc
        · obtain rfl := mem_singleton.mp hc
          exact fun hce => hbest ⟨hce, fun b' hb' => by rw [h] at hb'; cases hb'⟩

theorem FirstHighest.unique (h : FirstHighest records e b) (h' : FirstHighest records e b') :
    b = b' := by
  have hle := h.le h'.mem.1 h'.mem.2
  have hle' := h'.le h.mem.1 h.mem.2
  obtain ⟨l₁, l₂, rfl, hbe, hl₁, -⟩ := h
  obtain ⟨l₁', l₂', heq, hbe', hl₁', -⟩ := h'
  -- the one that comes later would have a greater version
  rcases append_eq_append_iff.mp heq with ⟨l, rfl, hl⟩ | ⟨l, rfl, hl⟩
  · cases l with
    | nil => exact (cons.inj hl).1
    | cons =>
      obtain rfl := (cons.inj hl).1
      exact absurd (hl₁' b (by simp) hbe) hle.not_gt
  · cases l with
    | nil => exact (cons.inj hl).1.symm
    | cons =>
      obtain rfl := (cons.inj hl).1
      exact absurd (hl₁ b' (by simp) hbe') hle'.not_gt

/-- **A bootstrap takes the first record with the highest version.** -/
theorem get_bestRecords_eq_some_iff :
    (bestRecords responses).get e = some b ↔ FirstHighest (allRecords responses) e b := by
  obtain ⟨hsome, hnone⟩ := get_foldl_keepBest (allRecords responses) e
  rw [bestRecords_eq]
  refine ⟨hsome b, fun h => ?_⟩
  cases hget : ((allRecords responses).foldl keepBest .empty).get e with
  | none => exact absurd h.mem.2 (hnone hget b h.mem.1)
  | some b' => rw [(hsome b' hget).unique h]

theorem get_bestRecords_eq_none_iff :
    (bestRecords responses).get e = none ↔ ∀ c ∈ allRecords responses, c.entityId ≠ e := by
  obtain ⟨hsome, hnone⟩ := get_foldl_keepBest (allRecords responses) e
  rw [bestRecords_eq]
  refine ⟨hnone, fun h => Option.eq_none_iff_forall_ne_some.mpr fun b hb => ?_⟩
  exact h b (hsome b hb).mem.1 (hsome b hb).mem.2

/-- Records of the same entity and version are equal. -/
def Consistent (records : List (EntityRecord N V)) : Prop :=
  ∀ b ∈ records, ∀ c ∈ records, b.entityId = c.entityId → b.version = c.version → b = c

theorem get_bestRecords_of_perm (hcons : Consistent (allRecords responses))
    (hperm : responses'.Perm responses) (e : EntityId) :
    (bestRecords responses').get e = (bestRecords responses).get e := by
  have hmem : ∀ c, c ∈ allRecords responses' ↔ c ∈ allRecords responses := fun c =>
    (hperm.flatMap_right _).mem_iff
  cases hget : (bestRecords responses).get e with
  | none =>
    rw [get_bestRecords_eq_none_iff] at hget ⊢
    exact fun c hc => hget c ((hmem c).mp hc)
  | some b =>
    have hb := get_bestRecords_eq_some_iff.mp hget
    cases hget' : (bestRecords responses').get e with
    | none => exact absurd hb.mem.2 (get_bestRecords_eq_none_iff.mp hget' b ((hmem b).mpr hb.mem.1))
    | some b' =>
      have hb' := get_bestRecords_eq_some_iff.mp hget'
      have hmem' := (hmem b').mp hb'.mem.1
      rw [hcons b' hmem' b hb.mem.1 (hb'.mem.2.trans hb.mem.2.symm)
        (le_antisymm (hb.le hmem' hb'.mem.2) (hb'.le ((hmem b).mpr hb.mem.1) hb.mem.2))]

theorem filter_bestRecords (responses : List (SnapshotResponse N V)) (e : EntityId) :
    ((bestRecords responses).values.map toCreate).filter (fun u => u.entityId = e) =
      ((bestRecords responses).get e).toList.map toCreate := by
  rw [filter_map]
  exact congrArg _ (filter_values EntityRecord.entityId _ e fun _ _ h =>
    (get_bestRecords_eq_some_iff.mp h).mem.2)

end Best

/-! ### What a bootstrap leaves -/

def InMemoryEntityRegistry.view (r : InMemoryEntityRegistry N V) (e : EntityId) :
    Option (EntityView N V) :=
  (r.entities.get e).map EntityRecord.view

section Results

variable {minResponders : ℕ} {clock : EntityId → ℕ} {responses : List (SnapshotResponse N V)}

theorem entities_foldl_toCreate [DecidableEq N] (clock : EntityId → ℕ) :
    (records : List (EntityRecord N V)) → (r : InMemoryEntityRegistry N V) →
      (records.foldl (fun r record => (inMemoryOps.applyRemoteUpdate r record.toCreate
        (clock record.entityId)).1) r).entities = r.entities.replay (records.map toCreate)
  | [], _ => rfl
  | record :: records, r =>
    entities_foldl_toCreate clock records (r.applyRemoteUpdate record.toCreate).1

theorem get_bootstrap_inMemory [DecidableEq N] (r : InMemoryEntityRegistry N V) (e : EntityId) :
    (bootstrap inMemoryOps minResponders clock r responses).1.entities.get e = (r.entities.get e).or
        (((bestRecords responses).get e).map fun b => b.toCreate.newRecord) := by
  rw [bootstrap]
  rw [entities_foldl_toCreate, Entities.get_replay, filter_bestRecords]
  cases (bestRecords responses).get e with
  | none => simp
  | some => cases r.entities.get e <;> rfl

variable [LinearOrder N] [OrderBot N] {r : CrdtEntityRegistry N V}

theorem slot_bootstrap_crdt (hex : r.Exclusive) (e : EntityId) :
    (bootstrap crdtOps minResponders clock r responses).1.slot e =
      match (bestRecords responses).get e with
      | none => r.slot e
      | some b => lwwWrite (r.slot e) b.toCreate.toWrite := by
  have hreceive : (bootstrap crdtOps minResponders clock r responses).1 =
      receive r ((bestRecords responses).values.map fun b => (b.toCreate, clock b.entityId)) := by
    rw [receive, foldl_map]
    rfl
  have hupdates : ((bestRecords responses).values.map fun b =>
      (b.toCreate, clock b.entityId)).map fst =
        (bestRecords responses).values.map toCreate := map_map
  rw [hreceive, slot_receive e _ r hex, hupdates, writesOf, filter_bestRecords]
  cases (bestRecords responses).get e <;> rfl

end Results

/-! ### The guarantee -/

/-- Every entity of the responses ends with a record that is at least as new as the local record
before and as every record of the responses. -/
def NeverRegresses (before after : EntityId → Option (EntityView N V))
    (records : List (EntityRecord N V)) : Prop :=
  ∀ e, (∃ c ∈ records, c.entityId = e) → ∃ v, after e = some v ∧
    (∀ v₀ ∈ before e, v₀.version ≤ v.version) ∧
    ∀ c ∈ records, c.entityId = e → c.version ≤ v.version

/-- The order of the answers does not matter if they are consistent. -/
def OrderIndependent (after : List (SnapshotResponse N V) → EntityId → Option (EntityView N V))
    (responses : List (SnapshotResponse N V)) : Prop :=
  Consistent (allRecords responses) →
    ∀ responses', responses'.Perm responses → ∀ e, after responses' e = after responses e

section Guarantee

variable {minResponders : ℕ} {clock : EntityId → ℕ} {responses : List (SnapshotResponse N V)}
  {e : EntityId}

theorem exists_firstHighest (h : ∃ c ∈ allRecords responses, c.entityId = e) :
    ∃ b, FirstHighest (allRecords responses) e b := by
  obtain ⟨c, hc, he⟩ := h
  cases hget : (bestRecords responses).get e with
  | none => exact absurd he (get_bestRecords_eq_none_iff.mp hget c hc)
  | some b => exact ⟨b, get_bestRecords_eq_some_iff.mp hget⟩

theorem neverRegresses_iff {before after : EntityId → Option (EntityView N V)} :
    NeverRegresses before after (allRecords responses) ↔
      ∀ e b, FirstHighest (allRecords responses) e b → ∃ v, after e = some v ∧
        (∀ v₀ ∈ before e, v₀.version ≤ v.version) ∧ b.version ≤ v.version := by
  constructor
  · intro h e b hb
    obtain ⟨v, hv, hbefore, hle⟩ := h e ⟨b, hb.mem⟩
    exact ⟨v, hv, hbefore, hle b hb.mem.1 hb.mem.2⟩
  · intro h e he
    obtain ⟨b, hb⟩ := exists_firstHighest he
    obtain ⟨v, hv, hbefore, hle⟩ := h e b hb
    exact ⟨v, hv, hbefore, fun c hc hce => (hb.le hc hce).trans hle⟩

theorem neverRegresses_inMemory_iff [DecidableEq N] (r : InMemoryEntityRegistry N V) :
    NeverRegresses r.view (bootstrap inMemoryOps minResponders clock r responses).1.view
        (allRecords responses) ↔
      ∀ e c₀, r.entities.get e = some c₀ → ∀ c ∈ allRecords responses, c.entityId = e →
        c.version ≤ c₀.version := by
  rw [neverRegresses_iff]
  constructor
  · intro h e c₀ hc₀ c hc hce
    obtain ⟨b, hb⟩ := exists_firstHighest ⟨c, hc, hce⟩
    obtain ⟨v, hv, -, hle⟩ := h e b hb
    rw [InMemoryEntityRegistry.view, get_bootstrap_inMemory, hc₀] at hv
    cases hv
    exact (hb.le hc hce).trans hle
  · intro h e b hb
    rw [InMemoryEntityRegistry.view, InMemoryEntityRegistry.view, get_bootstrap_inMemory,
      get_bestRecords_eq_some_iff.mpr hb]
    cases hget : r.entities.get e with
    | none => exact ⟨_, rfl, fun v hv => (nomatch hv), le_rfl⟩
    | some c₀ =>
      exact ⟨_, rfl, fun v hv => (Option.some.inj hv ▸ le_rfl), h e c₀ hget b hb.mem.1 hb.mem.2⟩

variable [LinearOrder N] [OrderBot N]

theorem neverRegresses_crdt_iff (hr : r.Clocked) :
    NeverRegresses (liveView r) (liveView (bootstrap crdtOps minResponders clock r responses).1)
        (allRecords responses) ↔
      ∀ e b t, FirstHighest (allRecords responses) e b → r.tombstones.get e = some t →
        t.stamp ≤ b.toCreate.stamp := by
  have hafter : ∀ {e b}, FirstHighest (allRecords responses) e b →
      liveView (bootstrap crdtOps minResponders clock r responses).1 e =
        ((lwwWrite (r.slot e) b.toCreate.toWrite).map snd).join := by
    intro e b hb
    rw [liveView, ← join_slot, slot_bootstrap_crdt hr.exclusive, get_bestRecords_eq_some_iff.mpr hb]
  rw [neverRegresses_iff]
  constructor
  · intro h e b t hb ht
    by_contra hlt
    obtain ⟨v, hv, -⟩ := h e b hb
    have hnone := (hr.exclusive e).resolve_right (by simp [ht])
    rw [hafter hb, slot_of_tombstone hnone ht, lwwWrite_of_lt (not_le.mp hlt)] at hv
    cases hv
  · intro h e b hb
    rw [hafter hb]
    cases hc : r.entries.get e with
    | some c =>
      have hbefore : ∀ v₀ ∈ liveView r e, v₀.version = c.logicalTs := by
        intro v₀ hv₀
        rw [liveView, hc] at hv₀
        exact Option.some.inj hv₀ ▸ hr.version_eq hc
      rw [slot_of_entry hc]
      rcases lt_or_ge b.toCreate.stamp c.stamp with hlt | hle
      · refine ⟨c.record.view, by rw [lwwWrite_of_lt hlt]; rfl, fun v₀ hv₀ => ?_, ?_⟩
        · exact (hbefore v₀ hv₀).trans_le (hr.version_eq hc).ge
        · exact (Lex.monotone_fst _ _ hlt.le).trans (hr.version_eq hc).ge
      · refine ⟨_, by rw [lwwWrite_some_of_le hle]; rfl, fun v₀ hv₀ => ?_, le_rfl⟩
        exact (hbefore v₀ hv₀).trans_le (Lex.monotone_fst _ _ hle)
    | none =>
      -- no tombstone keeps the entity deleted
      have hle : ∀ s ∈ r.slot e, s.1 ≤ b.toCreate.toWrite.stamp := by
        intro s hs
        rw [CrdtEntityRegistry.slot, hc] at hs
        obtain ⟨t, ht, rfl⟩ := Option.map_eq_some_iff.mp hs
        exact h e b t hb ht
      refine ⟨_, by rw [lwwWrite_of_le hle]; rfl, fun v₀ hv₀ => ?_, le_rfl⟩
      rw [liveView, hc] at hv₀
      cases hv₀

end Guarantee

/-- **When a bootstrap keeps its guarantee.** The order of the responses never matters. An
in-memory registry ends at least as new as the responses exactly if no response has a newer record
of an entity that it knows already. A CRDT registry does exactly if no tombstone beats the first
record with the highest version. -/
theorem bootstrap_sound_iff [LinearOrder N] [OrderBot N] (minResponders : ℕ)
    (clock : EntityId → ℕ) (responses : List (SnapshotResponse N V)) :
    (∀ r : InMemoryEntityRegistry N V,
      NeverRegresses r.view (bootstrap inMemoryOps minResponders clock r responses).1.view
          (allRecords responses) ∧
        OrderIndependent (fun responses =>
          (bootstrap inMemoryOps minResponders clock r responses).1.view) responses ↔
      ∀ e c₀, r.entities.get e = some c₀ → ∀ c ∈ allRecords responses, c.entityId = e →
        c.version ≤ c₀.version) ∧
    ∀ r : CrdtEntityRegistry N V, r.Clocked →
      (NeverRegresses (liveView r) (liveView (bootstrap crdtOps minResponders clock r responses).1)
          (allRecords responses) ∧
        OrderIndependent (fun responses =>
          liveView (bootstrap crdtOps minResponders clock r responses).1) responses ↔
      ∀ e b t, FirstHighest (allRecords responses) e b → r.tombstones.get e = some t →
        t.stamp ≤ b.toCreate.stamp) := by
  constructor
  · intro r
    rw [neverRegresses_inMemory_iff]
    refine and_iff_left fun hcons responses' hperm e => ?_
    simp only [InMemoryEntityRegistry.view, get_bootstrap_inMemory,
      get_bestRecords_of_perm hcons hperm]
  · intro r hr
    rw [neverRegresses_crdt_iff hr]
    refine and_iff_left fun hcons responses' hperm e => ?_
    simp only [liveView, ← join_slot, slot_bootstrap_crdt hr.exclusive,
      get_bestRecords_of_perm hcons hperm]

def responseOfN2 (version : ℤ) : SnapshotResponse String ℕ where
  requestId := "bootstrap"
  fromNodeId := "n2"
  entities := [⟨"e", some "n2", version, 0, 0, .empty⟩]

/-- A registry with a tombstone of `e` and an entity of its own. -/
def knowing : CrdtEntityRegistry String ℕ :=
  ((CrdtEntityRegistry.create "n1").applyRemoteUpdate (fromN2 "e" 4 .delete) 0).applyRemoteUpdate
    (fromN2 "g" 2 .create) 1

/-- Two responses have different versions of an entity whose tombstone is older than one of them. -/
theorem bootstrap_sound_iff_knowing : (liveView knowing "e").isNone ∧
    NeverRegresses (liveView knowing) (liveView (bootstrap crdtOps 1 (fun _ => 0) knowing
      [responseOfN2 3, responseOfN2 5]).1) (allRecords [responseOfN2 3, responseOfN2 5]) := by
  have hclocked : knowing.Clocked :=
    ((clocked_create "n1").applyRemoteUpdate _ 0).applyRemoteUpdate _ 1
  refine ⟨rfl, (((bootstrap_sound_iff 1 (fun _ => 0) [responseOfN2 3, responseOfN2 5]).2 _
    hclocked).mpr fun e b t hb ht => ?_).1⟩
  obtain ⟨hmem, rfl⟩ := hb.mem
  have hcases : b = ⟨"e", some "n2", 3, 0, 0, .empty⟩ ∨ b = ⟨"e", some "n2", 5, 0, 0, .empty⟩ := by
    simpa [allRecords, responseOfN2] using hmem
  rcases hcases with rfl | rfl
  · have hle := hb.le (c := ⟨"e", some "n2", 5, 0, 0, .empty⟩)
      (by simp [allRecords, responseOfN2]) rfl
    exact absurd hle (by decide)
  · cases ht
    decide

/-- An in-memory registry keeps its old record: `n1` has created the entity itself, and the
response has version 5. -/
theorem regresses_of_known_entity :
    ¬ ∀ (r : InMemoryEntityRegistry String ℕ) (responses : List (SnapshotResponse String ℕ)),
      (∃ op now event, ((InMemoryEntityRegistry.create "n1").start).perform op now =
        .ok (r, event)) →
      NeverRegresses r.view (bootstrap inMemoryOps 1 (fun _ => 0) r responses).1.view
        (allRecords responses) := by
  intro h
  have hnever := h _ [responseOfN2 5] ⟨.proposeEntity "e" none, 0, _, rfl⟩
  rw [neverRegresses_inMemory_iff] at hnever
  exact absurd (hnever "e" _ rfl _ mem_cons_self rfl) (by decide)

end DistributedCore.Entity
