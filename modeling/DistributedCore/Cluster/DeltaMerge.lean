import DistributedCore.Cluster.StateDelta

/-!
# Merged deltas and patches

`mergeDeltas` keeps the last operation about each service and applies it to the services as they
were before the first one, where it need not succeed. `createServiceDelta` sends the parts of a
service whose JSON texts have changed, and `applyPatch` spreads them over those that are there, so
that a key that was removed stays.

Source: `src/cluster/delta-sync/StateDelta.ts`.
-/

namespace DistributedCore.Cluster

open Function OrderedMap List Option ServiceDelta

/-! ### Merging -/

/-- The services have the same data, up to the order of keys, in all that the patch does not set. -/
structure SameBeyond (patch : ServicePatch) (a b : LogicalService) : Prop where
  fixed : (a.id, a.type, a.nodeId, a.rangeId, a.checksum, a.conflictPolicy) =
    (b.id, b.type, b.nodeId, b.rangeId, b.checksum, b.conflictPolicy)
  version : patch.version = none → a.version = b.version
  lastUpdated : patch.lastUpdated = none → a.lastUpdated = b.lastUpdated
  stats : ∀ k, patch.stats.bind (·.get k) = none → a.stats.get k = b.stats.get k
  metadata : ∀ k, patch.metadata.bind (·.get k) = none → a.metadata.get k = b.metadata.get k
  vectorClock : ∀ k, patch.vectorClock.bind (·.get k) = none →
    a.vectorClock.get k = b.vectorClock.get k

def emptyPatch : ServicePatch := ⟨none, none, none, none, none⟩

/-- The same data, up to the order of keys. -/
def Same : Option LogicalService → Option LogicalService → Prop :=
  Option.Rel (SameBeyond emptyPatch)

section Merge

variable {now : ℤ} {services after : List LogicalService} {deltas : List StateDelta}

theorem Leads.unique : {operations : List ServiceDelta} → {entry v w : Option LogicalService} →
    Leads now entry operations v → Leads now entry operations w → v = w
  | [], _, _, _, rfl, rfl => rfl
  | _ :: _, _, _, _, ⟨v, hv, hrest⟩, ⟨w, hw, hrest'⟩ => by
    cases hv.symm.trans hw
    exact hrest.unique hrest'

theorem leads_append_iff : {first second : List ServiceDelta} → {entry w : Option LogicalService} →
    (Leads now entry (first ++ second) w ↔ ∃ v, Leads now entry first v ∧ Leads now v second w)
  | [], _, _, _ => by simp [Leads]
  | _ :: _, _, _, _ => by
    simp only [cons_append, Leads, leads_append_iff]
    grind

/-- What the others lead to is what the last operation meets. -/
theorem Leads.last {earlier : List ServiceDelta} {op : ServiceDelta}
    {entry final : Option LogicalService} (h : Leads now entry (earlier ++ [op]) final) :
    ∃ found, Leads now entry earlier found ∧ op.entry now found = .ok final := by
  obtain ⟨found, hfound, w, hw, hfinal⟩ := leads_append_iff.mp h
  exact ⟨found, hfound, hfinal ▸ hw⟩

theorem Same.refl (entry : Option LogicalService) : Same entry entry := by
  cases entry with
  | none => exact .none
  | some =>
    exact .some ⟨rfl, fun _ => rfl, fun _ => rfl, fun _ _ => rfl, fun _ _ => rfl, fun _ _ => rfl⟩

end Merge

def webService (version : ℤ) (metadata : OrderedMap String Json) : LogicalService :=
  ⟨"web", "web", "node-1", none, metadata, .empty, 0, .empty, version, "sum", none⟩

/-- The JSON texts of the parts of a service, whatever their values are. Different values may have
the same text, as `NaN` and `Infinity`. -/
structure JsonTexts (S V C : Type) where
  stats : OrderedMap String S → List Char
  metadata : OrderedMap String V → List Char
  vectorClock : OrderedMap String C → List Char

/-- The texts of JSON data. -/
def jsonTexts : JsonTexts JsonNumber Json ℤ where
  stats m := (Json.object (m.entries.map fun p => (p.1, .number p.2))).stringify
  metadata m := (Json.object (m.entries.map fun p => (p.1, p.2))).stringify
  vectorClock m := (Json.object (m.entries.map fun p => (p.1, .number (.ofInt p.2)))).stringify

section

variable {S V C : Type} (texts : JsonTexts S V C)

def generatePatch (before after : LogicalService S V C) : ServicePatch S V C where
  stats := if texts.stats before.stats ≠ texts.stats after.stats then some after.stats else none
  metadata :=
    if texts.metadata before.metadata ≠ texts.metadata after.metadata then some after.metadata
    else none
  version := if after.version ≠ before.version then some after.version else none
  vectorClock :=
    if texts.vectorClock before.vectorClock ≠ texts.vectorClock after.vectorClock then
      some after.vectorClock
    else none
  lastUpdated := if after.lastUpdated ≠ before.lastUpdated then some after.lastUpdated else none

/-- `createServiceDelta`, which throws if the ids differ. -/
def StateDeltaManager.createServiceDelta (manager : StateDeltaManager)
    (before after : LogicalService S V C) : Option (ServiceDelta S V C) :=
  if before.id ≠ after.id then none
  else
    some
      { operation := .modify
        serviceId := after.id
        service := if manager.config.includeFullServices then some after else none
        patch :=
          if manager.config.includeFullServices then none
          else some (generatePatch texts before after)
        previousVersion := some before.version }

/-- The parts of a service that a patch can hold are the same, up to the order of keys. -/
structure LogicalService.SameData (service after : LogicalService S V C) : Prop where
  stats : ∀ k, service.stats.get k = after.stats.get k
  metadata : ∀ k, service.metadata.get k = after.metadata.get k
  vectorClock : ∀ k, service.vectorClock.get k = after.vectorClock.get k
  version : service.version = after.version
  lastUpdated : service.lastUpdated = after.lastUpdated

/-- A part of a service can be patched: no key is removed, and parts with the same text are the
same. -/
def Patchable {B : Type} (text : OrderedMap String B → List Char)
    (before after : OrderedMap String B) : Prop :=
  (∀ k, after.get k = none → before.get k = none) ∧
    (text before = text after → ∀ k, before.get k = after.get k)

end

section Patch

variable {S V C B : Type} {texts : JsonTexts S V C} {before after : LogicalService S V C}

theorem patchable_iff {text : OrderedMap String B → List Char}
    {before after : OrderedMap String B} :
    (∀ k, (((if text before ≠ text after then some after else none).map before.spread).getD
      before).get k = after.get k) ↔ Patchable text before after := by
  by_cases h : text before = text after
  · rw [if_neg (not_not.mpr h)]
    exact ⟨fun hsame => ⟨fun k hk => (hsame k).trans hk, fun _ => hsame⟩, fun hkept => hkept.2 h⟩
  · simp only [if_pos h, map_some, getD_some, get_spread, Patchable, h, false_implies, and_true]
    refine forall_congr' fun k => ?_
    cases after.get k <;> simp

theorem getD_ite (a b : ℤ) : (if a ≠ b then some a else none).getD b = a := by
  split_ifs with h
  · rfl
  · exact (not_not.mp h).symm

theorem sameData_applyPatch_iff (texts : JsonTexts S V C) (before after : LogicalService S V C) :
    (applyPatch before (generatePatch texts before after)).SameData after ↔
      Patchable texts.stats before.stats after.stats ∧
        Patchable texts.metadata before.metadata after.metadata ∧
        Patchable texts.vectorClock before.vectorClock after.vectorClock := by
  constructor
  · intro h
    exact ⟨patchable_iff.mp h.stats, patchable_iff.mp h.metadata, patchable_iff.mp h.vectorClock⟩
  · rintro ⟨hstats, hmetadata, hclock⟩
    exact ⟨patchable_iff.mpr hstats, patchable_iff.mpr hmetadata, patchable_iff.mpr hclock,
      getD_ite _ _, getD_ite _ _⟩

/-- **When a patch makes the new service of the old one**: no key of the stats, the metadata or the
vector clock is removed, and those of them that have the same texts are the same. -/
theorem patch_roundTrip_iff {manager : StateDeltaManager} {now : ℤ}
    {m : OrderedMap String (LogicalService S V C)}
    (hpatch : manager.config.includeFullServices = false)
    (hid : before.id = after.id) (hget : m.get before.id = some before) :
    (∃ op m' service, manager.createServiceDelta texts before after = some op ∧
        applyServiceOperation now m op = .ok m' ∧ m'.get after.id = some service ∧
        service.SameData after) ↔
      Patchable texts.stats before.stats after.stats ∧
        Patchable texts.metadata before.metadata after.metadata ∧
        Patchable texts.vectorClock before.vectorClock after.vectorClock := by
  have hop : manager.createServiceDelta texts before after = some
      ⟨.modify, after.id, none, some (generatePatch texts before after), some before.version⟩ := by
    simp [StateDeltaManager.createServiceDelta, hid, hpatch]
  have happly : applyServiceOperation now m
      ⟨.modify, after.id, none, some (generatePatch texts before after), some before.version⟩ =
        .ok (m.set after.id (applyPatch before (generatePatch texts before after))) := by
    rw [hid] at hget
    simp [applyServiceOperation, hget]
  rw [← sameData_applyPatch_iff]
  constructor
  · rintro ⟨op, m', service, hop', happly', hservice, hsame⟩
    cases hop.symm.trans hop'
    cases happly.symm.trans happly'
    rw [get_set_self] at hservice
    exact some.inj hservice ▸ hsame
  · exact fun h => ⟨_, _, _, hop, happly, get_set_self _ _ _, h⟩

end Patch

/-- Parts with the same text are the same if their values have different JSON values. -/
theorem patchable_of_injective {B : Type} {f : B → Json} (hf : Injective f)
    {before after : OrderedMap String B} (hkeys : ∀ k, after.get k = none → before.get k = none) :
    Patchable (fun m => (Json.object (m.entries.map fun p => (p.1, f p.2))).stringify)
      before after := by
  refine ⟨hkeys, fun h k => ?_⟩
  have hinj : Injective fun p : String × B => (p.1, f p.2) := injective_id.prodMap hf
  have hentries := hinj.list_map (Json.object.inj (Json.stringify_injective h))
  rw [OrderedMap.get, OrderedMap.get, hentries]

def patching : StateDeltaManager := ⟨⟨100, Nat.succ_pos 99, false⟩, 0⟩

def taggedService (version : ℤ) (tag : Json) : LogicalService :=
  webService version (OrderedMap.empty.set "tag" tag)

/-- A key of the metadata that was removed is still there. -/
theorem removed_key_stays :
    ¬ ∀ (manager : StateDeltaManager) (now : ℤ) (m : OrderedMap String LogicalService)
        (before after : LogicalService), manager.config.includeFullServices = false →
      before.id = after.id → before.type = after.type → before.nodeId = after.nodeId →
      before.checksum = after.checksum → before.conflictPolicy = after.conflictPolicy →
      m.get before.id = some before →
      ∃ op m' service, manager.createServiceDelta jsonTexts before after = some op ∧
        applyServiceOperation now m op = .ok m' ∧ m'.get after.id = some service ∧
        service.SameData after := by
  intro h
  obtain ⟨op, m', service, hop, happly, hservice, hsame⟩ := h patching 0
    (serviceMap [taggedService 1 .null]) (taggedService 1 .null) (webService 2 .empty) rfl rfl rfl
    rfl rfl rfl rfl
  cases hop
  cases happly
  cases hservice
  exact absurd (hsame.metadata "tag") (by decide)

/-- A key of the metadata gets another value. -/
theorem patch_roundTrip_changed : ∃ op m' service,
      patching.createServiceDelta jsonTexts (taggedService 1 .null) (taggedService 2 (.bool true)) =
        some op ∧
        applyServiceOperation 0 (serviceMap [taggedService 1 .null]) op = .ok m' ∧
        m'.get (taggedService 2 (.bool true)).id = some service ∧
        service.SameData (taggedService 2 (.bool true)) := by
  have hget : (serviceMap [taggedService 1 .null]).get (taggedService 1 .null).id =
    some (taggedService 1 .null) := rfl
  have hfull : patching.config.includeFullServices = false := rfl
  have hid : (taggedService 1 .null).id = (taggedService 2 (.bool true)).id := rfl
  refine (patch_roundTrip_iff hfull hid hget).mpr ⟨⟨fun _ h => h, fun _ _ => rfl⟩,
    patchable_of_injective injective_id fun k hk => ?_, ⟨fun _ h => h, fun _ _ => rfl⟩⟩
  change (OrderedMap.empty.set "tag" _).get k = none at hk ⊢
  rw [get_set] at hk ⊢
  split_ifs at hk ⊢
  rfl

end DistributedCore.Cluster
