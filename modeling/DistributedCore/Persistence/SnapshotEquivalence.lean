import DistributedCore.Library.Runs
import DistributedCore.Persistence.SnapshotShelf

/-!
# When the two snapshot stores agree

Both stores get the same calls, at times that do not decrease. As long as they hold the same shelf,
and snapshots of a key with the same time are equal, they read the same lists, and whether a call
returns the same from both can be told from the store in memory (`Fits`).

Source: `src/persistence/snapshot/types.ts`,
`src/persistence/snapshot/InMemorySnapshotVersionStore.ts`,
`src/persistence/snapshot/WALSnapshotVersionStore.ts`.
-/

namespace DistributedCore.Persistence

open List hiding cons_inj_right filter filter_map forall_mem_map map mem_cons

open InMemorySnapshotVersionStore Multiset WALSnapshotVersionStore Option
open SnapshotEntry hiding id

/-! ### The conditions -/

namespace InMemorySnapshotVersionStore

variable (s : InMemorySnapshotVersionStore)

/-- The options and the expiry times do not tell the stores apart. -/
def Fits (now : ℕ) : SnapshotCall → Prop
  | .store _ _ options _ => (options.ttlMs.map fun ttl => (now : ℤ) + ttl) = options.expiresAt
  | .getLatest key => ∀ entry ∈ (s.snapshots key).head?, isFresh now entry.expiresAt = true
  | .list key limit =>
    if 0 ≤ limit then
      ∀ entry ∈ (s.snapshots key).take limit.toNat, isFresh now entry.expiresAt = true
    else (s.snapshots key).length + limit ≤ 0
  | .getAt key timestamp =>
    (∃ entry ∈ s.snapshots key, (entry.timestamp : ℤ) = timestamp) ∨
      ∀ entry ∈ s.snapshots key, timestamp < entry.timestamp
  | .delete _ _ => True
  | .purgeExpired => ∀ entry ∈ s.entries.values.flatten, entry.expiresAt ≠ some (now : ℤ)

/-- A stored snapshot of the key with the time of the call equals the new one. -/
def Distinguished (now : ℕ) : SnapshotCall → Prop
  | .store key data options _ =>
    ∀ entry ∈ s.snapshots key, entry.timestamp = now → entry.view =
      ⟨key, now, options.type.getD .auto, options.name, data, options.expiresAt⟩
  | _ => True

instance decidableFits (now : ℕ) (call : SnapshotCall) : Decidable (s.Fits now call) := by
  unfold Fits
  split <;> infer_instance

instance decidableDistinguished (now : ℕ) (call : SnapshotCall) :
    Decidable (s.Distinguished now call) := by
  unfold Distinguished
  split <;> infer_instance

theorem listLoop_eq (limit : ℤ) (now : ℕ) :
    (entries result : List SnapshotEntry) → listLoop limit now result entries = result ++
      (entries.filter fun entry => isFresh now entry.expiresAt).take (limit - result.length).toNat
  | [], result => by simp [listLoop]
  | entry :: entries, result => by
    rw [listLoop]
    split_ifs with _ hfresh
    · rw [Int.toNat_of_nonpos (by omega), take_zero, append_nil]
    · have hcount : (limit - result.length).toNat =
          (limit - (result ++ [entry]).length).toNat + 1 := by
        rw [length_append, length_singleton]
        omega
      rw [listLoop_eq limit now entries, filter_cons, if_pos hfresh, hcount,
        take_succ_cons, append_assoc, singleton_append]
    · rw [listLoop_eq limit now entries, filter_cons, if_neg hfresh]

end InMemorySnapshotVersionStore

/-! ### The system -/

/-- The id is not in the log. -/
def SnapshotCall.HasNewId (s : WALSnapshotVersionStore) : SnapshotCall → Prop
  | .store _ _ _ id => id ∉ s.ids
  | _ => True

instance SnapshotCall.decidableHasNewId (s : WALSnapshotVersionStore) (call : SnapshotCall) :
    Decidable (call.HasNewId s) := by
  unfold HasNewId
  split <;> infer_instance

/-- A call with its time. -/
structure SnapshotEvent where
  now : ℕ
  call : SnapshotCall

/-- Both stores, driven by the same calls. -/
structure SnapshotStores where
  memory : InMemorySnapshotVersionStore
  wal : WALSnapshotVersionStore
  clock : ℕ

namespace SnapshotStores

def started : SnapshotStores := ⟨.empty, .started, 0⟩

variable (config : WALConfig String Json) (s : SnapshotStores) (ev : SnapshotEvent)

def step : Option SnapshotStores :=
  if s.clock ≤ ev.now ∧ ev.call.HasNewId s.wal then
    (s.wal.call config ev.now ev.call).map fun r =>
      ⟨(s.memory.call ev.now ev.call).1, r.1, ev.now⟩
  else none

/-- The stores answer the call alike. -/
def ResultsAgree : Prop :=
  (s.wal.call config ev.now ev.call).map Prod.snd = some (s.memory.call ev.now ev.call).2

/-- The conditions under which the stores agree. -/
def Meets : Prop := s.memory.Fits ev.now ev.call ∧ s.memory.Distinguished ev.now ev.call

instance decidableMeets : Decidable (s.Meets ev) := inferInstanceAs (Decidable (_ ∧ _))

/-- The stores hold the same snapshots. -/
structure Matched (config : WALConfig String Json) (s : SnapshotStores) : Prop where
  memory : s.memory.Sound
  wal : s.wal.Sound config
  held : s.wal.held config = s.memory.held
  untied : Untied s.memory.held
  past : ∀ view ∈ s.memory.held, view.timestamp ≤ s.clock

theorem matched_started : Matched config started where
  memory := sound_empty
  wal := sound_started config
  held := rfl
  untied := fun _ h => absurd h (notMem_zero _)
  past := fun _ h => absurd h (notMem_zero _)

variable {config : WALConfig String Json} {s s' : SnapshotStores} {ev : SnapshotEvent}

theorem Matched.views_eq (h : s.Matched config) (key : String) :
    (s.wal.readAlive config (some key)).map view = (s.memory.snapshots key).map view := by
  have hlists := h.wal.lists key
  rw [h.held] at hlists
  exact hlists.unique (h.memory.lists key) h.untied

/-! ### Results -/

section Results

variable (h : s.Matched config) (key : String) (now : ℕ) (timestamp : ℤ)
include h

theorem Matched.getLatest_iff : (s.wal.getLatest config key).map view =
        (s.memory.getLatest key now).map view ↔
      s.memory.Fits now (.getLatest key) := by
  have hmemory : (s.memory.getLatest key now).map view =
      ((s.memory.snapshots key).map view).find? fun view => isFresh now view.expiresAt := by
    rw [find?_map]
    rfl
  rw [hmemory, WALSnapshotVersionStore.getLatest, ← head?_map, h.views_eq, eq_comm,
    find?_eq_head?_iff, head?_map]
  simp [InMemorySnapshotVersionStore.Fits, view]

theorem Matched.list_iff (limit : ℤ) : (s.wal.list config key limit).map view =
        (s.memory.list key limit now).map view ↔
      s.memory.Fits now (.list key limit) := by
  set views := (s.memory.snapshots key).map view with hviews
  have hmemory : (s.memory.list key limit now).map view =
      (views.filter fun view => isFresh now view.expiresAt).take limit.toNat := by
    rw [InMemorySnapshotVersionStore.list, InMemorySnapshotVersionStore.listLoop_eq,
      nil_append, length_nil, Nat.cast_zero, sub_zero, map_take, hviews,
      List.filter_map]
    rfl
  have hlength : (s.wal.readAlive config (some key)).length = (s.memory.snapshots key).length := by
    simpa using congrArg length (h.views_eq key)
  rw [hmemory, WALSnapshotVersionStore.list, map_take, h.views_eq, ← hviews, hlength,
    InMemorySnapshotVersionStore.Fits]
  split_ifs with _
  · rw [eq_comm, take_filter_eq_take_iff, hviews, ← map_take]
    exact List.forall_mem_map
  · rw [Int.toNat_of_nonpos (z := limit) (by omega), take_zero, take_eq_nil_iff, hviews,
      map_eq_nil_iff, ← length_eq_zero_iff]
    omega

theorem Matched.getAt_iff : (s.wal.getAt config key timestamp).map view =
        (s.memory.getAt key timestamp).map view ↔
      s.memory.Fits now (.getAt key timestamp) := by
  set views := (s.memory.snapshots key).map view with hviews
  have hmemory : (s.memory.getAt key timestamp).map view =
      views.find? fun view => (view.timestamp : ℤ) = timestamp := by
    rw [hviews, find?_map]
    rfl
  have hwal : (s.wal.getAt config key timestamp).map view =
      views.find? fun view => (view.timestamp : ℤ) ≤ timestamp := by
    rw [hviews, ← h.views_eq, find?_map, WALSnapshotVersionStore.getAt, head?_filter]
    rfl
  have hsorted : views.Pairwise fun a b => (b.timestamp : ℤ) ≤ a.timestamp :=
    (h.memory.lists key).newestFirst.imp Int.ofNat_le.mpr
  rw [hmemory, hwal, eq_comm, find?_key_eq_iff_find?_key_le _ hsorted, hviews]
  exact or_congr (by simp [view]) List.forall_mem_map

theorem Matched.find?_eq : ((s.wal.readAlive config (some key)).find? fun entry =>
        (entry.timestamp : ℤ) = timestamp).map view =
      ((s.memory.snapshots key).find? fun entry => (entry.timestamp : ℤ) = timestamp).map view := by
  have hviews := congrArg (find? fun view => (view.timestamp : ℤ) = timestamp) (h.views_eq key)
  rw [find?_map, find?_map] at hviews
  exact hviews

end Results

/-! ### The shelves stay equal -/

variable {wal : WALSnapshotVersionStore} {now : ℕ} {memory : InMemorySnapshotVersionStore}
  {key : String}

section

variable (h : s.Matched config)

include h

section

variable (hnow : s.clock ≤ now)

include hnow

theorem Matched.of_le (hmemory : memory.Sound)
    (hwal : wal.Sound config) (hheld : wal.held config = memory.held)
    (hle : memory.held ≤ s.memory.held) : Matched config ⟨memory, wal, now⟩ where
  memory := hmemory
  wal := hwal
  held := hheld
  untied := h.untied.mono hle
  past := fun view hview => (h.past view (mem_of_le hle hview)).trans hnow

theorem Matched.later : Matched config ⟨s.memory, s.wal, now⟩ :=
  h.of_le hnow h.memory h.wal h.held le_rfl

theorem Matched.delete {timestamp : ℤ} {done : Bool}
    (hdelete : s.wal.delete config key timestamp now = some (wal, done)) :
    done = (s.memory.delete key timestamp).2 ∧
      Matched config ⟨(s.memory.delete key timestamp).1, wal, now⟩ := by
  obtain ⟨hwal, hspec⟩ := delete_spec h.wal hdelete
  obtain ⟨hmemory, hspec'⟩ := delete_spec h.memory key timestamp
  have hfind := h.find?_eq key timestamp
  cases hentry : (s.memory.snapshots key).find? fun entry => (entry.timestamp : ℤ) = timestamp with
  | none =>
    rw [hentry, map_none, map_eq_none_iff] at hfind
    rw [hfind] at hspec
    rw [hentry] at hspec'
    obtain ⟨rfl, rfl⟩ := hspec
    rw [show s.memory.delete key timestamp = (s.memory, false) from hspec']
    exact ⟨rfl, h.later hnow⟩
  | some =>
    rw [hentry, map_some, map_eq_some_iff] at hfind
    obtain ⟨target, htarget, hview⟩ := hfind
    rw [htarget] at hspec
    rw [hentry] at hspec'
    obtain ⟨rfl, hheld⟩ := hspec
    obtain ⟨hdone, hheld'⟩ := hspec'
    refine ⟨hdone.symm, h.of_le hnow hmemory hwal ?_ (hheld' ▸ le_cons_self _ _)⟩
    rw [h.held, hheld', hview, cons_inj_right] at hheld
    exact hheld.symm

end

end

theorem not_isFresh_iff {expiresAt : Option ℤ} : ¬isFresh now expiresAt = true ↔
      isExpired now expiresAt = true ∨ expiresAt = some (now : ℤ) := by
  cases expiresAt with
  | none => simp [isFresh, isExpired]
  | some =>
    simp only [isFresh, isExpired, all_some, any_some, decide_eq_true_eq, some.injEq]
    omega

theorem fits_purgeExpired_iff :
    memory.Fits now .purgeExpired ↔ ∀ view ∈ memory.held, view.expiresAt ≠ some (now : ℤ) := by
  simp only [InMemorySnapshotVersionStore.held, mem_coe, List.forall_mem_map]
  rfl

theorem card_filter_not_isFresh (held : Multiset SnapshotView) (now : ℕ) :
    (held.filter fun view => ¬isFresh now view.expiresAt).card =
      (held.filter fun view => isExpired now view.expiresAt).card +
        (held.filter fun view => view.expiresAt = some (now : ℤ)).card := by
  have hnone : held.filter (fun view =>
      isExpired now view.expiresAt = true ∧ view.expiresAt = some (now : ℤ)) = 0 := by
    refine filter_eq_nil.mpr fun view _ hboth => ?_
    simp [isExpired, hboth.2] at hboth
  rw [← card_add, filter_add_filter, hnone, add_zero]
  exact congrArg _ (filter_congr fun view _ => not_isFresh_iff)

section

variable (h : s.Matched config)

include h

theorem Matched.purgeExpired {count : ℕ} (hnow : s.clock ≤ now)
    (hpurge : s.wal.purgeExpired config now = some (wal, count)) :
    (count = (s.memory.purgeExpired now).2 ↔ s.memory.Fits now .purgeExpired) ∧
      (s.memory.Fits now .purgeExpired →
        Matched config ⟨(s.memory.purgeExpired now).1, wal, now⟩) := by
  have hties := h.untied
  rw [← h.held] at hties
  obtain ⟨hwal, hheld, hcount⟩ := purgeExpired_spec h.wal hties hpurge
  obtain ⟨hmemory, hheld', hcount'⟩ := purgeExpired_spec h.memory now
  rw [fits_purgeExpired_iff]
  constructor
  · rw [hcount, hcount', h.held, card_filter_not_isFresh, Nat.left_eq_add, card_eq_zero,
      filter_eq_nil]
  · intro hfits
    refine h.of_le hnow hmemory hwal ?_ (hheld' ▸ filter_le _ _)
    rw [hheld, hheld', h.held]
    refine filter_congr fun view hview => ?_
    rw [← not_iff_not, not_not, not_isFresh_iff, or_iff_left (hfits view hview)]

theorem Matched.store {data : Json}
    {options : StoreSnapshotOptions} {id : String} (hnow : s.clock ≤ now)
    (hid : id ∉ s.wal.ids) {snapshot : SnapshotEntry}
    (hstore : s.wal.store config key data options id now = some (wal, snapshot)) :
    (snapshot.view = (s.memory.store key data options now).2.view ↔
        s.memory.Fits now (.store key data options id)) ∧
      (s.Meets ⟨now, .store key data options id⟩ →
        Matched config ⟨(s.memory.store key data options now).1, wal, now⟩) := by
  have hview : snapshot.view =
      ⟨key, now, options.type.getD .auto, options.name, data, options.expiresAt⟩ := by
    obtain ⟨_, _, heq⟩ := map_eq_some_iff.mp hstore
    rw [← (Prod.mk.inj heq).2]
    rfl
  have hview' : (s.memory.store key data options now).2.view =
      ⟨key, now, options.type.getD .auto, options.name, data,
        options.ttlMs.map fun ttl => (now : ℤ) + ttl⟩ := rfl
  obtain ⟨hwal, hheld⟩ := store_spec h.wal hid hstore
  obtain ⟨hmemory, hheld'⟩ := store_spec h.memory key data
    options fun view hmem => (h.past view hmem).trans hnow
  have hiff : snapshot.view = (s.memory.store key data options now).2.view ↔
      s.memory.Fits now (.store key data options id) := by
    rw [hview, hview', SnapshotView.mk.injEq]
    simp [InMemorySnapshotVersionStore.Fits, eq_comm]
  refine ⟨hiff, ?_⟩
  rintro ⟨hfits, hdistinguished⟩
  rw [← hiff] at hfits
  refine ⟨hmemory, hwal, ?_, ?_, ?_⟩
  · rw [hheld, hheld', hfits, h.held]
  · rw [hheld']
    refine h.untied.cons fun other hother hkey htime => ?_
    obtain ⟨entry, hentry, rfl⟩ := mem_map.mp ((h.memory.lists key).mem_iff.mpr ⟨hother, hkey⟩)
    rw [← hfits, hview]
    exact hdistinguished entry hentry htime
  · intro view hmem
    rw [hheld', mem_cons] at hmem
    obtain rfl | hmem := hmem
    · exact le_rfl
    · exact (h.past view hmem).trans hnow

theorem Matched.step (hstep : step config s ev = some s') :
    (ResultsAgree config s ev ↔ s.memory.Fits ev.now ev.call) ∧
      (s.Meets ev → s'.Matched config) := by
  rw [SnapshotStores.step, ite_none_right_eq_some, map_eq_some_iff, and_assoc] at hstep
  obtain ⟨hnow, hid, ⟨wal, result⟩, hcall, rfl⟩ := hstep
  rw [ResultsAgree, hcall, map_some, some.injEq]
  obtain ⟨now, call⟩ := ev
  cases call with
  | store =>
    obtain ⟨_, hstore, heq⟩ := map_eq_some_iff.mp hcall
    cases heq
    exact (h.store hnow hid hstore).imp_left (Iff.of_eq (SnapshotResult.stored.injEq _ _)).trans
  | getLatest key =>
    cases hcall
    exact ⟨(Iff.of_eq (SnapshotResult.found.injEq _ _)).trans (h.getLatest_iff key now),
      fun _ => h.later hnow⟩
  | list key limit =>
    cases hcall
    exact ⟨(Iff.of_eq (SnapshotResult.listed.injEq _ _)).trans (h.list_iff key now limit),
      fun _ => h.later hnow⟩
  | getAt key timestamp =>
    cases hcall
    exact ⟨(Iff.of_eq (SnapshotResult.found.injEq _ _)).trans (h.getAt_iff key now timestamp),
      fun _ => h.later hnow⟩
  | delete =>
    obtain ⟨_, hdelete, heq⟩ := map_eq_some_iff.mp hcall
    cases heq
    obtain ⟨hdone, hmatched⟩ := h.delete hnow hdelete
    exact ⟨iff_of_true (congrArg SnapshotResult.deleted hdone) trivial, fun _ => hmatched⟩
  | purgeExpired =>
    obtain ⟨_, hpurge, heq⟩ := map_eq_some_iff.mp hcall
    cases heq
    obtain ⟨hcount, hmatched⟩ := h.purgeExpired hnow hpurge
    exact ⟨(Iff.of_eq (SnapshotResult.purged.injEq _ _)).trans hcount,
      fun hmeets => hmatched hmeets.1⟩

end

/-! ### Runs -/

/-- **The stores are interchangeable along every run whose calls meet the conditions.** All calls
return the same, and the next call does so if and only if it fits. -/
theorem resultsAgree_of_run (config : WALConfig String Json) (events : List SnapshotEvent)
    (s : SnapshotStores) (hrun : exec (step config) started events = some s)
    (hall : AllSteps (step config) Meets started events) :
    AllSteps (step config) (ResultsAgree config) started events ∧
      ∀ ev s', step config s ev = some s' →
        (ResultsAgree config s ev ↔ s.memory.Fits ev.now ev.call) := by
  obtain ⟨hmatched, hagree⟩ := AllSteps.of_invariant
    (fun s ev s' h hmeets hstep => ⟨(h.step hstep).2 hmeets, (h.step hstep).1.mpr hmeets.1⟩)
    (matched_started config) hall hrun
  exact ⟨hagree, fun ev s' hstep => (hmatched.step hstep).1⟩

def sampleSnapshotConfig : WALConfig String Json where
  maxFileSize := 104857600
  calculateChecksum := fun _ => ""
  lineLength := fun _ => 256

def agreeingCalls : List SnapshotEvent :=
  [⟨100, .store "doc" (.string "a") { ttlMs := some 50, expiresAt := some 150 } "u1"⟩,
    ⟨100, .store "note" .null { ttlMs := some 50, expiresAt := some 150 } "u2"⟩,
    ⟨120, .store "doc" (.bool true) { type := some .manual, name := some "n" } "u3"⟩,
    ⟨130, .getLatest "doc"⟩, ⟨130, .list "doc" 5⟩, ⟨130, .getAt "doc" 100⟩,
    ⟨140, .delete "note" 90⟩, ⟨200, .purgeExpired⟩, ⟨200, .list "doc" 5⟩, ⟨200, .getLatest "note"⟩]

/-- The stores agree on `agreeingCalls`, but not on a snapshot of an earlier time after them. -/
theorem resultsAgree_agreeingCalls :
    ∃ s, exec (step sampleSnapshotConfig) started agreeingCalls = some s ∧
      AllSteps (step sampleSnapshotConfig) (ResultsAgree sampleSnapshotConfig) started
        agreeingCalls ∧
      ¬ ResultsAgree sampleSnapshotConfig s ⟨200, .getAt "doc" 150⟩ := by
  obtain ⟨hagree, hnext⟩ :=
    resultsAgree_of_run sampleSnapshotConfig agreeingCalls _ rfl (by decide +kernel)
  exact ⟨_, rfl, hagree, fun h => absurd ((hnext _ _ rfl).mp h) (by decide +kernel)⟩

/-- The stores return different times of expiry for a snapshot that is stored for a second. -/
theorem expiry_differs :
    ¬ ∀ (config : WALConfig String Json) (events : List SnapshotEvent) (s : SnapshotStores),
      exec (step config) started events = some s →
      AllSteps (step config) (ResultsAgree config) started events := by
  intro h
  have hagree := h sampleSnapshotConfig [⟨100, .store "doc" .null { ttlMs := some 1000 } "u"⟩] _ rfl
  exact absurd hagree.1 (by unfold ResultsAgree; decide +kernel)

end SnapshotStores

end DistributedCore.Persistence
