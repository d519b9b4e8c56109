import DistributedCore.Library.OrderedMap
import DistributedCore.Library.Runs
import Mathlib.Data.Finset.Basic

/-!
# The tags of connections

After a change of its tags a connection is taken out of the index under the tags that it has now and
entered again under the same ones, so the entries of a value that the change took away stay. An
array that several sessions were given changes for all of them, and only one is entered again.

Source: `src/connections/ConnectionManager.ts`, `src/connections/Session.ts`.
-/

namespace DistributedCore.Connections

open List OrderedMap Function

/-- The key of a tag. The assignment to `tags.__proto__` would not make a tag. -/
abbrev TagKey := {key : String // key ≠ "__proto__"}

/-- The value of a tag, which is not empty. -/
abbrev TagText := {value : String // value ≠ ""}

/-- A tag is a text or refers to an array. -/
inductive TagValue
  | one (value : TagText)
  | many (array : ℕ)
  deriving DecidableEq

abbrev ConnectionTags := OrderedMap TagKey TagValue

/-- The tags of all sessions and the contents of the arrays, which are numbered as they are
created. -/
structure Sessions where
  tags : ℕ → ConnectionTags
  arrays : ℕ → List TagText
  allocated : ℕ

/-- What `setTag` is given: a text, a new array, or one that a session has been given before. -/
inductive TagArgument
  | text (value : TagText)
  | array (values : List TagText)
  | same (array : ℕ)

/-- The calls that change a tag of a session. -/
inductive TagChange
  | setTag (key : TagKey) (value : TagArgument)
  | addTagValue (key : TagKey) (value : TagText)
  | removeTag (key : TagKey)
  | removeTagValue (key : TagKey) (value : TagText)

namespace Sessions

variable (s : Sessions) (c : ℕ) (key : TagKey) (value : TagText)

/-- The texts of a tag. -/
def values : TagValue → List TagText
  | .one value => [value]
  | .many array => s.arrays array

def hasTag : Bool := ((s.tags c).get key).any fun tag => value ∈ s.values tag

def store (tag : TagValue) : Sessions :=
  { s with tags := update s.tags c ((s.tags c).set key tag) }

def storeArray (values : List TagText) : Sessions :=
  { s.store c key (.many s.allocated) with
    arrays := update s.arrays s.allocated values
    allocated := s.allocated + 1 }

def setTag : TagArgument → Sessions
  | .text value => s.store c key (.one value)
  | .array values => s.storeArray c key values
  | .same array => s.store c key (.many array)

def removeTag : Sessions := { s with tags := update s.tags c ((s.tags c).delete key) }

/-- An array is extended in place. -/
def addTagValue : Sessions :=
  match (s.tags c).get key with
  | none => s.store c key (.one value)
  | some (.many array) =>
    if value ∈ s.arrays array then s
    else { s with arrays := update s.arrays array (s.arrays array ++ [value]) }
  | some (.one old) => if old = value then s else s.storeArray c key [old, value]

/-- The value is taken out of an array in place. -/
def removeTagValue : Sessions :=
  match (s.tags c).get key with
  | none => s
  | some (.many array) =>
    if value ∈ s.arrays array then
      let rest := (s.arrays array).erase value
      let s := { s with arrays := update s.arrays array rest }
      match rest with
      | [] => s.removeTag c key
      | [last] => s.store c key (.one last)
      | _ => s
    else s
  | some (.one old) => if old = value then s.removeTag c key else s

/-- A tag change of a session. -/
def change : TagChange → Sessions
  | .setTag key value => s.setTag c key value
  | .addTagValue key value => s.addTagValue c key value
  | .removeTag key => s.removeTag c key
  | .removeTagValue key value => s.removeTagValue c key value

variable {s c key value} in
/-- New tags of a session do not concern the others. -/
theorem hasTag_of_ne {d : ℕ} (h : d ≠ c) (tags : ConnectionTags) :
    hasTag { s with tags := update s.tags c tags } d key value = s.hasTag d key value := by
  simp only [hasTag, update_of_ne h]
  rfl

/-- The tags of a new session. -/
def initialTags (userId roomId : Option TagText) : ConnectionTags :=
  let tags := userId.elim .empty fun user => .set .empty ⟨"userId", by decide⟩ (.one user)
  roomId.elim tags fun room => tags.set ⟨"room", by decide⟩ (.one room)

end Sessions

/-- The connections are numbered as they are created; those in `connections` are managed and
active. -/
structure TaggedConnections where
  sessions : Sessions
  connections : Finset ℕ
  tagIndex : Finset (TagKey × TagText × ℕ)
  created : ℕ

/-- The events of the connection manager that concern tags. -/
inductive TagEvent
  | createConnection (userId roomId : Option TagText)
  | removeConnection (c : ℕ)
  | change (c : ℕ) (change : TagChange)

namespace TaggedConnections

def started : TaggedConnections := ⟨⟨fun _ => .empty, fun _ => [], 0⟩, ∅, ∅, 0⟩

variable (s : TaggedConnections)

/-- The entries under which a connection belongs in the index. -/
def entriesOf (c : ℕ) : Finset (TagKey × TagText × ℕ) :=
  ((s.sessions.tags c).entries.flatMap fun (key, tag) =>
    (s.sessions.values tag).map fun value => (key, value, c)).toFinset

/-- The tags are entered as they are at that time. -/
def updateIndexes (c : ℕ) : TaggedConnections :=
  { s with tagIndex := s.tagIndex ∪ s.entriesOf c }

/-- Only the tags of that time are taken out. -/
def removeFromIndexes (c : ℕ) : TaggedConnections :=
  { s with tagIndex := s.tagIndex \ s.entriesOf c }

/-- A change of the tags is followed by `updateConnectionIndex`. -/
def step : TagEvent → Option TaggedConnections
  | .createConnection userId roomId =>
    some (updateIndexes ⟨{ s.sessions with
        tags := update s.sessions.tags s.created (Sessions.initialTags userId roomId) },
      insert s.created s.connections, s.tagIndex, s.created + 1⟩ s.created)
  | .removeConnection c =>
    if c ∈ s.connections then
      some { s.removeFromIndexes c with connections := s.connections.erase c }
    else some s
  | .change c change =>
    let s := { s with sessions := s.sessions.change c change }
    if c ∈ s.connections then some ((s.removeFromIndexes c).updateIndexes c) else some s

/-- The listed connections that the index names for the tag. -/
def getConnectionsByTag (key : TagKey) (value : TagText) : Finset ℕ :=
  s.connections.filter fun c => (key, value, c) ∈ s.tagIndex

/-- The index finds the managed connections whose sessions have the tag, and no others. -/
def Exact : Prop :=
  ∀ key value c, c ∈ s.getConnectionsByTag key value ↔
    c ∈ s.connections ∧ s.sessions.hasTag c key value = true

/-- A change takes no value away from a managed connection and gives none to another one than its
own, as it would by an array that both have. -/
def Keeps : TagEvent → Prop
  | .change c change => ∀ d ∈ s.connections, ∀ key value,
      (s.sessions.hasTag d key value = true →
        (s.sessions.change c change).hasTag d key value = true) ∧
      (d ≠ c → (s.sessions.change c change).hasTag d key value = true →
        s.sessions.hasTag d key value = true)
  | _ => True

variable {s} {s' : TaggedConnections}

theorem mem_entriesOf {key : TagKey} {value : TagText} {c d : ℕ} :
    (key, value, d) ∈ s.entriesOf c ↔ d = c ∧ s.sessions.hasTag c key value = true := by
  simp only [entriesOf, Sessions.hasTag, mem_toFinset, mem_flatMap, mem_map, Prod.exists,
    mem_entries_iff, Option.any_eq_true, decide_eq_true_eq]
  grind

theorem exact_iff : s.Exact ↔ ∀ key value, ∀ c ∈ s.connections,
    (key, value, c) ∈ s.tagIndex ↔ s.sessions.hasTag c key value = true := by
  simp only [Exact, getConnectionsByTag, Finset.mem_filter, and_congr_right_iff]

/-- No entry is about a connection that has not been created. -/
structure Sound (s : TaggedConnections) : Prop where
  created : ∀ c ∈ s.connections, c < s.created
  indexed : ∀ key value c, (key, value, c) ∈ s.tagIndex → c < s.created

theorem Sound.step {ev : TagEvent} (h : s.Sound) (hexact : s.Exact)
    (hstep : s.step ev = some s') : s'.Sound ∧ (s'.Exact ↔ s.Keeps ev) := by
  obtain ⟨hcreated, hindexed⟩ := h
  rw [exact_iff] at hexact ⊢
  cases ev with
  | createConnection userId roomId =>
    cases hstep
    refine ⟨⟨?_, ?_⟩, iff_of_true ?_ trivial⟩ <;>
      simp only [updateIndexes, Finset.mem_insert, Finset.mem_union, mem_entriesOf] <;>
      grind [Sessions.hasTag_of_ne]
  | removeConnection c =>
    rw [TaggedConnections.step] at hstep
    split_ifs at hstep <;> cases hstep
    · refine ⟨⟨?_, ?_⟩, iff_of_true ?_ trivial⟩ <;> grind [removeFromIndexes, mem_entriesOf]
    · exact ⟨⟨hcreated, hindexed⟩, iff_of_true hexact trivial⟩
  | change c change =>
    simp only [TaggedConnections.step] at hstep
    split_ifs at hstep with hc <;> cases hstep
    · refine ⟨⟨hcreated, ?_⟩, ?_⟩ <;>
        simp only [updateIndexes, removeFromIndexes, Finset.mem_union, Finset.mem_sdiff,
          mem_entriesOf, Keeps] <;> grind
    · refine ⟨⟨hcreated, hindexed⟩, ?_⟩
      simp only [Keeps]
      grind

/-- **The index is exact as long as no change takes a value away**, and not after the first one that
does. -/
theorem tag_index_exact (es : List TagEvent) (hall : AllSteps step Keeps started es)
    (hrun : exec step started es = some s) :
    s.Exact ∧ ∀ ev s', s.step ev = some s' → (s'.Exact ↔ s.Keeps ev) := by
  have h : s.Sound ∧ s.Exact := exec_invariant (P := fun s => s.Sound ∧ s.Exact)
    (fun _ _ _ h hkeeps hstep => (h.1.step h.2 hstep).imp_right fun hiff => hiff.mpr hkeeps)
    ⟨⟨by simp [started], by simp [started]⟩, exact_iff.mpr (by simp [started])⟩ hall hrun
  exact ⟨h.2, fun ev s' hstep => (h.1.step h.2 hstep).2⟩

def roomKey : TagKey := ⟨"room", by decide⟩

def roomA : TagText := ⟨"a", by decide⟩

def roomB : TagText := ⟨"b", by decide⟩

/-- A connection that is created in room `a`, and a change of its tags. -/
def inRoom (change : TagChange) : List TagEvent :=
  [.createConnection none (some roomA), .change 0 change]

/-- The connection enters room `b` as well. -/
theorem index_exact_twoRooms : ∃ s,
    exec step started (inRoom (.addTagValue roomKey roomB)) = some s ∧ s.Exact ∧
      s.getConnectionsByTag roomKey roomA = {0} ∧ s.getConnectionsByTag roomKey roomB = {0} := by
  have hall : AllSteps step Keeps started (inRoom (.addTagValue roomKey roomB)) := by
    refine ⟨trivial, fun d hd key value => ?_, trivial⟩
    obtain rfl : d = 0 := Finset.mem_singleton.mp hd
    refine ⟨fun h => ?_, fun hne => absurd rfl hne⟩
    obtain ⟨rfl, rfl⟩ : key = roomKey ∧ value = roomA := by
      simpa [Sessions.hasTag, Sessions.initialTags, Sessions.values, updateIndexes, started,
        get_set, roomKey, Option.any_eq_true] using h
    decide
  exact ⟨_, rfl, (tag_index_exact _ hall rfl).1, by decide, by decide⟩

/-- The connection has left room `a`. -/
theorem old_room_stays : ∃ s,
    exec step started (inRoom (.setTag roomKey (.text roomB))) = some s ∧
      s.getConnectionsByTag roomKey roomA = {0} ∧ s.sessions.hasTag 0 roomKey roomA = false :=
  ⟨_, rfl, by decide, by decide⟩

end TaggedConnections

end DistributedCore.Connections
