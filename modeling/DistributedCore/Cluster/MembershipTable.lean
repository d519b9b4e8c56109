import DistributedCore.Library.OrderedMap
import Mathlib.Data.Int.ConditionallyCompleteOrder
import Mathlib.Data.Prod.Lex
import Mathlib.Order.ConditionallyCompleteLattice.Basic

/-!
# The membership table of a node

Every node of a cluster keeps a table of the nodes that it knows. A record of a node carries its
status and a stamp, the version of the node and the time at which it was last seen. Records arrive
from other nodes through `updateNode`, which compares stamps: a record with a higher version
replaces the entry, and a record of the same version that was seen later is spread over the entry,
so that optional fields that the record leaves out keep their values. The failure detector marks
entries as suspect or dead without touching their stamps.

Source: `src/cluster/membership/MembershipTable.ts`, `src/cluster/types.ts`.
-/

namespace DistributedCore.Cluster

open List

inductive NodeStatus where
  | alive
  | suspect
  | dead
  | leaving
  | draining
  deriving DecidableEq, Repr

/-- A record of a node. The metadata are optional, and `none` stands for a record without that
field. A full synchronisation sends entries as records, with the suspect timeout of the sender. -/
structure NodeInfo (M : Type) where
  id : String
  status : NodeStatus
  lastSeen : ℤ
  version : ℤ
  metadata : Option M
  suspectTimeout : Option ℤ := none
  deriving DecidableEq

structure MembershipEntry (M : Type) extends NodeInfo M where
  lastUpdated : ℤ
  deriving DecidableEq

variable {M : Type}

namespace NodeInfo

/-- Records are compared by version, then by the time the node was last seen. -/
def stamp (nodeInfo : NodeInfo M) : ℤ ×ₗ ℤ := toLex (nodeInfo.version, nodeInfo.lastSeen)

theorem stamp_lt_iff {a b : NodeInfo M} :
    a.stamp < b.stamp ↔ a.version < b.version ∨ a.version = b.version ∧ a.lastSeen < b.lastSeen :=
  Prod.Lex.toLex_lt_toLex

theorem stamp_eq_iff {a b : NodeInfo M} :
    a.stamp = b.stamp ↔ a.version = b.version ∧ a.lastSeen = b.lastSeen := by
  rw [stamp, stamp, toLex_inj, Prod.mk.injEq]

/-- What a table keeps of a record. -/
def content (nodeInfo : NodeInfo M) : NodeStatus × ℤ × ℤ × Option M :=
  (nodeInfo.status, nodeInfo.version, nodeInfo.lastSeen, nodeInfo.metadata)

end NodeInfo

def MembershipEntry.merge (existing : MembershipEntry M) (nodeInfo : NodeInfo M) (now : ℤ) :
    MembershipEntry M where
  id := nodeInfo.id
  status := nodeInfo.status
  lastSeen := nodeInfo.lastSeen
  version := nodeInfo.version
  metadata := nodeInfo.metadata.or existing.metadata
  suspectTimeout := nodeInfo.suspectTimeout.or existing.suspectTimeout
  lastUpdated := now

abbrev Members (M : Type) := OrderedMap String (MembershipEntry M)

/-- The events of a table. Each is emitted under two names, of which the canonical one is listed
here. -/
inductive MembershipEvent (M : Type) where
  | memberJoined (nodeInfo : NodeInfo M)
  | memberUpdated (nodeInfo : NodeInfo M)
  | memberLeft (nodeId : String)
  | membershipUpdated (members : Members M)

/-- The members in the order in which they were inserted, and a change counter. -/
structure MembershipTable (M : Type) where
  localNodeId : String
  members : Members M
  version : ℕ

/-- The new table, the value a call returns and the events it emits. -/
structure MembershipChange (M V : Type) where
  table : MembershipTable M
  returned : V
  events : List (MembershipEvent M)

namespace MembershipTable

def create (localNodeId : String) : MembershipTable M := ⟨localNodeId, .empty, 0⟩

/-! ### Operations -/

variable {V : Type} (t : MembershipTable M) (nodeId : String)

def put (entry : MembershipEntry M)
    (event : MembershipEvent M) (returned : V) : MembershipChange M V :=
  let members := t.members.set nodeId entry
  { table := { t with members := members, version := t.version + 1 }
    returned := returned
    events := [event, .membershipUpdated members] }

def unchanged (returned : V) : MembershipChange M V := ⟨t, returned, []⟩

variable (nodeInfo : NodeInfo M)

def updateNode (now : ℤ) : MembershipChange M Bool :=
  if nodeInfo.id = t.localNodeId then t.unchanged false
  else
    match t.members.get nodeInfo.id with
    | none => t.put nodeInfo.id ⟨nodeInfo, now⟩ (.memberJoined nodeInfo) true
    | some existing =>
      if nodeInfo.version > existing.version then
        t.put nodeInfo.id ⟨nodeInfo, now⟩ (.memberUpdated nodeInfo) true
      else if nodeInfo.version = existing.version then
        if nodeInfo.lastSeen > existing.lastSeen then
          t.put nodeInfo.id (existing.merge nodeInfo now) (.memberUpdated nodeInfo) true
        else t.unchanged false
      else t.unchanged false

def addLocalNode (now : ℤ) : MembershipChange M Unit :=
  t.put nodeInfo.id ⟨nodeInfo, now⟩ (.memberJoined nodeInfo) ()

def addMember (now : ℤ) : MembershipChange M Unit :=
  t.put nodeInfo.id ⟨nodeInfo, now⟩ (.memberJoined nodeInfo) ()

def getAliveMembers : List (MembershipEntry M) :=
  t.members.values.filter fun member => member.status = .alive

def getAllMembers : List (MembershipEntry M) := t.members.values

def getMember : Option (MembershipEntry M) := t.members.get nodeId

def removeMember : MembershipChange M Bool :=
  if t.members.has nodeId then
    let members := t.members.delete nodeId
    { table := { t with members := members, version := t.version + 1 }
      returned := true
      events := [.memberLeft nodeId, .membershipUpdated members] }
  else t.unchanged false

def markLeaving (now : ℤ) : MembershipChange M Bool :=
  match t.members.get nodeId with
  | none => t.unchanged false
  | some member =>
    let marked := { member with status := .dead, lastUpdated := now }
    t.put nodeId marked (.memberUpdated marked.toNodeInfo) true

def markSuspect (timeout now : ℤ) : MembershipChange M Bool :=
  match t.members.get nodeId with
  | none => t.unchanged false
  | some member =>
    if member.status = .alive then
      let marked :=
        { member with
          status := .suspect, suspectTimeout := some (now + timeout), lastUpdated := now }
      t.put nodeId marked (.memberUpdated marked.toNodeInfo) true
    else t.unchanged false

def markDead (now : ℤ) : MembershipChange M Bool :=
  match t.members.get nodeId with
  | none => t.unchanged false
  | some member =>
    t.put nodeId { member with status := .dead, lastUpdated := now } (.memberLeft nodeId) true

def pruneDeadNodes (maxAge now : ℤ) : MembershipChange M ℕ :=
  let members := t.members.filter fun _ member =>
    !(member.status = .dead && now - member.lastUpdated > maxAge)
  let pruned := t.members.entries.length - members.entries.length
  if pruned > 0 then
    { table := { t with members := members, version := t.version + 1 }
      returned := pruned
      events := [.membershipUpdated members] }
  else t.unchanged 0

def clear : MembershipChange M Unit where
  table := { t with members := .empty, version := 0 }
  returned := ()
  events := [.membershipUpdated .empty]

end MembershipTable

/-! ### What an update does -/

/-- The record is strictly newer than the stored one, if there is one. -/
def NodeInfo.Newer (nodeInfo : NodeInfo M) (stored : Option (MembershipEntry M)) : Prop :=
  ∀ entry ∈ stored, entry.stamp < nodeInfo.stamp

instance (nodeInfo : NodeInfo M) (stored : Option (MembershipEntry M)) :
    Decidable (nodeInfo.Newer stored) :=
  match stored with
  | none => .isTrue fun _ h => absurd h (Option.not_mem_none _)
  | some entry => decidable_of_iff (entry.stamp < nodeInfo.stamp)
      ⟨fun h _ hmem => Option.mem_some.mp hmem ▸ h, fun h => h entry rfl⟩

/-- The entry that a newer record leaves: it is spread over an entry of the same version, and
replaces every other one. -/
def MembershipEntry.absorb (stored : Option (MembershipEntry M)) (nodeInfo : NodeInfo M)
    (now : ℤ) : MembershipEntry M :=
  match stored with
  | none => ⟨nodeInfo, now⟩
  | some existing =>
    if existing.version = nodeInfo.version then existing.merge nodeInfo now else ⟨nodeInfo, now⟩

section Absorb

variable (stored : Option (MembershipEntry M)) (nodeInfo : NodeInfo M) (now : ℤ)

theorem MembershipEntry.absorb_cases : absorb stored nodeInfo now = ⟨nodeInfo, now⟩ ∨
      ∃ existing ∈ stored, existing.version = nodeInfo.version ∧
        absorb stored nodeInfo now = existing.merge nodeInfo now := by
  cases stored with
  | none => exact .inl rfl
  | some existing =>
    rw [absorb]
    split_ifs with hversion
    · exact .inr ⟨existing, rfl, hversion, rfl⟩
    · exact .inl rfl

@[simp] theorem MembershipEntry.absorb_id : (absorb stored nodeInfo now).id = nodeInfo.id := by
  rcases absorb_cases stored nodeInfo now with h | ⟨_, -, -, h⟩ <;> simp [h, merge]

@[simp] theorem MembershipEntry.absorb_status :
    (absorb stored nodeInfo now).status = nodeInfo.status := by
  rcases absorb_cases stored nodeInfo now with h | ⟨_, -, -, h⟩ <;> simp [h, merge]

@[simp] theorem MembershipEntry.absorb_version :
    (absorb stored nodeInfo now).version = nodeInfo.version := by
  rcases absorb_cases stored nodeInfo now with h | ⟨_, -, -, h⟩ <;> simp [h, merge]

@[simp] theorem MembershipEntry.absorb_lastSeen :
    (absorb stored nodeInfo now).lastSeen = nodeInfo.lastSeen := by
  rcases absorb_cases stored nodeInfo now with h | ⟨_, -, -, h⟩ <;> simp [h, merge]

@[simp] theorem MembershipEntry.absorb_stamp :
    (absorb stored nodeInfo now).stamp = nodeInfo.stamp := by simp [NodeInfo.stamp]

end Absorb

namespace MembershipTable

variable {t : MembershipTable M} {nodeInfo : NodeInfo M} {now : ℤ}

def updateEvent (stored : Option (MembershipEntry M)) (nodeInfo : NodeInfo M) : MembershipEvent M :=
  if stored.isNone then .memberJoined nodeInfo else .memberUpdated nodeInfo

/-- **What an update does**: a newer record of another node is absorbed, and any other record
changes nothing. -/
theorem updateNode_eq (t : MembershipTable M) (nodeInfo : NodeInfo M) (now : ℤ) :
    t.updateNode nodeInfo now =
      if nodeInfo.id ≠ t.localNodeId ∧ nodeInfo.Newer (t.members.get nodeInfo.id) then
        t.put nodeInfo.id (.absorb (t.members.get nodeInfo.id) nodeInfo now)
          (updateEvent (t.members.get nodeInfo.id) nodeInfo) true
      else t.unchanged false := by
  rw [updateNode]
  by_cases hlocal : nodeInfo.id = t.localNodeId
  · rw [if_pos hlocal, if_neg (by simp [hlocal])]
  rw [if_neg hlocal]
  cases hget : t.members.get nodeInfo.id with
  | none =>
    rw [if_pos ⟨hlocal, fun _ h => absurd h (Option.not_mem_none _)⟩]
    rfl
  | some existing =>
    have hnewer : nodeInfo.Newer (some existing) ↔ existing.stamp < nodeInfo.stamp := by
      simp [NodeInfo.Newer]
    simp only [hlocal, ne_eq, not_false_eq_true, true_and, hnewer, NodeInfo.stamp_lt_iff]
    rcases lt_trichotomy nodeInfo.version existing.version with hlt | heq | hgt
    · rw [if_neg (by omega), if_neg (by omega), if_neg (by omega)]
    · rw [if_neg (by omega), if_pos heq]
      by_cases hseen : nodeInfo.lastSeen > existing.lastSeen
      · rw [if_pos hseen, if_pos (.inr ⟨heq.symm, hseen⟩)]
        rw [MembershipEntry.absorb, if_pos heq.symm]
        rfl
      · rw [if_neg hseen, if_neg (by omega)]
    · rw [if_pos hgt, if_pos (.inl hgt)]
      rw [MembershipEntry.absorb, if_neg (by omega)]
      rfl

@[simp] theorem updateNode_localNodeId :
    (t.updateNode nodeInfo now).table.localNodeId = t.localNodeId := by
  rw [updateNode_eq]
  split <;> rfl

theorem getMember_updateNode (nodeId : String) :
    (t.updateNode nodeInfo now).table.getMember nodeId =
      if nodeId = nodeInfo.id ∧ nodeId ≠ t.localNodeId ∧ nodeInfo.Newer (t.getMember nodeId) then
        some (.absorb (t.getMember nodeId) nodeInfo now)
      else t.getMember nodeId := by
  rw [updateNode_eq]
  by_cases hid : nodeId = nodeInfo.id
  · subst hid
    simp only [getMember, true_and]
    split_ifs
    · exact OrderedMap.get_set_self ..
    · rfl
  · rw [if_neg fun h : nodeId = nodeInfo.id ∧ _ => hid h.1]
    split_ifs
    · exact OrderedMap.get_set_of_ne _ _ hid
    · rfl

theorem updateNode_returned : (t.updateNode nodeInfo now).returned = true ↔
      nodeInfo.id ≠ t.localNodeId ∧ nodeInfo.Newer (t.getMember nodeInfo.id) := by
  rw [updateNode_eq]
  split_ifs with h
  · exact iff_of_true rfl h
  · exact iff_of_false (by simp [unchanged]) h

/-! ### Arrivals in any order -/

def storedStamp (t : MembershipTable M) (nodeId : String) : WithBot (ℤ ×ₗ ℤ) :=
  (t.getMember nodeId).map fun entry => entry.stamp

theorem updateNode_returned_iff_lt (h : nodeInfo.id ≠ t.localNodeId) :
    (t.updateNode nodeInfo now).returned = true ↔ t.storedStamp nodeInfo.id <
        (t.updateNode nodeInfo now).table.storedStamp nodeInfo.id := by
  rw [updateNode_returned, storedStamp, storedStamp, getMember_updateNode]
  by_cases hnewer : nodeInfo.Newer (t.getMember nodeInfo.id)
  · rw [if_pos ⟨rfl, h, hnewer⟩]
    refine iff_of_true ⟨h, hnewer⟩ ?_
    cases hget : t.getMember nodeInfo.id with
    | none => exact WithBot.bot_lt_coe _
    | some entry =>
      have hlt : entry.stamp < nodeInfo.stamp := hnewer entry hget
      rw [Option.map_some, Option.map_some, MembershipEntry.absorb_stamp]
      exact WithBot.coe_lt_coe.mpr hlt
  · rw [if_neg fun h => hnewer h.2.2]
    exact iff_of_false (fun h => hnewer h.2) (lt_irrefl _)

def receive (t : MembershipTable M) (arrivals : List (NodeInfo M × ℤ)) : MembershipTable M :=
  arrivals.foldl (fun t arrival => (t.updateNode arrival.1 arrival.2).table) t

end MembershipTable

/-- No record of the same node is newer. -/
def NodeInfo.Latest (records : List (NodeInfo M)) (nodeInfo : NodeInfo M) : Prop :=
  ∀ other ∈ records, other.id = nodeInfo.id → other.stamp ≤ nodeInfo.stamp

instance (records : List (NodeInfo M)) (nodeInfo : NodeInfo M) :
    Decidable (nodeInfo.Latest records) :=
  List.decidableBAll _ _

/-- What is stored for a node after records have arrived: the status and the stamp of a latest
record, with its metadata, or with those of another record of the same version if it has none. -/
inductive Reflects (records : List (NodeInfo M)) (nodeId : String) :
    Option (MembershipEntry M) → Prop
  | unknown (none_of : ∀ r ∈ records, r.id ≠ nodeId) : Reflects records nodeId none
  | known {entry : MembershipEntry M} {r : NodeInfo M} (mem : r ∈ records) (id : r.id = nodeId)
      (latest : r.Latest records) (status : entry.status = r.status)
      (stamp : entry.stamp = r.stamp)
      (own : r.metadata ≠ none → entry.metadata = r.metadata)
      (taken : ∃ other ∈ records, other.id = nodeId ∧ other.version = r.version ∧
        entry.metadata = other.metadata) :
      Reflects records nodeId (some entry)

namespace Reflects

variable {records : List (NodeInfo M)} {nodeId : String} {stored : Option (MembershipEntry M)}

section

variable (h : Reflects records nodeId stored)

include h

theorem latest_of_newer {r : NodeInfo M} (hid : r.id = nodeId)
    (hnewer : r.Newer stored) : r.Latest (records ++ [r]) := by
  intro other hother hsame
  rcases mem_append.mp hother with hold | hnew
  · cases h with
    | unknown hnone => exact absurd (hsame.trans hid) (hnone other hold)
    | known _ hid' hlatest _ hstamp _ _ =>
      have hlt := hnewer _ rfl
      rw [hstamp] at hlt
      exact (hlatest other hold (hsame.trans (hid.trans hid'.symm))).trans hlt.le
  · rw [mem_singleton.mp hnew]

theorem absorb {r : NodeInfo M} (hid : r.id = nodeId) (hnewer : r.Newer stored) (now : ℤ) :
    Reflects (records ++ [r]) nodeId (some (.absorb stored r now)) := by
  have hmem : r ∈ records ++ [r] := mem_append_right _ mem_cons_self
  refine .known hmem hid (h.latest_of_newer hid hnewer) (by simp) (by simp) ?_ ?_
  · intro hmetadata
    rcases MembershipEntry.absorb_cases stored r now with heq | ⟨existing, -, -, heq⟩
    · rw [heq]
    · rw [heq]
      exact Option.or_of_isSome (Option.isSome_iff_ne_none.mpr hmetadata)
  · rcases MembershipEntry.absorb_cases stored r now with heq | ⟨existing, hmem', hversion, heq⟩
    · exact ⟨r, hmem, hid, rfl, by rw [heq]⟩
    · cases hmetadata : r.metadata with
      | some =>
        refine ⟨r, hmem, hid, rfl, ?_⟩
        rw [heq, hmetadata]
        exact congrArg (Option.or · _) hmetadata
      | none =>
        cases h with
        | unknown => exact absurd hmem' (Option.not_mem_none _)
        | known _ _ _ _ hstamp _ htaken =>
          obtain rfl := Option.mem_some.mp hmem'
          obtain ⟨other, hother, hid', hversion', hmetadata'⟩ := htaken
          refine ⟨other, mem_append_left _ hother, hid', ?_, ?_⟩
          · exact hversion'.trans ((NodeInfo.stamp_eq_iff.mp hstamp).1.symm.trans hversion)
          · rw [heq, ← hmetadata']
            exact congrArg (Option.or · _) hmetadata

theorem keep {r : NodeInfo M}
    (hr : r.id = nodeId → ¬r.Newer stored) : Reflects (records ++ [r]) nodeId stored := by
  cases h with
  | unknown hnone =>
    refine .unknown fun other hother hid => ?_
    rcases mem_append.mp hother with hold | hnew
    · exact hnone other hold hid
    · obtain rfl := mem_singleton.mp hnew
      exact hr hid fun _ h => absurd h (Option.not_mem_none _)
  | @known entry latest hmem hid hlatest hstatus hstamp hown htaken =>
    refine .known (mem_append_left _ hmem) hid ?_ hstatus hstamp hown ?_
    · intro other hother hsame
      rcases mem_append.mp hother with hold | hnew
      · exact hlatest other hold hsame
      · obtain rfl := mem_singleton.mp hnew
        have hle : ¬entry.stamp < other.stamp := fun hlt =>
          hr (hsame.trans hid) fun _ h => Option.mem_some.mp h ▸ hlt
        exact hstamp ▸ not_lt.mp hle
    · obtain ⟨other, hother, hrest⟩ := htaken
      exact ⟨other, mem_append_left _ hother, hrest⟩

end

end Reflects

namespace MembershipTable

variable {t : MembershipTable M} {nodeInfo : NodeInfo M} {now : ℤ} {records : List (NodeInfo M)}
  {nodeId : String}

@[simp] theorem receive_localNodeId (arrivals : List (NodeInfo M × ℤ)) :
    (t.receive arrivals).localNodeId = t.localNodeId := by
  induction arrivals generalizing t with
  | nil => rfl
  | cons _ _ ih => exact ih.trans updateNode_localNodeId

theorem reflects_receive (nodeId : String) :
    (arrivals : List (NodeInfo M × ℤ)) → (t : MembershipTable M) → (records : List (NodeInfo M)) →
      Reflects records nodeId (t.getMember nodeId) →
        (∀ arrival ∈ arrivals, arrival.1.id ≠ t.localNodeId) →
          Reflects (records ++ arrivals.map Prod.fst) nodeId ((t.receive arrivals).getMember nodeId)
  | [], _, records, h, _ => by simpa [receive] using h
  | arrival :: arrivals, t, records, h, hpeer => by
    have hfirst : Reflects (records ++ [arrival.1]) nodeId
        ((t.updateNode arrival.1 arrival.2).table.getMember nodeId) := by
      rw [getMember_updateNode]
      split_ifs with htake
      · exact h.absorb htake.1.symm htake.2.2 arrival.2
      · refine h.keep fun hid hnewer => htake ⟨hid.symm, ?_, hnewer⟩
        exact hid ▸ hpeer arrival mem_cons_self
    have ih := reflects_receive nodeId arrivals (t.updateNode arrival.1 arrival.2).table
      (records ++ [arrival.1]) hfirst
      (by simpa using fun a b h => hpeer (a, b) (mem_cons_of_mem _ h))
    simpa [receive] using ih

/-- The table has exactly the nodes of the records, each with its newest content. -/
def HoldsLatest (t : MembershipTable M) (records : List (NodeInfo M)) : Prop :=
  ∀ nodeId, (t.getMember nodeId = none ↔ ∀ r ∈ records, r.id ≠ nodeId) ∧
    ∀ entry ∈ t.getMember nodeId, ∀ r ∈ records, r.id = nodeId → r.Latest records →
      entry.content = r.content

theorem getMember_receive_of_latest {entry : MembershipEntry M} :
    (arrivals : List (NodeInfo M × ℤ)) → (t : MembershipTable M) → t.getMember nodeId = some entry →
        (∀ arrival ∈ arrivals, arrival.1.id = nodeId → arrival.1.stamp ≤ entry.stamp) →
          (t.receive arrivals).getMember nodeId = some entry
  | [], _, hget, _ => hget
  | arrival :: arrivals, t, hget, hlatest => by
    refine getMember_receive_of_latest arrivals _ ?_ fun a ha => hlatest a (mem_cons_of_mem _ ha)
    rw [getMember_updateNode, if_neg, hget]
    rintro ⟨hid, -, hnewer⟩
    have hle := hlatest arrival mem_cons_self hid.symm
    exact absurd (hnewer entry hget) (not_lt.mpr hle)

/-- **When the order of arrivals does not matter.** Take records of other nodes of which those with
the same node, version and time are identical. Whatever the order in which they arrive, and however
often, the table ends with the latest record of every node, exactly if no latest record leaves out
metadata that another record of the same version has. An update always returns whether the stored
stamp grows. -/
theorem updateNode_converges_iff (localNodeId : String) (records : List (NodeInfo M))
    (hpeer : ∀ r ∈ records, r.id ≠ localNodeId)
    (hsame : ∀ r ∈ records, ∀ r' ∈ records,
      r.id = r'.id → r.version = r'.version → r.lastSeen = r'.lastSeen → r = r') :
    ((∀ arrivals : List (NodeInfo M × ℤ), (∀ r, r ∈ arrivals.map Prod.fst ↔ r ∈ records) →
        ((create localNodeId).receive arrivals).HoldsLatest records) ∧
      ∀ (t : MembershipTable M) (nodeInfo : NodeInfo M) (now : ℤ), nodeInfo.id ≠ t.localNodeId →
        ((t.updateNode nodeInfo now).returned = true ↔ t.storedStamp nodeInfo.id <
            (t.updateNode nodeInfo now).table.storedStamp nodeInfo.id)) ↔
      ∀ r ∈ records, r.Latest records → r.metadata = none →
        ∀ r' ∈ records, r'.id = r.id → r'.version = r.version → r'.metadata = none := by
  have hunique : ∀ r ∈ records, ∀ r' ∈ records, r.id = r'.id → r.stamp = r'.stamp → r = r' := by
    intro r hr r' hr' hid hstamp
    obtain ⟨hversion, hseen⟩ := NodeInfo.stamp_eq_iff.mp hstamp
    exact hsame r hr r' hr' hid hversion hseen
  constructor
  · rintro ⟨hconverges, -⟩ r hr hlatest hnone r' hr' hid hversion
    by_contra hmetadata
    -- `r'` arrives first, and `r` is spread over it
    have hlt : r'.stamp < r.stamp := by
      refine lt_of_le_of_ne (hlatest r' hr' hid) fun heq => hmetadata ?_
      rw [hunique r' hr' r hr hid heq]
      exact hnone
    let first : MembershipEntry M := ⟨r', 0⟩
    have hget : ((create localNodeId).receive [(r', 0), (r, 0)]).getMember r.id =
        some (first.merge r 0) := by
      have hfirst : ((create localNodeId).updateNode r' 0).table.getMember r.id = some first := by
        rw [getMember_updateNode, if_pos ⟨hid.symm, hpeer r hr, by rintro _ ⟨⟩⟩]
        rfl
      have hnewer : r.Newer (some first) := fun _ h => Option.mem_some.mp h ▸ hlt
      change (((create localNodeId).updateNode r' 0).table.updateNode r 0).table.getMember r.id = _
      rw [getMember_updateNode, hfirst, updateNode_localNodeId, if_pos ⟨rfl, hpeer r hr, hnewer⟩]
      rw [MembershipEntry.absorb, if_pos hversion]
    have hall := hconverges ([(r', 0), (r, 0)] ++ records.map fun r => (r, 0)) (by
      intro other
      simp only [map_append, map_cons, map_nil, map_map, Function.comp_def,
        map_id', mem_append, mem_cons, not_mem_nil, or_false]
      refine ⟨?_, .inr⟩
      rintro ((rfl | rfl) | h)
      exacts [hr', hr, h])
    have hkept : ((create localNodeId).receive
        ([(r', 0), (r, 0)] ++ records.map fun r => (r, 0))).getMember r.id =
          some (first.merge r 0) := by
      rw [receive, foldl_append]
      refine getMember_receive_of_latest _ _ hget fun arrival harrival hsameId => ?_
      obtain ⟨other, hother, rfl⟩ := mem_map.mp harrival
      exact hlatest other hother hsameId
    have hcontent := (hall r.id).2 _ hkept r hr rfl hlatest
    have hmerged : (first.merge r 0).metadata = r.metadata := congrArg (fun c => c.2.2.2) hcontent
    rw [hnone] at hmerged
    have hor : r.metadata.or r'.metadata = none := hmerged
    rw [hnone, Option.none_or] at hor
    exact hmetadata hor
  · intro hmetadata
    refine ⟨fun arrivals harrivals nodeId => ?_, fun t nodeInfo now h =>
      updateNode_returned_iff_lt h⟩
    have hreflects := reflects_receive nodeId arrivals (create localNodeId) []
      (.unknown fun _ h => absurd h not_mem_nil)
      (fun arrival h => hpeer _ ((harrivals _).mp (mem_map_of_mem h)))
    rw [nil_append] at hreflects
    cases hstored : ((create localNodeId).receive arrivals).getMember nodeId with
    | none =>
      rw [hstored] at hreflects
      cases hreflects with
      | unknown hnone =>
        exact ⟨iff_of_true rfl fun r hr => hnone r ((harrivals r).mpr hr),
          fun _ h => absurd h (Option.not_mem_none _)⟩
    | some entry =>
      rw [hstored] at hreflects
      cases hreflects with
      | @known _ latest hmem hid hlatest hstatus hstamp hown htaken =>
        have hmem' := (harrivals latest).mp hmem
        refine ⟨iff_of_false (by simp) fun h => h latest hmem' hid, ?_⟩
        rintro _ ⟨⟩ r hr hrid hrlatest
        obtain rfl : r = latest := by
          refine hunique r hr latest hmem' (hrid.trans hid.symm) (le_antisymm ?_ ?_)
          · exact hlatest r ((harrivals r).mpr hr) (hrid.trans hid.symm)
          · exact hrlatest latest hmem' (hid.trans hrid.symm)
        obtain ⟨hversion, hseen⟩ := NodeInfo.stamp_eq_iff.mp hstamp
        have hmeta : entry.metadata = r.metadata := by
          by_cases hnone : r.metadata = none
          · obtain ⟨other, hother, hid', hversion', heq⟩ := htaken
            rw [heq, hnone]
            exact hmetadata r hr hrlatest hnone other ((harrivals other).mp hother)
              (hid'.trans hrid.symm) hversion'
          · exact hown hnone
        rw [NodeInfo.content, NodeInfo.content, hstatus, hversion, hseen, hmeta]

def partialRecords : List (NodeInfo String) :=
  [{ id := "n2", status := .alive, lastSeen := 10, version := 1, metadata := some "eu" },
    { id := "n2", status := .alive, lastSeen := 20, version := 1, metadata := none }]

def completeRecords : List (NodeInfo String) :=
  [{ id := "n2", status := .alive, lastSeen := 10, version := 1, metadata := some "eu" },
    { id := "n2", status := .draining, lastSeen := 20, version := 1, metadata := some "us" },
    { id := "n3", status := .dead, lastSeen := 15, version := 4, metadata := some "us" }]

/-- Updates do not converge: a table that has seen `n2` with its metadata keeps them when the
later record without metadata arrives, and a table that receives that record first has none. -/
theorem updateNode_not_convergent : ¬∀ (localNodeId : String) (records : List (NodeInfo String)),
      (∀ r ∈ records, r.id ≠ localNodeId) →
        (∀ r ∈ records, ∀ r' ∈ records, r.id = r'.id → r.version = r'.version →
          r.lastSeen = r'.lastSeen → r = r') →
          (∀ arrivals : List (NodeInfo String × ℤ), (∀ r, r ∈ arrivals.map Prod.fst ↔ r ∈ records) →
              ((create localNodeId).receive arrivals).HoldsLatest records) ∧
            ∀ (t : MembershipTable String) (nodeInfo : NodeInfo String) (now : ℤ),
              nodeInfo.id ≠ t.localNodeId → ((t.updateNode nodeInfo now).returned = true ↔
                  t.storedStamp nodeInfo.id <
                    (t.updateNode nodeInfo now).table.storedStamp nodeInfo.id) := by
  intro h
  have hall := (h "n1" partialRecords (by decide) (by decide)).1
    (partialRecords.map fun r => (r, 30)) (fun r => by simp)
  have hentry := (hall "n2").2 _ rfl _ (mem_cons_of_mem _ mem_cons_self) rfl (by decide)
  exact absurd hentry (by decide)

/-- The theorem at records that all carry metadata. -/
theorem updateNode_converges_completeRecords : (∀ r ∈ completeRecords, r.id ≠ "n1") ∧
      ∀ arrivals : List (NodeInfo String × ℤ),
        (∀ r, r ∈ arrivals.map Prod.fst ↔ r ∈ completeRecords) →
          ((create "n1").receive arrivals).HoldsLatest completeRecords :=
  ⟨by decide, ((updateNode_converges_iff "n1" completeRecords (by decide) (by decide)).mpr
    (by decide)).1⟩

end MembershipTable

end DistributedCore.Cluster
