import DistributedCore.Cluster.StateFingerprint

/-!
# What the root hash of a fingerprint determines

The texts that are hashed for a fingerprint are the texts of the services and concatenations of
digests. If the hash function has no collision among them, then a node of the Merkle tree
determines the texts of the services under it, for any number of services, any size of the chunks
and any depth: a text of a service is no concatenation of digests, and digests of a fixed length
are read back from their concatenation. The last node of a level with an odd number of nodes is
paired with itself; no other service gets under the root by that.

Source: `src/cluster/delta-sync/StateFingerprint.ts`.
-/

namespace DistributedCore.Cluster

open List
open String hiding length_append

theorem eq_of_flatMap_toList {n : ℕ} (hn : 0 < n) :
    {l l' : List String} → (∀ s ∈ l, s.length = n) → (∀ s ∈ l', s.length = n) →
      l.flatMap toList = l'.flatMap toList → l = l'
  | [], [], _, _, _ => rfl
  | [], s :: _, _, hl, h | s :: _, [], hl, _, h => by
    have hlength := congrArg List.length h
    rw [flatMap_cons, length_append, length_toList, hl s mem_cons_self] at hlength
    simp only [flatMap_nil, length_nil] at hlength
    omega
  | s :: l, s' :: l', hl, hl', h => by
    rw [forall_mem_cons] at hl hl'
    obtain ⟨hs, htail⟩ := append_inj h (by
      rw [length_toList, length_toList, hl.1, hl'.1])
    rw [toList_inj.mp hs, eq_of_flatMap_toList hn hl.2 hl'.2 htail]

def pairs : List String → List (List String)
  | [] => []
  | [left] => [[left, left]]
  | left :: right :: nodes => [left, right] :: pairs nodes

theorem mem_flatten_pairs {node : String} : (nodes : List String) →
    (node ∈ (pairs nodes).flatten ↔ node ∈ nodes)
  | [] => Iff.rfl
  | [left] => by simp [pairs]
  | left :: right :: nodes => by
    rw [pairs, flatten_cons, mem_append, mem_flatten_pairs nodes]
    simp [or_assoc]

namespace FingerprintGenerator

variable (g : FingerprintGenerator)

def partTexts (parts : List (List String)) : List (List Char) :=
  parts.map fun part => (String.join part).toList

def hashParts (parts : List (List String)) : List String :=
  parts.map fun part => g.hashString (String.join part)

theorem nextLevel_eq : (nodes : List String) → g.nextLevel nodes = g.hashParts (pairs nodes)
  | [] => rfl
  | [left] => by simp [nextLevel, hashParts, pairs]
  | left :: right :: nodes => by
    rw [nextLevel, nextLevel_eq nodes]
    simp [hashParts, pairs]

def treeTexts (nodes : List String) : List (List Char) :=
  match nodes with
  | [] => []
  | [_] => []
  | left :: right :: nodes =>
    partTexts (pairs (left :: right :: nodes)) ++ treeTexts (g.nextLevel (left :: right :: nodes))
termination_by nodes.length
decreasing_by
  rw [g.length_nextLevel, length_cons, length_cons]
  omega

def merkleTexts (hashes : List String) : List (List Char) :=
  match hashes with
  | [] => [[]]
  | [_] => []
  | hashes =>
    let parts := chunks g.config.chunkSize hashes.length hashes
    partTexts parts ++ g.treeTexts (g.hashParts parts)

/-- The texts of which the digest is taken for the fingerprint of the services. -/
def hashedTexts (services : List LogicalService) : List (List Char) :=
  services.map (fun service => (g.serviceData service).stringify) ++
    g.merkleTexts ((services.insertionSort g.ById).map g.hashService)

def hexDigits : List Char := "0123456789abcdef".toList

/-- The digests have a fixed length and hexadecimal characters. -/
def HexDigests : Prop :=
  ∃ n, ∀ text, (g.digest text).length = n ∧ ∀ c ∈ (g.digest text).toList, c ∈ hexDigits

/-- The text of a service under a node of a Merkle tree, where `S` are the hashed texts. -/
inductive Under (S : Set (List Char)) (text : List Char) : String → Prop
  | service (hS : text ∈ S) (hhead : text.head? = some '{') : Under S text (g.digest text)
  | part {nodes : List String} {node : String} (hnodes : ∀ node ∈ nodes, node ∈ Set.range g.digest)
      (hS : (String.join nodes).toList ∈ S) (hnode : node ∈ nodes) (h : Under S text node) :
      Under S text (g.hashString (String.join nodes))

variable {g} {S : Set (List Char)} {text : List Char} {nodes : List String}

theorem id_eq_of_stringify_eq {a b : LogicalService}
    (h : (g.serviceData a).stringify = (g.serviceData b).stringify) : a.id = b.id := by
  have hdata := Json.object.inj (Json.stringify_injective h)
  simp only [cons_append, cons.injEq, Prod.mk.injEq, Json.string.injEq] at hdata
  exact hdata.1.2

section

variable (hhex : g.HexDigests)

include hhex

section

variable (hnodes : ∀ node ∈ nodes, node ∈ Set.range g.digest)

include hnodes

theorem head?_join_ne : (join nodes).toList.head? ≠ some '{' := by
  obtain ⟨n, hn⟩ := hhex
  intro h
  rw [toList_join] at h
  obtain _ | ⟨node, nodes⟩ := nodes
  · cases h
  · obtain ⟨text, rfl⟩ := hnodes node mem_cons_self
    cases hdigest : (g.digest text).toList with
    | nil => exact g.digest_ne text (toList_eq_nil_iff.mp hdigest)
    | cons c =>
      rw [flatMap_cons, hdigest, cons_append, head?_cons, Option.some.injEq] at h
      have hc := (hn text).2 c (hdigest ▸ mem_cons_self)
      exact absurd (h ▸ hc) (by decide)

theorem eq_of_join_eq {nodes' : List String} (hnodes' : ∀ node ∈ nodes', node ∈ Set.range g.digest)
    (h : (join nodes).toList = (join nodes').toList) : nodes = nodes' := by
  obtain ⟨n, hn⟩ := hhex
  have hpos : 0 < n := by
    rw [← (hn []).1]
    exact Nat.pos_of_ne_zero fun h => g.digest_ne [] (length_eq_zero_iff.mp h)
  have hlength : ∀ node ∈ Set.range g.digest, node.length = n := by
    rintro _ ⟨text, rfl⟩
    exact (hn text).1
  rw [toList_join, toList_join] at h
  exact eq_of_flatMap_toList hpos (fun node hnode => hlength node (hnodes node hnode))
    (fun node hnode => hlength node (hnodes' node hnode)) h

end

variable (hfree : Set.InjOn g.digest S) {parts : List (List String)}

include hfree

theorem under_hashService_iff {service : LogicalService}
    (hS : (g.serviceData service).stringify ∈ S) :
    g.Under S text (g.hashService service) ↔ text = (g.serviceData service).stringify := by
  constructor
  · intro h
    rw [hashService] at h
    generalize hroot : g.digest (g.serviceData service).stringify = root at h
    cases h with
    | service hS' => exact (hfree hS hS' hroot).symm
    | part hnodes hS' _ _ =>
      refine absurd ?_ (head?_join_ne hhex hnodes)
      rw [← hfree hS hS' hroot]
      rfl
  · rintro rfl
    exact .service hS rfl

theorem under_hashString_iff (hnodes : ∀ node ∈ nodes, node ∈ Set.range g.digest)
    (hS : (join nodes).toList ∈ S) :
    g.Under S text (g.hashString (join nodes)) ↔ ∃ node ∈ nodes, g.Under S text node := by
  constructor
  · intro h
    generalize hroot : g.hashString (join nodes) = root at h
    cases h with
    | service hS' hhead =>
      rw [← hfree hS hS' hroot] at hhead
      exact absurd hhead (head?_join_ne hhex hnodes)
    | part hnodes' hS' hnode h =>
      rw [← eq_of_join_eq hhex hnodes hnodes' (hfree hS hS' hroot)] at hnode
      exact ⟨_, hnode, h⟩
  · rintro ⟨node, hnode, h⟩
    exact .part hnodes hS hnode h

theorem exists_under_hashParts_iff (hnodes : ∀ node ∈ parts.flatten, node ∈ Set.range g.digest)
    (hS : ∀ text ∈ partTexts parts, text ∈ S) :
    (∃ node ∈ g.hashParts parts, g.Under S text node) ↔
      ∃ node ∈ parts.flatten, g.Under S text node := by
  have hpart : ∀ part ∈ parts, (g.Under S text (g.hashString (join part)) ↔
      ∃ node ∈ part, g.Under S text node) := fun part hmem =>
    under_hashString_iff hhex hfree
      (fun node hnode => hnodes node (mem_flatten_of_mem hmem hnode)) (hS _ (mem_map_of_mem hmem))
  simp only [hashParts, mem_map, mem_flatten, exists_exists_and_eq_and]
  constructor
  · rintro ⟨part, hmem, h⟩
    obtain ⟨node, hnode, h⟩ := (hpart part hmem).mp h
    exact ⟨node, ⟨part, hmem, hnode⟩, h⟩
  · rintro ⟨node, ⟨part, hmem, hnode⟩, h⟩
    exact ⟨part, hmem, (hpart part hmem).mpr ⟨node, hnode, h⟩⟩

omit hhex hfree in
theorem mem_range_of_mem_hashParts : ∀ node ∈ g.hashParts parts, node ∈ Set.range g.digest := by
  intro node hnode
  obtain ⟨part, -, rfl⟩ := mem_map.mp hnode
  exact ⟨_, rfl⟩

theorem under_buildTreeLevel_iff (hnodes : ∀ node ∈ nodes, node ∈ Set.range g.digest)
    (hne : nodes ≠ []) (hS : ∀ text ∈ g.treeTexts nodes, text ∈ S) :
    g.Under S text (g.buildTreeLevel nodes) ↔ ∃ node ∈ nodes, g.Under S text node := by
  fun_induction buildTreeLevel g nodes with
  | case1 => exact absurd rfl hne
  | case2 => simp
  | case3 _ _ _ ih =>
    rw [treeTexts, forall_mem_append] at hS
    rw [ih (nextLevel_eq g _ ▸ mem_range_of_mem_hashParts) (nextLevel_ne_nil (cons_ne_nil _ _))
      hS.2, nextLevel_eq, exists_under_hashParts_iff hhex hfree
        (fun node hnode => hnodes node ((mem_flatten_pairs _).mp hnode)) hS.1]
    simp only [mem_flatten_pairs]

theorem under_merkleRoot_iff {hashes : List String}
    (hnodes : ∀ hash ∈ hashes, hash ∈ Set.range g.digest)
    (hS : ∀ text ∈ g.merkleTexts hashes, text ∈ S) :
    g.Under S text (g.merkleRoot hashes) ↔ ∃ hash ∈ hashes, g.Under S text hash := by
  obtain _ | ⟨first, _ | ⟨second, rest⟩⟩ := hashes
  · exact under_hashString_iff hhex hfree hnodes (hS [] mem_cons_self)
  · simp [merkleRoot]
  · have hS := forall_mem_append.mp hS
    have hflatten := flatten_chunks g.config.chunkSize_pos _ (first :: second :: rest) le_rfl
    refine (under_buildTreeLevel_iff hhex hfree mem_range_of_mem_hashParts ?_ hS.2).trans ?_
    · exact cons_ne_nil _ _
    rw [exists_under_hashParts_iff hhex hfree (by rwa [hflatten]) hS.1, hflatten]

/-- The texts under the root hash are those of the services. -/
theorem under_rootHash_iff {services : List LogicalService}
    (hS : ∀ text ∈ g.hashedTexts services, text ∈ S) :
    g.Under S text (g.generateServiceFingerprint services).rootHash ↔
      ∃ service ∈ services, text = (g.serviceData service).stringify := by
  rw [hashedTexts, forall_mem_append, forall_mem_map] at hS
  refine (under_merkleRoot_iff hhex hfree ?_ hS.2).trans ?_
  · rw [forall_mem_map]
    exact fun _ _ => ⟨_, rfl⟩
  · simp only [mem_map, mem_insertionSort, exists_exists_and_eq_and]
    exact exists_congr fun service => and_congr_right fun hservice =>
      under_hashService_iff hhex hfree (hS.1 service hservice)

end

variable (g) in
/-- The map from the ids of the services to their hashes. -/
def hashMap (services : List LogicalService) (id : String) : Option String :=
  ((serviceMap services).get id).map g.hashService

variable (g) in
/-- The hash function has no collision among the texts that are hashed for two fingerprints. -/
def CollisionFree (A B : List LogicalService) : Prop :=
  Set.InjOn g.digest {text | text ∈ g.hashedTexts A ∨ text ∈ g.hashedTexts B}

variable {A B : List LogicalService}

theorem hashMap_eq_some_of_rootHash_eq (hhex : g.HexDigests) (hfree : Set.InjOn g.digest S)
    (hA : UniqueIds A) (hB : UniqueIds B) (hSA : ∀ text ∈ g.hashedTexts A, text ∈ S)
    (hSB : ∀ text ∈ g.hashedTexts B, text ∈ S) {id hash : String}
    (heq : (g.generateServiceFingerprint A).rootHash = (g.generateServiceFingerprint B).rootHash)
    (h : g.hashMap A id = some hash) : g.hashMap B id = some hash := by
  obtain ⟨a, hget, rfl⟩ := Option.map_eq_some_iff.mp h
  obtain ⟨ha, rfl⟩ := (get_serviceMap_iff hA).mp hget
  have hunder := (under_rootHash_iff hhex hfree hSA).mpr ⟨a, ha, rfl⟩
  rw [heq, under_rootHash_iff hhex hfree hSB] at hunder
  obtain ⟨b, hb, htext⟩ := hunder
  rw [hashMap, (get_serviceMap_iff hB).mpr ⟨hb, (id_eq_of_stringify_eq htext).symm⟩,
    Option.map_some, hashService, hashService, htext]

/-- **The root hash determines the hash of every service.** -/
theorem rootHash_eq_iff (hhex : g.HexDigests) (hfree : g.CollisionFree A B) (hA : UniqueIds A)
    (hB : UniqueIds B) :
    (g.generateServiceFingerprint A).rootHash = (g.generateServiceFingerprint B).rootHash ↔
      ∀ id, g.hashMap A id = g.hashMap B id := by
  constructor
  · intro heq id
    have hSA : ∀ text ∈ g.hashedTexts A,
      text ∈ {text | text ∈ g.hashedTexts A ∨ text ∈ g.hashedTexts B} := fun _ => .inl
    have hSB : ∀ text ∈ g.hashedTexts B,
      text ∈ {text | text ∈ g.hashedTexts A ∨ text ∈ g.hashedTexts B} := fun _ => .inr
    exact Option.ext fun hash =>
      ⟨hashMap_eq_some_of_rootHash_eq hhex hfree hA hB hSA hSB heq,
        hashMap_eq_some_of_rootHash_eq hhex hfree hB hA hSB hSA heq.symm⟩
  · intro heq
    exact congrArg StateFingerprint.rootHash ((fingerprint_eq_iff hA hB).mpr heq)

end FingerprintGenerator

open FingerprintGenerator

/-- The comparison reports whether two maps from ids to hashes are equal, and each id in which they
differ once. -/
structure FingerprintComparison.Correct (c : FingerprintComparison)
    (before after : String → Option String) : Prop where
  identical : c.identical = true ↔ ∀ id, before id = after id
  added : ∀ id, id ∈ c.addedServices ↔ before id = none ∧ after id ≠ none
  removed : ∀ id, id ∈ c.removedServices ↔ before id ≠ none ∧ after id = none
  modified : ∀ id, id ∈ c.modifiedServices ↔
    before id ≠ none ∧ after id ≠ none ∧ before id ≠ after id
  nodup : c.addedServices.Nodup ∧ c.removedServices.Nodup ∧ c.modifiedServices.Nodup

/-- **The comparison is sound and complete** if the hash function has no collision. -/
theorem compareFingerprints_correct {g : FingerprintGenerator} {A B : List LogicalService}
    (hhex : g.HexDigests) (hfree : g.CollisionFree A B) (hA : UniqueIds A) (hB : UniqueIds B) :
    (compareFingerprints (g.generateServiceFingerprint A)
      (g.generateServiceFingerprint B)).Correct (g.hashMap A) (g.hashMap B) := by
  have hroot := rootHash_eq_iff hhex hfree hA hB
  have hne : ∀ {id}, g.hashMap A id ≠ g.hashMap B id →
      (g.generateServiceFingerprint A).rootHash ≠ (g.generateServiceFingerprint B).rootHash :=
    fun h heq => h (hroot.mp heq _)
  have hget : ∀ {services}, UniqueIds services → ∀ id,
      (g.generateServiceFingerprint services).serviceHashes.get id = g.hashMap services id :=
    fun h => get_serviceHashes h
  refine ⟨?_, fun id => ?_, fun id => ?_, fun id => ?_,
    nodup_addedServices, nodup_removedServices, nodup_modifiedServices⟩
  · rw [← hroot, compareFingerprints]
    split_ifs with heq
    · exact iff_of_true rfl heq
    · exact iff_of_false (by simp) heq
  · rw [mem_addedServices, hget hA, hget hB, and_iff_right_iff_imp]
    exact fun h => hne fun heq => h.2 (heq ▸ h.1)
  · rw [mem_removedServices, hget hA, hget hB, and_iff_right_iff_imp]
    exact fun h => hne fun heq => h.1 (heq ▸ h.2)
  · rw [mem_modifiedServices, hget hA, hget hB, and_iff_right_iff_imp]
    exact fun h => hne h.2.2

/-! ### A hash function without collisions -/

def markedService (id checksum : String) : LogicalService :=
  ⟨id, "", "", none, .empty, .empty, 0, .empty, 1, checksum, none⟩

/-- A digest of one character for the texts of up to three services, told apart by marks. -/
def marking : FingerprintGenerator where
  config := ⟨false, false, false, 100, by decide⟩
  digest := fun text =>
    if text = [] then "0" else if text.head? = some '{' then
      if '*' ∈ text then "1" else if '+' ∈ text then "4" else "2" else "3"
  digest_ne := fun text => by split_ifs <;> decide
  localeLe := fun a b => decide (a ≤ b)
  localeLe_trans := fun a b c => by simpa using fun h h' => le_trans (α := String) h h'
  localeLe_total := fun a b => by simpa using le_total (α := String) a b
  localeLe_antisymm := fun a b => by simpa using fun h h' => le_antisymm (α := String) h h'

theorem hexDigests_marking : marking.HexDigests :=
  ⟨1, fun text => by
    rw [marking]
    dsimp only
    split_ifs <;> exact ⟨rfl, by simp; decide⟩⟩

theorem collisionFree_marking (service : LogicalService) : marking.CollisionFree [] [service] := by
  have hne : marking.digest [] ≠ marking.digest (marking.serviceData service).stringify := by
    change "0" ≠ if _ then "1" else if _ then "4" else "2"
    split_ifs <;> decide
  rintro text (h | h) text' (h' | h') heq <;> cases mem_singleton.mp h <;>
    cases mem_singleton.mp h'
  · rfl
  · exact absurd heq hne
  · exact absurd heq.symm hne
  · rfl

theorem compareFingerprints_markedService : (compareFingerprints
        (marking.generateServiceFingerprint [markedService "b" "*", markedService "a" ""])
        (marking.generateServiceFingerprint [markedService "a" ""])).Correct
      (marking.hashMap [markedService "b" "*", markedService "a" ""])
      (marking.hashMap [markedService "a" ""]) := by
  have hleft : marking.hashedTexts [markedService "b" "*", markedService "a" ""] =
      [(marking.serviceData (markedService "b" "*")).stringify,
        (marking.serviceData (markedService "a" "")).stringify, "21".toList] := by
    change _ :: _ :: _ :: marking.treeTexts [_] = _
    rw [treeTexts]
    decide +kernel
  refine compareFingerprints_correct hexDigests_marking ?_ (by decide) (by decide)
  have hnodup : ((marking.hashedTexts [markedService "b" "*", markedService "a" ""]).map
      marking.digest).Nodup := by
    rw [hleft]
    decide +kernel
  have hmem : ∀ text, text ∈ marking.hashedTexts [markedService "b" "*", markedService "a" ""] ∨
      text ∈ marking.hashedTexts [markedService "a" ""] →
        text ∈ marking.hashedTexts [markedService "b" "*", markedService "a" ""] := by
    rintro text (htext | htext)
    · exact htext
    · rw [mem_singleton.mp htext, hleft]
      exact mem_cons_of_mem _ mem_cons_self
  exact fun text h text' h' => inj_on_of_nodup_map hnodup (hmem text h) (hmem text' h')

end DistributedCore.Cluster
