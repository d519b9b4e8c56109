import DistributedCore.Cluster.AntiEntropy
import DistributedCore.Identity.KeyManager

/-!
# Join messages and pinned certificates

A message whose payload has a signature and a public key is dropped if the signature does not
verify, or if another key is pinned for the sender. A message without one of the two fields is
handled without either check, so whoever names a node as the sender brings records into the table
of a node that has pinned a key for the sender. Pinning keeps out what is not signed with the
pinned key exactly if the message is signed by someone, names the receiver as its sender or has no
news for the receiver.

Source: `src/messaging/cluster/ClusterCommunication.ts`, `src/identity/KeyManager.ts`.
-/

namespace DistributedCore.Cluster

open Identity Option

variable {M : Type}

/-! ### The code -/

structure JoinMessage (M : Type) where
  nodeInfo : NodeInfo M
  isResponse : Bool
  membershipSnapshot : Option (List (NodeInfo M))

/-- The payloads that a node dispatches on. -/
inductive ClusterPayload (M : Type)
  | join (message : JoinMessage M)
  | gossip (message : GossipMessage M)
  | other

/-- A message as it arrives, with the signature and the key if there are any. -/
structure ClusterMessage (M : Type) where
  payload : ClusterPayload M
  signature : Option String
  signedBy : Option String

/-- What `ClusterCommunication` has from its context: the pinned certificates, the signatures and
the texts of payloads. -/
structure ClusterCommunication (M : Type) where
  pinnedCertificates : OrderedMap String String
  signatures : Signatures
  stringify : ClusterPayload M → List Char
  hash : String → ℕ

def JoinMessage.records (message : JoinMessage M) : List (NodeInfo M) :=
  message.nodeInfo :: if message.isResponse then message.membershipSnapshot.getD [] else []

def ClusterMessage.signed? (message : ClusterMessage M) : Option (String × String) := do
  let signature ← message.signature.filter (· ≠ "")
  let signedBy ← message.signedBy.filter (· ≠ "")
  some (signature, signedBy)

namespace ClusterCommunication

variable (x : ClusterCommunication M) (c : ClusterManager M)

def hasSignature (_ : ClusterCommunication M) (message : ClusterMessage M) : Bool :=
  message.signed?.isSome

def verifyClusterPayload (payload : ClusterPayload M) (signature signedBy : String) : Bool :=
  x.signatures.verify (x.stringify payload) signature signedBy

def handleJoinMessage (message : JoinMessage M) (senderId : String) (now : ℤ) : ClusterManager M :=
  if senderId = c.membership.localNodeId then c
  else message.records.foldl (fun c nodeInfo => c.receiveRecord x.hash nodeInfo now) c

def dispatch (payload : ClusterPayload M) (senderId : String) (now : ℤ) : ClusterManager M :=
  let c := c.recordNodeActivity x.hash senderId now
  match payload with
  | .join message => x.handleJoinMessage c message senderId now
  | .gossip message => c.handleGossipMessage x.hash message now
  | .other => c

def handleMessage (senderId : String) (message : ClusterMessage M) (now : ℤ) : ClusterManager M :=
  match message.signed? with
  | none => x.dispatch c message.payload senderId now
  | some (signature, signedBy) =>
    if !x.verifyClusterPayload message.payload signature signedBy then c
    else if !verifyPinnedCertificate x.pinnedCertificates senderId signedBy then c
    else x.dispatch c message.payload senderId now

end ClusterCommunication

/-! ### News -/

namespace ClusterManager

variable {hash : String → ℕ} {c c' c'' : ClusterManager M} {now : ℤ} {p q q' : Prop}

/-- The version of the table rises if `p` holds, and nothing changes otherwise. -/
def ChangesIff (p : Prop) (c c' : ClusterManager M) : Prop :=
  (p → c.membership.version < c'.membership.version) ∧ (¬p → c' = c)

theorem ChangesIff.comp (h : ChangesIff p c c') (h' : ChangesIff q c' c'')
    (hq : c' = c → (q ↔ q')) : ChangesIff (p ∨ q') c c'' := by
  by_cases hp : p
  · refine ⟨fun _ => (h.1 hp).trans_le ?_, fun hnot => absurd (.inl hp) hnot⟩
    by_cases hq : q
    · exact (h'.1 hq).le
    · rw [h'.2 hq]
  · obtain rfl := h.2 hp
    simpa [hp, ← hq rfl] using h'

/-- The record is newer than what the table has, and not about the local node. -/
def Takes (c : ClusterManager M) (nodeInfo : NodeInfo M) : Prop :=
  nodeInfo.id ≠ c.membership.localNodeId ∧ nodeInfo.Newer (c.membership.getMember nodeInfo.id)

theorem version_updateNode {nodeInfo : NodeInfo M} (h : c.Takes nodeInfo) :
    c.membership.version < (c.perform hash (.updateNode nodeInfo now)).membership.version := by
  have hput := (c.membership.updateNode_eq nodeInfo now).trans (if_pos h)
  rw [perform_membership, MembershipOp.perform, hput]
  exact Nat.lt_succ_self _

theorem changesIff_receiveRecord (nodeInfo : NodeInfo M) :
    ChangesIff (c.Takes nodeInfo) c (c.receiveRecord hash nodeInfo now) := by
  refine ⟨fun h => ?_, fun h => ?_⟩
  · rw [receiveRecord]
    split_ifs <;> exact version_updateNode h
  · have hsame := (c.membership.updateNode_eq nodeInfo now).trans (if_neg h)
    simp only [receiveRecord, perform, MembershipOp.perform, hsame]
    rfl

theorem changesIff_foldl (records : List (NodeInfo M)) (c : ClusterManager M) :
    ChangesIff (∃ r ∈ records, c.Takes r) c
      (records.foldl (fun c r => c.receiveRecord hash r now) c) := by
  induction records generalizing c with
  | nil => exact ⟨by simp, fun _ => rfl⟩
  | cons r _ ih =>
    rw [List.exists_mem_cons_iff]
    refine (changesIff_receiveRecord r).comp (ih _) fun hsame => ?_
    rw [hsame]

/-- A message of the node makes it ALIVE again. -/
def Revives (c : ClusterManager M) (nodeId : String) : Prop :=
  ∃ member ∈ c.membership.getMember nodeId, member.status = .suspect ∨ member.status = .dead

theorem changesIff_recordNodeActivity {nodeId : String}
    (hlocal : nodeId ≠ c.membership.localNodeId) :
    ChangesIff (c.Revives nodeId) c (c.recordNodeActivity hash nodeId now) := by
  rw [recordNodeActivity, if_neg hlocal]
  cases hget : c.membership.getMember nodeId with
  | none => exact ⟨by simp [Revives, hget], fun _ => rfl⟩
  | some member =>
    have hrevives : c.Revives nodeId ↔ member.status = .suspect ∨ member.status = .dead := by
      simp [Revives, hget]
    rw [hrevives]
    refine ⟨fun hstatus => ?_, fun hstatus => if_neg hstatus⟩
    simp only [if_pos hstatus]
    -- the record of the activity has the next version
    refine version_updateNode ⟨hlocal, fun entry hentry => NodeInfo.stamp_lt_iff.mpr (.inl ?_)⟩
    cases hget.symm.trans hentry
    exact Int.lt_add_one_iff.mpr le_rfl

@[simp] theorem recordNodeActivity_localNodeId (nodeId : String) :
    (c.recordNodeActivity hash nodeId now).membership.localNodeId = c.membership.localNodeId := by
  rw [recordNodeActivity]
  split_ifs
  · rfl
  · split
    · rfl
    · split_ifs
      · rw [perform_membership]
        exact MembershipTable.updateNode_localNodeId
      · rfl

end ClusterManager

/-! ### Pinned certificates -/

namespace ClusterCommunication

variable (x : ClusterCommunication M) (c : ClusterManager M)

/-- Something in the message changes the table. -/
def News (senderId : String) (message : JoinMessage M) : Prop :=
  c.Revives senderId ∨ ∃ r ∈ message.records, c.Takes r

/-- The message changes neither the table nor the records for gossip. -/
def Unaffected (senderId : String) (message : ClusterMessage M) (now : ℤ) : Prop :=
  (x.handleMessage c senderId message now).membership = c.membership ∧
    (x.handleMessage c senderId message now).recentUpdates = c.recentUpdates

variable {x c} {senderId : String} {now : ℤ} (message : JoinMessage M)

theorem changesIff_dispatch (h : senderId ≠ c.membership.localNodeId) :
    ClusterManager.ChangesIff (News c senderId message) c
      (x.dispatch c (.join message) senderId now) := by
  have hactivity : ClusterManager.ChangesIff (c.Revives senderId) c
      (c.recordNodeActivity x.hash senderId now) := ClusterManager.changesIff_recordNodeActivity h
  rw [dispatch, handleJoinMessage, ClusterManager.recordNodeActivity_localNodeId, if_neg h]
  exact hactivity.comp (ClusterManager.changesIff_foldl message.records _) fun hsame => by
    rw [hsame]

theorem dispatch_local (h : senderId = c.membership.localNodeId) :
    x.dispatch c (.join message) senderId now = c := by
  have hactivity : c.recordNodeActivity x.hash senderId now = c := by
    rw [ClusterManager.recordNodeActivity, if_pos h]
  simp [dispatch, hactivity, handleJoinMessage, if_pos h]

/-- **What pinning keeps out.** Let a key be pinned for the sender of a join message, and let its
private key have signed some texts only. Handling the message changes neither the table nor the
recent updates unless the payload is among them, exactly if, unless the payload is among them, the
message has a signature, is sent in the name of the node itself, or has no news. -/
theorem unaffected_unless_signed_iff (x : ClusterCommunication M) (c : ClusterManager M)
    (senderId : String) (join : JoinMessage M) (signature signedBy : Option String) (now : ℤ)
    (signed : List (List Char)) {key : String}
    (hpin : x.pinnedCertificates.get senderId = some key) (hkey : key ≠ "")
    (hunforged : ∀ s ∈ signature, x.signatures.verify (x.stringify (.join join)) s key = true →
      x.stringify (.join join) ∈ signed) :
    (x.stringify (.join join) ∉ signed →
        x.Unaffected c senderId ⟨.join join, signature, signedBy⟩ now) ↔
      (x.stringify (.join join) ∉ signed → x.hasSignature ⟨.join join, signature, signedBy⟩ = true ∨
          senderId = c.membership.localNodeId ∨ ¬News c senderId join) := by
  refine imp_congr_right fun hnot => ?_
  rw [Unaffected, hasSignature]
  cases hsigned : ClusterMessage.signed? ⟨ClusterPayload.join join, signature, signedBy⟩ with
  | none =>
    rw [handleMessage, hsigned]
    by_cases hlocal : senderId = c.membership.localNodeId
    · rw [dispatch_local join hlocal]
      simp [hlocal]
    · have hchanges : ClusterManager.ChangesIff (News c senderId join) c
          (x.dispatch c (.join join) senderId now) := changesIff_dispatch join hlocal
      by_cases hnews : News c senderId join
      · have hchanged : (x.dispatch c (.join join) senderId now).membership ≠ c.membership :=
          fun heq => (hchanges.1 hnews).ne' (congrArg MembershipTable.version heq)
        simp [hnews, hlocal, hchanged]
      · simp [hchanges.2 hnews, hnews]
  | some =>
    obtain ⟨t, ht, hs⟩ := bind_eq_some_iff.mp hsigned
    obtain ⟨u, -, hs⟩ := bind_eq_some_iff.mp hs
    cases hs
    have hverify : x.verifyClusterPayload (.join join) t key = false :=
      Bool.eq_false_iff.mpr fun h => hnot (hunforged t (filter_eq_some_iff.mp ht).1 h)
    have hsame : x.handleMessage c senderId ⟨.join join, signature, signedBy⟩ now = c := by
      simp only [handleMessage, hsigned]
      by_cases hu : key = u
      · subst hu
        rw [hverify]
        rfl
      · have hpinned : verifyPinnedCertificate x.pinnedCertificates senderId u = false := by
          simp [verifyPinnedCertificate, hpin, hkey, hu]
        rw [hpinned]
        exact ite_self _
    simp [hsame]

def pinning : ClusterCommunication Unit :=
  ⟨OrderedMap.empty.set "n1" "n1", plainSignatures, fun _ => ['j'], fun _ => 0⟩

def joinOf (nodeId : String) : JoinMessage Unit := ⟨⟨nodeId, .alive, 1, 1, none, none⟩, false, none⟩

/-- A join message in the name of `n1` that another node signed is dropped. -/
theorem unaffected_of_other_signer :
    pinning.Unaffected (.create "n0" 1) "n1" ⟨.join (joinOf "n1"), some "n2:j", some "n2"⟩ 5 :=
  (unaffected_unless_signed_iff pinning (.create "n0" 1) "n1" (joinOf "n1") (some "n2:j")
    (some "n2") 5 [] rfl (by decide) (by decide)).mpr (fun _ => .inl rfl) (by decide)

/-- A join message in the name of `n1` that nobody signed is handled. -/
theorem unsigned_join_handled : pinning.pinnedCertificates.get "n1" = some "n1" ∧
      ¬pinning.Unaffected (.create "n0" 1) "n1" ⟨.join (joinOf "n1"), none, none⟩ 5 :=
  ⟨rfl, fun h => absurd (congrArg MembershipTable.version h.1) (by decide)⟩

end ClusterCommunication

end DistributedCore.Cluster
