import DistributedCore.Identity.KeyManager
import DistributedCore.Library.Json
import DistributedCore.Library.Runs

/-!
# Signed publications

A `SignedPubSubManager` publishes an envelope with the payload, a signature, the publisher and a
timestamp, and calls a handler with what an envelope says once the signature is verified. The
signature is one of the payload alone. So whoever has seen an envelope can deliver its payload on
another topic and with another timestamp, and can deliver whatever else the key manager of a node
has signed, such as its join messages.

Source: `src/gateway/pubsub/SignedPubSubManager.ts`, `src/gateway/pubsub/PubSubManager.ts`.
-/

namespace DistributedCore.Gateway

open Identity Option

/-- Why a message is not handed to the subscribers. -/
inductive RejectReason
  | noSignature
  | noPublicKey
  | invalidSignature

structure PubSubMessageMetadata where
  publisherNodeId : String
  timestamp : Option Json

structure PubSubCall where
  topic : String
  payload : Option Json
  metadata : PubSubMessageMetadata

structure Reaction where
  call : Option PubSubCall
  rejected : Option (RejectReason × Option Json)

/-- The mode and the keys that the manager knows. -/
structure SignedPubSubManager where
  strictMode : Bool
  publicKeys : OrderedMap String String

namespace SignedPubSubManager

variable (signatures : Signatures) (manager : SignedPubSubManager)

def handleRejection (reason : RejectReason) (publisherNodeId : Option Json) (call : PubSubCall) :
    Reaction :=
  ⟨if manager.strictMode then none else some call, some (reason, publisherNodeId)⟩

def publicKey (publisherNodeId : Json) : Option (String × String) := do
  let nodeId ← publisherNodeId.asString
  let key ← manager.publicKeys.get nodeId
  if key = "" then none else some (nodeId, key)

def verify (payload : Option Json) (signature : Json) (key : String) : Bool :=
  match payload, signature with
  | some payload, .string signature => signatures.verify payload.stringify signature key
  | _, _ => false

def receive (topic : String) (rawPayload : Json) (metadata : PubSubMessageMetadata) : Reaction :=
  match rawPayload.member "publisherNodeId" with
  | none => manager.handleRejection .noSignature none ⟨topic, some rawPayload, metadata⟩
  | some publisherNodeId =>
    let payload := rawPayload.member "payload"
    match (rawPayload.member "signature").filter Json.truthy with
    | none => manager.handleRejection .noSignature (some publisherNodeId) ⟨topic, payload, metadata⟩
    | some signature =>
      match manager.publicKey publisherNodeId with
      | none => ⟨none, some (.noPublicKey, some publisherNodeId)⟩
      | some (nodeId, key) =>
        if verify signatures payload signature key then
          ⟨some ⟨topic, payload, ⟨nodeId, rawPayload.member "timestamp"⟩⟩, none⟩
        else ⟨none, some (.invalidSignature, some publisherNodeId)⟩

def envelope (nodeId : String) (payload : Json) (now : ℕ) : Json :=
  .object [("payload", payload), ("signature", .string (signatures.sign nodeId payload.stringify)),
    ("publisherNodeId", .string nodeId), ("timestamp", .number (.ofNat now))]

end SignedPubSubManager

/-! ### Runs -/

structure Publication where
  nodeId : String
  topic : String
  payload : Json
  timestamp : ℕ

/-- The texts that the key managers have signed, the publications, the topics that the subscriber
listens to, and the calls of its handlers. -/
structure SignedNetwork where
  signed : List (String × List Char)
  published : List Publication
  topics : List String
  calls : List PubSubCall

/-- The publications, the other signatures, and the deliveries, which may be forged. -/
inductive SignedEvent
  | subscribe (topic : String)
  | publish (nodeId topic : String) (payload : Json) (now : ℕ)
  /-- The key manager of a node signs something else. -/
  | sign (nodeId : String) (message : List Char)
  /-- The inner manager of the subscriber gets a message, genuine or not. -/
  | deliver (topic : String) (rawPayload : Json) (metadata : PubSubMessageMetadata)

namespace SignedNetwork

variable (signatures : Signatures) (manager : SignedPubSubManager) (compromised : String → Bool)

def started : SignedNetwork := ⟨[], [], [], []⟩

variable (s : SignedNetwork)

def step : SignedEvent → Option SignedNetwork
  | .subscribe topic => some { s with topics := s.topics ++ [topic] }
  | .publish nodeId topic payload now => some
      { s with
        signed := s.signed ++ [(nodeId, payload.stringify)]
        published := s.published ++ [⟨nodeId, topic, payload, now⟩] }
  | .sign nodeId message => some { s with signed := s.signed ++ [(nodeId, message)] }
  | .deliver topic rawPayload metadata =>
    let call := (manager.receive signatures topic rawPayload metadata).call
    some { s with calls := s.calls ++ (s.topics.filter (· = topic)).filterMap fun _ => call }

/-- The node published the payload at that time. -/
def Published (nodeId topic : String) (payload timestamp : Option Json) : Prop :=
  ∃ p ∈ s.published, p.nodeId = nodeId ∧ p.topic = topic ∧ some p.payload = payload ∧
    some (.number (.ofNat p.timestamp)) = timestamp

/-- What is delivered as from an uncompromised node was published by it. -/
def Authentic : Prop :=
  ∀ call ∈ s.calls, compromised call.metadata.publisherNodeId = false →
    s.Published call.metadata.publisherNodeId call.topic call.payload call.metadata.timestamp

/-- Signatures are not forged: a signature of a payload that is verified with the key of a node was
made by the node, unless its key is compromised. -/
def Unforged : SignedEvent → Prop
  | .deliver _ rawPayload _ =>
    ∀ nodeId ∈ (rawPayload.member "publisherNodeId").bind Json.asString,
      ∀ payload ∈ rawPayload.member "payload", ∀ signature ∈ rawPayload.member "signature",
        compromised nodeId = false →
        SignedPubSubManager.verify signatures (some payload) signature
          (signatures.publicKey nodeId) = true → (nodeId, payload.stringify) ∈ s.signed
  | _ => True

/-- A payload that a node has signed is delivered in its name only on a topic and with a timestamp
with which the node published it. -/
def Unmixed : SignedEvent → Prop
  | .deliver topic rawPayload _ =>
    ∀ nodeId ∈ (rawPayload.member "publisherNodeId").bind Json.asString,
      ∀ payload ∈ rawPayload.member "payload", compromised nodeId = false →
        (nodeId, payload.stringify) ∈ s.signed →
        s.Published nodeId topic (some payload) (rawPayload.member "timestamp")
  | _ => True

instance (s : SignedNetwork) (nodeId topic : String) (payload timestamp : Option Json) :
    Decidable (s.Published nodeId topic payload timestamp) :=
  inferInstanceAs (Decidable (∃ _ ∈ _, _ ∧ _ ∧ _ ∧ _))

instance (s : SignedNetwork) : Decidable (s.Authentic compromised) :=
  inferInstanceAs (Decidable (∀ _ ∈ _, _ → Published ..))

instance (s : SignedNetwork) (e : SignedEvent) :
    Decidable (s.Unforged signatures compromised e) := by
  unfold Unforged
  split <;> infer_instance

instance (s : SignedNetwork) (e : SignedEvent) : Decidable (s.Unmixed compromised e) := by
  unfold Unmixed
  split <;> infer_instance

end SignedNetwork

namespace SignedPubSubManager

variable {signatures : Signatures} {manager : SignedPubSubManager}

/-- A strict manager calls a handler only with what an envelope says whose signature of the payload
is verified with the key of its publisher. -/
theorem call_eq_some (hstrict : manager.strictMode = true) {topic : String} {rawPayload : Json}
    {metadata : PubSubMessageMetadata} {call : PubSubCall}
    (h : (manager.receive signatures topic rawPayload metadata).call = some call) :
    ∃ nodeId payload signature key,
      (rawPayload.member "publisherNodeId").bind Json.asString = some nodeId ∧
      rawPayload.member "payload" = some payload ∧
      rawPayload.member "signature" = some signature ∧ manager.publicKeys.get nodeId = some key ∧
      verify signatures (some payload) signature key = true ∧
      call = ⟨topic, some payload, ⟨nodeId, rawPayload.member "timestamp"⟩⟩ := by
  unfold receive at h
  split at h
  · rw [handleRejection, hstrict] at h
    cases h
  rename_i publisherNodeId hpublisher
  dsimp only at h
  split at h
  · rw [handleRejection, hstrict] at h
    cases h
  rename_i signature hsignature
  split at h
  · cases h
  rename_i nodeId key hkey
  split_ifs at h with hverify
  obtain ⟨name, hname, hkey⟩ := bind_eq_some_iff.mp hkey
  obtain ⟨key', hget, hkey⟩ := bind_eq_some_iff.mp hkey
  split_ifs at hkey
  obtain ⟨rfl, rfl⟩ := Prod.mk.inj (some.inj hkey)
  cases hpayload : rawPayload.member "payload" with
  | none =>
    rw [hpayload] at hverify
    cases hverify
  | some payload =>
    rw [hpayload] at hverify h
    exact ⟨name, payload, signature, key', by rw [hpublisher]; exact hname, rfl,
      (filter_eq_some_iff.mp hsignature).1, hget, hverify, (some.inj h).symm⟩

variable {compromised : String → Bool}

theorem authentic_step (hstrict : manager.strictMode = true)
    (hkeys : ∀ nodeId key, manager.publicKeys.get nodeId = some key →
      compromised nodeId = false → key = signatures.publicKey nodeId)
    {s s' : SignedNetwork} {e : SignedEvent} (h : s.Authentic compromised)
    (hforged : s.Unforged signatures compromised e) (hmixed : s.Unmixed compromised e)
    (hstep : s.step signatures manager e = some s') : s'.Authentic compromised := by
  cases e with
  | subscribe topic | sign nodeId message =>
    cases hstep
    exact h
  | publish =>
    cases hstep
    intro call hcall hcompromised
    obtain ⟨p, hp, hfields⟩ := h call hcall hcompromised
    exact ⟨p, List.mem_append_left _ hp, hfields⟩
  | deliver =>
    cases hstep
    intro call hcall hcompromised
    rcases List.mem_append.mp hcall with hold | hnew
    · exact h call hold hcompromised
    · obtain ⟨_, -, hnew⟩ := List.mem_filterMap.mp hnew
      obtain ⟨nodeId, payload, signature, key, hnode, hpayload, hsignature, hget, hverify, rfl⟩ :=
        call_eq_some hstrict hnew
      obtain rfl := hkeys nodeId key hget hcompromised
      exact hmixed nodeId hnode payload hpayload hcompromised
        (hforged nodeId hnode payload hpayload signature hsignature hcompromised hverify)

/-- **Handlers are called with publications**, after every run in which no signature is forged and
no payload is delivered with a topic or timestamp of another publication. -/
theorem authentic_of_run (signatures : Signatures) (manager : SignedPubSubManager)
    (compromised : String → Bool) (hstrict : manager.strictMode = true)
    (hkeys : ∀ nodeId key, manager.publicKeys.get nodeId = some key →
      compromised nodeId = false → key = signatures.publicKey nodeId)
    (es : List SignedEvent) {t : SignedNetwork}
    (hall : AllSteps (SignedNetwork.step signatures manager)
      (fun s e => s.Unforged signatures compromised e ∧ s.Unmixed compromised e) .started es)
    (hrun : exec (SignedNetwork.step signatures manager) .started es = some t) :
    t.Authentic compromised :=
  exec_invariant (fun _ _ _ h hok hstep => authentic_step hstrict hkeys h hok.1 hok.2 hstep)
    (fun _ h => absurd h List.not_mem_nil) hall hrun

def replay (topic : String) (timestamp : ℕ) : List SignedEvent :=
  [.subscribe topic, .publish "n1" "chat" (.string "hi") 5,
    .deliver topic (envelope plainSignatures "n1" (.string "hi") timestamp) ⟨"n2", none⟩]

def strictManager : SignedPubSubManager := ⟨true, OrderedMap.empty.set "n1" "n1"⟩

theorem authentic_replay :
    ∃ t, exec (SignedNetwork.step plainSignatures strictManager) .started (replay "chat" 5) =
      some t ∧ t.calls.length = 1 ∧ t.Authentic fun _ => false := by
  refine ⟨_, rfl, by decide +kernel, authentic_of_run plainSignatures strictManager
    (fun _ => false) rfl (fun nodeId key hget _ => ?_) (replay "chat" 5)
      (by decide +kernel) rfl⟩
  by_cases hnode : nodeId = "n1"
  · subst hnode
    exact (some.inj hget).symm
  · rw [strictManager, OrderedMap.get_set_of_ne _ _ hnode] at hget
    cases hget

/-- The payload that `n1` published on `chat` reaches a handler of `admin`, with a timestamp that
`n1` never gave. -/
theorem replayed_on_other_topic :
    ∃ t, exec (SignedNetwork.step plainSignatures strictManager) .started (replay "admin" 9) =
        some t ∧
      AllSteps (SignedNetwork.step plainSignatures strictManager)
        (fun s e => s.Unforged plainSignatures (fun _ => false) e) .started (replay "admin" 9) ∧
      ¬t.Authentic fun _ => false :=
  ⟨_, rfl, by decide +kernel, by decide +kernel⟩

end SignedPubSubManager

end DistributedCore.Gateway
