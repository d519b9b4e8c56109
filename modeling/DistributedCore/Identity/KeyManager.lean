import DistributedCore.Library.OrderedMap

/-!
# Signatures and pinned certificates

The signatures of the key managers are a parameter. What an attacker cannot do is stated where the
messages are received.

Source: `src/identity/KeyManager.ts`.
-/

namespace DistributedCore.Identity

/-- The keys of the nodes and the signature scheme. -/
structure Signatures where
  publicKey : String → String
  sign : (nodeId : String) → (message : List Char) → String
  verify : (message : List Char) → (signature publicKey : String) → Bool

def plainSignatures : Signatures where
  publicKey nodeId := nodeId
  sign nodeId message := nodeId ++ ":" ++ String.ofList message
  verify message signature publicKey := signature = publicKey ++ ":" ++ String.ofList message

def verifyPinnedCertificate (pinnedCertificates : OrderedMap String String)
    (nodeId publicKey : String) : Bool :=
  match pinnedCertificates.get nodeId with
  | none => true
  | some pinnedKey => pinnedKey = "" || pinnedKey = publicKey

end DistributedCore.Identity
