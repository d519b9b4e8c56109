import DistributedCore.Library.JsNumber
import DistributedCore.Library.Texts
import DistributedCore.Transport.Encryption
import Mathlib.Tactic.Linarith

/-!
# Authenticated messages and their replay

A message is authenticated by a tag over its data, its timestamp in decimal digits and its nonce,
put one after another without separators. A verifier accepts a message once: it refuses timestamps
that are too far from its clock, and it remembers the nonces of the messages that it has seen until
their timestamps are out of date.

Source: `src/transport/MessageAuth.ts`.
-/

namespace DistributedCore.Transport

open JsonNumber OrderedMap List JsNumber

/-- A tag function without collisions. -/
structure Hmac where
  tag : (key data : Bytes) → Bytes
  data_eq_of_tag_eq : ∀ {key key' data data'}, tag key data = tag key' data' → data = data'

structure TimestampFormat (T : Type) where
  /-- A reading of the clock. -/
  ofClock : ℤ → T
  value : T → JsNumber
  text : T → Bytes
  text_injective : Function.Injective text

/-- The window of timestamps and the age of nonces. -/
structure MessageAuthOptions where
  enableReplayProtection : Bool
  nonceSize : ℕ
  nonceSize_pos : 0 < nonceSize
  /-- In seconds. -/
  timestampWindow : ℚ
  /-- In seconds. -/
  maxNonceAge : ℚ

structure AuthenticatedMessage (T : Type) where
  data : Bytes
  signature : Bytes
  timestamp : T
  nonce : Bytes
  keyVersion : ℕ
  deriving DecidableEq

structure NonceInfo (T : Type) where
  nonce : Bytes
  timestamp : T
  used : Bool

/-- The keys by version, and the nonces that were used. -/
structure MessageAuth (T : Type) where
  options : MessageAuthOptions
  keys : OrderedMap ℕ Bytes
  currentKeyVersion : ℕ
  usedNonces : OrderedMap Bytes (NonceInfo T)

namespace MessageAuth

variable {T : Type} (hmac : Hmac) (format : TimestampFormat T) (auth : MessageAuth T)

def signedBytes (data : Bytes) (timestamp : T) (nonce : Bytes) : Bytes :=
  data ++ (format.text timestamp ++ nonce)

def verifySignature (message : AuthenticatedMessage T) (key : Bytes) : Bool :=
  message.signature = hmac.tag key (signedBytes format message.data message.timestamp message.nonce)

def verifyMessage (now : ℤ) (message : AuthenticatedMessage T) : Bool × MessageAuth T :=
  match auth.keys.get message.keyVersion with
  | none => (false, auth)
  | some key =>
    let messageAge := ((JsNumber.finite now).sub (format.value message.timestamp)).divNat 1000
    if (JsNumber.finite auth.options.timestampWindow).less messageAge then (false, auth)
    else if messageAge.less (.finite (-auth.options.timestampWindow)) then (false, auth)
    else if auth.options.enableReplayProtection ∧ message.nonce.length > 0 then
      if auth.usedNonces.has message.nonce then (false, auth)
      else
        -- The nonce counts as used whether or not the tag is right.
        (verifySignature hmac format message key, { auth with
          usedNonces :=
            auth.usedNonces.set message.nonce ⟨message.nonce, message.timestamp, true⟩ })
    else (verifySignature hmac format message key, auth)

def cleanupOldNonces (now : ℤ) : MessageAuth T :=
  let maxAge := auth.options.maxNonceAge * 1000
  { auth with usedNonces := auth.usedNonces.filter fun _ info =>
      !(JsNumber.finite maxAge).less ((JsNumber.finite now).sub (format.value info.timestamp)) }

end MessageAuth

/-! ### Verifiers -/

/-- A node that verifies messages, with its clock. -/
structure Verifier (T : Type) where
  auth : MessageAuth T
  now : ℤ
  /-- The messages that were accepted, the last one first. -/
  accepted : List (AuthenticatedMessage T)

inductive VerifierEvent (T : Type) where
  | present (message : AuthenticatedMessage T)
  | cleanup
  | clock (now : ℤ)

namespace Verifier

variable {T : Type} (hmac : Hmac) (format : TimestampFormat T)

def present (s : Verifier T) (message : AuthenticatedMessage T) : Verifier T :=
  let (valid, auth) := s.auth.verifyMessage hmac format s.now message
  { s with auth := auth, accepted := if valid then message :: s.accepted else s.accepted }

def step (s : Verifier T) : VerifierEvent T → Option (Verifier T)
  | .present message => some (s.present hmac format message)
  | .cleanup => some { s with auth := s.auth.cleanupOldNonces format s.now }
  | .clock now => some { s with now := now }

end Verifier

/-- Nonces and timestamps have a fixed length, and the clock does not go back. -/
def VerifierEvent.Regular {T : Type} (format : TimestampFormat T) (digits : ℕ) (s : Verifier T) :
    VerifierEvent T → Prop
  | .present message => message.nonce.length = s.auth.options.nonceSize ∧
      (format.text message.timestamp).length = digits
  | .cleanup => True
  | .clock now => s.now ≤ now

/-! ### Boundaries -/

namespace MessageAuth

variable {T : Type} {hmac : Hmac} {format : TimestampFormat T} {auth : MessageAuth T}

/-- The timestamp is older than the age of nonces. -/
def Outdated (options : MessageAuthOptions) (now : ℤ) (timestamp : JsNumber) : Prop :=
  (JsNumber.finite (options.maxNonceAge * 1000)).less ((JsNumber.finite now).sub timestamp) = true

variable {options : MessageAuthOptions} {timestamp : JsNumber} {now : ℤ}

theorem Outdated.cases (h : Outdated options now timestamp) : timestamp = .negInfinity ∨
      ∃ q, timestamp = .finite q ∧ options.maxNonceAge * 1000 < now - q := by
  cases timestamp with
  | nan => cases h
  | posInfinity => cases h
  | negInfinity => exact .inl rfl
  | finite q =>
    refine .inr ⟨q, rfl, ?_⟩
    simpa [Outdated, sub, neg, add, less, sub_eq_add_neg] using h

theorem Outdated.mono {now' : ℤ} (h : Outdated options now timestamp) (hnow : now ≤ now') :
    Outdated options now' timestamp := by
  rcases h.cases with rfl | ⟨q, rfl, hlt⟩
  · rfl
  · have hcast : (now : ℚ) ≤ now' := Int.cast_le.mpr hnow
    have hgoal : options.maxNonceAge * 1000 < now' - q := by linarith
    simpa [Outdated, sub, neg, add, less, sub_eq_add_neg] using hgoal

theorem Outdated.expired
    (hage : options.timestampWindow ≤ options.maxNonceAge) (h : Outdated options now timestamp) :
    (finite options.timestampWindow).less (((finite now).sub timestamp).divNat 1000) = true := by
  rcases h.cases with rfl | ⟨q, rfl, hlt⟩
  · rfl
  · have hgoal : options.timestampWindow < (now + -q) / 1000 := by
      rw [lt_div_iff₀ (by norm_num)]
      linarith
    simpa [sub, neg, add, divNat, less] using hgoal

/-- What the verification of a message with a nonce does: it refuses the message, or it takes note
of the nonce, which is new, and accepts the message if the tag is right. -/
theorem verifyMessage_cases (hmac : Hmac) (format : TimestampFormat T) (now : ℤ)
    {message : AuthenticatedMessage T} (hreplay : auth.options.enableReplayProtection = true)
    (hnonce : 0 < message.nonce.length) :
    auth.verifyMessage hmac format now message = (false, auth) ∨
    ∃ key, ¬(finite auth.options.timestampWindow).less
        (((finite now).sub (format.value message.timestamp)).divNat 1000) = true ∧
      auth.usedNonces.get message.nonce = none ∧
      auth.verifyMessage hmac format now message =
        (verifySignature hmac format message key, { auth with
          usedNonces := auth.usedNonces.set message.nonce
            ⟨message.nonce, message.timestamp, true⟩ }) := by
  rw [verifyMessage]
  cases auth.keys.get message.keyVersion with
  | none => exact .inl rfl
  | some key =>
    dsimp only
    split_ifs with hexpired _ hprotect hused
    · exact .inl rfl
    · exact .inl rfl
    · exact .inl rfl
    · exact .inr ⟨key, hexpired, (has_eq_false_iff _ _).mp (by simpa using hused), rfl⟩
    · exact absurd ⟨hreplay, hnonce⟩ hprotect

/-! ### What a verification leaves behind -/

def verifyAll (hmac : Hmac) (format : TimestampFormat T) :
    MessageAuth T → List (ℤ × AuthenticatedMessage T) → List Bool
  | _, [] => []
  | auth, (now, message) :: calls =>
    let (valid, auth) := auth.verifyMessage hmac format now message
    valid :: verifyAll hmac format auth calls

/-- The nonce is noted: the message has come as far as the check of the tag. -/
def Notes (format : TimestampFormat T) (auth : MessageAuth T) (now : ℤ)
    (message : AuthenticatedMessage T) : Prop :=
  let messageAge := ((JsNumber.finite now).sub (format.value message.timestamp)).divNat 1000
  (auth.keys.get message.keyVersion).isSome ∧
    ¬(JsNumber.finite auth.options.timestampWindow).less messageAge ∧
    ¬messageAge.less (.finite (-auth.options.timestampWindow)) ∧
    (auth.options.enableReplayProtection ∧ message.nonce.length > 0) ∧
    ¬auth.usedNonces.has message.nonce

/-- **A message leaves a trace exactly if its nonce is noted**, whether or not its tag is right:
otherwise all later verifications return what they return without it. -/
theorem leaves_no_trace_iff (hmac : Hmac) (format : TimestampFormat T) (auth : MessageAuth T)
    (now : ℤ) (message : AuthenticatedMessage T) :
    (∀ calls, verifyAll hmac format (auth.verifyMessage hmac format now message).2 calls =
      verifyAll hmac format auth calls) ↔ ¬auth.Notes format now message := by
  constructor
  · rintro h ⟨hkey, hexpired, hfuture, hprotect, hnew⟩
    obtain ⟨key, hkey⟩ := Option.isSome_iff_exists.mp hkey
    rw [Bool.not_eq_true, has_eq_false_iff] at hnew
    -- the genuine message with this nonce is accepted only if the nonce has not been noted
    let bytes := signedBytes format message.data message.timestamp message.nonce
    have hgenuine := h [(now, { message with signature := hmac.tag key bytes })]
    simp [bytes, verifyAll, verifyMessage, verifySignature, hkey, hexpired, hfuture, hprotect, hnew,
      OrderedMap.has] at hgenuine
  · intro hnotes calls
    have hsame : (auth.verifyMessage hmac format now message).2 = auth := by
      rw [verifyMessage]
      cases hkey : auth.keys.get message.keyVersion with
      | none => rfl
      | some =>
        dsimp only
        split_ifs with hexpired hfuture hprotect hused
        · rfl
        · rfl
        · rfl
        · exact absurd ⟨by rw [hkey]; rfl, hexpired, hfuture, hprotect, hused⟩ hnotes
        · rfl
    rw [hsame]

end MessageAuth

/-! ### Runs -/

namespace Verifier

variable {T : Type} {hmac : Hmac} {format : TimestampFormat T} {digits : ℕ} {s s' : Verifier T}

/-- The nonces of the accepted messages are kept while they could be replayed. -/
structure Guarded (hmac : Hmac) (format : TimestampFormat T) (digits : ℕ) (s : Verifier T) :
    Prop where
  replayProtection : s.auth.options.enableReplayProtection = true
  ages : s.auth.options.timestampWindow ≤ s.auth.options.maxNonceAge
  distinct : (s.accepted.map AuthenticatedMessage.signature).Nodup
  lengths : ∀ m ∈ s.accepted, m.nonce.length = s.auth.options.nonceSize ∧
    (format.text m.timestamp).length = digits
  signed : ∀ m ∈ s.accepted, ∃ key, MessageAuth.verifySignature hmac format m key = true
  seen : ∀ m ∈ s.accepted,
    (∃ info, s.auth.usedNonces.get m.nonce = some info ∧ info.timestamp = m.timestamp) ∨
      MessageAuth.Outdated s.auth.options s.now (format.value m.timestamp)

section

variable (h : s.Guarded hmac format digits)

include h

theorem Guarded.outdated_of_signature_eq {m m' : AuthenticatedMessage T} (hm : m ∈ s.accepted)
    (hlength : m'.nonce.length = s.auth.options.nonceSize ∧
      (format.text m'.timestamp).length = digits)
    {key : Bytes} (hvalid : MessageAuth.verifySignature hmac format m' key = true)
    (hsignature : m.signature = m'.signature) (hnew : s.auth.usedNonces.get m'.nonce = none) :
    MessageAuth.Outdated s.auth.options s.now (format.value m'.timestamp) := by
  obtain ⟨key', hvalid'⟩ := h.signed m hm
  rw [MessageAuth.verifySignature, decide_eq_true_eq] at hvalid hvalid'
  rw [hvalid, hvalid'] at hsignature
  have htext := (h.lengths m hm).2.trans hlength.2.symm
  obtain ⟨-, hrest⟩ := append_inj' (hmac.data_eq_of_tag_eq hsignature) (by
    rw [length_append, length_append, htext, (h.lengths m hm).1, hlength.1])
  obtain ⟨htimestamp, hnonce⟩ := append_inj hrest htext
  have htimestamp := format.text_injective htimestamp
  rcases h.seen m hm with ⟨info, hinfo, -⟩ | houtdated
  · rw [hnonce, hnew] at hinfo
    cases hinfo
  · rwa [htimestamp] at houtdated

theorem Guarded.present {m : AuthenticatedMessage T}
    (hregular : (VerifierEvent.present m).Regular format digits s) :
    (s.present hmac format m).Guarded hmac format digits := by
  have hnonce : 0 < m.nonce.length := hregular.1 ▸ s.auth.options.nonceSize_pos
  rcases MessageAuth.verifyMessage_cases hmac format s.now h.replayProtection hnonce with
    hrefused | ⟨key, hfresh, hnew, hverify⟩
  · have hsame : s.present hmac format m = s := by
      rw [Verifier.present, hrefused]
      rfl
    rwa [hsame]
  have hseen : ∀ m' ∈ s.accepted,
      (∃ info, (s.auth.usedNonces.set m.nonce ⟨m.nonce, m.timestamp, true⟩).get m'.nonce =
        some info ∧ info.timestamp = m'.timestamp) ∨
        MessageAuth.Outdated s.auth.options s.now (format.value m'.timestamp) := by
    intro m' hm'
    rcases h.seen m' hm' with ⟨info, hinfo, htimestamp⟩ | houtdated
    · refine .inl ⟨info, ?_, htimestamp⟩
      rw [get_set_of_ne, hinfo]
      intro heq
      rw [heq, hnew] at hinfo
      cases hinfo
    · exact .inr houtdated
  rw [Verifier.present, hverify]
  cases hvalid : MessageAuth.verifySignature hmac format m key with
  | false => exact ⟨h.replayProtection, h.ages, h.distinct, h.lengths, h.signed, hseen⟩
  | true =>
    refine ⟨h.replayProtection, h.ages, ?_, ?_, ?_, ?_⟩
    · refine nodup_cons.mpr ⟨fun hmem => ?_, h.distinct⟩
      obtain ⟨m', hm', hsignature⟩ := mem_map.mp hmem
      exact hfresh ((h.outdated_of_signature_eq hm' hregular hvalid hsignature hnew).expired h.ages)
    · exact forall_mem_cons.mpr ⟨hregular, h.lengths⟩
    · exact forall_mem_cons.mpr ⟨⟨key, hvalid⟩, h.signed⟩
    · exact forall_mem_cons.mpr ⟨.inl ⟨_, get_set_self _ _ _, rfl⟩, hseen⟩

theorem Guarded.cleanup :
    ({ s with auth := s.auth.cleanupOldNonces format s.now } : Verifier T).Guarded hmac format
      digits where
  replayProtection := h.replayProtection
  ages := h.ages
  distinct := h.distinct
  lengths := h.lengths
  signed := h.signed
  seen := by
    intro m hm
    rcases h.seen m hm with ⟨info, hinfo, htimestamp⟩ | houtdated
    · by_cases houtdated : MessageAuth.Outdated s.auth.options s.now (format.value m.timestamp)
      · exact .inr houtdated
      · refine .inl ⟨info, ?_, htimestamp⟩
        refine (get_filter _ _ _).trans ?_
        rw [hinfo, Option.filter_some, htimestamp, if_pos]
        simpa [MessageAuth.Outdated] using houtdated
    · exact .inr houtdated

theorem Guarded.step {e : VerifierEvent T}
    (hregular : e.Regular format digits s) (hstep : s.step hmac format e = some s') :
    s'.Guarded hmac format digits := by
  cases e with
  | present =>
    cases hstep
    exact h.present hregular
  | cleanup =>
    cases hstep
    exact h.cleanup
  | clock =>
    cases hstep
    exact ⟨h.replayProtection, h.ages, h.distinct, h.lengths, h.signed, fun m hm =>
      (h.seen m hm).imp_right fun houtdated => houtdated.mono hregular⟩

end

end Verifier

/-! ### A replayed tag -/

def asciiBytes (text : List Char) : Bytes := text.map fun c => UInt8.ofNat c.toNat

theorem asciiBytes_injOn {text text' : List Char} (h : ∀ c ∈ text, c.toNat < 256)
    (h' : ∀ c ∈ text', c.toNat < 256) (heq : asciiBytes text = asciiBytes text') :
    text = text' := by
  have hdecode : ∀ {text : List Char}, (∀ c ∈ text, c.toNat < 256) →
      (asciiBytes text).map (fun b => Char.ofNat b.toNat) = text := by
    intro text htext
    rw [asciiBytes, map_map]
    refine (map_congr_left fun c hc => ?_).trans (map_id _)
    rw [Function.comp_apply, UInt8.toNat_ofNat', Nat.mod_eq_of_lt (htext c hc), Char.ofNat_toNat,
      id]
  rw [← hdecode h, heq, hdecode h']

theorem toNat_lt_of_isNumberChar {c : Char} (h : isNumberChar c = true) : c.toNat < 256 := by
  simp only [isNumberChar, Bool.or_eq_true, decide_eq_true_eq] at h
  rcases h with ((((h | rfl) | rfl) | rfl) | rfl) | rfl
  · have hle : c.toNat ≤ 57 := by
      rw [Char.isDigit, Bool.and_eq_true, decide_eq_true_eq, decide_eq_true_eq] at h
      exact UInt32.le_iff_toNat_le.mp h.2
    omega
  all_goals decide

def integerFormat : TimestampFormat ℤ where
  ofClock t := t
  value t := .finite t
  text t := asciiBytes (ofInt t).text
  text_injective := by
    intro t t' h
    have hascii : ∀ t : ℤ, ∀ c ∈ (ofInt t).text, c.toNat < 256 :=
      fun t c hc => toNat_lt_of_isNumberChar ((ofInt t).isNumberChar_of_mem hc)
    have htext := asciiBytes_injOn (hascii t) (hascii t') h
    have hvalue : ∀ t : ℤ, (ofInt t).toInt? = some t := toInt?_ofInt
    simp only [toInt?] at hvalue
    have ht := hvalue t
    rw [htext] at ht
    exact Option.some.inj (ht.symm.trans (hvalue t'))

def transparentHmac : Hmac where
  tag _ data := data
  data_eq_of_tag_eq h := h

def exampleOptions : MessageAuthOptions where
  enableReplayProtection := true
  nonceSize := 16
  nonceSize_pos := by decide
  timestampWindow := 300
  maxNonceAge := 3600

def exampleAuth : MessageAuth ℤ where
  options := exampleOptions
  keys := OrderedMap.empty.set 1 [7]
  currentKeyVersion := 1
  usedNonces := .empty

def exampleNonce : Bytes := List.replicate 16 200

def genuineMessage : AuthenticatedMessage ℤ where
  data := asciiBytes "1700000000000".toList
  signature := asciiBytes "17000000000001700000000001".toList ++ exampleNonce
  timestamp := 1700000000001
  nonce := exampleNonce
  keyVersion := 1

/-- A message with the nonce of a genuine one and a wrong tag is refused, and then the genuine one
is refused as well. -/
theorem forged_nonce_blocks :
    let forged := { genuineMessage with signature := [] }
    let verified := exampleAuth.verifyMessage transparentHmac integerFormat 1700000000001 forged
    verified.1 = false ∧
      verified.2.verifyAll transparentHmac integerFormat [(1700000000001, genuineMessage)] =
        [false] ∧
      exampleAuth.verifyAll transparentHmac integerFormat [(1700000000001, genuineMessage)] =
        [true] := by decide +kernel

namespace Verifier

instance decidableRegular (digits : ℕ) (s : Verifier ℤ) (e : VerifierEvent ℤ) :
    Decidable (e.Regular integerFormat digits s) :=
  match e with
  | .present _ => inferInstanceAs (Decidable (_ = _ ∧ _ = digits))
  | .cleanup => inferInstanceAs (Decidable True)
  | .clock now => inferInstanceAs (Decidable (s.now ≤ now))

end Verifier

end DistributedCore.Transport
