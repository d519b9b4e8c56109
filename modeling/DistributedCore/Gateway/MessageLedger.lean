import DistributedCore.Gateway.DurableQueue
import DistributedCore.Library.Ledger
import Mathlib.Algebra.Group.Pi.Lemmas

/-!
# The ledger of messages

The life of a message is a walk between places: its `enqueue` waits for the log, the message waits
in its queue, it is processed, its `ack` waits for the log, and at last it is acknowledged, purged
or a dead letter (`Moves`). A message that waits has been dispatched as often as it was attempted,
a message that is processed once more (`InBounds`).

Source: `src/gateway/queue/DurableQueueManager.ts`.
-/

namespace DistributedCore.Gateway

open List

/-! ### The life of a message -/

/-- The places at which a message can be. -/
inductive Place
  | enqueuing
  | pending
  | processing
  | acking
  | dead
  | acked
  | purged

def Place.weight : Place → ℤ × ℤ × ℤ
  | .pending => (1, 0, 0)
  | .processing | .acking => (0, 1, 0)
  | .dead => (0, 0, 1)
  | .enqueuing | .acked | .purged => 0

abbrev Token := Place × QueueMessage

/-- What a message at its place adds to the counters of its queue. -/
def tally (token : Token) : String → ℤ × ℤ × ℤ := Pi.single token.2.queue token.1.weight

def QueueMessage.origin (message : QueueMessage) : QueueMessage :=
  { message with attempts := 0, status := .pending, visibleAfter := 0 }

/-- The ways of a message from place to place. -/
inductive Moves : Token → Token → Prop
  | enqueued (message : QueueMessage) : Moves (.enqueuing, message) (.pending, message)
  | taken (message : QueueMessage) : Moves (.processing, message) (.acking, message)
  | acked (message : QueueMessage) :
      Moves (.acking, message) (.acked, { message with status := .completed })
  | requeued (message : QueueMessage) (visibleAfter : ℤ)
      (again : ((message.attempts + 1 : ℕ) : ℤ) < message.maxAttempts) :
      Moves (.processing, message)
        (.pending,
          { message with
            attempts := message.attempts + 1
            status := .pending
            visibleAfter := visibleAfter })
  | deadLettered (message : QueueMessage)
      (last : message.maxAttempts ≤ ((message.attempts + 1 : ℕ) : ℤ)) :
      Moves (.processing, message)
        (.dead, { message with attempts := message.attempts + 1, status := .deadLetter })
  | purged (message : QueueMessage) : Moves (.pending, message) (.purged, message)

/-- The message is new or has attempts left. -/
def MayGoOn (message : QueueMessage) : Prop :=
  message.attempts = 0 ∨ (message.attempts : ℤ) < message.maxAttempts

/-- The number of deliveries of a message fits its place and its attempts. -/
def InBounds (n : ℕ) : Token → Prop
  | (.enqueuing, message) => n = 0 ∧ message.attempts = 0
  | (.pending, message) => n = message.attempts ∧ MayGoOn message
  | (.processing, message) | (.acking, message) => n = message.attempts + 1 ∧ MayGoOn message
  | (.dead, message) =>
    n = message.attempts ∧ message.maxAttempts ≤ n ∧ (n : ℤ) ≤ max 1 message.maxAttempts
  | (.acked, message) | (.purged, message) => (n : ℤ) ≤ max 1 message.maxAttempts

section Moves

variable {n : ℕ} {old new : Token} {message : QueueMessage}

theorem MayGoOn.le_max (h : MayGoOn message) :
    ((message.attempts + 1 : ℕ) : ℤ) ≤ max 1 message.maxAttempts := by
  rcases h with h | h
  · exact le_max_of_le_left (by omega)
  · exact le_max_of_le_right (by omega)

theorem InBounds.le_max : {token : Token} → InBounds n token → (n : ℤ) ≤ max 1 token.2.maxAttempts
  | (.enqueuing, _), h => le_max_of_le_left (by have := h.1; omega)
  | (.pending, _), h => by have := h.2.le_max; have := h.1; dsimp only at *; omega
  | (.processing, _), h | (.acking, _), h => h.1 ▸ h.2.le_max
  | (.dead, _), h => h.2.2
  | (.acked, _), h | (.purged, _), h => h

theorem Moves.origin_eq (h : Moves old new) : new.2.origin = old.2.origin := by cases h <;> rfl

theorem Moves.inBounds (h : Moves old new) (hold : InBounds n old) : InBounds n new := by
  cases h with
  | enqueued => exact ⟨hold.1.trans hold.2.symm, .inl hold.2⟩
  | taken => exact hold
  | acked => exact hold.le_max
  | requeued _ _ again => exact ⟨hold.1, .inr again⟩
  | deadLettered _ last => exact ⟨hold.1, hold.1 ▸ last, hold.le_max⟩
  | purged => exact hold.le_max

theorem InBounds.dispatched (h : InBounds n (.pending, message)) :
    InBounds (n + 1) (.processing, { message with status := .processing }) :=
  ⟨congrArg (· + 1) h.1, h.2⟩

end Moves

/-! ### The accounts -/

/-- The messages at their places are those that were enqueued, their dispatches are within bounds,
and the counters are right. The ids of the dispatched messages are `dispatched`, one for each
dispatch. -/
structure Accounts (enqueued : List QueueMessage) (dispatched : List String)
    (counters : String → ℤ × ℤ × ℤ) (tokens : Multiset Token) : Prop where
  audited : Audited (fun token : Token => token.2.origin) tally enqueued counters tokens
  nodup : (enqueued.map QueueMessage.id).Nodup
  inBounds : ∀ token ∈ tokens, InBounds (dispatched.count token.2.id) token
  known : ∀ messageId ∈ dispatched, messageId ∈ enqueued.map QueueMessage.id

namespace Accounts

variable {enqueued : List QueueMessage} {dispatched : List String} {counters : String → ℤ × ℤ × ℤ}
  {tokens rest : Multiset Token} {old new token : Token} {message : QueueMessage}

theorem id_ne (h : Accounts enqueued dispatched counters (old ::ₘ rest)) (htoken : token ∈ rest) :
    token.2.id ≠ old.2.id :=
  h.audited.ident_ne QueueMessage.id (by simpa using h.nodup) htoken

section

variable (h : Accounts enqueued dispatched counters tokens)

include h

theorem origin_mem (htoken : token ∈ tokens) : token.2.origin ∈ enqueued := by
  rw [← Multiset.mem_coe, ← h.audited.keys]
  exact Multiset.mem_map_of_mem _ htoken

theorem exists_origin_eq
    (hmessage : message ∈ enqueued) : ∃ token ∈ tokens, token.2.origin = message := by
  rw [← Multiset.mem_coe, ← h.audited.keys] at hmessage
  exact Multiset.mem_map.mp hmessage

end

theorem move (h : Accounts enqueued dispatched counters (old ::ₘ rest)) (hmove : Moves old new) :
    Accounts enqueued dispatched (counters - tally old + tally new) (new ::ₘ rest) where
  audited := h.audited.replace hmove.origin_eq
  nodup := h.nodup
  inBounds token htoken := by
    rcases Multiset.mem_cons.mp htoken with rfl | htoken
    · have hid : token.2.origin.id = old.2.origin.id := congrArg QueueMessage.id hmove.origin_eq
      rw [show token.2.id = old.2.id from hid]
      exact hmove.inBounds (h.inBounds old (Multiset.mem_cons_self _ _))
    · exact h.inBounds token (Multiset.mem_cons_of_mem htoken)
  known := h.known

theorem dispatch (h : Accounts enqueued dispatched counters ((.pending, message) ::ₘ rest)) :
    Accounts enqueued (dispatched ++ [message.id]) (counters - tally (.pending, message) +
        tally (.processing, { message with status := .processing }))
      ((.processing, { message with status := .processing }) ::ₘ rest) where
  audited := h.audited.replace rfl
  nodup := h.nodup
  inBounds token htoken := by
    rw [count_append]
    rcases Multiset.mem_cons.mp htoken with rfl | htoken
    · have hold := h.inBounds _ (Multiset.mem_cons_self _ _)
      simpa using hold.dispatched
    · have hne : message.id ≠ token.2.id := (h.id_ne htoken).symm
      simpa [hne] using h.inBounds token (Multiset.mem_cons_of_mem htoken)
  known messageId hmem := by
    rcases mem_append.mp hmem with hmem | hmem
    · exact h.known messageId hmem
    · obtain rfl := mem_singleton.mp hmem
      exact mem_map.mpr ⟨message.origin, h.origin_mem (Multiset.mem_cons_self _ _), rfl⟩

theorem issue (h : Accounts enqueued dispatched counters tokens)
    (hnew : message.id ∉ enqueued.map QueueMessage.id) (horigin : message.origin = message) :
    Accounts (enqueued ++ [message]) dispatched counters ((.enqueuing, message) ::ₘ tokens) where
  audited := by
    have haudited := h.audited.issue (.enqueuing, message)
    rw [horigin] at haudited
    have htally : tally (.enqueuing, message) = 0 := Pi.single_zero _
    rwa [htally, add_zero, Multiset.cons_coe,
      Multiset.coe_eq_coe.mpr (perm_append_singleton message enqueued).symm] at haudited
  nodup := by
    rw [map_append, nodup_append]
    refine ⟨h.nodup, nodup_singleton _, ?_⟩
    rintro id hid _ hmem rfl
    exact hnew (mem_singleton.mp hmem ▸ hid)
  inBounds token htoken := by
    rcases Multiset.mem_cons.mp htoken with rfl | htoken
    · have hcount : dispatched.count message.id = 0 :=
        count_eq_zero.mpr fun hmem => hnew (h.known _ hmem)
      exact ⟨hcount, congrArg QueueMessage.attempts horigin.symm⟩
    · exact h.inBounds token htoken
  known messageId hmem := by
    rw [map_append]
    exact mem_append_left _ (h.known messageId hmem)

end Accounts

def tokensAt (place : Place) (messages : List QueueMessage) : Multiset Token :=
  (messages.map (Prod.mk place) : List Token)

variable {place : Place} {message : QueueMessage} {messages others enqueued : List QueueMessage}
  {dispatched : List String} {queue : String}

@[simp] theorem tokensAt_nil : tokensAt place [] = 0 := rfl

@[simp] theorem tokensAt_cons :
    tokensAt place (message :: messages) = (place, message) ::ₘ tokensAt place messages := rfl

@[simp] theorem tokensAt_append :
    tokensAt place (messages ++ others) = tokensAt place messages + tokensAt place others := by
  simp [tokensAt]

theorem tokensAt_perm (place : Place) (h : messages.Perm others) :
    tokensAt place messages = tokensAt place others :=
  Multiset.coe_eq_coe.mpr (h.map _)

theorem tokensAt_push (place : Place) (m : OrderedMap String (List QueueMessage)) (key : String)
    (message : QueueMessage) :
    tokensAt place (m.set key ((m.get key).getD [] ++ [message])).values.flatten =
      (place, message) ::ₘ tokensAt place m.values.flatten := by
  rw [tokensAt_perm place (m.flatten_values_perm key),
    tokensAt_perm place (m.flatten_values_set_perm key _)]
  simp only [tokensAt_append, tokensAt_cons, tokensAt_nil, ← Multiset.singleton_add]
  abel

theorem mem_tokensAt (h : message ∈ messages) : (place, message) ∈ tokensAt place messages :=
  Multiset.mem_coe.mpr (mem_map_of_mem h)

theorem sum_tally_tokensAt (queue : String) : ((tokensAt place messages).map tally).sum queue =
      messages.countP (fun message => message.queue = queue) • place.weight := by
  induction messages with
  | nil => simp
  | cons message _ ih =>
    rw [tokensAt_cons, Multiset.map_cons, Multiset.sum_cons, Pi.add_apply, ih, countP_cons]
    by_cases hqueue : message.queue = queue
    · subst hqueue
      rw [tally, Pi.single_eq_same, if_pos (decide_eq_true rfl), succ_nsmul']
    · rw [tally, Pi.single_eq_of_ne (Ne.symm hqueue), if_neg (by simpa using hqueue), zero_add,
        add_zero]

theorem tally_fst_nonneg (token : Token) (queue : String) : 0 ≤ (tally token queue).1 := by
  obtain ⟨place, message⟩ := token
  by_cases hqueue : queue = message.queue
  · subst hqueue
    rw [tally, Pi.single_eq_same]
    cases place <;> simp [Place.weight]
  · rw [tally, Pi.single_eq_of_ne hqueue]
    exact le_rfl

theorem sum_tally_fst_nonneg (tokens : Multiset Token) (queue : String) :
    0 ≤ ((tokens.map tally).sum queue).1 := by
  induction tokens using Multiset.induction_on with
  | empty => exact le_rfl
  | cons token _ ih =>
    rw [Multiset.map_cons, Multiset.sum_cons]
    exact add_nonneg (tally_fst_nonneg token queue) ih

theorem Accounts.length_le {counters : String → ℤ × ℤ × ℤ} {rest : Multiset Token}
    (h : Accounts enqueued dispatched counters (tokensAt .pending messages + rest))
    (hqueue : ∀ message ∈ messages, message.queue = queue) :
    (messages.length : ℤ) ≤ (counters queue).1 := by
  have hsum := congrFun h.audited.sum queue
  rw [Multiset.map_add, Multiset.sum_add, Pi.add_apply, sum_tally_tokensAt,
    countP_eq_length.mpr (by simpa using hqueue)] at hsum
  have hrest := sum_tally_fst_nonneg rest queue
  rw [← hsum]
  simpa [Place.weight] using hrest

theorem Accounts.purge (hqueue : ∀ message ∈ messages, message.queue = queue) :
    {counters : String → ℤ × ℤ × ℤ} → {rest : Multiset Token} →
      Accounts enqueued dispatched counters (tokensAt .pending messages + rest) →
      Accounts enqueued dispatched (counters - Pi.single queue ((messages.length : ℤ), 0, 0))
        (tokensAt .purged messages + rest) := by
  induction messages with
  | nil =>
    intro counters rest h
    have hzero : (Pi.single queue (((0 : ℕ) : ℤ), 0, 0) : String → ℤ × ℤ × ℤ) = 0 :=
      Pi.single_zero _
    rw [length_nil, hzero, sub_zero]
    exact h
  | cons message _ ih =>
    intro counters rest h
    rw [tokensAt_cons, Multiset.cons_add] at h
    have hmoved := h.move (.purged message)
    rw [← Multiset.add_cons] at hmoved
    have hrest := ih (fun m hm => hqueue m (mem_cons_of_mem _ hm)) hmoved
    have hfirst : message.queue = queue := hqueue message mem_cons_self
    rw [tokensAt_cons, Multiset.cons_add, ← Multiset.add_cons]
    convert hrest using 1
    have hpurged : tally (.purged, message) = 0 := Pi.single_zero _
    have hpending : tally (.pending, message) = Pi.single queue (1, 0, 0) := by
      rw [tally, hfirst]
      rfl
    rw [hpurged, hpending, add_zero, sub_sub, ← Pi.single_add, length_cons]
    simp [add_comm]

end DistributedCore.Gateway
