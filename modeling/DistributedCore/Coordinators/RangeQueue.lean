import DistributedCore.Library.Runs

/-!
# The queue of a range coordinator

A message for a range that the node does not own is queued. A pass of the rebalancing takes the
queued messages of its ranges and removes each of them when its handler has returned, so two passes
at the same time can take the same message.

Source: `src/coordinators/RangeCoordinator.ts`.
-/

namespace DistributedCore.Coordinators

open List

/-- A message without a target has the empty text for it. -/
structure ClusterMessage where
  id : String
  targetRangeId : String
  deriving DecidableEq

/-- `calls` are the messages that `sendMessage` gave to the handler, `passes` lists those that every
pass has still to see handled, and `handled` those whose handler has succeeded. -/
structure RangeCoordinator where
  messageQueue : List ClusterMessage
  calls : List ClusterMessage
  passes : List (List ClusterMessage)
  handled : List ClusterMessage

/-- Leases come and go at any time, so `ownsRange` and `getOwnedRanges` can give any answer. -/
inductive RangeEvent
  | sendMessage (message : ClusterMessage) (ownsRange : Bool)
  | processMessageQueue (ownedRanges : List String)
  | onMessage (message : ClusterMessage) (succeeds : Bool)
  | onQueuedMessage (pass : ℕ) (succeeds : Bool)

namespace RangeCoordinator

def started : RangeCoordinator := ⟨[], [], [], []⟩

variable (c : RangeCoordinator)

def processable (ownedRanges : List String) : List ClusterMessage :=
  c.messageQueue.filter fun message =>
    message.targetRangeId ≠ "" ∧ message.targetRangeId ∈ ownedRanges

def step : RangeEvent → Option RangeCoordinator
  | .sendMessage message ownsRange =>
    if message.targetRangeId ≠ "" ∧ ownsRange = true then
      some { c with calls := message :: c.calls }
    else some { c with messageQueue := c.messageQueue ++ [message] }
  | .processMessageQueue ownedRanges =>
    some { c with passes := c.passes ++ [c.processable ownedRanges] }
  | .onMessage message succeeds =>
    if message ∈ c.calls then
      some { c with
        calls := c.calls.erase message
        handled := if succeeds then message :: c.handled else c.handled }
    else none
  | .onQueuedMessage pass succeeds =>
    match c.passes[pass]? with
    | some (message :: rest) =>
      some { c with
        messageQueue := if succeeds then c.messageQueue.erase message else c.messageQueue
        passes := c.passes.set pass rest
        handled := if succeeds then message :: c.handled else c.handled }
    | _ => none

/-- A new message is sent, or a pass takes none that another pass still has. -/
def Orderly : RangeEvent → Prop
  | .sendMessage message _ => message ∉ c.messageQueue ++ c.calls ++ c.handled
  | .processMessageQueue ownedRanges => ∀ message ∈ c.processable ownedRanges,
      message ∉ c.passes.flatten
  | _ => True

/-- A message is queued, at the handler of `sendMessage` or handled, and in at most one pass. -/
structure Once : Prop where
  nodup : (c.messageQueue ++ c.calls ++ c.handled).Nodup
  passes : c.passes.flatten.Nodup
  queued : c.passes.flatten ⊆ c.messageQueue

variable {c} {c' : RangeCoordinator}

theorem flatten_set_perm {B : Type} {a : B} {rest : List B} :
    {ls : List (List B)} → {k : ℕ} → ls[k]? = some (a :: rest) →
      ls.flatten.Perm (a :: (ls.set k rest).flatten)
  | _ :: _, 0, h => by simp_all
  | l :: _, k + 1, h => by
    simpa using ((flatten_set_perm (k := k) (by simpa using h)).append_left l).trans perm_middle

theorem Once.step {ev : RangeEvent} (h : c.Once) (hev : c.Orderly ev)
    (hstep : c.step ev = some c') : c'.Once := by
  cases ev with
  | sendMessage message ownsRange =>
    have hnodup := nodup_cons.mpr ⟨hev, h.nodup⟩
    rw [RangeCoordinator.step] at hstep
    split_ifs at hstep <;> cases hstep
    · exact ⟨(perm_middle.append_right _).nodup_iff.mpr hnodup, h.passes, h.queued⟩
    · refine ⟨?_, h.passes, fun _ hmem => mem_append_left _ (h.queued hmem)⟩
      simpa using perm_middle.nodup_iff.mpr (by simpa using hnodup)
  | processMessageQueue ownedRanges =>
    cases hstep
    have hqueue := (nodup_append.mp (nodup_append.mp h.nodup).1).1
    have hnew : (c.processable ownedRanges).Nodup := hqueue.filter _
    refine ⟨h.nodup, flatten_concat ▸ nodup_append.mpr ⟨h.passes, hnew, ?_⟩,
      flatten_concat ▸ append_subset.mpr ⟨h.queued, filter_sublist.subset⟩⟩
    exact fun message hold _ hmem heq => hev message (heq ▸ hmem) hold
  | onMessage message succeeds =>
    obtain ⟨hmem, ⟨⟩⟩ := Option.ite_none_right_eq_some.mp hstep
    refine ⟨?_, h.passes, h.queued⟩
    have hnodup := h.nodup
    grind
  | onQueuedMessage pass succeeds =>
    rw [RangeCoordinator.step] at hstep
    split at hstep <;> cases hstep
    rename_i message rest hpass
    have hperm := flatten_set_perm hpass
    obtain ⟨hnot, hrest⟩ := nodup_cons.mp (hperm.nodup_iff.mp h.passes)
    have hqueued : ∀ other ∈ message :: (c.passes.set pass rest).flatten, other ∈ c.messageQueue :=
      fun other hmem => h.queued (hperm.mem_iff.mpr hmem)
    refine ⟨?_, hrest, fun other hmem => ?_⟩
    · have hnodup := h.nodup
      grind
    · grind

/-- **A queued message is handled at most once**, if no two passes have it at the same time. -/
theorem handled_at_most_once (es : List RangeEvent) (hall : AllSteps step Orderly started es)
    (hrun : exec step started es = some c) : c.handled.Nodup :=
  (nodup_append.mp (exec_invariant (P := Once) (fun _ _ _ h hev hstep => h.step hev hstep)
    (s := started) ⟨nodup_nil, nodup_nil, nil_subset _⟩ hall hrun).nodup).2.1

/-- Two messages are sent before the node has their range. The handler fails for the first one and
succeeds for it in the next pass. -/
def twoPasses : List RangeEvent :=
  [.sendMessage ⟨"m1", "range-0"⟩ false, .sendMessage ⟨"m2", "range-0"⟩ false,
    .processMessageQueue ["range-0"], .onQueuedMessage 0 false, .onQueuedMessage 0 true,
    .processMessageQueue ["range-0"], .onQueuedMessage 1 true]

theorem at_most_once_twoPasses : ∃ c, exec step started twoPasses = some c ∧
    c.handled = [⟨"m1", "range-0"⟩, ⟨"m2", "range-0"⟩] ∧ c.handled.Nodup :=
  ⟨_, rfl, rfl, handled_at_most_once twoPasses
    (by simp [twoPasses, AllSteps, Orderly, started, step, processable]) rfl⟩

/-- Two passes give the same message to the handler. -/
theorem handled_twice : ∃ c, exec step started [.sendMessage ⟨"m", "range-0"⟩ false,
    .processMessageQueue ["range-0"], .processMessageQueue ["range-0"], .onQueuedMessage 0 true,
      .onQueuedMessage 1 true] = some c ∧ ¬c.handled.Nodup :=
  ⟨_, rfl, by decide⟩

end RangeCoordinator

end DistributedCore.Coordinators
