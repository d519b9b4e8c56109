import Mathlib.Algebra.BigOperators.Group.Multiset.Basic
import Mathlib.Tactic.Abel

/-!
# Ledgers of tokens

A system that hands tokens from one place to another is described by the multiset of its tokens,
each together with its place. What never changes about a token is its key; a token counts towards
some totals, and its share of them is its weight. A ledger is right if the keys are those that were
issued and the totals are the sums of the weights.

## Main results

* `Audited.issue`, `Audited.replace`: a new token, and a token that moves.
* `Audited.ident_ne`: if the keys are told apart by what they identify, the other tokens identify
  something else than one of them does.
* `Audited.countP_eq_one`: each issued key is at one token.
-/

namespace DistributedCore

open Multiset

variable {T K I G : Type*} [AddCommGroup G]

/-- The tokens have the keys `issued`, and `total` is the sum of their weights. -/
structure Audited (key : T → K) (weight : T → G) (issued : Multiset K) (total : G)
    (tokens : Multiset T) : Prop where
  keys : tokens.map key = issued
  sum : (tokens.map weight).sum = total

namespace Audited

variable {key : T → K} {weight : T → G} {issued : Multiset K} {total : G} {tokens rest : Multiset T}
  {old new token : T}

theorem issue (h : Audited key weight issued total tokens) (token : T) :
    Audited key weight (key token ::ₘ issued) (total + weight token) (token ::ₘ tokens) where
  keys := by rw [map_cons, h.keys]
  sum := by rw [map_cons, sum_cons, h.sum, add_comm]

section

variable (h : Audited key weight issued total (old ::ₘ rest))

include h

theorem replace (hkey : key new = key old) :
    Audited key weight issued (total - weight old + weight new) (new ::ₘ rest) where
  keys := by rw [map_cons, hkey, ← map_cons, h.keys]
  sum := by
    rw [← h.sum, map_cons, map_cons, sum_cons, sum_cons]
    abel

theorem ident_ne (ident : K → I) (hnodup : (issued.map ident).Nodup) (htoken : token ∈ rest) :
    ident (key token) ≠ ident (key old) := by
  rw [← h.keys, map_cons, map_cons, nodup_cons, map_map] at hnodup
  exact fun heq => hnodup.1 (mem_map.mpr ⟨token, htoken, heq⟩)

end

theorem countP_eq_one [DecidableEq I] (h : Audited key weight issued total tokens) (ident : K → I)
    (hnodup : (issued.map ident).Nodup) {k : K} (hk : k ∈ issued) :
    tokens.countP (fun token => ident (key token) = ident k) = 1 := by
  have hcount := count_eq_one_of_mem hnodup (mem_map_of_mem ident hk)
  rw [← h.keys, map_map, count_map] at hcount
  rw [countP_eq_card_filter, ← hcount]
  exact congrArg card (filter_congr fun token _ => eq_comm)

end Audited

end DistributedCore
