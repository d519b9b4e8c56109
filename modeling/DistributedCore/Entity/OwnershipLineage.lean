import DistributedCore.Entity.Record
import DistributedCore.Library.Relay

/-!
# The lineage of one entity

An abstract view of one entity in a cluster of in-memory registries: every node knows an owner
and a version, or nothing, and every node tells every other one, in order, what it has learnt.
The rules of the nodes are those of the registries. Two calls are restricted: the entity is
only created while nothing about it is on the way, and only removed while no `CREATE` of it is
on the way.
-/

namespace DistributedCore.Entity

open Function List Nat

variable {N : Type} {entry : Operation × N} {k : ℕ}

/-- What an update says about the owner of an entity. -/
structure Notice (N : Type) where
  operation : Operation
  ownerNodeId : Option N
  version : ℤ
  deriving DecidableEq

abbrev Cell (N : Type) := Option (Option N × ℤ)

/-- The rule of the registry for the owner and the version. -/
def Notice.receive (n : Notice N) (c : Cell N) : Cell N × List (Notice N) :=
  match n.operation, c with
  | .create, none =>
    (some (n.ownerNodeId, n.version), [⟨.create, n.ownerNodeId, n.version⟩])
  | .create, some c => (some c, [])
  | .update, some c =>
    if n.version > c.2 then (some (c.1, n.version), [⟨.update, c.1, n.version⟩])
    else (some c, [])
  | .transfer, some c =>
    if n.version > c.2 then
      (some (n.ownerNodeId, n.version), [⟨.transfer, n.ownerNodeId, n.version⟩])
    else (some c, [])
  | .delete, some c => (none, [⟨.delete, c.1, c.2⟩])
  | _, none => (none, [])

abbrev Ownership (N : Type) := Relay N (Cell N) (Notice N)

/-- The rules: the calls of the owner, the creation of the entity while nothing is on the way,
its removal while no `CREATE` is on the way, and the arrival of a message. -/
inductive OwnershipStep [DecidableEq N] (members : Finset N) (o : Ownership N) :
    Ownership N → Prop
  | propose {x : N} (member : x ∈ members) (lacks : o.state x = none)
      (quiet : ∀ p d, o.link p d = []) :
      OwnershipStep members o (o.announce members x (some (some x, 1)) [⟨.create, some x, 1⟩])
  | update {x : N} {v : ℤ} (member : x ∈ members) (owned : o.state x = some (some x, v)) :
      OwnershipStep members o
        (o.announce members x (some (some x, v + 1)) [⟨.update, some x, v + 1⟩])
  | transfer {x target : N} {v : ℤ} (member : x ∈ members) (owned : o.state x = some (some x, v)) :
      OwnershipStep members o
        (o.announce members x (some (some target, v + 1)) [⟨.transfer, some target, v + 1⟩])
  | release {x : N} {v : ℤ} (member : x ∈ members) (owned : o.state x = some (some x, v))
      (created : ∀ p d, ∀ n ∈ o.link p d, n.operation ≠ .create) :
      OwnershipStep members o (o.announce members x none [⟨.delete, some x, v⟩])
  | receive {p d : N} {n : Notice N} {rest : List (Notice N)} (head : o.link p d = n :: rest) :
      OwnershipStep members o
        ((o.take p d).announce members d (n.receive (o.state d)).1 (n.receive (o.state d)).2)

/-! ### Writes in order -/

/-- The write that may come after another one: its operation and the owner that it names. The owner
updates, hands over or removes the entity, and what has been removed is created. -/
inductive Follows : Operation × N → Operation × N → Prop
  | created {x y : N} : Follows (.delete, x) (.create, y)
  | updated {op : Operation} {x : N} (here : op ≠ .delete) : Follows (op, x) (.update, x)
  | transferred {op : Operation} {x y : N} (here : op ≠ .delete) : Follows (op, x) (.transfer, y)
  | removed {op : Operation} {x : N} (here : op ≠ .delete) : Follows (op, x) (.delete, x)

section Writes

variable (hist : ℕ → Operation × N)

/-- The message about a write. A removal has the version of the write before it. -/
def notice (v : ℕ) : Notice N :=
  ⟨(hist v).1, some (hist v).2, if (hist v).1 = .delete then v - 1 else v⟩

def cellAt (v : ℕ) : Cell N := if (hist v).1 = .delete then none else some (some (hist v).2, v)

def writesFrom (k v : ℕ) : List (Notice N) := (List.range' (k + 1) (v - k)).map (notice hist)

variable {hist} {k v : ℕ}

variable (hist k) in
theorem writesFrom_self : writesFrom hist k k = [] := by simp [writesFrom]

theorem writesFrom_succ (h : k ≤ v) :
    writesFrom hist k (v + 1) = writesFrom hist k v ++ [notice hist (v + 1)] := by
  have hlen : v + 1 - k = (v - k) + 1 := by omega
  have hlast : k + 1 + (v - k) = v + 1 := by omega
  rw [writesFrom, hlen, range'_concat, map_append, Nat.one_mul, hlast]
  rfl

theorem writesFrom_eq_cons (h : k < v) :
    writesFrom hist k v = notice hist (k + 1) :: writesFrom hist (k + 1) v := by
  have hlen : v - k = (v - (k + 1)) + 1 := by omega
  rw [writesFrom, hlen, range'_succ, map_cons, writesFrom]

theorem writesFrom_congr {hist' : ℕ → Operation × N} (h : ∀ w ≤ v, hist' w = hist w) :
    writesFrom hist' k v = writesFrom hist k v := by
  refine map_congr_left fun w hw => ?_
  have hw' : w ≤ v := by
    obtain ⟨hlo, hhi⟩ := mem_range'_1.mp hw
    omega
  rw [notice, notice, h w hw']

/-- The writes up to `top`: there is no entity before the first one, and only the last one may
remove it. -/
structure Line (hist : ℕ → Operation × N) (top : ℕ) : Prop where
  zero : (hist 0).1 = .delete
  here : ∀ {v}, 1 ≤ v → v < top → (hist v).1 ≠ .delete
  follows : ∀ {v}, v < top → Follows (hist v) (hist (v + 1))

namespace Line

variable {top : ℕ} (h : Line hist top)

include h

theorem first (htop : 0 < top) : (hist 1).1 = .create := by
  have hfollows := h.follows htop
  have hzero := h.zero
  rw [Nat.zero_add] at hfollows
  generalize hist 0 = last, hist 1 = next at hfollows hzero
  cases hfollows with
  | created => rfl
  | updated here | transferred here | removed here => exact absurd hzero here

/-- A node that has seen the writes before it takes a write over, and passes it on. -/
theorem receive_next (hv : v < top) : (notice hist (v + 1)).receive (cellAt hist v) =
    (cellAt hist (v + 1), [notice hist (v + 1)]) := by
  have hfollows := h.follows hv
  have hver : (v : ℤ) < v + 1 := by omega
  generalize hlast : hist v = last, hnext : hist (v + 1) = next at hfollows
  cases hfollows <;> simp [notice, cellAt, Notice.receive, *]

/-- A node that has seen a write ignores it, unless it creates an entity that has been removed. -/
theorem receive_seen (hk : k < v) (hv : v ≤ top) (hcreated : (hist v).1 = .delete → 1 ≤ k) :
    (notice hist (k + 1)).receive (cellAt hist v) = (cellAt hist v, []) := by
  have hktop : k < top := hk.trans_le hv
  have hfollows := h.follows hktop
  have hkept : (hist (k + 1)).1 = .delete → (hist v).1 = .delete := by
    intro hop
    rcases lt_or_ge (k + 1) v with hlt | hge
    · exact absurd hop (h.here (succ_pos k) (hlt.trans_le hv))
    · rwa [show v = k + 1 by omega]
  have hfirst : (hist k).1 = .delete → (hist v).1 ≠ .delete := fun hop hdelete =>
    h.here (hcreated hdelete) hktop hop
  have hver : ¬ (v : ℤ) < (k : ℤ) + 1 := by omega
  generalize hlast : hist k = last, hnext : hist (k + 1) = next at hfollows hkept hfirst
  by_cases hop : (hist v).1 = .delete <;> cases hfollows <;>
    simp_all [notice, cellAt, Notice.receive]

end Line

end Writes

/-! ### The invariant -/

/-- Node `x` has seen the writes up to `ver x`, and a link brings, without a gap, writes that its
sender has seen, from one on that its receiver knows or lacks as the next one. No link brings the
creation of an entity that has been removed. -/
structure Relayed (members : Finset N) (hist : ℕ → Operation × N) (top : ℕ) (ver : N → ℕ)
    (o : Ownership N) : Prop where
  cell : ∀ {x}, x ∈ members → o.state x = cellAt hist (ver x)
  le_top : ∀ x, ver x ≤ top
  among : o.Among members
  stream : ∀ {p d}, p ∈ members → d ∈ members → d ≠ p → ∃ k ≤ ver d, k ≤ ver p ∧
    (0 < top → (hist top).1 = .delete → 1 ≤ k) ∧ o.link p d = writesFrom hist k (ver p)

namespace Relayed

variable [DecidableEq N] {members : Finset N} {hist : ℕ → Operation × N} {top : ℕ} {ver : N → ℕ}
  {o : Ownership N} (h : Relayed members hist top ver o) {x p d : N}

include h

/-- **A node learns the next write** and passes it on. -/
theorem advance (hx : x ∈ members) (hver : ver x < top) :
    Relayed members hist top (update ver x (ver x + 1))
      (o.announce members x (cellAt hist (ver x + 1)) [notice hist (ver x + 1)]) where
  cell {y} hy := by
    by_cases hyx : y = x
    · subst hyx
      simp [Relay.announce]
    · simp only [Relay.announce, update_of_ne hyx]
      exact h.cell hy
  le_top y := by
    rw [update_apply]
    split_ifs
    · exact hver
    · exact h.le_top y
  among := h.among.announce hx
  stream {p d} hp hd hne := by
    obtain ⟨k, hkd, hkp, hcreated, hwire⟩ := h.stream hp hd hne
    have hkd' : k ≤ update ver x (ver x + 1) d := by
      rw [update_apply]
      split_ifs with hdx
      · exact (hdx ▸ hkd).trans (le_succ _)
      · exact hkd
    refine ⟨k, hkd', ?_⟩
    by_cases hpx : p = x
    · subst hpx
      rw [update_self, Relay.link_announce_self hd hne, hwire, writesFrom_succ hkp]
      exact ⟨le_succ_of_le hkp, hcreated, rfl⟩
    · rw [update_of_ne hpx, Relay.link_announce_of_ne hpx]
      exact ⟨hkp, hcreated, hwire⟩

omit [DecidableEq N] in
/-- **A write is added to the line**, before any node has seen it. -/
theorem extend (hcreated : entry.1 = .delete → ∀ {p d k}, p ∈ members →
      o.link p d = writesFrom hist k (ver p) → 1 ≤ k) :
    Relayed members (update hist (top + 1) entry) (top + 1) ver o := by
  have hhist : ∀ y, ∀ w ≤ ver y, update hist (top + 1) entry w = hist w := fun y w hw =>
    update_of_ne (lt_succ_of_le (hw.trans (h.le_top y))).ne _ _
  refine ⟨fun {y} hy => ?_, fun y => le_succ_of_le (h.le_top y), h.among, fun {p d} hp hd hne => ?_⟩
  · rw [h.cell hy, cellAt, cellAt, hhist y _ le_rfl]
  · obtain ⟨k, hkd, hkp, -, hwire⟩ := h.stream hp hd hne
    refine ⟨k, hkd, hkp, fun _ hop => ?_, by rw [hwire, writesFrom_congr (hhist p)]⟩
    rw [update_self] at hop
    exact hcreated hop hp hwire

theorem take (hkd : k ≤ ver d) (hkp : k ≤ ver p)
    (hcreated : 0 < top → (hist top).1 = .delete → 1 ≤ k)
    (hwire : (o.link p d).tail = writesFrom hist k (ver p)) :
    Relayed members hist top ver (o.take p d) where
  cell := h.cell
  le_top := h.le_top
  among := h.among.take
  stream {p' d'} hp hd hne := by
    simp only [Relay.take]
    split_ifs with heq
    · obtain ⟨rfl, rfl⟩ := heq
      exact ⟨k, hkd, hkp, hcreated, hwire⟩
    · exact h.stream hp hd hne

end Relayed

/-- The writes of the entity form a line, and the owner that a write names has seen the next one,
for it is the one that made it. -/
structure Lineage (members : Finset N) (hist : ℕ → Operation × N) (top : ℕ) (ver : N → ℕ)
    (o : Ownership N) : Prop extends Line hist top, Relayed members hist top ver o where
  superseded : ∀ {v}, 1 ≤ v → v < top → v < ver (hist v).2

namespace Lineage

variable {members : Finset N} {hist : ℕ → Operation × N} {top : ℕ} {ver : N → ℕ}
  {o : Ownership N}

theorem of_unknown (hcell : ∀ x ∈ members, o.state x = none) (hwire : ∀ p d, o.link p d = [])
    (x : N) : Lineage members (fun _ => (.delete, x)) 0 (fun _ => 0) o where
  zero := rfl
  here _ h := absurd h (not_lt_zero _)
  follows h := absurd h (not_lt_zero _)
  cell hx := hcell _ hx
  le_top _ := le_rfl
  among p d _ := hwire p d
  stream _ _ _ := ⟨0, le_rfl, le_rfl, fun h => absurd h (lt_irrefl _), hwire _ _⟩
  superseded _ h := absurd h (not_lt_zero _)

section

variable (h : Lineage members hist top ver o) {v : ℤ}

include h

/-- **All members agree when nothing is on the way.** -/
theorem agree (hquiet : ∀ p d, o.link p d = []) {x y : N}
    (hx : x ∈ members) (hy : y ∈ members) : o.state x = o.state y := by
  have hle : ∀ {p d}, p ∈ members → d ∈ members → ver p ≤ ver d := by
    intro p d hp hd
    by_cases hne : d = p
    · rw [hne]
    · obtain ⟨k, hkd, -, -, hwire⟩ := h.stream hp hd hne
      by_contra hlt
      rw [hquiet, writesFrom_eq_cons (by omega)] at hwire
      cases hwire
  rw [h.cell hx, h.cell hy, (hle hx hy).antisymm (hle hy hx)]

theorem of_owned {x : N} (hx : x ∈ members) (howned : o.state x = some (some x, v)) :
    ver x = top ∧ v = top ∧ (hist top).2 = x ∧ (hist top).1 ≠ .delete := by
  rw [h.cell hx, cellAt] at howned
  split_ifs at howned with hop
  obtain ⟨howner, rfl⟩ := Prod.mk.inj (Option.some.inj howned)
  have howner : (hist (ver x)).2 = x := Option.some.inj howner
  have htop : ver x = top := by
    by_contra hne
    have hpos : 1 ≤ ver x := Nat.pos_of_ne_zero fun hzero => hop (hzero ▸ h.zero)
    have hlt := h.superseded hpos (lt_of_le_of_ne (h.le_top x) hne)
    rw [howner] at hlt
    exact lt_irrefl _ hlt
  exact ⟨htop, by rw [htop], htop ▸ howner, htop ▸ hop⟩

variable [DecidableEq N] {x p d : N}

/-- **A write**, by the owner that the last one names. -/
theorem write (hx : x ∈ members) (hver : ver x = top)
    (howner : 1 ≤ top → (hist top).2 = x ∧ (hist top).1 ≠ .delete)
    (hfollows : Follows (hist top) entry) (hcreated : entry.1 = .delete → ∀ {p d k}, p ∈ members →
      o.link p d = writesFrom hist k (ver p) → 1 ≤ k) :
    Lineage members (update hist (top + 1) entry) (top + 1)
      (update ver x (top + 1)) (o.announce members x
        (cellAt (update hist (top + 1) entry) (top + 1))
        [notice (update hist (top + 1) entry) (top + 1)]) := by
  have hhist : ∀ {w}, w ≤ top → update hist (top + 1) entry w = hist w := fun hw =>
    update_of_ne (lt_succ_of_le hw).ne _ _
  have hrelayed := (h.toRelayed.extend hcreated).advance hx (hver.trans_lt (lt_succ_self top))
  rw [hver] at hrelayed
  refine { hrelayed with zero := ?_, here := ?_, follows := ?_, superseded := ?_ }
  · rw [hhist (zero_le _)]
    exact h.zero
  · intro w hw hlt
    rw [hhist (le_of_lt_succ hlt)]
    rcases lt_or_ge w top with hlt | hge
    · exact h.here hw hlt
    · obtain rfl : w = top := by omega
      exact (howner hw).2
  · intro w hlt
    rw [hhist (le_of_lt_succ hlt)]
    rcases lt_or_ge w top with hlt | hge
    · rw [hhist hlt]
      exact h.follows hlt
    · obtain rfl : w = top := by omega
      rwa [update_self]
  · intro w hw hlt
    rw [hhist (le_of_lt_succ hlt), update_apply]
    split_ifs with hwx
    · exact hlt
    · refine h.superseded hw (lt_of_le_of_ne (le_of_lt_succ hlt) fun hwt => hwx ?_)
      rw [hwt]
      exact (howner (hwt ▸ hw)).1

/-- **A message arrives**: it is ignored, or is the next write. -/
theorem receive {n : Notice N} {rest : List (Notice N)} (head : o.link p d = n :: rest) :
    ∃ ver', Lineage members hist top ver' ((o.take p d).announce members d
      (n.receive (o.state d)).1 (n.receive (o.state d)).2) := by
  obtain ⟨hp, hd, hne⟩ := h.among.mem_of_link head
  obtain ⟨k, hkd, hkp, hcreated, hwire⟩ := h.stream hp hd hne
  have hlt : k < ver p := by
    by_contra hge
    rw [head, show ver p = k by omega, writesFrom_self] at hwire
    cases hwire
  obtain ⟨rfl, rfl⟩ := List.cons.inj (head.symm.trans (hwire.trans (writesFrom_eq_cons hlt)))
  have hcreated' : 0 < top → (hist top).1 = .delete → 1 ≤ k + 1 := fun _ _ => succ_pos k
  rw [h.cell hd]
  rcases lt_or_ge k (ver d) with hseen | hnext
  · have hignored := h.receive_seen hseen (h.le_top d) fun hop => by
      rcases lt_or_ge (ver d) top with hlt | hge
      · exact absurd hop (h.here (by omega) hlt)
      · obtain htop : ver d = top := (h.le_top d).antisymm hge
        exact hcreated (by omega) (htop ▸ hop)
    rw [hignored, ← h.cell hd]
    have htake : Lineage members hist top ver (o.take p d) :=
      { h with toRelayed := h.toRelayed.take hseen hlt hcreated' (by rw [head, tail_cons]) }
    exact ⟨ver, (Relay.announce_nil members (o.take p d) d).symm ▸ htake⟩
  · obtain rfl : k = ver d := hkd.antisymm hnext
    have htop : ver d < top := hlt.trans_le (h.le_top p)
    rw [h.receive_next htop, Relay.take_announce hne]
    have hrelayed := h.toRelayed.advance hd htop
    refine ⟨_, { h with
      toRelayed := hrelayed.take ?_ ?_ hcreated' ?_
      superseded := fun hv hlt => (h.superseded hv hlt).trans_le ?_ }⟩
    · rw [update_self]
    · rw [update_of_ne hne.symm]
      exact hlt
    · rw [update_of_ne hne.symm, Relay.link_announce_of_ne hne.symm, head, tail_cons]
    · rw [update_apply]
      split_ifs with heq
      · rw [heq]
        exact le_succ _
      · exact le_rfl

/-- While no creation is on the way, every member has seen it. -/
theorem created_of_owned (hx : x ∈ members) (howned : o.state x = some (some x, v))
    (hcreated : ∀ p d, ∀ n ∈ o.link p d, n.operation ≠ .create) (hp : p ∈ members)
    (hwire : o.link p d = writesFrom hist k (ver p)) : 1 ≤ k := by
  obtain ⟨hver, -, -, hop⟩ := h.of_owned hx howned
  have htop : 0 < top := Nat.pos_of_ne_zero fun hzero => hop (hzero ▸ h.zero)
  have hpos : ∀ {p d k}, 0 < ver p → o.link p d = writesFrom hist k (ver p) → 1 ≤ k := by
    intro p d k hpos hwire
    by_contra hk
    obtain rfl : k = 0 := by omega
    refine hcreated p d (notice hist 1) ?_ (h.first htop)
    rw [hwire, writesFrom_eq_cons hpos]
    exact mem_cons_self
  refine hpos ?_ hwire
  by_cases hpx : p = x
  · exact (hpx ▸ hver).symm ▸ htop
  · -- the first write has reached everybody, since the owner has seen it
    obtain ⟨j, hjp, -, -, hwire⟩ := h.stream hx hp hpx
    exact (hpos (hver.symm ▸ htop) hwire).trans hjp

/-- **The rules keep the invariant.** -/
theorem step {o' : Ownership N} (hstep : OwnershipStep members o o') :
    ∃ hist' top' ver', Lineage members hist' top' ver' o' := by
  cases hstep with
  | @propose x member lacks quiet =>
    have hunknown : Lineage members (fun _ => (.delete, x)) 0 (fun _ => 0) o :=
      of_unknown (fun y hy => (h.agree quiet hy member).trans lacks) quiet x
    have hcreated : Follows (.delete, x) (.create, x) := .created
    have hwrite := hunknown.write member rfl (fun h => absurd h (by decide)) hcreated
      fun h => nomatch h
    exact ⟨_, _, _, by simpa [cellAt, notice] using hwrite⟩
  | update member owned =>
    obtain ⟨hver, rfl, rfl, hop⟩ := h.of_owned member owned
    have hwrite := h.write member hver (fun _ => ⟨rfl, hop⟩) (.updated hop) fun h => nomatch h
    exact ⟨_, _, _, by simpa [cellAt, notice] using hwrite⟩
  | @transfer x target v member owned =>
    obtain ⟨hver, rfl, rfl, hop⟩ := h.of_owned member owned
    have hwrite := h.write member hver (fun _ => ⟨rfl, hop⟩) (.transferred (y := target) hop)
      fun h => nomatch h
    exact ⟨_, _, _, by simpa [cellAt, notice] using hwrite⟩
  | release member owned created =>
    obtain ⟨hver, rfl, rfl, hop⟩ := h.of_owned member owned
    have hwrite := h.write member hver (fun _ => ⟨rfl, hop⟩) (.removed hop) fun _ =>
      h.created_of_owned member owned created
    exact ⟨_, _, _, by simpa [cellAt, notice] using hwrite⟩
  | receive head =>
    obtain ⟨ver', h'⟩ := h.receive head
    exact ⟨hist, top, ver', h'⟩

end

end Lineage

end DistributedCore.Entity
