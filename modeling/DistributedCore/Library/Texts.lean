import Mathlib.Data.String.Basic

/-!
# Texts put together from parts

Ids and signed bytes are made by concatenating texts and decimal numerals. Such a text can be taken
apart again at a separator that does not occur in the part next to it.

## Main results

* `append_cons_inj_of_notMem`: the parts before and behind the first separator.
* `toDigits_inj`, `hyphen_notMem_toString`: decimal numerals.
* `fixedDigits_lt`: numerals that are padded to one width sort as their numbers.
-/

namespace DistributedCore

open List Nat

/-- What stands before the first occurrence of a separator, and what stands behind it. -/
theorem append_cons_inj_of_notMem {A : Type*} {a : A} :
    {x y l m : List A} → a ∉ x → a ∉ y → (x ++ a :: l = y ++ a :: m ↔ x = y ∧ l = m)
  | [], [], _, _, _, _ => by simp
  | [], c :: y, _, _, _, hy => by
    rw [mem_cons, not_or] at hy
    simp [hy.1]
  | b :: x, [], _, _, hx, _ => by
    rw [mem_cons, not_or] at hx
    simp [Ne.symm hx.1]
  | b :: x, c :: y, _, _, hx, hy => by
    rw [mem_cons, not_or] at hx hy
    simp [append_cons_inj_of_notMem hx.2 hy.2, and_assoc]

theorem toDigits_inj {n m : ℕ} : toDigits 10 n = toDigits 10 m ↔ n = m := by
  refine ⟨fun h => ?_, fun h => h ▸ rfl⟩
  rw [← ofDigitChars_ten_toDigits (n := n), h, ofDigitChars_ten_toDigits]

theorem toList_toString (n : ℕ) : (toString n).toList = toDigits 10 n := toList_repr

theorem hyphen_notMem_toString (n : ℕ) : '-' ∉ (toString n).toList := by
  rw [toList_toString]
  intro h
  exact absurd (isDigit_of_mem_toDigits (by decide) (by decide) h) (by decide)

/-! ### Numerals of a fixed width -/

/-- The last `w` decimal digits of `n`. -/
def fixedDigits : ℕ → ℕ → List Char
  | 0, _ => []
  | w + 1, n => fixedDigits w (n / 10) ++ [(n % 10).digitChar]

theorem length_fixedDigits : (w n : ℕ) → (fixedDigits w n).length = w
  | 0, _ => rfl
  | w + 1, n => by rw [fixedDigits, length_append, length_fixedDigits w, length_singleton]

/-- A numeral that is padded with zeros has the digits of its number. -/
theorem replicate_append_toDigits : (w : ℕ) → {n : ℕ} → n < 10 ^ (w + 1) →
    List.replicate (w + 1 - (Nat.toDigits 10 n).length) '0' ++ Nat.toDigits 10 n =
      fixedDigits (w + 1) n
  | w, n, hn => by
    rcases Nat.lt_or_ge n 10 with hlt | hge
    · have hzeros : List.replicate w '0' = fixedDigits w (n / 10) := by
        rw [Nat.div_eq_of_lt hlt]
        cases w with
        | zero => rfl
        | succ w =>
          rw [← replicate_append_toDigits w (Nat.pow_pos (by decide))]
          exact replicate_succ'
      rw [Nat.toDigits_of_lt_base hlt, fixedDigits, Nat.mod_eq_of_lt hlt, ← hzeros]
      rfl
    · cases w with
      | zero => omega
      | succ w =>
        rw [Nat.toDigits_of_base_le (by decide) hge, length_append, length_singleton,
          Nat.add_sub_add_right, ← append_assoc,
          replicate_append_toDigits w (by rw [pow_succ] at hn; omega)]
        rfl

theorem append_lt_append_of_length_eq {A : Type*} [LT A] {x y : List A} :
    {l m : List A} → l.length = m.length → l < m → l ++ x < m ++ y
  | [], [], _, h => absurd h (not_lt_nil _)
  | _ :: _, _ :: _, hlen, h => by
    rw [cons_append, cons_append, cons_lt_cons_iff]
    rcases cons_lt_cons_iff.mp h with hlt | ⟨heq, hlt⟩
    · exact .inl hlt
    · exact .inr ⟨heq, append_lt_append_of_length_eq (succ.inj hlen) hlt⟩

theorem digitChar_lt {a b : ℕ} (hab : a < b) (hb : b < 10) : a.digitChar < b.digitChar := by
  rw [Char.lt_def, UInt32.lt_iff_toNat_lt]
  change a.digitChar.toNat < b.digitChar.toNat
  rw [toNat_digitChar_of_lt_ten (hab.trans hb), toNat_digitChar_of_lt_ten hb]
  omega

/-- Numerals of one width are ordered as their numbers. -/
theorem fixedDigits_lt : (w : ℕ) → {a b : ℕ} → a < b → b < 10 ^ w →
    fixedDigits w a < fixedDigits w b
  | 0, _, _, hab, hb => by
    rw [pow_zero] at hb
    omega
  | w + 1, a, b, hab, hb => by
    have hb' : b / 10 < 10 ^ w := by
      rw [pow_succ] at hb
      omega
    rcases lt_or_ge (a / 10) (b / 10) with hlt | hge
    · exact append_lt_append_of_length_eq (by rw [length_fixedDigits, length_fixedDigits])
        (fixedDigits_lt w hlt hb')
    · have heq : a / 10 = b / 10 := by omega
      rw [fixedDigits, fixedDigits, heq]
      refine append_left_lt (cons_lt_cons_iff.mpr (.inl (digitChar_lt ?_ ?_))) <;> omega

theorem toList_pushn (s : String) (c : Char) :
    (k : ℕ) → (s.pushn c k).toList = s.toList ++ List.replicate k c
  | 0 => by simp [String.pushn, Nat.repeat]
  | k + 1 => by
    have h := toList_pushn s c k
    rw [String.pushn] at h
    rw [String.pushn, Nat.repeat, String.toList_push, h, replicate_succ', append_assoc]

end DistributedCore
