import DistributedCore.Library.Json

/-!
# Numbers

The numbers of the JavaScript language: rational numbers, the two infinities and `NaN`. Nothing is
rounded, and `0` and `-0` are the same number.

`Math.max` and `Math.min` of no arguments are infinite, and an argument that is not a number is
their result.

## Main results

* `JsNumber.exists_mathMax_eq`: the maximum of finite numbers is one of them, and the greatest.
-/

namespace DistributedCore

open List

/-- The numbers of JavaScript, as far as the source computes with them. -/
inductive JsNumber where
  | nan
  | negInfinity
  | finite (q : ℚ)
  | posInfinity
  deriving DecidableEq

namespace JsNumber

def add : JsNumber → JsNumber → JsNumber
  | .nan, _ | _, .nan => .nan
  | .negInfinity, .posInfinity | .posInfinity, .negInfinity => .nan
  | .negInfinity, _ | _, .negInfinity => .negInfinity
  | .posInfinity, _ | _, .posInfinity => .posInfinity
  | .finite p, .finite q => .finite (p + q)

def neg : JsNumber → JsNumber
  | .nan => .nan
  | .negInfinity => .posInfinity
  | .finite q => .finite (-q)
  | .posInfinity => .negInfinity

def sub (x y : JsNumber) : JsNumber := x.add y.neg

/-- `x < y`, which is false if one of them is not a number. -/
def less : JsNumber → JsNumber → Bool
  | .nan, _ | _, .nan => false
  | .finite p, .finite q => p < q
  | .negInfinity, .negInfinity => false
  | .negInfinity, _ => true
  | _, .negInfinity => false
  | .posInfinity, _ => false
  | _, .posInfinity => true

/-- The quotient by a number of items. -/
def divNat : JsNumber → ℕ → JsNumber
  | .finite q, 0 => if q = 0 then .nan else if 0 < q then .posInfinity else .negInfinity
  | .finite q, n + 1 => .finite (q / (n + 1 : ℕ))
  | x, _ => x

/-- The greater of two arguments of `Math.max`. -/
def greater : JsNumber → JsNumber → JsNumber
  | .nan, _ | _, .nan => .nan
  | .negInfinity, x | x, .negInfinity => x
  | .posInfinity, _ | _, .posInfinity => .posInfinity
  | .finite p, .finite q => .finite (max p q)

/-- The smaller of two arguments of `Math.min`. -/
def smaller : JsNumber → JsNumber → JsNumber
  | .nan, _ | _, .nan => .nan
  | .posInfinity, x | x, .posInfinity => x
  | .negInfinity, _ | _, .negInfinity => .negInfinity
  | .finite p, .finite q => .finite (min p q)

def mathMax (l : List JsNumber) : JsNumber := l.foldr greater .negInfinity

def mathMin (l : List JsNumber) : JsNumber := l.foldr smaller .posInfinity

/-- The maximum of some finite numbers is one of them, and none of them is greater. -/
theorem exists_mathMax_eq {l : List JsNumber} (hne : l ≠ [])
    (hfinite : ∀ x ∈ l, ∃ q, x = .finite q) :
    ∃ q, .finite q ∈ l ∧ mathMax l = .finite q ∧ ∀ p, .finite p ∈ l → p ≤ q := by
  induction l with
  | nil => exact absurd rfl hne
  | cons x l ih =>
    obtain ⟨p, rfl⟩ := hfinite x mem_cons_self
    rcases eq_or_ne l [] with rfl | hl
    · exact ⟨p, mem_cons_self, rfl, by simp⟩
    · obtain ⟨q, hq, hmax, hle⟩ := ih hl fun x hx => hfinite x (mem_cons_of_mem _ hx)
      have hcons : mathMax (.finite p :: l) = .finite (max p q) := by
        rw [mathMax, foldr_cons, ← mathMax, hmax]
        rfl
      refine ⟨max p q, ?_, hcons, ?_⟩
      · rcases max_choice p q with h | h <;> rw [h]
        · exact mem_cons_self
        · exact mem_cons_of_mem _ hq
      · intro r hr
        rcases mem_cons.mp hr with hr | hr
        · exact le_max_of_le_left (JsNumber.finite.inj hr).le
        · exact le_max_of_le_right (hle r hr)

end JsNumber

/-- The number that a literal stands for. -/
def JsonNumber.toRat (n : JsonNumber) : ℚ :=
  let digits := dropSign n.text
  let whole := digits.takeWhile Char.isDigit
  let (fraction, exponent) := match digits.dropWhile Char.isDigit with
    | '.' :: l => (l.takeWhile Char.isDigit, l.dropWhile Char.isDigit)
    | l => ([], l)
  let shift : ℤ := match exponent with
    | _ :: '-' :: l => -(Nat.ofDigitChars 10 l 0 : ℕ)
    | _ :: '+' :: l => (Nat.ofDigitChars 10 l 0 : ℕ)
    | _ :: l => (Nat.ofDigitChars 10 l 0 : ℕ)
    | [] => 0
  let magnitude : ℚ := (Nat.ofDigitChars 10 (whole ++ fraction) 0 : ℕ)
  let value := magnitude * 10 ^ (shift - fraction.length)
  if digits = n.text then value else -value

end DistributedCore
