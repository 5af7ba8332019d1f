import Mathlib.Data.Nat.Digits.Lemmas

/-! Numbers rounded to their leading digits. -/

namespace Dbms.Lib
variable {d u n : Nat}

/-- The multiple of `u` next to `n`, and the even one of two that are as near. -/
def roundEven (u n : Nat) : Nat :=
  if u < 2 * (n % u) ∨ 2 * (n % u) = u ∧ n / u % 2 = 1 then (n / u + 1) * u else n / u * u

/-- Behind its first `d` digits the number gets zeros. -/
def significant (d n : Nat) : Nat := roundEven (10 ^ ((Nat.digits 10 n).length - d)) n

theorem roundEven_one : roundEven 1 n = n := by
  unfold roundEven
  rw [Nat.mod_one, if_neg (by simp), Nat.div_one, Nat.mul_one]

theorem significant_of_lt (h : n < 10 ^ d) : significant d n = n := by
  have hlen : (Nat.digits 10 n).length ≤ d := (Nat.digits_length_le_iff (by decide) n).mpr h
  unfold significant
  rw [Nat.sub_eq_zero_of_le hlen, Nat.pow_zero, roundEven_one]

example : significant 6 1234567 = 1234570 ∧ significant 2 125 = 120 ∧ significant 2 995 = 1000 := by
  decide +kernel

end Dbms.Lib
