import Mathlib.Data.Int.CardIntervalMod

/-! Turns taken one after the other, by a counter that starts again after a while. -/

namespace Dbms.Lib.RoundRobin

/-- How many of the first `k` turns are those of `j`, one of `n`. -/
def turns (n j k : Nat) : Nat := Nat.count (fun m => m % n = j) k

/-- How many of the first `k` turns are those of `j`, if the counter goes up to `p`. -/
def wrapped (p n j k : Nat) : Nat := Nat.count (fun m => m % p % n = j) k

variable {p n i j k : Nat}

theorem count_turns (k : Nat) :
    ((List.range k).map fun m => m % p % n).count j = wrapped p n j k := by
  induction k with
  | zero => rfl
  | succ k ih =>
    rw [List.range_succ, List.map_append, List.count_append, ih]
    unfold wrapped
    rw [Nat.count_succ, List.map_singleton, List.count_singleton]
    simp only [beq_iff_eq]

theorem turns_eq (hj : j < n) (k : Nat) : turns n j k = k / n + if j < k % n then 1 else 0 := by
  have hcount := Nat.count_modEq_card k (r := n) (Nat.zero_lt_of_lt hj) j
  rw [Nat.mod_eq_of_lt hj] at hcount
  rw [← hcount]
  unfold turns Nat.ModEq
  simp only [Nat.mod_eq_of_lt hj]

theorem turns_le (hi : i < n) (hj : j < n) (k : Nat) : turns n i k ≤ turns n j k + 1 := by
  rw [turns_eq hi, turns_eq hj]
  split <;> split <;> omega

theorem wrapped_of_le (hk : k ≤ p) : wrapped p n j k = turns n j k := by
  unfold wrapped turns
  rw [Nat.count_eq_card_filter_range, Nat.count_eq_card_filter_range]
  refine congrArg Finset.card (Finset.filter_congr fun m hm => ?_)
  rw [Nat.mod_eq_of_lt ((Finset.mem_range.mp hm).trans_le hk)]

theorem wrapped_add (k : Nat) : wrapped p n j (p + k) = turns n j p + wrapped p n j k := by
  rw [← wrapped_of_le (k := p) le_rfl]
  unfold wrapped
  rw [Nat.count_add]
  simp only [Nat.add_mod_left]

theorem wrapped_mul_add (q k : Nat) :
    wrapped p n j (q * p + k) = q * turns n j p + wrapped p n j k := by
  induction q with
  | zero => simp
  | succ q ih =>
    have hfirst : (q + 1) * p + k = p + (q * p + k) := by ring
    rw [hfirst, wrapped_add, ih]
    ring

theorem wrapped_eq (hp : 0 < p) (k : Nat) :
    wrapped p n j k = k / p * turns n j p + turns n j (k % p) := by
  rw [← wrapped_of_le (Nat.mod_lt k hp).le, ← wrapped_mul_add, Nat.div_add_mod']

theorem wrapped_le (hp : 0 < p) (hi : i < n) (hj : j < n) (k : Nat) :
    wrapped p n i k ≤ wrapped p n j k + (k / p + 1) := by
  rw [wrapped_eq hp, wrapped_eq hp]
  calc k / p * turns n i p + turns n i (k % p)
      ≤ k / p * (turns n j p + 1) + (turns n j (k % p) + 1) :=
        Nat.add_le_add (Nat.mul_le_mul_left _ (turns_le hi hj p)) (turns_le hi hj _)
    _ = k / p * turns n j p + turns n j (k % p) + (k / p + 1) := by ring

end Dbms.Lib.RoundRobin
