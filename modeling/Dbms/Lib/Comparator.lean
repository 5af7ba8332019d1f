import Mathlib.Data.List.Pairwise
import Mathlib.Data.List.Basic

/-! Three-way comparators in the manner of C, read by the sign of an integer. -/

namespace Dbms.Lib
variable {κ : Type*} {cmp : κ → κ → Int}

/-- The sign of the comparator is a total preorder. -/
structure TotalPreorder (cmp : κ → κ → Int) : Prop where
  swap : ∀ a b, cmp a b < 0 ↔ 0 < cmp b a
  trans : ∀ a b c, cmp a b ≤ 0 → cmp b c ≤ 0 → cmp a c ≤ 0

namespace TotalPreorder

theorem refl (hc : TotalPreorder cmp) (a : κ) : cmp a a = 0 := by
  have h := hc.swap a a
  omega

theorem eq_comm (hc : TotalPreorder cmp) {a b : κ} (h : cmp a b = 0) : cmp b a = 0 := by
  have h1 := hc.swap a b
  have h2 := hc.swap b a
  omega

theorem total (hc : TotalPreorder cmp) (a b : κ) : cmp a b ≤ 0 ∨ cmp b a ≤ 0 := by
  have h := hc.swap b a
  omega

theorem sign_swap (hc : TotalPreorder cmp) (a b : κ) : (cmp b a).sign = -(cmp a b).sign := by
  have h1 := hc.swap a b
  have h2 := hc.swap b a
  rcases Int.lt_trichotomy (cmp a b) 0 with h | h | h
  · rw [Int.sign_eq_neg_one_of_neg h, Int.sign_eq_one_of_pos (h1.mp h), Int.neg_neg]
  · rw [h, hc.eq_comm h, Int.sign_zero, Int.neg_zero]
  · rw [Int.sign_eq_one_of_pos h, Int.sign_eq_neg_one_of_neg (h2.mpr h)]

theorem lt_of_lt_of_le (hc : TotalPreorder cmp) {a b c : κ} (h : cmp a b < 0)
    (h' : cmp b c ≤ 0) : cmp a c < 0 := by
  have hle := hc.trans a b c (by omega) h'
  by_contra hn
  have hca : cmp c a ≤ 0 := by have := hc.swap a c; have := hc.swap c a; omega
  have hba := hc.trans b c a h' hca
  have := hc.swap a b
  omega

theorem lt_of_le_of_lt (hc : TotalPreorder cmp) {a b c : κ} (h : cmp a b ≤ 0)
    (h' : cmp b c < 0) : cmp a c < 0 := by
  have hle := hc.trans a b c h (by omega)
  by_contra hn
  have hca : cmp c a ≤ 0 := by have := hc.swap a c; have := hc.swap c a; omega
  have hcb := hc.trans c a b hca h
  have := hc.swap b c
  omega

theorem eq_left (hc : TotalPreorder cmp) {a b : κ} (h : cmp a b = 0) (c : κ) :
    (cmp a c = 0 ↔ cmp b c = 0) ∧ (cmp a c < 0 ↔ cmp b c < 0) := by
  have hba := hc.eq_comm h
  have h1 := hc.trans a b c (by omega)
  have h2 := hc.trans b a c (by omega)
  have h3 := hc.lt_of_le_of_lt (a := a) (b := b) (c := c) (by omega)
  have h4 := hc.lt_of_le_of_lt (a := b) (b := a) (c := c) (by omega)
  omega

end TotalPreorder

theorem totalPreorder_sub : TotalPreorder fun a b : Int => a - b where
  swap a b := by omega
  trans a b c h h' := by omega

/-- `a` may stand before `b` in a list of keys: strictly below, or also level when `dup` is set. -/
def Before (cmp : κ → κ → Int) (dup : Bool) (a b : κ) : Prop :=
  cmp a b < 0 ∨ dup = true ∧ cmp a b = 0

section Before
variable {dup : Bool} {a b c : κ}

theorem Before.le (h : Before cmp dup a b) : cmp a b ≤ 0 := by
  rcases h with h | ⟨_, h⟩ <;> omega

theorem Before.trans_le (hc : TotalPreorder cmp) (h : Before cmp dup a b) (h' : cmp b c ≤ 0) :
    Before cmp dup a c := by
  rcases h with h | ⟨hd, h⟩
  · exact .inl (hc.lt_of_lt_of_le h h')
  · have hac := hc.trans a b c (by omega) h'
    rcases Int.lt_or_eq_of_le hac with h0 | h0
    · exact .inl h0
    · exact .inr ⟨hd, h0⟩

theorem before_false : Before cmp false a b ↔ cmp a b < 0 := by simp [Before]

end Before

end Dbms.Lib
