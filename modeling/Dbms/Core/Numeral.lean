import Dbms.Core.Number
import Dbms.Lib.Loop

/-! Reading back what was printed. -/

namespace Dbms.Core
variable {n : Nat}

theorem natText_isDigit (n : Nat) : ∀ c ∈ natText n, c.isDigit = true :=
  fun _ => Nat.isDigit_of_mem_toDigits (by decide) (by decide)

theorem natText_ne_nil (n : Nat) : natText n ≠ [] := Nat.toDigits_ne_nil

theorem decimal_natText (n : Nat) : decimal (natText n) = n := Nat.ofDigitChars_ten_toDigits

theorem intText_natCast (n : Nat) : intText n = natText n := if_neg (by simp)

theorem idxOf?_append {q : Char} {pre : Text} (h : q ∉ pre) (s : Text) :
    (pre ++ q :: s).idxOf? q = some pre.length := by
  induction pre with
  | nil => simp [List.idxOf?_cons]
  | cons c pre ih =>
    rw [List.mem_cons, not_or] at h
    have hne : (c == q) = false := by simpa using Ne.symm h.1
    rw [List.cons_append, List.idxOf?_cons, hne, ih h.2]
    rfl

def NoDigit (r : Text) : Prop := ∀ c, r.head? = some c → c.isDigit = false

theorem span_digits {t r : Text} (h : ∀ c ∈ t, c.isDigit = true) (hr : NoDigit r) :
    (t ++ r).takeWhile Char.isDigit = t ∧ (t ++ r).dropWhile Char.isDigit = r :=
  Lib.span_append h hr

theorem digit_range {c : Char} (h : c.isDigit = true) : 48 ≤ c.toNat ∧ c.toNat ≤ 57 := by
  simpa [Char.isDigit, UInt32.le_iff_toNat_le] using h

theorem scanInt_run {t r : Text} (hne : t ≠ []) (h : ∀ c ∈ t, c.isDigit = true) (hr : NoDigit r) :
    scanInt (t ++ r) = some (false, t, r) := by
  have hspan := span_digits h hr
  obtain ⟨c, t, rfl⟩ := List.exists_cons_of_ne_nil hne
  have hc := h c (List.mem_cons_self ..)
  have hrange := digit_range hc
  have hspace : isCSpace c = false := by
    have hblank : c ≠ ' ' := by
      rintro rfl
      cases hc
    simp only [isCSpace, hblank, decide_false, Bool.false_or]
    simp
    omega
  have hminus : c ≠ '-' := by
    rintro rfl
    cases hc
  have hplus : c ≠ '+' := by
    rintro rfl
    cases hc
  rw [List.cons_append] at hspan ⊢
  simp [scanInt, List.dropWhile_cons_of_neg, hspace, hminus, hplus, hspan]

theorem scanInt_minus {t r : Text} (hne : t ≠ []) (h : ∀ c ∈ t, c.isDigit = true)
    (hr : NoDigit r) : scanInt ('-' :: (t ++ r)) = some (true, t, r) := by
  have hspan := span_digits h hr
  have hspace : isCSpace '-' = false := by decide
  simp [scanInt, List.dropWhile_cons_of_neg, hspace, hspan, hne]

theorem scanInt_digits {digits : Text} (h : ∀ c ∈ digits, c.isDigit = true) :
    scanInt digits = if digits = [] then none else some (false, digits, []) := by
  by_cases hempty : digits = []
  · subst hempty
    rfl
  · have hrun := scanInt_run hempty h (r := []) (nofun)
    rw [List.append_nil] at hrun
    rw [hrun, if_neg hempty]

theorem stoull_digits {digits : Text} (h : ∀ c ∈ digits, c.isDigit = true) :
    stoull digits = none ↔ ¬(digits ≠ [] ∧ decimal digits < 2 ^ 64) := by
  unfold stoull
  rw [scanInt_digits h]
  by_cases hempty : digits = []
  · simp [hempty]
  · simp [hempty]

theorem stoull_natText (h : n < 2 ^ 64) : stoull (natText n) = some n := by
  unfold stoull
  rw [scanInt_digits (natText_isDigit n), if_neg (natText_ne_nil n)]
  dsimp only
  rw [decimal_natText]
  exact if_pos h

end Dbms.Core
