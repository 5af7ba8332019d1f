import Dbms.Core.Journal
import Mathlib.Data.Prod.Lex

/-! Moments of the proleptic Gregorian calendar and their order. -/

namespace Dbms.Core

structure Moment where
  y : Int
  mo : Nat
  d : Nat
  h : Nat
  mi : Nat
  s : Nat
  us : Nat
  month : 1 ≤ mo ∧ mo ≤ 12
  day : 1 ≤ d ∧ (d : Int) ≤ (monthDays y).getD (mo - 1) 0
  hour : h < 24
  minute : mi < 60
  second : s < 60
  micro : us < 10 ^ 6

def Moment.fields (m : Moment) : Int ×ₗ Nat ×ₗ Nat ×ₗ Nat ×ₗ Nat ×ₗ Nat ×ₗ Nat :=
  toLex (m.y, toLex (m.mo, toLex (m.d, toLex (m.h, toLex (m.mi, toLex (m.s, m.us))))))

instance : LE Moment where
  le m m' := m.fields ≤ m'.fields

def yearLength (leap : Bool) : Int := if leap then 366 else 365

theorem yearDays_succ (y : Int) : yearDays (y + 1) = yearDays y + yearLength (isLeap y) := by
  have hleap : isLeap y = true ↔ y % 4 = 0 ∧ (y % 100 ≠ 0 ∨ y % 400 = 0) := by simp [isLeap]
  unfold yearDays yearLength
  by_cases h : isLeap y = true
  · rw [if_pos h]
    rw [hleap] at h
    omega
  · rw [if_neg h]
    rw [hleap] at h
    omega

theorem yearDays_mono {y y' : Int} (h : y ≤ y') : yearDays y ≤ yearDays y' := by
  unfold yearDays
  omega

def months (leap : Bool) : List Int := [31, if leap then 29 else 28, 31, 30, 31, 30, 31, 31, 30, 31, 30, 31]

def monthStart (leap : Bool) (m : Nat) : Int := ((months leap).take m).foldl (· + ·) 0

theorem monthStart_next : ∀ leap : Bool, ∀ m' < 12, ∀ m < m',
    monthStart leap m + (months leap).getD m 0 ≤ monthStart leap m' := by decide +kernel

theorem monthStart_year : ∀ leap : Bool, ∀ m < 12,
    0 ≤ monthStart leap m ∧ monthStart leap m + (months leap).getD m 0 ≤ yearLength leap := by
  decide +kernel

theorem months_le : ∀ leap : Bool, ∀ m < 12, (months leap).getD m 0 ≤ 31 := by decide +kernel

namespace Moment
variable {m m' : Moment}

def days (m : Moment) : Int := yearDays m.y + monthStart (isLeap m.y) (m.mo - 1) + (m.d - 1)

def seconds (m : Moment) : Int := ((m.days * 24 + m.h) * 60 + m.mi) * 60 + m.s

def micros (m : Moment) : Int := m.seconds * 10 ^ 6 + m.us

theorem day_lt (m : Moment) : m.d < 32 := by
  have hmonth := m.month
  have hday : (m.d : Int) ≤ (months (isLeap m.y)).getD (m.mo - 1) 0 := m.day.2
  have hlength := months_le (isLeap m.y) (m.mo - 1) (by omega)
  omega

theorem days_year (m : Moment) : yearDays m.y ≤ m.days ∧ m.days < yearDays (m.y + 1) := by
  have hmonth := m.month
  have hday : 1 ≤ m.d ∧ (m.d : Int) ≤ (months (isLeap m.y)).getD (m.mo - 1) 0 := m.day
  have hstart := monthStart_year (isLeap m.y) (m.mo - 1) (by omega)
  rw [yearDays_succ]
  unfold days
  omega

theorem seconds_fits (hlow : 1900 - 2 ^ 31 ≤ m.y) (hhigh : m.y < 2 ^ 31) :
    gmtimeFits m.seconds = true := by
  have hbounds : m.h < 24 ∧ m.mi < 60 ∧ m.s < 60 := ⟨m.hour, m.minute, m.second⟩
  have hyear := m.days_year
  have hfirst : yearDays (1900 - 2 ^ 31) ≤ yearDays m.y := yearDays_mono hlow
  have hlast : yearDays (m.y + 1) ≤ yearDays (1900 + 2 ^ 31) := yearDays_mono (by omega)
  simp only [gmtimeFits, Bool.and_eq_true, decide_eq_true_eq]
  unfold seconds
  omega

theorem timegm_eq (hlow : 1900 - 2 ^ 31 ≤ m.y) (hhigh : m.y < 2 ^ 31) :
    timegm (m.y - 1900) (m.mo - 1) m.d m.h m.mi m.s = m.seconds := by
  have hmonth := m.month
  have hyear : m.y - 1900 + 1900 + ((m.mo : Int) - 1) / 12 = m.y := by omega
  have hindex : (((m.mo : Int) - 1) % 12).toNat = m.mo - 1 := by omega
  have hcut : max 0 (min (m.s : Int) 59) = m.s := by
    have hsecond := m.second
    omega
  have hfits := seconds_fits hlow hhigh
  unfold timegm
  rw [hyear, hindex, hcut]
  exact if_pos (Bool.and_eq_true_iff.mpr ⟨hfits, hfits⟩)

theorem days_lt_of_y (h : m.y < m'.y) : m.days < m'.days := by
  have hm := m.days_year
  have hm' := m'.days_year
  have hnext : yearDays (m.y + 1) ≤ yearDays m'.y := yearDays_mono (by omega)
  omega

theorem days_lt_of_mo (hy : m.y = m'.y) (h : m.mo < m'.mo) : m.days < m'.days := by
  have hmonth := m.month
  have hmonth' := m'.month
  have hday : 1 ≤ m.d ∧ (m.d : Int) ≤ (months (isLeap m.y)).getD (m.mo - 1) 0 := m.day
  have hday' := m'.day
  have hnext := monthStart_next (isLeap m.y) (m'.mo - 1) (by omega) (m.mo - 1) (by omega)
  unfold days
  rw [← hy]
  omega

theorem micros_mono (h : m ≤ m') : m.micros ≤ m'.micros := by
  have hyear : m.y < m'.y → m.days < m'.days := days_lt_of_y
  have hmonth : m.y = m'.y → m.mo < m'.mo → m.days < m'.days := days_lt_of_mo
  have hday : m.y = m'.y → m.mo = m'.mo → m'.days - m.days = m'.d - m.d := by
    intro hy hmo
    unfold days
    rw [hy, hmo]
    omega
  have hbounds : m.h < 24 ∧ m.mi < 60 ∧ m.s < 60 ∧ m.us < 10 ^ 6 :=
    ⟨m.hour, m.minute, m.second, m.micro⟩
  have hfields : m.fields ≤ m'.fields := h
  unfold fields at hfields
  simp only [Prod.Lex.toLex_le_toLex] at hfields
  unfold micros seconds
  omega

end Moment

end Dbms.Core
