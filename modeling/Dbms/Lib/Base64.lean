import Mathlib.Data.List.Basic

/-! Bytes in groups of six bits: three bytes make four sextets, and a group that is cut short
is filled up with zero bits. -/

namespace Dbms.Lib.Base64

def sextets : List Nat → List Nat
  | [] => []
  | [a] => [a / 4, a % 4 * 16]
  | [a, b] => [a / 4, a % 4 * 16 + b / 16, b % 16 * 4]
  | a :: b :: c :: bytes =>
    a / 4 :: (a % 4 * 16 + b / 16) :: (b % 16 * 4 + c / 64) :: c % 64 :: sextets bytes

/-- The bits that do not fill a byte are dropped. -/
def octets : List Nat → List Nat
  | [] => []
  | [_] => []
  | [p, q] => [p * 4 + q / 16]
  | [p, q, r] => [p * 4 + q / 16, q % 16 * 16 + r / 4]
  | p :: q :: r :: s :: digits =>
    (p * 4 + q / 16) :: (q % 16 * 16 + r / 4) :: (r % 4 * 64 + s) :: octets digits

theorem sextets_lt {bytes : List Nat} (h : ∀ a ∈ bytes, a < 256) : ∀ p ∈ sextets bytes, p < 64 := by
  induction bytes using sextets.induct with
  | case1 => simp [sextets]
  | case2 a =>
    simp only [List.forall_mem_singleton] at h
    simp only [sextets, List.forall_mem_cons]
    exact ⟨by omega, by omega, nofun⟩
  | case3 a b =>
    simp only [List.forall_mem_cons] at h
    simp only [sextets, List.forall_mem_cons]
    exact ⟨by omega, by omega, by omega, nofun⟩
  | case4 a b c bytes ih =>
    simp only [List.forall_mem_cons] at h
    simp only [sextets, List.forall_mem_cons]
    exact ⟨by omega, by omega, by omega, by omega, ih h.2.2.2⟩

theorem octets_sextets {bytes : List Nat} (h : ∀ a ∈ bytes, a < 256) :
    octets (sextets bytes) = bytes := by
  induction bytes using sextets.induct with
  | case1 => rfl
  | case2 a =>
    have ha : a / 4 * 4 + a % 4 * 16 / 16 = a := by omega
    rw [sextets, octets, ha]
  | case3 a b =>
    simp only [List.forall_mem_cons] at h
    have ha : a / 4 * 4 + (a % 4 * 16 + b / 16) / 16 = a := by omega
    have hb : (a % 4 * 16 + b / 16) % 16 * 16 + b % 16 * 4 / 4 = b := by omega
    rw [sextets, octets, ha, hb]
  | case4 a b c bytes ih =>
    simp only [List.forall_mem_cons] at h
    have ha : a / 4 * 4 + (a % 4 * 16 + b / 16) / 16 = a := by omega
    have hb : (a % 4 * 16 + b / 16) % 16 * 16 + (b % 16 * 4 + c / 64) / 4 = b := by omega
    have hc : (b % 16 * 4 + c / 64) % 4 * 64 + c % 64 = c := by omega
    rw [sextets, octets, ha, hb, hc, ih h.2.2.2]

end Dbms.Lib.Base64
