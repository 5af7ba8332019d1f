import Dbms.Core.Calendar
import Dbms.Core.Numeral

/-! Timestamps in text: what they denote, and the number they are read as. -/

namespace Dbms.Core

/-- Digits that stand for a number, with any number of zeros in front. -/
structure IsNumeral (t : Text) (n : Nat) : Prop where
  ne : t ≠ []
  digits : ∀ c ∈ t, c.isDigit = true
  value : decimal t = n

instance (t : Text) (n : Nat) : Decidable (IsNumeral t n) :=
  decidable_of_iff (t ≠ [] ∧ t.all Char.isDigit = true ∧ decimal t = n)
    ⟨fun h => ⟨h.1, List.all_eq_true.mp h.2.1, h.2.2⟩,
      fun h => ⟨h.ne, List.all_eq_true.mpr h.digits, h.value⟩⟩

inductive IsSignedNumeral : Text → Int → Prop where
  | plain {t : Text} {n : Nat} (h : IsNumeral t n) : IsSignedNumeral t n
  | minus {t : Text} {n : Nat} (h : IsNumeral t n) : IsSignedNumeral ('-' :: t) (-n)

/-- The text `y.mo.d-h:mi:s.ffffff` of a moment. -/
inductive Moment.Written (m : Moment) : Text → Prop where
  | intro {y mo d h mi s us : Text} (hy : IsSignedNumeral y m.y) (hmo : IsNumeral mo m.mo)
      (hd : IsNumeral d m.d) (hh : IsNumeral h m.h) (hmi : IsNumeral mi m.mi) (hs : IsNumeral s m.s)
      (hus : IsNumeral us m.us) (hlength : us.length = 6) :
      m.Written (y ++ '.' :: (mo ++ '.' :: (d ++ '-' :: (h ++ ':' :: (mi ++ ':' :: (s ++ '.' :: us))))))

def Moment.InInt (m : Moment) : Prop := -(2 ^ 31) ≤ m.y - 1900 ∧ m.y < 2 ^ 31

section Scan
variable {t r : Text} {n : Nat}

theorem bmod_int {v : Int} (hlow : -(2 ^ 31) ≤ v) (hhigh : v < 2 ^ 31) : v.bmod (2 ^ 32) = v := by
  rw [Int.bmod_eq_of_le] <;> omega

theorem IsNumeral.scanInt32 (h : IsNumeral t n) (hr : NoDigit r) (hn : n < 2 ^ 31) :
    scanInt32 (t ++ r) = some ((n : Int), r) := by
  have hmin : min (2 ^ 63 - 1) (n : Int) = n := min_eq_right (by omega)
  unfold Core.scanInt32
  rw [scanInt_run h.ne h.digits hr]
  dsimp only
  rw [if_neg (by decide), h.value, hmin, bmod_int (by omega) (by omega)]

theorem IsNumeral.scanInt32_minus (h : IsNumeral t n) (hr : NoDigit r) (hn : n ≤ 2 ^ 31) :
    Core.scanInt32 ('-' :: (t ++ r)) = some (-(n : Int), r) := by
  have hmax : max (-(2 ^ 63)) (-(n : Int)) = -n := max_eq_right (by omega)
  unfold Core.scanInt32
  rw [scanInt_minus h.ne h.digits hr]
  dsimp only
  rw [if_pos rfl, h.value, hmax, bmod_int (by omega) (by omega)]

theorem IsSignedNumeral.scanInt32 {y : Int} (h : IsSignedNumeral t y) (hr : NoDigit r)
    (hlow : -(2 ^ 31) ≤ y)
    (hhigh : y < 2 ^ 31) : Core.scanInt32 (t ++ r) = some (y, r) := by
  cases h with
  | plain h => exact h.scanInt32 hr (by omega)
  | minus h => exact h.scanInt32_minus hr (by omega)

theorem noDigit_cons {c : Char} (hc : c.isDigit = false) (s : Text) : NoDigit (c :: s) :=
  fun _ hd => Option.some.inj hd ▸ hc

theorem scanFields_cons {sep : Char} {seps : Text} {v : Int} {s : Text}
    (h : scanInt32 (t ++ sep :: s) = some (v, sep :: s)) :
    scanFields (sep :: seps) (t ++ sep :: s) = v :: scanFields seps s := by
  simp [scanFields, h]

end Scan

namespace Moment
variable {m m' : Moment} {text text' : Text}

theorem Written.fields (h : m.Written text) (hint : m.InInt) :
    scanFields "..-::.".toList text = [m.y, m.mo, m.d, m.h, m.mi, m.s, m.us] := by
  have hmonth := m.month
  have hday := m.day_lt
  have hbounds : m.h < 24 ∧ m.mi < 60 ∧ m.s < 60 ∧ m.us < 10 ^ 6 :=
    ⟨m.hour, m.minute, m.second, m.micro⟩
  have hyear : -(2 ^ 31) ≤ m.y - 1900 ∧ m.y < 2 ^ 31 := hint
  obtain ⟨hy, hmo, hd, hh, hmi, hs, hus, -⟩ := h
  show scanFields ['.', '.', '-', ':', ':', '.'] _ = _
  rw [scanFields_cons (hy.scanInt32 (noDigit_cons rfl _) (by omega) (by omega)),
    scanFields_cons (hmo.scanInt32 (noDigit_cons rfl _) (by omega)),
    scanFields_cons (hd.scanInt32 (noDigit_cons rfl _) (by omega)),
    scanFields_cons (hh.scanInt32 (noDigit_cons rfl _) (by omega)),
    scanFields_cons (hmi.scanInt32 (noDigit_cons rfl _) (by omega)),
    scanFields_cons (hs.scanInt32 (noDigit_cons rfl _) (by omega))]
  have hlast := hus.scanInt32 (r := []) (nofun) (by omega)
  rw [List.append_nil] at hlast
  simp [scanFields, hlast]

theorem Written.parse (h : m.Written text) (hint : m.InInt) : parseTsString text =
    if m.seconds = -1 then .error "timestamp out of range".toList
    else .ok (m.micros % 2 ^ 64).toNat := by
  have hmicro : (m.us : Int).tmod 1000000 = m.us := by
    have hus := m.micro
    rw [Int.tmod_eq_emod_of_nonneg (by omega), Int.emod_eq_of_lt (by omega) (by omega)]
  have hlow : -(2 ^ 31) ≤ m.y - 1900 := hint.1
  have hhigh : m.y < 2 ^ 31 := hint.2
  have hmonth := m.month
  unfold parseTsString
  rw [h.fields hint]
  dsimp only [List.head?_cons, Option.getD_some]
  rw [bmod_int (v := m.y - 1900) hlow (by omega), bmod_int (v := (m.mo : Int) - 1) (by omega) (by omega),
    timegm_eq (by omega) hhigh, hmicro]
  rfl

/-- The multiples of `2 ^ 64` microseconds from 1970 that lie after `m`, up to `m'`. -/
def wraps (m m' : Moment) : Nat := (m'.micros / 2 ^ 64 - m.micros / 2 ^ 64).toNat

end Moment

/-- Two timestamps keep their order, unless they are on two sides of a multiple of `2 ^ 64`
microseconds from 1970, and nearer to each other than that. -/
theorem parseTsString_mono_iff {m m' : Moment} {text text' : Text} {v v' : Nat}
    (hw : m.Written text) (hw' : m'.Written text') (hint : m.InInt) (hint' : m'.InInt)
    (hv : parseTsString text = .ok v) (hv' : parseTsString text' = .ok v') (hle : m ≤ m') :
    v ≤ v' ↔ m.wraps m' * 2 ^ 64 ≤ m'.micros - m.micros := by
  have hmicros := Moment.micros_mono hle
  have hvalue : ∀ {m : Moment} {text : Text} {v : Nat}, m.Written text → m.InInt →
      parseTsString text = .ok v → v = (m.micros % 2 ^ 64).toNat := by
    intro m text v hw hint hv
    rw [hw.parse hint] at hv
    split at hv
    · cases hv
    · exact (Except.ok.inj hv).symm
  rw [hvalue hw hint hv, hvalue hw' hint' hv', Moment.wraps]
  omega

def newYear (y : Int) (h : 1 ≤ (monthDays y).getD 0 0 := by decide) : Moment :=
  ⟨y, 1, 1, 0, 0, 0, 0, by decide, ⟨by decide, h⟩, by decide, by decide, by decide, by decide⟩

def newYearText (y : Text) : Text :=
  y ++ '.' :: (['0', '1'] ++ '.' :: (['0', '1'] ++ '-' :: (['0', '0'] ++ ':' :: (['0', '0'] ++ ':' ::
    (['0', '0'] ++ '.' :: ['0', '0', '0', '0', '0', '0'])))))

theorem newYear_written {y : Text} {n : Int} (hy : IsSignedNumeral y n) (h : 1 ≤ (monthDays n).getD 0 0) :
    (newYear n h).Written (newYearText y) := by
  have hone : IsNumeral ['0', '1'] 1 := by decide +kernel
  have hzero : IsNumeral ['0', '0'] 0 := by decide +kernel
  have hmicro : IsNumeral ['0', '0', '0', '0', '0', '0'] 0 := by decide +kernel
  exact .intro hy hone hone hzero hzero hzero hmicro rfl

theorem isSignedNumeral_1969 : IsSignedNumeral ['1', '9', '6', '9'] 1969 := by
  have h : IsNumeral ['1', '9', '6', '9'] 1969 := by decide +kernel
  exact .plain h

theorem isSignedNumeral_1970 : IsSignedNumeral ['1', '9', '7', '0'] 1970 := by
  have h : IsNumeral ['1', '9', '7', '0'] 1970 := by decide +kernel
  exact .plain h

theorem isSignedNumeral_2024 : IsSignedNumeral ['2', '0', '2', '4'] 2024 := by
  have h : IsNumeral ['2', '0', '2', '4'] 2024 := by decide +kernel
  exact .plain h

theorem newYear_le {y y' : Int} (hlt : y < y') (h : 1 ≤ (monthDays y).getD 0 0)
    (h' : 1 ≤ (monthDays y').getD 0 0) : newYear y h ≤ newYear y' h' :=
  Prod.Lex.toLex_le_toLex.mpr (.inl hlt)

theorem parseTsString_mono_iff_2024 : (0 : Nat) ≤ 1704067200000000 ↔
    (newYear 1970).wraps (newYear 2024) * 2 ^ 64 ≤ (newYear 2024).micros - (newYear 1970).micros :=
  parseTsString_mono_iff (newYear_written isSignedNumeral_1970 _) (newYear_written isSignedNumeral_2024 _)
    (by unfold Moment.InInt; decide) (by unfold Moment.InInt; decide) rfl rfl
    (newYear_le (by decide) _ _)

/-- The year before 1970 is read as a time far ahead. -/
theorem parseTsString_not_mono : ∃ (m m' : Moment) (text text' : Text) (v v' : Nat),
    m.Written text ∧ m'.Written text' ∧ m.InInt ∧ m'.InInt ∧ parseTsString text = .ok v ∧
      parseTsString text' = .ok v' ∧ m ≤ m' ∧ ¬ v ≤ v' :=
  ⟨newYear 1969, newYear 1970, newYearText ['1', '9', '6', '9'], newYearText ['1', '9', '7', '0'],
    18446712537709551616, 0, newYear_written isSignedNumeral_1969 _, newYear_written isSignedNumeral_1970 _,
    by unfold Moment.InInt; decide, by unfold Moment.InInt; decide, rfl, rfl,
    newYear_le (by decide) _ _, by decide⟩

end Dbms.Core
