import Dbms.Core.Numeral

/-! Texts without a line break. -/

namespace Dbms.Core

def Unbroken (s : Text) : Prop := '\n' ∉ s

instance (s : Text) : Decidable (Unbroken s) := inferInstanceAs (Decidable ('\n' ∉ s))

namespace Unbroken
variable {s s' : Text} {c : Char}

theorem nil : Unbroken [] := List.not_mem_nil

theorem cons (hc : c ≠ '\n') (h : Unbroken s) : Unbroken (c :: s) :=
  List.not_mem_cons_of_ne_of_not_mem (Ne.symm hc) h

theorem append (h : Unbroken s) (h' : Unbroken s') : Unbroken (s ++ s') := by
  unfold Unbroken
  rw [List.mem_append]
  exact not_or.mpr ⟨h, h'⟩

theorem subset (h : Unbroken s) (hs : s' ⊆ s) : Unbroken s' := fun hmem => h (hs hmem)

theorem flatMap {f : Char → Text} (h : ∀ c ∈ s, Unbroken (f c)) : Unbroken (s.flatMap f) := by
  intro hmem
  obtain ⟨c, hc, hbreak⟩ := List.mem_flatMap.mp hmem
  exact h c hc hbreak

theorem intercalate {ss : List Text} (h : Unbroken s) (hss : ∀ t ∈ ss, Unbroken t) :
    Unbroken (s.intercalate ss) := by
  induction ss with
  | nil => exact .nil
  | cons t ss ih =>
    rw [List.forall_mem_cons] at hss
    cases ss with
    | nil => simpa using hss.1
    | cons u ss =>
      rw [List.intercalate_cons_cons]
      exact (hss.1.append h).append (ih hss.2)

theorem natText (n : Nat) : Unbroken (natText n) := by
  intro hmem
  exact absurd (natText_isDigit n _ hmem) (by decide)

theorem intText (v : Int) : Unbroken (intText v) := by
  unfold Core.intText
  split
  · exact (natText _).cons (by decide)
  · exact natText _

end Unbroken

theorem splitOn_unbroken (s : Text) : ∀ line ∈ s.splitOn '\n', Unbroken line := by
  induction s with
  | nil => exact List.forall_mem_singleton.mpr .nil
  | cons c s ih =>
    rw [List.splitOn_cons_eq_if_modifyHead]
    obtain ⟨line, lines, hlines⟩ := List.exists_cons_of_ne_nil (List.splitOn_ne_nil '\n' s)
    rw [hlines] at ih ⊢
    split
    · exact List.forall_mem_cons.mpr ⟨.nil, ih⟩
    · rename_i hc
      obtain ⟨hline, hrest⟩ := List.forall_mem_cons.mp ih
      exact List.forall_mem_cons.mpr ⟨hline.cons (by simpa using hc), hrest⟩

end Dbms.Core
