import Dbms.Core.Value

/-! Lines over a socket. A stream is the bytes that are still to be received. -/

open Dbms.Core

namespace Dbms.Net

/-- `read_line`: the bytes up to the end of the line, and what is behind it if there is an end. -/
def readLine : Text → Text × Option Text
  | [] => ([], none)
  | c :: s => if c = '\n' then ([], some s) else (c :: (readLine s).1, (readLine s).2)

/-- `write_all`: what has been sent, and whether it is everything. The list says what each call of
`write` returns. -/
def writeAll : List Int → Text → Text × Bool
  | [], data => ([], data = [])
  | n :: ns, data =>
    if data = [] then ([], true)
    else if n ≤ 0 then ([], false)
    else (data.take n.toNat ++ (writeAll ns (data.drop n.toNat)).1,
      (writeAll ns (data.drop n.toNat)).2)

theorem readLine_line {line : Text} (h : '\n' ∉ line) (rest : Text) :
    readLine (line ++ '\n' :: rest) = (line, some rest) := by
  induction line with
  | nil => simp [readLine]
  | cons c line ih =>
    rw [List.mem_cons, not_or] at h
    rw [List.cons_append, readLine, if_neg (Ne.symm h.1), ih h.2]

theorem readLine_eq {s line rest : Text} (h : readLine s = (line, some rest)) :
    '\n' ∉ line ∧ s = line ++ '\n' :: rest := by
  induction s generalizing line with
  | nil => cases h
  | cons c s ih =>
    rw [readLine] at h
    split at h
    · rename_i hc
      cases h
      exact ⟨List.not_mem_nil, by rw [hc]; rfl⟩
    · rename_i hc
      obtain ⟨hline, hrest⟩ := Prod.mk.inj h
      subst hline
      obtain ⟨hno, hs⟩ := ih (Prod.ext rfl hrest)
      refine ⟨?_, by rw [List.cons_append, ← hs]⟩
      rw [List.mem_cons, not_or]
      exact ⟨Ne.symm hc, hno⟩

theorem writeAll_prefix (ns : List Int) (data : Text) : (writeAll ns data).1 <+: data := by
  induction ns generalizing data with
  | nil => exact List.nil_prefix
  | cons n ns ih =>
    unfold writeAll
    split
    · exact List.nil_prefix
    split
    · exact List.nil_prefix
    · conv => rhs; rw [← List.take_append_drop n.toNat data]
      exact (List.prefix_append_right_inj _).mpr (ih _)

end Dbms.Net
