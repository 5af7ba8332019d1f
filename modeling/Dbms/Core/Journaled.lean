import Dbms.Core.Journal
import Dbms.Core.Numeral

/-! Reading a journal back. -/

namespace Dbms.Core.Journal
variable {file db sql : Text} {tsUs : Nat}

def blankChar (c : Char) : Char := if c = '\n' || c = '\r' || c = '|' then ' ' else c

theorem sanitizeLine_eq (s : Text) : sanitizeLine s = s.map blankChar := rfl

theorem blankChar_ne (c : Char) : blankChar c ≠ '\n' ∧ blankChar c ≠ '\r' ∧ blankChar c ≠ '|' := by
  unfold blankChar
  split
  · decide
  · rename_i h
    simpa [not_or, and_assoc] using h

theorem sanitizeLine_ne {s : Text} : '\n' ∉ sanitizeLine s ∧ '|' ∉ sanitizeLine s := by
  constructor
  · intro h
    obtain ⟨c, -, hc⟩ := List.mem_map.mp h
    exact (blankChar_ne c).1 hc
  · intro h
    obtain ⟨c, -, hc⟩ := List.mem_map.mp h
    exact (blankChar_ne c).2.2 hc

theorem sanitizeLine_eq_self {s : Text} :
    sanitizeLine s = s ↔ ∀ c ∈ s, c ≠ '\n' ∧ c ≠ '\r' ∧ c ≠ '|' := by
  constructor
  · intro h c hc
    rw [← h] at hc
    obtain ⟨x, -, rfl⟩ := List.mem_map.mp hc
    exact blankChar_ne x
  · intro h
    rw [sanitizeLine_eq]
    refine (List.map_congr_left fun c hc => ?_).trans s.map_id
    simp [blankChar, h c hc]

def recordLine (tsUs : Nat) (db sql : Text) : Text :=
  natText tsUs ++ '|' :: (sanitizeLine db ++ '|' :: sanitizeLine sql)

theorem append_eq (file : Text) (tsUs : Nat) (db sql : Text) :
    append .all file tsUs db sql = file ++ recordLine tsUs db sql ++ ['\n'] := by
  simp [append, recordLine, Stored.part]

theorem notMem_natText {c : Char} (hc : c.isDigit = false) (n : Nat) : c ∉ natText n := by
  intro h
  rw [natText_isDigit n c h] at hc
  cases hc

theorem notMem_recordLine : '\n' ∉ recordLine tsUs db sql := by
  have htext := @notMem_natText '\n' rfl tsUs
  simp [recordLine, htext, sanitizeLine_ne.1]

theorem readLine_recordLine (h : tsUs < 2 ^ 64) :
    readLine (recordLine tsUs db sql) = some ⟨tsUs, sanitizeLine db, sanitizeLine sql⟩ := by
  unfold readLine recordLine
  simp only [idxOf?_append (@notMem_natText '|' rfl tsUs)]
  have hdrop : (natText tsUs ++ '|' :: (sanitizeLine db ++ '|' :: sanitizeLine sql)).drop
      ((natText tsUs).length + 1) = sanitizeLine db ++ '|' :: sanitizeLine sql := by
    rw [← List.drop_drop, List.drop_left]
    rfl
  have hrest : (sanitizeLine db ++ '|' :: sanitizeLine sql).drop ((sanitizeLine db).length + 1) =
      sanitizeLine sql := by
    rw [← List.drop_drop, List.drop_left]
    rfl
  rw [hdrop, List.take_left, idxOf?_append sanitizeLine_ne.2, stoull_natText h]
  simp only [hrest, List.take_left]

theorem read_newline (s rest : Text) : read (s ++ '\n' :: rest) = read s ++ read rest := by
  unfold read
  rw [List.splitOn_append_cons_self, List.filterMap_append]

theorem read_line {s : Text} (h : '\n' ∉ s) : read s = (readLine s).toList := by
  unfold read
  rw [List.splitOn_eq_singleton h]
  cases hs : readLine s with
  | none => exact List.filterMap_cons_none hs
  | some r => exact List.filterMap_cons_some hs

def Complete (file : Text) : Prop := file = [] ∨ ∃ s, file = s ++ ['\n']

theorem read_append (hfile : Complete file) (h : tsUs < 2 ^ 64) :
    read (append .all file tsUs db sql) = read file ++ [⟨tsUs, sanitizeLine db, sanitizeLine sql⟩] := by
  have hline : read (recordLine tsUs db sql ++ ['\n']) =
      [⟨tsUs, sanitizeLine db, sanitizeLine sql⟩] := by
    rw [read_newline, read_line notMem_recordLine, readLine_recordLine h]
    rfl
  rw [append_eq, List.append_assoc]
  rcases hfile with rfl | ⟨s, rfl⟩
  · exact hline
  · have hold : read (s ++ ['\n']) = read s := (read_newline s []).trans (List.append_nil _)
    rw [hold, List.append_assoc, List.singleton_append, read_newline, hline]

theorem complete_append (file : Text) (tsUs : Nat) (db sql : Text) :
    Complete (append .all file tsUs db sql) := .inr ⟨_, append_eq ..⟩

end Dbms.Core.Journal
