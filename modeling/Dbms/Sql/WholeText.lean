import Dbms.Sql.TextSource

/-! When a parsed statement is all of its text. -/

open Dbms.Core Dbms.Lib

namespace Dbms.Sql

def Blank (rest : Text) : Prop :=
  Lexer.skipWs false rest = [] ∨
    ∃ rest', Lexer.skipWs false rest = ';' :: rest' ∧ Lexer.skipWs false rest' = []

def AtEnd (rest : Text) : Prop := Lexer.next rest = (⟨.eof, []⟩, [])

/-- If the text parses, nothing of it is left over. -/
def WholeText (src : Text) : Prop := ∀ st rest, Parser.parse src = .ok (st, rest) → Blank rest

namespace Lexer

/-- A character is never taken for the end of the text, and only one is a semicolon. -/
def Visible (c : Char) (s : Text) (r : Token × Text) : Prop :=
  r ≠ (⟨.eof, []⟩, []) ∧ (r.1.kind = .semicolon ↔ c = ';') ∧ (c = ';' → r.2 = s)

theorem visible_symbol {c : Char} {s rest : Text} {k : TokKind} {text : Text} (hk : k ≠ .eof)
    (hsemi : k ≠ .semicolon) (hc : c ≠ ';') : Visible c s (⟨k, text⟩, rest) := by
  refine ⟨fun h => ?_, iff_of_false hsemi hc, fun h => absurd h hc⟩
  cases h
  exact hk rfl

theorem visible_number {c : Char} {s : Text} (hc : c ≠ ';') : Visible c s (scanNumber (c :: s)) := by
  unfold scanNumber
  dsimp only
  split
  · exact visible_symbol (by simp) (by simp) hc
  · exact visible_symbol (by simp) (by simp) hc

theorem visible_word {c : Char} {s : Text} (hc : c ≠ ';') : Visible c s (scanWord (c :: s)) := by
  unfold scanWord
  dsimp only
  split
  · exact visible_symbol (by simp) (by simp) hc
  · exact visible_symbol (by simp) (by simp) hc

theorem scan_visible (c : Char) (s : Text) : Visible c s (scan c s) := by
  by_cases hc : c = ';'
  · subst hc
    exact ⟨by simp [scan, nul], by simp [scan, nul], fun _ => by simp [scan, nul]⟩
  unfold scan
  refine iteInduction (fun _ => ⟨by simp, by simp [hc], fun h => absurd h hc⟩) fun _ => ?_
  refine iteInduction (fun _ => visible_symbol (by simp) (by simp) hc) fun _ => ?_
  refine iteInduction (fun _ => visible_symbol (by simp) (by simp) hc) fun _ => ?_
  refine iteInduction (fun _ => visible_symbol (by simp) (by simp) hc) fun _ => ?_
  refine iteInduction (fun _ => visible_symbol (by simp) (by simp) hc) fun _ => ?_
  refine iteInduction (fun h => absurd h hc) fun _ => ?_
  refine iteInduction (fun _ => visible_symbol (by simp) (by simp) hc) fun _ => ?_
  refine iteInduction (fun _ => visible_symbol (by simp) (by simp) hc) fun _ => ?_
  refine iteInduction (fun _ => visible_symbol (by simp) (by simp) hc) fun _ => ?_
  refine iteInduction (fun _ => visible_symbol (by simp) (by simp) hc) fun _ => ?_
  refine iteInduction (fun _ => visible_symbol (by simp) (by simp) hc) fun _ => ?_
  refine iteInduction (fun _ => visible_symbol (by simp) (by simp) hc) fun _ => ?_
  refine iteInduction (fun _ => visible_symbol (by simp) (by simp) hc) fun _ => ?_
  refine iteInduction (fun _ => visible_symbol (by simp) (by simp) hc) fun _ => ?_
  refine iteInduction (fun _ => visible_number hc) fun _ => ?_
  refine iteInduction (fun _ => visible_word hc) fun _ => ?_
  exact ⟨by simp, by simp [hc], fun h => absurd h hc⟩

end Lexer

theorem atEnd_iff {rest : Text} : AtEnd rest ↔ Lexer.skipWs false rest = [] := by
  unfold AtEnd Lexer.next
  cases Lexer.skipWs false rest with
  | nil => simp
  | cons c s => simpa using (Lexer.scan_visible c s).1

theorem semicolon_iff {rest rest' : Text} :
    (Lexer.next rest).1.kind = .semicolon ∧ (Lexer.next rest).2 = rest' ↔
      Lexer.skipWs false rest = ';' :: rest' := by
  unfold Lexer.next
  cases Lexer.skipWs false rest with
  | nil => simp
  | cons c s =>
    obtain ⟨-, hkind, hrest⟩ := Lexer.scan_visible c s
    dsimp only
    rw [hkind, List.cons.injEq]
    exact and_congr_right fun hc => by rw [hrest hc]

theorem blank_iff {rest : Text} : Blank rest ↔ AtEnd rest ∨
    ((Lexer.next rest).1.kind = .semicolon ∧ AtEnd (Lexer.next rest).2) := by
  unfold Blank
  rw [atEnd_iff]
  apply or_congr_right
  constructor
  · rintro ⟨rest', hsemi, hend⟩
    obtain ⟨hkind, rfl⟩ := semicolon_iff.mpr hsemi
    exact ⟨hkind, atEnd_iff.mpr hend⟩
  · rintro ⟨hkind, hend⟩
    exact ⟨_, semicolon_iff.mp ⟨hkind, rfl⟩, atEnd_iff.mp hend⟩

/-- Nothing is left over exactly if every statement that the text begins with either is carried on
by the next token or is followed by the end, perhaps after one semicolon. -/
theorem whole_iff (src : Text) : WholeText src ↔
    ∀ st rest, Grammar.statement (textSource Parser.stollRange) src st rest →
      Grammar.goesOn st (Lexer.next rest).1 = true ∨ AtEnd rest ∨
        ((Lexer.next rest).1.kind = .semicolon ∧ AtEnd (Lexer.next rest).2) := by
  unfold WholeText
  constructor
  · intro h st rest hst
    by_cases hgoes : Grammar.goesOn st (Lexer.next rest).1 = true
    · exact .inl hgoes
    · exact .inr (blank_iff.mp (h st rest (Parser.parse_eq_ok.mpr ⟨hst, hgoes⟩)))
  · intro h st rest hparse
    obtain ⟨hst, hgoes⟩ := Parser.parse_eq_ok.mp hparse
    exact blank_iff.mpr ((h st rest hst).resolve_left hgoes)

theorem parse_misspelt : Parser.parse "DELETE FROM t WHRE id = 1".toList =
    .ok (.delete ⟨[], ['t']⟩ {}, " WHRE id = 1".toList) := by decide +kernel

/-- A misspelt WHERE. -/
theorem not_whole : ¬ ∀ src : Text, WholeText src := by
  intro hall
  rcases hall _ _ _ parse_misspelt with h | ⟨rest', h, -⟩
  · revert h
    decide
  · cases h

end Dbms.Sql
