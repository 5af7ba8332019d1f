import Dbms.Sql.RecogniseStatement

/-! The lexer as a source of tokens: it gets through every text, and the parser on top of it. -/

open Dbms.Core Dbms.Lib

namespace Dbms.Sql

namespace Lexer

theorem skipWs_length (b : Bool) (s : Text) : (skipWs b s).length ≤ s.length := by
  fun_induction skipWs b s with
  | case1 => exact Nat.le_refl _
  | case2 c s _ ih => exact Nat.le_succ_of_le ih
  | case3 c s _ _ ih => exact Nat.le_succ_of_le ih
  | case4 c s _ _ => exact Nat.le_refl _
  | case5 s => exact Nat.le_refl _
  | case6 s _ ih => exact Nat.le_succ_of_le ih
  | case7 c s _ _ ih => exact Nat.le_succ_of_le ih

theorem length_dropWhile_lt {p : Char → Bool} {c : Char} {s : Text} (h : p c = true) :
    ((c :: s).dropWhile p).length < (c :: s).length := by
  rw [List.dropWhile_cons_of_pos h]
  exact Nat.lt_succ_of_le (List.dropWhile_suffix p).length_le

theorem scanString_length (s : Text) : (scanString s).2.length ≤ s.length := by
  unfold scanString
  rw [List.length_tail]
  exact Nat.le_trans (Nat.sub_le _ _) (List.dropWhile_suffix _).length_le

theorem scanNumber_length {c : Char} {s : Text} (h : c.isDigit = true) :
    (scanNumber (c :: s)).2.length ≤ s.length := by
  unfold scanNumber
  have hstamp : isStampChar c = true := by simp [isStampChar, h]
  dsimp only
  split
  · exact Nat.le_of_lt_succ (length_dropWhile_lt hstamp)
  · exact Nat.le_of_lt_succ (length_dropWhile_lt h)

theorem isIdentChar_of_start {c : Char} (h : (c.isAlpha || c = '_') = true) :
    isIdentChar c = true := by
  simp only [Bool.or_eq_true, decide_eq_true_eq] at h
  rcases h with h | h <;> simp [isIdentChar, Char.isAlphanum, h]

theorem scanWord_length {c : Char} {s : Text} (h : (c.isAlpha || c = '_') = true) :
    (scanWord (c :: s)).2.length ≤ s.length :=
  Nat.le_of_lt_succ (length_dropWhile_lt (isIdentChar_of_start h))

def Advances (c : Char) (s : Text) (r : Token × Text) : Prop :=
  (r.2.length ≤ s.length ∨ r = (⟨.eof, []⟩, c :: s)) ∧ (r.1.kind = .ident → r.1.text ≠ [])

theorem advances_symbol {c : Char} {s rest : Text} {k : TokKind} {text : Text}
    (hrest : rest.length ≤ s.length) (hk : k ≠ .ident) : Advances c s (⟨k, text⟩, rest) :=
  ⟨.inl hrest, fun h => absurd h hk⟩

theorem advances_number {c : Char} {s : Text} (h : c.isDigit = true) :
    Advances c s (scanNumber (c :: s)) := by
  refine ⟨.inl (scanNumber_length h), ?_⟩
  unfold scanNumber
  dsimp only
  have hstamp : isStampChar c = true := by simp [isStampChar, h]
  split
  · intro _
    simp [List.takeWhile_cons_of_pos hstamp]
  · intro hkind
    cases hkind

theorem advances_word {c : Char} {s : Text} (h : (c.isAlpha || c = '_') = true) :
    Advances c s (scanWord (c :: s)) := by
  refine ⟨.inl (scanWord_length h), ?_⟩
  unfold scanWord
  dsimp only
  split
  · intro hkind
    cases hkind
  · intro _
    simp [List.takeWhile_cons_of_pos (isIdentChar_of_start h)]

theorem scan_advances (c : Char) (s : Text) : Advances c s (scan c s) := by
  have htail : s.tail.length ≤ s.length := by simp
  have hself : s.length ≤ s.length := Nat.le_refl _
  unfold scan
  refine iteInduction (fun _ => ⟨.inr rfl, by simp⟩) fun _ => ?_
  refine iteInduction (fun _ => advances_symbol hself (by simp)) fun _ => ?_
  refine iteInduction (fun _ => advances_symbol hself (by simp)) fun _ => ?_
  refine iteInduction (fun _ => advances_symbol hself (by simp)) fun _ => ?_
  refine iteInduction (fun _ => advances_symbol hself (by simp)) fun _ => ?_
  refine iteInduction (fun _ => advances_symbol hself (by simp)) fun _ => ?_
  refine iteInduction (fun _ => advances_symbol htail (by simp)) fun _ => ?_
  refine iteInduction (fun _ => advances_symbol htail (by simp)) fun _ => ?_
  refine iteInduction (fun _ => advances_symbol htail (by simp)) fun _ => ?_
  refine iteInduction (fun _ => advances_symbol htail (by simp)) fun _ => ?_
  refine iteInduction (fun _ => advances_symbol hself (by simp)) fun _ => ?_
  refine iteInduction (fun _ => advances_symbol hself (by simp)) fun _ => ?_
  refine iteInduction (fun _ => advances_symbol hself (by simp)) fun _ => ?_
  refine iteInduction (fun _ => advances_symbol (scanString_length s) (by simp)) fun _ => ?_
  refine iteInduction (fun hdigit => advances_number hdigit) fun _ => ?_
  refine iteInduction (fun hword => advances_word hword) fun _ => ?_
  exact advances_symbol hself (by simp)

theorem next_length (s : Text) : (next s).2.length ≤ s.length := by
  have hskip := skipWs_length false s
  unfold next
  cases hs : skipWs false s with
  | nil => exact Nat.zero_le _
  | cons c t =>
    rw [hs] at hskip
    rcases (scan_advances c t).1 with h | h
    · exact Nat.le_trans (Nat.le_succ_of_le h) hskip
    · show (scan c t).2.length ≤ _
      rw [h]
      exact hskip

theorem next_length_lt {s : Text} (h : (next s).1.kind ≠ .eof) :
    (next s).2.length < s.length := by
  have hskip := skipWs_length false s
  unfold next at h ⊢
  cases hs : skipWs false s with
  | nil =>
    rw [hs] at h
    exact absurd rfl h
  | cons c t =>
    rw [hs] at h hskip
    rcases (scan_advances c t).1 with hlt | heof
    · exact Nat.lt_of_le_of_lt hlt hskip
    · exact absurd (congrArg (fun x => x.1.kind) heof) h

theorem next_ident {s : Text} (h : (next s).1.kind = .ident) : (next s).1.text ≠ [] := by
  unfold next at h ⊢
  cases hs : skipWs false s with
  | nil =>
    rw [hs] at h
    cases h
  | cons c t =>
    rw [hs] at h
    exact (scan_advances c t).2 h

end Lexer

def textSource (answer : Text → Except ParseErr Int) : TokenSource Text where
  scan := Lexer.next
  answer := answer
  size := List.length
  solid t := t.kind ≠ .eof
  size_le := Lexer.next_length
  size_lt _ := Lexer.next_length_lt
  solid_of _ := id
  ident_ne _ := Lexer.next_ident

namespace Parser

theorem stollRange_of_lt {q : Text} (h : decimal q < 2 ^ 63) :
    stollRange q = .ok (decimal q : Int) := by
  unfold stollRange Core.stoll
  rw [if_pos h]

theorem stollRange_of_not_lt {q : Text} (h : ¬decimal q < 2 ^ 63) :
    stollRange q = .error .outOfRange := by
  unfold stollRange Core.stoll
  rw [if_neg h]

theorem stollRange_cases (q : Text) :
    stollRange q = .ok (decimal q : Int) ∨ stollRange q = .error .outOfRange := by
  by_cases h : decimal q < 2 ^ 63
  · exact .inl (stollRange_of_lt h)
  · exact .inr (stollRange_of_not_lt h)

theorem reads_source {E : ParseErr → Prop} (hparse : ∀ m, E (.parse m))
    (answer : Text → Except ParseErr Int) (hans : ∀ q e, answer q = .error e → E e) (src : Text) :
    ReadsAt (textSource answer).toSource E src (parseOne (src.length + 1))
      (Grammar.statement (textSource answer)) fun st t => Grammar.goesOn st t = true :=
  Grammar.reads_statement ⟨hparse, hans⟩ src (Nat.lt_succ_self _)

theorem parse_eq_ok {src rest : Text} {st : Statement} : parse src = .ok (st, rest) ↔
    Grammar.statement (textSource stollRange) src st rest ∧
      ¬Grammar.goesOn st (Lexer.next rest).1 = true :=
  (reads_source (E := fun _ => True) (fun _ => trivial) stollRange (fun _ _ _ => trivial) src).iff st rest

theorem parse_ne_stuck (src : Text) : parse src ≠ .error .stuck := by
  have hread : ReadsAt (textSource stollRange).toSource (· ≠ .stuck) src _ _ _ :=
    reads_source (fun _ => by simp) _ (fun q e h => ?_) src
  · exact fun h => hread.error _ h rfl
  · rcases stollRange_cases q with hq | hq
    · cases hq.symm.trans h
    · cases hq.symm.trans h
      simp

/-- The digits that a parser without bounds on integers would read as literals. -/
def literals (src : Text) : List Text :=
  (parseOne (src.length + 1)).asked Lexer.next (fun q => (decimal q : Int)) src

def InRange (src : Text) : Prop := ∀ q ∈ literals src, decimal q < 2 ^ 63

theorem parse_of_inRange {src : Text} (h : InRange src) {e : ParseErr}
    (herr : parse src = .error e) : ∃ m, e = .parse m := by
  have hrun : parse src = _ := Reader.run_of_asked fun q hq => stollRange_of_lt (h q hq)
  have hread := reads_source (E := fun e => ∃ m, e = .parse m) (fun m => ⟨m, rfl⟩)
    (fun q => .ok (decimal q : Int)) (fun _ _ h => by cases h) src
  exact hread.error e (hrun.symm.trans herr)

theorem parse_of_not_inRange {src : Text} (h : ¬InRange src) :
    parse src = .error .outOfRange := by
  apply Reader.run_of_failed stollRange_cases
  simp only [InRange, not_forall] at h
  obtain ⟨q, hq, hlarge⟩ := h
  exact ⟨q, hq, stollRange_of_not_lt hlarge⟩

theorem parse_eq_outOfRange {src : Text} : parse src = .error .outOfRange ↔ ¬InRange src := by
  refine ⟨fun herr h => ?_, parse_of_not_inRange⟩
  obtain ⟨m, hm⟩ := parse_of_inRange h herr
  cases hm

theorem inRange_of_ne {src : Text} (h : parse src ≠ .error .outOfRange) : InRange src := by
  by_contra hlarge
  exact h (parse_of_not_inRange hlarge)

end Parser
end Dbms.Sql
