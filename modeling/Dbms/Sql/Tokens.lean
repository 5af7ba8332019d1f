import Dbms.Sql.Lexeme

/-! The tokens of a text, and texts that spell given tokens. -/

open Dbms.Core

namespace Dbms.Sql.Lexer

/-- What repeated calls of `next` return, up to the first `Eof`; the number bounds the calls. -/
def tokensUpTo : Nat → Text → List Token
  | 0, _ => []
  | n + 1, s =>
    if (next s).1.kind = .eof then [(next s).1] else (next s).1 :: tokensUpTo n (next s).2

def tokens (s : Text) : List Token := tokensUpTo (s.length + 1) s

theorem tokensUpTo_eq {n m : Nat} {s : Text} (hn : s.length < n) (hm : s.length < m) :
    tokensUpTo n s = tokensUpTo m s := by
  induction n generalizing m s with
  | zero => cases hn
  | succ n ih =>
    cases m with
    | zero => cases hm
    | succ m =>
      unfold tokensUpTo
      by_cases h : (next s).1.kind = .eof
      · rw [if_pos h, if_pos h]
      · have hlt := next_length_lt h
        rw [if_neg h, if_neg h, ih (m := m) (by omega) (by omega)]

theorem tokens_of_eof {s : Text} (h : (next s).1.kind = .eof) : tokens s = [(next s).1] := if_pos h

theorem tokens_of_next {s r : Text} {t : Token} (h : next s = (t, r)) (ht : t.kind ≠ .eof) :
    tokens s = t :: tokens r := by
  have hkind : ¬(next s).1.kind = .eof := by rwa [h]
  have hlt : r.length < s.length := by
    have hnext := next_length_lt hkind
    rwa [h] at hnext
  unfold tokens
  rw [tokensUpTo, if_neg hkind, h, tokensUpTo_eq (m := r.length + 1) hlt (Nat.lt_succ_self _)]

/-! Whitespace and comments. -/

def inComment (c : Char) : Bool := c ≠ '\n' && c ≠ nul

/-- A mix of whitespace and comments that newlines end. -/
inductive Gap : Text → Prop where
  | nil : Gap []
  | space {c : Char} {g : Text} (hc : isSpace c = true) : Gap g → Gap (c :: g)
  | comment {body g : Text} (hbody : ∀ c ∈ body, inComment c = true) :
      Gap g → Gap ('-' :: '-' :: (body ++ '\n' :: g))

theorem skipWs_comment {body : Text} (hbody : ∀ c ∈ body, inComment c = true) (s : Text) :
    skipWs true (body ++ s) = skipWs true s := by
  induction body with
  | nil => rfl
  | cons c body ih =>
    have hc := hbody c (List.mem_cons_self ..)
    simp only [inComment, Bool.and_eq_true, ne_eq, decide_not, Bool.not_eq_true',
      decide_eq_false_iff_not] at hc
    rw [List.cons_append, skipWs, if_neg hc.2, if_neg hc.1]
    exact ih fun x hx => hbody x (List.mem_cons_of_mem _ hx)

theorem skipWs_dashes (s : Text) : skipWs false ('-' :: '-' :: s) = skipWs true s := by
  have hdash : skipWs true ('-' :: s) = skipWs true s := by simp [skipWs, nul]
  rw [← hdash]
  simp [skipWs, isSpace]

theorem Gap.skipWs {g : Text} (h : Gap g) (s : Text) : skipWs false (g ++ s) = skipWs false s := by
  induction h with
  | nil => rfl
  | space hc _ ih =>
    rw [List.cons_append, Lexer.skipWs, if_pos hc]
    exact ih
  | comment hbody _ ih =>
    simp only [List.cons_append, List.append_assoc]
    rw [skipWs_dashes, skipWs_comment hbody, Lexer.skipWs, if_neg (by decide), if_pos rfl]
    exact ih

theorem start_of_scan {c : Char} {s : Text} (h : (scan c s).1.kind ≠ .eof) :
    isSpace c = false ∧ c ≠ '-' := by
  constructor
  · by_contra hspace
    simp only [Bool.not_eq_false, isSpace, Bool.or_eq_true, decide_eq_true_eq] at hspace
    rcases hspace with ((rfl | rfl) | rfl) | rfl <;> exact h rfl
  · rintro rfl
    exact h rfl

theorem skipWs_of_scan {c : Char} {s : Text} (h : (scan c s).1.kind ≠ .eof) :
    skipWs false (c :: s) = c :: s := by
  obtain ⟨hspace, hdash⟩ := start_of_scan h
  rw [skipWs, if_neg (by simp [hspace]), if_neg (by simp [hdash])]

theorem next_lexeme {g w r : Text} {t : Token} (hg : Gap g) (h : Lexeme r t w) :
    next (g ++ w ++ r) = (t, r) := by
  obtain ⟨c, x, rfl, hscan⟩ := h.scan
  unfold next
  rw [List.append_assoc, hg.skipWs, List.cons_append, skipWs_of_scan (by rw [hscan]; exact h.kind_ne)]
  exact hscan

/-! Spellings. -/

def symbols : List Token :=
  [⟨.star, ['*']⟩, ⟨.comma, [',']⟩, ⟨.lParen, ['(']⟩, ⟨.rParen, [')']⟩, ⟨.semicolon, [';']⟩,
    ⟨.eq, ['=', '=']⟩, ⟨.ne, ['!', '=']⟩, ⟨.le, ['<', '=']⟩, ⟨.ge, ['>', '=']⟩, ⟨.lt, ['<']⟩,
    ⟨.gt, ['>']⟩, ⟨.eq, ['=']⟩]

inductive Spelling : Token → Text → Prop where
  | keyword {w : Text} (h : toUpper w ∈ kws) : Spelling ⟨.kw, toUpper w⟩ w
  | name {c : Char} {w : Text} (hc : isStart c = true) (hw : ∀ x ∈ w, isIdentChar x = true)
      (hkw : toUpper (c :: w) ∉ kws) : Spelling ⟨.ident, c :: w⟩ (c :: w)
  | stamp {c : Char} {w : Text} (hc : c.isDigit = true) (hw : ∀ x ∈ w, isStampChar x = true)
      (hdash : '-' ∈ w) (hdot : '.' ∈ w) : Spelling ⟨.ident, c :: w⟩ (c :: w)
  | number {c : Char} {w : Text} (hw : ∀ x ∈ c :: w, x.isDigit = true) :
      Spelling ⟨.number, c :: w⟩ (c :: w)
  | string {w : Text} (hw : ∀ x ∈ w, x ≠ quote ∧ x ≠ nul) :
      Spelling ⟨.string, w⟩ (quote :: (w ++ [quote]))
  | symbol {t : Token} (h : t ∈ symbols) : Spelling t t.text

theorem kws_upper : (kws.all fun k => !k.isEmpty && k.all Char.isUpper) = true := by
  decide +kernel

theorem upper_of_mem_kws {k : Text} (h : k ∈ kws) : k ≠ [] ∧ ∀ c ∈ k, c.isUpper = true := by
  have hk := List.all_eq_true.mp kws_upper k h
  simpa using hk

theorem alpha_of_toUpper {c : Char} (h : c.toUpper.isUpper = true) : c.isAlpha = true := by
  unfold Char.toUpper at h
  split at h
  · rename_i hlower
    have hlow : c.isLower = true :=
      Bool.and_eq_true_iff.mpr ⟨decide_eq_true hlower.1, decide_eq_true hlower.2⟩
    exact Bool.or_eq_true_iff.mpr (.inr hlow)
  · exact Bool.or_eq_true_iff.mpr (.inl h)

theorem Spelling.lexeme {t : Token} {w r : Text} (h : Spelling t w) (hr : lead r = []) :
    Lexeme r t w := by
  have htake : ∀ p : Char → Bool, (∀ c, p c = true → isGlue c = true) → r.takeWhile p = [] :=
    fun p hp => @takeWhile_lead p hp r [] hr
  cases h with
  | keyword h =>
    obtain ⟨hne, hupper⟩ := upper_of_mem_kws h
    have halpha : ∀ y ∈ w, y.isAlpha = true := fun y hy =>
      alpha_of_toUpper (hupper _ (List.mem_map_of_mem hy))
    cases w with
    | nil => exact absurd rfl hne
    | cons c x =>
      have hident : ∀ y ∈ c :: x, isIdentChar y = true := fun y hy => by
        simp [isIdentChar, Char.isAlphanum, halpha y hy]
      have hstart : isStart c = true := by simp [isStart, halpha c (List.mem_cons_self ..)]
      have hword := lexeme_word hstart hident (htake _ fun _ => glue_of_ident)
      rwa [scanWord, List.takeWhile_eq_self_iff.mpr hident, if_pos h] at hword
  | @name c x hc hw hkw =>
    have hident : ∀ y ∈ c :: x, isIdentChar y = true := by
      intro y hy
      rcases List.mem_cons.mp hy with rfl | hy
      · exact isIdentChar_of_start hc
      · exact hw y hy
    have hword := lexeme_word hc hident (htake _ fun _ => glue_of_ident)
    rwa [scanWord, List.takeWhile_eq_self_iff.mpr hident, if_neg hkw] at hword
  | @stamp c x hc hw hdash hdot =>
    apply lexeme_stamp hc _ (List.mem_cons_of_mem _ hdash) (List.mem_cons_of_mem _ hdot)
      (htake _ fun _ => glue_of_stamp)
    intro y hy
    rcases List.mem_cons.mp hy with rfl | hy
    · simp [isStampChar, hc]
    · exact hw y hy
  | number hw => exact lexeme_digits hw (htake _ fun _ => glue_of_stamp)
  | @string x hw =>
    exact .string (fun y hy => by simp [inString, hw y hy]) rfl
  | symbol h =>
    have hne : r.head? ≠ some '=' := fun heq => by
      cases (@head_eq_of_lead r [] hr).mp heq
    simp only [symbols, List.mem_cons, List.not_mem_nil, or_false] at h
    rcases h with rfl | rfl | rfl | rfl | rfl | rfl | rfl | rfl | rfl | rfl | rfl | rfl
    iterate 4 exact lexeme_symbol (by simp [Token.Plain]) rfl fun s => by simp [scan, nul]
    · exact .semicolon
    iterate 4 exact lexeme_operator (by simp [Token.Plain]) rfl fun s => by simp [scan, nul]
    iterate 3 exact lexeme_lone (by simp [Token.Plain]) rfl hne fun s hs => by simp [scan, nul, hs]

/-- Tokens written one after the other, with a separator between neighbours: a whitespace character
and a gap. -/
inductive Renders : List Token → Text → Prop where
  | nil : Renders [] []
  | one {t : Token} {w : Text} (hw : Spelling t w) : Renders [t] w
  | cons {t t' : Token} {ts : List Token} {w g s : Text} {c : Char} (hw : Spelling t w)
      (hc : isSpace c = true) (hg : Gap g) : Renders (t' :: ts) s →
      Renders (t :: t' :: ts) (w ++ c :: (g ++ s))

theorem lead_of_space {c : Char} (hc : isSpace c = true) (s : Text) : lead (c :: s) = [] := by
  have hglue : isGlue c = false := by
    simp only [isSpace, Bool.or_eq_true, decide_eq_true_eq] at hc
    rcases hc with ((rfl | rfl) | rfl) | rfl <;> rfl
  simp [lead, hglue]

theorem tokens_of_lexeme {g w r : Text} {t : Token} (hg : Gap g) (h : Lexeme r t w) :
    tokens (g ++ w ++ r) = t :: tokens r :=
  tokens_of_next (next_lexeme hg h) h.kind_ne

theorem Renders.tokens {ts : List Token} {g s : Text} (h : Renders ts s) (hg : Gap g) :
    Lexer.tokens (g ++ s) = ts ++ [⟨.eof, []⟩] := by
  induction h generalizing g with
  | nil =>
    have hend : next (g ++ []) = (⟨.eof, []⟩, []) := by
      unfold next
      rw [hg.skipWs]
      rfl
    rw [tokens_of_eof (by rw [hend]), hend]
    rfl
  | @one t w hw =>
    have hfirst := tokens_of_lexeme hg (hw.lexeme (r := []) rfl)
    rw [List.append_nil] at hfirst
    rw [hfirst]
    rfl
  | @cons t t' ts w g' s c hw hc hg' _ ih =>
    have hfirst := tokens_of_lexeme hg (hw.lexeme (lead_of_space hc (g' ++ s)))
    rw [List.append_assoc] at hfirst
    rw [hfirst, ← List.cons_append, ih (.space hc hg')]
    rfl

/-- The lexer recovers every list of tokens from its renderings. -/
theorem tokens_of_renders {ts : List Token} {s : Text} (h : Renders ts s) :
    tokens s = ts ++ [⟨.eof, []⟩] := h.tokens .nil

theorem tokens_of_renders_select :
    tokens ("seLect".toList ++ ' ' :: ('-' :: '-' :: (['a', 'l', 'l'] ++ ['\n', ' ']) ++ ['*'])) =
      [⟨.kw, toUpper "seLect".toList⟩, ⟨.star, ['*']⟩] ++ [⟨.eof, []⟩] := by
  have hword : Spelling ⟨.kw, toUpper "seLect".toList⟩ "seLect".toList :=
    .keyword (by decide +kernel)
  have hstar : Spelling ⟨.star, ['*']⟩ ['*'] := .symbol (List.mem_cons_self ..)
  have hgap : Gap ('-' :: '-' :: (['a', 'l', 'l'] ++ ['\n', ' '])) :=
    .comment (by simp [inComment, nul]) (.space rfl .nil)
  exact tokens_of_renders (.cons hword rfl hgap (.one hstar))

end Dbms.Sql.Lexer
