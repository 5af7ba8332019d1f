import Dbms.Sql.Tokens

/-! A text as whitespace, comments and tokens, and what blanks put for some of its characters change. -/

open Dbms.Core

namespace Dbms.Sql.Lexer

inductive Item where
  | space (c : Char)
  | comment (body : Text)
  | token (t : Token) (w : Text)

def Item.text : Item → Text
  | .space c => [c]
  | .comment body => '-' :: '-' :: body
  | .token _ w => w

def Item.token? : Item → Option Token
  | .token t _ => some t
  | _ => none

def textOf (its : List Item) : Text := its.flatMap Item.text

def tokensOf (its : List Item) : List Token := its.filterMap Item.token?

/-- The text is written as the items, and `r` behind them. -/
inductive Items (r : Text) : List Item → Text → Prop where
  | nil : Items r [] r
  | space {c : Char} {its : List Item} {s : Text} (hc : isSpace c = true) :
      Items r its s → Items r (.space c :: its) (c :: s)
  | comment {body : Text} {its : List Item} {s : Text} (hbody : ∀ c ∈ body, inComment c = true)
      (hs : ∀ c ∈ s.head?, inComment c = false) :
      Items r its s → Items r (.comment body :: its) ('-' :: '-' :: (body ++ s))
  | token {t : Token} {w : Text} {its : List Item} {s : Text} (h : Lexeme s t w) :
      Items r its s → Items r (.token t w :: its) (w ++ s)

section Items
variable {r m s : Text} {its its' : List Item} {t : Token}

theorem Items.text_eq (h : Items r its s) : s = textOf its ++ r := by
  induction h with
  | nil => rfl
  | space _ _ ih | comment _ _ _ ih | token _ _ ih => simp [textOf, Item.text, ih]

theorem Items.append (h : Items m its s) (h' : Items r its' m) : Items r (its ++ its') s := by
  induction h with
  | nil => exact h'
  | space hc _ ih => exact .space hc ih
  | comment hbody hs _ ih => exact .comment hbody hs ih
  | token hlex _ ih => exact .token hlex ih

theorem Lexeme.head {w : Text} (h : Lexeme r t w) : ∃ c x, w = c :: x ∧ isSpace c = false ∧ c ≠ '-' ∧
    Lexer.scan c (x ++ r) = (t, r) := by
  obtain ⟨c, x, rfl, hscan⟩ := h.scan
  obtain ⟨hspace, hdash⟩ := start_of_scan (c := c) (s := x ++ r) (by rw [hscan]; exact h.kind_ne)
  exact ⟨c, x, rfl, hspace, hdash, hscan⟩

theorem split_unique {p : Char → Bool} {x x' y y' : Text} (h : x ++ y = x' ++ y')
    (hx : ∀ c ∈ x, p c = true) (hx' : ∀ c ∈ x', p c = true) (hy : ∀ c ∈ y.head?, p c = false)
    (hy' : ∀ c ∈ y'.head?, p c = false) : x = x' ∧ y = y' := by
  have hrun : ∀ {x y : Text}, (∀ c ∈ x, p c = true) → (∀ c ∈ y.head?, p c = false) →
      (x ++ y).takeWhile p = x := by
    intro x y hx hy
    refine (run_append hx ?_).1
    cases y with
    | nil => rfl
    | cons c y => rw [List.takeWhile_cons_of_neg (by simp [hy c rfl])]
  have heq : x = x' := by rw [← hrun hx hy, h, hrun hx' hy']
  subst heq
  exact ⟨rfl, List.append_cancel_left h⟩

theorem Items.unique (h : Items [] its s) (h' : Items [] its' s) : its = its' := by
  -- The first character tells the kind of the item, and the item tells its end.
  induction h generalizing its' with
  | nil =>
    generalize hs : ([] : Text) = u at h'
    cases h' with
    | nil => rfl
    | space _ _ | comment _ _ _ => cases hs
    | token hlex _ =>
      obtain ⟨c, x, rfl, -⟩ := hlex.head
      cases hs
  | @space c its s hc _ ih =>
    generalize hs : c :: s = u at h'
    cases h' with
    | nil => cases hs
    | space _ hrest =>
      cases hs
      rw [ih hrest]
    | comment _ _ _ =>
      cases hs
      cases hc
    | token hlex _ =>
      obtain ⟨c', x, rfl, hspace, -⟩ := hlex.head
      cases hs
      rw [hc] at hspace
      cases hspace
  | @comment body its s hbody hs _ ih =>
    generalize hu : '-' :: '-' :: (body ++ s) = u at h'
    cases h' with
    | nil => cases hu
    | space hc _ =>
      cases hu
      cases hc
    | comment hbody' hs' hrest =>
      simp only [List.cons.injEq, true_and] at hu
      obtain ⟨rfl, rfl⟩ := split_unique hu hbody hbody' hs hs'
      rw [ih hrest]
    | token hlex _ =>
      obtain ⟨c', x, rfl, -, hdash, -⟩ := hlex.head
      exact absurd (List.cons.inj hu).1.symm hdash
  | @token t w its s hlex _ ih =>
    obtain ⟨c, x, rfl, hspace, hdash, hscan⟩ := hlex.head
    generalize hu : c :: x ++ s = u at h'
    cases h' with
    | nil => cases hu
    | space hc _ =>
      cases hu
      rw [hspace] at hc
      cases hc
    | comment _ _ _ => exact absurd (List.cons.inj hu).1 hdash
    | token hlex' hrest =>
      obtain ⟨c', x', rfl, -, -, hscan'⟩ := hlex'.head
      simp only [List.cons_append, List.cons.injEq] at hu
      obtain ⟨rfl, hu⟩ := hu
      rw [hu, hscan'] at hscan
      cases hscan
      obtain rfl := List.append_cancel_right hu
      rw [ih hrest]

theorem items_of_skipWs (b : Bool) (s : Text) : ∃ body m its, s = body ++ m ∧
    (∀ c ∈ body, inComment c = true) ∧ (b = false → body = []) ∧
    (b = true → ∀ c ∈ m.head?, inComment c = false) ∧ Items (skipWs b s) its m ∧
    tokensOf its = [] := by
  fun_induction skipWs b s with
  | case1 => exact ⟨[], [], [], rfl, by simp, by simp, by simp, .nil, rfl⟩
  | case2 c s hc ih =>
    obtain ⟨body, m, its, rfl, -, hbody, -, hits, htoks⟩ := ih
    obtain rfl := hbody rfl
    exact ⟨[], _, _, rfl, by simp, by simp, by simp, .space hc hits, htoks⟩
  | case3 c s _ hc ih =>
    obtain ⟨body, m, its, rfl, hbody, -, hm, hits, htoks⟩ := ih
    simp only [Bool.and_eq_true, decide_eq_true_eq] at hc
    obtain ⟨rfl, hhead⟩ := hc
    -- the second dash is in the comment
    obtain ⟨body, rfl⟩ : ∃ body', body = '-' :: body' := by
      cases body with
      | nil => cases hm rfl '-' hhead
      | cons c body => exact ⟨body, by rw [Option.some.inj hhead]⟩
    refine ⟨[], _, .comment body :: its, rfl, by simp, by simp, by simp, ?_, htoks⟩
    exact .comment (fun c hc => hbody c (List.mem_cons_of_mem _ hc)) (hm rfl) hits
  | case4 c s _ _ => exact ⟨[], _, [], rfl, by simp, by simp, by simp, .nil, rfl⟩
  | case5 s =>
    refine ⟨[], _, [], rfl, by simp, by simp, ?_, .nil, rfl⟩
    intro _ c hc
    cases hc
    rfl
  | case6 s _ ih =>
    obtain ⟨body, m, its, rfl, -, hbody, -, hits, htoks⟩ := ih
    obtain rfl := hbody rfl
    refine ⟨[], _, .space '\n' :: its, rfl, by simp, by simp, ?_, .space rfl hits, htoks⟩
    intro _ c hc
    cases hc
    rfl
  | case7 c s hnul hline ih =>
    obtain ⟨body, m, its, rfl, hbody, -, hm, hits, htoks⟩ := ih
    refine ⟨c :: body, m, its, rfl, ?_, by simp, hm, hits, htoks⟩
    intro x hx
    rcases List.mem_cons.mp hx with rfl | hx
    · simp [inComment, hnul, hline]
    · exact hbody x hx

theorem tokens_congr {s' : Text} (h : skipWs false s = skipWs false s') : tokens s = tokens s' := by
  have hnext : next s = next s' := by
    unfold next
    rw [h]
  by_cases heof : (next s).1.kind = .eof
  · rw [tokens_of_eof heof, tokens_of_eof (hnext ▸ heof), hnext]
  · cases hs : next s with
    | mk t r =>
      rw [hs] at heof
      exact (tokens_of_next hs heof).trans (tokens_of_next (hnext ▸ hs) heof).symm

theorem tokens_space {c : Char} (hc : isSpace c = true) (s : Text) : tokens (c :: s) = tokens s := by
  apply tokens_congr
  rw [skipWs, if_pos hc]

theorem skipWs_comment_end (hs : ∀ c ∈ s.head?, inComment c = false) :
    skipWs true s = skipWs false s := by
  cases s with
  | nil => rfl
  | cons c s =>
    have hc : c = '\n' ∨ c = nul := by
      have hend := hs c rfl
      simpa [inComment, imp_iff_not_or, or_comm] using hend
    rcases hc with rfl | rfl
    · rfl
    · rfl

theorem tokens_comment {body : Text} (hbody : ∀ c ∈ body, inComment c = true)
    (hs : ∀ c ∈ s.head?, inComment c = false) : tokens ('-' :: '-' :: (body ++ s)) = tokens s := by
  apply tokens_congr
  rw [skipWs_dashes, skipWs_comment hbody, skipWs_comment_end hs]

theorem tokens_token {w : Text} (h : Lexeme s t w) : tokens (w ++ s) = t :: tokens s :=
  tokens_of_lexeme .nil h

theorem Items.tokens (h : Items r its s) : Lexer.tokens s = tokensOf its ++ Lexer.tokens r := by
  induction h with
  | nil => rfl
  | space hc _ ih => rw [tokens_space hc, ih]; rfl
  | comment hbody hs _ ih => rw [tokens_comment hbody hs, ih]; rfl
  | token hlex _ ih => rw [tokens_token hlex, ih]; rfl

end Items

/-! Blanks for characters that end or separate nothing inside a token. -/

structure Blanking (f : Char → Char) : Prop where
  keeps : ∀ c, isSolid c = true ∨ inString c = false ∨ c = ';' → f c = c
  blanks : ∀ c, f c = c ∨ f c = ' '

def blankToken (f : Char → Char) (t : Token) : Token :=
  if t.kind = .string then ⟨.string, t.text.map f⟩ else t

section Blanking
variable {f : Char → Char} {r r' w : Text} {t : Token}

theorem Blanking.isGlue_eq (hf : Blanking f) (c : Char) : isGlue (f c) = isGlue c := by
  cases h : isGlue c with
  | true => rw [hf.keeps c (.inl (by simp [isSolid, h])), h]
  | false =>
    rcases hf.blanks c with hc | hc
    · rw [hc, h]
    · rw [hc]
      rfl

theorem Blanking.inString_eq (hf : Blanking f) (c : Char) : inString (f c) = inString c := by
  cases h : inString c with
  | false => rw [hf.keeps c (.inr (.inl h)), h]
  | true =>
    rcases hf.blanks c with hc | hc
    · rw [hc, h]
    · rw [hc]
      rfl

theorem map_eq_self {l : Text} (h : ∀ c ∈ l, f c = c) : l.map f = l :=
  (List.map_congr_left h).trans l.map_id

theorem Blanking.lead_eq (hf : Blanking f) (r : Text) : lead (r.map f) = lead r := by
  unfold lead
  rw [List.takeWhile_map]
  have hglue : (isGlue ∘ f) = isGlue := funext hf.isGlue_eq
  rw [hglue]
  apply map_eq_self
  intro c hc
  exact hf.keeps c (.inl (by simp [isSolid, List.mem_takeWhile_imp hc]))

theorem Lexeme.last (h : Lexeme r t w) : ∃ w' e, w = w' ++ [e] ∧ isSpace e = false := by
  have hspace : ∀ e, isSolid e = true ∨ inString e = false → isSpace e = false := by
    intro e he
    by_contra hsp
    simp only [Bool.not_eq_false, isSpace, Bool.or_eq_true, decide_eq_true_eq] at hsp
    rcases hsp with ((rfl | rfl) | rfl) | rfl <;> revert he <;> decide
  cases h with
  | semicolon => exact ⟨[], ';', rfl, rfl⟩
  | @solid t c x _ hsolid _ =>
    have hlast := List.getLast_mem (l := c :: x) (by simp)
    exact ⟨_, _, (List.dropLast_append_getLast (by simp)).symm, hspace _ (.inl (hsolid _ hlast))⟩
  | @string w e _ he => exact ⟨quote :: w, e, rfl, hspace e (.inr he)⟩

theorem Lexeme.map (hf : Blanking f) (h : Lexeme r t w) (hr : lead r' = lead r) :
    Lexeme r' (blankToken f t) (w.map f) := by
  cases h with
  | semicolon =>
    rw [List.map_singleton, hf.keeps ';' (.inr (.inr rfl))]
    exact .semicolon
  | @solid t c x hkind hsolid hscan =>
    rw [map_eq_self fun y hy => hf.keeps y (.inl (hsolid y hy)), blankToken, if_neg hkind.2.1]
    exact .solid hkind hsolid fun r'' hr'' => hscan r'' (hr''.trans hr)
  | @string w e hw he =>
    have hquote : f quote = quote := hf.keeps quote (.inr (.inl rfl))
    simp only [List.map_cons, List.map_append, List.map_nil, hquote, hf.keeps e (.inr (.inl he))]
    refine .string (fun y hy => ?_) he
    obtain ⟨x, hx, rfl⟩ := List.mem_map.mp hy
    rw [hf.inString_eq, hw x hx]

end Blanking

end Dbms.Sql.Lexer
