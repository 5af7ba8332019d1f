import Dbms.Sql.TextSource
import Mathlib.Data.List.TakeWhile

/-! What a token looks like in a text, and how much of what follows it matters. -/

open Dbms.Core

namespace Dbms.Sql.Lexer

/-- The characters that may carry on a token other than a string. -/
def isGlue (c : Char) : Bool := isIdentChar c || c = '-' || c = ':' || c = '='

/-- The beginning of a text that the token before it may run into. -/
def lead (r : Text) : Text := r.takeWhile isGlue

theorem takeWhile_lead {p : Char → Bool} (hp : ∀ c, p c = true → isGlue c = true) {r r' : Text}
    (h : lead r = lead r') : r.takeWhile p = r'.takeWhile p := by
  have hlead : ∀ s : Text, s.takeWhile p = (lead s).takeWhile p := by
    intro s
    unfold lead
    rw [List.takeWhile_takeWhile]
    congr 1
    funext c
    by_cases hc : p c = true
    · simp [hc, hp c hc]
    · simp [hc]
  rw [hlead r, h, ← hlead r']

theorem lead_append {x r : Text} (h : lead r = []) : lead (x ++ r) = lead x := by
  unfold lead at h ⊢
  rw [List.takeWhile_append, h, List.append_nil]
  split
  · rename_i hlen
    exact ((List.takeWhile_prefix isGlue).eq_of_length hlen).symm
  · rfl

theorem glue_of_ident {c : Char} (h : isIdentChar c = true) : isGlue c = true := by
  simp [isGlue, h]

theorem glue_of_digit {c : Char} (h : c.isDigit = true) : isGlue c = true := by
  simp [isGlue, isIdentChar, Char.isAlphanum, h]

theorem glue_of_stamp {c : Char} (h : isStampChar c = true) : isGlue c = true := by
  simp only [isStampChar, Bool.or_eq_true, decide_eq_true_eq] at h
  rcases h with ((h | h) | h) | h
  · exact glue_of_digit h
  · simp [isGlue, isIdentChar, h]
  · simp [isGlue, h]
  · simp [isGlue, h]

theorem head_eq_of_lead {r r' : Text} (h : lead r = lead r') :
    r.head? = some '=' ↔ r'.head? = some '=' := by
  have htake := takeWhile_lead (p := (· = '=')) (fun c hc => by simp_all [isGlue]) h
  have hhead : ∀ s : Text, s.head? = some '=' ↔ s.takeWhile (· = '=') ≠ [] := by
    intro s
    cases s with
    | nil => simp
    | cons c s => by_cases hc : c = '=' <;> simp [hc]
  rw [hhead, hhead, htake]

def isSolid (c : Char) : Bool := isGlue c || c ∈ ['*', ',', '(', ')', '!', '<', '>']

def Token.Plain (t : Token) : Prop := t.kind ≠ .eof ∧ t.kind ≠ .string ∧ t.kind ≠ .semicolon

/-- `w` is the token `t` where `r` follows, or anything with the same lead. -/
inductive Lexeme (r : Text) : Token → Text → Prop where
  | semicolon : Lexeme r ⟨.semicolon, [';']⟩ [';']
  | solid {t : Token} {c : Char} {x : Text} (hkind : Token.Plain t)
      (hsolid : ∀ y ∈ c :: x, isSolid y = true)
      (hscan : ∀ r', lead r' = lead r → scan c (x ++ r') = (t, r')) : Lexeme r t (c :: x)
  | string {w : Text} {e : Char} (hw : ∀ y ∈ w, inString y = true) (he : inString e = false) :
      Lexeme r ⟨.string, w⟩ (quote :: (w ++ [e]))

theorem Lexeme.congr {r r' w : Text} {t : Token} (h : Lexeme r t w) (hr : lead r' = lead r) :
    Lexeme r' t w := by
  cases h with
  | semicolon => exact .semicolon
  | solid hkind hsolid hscan => exact .solid hkind hsolid fun r'' hr'' => hscan r'' (hr''.trans hr)
  | string hw he => exact .string hw he

theorem Lexeme.kind_ne {r w : Text} {t : Token} (h : Lexeme r t w) : t.kind ≠ .eof := by
  cases h with
  | semicolon => simp
  | solid hkind _ _ => exact hkind.1
  | string hw he => simp

theorem scanString_closed {w r : Text} {e : Char} (hw : ∀ y ∈ w, inString y = true)
    (he : inString e = false) : scanString (w ++ e :: r) = (⟨.string, w⟩, r) := by
  unfold scanString
  rw [List.takeWhile_append_of_pos hw, List.dropWhile_append_of_pos hw]
  simp [he]

theorem Lexeme.scan {r w : Text} {t : Token} (h : Lexeme r t w) :
    ∃ c x, w = c :: x ∧ Lexer.scan c (x ++ r) = (t, r) := by
  cases h with
  | semicolon => exact ⟨';', [], rfl, by simp [Lexer.scan, nul]⟩
  | solid hkind hsolid hscan => exact ⟨_, _, rfl, hscan r rfl⟩
  | @string w e hw he =>
    refine ⟨quote, _, rfl, ?_⟩
    show scanString (w ++ [e] ++ r) = _
    rw [List.append_assoc]
    exact scanString_closed hw he

theorem lexeme_symbol {r : Text} {t : Token} {c : Char} (hkind : Token.Plain t)
    (hsolid : isSolid c = true) (hscan : ∀ s, Lexer.scan c s = (t, s)) : Lexeme r t [c] :=
  .solid hkind (by simpa using hsolid) fun r' _ => hscan r'

theorem lexeme_operator {r : Text} {t : Token} {c : Char} (hkind : Token.Plain t)
    (hsolid : isSolid c = true) (hscan : ∀ s, Lexer.scan c ('=' :: s) = (t, s)) :
    Lexeme r t [c, '='] := by
  refine .solid hkind ?_ fun r' _ => hscan r'
  intro y hy
  rcases List.mem_pair.mp hy with rfl | rfl
  · exact hsolid
  · decide

theorem lexeme_lone {r : Text} {t : Token} {c : Char} (hkind : Token.Plain t)
    (hsolid : isSolid c = true) (hr : r.head? ≠ some '=')
    (hscan : ∀ s : Text, s.head? ≠ some '=' → Lexer.scan c s = (t, s)) : Lexeme r t [c] := by
  refine .solid hkind (by simpa using hsolid) fun r' hlead => hscan r' ?_
  exact fun h => hr ((head_eq_of_lead hlead).mp h)

theorem scan_digit {c : Char} (hc : c.isDigit = true) (s : Text) :
    scan c s = scanNumber (c :: s) := by
  have hne : ∀ k : Char, k.isDigit = false → c ≠ k := by
    rintro k hk rfl
    rw [hc] at hk
    cases hk
  simp [scan, hne nul rfl, hne '*' rfl, hne ',' rfl, hne '(' rfl, hne ')' rfl, hne ';' rfl,
    hne '=' rfl, hne '!' rfl, hne '<' rfl, hne '>' rfl, hne quote rfl, hc]

def isStart (c : Char) : Bool := c.isAlpha || c = '_'

theorem digit_le {c : Char} (h : c.isDigit = true) : c.val.toNat ≤ 57 :=
  UInt32.le_iff_toNat_le.mp (of_decide_eq_true (Bool.and_eq_true_iff.mp h).2)

theorem le_alpha {c : Char} (h : c.isAlpha = true) : 65 ≤ c.val.toNat := by
  rcases Bool.or_eq_true_iff.mp h with hupper | hlower
  · exact UInt32.le_iff_toNat_le.mp (of_decide_eq_true hupper).1
  · have ha := UInt32.le_iff_toNat_le.mp (of_decide_eq_true (Bool.and_eq_true_iff.mp hlower).1)
    have h97 : 'a'.val.toNat = 97 := rfl
    omega

theorem scan_start {c : Char} (hc : isStart c = true) (s : Text) : scan c s = scanWord (c :: s) := by
  have hne : ∀ k : Char, isStart k = false → c ≠ k := by
    rintro k hk rfl
    rw [hc] at hk
    cases hk
  have hdigit : c.isDigit = false := by
    by_contra h
    have h9 := digit_le (by simpa using h)
    rcases Bool.or_eq_true_iff.mp hc with halpha | hscore
    · have hA := le_alpha halpha
      omega
    · obtain rfl := of_decide_eq_true hscore
      exact absurd h9 (by decide)
  have hstart : c.isAlpha = true ∨ c = '_' := by simpa [isStart] using hc
  simp [scan, hne nul rfl, hne '*' rfl, hne ',' rfl, hne '(' rfl, hne ')' rfl, hne ';' rfl,
    hne '=' rfl, hne '!' rfl, hne '<' rfl, hne '>' rfl, hne quote rfl, hdigit, hstart]

theorem alpha_le {c : Char} (h : c.isAlpha = true) : c.val.toNat ≤ 122 := by
  rcases Bool.or_eq_true_iff.mp h with hupper | hlower
  · have hZ := UInt32.le_iff_toNat_le.mp (of_decide_eq_true hupper).2
    have h90 : 'Z'.val.toNat = 90 := rfl
    omega
  · exact UInt32.le_iff_toNat_le.mp (of_decide_eq_true (Bool.and_eq_true_iff.mp hlower).2)

/-- If it is an identifier, the token was read as a number or as a word. -/
def Named (c : Char) (s : Text) (r : Token × Text) : Prop :=
  r.1.kind = .ident → r = scanNumber (c :: s) ∨ r = scanWord (c :: s)

theorem scan_named (c : Char) (s : Text) : Named c s (scan c s) := by
  unfold scan
  -- punctuation, operators and strings have kinds of their own
  iterate 14 refine iteInduction (fun _ h => by cases h) fun _ => ?_
  refine iteInduction (fun _ _ => .inl rfl) fun _ => ?_
  refine iteInduction (fun _ _ => .inr rfl) fun _ => ?_
  intro h
  cases h

theorem scanNumber_ident {s : Text} (h : (scanNumber s).1.kind = .ident) :
    ∀ c ∈ (scanNumber s).1.text, isStampChar c = true := by
  unfold scanNumber at h ⊢
  dsimp only at h ⊢
  by_cases hstamp : '-' ∈ s.takeWhile isStampChar ∧ '.' ∈ s.takeWhile isStampChar
  · rw [if_pos hstamp]
    exact fun c hc => List.mem_takeWhile_imp hc
  · rw [if_neg hstamp] at h
    cases h

theorem scanWord_ident {s : Text} (h : (scanWord s).1.kind = .ident) :
    ∀ c ∈ (scanWord s).1.text, isIdentChar c = true := by
  unfold scanWord at h ⊢
  dsimp only at h ⊢
  by_cases hkw : toUpper (s.takeWhile isIdentChar) ∈ kws
  · rw [if_pos hkw] at h
    cases h
  · rw [if_neg hkw]
    exact fun c hc => List.mem_takeWhile_imp hc

theorem isIdentChar_lt {c : Char} (h : isIdentChar c = true) : c.toNat < 128 := by
  simp only [isIdentChar, Char.isAlphanum, Bool.or_eq_true, decide_eq_true_eq] at h
  rcases h with ((halpha | hdigit) | rfl) | rfl
  · exact Nat.lt_of_le_of_lt (alpha_le halpha) (by decide)
  · exact Nat.lt_of_le_of_lt (digit_le hdigit) (by decide)
  · decide
  · decide

theorem isStampChar_lt {c : Char} (h : isStampChar c = true) : c.toNat < 128 := by
  simp only [isStampChar, Bool.or_eq_true, decide_eq_true_eq] at h
  rcases h with ((hdigit | rfl) | rfl) | rfl
  · exact Nat.lt_of_le_of_lt (digit_le hdigit) (by decide)
  · decide
  · decide
  · decide

theorem next_ident_chars {s : Text} (h : (next s).1.kind = .ident) :
    ∀ c ∈ (next s).1.text, isIdentChar c = true ∨ isStampChar c = true := by
  unfold next at h ⊢
  cases hs : skipWs false s with
  | nil =>
    rw [hs] at h
    cases h
  | cons c r =>
    rw [hs] at h
    dsimp only at h ⊢
    rcases scan_named c r h with hscan | hscan
    · rw [hscan] at h ⊢
      exact fun c hc => .inr (scanNumber_ident h c hc)
    · rw [hscan] at h ⊢
      exact fun c hc => .inl (scanWord_ident h c hc)

theorem run_append {p : Char → Bool} {w r : Text} (hw : ∀ y ∈ w, p y = true)
    (hr : r.takeWhile p = []) : (w ++ r).takeWhile p = w ∧ (w ++ r).dropWhile p = r := by
  rw [List.takeWhile_append_of_pos hw, List.dropWhile_append_of_pos hw, hr, List.append_nil]
  have hsplit := r.takeWhile_append_dropWhile (p := p)
  rw [hr, List.nil_append] at hsplit
  exact ⟨rfl, hsplit⟩

theorem exists_run (p : Char → Bool) {c : Char} (hc : p c = true) (s : Text) :
    ∃ x r, s = x ++ r ∧ (∀ y ∈ c :: x, p y = true) ∧ r.takeWhile p = [] ∧
      (c :: s).takeWhile p = c :: x ∧ (c :: s).dropWhile p = r := by
  refine ⟨s.takeWhile p, s.dropWhile p, List.takeWhile_append_dropWhile.symm, ?_, ?_, ?_, ?_⟩
  · intro y hy
    rcases List.mem_cons.mp hy with rfl | hy
    · exact hc
    · exact List.mem_takeWhile_imp hy
  · rw [List.takeWhile_eq_nil_iff]
    exact fun hl => Bool.not_eq_true _ ▸ List.dropWhile_get_zero_not p s hl
  · rw [List.takeWhile_cons_of_pos hc]
  · rw [List.dropWhile_cons_of_pos hc]

theorem lexeme_word {c : Char} {x r : Text} (hc : isStart c = true)
    (hx : ∀ y ∈ c :: x, isIdentChar y = true) (hr : r.takeWhile isIdentChar = []) :
    Lexeme r (scanWord (c :: x)).1 (c :: x) := by
  have htoken : ∀ r', lead r' = lead r → scan c (x ++ r') = ((scanWord (c :: x)).1, r') := by
    intro r' hlead
    have hr' := (takeWhile_lead (fun _ => glue_of_ident) hlead).trans hr
    obtain ⟨htake, hdrop⟩ := run_append hx hr'
    obtain ⟨hself, -⟩ := run_append (r := []) hx rfl
    rw [List.append_nil] at hself
    rw [scan_start hc]
    unfold scanWord
    rw [← List.cons_append, htake, hdrop, hself]
  apply Lexeme.solid _ _ htoken
  · unfold scanWord
    dsimp only
    split <;> simp [Token.Plain]
  · intro y hy
    simp [isSolid, glue_of_ident (hx y hy)]

theorem lexeme_stamp {c : Char} {x r : Text} (hc : c.isDigit = true)
    (hx : ∀ y ∈ c :: x, isStampChar y = true) (hdash : '-' ∈ c :: x) (hdot : '.' ∈ c :: x)
    (hr : r.takeWhile isStampChar = []) : Lexeme r ⟨.ident, c :: x⟩ (c :: x) := by
  refine .solid (by simp [Token.Plain]) (fun y hy => by simp [isSolid, glue_of_stamp (hx y hy)]) ?_
  intro r' hlead
  have hr' := (takeWhile_lead (fun _ => glue_of_stamp) hlead).trans hr
  obtain ⟨htake, hdrop⟩ := run_append hx hr'
  rw [scan_digit hc]
  unfold scanNumber
  rw [← List.cons_append, htake, hdrop, if_pos ⟨hdash, hdot⟩]

theorem lexeme_number {c : Char} {x r : Text} (hx : ∀ y ∈ c :: x, y.isDigit = true)
    (hr : r.takeWhile Char.isDigit = [])
    (hstamp : ¬('-' ∈ c :: x ++ r.takeWhile isStampChar ∧ '.' ∈ c :: x ++ r.takeWhile isStampChar)) :
    Lexeme r ⟨.number, c :: x⟩ (c :: x) := by
  refine .solid (by simp [Token.Plain]) (fun y hy => by simp [isSolid, glue_of_digit (hx y hy)]) ?_
  intro r' hlead
  have hr' := (takeWhile_lead (fun _ => glue_of_digit) hlead).trans hr
  obtain ⟨htake, hdrop⟩ := run_append hx hr'
  have hbuf : (c :: x ++ r').takeWhile isStampChar = c :: x ++ r.takeWhile isStampChar := by
    rw [List.takeWhile_append_of_pos fun y hy => by simp [isStampChar, hx y hy],
      takeWhile_lead (fun _ => glue_of_stamp) hlead]
  rw [scan_digit (hx c (List.mem_cons_self ..))]
  unfold scanNumber
  rw [← List.cons_append, hbuf, if_neg hstamp, htake, hdrop]

theorem lexeme_digits {c : Char} {x r : Text} (hx : ∀ y ∈ c :: x, y.isDigit = true)
    (hr : r.takeWhile isStampChar = []) : Lexeme r ⟨.number, c :: x⟩ (c :: x) := by
  apply lexeme_number hx
  · rw [List.takeWhile_eq_nil_iff] at hr ⊢
    intro hl
    have hhead := hr hl
    simp only [isStampChar, Bool.or_eq_true, not_or] at hhead
    exact hhead.1.1.1
  · rw [hr, List.append_nil]
    rintro ⟨hdash, -⟩
    have := hx _ hdash
    cases this

/-- A scan at `c` takes a lexeme, unless it is at the end, at an unknown character or in a string that
is not closed. -/
def Finds (c : Char) (s : Text) (r : Token × Text) : Prop :=
  r.1.kind ≠ .eof → (c = quote → s.dropWhile inString ≠ []) →
    ∃ x, s = x ++ r.2 ∧ Lexeme r.2 r.1 (c :: x)

section Finds
variable {c : Char} {s : Text} {t : Token}

theorem finds_symbol (hkind : Token.Plain t) (hsolid : isSolid c = true)
    (hscan : ∀ s, scan c s = (t, s)) : Finds c s (t, s) :=
  fun _ _ => ⟨[], rfl, lexeme_symbol hkind hsolid hscan⟩

theorem finds_operator (hkind : Token.Plain t) (hsolid : isSolid c = true)
    (hs : s.head? = some '=') (hscan : ∀ s, scan c ('=' :: s) = (t, s)) : Finds c s (t, s.tail) := by
  obtain ⟨r, rfl⟩ := List.head?_eq_some_iff.mp hs
  exact fun _ _ => ⟨['='], rfl, lexeme_operator hkind hsolid hscan⟩

theorem finds_lone (hkind : Token.Plain t) (hsolid : isSolid c = true)
    (hs : s.head? ≠ some '=') (hscan : ∀ s : Text, s.head? ≠ some '=' → scan c s = (t, s)) :
    Finds c s (t, s) :=
  fun _ _ => ⟨[], rfl, lexeme_lone hkind hsolid hs hscan⟩

theorem finds_string : Finds quote s (scanString s) := by
  intro _ hclosed
  cases hdrop : s.dropWhile inString with
  | nil => exact absurd hdrop (hclosed rfl)
  | cons e r =>
    have he : inString e = false := by
      have hhead := List.dropWhile_get_zero_not inString s (by rw [hdrop]; simp)
      simpa [hdrop] using hhead
    refine ⟨s.takeWhile inString ++ [e], ?_, ?_⟩
    · show s = s.takeWhile inString ++ [e] ++ (s.dropWhile inString).tail
      rw [hdrop, List.append_assoc]
      exact (hdrop ▸ List.takeWhile_append_dropWhile.symm : s = s.takeWhile inString ++ e :: r)
    · exact .string (fun y hy => List.mem_takeWhile_imp hy) he

theorem finds_number (hc : c.isDigit = true) : Finds c s (scanNumber (c :: s)) := by
  intro _ _
  have hstamp : isStampChar c = true := by simp [isStampChar, hc]
  unfold scanNumber
  dsimp only
  by_cases h : '-' ∈ (c :: s).takeWhile isStampChar ∧ '.' ∈ (c :: s).takeWhile isStampChar
  · rw [if_pos h]
    obtain ⟨x, r, hs, hx, hr, htake, hdrop⟩ := exists_run isStampChar hstamp s
    rw [htake] at h ⊢
    rw [hdrop]
    exact ⟨x, hs, lexeme_stamp hc hx h.1 h.2 hr⟩
  · rw [if_neg h]
    obtain ⟨x, r, rfl, hx, hr, htake, hdrop⟩ := exists_run Char.isDigit hc s
    rw [htake, hdrop]
    refine ⟨x, rfl, lexeme_number hx hr ?_⟩
    rwa [← List.cons_append, List.takeWhile_append_of_pos fun y hy => by simp [isStampChar, hx y hy]]
      at h

theorem finds_word (hc : isStart c = true) : Finds c s (scanWord (c :: s)) := by
  intro _ _
  obtain ⟨x, r, hs, hx, hr, htake, hdrop⟩ := exists_run isIdentChar (isIdentChar_of_start hc) s
  have hself : (c :: x).takeWhile isIdentChar = c :: x := List.takeWhile_eq_self_iff.mpr hx
  have htoken : (scanWord (c :: s)).1 = (scanWord (c :: x)).1 := by
    unfold scanWord
    rw [htake, hself]
  rw [htoken, show (scanWord (c :: s)).2 = r from hdrop]
  exact ⟨x, hs, lexeme_word hc hx hr⟩

variable (c s) in
theorem scan_finds : Finds c s (scan c s) := by
  unfold scan
  refine iteInduction (fun _ h => absurd rfl h) fun _ => ?_
  refine iteInduction ?_ fun _ => ?_
  · rintro rfl
    exact finds_symbol (by simp [Token.Plain]) rfl fun s => by simp [scan, nul]
  refine iteInduction ?_ fun _ => ?_
  · rintro rfl
    exact finds_symbol (by simp [Token.Plain]) rfl fun s => by simp [scan, nul]
  refine iteInduction ?_ fun _ => ?_
  · rintro rfl
    exact finds_symbol (by simp [Token.Plain]) rfl fun s => by simp [scan, nul]
  refine iteInduction ?_ fun _ => ?_
  · rintro rfl
    exact finds_symbol (by simp [Token.Plain]) rfl fun s => by simp [scan, nul]
  refine iteInduction ?_ fun _ => ?_
  · rintro rfl
    exact fun _ _ => ⟨[], rfl, .semicolon⟩
  refine iteInduction ?_ fun heq => ?_
  · rintro ⟨rfl, hs⟩
    exact finds_operator (by simp [Token.Plain]) rfl hs fun s => by simp [scan, nul]
  refine iteInduction ?_ fun _ => ?_
  · rintro ⟨rfl, hs⟩
    exact finds_operator (by simp [Token.Plain]) rfl hs fun s => by simp [scan, nul]
  refine iteInduction ?_ fun hle => ?_
  · rintro ⟨rfl, hs⟩
    exact finds_operator (by simp [Token.Plain]) rfl hs fun s => by simp [scan, nul]
  refine iteInduction ?_ fun hge => ?_
  · rintro ⟨rfl, hs⟩
    exact finds_operator (by simp [Token.Plain]) rfl hs fun s => by simp [scan, nul]
  refine iteInduction ?_ fun _ => ?_
  · rintro rfl
    exact finds_lone (by simp [Token.Plain]) rfl (fun hs => hle ⟨rfl, hs⟩)
      fun s hs => by simp [scan, nul, hs]
  refine iteInduction ?_ fun _ => ?_
  · rintro rfl
    exact finds_lone (by simp [Token.Plain]) rfl (fun hs => hge ⟨rfl, hs⟩)
      fun s hs => by simp [scan, nul, hs]
  refine iteInduction ?_ fun _ => ?_
  · rintro rfl
    exact finds_lone (by simp [Token.Plain]) rfl (fun hs => heq ⟨rfl, hs⟩)
      fun s hs => by simp [scan, nul, hs]
  refine iteInduction ?_ fun _ => ?_
  · rintro rfl
    exact finds_string
  refine iteInduction finds_number fun _ => ?_
  refine iteInduction finds_word fun _ => ?_
  exact fun h => absurd rfl h

end Finds

end Dbms.Sql.Lexer
