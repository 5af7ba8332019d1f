import Dbms.Core.Numeral
import Dbms.Sql.Tokens

/-! Statements that are read from a given list of tokens, however the tokens are set apart. -/

open Dbms.Core Dbms.Lib

namespace Dbms.Sql

abbrev texts : TokenSource Text := textSource Parser.stollRange

namespace Lexer

theorem Renders.takes {ts : List Token} {g s r : Text} (h : Renders ts s) (hg : Gap g)
    (hr : lead r = []) (hne : ts ≠ []) : texts.Takes ts (g ++ s ++ r) r := by
  induction h generalizing g with
  | nil => exact absurd rfl hne
  | @one t w hw =>
    have hnext := next_lexeme hg (hw.lexeme hr)
    exact ⟨congrArg Prod.fst hnext.symm, congrArg Prod.snd hnext.symm⟩
  | @cons t t' ts w g' s c hw hc hg' _ ih =>
    have hnext := next_lexeme hg (hw.lexeme (lead_of_space hc (g' ++ s ++ r)))
    have hrest := ih (.space hc hg') (List.cons_ne_nil t' ts)
    have htext : g ++ (w ++ c :: (g' ++ s)) ++ r = g ++ w ++ c :: (g' ++ s ++ r) := by simp
    rw [htext]
    refine ⟨congrArg Prod.fst hnext.symm, ?_⟩
    show texts.Takes (t' :: ts) (next (g ++ w ++ c :: (g' ++ s ++ r))).2 r
    rw [hnext]
    exact hrest

theorem Renders.spelled {ts : List Token} {s : Text} (h : Renders ts s) :
    ∀ t ∈ ts, ∃ w, Spelling t w := by
  induction h with
  | nil => exact nofun
  | one hw =>
    intro t ht
    obtain rfl := List.mem_singleton.mp ht
    exact ⟨_, hw⟩
  | cons hw _ _ _ ih =>
    intro t ht
    rcases List.mem_cons.mp ht with rfl | ht
    · exact ⟨_, hw⟩
    · exact ih t ht

theorem Spelling.ne_star {name w : Text} (h : Spelling ⟨.ident, name⟩ w) : name ≠ ['*'] := by
  rintro rfl
  cases h with
  | name hc => cases hc
  | stamp hc => cases hc
  | symbol h => simp [symbols] at h

theorem kws_toUpper : (kws.all fun k => toUpper k = k) = true := by decide +kernel

theorem Spelling.of_mem_kws {k : Text} (h : k ∈ kws) : Spelling ⟨.kw, k⟩ k := by
  have hupper : toUpper k = k := by simpa using List.all_eq_true.mp kws_toUpper k h
  have hspell : Spelling ⟨.kw, toUpper k⟩ k := .keyword (hupper.symm ▸ h)
  rwa [hupper] at hspell

theorem Spelling.natText (n : Nat) : Spelling ⟨.number, natText n⟩ (natText n) := by
  have hdigits := natText_isDigit n
  obtain ⟨c, w, h⟩ := List.exists_cons_of_ne_nil (natText_ne_nil n)
  rw [h] at hdigits ⊢
  exact .number hdigits

theorem renders_words {ts : List Token} {ws : List Text} (h : List.Forall₂ Spelling ts ws) :
    Renders ts ((" ".toList).intercalate ws) := by
  induction h with
  | nil => exact .nil
  | @cons t w ts ws hw hrest ih =>
    cases hrest with
    | nil => simpa using Renders.one hw
    | cons _ _ => exact .cons hw (by decide : isSpace ' ' = true) .nil ih

end Lexer

/-! The tokens of some statements. -/

def keyword (word : String) : Token := ⟨.kw, word.toList⟩

def identifier (name : Text) : Token := ⟨.ident, name⟩

def lParen : Token := ⟨.lParen, ['(']⟩

def rParen : Token := ⟨.rParen, [')']⟩

def comma : Token := ⟨.comma, [',']⟩

def Literal.token : Literal → Token
  | .null => keyword "NULL"
  | .int v => ⟨.number, intText v⟩
  | .string s => ⟨.string, s⟩

theorem lParen_spelling : Lexer.Spelling lParen ['('] :=
  .symbol (t := lParen) (by simp [Lexer.symbols, lParen])

theorem rParen_spelling : Lexer.Spelling rParen [')'] :=
  .symbol (t := rParen) (by simp [Lexer.symbols, rParen])

theorem comma_spelling : Lexer.Spelling comma [','] :=
  .symbol (t := comma) (by simp [Lexer.symbols, comma])

theorem int_spelling {v : Int} (h : 0 ≤ v) : Lexer.Spelling (Literal.int v).token (intText v) := by
  obtain ⟨n, rfl⟩ := Int.eq_ofNat_of_zero_le h
  show Lexer.Spelling ⟨.number, intText n⟩ _
  rw [intText_natCast]
  exact .natText n

def Literal.Writable : Literal → Prop
  | .int v => 0 ≤ v ∧ v < 2 ^ 63
  | _ => True

def insertTokens (table : Text) (cols : List Text) (lits : List Literal) : List Token :=
  [keyword "INSERT", keyword "INTO", identifier table, lParen] ++
    (cols.map identifier).intersperse comma ++ [rParen, keyword "VALUE", lParen] ++
    (lits.map Literal.token).intersperse comma ++ [rParen]

def selectTokens (table col : Text) (v : Int) : List Token :=
  [keyword "SELECT", identifier col, keyword "FROM", identifier table, keyword "WHERE",
    identifier col, ⟨.eq, ['=', '=']⟩, (Literal.int v).token]

def selectStatement (table col : Text) (v : Int) : Statement :=
  .select [{ col := col }] (Parser.splitQualified table)
    { nodes := [.cmp col .eq (.lit (.int v))], root := some 0 }

section Takes
variable {s s' : Text} {ts : List Token} {t : Token}

theorem token_of_takes {α : Type} {F : Token → Prop} {g : Token → α} (hF : F t)
    (h : texts.Takes (t :: ts) s s') :
    Phrase.token texts.toSource F g s (g t) (texts.scan s).2 ∧ texts.Takes ts (texts.scan s).2 s' := by
  obtain ⟨rfl, hts⟩ := h
  exact ⟨⟨hF, rfl, rfl⟩, hts⟩

theorem kw_of_takes {word : String} (h : texts.Takes (keyword word :: ts) s s') :
    Grammar.kw texts word s () (texts.scan s).2 ∧ texts.Takes ts (texts.scan s).2 s' :=
  token_of_takes (by simp [Parser.isKw, keyword]) h

theorem punct_of_takes (h : texts.Takes (t :: ts) s s') :
    Grammar.punct texts t.kind s () (texts.scan s).2 ∧ texts.Takes ts (texts.scan s).2 s' :=
  token_of_takes rfl h

theorem ident_of_takes {name : Text} (h : texts.Takes (identifier name :: ts) s s') :
    Grammar.ident texts s name (texts.scan s).2 ∧ texts.Takes ts (texts.scan s).2 s' :=
  token_of_takes (F := fun t => t.kind = .ident) (g := Token.text) rfl h

theorem tableName_of_takes {name : Text} (h : texts.Takes (identifier name :: ts) s s') :
    Grammar.tableName texts s (Parser.splitQualified name) (texts.scan s).2 ∧
      texts.Takes ts (texts.scan s).2 s' :=
  token_of_takes (F := fun t => t.kind = .ident) (g := fun t => Parser.splitQualified t.text) rfl h

theorem literal_of_takes {l : Literal} (hl : l.Writable) (h : texts.Takes (l.token :: ts) s s') :
    Grammar.literal texts s l (texts.scan s).2 ∧ texts.Takes ts (texts.scan s).2 s' := by
  cases l with
  | null =>
    obtain ⟨hkw, hts⟩ := kw_of_takes h
    exact ⟨.inl ⟨(), _, hkw, rfl, rfl⟩, hts⟩
  | string str =>
    obtain ⟨htoken, hts⟩ := token_of_takes (F := fun t => t.kind = .string) (g := Token.text) rfl h
    exact ⟨.inr (.inr ⟨str, _, htoken, rfl, rfl⟩), hts⟩
  | int v =>
    obtain ⟨n, rfl⟩ := Int.eq_ofNat_of_zero_le hl.1
    obtain ⟨htoken, hts⟩ := h
    have hanswer : Parser.stollRange (intText n) = .ok (n : Int) := by
      rw [intText_natCast, Parser.stollRange_of_lt] <;> rw [decimal_natText]
      have hlt := hl.2
      omega
    refine ⟨.inr (.inl ⟨n, _, ⟨?_, ?_, rfl⟩, rfl, rfl⟩), hts⟩
    · exact congrArg Token.kind htoken.symm
    · have htext : (texts.scan s).1.text = intText n := congrArg Token.text htoken.symm
      rw [htext]
      exact hanswer

theorem list_of_takes {α : Type} {item : Phrase Text α} {tok : α → Token} {as : List α}
    (hne : as ≠ [])
    (hitem : ∀ a ∈ as, ∀ ts s, texts.Takes (tok a :: ts) s s' →
      item s a (texts.scan s).2 ∧ texts.Takes ts (texts.scan s).2 s')
    (h : texts.Takes ((as.map tok).intersperse comma ++ ts) s s') :
    ∃ m, Grammar.list texts item s as m ∧ texts.Takes ts m s' := by
  induction as generalizing s with
  | nil => exact absurd rfl hne
  | cons a as ih =>
    cases as with
    | nil =>
      obtain ⟨ha, hts⟩ := hitem a (List.mem_cons_self ..) ts s h
      exact ⟨_, .one ha, hts⟩
    | cons b as =>
      obtain ⟨ha, hrest⟩ := hitem a (List.mem_cons_self ..) _ s h
      obtain ⟨hcomma, hrest⟩ := punct_of_takes hrest
      obtain ⟨m, hlist, hts⟩ := ih (List.cons_ne_nil b as)
        (fun a ha => hitem a (List.mem_cons_of_mem _ ha)) hrest
      exact ⟨m, .more ha hcomma hlist, hts⟩

theorem insert_of_takes {table : Text} {cols : List Text} {lits : List Literal} (hcols : cols ≠ [])
    (hlits : lits ≠ []) (hwrite : ∀ l ∈ lits, l.Writable)
    (h : texts.Takes (insertTokens table cols lits) s s') :
    Grammar.statement texts s (.insert (Parser.splitQualified table) cols [lits]) s' := by
  have hform : Grammar.form texts "INSERT" = Grammar.insert texts := by simp [Grammar.form]
  unfold insertTokens at h
  simp only [List.append_assoc, List.cons_append, List.nil_append] at h
  obtain ⟨hinsert, h⟩ := kw_of_takes h
  obtain ⟨hinto, h⟩ := kw_of_takes h
  obtain ⟨htable, h⟩ := tableName_of_takes h
  obtain ⟨hopen, h⟩ := punct_of_takes h
  obtain ⟨m, hnames, h⟩ := list_of_takes hcols (fun _ _ _ _ => ident_of_takes) h
  obtain ⟨hclose, h⟩ := punct_of_takes h
  obtain ⟨hvalue, h⟩ := kw_of_takes h
  obtain ⟨hopen', h⟩ := punct_of_takes h
  obtain ⟨m', hvalues, h⟩ := list_of_takes hlits
    (fun l hl _ _ hs => literal_of_takes (hwrite l hl) hs) h
  obtain ⟨hclose', h⟩ := punct_of_takes h
  have hend : s' = _ := h
  refine ⟨"INSERT", (), _, hinsert, ?_⟩
  rw [hform]
  have htuple : Grammar.tuple texts _ lits s' :=
    ⟨(), _, hopen', lits, _, hvalues, (), _, hclose', rfl, hend⟩
  exact ⟨(), _, hinto, _, _, htable, (), _, hopen, cols, _, hnames, (), _, hclose, (), _, .inl hvalue,
    [lits], _, .one htuple, rfl, rfl⟩

theorem select_of_takes {table col : Text} {v : Int} (h0 : 0 ≤ v) (hlt : v < 2 ^ 63)
    (h : texts.Takes (selectTokens table col v) s s') :
    Grammar.statement texts s (selectStatement table col v) s' := by
  have hform : Grammar.form texts "SELECT" = Grammar.select texts := by simp [Grammar.form]
  unfold selectTokens at h
  obtain ⟨hselect, h⟩ := kw_of_takes h
  obtain ⟨hcol, h⟩ := ident_of_takes h
  obtain ⟨hfrom, h⟩ := kw_of_takes h
  obtain ⟨htable, h⟩ := tableName_of_takes h
  obtain ⟨hwhere, h⟩ := kw_of_takes h
  obtain ⟨hleft, h⟩ := ident_of_takes h
  have hop : Grammar.comparison texts _ .eq _ :=
    ⟨congrArg (fun t => Parser.cmpOp t.kind) h.1.symm, rfl⟩
  have hwrite : (Literal.int v).Writable := ⟨h0, hlt⟩
  obtain ⟨hlit, h⟩ := literal_of_takes hwrite h.2
  have hend : s' = _ := h
  have hcondition : Grammar.condition texts [] col _ (Parser.push [] (.cmp col .eq (.lit (.int v)))) s' :=
    .inr (.inr ⟨.eq, _, hop, _, _, .inr ⟨_, _, hlit, rfl, rfl⟩, rfl, hend⟩)
  have hprimary : Grammar.boolPrimary texts (Grammar.boolOr texts 0) [] _ _ s' :=
    .inr ⟨col, _, hleft, hcondition⟩
  have hor : Grammar.boolOr texts 1 [] _ _ s' := ⟨_, _, ⟨_, _, hprimary, .stop⟩, .stop⟩
  have hitem : Grammar.selectItem texts _ { col := col } _ :=
    ⟨_, _, .inr (.inr (.inr ⟨col, _, hcol, rfl, rfl⟩)), .inr ⟨rfl, rfl⟩⟩
  refine ⟨"SELECT", (), _, hselect, ?_⟩
  rw [hform]
  exact ⟨_, _, .inr (.one hitem), (), _, hfrom, _, _, htable, _, _,
    .inl ⟨(), _, hwhere, _, _, ⟨1, hor⟩, rfl, rfl⟩, rfl, rfl⟩

end Takes

section Parse
variable {ts : List Token} {sql : Text} {st : Statement}

/-- A rendered statement that no end token carries on is parsed as such. -/
theorem parse_of_renders (h : Lexer.Renders ts sql) (hne : ts ≠ [])
    (hst : texts.Takes ts (sql ++ [' ']) [' '] → Grammar.statement texts (sql ++ [' ']) st [' '])
    (hend : Grammar.goesOn st ⟨.eof, []⟩ = false) :
    Parser.parse (sql ++ [' ']) = .ok (st, [' ']) := by
  have htakes := h.takes .nil (r := [' ']) rfl hne
  rw [List.nil_append] at htakes
  refine Parser.parse_eq_ok.mpr ⟨hst htakes, ?_⟩
  show ¬ Grammar.goesOn st ⟨.eof, []⟩ = true
  rw [hend]
  exact Bool.false_ne_true

theorem parse_insert {table : Text} {cols : List Text} {lits : List Literal} (hcols : cols ≠ [])
    (hlits : lits ≠ []) (hwrite : ∀ l ∈ lits, l.Writable)
    (h : Lexer.Renders (insertTokens table cols lits) sql) :
    Parser.parse (sql ++ [' ']) =
      .ok (.insert (Parser.splitQualified table) cols [lits], [' ']) :=
  parse_of_renders h (by simp [insertTokens]) (insert_of_takes hcols hlits hwrite) rfl

theorem parse_select {table col : Text} {v : Int} (h0 : 0 ≤ v) (hlt : v < 2 ^ 63)
    (h : Lexer.Renders (selectTokens table col v) sql) :
    Parser.parse (sql ++ [' ']) = .ok (selectStatement table col v, [' ']) :=
  parse_of_renders h (by simp [selectTokens]) (select_of_takes h0 hlt) rfl

end Parse

end Dbms.Sql
