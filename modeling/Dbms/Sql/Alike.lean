import Dbms.Sql.Carried
import Dbms.Sql.Derivation

/-! How much of its tokens a statement determines: their number, and the strings among them. -/

open Dbms.Core Dbms.Lib

namespace Dbms.Sql
open Dbms.Sql.Parser (isKw cmpOp)

def Token.string? (t : Token) : Option Text := if t.kind = .string then some t.text else none

/-- Both tokens are the same string, or neither is a string; neither is the end. -/
structure SameString (t u : Token) : Prop where
  left : t.kind ≠ .eof
  right : u.kind ≠ .eof
  same : t.string? = u.string?

def TokKind.IsWord (k : TokKind) : Prop := k ≠ .eof ∧ k ≠ .string

instance (k : TokKind) : Decidable k.IsWord := inferInstanceAs (Decidable (_ ∧ _))

section
variable {t u : Token}

theorem sameString_of_word (ht : t.kind.IsWord) (hu : u.kind.IsWord) : SameString t u where
  left := ht.1
  right := hu.1
  same := by
    unfold Token.string?
    rw [if_neg ht.2, if_neg hu.2]

theorem sameString_of_text (ht : t.kind = .string) (hu : u.kind = .string) (h : t.text = u.text) :
    SameString t u where
  left := by simp [ht]
  right := by simp [hu]
  same := by
    unfold Token.string?
    rw [if_pos ht, if_pos hu, h]

theorem sameString_of_kind {k : TokKind} (ht : t.kind = k) (hu : u.kind = k)
    (hk : k.IsWord) : SameString t u :=
  sameString_of_word (ht ▸ hk) (hu ▸ hk)

theorem sameString_of_isKw {v w : String} (ht : isKw t v = true) (hu : isKw u w = true) :
    SameString t u := sameString_of_kind (Grammar.isKw_kind ht) (Grammar.isKw_kind hu) (by decide)

theorem ne_eof_of_same {ts us : List Token} (h : List.Forall₂ SameString ts us) :
    (∀ t ∈ ts, t.kind ≠ .eof) ∧ ∀ u ∈ us, u.kind ≠ .eof := by
  induction h with
  | nil => simp
  | cons htu _ ih => simpa [htu.left, htu.right] using ih

theorem IsLit.same {x : Literal} (ht : IsLit t x) (hu : IsLit u x) : SameString t u := by
  cases ht with
  | null h =>
    cases hu with
    | null h' => exact sameString_of_isKw h h'
  | number h _ =>
    cases hu with
    | number h' _ => exact sameString_of_kind h h' (by decide)
  | string h =>
    generalize hx : Literal.string t.text = x at hu
    cases hu with
    | null h' | number h' _ => cases hx
    | string h' => exact sameString_of_text h h' (Literal.string.inj hx)

theorem isWord_of_cmpOp {op : CmpOp} (h : cmpOp t.kind = some op) : t.kind.IsWord := by
  constructor
  · exact kind_of_cmpOp h
  · intro hkind
    rw [hkind] at h
    cases h

theorem cmpOp_same {op : CmpOp} (ht : cmpOp t.kind = some op) (hu : cmpOp u.kind = some op) :
    SameString t u := sameString_of_word (isWord_of_cmpOp ht) (isWord_of_cmpOp hu)

theorem LeafDerives.same {ts us : List Token} {l : Leaf} (h : LeafDerives ts l)
    (h' : LeafDerives us l) : List.Forall₂ SameString ts us := by
  cases h with
  | @between col b a k z x y hcol hb ha hk hz =>
    generalize hl : Leaf.between col.text x y = l at h'
    cases h' with
    | between hcol' hb' ha' hk' hz' =>
      obtain ⟨-, rfl, rfl⟩ := Leaf.between.inj hl
      exact .cons (sameString_of_kind hcol hcol' (by decide)) (.cons (sameString_of_isKw hb hb')
        (.cons (ha.same ha') (.cons (sameString_of_isKw hk hk') (.cons (hz.same hz') .nil))))
    | like | cmpLit | cmpCol => cases hl
  | @like col k p hcol hk hp =>
    generalize hl : Leaf.like col.text p.text = l at h'
    cases h' with
    | like hcol' hk' hp' =>
      exact .cons (sameString_of_kind hcol hcol' (by decide)) (.cons (sameString_of_isKw hk hk')
        (.cons (sameString_of_text hp hp' (Leaf.like.inj hl).2) .nil))
    | between | cmpLit | cmpCol => cases hl
  | @cmpLit col o r op x hcol ho hr =>
    generalize hl : Leaf.cmp col.text op (.lit x) = l at h'
    cases h' with
    | cmpLit hcol' ho' hr' =>
      obtain ⟨-, rfl, hx⟩ := Leaf.cmp.inj hl
      obtain rfl := Rhs.lit.inj hx
      exact .cons (sameString_of_kind hcol hcol' (by decide)) (.cons (cmpOp_same ho ho')
        (.cons (hr.same hr') .nil))
    | cmpCol => cases (Leaf.cmp.inj hl).2.2
    | between | like => cases hl
  | @cmpCol col o r op hcol ho hr =>
    generalize hl : Leaf.cmp col.text op (.col r.text) = l at h'
    cases h' with
    | cmpCol hcol' ho' hr' =>
      obtain ⟨-, rfl, -⟩ := Leaf.cmp.inj hl
      exact .cons (sameString_of_kind hcol hcol' (by decide)) (.cons (cmpOp_same ho ho')
        (.cons (sameString_of_kind hr hr' (by decide)) .nil))
    | cmpLit => cases (Leaf.cmp.inj hl).2.2
    | between | like => cases hl

end

section Derives
variable {v : Level} {ts us : List Token}

theorem Derives.of_leaf {l : Leaf} (h : Derives v ts (.leaf l)) : LeafDerives ts l := by
  generalize he : Expr.leaf l = e at h
  induction h with
  | leaf h => exact Expr.leaf.inj he ▸ h
  | prim _ ih | conj _ ih => exact ih he
  | paren | and | or => cases he

theorem Derives.of_paren {e : Expr} (h : Derives v ts (.paren e)) :
    ∃ p q us, ts = p :: us ++ [q] ∧ p.kind = .lParen ∧ Derives .or us e ∧ q.kind = .rParen := by
  generalize he : Expr.paren e = e' at h
  induction h with
  | paren hp h hq => exact ⟨_, _, _, rfl, hp, Expr.paren.inj he ▸ h, hq⟩
  | prim _ ih | conj _ ih => exact ih he
  | leaf | and | or => cases he

theorem Derives.of_andOr {kind : BinBool} {l r : Expr} (h : Derives v ts (.andOr kind l r)) :
    ∃ us k ws vl vr, ts = us ++ k :: ws ∧ k.kind = .kw ∧ Derives vl us l ∧ Derives vr ws r := by
  generalize he : Expr.andOr kind l r = e at h
  induction h with
  | and hl hk hr | or hl hk hr =>
    cases he
    exact ⟨_, _, _, _, _, rfl, Grammar.isKw_kind hk, hl, hr⟩
  | prim _ ih | conj _ ih => exact ih he
  | leaf | paren => cases he

theorem Derives.same {v' : Level} {e : Expr} (h : Derives v ts e) (h' : Derives v' us e) :
    List.Forall₂ SameString ts us := by
  induction e generalizing v v' ts us with
  | leaf l => exact h.of_leaf.same h'.of_leaf
  | paren e ih =>
    obtain ⟨p, q, ts, rfl, hp, hts, hq⟩ := h.of_paren
    obtain ⟨p', q', us, rfl, hp', hus, hq'⟩ := h'.of_paren
    exact .cons (sameString_of_kind hp hp' (by decide))
      (List.rel_append (ih hts hus) (.cons (sameString_of_kind hq hq' (by decide)) .nil))
  | andOr kind l r ihl ihr =>
    obtain ⟨ts, k, ts', vl, vr, rfl, hk, hl, hr⟩ := h.of_andOr
    obtain ⟨us, k', us', vl', vr', rfl, hk', hl', hr'⟩ := h'.of_andOr
    exact List.rel_append (ihl hl hl') (.cons (sameString_of_kind hk hk' (by decide)) (ihr hr hr'))

end Derives
namespace Grammar
variable {σ : Type} {S : TokenSource σ} {s s' u u' : σ}

/-- Phrases for the same value have as many tokens and the same strings among them. -/
abbrev Same {α : Type} (S : TokenSource σ) (D : Phrase σ α) : Prop := Alike S.toSource SameString D

abbrev Stringless {α : Type} (S : TokenSource σ) (D : Phrase σ α) : Prop :=
  Fixed S.toSource SameString D D

theorem stringless_word {α : Type} {P : Token → Prop} {v : Token → α}
    (h : ∀ t, P t → t.kind.IsWord) : Stringless S (.token S.toSource P v) :=
  fixed_token fun t u ht hu => sameString_of_word (h t ht) (h u hu)

theorem stringless_kw (word : String) : Stringless S (kw S word) :=
  fixed_token fun _ _ => sameString_of_isKw

theorem stringless_punct {k : TokKind} (hk : k.IsWord) : Stringless S (punct S k) :=
  stringless_word fun _ ht => ht ▸ hk

theorem stringless_ident : Stringless S (ident S) :=
  fixed_token fun _ _ h h' => sameString_of_kind h h' (by decide)

theorem stringless_tableName : Stringless S (tableName S) :=
  fixed_token fun _ _ h h' => sameString_of_kind h h' (by decide)

theorem matches_kw {v w : String} {a b : Unit} (h : kw S v s a s') (h' : kw S w u b u') :
    Matches S.toSource SameString s s' u u' :=
  fixed_token (fun _ _ => sameString_of_isKw) _ _ _ _ _ _ h h'

theorem matches_punct {k : TokKind} {a b : Unit} (h : punct S k s a s') (h' : punct S k u b u')
    (hk : k.IsWord) : Matches S.toSource SameString s s' u u' :=
  (stringless_punct hk).alike.apply h h'

theorem matches_ident {a b : Text} (h : ident S s a s') (h' : ident S u b u') :
    Matches S.toSource SameString s s' u u' := stringless_ident _ _ _ _ _ _ h h'

theorem matches_tableName {a b : Name} (h : tableName S s a s') (h' : tableName S u b u') :
    Matches S.toSource SameString s s' u u' := stringless_tableName _ _ _ _ _ _ h h'

theorem same_list {α : Type} {D : Phrase σ α} (hD : Same S D) : Same S (list S D) :=
  Alike.listOf (stringless_punct (by decide)) hD

theorem same_stringText : Same S (stringText S) := by
  rintro str s s' u u' ⟨hs, htext, rfl⟩ ⟨hu, rfl, rfl⟩
  exact Matches.scan (sameString_of_text hs hu htext.symm)

theorem same_password : Same S (password S) := by
  rintro str s s' u u' ⟨_, s₁, hkw, hstr⟩ ⟨_, u₁, hkw', hstr'⟩
  exact (matches_kw hkw hkw').trans (same_stringText.apply hstr hstr')

section Literals
variable (hans : S.answer = Parser.stollRange)
include hans

theorem same_literal : Same S (literal S) := by
  intro l s s' u u' h h'
  obtain ⟨hlit, rfl⟩ := (literal_iff hans).mp h
  obtain ⟨hlit', rfl⟩ := (literal_iff hans).mp h'
  exact Matches.scan (hlit.same hlit')

theorem same_tuple : Same S (tuple S) := by
  rintro lits s s' u u' ⟨_, s₁, hl, ls, s₂, hls, _, s₃, hr, rfl, rfl⟩
    ⟨_, u₁, hl', ls', u₂, hls', _, u₃, hr', rfl, rfl⟩
  have hliterals := (same_list (same_literal hans)).apply hls hls'
  exact ((matches_punct hl hl' (by decide)).trans hliterals).trans (matches_punct hr hr' (by decide))

theorem same_set : Same S (set S) := by
  rintro c s s' u u' ⟨col, s₁, hc, _, s₂, he, l, s₃, hl, rfl, rfl⟩
    ⟨col', u₁, hc', _, u₂, he', l', u₃, hl', h, rfl⟩
  obtain ⟨rfl, rfl⟩ := Prod.mk.inj h
  exact ((matches_ident hc hc').trans (matches_punct he he' (by decide))).trans
    ((same_literal hans).apply hl hl')

theorem same_boolExpr : Same S (boolExpr S) := by
  intro x s s' u u' h h'
  obtain ⟨ts, e, hts, he, hx⟩ := (boolExpr_iff hans).mp h
  obtain ⟨us, e', hus, he', hx'⟩ := (boolExpr_iff hans).mp h'
  obtain rfl : e = e' := Expr.clause_injective (by unfold Expr.clause; rw [← hx, ← hx'])
  exact ⟨ts, us, hts, hus, he.same he'⟩

theorem same_where : Same S (whereClause S) := by
  rintro w s s' u u' (⟨_, s₁, hkw, x, s₂, hx, rfl, rfl⟩ | ⟨rfl, rfl⟩)
    (⟨_, u₁, hkw', x', u₂, hx', h, rfl⟩ | ⟨h, rfl⟩)
  · obtain ⟨hnodes, hroot⟩ := WhereClause.mk.inj h
    obtain rfl : x = x' := Prod.ext (Option.some.inj hroot) hnodes
    exact (matches_kw hkw hkw').trans ((same_boolExpr hans).apply hx hx')
  · cases congrArg WhereClause.root h
  · cases congrArg WhereClause.root h
  · exact Matches.refl _ _

end Literals

/-! Items of SELECT have no strings; the value tells the number of their tokens. -/

/-- Reading `n` tokens from `s`, none of them a string or the end, leads to `s'`. -/
def TakesPlain (S : TokenSource σ) (n : Nat) (s s' : σ) : Prop :=
  ∃ ts, S.Takes ts s s' ∧ ts.length = n ∧ ∀ t ∈ ts, t.kind.IsWord

theorem TakesPlain.scan (h : (S.token s).kind.IsWord) : TakesPlain S 1 s (S.scan s).2 :=
  ⟨_, .cons .nil, rfl, by simpa using h⟩

theorem TakesPlain.trans {n m : Nat} {s₁ : σ} (h : TakesPlain S n s s₁) (h' : TakesPlain S m s₁ s') :
    TakesPlain S (n + m) s s' := by
  obtain ⟨ts, hts, rfl, hplain⟩ := h
  obtain ⟨us, hus, rfl, hplain'⟩ := h'
  refine ⟨ts ++ us, hts.append hus, List.length_append, fun t ht => ?_⟩
  exact (List.mem_append.mp ht).elim (hplain t) (hplain' t)

theorem TakesPlain.matches {n : Nat} (h : TakesPlain S n s s') (h' : TakesPlain S n u u') :
    Matches S.toSource SameString s s' u u' := by
  obtain ⟨ts, hts, rfl, hplain⟩ := h
  obtain ⟨us, hus, hlen, hplain'⟩ := h'
  refine ⟨ts, us, hts, hus, List.forall₂_iff_get.mpr ⟨hlen.symm, fun i hi hi' => ?_⟩⟩
  exact sameString_of_word (hplain _ (List.get_mem ..)) (hplain' _ (List.get_mem ..))

theorem takesPlain_word {α : Type} {P : Token → Prop} {v : Token → α} {a : α}
    (h : Phrase.token S.toSource P v s a s') (hP : ∀ t, P t → t.kind.IsWord) :
    TakesPlain S 1 s s' := by
  obtain ⟨hF, -, rfl⟩ := h
  exact .scan (hP _ hF)

theorem takesPlain_kw {word : String} {a : Unit} (h : kw S word s a s') : TakesPlain S 1 s s' :=
  takesPlain_word h fun t ht => by rw [isKw_kind ht]; decide

theorem takesPlain_punct {k : TokKind} {a : Unit} (h : punct S k s a s')
    (hk : k.IsWord) : TakesPlain S 1 s s' :=
  takesPlain_word h fun _ ht => ht ▸ hk

theorem takesPlain_ident {name : Text} (h : ident S s name s') : TakesPlain S 1 s s' :=
  takesPlain_word h fun t ht => by rw [ht]; decide

theorem takesPlain_starOrIdent {name : Text} (h : starOrIdent S s name s') : TakesPlain S 1 s s' := by
  rcases h with ⟨_, s₁, hstar, -, rfl⟩ | hident
  · exact takesPlain_punct hstar (by decide)
  · exact takesPlain_ident hident

theorem takesPlain_aggregate {word : String} {agg : AggFn} {arg : Phrase σ Text} {it : SelectItem}
    (harg : ∀ {name s s'}, arg s name s' → TakesPlain S 1 s s') (h : aggregate S word agg arg s it s') :
    it.agg = agg ∧ TakesPlain S 4 s s' := by
  obtain ⟨_, s₁, hkw, _, s₂, hl, name, s₃, hname, _, s₄, hr, rfl, rfl⟩ := h
  refine ⟨rfl, ?_⟩
  exact (((takesPlain_kw hkw).trans (takesPlain_punct hl (by decide))).trans (harg hname)).trans
    (takesPlain_punct hr (by decide))

def exprTokens (it : SelectItem) : Nat := if it.agg = .none then 1 else 4

theorem takesPlain_selectExpr {it : SelectItem} (h : selectExpr S s it s') :
    TakesPlain S (exprTokens it) s s' := by
  unfold exprTokens
  rcases h with h | h | h | ⟨name, s₁, hname, rfl, rfl⟩
  · obtain ⟨hagg, htakes⟩ := takesPlain_aggregate takesPlain_ident h
    rwa [hagg, if_neg (by decide)]
  · obtain ⟨hagg, htakes⟩ := takesPlain_aggregate takesPlain_starOrIdent h
    rwa [hagg, if_neg (by decide)]
  · obtain ⟨hagg, htakes⟩ := takesPlain_aggregate takesPlain_ident h
    rwa [hagg, if_neg (by decide)]
  · exact takesPlain_ident hname

def itemTokens (it : SelectItem) : Nat := exprTokens it + if it.aliasName = [] then 0 else 2

theorem takesPlain_selectItem {it : SelectItem} (h : selectItem S s it s') :
    TakesPlain S (itemTokens it) s s' := by
  unfold itemTokens
  obtain ⟨it₀, s₁, hexpr, ⟨_, s₂, hkw, name, s₃, hname, rfl, rfl⟩ | ⟨rfl, rfl⟩⟩ := h
  · have hne : name ≠ [] := hname.2.1 ▸ S.ident_ne _ hname.1
    rw [if_neg hne]
    exact (takesPlain_selectExpr hexpr).trans ((takesPlain_kw hkw).trans (takesPlain_ident hname))
  · rw [if_pos (selectExpr_aliasName hexpr)]
    exact takesPlain_selectExpr hexpr

theorem same_selectItem : Same S (selectItem S) := by
  intro it s s' u u' h h'
  exact (takesPlain_selectItem h).matches (takesPlain_selectItem h')

theorem takesPlain_star {items : List SelectItem} (hitems : items = [{ col := "*".toList }])
    (h : selectItems S s items s') : TakesPlain S 1 s s' := by
  rcases h with ⟨_, s₁, hstar, -, rfl⟩ | hlist
  · exact takesPlain_punct hstar (by decide)
  · cases hlist with
    | one hitem =>
      obtain rfl := List.head_eq_of_cons_eq hitems
      exact takesPlain_selectItem hitem
    | more _ _ hmore =>
      obtain rfl := (List.cons.inj hitems).2
      cases hmore

theorem same_selectItems : Same S (selectItems S) := by
  intro items s s' u u' h h'
  by_cases hstar : items = [{ col := "*".toList }]
  · exact (takesPlain_star hstar h).matches (takesPlain_star hstar h')
  · rcases h with ⟨_, _, _, rfl, -⟩ | hlist
    · exact absurd rfl hstar
    rcases h' with ⟨_, _, _, rfl, -⟩ | hlist'
    · exact absurd rfl hstar
    exact (same_list same_selectItem).apply hlist hlist'

theorem matches_valueKw {a b : Unit} (h : valueKw S s a s') (h' : valueKw S u b u') :
    Matches S.toSource SameString s s' u u' := by
  rcases h with h | h <;> rcases h' with h' | h' <;> exact matches_kw h h'

section Statements
variable (hans : S.answer = Parser.stollRange)
include hans

theorem same_select : Same S (select S) := by
  rintro st s s' u u'
    ⟨items, s₁, hitems, _, s₂, hfrom, table, s₃, htable, w, s₄, hw, rfl, rfl⟩
    ⟨items', u₁, hitems', _, u₂, hfrom', table', u₃, htable', w', u₄, hw', h, rfl⟩
  obtain ⟨rfl, -, rfl⟩ := Statement.select.inj h
  exact (((same_selectItems.apply hitems hitems').trans (matches_kw hfrom hfrom')).trans
    (matches_tableName htable htable')).trans ((same_where hans).apply hw hw')

theorem same_insert : Same S (insert S) := by
  rintro st s s' u u'
    ⟨_, s₁, hinto, table, s₂, htable, _, s₃, hl, cols, s₄, hcols, _, s₅, hr, _, s₆, hvalue, rows, s₇,
      hrows, rfl, rfl⟩
    ⟨_, u₁, hinto', table', u₂, htable', _, u₃, hl', cols', u₄, hcols', _, u₅, hr', _, u₆, hvalue',
      rows', u₇, hrows', h, rfl⟩
  obtain ⟨-, rfl, rfl⟩ := Statement.insert.inj h
  have hcolumns := (same_list (stringless_ident (S := S)).alike).apply hcols hcols'
  have hhead := (((matches_kw hinto hinto').trans (matches_tableName htable htable')).trans
    (matches_punct hl hl' (by decide))).trans hcolumns
  exact ((hhead.trans (matches_punct hr hr' (by decide))).trans (matches_valueKw hvalue hvalue')).trans
    ((same_list (same_tuple hans)).apply hrows hrows')

theorem same_update : Same S (update S) := by
  rintro st s s' u u'
    ⟨table, s₁, htable, _, s₂, hset, sets, s₃, hsets, w, s₄, hw, rfl, rfl⟩
    ⟨table', u₁, htable', _, u₂, hset', sets', u₃, hsets', w', u₄, hw', h, rfl⟩
  obtain ⟨-, rfl, rfl⟩ := Statement.update.inj h
  exact (((matches_tableName htable htable').trans (matches_kw hset hset')).trans
    ((same_list (same_set hans)).apply hsets hsets')).trans ((same_where hans).apply hw hw')

theorem same_delete : Same S (delete S) := by
  rintro st s s' u u'
    ⟨_, s₁, hfrom, table, s₂, htable, w, s₃, hw, rfl, rfl⟩
    ⟨_, u₁, hfrom', table', u₂, htable', w', u₃, hw', h, rfl⟩
  obtain ⟨-, rfl⟩ := Statement.delete.inj h
  exact ((matches_kw hfrom hfrom').trans (matches_tableName htable htable')).trans
    ((same_where hans).apply hw hw')

omit hans in
theorem same_login : Same S (login S) := by
  rintro st s s' u u' ⟨_, s₁, hkw, user, s₂, huser, pw, s₃, hpw, rfl, rfl⟩
    ⟨_, u₁, hkw', user', u₂, huser', pw', u₃, hpw', h, rfl⟩
  obtain ⟨-, rfl⟩ := Statement.authLogin.inj h
  exact ((matches_kw hkw hkw').trans (matches_ident huser huser')).trans (same_password.apply hpw hpw')

end Statements

theorem matches_named {v w : String} {a b : Text} {s₁ u₁ : σ} {x y : Unit}
    (h : kw S v s x s₁) (hname : ident S s₁ a s') (h' : kw S w u y u₁) (hname' : ident S u₁ b u') :
    Matches S.toSource SameString s s' u u' :=
  (matches_kw h h').trans (matches_ident hname hname')

/-- Except for tables, whose column attributes may be repeated. -/
theorem same_create {st : Statement} (hst : ∀ table columns, st ≠ .createTable table columns)
    (h : create S s st s') (h' : create S u st u') : Matches S.toSource SameString s s' u u' := by
  simp only [create, Phrase.either, Phrase.bind_iff, Phrase.pure_iff] at h h'
  cases st with
  | createTable table columns => exact absurd rfl (hst table columns)
  | createDatabase name =>
    simp only [reduceCtorEq, false_and, and_false, exists_false, or_false] at h h'
    obtain ⟨_, s₁, hkw, name, s₂, hname, -, rfl⟩ := h
    obtain ⟨_, u₁, hkw', name', u₂, hname', -, rfl⟩ := h'
    exact matches_named hkw hname hkw' hname'
  | authCreateGroup group =>
    simp only [reduceCtorEq, false_and, and_false, exists_false, false_or] at h h'
    obtain ⟨_, s₁, hkw, name, s₂, hname, -, rfl⟩ := h
    obtain ⟨_, u₁, hkw', name', u₂, hname', -, rfl⟩ := h'
    exact matches_named hkw hname hkw' hname'
  | authCreateUser user pw =>
    simp only [reduceCtorEq, false_and, and_false, exists_false, false_or, or_false] at h h'
    obtain ⟨_, s₁, hkw, user₁, s₂, huser, pw₁, s₃, hpw, hst₁, rfl⟩ := h
    obtain ⟨_, u₁, hkw', user₂, u₂, huser', pw₂, u₃, hpw', hst₂, rfl⟩ := h'
    obtain ⟨-, rfl⟩ := Statement.authCreateUser.inj hst₁
    obtain ⟨-, rfl⟩ := Statement.authCreateUser.inj hst₂
    exact ((matches_kw hkw hkw').trans (matches_ident huser huser')).trans
      (same_password.apply hpw hpw')
  | _ => simp at h

theorem same_drop : Same S (drop S) := by
  intro st s s' u u' h h'
  simp only [drop, Phrase.either, Phrase.bind_iff, Phrase.pure_iff] at h h'
  cases st with
  | dropDatabase name =>
    simp only [reduceCtorEq, false_and, and_false, exists_false, or_false] at h h'
    obtain ⟨_, s₁, hkw, name, s₂, hname, -, rfl⟩ := h
    obtain ⟨_, u₁, hkw', name', u₂, hname', -, rfl⟩ := h'
    exact matches_named hkw hname hkw' hname'
  | dropTable table =>
    simp only [reduceCtorEq, false_and, and_false, exists_false, false_or] at h h'
    obtain ⟨_, s₁, hkw, name, s₂, hname, -, rfl⟩ := h
    obtain ⟨_, u₁, hkw', name', u₂, hname', -, rfl⟩ := h'
    exact (matches_kw hkw hkw').trans (matches_tableName hname hname')
  | _ => simp at h

theorem same_use : Same S (do return Statement.use (← ident S)) :=
  (stringless_ident.bind fun _ _ => fixed_pure _ _).alike

theorem same_revert : Same S (revert S) :=
  (stringless_tableName.bind fun _ _ => stringless_ident.bind fun _ _ => fixed_pure _ _).alike

theorem same_grant : Same S (grant S) :=
  (stringless_ident.bind fun _ _ => (stringless_kw "ON").bind fun _ _ => stringless_ident.bind fun _ _ =>
    (stringless_kw "TO").bind fun _ _ => (stringless_kw "USER").bind fun _ _ =>
      stringless_ident.bind fun _ _ => fixed_pure _ _).alike

end Grammar

def Statement.word : Statement → String
  | .createDatabase _ | .createTable .. | .authCreateUser .. | .authCreateGroup _ => "CREATE"
  | .dropDatabase _ | .dropTable _ => "DROP"
  | .use _ => "USE"
  | .insert .. => "INSERT"
  | .update .. => "UPDATE"
  | .delete .. => "DELETE"
  | .select .. => "SELECT"
  | .revert .. => "REVERT"
  | .authLogin .. => "LOGIN"
  | .authGrant .. => "GRANT"

namespace Grammar
variable {σ : Type} {S : TokenSource σ} {s s' u u' : σ}

theorem gives_ite {c : Prop} [Decidable c] {α : Type} {D D' : Phrase σ α} {P : α → Prop}
    (h : c → Gives D P) (h' : Gives D' P) : Gives (if c then D else D') P := by
  split
  · rename_i hc
    exact h hc
  · exact h'

theorem gives_form (word : String) : Gives (form S word) fun st => st.word = word := by
  unfold form
  refine gives_ite ?_ (gives_ite ?_ (gives_ite ?_ (gives_ite ?_ (gives_ite ?_ (gives_ite ?_
    (gives_ite ?_ (gives_ite ?_ (gives_ite ?_ (gives_ite ?_ ?_)))))))))
  · rintro rfl
    refine Gives.either ?_ (Gives.either ?_ (Gives.either ?_ ?_))
    · exact .bind fun _ => .bind fun _ => gives_pure rfl
    · exact .bind fun _ => .bind fun _ => .bind fun _ => .bind fun _ => .bind fun _ => gives_pure rfl
    · exact .bind fun _ => .bind fun _ => .bind fun _ => gives_pure rfl
    · exact .bind fun _ => .bind fun _ => gives_pure rfl
  · rintro rfl
    apply Gives.either
    · exact .bind fun _ => .bind fun _ => gives_pure rfl
    · exact .bind fun _ => .bind fun _ => gives_pure rfl
  · rintro rfl
    exact .bind fun _ => gives_pure rfl
  · rintro rfl
    exact .bind fun _ => .bind fun _ => .bind fun _ => .bind fun _ => .bind fun _ => .bind fun _ =>
      .bind fun _ => gives_pure rfl
  · rintro rfl
    exact .bind fun _ => .bind fun _ => .bind fun _ => .bind fun _ => gives_pure rfl
  · rintro rfl
    exact .bind fun _ => .bind fun _ => .bind fun _ => gives_pure rfl
  · rintro rfl
    exact .bind fun _ => .bind fun _ => .bind fun _ => .bind fun _ => gives_pure rfl
  · rintro rfl
    exact .bind fun _ => .bind fun _ => gives_pure rfl
  · rintro rfl
    exact .bind fun _ => .bind fun _ => .bind fun _ => gives_pure rfl
  · rintro rfl
    exact .bind fun _ => .bind fun _ => .bind fun _ => .bind fun _ => .bind fun _ => .bind fun _ =>
      gives_pure rfl
  · exact fun _ _ _ h => h.elim

theorem matches_ite {c : Prop} [Decidable c] {α : Type} {a : α} {D D' : Phrase σ α}
    (hD : D s a s' → D u a u' → Matches S.toSource SameString s s' u u')
    (hD' : D' s a s' → D' u a u' → Matches S.toSource SameString s s' u u') :
    (if c then D else D') s a s' → (if c then D else D') u a u' →
      Matches S.toSource SameString s s' u u' := by
  split
  · exact hD
  · exact hD'

theorem Same.matches {α : Type} {a : α} {D : Phrase σ α} (hD : Same S D) :
    D s a s' → D u a u' → Matches S.toSource SameString s s' u u' := hD.apply

variable (hans : S.answer = Parser.stollRange) {st : Statement}
  (hst : ∀ table columns, st ≠ .createTable table columns)
include hans hst

theorem matches_form {word : String} : form S word s st s' → form S word u st u' →
    Matches S.toSource SameString s s' u u' := by
  unfold form
  refine matches_ite (same_create hst) (matches_ite same_drop.matches (matches_ite same_use.matches ?_))
  refine matches_ite (same_insert hans).matches (matches_ite (same_update hans).matches ?_)
  refine matches_ite (same_delete hans).matches (matches_ite (same_select hans).matches ?_)
  refine matches_ite same_revert.matches (matches_ite same_login.matches ?_)
  exact matches_ite same_grant.matches fun h => h.elim

theorem matches_statement (h : statement S s st s') (h' : statement S u st u') :
    Matches S.toSource SameString s s' u u' := by
  obtain ⟨word, _, s₁, hkw, hform⟩ := h
  obtain ⟨word', _, u₁, hkw', hform'⟩ := h'
  obtain rfl : word = word' :=
    (gives_form word s₁ st s' hform).symm.trans (gives_form word' u₁ st u' hform')
  exact (matches_kw hkw hkw').trans (matches_form hans hst hform hform')

omit hans hst in
/-- A statement that creates a table ends with a parenthesis. -/
theorem takes_createTable {table : Name} {columns : List ColumnDef}
    (h : statement S s (.createTable table columns) s') :
    ∃ ts t, S.Takes (ts ++ [t]) s s' ∧ (∀ u ∈ ts, S.solid u) ∧ t.kind = .rParen := by
  obtain ⟨word, _, s₁, hcreate, hform⟩ := h
  obtain rfl : "CREATE" = word := gives_form word _ _ _ hform
  rw [form, if_pos rfl] at hform
  simp only [create, Phrase.either, Phrase.bind_iff, Phrase.pure_iff, reduceCtorEq, false_and,
    and_false, exists_false, false_or, or_false] at hform
  obtain ⟨_, s₂, htable, name, s₃, hname, _, s₄, hl, cols, s₅, hcols, _, s₆, ⟨hr, -, rfl⟩, -, rfl⟩ :=
    hform
  have hkw : ∀ w, Carried S S id id (kw S w) (kw S w) := carried_kw
  have hcolumns : Carried S S id _ _ _ := carried_list (carried_columnDef rfl)
  have hhead := (hkw _ _ _ _ hcreate).trans ((hkw _ _ _ _ htable).trans
    ((carried_tableName _ _ _ hname).trans ((carried_punct (by decide) _ _ _ hl).trans
      (hcolumns _ _ _ hcols))))
  obtain ⟨ts, hts, hsolid, -⟩ := hhead
  exact ⟨ts, _, hts.append (.cons .nil), hsolid, hr⟩

omit hans hst in
/-- A place is the beginning of one statement at most that the next token does not carry on. -/
theorem statement_unique {st₁ st₂ : Statement} {s₁ s₂ : σ} (h₁ : statement S s st₁ s₁)
    (hstop₁ : ¬goesOn st₁ (S.token s₁) = true) (h₂ : statement S s st₂ s₂)
    (hstop₂ : ¬goesOn st₂ (S.token s₂) = true) : st₁ = st₂ ∧ s₁ = s₂ := by
  have hread := reads_statement (S := S) (E := fun _ => True) ⟨fun _ => trivial, fun _ _ _ => trivial⟩ s
    (Nat.lt_succ_self _)
  have hrun := (hread.iff st₁ s₁).mpr ⟨h₁, hstop₁⟩
  rw [(hread.iff st₂ s₂).mpr ⟨h₂, hstop₂⟩] at hrun
  exact ⟨congrArg Prod.fst (Except.ok.inj hrun).symm, congrArg Prod.snd (Except.ok.inj hrun).symm⟩

end Grammar
end Dbms.Sql
