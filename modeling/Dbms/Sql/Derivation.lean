import Dbms.Sql.Expr
import Dbms.Sql.Recognise
import Dbms.Sql.TextSource

/-! The grammar of boolean expressions over lists of tokens, with the tree that each derivation
stands for. -/

open Dbms.Core Dbms.Lib

namespace Dbms.Sql
open Dbms.Sql.Parser (isKw cmpOp Nodes push)

inductive IsLit : Token → Literal → Prop where
  | null {t : Token} : isKw t "NULL" = true → IsLit t .null
  | number {t : Token} {v : Int} : t.kind = .number → Parser.stollRange t.text = .ok v →
      IsLit t (.int v)
  | string {t : Token} : t.kind = .string → IsLit t (.string t.text)

/-- `col BETWEEN lit AND lit | col LIKE string | col op (lit | col)`. -/
inductive LeafDerives : List Token → Leaf → Prop where
  | between {col b a k z : Token} {x y : Literal} : col.kind = .ident → isKw b "BETWEEN" = true →
      IsLit a x → isKw k "AND" = true → IsLit z y →
      LeafDerives [col, b, a, k, z] (.between col.text x y)
  | like {col k p : Token} : col.kind = .ident → isKw k "LIKE" = true → p.kind = .string →
      LeafDerives [col, k, p] (.like col.text p.text)
  | cmpLit {col o r : Token} {op : CmpOp} {x : Literal} : col.kind = .ident →
      cmpOp o.kind = some op → IsLit r x →
      LeafDerives [col, o, r] (.cmp col.text op (.lit x))
  | cmpCol {col o r : Token} {op : CmpOp} : col.kind = .ident → cmpOp o.kind = some op →
      r.kind = .ident → LeafDerives [col, o, r] (.cmp col.text op (.col r.text))

inductive Level where
  | prim
  | and
  | or

/-- `or := and (OR and)*`, `and := prim (AND prim)*`, `prim := '(' or ')' | leaf`; a chain leans to
the left. -/
inductive Derives : Level → List Token → Expr → Prop where
  | leaf {ts : List Token} {l : Leaf} : LeafDerives ts l → Derives .prim ts (.leaf l)
  | paren {p q : Token} {ts : List Token} {e : Expr} : p.kind = .lParen → Derives .or ts e →
      q.kind = .rParen → Derives .prim (p :: ts ++ [q]) (.paren e)
  | prim {ts : List Token} {e : Expr} : Derives .prim ts e → Derives .and ts e
  | and {ts us : List Token} {k : Token} {l r : Expr} : Derives .and ts l → isKw k "AND" = true →
      Derives .prim us r → Derives .and (ts ++ k :: us) (.andOr .and l r)
  | conj {ts : List Token} {e : Expr} : Derives .and ts e → Derives .or ts e
  | or {ts us : List Token} {k : Token} {l r : Expr} : Derives .or ts l → isKw k "OR" = true →
      Derives .and us r → Derives .or (ts ++ k :: us) (.andOr .or l r)

section Solid
variable {t : Token}

theorem kind_of_isKw {w : String} (h : isKw t w = true) : t.kind ≠ .eof := by
  rw [Grammar.isKw_kind h]
  decide

theorem IsLit.kind {x : Literal} (h : IsLit t x) : t.kind ≠ .eof := by
  cases h with
  | null h => exact kind_of_isKw h
  | number h _ | string h => simp [h]

theorem kind_of_cmpOp {op : CmpOp} (h : cmpOp t.kind = some op) : t.kind ≠ .eof := by
  intro heof
  rw [heof] at h
  cases h

theorem LeafDerives.kind {ts : List Token} {l : Leaf} (h : LeafDerives ts l) :
    ∀ t ∈ ts, t.kind ≠ .eof := by
  have hident : ∀ {t : Token}, t.kind = .ident → t.kind ≠ .eof := fun h => by simp [h]
  have hstring : ∀ {t : Token}, t.kind = .string → t.kind ≠ .eof := fun h => by simp [h]
  cases h with
  | between hcol hb ha hk hz =>
    simpa using ⟨hident hcol, kind_of_isKw hb, ha.kind, kind_of_isKw hk, hz.kind⟩
  | like hcol hk hp => simpa using ⟨hident hcol, kind_of_isKw hk, hstring hp⟩
  | cmpLit hcol ho hr => simpa using ⟨hident hcol, kind_of_cmpOp ho, hr.kind⟩
  | cmpCol hcol ho hr => simpa using ⟨hident hcol, kind_of_cmpOp ho, hident hr⟩

theorem Derives.kind {v : Level} {ts : List Token} {e : Expr} (h : Derives v ts e) :
    ∀ t ∈ ts, t.kind ≠ .eof := by
  induction h with
  | leaf h => exact h.kind
  | @paren p q ts e hp _ hq ih =>
    intro t ht
    simp only [List.cons_append, List.mem_cons, List.mem_append, List.not_mem_nil, or_false] at ht
    rcases ht with rfl | ht | rfl
    · simp [hp]
    · exact ih t ht
    · simp [hq]
  | prim _ ih | conj _ ih => exact ih
  | and _ hk _ ihl ihr | or _ hk _ ihl ihr =>
    intro t ht
    rcases List.mem_append.mp ht with ht | ht
    · exact ihl t ht
    · rcases List.mem_cons.mp ht with rfl | ht
      · exact kind_of_isKw hk
      · exact ihr t ht

end Solid

namespace Grammar
variable {σ : Type} {S : TokenSource σ} {s s' : σ} {w : Nodes} {x : Nat × Nodes} {m : Nat}

section Leaves
variable (hans : S.answer = Parser.stollRange)
include hans

theorem literal_iff {l : Literal} :
    literal S s l s' ↔ IsLit (S.token s) l ∧ s' = (S.scan s).2 := by
  constructor
  · rintro (⟨u, s₁, ⟨hkw, -, rfl⟩, rfl, rfl⟩ | ⟨v, s₁, ⟨hkind, hv, rfl⟩, rfl, rfl⟩ |
      ⟨str, s₁, ⟨hkind, rfl, rfl⟩, rfl, rfl⟩)
    · exact ⟨.null hkw, rfl⟩
    · rw [hans] at hv
      exact ⟨.number hkind hv, rfl⟩
    · exact ⟨.string hkind, rfl⟩
  · rintro ⟨h, rfl⟩
    cases h with
    | null hkw => exact .inl ⟨(), _, ⟨hkw, rfl, rfl⟩, rfl, rfl⟩
    | number hkind hv =>
      rw [← hans] at hv
      exact .inr (.inl ⟨_, _, ⟨hkind, hv, rfl⟩, rfl, rfl⟩)
    | string hkind => exact .inr (.inr ⟨_, _, ⟨hkind, rfl, rfl⟩, rfl, rfl⟩)

theorem predicate_iff :
    predicate S w s x s' ↔ ∃ ts l, S.Takes ts s s' ∧ LeafDerives ts l ∧ x = (Expr.leaf l).build w := by
  constructor
  · rintro ⟨col, s₁, ⟨hcol, rfl, rfl⟩, hcond⟩
    rcases hcond with ⟨u, s₂, ⟨hb, -, rfl⟩, a, s₃, ha, v, s₄, ⟨hk, -, rfl⟩, z, s₅, hz, rfl, rfl⟩ |
      ⟨u, s₂, ⟨hk, -, rfl⟩, p, s₃, ⟨hp, rfl, rfl⟩, rfl, rfl⟩ |
      ⟨op, s₂, ⟨ho, rfl⟩, r, s₃, hr, rfl, rfl⟩
    · obtain ⟨hx, rfl⟩ := (literal_iff hans).mp ha
      obtain ⟨hy, rfl⟩ := (literal_iff hans).mp hz
      exact ⟨_, _, .cons (.cons (.cons (.cons (.cons .nil)))), .between hcol hb hx hk hy, rfl⟩
    · exact ⟨_, _, .cons (.cons (.cons .nil)), .like hcol hk hp, rfl⟩
    · rcases hr with ⟨name, s₄, ⟨hname, rfl, rfl⟩, rfl, rfl⟩ | ⟨y, s₄, hy, rfl, rfl⟩
      · exact ⟨_, _, .cons (.cons (.cons .nil)), .cmpCol hcol ho hname, rfl⟩
      · obtain ⟨hz, rfl⟩ := (literal_iff hans).mp hy
        exact ⟨_, _, .cons (.cons (.cons .nil)), .cmpLit hcol ho hz, rfl⟩
  · rintro ⟨ts, l, hts, hl, rfl⟩
    cases hl with
    | between hcol hb ha hk hz =>
      obtain ⟨rfl, rfl, rfl, rfl, rfl, rfl⟩ := hts
      have ha := (literal_iff hans).mpr ⟨ha, rfl⟩
      have hz := (literal_iff hans).mpr ⟨hz, rfl⟩
      exact ⟨_, _, ⟨hcol, rfl, rfl⟩, .inl ⟨(), _, ⟨hb, rfl, rfl⟩, _, _, ha, (), _, ⟨hk, rfl, rfl⟩,
        _, _, hz, rfl, rfl⟩⟩
    | like hcol hk hp =>
      obtain ⟨rfl, rfl, rfl, rfl⟩ := hts
      exact ⟨_, _, ⟨hcol, rfl, rfl⟩, .inr (.inl ⟨(), _, ⟨hk, rfl, rfl⟩, _, _, ⟨hp, rfl, rfl⟩,
        rfl, rfl⟩)⟩
    | cmpLit hcol ho hr =>
      obtain ⟨rfl, rfl, rfl, rfl⟩ := hts
      have hr := (literal_iff hans).mpr ⟨hr, rfl⟩
      exact ⟨_, _, ⟨hcol, rfl, rfl⟩, .inr (.inr ⟨_, _, ⟨ho, rfl⟩, _, _,
        .inr ⟨_, _, hr, rfl, rfl⟩, rfl, rfl⟩)⟩
    | cmpCol hcol ho hr =>
      obtain ⟨rfl, rfl, rfl, rfl⟩ := hts
      exact ⟨_, _, ⟨hcol, rfl, rfl⟩, .inr (.inr ⟨_, _, ⟨ho, rfl⟩, _, _,
        .inl ⟨_, _, ⟨hr, rfl, rfl⟩, rfl, rfl⟩, rfl, rfl⟩)⟩

end Leaves

/-- The tokens from `s` to `s'` derive a tree whose nodes are those of `x` behind `w`. -/
def Spells (S : TokenSource σ) (v : Level) (w : Nodes) (s : σ) (x : Nat × Nodes) (s' : σ) : Prop :=
  ∃ ts e, S.Takes ts s s' ∧ Derives v ts e ∧ x = e.build w

theorem Spells.fold {kind : BinBool} {word : String} {u v : Level}
    {phrase : Nodes → Phrase σ (Nat × Nodes)} {y : Nat × Nodes}
    (hphrase : ∀ w s x s', phrase w s x s' → Spells S u w s x s')
    (hmore : ∀ {ts us k l r}, Derives v ts l → isKw k word = true → Derives u us r →
      Derives v (ts ++ k :: us) (.andOr kind l r))
    (h : Phrase.Fold (boolStep S kind word phrase) x s y s') {s₀ : σ} (hx : Spells S v w s₀ x s) :
    Spells S v w s₀ y s' := by
  induction h with
  | stop => exact hx
  | more hstep _ ih =>
    obtain ⟨b, s₁, ⟨hkw, -, rfl⟩, z, s₂, hz, rfl, rfl⟩ := hstep
    obtain ⟨us, r, hus, hr, rfl⟩ := hphrase _ _ _ _ hz
    obtain ⟨ts, l, hts, hl, rfl⟩ := hx
    apply ih
    exact ⟨_, _, hts.append hus.cons, hmore hl hkw hr, rfl⟩

variable (hans : S.answer = Parser.stollRange)

include hans in
theorem spells_of_primary {inner : Nodes → Phrase σ (Nat × Nodes)}
    (hinner : ∀ w s x s', inner w s x s' → Spells S .or w s x s')
    (h : boolPrimary S inner w s x s') : Spells S .prim w s x s' := by
  rcases h with ⟨b, s₁, ⟨hp, -, rfl⟩, y, s₂, hy, c, s₃, ⟨hq, -, rfl⟩, rfl, rfl⟩ | hpred
  · obtain ⟨ts, e, hts, he, rfl⟩ := hinner _ _ _ _ hy
    exact ⟨_, _, (hts.append (.cons .nil)).cons, .paren hp he hq, rfl⟩
  · obtain ⟨ts, l, hts, hl, rfl⟩ := (predicate_iff hans).mp hpred
    exact ⟨ts, _, hts, .leaf hl, rfl⟩

theorem spells_of_and {primary : Nodes → Phrase σ (Nat × Nodes)}
    (hprimary : ∀ w s x s', primary w s x s' → Spells S .prim w s x s')
    (h : boolAnd S primary w s x s') : Spells S .and w s x s' := by
  obtain ⟨y, s₁, hy, hfold⟩ := h
  obtain ⟨ts, e, hts, he, hye⟩ := hprimary _ _ _ _ hy
  exact Spells.fold hprimary .and hfold ⟨ts, e, hts, .prim he, hye⟩

include hans

theorem spells_of_or {d : Nat} (h : boolOr S d w s x s') :
    Spells S .or w s x s' := by
  induction d generalizing w s x s' with
  | zero => exact h.elim
  | succ d ih =>
    have hand : ∀ w s x s', boolAnd S (boolPrimary S (boolOr S d)) w s x s' →
        Spells S .and w s x s' := fun w s x s' h =>
      spells_of_and (fun _ _ _ _ h => spells_of_primary hans (fun _ _ _ _ h => ih h) h) h
    obtain ⟨y, s₁, hy, hfold⟩ := h
    obtain ⟨ts, e, hts, he, hye⟩ := hand _ _ _ _ hy
    exact Spells.fold hand .or hfold ⟨ts, e, hts, .conj he, hye⟩

omit hans in
def levelPhrase (S : TokenSource σ) (m : Nat) : Level → Nodes → Phrase σ (Nat × Nodes)
  | .prim => boolPrimary S (boolOr S m)
  | .and => boolAnd S (boolPrimary S (boolOr S m))
  | .or => boolOr S (m + 1)

theorem levelPhrase_of_derives {v : Level} {ts : List Token} {e : Expr} (h : Derives v ts e)
    (hts : S.Takes ts s s') (hm : S.size s ≤ m) :
    levelPhrase S m v w s (e.build w) s' := by
  induction h generalizing m w s s' with
  | leaf hl => exact .inr ((predicate_iff hans).mpr ⟨_, _, hts, hl, rfl⟩)
  | @paren p q ts e hp _ hq ih =>
    obtain ⟨rfl, hrest⟩ := hts
    obtain ⟨s₁, hts, rfl, rfl⟩ := Source.takes_append.mp hrest
    -- what stands behind the parenthesis is smaller
    have hlt := S.size_lt s (S.solid_of _ (by rw [show (S.scan s).1.kind = _ from hp]; decide))
    obtain ⟨m, rfl⟩ : ∃ k, m = k + 1 := ⟨m - 1, by omega⟩
    have hinner := ih (w := w) hts (Nat.le_of_lt_succ (Nat.lt_of_lt_of_le hlt hm))
    exact .inl ⟨(), _, ⟨hp, rfl, rfl⟩, _, _, hinner, (), _, ⟨hq, rfl, rfl⟩, rfl, rfl⟩
  | prim _ ih => exact ⟨_, _, ih hts hm, .stop⟩
  | conj _ ih => exact ⟨_, _, ih hts hm, .stop⟩
  | @and ts us k l r _ hk _ ihl ihr | @or ts us k l r _ hk _ ihl ihr =>
    obtain ⟨s₁, hleft, rfl, hright⟩ := Source.takes_append.mp hts
    obtain ⟨y, s₀, hy, hfold⟩ := ihl (w := w) hleft hm
    have hr := ihr (w := (l.build w).2) hright
      (Nat.le_trans (S.size_le s₁) (Nat.le_trans hleft.size_le hm))
    exact ⟨y, s₀, hy, hfold.snoc ⟨(), _, ⟨hk, rfl, rfl⟩, _, _, hr, rfl, rfl⟩⟩

theorem boolExpr_iff :
    boolExpr S s x s' ↔ ∃ ts e, S.Takes ts s s' ∧ Derives .or ts e ∧ x = e.build [] := by
  constructor
  · rintro ⟨d, h⟩
    exact spells_of_or hans h
  · rintro ⟨ts, e, hts, he, rfl⟩
    exact ⟨_, levelPhrase_of_derives hans he hts (Nat.le_refl _)⟩

/-- The tokens behind the first one begin with `ts`, which derive `e`; neither AND nor OR follows. -/
structure IsCondition (S : TokenSource σ) (s : σ) (ts : List Token) (e : Expr) (s' : σ) : Prop where
  takes : S.Takes ts (S.scan s).2 s'
  derives : Derives .or ts e
  ends : ¬boolKw (S.token s')

theorem parseWhere_iff {n : Nat} {c : WhereClause}
    (hwhere : isKw (S.token s) "WHERE" = true) (hn : S.size s < n) :
    (Parser.parseWhere n).run S.scan S.answer s = .ok (c, s') ↔
      ∃ ts e, IsCondition S s ts e s' ∧ c = e.clause := by
  have hread := reads_where (n := n) (S := S) (E := fun _ => True)
    ⟨fun _ => trivial, fun _ _ _ => trivial⟩ s hn
  rw [hread.iff]
  constructor
  · rintro ⟨⟨u, s₁, ⟨-, -, rfl⟩, x, s₂, hx, rfl, rfl⟩ | ⟨rfl, rfl⟩, hstop⟩
    · obtain ⟨ts, e, hts, he, rfl⟩ := (boolExpr_iff hans).mp hx
      refine ⟨ts, e, ⟨hts, he, fun h => hstop ?_⟩, rfl⟩
      simpa [whereGoesOn, boolKw, or_comm] using h
    · exact absurd hwhere hstop
  · rintro ⟨ts, e, ⟨hts, he, hends⟩, rfl⟩
    refine ⟨.inl ⟨(), _, ⟨hwhere, rfl, rfl⟩, e.build [], s', ?_, rfl, rfl⟩, fun h => hends ?_⟩
    · exact (boolExpr_iff hans).mpr ⟨ts, e, hts, he, rfl⟩
    · simpa [Expr.clause, whereGoesOn, boolKw, or_comm] using h

theorem IsCondition.unique {ts us : List Token} {e e' : Expr} {s'' : σ}
    (hwhere : isKw (S.token s) "WHERE" = true) (h : IsCondition S s ts e s')
    (h' : IsCondition S s us e' s'') : us = ts ∧ e' = e ∧ s'' = s' := by
  have hrun := (parseWhere_iff hans hwhere (Nat.lt_succ_self _)).mpr ⟨ts, e, h, rfl⟩
  have hrun' := (parseWhere_iff hans hwhere (Nat.lt_succ_self _)).mpr ⟨us, e', h', rfl⟩
  have heq := Except.ok.inj (hrun'.symm.trans hrun)
  have hplace : s'' = s' := congrArg Prod.snd heq
  refine ⟨?_, Expr.clause_injective (congrArg Prod.fst heq), hplace⟩
  apply Source.Takes.unique (hplace ▸ h'.takes) h.takes
  · exact fun t ht => S.solid_of t (h'.derives.kind t ht)
  · exact fun t ht => S.solid_of t (h.derives.kind t ht)

end Grammar
end Dbms.Sql
