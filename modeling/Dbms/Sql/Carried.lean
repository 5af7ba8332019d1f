import Dbms.Lib.Carry
import Dbms.Sql.Recognise

/-! Statements whose strings are changed in their text. -/

open Dbms.Core Dbms.Lib

namespace Dbms.Sql
open Dbms.Sql.Parser (isKw splitQualified withDefault cmpOp Nodes push)

def Token.mapString (F : Text → Text) (t : Token) : Token :=
  if t.kind = .string then ⟨.string, F t.text⟩ else t

def Literal.mapString (F : Text → Text) : Literal → Literal
  | .string str => .string (F str)
  | l => l

def mapSet (F : Text → Text) (s : Text × Literal) : Text × Literal := (s.1, s.2.mapString F)

def mapDefault (F : Text → Text) (c : ColumnDef) : ColumnDef :=
  { c with defaultStr := c.defaultStr.map F }

def WhereNode.mapString (F : Text → Text) : WhereNode → WhereNode
  | .cmp leftCol op (.lit l) => .cmp leftCol op (.lit (l.mapString F))
  | .between col a b => .between col (a.mapString F) (b.mapString F)
  | .like col pattern => .like col (F pattern)
  | node => node

def WhereClause.mapString (F : Text → Text) (w : WhereClause) : WhereClause :=
  { w with nodes := w.nodes.map (WhereNode.mapString F) }

def Statement.mapString (F : Text → Text) : Statement → Statement
  | .createTable table columns => .createTable table (columns.map (mapDefault F))
  | .insert table cols rows => .insert table cols (rows.map (List.map (Literal.mapString F)))
  | .update table sets w => .update table (sets.map (mapSet F)) (w.mapString F)
  | .delete table w => .delete table (w.mapString F)
  | .select items table w => .select items table (w.mapString F)
  | .authLogin user password => .authLogin user (F password)
  | .authCreateUser user password => .authCreateUser user (F password)
  | st => st

section
variable (F : Text → Text)

theorem Token.mapString_kind (t : Token) : (t.mapString F).kind = t.kind := by
  unfold Token.mapString
  split
  · rename_i h
    exact h.symm
  · rfl

theorem Token.mapString_of_ne {t : Token} (h : t.kind ≠ .string) : t.mapString F = t := if_neg h

theorem Token.mapString_of_string {t : Token} (h : t.kind = .string) :
    t.mapString F = ⟨.string, F t.text⟩ := if_pos h

end

namespace Grammar

theorem goesOn_mapString (F : Text → Text) (st : Statement) (t : Token) :
    goesOn (st.mapString F) t = goesOn st t := by
  cases st <;> rfl

def mapNodes (F : Text → Text) (x : Nat × Nodes) : Nat × Nodes :=
  (x.1, x.2.map (WhereNode.mapString F))

theorem mapNodes_push (F : Text → Text) (w : Nodes) (node : WhereNode) :
    mapNodes F (push w node) = push (w.map (WhereNode.mapString F)) (node.mapString F) := by
  simp [mapNodes, push]

section Carried
variable {σ σ' : Type} {S : TokenSource σ} {S' : TokenSource σ'} {F : Text → Text}
  (hans : S.answer = S'.answer)

/-- The phrases of one source against those of another, whose strings are changed by `F`. -/
abbrev Carried {α α' : Type} (S : TokenSource σ) (S' : TokenSource σ') (F : Text → Text)
    (φ : α → α') (D : Phrase σ α) (D' : Phrase σ' α') : Prop :=
  Carries S.toSource S'.toSource (Token.mapString F) φ D D'

theorem carried_word {α : Type} {P : Token → Prop} {v : Token → α}
    (h : ∀ t, P t → t.kind ≠ .eof ∧ t.kind ≠ .string) :
    Carried S S' F id (.token S.toSource P v) (.token S'.toSource P v) := by
  apply carries_token
  intro t ht
  obtain ⟨heof, hstring⟩ := h t ht
  rw [Token.mapString_of_ne F hstring]
  exact ⟨S.solid_of t heof, ht, rfl⟩

theorem carried_kw (word : String) : Carried S S' F id (kw S word) (kw S' word) := by
  apply carried_word
  intro t ht
  simp [isKw_kind ht]

theorem carried_punct {k : TokKind} (h : k ≠ .eof ∧ k ≠ .string) :
    Carried S S' F id (punct S k) (punct S' k) := by
  apply carried_word
  rintro t rfl
  exact h

theorem carried_ident : Carried S S' F id (ident S) (ident S') := by
  apply carried_word
  intro t ht
  simp [ht]

theorem carried_tableName : Carried S S' F id (tableName S) (tableName S') := by
  apply carried_word
  intro t ht
  simp [ht]

theorem carried_stringText : Carried S S' F F (stringText S) (stringText S') := by
  apply carries_token
  intro t ht
  rw [Token.mapString_of_string F ht]
  exact ⟨S.solid_of t (by simp [ht]), rfl, rfl⟩

theorem carried_comparison : Carried S S' F id (comparison S) (comparison S') := by
  rintro s op s' ⟨hop, rfl⟩
  have hkind : (S.token s).kind ≠ .eof ∧ (S.token s).kind ≠ .string := by
    constructor
    · intro h
      rw [show (S.scan s).1.kind = _ from h] at hop
      cases hop
    · intro h
      rw [show (S.scan s).1.kind = _ from h] at hop
      cases hop
  apply (Transfers.scan (S.solid_of _ hkind.1)).mono
  rintro u u' ⟨htoken, rfl⟩
  rw [Token.mapString_of_ne F hkind.2] at htoken
  refine ⟨?_, rfl⟩
  rw [show (S'.scan u).1 = (S.scan s).1 from htoken]
  exact hop

include hans

theorem carried_number : Carried S S' F id (number S) (number S') := by
  rintro s v s' ⟨hkind, hv, rfl⟩
  have hne : (S.token s).kind ≠ .eof ∧ (S.token s).kind ≠ .string := by
    rw [show (S.token s).kind = _ from hkind]
    decide
  apply (Transfers.scan (S.solid_of _ hne.1)).mono
  rintro u u' ⟨htoken, rfl⟩
  rw [Token.mapString_of_ne F hne.2] at htoken
  unfold number
  rw [show (S'.scan u).1 = (S.scan s).1 from htoken, ← hans]
  exact ⟨hkind, hv, rfl⟩

theorem carried_literal : Carried S S' F (Literal.mapString F) (literal S) (literal S') := by
  refine .either ?_ (.either ?_ ?_)
  · exact (carried_kw "NULL").bind fun _ => carries_pure rfl
  · exact (carried_number hans).bind fun _ => carries_pure rfl
  · exact carried_stringText.bind fun _ => carries_pure rfl

omit hans in
theorem carried_list {α α' : Type} {φ : α → α'} {D : Phrase σ α} {D' : Phrase σ' α'}
    (h : Carried S S' F φ D D') : Carried S S' F (List.map φ) (list S D) (list S' D') :=
  Carries.listOf (carried_punct (by decide)) h

omit hans in
theorem carried_colType : Carried S S' F id (colType S) (colType S') := by
  apply Carries.either
  · exact (carried_kw "INT").bind fun _ => carries_pure rfl
  · exact (carried_kw "STRING").bind fun _ => carries_pure rfl

omit hans in
theorem withDefault_mapString (c : ColumnDef) (l : Literal) :
    mapDefault F (withDefault c l) = withDefault (mapDefault F c) (l.mapString F) := by
  cases l <;> rfl

theorem carried_columnAttr (c : ColumnDef) :
    Carried S S' F (mapDefault F) (columnAttr S c) (columnAttr S' (mapDefault F c)) := by
  refine .either ?_ (.either ?_ ?_)
  · exact (carried_kw "NOT").bind fun _ => (carried_kw "NULL").bind fun _ => carries_pure rfl
  · exact (carried_kw "INDEXED").bind fun _ => carries_pure rfl
  · exact (carried_kw "DEFAULT").bind fun _ => (carried_literal hans).bind fun l =>
      carries_pure (withDefault_mapString c l)

theorem carried_columnDef : Carried S S' F (mapDefault F) (columnDef S) (columnDef S') :=
  carried_ident.bind fun name => carried_colType.bind fun type =>
    Carries.fold (carried_columnAttr hans) { name := name, type := type }

def mapRhs (F : Text → Text) : Rhs → Rhs
  | .col name => .col name
  | .lit l => .lit (l.mapString F)

theorem carried_rhs : Carried S S' F (mapRhs F) (rhs S) (rhs S') := by
  apply Carries.either
  · exact carried_ident.bind fun _ => carries_pure rfl
  · exact (carried_literal hans).bind fun _ => carries_pure rfl

theorem carried_condition (w : Nodes) (col : Text) : Carried S S' F (mapNodes F)
    (condition S w col) (condition S' (w.map (WhereNode.mapString F)) col) := by
  refine .either ?_ (.either ?_ ?_)
  · exact (carried_kw "BETWEEN").bind fun _ => (carried_literal hans).bind fun _ =>
      (carried_kw "AND").bind fun _ => (carried_literal hans).bind fun _ =>
        carries_pure (mapNodes_push ..)
  · exact (carried_kw "LIKE").bind fun _ => carried_stringText.bind fun _ =>
      carries_pure (mapNodes_push ..)
  · refine carried_comparison.bind fun op => (carried_rhs hans).bind fun r => carries_pure ?_
    rw [mapNodes_push]
    cases r <;> rfl

theorem carried_predicate (w : Nodes) : Carried S S' F (mapNodes F)
    (predicate S w) (predicate S' (w.map (WhereNode.mapString F))) :=
  carried_ident.bind fun col => carried_condition hans w col

section Bool
variable {P Q : Nodes → Phrase σ (Nat × Nodes)} {P' Q' : Nodes → Phrase σ' (Nat × Nodes)}

theorem carried_boolPrimary
    (h : ∀ w, Carried S S' F (mapNodes F) (P w) (P' (w.map (WhereNode.mapString F)))) (w : Nodes) :
    Carried S S' F (mapNodes F) (boolPrimary S P w)
      (boolPrimary S' P' (w.map (WhereNode.mapString F))) := by
  apply Carries.either
  · exact (carried_punct (by decide)).bind fun _ => (h w).bind fun x =>
      (carried_punct (by decide)).bind fun _ => carries_pure (mapNodes_push ..)
  · exact carried_predicate hans w

omit hans in
theorem carried_boolFold (kind : BinBool) (word : String)
    (h : ∀ w, Carried S S' F (mapNodes F) (P w) (P' (w.map (WhereNode.mapString F)))) (w : Nodes) :
    Carried S S' F (mapNodes F)
      (do let x ← P w; .Fold (boolStep S kind word P) x)
      (do let x ← P' (w.map (WhereNode.mapString F)); .Fold (boolStep S' kind word P') x) := by
  refine (h w).bind fun x => Carries.fold (fun x => ?_) x
  exact (carried_kw word).bind fun _ => (h x.2).bind fun _ => carries_pure (mapNodes_push ..)

theorem carried_boolOr (d : Nat) (w : Nodes) : Carried S S' F (mapNodes F)
    (boolOr S d w) (boolOr S' d (w.map (WhereNode.mapString F))) := by
  induction d generalizing w with
  | zero => exact carries_none
  | succ d ih =>
    have hand := carried_boolFold .and "AND" (carried_boolPrimary hans ih)
    exact carried_boolFold .or "OR" hand w

end Bool

theorem carried_boolExpr : Carried S S' F (mapNodes F) (boolExpr S) (boolExpr S') := by
  rintro s x s' ⟨d, hx⟩
  exact (carried_boolOr hans d [] s x s' hx).mono fun u u' hu => ⟨d, hu⟩

theorem carried_where :
    Carried S S' F (WhereClause.mapString F) (whereClause S) (whereClause S') := by
  apply Carries.either
  · exact (carried_kw "WHERE").bind fun _ => (carried_boolExpr hans).bind fun _ => carries_pure rfl
  · exact carries_pure rfl

/-! Statements. -/

section Plain
omit hans

theorem carried_list_id {α : Type} {D : Phrase σ α} {D' : Phrase σ' α}
    (h : Carried S S' F id D D') : Carried S S' F id (list S D) (list S' D') := by
  have hlist := carried_list h
  rwa [List.map_id_fun] at hlist

theorem carried_starOrIdent : Carried S S' F id (starOrIdent S) (starOrIdent S') := by
  apply Carries.either
  · exact (carried_punct (by decide)).bind fun _ => carries_pure rfl
  · exact carried_ident

theorem carried_aggregate (word : String) (agg : AggFn) {arg : Phrase σ Text} {arg' : Phrase σ' Text}
    (h : Carried S S' F id arg arg') :
    Carried S S' F id (aggregate S word agg arg) (aggregate S' word agg arg') :=
  (carried_kw word).bind fun _ => (carried_punct (by decide)).bind fun _ => h.bind fun _ =>
    (carried_punct (by decide)).bind fun _ => carries_pure rfl

theorem carried_selectExpr : Carried S S' F id (selectExpr S) (selectExpr S') := by
  refine .either ?_ (.either ?_ (.either ?_ ?_))
  · exact carried_aggregate "SUM" .sum carried_ident
  · exact carried_aggregate "COUNT" .count carried_starOrIdent
  · exact carried_aggregate "AVG" .avg carried_ident
  · exact carried_ident.bind fun _ => carries_pure rfl

theorem carried_selectItem : Carried S S' F id (selectItem S) (selectItem S') := by
  refine carried_selectExpr.bind fun it => .either ?_ ?_
  · exact (carried_kw "AS").bind fun _ => carried_ident.bind fun _ => carries_pure rfl
  · exact carries_pure rfl

theorem carried_selectItems : Carried S S' F id (selectItems S) (selectItems S') := by
  apply Carries.either
  · exact (carried_punct (by decide)).bind fun _ => carries_pure rfl
  · exact carried_list_id carried_selectItem

theorem carried_valueKw : Carried S S' F id (valueKw S) (valueKw S') :=
  (carried_kw "VALUE").either (carried_kw "VALUES")

theorem carried_password : Carried S S' F F (password S) (password S') :=
  (carried_kw "PASSWORD").bind fun _ => carried_stringText

end Plain

theorem carried_tuple :
    Carried S S' F (List.map (Literal.mapString F)) (tuple S) (tuple S') :=
  (carried_punct (by decide)).bind fun _ => (carried_list (carried_literal hans)).bind fun _ =>
    (carried_punct (by decide)).bind fun _ => carries_pure rfl

theorem carried_set : Carried S S' F (mapSet F) (set S) (set S') :=
  carried_ident.bind fun _ => (carried_punct (by decide)).bind fun _ =>
    (carried_literal hans).bind fun _ => carries_pure rfl

abbrev CarriedStatement (S : TokenSource σ) (S' : TokenSource σ') (F : Text → Text)
    (D : Phrase σ Statement) (D' : Phrase σ' Statement) : Prop :=
  Carried S S' F (Statement.mapString F) D D'

theorem carried_select : CarriedStatement S S' F (select S) (select S') :=
  carried_selectItems.bind fun _ => (carried_kw "FROM").bind fun _ => carried_tableName.bind fun _ =>
    (carried_where hans).bind fun _ => carries_pure rfl

theorem carried_insert : CarriedStatement S S' F (insert S) (insert S') :=
  (carried_kw "INTO").bind fun _ => carried_tableName.bind fun _ =>
    (carried_punct (by decide)).bind fun _ => (carried_list_id carried_ident).bind fun _ =>
      (carried_punct (by decide)).bind fun _ => carried_valueKw.bind fun _ =>
        (carried_list (carried_tuple hans)).bind fun _ => carries_pure rfl

theorem carried_update : CarriedStatement S S' F (update S) (update S') :=
  carried_tableName.bind fun _ => (carried_kw "SET").bind fun _ =>
    (carried_list (carried_set hans)).bind fun _ => (carried_where hans).bind fun _ =>
      carries_pure rfl

theorem carried_delete : CarriedStatement S S' F (delete S) (delete S') :=
  (carried_kw "FROM").bind fun _ => carried_tableName.bind fun _ =>
    (carried_where hans).bind fun _ => carries_pure rfl

theorem carried_create : CarriedStatement S S' F (create S) (create S') := by
  refine .either ?_ (.either ?_ (.either ?_ ?_))
  · exact (carried_kw "DATABASE").bind fun _ => carried_ident.bind fun _ => carries_pure rfl
  · exact (carried_kw "TABLE").bind fun _ => carried_tableName.bind fun _ =>
      (carried_punct (by decide)).bind fun _ => (carried_list (carried_columnDef hans)).bind fun _ =>
        (carried_punct (by decide)).bind fun _ => carries_pure rfl
  · exact (carried_kw "USER").bind fun _ => carried_ident.bind fun _ => carried_password.bind fun _ =>
      carries_pure rfl
  · exact (carried_kw "GROUP").bind fun _ => carried_ident.bind fun _ => carries_pure rfl

omit hans in
theorem carried_drop : CarriedStatement S S' F (drop S) (drop S') := by
  apply Carries.either
  · exact (carried_kw "DATABASE").bind fun _ => carried_ident.bind fun _ => carries_pure rfl
  · exact (carried_kw "TABLE").bind fun _ => carried_tableName.bind fun _ => carries_pure rfl

omit hans in
theorem carried_revert : CarriedStatement S S' F (revert S) (revert S') :=
  carried_tableName.bind fun _ => carried_ident.bind fun _ => carries_pure rfl

omit hans in
theorem carried_login : CarriedStatement S S' F (login S) (login S') :=
  (carried_kw "USER").bind fun _ => carried_ident.bind fun _ => carried_password.bind fun _ =>
    carries_pure rfl

omit hans in
theorem carried_grant : CarriedStatement S S' F (grant S) (grant S') :=
  carried_ident.bind fun _ => (carried_kw "ON").bind fun _ => carried_ident.bind fun _ =>
    (carried_kw "TO").bind fun _ => (carried_kw "USER").bind fun _ => carried_ident.bind fun _ =>
      carries_pure rfl

omit hans in
theorem carried_ite {c : Prop} [Decidable c] {D D₁ : Phrase σ Statement} {D' D₁' : Phrase σ' Statement}
    (h : CarriedStatement S S' F D D') (h₁ : CarriedStatement S S' F D₁ D₁') :
    CarriedStatement S S' F (if c then D else D₁) (if c then D' else D₁') := by
  split
  · exact h
  · exact h₁

theorem carried_form (word : String) : CarriedStatement S S' F (form S word) (form S' word) := by
  unfold form
  refine carried_ite (carried_create hans) (carried_ite carried_drop (carried_ite ?_ ?_))
  · exact carried_ident.bind fun _ => carries_pure rfl
  refine carried_ite (carried_insert hans) (carried_ite (carried_update hans) ?_)
  refine carried_ite (carried_delete hans) (carried_ite (carried_select hans) ?_)
  exact carried_ite carried_revert (carried_ite carried_login (carried_ite carried_grant carries_none))

theorem carried_statement : CarriedStatement S S' F (statement S) (statement S') := by
  rintro s st s' ⟨word, hst⟩
  have hform : CarriedStatement S S' F (do kw S word; form S word) (do kw S' word; form S' word) :=
    (carried_kw word).bind fun _ => carried_form hans word
  exact (hform s st s' hst).mono fun u u' hu => ⟨word, hu⟩

end Carried
end Grammar

def TokenSource.mapString {σ : Type} (S : TokenSource σ) (F : Text → Text) : TokenSource σ where
  scan s := ((S.scan s).1.mapString F, (S.scan s).2)
  answer := S.answer
  size := S.size
  solid t := t.kind ≠ .eof
  size_le := S.size_le
  size_lt s h := S.size_lt s (S.solid_of _ (by rwa [Token.mapString_kind] at h))
  solid_of _ h heof := h heof
  ident_ne s h := by
    rw [Token.mapString_kind] at h
    rw [Token.mapString_of_ne F (by rw [h]; decide)]
    exact S.ident_ne s h

theorem TokenSource.takes_mapString {σ : Type} {S : TokenSource σ} {F : Text → Text} {ts : List Token}
    {s s' : σ} (h : S.Takes ts s s') : (S.mapString F).Takes (ts.map (Token.mapString F)) s s' := by
  induction ts generalizing s with
  | nil => exact h
  | cons t ts ih => exact ⟨congrArg _ h.1, ih h.2⟩

end Dbms.Sql
