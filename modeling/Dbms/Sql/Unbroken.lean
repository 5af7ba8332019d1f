import Dbms.Core.Unbroken
import Dbms.Lib.Ends
import Dbms.Sql.OneLine

/-! What the parser makes of a text without a line break: there is none in the texts of the statement,
nor in the message of an error. -/

open Dbms.Core Dbms.Lib Dbms.Sql.Lexer

namespace Dbms.Sql

/-! Statements without a line break. -/

def Name.Unbroken (n : Name) : Prop := Core.Unbroken n.db ∧ Core.Unbroken n.table

def Literal.Unbroken : Literal → Prop
  | .string s => Core.Unbroken s
  | _ => True

def Rhs.Unbroken : Rhs → Prop
  | .col name => Core.Unbroken name
  | .lit l => l.Unbroken

def WhereNode.Unbroken : WhereNode → Prop
  | .cmp col _ rhs => Core.Unbroken col ∧ rhs.Unbroken
  | .between col a b => Core.Unbroken col ∧ a.Unbroken ∧ b.Unbroken
  | .like col pattern => Core.Unbroken col ∧ Core.Unbroken pattern
  | _ => True

def WhereClause.Unbroken (w : WhereClause) : Prop := ∀ node ∈ w.nodes, node.Unbroken

def SelectItem.Unbroken (it : SelectItem) : Prop :=
  Core.Unbroken it.col ∧ Core.Unbroken it.aliasName

def UnbrokenColumn (c : ColumnDef) : Prop :=
  Unbroken c.name ∧ ∀ s, c.defaultStr = some s → Unbroken s

def Statement.Unbroken : Statement → Prop
  | .createDatabase name | .dropDatabase name | .use name | .authCreateGroup name =>
    Core.Unbroken name
  | .createTable table columns => table.Unbroken ∧ ∀ c ∈ columns, UnbrokenColumn c
  | .dropTable table => table.Unbroken
  | .insert table cols rows => table.Unbroken ∧ (∀ c ∈ cols, Core.Unbroken c) ∧
    ∀ row ∈ rows, ∀ l ∈ row, l.Unbroken
  | .update table sets w => table.Unbroken ∧ (∀ set ∈ sets, Core.Unbroken set.1 ∧ set.2.Unbroken) ∧
    w.Unbroken
  | .delete table w => table.Unbroken ∧ w.Unbroken
  | .select items table w => (∀ it ∈ items, it.Unbroken) ∧ table.Unbroken ∧ w.Unbroken
  | .revert hint ts => hint.Unbroken ∧ Core.Unbroken ts
  | .authLogin user password | .authCreateUser user password =>
    Core.Unbroken user ∧ Core.Unbroken password
  | .authGrant db principal permission =>
    Core.Unbroken db ∧ Core.Unbroken principal ∧ Core.Unbroken permission

namespace Lexer
variable {c : Char} {s : Text}

def UnbrokenScan (r : Token × Text) : Prop := Unbroken r.1.text ∧ Unbroken r.2

theorem unbroken_symbol {k : TokKind} {text r : Text} (h : Unbroken text) (hr : Unbroken r) :
    UnbrokenScan (⟨k, text⟩, r) := ⟨h, hr⟩

theorem scanNumber_unbroken (h : Unbroken s) : UnbrokenScan (scanNumber s) := by
  unfold scanNumber
  dsimp only
  split
  · exact ⟨h.subset (List.takeWhile_subset _), h.subset (List.dropWhile_subset _)⟩
  · exact ⟨h.subset (List.takeWhile_subset _), h.subset (List.dropWhile_subset _)⟩

theorem scanWord_unbroken (h : Unbroken s) : UnbrokenScan (scanWord s) := by
  have hkws : ∀ kw ∈ kws, Unbroken kw := by decide
  unfold scanWord
  dsimp only
  refine ⟨?_, h.subset (List.dropWhile_subset _)⟩
  split
  · exact hkws _ ‹_›
  · exact h.subset (List.takeWhile_subset _)

theorem scan_unbroken (h : Unbroken (c :: s)) : UnbrokenScan (scan c s) := by
  have hs : Unbroken s := h.subset (List.subset_cons_self c s)
  have htail : Unbroken s.tail := hs.subset (List.tail_subset s)
  unfold scan
  refine iteInduction (fun _ => ⟨.nil, h⟩) fun _ => ?_
  iterate 5 refine iteInduction (fun _ => unbroken_symbol (by decide) hs) fun _ => ?_
  iterate 4 refine iteInduction (fun _ => unbroken_symbol (by decide) htail) fun _ => ?_
  iterate 3 refine iteInduction (fun _ => unbroken_symbol (by decide) hs) fun _ => ?_
  refine iteInduction (fun _ => ?_) fun _ => ?_
  · exact ⟨hs.subset (List.takeWhile_subset _),
      hs.subset (List.Subset.trans (List.tail_subset _) (List.dropWhile_subset _))⟩
  refine iteInduction (fun _ => scanNumber_unbroken h) fun _ => ?_
  refine iteInduction (fun _ => scanWord_unbroken h) fun _ => ⟨?_, hs⟩
  exact h.subset (by simp)

theorem next_unbroken (h : Unbroken s) : UnbrokenScan (next s) := by
  have hskip : Unbroken (skipWs false s) := h.subset (skipWs_suffix false s).subset
  unfold next
  split
  · exact ⟨.nil, .nil⟩
  · rename_i c s' hs
    rw [hs] at hskip
    exact scan_unbroken hskip

end Lexer

namespace Parser
variable {α β : Type} {P : α → Prop} {Q : β → Prop} {m : Text} {n : Nat}

def Clean (P : α → Prop) (p : Parse α) : Prop :=
  p.Ends (fun t => Unbroken t.text) (fun e => ∀ m, e = .parse m → Unbroken m) P

theorem Clean.bind {p : Parse α} {f : α → Parse β} (hp : Clean P p) (hf : ∀ a, P a → Clean Q (f a)) :
    Clean Q (p >>= f) := Reader.Ends.bind hp hf

theorem Clean.next {p : Parse α} {f : α → Parse β} (hp : Clean P p) (hf : ∀ a, Clean Q (f a)) :
    Clean Q (p >>= f) := hp.bind fun a _ => hf a

theorem clean_pure {a : α} (h : P a) : Clean P (pure a : Parse α) := h

theorem clean_ite {c : Prop} [Decidable c] {p q : Parse α} (hp : c → Clean P p)
    (hq : ¬c → Clean P q) : Clean P (if c then p else q) := Reader.ends_ite hp hq

theorem clean_throw (h : Unbroken m) : Clean P (throwParse m) := by
  rintro m' ⟨⟩
  exact h

theorem clean_stuck : Clean P (.fail .stuck) := fun _ h => nomatch h

theorem clean_cur : Clean (fun t => Unbroken t.text) cur := fun _ h => h

theorem clean_advance : Clean (fun _ => True) advance := trivial

theorem clean_stoll (digits : Text) : Clean (fun _ => True) (stoll digits) := fun _ => trivial

theorem clean_check (k : TokKind) : Clean (fun _ => True) (check k) := fun _ _ => trivial

theorem clean_checkText (kw : String) : Clean (fun _ => True) (checkText kw) := fun _ _ => trivial

theorem clean_expect (k : TokKind) {ctx : String} (h : Unbroken ctx.toList) :
    Clean (fun _ => True) (expect k ctx) :=
  (clean_check k).next fun _ => clean_ite (fun _ => clean_advance) fun _ =>
    clean_throw (Unbroken.append (by decide) h)

theorem clean_expectKw {kw : String} (h : Unbroken kw.toList) :
    Clean (fun _ => True) (expectKw kw) :=
  (clean_checkText kw).next fun _ => clean_ite (fun _ => clean_advance) fun _ =>
    clean_throw (Unbroken.append (by decide) h)

theorem clean_parseIdent : Clean Unbroken parseIdent :=
  clean_cur.bind fun _ ht => clean_ite (fun _ => clean_advance.next fun _ => clean_pure ht) fun _ =>
    clean_throw (by decide)

theorem splitQualified_unbroken {id : Text} (h : Unbroken id) : (splitQualified id).Unbroken := by
  unfold splitQualified
  split
  · exact ⟨.nil, h⟩
  · exact ⟨h.subset (List.take_subset _ _), h.subset (List.drop_subset _ _)⟩

theorem clean_parseQualifiedTable : Clean Name.Unbroken parseQualifiedTable :=
  clean_cur.bind fun _ ht => clean_ite
    (fun _ => clean_advance.next fun _ => clean_pure (splitQualified_unbroken ht))
      fun _ => clean_throw (by decide)

theorem clean_parseLiteral : Clean Literal.Unbroken parseLiteral := by
  refine clean_cur.bind fun t ht => clean_ite (fun _ => ?_) fun _ => clean_ite (fun _ => ?_) fun _ =>
    clean_ite (fun _ => ?_) fun _ => clean_throw (by decide)
  · exact clean_advance.next fun _ => clean_pure trivial
  · exact (clean_stoll _).next fun _ => clean_advance.next fun _ => clean_pure trivial
  · exact clean_advance.next fun _ => clean_pure ht

theorem clean_commaList {item : Parse α} (h : Clean P item) :
    Clean (fun as => ∀ a ∈ as, P a) (commaList item n) := by
  induction n with
  | zero => exact clean_stuck
  | succ n ih =>
    refine h.bind fun a ha => (clean_check _).next fun _ => clean_ite (fun _ => ?_) fun _ => ?_
    · exact clean_advance.next fun _ => ih.bind fun as has =>
        clean_pure (List.forall_mem_cons.mpr ⟨ha, has⟩)
    · exact clean_pure (List.forall_mem_singleton.mpr ha)

theorem withDefault_unbroken {c : ColumnDef} {l : Literal} (hc : UnbrokenColumn c)
    (hl : l.Unbroken) : UnbrokenColumn (withDefault c l) := by
  cases l with
  | null | int v => exact hc
  | string s =>
    refine ⟨hc.1, fun s' hs' => ?_⟩
    cases hs'
    exact hl

theorem clean_columnAttrs {c : ColumnDef} (hc : UnbrokenColumn c) :
    Clean UnbrokenColumn (columnAttrs n c) := by
  induction n generalizing c with
  | zero => exact clean_stuck
  | succ n ih =>
    refine clean_cur.next fun _ => clean_ite (fun _ => ?_) fun _ => clean_ite (fun _ => ?_) fun _ =>
      clean_ite (fun _ => ?_) fun _ => clean_pure hc
    · exact clean_advance.next fun _ => (clean_expectKw (by decide)).next fun _ => ih hc
    · exact clean_advance.next fun _ => ih hc
    · exact clean_advance.next fun _ => clean_parseLiteral.bind fun l hl =>
        ih (withDefault_unbroken hc hl)

theorem clean_parseColType : Clean (fun _ => True) parseColType :=
  clean_cur.next fun _ => clean_ite (fun _ => clean_advance.next fun _ => clean_pure trivial)
    fun _ => clean_ite (fun _ => clean_advance.next fun _ => clean_pure trivial)
      fun _ => clean_throw (by decide)

theorem clean_parseColumnDef : Clean UnbrokenColumn (parseColumnDef n) :=
  clean_parseIdent.bind fun _ hname => clean_parseColType.next fun _ =>
    clean_columnAttrs ⟨hname, nofun⟩

theorem clean_parseCmpOp : Clean (fun _ => True) parseCmpOp := by
  refine clean_cur.next fun t => ?_
  split
  · exact clean_advance.next fun _ => clean_pure trivial
  · exact clean_throw (by decide)

theorem clean_parseRhs : Clean Rhs.Unbroken parseRhs :=
  (clean_check _).next fun _ => clean_ite
    (fun _ => clean_parseIdent.bind fun _ h => clean_pure h)
      fun _ => clean_parseLiteral.bind fun _ h => clean_pure h

def UnbrokenNodes (w : Nodes) : Prop := ∀ node ∈ w, node.Unbroken

theorem push_unbroken {w : Nodes} {node : WhereNode} (hw : UnbrokenNodes w) (h : node.Unbroken) :
    UnbrokenNodes (push w node).2 :=
  List.forall_mem_append.mpr ⟨hw, List.forall_mem_singleton.mpr h⟩

theorem clean_parsePredicate {w : Nodes} (hw : UnbrokenNodes w) :
    Clean (fun r => UnbrokenNodes r.2) (parsePredicate w) := by
  refine clean_parseIdent.bind fun col hcol => (clean_checkText _).next fun _ =>
    clean_ite (fun _ => ?_) fun _ => (clean_checkText _).next fun _ => clean_ite (fun _ => ?_) fun _ => ?_
  · exact clean_advance.next fun _ => clean_parseLiteral.bind fun a ha =>
      (clean_expectKw (by decide)).next fun _ => clean_parseLiteral.bind fun b hb =>
        clean_pure (push_unbroken hw ⟨hcol, ha, hb⟩)
  · refine clean_advance.next fun _ => clean_cur.bind fun t ht => clean_ite (fun _ => ?_)
      fun _ => clean_throw (by decide)
    exact clean_advance.next fun _ => clean_pure (push_unbroken hw ⟨hcol, ht⟩)
  · exact clean_parseCmpOp.next fun _ => clean_parseRhs.bind fun _ hrhs =>
      clean_pure (push_unbroken hw ⟨hcol, hrhs⟩)

theorem clean_parseBoolPrimary {parseBoolOr : Nodes → Parse (Nat × Nodes)} {w : Nodes}
    (h : ∀ w, UnbrokenNodes w → Clean (fun r => UnbrokenNodes r.2) (parseBoolOr w))
    (hw : UnbrokenNodes w) : Clean (fun r => UnbrokenNodes r.2) (parseBoolPrimary parseBoolOr w) :=
  (clean_check _).next fun _ => clean_ite
    (fun _ => clean_advance.next fun _ => (h w hw).bind fun _ hr =>
      (clean_expect _ (by decide)).next fun _ => clean_pure (push_unbroken hr trivial))
    fun _ => clean_parsePredicate hw

theorem clean_chain {kind : BinBool} {kw : String} {operand : Nodes → Parse (Nat × Nodes)}
    {r : Nat × Nodes} (h : ∀ w, UnbrokenNodes w → Clean (fun r => UnbrokenNodes r.2) (operand w))
    (hr : UnbrokenNodes r.2) : Clean (fun r => UnbrokenNodes r.2) (chain kind kw operand n r) := by
  induction n generalizing r with
  | zero => exact clean_stuck
  | succ n ih =>
    refine (clean_checkText _).next fun _ => clean_ite (fun _ => ?_) fun _ => clean_pure hr
    exact clean_advance.next fun _ => (h _ hr).bind fun _ hr' => ih (push_unbroken hr' trivial)

theorem clean_parseBoolOr {w : Nodes} (hw : UnbrokenNodes w) :
    Clean (fun r => UnbrokenNodes r.2) (parseBoolOr n w) := by
  induction n generalizing w with
  | zero => exact clean_stuck
  | succ n ih =>
    have hand : ∀ w, UnbrokenNodes w → Clean (fun r => UnbrokenNodes r.2)
        (parseBoolAnd (n + 1) (parseBoolPrimary (parseBoolOr n)) w) := fun w hw =>
      (clean_parseBoolPrimary (fun _ => ih) hw).bind fun _ hr =>
        clean_chain (fun _ => clean_parseBoolPrimary fun _ => ih) hr
    exact (hand w hw).bind fun _ hr => clean_chain hand hr

theorem clean_parseWhere : Clean WhereClause.Unbroken (parseWhere n) :=
  (clean_checkText _).next fun _ => clean_ite
    (fun _ => clean_advance.next fun _ => (clean_parseBoolOr (by exact fun _ h => nomatch h)).bind
      fun _ hr => clean_pure hr)
    fun _ => clean_pure (by exact fun _ h => nomatch h)

theorem clean_parseAggregate {agg : AggFn} {ctx : String} {arg : Parse Text}
    (hctx : Unbroken ctx.toList) (h : Clean Unbroken arg) :
    Clean SelectItem.Unbroken (parseAggregate agg ctx arg) :=
  clean_advance.next fun _ => (clean_expect _ hctx).next fun _ => h.bind fun _ hcol =>
    (clean_expect _ hctx).next fun _ => clean_pure ⟨hcol, .nil⟩

theorem clean_starOrIdent : Clean Unbroken starOrIdent :=
  (clean_check _).next fun _ => clean_ite
    (fun _ => clean_advance.next fun _ => clean_pure (by decide)) fun _ => clean_parseIdent

theorem clean_parseSelectExpr : Clean SelectItem.Unbroken parseSelectExpr :=
  clean_cur.next fun _ =>
    clean_ite (fun _ => clean_parseAggregate (by decide) clean_parseIdent) fun _ =>
      clean_ite (fun _ => clean_parseAggregate (by decide) clean_starOrIdent) fun _ =>
        clean_ite (fun _ => clean_parseAggregate (by decide) clean_parseIdent) fun _ =>
          clean_parseIdent.bind fun _ h => clean_pure ⟨h, .nil⟩

theorem clean_parseSelectItem : Clean SelectItem.Unbroken parseSelectItem :=
  clean_parseSelectExpr.bind fun _ hit => (clean_checkText _).next fun _ => clean_ite
    (fun _ => clean_advance.next fun _ => clean_parseIdent.bind fun _ h => clean_pure ⟨hit.1, h⟩)
    fun _ => clean_pure hit

theorem clean_parseSelectItems :
    Clean (fun items => ∀ it ∈ items, it.Unbroken) (parseSelectItems n) :=
  (clean_check _).next fun _ => clean_ite
    (fun _ => clean_advance.next fun _ => clean_pure
      (List.forall_mem_singleton.mpr ⟨by decide, .nil⟩))
    fun _ => clean_commaList clean_parseSelectItem

theorem clean_parseSelect : Clean Statement.Unbroken (parseSelect n) :=
  clean_parseSelectItems.bind fun _ hitems => (clean_expectKw (by decide)).next fun _ =>
    clean_parseQualifiedTable.bind fun _ htable => clean_parseWhere.bind fun _ hw =>
      clean_pure ⟨hitems, htable, hw⟩

theorem clean_parseTuple : Clean (fun row => ∀ l ∈ row, l.Unbroken) (parseTuple n) :=
  (clean_expect _ (by decide)).next fun _ => (clean_commaList clean_parseLiteral).bind fun _ h =>
    (clean_expect _ (by decide)).next fun _ => clean_pure h

theorem clean_parseValueKw : Clean (fun _ => True) parseValueKw :=
  clean_cur.next fun _ => clean_ite (fun _ => clean_advance) fun _ => clean_throw (by decide)

theorem clean_parseInsert : Clean Statement.Unbroken (parseInsert n) :=
  (clean_expectKw (by decide)).next fun _ => clean_parseQualifiedTable.bind fun _ htable =>
    (clean_expect _ (by decide)).next fun _ => (clean_commaList clean_parseIdent).bind fun _ hcols =>
      (clean_expect _ (by decide)).next fun _ => clean_parseValueKw.next fun _ =>
        (clean_commaList clean_parseTuple).bind fun _ hrows => clean_pure ⟨htable, hcols, hrows⟩

theorem clean_parseSet : Clean (fun set => Unbroken set.1 ∧ set.2.Unbroken) parseSet :=
  clean_parseIdent.bind fun _ hc => (clean_expect _ (by decide)).next fun _ =>
    clean_parseLiteral.bind fun _ hl => clean_pure ⟨hc, hl⟩

theorem clean_parseUpdate : Clean Statement.Unbroken (parseUpdate n) :=
  clean_parseQualifiedTable.bind fun _ htable => (clean_expectKw (by decide)).next fun _ =>
    (clean_commaList clean_parseSet).bind fun _ hsets => clean_parseWhere.bind fun _ hw =>
      clean_pure ⟨htable, hsets, hw⟩

theorem clean_parseDelete : Clean Statement.Unbroken (parseDelete n) :=
  (clean_expectKw (by decide)).next fun _ => clean_parseQualifiedTable.bind fun _ htable =>
    clean_parseWhere.bind fun _ hw => clean_pure ⟨htable, hw⟩

theorem clean_parsePassword : Clean Unbroken parsePassword := by
  refine (clean_expectKw (by decide)).next fun _ => clean_parseLiteral.bind fun l hl => ?_
  cases l with
  | string s => exact clean_pure hl
  | null | int v => exact clean_throw (by decide)

theorem clean_parseCreateTable : Clean Statement.Unbroken (parseCreateTable n) :=
  clean_parseQualifiedTable.bind fun _ htable => (clean_expect _ (by decide)).next fun _ =>
    (clean_commaList clean_parseColumnDef).bind fun _ hcols =>
      (clean_expect _ (by decide)).next fun _ => clean_pure ⟨htable, hcols⟩

theorem clean_parseCreate : Clean Statement.Unbroken (parseCreate n) := by
  refine clean_cur.next fun _ => clean_ite (fun _ => ?_) fun _ => clean_ite (fun _ => ?_) fun _ =>
    clean_ite (fun _ => ?_) fun _ => clean_ite (fun _ => ?_) fun _ => clean_throw (by decide)
  · exact clean_advance.next fun _ => clean_parseIdent.bind fun _ h => clean_pure h
  · exact clean_advance.next fun _ => clean_parseCreateTable
  · exact clean_advance.next fun _ => clean_parseIdent.bind fun _ huser =>
      clean_parsePassword.bind fun _ hpass => clean_pure ⟨huser, hpass⟩
  · exact clean_advance.next fun _ => clean_parseIdent.bind fun _ h => clean_pure h

theorem clean_parseDrop : Clean Statement.Unbroken parseDrop := by
  refine clean_cur.next fun _ => clean_ite (fun _ => ?_) fun _ => clean_ite (fun _ => ?_) fun _ =>
    clean_throw (by decide)
  · exact clean_advance.next fun _ => clean_parseIdent.bind fun _ h => clean_pure h
  · exact clean_advance.next fun _ => clean_parseQualifiedTable.bind fun _ h => clean_pure h

theorem clean_parseRevert : Clean Statement.Unbroken parseRevert :=
  clean_parseQualifiedTable.bind fun _ hhint => clean_cur.bind fun _ ht => clean_ite
    (fun _ => clean_advance.next fun _ => clean_pure ⟨hhint, ht⟩) fun _ => clean_throw (by decide)

theorem clean_parseLogin : Clean Statement.Unbroken parseLogin :=
  (clean_expectKw (by decide)).next fun _ => clean_parseIdent.bind fun _ huser =>
    clean_parsePassword.bind fun _ hpass => clean_pure ⟨huser, hpass⟩

theorem clean_parseGrant : Clean Statement.Unbroken parseGrant :=
  clean_parseIdent.bind fun _ hpermission => (clean_expectKw (by decide)).next fun _ =>
    clean_parseIdent.bind fun _ hdb => (clean_expectKw (by decide)).next fun _ =>
      (clean_expectKw (by decide)).next fun _ => clean_parseIdent.bind fun _ huser =>
        clean_pure ⟨hdb, Unbroken.append (by decide) huser, hpermission⟩

theorem clean_parseBody {k : Text} (hk : Unbroken k) : Clean Statement.Unbroken (parseBody n k) :=
  clean_ite (fun _ => clean_parseCreate) fun _ => clean_ite (fun _ => clean_parseDrop) fun _ =>
  clean_ite (fun _ => clean_parseIdent.bind fun _ h => clean_pure h) fun _ =>
  clean_ite (fun _ => clean_parseInsert) fun _ => clean_ite (fun _ => clean_parseUpdate) fun _ =>
  clean_ite (fun _ => clean_parseDelete) fun _ => clean_ite (fun _ => clean_parseSelect) fun _ =>
  clean_ite (fun _ => clean_parseRevert) fun _ => clean_ite (fun _ => clean_parseLogin) fun _ =>
  clean_ite (fun _ => clean_parseGrant) fun _ => clean_throw (Unbroken.append (by decide) hk)

theorem clean_parseOne : Clean Statement.Unbroken (parseOne n) :=
  clean_cur.bind fun _ ht => clean_ite
    (fun _ => clean_advance.next fun _ => clean_parseBody ht) fun _ => clean_throw (by decide)

theorem parse_unbroken {src : Text} (h : Unbroken src) :
    (∀ st rest, parse src = .ok (st, rest) → st.Unbroken) ∧
      ∀ m, parse src = .error (.parse m) → Unbroken m := by
  have hans : ∀ q e, stollRange q = .error e → ∀ m, e = .parse m → Unbroken m := by
    intro q e he m hm
    unfold stollRange at he
    split at he
    · cases he
    · cases he
      cases hm
  obtain ⟨hok, herr⟩ := (clean_parseOne (n := src.length + 1)).run
    (fun s hs => next_unbroken hs) hans h
  exact ⟨fun st rest hst => (hok st rest hst).1, fun m hm => herr _ hm m rfl⟩

end Parser
end Dbms.Sql
