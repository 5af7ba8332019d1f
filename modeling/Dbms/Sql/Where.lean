import Dbms.Sql.Ast

/-! Evaluation of a WHERE clause on one row. It may intern literals, and it reports errors in the
string `err` that the caller hands in. -/

open Dbms.Core

namespace Dbms.Sql

/-- Whether a pattern matches a whole string; `none` where `std::regex` rejects the pattern. -/
abbrev Regex := Text → Text → Option Bool

def literalToValue (lit : Literal) (pool : StringPool) : Value × StringPool :=
  match lit with
  | .null => (.null, pool)
  | .int v => (.int v, pool)
  | .string s => (.string (pool.intern s).1, (pool.intern s).2)

def cellByName (t : Table) (row : Row) (name : Text) : Option Value :=
  (t.columnIndex name).bind fun i => row.cells[i]?

def CmpOp.test (op : CmpOp) (c : Int) : Bool :=
  match op with
  | .eq => c = 0
  | .ne => c ≠ 0
  | .lt => c < 0
  | .gt => 0 < c
  | .le => c ≤ 0
  | .ge => 0 ≤ c

def cmpValues (op : CmpOp) (a b : Value) (pool : StringPool) : Bool := op.test (valueCmp pool a b)

/-- What `eval_node` returns, `err` and the pool after it. -/
structure Eval where
  result : Bool
  err : Text
  pool : StringPool

section
variable (regex : Regex) (t : Table) (row : Row)

def evalCmp (col : Text) (op : CmpOp) (rhs : Rhs) (pool : StringPool) (err : Text) : Eval :=
  match cellByName t row col with
  | none => ⟨false, "unknown column in WHERE: ".toList ++ col, pool⟩
  | some lv =>
    match rhs with
    | .col name =>
      match cellByName t row name with
      | none => ⟨false, "unknown column in WHERE: ".toList ++ name, pool⟩
      | some rv => ⟨cmpValues op lv rv pool, err, pool⟩
    | .lit lit =>
      let (rv, pool) := literalToValue lit pool
      ⟨cmpValues op lv rv pool, err, pool⟩

def evalBetween (col : Text) (a b : Literal) (pool : StringPool) (err : Text) : Eval :=
  match cellByName t row col with
  | none => ⟨false, "unknown column in BETWEEN".toList, pool⟩
  | some cv =>
    let (a, pool) := literalToValue a pool
    let (b, pool) := literalToValue b pool
    ⟨cmpValues .ge cv a pool && cmpValues .le cv b pool, err, pool⟩

def evalLike (col pattern : Text) (pool : StringPool) (err : Text) : Eval :=
  match cellByName t row col with
  | some (.string id) =>
    match regex pattern (pool.resolve id) with
    | some b => ⟨b, err, pool⟩
    | none => ⟨false, "invalid LIKE regex".toList, pool⟩
  | _ => ⟨false, "LIKE requires string column".toList, pool⟩

def BinBool.combine : BinBool → Bool → Bool → Bool
  | .and, l, r => l && r
  | .or, l, r => l || r

/-- The first number bounds the depth. The clauses that the parser builds name children by smaller
indices, so the number of nodes is enough for them. -/
def evalNode (w : WhereClause) : Nat → Nat → StringPool → Text → Eval
  | 0, _, pool, _ => ⟨false, "where: bad node".toList, pool⟩
  | n + 1, idx, pool, err =>
    match w.nodes[idx]? with
    | none => ⟨false, "where: bad node".toList, pool⟩
    | some (.paren child) => evalNode w n child pool err
    | some (.andOr kind left right) =>
      let l := evalNode w n left pool err
      if l.err ≠ [] then { l with result := false }
      else
        let r := evalNode w n right l.pool l.err
        if r.err ≠ [] then { r with result := false }
        else { r with result := kind.combine l.result r.result }
    | some (.cmp col op rhs) => evalCmp t row col op rhs pool err
    | some (.between col a b) => evalBetween t row col a b pool err
    | some (.like col pattern) => evalLike regex t row col pattern pool err

def evalWhere (w : WhereClause) (pool : StringPool) (err : Text) : Eval :=
  match w.root with
  | none => ⟨true, err, pool⟩
  | some root => evalNode regex t row w w.nodes.length root pool err

end
end Dbms.Sql
