import Dbms.Lib.Phrase
import Dbms.Sql.Parser

/-! The grammar of the language, over the tokens of any source. -/

open Dbms.Core Dbms.Lib

namespace Dbms.Sql

/-- A source of tokens: only the end token may leave as much to read, and identifiers are not
empty. -/
structure TokenSource (σ : Type) extends Source Token ParseErr Text Int σ where
  solid_of : ∀ t : Token, t.kind ≠ .eof → solid t
  ident_ne : ∀ s, (scan s).1.kind = .ident → (scan s).1.text ≠ []

namespace Grammar
open Dbms.Sql.Parser (isKw splitQualified withDefault cmpOp Nodes push)

section
variable {σ : Type} (S : TokenSource σ)

def kw (word : String) : Phrase σ Unit := .token S.toSource (fun t => isKw t word) fun _ => ()

def punct (k : TokKind) : Phrase σ Unit := .token S.toSource (fun t => t.kind = k) fun _ => ()

def ident : Phrase σ Text := .token S.toSource (fun t => t.kind = .ident) Token.text

def tableName : Phrase σ Name :=
  .token S.toSource (fun t => t.kind = .ident) fun t => splitQualified t.text

def stringText : Phrase σ Text := .token S.toSource (fun t => t.kind = .string) Token.text

def number : Phrase σ Int := fun s v s' =>
  (S.scan s).1.kind = .number ∧ S.answer (S.scan s).1.text = .ok v ∧ s' = (S.scan s).2

def literal : Phrase σ Literal :=
  .either (do kw S "NULL"; return .null)
    (.either (do return .int (← number S)) (do return .string (← stringText S)))

def list {α : Type} (item : Phrase σ α) : Phrase σ (List α) := .ListOf (punct S .comma) item

def colType : Phrase σ ColType :=
  .either (do kw S "INT"; return .int) (do kw S "STRING"; return .string)

def columnAttr (c : ColumnDef) : Phrase σ ColumnDef :=
  .either (do kw S "NOT"; kw S "NULL"; return { c with notNull := true })
    (.either (do kw S "INDEXED"; return { c with indexed := true, notNull := true })
      (do kw S "DEFAULT"; return withDefault c (← literal S)))

def columnDef : Phrase σ ColumnDef := do
  let name ← ident S
  let type ← colType S
  .Fold (columnAttr S) { name := name, type := type }

/-! WHERE clauses. A phrase gives the index of its node and all nodes so far. -/

def comparison : Phrase σ CmpOp := fun s op s' =>
  cmpOp (S.scan s).1.kind = some op ∧ s' = (S.scan s).2

def rhs : Phrase σ Rhs :=
  .either (do return .col (← ident S)) (do return .lit (← literal S))

def condition (w : Nodes) (col : Text) : Phrase σ (Nat × Nodes) :=
  .either
    (do
      kw S "BETWEEN"
      let a ← literal S
      kw S "AND"
      return push w (.between col a (← literal S)))
    (.either (do kw S "LIKE"; return push w (.like col (← stringText S)))
      (do
        let op ← comparison S
        return push w (.cmp col op (← rhs S))))

def predicate (w : Nodes) : Phrase σ (Nat × Nodes) := do
  let col ← ident S
  condition S w col

def boolPrimary (inner : Nodes → Phrase σ (Nat × Nodes)) (w : Nodes) : Phrase σ (Nat × Nodes) :=
  .either
    (do
      punct S .lParen
      let x ← inner w
      punct S .rParen
      return push x.2 (.paren x.1))
    (predicate S w)

def boolStep (kind : BinBool) (word : String) (operand : Nodes → Phrase σ (Nat × Nodes))
    (x : Nat × Nodes) : Phrase σ (Nat × Nodes) := do
  kw S word
  let y ← operand x.2
  return push y.2 (.andOr kind x.1 y.1)

def boolAnd (primary : Nodes → Phrase σ (Nat × Nodes)) (w : Nodes) : Phrase σ (Nat × Nodes) := do
  let x ← primary w
  .Fold (boolStep S .and "AND" primary) x

/-- With parentheses nested less than `d` deep. -/
def boolOr : Nat → Nodes → Phrase σ (Nat × Nodes)
  | 0, _ => .none
  | d + 1, w => do
    let operand := boolAnd S (boolPrimary S (boolOr d))
    let x ← operand w
    .Fold (boolStep S .or "OR" operand) x

def boolExpr : Phrase σ (Nat × Nodes) := fun s x s' => ∃ d, boolOr S d [] s x s'

def whereClause : Phrase σ WhereClause :=
  .either
    (do
      kw S "WHERE"
      let x ← boolExpr S
      return { nodes := x.2, root := some x.1 })
    (return {})

/-! Statements. -/

def starOrIdent : Phrase σ Text := .either (do punct S .star; return "*".toList) (ident S)

def aggregate (word : String) (agg : AggFn) (arg : Phrase σ Text) : Phrase σ SelectItem := do
  kw S word
  punct S .lParen
  let col ← arg
  punct S .rParen
  return { agg := agg, col := col }

def selectExpr : Phrase σ SelectItem :=
  .either (aggregate S "SUM" .sum (ident S))
    (.either (aggregate S "COUNT" .count (starOrIdent S))
      (.either (aggregate S "AVG" .avg (ident S)) (do return { col := ← ident S })))

def selectItem : Phrase σ SelectItem := do
  let it ← selectExpr S
  .either (do kw S "AS"; return { it with aliasName := ← ident S }) (return it)

def selectItems : Phrase σ (List SelectItem) :=
  .either (do punct S .star; return [{ col := "*".toList }]) (list S (selectItem S))

def select : Phrase σ Statement := do
  let items ← selectItems S
  kw S "FROM"
  let table ← tableName S
  return .select items table (← whereClause S)

def tuple : Phrase σ (List Literal) := do
  punct S .lParen
  let one ← list S (literal S)
  punct S .rParen
  return one

def valueKw : Phrase σ Unit := .either (kw S "VALUE") (kw S "VALUES")

def insert : Phrase σ Statement := do
  kw S "INTO"
  let table ← tableName S
  punct S .lParen
  let cols ← list S (ident S)
  punct S .rParen
  valueKw S
  return .insert table cols (← list S (tuple S))

def set : Phrase σ (Text × Literal) := do
  let c ← ident S
  punct S .eq
  return (c, ← literal S)

def update : Phrase σ Statement := do
  let table ← tableName S
  kw S "SET"
  let sets ← list S (set S)
  return .update table sets (← whereClause S)

def delete : Phrase σ Statement := do
  kw S "FROM"
  let table ← tableName S
  return .delete table (← whereClause S)

def password : Phrase σ Text := do
  kw S "PASSWORD"
  stringText S

def create : Phrase σ Statement :=
  .either (do kw S "DATABASE"; return .createDatabase (← ident S))
    (.either
      (do
        kw S "TABLE"
        let table ← tableName S
        punct S .lParen
        let columns ← list S (columnDef S)
        punct S .rParen
        return .createTable table columns)
      (.either
        (do
          kw S "USER"
          let user ← ident S
          return .authCreateUser user (← password S))
        (do kw S "GROUP"; return .authCreateGroup (← ident S))))

def drop : Phrase σ Statement :=
  .either (do kw S "DATABASE"; return .dropDatabase (← ident S))
    (do kw S "TABLE"; return .dropTable (← tableName S))

def revert : Phrase σ Statement := do
  let tableHint ← tableName S
  return .revert tableHint (← ident S)

def login : Phrase σ Statement := do
  kw S "USER"
  let user ← ident S
  return .authLogin user (← password S)

def grant : Phrase σ Statement := do
  let permission ← ident S
  kw S "ON"
  let db ← ident S
  kw S "TO"
  kw S "USER"
  let user ← ident S
  return .authGrant db ("user:".toList ++ user) permission

def form (word : String) : Phrase σ Statement :=
  if word = "CREATE" then create S
  else if word = "DROP" then drop S
  else if word = "USE" then do return .use (← ident S)
  else if word = "INSERT" then insert S
  else if word = "UPDATE" then update S
  else if word = "DELETE" then delete S
  else if word = "SELECT" then select S
  else if word = "REVERT" then revert S
  else if word = "LOGIN" then login S
  else if word = "GRANT" then grant S
  else .none

def statement : Phrase σ Statement := fun s st s' =>
  ∃ word, (do kw S word; form S word : Phrase σ Statement) s st s'

end

/-! Tokens that carry a phrase on. -/

def whereGoesOn (w : WhereClause) (t : Token) : Bool :=
  if w.root = none then isKw t "WHERE" else isKw t "AND" || isKw t "OR"

def goesOn : Statement → Token → Bool
  | .select _ _ w, t | .delete _ w, t => whereGoesOn w t
  | .update _ _ w, t => (w.root = none && t.kind = .comma) || whereGoesOn w t
  | .insert .., t => t.kind = .comma
  | _, _ => false

end Grammar
end Dbms.Sql
