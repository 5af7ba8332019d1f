import Dbms.Core.Number
import Dbms.Lib.Reader
import Dbms.Sql.Ast
import Dbms.Sql.Lexer

/-! The recursive-descent parser. `cur_` is the token at the head of the unread text, and every
loop is given a number of turns; as many as the text has characters are enough. -/

open Dbms.Core Dbms.Lib

namespace Dbms.Sql

inductive ParseErr where
  | parse (message : Text)
  /-- `std::out_of_range` from `std::stoll`. -/
  | outOfRange
  /-- A loop had too few turns. -/
  | stuck
  deriving DecidableEq

/-- A parser asks `std::stoll` for the value of a digit string. -/
abbrev Parse := Reader Token ParseErr Text Int

namespace Parser

def cur : Parse Token := .look .done

def advance : Parse Unit := .next (.done ())

def throwParse {α : Type} (message : Text) : Parse α := .fail (.parse message)

def stoll (digits : Text) : Parse Int := .ask digits .done

def check (k : TokKind) : Parse Bool := return (← cur).kind = k

def isKw (t : Token) (kw : String) : Bool := t.kind = .kw && t.text = kw.toList

def checkText (kw : String) : Parse Bool := return isKw (← cur) kw

def expect (k : TokKind) (ctx : String) : Parse Unit := do
  if ← check k then advance
  else throwParse ("parse: unexpected token in ".toList ++ ctx.toList)

def expectKw (kw : String) : Parse Unit := do
  if ← checkText kw then advance
  else throwParse ("expected keyword ".toList ++ kw.toList)

def parseIdent : Parse Text := do
  let t ← cur
  if t.kind = .ident then
    advance
    return t.text
  else throwParse "expected identifier".toList

def splitQualified (id : Text) : Name :=
  match id.idxOf? '.' with
  | none => ⟨[], id⟩
  | some p => ⟨id.take p, id.drop (p + 1)⟩

def parseQualifiedTable : Parse Name := do
  let t ← cur
  if t.kind = .ident then
    advance
    return splitQualified t.text
  else throwParse "expected table name".toList

def parseLiteral : Parse Literal := do
  let t ← cur
  if isKw t "NULL" then
    advance
    return .null
  else if t.kind = .number then
    let v ← stoll t.text
    advance
    return .int v
  else if t.kind = .string then
    advance
    return .string t.text
  else throwParse "expected literal".toList

/-- `item (',' item)*`, as every list of the language is read. -/
def commaList {α : Type} (item : Parse α) : Nat → Parse (List α)
  | 0 => .fail .stuck
  | n + 1 => do
    let a ← item
    if ← check .comma then
      advance
      return a :: (← commaList item n)
    else return [a]

def withDefault (c : ColumnDef) : Literal → ColumnDef
  | .null => { c with defaultValue := some .null }
  | .int v => { c with defaultValue := some (.int v) }
  | .string s => { c with defaultStr := some s }

def columnAttrs : Nat → ColumnDef → Parse ColumnDef
  | 0, _ => .fail .stuck
  | n + 1, c => do
    let t ← cur
    if isKw t "NOT" then
      advance
      expectKw "NULL"
      columnAttrs n { c with notNull := true }
    else if isKw t "INDEXED" then
      advance
      columnAttrs n { c with indexed := true, notNull := true }
    else if isKw t "DEFAULT" then
      advance
      columnAttrs n (withDefault c (← parseLiteral))
    else return c

def parseColType : Parse ColType := do
  let t ← cur
  if isKw t "INT" then
    advance
    return .int
  else if isKw t "STRING" then
    advance
    return .string
  else throwParse "expected INT or STRING".toList

def parseColumnDef (n : Nat) : Parse ColumnDef := do
  let name ← parseIdent
  let type ← parseColType
  columnAttrs n { name := name, type := type }

def cmpOp : TokKind → Option CmpOp
  | .eq => some .eq
  | .ne => some .ne
  | .lt => some .lt
  | .gt => some .gt
  | .le => some .le
  | .ge => some .ge
  | _ => none

def parseCmpOp : Parse CmpOp := do
  match cmpOp (← cur).kind with
  | some op =>
    advance
    return op
  | none => throwParse "expected comparison operator".toList

abbrev Nodes := List WhereNode

def push (w : Nodes) (node : WhereNode) : Nat × Nodes := (w.length, w ++ [node])

def parseRhs : Parse Rhs := do
  if ← check .ident then return .col (← parseIdent)
  else return .lit (← parseLiteral)

def parsePredicate (w : Nodes) : Parse (Nat × Nodes) := do
  let col ← parseIdent
  if ← checkText "BETWEEN" then
    advance
    let a ← parseLiteral
    expectKw "AND"
    let b ← parseLiteral
    return push w (.between col a b)
  else if ← checkText "LIKE" then
    advance
    let t ← cur
    if t.kind = .string then
      advance
      return push w (.like col t.text)
    else throwParse "LIKE expects string pattern".toList
  else
    let op ← parseCmpOp
    let rhs ← parseRhs
    return push w (.cmp col op rhs)

def parseBoolPrimary (parseBoolOr : Nodes → Parse (Nat × Nodes)) (w : Nodes) :
    Parse (Nat × Nodes) := do
  if ← check .lParen then
    advance
    let (inner, w) ← parseBoolOr w
    expect .rParen "where paren"
    return push w (.paren inner)
  else parsePredicate w

def chain (kind : BinBool) (kw : String) (operand : Nodes → Parse (Nat × Nodes)) :
    Nat → Nat × Nodes → Parse (Nat × Nodes)
  | 0, _ => .fail .stuck
  | n + 1, (left, w) => do
    if ← checkText kw then
      advance
      let (right, w) ← operand w
      chain kind kw operand n (push w (.andOr kind left right))
    else return (left, w)

def parseBoolAnd (n : Nat) (primary : Nodes → Parse (Nat × Nodes)) (w : Nodes) :
    Parse (Nat × Nodes) := do
  chain .and "AND" primary n (← primary w)

/-- The turns also bound the depth of the parentheses. -/
def parseBoolOr : Nat → Nodes → Parse (Nat × Nodes)
  | 0, _ => .fail .stuck
  | n + 1, w => do
    let operand := parseBoolAnd (n + 1) (parseBoolPrimary (parseBoolOr n))
    chain .or "OR" operand (n + 1) (← operand w)

def parseWhere (n : Nat) : Parse WhereClause := do
  if ← checkText "WHERE" then
    advance
    let (root, nodes) ← parseBoolOr n []
    return { nodes := nodes, root := some root }
  else return {}

def parseAggregate (agg : AggFn) (ctx : String) (arg : Parse Text) : Parse SelectItem := do
  advance
  expect .lParen ctx
  let col ← arg
  expect .rParen ctx
  return { agg := agg, col := col }

def starOrIdent : Parse Text := do
  if ← check .star then
    advance
    return "*".toList
  else parseIdent

def parseSelectExpr : Parse SelectItem := do
  let t ← cur
  if isKw t "SUM" then parseAggregate .sum "sum" parseIdent
  else if isKw t "COUNT" then parseAggregate .count "count" starOrIdent
  else if isKw t "AVG" then parseAggregate .avg "avg" parseIdent
  else return { col := ← parseIdent }

def parseSelectItem : Parse SelectItem := do
  let it ← parseSelectExpr
  if ← checkText "AS" then
    advance
    return { it with aliasName := ← parseIdent }
  else return it

def parseSelectItems (n : Nat) : Parse (List SelectItem) := do
  if ← check .star then
    advance
    return [{ col := "*".toList }]
  else commaList parseSelectItem n

def parseSelect (n : Nat) : Parse Statement := do
  let items ← parseSelectItems n
  expectKw "FROM"
  let table ← parseQualifiedTable
  return .select items table (← parseWhere n)

def parseTuple (n : Nat) : Parse (List Literal) := do
  expect .lParen "values"
  let one ← commaList parseLiteral n
  expect .rParen "values"
  return one

def parseValueKw : Parse Unit := do
  let t ← cur
  if isKw t "VALUE" || isKw t "VALUES" then advance
  else throwParse "VALUE or VALUES expected".toList

def parseInsert (n : Nat) : Parse Statement := do
  expectKw "INTO"
  let table ← parseQualifiedTable
  expect .lParen "insert"
  let cols ← commaList parseIdent n
  expect .rParen "insert"
  parseValueKw
  return .insert table cols (← commaList (parseTuple n) n)

def parseSet : Parse (Text × Literal) := do
  let c ← parseIdent
  expect .eq "set"
  return (c, ← parseLiteral)

def parseUpdate (n : Nat) : Parse Statement := do
  let table ← parseQualifiedTable
  expectKw "SET"
  let sets ← commaList parseSet n
  return .update table sets (← parseWhere n)

def parseDelete (n : Nat) : Parse Statement := do
  expectKw "FROM"
  let table ← parseQualifiedTable
  return .delete table (← parseWhere n)

def parsePassword : Parse Text := do
  expectKw "PASSWORD"
  match ← parseLiteral with
  | .string s => return s
  | _ => throwParse "password must be string".toList

def parseCreateTable (n : Nat) : Parse Statement := do
  let table ← parseQualifiedTable
  expect .lParen "create table"
  let columns ← commaList (parseColumnDef n) n
  expect .rParen "create table"
  return .createTable table columns

def parseCreate (n : Nat) : Parse Statement := do
  let t ← cur
  if isKw t "DATABASE" then
    advance
    return .createDatabase (← parseIdent)
  else if isKw t "TABLE" then
    advance
    parseCreateTable n
  else if isKw t "USER" then
    advance
    let user ← parseIdent
    return .authCreateUser user (← parsePassword)
  else if isKw t "GROUP" then
    advance
    return .authCreateGroup (← parseIdent)
  else throwParse "CREATE what?".toList

def parseDrop : Parse Statement := do
  let t ← cur
  if isKw t "DATABASE" then
    advance
    return .dropDatabase (← parseIdent)
  else if isKw t "TABLE" then
    advance
    return .dropTable (← parseQualifiedTable)
  else throwParse "DROP what?".toList

def parseRevert : Parse Statement := do
  let tableHint ← parseQualifiedTable
  let t ← cur
  if t.kind = .ident then
    advance
    return .revert tableHint t.text
  else throwParse "expected timestamp".toList

def parseLogin : Parse Statement := do
  expectKw "USER"
  let user ← parseIdent
  return .authLogin user (← parsePassword)

def parseGrant : Parse Statement := do
  let permission ← parseIdent
  expectKw "ON"
  let db ← parseIdent
  expectKw "TO"
  expectKw "USER"
  let user ← parseIdent
  return .authGrant db ("user:".toList ++ user) permission

def parseBody (n : Nat) (k : Text) : Parse Statement :=
  if k = "CREATE".toList then parseCreate n
  else if k = "DROP".toList then parseDrop
  else if k = "USE".toList then do return .use (← parseIdent)
  else if k = "INSERT".toList then parseInsert n
  else if k = "UPDATE".toList then parseUpdate n
  else if k = "DELETE".toList then parseDelete n
  else if k = "SELECT".toList then parseSelect n
  else if k = "REVERT".toList then parseRevert
  else if k = "LOGIN".toList then parseLogin
  else if k = "GRANT".toList then parseGrant
  else throwParse ("unknown statement: ".toList ++ k)

def parseOne (n : Nat) : Parse Statement := do
  let t ← cur
  if t.kind = .kw then
    advance
    parseBody n t.text
  else throwParse "statement must start with keyword".toList

/-- `std::stoll` as the parser meets it. -/
def stollRange (digits : Text) : Except ParseErr Int :=
  match Core.stoll digits with
  | some v => .ok v
  | none => .error .outOfRange

/-- `parse_one` over the lexer of `src`, with the text it leaves. -/
def parse (src : Text) : Except ParseErr (Statement × Text) :=
  (parseOne (src.length + 1)).run Lexer.next stollRange src

end Parser
end Dbms.Sql
