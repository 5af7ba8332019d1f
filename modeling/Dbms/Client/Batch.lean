import Dbms.Sql.Lexer
import Mathlib.Data.List.DropRight

/-! How the batch client cuts a script into the statements that it sends. -/

open Dbms.Core Dbms.Sql

namespace Dbms.Client

def trimSql (s : Text) : Text := (s.rdropWhile Lexer.isSpace).dropWhile Lexer.isSpace

/-- The loop of `is_comment_only` over the lines; `any` is set behind a line that is not blank. -/
def commentLines : List Text → Bool → Bool
  | [], any => !any
  | line :: lines, any =>
    let t := trimSql line
    if t = [] then commentLines lines any
    else if t.head? = some '-' ∧ t.tail.head? = some '-' then commentLines lines true
    else false

/-- `getline` would not return an empty last line, which is passed over anyway. -/
def isCommentOnly (s : Text) : Bool := commentLines (s.splitOn '\n') false

def keep (cur : Text) : List Text :=
  let one := trimSql cur
  if one ≠ [] ∧ isCommentOnly one = false then [one] else []

/-- The loop of `split_sql_statements`, with the statement so far; `inStr` is set inside quotes. -/
def splitFrom (cur : Text) (inStr : Bool) : Text → List Text
  | [] => keep cur
  | c :: src =>
    if c = Lexer.quote then splitFrom (cur ++ [c]) (!inStr) src
    else if c = ';' ∧ inStr = false then keep cur ++ splitFrom [] inStr src
    else splitFrom (cur ++ [c]) inStr src

def splitSqlStatements (src : Text) : List Text := splitFrom [] false src

def flat (c : Char) : Char := if c = '\n' || c = '\r' || c = '\t' then ' ' else c

def flattenSql (s : Text) : Text := trimSql (s.map flat)

end Dbms.Client
