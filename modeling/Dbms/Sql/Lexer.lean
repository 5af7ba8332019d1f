import Dbms.Core.Value

/-! The lexer, on what is left of the source text. Line and column numbers, which nothing reads,
are left out. -/

open Dbms.Core

namespace Dbms.Sql

inductive TokKind where
  | ident
  | number
  | string
  | star
  | comma
  | lParen
  | rParen
  | semicolon
  | eq
  | ne
  | lt
  | gt
  | le
  | ge
  | eof
  | kw
  deriving DecidableEq

structure Token where
  kind : TokKind
  text : Text
  deriving DecidableEq

namespace Lexer

def nul : Char := Char.ofNat 0

def quote : Char := Char.ofNat 34

def toUpper (s : Text) : Text := s.map Char.toUpper

def isSpace (c : Char) : Bool := c = ' ' || c = '\t' || c = '\r' || c = '\n'

/-- `skip_ws`; the flag is set inside a comment, which a NUL ends as a newline does. -/
def skipWs : Bool → Text → Text
  | _, [] => []
  | false, c :: s =>
    if isSpace c then skipWs false s
    else if c = '-' && s.head? = some '-' then skipWs true s
    else c :: s
  | true, c :: s =>
    if c = nul then c :: s else if c = '\n' then skipWs false s else skipWs true s

def inString (c : Char) : Bool := c ≠ nul && c ≠ quote

/-- A string literal behind its opening quote; the end of the text or a NUL also closes it. -/
def scanString (s : Text) : Token × Text :=
  (⟨.string, s.takeWhile inString⟩, (s.dropWhile inString).tail)

def isStampChar (c : Char) : Bool := c.isDigit || c = '.' || c = '-' || c = ':'

def isIdentChar (c : Char) : Bool := c.isAlphanum || c = '_' || c = '.'

def kws : List Text :=
  ["CREATE", "DATABASE", "DROP", "USE", "TABLE", "INT", "STRING", "NOT", "NULL",
    "INDEXED", "INSERT", "INTO", "VALUE", "VALUES", "UPDATE", "SET", "WHERE", "DELETE",
    "FROM", "SELECT", "AS", "BETWEEN", "AND", "OR", "LIKE", "REVERT", "DEFAULT",
    "SUM", "COUNT", "AVG", "LOGIN", "PASSWORD", "USER", "GROUP", "GRANT", "TO", "ON"].map
    String.toList

/-- A digit starts a timestamp, if both a dash and a dot follow among its characters, or else a
number. -/
def scanNumber (s : Text) : Token × Text :=
  let buf := s.takeWhile isStampChar
  if '-' ∈ buf ∧ '.' ∈ buf then (⟨.ident, buf⟩, s.dropWhile isStampChar)
  else (⟨.number, s.takeWhile Char.isDigit⟩, s.dropWhile Char.isDigit)

def scanWord (s : Text) : Token × Text :=
  let id := s.takeWhile isIdentChar
  let up := toUpper id
  (if up ∈ kws then ⟨.kw, up⟩ else ⟨.ident, id⟩, s.dropWhile isIdentChar)

def scan (c : Char) (s : Text) : Token × Text :=
  if c = nul then (⟨.eof, []⟩, c :: s)
  else if c = '*' then (⟨.star, "*".toList⟩, s)
  else if c = ',' then (⟨.comma, ",".toList⟩, s)
  else if c = '(' then (⟨.lParen, "(".toList⟩, s)
  else if c = ')' then (⟨.rParen, ")".toList⟩, s)
  else if c = ';' then (⟨.semicolon, ";".toList⟩, s)
  else if c = '=' ∧ s.head? = some '=' then (⟨.eq, "==".toList⟩, s.tail)
  else if c = '!' ∧ s.head? = some '=' then (⟨.ne, "!=".toList⟩, s.tail)
  else if c = '<' ∧ s.head? = some '=' then (⟨.le, "<=".toList⟩, s.tail)
  else if c = '>' ∧ s.head? = some '=' then (⟨.ge, ">=".toList⟩, s.tail)
  else if c = '<' then (⟨.lt, "<".toList⟩, s)
  else if c = '>' then (⟨.gt, ">".toList⟩, s)
  else if c = '=' then (⟨.eq, "=".toList⟩, s)
  else if c = quote then scanString s
  else if c.isDigit then scanNumber (c :: s)
  else if c.isAlpha || c = '_' then scanWord (c :: s)
  else (⟨.eof, [c]⟩, s)

/-- The next token and what is left. An unknown character is reported as `Eof` with its text. -/
def next (s : Text) : Token × Text :=
  match skipWs false s with
  | [] => (⟨.eof, []⟩, [])
  | c :: s => scan c s

example : next "  -- x\n<= 3".toList = (⟨.le, "<=".toList⟩, " 3".toList) := by decide

end Lexer
end Dbms.Sql
