import Dbms.Core.Table

/-! The statements of the language. -/

open Dbms.Core

namespace Dbms.Sql

structure Name where
  db : Text
  table : Text
  deriving DecidableEq

def Name.full (n : Name) : Text := if n.db = [] then n.table else n.db ++ ".".toList ++ n.table

inductive CmpOp where
  | eq
  | ne
  | lt
  | gt
  | le
  | ge
  deriving DecidableEq

inductive Literal where
  | null
  | int (v : Int)
  | string (str : Text)
  deriving DecidableEq

inductive BinBool where
  | and
  | or
  deriving DecidableEq

inductive Rhs where
  | col (name : Text)
  | lit (l : Literal)
  deriving DecidableEq

/-- A node of a WHERE clause; children are named by their index in the clause. -/
inductive WhereNode where
  | cmp (leftCol : Text) (op : CmpOp) (rhs : Rhs)
  | between (col : Text) (a b : Literal)
  | like (col pattern : Text)
  | andOr (kind : BinBool) (left right : Nat)
  | paren (child : Nat)
  deriving DecidableEq

/-- The root is `none` where the source has -1: there is no WHERE. -/
structure WhereClause where
  nodes : List WhereNode := []
  root : Option Nat := none
  deriving DecidableEq

inductive AggFn where
  | none
  | sum
  | count
  | avg
  deriving DecidableEq

structure SelectItem where
  agg : AggFn := .none
  col : Text
  aliasName : Text := []
  deriving DecidableEq

inductive Statement where
  | createDatabase (name : Text)
  | dropDatabase (name : Text)
  | use (name : Text)
  | createTable (table : Name) (columns : List ColumnDef)
  | dropTable (table : Name)
  | insert (table : Name) (cols : List Text) (rows : List (List Literal))
  | update (table : Name) (sets : List (Text × Literal)) (where_ : WhereClause)
  | delete (table : Name) (where_ : WhereClause)
  | select (items : List SelectItem) (table : Name) (where_ : WhereClause)
  | revert (tableHint : Name) (ts : Text)
  | authLogin (user password : Text)
  | authCreateUser (user password : Text)
  | authCreateGroup (group : Text)
  | authGrant (db principal permission : Text)
  deriving DecidableEq

end Dbms.Sql
