import Dbms.Core.BTree
import Dbms.Core.Value
import Dbms.Lib.HashOrder

/-! A table: its rows by id and one index for each INDEXED column. The pool is shared by all tables
and handed to each operation. -/

open Dbms.Lib

namespace Dbms.Core

inductive ColType where
  | int
  | string
  deriving DecidableEq

structure ColumnDef where
  name : Text
  type : ColType := .int
  notNull : Bool := false
  indexed : Bool := false
  defaultValue : Option Value := none
  defaultStr : Option Text := none
  deriving DecidableEq

structure Row where
  cells : List Value
  deriving DecidableEq

structure Table where
  name : Text
  cols : List ColumnDef
  rows : Finmap fun _ : RowId => Row
  nextRid : RowId
  indexes : List (Option (BPlusTreeIndex Value))

def ColumnDef.cellError (c : ColumnDef) : Value → Option Text
  | .null =>
    if c.notNull || c.indexed then
      some ("NULL in NOT NULL/INDEXED column `".toList ++ c.name ++ "`".toList)
    else none
  | .int _ =>
    if c.type = .string then some ("type mismatch for `".toList ++ c.name ++ "`".toList) else none
  | .string _ =>
    if c.type = .int then some ("type mismatch for `".toList ++ c.name ++ "`".toList) else none

namespace Table
variable (pool : StringPool)

def new (name : Text) (cols : List ColumnDef) : Table where
  name := name
  cols := cols
  rows := ∅
  nextRid := 1
  indexes := cols.map fun c => if c.indexed then some (.new 32) else none

/-- `none` for -1. -/
def columnIndex (t : Table) (name : Text) : Option Nat := t.cols.findIdx? fun c => c.name = name

def validateRow (t : Table) (r : Row) : Option Text :=
  if r.cells.length ≠ t.cols.length then some "row width mismatch".toList
  else (t.cols.zip r.cells).findSome? fun (c, v) => c.cellError v

def indexForColumn (t : Table) (i : Nat) : Option (BPlusTreeIndex Value) := (t.indexes[i]?).join

/-- The loop over the indexes that `index_remove_row` and `index_insert_row` share. -/
def mapIndexes (t : Table) (r : Row) (f : BPlusTreeIndex Value → Value → BPlusTreeIndex Value) :
    Table :=
  { t with
    indexes := t.indexes.mapIdx fun i ix =>
      match r.cells[i]? with
      | some k => if k.isNull then ix else ix.map fun ix => f ix k
      | none => ix }

def indexRemoveRow (t : Table) (rid : RowId) (oldRow : Row) : Table :=
  t.mapIndexes oldRow fun ix k => (ix.erase (valueCmp pool) k rid).1

def indexInsertRow (t : Table) (rid : RowId) (newRow : Row) : Table :=
  t.mapIndexes newRow fun ix k => ix.insert (valueCmp pool) k rid

def equalRows (t : Table) (r : Row) (i : Nat) : List RowId :=
  match t.indexForColumn i, r.cells[i]? with
  | some ix, some k => if k.isNull then [] else ix.findEqual (valueCmp pool) k
  | _, _ => []

/-- The new id is `next_rid_`, which wraps at 64 bits. -/
def insertRow (t : Table) (row : Row) : Except Text RowId × Table :=
  match t.validateRow row with
  | some err => (.error err, t)
  | none =>
    match t.cols.zipIdx.find? fun c => !(t.equalRows pool row c.2).isEmpty with
    | some c =>
      (.error ("duplicate INDEXED value for column `".toList ++ c.1.name ++ "`".toList), t)
    | none =>
      let rid := t.nextRid
      let t := { t with nextRid := (rid + 1) % 2 ^ 64, rows := t.rows.insert rid row }
      (.ok rid, t.indexInsertRow pool rid row)

def updateRow (t : Table) (rid : RowId) (newRow : Row) : Except Text Unit × Table :=
  match t.rows.lookup rid with
  | none => (.error "row not found".toList, t)
  | some old =>
    match t.validateRow newRow with
    | some err => (.error err, t)
    | none =>
      if t.cols.zipIdx.any fun c => (t.equalRows pool newRow c.2).any (· ≠ rid) then
        (.error "duplicate INDEXED value".toList, t)
      else
        let t := t.indexRemoveRow pool rid old
        let t := { t with rows := t.rows.insert rid newRow }
        (.ok (), t.indexInsertRow pool rid newRow)

def deleteRow (t : Table) (rid : RowId) : Except Text Unit × Table :=
  match t.rows.lookup rid with
  | none => (.error "row not found".toList, t)
  | some old =>
    let t := t.indexRemoveRow pool rid old
    (.ok (), { t with rows := t.rows.erase rid })

def getRow (t : Table) (rid : RowId) : Option Row := t.rows.lookup rid

def allRowIds (o : HashOrder RowId) (t : Table) : List RowId := o.toList t.rows.keys

def clearIndexes (t : Table) : Table :=
  { t with indexes := t.indexes.map fun (ix : Option _) => ix.map BPlusTreeIndex.clear }

def indexRow (t : Table) (rid : RowId) : Table :=
  match t.getRow rid with
  | some row => t.indexInsertRow pool rid row
  | none => t

def rebuildIndexes (o : HashOrder RowId) (t : Table) : Table :=
  (t.clearIndexes.allRowIds o).foldl (indexRow pool) t.clearIndexes

end Table
end Dbms.Core
