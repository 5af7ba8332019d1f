import Dbms.Core.Number
import Dbms.Lib.Loop
import Dbms.Sql.Where

/-! What the statements do to the rows of one table. -/

open Dbms.Core Dbms.Lib Dbms.Sql

namespace Dbms.Exec

def litToVal (lit : Literal) (pool : StringPool) : Value × StringPool := literalToValue lit pool

/-- `extract_index_eq`: a column and the key it is compared with, if an equality on an indexed
column stands in the conjunction. The number bounds the depth, as for `evalNode`. -/
def extractIndexEq (t : Table) (w : WhereClause) :
    Nat → Nat → StringPool → Option (Nat × Value) × StringPool
  | 0, _, pool => (none, pool)
  | n + 1, root, pool =>
    match w.nodes[root]? with
    | some (.paren child) => extractIndexEq t w n child pool
    | some (.andOr .and left right) =>
      match extractIndexEq t w n left pool with
      | (some found, pool) => (some found, pool)
      | (none, pool) => extractIndexEq t w n right pool
    | some (.cmp col .eq (.lit lit)) =>
      match t.columnIndex col with
      | some ci =>
        if (t.cols[ci]?).any ColumnDef.indexed then
          (some (ci, (litToVal lit pool).1), (litToVal lit pool).2)
        else (none, pool)
      | none => (none, pool)
    | _ => (none, pool)

/-- The rows to look at: those the index lists, or all of them when it lists none. -/
def candidateRows (o : HashOrder RowId) (t : Table) (w : WhereClause) (pool : StringPool) :
    List RowId × StringPool :=
  match w.root with
  | none => (t.allRowIds o, pool)
  | some root =>
    match extractIndexEq t w w.nodes.length root pool with
    | (some (ci, key), pool) =>
      match t.indexForColumn ci with
      | some ix =>
        let ids := ix.findEqual (valueCmp pool) key
        (if ids = [] then t.allRowIds o else ids, pool)
      | none => (t.allRowIds o, pool)
    | (none, pool) => (t.allRowIds o, pool)

/-- What a loop over rows works on; `err` carries the errors of the WHERE clause. -/
structure RowsState where
  table : Table
  pool : StringPool
  err : Text := []

/-- `row.cells[idx] = lit_to_val(lit)` for each pair, failing at the first unknown column. -/
def setCells (t : Table) (unknown : Text → Text) :
    List (Text × Literal) → Row → StringPool → Except Text Row × StringPool
  | [], row, pool => (.ok row, pool)
  | (c, lit) :: sets, row, pool =>
    match t.columnIndex c with
    | none => (.error (unknown c), pool)
    | some idx =>
      let (v, pool) := litToVal lit pool
      setCells t unknown sets ⟨row.cells.set idx v⟩ pool

def applyDefaults (t : Table) (row : Row) : Row :=
  ⟨row.cells.mapIdx fun i v =>
    if v.isNull then ((t.cols[i]?).bind ColumnDef.defaultValue).getD v else v⟩

def buildRow (t : Table) (cols : List Text) (tup : List Literal) (pool : StringPool) :
    Except Text Row × StringPool :=
  if tup.length ≠ cols.length then (.error "INSERT column count mismatch".toList, pool)
  else
    match setCells t ("unknown column ".toList ++ ·) (cols.zip tup)
        ⟨List.replicate t.cols.length .null⟩ pool with
    | (.error err, pool) => (.error err, pool)
    | (.ok row, pool) => (.ok (applyDefaults t row), pool)

/-- One turn of the loop of INSERT. An id of 0 is taken for a failure. -/
def insertTuple (cols : List Text) (tup : List Literal) (s : RowsState) : Option Text × RowsState :=
  match buildRow s.table cols tup s.pool with
  | (.error err, pool) => (some err, { s with pool := pool })
  | (.ok row, pool) =>
    match s.table.insertRow pool row with
    | (.error err, t) => (some err, { s with table := t, pool := pool })
    | (.ok rid, t) => (if rid = 0 then some [] else none, { s with table := t, pool := pool })

section
variable (regex : Regex) (w : WhereClause)

def updateOne (sets : List (Text × Literal)) (rid : RowId) (s : RowsState) :
    Option Text × RowsState :=
  match s.table.getRow rid with
  | none => (none, s)
  | some rw =>
    let e := evalWhere regex s.table rw w s.pool s.err
    if e.result then
      match setCells s.table (fun _ => "unknown column".toList) sets rw e.pool with
      | (.error err, pool) => (some err, ⟨s.table, pool, e.err⟩)
      | (.ok nr, pool) =>
        match s.table.updateRow pool rid nr with
        | (.error err, t) => (some err, ⟨t, pool, e.err⟩)
        | (.ok _, t) => (none, ⟨t, pool, e.err⟩)
    else (none, ⟨s.table, e.pool, e.err⟩)

/-- The ids among `ids` whose row the clause selects, with `err` and the pool after the scan. -/
def matching (t : Table) : List RowId → StringPool → Text → List RowId × Text × StringPool
  | [], pool, err => ([], err, pool)
  | rid :: ids, pool, err =>
    match t.getRow rid with
    | none => matching t ids pool err
    | some rw =>
      let e := evalWhere regex t rw w pool err
      let (rids, err, pool) := matching t ids e.pool e.err
      (if e.result then rid :: rids else rids, err, pool)

end

def deleteOne (rid : RowId) (s : RowsState) : Option Text × RowsState :=
  match s.table.deleteRow s.pool rid with
  | (.error err, t) => (some err, { s with table := t })
  | (.ok _, t) => (none, { s with table := t })

/-! The text of a result. -/

def quote : Char := Char.ofNat 34

def jsonEscape (s : Text) : Text :=
  s.flatMap fun c => if c = quote || c = '\\' then ['\\', c] else [c]

def jsonString (s : Text) : Text := quote :: jsonEscape s ++ [quote]

def jsonField (name value : Text) : Text := jsonString name ++ ':' :: value

def jsonObject (fields : List Text) : Text :=
  "\x7b".toList ++ (",".toList).intercalate fields ++ "\x7d".toList

def jsonArray (objects : List Text) : Text :=
  "[".toList ++ (",".toList).intercalate objects ++ "]".toList

def cellToJson (v : Value) (pool : StringPool) : Text :=
  match v with
  | .null => "null".toList
  | .int v => intText v
  | .string id => jsonString (pool.resolve id)

def cellAt (row : Row) (i : Nat) : Value := row.cells.getD i .null

def itemFields (t : Table) (row : Row) (pool : StringPool) (it : SelectItem) :
    Except Text (List Text) :=
  if it.col = "*".toList then
    .ok (t.cols.mapIdx fun c cd => jsonField cd.name (cellToJson (cellAt row c) pool))
  else
    match t.columnIndex it.col with
    | none => .error "unknown column".toList
    | some cix =>
      .ok [jsonField (if it.aliasName = [] then it.col else it.aliasName)
        (cellToJson (cellAt row cix) pool)]

def rowObject (t : Table) (items : List SelectItem) (row : Row) (pool : StringPool) :
    Except Text Text :=
  (items.mapM (itemFields t row pool)).map fun fields => jsonObject fields.flatten

def selectRows (regex : Regex) (w : WhereClause) (t : Table) (items : List SelectItem) :
    List RowId → StringPool → Text → Except Text (List Text) × StringPool
  | [], pool, _ => (.ok [], pool)
  | rid :: ids, pool, err =>
    match t.getRow rid with
    | none => selectRows regex w t items ids pool err
    | some rw =>
      let e := evalWhere regex t rw w pool err
      if e.result then
        match rowObject t items rw e.pool with
        | .error err => (.error err, e.pool)
        | .ok obj =>
          let (objs, pool) := selectRows regex w t items ids e.pool e.err
          (objs.map (obj :: ·), pool)
      else selectRows regex w t items ids e.pool e.err

/-- How SUM and AVG print, from the integers they range over: floating point, so parameters. -/
structure Printing where
  sumText : List Int → Text
  avgText : List Int → Text

def intCells (i : Nat) : List Row → Except Text (List Int)
  | [] => .ok []
  | row :: rows =>
    match cellAt row i with
    | .null => intCells i rows
    | .int v => (intCells i rows).map (v :: ·)
    | .string _ => .error "SUM/AVG on non-int".toList

def aggregateName (it : SelectItem) : Text :=
  if it.aliasName ≠ [] then it.aliasName
  else if it.agg = .count ∧ it.col = "*".toList then "_count".toList
  else it.col

def aggregateValue (print : Printing) (t : Table) (rows : List Row) (it : SelectItem) :
    Except Text Text :=
  let numbers := match t.columnIndex it.col with
    | none => Except.error "bad agg col".toList
    | some cix => intCells cix rows
  match it.agg with
  | .count => .ok (natText rows.length)
  | .sum => numbers.map print.sumText
  | .avg => numbers.map fun vs => if vs = [] then "null".toList else print.avgText vs
  | .none => .error "aggregate required".toList

def aggregateObject (print : Printing) (t : Table) (rows : List Row) (items : List SelectItem) :
    Except Text Text :=
  (items.mapM fun it =>
    (aggregateValue print t rows it).map (jsonField (aggregateName it))).map jsonObject

end Dbms.Exec
