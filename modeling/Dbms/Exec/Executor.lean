import Dbms.Auth.Jwt
import Dbms.Auth.Rbac
import Dbms.Core.Catalog
import Dbms.Core.Journal
import Dbms.Exec.Rows
import Dbms.Sql.Parser

/-! The executor: requests in, results and a changed state out. -/

open Dbms.Core Dbms.Lib Dbms.Sql Dbms.Auth

namespace Dbms.Exec

/-- The code outside the repository that the executor runs on. -/
structure World where
  jwtSecret : Text
  hmac : Hmac
  pbkdf2 : Pbkdf2
  regex : Regex
  print : Printing

/-- What one statement finds outside: clocks, random bytes, the orders left open, and what becomes
of a line of the journal (`none` if the directory for it cannot be made, which throws). -/
structure Tick where
  nowUs : Nat
  verifySec : Int
  signSec : Int
  salt : Bytes
  rowOrder : HashOrder RowId
  nameOrder : HashOrder Text
  sortRecs : SortBy JournalRecord.tsUs
  journal : Option Stored

structure ExecResult where
  ok : Bool
  message : Text
  json : Text
  async : Bool := false
  jobId : Text := []
  deriving DecidableEq

def ExecResult.failed (message : Text) : ExecResult := ⟨false, message, "\x7b\x7d".toList, false, []⟩

def ExecResult.done (json : Text) : ExecResult := ⟨true, "ok".toList, json, false, []⟩

def ExecResult.success : ExecResult := .done "\x7b\x7d".toList

/-- `files` are the journal files by their path. -/
structure Executor where
  dataDir : Text
  pool : StringPool
  catalog : Catalog
  rbac : Rbac
  rbacUser : Text
  files : Text → Text

/-- How a call ends: it returns; an exception leaves it; it uses a database object after its
deletion; or REVERTs are nested deeper than the bound. -/
inductive Outcome where
  | done (res : ExecResult) (ex : Executor)
  | raised (ex : Executor)
  | dangling (ex : Executor)
  | running (ex : Executor)

namespace Executor

def new (W : World) (salt : Bytes) (dataDir : Text) (pool : StringPool) (files : Text → Text) :
    Executor where
  dataDir := dataDir
  pool := pool
  catalog := .empty
  rbac := match Rbac.empty.createUser W.pbkdf2 salt "admin".toList "admin".toList with
    | .ok r => r
    | .error _ => .empty
  rbacUser := []
  files := files

def journalPathFor (ex : Executor) (db : Text) : Text :=
  ex.dataDir ++ "/".toList ++ db ++ "/journal.log".toList

/-- The state with one more line in a journal, unless an exception is thrown. -/
def maybeJournal (tick : Tick) (sql : Text) (skip isMutating : Bool) (db : Text) (ex : Executor) :
    Option Executor :=
  if skip || !isMutating || db = [] then some ex
  else
    let path := ex.journalPathFor db
    tick.journal.map fun stored => { ex with
      files :=
        Function.update ex.files path (Journal.append stored (ex.files path) tick.nowUs db sql) }

end Executor

def isMutating : Statement → Bool
  | .select .. | .authLogin .. | .authCreateUser .. | .authCreateGroup .. | .authGrant .. => false
  | .use _ => false
  | _ => true

def needsWritePerm : Statement → Bool
  | .insert .. | .update .. | .delete .. => true
  | .createTable .. | .dropTable .. => true
  | .createDatabase _ | .dropDatabase _ => true
  | .revert .. => true
  | _ => false

def needsReadPerm : Statement → Bool
  | .select .. => true
  | _ => false

def isDdl : Statement → Bool
  | .createTable .. | .dropTable .. | .createDatabase _ | .dropDatabase _ => true
  | _ => false

def isRevert : Statement → Bool
  | .revert .. => true
  | _ => false

/-- The database that a qualifier names, with its key: the current one if it is empty. -/
def resolveDatabase (cat : Catalog) (db : Text) : Option (Text × Database) :=
  if db = [] then cat.current.map fun d => (cat.current_, d)
  else (cat.getDatabase db).map fun d => (db, d)

def resolveTable (cat : Catalog) (n : Name) : Except Text (Text × Database × Table) :=
  match resolveDatabase cat n.db with
  | none => .error "no current database (USE ...)".toList
  | some (key, db) =>
    match db.getTable n.table with
    | none => .error ("table not found: ".toList ++ n.full)
    | some t => .ok (key, db, t)

def internDefaults : List ColumnDef → StringPool → List ColumnDef × StringPool
  | [], pool => ([], pool)
  | c :: cs, pool =>
    match c.defaultStr with
    | none => (c :: (internDefaults cs pool).1, (internDefaults cs pool).2)
    | some s =>
      let (id, pool) := pool.intern s
      let (cs, pool) := internDefaults cs pool
      ({ c with defaultValue := some (.string id), defaultStr := none } :: cs, pool)

section Statements
variable (W : World) (tick : Tick) (allow : Bool) (ex : Executor)

def ifAllowed (k : ExecResult × Executor) : ExecResult × Executor :=
  if allow then k else (.failed "mutations disabled".toList, ex)

def withCatalog : Except Text Catalog → ExecResult × Executor
  | .error err => (.failed err, ex)
  | .ok cat => (.success, { ex with catalog := cat })

def execCreateDatabase (name : Text) : ExecResult × Executor :=
  ifAllowed allow ex <|
    match ex.catalog.createDatabase name with
    | .error err => (.failed err, ex)
    | .ok cat =>
      (.success, { ex with catalog := cat, rbac := ex.rbac.grantDefaultOnNewDatabase name })

def execDropDatabase (name : Text) : ExecResult × Executor :=
  ifAllowed allow ex (withCatalog ex (ex.catalog.dropDatabase name))

def execUse (name : Text) : ExecResult × Executor := withCatalog ex (ex.catalog.setCurrent name)

def execCreateTable (table : Name) (columns : List ColumnDef) : ExecResult × Executor :=
  ifAllowed allow ex <|
    match resolveDatabase ex.catalog table.db with
    | none => (.failed "no database".toList, ex)
    | some (key, db) =>
      let (cols, pool) := internDefaults columns ex.pool
      withCatalog { ex with pool := pool }
        ((db.createTable table.table cols).map (ex.catalog.setDatabase key))

def execDropTable (table : Name) : ExecResult × Executor :=
  ifAllowed allow ex <|
    match resolveDatabase ex.catalog table.db with
    | none => (.failed "no database".toList, ex)
    | some (key, db) =>
      withCatalog ex ((db.dropTable table.table).map (ex.catalog.setDatabase key))

def withRows (key : Text) (db : Database) (tname : Text) (r : Option Text × RowsState) :
    ExecResult × Executor :=
  let res := match r.1 with
    | none => ExecResult.success
    | some err => .failed err
  (res, { ex with
    pool := r.2.pool, catalog := ex.catalog.setDatabase key (db.setTable tname r.2.table) })

def execInsert (table : Name) (cols : List Text) (rows : List (List Literal)) :
    ExecResult × Executor :=
  ifAllowed allow ex <|
    match resolveTable ex.catalog table with
    | .error err => (.failed err, ex)
    | .ok (key, db, t) =>
      withRows ex key db table.table (untilError (insertTuple cols) rows ⟨t, ex.pool, []⟩)

def execUpdate (table : Name) (sets : List (Text × Literal)) (w : WhereClause) :
    ExecResult × Executor :=
  ifAllowed allow ex <|
    match resolveTable ex.catalog table with
    | .error err => (.failed err, ex)
    | .ok (key, db, t) =>
      let (ids, pool) := candidateRows tick.rowOrder t w ex.pool
      withRows ex key db table.table
        (untilError (updateOne W.regex w sets) ids ⟨t, pool, []⟩)

def execDelete (table : Name) (w : WhereClause) : ExecResult × Executor :=
  ifAllowed allow ex <|
    match resolveTable ex.catalog table with
    | .error err => (.failed err, ex)
    | .ok (key, db, t) =>
      let (ids, pool) := candidateRows tick.rowOrder t w ex.pool
      let (del, _, pool) := matching W.regex w t ids pool []
      withRows ex key db table.table (untilError deleteOne del ⟨t, pool, []⟩)

def execSelect (items : List SelectItem) (table : Name) (w : WhereClause) :
    ExecResult × Executor :=
  match resolveTable ex.catalog table with
  | .error err => (.failed err, ex)
  | .ok (_, _, t) =>
    if items.any fun it => it.agg ≠ .none then
      let (rids, _, pool) := matching W.regex w t (t.allRowIds tick.rowOrder) ex.pool []
      let res := match aggregateObject W.print t (rids.filterMap t.getRow) items with
        | .error err => ExecResult.failed err
        | .ok obj => .done (jsonArray [obj])
      (res, { ex with pool := pool })
    else
      let (ids, pool) := candidateRows tick.rowOrder t w ex.pool
      let (objs, pool) := selectRows W.regex w t items ids pool []
      let res := match objs with
        | .error err => ExecResult.failed err
        | .ok objs => .done (jsonArray objs)
      (res, { ex with pool := pool })

def withRbac : Except Text Rbac → ExecResult × Executor
  | .error err => (.failed err, ex)
  | .ok r => (.success, { ex with rbac := r })

def execAuthLogin (user password : Text) : ExecResult × Executor :=
  if ex.rbac.verifyPassword W.pbkdf2 user password then
    let tok := jwtSignHs256 W.hmac tick.signSec W.jwtSecret user 3600
    (.done ("\x7b".toList ++ jsonField "token".toList (jsonString tok) ++ "\x7d".toList), ex)
  else (.failed "bad credentials".toList, ex)

def execAuthGrant (db principal permission : Text) : ExecResult × Executor :=
  withRbac ex ((permFromString permission).map (ex.rbac.grant db principal))

def execSimple : Statement → ExecResult × Executor
  | .createDatabase name => execCreateDatabase allow ex name
  | .dropDatabase name => execDropDatabase allow ex name
  | .use name => execUse ex name
  | .createTable table columns => execCreateTable allow ex table columns
  | .dropTable table => execDropTable allow ex table
  | .insert table cols rows => execInsert allow ex table cols rows
  | .update table sets w => execUpdate W tick allow ex table sets w
  | .delete table w => execDelete W tick allow ex table w
  | .select items table w => execSelect W tick ex items table w
  | .authCreateUser user password =>
    withRbac ex (ex.rbac.createUser W.pbkdf2 tick.salt user password)
  | .authCreateGroup group => withRbac ex (ex.rbac.createGroup group)
  | .authLogin user password => execAuthLogin W tick ex user password
  | .authGrant db principal permission => execAuthGrant ex db principal permission
  | .revert .. => (.failed "unsupported".toList, ex)

end Statements

/-- The `Database*` that REVERT keeps through its loop, with the name found behind it. -/
structure Held where
  key : Text
  id : Nat
  name : Text

/-- The loop of REVERT over the sorted records; `exec i` runs the statement of the `i`-th one. -/
def replay (exec : Nat → Statement → Executor → Outcome) (db : Held) (ts : Nat) :
    Nat → List JournalRecord → Executor → Outcome
  | _, [], ex => .done ⟨true, "reverted".toList, "\x7b\x7d".toList, false, []⟩ ex
  | i, r :: rs, ex =>
    if ¬ex.catalog.Alive db.key db.id then .dangling ex
    else if r.db ≠ db.name || ts < r.tsUs then replay exec db ts (i + 1) rs ex
    else
      match Parser.parse (r.sql ++ [' ']) with
      | .error (.parse m) => .done (.failed ("revert replay: ".toList ++ m)) ex
      | .error .outOfRange => .raised ex
      | .error .stuck => .running ex
      | .ok (st, _) =>
        match exec i st ex with
        | .done res ex =>
          if res.ok then replay exec db ts (i + 1) rs ex else .done res ex
        | o => o

/-- `drop_table` with its error ignored. -/
def dropIgnoring (db : Database) (tn : Text) : Database :=
  match db.dropTable tn with
  | .ok db => db
  | .error _ => db

def dropTables (o : HashOrder Text) (db : Database) : Database :=
  (o.toList db.tables.keys).foldl dropIgnoring db

/-- The tables dropped and the records to replay, or why there is nothing to do. -/
def prepareRevert (tick : Tick) (allow : Bool) (hint : Name) (ts : Text) (ex : Executor) :
    Except Text (Held × Nat × List JournalRecord × Executor) :=
  if !allow then .error "mutations disabled".toList
  else
    match ex.catalog.current with
    | none => .error "USE database first".toList
    | some db =>
      match parseTsString ts with
      | .error err => .error err
      | .ok ts =>
        match db.getTable hint.table with
        | none => .error "unknown table in REVERT hint".toList
        | some _ =>
          let recs := tick.sortRecs.sort (Journal.read (ex.files (ex.journalPathFor db.name)))
          let cat := ex.catalog.setDatabase ex.catalog.current_ (dropTables tick.nameOrder db)
          .ok (⟨ex.catalog.current_, db.id, db.name⟩, ts, recs, { ex with catalog := cat })

section Run
variable (W : World) (ticks : List Nat → Tick)

/-- `exec_statement`. A REVERT may be nested `n` deep; `path` tells the statements of one call
apart. -/
def execStatement : Nat → List Nat → Statement → Bool → Executor → Outcome
  | n, path, .revert hint ts, allow, ex =>
    match prepareRevert (ticks path) allow hint ts ex with
    | .error err => .done (.failed err) ex
    | .ok (db, ts, recs, ex) =>
      match n with
      | 0 => .running ex
      | n + 1 => replay (fun i st ex => execStatement n (path ++ [i]) st true ex) db ts 0 recs ex
  | _, path, st, allow, ex =>
    .done (execSimple W (ticks path) allow ex st).1 (execSimple W (ticks path) allow ex st).2

structure Request where
  sql : Text
  clientId : Text := []
  jwt : Text := []
  allowMutations : Bool := true
  skipJournal : Bool := false

def trim (s : Text) : Text := (s.rdropWhile Lexer.isSpace).dropWhile Lexer.isSpace

/-- The text without surrounding whitespace and one closing semicolon. -/
def statementText (sqlIn : Text) : Text :=
  let sql := trim sqlIn
  trim (if sql.getLast? = some ';' then sql.dropLast else sql)

/-- The token decides the user; without one the user of the last token stays. -/
def authenticate (jwt : Text) (ex : Executor) : Except JwtErr Executor :=
  if jwt = [] then .ok ex
  else (jwtVerify W.hmac (ticks []).verifySec W.jwtSecret jwt).map fun jp =>
    { ex with rbacUser := jp.sub }

/-- The permission check, on the current database. -/
def forbidden (ex : Executor) (st : Statement) : Option Text :=
  match ex.catalog.current with
  | none => none
  | some cur =>
    if ex.rbacUser = [] then none
    else if needsReadPerm st && !ex.rbac.check ex.rbacUser cur.name .read then
      some "forbidden: read".toList
    else if needsWritePerm st && !ex.rbac.check ex.rbacUser cur.name .writeData && isMutating st &&
        !isDdl st then
      some "forbidden: write".toList
    else none

def journalDb (before after : Catalog) (st : Statement) : Text :=
  match st with
  | .createDatabase name => name
  | _ =>
    match after.current with
    | some cur => cur.name
    | none => (before.current.map Database.name).getD []

/-- The end of a request whose statement has ended so: a line in the journal may be due. -/
def conclude (r : Request) (before : Catalog) (st : Statement) : Outcome → Outcome
  | .done res ex =>
    if res.ok && isMutating st && !r.skipJournal && !isRevert st then
      match ex.maybeJournal (ticks []) r.sql r.skipJournal (isMutating st)
          (journalDb before ex.catalog st) with
      | some ex' => .done res ex'
      | none => .raised ex
    else .done res ex
  | o => o

def execute (n : Nat) (r : Request) (ex : Executor) : Outcome :=
  match authenticate W ticks r.jwt ex with
  | .error (.err m) => .done (.failed ("auth: ".toList ++ m)) ex
  | .error .raised => .raised ex
  | .ok ex =>
    match Parser.parse (statementText r.sql ++ [' ']) with
    | .error (.parse m) => .done (.failed m) ex
    | .error .outOfRange => .raised ex
    | .error .stuck => .running ex
    | .ok (st, _) =>
      match forbidden ex st with
      | some m => .done (.failed m) ex
      | none =>
        conclude ticks r ex.catalog st (execStatement W ticks n [] st r.allowMutations ex)

end Run
end Dbms.Exec
