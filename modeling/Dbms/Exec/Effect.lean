import Dbms.Exec.Grown

/-! What one statement can do to the databases and to the pool. -/

open Dbms.Core Dbms.Lib Dbms.Sql Dbms.Auth

namespace Dbms.Exec

def tuples : Statement → Nat
  | .insert _ _ rows => rows.length
  | _ => 0

def tableOf : Statement → Option Name
  | .insert n .. | .update n .. | .delete n .. => some n
  | _ => none

def SameSchema (t t' : Table) : Prop := t'.name = t.name ∧ t'.cols = t.cols

/-- The ways in which the databases can change. -/
inductive Effect (st : Statement) (ex ex' : Executor) : Prop where
  | same : ex'.catalog = ex.catalog → Effect st ex ex'
  | created (name : Text) : st = .createDatabase name → name ∉ ex.catalog.dbs →
      ex'.catalog = { ex.catalog with
        dbs := ex.catalog.dbs.insert name (.new name ex.catalog.created)
        created := ex.catalog.created + 1 } → Effect st ex ex'
  | dropped (name : Text) : st = .dropDatabase name →
      ex'.catalog = { ex.catalog with
        dbs := ex.catalog.dbs.erase name
        current_ := if ex.catalog.current_ = name then [] else ex.catalog.current_ } →
      Effect st ex ex'
  | used (name : Text) : st = .use name → name ∈ ex.catalog.dbs →
      ex'.catalog = { ex.catalog with current_ := name } → Effect st ex ex'
  | added (n : Name) (cols : List ColumnDef) (key : Text) (db : Database) :
      st = .createTable n cols → resolveDatabase ex.catalog n.db = some (key, db) →
      n.table ∉ db.tables → ex'.pool = (internDefaults cols ex.pool).2 →
      ex'.catalog = ex.catalog.setDatabase key
        (db.setTable n.table (.new n.table (internDefaults cols ex.pool).1)) → Effect st ex ex'
  | turned (n : Name) (key : Text) (db : Database) (t t' : Table) : tableOf st = some n →
      resolveTable ex.catalog n = .ok (key, db, t) → SameSchema t t' →
      (∀ m, Turned t.cols m ⟨t, ex.pool, []⟩ → Turned t.cols (m + tuples st) ⟨t', ex'.pool, []⟩) →
      ex'.catalog = ex.catalog.setDatabase key (db.setTable n.table t') → Effect st ex ex'
  | removed (n : Name) (key : Text) (db : Database) : st = .dropTable n →
      resolveDatabase ex.catalog n.db = some (key, db) →
      ex'.catalog = ex.catalog.setDatabase key { db with tables := db.tables.erase n.table } →
      Effect st ex ex'
  | cleared (hint : Name) (ts : Text) (db : Database) (o : HashOrder Text) : st = .revert hint ts →
      ex.catalog.current = some db →
      ex'.catalog = ex.catalog.setDatabase ex.catalog.current_ (dropTables o db) → Effect st ex ex'

section
variable {W : World} {tick : Tick} {allow : Bool} {ex : Executor} {st : Statement}

theorem ifAllowed_effect {A : Text → Prop} {k : ExecResult × Executor}
    (h : Effect st ex k.2 ∧ StringPool.Grows A ex.pool k.2.pool) :
    Effect st ex (ifAllowed allow ex k).2 ∧
      StringPool.Grows A ex.pool (ifAllowed allow ex k).2.pool := by
  unfold ifAllowed
  split
  · exact h
  · exact ⟨.same rfl, .refl _ _⟩

theorem withRows_effect {α : Type} {body : α → RowsState → Option Text × RowsState} {k : Nat}
    {xs : List α} {n : Name} {key : Text} {db : Database} {t : Table} {pool : StringPool}
    {A : Text → Prop} (hst : tableOf st = some n) (hk : k * xs.length = tuples st)
    (hres : resolveTable ex.catalog n = .ok (key, db, t)) (hpool : StringPool.Grows A ex.pool pool)
    (hschema : ∀ x s, SameSchema s.table (body x s).2.table)
    (hgrows : ∀ x ∈ xs, ∀ s : RowsState, StringPool.Grows A s.pool (body x s).2.pool)
    (hturned : ∀ x m s, Turned t.cols m s → Turned t.cols (m + k) (body x s).2) :
    Effect st ex (withRows ex key db n.table (untilError body xs ⟨t, pool, []⟩)).2 ∧
      StringPool.Grows A ex.pool
        (withRows ex key db n.table (untilError body xs ⟨t, pool, []⟩)).2.pool := by
  have hsame := untilError_rel (R := fun s s' : RowsState => SameSchema s.table s'.table)
    (fun _ => ⟨rfl, rfl⟩) (fun h h' => ⟨h'.1.trans h.1, h'.2.trans h.2⟩) xs
      (fun x _ => hschema x) ⟨t, pool, []⟩
  have hgrown := untilError_rel (R := fun s s' : RowsState => StringPool.Grows A s.pool s'.pool)
    (fun s => .refl A s.pool) StringPool.Grows.trans xs hgrows ⟨t, pool, []⟩
  refine ⟨.turned n key db t _ hst hres hsame (fun m h => ?_) rfl, hpool.trans hgrown⟩
  rw [← hk]
  exact (untilError_turned hturned xs (h.grows hpool [])).grows (.refl A _) []

theorem insertTuple_schema (cols : List Text) (tup : List Literal) (s : RowsState) :
    SameSchema s.table (insertTuple cols tup s).2.table := by
  unfold insertTuple
  split
  · exact ⟨rfl, rfl⟩
  · split
    · rename_i hins
      exact Table.insertRow_error hins ▸ ⟨rfl, rfl⟩
    · rename_i hins
      obtain ⟨-, -, -, rfl⟩ := Table.insertRow_ok hins
      exact ⟨rfl, rfl⟩

theorem updateOne_schema (regex : Regex) (w : WhereClause) (sets : List (Text × Literal))
    (rid : RowId) (s : RowsState) : SameSchema s.table (updateOne regex w sets rid s).2.table := by
  unfold updateOne
  split
  · exact ⟨rfl, rfl⟩
  · dsimp only
    split
    · split
      · exact ⟨rfl, rfl⟩
      · split
        · rename_i hupd
          exact Table.updateRow_error hupd ▸ ⟨rfl, rfl⟩
        · rename_i hupd
          obtain ⟨-, -, -, -, rfl⟩ := Table.updateRow_ok hupd
          exact ⟨rfl, rfl⟩
    · exact ⟨rfl, rfl⟩

theorem deleteOne_schema (rid : RowId) (s : RowsState) :
    SameSchema s.table (deleteOne rid s).2.table := by
  unfold deleteOne
  split
  · rename_i hdel
    exact Table.deleteRow_error hdel ▸ ⟨rfl, rfl⟩
  · rename_i hdel
    obtain ⟨-, -, rfl⟩ := Table.deleteRow_ok hdel
    exact ⟨rfl, rfl⟩

theorem withCatalog_effect {ex₀ : Executor} {r : Except Text Catalog} (hcat : ex₀.catalog = ex.catalog)
    (h : ∀ cat, r = .ok cat → Effect st ex { ex₀ with catalog := cat }) :
    Effect st ex (withCatalog ex₀ r).2 := by
  cases r with
  | error err => exact .same hcat
  | ok cat => exact h cat rfl

theorem withCatalog_pool (ex : Executor) (r : Except Text Catalog) :
    (withCatalog ex r).2.pool = ex.pool := by
  cases r <;> rfl

theorem execSelect_grows (items : List SelectItem) (table : Name) (w : WhereClause) :
    StringPool.Grows (· ∈ whereStrings w) ex.pool (execSelect W tick ex items table w).2.pool := by
  have hw : ∀ s ∈ whereStrings w, s ∈ whereStrings w := fun _ h => h
  unfold execSelect
  split
  · exact .refl _ _
  · dsimp only
    split
    · exact matching_grows hw ..
    · exact (candidateRows_grows hw ..).trans (selectRows_grows hw ..)

theorem withRbac_pool (c : Except Text Rbac) : (withRbac ex c).2.pool = ex.pool := by
  cases c <;> rfl

theorem dropTables_same (o : HashOrder Text) (db : Database) :
    (dropTables o db).name = db.name ∧ (dropTables o db).id = db.id := by
  have hdrop : ∀ (db : Database) tn,
      (dropIgnoring db tn).name = db.name ∧ (dropIgnoring db tn).id = db.id := by
    intro db tn
    unfold dropIgnoring Database.dropTable
    by_cases hmem : tn ∈ db.tables
    · rw [if_pos hmem]
      exact ⟨rfl, rfl⟩
    · rw [if_neg hmem]
      exact ⟨rfl, rfl⟩
  unfold dropTables
  generalize o.toList db.tables.keys = names
  induction names generalizing db with
  | nil => exact ⟨rfl, rfl⟩
  | cons tn names ih =>
    obtain ⟨hname, hid⟩ := ih (dropIgnoring db tn)
    exact ⟨hname.trans (hdrop db tn).1, hid.trans (hdrop db tn).2⟩

theorem prepareRevert_ok {hint : Name} {ts : Text} {held : Held} {ts' : Nat}
    {recs : List JournalRecord} {ex' : Executor}
    (h : prepareRevert tick allow hint ts ex = .ok (held, ts', recs, ex')) :
    ∃ db, allow = true ∧ ex.catalog.current = some db ∧ parseTsString ts = .ok ts' ∧
      hint.table ∈ db.tables ∧ held = ⟨ex.catalog.current_, db.id, db.name⟩ ∧
      recs = tick.sortRecs.sort (Journal.read (ex.files (ex.journalPathFor db.name))) ∧
      ex' = { ex with catalog :=
        ex.catalog.setDatabase ex.catalog.current_ (dropTables tick.nameOrder db) } := by
  unfold prepareRevert at h
  split at h
  · cases h
  rename_i hallow
  split at h
  · cases h
  rename_i db hcur
  split at h
  · cases h
  rename_i ts₁ hts
  split at h
  · cases h
  rename_i t hhint
  cases h
  exact ⟨db, by simpa using hallow, hcur, hts, Finmap.mem_of_lookup_eq_some hhint, rfl, rfl, rfl⟩

/-- The database that REVERT holds is there when its loop begins. -/
theorem prepareRevert_alive {hint : Name} {ts : Text} {held : Held} {ts' : Nat}
    {recs : List JournalRecord} {ex' : Executor}
    (h : prepareRevert tick allow hint ts ex = .ok (held, ts', recs, ex')) :
    ex'.catalog.Alive held.key held.id := by
  obtain ⟨db, -, -, -, -, rfl, -, rfl⟩ := prepareRevert_ok h
  have hlookup : (ex.catalog.setDatabase ex.catalog.current_ (dropTables tick.nameOrder db)).getDatabase
      ex.catalog.current_ = some (dropTables tick.nameOrder db) := Finmap.lookup_insert _
  exact (congrArg (Option.map Database.id) hlookup).trans
    (congrArg some (dropTables_same tick.nameOrder db).2)

/-- Records that are none of the database's, or too late, are passed over. -/
theorem replay_early {exec : Nat → Statement → Executor → Outcome} {held : Held} {ts i : Nat}
    {recs : List JournalRecord} (halive : ex.catalog.Alive held.key held.id)
    (h : ∀ r ∈ recs, r.db = held.name → ts < r.tsUs) :
    replay exec held ts i recs ex =
      .done ⟨true, "reverted".toList, "\x7b\x7d".toList, false, []⟩ ex := by
  induction recs generalizing i with
  | nil => rfl
  | cons r rs ih =>
    obtain ⟨hr, hrs⟩ := List.forall_mem_cons.mp h
    have hskip : (r.db ≠ held.name || ts < r.tsUs) = true := by
      by_cases hdb : r.db = held.name
      · simp [hr hdb]
      · simp [hdb]
    rw [replay, if_neg (not_not.mpr halive), if_pos hskip]
    exact ih hrs

/-! The effect of each statement; the pool grows by strings of the statement. -/

section Cases
variable (W tick allow ex)

def Brings (st : Statement) (ex ex' : Executor) : Prop :=
  Effect st ex ex' ∧ StringPool.Grows (· ∈ statementStrings st) ex.pool ex'.pool

theorem execCreateDatabase_brings (name : Text) :
    Brings (.createDatabase name) ex (execCreateDatabase allow ex name).2 := by
  apply ifAllowed_effect
  cases hdb : ex.catalog.createDatabase name with
  | error err => exact ⟨.same rfl, .refl _ _⟩
  | ok cat =>
    obtain ⟨hnew, rfl⟩ := createDatabase_ok hdb
    exact ⟨.created name rfl hnew rfl, .refl _ _⟩

theorem execDropDatabase_brings (name : Text) :
    Brings (.dropDatabase name) ex (execDropDatabase allow ex name).2 := by
  apply ifAllowed_effect
  refine ⟨withCatalog_effect rfl fun cat hcat => ?_, by rw [withCatalog_pool]; exact .refl _ _⟩
  unfold Catalog.dropDatabase at hcat
  split at hcat
  · cases hcat
    exact .dropped name rfl rfl
  · cases hcat

theorem execUse_brings (name : Text) : Brings (.use name) ex (execUse ex name).2 := by
  refine ⟨withCatalog_effect rfl fun cat hcat => ?_, by rw [execUse, withCatalog_pool]; exact .refl _ _⟩
  unfold Catalog.setCurrent at hcat
  split at hcat
  · rename_i hmem
    cases hcat
    exact .used name rfl hmem rfl
  · cases hcat

theorem execCreateTable_brings (table : Name) (columns : List ColumnDef) :
    Brings (.createTable table columns) ex (execCreateTable allow ex table columns).2 := by
  apply ifAllowed_effect
  cases hdb : resolveDatabase ex.catalog table.db with
  | none => exact ⟨.same rfl, .refl _ _⟩
  | some found =>
    obtain ⟨key, db⟩ := found
    refine ⟨withCatalog_effect rfl fun cat hcat => ?_, ?_⟩
    · unfold Database.createTable at hcat
      split at hcat
      · cases hcat
      · rename_i hnew
        cases hcat
        exact .added table columns key db rfl hdb hnew rfl rfl
    · dsimp only
      rw [withCatalog_pool]
      exact internDefaults_grows (fun c hc s hs => List.mem_filterMap.mpr ⟨c, hc, hs⟩) ex.pool

theorem execDropTable_brings (table : Name) :
    Brings (.dropTable table) ex (execDropTable allow ex table).2 := by
  apply ifAllowed_effect
  cases hdb : resolveDatabase ex.catalog table.db with
  | none => exact ⟨.same rfl, .refl _ _⟩
  | some found =>
    obtain ⟨key, db⟩ := found
    refine ⟨withCatalog_effect rfl fun cat hcat => ?_, by rw [withCatalog_pool]; exact .refl _ _⟩
    unfold Database.dropTable at hcat
    split at hcat
    · cases hcat
      exact .removed table key db rfl hdb rfl
    · cases hcat

theorem execInsert_brings (table : Name) (cols : List Text) (rows : List (List Literal)) :
    Brings (.insert table cols rows) ex (execInsert allow ex table cols rows).2 := by
  apply ifAllowed_effect
  cases hres : resolveTable ex.catalog table with
  | error err => exact ⟨.same rfl, .refl _ _⟩
  | ok found =>
    exact withRows_effect (k := 1) rfl (Nat.one_mul _) hres (.refl _ _) (insertTuple_schema cols)
      (fun tup htup s => insertTuple_grows (fun _ hs => List.mem_flatMap.mpr ⟨tup, htup, hs⟩)
        cols s) fun tup m s => insertTuple_turned

theorem execUpdate_brings (table : Name) (sets : List (Text × Literal)) (w : WhereClause) :
    Brings (.update table sets w) ex (execUpdate W tick allow ex table sets w).2 := by
  apply ifAllowed_effect
  cases hres : resolveTable ex.catalog table with
  | error err => exact ⟨.same rfl, .refl _ _⟩
  | ok found =>
    have hw : ∀ s ∈ whereStrings w, s ∈ whereStrings w ++ setStrings sets :=
      fun _ => List.mem_append_left _
    exact withRows_effect (k := 0) rfl (Nat.zero_mul _) hres (candidateRows_grows hw ..)
      (updateOne_schema W.regex w sets)
      (fun rid _ => updateOne_grows hw (fun _ => List.mem_append_right _) W.regex rid)
      fun rid m s => updateOne_turned

theorem execDelete_brings (table : Name) (w : WhereClause) :
    Brings (.delete table w) ex (execDelete W tick allow ex table w).2 := by
  apply ifAllowed_effect
  cases hres : resolveTable ex.catalog table with
  | error err => exact ⟨.same rfl, .refl _ _⟩
  | ok found =>
    have hw : ∀ s ∈ whereStrings w, s ∈ whereStrings w := fun _ h => h
    exact withRows_effect (k := 0) rfl (Nat.zero_mul _) hres
      ((candidateRows_grows hw ..).trans (matching_grows hw ..)) deleteOne_schema
      (fun rid _ => deleteOne_grows _ rid) fun rid m s => deleteOne_turned

theorem execAuthLogin_brings (user password : Text) :
    Brings (.authLogin user password) ex (execAuthLogin W tick ex user password).2 := by
  unfold execAuthLogin
  split <;> exact ⟨.same rfl, .refl _ _⟩

theorem withRbac_brings {st : Statement} (c : Except Text Rbac) :
    Brings st ex (withRbac ex c).2 :=
  ⟨.same (withRbac_catalog c), withRbac_pool c ▸ .refl _ _⟩

theorem revert_brings (hint : Name) (ts : Text) :
    Brings (.revert hint ts) ex (Execution.mk (.revert hint ts) allow tick ex |>.after W) := by
  unfold Execution.after
  dsimp only
  split
  · rename_i hp
    obtain ⟨db, -, hcur, -, -, -, -, rfl⟩ := prepareRevert_ok hp
    exact ⟨.cleared hint ts db tick.nameOrder rfl hcur rfl, .refl _ _⟩
  · exact ⟨.same rfl, .refl _ _⟩

end Cases

theorem after_effect (e : Execution) : Effect e.statement e.before (e.after W) ∧
    StringPool.Grows (· ∈ statementStrings e.statement) e.before.pool (e.after W).pool := by
  obtain ⟨st, allow, tick, ex⟩ := e
  cases st with
  | createDatabase name => exact execCreateDatabase_brings allow ex name
  | dropDatabase name => exact execDropDatabase_brings allow ex name
  | use name => exact execUse_brings ex name
  | createTable table columns => exact execCreateTable_brings allow ex table columns
  | dropTable table => exact execDropTable_brings allow ex table
  | insert table cols rows => exact execInsert_brings allow ex table cols rows
  | update table sets w => exact execUpdate_brings W tick allow ex table sets w
  | delete table w => exact execDelete_brings W tick allow ex table w
  | select items table w => exact ⟨.same (execSelect_catalog items table w), execSelect_grows ..⟩
  | authLogin user password => exact execAuthLogin_brings W tick ex user password
  | authCreateUser | authCreateGroup | authGrant => exact withRbac_brings ex _
  | revert hint ts => exact revert_brings W tick allow ex hint ts

end
end Dbms.Exec
