import Dbms.Exec.Sound
import Dbms.Exec.TuplesFail
import Dbms.Exec.WhereErrors

/-! A failed request leaves the catalog as it was, unless a loop over rows or records stops in the
middle. -/

open Dbms.Core Dbms.Lib Dbms.Sql Dbms.Auth

namespace Dbms.Exec

/-- The statement does all of its work or none of it: if an INSERT refuses a tuple, it refuses the
first; if an UPDATE cannot be made to all selected rows, it cannot be made to the first; and a REVERT
has nothing to replay. -/
def Whole (W : World) (tick : Tick) (ex : Executor) : Statement → Prop
  | .insert table cols rows => ∀ key db t, resolveTable ex.catalog table = .ok (key, db, t) →
      TuplesAtOnce t (ex.pool.internAll (tupleStrings rows)) cols rows
  | .update table sets w => ∀ key db t (c : Cond),
      resolveTable ex.catalog table = .ok (key, db, t) → w = c.clause →
      SetsAtOnce t (((candidateRows tick.rowOrder t w ex.pool).2.internAll c.strings).internAll
        (setStrings sets)) sets
        (selectedRows W.regex tick.rowOrder t ex.pool c (.update table sets w))
  | .revert hint src => ∀ db ts, ex.catalog.current = some db → hint.table ∈ db.tables →
      parseTsString src = .ok ts →
      ∀ r ∈ Journal.read (ex.files (ex.journalPathFor db.name)), r.db = db.name → ts < r.tsUs
  | _ => True

section
variable {W : World} {ticks : List Nat → Tick} {tick : Tick} {n m : Nat} {path : List Nat}
  {allow : Bool} {ex ex' : Executor} {res : ExecResult} {st : Statement} {r : Request}
  {table : Name}

theorem whereClause_cond {s s' : Text} {w : WhereClause}
    (h : Grammar.whereClause (textSource Parser.stollRange) s w s') : ∃ c : Cond, w = c.clause := by
  rcases h with ⟨_, _, -, x, _, hx, rfl, -⟩ | ⟨rfl, -⟩
  · obtain ⟨ts, e, -, -, rfl⟩ := (Grammar.boolExpr_iff rfl).mp hx
    exact ⟨some e, rfl⟩
  · exact ⟨none, rfl⟩

theorem parse_cond {src rest : Text} {w : WhereClause} (h : Parser.parse src = .ok (st, rest))
    (hw : whereOf st = some (table, w)) : ∃ c : Cond, w = c.clause := by
  obtain ⟨⟨word, _, s₁, -, hform⟩, -⟩ := Parser.parse_eq_ok.mp h
  have hword := Grammar.gives_form word _ _ _ hform
  cases st with
  | select items table' w' =>
    cases hw
    obtain rfl : "SELECT" = word := hword
    have hselect : Grammar.select (textSource Parser.stollRange) s₁ (.select items table w) rest := by
      simpa [Grammar.form] using hform
    obtain ⟨_, _, -, _, _, -, _, _, -, w', _, hwhere, heq, -⟩ := hselect
    cases heq
    exact whereClause_cond hwhere
  | update table' sets w' =>
    cases hw
    obtain rfl : "UPDATE" = word := hword
    have hupdate : Grammar.update (textSource Parser.stollRange) s₁ (.update table sets w) rest := by
      simpa [Grammar.form] using hform
    obtain ⟨_, _, -, _, _, -, _, _, -, w', _, hwhere, heq, -⟩ := hupdate
    cases heq
    exact whereClause_cond hwhere
  | delete table' w' =>
    cases hw
    obtain rfl : "DELETE" = word := hword
    have hdelete : Grammar.delete (textSource Parser.stollRange) s₁ (.delete table w) rest := by
      simpa [Grammar.form] using hform
    obtain ⟨_, _, -, _, _, -, w', _, hwhere, heq, -⟩ := hdelete
    cases heq
    exact whereClause_cond hwhere
  | _ => cases hw

theorem withRows_failed {key : Text} {db : Database} {t : Table} {rows : Option Text × RowsState}
    (hres : resolveTable ex.catalog table = .ok (key, db, t))
    (h : rows.1 ≠ none → rows.2.table = t)
    (hfail : (withRows ex key db table.table rows).1.ok = false) :
    (withRows ex key db table.table rows).2.catalog = ex.catalog := by
  have hrows := h ((withRows_fails _ _).mp hfail)
  change ex.catalog.setDatabase key (db.setTable table.table rows.2.table) = ex.catalog
  rw [hrows, resolveTable_self hres]

theorem ifAllowed_failed {k : ExecResult × Executor}
    (h : allow = true → k.1.ok = false → k.2.catalog = ex.catalog)
    (hfail : (ifAllowed allow ex k).1.ok = false) :
    (ifAllowed allow ex k).2.catalog = ex.catalog := by
  unfold ifAllowed at hfail ⊢
  split
  · rename_i hallow
    rw [if_pos hallow] at hfail
    exact h hallow hfail
  · rfl

theorem withCatalog_failed {c : Except Text Catalog} (hfail : (withCatalog ex c).1.ok = false) :
    (withCatalog ex c).2.catalog = ex.catalog := by
  cases c with
  | error err => rfl
  | ok cat => cases hfail

theorem Sound.resolved {key : Text} {db : Database} {t : Table} (h : Sound n ex)
    (hres : resolveTable ex.catalog table = .ok (key, db, t)) :
    TableSound n ex.pool table.table t := by
  obtain ⟨hdb, ht⟩ := resolveTable_ok hres
  exact (h.databases key db (resolveDatabase_lookup hdb)).tables table.table t ht

theorem execInsert_failed {cols : List Text} {rows : List (List Literal)} (h : Sound n ex)
    (hn : n + rows.length < 2 ^ 64)
    (hw : allow = true → Whole W tick ex (.insert table cols rows))
    (hfail : (execInsert allow ex table cols rows).1.ok = false) :
    (execInsert allow ex table cols rows).2.catalog = ex.catalog := by
  apply ifAllowed_failed _ hfail
  intro hallow hfail
  cases hres : resolveTable ex.catalog table with
  | error err => rfl
  | ok found =>
    obtain ⟨key, db, t⟩ := found
    simp only [hres] at hfail ⊢
    refine withRows_failed hres (fun hloop => ?_) hfail
    exact tuplesLoop_atOnce (h.resolved hres).turned hn rfl (hw hallow key db t hres) hloop

theorem execUpdate_failed {sets : List (Text × Literal)} {c : Cond} (h : Sound n ex)
    (hn : n ≤ 2 ^ 64) (hw : allow = true → Whole W tick ex (.update table sets c.clause))
    (hfail : (execUpdate W tick allow ex table sets c.clause).1.ok = false) :
    (execUpdate W tick allow ex table sets c.clause).2.catalog = ex.catalog := by
  apply ifAllowed_failed _ hfail
  intro hallow hfail
  cases hres : resolveTable ex.catalog table with
  | error err => rfl
  | ok found =>
    obtain ⟨key, db, t⟩ := found
    simp only [hres] at hfail ⊢
    refine withRows_failed hres (fun hloop => ?_) hfail
    obtain ⟨m, hm, hreach⟩ := (h.resolved hres).reach
    have hext := candidateRows_extends tick.rowOrder t c ex.pool
    have hagrees := (hreach.inv (hm.trans hn)).1.extends hext
    have hrows : RowsInterned t (candidateRows tick.rowOrder t c.clause ex.pool).2 :=
      fun rid row hrow v hv => hagrees.interned rid row hrow v hv
    have hnodup := candidateRows_nodup hreach (hm.trans hn) tick.rowOrder c
    obtain ⟨herr, htable⟩ := @update_selection W.regex c sets _ t t _ _ _ [] [] hrows
      (fun s hs => StringPool.internAll_lookup hs) hnodup (.start t _ c _) (.inr rfl)
    obtain ⟨hnodup', hstored⟩ := @selection_sub t c W.regex _
      ((candidateRows tick.rowOrder t c.clause ex.pool).2.internAll c.strings) _ hnodup
    have hagrees' := (hagrees.extends (StringPool.internAll_extends _ c.strings)).extends
      (StringPool.internAll_extends _ (setStrings sets))
    rw [herr] at hloop
    rw [htable]
    exact setsLoop_atOnce hagrees' hnodup' hstored rfl (hw hallow key db t c hres rfl) hloop

theorem execDelete_failed {c : Cond} (h : Sound n ex) (hn : n ≤ 2 ^ 64)
    (hfail : (execDelete W tick allow ex table c.clause).1.ok = false) :
    (execDelete W tick allow ex table c.clause).2.catalog = ex.catalog := by
  apply ifAllowed_failed _ hfail
  intro hallow hfail
  cases hres : resolveTable ex.catalog table with
  | error err => rfl
  | ok found =>
    obtain ⟨key, db, t⟩ := found
    simp only [hres] at hfail ⊢
    refine withRows_failed hres (fun hloop => absurd ?_ hloop) hfail
    obtain ⟨m, hm, hreach⟩ := (h.resolved hres).reach
    obtain ⟨hsub, hmem⟩ := matching_sublist W.regex c.clause t
      (candidateRows tick.rowOrder t c.clause ex.pool).1
      (candidateRows tick.rowOrder t c.clause ex.pool).2 []
    exact (deleteLoop (hsub.nodup (candidateRows_nodup hreach (hm.trans hn) tick.rowOrder c)) hmem).1

theorem execSimple_failed (h : Sound n ex) (hn : n + tuples st < 2 ^ 64)
    (hcond : ∀ table w, whereOf st = some (table, w) → ∃ c : Cond, w = c.clause)
    (hw : allow = true → Whole W tick ex st) (hfail : (execSimple W tick allow ex st).1.ok = false) :
    (execSimple W tick allow ex st).2.catalog = ex.catalog := by
  have hle : n ≤ 2 ^ 64 := (Nat.le_add_right n _).trans hn.le
  cases st with
  | createDatabase name =>
    refine ifAllowed_failed (fun _ hfail => ?_) hfail
    cases hc : ex.catalog.createDatabase name with
    | error err => rfl
    | ok cat =>
      simp only [hc] at hfail
      cases hfail
  | dropDatabase name => exact ifAllowed_failed (fun _ => withCatalog_failed) hfail
  | use name => exact withCatalog_failed hfail
  | createTable table columns =>
    refine ifAllowed_failed (fun _ hfail => ?_) hfail
    cases hdb : resolveDatabase ex.catalog table.db with
    | none => rfl
    | some found =>
      simp only [hdb] at hfail ⊢
      exact withCatalog_failed hfail
  | dropTable table =>
    refine ifAllowed_failed (fun _ hfail => ?_) hfail
    cases hdb : resolveDatabase ex.catalog table.db with
    | none => rfl
    | some found =>
      simp only [hdb] at hfail ⊢
      exact withCatalog_failed hfail
  | insert table cols rows => exact execInsert_failed h hn hw hfail
  | update table sets w =>
    obtain ⟨c, rfl⟩ := hcond table w rfl
    exact execUpdate_failed h hle hw hfail
  | delete table w =>
    obtain ⟨c, rfl⟩ := hcond table w rfl
    exact execDelete_failed h hle hfail
  | select items table w => exact execSelect_catalog items table w
  | authCreateUser user password => exact withRbac_catalog _
  | authCreateGroup group => exact withRbac_catalog _
  | authLogin user password =>
    change (execAuthLogin W tick ex user password).2.catalog = ex.catalog
    unfold execAuthLogin
    split <;> rfl
  | authGrant db principal permission => exact withRbac_catalog _
  | revert hint ts => rfl

theorem execStatement_failed (h : Sound m ex) (hm : m + tuples st < 2 ^ 64)
    (hcond : ∀ table w, whereOf st = some (table, w) → ∃ c : Cond, w = c.clause)
    (hw : allow = true → Whole W (ticks path) ex st)
    (hrun : execStatement W ticks n path st allow ex = .done res ex') (hfail : res.ok = false) :
    ex'.catalog = ex.catalog := by
  cases hr : isRevert st with
  | false =>
    rw [execStatement_simple hr] at hrun
    cases hrun
    exact execSimple_failed h hm hcond hw hfail
  | true =>
    cases st with
    | revert hint src =>
      rw [execStatement] at hrun
      cases hp : prepareRevert (ticks path) allow hint src ex with
      | error err =>
        rw [hp] at hrun
        cases hrun
        rfl
      | ok p =>
        obtain ⟨held, ts, recs, ex₁⟩ := p
        have halive := prepareRevert_alive hp
        obtain ⟨db, hallow, hcur, hts, hhint, rfl, rfl, -⟩ := prepareRevert_ok hp
        have hlate := hw hallow db ts hcur hhint hts
        rw [hp] at hrun
        cases n with
        | zero => cases hrun
        | succ n =>
          dsimp only at hrun
          rw [replay_early halive fun r hmem =>
            hlate r (((ticks path).sortRecs.perm _).mem_iff.mp hmem)] at hrun
          cases hrun
          cases hfail
    | _ => cases hr

/-- The statement of a request, if it is let through and may change something, does all of its work
or none. -/
def WholeRequest (W : World) (c : Call) (ex : Executor) : Prop :=
  ∀ ex₁ st rest, authenticate W c.ticks c.request.jwt ex = .ok ex₁ →
    Parser.parse (statementText c.request.sql ++ [' ']) = .ok (st, rest) →
    forbidden ex₁ st = none → c.request.allowMutations = true → Whole W (c.ticks []) ex₁ st

/-- A call that fails leaves the catalog as it was. -/
def Atomic (W : World) (c : Call) (ex : Executor) : Prop :=
  (c.outcome W ex).failed = true → (c.outcome W ex).state.catalog = ex.catalog

theorem tuples_le_callTrace {c : Call} {rest : Text}
    (hauth : authenticate W c.ticks c.request.jwt ex = .ok ex')
    (hparse : Parser.parse (statementText c.request.sql ++ [' ']) = .ok (st, rest))
    (hgate : forbidden ex' st = none) : tuples st ≤ inserted (callTrace W c ex) := by
  have htrace : callTrace W c ex =
      statementTrace W c.ticks c.depth [] st c.request.allowMutations ex' := by
    simp only [callTrace, hauth, hparse, hgate]
  rw [htrace]
  cases hr : isRevert st with
  | false =>
    rw [statementTrace_simple hr]
    exact Nat.le_add_right _ _
  | true =>
    cases st with
    | revert hint src => exact Nat.zero_le _
    | _ => cases hr

theorem outcome_failed {c : Call} (h : Sound m ex) (hm : m + inserted (callTrace W c ex) < 2 ^ 64)
    (hw : WholeRequest W c ex) : Atomic W c ex := by
  intro hfailed
  obtain ⟨res, hrun, hok⟩ := Outcome.eq_done_of_failed hfailed
  rcases execute_done hrun with ⟨-, u, hstate⟩ | ⟨ex₁, st, rest, ex₂, hauth, hparse, hgate, hexec, hend⟩
  · rw [hstate]
  · have hle := tuples_le_callTrace hauth hparse hgate
    have hwhole := hw ex₁ st rest hauth hparse hgate
    obtain ⟨u, rfl⟩ := authenticate_state hauth
    have hsound : Sound m { ex with rbacUser := u } := ⟨h.current, h.databases⟩
    have hcat := execStatement_failed hsound (by omega) (fun table w => parse_cond hparse) hwhole
      hexec hok
    obtain ⟨ex₃, hdone, files, hstate⟩ := conclude_eq_done hend
    cases hdone
    rw [hstate]
    exact hcat

/-- In a run whose statements do all of their work or none, no failed call changes the catalog. -/
theorem run_atomic (salt : Bytes) (dataDir : Text) (pool : StringPool) (files : Text → Text)
    (cs : List Call) (hn : inserted (trace W cs (.new W salt dataDir pool files)) < 2 ^ 64)
    (hw : EachCall W (WholeRequest W) cs (.new W salt dataDir pool files)) :
    EachCall W (Atomic W) cs (.new W salt dataDir pool files) := by
  intro pre c post hcs
  have hsound := run_sound (W := W) pre (Sound.new W salt dataDir pool files)
  refine outcome_failed hsound ?_ (hw pre c post hcs)
  rw [hcs, trace_append, inserted_append] at hn
  have hcall := inserted_append (callTrace W c (runAll W pre (.new W salt dataDir pool files)))
  simp only [trace, hcall] at hn
  omega

theorem wholeRequest_of_parse {c : Call} {rest : Text} (hjwt : c.request.jwt = [])
    (hparse : Parser.parse (statementText c.request.sql ++ [' ']) = .ok (st, rest))
    (hw : Whole W (c.ticks []) ex st) : WholeRequest W c ex := by
  intro ex₁ st₁ rest₁ hauth hparse₁ _ _
  rw [hjwt, authenticate, if_pos rfl] at hauth
  cases hauth
  cases hparse.symm.trans hparse₁
  exact hw

end

def emptyIndexed : Executor :=
  sampleRun ["CREATE DATABASE d", "USE d", "CREATE TABLE t (id INT INDEXED)"]

theorem emptyIndexed_insert :
    ((sampleCall 0 "INSERT INTO t (id) VALUES (1), (1)").outcome sampleWorld
        emptyIndexed).failed = true ∧
      rowsOf ((sampleCall 0 "INSERT INTO t (id) VALUES (1), (1)").outcome sampleWorld
        emptyIndexed).state "d" "t" ≠ rowsOf emptyIndexed "d" "t" := by decide +kernel

/-- The second of two equal keys is refused, and the first row stays. -/
theorem run_not_atomic : ¬ ∀ (W : World) (ex : Executor), Reachable W ex →
    ∀ c : Call, Atomic W c ex := by
  intro hall
  obtain ⟨hfailed, hchanged⟩ := emptyIndexed_insert
  have hcat := hall sampleWorld emptyIndexed (sampleRun_reachable _)
    (sampleCall 0 "INSERT INTO t (id) VALUES (1), (1)") hfailed
  have hrows : rowsOf ((sampleCall 0 "INSERT INTO t (id) VALUES (1), (1)").outcome sampleWorld
      emptyIndexed).state "d" "t" = rowsOf emptyIndexed "d" "t" := by
    unfold rowsOf
    rw [hcat]
  exact hchanged hrows

/-! Two rows in one INSERT, then an INSERT whose first key is taken. -/

def takenKey : List Call :=
  twoRows ++ [sampleCall 0 "INSERT INTO t (id, s) VALUE (1, \"c\"), (3, \"d\")"]

theorem takenKey_inserted : inserted (trace sampleWorld takenKey sampleStart) = 4 := by
  decide +kernel

def twoColumns : List ColumnDef :=
  [{ name := "id".toList, type := .int, indexed := true, notNull := true },
    { name := ['s'], type := .string }]

theorem takenKey_parse :
    Parser.parse (statementText "CREATE DATABASE d".toList ++ [' ']) =
      .ok (.createDatabase ['d'], [' ']) ∧
    Parser.parse (statementText "USE d".toList ++ [' ']) = .ok (.use ['d'], [' ']) ∧
    Parser.parse (statementText "CREATE TABLE t (id INT INDEXED, s STRING)".toList ++ [' ']) =
      .ok (.createTable ⟨[], ['t']⟩ twoColumns, [' ']) ∧
    Parser.parse (statementText
      "INSERT INTO t (id, s) VALUE (1, \"a\"), (2, \"b\")".toList ++ [' ']) =
        .ok (.insert ⟨[], ['t']⟩ ["id".toList, ['s']]
          [[.int 1, .string ['a']], [.int 2, .string ['b']]], [' ']) ∧
    Parser.parse (statementText
      "INSERT INTO t (id, s) VALUE (1, \"c\"), (3, \"d\")".toList ++ [' ']) =
        .ok (.insert ⟨[], ['t']⟩ ["id".toList, ['s']]
          [[.int 1, .string ['c']], [.int 3, .string ['d']]], [' ']) := by decide +kernel

theorem twoRows_table :
    (resolveTable (runAll sampleWorld (twoRows.take 3) sampleStart).catalog
      ⟨[], ['t']⟩).toOption.map (fun x => (x.2.2.cols, x.2.2.allRowIds (.sorted Nat))) =
        some (twoColumns, []) ∧
    (resolveTable (runAll sampleWorld twoRows sampleStart).catalog
      ⟨[], ['t']⟩).toOption.map (fun x =>
        (x.2.2.cols, (x.2.2.getRow 1).bind fun row => row.cells[0]?)) =
          some (twoColumns, some (.int 1)) := by decide +kernel

theorem tupleRow_twoColumns {t : Table} (P : StringPool) (n : Int) (s : Text)
    (h : t.cols = twoColumns) : tupleRow t P ["id".toList, ['s']] [.int n, .string s] =
      ⟨[.int n, (litToVal (.string s) P).1]⟩ := by
  rw [tupleRow_cols (T := t) (t := .new ['t'] twoColumns) h]
  rfl

section
variable {t : Table} {P : StringPool} {pre : List (List Literal)} {n : Int} {s : Text}

theorem indexed_twoColumns {i : Nat} {c : ColumnDef} (hcols : t.cols = twoColumns)
    (hc : t.cols[i]? = some c) (hindexed : c.indexed = true) : i = 0 := by
  rw [hcols] at hc
  match i with
  | 0 => rfl
  | 1 =>
    cases hc
    cases hindexed
  | i + 2 => cases hc

theorem accepted_twoColumns (hcols : t.cols = twoColumns)
    (hrows : ∀ x row, t.rows.lookup x = some row → row.cells[0]? ≠ some (.int n))
    (hpre : ∀ tup ∈ pre, ∃ k s, k ≠ n ∧ tup = [.int k, .string s]) :
    ¬Refused t P ["id".toList, ['s']] pre [.int n, .string s] := by
  have hrow := tupleRow_twoColumns P n s hcols
  unfold Refused Table.Clashes Level
  rw [hrow]
  rintro (hlen | ⟨c, hc, hunknown⟩ | hunfit | ⟨x, i, c, key, v, hc, hindexed, hkey, hv, heq⟩ |
    ⟨tup, htup, i, c, key, v, hc, hindexed, hkey, hv, heq⟩)
  · exact hlen rfl
  · have hknown : ∀ c ∈ ["id".toList, ['s']], (Table.new ['t'] twoColumns).columnIndex c ≠ none := by
      decide
    refine hknown c hc ?_
    rwa [Table.columnIndex, hcols] at hunknown
  · have hvalid : (Table.new ['t'] twoColumns).validateRow ⟨[.int n, (litToVal (.string s) P).1]⟩ =
        none := rfl
    rw [hcols] at hunfit
    exact hunfit (Table.validateRow_eq_none.mp hvalid)
  · obtain rfl := indexed_twoColumns hcols hc hindexed
    cases hkey
    obtain rfl := valueCmp_eq_zero_int.mp heq
    obtain ⟨row, hlookup, hcell⟩ := hv
    exact hrows x row hlookup hcell
  · obtain rfl := indexed_twoColumns hcols hc hindexed
    cases hkey
    obtain rfl := valueCmp_eq_zero_int.mp heq
    obtain ⟨k, s', hne, rfl⟩ := hpre tup htup
    rw [tupleRow_twoColumns P k s' hcols] at hv
    cases hv
    exact hne rfl

theorem refused_twoColumns {x : RowId} {row : Row} (hcols : t.cols = twoColumns)
    (hlookup : t.rows.lookup x = some row) (hcell : row.cells[0]? = some (.int n)) :
    Refused t P ["id".toList, ['s']] pre [.int n, .string s] := by
  refine .inr (.inr (.inr (.inl ⟨x, 0, _, _, _, by rw [hcols]; rfl, rfl, ?_, ⟨row, hlookup, hcell⟩,
    valueCmp_eq_zero_int.mpr rfl⟩)))
  rw [tupleRow_twoColumns P n s hcols]
  rfl

end

theorem run_atomic_takenKey :
    EachCall sampleWorld (Atomic sampleWorld) takenKey sampleStart := by
  have hn : inserted (trace sampleWorld takenKey sampleStart) < 2 ^ 64 := by
    rw [takenKey_inserted]
    decide
  refine run_atomic sampleSalt "data".toList .new (fun _ => []) takenKey hn ?_
  obtain ⟨hcreate, huse, htable, hinsert, htaken⟩ := takenKey_parse
  obtain ⟨hempty, hrows⟩ := twoRows_table
  refine eachCall_cons.mpr ⟨?_, eachCall_cons.mpr ⟨?_, eachCall_cons.mpr ⟨?_, eachCall_cons.mpr ⟨?_,
    eachCall_singleton.mpr ?_⟩⟩⟩⟩
  · exact wholeRequest_of_parse rfl hcreate trivial
  · exact wholeRequest_of_parse rfl huse trivial
  · exact wholeRequest_of_parse rfl htable trivial
  · refine wholeRequest_of_parse rfl hinsert fun key db t hres => .inl ?_
    rw [show resolveTable (runAll sampleWorld (twoRows.take 3) sampleStart).catalog ⟨[], ['t']⟩ =
      .ok (key, db, t) from hres] at hempty
    obtain ⟨hcols, hids⟩ := Prod.mk.inj (Option.some.inj hempty)
    have hnone : ∀ x row, t.rows.lookup x ≠ some row := by
      intro x row hlookup
      have hmem := ((HashOrder.sorted Nat).mem_toList t.rows.keys x).mpr
        (Finmap.mem_keys.mpr (Finmap.mem_of_lookup_eq_some hlookup))
      rw [show (HashOrder.sorted Nat).toList t.rows.keys = [] from hids] at hmem
      cases hmem
    intro pre tup post hsplit
    have hstored : ∀ {n x row}, t.rows.lookup x = some row → row.cells[0]? ≠ some (.int n) :=
      fun h => absurd h (hnone _ _)
    rcases pre with _ | ⟨first, _ | ⟨second, pre⟩⟩
    · cases hsplit
      exact accepted_twoColumns hcols (fun _ _ => hstored) fun tup h => by cases h
    · cases hsplit
      exact accepted_twoColumns hcols (fun _ _ => hstored)
        (List.forall_mem_singleton.mpr ⟨1, ['a'], by decide, rfl⟩)
    · cases pre <;> cases hsplit
  · refine wholeRequest_of_parse rfl htaken fun key db t hres => .inr ⟨_, _, rfl, ?_⟩
    rw [show resolveTable (runAll sampleWorld twoRows sampleStart).catalog ⟨[], ['t']⟩ =
      .ok (key, db, t) from hres] at hrows
    obtain ⟨hcols, hcell⟩ := Prod.mk.inj (Option.some.inj hrows)
    obtain ⟨row, hlookup, hcell⟩ := Option.bind_eq_some_iff.mp hcell
    exact refused_twoColumns hcols hlookup hcell

end Dbms.Exec
