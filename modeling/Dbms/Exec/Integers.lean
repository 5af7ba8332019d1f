import Dbms.Core.Relation
import Dbms.Exec.Selected
import Dbms.Sql.Spelled

/-! An integer is stored as it was written, found by its text and printed in the same digits. -/

open Dbms.Core Dbms.Lib Dbms.Sql Dbms.Auth

namespace Dbms.Exec

/-- A SELECT by the text of `v` finds the rows that hold `v` in column `i`, and prints that text. -/
def Finds (W : World) (ex : Executor) (table col : Text) (i : Nat) (v : Int) (t : Table) : Prop :=
  ∀ (ticks : List Nat → Tick) (n : Nat) (r : Request) (ex₁ : Executor),
    Lexer.Renders (selectTokens table col v) (statementText r.sql) →
    authenticate W ticks r.jwt ex = .ok ex₁ → forbidden ex₁ (selectStatement table col v) = none →
    ∃ rids : List RowId, rids.Nodup ∧ (∀ rid, rid ∈ rids ↔ Table.CellAt t.rows i (.int v) rid) ∧
      ∃ ex', execute W ticks n r ex = .done (.done (jsonArray
        (rids.map fun _ => jsonObject [jsonField col (intText v)]))) ex'

section Insert
variable {t : Table} {pool p : StringPool} {cols : List Text} {lits : List Literal} {row : Row}
  {i n : Nat} {v : Int} {rid : RowId} {cd : ColumnDef}

theorem applyDefaults_int (h : row.cells[i]? = some (.int v)) :
    (applyDefaults t row).cells[i]? = some (.int v) := by
  simp [applyDefaults, List.getElem?_mapIdx, h, Value.isNull]

theorem buildRow_int (hi : i < t.cols.length) (hval : assigned t (cols.zip lits) i = some (.int v))
    (h : buildRow t cols lits pool = (.ok row, p)) :
    row.cells.length = t.cols.length ∧ row.cells[i]? = some (.int v) ∧ pool.Extends p := by
  unfold buildRow at h
  split at h
  · cases h
  cases hset : setCells t ("unknown column ".toList ++ ·) (cols.zip lits)
      ⟨List.replicate t.cols.length .null⟩ pool with
  | mk res p' =>
    rw [hset] at h
    cases res with
    | error e => cases h
    | ok row₁ =>
      cases h
      have hstores := setCells_stores hset
      have hwidth : (applyDefaults t row₁).cells.length = t.cols.length := by
        simpa [applyDefaults] using hstores.width
      have hcell := (hstores.set i _ hval (by simpa using hi)).2
      have hext := setCells_extends (cols.zip lits) ⟨List.replicate t.cols.length .null⟩ t pool
        ("unknown column ".toList ++ ·)
      rw [hset] at hext
      exact ⟨hwidth, applyDefaults_int hcell, hext⟩

theorem insertTuple_int (h : Table.Reach n pool t) (hn : n + 1 < 2 ^ 64) (hcd : t.cols[i]? = some cd)
    (htype : cd.type = .int) (hval : assigned t (cols.zip lits) i = some (.int v))
    (hbuild : buildRow t cols lits pool = (.ok row, p))
    (hfits : ∀ (j : Nat) (c : ColumnDef) (k : Value), j ≠ i → t.cols[j]? = some c →
      row.cells[j]? = some k → c.Takes k)
    (hnew : ∀ x, ¬Table.Clashes p t row x) :
    ∃ t', insertTuple cols lits ⟨t, pool, []⟩ = (none, ⟨t', p, []⟩) ∧ t.nextRid ∉ t.rows ∧
      t'.rows = t.rows.insert t.nextRid row ∧ t'.cols = t.cols ∧
      ∀ x row, t'.rows.lookup x = some row → row.cells.length = t'.cols.length := by
  obtain ⟨hlt, -⟩ := List.getElem?_eq_some_iff.mp hcd
  obtain ⟨hwidth, hcell, hext⟩ := buildRow_int hlt hval hbuild
  obtain ⟨hag, m, hm, hfresh⟩ := h.inv (by omega)
  have hrow : Table.Fits t.cols row := by
    refine ⟨hwidth, fun j c k hc hk => ?_⟩
    by_cases hj : j = i
    · subst hj
      obtain rfl := Option.some.inj (hcell.symm.trans hk)
      obtain rfl := Option.some.inj (hcd.symm.trans hc)
      exact htype
    · exact hfits j c k hj hc hk
  obtain ⟨rid, t', hins⟩ := ((hag.extends hext).insertRow_iff _).mpr ⟨hrow, hnew⟩
  obtain ⟨-, -, rfl, ht'⟩ := Table.insertRow_ok hins
  have hrows : t'.rows = t.rows.insert t.nextRid row := by rw [ht']; rfl
  have hcols : t'.cols = t.cols := by rw [ht']; rfl
  have hnext : t.nextRid ≠ 0 := by
    have hwrap : (m + 1) % 2 ^ 64 ≠ 0 := by omega
    rwa [hfresh.nextRid]
  refine ⟨t', ?_, ?_, hrows, hcols, ?_⟩
  · simp only [insertTuple, hbuild, hins]
    rw [if_neg hnext]
  · exact Finmap.lookup_eq_none.mp (hfresh.lookup_nextRid (by omega))
  · intro x row' hx
    rw [hrows] at hx
    rw [hcols]
    rcases Table.eq_or_lookup_of_insert hx with rfl | hold
    · exact hwidth
    · exact (Table.validateRow_eq_none.mp (hag.valid x row' hold)).1

end Insert

section Select
variable {W : World} {tick : Tick} {regex : Regex} {t : Table} {pool : StringPool} {i : Nat}
  {v : Int} {col : Text} {row : Row} {cd : ColumnDef} {err : Text} {rid : RowId} {ids : List RowId}

def equals (col : Text) (v : Int) : WhereClause :=
  { nodes := [.cmp col .eq (.lit (.int v))], root := some 0 }

theorem equals_result (hcol : t.columnIndex col = some i) {k : Value} (hk : row.cells[i]? = some k) :
    (evalWhere regex t row (equals col v) pool err).result = decide (k = .int v) ∧
      (evalWhere regex t row (equals col v) pool err).pool = pool := by
  have hcell : cellByName t row col = some k := by
    unfold cellByName
    rw [hcol]
    exact hk
  have heval : evalWhere regex t row (equals col v) pool err =
      ⟨cmpValues .eq k (.int v) pool, err, pool⟩ := by
    show evalCmp t row col .eq (.lit (.int v)) pool err = _
    simp only [evalCmp, hcell]
    rfl
  rw [heval]
  refine ⟨?_, rfl⟩
  show decide (valueCmp pool k (.int v) = 0) = _
  rw [decide_eq_decide]
  exact valueCmp_eq_zero_int

theorem equals_candidates (hcol : t.columnIndex col = some i) (hcd : t.cols[i]? = some cd)
    (hplain : cd.indexed = false) (o : HashOrder RowId) :
    candidateRows o t (equals col v) pool = (t.allRowIds o, pool) := by
  have hnone : indexedRows t (equals col v) pool = ([], pool) := by
    simp [indexedRows, equals, extractIndexEq, hcol, hcd, hplain]
  rw [candidateRows_of_not_indexed o (congrArg Prod.fst hnone), hnone]

theorem rowObject_int (hcol : t.columnIndex col = some i) (hstar : col ≠ ['*'])
    (hcell : row.cells[i]? = some (.int v)) :
    rowObject t [{ col := col }] row pool = .ok (jsonObject [jsonField col (intText v)]) := by
  have hfields : itemFields t row pool { col := col } = .ok [jsonField col (intText v)] := by
    simp [itemFields, hstar, hcol, cellAt, List.getD_eq_getElem?_getD, hcell, cellToJson]
  unfold rowObject
  rw [List.mapM_cons, hfields]
  rfl

def holding (o : HashOrder RowId) (t : Table) (i : Nat) (v : Int) : List RowId :=
  (t.allRowIds o).filter fun rid => (t.getRow rid).bind (·.cells[i]?) = some (.int v)

theorem mem_holding (o : HashOrder RowId) :
    rid ∈ holding o t i v ↔ Table.CellAt t.rows i (.int v) rid := by
  unfold holding
  rw [List.mem_filter, mem_allRowIds, decide_eq_true_iff, Option.bind_eq_some_iff]
  exact ⟨fun h => h.2, fun h => ⟨h.imp fun _ h => h.1, h⟩⟩

theorem selectRows_int (hcol : t.columnIndex col = some i) (hstar : col ≠ ['*'])
    (hcells : ∀ rid row, t.getRow rid = some row → ∃ k, row.cells[i]? = some k) :
    (selectRows regex (equals col v) t [{ col := col }] ids pool err).1 =
      .ok ((ids.filter fun rid => (t.getRow rid).bind (·.cells[i]?) = some (.int v)).map fun _ =>
        jsonObject [jsonField col (intText v)]) := by
  induction ids generalizing err with
  | nil => rfl
  | cons rid ids ih =>
    cases hrow : t.getRow rid with
    | none =>
      simp only [selectRows, hrow]
      rw [List.filter_cons_of_neg (by simp [hrow])]
      exact ih
    | some row =>
      obtain ⟨k, hk⟩ := hcells rid row hrow
      obtain ⟨hres, hpool⟩ := @equals_result regex t pool i v col row err hcol k hk
      simp only [selectRows, hrow, hres, hpool]
      by_cases hkv : k = .int v
      · subst hkv
        rw [decide_eq_true rfl, if_pos rfl, rowObject_int hcol hstar hk,
          List.filter_cons_of_pos (by simp [hrow, hk])]
        dsimp only
        rw [ih]
        rfl
      · rw [decide_eq_false hkv, if_neg Bool.false_ne_true,
          List.filter_cons_of_neg (by simp [hrow, hk, hkv])]
        exact ih

theorem finds {ex : Executor} {table : Text} {key : Text} {db : Database}
    (hres : resolveTable ex.catalog (Parser.splitQualified table) = .ok (key, db, t))
    (hcol : t.columnIndex col = some i) (hcd : t.cols[i]? = some cd) (hplain : cd.indexed = false)
    (h0 : 0 ≤ v) (hlt : v < 2 ^ 63)
    (hwidth : ∀ rid row, t.rows.lookup rid = some row → row.cells.length = t.cols.length) :
    Finds W ex table col i v t := by
  intro ticks n r ex₁ hsql hauth hgate
  obtain ⟨u, rfl⟩ := authenticate_state hauth
  obtain ⟨w, hname⟩ := hsql.spelled (identifier col) (by simp [selectTokens])
  have hi := (List.getElem?_eq_some_iff.mp hcd).1
  have hcells : ∀ rid row, t.getRow rid = some row → ∃ k, row.cells[i]? = some k := by
    intro rid row hrow
    exact ⟨_, List.getElem?_eq_getElem (by rw [hwidth rid row hrow]; exact hi)⟩
  have hscan := @selectRows_int W.regex t ex.pool i v col [] (t.allRowIds (ticks []).rowOrder)
    hcol hname.ne_star hcells
  have hcand := @equals_candidates t ex.pool i v col cd hcol hcd hplain (ticks []).rowOrder
  have hselect := (@execSelect_plain W (ticks []) { ex with rbacUser := u }
    (Parser.splitQualified table) key db t (equals col v) [{ col := col }] hres rfl).1 _
    (by rw [hcand]; exact hscan)
  have hnodup : (holding (ticks []).rowOrder t i v).Nodup := (HashOrder.nodup _ _).filter _
  have hrun := execute_eq (n := n) hauth (parse_select h0 hlt hsql) hgate
  rw [conclude_plain rfl, execStatement_simple rfl] at hrun
  exact ⟨_, hnodup, fun rid => mem_holding _, _, hrun.trans (congrArg (Outcome.done · _) hselect)⟩

end Select

/-- Every number that the language can write is accepted, stored as it was written, under a new id,
and found and printed again; only the answer may be missing, if the journal's directory fails. -/
theorem integer_round_trip {W : World} {ticks : List Nat → Tick} {depth n i : Nat} {r : Request}
    {ex ex₁ : Executor} {table col key : Text} {db : Database} {t : Table} {cd : ColumnDef} {v : Int}
    {cols : List Text} {lits : List Literal} {row : Row} {p : StringPool}
    (hreach : Table.Reach n ex.pool t) (hn : n + 1 < 2 ^ 64)
    (hres : resolveTable ex.catalog (Parser.splitQualified table) = .ok (key, db, t))
    (hcol : t.columnIndex col = some i) (hcd : t.cols[i]? = some cd) (htype : cd.type = .int)
    (hplain : cd.indexed = false) (h0 : 0 ≤ v) (hlt : v < 2 ^ 63)
    (hsql : Lexer.Renders (insertTokens table cols lits) (statementText r.sql))
    (hwrite : ∀ l ∈ lits, l.Writable) (hval : assigned t (cols.zip lits) i = some (.int v))
    (hbuild : buildRow t cols lits ex.pool = (.ok row, p))
    (hfits : ∀ (j : Nat) (c : ColumnDef) (k : Value), j ≠ i → t.cols[j]? = some c →
      row.cells[j]? = some k → c.Takes k)
    (hnew : ∀ x, ¬Table.Clashes p t row x)
    (hauth : authenticate W ticks r.jwt ex = .ok ex₁) (hallow : r.allowMutations = true)
    (hgate : forbidden ex₁ (.insert (Parser.splitQualified table) cols [lits]) = none) :
    ∃ ex' db' t', (execute W ticks depth r ex).state = ex' ∧
      ((ticks []).journal ≠ none → execute W ticks depth r ex = .done .success ex') ∧
      resolveTable ex'.catalog (Parser.splitQualified table) = .ok (key, db', t') ∧
      t.nextRid ∉ t.rows ∧ t'.rows = t.rows.insert t.nextRid row ∧ row.cells[i]? = some (.int v) ∧
      Finds W ex' table col i v t' := by
  obtain ⟨u, rfl⟩ := authenticate_state hauth
  obtain ⟨t', hins, hnot, hrows, hcols, hall⟩ :=
    insertTuple_int hreach hn hcd htype hval hbuild hfits hnew
  have hi := (List.getElem?_eq_some_iff.mp hcd).1
  have hne : cols.zip lits ≠ [] := fun hzip => by
    rw [hzip] at hval
    cases hval
  have hnames : cols ≠ [] := fun h => hne (by rw [h, List.zip_nil_left])
  have hlits : lits ≠ [] := fun h => hne (by rw [h, List.zip_nil_right])
  have hloop : untilError (insertTuple cols) [lits] ⟨t, ex.pool, []⟩ = (none, ⟨t', p, []⟩) := by
    rw [untilError_cons_none (by rw [hins]), hins]
    rfl
  have hexec : execStatement W ticks depth [] (.insert (Parser.splitQualified table) cols [lits])
      r.allowMutations { ex with rbacUser := u } =
        .done .success { ex with
          rbacUser := u
          pool := p
          catalog := ex.catalog.setDatabase key
            (db.setTable (Parser.splitQualified table).table t') } := by
    rw [execStatement_simple rfl, hallow]
    simp only [execSimple, execInsert, ifAllowed, if_true, hres, hloop, withRows]
  have hrun := execute_eq (n := depth) hauth (parse_insert hnames hlits hwrite hsql) hgate
  rw [hexec] at hrun
  -- The end of the request may throw, but not change the tables.
  have hend : ∃ ex₃, (execute W ticks depth r ex).state = ex₃ ∧
      ((ticks []).journal ≠ none → execute W ticks depth r ex = .done .success ex₃) ∧
      ex₃.catalog = ex.catalog.setDatabase key
        (db.setTable (Parser.splitQualified table).table t') := by
    rw [hrun]
    obtain ⟨files, h⟩ | ⟨⟨-, -, hnone⟩, h⟩ := conclude_done ticks r _ _ .success _
    · rw [h]
      exact ⟨_, rfl, fun _ => rfl, rfl⟩
    · rw [h]
      exact ⟨_, rfl, fun hfile => absurd hnone hfile, rfl⟩
  obtain ⟨ex₃, hstate, hdone, hcat⟩ := hend
  have hres' := (congrArg (resolveTable · _) hcat).trans (resolveTable_set hres t')
  refine ⟨ex₃, _, t', hstate, hdone, hres', hnot, hrows, (buildRow_int hi hval hbuild).2.1, ?_⟩
  have hcol' : t'.columnIndex col = some i := by
    unfold Table.columnIndex
    rw [hcols]
    exact hcol
  exact finds hres' hcol' (by rw [hcols]; exact hcd) hplain h0 hlt hall

def numbers : Table :=
  ((Table.new "t".toList [{ name := "n".toList }, { name := "k".toList, indexed := true }]).insertRow
    .new ⟨[.int 1, .int 7]⟩).2

theorem numbers_reach : Table.Reach 1 .new numbers :=
  .insertRow _ (.new .new "t".toList _) (by simp [Value.Interned])

def maxWords : List Text :=
  ["INSERT".toList, "INTO".toList, ['t'], ['('], ['n'], [','], ['k'], [')'], "VALUE".toList, ['('],
    intText 9223372036854775807, [','], intText 8, [')']]

def maxInsert : Text := (" ".toList).intercalate maxWords

theorem maxInsert_renders : Lexer.Renders
    (insertTokens "t".toList ["n".toList, "k".toList] [.int 9223372036854775807, .int 8])
    (statementText maxInsert) := by
  have hkw : ∀ k ∈ Lexer.kws, Lexer.Spelling ⟨.kw, k⟩ k := fun _ => .of_mem_kws
  have hname : ∀ c, Lexer.isStart c = true → Lexer.toUpper [c] ∉ Lexer.kws →
      Lexer.Spelling (identifier [c]) [c] := fun _ hc => .name hc (by simp)
  have hwords : List.Forall₂ Lexer.Spelling
      (insertTokens "t".toList ["n".toList, "k".toList] [.int 9223372036854775807, .int 8])
      maxWords :=
    .cons (hkw _ (by decide +kernel)) <| .cons (hkw _ (by decide +kernel)) <|
    .cons (hname 't' rfl (by decide +kernel)) <| .cons lParen_spelling <|
    .cons (hname 'n' rfl (by decide +kernel)) <| .cons comma_spelling <|
    .cons (hname 'k' rfl (by decide +kernel)) <| .cons rParen_spelling <|
    .cons (hkw _ (by decide +kernel)) <| .cons lParen_spelling <|
    .cons (int_spelling (by decide)) <| .cons comma_spelling <|
    .cons (int_spelling (by decide)) <| .cons rParen_spelling .nil
  have htext : statementText maxInsert = maxInsert := by decide +kernel
  rw [htext]
  exact Lexer.renders_words hwords

theorem integer_round_trip_max : ∃ ex' db' t', (execute sampleWorld (sampleTick 0) 1
      { sql := maxInsert } (serving .new numbers)).state = ex' ∧
    ((sampleTick 0 []).journal ≠ none → execute sampleWorld (sampleTick 0) 1
      { sql := maxInsert } (serving .new numbers) = .done .success ex') ∧
    resolveTable ex'.catalog (Parser.splitQualified "t".toList) = .ok ("d".toList, db', t') ∧
    numbers.nextRid ∉ numbers.rows ∧ t'.rows = numbers.rows.insert numbers.nextRid
      ⟨[.int 9223372036854775807, .int 8]⟩ ∧
    (⟨[.int 9223372036854775807, .int 8]⟩ : Row).cells[0]? = some (.int 9223372036854775807) ∧
    Finds sampleWorld ex' "t".toList "n".toList 0 9223372036854775807 t' := by
  refine integer_round_trip numbers_reach (by decide) rfl rfl rfl
    rfl rfl (by decide) (by decide) maxInsert_renders ?_ rfl rfl ?_ ?_ rfl rfl rfl
  · simp [Literal.Writable]
  · intro j c k hj hc hk
    match j with
    | 0 => exact absurd rfl hj
    | 1 =>
      obtain rfl := Option.some.inj hc
      obtain rfl := Option.some.inj hk
      rfl
    | j + 2 => cases hc
  · rintro x ⟨j, c, k, y, hc, hindexed, hk, ⟨row, hrow, hy⟩, heq⟩
    have hrows : numbers.rows = Finmap.singleton 1 ⟨[.int 1, .int 7]⟩ := rfl
    rw [hrows] at hrow
    obtain rfl : x = 1 := (Finmap.mem_singleton _ _ _).mp (Finmap.mem_of_lookup_eq_some hrow)
    obtain rfl := Option.some.inj hrow
    match j with
    | 0 =>
      obtain rfl := Option.some.inj hc
      cases hindexed
    | 1 =>
      obtain rfl := Option.some.inj hk
      obtain rfl := Option.some.inj hy
      revert heq
      decide
    | j + 2 => cases hc

/-- The text of a negative number is no literal. -/
theorem integer_not_accepted : ¬∀ v : Int, -2 ^ 63 ≤ v → v < 2 ^ 63 →
    (execute sampleWorld (sampleTick 0) 1
      { sql := "INSERT INTO t (n) VALUE (".toList ++ intText v ++ ")".toList }
      (sampleRun ["CREATE DATABASE d", "USE d", "CREATE TABLE t (n INT)"])).ok = true := by
  intro h
  have hrefused := h (-1) (by decide) (by decide)
  revert hrefused
  decide +kernel

end Dbms.Exec
