import Dbms.Exec.Basic
import Dbms.Exec.RowOrder
import Dbms.Exec.SetsFail

/-! Errors in WHERE are not among the reasons for which SELECT, UPDATE and DELETE fail. -/

open Dbms.Core Dbms.Lib Dbms.Sql Dbms.Auth

namespace Dbms.Exec

def isAggregate (items : List SelectItem) : Bool := items.any fun it => it.agg ≠ .none

def whereOf : Statement → Option (Name × WhereClause)
  | .select _ table w | .update table _ w | .delete table w => some (table, w)
  | _ => none

/-- The rows that a statement examines, and the pool when it starts to. -/
def examined (o : HashOrder RowId) (t : Table) (pool : StringPool) :
    Statement → List RowId × StringPool
  | .select items _ w =>
    if isAggregate items then (t.allRowIds o, pool) else candidateRows o t w pool
  | .update _ _ w | .delete _ w => candidateRows o t w pool
  | _ => ([], pool)

/-- On one of the rows WHERE sets an error. -/
def WhereErrs (regex : Regex) (w : WhereClause) (t : Table) (x : List RowId × StringPool) : Prop :=
  ∃ rid ∈ x.1, ∃ row, t.getRow rid = some row ∧ (evalWhere regex t row w x.2 []).err ≠ []

/-- An item that is no aggregate, or one over what are not integers. -/
def BadAggregate (t : Table) (rows : List Row) (it : SelectItem) : Prop :=
  it.agg = .none ∨ it.agg ≠ .count ∧
    (t.columnIndex it.col = none ∨
      ∃ i, t.columnIndex it.col = some i ∧ ∃ row ∈ rows, ∃ id, cellAt row i = .string id)

section Statements
variable (regex : Regex) (o : HashOrder RowId) (allow : Bool) (t : Table) (pool : StringPool)
  (c : Cond)

/-- The rows that a statement selects: those that make WHERE true, up to the first that makes it fail
if there is an AND or an OR. -/
def selectedRows (st : Statement) : List RowId :=
  selection regex t (examined o t pool st).2 ((examined o t pool st).2.internAll c.strings) c
    (examined o t pool st).1

/-- A statement cannot do its work on the rows that it selects. -/
def FailsOnSelected (st : Statement) : Prop :=
  let rids := selectedRows regex o t pool c st
  match st with
  | .select items _ _ =>
    if isAggregate items then ∃ it ∈ items, BadAggregate t (rids.filterMap t.getRow) it
    else rids ≠ [] ∧ ∃ it ∈ items, BadItem t it
  | .update _ sets _ =>
    allow = false ∨ SetsFail t
      (((examined o t pool st).2.internAll c.strings).internAll (setStrings sets)) sets rids
  | .delete _ _ => allow = false ∨ ¬rids.Nodup
  | _ => False

end Statements

/-! What fails, apart from WHERE. -/

theorem intCells_error {i : Nat} {rows : List Row} :
    (∃ e, intCells i rows = .error e) ↔ ∃ row ∈ rows, ∃ id, cellAt row i = .string id := by
  induction rows with
  | nil => simp [intCells]
  | cons row rows ih =>
    cases hcell : cellAt row i with
    | null =>
      simp only [intCells, hcell, ih, List.mem_cons, exists_eq_or_imp]
      simp
    | string id =>
      apply iff_of_true
      · exact ⟨"SUM/AVG on non-int".toList, by simp only [intCells, hcell]⟩
      · exact ⟨row, List.mem_cons_self .., id, hcell⟩
    | int v =>
      have hstep : intCells i (row :: rows) = (intCells i rows).map (v :: ·) := by
        simp only [intCells, hcell]
      rw [hstep]
      simp only [List.mem_cons, exists_eq_or_imp, hcell, reduceCtorEq, exists_false, false_or, ← ih]
      cases intCells i rows <;> simp [Except.map]

theorem aggregateValue_error {print : Printing} {t : Table} {rows : List Row} {it : SelectItem} :
    (∃ e, aggregateValue print t rows it = .error e) ↔ BadAggregate t rows it := by
  have hmap : ∀ {α : Type} (r : Except Text α) (f : α → Text),
      (∃ e, r.map f = .error e) ↔ ∃ e, r = .error e := by
    intro α r f
    cases r <;> simp [Except.map]
  unfold aggregateValue BadAggregate
  cases it.agg with
  | none => simp
  | count => simp
  | sum | avg =>
    simp only [hmap, reduceCtorEq, false_or, ne_eq, not_false_eq_true, true_and]
    cases hcol : t.columnIndex it.col with
    | none => simp
    | some i => simp [intCells_error]

theorem aggregateObject_error {print : Printing} {t : Table} {rows : List Row}
    {items : List SelectItem} : (∃ e, aggregateObject print t rows items = .error e) ↔
      ∃ it ∈ items, BadAggregate t rows it := by
  have hitem : ∀ it : SelectItem,
      (∃ e, (aggregateValue print t rows it).map (jsonField (aggregateName it)) = .error e) ↔
        BadAggregate t rows it := by
    intro it
    rw [← @aggregateValue_error print]
    cases aggregateValue print t rows it <;> simp [Except.map]
  simp only [← hitem]
  rw [← mapM_error_iff (f := fun it =>
    (aggregateValue print t rows it).map (jsonField (aggregateName it)))]
  unfold aggregateObject
  cases List.mapM (fun it =>
    (aggregateValue print t rows it).map (jsonField (aggregateName it))) items <;> simp [Except.map]

theorem deleteLoop_nodup {ids : List RowId} {s : RowsState}
    (h : (untilError deleteOne ids s).1 = none) : ids.Nodup ∧ ∀ rid ∈ ids, rid ∈ s.table.rows := by
  induction ids generalizing s with
  | nil => simp
  | cons rid ids ih =>
    by_cases hmem : rid ∈ s.table.rows
    · obtain ⟨t', hdel, hrows⟩ := deleteRow_eq_ok s.pool hmem
      have hone : deleteOne rid s = (none, { s with table := t' }) := by
        simp only [deleteOne, hdel]
      rw [untilError_cons_none (by rw [hone]), hone] at h
      obtain ⟨hnodup, hstored⟩ := ih h
      have hleft : ∀ x ∈ ids, x ≠ rid ∧ x ∈ s.table.rows := by
        intro x hx
        have hx' : x ∈ t'.rows := hstored x hx
        rwa [hrows, Finmap.mem_erase] at hx'
      refine ⟨List.nodup_cons.mpr ⟨fun hrid => (hleft rid hrid).1 rfl, hnodup⟩, ?_⟩
      intro x hx
      rcases List.mem_cons.mp hx with rfl | hx
      · exact hmem
      · exact (hleft x hx).2
    · have hone : deleteOne rid s = (some "row not found".toList, s) := by
        simp only [deleteOne, Table.deleteRow, Finmap.lookup_eq_none.mpr hmem]
      rw [untilError_cons_some (by rw [hone]), hone] at h
      cases h

/-! What fails, with WHERE. -/

section Fails
variable {W : World} {tick : Tick} {allow : Bool} {ex : Executor} {table : Name} {key : Text}
  {db : Database} {t : Table} {c : Cond}

theorem selectRows_fails {regex : Regex} {items : List SelectItem} {ids : List RowId}
    {p : StringPool} (hrows : RowsInterned t p) :
    (∃ e, (selectRows regex c.clause t items ids p []).1 = .error e) ↔
      selection regex t p (p.internAll c.strings) c ids ≠ [] ∧ ∃ it ∈ items, BadItem t it := by
  rw [selectRows_eq hrows (.refl _), mapM_error_iff, (matching_clean hrows (stage_refl p c)).1]
  have hobj : ∀ rid ∈ selection regex t p (p.internAll c.strings) c ids,
      (∃ e, objectAt t items p rid = .error e) ↔ ∃ it ∈ items, BadItem t it := by
    intro rid hrid
    obtain ⟨row, hrow⟩ := row_of_selection hrid
    simp only [objectAt, hrow, rowObject_error, exists_and_left, exists_eq, and_true]
  constructor
  · rintro ⟨rid, hrid, hfail⟩
    exact ⟨List.ne_nil_of_mem hrid, (hobj rid hrid).mp hfail⟩
  · rintro ⟨hne, hbad⟩
    obtain ⟨rid, hrid⟩ := List.exists_mem_of_ne_nil _ hne
    exact ⟨rid, hrid, (hobj rid hrid).mpr hbad⟩

theorem execSelect_fails (hrows : RowsInterned t ex.pool) (items : List SelectItem)
    (hres : resolveTable ex.catalog table = .ok (key, db, t)) :
    (execSelect W tick ex items table c.clause).1.ok = false ↔
      FailsOnSelected W.regex tick.rowOrder allow t ex.pool c (.select items table c.clause) := by
  unfold execSelect FailsOnSelected selectedRows examined
  rw [hres]
  dsimp only
  by_cases hagg : isAggregate items = true
  · have hagg' : (items.any fun it => it.agg ≠ .none) = true := hagg
    rw [if_pos hagg', if_pos hagg, if_pos hagg]
    rw [← (matching_clean hrows (stage_refl ex.pool c)).1, ← @aggregateObject_error W.print]
    cases aggregateObject W.print t _ items <;> simp [ExecResult.failed, ExecResult.done]
  · have hagg' : ¬(items.any fun it => it.agg ≠ .none) = true := hagg
    rw [if_neg hagg', if_neg hagg, if_neg hagg]
    have hrows' := hrows.extends (candidateRows_extends tick.rowOrder t c ex.pool)
    rw [← selectRows_fails hrows']
    cases (selectRows W.regex c.clause t items (candidateRows tick.rowOrder t c.clause ex.pool).1
      (candidateRows tick.rowOrder t c.clause ex.pool).2 []).1 <;>
      simp [ExecResult.failed, ExecResult.done]

theorem withRows_fails (tname : Text) (r : Option Text × RowsState) :
    (withRows ex key db tname r).1.ok = false ↔ r.1 ≠ none := by
  obtain ⟨err, s⟩ := r
  cases err <;> simp [withRows, ExecResult.success, ExecResult.done, ExecResult.failed]

theorem ifAllowed_fails (k : ExecResult × Executor) :
    (ifAllowed allow ex k).1.ok = false ↔ allow = false ∨ k.1.ok = false := by
  cases allow <;> simp [ifAllowed, ExecResult.failed]

theorem execDelete_fails (hrows : RowsInterned t ex.pool)
    (hres : resolveTable ex.catalog table = .ok (key, db, t)) :
    (execDelete W tick allow ex table c.clause).1.ok = false ↔
      FailsOnSelected W.regex tick.rowOrder allow t ex.pool c (.delete table c.clause) := by
  have hrows' := hrows.extends (candidateRows_extends tick.rowOrder t c ex.pool)
  unfold execDelete FailsOnSelected selectedRows examined
  rw [hres, ifAllowed_fails]
  dsimp only
  rw [withRows_fails, (matching_clean hrows' (stage_refl _ c)).1]
  refine or_congr_right (not_congr ⟨fun h => (deleteLoop_nodup h).1, fun h => (deleteLoop h ?_).1⟩)
  intro rid hrid
  obtain ⟨row, hrow⟩ := row_of_selection hrid
  exact Finmap.mem_of_lookup_eq_some hrow

theorem selection_sub {regex : Regex} {pool P : StringPool} {ids : List RowId}
    (hnodup : ids.Nodup) : (selection regex t pool P c ids).Nodup ∧
      ∀ rid ∈ selection regex t pool P c ids, rid ∈ t.rows := by
  constructor
  · unfold selection reached
    split
    · exact hnodup.filter _
    · exact (hnodup.sublist (List.takeWhile_sublist _)).filter _
  · intro rid hrid
    obtain ⟨row, hrow⟩ := row_of_selection hrid
    exact Finmap.mem_of_lookup_eq_some hrow

theorem execUpdate_fails (hagrees : Table.Agrees ex.pool t) (sets : List (Text × Literal))
    (hnodup : (candidateRows tick.rowOrder t c.clause ex.pool).1.Nodup)
    (hres : resolveTable ex.catalog table = .ok (key, db, t)) :
    (execUpdate W tick allow ex table sets c.clause).1.ok = false ↔
      FailsOnSelected W.regex tick.rowOrder allow t ex.pool c (.update table sets c.clause) := by
  have hext := candidateRows_extends tick.rowOrder t c ex.pool
  have hrows : RowsInterned t (candidateRows tick.rowOrder t c.clause ex.pool).2 :=
    fun rid row hrow v hv => (hagrees.interned rid row hrow v hv).extends hext
  unfold execUpdate FailsOnSelected selectedRows examined
  rw [hres, ifAllowed_fails]
  dsimp only
  rw [withRows_fails]
  have hloop := (@update_selection W.regex c sets _ t t _ _ _ [] [] hrows
    (fun s hs => StringPool.internAll_lookup hs)
    hnodup (.start t _ c _) (.inr rfl)).1
  obtain ⟨hnodup', hstored⟩ := @selection_sub t c W.regex _
    ((candidateRows tick.rowOrder t c.clause ex.pool).2.internAll c.strings) _ hnodup
  have hagrees' := ((hagrees.extends hext).extends (StringPool.internAll_extends _ c.strings)).extends
    (StringPool.internAll_extends _ (setStrings sets))
  rw [hloop, setsLoop_fails hagrees' hnodup' hstored rfl]

/-- Errors in WHERE are reported exactly where there are none, or where the statement fails on the
rows it selects anyway. For UPDATE, while no id has been handed out twice. -/
theorem whereErrs_iff {n : Nat} {st : Statement} (h : Table.Reach n ex.pool t)
    (hst : whereOf st = some (table, c.clause))
    (hres : resolveTable ex.catalog table = .ok (key, db, t))
    (hn : (∃ sets, st = .update table sets c.clause) → n ≤ 2 ^ 64) :
    (WhereErrs W.regex c.clause t (examined tick.rowOrder t ex.pool st) →
        (execSimple W tick allow ex st).1.ok = false) ↔
      ¬WhereErrs W.regex c.clause t (examined tick.rowOrder t ex.pool st) ∨
        FailsOnSelected W.regex tick.rowOrder allow t ex.pool c st := by
  have hrows : RowsInterned t ex.pool := fun rid row hrow => h.interned hrow
  have hfails : (execSimple W tick allow ex st).1.ok = false ↔
      FailsOnSelected W.regex tick.rowOrder allow t ex.pool c st := by
    cases st with
    | select items table' w =>
      cases hst
      exact execSelect_fails hrows items hres
    | update table' sets w =>
      cases hst
      have hle := hn ⟨sets, rfl⟩
      exact execUpdate_fails (h.inv hle).1 sets (candidateRows_nodup h hle _ c) hres
    | delete table' w =>
      cases hst
      exact execDelete_fails hrows hres
    | _ => cases hst
  rw [hfails]
  exact imp_iff_not_or

end Fails

/-! A database with the notes, and a SELECT with a misspelt column. -/

def noteBase : Database := ⟨"d".toList, 0, Finmap.singleton "t".toList notes⟩

def noteState : Executor :=
  { sampleStart with
    pool := notePool
    catalog := ⟨Finmap.singleton "d".toList noteBase, "d".toList, 1⟩ }

def misspelt : Cond := some (.leaf (.cmp "z".toList .eq (.lit (.int 1))))

def selectMisspelt : Statement := .select [{ col := "*".toList }] ⟨[], "t".toList⟩ misspelt.clause

theorem noteState_table :
    resolveTable noteState.catalog ⟨[], "t".toList⟩ = .ok ("d".toList, noteBase, notes) := rfl

theorem whereErrs_iff_misspelt :
    (WhereErrs literally misspelt.clause notes (examined (.sorted Nat) notes notePool selectMisspelt) →
        (execSimple sampleWorld (sampleTick 0 []) true noteState selectMisspelt).1.ok = false) ↔
      ¬WhereErrs literally misspelt.clause notes
          (examined (.sorted Nat) notes notePool selectMisspelt) ∨
        FailsOnSelected literally (.sorted Nat) true notes notePool misspelt selectMisspelt :=
  @whereErrs_iff sampleWorld (sampleTick 0 []) true noteState _ _ _ _ misspelt 2 selectMisspelt
    notes_reach rfl noteState_table fun _ => by decide

/-- The misspelt column goes unnoticed. -/
theorem whereErrs_unreported : ¬∀ (W : World) (tick : Tick) (allow : Bool) (ex : Executor)
    (table : Name) (key : Text) (db : Database) (n : Nat) (t : Table) (w : WhereClause)
    (st : Statement), Table.Reach n ex.pool t → FromParser w → whereOf st = some (table, w) →
      resolveTable ex.catalog table = .ok (key, db, t) →
      WhereErrs W.regex w t (examined tick.rowOrder t ex.pool st) →
        (execSimple W tick allow ex st).1.ok = false := by
  intro h
  have hparsed : FromParser misspelt.clause :=
    ⟨20, "WHERE z = 1".toList, [], by decide, by decide +kernel⟩
  have herr : WhereErrs literally misspelt.clause notes
      (examined (.sorted Nat) notes notePool selectMisspelt) :=
    ⟨1, by decide +kernel, ⟨[.null]⟩, by decide +kernel, by decide +kernel⟩
  have hfails := h sampleWorld (sampleTick 0 []) true noteState _ _ _ 2 notes misspelt.clause
    selectMisspelt notes_reach hparsed rfl noteState_table herr
  have hok : (execSimple sampleWorld (sampleTick 0 []) true noteState selectMisspelt).1.ok = true := by
    decide +kernel
  rw [hok] at hfails
  cases hfails

end Dbms.Exec
