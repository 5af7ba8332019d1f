import Dbms.Exec.Scan

/-! The loop of UPDATE does as one without WHERE would on the rows that a scan selects. -/

open Dbms.Core Dbms.Lib Dbms.Sql

namespace Dbms.Exec

def setRow (sets : List (Text × Literal)) (rid : RowId) (rw : Row) (s : RowsState) :
    Option Text × RowsState :=
  match setCells s.table (fun _ => "unknown column".toList) sets rw s.pool with
  | (.error err, pool) => (some err, { s with pool := pool })
  | (.ok nr, pool) =>
    match s.table.updateRow pool rid nr with
    | (.error err, t) => (some err, { s with table := t, pool := pool })
    | (.ok _, t) => (none, { s with table := t, pool := pool })

section Steps
variable {regex : Regex} {w : WhereClause} {sets : List (Text × Literal)} {rid : RowId} {row : Row}
  {t t' : Table} {pool p : StringPool} {err err' : Text} {s s' : RowsState}

theorem updateOne_none (h : s.table.getRow rid = none) :
    updateOne regex w sets rid s = (none, s) := by
  simp only [updateOne, h]

theorem updateOne_skip (h : s.table.getRow rid = some row)
    (hres : (evalWhere regex s.table row w s.pool s.err).result = false) :
    updateOne regex w sets rid s =
      (none, ⟨s.table, (evalWhere regex s.table row w s.pool s.err).pool,
        (evalWhere regex s.table row w s.pool s.err).err⟩) := by
  simp only [updateOne, h, hres]
  rfl

theorem updateOne_take (h : s.table.getRow rid = some row)
    (hres : (evalWhere regex s.table row w s.pool s.err).result = true) :
    updateOne regex w sets rid s =
      setRow sets rid row ⟨s.table, (evalWhere regex s.table row w s.pool s.err).pool,
        (evalWhere regex s.table row w s.pool s.err).err⟩ := by
  cases hset : setCells s.table (fun _ => "unknown column".toList) sets row
      (evalWhere regex s.table row w s.pool s.err).pool with
  | mk r pool =>
    cases r with
    | error e => simp only [updateOne, setRow, h, hres, if_true, hset]
    | ok nr =>
      rcases hupd : s.table.updateRow pool rid nr with ⟨err | _, t'⟩ <;>
        simp only [updateOne, setRow, h, hres, if_true, hset, hupd]

variable (t sets row pool) in
theorem setCells_extends (unknown : Text → Text) :
    pool.Extends (setCells t unknown sets row pool).2 := by
  induction sets generalizing row pool with
  | nil => exact .refl pool
  | cons set sets ih =>
    obtain ⟨c, lit⟩ := set
    simp only [setCells]
    cases t.columnIndex c with
    | none => exact .refl pool
    | some idx =>
      have hlit : pool.Extends (litToVal lit pool).2 := by
        rw [litToVal, literalToValue_pool]
        exact pool.internAll_extends _
      exact hlit.trans (ih _ _)

theorem setRow_err (err err' : Text) : setRow sets rid row ⟨t, p, err⟩ =
    ((setRow sets rid row ⟨t, p, err'⟩).1, { (setRow sets rid row ⟨t, p, err'⟩).2 with err := err }) := by
  unfold setRow
  dsimp only
  cases setCells t (fun _ => "unknown column".toList) sets row p with
  | mk r pool =>
    cases r with
    | error e => rfl
    | ok nr => rcases h : t.updateRow pool rid nr with ⟨e | _, t'⟩ <;> simp [h]

theorem setRow_frame (hok : (setRow sets rid row s).1 = none) :
    (setRow sets rid row s).2.table.cols = s.table.cols ∧
      s.pool.Extends (setRow sets rid row s).2.pool ∧
      ∀ x, x ≠ rid → (setRow sets rid row s).2.table.getRow x = s.table.getRow x := by
  have hext := setCells_extends sets row s.table s.pool fun _ => "unknown column".toList
  unfold setRow at hok ⊢
  cases hset : setCells s.table (fun _ => "unknown column".toList) sets row s.pool with
  | mk r pool =>
    rw [hset] at hok hext
    cases r with
    | error e => cases hok
    | ok nr =>
      dsimp only at hok ⊢
      rcases hupd : s.table.updateRow pool rid nr with ⟨e | _, t'⟩
      · rw [hupd] at hok
        cases hok
      · obtain ⟨old, -, -, -, rfl⟩ := Table.updateRow_ok hupd
        exact ⟨rfl, hext, fun x hx => Finmap.lookup_insert_of_ne _ hx⟩

/-- A clause looks at the columns of a table only. -/
theorem evalWhere_cols {c : Cond} (h : t'.cols = t.cols) :
    evalWhere regex t' row c.clause p err = evalWhere regex t row c.clause p err := by
  have hcell : ∀ name, cellByName t' row name = cellByName t row name := by
    intro name
    simp only [cellByName, Table.columnIndex, h]
  cases c with
  | none => rfl
  | some e =>
    show evalWhere regex t' row e.clause p err = evalWhere regex t row e.clause p err
    rw [evalWhere_clause, evalWhere_clause]
    induction e generalizing p err with
    | leaf l =>
      cases l with
      | cmp col op rhs => simp only [Expr.eval, Leaf.eval, evalCmp, hcell]
      | between col a b => simp only [Expr.eval, Leaf.eval, evalBetween, hcell]
      | like col pattern => simp only [Expr.eval, Leaf.eval, evalLike, hcell]
    | paren e ih => exact ih
    | andOr kind left right ihl ihr => simp only [Expr.eval, ihl, ihr]

end Steps

/-- Where the loop is: the rows still to come are as they were, and the pool has grown. -/
structure Midway (t T : Table) (pool P q : StringPool) (c : Cond) (ids : List RowId) : Prop where
  cols : T.cols = t.cols
  same : ∀ rid ∈ ids, T.getRow rid = t.getRow rid
  grown : pool.Extends q
  known : P.Extends (q.internAll c.strings)

section Loop
variable {regex : Regex} {c : Cond} {sets : List (Text × Literal)} {ids : List RowId}
  {t T : Table} {pool P q q' : StringPool} {err err' : Text} {rid : RowId} {row : Row}

theorem update_stale (hrows : RowsInterned t pool) (hcols : T.cols = t.cols)
    (hsame : ∀ rid ∈ ids, T.getRow rid = t.getRow rid) (hq : pool.Extends q)
    (hlone : c.lone = false) (herr : err ≠ []) :
    (untilError (updateOne regex c.clause sets) ids ⟨T, q, err⟩).1 = none ∧
      (untilError (updateOne regex c.clause sets) ids ⟨T, q, err⟩).2.table = T := by
  induction ids generalizing q err with
  | nil => exact ⟨rfl, rfl⟩
  | cons rid ids ih =>
    have hsame' : ∀ rid ∈ ids, T.getRow rid = t.getRow rid := fun rid hrid =>
      hsame rid (List.mem_cons_of_mem _ hrid)
    have hhead := hsame rid (List.mem_cons_self ..)
    cases hrow : t.getRow rid with
    | none =>
      have hone := @updateOne_none regex c.clause sets rid ⟨T, q, err⟩ (hhead.trans hrow)
      rw [untilError_cons_none (by rw [hone]), hone]
      exact ih hsame' hq herr
    | some row =>
      have hstage : Stage pool (q.internAll c.strings) c q := ⟨hq, .refl _⟩
      obtain ⟨hres, hkeep⟩ := eval_stale regex hrows hstage hrow herr
      rw [hlone, Bool.false_and] at hres
      have hgrown := (hstage.eval regex t row err).grown
      rw [← evalWhere_cols hcols] at hres hkeep hgrown
      have hone := @updateOne_skip regex c.clause sets rid row ⟨T, q, err⟩ (hhead.trans hrow) hres
      rw [untilError_cons_none (by rw [hone]), hone]
      exact ih hsame' hgrown hkeep

variable (regex) in
theorem eval_known (hrows : RowsInterned t pool)
    (hknown : ∀ s ∈ c.strings, (P.index.lookup s).isSome) (hcols : T.cols = t.cols)
    (hrow : t.getRow rid = some row) (hq : pool.Extends q)
    (hP : P.Extends (q.internAll c.strings)) :
    (evalWhere regex T row c.clause q []).result = picks regex t pool P c rid ∧
      ((evalWhere regex T row c.clause q []).err = [] ↔ errs regex t pool P c rid = false) := by
  have hstage : Stage pool (q.internAll c.strings) c q := ⟨hq, .refl _⟩
  have hclean := eval_clean regex hrows hstage hrow
  unfold picks errs at hclean ⊢
  rw [verdict_extends regex t pool hknown hP] at hclean
  rw [evalWhere_cols hcols]
  exact hclean

theorem eval_pool (T : Table) (row : Row) (err : Text) :
    q.Extends (evalWhere regex T row c.clause q err).pool ∧
      (evalWhere regex T row c.clause q err).pool.internAll c.strings = q.internAll c.strings := by
  obtain ⟨ss, hss, hpool⟩ := c.evalWhere_prefix regex T row q err
  rw [hpool]
  exact ⟨q.internAll_extends ss, StringPool.internAll_again hss⟩

variable (regex) in
theorem eval_go (hrows : RowsInterned t pool)
    (hknown : ∀ s ∈ c.strings, (P.index.lookup s).isSome) (hcols : T.cols = t.cols)
    (hrow : t.getRow rid = some row) (hq : pool.Extends q)
    (hP : P.Extends (q.internAll c.strings)) (hgo : c.lone = true ∨ err = []) :
    (evalWhere regex T row c.clause q err).result = picks regex t pool P c rid ∧
      (c.lone = true ∨ ((evalWhere regex T row c.clause q err).err = [] ↔
        errs regex t pool P c rid = false)) := by
  by_cases herr : err = []
  · subst herr
    obtain ⟨hres, hclean⟩ := eval_known regex hrows hknown hcols hrow hq hP
    exact ⟨hres, .inr hclean⟩
  · have hstage : Stage pool (q.internAll c.strings) c q := ⟨hq, .refl _⟩
    have hlone := hgo.resolve_right herr
    obtain ⟨hres, -⟩ := eval_stale regex hrows hstage hrow herr
    unfold picks at hres ⊢
    rw [hlone, Bool.true_and, verdict_extends regex t pool hknown hP] at hres
    rw [evalWhere_cols hcols]
    exact ⟨hres, .inl hlone⟩

theorem Midway.start (t : Table) (q : StringPool) (c : Cond) (ids : List RowId) :
    Midway t t q (q.internAll c.strings) q c ids :=
  ⟨rfl, fun _ _ => rfl, .refl _, .refl _⟩

theorem Midway.skip (h : Midway t T pool P q c (rid :: ids)) (hq : q.Extends q')
    (hall : q'.internAll c.strings = q.internAll c.strings) : Midway t T pool P q' c ids where
  cols := h.cols
  same x hx := h.same x (List.mem_cons_of_mem _ hx)
  grown := h.grown.trans hq
  known := hall ▸ h.known

theorem Midway.take (h : Midway t T pool P q c (rid :: ids)) (hnot : rid ∉ ids)
    (hknown : ∀ s ∈ c.strings, (P.index.lookup s).isSome)
    (hset : (setRow sets rid row ⟨T, q.internAll c.strings, err⟩).1 = none) :
    (setRow sets rid row ⟨T, q.internAll c.strings, err⟩).2.pool.internAll c.strings =
        (setRow sets rid row ⟨T, q.internAll c.strings, err⟩).2.pool ∧
      Midway t (setRow sets rid row ⟨T, q.internAll c.strings, err⟩).2.table pool P
        (setRow sets rid row ⟨T, q.internAll c.strings, err⟩).2.pool c ids := by
  obtain ⟨hcols, hext, hother⟩ := setRow_frame hset
  have hall : (setRow sets rid row ⟨T, q.internAll c.strings, err⟩).2.pool.internAll c.strings =
      (setRow sets rid row ⟨T, q.internAll c.strings, err⟩).2.pool := by
    apply StringPool.internAll_known
    intro s hs
    obtain ⟨id, hid⟩ := Option.isSome_iff_exists.mp (hknown s hs)
    exact Option.isSome_iff_exists.mpr ⟨id, (h.known.trans hext).lookup hid⟩
  refine ⟨hall, hcols.trans h.cols, fun x hx => ?_, ?_, ?_⟩
  · rw [hother x fun heq => hnot (heq ▸ hx)]
    exact h.same x (List.mem_cons_of_mem _ hx)
  · exact (h.grown.trans (q.internAll_extends _)).trans hext
  · rw [hall]
    exact h.known.trans hext

variable (regex sets) in
/-- One turn that an error has not ended: the row is passed over, or it gets its assignments. -/
theorem update_step (hrows : RowsInterned t pool)
    (hknown : ∀ s ∈ c.strings, (P.index.lookup s).isSome)
    (h : Midway t T pool P q c (rid :: ids)) (hgo : c.lone = true ∨ err = []) :
    (∃ q' err', updateOne regex c.clause sets rid ⟨T, q, err⟩ = (none, ⟨T, q', err'⟩) ∧
        picks regex t pool P c rid = false ∧ q.Extends q' ∧
        q'.internAll c.strings = q.internAll c.strings ∧
        (c.lone = true ∨ (err' = [] ↔ errs regex t pool P c rid = false))) ∨
      ∃ row err', t.getRow rid = some row ∧ picks regex t pool P c rid = true ∧
        (c.lone = true ∨ err' = []) ∧ updateOne regex c.clause sets rid ⟨T, q, err⟩ =
          setRow sets rid row ⟨T, q.internAll c.strings, err'⟩ := by
  have hhead := h.same rid (List.mem_cons_self ..)
  cases hrow : t.getRow rid with
  | none =>
    refine .inl ⟨q, err, updateOne_none (hhead.trans hrow), picks_none hrow, .refl q, rfl, ?_⟩
    exact hgo.imp_right fun herr => iff_of_true herr (errs_none hrow)
  | some row =>
    obtain ⟨hres, hend⟩ := eval_go regex hrows hknown h.cols hrow h.grown h.known hgo
    obtain ⟨hq, hall⟩ := @eval_pool regex c q T row err
    cases hpick : picks regex t pool P c rid with
    | false =>
      rw [hpick] at hres
      exact .inl ⟨_, _, updateOne_skip (hhead.trans hrow) hres, rfl, hq, hall, hend⟩
    | true =>
      rw [hpick] at hres
      have hone := @updateOne_take regex c.clause sets rid row ⟨T, q, err⟩ (hhead.trans hrow) hres
      dsimp only at hone
      rw [c.evalWhere_pool_of_result hres] at hone
      exact .inr ⟨row, _, rfl, rfl, hend.imp_right fun hiff => hiff.mpr (errs_of_picks hpick), hone⟩

theorem update_selection (hrows : RowsInterned t pool)
    (hknown : ∀ s ∈ c.strings, (P.index.lookup s).isSome) (hnodup : ids.Nodup)
    (h : Midway t T pool P q c ids) (hgo : c.lone = true ∨ err = []) :
    (untilError (updateOne regex c.clause sets) ids ⟨T, q, err⟩).1 =
        (untilError (updateOne regex {} sets) (selection regex t pool P c ids)
          ⟨T, q.internAll c.strings, err'⟩).1 ∧
      (untilError (updateOne regex c.clause sets) ids ⟨T, q, err⟩).2.table =
        (untilError (updateOne regex {} sets) (selection regex t pool P c ids)
          ⟨T, q.internAll c.strings, err'⟩).2.table := by
  -- Both loops are followed side by side: this one looks at each row and the other one has only
  -- those that will be changed, with all strings of the clause in its pool from the start.
  induction ids generalizing T q err err' with
  | nil => cases hlone : c.lone <;> simp [selection, reached, untilError, hlone]
  | cons rid ids ih =>
    obtain ⟨hnot, hnodup⟩ := List.nodup_cons.mp hnodup
    rcases update_step regex sets hrows hknown h hgo with
      ⟨q', err₁, hone, hpick, hq, hall, hend⟩ | ⟨row, err₁, hrow, hpick, hgo', hone⟩
    · have hnext := h.skip hq hall
      rw [untilError_cons_none (by rw [hone]), hone, ← hall]
      cases herrs : errs regex t pool P c rid with
      | false =>
        rw [selection_of_not hpick (.inr herrs)]
        exact ih hnodup hnext (hend.imp_right fun hiff => hiff.mpr herrs)
      | true =>
        -- An error stays in `err`: a single comparison goes on, and all else selects nothing more.
        cases hlone : c.lone with
        | true =>
          rw [selection_of_not hpick (.inl hlone)]
          exact ih hnodup hnext (.inl hlone)
        | false =>
          have hfail : err₁ ≠ [] := fun herr => by
            have hclean := (hend.resolve_left (by simp [hlone])).mp herr
            rw [herrs] at hclean
            cases hclean
          rw [selection_of_errs herrs hlone]
          exact update_stale hrows hnext.cols hnext.same hnext.grown hlone hfail
    · have hideal := @updateOne_take regex {} sets rid row ⟨T, q.internAll c.strings, err'⟩
        ((h.same rid (List.mem_cons_self ..)).trans hrow) rfl
      change _ = setRow sets rid row ⟨T, q.internAll c.strings, err'⟩ at hideal
      rw [setRow_err err₁ err'] at hone
      rw [selection_of_picks hpick]
      cases hset : (setRow sets rid row ⟨T, q.internAll c.strings, err'⟩).1 with
      | some e =>
        rw [untilError_cons_some (by rw [hone, hset]), untilError_cons_some (by rw [hideal, hset]),
          hone, hideal]
        exact ⟨rfl, rfl⟩
      | none =>
        obtain ⟨hall, hnext⟩ := h.take hnot hknown hset
        rw [untilError_cons_none (by rw [hone, hset]), untilError_cons_none (by rw [hideal, hset]),
          hone, hideal]
        have hrest := @ih _ _ err₁ (setRow sets rid row ⟨T, q.internAll c.strings, err'⟩).2.err
          hnodup hnext hgo'
        rw [hall] at hrest
        exact hrest

end Loop
end Dbms.Exec
