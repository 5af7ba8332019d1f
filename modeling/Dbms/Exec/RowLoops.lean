import Dbms.Core.TableRun
import Dbms.Exec.Rows

/-! The loops over the rows of one table. -/

open Dbms.Core Dbms.Lib Dbms.Sql

namespace Dbms.Exec

section Matching
variable {regex : Regex} {w : WhereClause} {t : Table} {rid : RowId} {ids : List RowId} {row : Row}
  {p : StringPool} {err : Text}

theorem matching_none (h : t.getRow rid = none) :
    matching regex w t (rid :: ids) p err = matching regex w t ids p err := by
  simp only [matching, h]

theorem matching_some (h : t.getRow rid = some row) :
    matching regex w t (rid :: ids) p err =
      let e := evalWhere regex t row w p err
      let r := matching regex w t ids e.pool e.err
      (if e.result then rid :: r.1 else r.1, r.2.1, r.2.2) := by
  simp only [matching, h]

end Matching

theorem matching_sublist (regex : Regex) (w : WhereClause) (t : Table) (ids : List RowId)
    (pool : StringPool) (err : Text) :
    (matching regex w t ids pool err).1.Sublist ids ∧
      ∀ rid ∈ (matching regex w t ids pool err).1, rid ∈ t.rows := by
  induction ids generalizing pool err with
  | nil => simp [matching]
  | cons rid ids ih =>
    unfold matching
    split
    · obtain ⟨hsub, hmem⟩ := ih pool err
      exact ⟨hsub.cons _, hmem⟩
    · rename_i rw hrw
      obtain ⟨hsub, hmem⟩ := ih (evalWhere regex t rw w pool err).pool
        (evalWhere regex t rw w pool err).err
      dsimp only
      split
      · refine ⟨hsub.cons_cons _, fun x hx => ?_⟩
        rcases List.mem_cons.mp hx with rfl | hx
        · exact Finmap.mem_of_lookup_eq_some hrw
        · exact hmem x hx
      · exact ⟨hsub.cons _, hmem⟩

section Delete
variable {t : Table} {p : StringPool} {err : Text} {ids : List RowId}

theorem deleteRow_eq_ok (pool : StringPool) {rid : RowId} (h : rid ∈ t.rows) :
    ∃ t', t.deleteRow pool rid = (.ok (), t') ∧ t'.rows = t.rows.erase rid := by
  obtain ⟨row, hrow⟩ := Finmap.mem_iff.mp h
  refine ⟨{ t.indexRemoveRow pool rid row with rows := t.rows.erase rid }, ?_, rfl⟩
  simp only [Table.deleteRow, hrow]
  rfl

theorem deleteLoop {s : RowsState} (hnodup : ids.Nodup) (hmem : ∀ rid ∈ ids, rid ∈ s.table.rows) :
    (untilError deleteOne ids s).1 = none ∧
      ∀ x, (untilError deleteOne ids s).2.table.rows.lookup x =
        if x ∈ ids then none else s.table.rows.lookup x := by
  induction ids generalizing s with
  | nil => simp [untilError]
  | cons rid ids ih =>
    obtain ⟨hnot, hnodup⟩ := List.nodup_cons.mp hnodup
    obtain ⟨t', hdel, hrows⟩ := deleteRow_eq_ok s.pool (hmem rid (List.mem_cons_self ..))
    have hone : deleteOne rid s = (none, { s with table := t' }) := by
      simp only [deleteOne, hdel]
    have hmem' : ∀ x ∈ ids, x ∈ t'.rows := by
      intro x hx
      rw [hrows, Finmap.mem_erase]
      exact ⟨fun h => hnot (h ▸ hx), hmem x (List.mem_cons_of_mem _ hx)⟩
    obtain ⟨hok, hleft⟩ := ih (s := { s with table := t' }) hnodup hmem'
    rw [untilError_cons_none (by rw [hone]), hone]
    refine ⟨hok, fun x => ?_⟩
    rw [hleft]
    show (if x ∈ ids then none else t'.rows.lookup x) = _
    rw [hrows]
    by_cases hx : x = rid
    · subst hx
      simp [Finmap.lookup_erase]
    · simp [hx, Finmap.lookup_erase_ne hx]

end Delete
end Dbms.Exec
