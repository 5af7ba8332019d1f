import Dbms.Core.BTreeSpec
import Dbms.Core.Table

/-! Every index of a table lists the stored rows by their cells. -/

open Dbms.Lib

namespace Dbms.Core

namespace Table
variable {pool : StringPool} {t t' : Table} {i : Nat} {rid : RowId} {row : Row}

abbrev Rows := Finmap fun _ : RowId => Row

def CellAt (rows : Rows) (i : Nat) (k : Value) (rid : RowId) : Prop :=
  ∃ row, rows.lookup rid = some row ∧ row.cells[i]? = some k

def Lists (pool : StringPool) (rows : Rows) (i : Nat) (ix : BPlusTreeIndex Value) : Prop :=
  ∃ es, ix.Stores (valueCmp pool) false (Value.Interned pool) es ∧
    ∀ k rid, (k, rid) ∈ es ↔ CellAt rows i k rid

/-- The indexes list the rows `rows`. -/
structure Indexed (pool : StringPool) (t : Table) (rows : Rows) : Prop where
  width : t.indexes.length = t.cols.length
  indexed : ∀ i c, t.cols[i]? = some c → ((t.indexForColumn i).isSome ↔ c.indexed = true)
  lists : ∀ i ix, t.indexForColumn i = some ix → Lists pool rows i ix

structure Agrees (pool : StringPool) (t : Table) : Prop extends Indexed pool t t.rows where
  valid : ∀ rid row, t.rows.lookup rid = some row → t.validateRow row = none
  interned : ∀ rid row, t.rows.lookup rid = some row → ∀ v ∈ row.cells, v.Interned pool

section Lists
variable {rows : Rows} {ix : BPlusTreeIndex Value} {k : Value}

theorem CellAt.unique {k' : Value} (h : CellAt rows i k rid) (h' : CellAt rows i k' rid) :
    k = k' := by
  obtain ⟨row, hrow, hk⟩ := h
  obtain ⟨row', hrow', hk'⟩ := h'
  obtain rfl : row = row' := Option.some.inj (hrow.symm.trans hrow')
  exact Option.some.inj (hk.symm.trans hk')

theorem cellAt_insert (hfresh : rows.lookup rid = none) (hk : row.cells[i]? = some k) (x : Value)
    (rid' : RowId) :
    CellAt (rows.insert rid row) i x rid' ↔ (x, rid') = (k, rid) ∨ CellAt rows i x rid' := by
  unfold CellAt
  by_cases hr : rid' = rid
  · subst hr
    simp [Finmap.lookup_insert, hfresh, hk, eq_comm]
  · simp [Finmap.lookup_insert_of_ne _ hr, hr]

theorem cellAt_erase (rid : RowId) (x : Value) (rid' : RowId) :
    CellAt (rows.erase rid) i x rid' ↔ rid' ≠ rid ∧ CellAt rows i x rid' := by
  unfold CellAt
  by_cases hr : rid' = rid
  · subst hr
    simp [Finmap.lookup_erase]
  · simp [Finmap.lookup_erase_ne hr, hr]

theorem Lists.empty (h : Lists pool rows i ix) : Lists pool ∅ i ix.clear := by
  obtain ⟨es, hes, -⟩ := h
  exact ⟨[], hes.clear, by simp [CellAt]⟩

theorem Lists.insert (h : Lists pool rows i ix) (hfresh : rows.lookup rid = none)
    (hk : row.cells[i]? = some k) (hin : k.Interned pool)
    (hnew : ∀ x rid', CellAt rows i x rid' → valueCmp pool x k ≠ 0) :
    Lists pool (rows.insert rid row) i (ix.insert (valueCmp pool) k rid) := by
  obtain ⟨es, hes, hmem⟩ := h
  obtain ⟨es₁, es₂, rfl, hes'⟩ := hes.insert (valueCmp_totalPreorder pool) rid hin
    (.inr fun e he => hnew e.1 e.2 ((hmem e.1 e.2).mp he))
  refine ⟨_, hes', fun x rid' => ?_⟩
  rw [cellAt_insert hfresh hk, ← hmem]
  simp only [List.mem_append, List.mem_cons]
  tauto

theorem Lists.erase (h : Lists pool rows i ix) (hk : CellAt rows i k rid) :
    Lists pool (rows.erase rid) i (ix.erase (valueCmp pool) k rid).1 := by
  have hc := valueCmp_totalPreorder pool
  obtain ⟨es, hes, hmem⟩ := h
  rcases hes.erase hc k rid with ⟨hnone, -⟩ | ⟨ix', es', herase, hrem, hes'⟩
  · exact absurd ⟨hc.refl k, rfl⟩ (hnone (k, rid) ((hmem k rid).mpr hk))
  obtain ⟨es₁, e, es₂, rfl, he, rfl, rfl⟩ := hrem.out
  rw [herase]
  refine ⟨_, hes', fun x rid' => ?_⟩
  have hek : e.1 = k := ((hmem e.1 e.2).mp (by simp)).unique hk
  have hnd := (List.nodup_middle.mp (hes.nodup hc))
  rw [cellAt_erase, ← hmem]
  constructor
  · intro hx
    refine ⟨fun hr => ?_, by simp only [List.mem_append, List.mem_cons] at hx ⊢; tauto⟩
    have hxk : x = k := ((hmem x e.2).mp (by
      subst hr
      simp only [List.mem_append, List.mem_cons] at hx ⊢
      tauto)).unique hk
    refine (List.nodup_cons.mp hnd).1 ?_
    rwa [show e = (x, rid') from Prod.ext (hek.trans hxk.symm) hr.symm]
  · rintro ⟨hr, hx⟩
    simp only [List.mem_append, List.mem_cons] at hx ⊢
    rcases hx with hx | hx | hx
    · exact .inl hx
    · exact absurd (congrArg Prod.snd hx) hr
    · exact .inr hx

theorem Lists.extends {pool' : StringPool} (h : Lists pool rows i ix) (hp : pool.Extends pool') :
    Lists pool' rows i ix := by
  obtain ⟨es, hes, hmem⟩ := h
  exact ⟨es, hes.congr (fun _ hk => hk.extends hp) fun a b ha hb => (valueCmp_extends hp ha hb).symm,
    hmem⟩

end Lists

section Rows
variable {rows : Rows}

theorem validateRow_cell (h : t.validateRow row = none) {c : ColumnDef} (hc : t.cols[i]? = some c) :
    ∃ k, row.cells[i]? = some k ∧ c.cellError k = none := by
  unfold validateRow at h
  split at h
  · cases h
  rename_i hlen
  obtain ⟨hi, rfl⟩ := List.getElem?_eq_some_iff.mp hc
  have hi' : i < row.cells.length := by omega
  refine ⟨row.cells[i], List.getElem?_eq_getElem hi', ?_⟩
  refine List.findSome?_eq_none_iff.mp h (t.cols[i], row.cells[i]) ?_
  refine List.mem_iff_getElem?.mpr ⟨i, ?_⟩
  rw [List.getElem?_zip_eq_some]
  exact ⟨List.getElem?_eq_getElem hi, List.getElem?_eq_getElem hi'⟩

theorem validateRow_congr (h : t'.cols = t.cols) (row : Row) :
    t'.validateRow row = t.validateRow row := by
  simp only [validateRow, h]

theorem mapIndexes_indexForColumn (t : Table) (row : Row)
    (f : BPlusTreeIndex Value → Value → BPlusTreeIndex Value) {k : Value}
    (hk : row.cells[i]? = some k) (hnull : k.isNull = false) :
    (t.mapIndexes row f).indexForColumn i = (t.indexForColumn i).map fun ix => f ix k := by
  simp only [mapIndexes, indexForColumn, List.getElem?_mapIdx, hk, hnull]
  cases t.indexes[i]? <;> rfl

theorem indexForColumn_isSome_lt {ix : BPlusTreeIndex Value} (h : t.indexForColumn i = some ix) :
    i < t.indexes.length := by
  by_contra hge
  simp [indexForColumn, List.getElem?_eq_none (Nat.le_of_not_lt hge)] at h

namespace Indexed

theorem column (h : Indexed pool t rows) {ix : BPlusTreeIndex Value}
    (hix : t.indexForColumn i = some ix) : ∃ c, t.cols[i]? = some c ∧ c.indexed = true := by
  have hi := indexForColumn_isSome_lt hix
  rw [h.width] at hi
  exact ⟨t.cols[i], List.getElem?_eq_getElem hi,
    (h.indexed i _ (List.getElem?_eq_getElem hi)).mp (by rw [hix]; rfl)⟩

theorem cell (h : Indexed pool t rows) (hrow : t.validateRow row = none)
    {ix : BPlusTreeIndex Value} (hix : t.indexForColumn i = some ix) :
    ∃ k, row.cells[i]? = some k ∧ k.isNull = false := by
  obtain ⟨c, hc, hindexed⟩ := h.column hix
  obtain ⟨k, hk, herr⟩ := validateRow_cell hrow hc
  refine ⟨k, hk, ?_⟩
  cases k with
  | null => simp [ColumnDef.cellError, hindexed] at herr
  | int _ | string _ => rfl

theorem mapIndexes (h : Indexed pool t rows) (hrow : t.validateRow row = none) {rows' : Rows}
    {f : BPlusTreeIndex Value → Value → BPlusTreeIndex Value}
    (hf : ∀ i ix k, t.indexForColumn i = some ix → row.cells[i]? = some k →
      Lists pool rows i ix → Lists pool rows' i (f ix k)) :
    Indexed pool (t.mapIndexes row f) rows' := by
  have hcol : ∀ i ix, t.indexForColumn i = some ix → ∃ k, row.cells[i]? = some k ∧
      (t.mapIndexes row f).indexForColumn i = some (f ix k) := fun i ix hix => by
    obtain ⟨k, hk, hnull⟩ := h.cell hrow hix
    exact ⟨k, hk, by rw [mapIndexes_indexForColumn t row f hk hnull, hix]; rfl⟩
  have hnone : ∀ i, t.indexForColumn i = none → (t.mapIndexes row f).indexForColumn i = none := by
    intro i hix
    simp only [Table.mapIndexes, indexForColumn, List.getElem?_mapIdx] at hix ⊢
    cases hg : t.indexes[i]? with
    | none => rfl
    | some o =>
      rw [hg] at hix
      obtain rfl : o = none := hix
      simp only [Option.map_some, Option.join_some]
      split
      · split <;> rfl
      · rfl
  -- No index is made or lost, and each lists what `f` makes of it.
  refine ⟨by simpa [Table.mapIndexes] using h.width, fun i c hc => ?_, fun i ix hix => ?_⟩
  · rw [← h.indexed i c hc]
    cases hix : t.indexForColumn i with
    | none => rw [hnone i hix]
    | some ix =>
      obtain ⟨k, -, hk⟩ := hcol i ix hix
      rw [hk]
      simp
  · cases hix' : t.indexForColumn i with
    | none =>
      rw [hnone i hix'] at hix
      cases hix
    | some ix' =>
      obtain ⟨k, hcell, hk⟩ := hcol i ix' hix'
      rw [hk] at hix
      obtain rfl := Option.some.inj hix
      exact hf i ix' k hix' hcell (h.lists i ix' hix')

def Distinct (pool : StringPool) (t : Table) (rows : Rows) (row : Row) : Prop :=
  ∀ i ix k x rid, t.indexForColumn i = some ix → row.cells[i]? = some k →
    CellAt rows i x rid → valueCmp pool x k ≠ 0

theorem insertRow (h : Indexed pool t rows) (hrow : t.validateRow row = none)
    (hin : ∀ v ∈ row.cells, v.Interned pool) (hfresh : rows.lookup rid = none)
    (hnew : Distinct pool t rows row) :
    Indexed pool (t.indexInsertRow pool rid row) (rows.insert rid row) :=
  h.mapIndexes hrow fun i ix k hix hk hl =>
    hl.insert hfresh hk (hin k (List.mem_of_getElem? hk)) fun x rid' => hnew i ix k x rid' hix hk

theorem removeRow (h : Indexed pool t rows) (hrow : t.validateRow row = none)
    (hrid : rows.lookup rid = some row) :
    Indexed pool (t.indexRemoveRow pool rid row) (rows.erase rid) :=
  h.mapIndexes hrow fun _ _ _ _ hk hl => hl.erase ⟨row, hrid, hk⟩

theorem mem_equalRows (h : Indexed pool t rows) (hrow : t.validateRow row = none) {rid : RowId} :
    rid ∈ t.equalRows pool row i ↔ ∃ ix k x, t.indexForColumn i = some ix ∧
      row.cells[i]? = some k ∧ CellAt rows i x rid ∧ valueCmp pool x k = 0 := by
  unfold equalRows
  cases hix : t.indexForColumn i with
  | none => simp
  | some ix =>
    obtain ⟨k, hk, hnull⟩ := h.cell hrow hix
    obtain ⟨es, hes, hmem⟩ := h.lists i ix hix
    simp [hk, hnull, hes.findEqual (valueCmp_totalPreorder pool), hmem]

end Indexed
end Rows
end Table
end Dbms.Core
