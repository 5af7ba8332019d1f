import Dbms.Core.TableInv

/-! Runs of table operations keep the indexes in step with the rows, as long as no row id is
handed out twice. -/

open Dbms.Lib

namespace Dbms.Core

namespace Table
variable {pool : StringPool} {t t' : Table} {i n : Nat} {rid : RowId} {row : Row}

theorem new_agrees (pool : StringPool) (name : Text) (cols : List ColumnDef) :
    Agrees pool (new name cols) := by
  refine ⟨⟨by simp [new], fun i c hc => ?_, fun i ix hix => ?_⟩, ?_, ?_⟩
  · simp only [new] at hc
    simp only [new, indexForColumn, List.getElem?_map, hc, Option.map_some, Option.join_some]
    cases c.indexed <;> simp
  · obtain ⟨c, -, hc⟩ : ∃ c, (new name cols).cols[i]? = some c ∧ ix = .new 32 := by
      simp only [new, indexForColumn, List.getElem?_map, Option.join_eq_some_iff,
        Option.map_eq_some_iff] at hix ⊢
      obtain ⟨c, hc, hix⟩ := hix
      refine ⟨c, hc, ?_⟩
      split at hix
      · exact (Option.some.inj hix).symm
      · cases hix
    subst hc
    exact ⟨[], BPlusTreeIndex.new_stores 32, by simp [new, CellAt]⟩
  · simp [new]
  · simp [new]

theorem Agrees.extends {pool' : StringPool} (h : Agrees pool t) (hp : pool.Extends pool') :
    Agrees pool' t where
  width := h.width
  indexed := h.indexed
  lists i ix hix := (h.lists i ix hix).extends hp
  valid := h.valid
  interned rid row hrow v hv := (h.interned rid row hrow v hv).extends hp

theorem insertRow_ok (h : t.insertRow pool row = (.ok rid, t')) :
    t.validateRow row = none ∧ (∀ i < t.cols.length, t.equalRows pool row i = []) ∧
      rid = t.nextRid ∧
      t' = indexInsertRow pool { t with nextRid := (rid + 1) % 2 ^ 64, rows := t.rows.insert rid row }
        rid row := by
  unfold insertRow at h
  split at h
  · cases h
  rename_i hvalid
  split at h
  · cases h
  rename_i hfind
  simp only [Except.ok.injEq, Prod.mk.injEq] at h
  obtain ⟨rfl, rfl⟩ := h
  refine ⟨hvalid, fun i hi => ?_, rfl, rfl⟩
  have hmem : (t.cols[i], i) ∈ t.cols.zipIdx := List.mem_zipIdx_iff_getElem?.mpr (by simp [hi])
  simpa using List.find?_eq_none.mp hfind _ hmem

theorem insertRow_error {err : Text} (h : t.insertRow pool row = (.error err, t')) : t' = t := by
  unfold insertRow at h
  split at h
  · exact (congrArg Prod.snd h).symm
  split at h
  · exact (congrArg Prod.snd h).symm
  · cases h

theorem updateRow_ok (h : t.updateRow pool rid row = (.ok (), t')) :
    ∃ old, t.rows.lookup rid = some old ∧ t.validateRow row = none ∧
      (∀ i < t.cols.length, ∀ x ∈ t.equalRows pool row i, x = rid) ∧
      t' = indexInsertRow pool
        { t.indexRemoveRow pool rid old with rows := t.rows.insert rid row } rid row := by
  unfold updateRow at h
  split at h
  · cases h
  rename_i old hold
  split at h
  · cases h
  rename_i hvalid
  split at h
  · cases h
  rename_i hany
  obtain rfl := congrArg Prod.snd h
  refine ⟨old, hold, hvalid, fun i hi x hx => ?_, rfl⟩
  by_contra hne
  refine hany (List.any_eq_true.mpr ⟨(t.cols[i], i), ?_, ?_⟩)
  · exact List.mem_zipIdx_iff_getElem?.mpr (by simp [hi])
  · exact List.any_eq_true.mpr ⟨x, hx, by simpa using hne⟩

theorem updateRow_error {err : Text} (h : t.updateRow pool rid row = (.error err, t')) :
    t' = t := by
  unfold updateRow at h
  split at h
  · exact (congrArg Prod.snd h).symm
  split at h
  · exact (congrArg Prod.snd h).symm
  split at h
  · exact (congrArg Prod.snd h).symm
  · cases h

theorem deleteRow_ok (h : t.deleteRow pool rid = (.ok (), t')) :
    ∃ old, t.rows.lookup rid = some old ∧
      t' = { t.indexRemoveRow pool rid old with rows := t.rows.erase rid } := by
  unfold deleteRow at h
  split at h
  · cases h
  rename_i old hold
  exact ⟨old, hold, (congrArg Prod.snd h).symm⟩

theorem deleteRow_error {err : Text} (h : t.deleteRow pool rid = (.error err, t')) : t' = t := by
  unfold deleteRow at h
  split at h
  · exact (congrArg Prod.snd h).symm
  · cases h

theorem forall_lookup_insert {P : Row → Prop} {rows : Rows}
    (h : ∀ rid row, rows.lookup rid = some row → P row)
    (hrow : P row) (x : RowId) (row' : Row) (hx : (rows.insert rid row).lookup x = some row') :
    P row' := by
  by_cases hr : x = rid
  · subst hr
    rw [Finmap.lookup_insert] at hx
    exact Option.some.inj hx ▸ hrow
  · rw [Finmap.lookup_insert_of_ne _ hr] at hx
    exact h x row' hx

theorem index_lt (h : Agrees pool t) {ix : BPlusTreeIndex Value}
    (hix : t.indexForColumn i = some ix) : i < t.cols.length :=
  h.width ▸ indexForColumn_isSome_lt hix

theorem Agrees.insertRow (h : Agrees pool t) (hin : ∀ v ∈ row.cells, v.Interned pool)
    (hfresh : t.rows.lookup t.nextRid = none) (hok : t.insertRow pool row = (.ok rid, t')) :
    Agrees pool t' := by
  obtain ⟨hvalid, hnone, rfl, rfl⟩ := insertRow_ok hok
  have hnew : Indexed.Distinct pool t t.rows row := by
    intro i ix k x rid hix hk hx heq
    have hmem := (h.mem_equalRows hvalid).mpr ⟨ix, k, x, hix, hk, hx, heq⟩
    rw [hnone i (index_lt h hix)] at hmem
    cases hmem
  have hix := h.insertRow hvalid hin hfresh hnew
  exact ⟨⟨hix.width, hix.indexed, hix.lists⟩, forall_lookup_insert h.valid hvalid,
    forall_lookup_insert h.interned hin⟩

theorem Agrees.updateRow (h : Agrees pool t) (hin : ∀ v ∈ row.cells, v.Interned pool)
    (hok : t.updateRow pool rid row = (.ok (), t')) : Agrees pool t' := by
  obtain ⟨old, hold, hvalid, hothers, rfl⟩ := updateRow_ok hok
  have herase := h.removeRow (h.valid rid old hold) hold
  have hnew : Indexed.Distinct pool (t.indexRemoveRow pool rid old) (t.rows.erase rid) row := by
    intro i ix k x rid' hix hk hx heq
    obtain ⟨hne, hx⟩ := (cellAt_erase rid x rid').mp hx
    have hlt : i < t.cols.length := by
      have := indexForColumn_isSome_lt hix
      rwa [herase.width] at this
    obtain ⟨c, hc, hindexed⟩ := herase.column hix
    obtain ⟨ix', hix'⟩ := Option.isSome_iff_exists.mp ((h.indexed i c hc).mpr hindexed)
    exact hne (hothers i hlt rid' ((h.mem_equalRows hvalid).mpr ⟨ix', k, x, hix', hk, hx, heq⟩))
  have hvalid' : (t.indexRemoveRow pool rid old).validateRow row = none := hvalid
  have hix := herase.insertRow hvalid' hin (Finmap.lookup_erase rid t.rows) hnew
  have hrows : (t.rows.erase rid).insert rid row = t.rows.insert rid row := by
    refine Finmap.ext_lookup fun x => ?_
    by_cases hx : x = rid
    · subst hx
      simp [Finmap.lookup_insert]
    · simp [Finmap.lookup_insert_of_ne _ hx, Finmap.lookup_erase_ne hx]
  rw [hrows] at hix
  exact ⟨⟨hix.width, hix.indexed, hix.lists⟩, forall_lookup_insert h.valid hvalid,
    forall_lookup_insert h.interned hin⟩

theorem Agrees.deleteRow (h : Agrees pool t) (hok : t.deleteRow pool rid = (.ok (), t')) :
    Agrees pool t' := by
  obtain ⟨old, hold, rfl⟩ := deleteRow_ok hok
  have hix := h.removeRow (h.valid rid old hold) hold
  have hstored : ∀ x row, (t.rows.erase rid).lookup x = some row → t.rows.lookup x = some row := by
    intro x row hx
    by_cases hr : x = rid
    · rw [hr, Finmap.lookup_erase] at hx
      cases hx
    · rwa [Finmap.lookup_erase_ne hr] at hx
  exact ⟨⟨hix.width, hix.indexed, hix.lists⟩, fun x row hx => h.valid x row (hstored x row hx),
    fun x row hx => h.interned x row (hstored x row hx)⟩

/-- Two rows with level cells in an indexed column are one row. -/
theorem Agrees.rid_unique (h : Agrees pool t) {ix : BPlusTreeIndex Value}
    (hix : t.indexForColumn i = some ix) {k k' : Value} {rid' : RowId} (hk : CellAt t.rows i k rid)
    (hk' : CellAt t.rows i k' rid') (heq : valueCmp pool k k' = 0) : rid = rid' := by
  obtain ⟨es, hes, hmem⟩ := h.lists i ix hix
  exact congrArg Prod.snd (hes.eq_of_level (valueCmp_totalPreorder pool) ((hmem k rid).mpr hk)
    ((hmem k' rid').mpr hk') heq)

theorem rebuild_loop (h : Agrees pool t) {l : List RowId} (hl : l.Nodup) (t₁ : Table) (done : Rows)
    (hrows : t₁.rows = t.rows) (hcols : t₁.cols = t.cols)
    (hixs : ∀ i ix, t₁.indexForColumn i = some ix → (t.indexForColumn i).isSome)
    (hdone : ∀ x, done.lookup x = if x ∈ l then none else t.rows.lookup x)
    (h₁ : Indexed pool t₁ done) :
    let t₂ := l.foldl (indexRow pool) t₁
    t₂.rows = t.rows ∧ t₂.cols = t.cols ∧ Indexed pool t₂ t.rows := by
  -- `done` grows up to the rows of the table. A row that comes in meets no level one: both are
  -- rows of `t`, whose keys differ.
  induction l generalizing t₁ done with
  | nil =>
    have : done = t.rows := Finmap.ext_lookup fun x => by simpa using hdone x
    exact ⟨hrows, hcols, this ▸ h₁⟩
  | cons a l ih =>
    obtain ⟨ha, hl⟩ := List.nodup_cons.mp hl
    have hnone : done.lookup a = none := by simpa using hdone a
    rw [List.foldl_cons]
    cases hrow : t.rows.lookup a with
    | none =>
      have hget : t₁.indexRow pool a = t₁ := by rw [indexRow, getRow, hrows, hrow]
      rw [hget]
      refine ih hl t₁ done hrows hcols hixs (fun x => ?_) h₁
      by_cases hx : x = a
      · subst hx
        rw [hnone, hrow, ite_self]
      · simpa [hx] using hdone x
    | some row =>
      have hget : t₁.indexRow pool a = t₁.indexInsertRow pool a row := by
        rw [indexRow, getRow, hrows, hrow]
      have hvalid : t₁.validateRow row = none := by
        rw [validateRow_congr hcols]
        exact h.valid a row hrow
      have hsub : ∀ x row, done.lookup x = some row → t.rows.lookup x = some row := by
        intro x row hx
        rw [hdone] at hx
        split at hx
        · cases hx
        · exact hx
      have hnew : Indexed.Distinct pool t₁ done row := by
        intro i ix k x rid hix hk hx heq
        obtain ⟨ix', hix'⟩ := Option.isSome_iff_exists.mp (hixs i ix hix)
        obtain ⟨row', hrow', hx⟩ := hx
        have hra := h.rid_unique hix' ⟨row', hsub rid row' hrow', hx⟩ ⟨row, hrow, hk⟩ heq
        rw [hra, hnone] at hrow'
        cases hrow'
      have hins := h₁.insertRow hvalid (h.interned a row hrow) hnone hnew
      rw [hget]
      refine ih hl _ _ hrows hcols (fun i ix hix => ?_) (fun x => ?_) hins
      · obtain ⟨c, hc, hindexed⟩ := hins.column hix
        exact (h.indexed i c (by rw [← hcols]; exact hc)).mpr hindexed
      · by_cases hx : x = a
        · subst hx
          rw [Finmap.lookup_insert, if_neg ha, hrow]
        · rw [Finmap.lookup_insert_of_ne _ hx, hdone]
          simp [hx]

theorem Agrees.rebuildIndexes (h : Agrees pool t) (o : HashOrder RowId) :
    Agrees pool (t.rebuildIndexes pool o) := by
  have hcol : ∀ i, t.clearIndexes.indexForColumn i =
      (t.indexForColumn i).map BPlusTreeIndex.clear := fun i => by
    simp only [clearIndexes, indexForColumn, List.getElem?_map]
    cases t.indexes[i]? <;> rfl
  have h₁ : Indexed pool t.clearIndexes ∅ := by
    refine ⟨by simpa [clearIndexes] using h.width, fun i c hc => ?_, fun i ix hix => ?_⟩
    · rw [hcol, Option.isSome_map]
      exact h.indexed i c hc
    · rw [hcol, Option.map_eq_some_iff] at hix
      obtain ⟨ix', hix', rfl⟩ := hix
      exact (h.lists i ix' hix').empty
  have hixs : ∀ i ix, t.clearIndexes.indexForColumn i = some ix → (t.indexForColumn i).isSome := by
    intro i ix hix
    rw [hcol, Option.map_eq_some_iff] at hix
    obtain ⟨ix', hix', -⟩ := hix
    rw [hix']
    rfl
  have hnone : ∀ x, (∅ : Rows).lookup x =
      if x ∈ o.toList t.rows.keys then none else t.rows.lookup x := by
    intro x
    split
    · rfl
    · rename_i hx
      rw [o.mem_toList, Finmap.mem_keys] at hx
      exact (Finmap.lookup_eq_none.mpr hx).symm
  obtain ⟨hrows, hcols, h₂⟩ :=
    rebuild_loop h (o.nodup t.rows.keys) t.clearIndexes ∅ rfl rfl hixs hnone h₁
  refine ⟨⟨h₂.width, h₂.indexed, fun i ix hix => hrows ▸ h₂.lists i ix hix⟩, fun rid row hrow => ?_,
    fun rid row hrow => h.interned rid row (hrows ▸ hrow)⟩
  exact (validateRow_congr hcols row).trans (h.valid rid row (hrows ▸ hrow))

end Table
end Dbms.Core
