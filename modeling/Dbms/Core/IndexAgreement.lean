import Dbms.Core.TableRun

/-! The answers of the indexes of a table, over whole runs of table operations. -/

open Dbms.Lib

namespace Dbms.Core

namespace Table
variable {pool : StringPool} {t t' : Table} {i n : Nat} {rid : RowId} {row : Row}

/-- The table and its pool after calls in any order, `n` of them of `insert_row`. -/
inductive Reach : Nat → StringPool → Table → Prop where
  | new (pool : StringPool) (name : Text) (cols : List ColumnDef) : Reach 0 pool (new name cols)
  | intern {n : Nat} {pool : StringPool} {t : Table} (s : Text) :
      Reach n pool t → Reach n (pool.intern s).2 t
  | insertRow {n : Nat} {pool : StringPool} {t : Table} (row : Row) : Reach n pool t →
      (∀ v ∈ row.cells, v.Interned pool) →
      Reach (n + 1) pool (t.insertRow pool row).2
  | updateRow {n : Nat} {pool : StringPool} {t : Table} (rid : RowId) (row : Row) :
      Reach n pool t → (∀ v ∈ row.cells, v.Interned pool) →
      Reach n pool (t.updateRow pool rid row).2
  | deleteRow {n : Nat} {pool : StringPool} {t : Table} (rid : RowId) : Reach n pool t →
      Reach n pool (t.deleteRow pool rid).2
  | rebuildIndexes {n : Nat} {pool : StringPool} {t : Table} (o : HashOrder RowId) :
      Reach n pool t → Reach n pool (t.rebuildIndexes pool o)

theorem eq_or_lookup_of_insert {rows : Rows} {new : Row} {x : RowId}
    (h : (rows.insert rid new).lookup x = some row) : row = new ∨ rows.lookup x = some row := by
  by_cases hx : x = rid
  · rw [hx, Finmap.lookup_insert] at h
    exact .inl (Option.some.inj h).symm
  · exact .inr ((Finmap.lookup_insert_of_ne _ hx).symm.trans h)

theorem lookup_of_erase {rows : Rows} {x : RowId} (h : (rows.erase rid).lookup x = some row) :
    rows.lookup x = some row := by
  by_cases hx : x = rid
  · rw [hx, Finmap.lookup_erase] at h
    cases h
  · exact (Finmap.lookup_erase_ne hx).symm.trans h

theorem rebuildIndexes_frame (pool : StringPool) (o : HashOrder RowId) (t : Table) :
    (t.rebuildIndexes pool o).rows = t.rows ∧ (t.rebuildIndexes pool o).nextRid = t.nextRid := by
  have hloop : ∀ (l : List RowId) (t₁ : Table),
      let t₂ := l.foldl (indexRow pool) t₁
      t₂.rows = t₁.rows ∧ t₂.nextRid = t₁.nextRid := by
    intro l
    induction l with
    | nil => exact fun t₁ => ⟨rfl, rfl⟩
    | cons a l ih =>
      intro t₁
      rw [List.foldl_cons, indexRow]
      cases t₁.getRow a with
      | none => exact ih t₁
      | some row => exact ih _
  exact hloop _ _

/-- The cells of a table that has been reached are interned, whatever its ids did. -/
theorem Reach.interned (h : Reach n pool t) {rid : RowId} {row : Row}
    (hrow : t.rows.lookup rid = some row) : ∀ v ∈ row.cells, v.Interned pool := by
  induction h generalizing rid row with
  | new pool name cols => cases hrow
  | intern s _ ih => exact fun v hv => (ih hrow v hv).extends (StringPool.intern_extends _ s)
  | @insertRow n pool t new _ hin ih =>
    rcases hcall : t.insertRow pool new with ⟨err | id, t'⟩
    · rw [hcall, insertRow_error hcall] at hrow
      exact ih hrow
    · rw [hcall] at hrow
      obtain ⟨-, -, -, rfl⟩ := insertRow_ok hcall
      rcases eq_or_lookup_of_insert hrow with rfl | hold
      · exact hin
      · exact ih hold
  | @updateRow n pool t rid' new _ hin ih =>
    rcases hcall : t.updateRow pool rid' new with ⟨err | _, t'⟩
    · rw [hcall, updateRow_error hcall] at hrow
      exact ih hrow
    · rw [hcall] at hrow
      obtain ⟨old, -, -, -, rfl⟩ := updateRow_ok hcall
      rcases eq_or_lookup_of_insert hrow with rfl | hold
      · exact hin
      · exact ih hold
  | @deleteRow n pool t rid' _ ih =>
    rcases hcall : t.deleteRow pool rid' with ⟨err | _, t'⟩
    · rw [hcall, deleteRow_error hcall] at hrow
      exact ih hrow
    · rw [hcall] at hrow
      obtain ⟨old, -, rfl⟩ := deleteRow_ok hcall
      exact ih (lookup_of_erase hrow)
  | @rebuildIndexes n pool t o _ ih =>
    rw [(rebuildIndexes_frame pool o t).1] at hrow
    exact ih hrow

/-- The ids handed out so far are those of the first `m` insertions. -/
structure Fresh (m : Nat) (t : Table) : Prop where
  nextRid : t.nextRid = (m + 1) % 2 ^ 64
  used : ∀ rid row, t.rows.lookup rid = some row → ∃ j : Nat, 0 < j ∧ j ≤ m ∧ rid = j % 2 ^ 64

theorem Fresh.lookup_nextRid {m : Nat} (h : Fresh m t) (hm : m < 2 ^ 64) :
    t.rows.lookup t.nextRid = none := by
  by_contra hne
  obtain ⟨row, hrow⟩ := Option.ne_none_iff_exists'.mp hne
  obtain ⟨j, hj, hjm, hrid⟩ := h.used _ row hrow
  have hwrap : (m + 1) % 2 ^ 64 = j % 2 ^ 64 := h.nextRid.symm.trans hrid
  omega

theorem Fresh.insertRow {m : Nat} (h : Fresh m t) (hok : t.insertRow pool row = (.ok rid, t')) :
    Fresh (m + 1) t' := by
  obtain ⟨-, -, rfl, rfl⟩ := insertRow_ok hok
  refine ⟨?_, fun x row' hx => ?_⟩
  · change (t.nextRid + 1) % 2 ^ 64 = _
    rw [h.nextRid]
    exact Nat.mod_add_mod _ _ _
  · by_cases hr : x = t.nextRid
    · exact ⟨m + 1, by omega, le_rfl, hr.trans h.nextRid⟩
    · obtain ⟨j, hj, hjm, rfl⟩ := h.used x row' ((Finmap.lookup_insert_of_ne _ hr).symm.trans hx)
      exact ⟨j, hj, by omega, rfl⟩

theorem Fresh.of_sub {m : Nat} (h : Fresh m t) (hnext : t'.nextRid = t.nextRid)
    (hsub : ∀ rid, rid ∈ t'.rows → rid ∈ t.rows) : Fresh m t' := by
  refine ⟨hnext.trans h.nextRid, fun rid row hrow => ?_⟩
  obtain ⟨row', hrow'⟩ := Finmap.mem_iff.mp (hsub rid (Finmap.mem_of_lookup_eq_some hrow))
  exact h.used rid row' hrow'

theorem Fresh.updateRow {m : Nat} (h : Fresh m t) (hok : t.updateRow pool rid row = (.ok (), t')) :
    Fresh m t' := by
  obtain ⟨old, hold, -, -, rfl⟩ := updateRow_ok hok
  refine h.of_sub rfl fun x hx => ?_
  rcases Finmap.mem_insert.mp hx with rfl | hx
  · exact Finmap.mem_of_lookup_eq_some hold
  · exact hx

theorem Fresh.deleteRow {m : Nat} (h : Fresh m t) (hok : t.deleteRow pool rid = (.ok (), t')) :
    Fresh m t' := by
  obtain ⟨old, hold, rfl⟩ := deleteRow_ok hok
  exact h.of_sub rfl fun x hx => (Finmap.mem_erase.mp hx).2

theorem Reach.inv (h : Reach n pool t) (hn : n ≤ 2 ^ 64) :
    Agrees pool t ∧ ∃ m ≤ n, Fresh m t := by
  induction h with
  | new pool name cols => exact ⟨new_agrees pool name cols, 0, le_rfl, rfl, by simp [Table.new]⟩
  | intern s _ ih =>
    obtain ⟨hag, hfr⟩ := ih hn
    exact ⟨hag.extends (StringPool.intern_extends _ s), hfr⟩
  | @insertRow n pool t row _ hin ih =>
    obtain ⟨hag, m, hm, hfr⟩ := ih (by omega)
    rcases hcall : t.insertRow pool row with ⟨err | id, t'⟩
    · exact insertRow_error hcall ▸ ⟨hag, m, by omega, hfr⟩
    · exact ⟨hag.insertRow hin (hfr.lookup_nextRid (by omega)) hcall, m + 1, by omega,
        hfr.insertRow hcall⟩
  | @updateRow n pool t rid row _ hin ih =>
    obtain ⟨hag, m, hm, hfr⟩ := ih hn
    rcases hcall : t.updateRow pool rid row with ⟨err | _, t'⟩
    · exact updateRow_error hcall ▸ ⟨hag, m, hm, hfr⟩
    · exact ⟨hag.updateRow hin hcall, m, hm, hfr.updateRow hcall⟩
  | @deleteRow n pool t rid _ ih =>
    obtain ⟨hag, m, hm, hfr⟩ := ih hn
    rcases hcall : t.deleteRow pool rid with ⟨err | _, t'⟩
    · exact deleteRow_error hcall ▸ ⟨hag, m, hm, hfr⟩
    · exact ⟨hag.deleteRow hcall, m, hm, hfr.deleteRow hcall⟩
  | @rebuildIndexes n pool t o _ ih =>
    obtain ⟨hag, m, hm, hfr⟩ := ih hn
    obtain ⟨hrows, hnext⟩ := rebuildIndexes_frame pool o t
    exact ⟨hag.rebuildIndexes o, m, hm, hfr.of_sub hnext fun rid hr => hrows ▸ hr⟩

def Within (pool : StringPool) (low high : Value) (lowIncl highIncl : Bool) (v : Value) : Prop :=
  (0 < valueCmp pool v low ∨ lowIncl = true ∧ valueCmp pool v low = 0) ∧
    (valueCmp pool v high < 0 ∨ highIncl = true ∧ valueCmp pool v high = 0)

theorem inRange_iff (low high : Value) (lowIncl highIncl : Bool) (v : Value) :
    BPlusTreeIndex.inRange (valueCmp pool) low high lowIncl highIncl v = true ↔
      Within pool low high lowIncl highIncl v := by
  unfold BPlusTreeIndex.inRange Within
  cases lowIncl <;> cases highIncl <;> simp <;> omega

/-- The index of column `i` answers as a scan of the rows would. -/
structure Answers (pool : StringPool) (t : Table) (i : Nat) (ix : BPlusTreeIndex Value) : Prop where
  mem_findEqual : ∀ v rid, rid ∈ ix.findEqual (valueCmp pool) v ↔
    ∃ k, CellAt t.rows i k rid ∧ valueCmp pool k v = 0
  findEqual_length : ∀ v, (ix.findEqual (valueCmp pool) v).length ≤ 1
  mem_range : ∀ low high lowIncl highIncl rid,
    rid ∈ ix.range (valueCmp pool) low high lowIncl highIncl ↔
      ∃ k, CellAt t.rows i k rid ∧ Within pool low high lowIncl highIncl k
  range_nodup : ∀ low high lowIncl highIncl,
    (ix.range (valueCmp pool) low high lowIncl highIncl).Nodup
  range_sorted : ∀ low high lowIncl highIncl,
    (ix.range (valueCmp pool) low high lowIncl highIncl).Pairwise fun rid rid' =>
      ∀ k k', CellAt t.rows i k rid → CellAt t.rows i k' rid' → valueCmp pool k k' < 0

theorem Lists.answers {ix : BPlusTreeIndex Value} (h : Lists pool t.rows i ix) :
    Answers pool t i ix := by
  have hc := valueCmp_totalPreorder pool
  obtain ⟨es, hes, hmem⟩ := h
  have hrange := hes.range hc
  have hsorted : ∀ low high li hi, (ix.range (valueCmp pool) low high li hi).Pairwise
      fun rid rid' => ∀ k k', CellAt t.rows i k rid → CellAt t.rows i k' rid' →
        valueCmp pool k k' < 0 := by
    intro low high li hi
    rw [hrange, List.pairwise_map]
    refine ((List.pairwise_map.mp (hes.sorted hc)).sublist List.filter_sublist).imp_of_mem
      fun {e e'} he he' hlt k k' hk hk' => ?_
    obtain rfl := ((hmem e.1 e.2).mp (List.mem_of_mem_filter he)).unique hk
    obtain rfl := ((hmem e'.1 e'.2).mp (List.mem_of_mem_filter he')).unique hk'
    exact before_false.mp hlt
  refine ⟨fun v rid => ?_, fun v => ?_, fun low high li hi rid => ?_, fun low high li hi => ?_, hsorted⟩
  · simp [hes.findEqual hc, hmem]
  · rw [hes.findEqual hc, List.length_map]
    exact hes.level_length hc v
  · simp [hrange, hmem, inRange_iff]
  · rw [hrange]
    refine List.Nodup.map_on ?_ ((hes.nodup hc).filter _)
    intro e he e' he' heq
    have hk := (hmem e.1 e.2).mp (List.mem_of_mem_filter he)
    have hk' := (hmem e'.1 e'.2).mp (List.mem_of_mem_filter he')
    exact Prod.ext (hk.unique (heq ▸ hk')) heq

/-- After at most `2 ^ 64` insertions every index answers as a scan would. -/
theorem index_answers (h : Reach n pool t) (hn : n ≤ 2 ^ 64) {c : ColumnDef}
    (hc : t.cols[i]? = some c) (hindexed : c.indexed = true) :
    ∃ ix, t.indexForColumn i = some ix ∧ Answers pool t i ix := by
  obtain ⟨hag, -⟩ := h.inv hn
  obtain ⟨ix, hix⟩ := Option.isSome_iff_exists.mp ((hag.indexed i c hc).mpr hindexed)
  exact ⟨ix, hix, (hag.lists i ix hix).answers⟩

def idColumn : ColumnDef := { name := "id".toList, notNull := true, indexed := true }

/-- Keys 7, 8 and 9 inserted, 8 changed to 5, 7 deleted. -/
def fewRows : Table :=
  let t := ((new "t".toList [idColumn]).insertRow .new ⟨[.int 7]⟩).2
  let t := (t.insertRow .new ⟨[.int 8]⟩).2
  let t := (t.insertRow .new ⟨[.int 9]⟩).2
  let t := (t.updateRow .new 2 ⟨[.int 5]⟩).2
  (t.deleteRow .new 1).2

theorem int_interned (pool : StringPool) (v : Int) :
    ∀ x ∈ (⟨[.int v]⟩ : Row).cells, x.Interned pool := by
  simp [Value.Interned]

theorem fewRows_reach : Reach 3 .new fewRows :=
  .deleteRow 1 <| .updateRow 2 _ (.insertRow _ (.insertRow _ (.insertRow _
    (.new .new "t".toList [idColumn]) (int_interned _ 7)) (int_interned _ 8)) (int_interned _ 9))
    (int_interned _ 5)

theorem index_answers_fewRows :
    ∃ ix, fewRows.indexForColumn 0 = some ix ∧ Answers .new fewRows 0 ix :=
  index_answers (i := 0) (c := idColumn) fewRows_reach (by omega) rfl rfl

/-! The ids wrap: after `2 ^ 64` insertions the next row takes the place of row 1. -/

theorem insertRow_eq_ok (hvalid : t.validateRow row = none)
    (hnone : ∀ i < t.cols.length, t.equalRows pool row i = []) :
    ∃ t', t.insertRow pool row = (.ok t.nextRid, t') ∧ t'.rows = t.rows.insert t.nextRid row ∧
      t'.nextRid = (t.nextRid + 1) % 2 ^ 64 ∧ t'.cols = t.cols := by
  refine ⟨indexInsertRow pool { t with
    nextRid := (t.nextRid + 1) % 2 ^ 64, rows := t.rows.insert t.nextRid row } t.nextRid row,
    ?_, rfl, rfl, rfl⟩
  have hfind : t.cols.zipIdx.find? (fun c => !(t.equalRows pool row c.2).isEmpty) = none := by
    rw [List.find?_eq_none]
    rintro ⟨c, i⟩ hmem
    have hi := (List.mem_zipIdx_iff_getElem?.mp hmem)
    simp [hnone i (List.getElem?_eq_some_iff.mp hi).1]
  unfold insertRow
  rw [hvalid]
  dsimp only
  rw [hfind]

structure Lone (rid : Nat) (t : Table) : Prop where
  cols : t.cols = [idColumn]
  rows : t.rows = Finmap.singleton 1 ⟨[.int 1]⟩
  nextRid : t.nextRid = rid
  agrees : Agrees .new t
  index : ∃ ix, t.indexes = [some ix] ∧ ix.OneLeaf 32 [.int 1] [1]

theorem Lone.cellAt {rid r : Nat} (h : Lone rid t) {x : Value} (hx : CellAt t.rows i x r) :
    i = 0 ∧ x = .int 1 := by
  obtain ⟨row, hrow, hx⟩ := hx
  obtain rfl : r = 1 :=
    (Finmap.mem_singleton _ _ _).mp (Finmap.mem_of_lookup_eq_some (h.rows ▸ hrow))
  rw [h.rows, Finmap.lookup_singleton_eq] at hrow
  obtain rfl := Option.some.inj hrow
  cases i with
  | zero => exact ⟨rfl, (Option.some.inj hx).symm⟩
  | succ i => simp at hx

theorem Lone.insertRow {rid : Nat} (h : Lone rid t) {v : Int} (hv : v ≠ 1) :
    ∃ t', t.insertRow .new ⟨[.int v]⟩ = (.ok rid, t') ∧
      t'.rows = t.rows.insert rid ⟨[.int v]⟩ ∧ t'.nextRid = (rid + 1) % 2 ^ 64 ∧
      t'.cols = [idColumn] := by
  have hvalid : t.validateRow ⟨[.int v]⟩ = none := by
    unfold validateRow
    rw [h.cols]
    rfl
  obtain ⟨t', hok, hrows, hnext, hcols⟩ := insertRow_eq_ok hvalid fun i _ => by
    refine List.eq_nil_iff_forall_not_mem.mpr fun x hx => ?_
    obtain ⟨ix, k, y, -, hk, hy, heq⟩ := (h.agrees.mem_equalRows hvalid).mp hx
    obtain ⟨rfl, rfl⟩ := h.cellAt hy
    obtain rfl := Option.some.inj hk
    exact hv (valueCmp_int_eq_zero.mp heq).symm
  rw [h.nextRid] at hok hrows hnext
  exact ⟨t', hok, hrows, hnext, hcols.trans h.cols⟩

/-- One insertion and its removal leave row 1 alone and use up an id. -/
theorem Lone.churn {rid : Nat} (h : Lone rid t) (hrid : rid ≠ 1) (ht : Reach n .new t) :
    ∃ t', Reach (n + 1) .new t' ∧ Lone ((rid + 1) % 2 ^ 64) t' := by
  obtain ⟨t', hok, hrows, hnext, hcols⟩ := h.insertRow (v := 2) (by decide)
  have hfresh : t.rows.lookup rid = none := by
    rw [h.rows, Finmap.lookup_eq_none, Finmap.mem_singleton]
    exact hrid
  have hin := int_interned .new 2
  have hag := h.agrees.insertRow hin (h.nextRid.symm ▸ hfresh) hok
  have hlook : t'.rows.lookup rid = some ⟨[.int 2]⟩ := by rw [hrows, Finmap.lookup_insert]
  obtain ⟨t'', hdel, hrows', hnext', hcols'⟩ : ∃ t'', t'.deleteRow .new rid = (.ok (), t'') ∧
      t''.rows = t'.rows.erase rid ∧ t''.nextRid = t'.nextRid ∧ t''.cols = t'.cols := by
    simp only [Table.deleteRow, hlook]
    exact ⟨_, rfl, rfl, rfl, rfl⟩
  refine ⟨t'', ?_, hcols'.trans hcols, ?_, hnext'.trans hnext, hag.deleteRow hdel, ?_⟩
  · have hr := (Reach.insertRow _ ht hin).deleteRow rid
    simp only [hok, hdel] at hr
    exact hr
  · rw [hrows', hrows, ← h.rows]
    refine Finmap.ext_lookup fun x => ?_
    by_cases hx : x = rid
    · rw [hx, Finmap.lookup_erase, hfresh]
    · rw [Finmap.lookup_erase_ne hx, Finmap.lookup_insert_of_ne _ hx]
  · obtain ⟨ix, hix, hleaf⟩ := h.index
    obtain ⟨-, -, -, rfl⟩ := insertRow_ok hok
    obtain ⟨old, hold, rfl⟩ := deleteRow_ok hdel
    obtain rfl := Option.some.inj (hlook.symm.trans hold)
    have hinsert := hleaf.insert (valueCmp .new) (by decide) (.int 2) rid
    have hfind : ([Value.int 1, .int 2].zip [1, rid]).findIdx?
        (fun e => valueCmp .new e.1 (.int 2) = 0 ∧ e.2 = rid) = some 1 := by
      simp [List.findIdx?_cons, valueCmp, Value.kind, cmpBy]
    refine ⟨_, ?_, hinsert.erase (valueCmp .new) hfind⟩
    simp [indexRemoveRow, indexInsertRow, mapIndexes, hix, Value.isNull]

theorem exists_lone (k : Nat) (hk : k < 2 ^ 64) :
    ∃ n t, Reach n .new t ∧ Lone ((k + 2) % 2 ^ 64) t := by
  induction k with
  | zero =>
    have hin := int_interned .new 1
    refine ⟨1, _, .insertRow ⟨[.int 1]⟩ (.new .new "t".toList [idColumn]) hin, rfl, rfl, rfl, ?_, ?_⟩
    · exact Agrees.insertRow (new_agrees .new "t".toList [idColumn]) hin rfl rfl
    · exact ⟨_, rfl, BPlusTreeIndex.oneLeaf_new _ rfl rfl _ _⟩
  | succ k ih =>
    obtain ⟨n, t, ht, hlone⟩ := ih (by omega)
    obtain ⟨t', ht', hlone'⟩ := hlone.churn (by omega) ht
    refine ⟨_, t', ht', ?_⟩
    rwa [Nat.mod_add_mod] at hlone'

theorem exists_twice : ∃ n t, Reach n .new t ∧ t.cols = [idColumn] ∧
    t.rows = Finmap.singleton 1 ⟨[.int 1]⟩ ∧
    ∃ ix, t.indexes = [some ix] ∧ ix.OneLeaf 32 [.int 1, .int 1] [1, 1] := by
  obtain ⟨n, t, ht, hlone⟩ := exists_lone (2 ^ 64 - 1) (by omega)
  have hin := int_interned .new
  have ht₁ := Reach.insertRow _ ht (hin 3)
  obtain ⟨t₁, hok, hrows, -, hcols⟩ := hlone.insertRow (v := 3) (by decide)
  have hrid : (2 ^ 64 - 1 + 2) % 2 ^ 64 = 1 := rfl
  rw [hrid] at hok hrows
  simp only [hok] at ht₁
  have hlook : t₁.rows.lookup 1 = some ⟨[.int 3]⟩ := by rw [hrows, Finmap.lookup_insert]
  -- the index lists row 1 under the keys 1 and 3
  obtain ⟨ix, hix, hleaf⟩ := hlone.index
  have hleaf₁ := hleaf.insert (valueCmp .new) (by decide) (.int 3) 1
  have hix₁ : t₁.indexes = [some (ix.insert (valueCmp .new) (.int 3) 1)] := by
    obtain ⟨-, -, -, rfl⟩ := insertRow_ok hok
    simp [indexInsertRow, mapIndexes, hix, Value.isNull]
  have hequal : t₁.equalRows .new ⟨[.int 1]⟩ 0 = [1] := by
    have hone : t₁.indexForColumn 0 = some (ix.insert (valueCmp .new) (.int 3) 1) := by
      simp [indexForColumn, hix₁]
    unfold equalRows
    rw [hone]
    exact hleaf₁.findEqual (valueCmp .new) (.int 1)
  have hupdate : ∃ t₂, t₁.updateRow .new 1 ⟨[.int 1]⟩ = (.ok (), t₂) ∧ t₂ = indexInsertRow .new
      { t₁.indexRemoveRow .new 1 ⟨[.int 3]⟩ with rows := t₁.rows.insert 1 ⟨[.int 1]⟩ } 1
        ⟨[.int 1]⟩ := by
    have hvalid : t₁.validateRow ⟨[.int 1]⟩ = none := by
      unfold validateRow
      rw [hcols]
      rfl
    have hany : (t₁.cols.zipIdx.any fun c =>
        (t₁.equalRows .new ⟨[.int 1]⟩ c.2).any (· ≠ 1)) = false := by
      rw [hcols]
      simp [hequal]
    refine ⟨_, ?_, rfl⟩
    unfold updateRow
    rw [hlook]
    dsimp only
    rw [hvalid]
    dsimp only
    rw [if_neg (by rw [hany]; exact Bool.false_ne_true)]
    rfl
  obtain ⟨t₂, hok₂, rfl⟩ := hupdate
  have ht₂ := Reach.updateRow 1 _ ht₁ (hin 1)
  rw [hok₂] at ht₂
  have hfind : ([Value.int 1, .int 3].zip [1, 1]).findIdx?
      (fun e => valueCmp .new e.1 (.int 3) = 0 ∧ e.2 = 1) = some 1 := by decide
  have hleaf₂ := (hleaf₁.erase (valueCmp .new) hfind).insert (valueCmp .new) (by decide) (.int 1) 1
  refine ⟨_, _, ht₂, hcols, ?_, _, ?_, hleaf₂⟩
  · show (t₁.rows.insert 1 ⟨[.int 1]⟩) = _
    rw [hrows, hlone.rows]
    rfl
  · simp [indexRemoveRow, indexInsertRow, mapIndexes, hix₁, Value.isNull]

/-- With ids that wrap, the answers go wrong in some run. -/
theorem index_answers_fail : ¬ ∀ (n : Nat) (pool : StringPool) (t : Table), Reach n pool t →
    ∀ (i : Nat) (c : ColumnDef), t.cols[i]? = some c → c.indexed = true →
      ∃ ix, t.indexForColumn i = some ix ∧ Answers pool t i ix := by
  intro hall
  obtain ⟨n, t, ht, hlone⟩ := exists_lone (2 ^ 64 - 1) (by omega)
  have hin := int_interned .new 3
  have ht' := Reach.insertRow _ ht hin
  obtain ⟨t', hok, hrows, -, hcols⟩ := hlone.insertRow (v := 3) (by decide)
  simp only [hok] at ht'
  obtain ⟨ix', hix', hans⟩ := hall _ _ _ ht' 0 idColumn (by rw [hcols]; rfl) rfl
  have hrid : (2 ^ 64 - 1 + 2) % 2 ^ 64 = 1 := rfl
  rw [hrid] at hok hrows
  have hlook : t'.rows.lookup 1 = some ⟨[.int 3]⟩ := by rw [hrows, Finmap.lookup_insert]
  -- the index of the old table has the key 1 under row 1, and the new one keeps it
  obtain ⟨ix, hix⟩ := Option.isSome_iff_exists.mp
    ((hlone.agrees.indexed 0 idColumn (by rw [hlone.cols]; rfl)).mpr rfl)
  obtain ⟨es, hes, hmem⟩ := hlone.agrees.lists 0 ix hix
  have hone : CellAt t.rows 0 (.int 1) 1 :=
    ⟨⟨[.int 1]⟩, by rw [hlone.rows, Finmap.lookup_singleton_eq], rfl⟩
  have hix3 : ix' = ix.insert (valueCmp .new) (.int 3) 1 := by
    obtain ⟨-, -, -, rfl⟩ := insertRow_ok hok
    have := hix'.symm.trans (mapIndexes_indexForColumn _ _ _ rfl rfl)
    change some ix' = (t.indexForColumn 0).map _ at this
    rw [hix] at this
    exact Option.some.inj this
  obtain ⟨es₁, es₂, rfl, hes'⟩ := hes.insert (valueCmp_totalPreorder .new) (k := .int 3) 1 trivial
    (.inr fun e he heq => by
      rw [(hlone.cellAt ((hmem e.1 e.2).mp he)).2] at heq
      cases valueCmp_int_eq_zero.mp heq)
  have hold : (1 : RowId) ∈ ix'.findEqual (valueCmp .new) (.int 1) := by
    rw [hix3, hes'.findEqual (valueCmp_totalPreorder .new)]
    refine List.mem_map.mpr ⟨(.int 1, 1), List.mem_filter.mpr ⟨?_, by decide⟩, rfl⟩
    have := (hmem _ _).mpr hone
    simp only [List.mem_append, List.mem_cons] at this ⊢
    tauto
  obtain ⟨k, ⟨row, hrow, hk⟩, heq⟩ := (hans.mem_findEqual _ _).mp hold
  obtain rfl := Option.some.inj (hlook.symm.trans hrow)
  obtain rfl := Option.some.inj hk
  cases valueCmp_int_eq_zero.mp heq

end Table
end Dbms.Core
