import Dbms.Core.IndexAgreement

/-! A table as a relation in which the INDEXED columns are keys: what is stored decides which
operations succeed. -/

open Dbms.Lib

namespace Dbms.Core

def ColumnDef.Takes (c : ColumnDef) : Value → Prop
  | .null => c.notNull = false ∧ c.indexed = false
  | .int _ => c.type = .int
  | .string _ => c.type = .string

theorem ColumnDef.cellError_eq_none {c : ColumnDef} {v : Value} :
    c.cellError v = none ↔ c.Takes v := by
  cases v with
  | null => cases h : c.notNull <;> cases h' : c.indexed <;> simp [cellError, Takes, h, h']
  | int _ => cases h : c.type <;> simp [cellError, Takes, h]
  | string _ => cases h : c.type <;> simp [cellError, Takes, h]

namespace Table
variable {pool : StringPool} {t t' : Table} {rid : RowId} {row : Row} {used : List RowId}

def Fits (cols : List ColumnDef) (row : Row) : Prop :=
  row.cells.length = cols.length ∧
    ∀ (i : Nat) (c : ColumnDef) (v : Value), cols[i]? = some c → row.cells[i]? = some v → c.Takes v

def Clashes (pool : StringPool) (t : Table) (row : Row) (rid : RowId) : Prop :=
  ∃ (i : Nat) (c : ColumnDef) (k x : Value), t.cols[i]? = some c ∧ c.indexed = true ∧
    row.cells[i]? = some k ∧ CellAt t.rows i x rid ∧ valueCmp pool x k = 0

theorem validateRow_eq_none : t.validateRow row = none ↔ Fits t.cols row := by
  unfold validateRow
  by_cases hlen : row.cells.length = t.cols.length
  · rw [if_neg (not_not_intro hlen), List.findSome?_eq_none_iff]
    constructor
    · refine fun h => ⟨hlen, fun i c v hc hv => ColumnDef.cellError_eq_none.mp ?_⟩
      refine h (c, v) (List.mem_iff_getElem?.mpr ⟨i, ?_⟩)
      rw [List.getElem?_zip_eq_some]
      exact ⟨hc, hv⟩
    · rintro ⟨-, h⟩ ⟨c, v⟩ hmem
      obtain ⟨i, hi⟩ := List.mem_iff_getElem?.mp hmem
      obtain ⟨hc, hv⟩ := List.getElem?_zip_eq_some.mp hi
      exact ColumnDef.cellError_eq_none.mpr (h i c v hc hv)
  · rw [if_pos hlen]
    exact iff_of_false (by simp) fun h => hlen h.1

theorem Agrees.mem_equalRows_iff (h : Agrees pool t) (hrow : t.validateRow row = none) :
    (∃ i < t.cols.length, rid ∈ t.equalRows pool row i) ↔ Clashes pool t row rid := by
  constructor
  · rintro ⟨i, -, hmem⟩
    obtain ⟨ix, k, x, hix, hk, hx, heq⟩ := (h.mem_equalRows hrow).mp hmem
    obtain ⟨c, hc, hindexed⟩ := h.column hix
    exact ⟨i, c, k, x, hc, hindexed, hk, hx, heq⟩
  · rintro ⟨i, c, k, x, hc, hindexed, hk, hx, heq⟩
    obtain ⟨ix, hix⟩ := Option.isSome_iff_exists.mp ((h.indexed i c hc).mpr hindexed)
    exact ⟨i, index_lt h hix, (h.mem_equalRows hrow).mpr ⟨ix, k, x, hix, hk, hx, heq⟩⟩

theorem Agrees.insertRow_iff (h : Agrees pool t) (row : Row) :
    (∃ id t', t.insertRow pool row = (.ok id, t')) ↔
      Fits t.cols row ∧ ∀ x, ¬Clashes pool t row x := by
  rw [← validateRow_eq_none]
  constructor
  · rintro ⟨id, t', hok⟩
    obtain ⟨hvalid, hnone, -⟩ := insertRow_ok hok
    refine ⟨hvalid, fun x hx => ?_⟩
    obtain ⟨i, hi, hmem⟩ := (h.mem_equalRows_iff hvalid).mpr hx
    rw [hnone i hi] at hmem
    cases hmem
  · rintro ⟨hvalid, hnew⟩
    obtain ⟨t', hok, -⟩ := insertRow_eq_ok hvalid fun i hi =>
      List.eq_nil_iff_forall_not_mem.mpr fun x hx =>
        hnew x ((h.mem_equalRows_iff hvalid).mp ⟨i, hi, hx⟩)
    exact ⟨t.nextRid, t', hok⟩

theorem Agrees.updateRow_iff (h : Agrees pool t) :
    (∃ t', t.updateRow pool rid row = (.ok (), t')) ↔
      rid ∈ t.rows ∧ Fits t.cols row ∧ ∀ x, Clashes pool t row x → x = rid := by
  rw [← validateRow_eq_none]
  constructor
  · rintro ⟨t', hok⟩
    obtain ⟨old, hold, hvalid, hothers, -⟩ := updateRow_ok hok
    refine ⟨Finmap.mem_of_lookup_eq_some hold, hvalid, fun x hx => ?_⟩
    obtain ⟨i, hi, hmem⟩ := (h.mem_equalRows_iff hvalid).mpr hx
    exact hothers i hi x hmem
  · rintro ⟨hrid, hvalid, hothers⟩
    obtain ⟨old, hold⟩ := Finmap.mem_iff.mp hrid
    have hno : ¬(t.cols.zipIdx.any fun c => (t.equalRows pool row c.2).any (· ≠ rid)) = true := by
      intro hany
      obtain ⟨⟨c, i⟩, hmem, hany⟩ := List.any_eq_true.mp hany
      obtain ⟨x, hx, hne⟩ := List.any_eq_true.mp hany
      have hi := (List.getElem?_eq_some_iff.mp (List.mem_zipIdx_iff_getElem?.mp hmem)).1
      exact of_decide_eq_true hne (hothers x ((h.mem_equalRows_iff hvalid).mp ⟨i, hi, hx⟩))
    unfold Table.updateRow
    simp only [hold, hvalid, if_neg hno]
    exact ⟨_, rfl⟩

theorem deleteRow_iff : (∃ t', t.deleteRow pool rid = (.ok (), t')) ↔ rid ∈ t.rows := by
  unfold deleteRow
  rw [Finmap.mem_iff]
  cases t.rows.lookup rid with
  | none => simp
  | some old => exact iff_of_true ⟨_, rfl⟩ ⟨old, rfl⟩

def usedAfter (used : List RowId) : Except Text RowId → List RowId
  | .ok id => id :: used
  | .error _ => used

/-- The table and its pool after calls in any order, with the ids handed out. -/
inductive Ran : List RowId → StringPool → Table → Prop where
  | new (pool : StringPool) (name : Text) (cols : List ColumnDef) : Ran [] pool (new name cols)
  | intern {used : List RowId} {pool : StringPool} {t : Table} (s : Text) :
      Ran used pool t → Ran used (pool.intern s).2 t
  | insertRow {used : List RowId} {pool : StringPool} {t : Table} (row : Row) : Ran used pool t →
      (∀ v ∈ row.cells, v.Interned pool) →
      Ran (usedAfter used (t.insertRow pool row).1) pool (t.insertRow pool row).2
  | updateRow {used : List RowId} {pool : StringPool} {t : Table} (rid : RowId) (row : Row) :
      Ran used pool t → (∀ v ∈ row.cells, v.Interned pool) →
      Ran used pool (t.updateRow pool rid row).2
  | deleteRow {used : List RowId} {pool : StringPool} {t : Table} (rid : RowId) :
      Ran used pool t → Ran used pool (t.deleteRow pool rid).2
  | rebuildIndexes {used : List RowId} {pool : StringPool} {t : Table} (o : HashOrder RowId) :
      Ran used pool t → Ran used pool (t.rebuildIndexes pool o)

/-- Ids have been handed out in order, and the indexes agree with the rows. -/
structure Sound (used : List RowId) (pool : StringPool) (t : Table) : Prop where
  agrees : Agrees pool t
  fresh : Fresh used.length t
  used : ∀ id ∈ used, 0 < id ∧ id ≤ used.length

theorem Ran.sound (h : Ran used pool t) (hused : used.length < 2 ^ 64) : Sound used pool t := by
  induction h with
  | new pool name cols =>
    exact ⟨new_agrees pool name cols, ⟨rfl, by simp [Table.new]⟩, by simp⟩
  | intern s _ ih =>
    obtain ⟨hag, hfr, hids⟩ := ih hused
    exact ⟨hag.extends (StringPool.intern_extends _ s), hfr, hids⟩
  | @insertRow used pool t row _ hin ih =>
    rcases hcall : t.insertRow pool row with ⟨err | id, t'⟩
    · rw [hcall] at hused
      exact insertRow_error hcall ▸ ih hused
    · rw [hcall] at hused
      have hlt : used.length + 1 < 2 ^ 64 := hused
      obtain ⟨hag, hfr, hids⟩ := ih (by omega)
      have hid : id = used.length + 1 := by
        obtain ⟨-, -, hid, -⟩ := insertRow_ok hcall
        rw [hid, hfr.nextRid]
        exact Nat.mod_eq_of_lt hlt
      refine ⟨hag.insertRow hin (hfr.lookup_nextRid (by omega)) hcall, hfr.insertRow hcall, ?_⟩
      intro id' hmem
      show 0 < id' ∧ id' ≤ used.length + 1
      rcases List.mem_cons.mp hmem with rfl | hmem
      · exact ⟨Nat.lt_of_lt_of_eq (Nat.succ_pos _) hid.symm, Nat.le_of_eq hid⟩
      · exact ⟨(hids id' hmem).1, Nat.le_succ_of_le (hids id' hmem).2⟩
  | @updateRow used pool t rid row _ hin ih =>
    obtain ⟨hag, hfr, hids⟩ := ih hused
    rcases hcall : t.updateRow pool rid row with ⟨err | _, t'⟩
    · exact updateRow_error hcall ▸ ⟨hag, hfr, hids⟩
    · exact ⟨hag.updateRow hin hcall, hfr.updateRow hcall, hids⟩
  | @deleteRow used pool t rid _ ih =>
    obtain ⟨hag, hfr, hids⟩ := ih hused
    rcases hcall : t.deleteRow pool rid with ⟨err | _, t'⟩
    · exact deleteRow_error hcall ▸ ⟨hag, hfr, hids⟩
    · exact ⟨hag.deleteRow hcall, hfr.deleteRow hcall, hids⟩
  | @rebuildIndexes used pool t o _ ih =>
    obtain ⟨hag, hfr, hids⟩ := ih hused
    obtain ⟨hrows, hnext⟩ := rebuildIndexes_frame pool o t
    exact ⟨hag.rebuildIndexes o, hfr.of_sub hnext fun rid hr => hrows ▸ hr, hids⟩

/-- `insert_row` on a relation: which rows it takes, and what it does. -/
def InsertRefines (used : List RowId) (pool : StringPool) (t : Table) (row : Row) : Prop :=
  ((∃ id t', id ≠ 0 ∧ t.insertRow pool row = (.ok id, t')) ↔
      Fits t.cols row ∧ ∀ x, ¬Clashes pool t row x) ∧
    ∀ id t', t.insertRow pool row = (.ok id, t') →
      id ∉ used ∧ id ∉ t.rows ∧ t'.rows = t.rows.insert id row ∧ t'.cols = t.cols

def UpdateRefines (pool : StringPool) (t : Table) (rid : RowId) (row : Row) : Prop :=
  ((∃ t', t.updateRow pool rid row = (.ok (), t')) ↔
      rid ∈ t.rows ∧ Fits t.cols row ∧ ∀ x, Clashes pool t row x → x = rid) ∧
    ∀ t', t.updateRow pool rid row = (.ok (), t') →
      t'.rows = t.rows.insert rid row ∧ t'.cols = t.cols ∧ t'.nextRid = t.nextRid

def DeleteRefines (pool : StringPool) (t : Table) (rid : RowId) : Prop :=
  ((∃ t', t.deleteRow pool rid = (.ok (), t')) ↔ rid ∈ t.rows) ∧
    ∀ t', t.deleteRow pool rid = (.ok (), t') →
      t'.rows = t.rows.erase rid ∧ t'.cols = t.cols ∧ t'.nextRid = t.nextRid

theorem Sound.insertRefines (h : Sound used pool t) (hused : used.length + 1 < 2 ^ 64) :
    InsertRefines used pool t row := by
  have hnext : t.nextRid = used.length + 1 := h.fresh.nextRid.trans (Nat.mod_eq_of_lt hused)
  constructor
  · rw [← h.agrees.insertRow_iff]
    constructor
    · rintro ⟨id, t', -, hok⟩
      exact ⟨id, t', hok⟩
    · rintro ⟨id, t', hok⟩
      obtain ⟨-, -, hid, -⟩ := insertRow_ok hok
      exact ⟨id, t', hid.trans hnext ▸ Nat.succ_ne_zero _, hok⟩
  · intro id t' hok
    obtain ⟨-, -, rfl, rfl⟩ := insertRow_ok hok
    refine ⟨fun hmem => ?_, ?_, rfl, rfl⟩
    · have hle := (h.used _ hmem).2
      rw [hnext] at hle
      exact Nat.not_succ_le_self _ hle
    · rw [← Finmap.lookup_eq_none]
      exact h.fresh.lookup_nextRid (by omega)

theorem Sound.updateRefines (h : Sound used pool t) : UpdateRefines pool t rid row := by
  refine ⟨h.agrees.updateRow_iff, fun t' hok => ?_⟩
  obtain ⟨old, -, -, -, rfl⟩ := updateRow_ok hok
  exact ⟨rfl, rfl, rfl⟩

theorem deleteRefines : DeleteRefines pool t rid := by
  refine ⟨deleteRow_iff, fun t' hok => ?_⟩
  obtain ⟨old, -, rfl⟩ := deleteRow_ok hok
  exact ⟨rfl, rfl, rfl⟩

/-- A call that fails hands back the rows, the indexes and the next id as they were. -/
def FailsClean (pool : StringPool) (t : Table) (rid : RowId) (row : Row) : Prop :=
  ∀ err t', (t.insertRow pool row = (.error err, t') → t' = t) ∧
    (t.updateRow pool rid row = (.error err, t') → t' = t) ∧
    (t.deleteRow pool rid = (.error err, t') → t' = t)

theorem failsClean : FailsClean pool t rid row :=
  fun _ _ => ⟨insertRow_error, updateRow_error, deleteRow_error⟩

/-- The operations of a table refine those of a relation. -/
theorem ran_refines (h : Ran used pool t) (hused : used.length < 2 ^ 64) (rid : RowId) (row : Row) :
    (used.length + 1 < 2 ^ 64 → InsertRefines used pool t row) ∧ UpdateRefines pool t rid row ∧
      DeleteRefines pool t rid ∧ FailsClean pool t rid row := by
  have hsound := h.sound hused
  exact ⟨hsound.insertRefines, hsound.updateRefines, deleteRefines, failsClean⟩

/-- Keys 7 and 8, then 7 deleted and inserted once more: rows 2 and 3. -/
def keyAgain : Table :=
  let t := ((new "t".toList [idColumn]).insertRow .new ⟨[.int 7]⟩).2
  let t := (t.insertRow .new ⟨[.int 8]⟩).2
  let t := (t.deleteRow .new 1).2
  (t.insertRow .new ⟨[.int 7]⟩).2

theorem keyAgain_ran : Ran [3, 2, 1] .new keyAgain :=
  .insertRow _ (.deleteRow 1 (.insertRow _ (.insertRow _ (.new .new "t".toList [idColumn])
    (int_interned _ 7)) (int_interned _ 8))) (int_interned _ 7)

theorem ran_refines_keyAgain :
    (InsertRefines [3, 2, 1] .new keyAgain ⟨[.int 7]⟩ ∧
      UpdateRefines .new keyAgain 2 ⟨[.int 7]⟩ ∧ DeleteRefines .new keyAgain 2 ∧
      FailsClean .new keyAgain 2 ⟨[.int 7]⟩) ∧
    (InsertRefines [3, 2, 1] .new keyAgain ⟨[.int 9]⟩ ∧
      UpdateRefines .new keyAgain 1 ⟨[.int 9]⟩ ∧ DeleteRefines .new keyAgain 1 ∧
      FailsClean .new keyAgain 1 ⟨[.int 9]⟩) := by
  obtain ⟨hclash, hrest⟩ := ran_refines keyAgain_ran (by decide) 2 ⟨[.int 7]⟩
  obtain ⟨hnew, hrest'⟩ := ran_refines keyAgain_ran (by decide) 1 ⟨[.int 9]⟩
  exact ⟨⟨hclash (by decide), hrest⟩, hnew (by decide), hrest'⟩

example : (keyAgain.insertRow .new ⟨[.int 7]⟩).1 =
    .error "duplicate INDEXED value for column `id`".toList := by rfl

end Table
end Dbms.Core
