import Dbms.Exec.UpdateScan

/-! What UPDATE leaves of the rows that it selects. -/

open Dbms.Core Dbms.Lib Dbms.Sql

namespace Dbms.Exec

def assigned (t : Table) (sets : List (Text × Literal)) (i : Nat) : Option Literal :=
  sets.reverse.findSome? fun set => if t.columnIndex set.1 = some i then some set.2 else none

/-- The new row has the columns of `sets` replaced, and the other cells of the old one. -/
structure Replaced (t : Table) (sets : List (Text × Literal)) (pool : StringPool)
    (row row' : Row) : Prop where
  width : row'.cells.length = row.cells.length
  kept : ∀ i, assigned t sets i = none → row'.cells[i]? = row.cells[i]?
  set : ∀ i l, assigned t sets i = some l → ∃ v, row'.cells[i]? = some v ∧ content pool v = l

/-- The same by the ids that the pool has handed out for the literals. -/
structure Stores (t : Table) (sets : List (Text × Literal)) (pool : StringPool)
    (row row' : Row) : Prop where
  width : row'.cells.length = row.cells.length
  kept : ∀ i, assigned t sets i = none → row'.cells[i]? = row.cells[i]?
  set : ∀ i l, assigned t sets i = some l → i < row.cells.length →
    (∀ s ∈ l.strings, (pool.index.lookup s).isSome) ∧ row'.cells[i]? = some (litToVal l pool).1

section Assign
variable {t : Table} {sets : List (Text × Literal)} {pool p : StringPool} {row row' : Row}
  {unknown : Text → Text}

theorem assigned_cons (t : Table) (c : Text) (l : Literal) (sets : List (Text × Literal)) (i : Nat) :
    assigned t ((c, l) :: sets) i =
      (assigned t sets i).or (if t.columnIndex c = some i then some l else none) := by
  by_cases h : t.columnIndex c = some i <;> simp [assigned, List.findSome?_append, h]

theorem litToVal_known {l : Literal} (hknown : ∀ s ∈ l.strings, (pool.index.lookup s).isSome)
    (hp : pool.Extends p) : (litToVal l p).1 = (litToVal l pool).1 := by
  cases l with
  | string s =>
    obtain ⟨id, hid⟩ := Option.isSome_iff_exists.mp (hknown s (List.mem_singleton_self s))
    simp only [litToVal, literalToValue, StringPool.intern_of_lookup hid,
      StringPool.intern_of_lookup (hp.lookup hid)]
  | null | int _ => rfl

theorem content_litToVal {l : Literal} (hknown : ∀ s ∈ l.strings, (pool.index.lookup s).isSome)
    (hsize : pool.size ≤ 2 ^ 32) : content pool (litToVal l pool).1 = l := by
  have hpool : pool.internAll l.strings = pool := StringPool.internAll_known hknown
  have hlit := @content_literal pool pool l (by rw [hpool]; exact .refl pool)
  exact hlit.trans (Literal.stored_eq hsize l)

theorem Stores.extends (h : Stores t sets pool row row') (hp : pool.Extends p) :
    Stores t sets p row row' where
  width := h.width
  kept := h.kept
  set i l hl hi := by
    obtain ⟨hknown, hget⟩ := h.set i l hl hi
    refine ⟨fun s hs => ?_, hget.trans (by rw [litToVal_known hknown hp])⟩
    obtain ⟨id, hid⟩ := Option.isSome_iff_exists.mp (hknown s hs)
    exact Option.isSome_iff_exists.mpr ⟨id, hp.lookup hid⟩

theorem Stores.replaced (h : Stores t sets pool row row') (hwidth : row.cells.length = t.cols.length)
    (hsize : pool.size ≤ 2 ^ 32) : Replaced t sets pool row row' where
  width := h.width
  kept := h.kept
  set i l hl := by
    obtain ⟨set, -, hset⟩ := List.exists_of_findSome?_eq_some hl
    have hi : i < row.cells.length := by
      by_cases hcol : t.columnIndex set.1 = some i
      · rw [hwidth]
        exact (List.findIdx?_eq_some_iff_findIdx_eq.mp hcol).1
      · rw [if_neg hcol] at hset
        cases hset
    obtain ⟨hknown, hget⟩ := h.set i l hl hi
    exact ⟨_, hget, content_litToVal hknown hsize⟩

theorem setCells_stores (h : setCells t unknown sets row pool = (.ok row', p)) :
    Stores t sets p row row' := by
  induction sets generalizing row pool with
  | nil =>
    cases h
    exact ⟨rfl, fun _ _ => rfl, nofun⟩
  | cons set sets ih =>
    obtain ⟨c, l⟩ := set
    simp only [setCells] at h
    cases hcol : t.columnIndex c with
    | none =>
      rw [hcol] at h
      cases h
    | some idx =>
      rw [hcol] at h
      dsimp only at h
      have hrest := ih h
      have hext := setCells_extends sets ⟨row.cells.set idx (litToVal l pool).1⟩ t
        (litToVal l pool).2 unknown
      rw [h] at hext
      refine ⟨hrest.width.trans (List.length_set ..), fun i hi => ?_, fun i l' hl' hi => ?_⟩
      · rw [assigned_cons, Option.or_eq_none_iff, hcol] at hi
        have hne : idx ≠ i := fun heq => by simp [heq] at hi
        rw [hrest.kept i hi.1, List.getElem?_set_ne hne]
      · rw [assigned_cons, hcol] at hl'
        cases hrec : assigned t sets i with
        | some l₁ =>
          rw [hrec, Option.some_or] at hl'
          obtain rfl := Option.some.inj hl'
          exact hrest.set i _ hrec (by simpa using hi)
        | none =>
          rw [hrec, Option.none_or] at hl'
          by_cases hidx : idx = i
          · subst hidx
            rw [if_pos rfl] at hl'
            obtain rfl := Option.some.inj hl'
            have hpool := literalToValue_pool l pool
            have hknown : ∀ s ∈ l.strings, ((litToVal l pool).2.index.lookup s).isSome := by
              intro s hs
              rw [litToVal, hpool]
              exact StringPool.internAll_lookup hs
            refine ⟨fun s hs => ?_, ?_⟩
            · obtain ⟨id, hid⟩ := Option.isSome_iff_exists.mp (hknown s hs)
              exact Option.isSome_iff_exists.mpr ⟨id, hext.lookup hid⟩
            · rw [hrest.kept idx hrec, List.getElem?_set_self hi, litToVal_known hknown hext]
              cases l with
              | string s =>
                simp only [litToVal, literalToValue, StringPool.intern_again (.refl _)]
              | null | int _ => rfl
          · rw [if_neg fun heq => hidx (Option.some.inj heq)] at hl'
            cases hl'

/-- An assignment to one row. -/
theorem setRow_stores {rid : RowId} {s : RowsState} (hok : (setRow sets rid row s).1 = none) :
    ∃ row', (setRow sets rid row s).2.table.getRow rid = some row' ∧
      Stores s.table sets (setRow sets rid row s).2.pool row row' := by
  unfold setRow at hok ⊢
  cases hset : setCells s.table (fun _ => "unknown column".toList) sets row s.pool with
  | mk r pool =>
    rw [hset] at hok
    cases r with
    | error e => cases hok
    | ok nr =>
      dsimp only at hok ⊢
      rcases hupd : s.table.updateRow pool rid nr with ⟨e | _, t'⟩
      · rw [hupd] at hok
        cases hok
      · obtain ⟨old, -, -, -, rfl⟩ := Table.updateRow_ok hupd
        exact ⟨nr, Finmap.lookup_insert _, setCells_stores hset⟩

end Assign

theorem assigned_cols {T : Table} (h : T.cols = t.cols) : assigned T sets = assigned t sets := by
  have hindex : T.columnIndex = t.columnIndex := by
    funext name
    simp only [Table.columnIndex, h]
  funext i
  unfold assigned
  rw [hindex]

section Loop
variable {regex : Regex} {c : Cond} {sets : List (Text × Literal)} {ids : List RowId}
  {t T : Table} {pool P q : StringPool} {err : Text}

theorem stores_cols {row row' : Row} (h : T.cols = t.cols) (hst : Stores T sets pool row row') :
    Stores t sets pool row row' := by
  obtain ⟨hwidth, hkept, hset⟩ := hst
  rw [assigned_cols h] at hkept hset
  exact ⟨hwidth, hkept, hset⟩

theorem updateLoop (hrows : RowsInterned t pool)
    (hknown : ∀ s ∈ c.strings, (P.index.lookup s).isSome) (hnodup : ids.Nodup)
    (h : Midway t T pool P q c ids) (hgo : c.lone = true ∨ err = [])
    (hclean : ∀ rid ∈ ids, errs regex t pool P c rid = false)
    (hok : (untilError (updateOne regex c.clause sets) ids ⟨T, q, err⟩).1 = none) :
    let s := (untilError (updateOne regex c.clause sets) ids ⟨T, q, err⟩).2
    q.Extends s.pool ∧
      (∀ rid, ¬(rid ∈ ids ∧ picks regex t pool P c rid = true) →
        s.table.getRow rid = T.getRow rid) ∧
      ∀ rid ∈ ids, picks regex t pool P c rid = true → ∃ row row', t.getRow rid = some row ∧
        s.table.getRow rid = some row' ∧ Stores t sets s.pool row row' := by
  -- A row that is passed over keeps its cells; one that is changed is not met again.
  induction ids generalizing T q err with
  | nil => exact ⟨.refl q, fun _ _ => rfl, nofun⟩
  | cons rid ids ih =>
    obtain ⟨hnot, hnodup⟩ := List.nodup_cons.mp hnodup
    obtain ⟨hhead, hclean⟩ := List.forall_mem_cons.mp hclean
    rcases update_step regex sets hrows hknown h hgo with
      ⟨q', err₁, hone, hpick, hq, hall, hend⟩ | ⟨row, err₁, hrow, hpick, hgo', hone⟩
    · rw [untilError_cons_none (by rw [hone]), hone] at hok ⊢
      obtain ⟨hext, hother, hsel⟩ := ih hnodup (h.skip hq hall)
        (hend.imp_right fun hiff => hiff.mpr hhead) hclean hok
      refine ⟨hq.trans hext,
        fun x hx => hother x fun hin => hx ⟨List.mem_cons_of_mem _ hin.1, hin.2⟩, fun x hx hpickx => ?_⟩
      rcases List.mem_cons.mp hx with rfl | hx
      · rw [hpick] at hpickx
        cases hpickx
      · exact hsel x hx hpickx
    · cases hset : (setRow sets rid row ⟨T, q.internAll c.strings, err₁⟩).1 with
      | some e =>
        rw [untilError_cons_some (by rw [hone, hset]), hone, hset] at hok
        cases hok
      | none =>
        obtain ⟨hcols₁, hext₁, hother₁⟩ := setRow_frame hset
        obtain ⟨row', hrow', hstores⟩ := setRow_stores hset
        obtain ⟨-, hnext⟩ := h.take hnot hknown hset
        rw [untilError_cons_none (by rw [hone, hset]), hone] at hok ⊢
        have hgo₁ : c.lone = true ∨
            (setRow sets rid row ⟨T, q.internAll c.strings, err₁⟩).2.err = [] := by
          rw [setRow_err err₁ []]
          exact hgo'
        obtain ⟨hext, hother, hsel⟩ := ih hnodup hnext hgo₁ hclean hok
        refine ⟨((q.internAll_extends _).trans hext₁).trans hext, fun x hx => ?_, fun x hx hpickx => ?_⟩
        · have hne : x ≠ rid := fun heq => hx ⟨heq ▸ List.mem_cons_self .., heq ▸ hpick⟩
          rw [hother x fun hin => hx ⟨List.mem_cons_of_mem _ hin.1, hin.2⟩]
          exact hother₁ x hne
        · rcases List.mem_cons.mp hx with rfl | hx
          · refine ⟨row, row', hrow, ?_, stores_cols h.cols (hstores.extends hext)⟩
            rw [hother x fun hin => hnot hin.1]
            exact hrow'
          · exact hsel x hx hpickx

end Loop

end Dbms.Exec
