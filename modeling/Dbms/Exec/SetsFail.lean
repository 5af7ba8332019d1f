import Dbms.Core.Relation
import Dbms.Exec.Assigned
import Dbms.Exec.Grown

/-! When the assignments of an UPDATE fail. -/

open Dbms.Core Dbms.Lib Dbms.Sql

namespace Dbms.Exec

section
variable (t : Table) (P : StringPool) (sets : List (Text × Literal))

def Unfit : Prop :=
  (∃ set ∈ sets, t.columnIndex set.1 = none) ∨
    ∃ i c l, t.cols[i]? = some c ∧ assigned t sets i = some l ∧ ¬c.Takes (litToVal l P).1

def SetsKey : Prop :=
  ∃ i c l, t.cols[i]? = some c ∧ c.indexed = true ∧ assigned t sets i = some l

def HoldsKey (rid : RowId) : Prop :=
  ∃ i c l v, t.cols[i]? = some c ∧ c.indexed = true ∧ assigned t sets i = some l ∧
    Table.CellAt t.rows i v rid ∧ valueCmp P v (litToVal l P).1 = 0

/-- The assignments cannot be made to all of the rows: no row takes them, or two rows are to get one
key, or another row has it. -/
def SetsFail (rids : List RowId) : Prop :=
  rids ≠ [] ∧ (Unfit t P sets ∨ (SetsKey t sets ∧ 1 < rids.length) ∨
    ∃ rid, rid ∉ rids ∧ HoldsKey t P sets rid)

/-- If the assignments cannot be made to all of the rows, they cannot be made to the first. -/
def SetsAtOnce (rids : List RowId) : Prop :=
  rids.length ≤ 1 ∨ Unfit t P sets ∨ ¬SetsKey t sets ∨
    ∃ rid, rids.head? ≠ some rid ∧ HoldsKey t P sets rid

end

section Row
variable {t : Table} {P p pool : StringPool} {sets : List (Text × Literal)} {row row' : Row}
  {rid x : RowId} {unknown : Text → Text}

theorem setCells_fails :
    (∃ e, (setCells t unknown sets row pool).1 = .error e) ↔
      ∃ set ∈ sets, t.columnIndex set.1 = none := by
  induction sets generalizing row pool with
  | nil => simp [setCells]
  | cons set sets ih =>
    obtain ⟨c, l⟩ := set
    cases hcol : t.columnIndex c with
    | none => simp [setCells, hcol]
    | some idx => simp [setCells, hcol, ih]

theorem setCells_pool (h : setCells t unknown sets row pool = (.ok row', p)) :
    p = pool.internAll (setStrings sets) := by
  induction sets generalizing row pool with
  | nil =>
    cases h
    rfl
  | cons set sets ih =>
    obtain ⟨c, l⟩ := set
    unfold setCells at h
    cases hcol : t.columnIndex c with
    | none =>
      rw [hcol] at h
      cases h
    | some idx =>
      rw [hcol] at h
      have hrest : p = (litToVal l pool).2.internAll (setStrings sets) := ih h
      rwa [litToVal, literalToValue_pool, ← StringPool.internAll_append] at hrest

theorem assigned_lt {i : Nat} {l : Literal} (h : assigned t sets i = some l) : i < t.cols.length := by
  obtain ⟨set, -, hset⟩ := List.exists_of_findSome?_eq_some h
  by_cases hcol : t.columnIndex set.1 = some i
  · exact (List.findIdx?_eq_some_iff_findIdx_eq.mp hcol).1
  · rw [if_neg hcol] at hset
    cases hset

theorem Stores.fits_iff (h : Stores t sets P row row') (hfits : Table.Fits t.cols row) :
    Table.Fits t.cols row' ↔
      ∀ i c l, t.cols[i]? = some c → assigned t sets i = some l → c.Takes (litToVal l P).1 := by
  obtain ⟨hwidth, htakes⟩ := hfits
  constructor
  · intro hfits' i c l hc hl
    exact hfits'.2 i c _ hc (h.set i l hl (hwidth ▸ assigned_lt hl)).2
  · intro hall
    refine ⟨h.width.trans hwidth, fun i c v hc hv => ?_⟩
    cases hl : assigned t sets i with
    | none => exact htakes i c v hc ((h.kept i hl).symm.trans hv)
    | some l =>
      obtain rfl := Option.some.inj ((h.set i l hl (hwidth ▸ assigned_lt hl)).2.symm.trans hv)
      exact hall i c l hc hl

theorem Stores.clashes_iff (h : Stores t sets P row row') (hagrees : Table.Agrees P t)
    (hrow : t.getRow rid = some row) (hx : x ≠ rid) :
    Table.Clashes P t row' x ↔ HoldsKey t P sets x := by
  have hwidth : row.cells.length = t.cols.length :=
    (Table.validateRow_eq_none.mp (hagrees.valid rid row hrow)).1
  constructor
  · rintro ⟨i, c, k, v, hc, hindexed, hk, hv, heq⟩
    cases hl : assigned t sets i with
    | none =>
      obtain ⟨ix, hix⟩ := Option.isSome_iff_exists.mp ((hagrees.indexed i c hc).mpr hindexed)
      have hold : Table.CellAt t.rows i k rid := ⟨row, hrow, (h.kept i hl).symm.trans hk⟩
      exact absurd (hagrees.rid_unique hix hv hold heq) hx
    | some l =>
      obtain rfl := Option.some.inj ((h.set i l hl (hwidth ▸ assigned_lt hl)).2.symm.trans hk)
      exact ⟨i, c, l, v, hc, hindexed, hl, hv, heq⟩
  · rintro ⟨i, c, l, v, hc, hindexed, hl, hv, heq⟩
    exact ⟨i, c, _, v, hc, hindexed, (h.set i l hl (hwidth ▸ assigned_lt hl)).2, hv, heq⟩

end Row

section Step
variable {T : Table} {P q : StringPool} {sets : List (Text × Literal)} {row : Row} {rid : RowId}
  {rids : List RowId} {err e : Text}

theorem setRow_table (h : (setRow sets rid row ⟨T, q, err⟩).1 = some e) :
    (setRow sets rid row ⟨T, q, err⟩).2.table = T := by
  unfold setRow at h ⊢
  cases hset : setCells T (fun _ => "unknown column".toList) sets row q with
  | mk r pool =>
    rw [hset] at h
    cases r with
    | error err => rfl
    | ok nr =>
      dsimp only at h ⊢
      rcases hupd : T.updateRow pool rid nr with ⟨err | _, t'⟩
      · exact Table.updateRow_error hupd
      · rw [hupd] at h
        cases h

theorem setRow_fails (hagrees : Table.Agrees P T) (hq : q.internAll (setStrings sets) = P)
    (hrow : T.getRow rid = some row) :
    (setRow sets rid row ⟨T, q, err⟩).1 ≠ none ↔
      Unfit T P sets ∨ ∃ x, x ≠ rid ∧ HoldsKey T P sets x := by
  have herror := @setCells_fails T q sets row (fun _ => "unknown column".toList)
  unfold setRow
  cases hset : setCells T (fun _ => "unknown column".toList) sets row q with
  | mk r pool =>
    rw [hset] at herror
    cases r with
    | error e => exact iff_of_true (by simp) (.inl (.inl (herror.mp ⟨e, rfl⟩)))
    | ok nr =>
      have hknown : ¬∃ set ∈ sets, T.columnIndex set.1 = none := fun hno => by
        obtain ⟨e, he⟩ := herror.mpr hno
        cases he
      obtain rfl : pool = P := (setCells_pool hset).trans hq
      have hstores := setCells_stores hset
      have hfits := hstores.fits_iff (Table.validateRow_eq_none.mp (hagrees.valid rid row hrow))
      have hstep : (∃ t', T.updateRow pool rid nr = (.ok (), t')) ↔
          ¬(Unfit T pool sets ∨ ∃ x, x ≠ rid ∧ HoldsKey T pool sets x) := by
        rw [hagrees.updateRow_iff, hfits, and_iff_right (Finmap.mem_of_lookup_eq_some hrow), not_or]
        refine and_congr ?_ ?_
        · simp only [Unfit, hknown, false_or, not_exists, not_and, not_not]
        · rw [not_exists]
          refine forall_congr' fun x => ?_
          by_cases hx : x = rid
          · exact iff_of_true (fun _ => hx) fun h => h.1 hx
          · rw [hstores.clashes_iff hagrees hrow hx, imp_iff_not hx, not_and, forall_prop_of_true hx]
      dsimp only
      rcases hupd : T.updateRow pool rid nr with ⟨e | _, t'⟩
      · refine iff_of_true (by simp) (not_not.mp fun h => ?_)
        obtain ⟨t'', ht''⟩ := hstep.mpr h
        cases hupd.symm.trans ht''
      · exact iff_of_false (by simp) (hstep.mp ⟨t', hupd⟩)

theorem setRow_agrees (hagrees : Table.Agrees P T) (hq : q.internAll (setStrings sets) = P)
    (hrow : T.getRow rid = some row) (hok : (setRow sets rid row ⟨T, q, err⟩).1 = none) :
    (setRow sets rid row ⟨T, q, err⟩).2.pool = P ∧
      Table.Agrees P (setRow sets rid row ⟨T, q, err⟩).2.table ∧
      (SetsKey T sets → HoldsKey (setRow sets rid row ⟨T, q, err⟩).2.table P sets rid) := by
  unfold setRow at hok ⊢
  cases hset : setCells T (fun _ => "unknown column".toList) sets row q with
  | mk r pool =>
    rw [hset] at hok
    cases r with
    | error e => cases hok
    | ok nr =>
      obtain rfl : pool = P := (setCells_pool hset).trans hq
      have hstores := setCells_stores hset
      dsimp only at hok ⊢
      rcases hupd : T.updateRow pool rid nr with ⟨e | _, t'⟩
      · rw [hupd] at hok
        cases hok
      · have hext : q.Extends pool := hq ▸ q.internAll_extends _
        have hold : ∀ v ∈ row.cells, v.Interned pool := hagrees.interned rid row hrow
        have hnr : ∀ v ∈ nr.cells, v.Interned pool := by
          intro v hv
          obtain ⟨i, hi⟩ := List.mem_iff_getElem?.mp hv
          have hlt : i < row.cells.length := by
            rw [← hstores.width]
            exact (List.getElem?_eq_some_iff.mp hi).1
          cases hl : assigned T sets i with
          | none => exact hold v (List.mem_of_getElem? ((hstores.kept i hl).symm.trans hi))
          | some l =>
            obtain ⟨hknown, hget⟩ := hstores.set i l hl hlt
            obtain rfl := Option.some.inj (hget.symm.trans hi)
            have hlit := literalToValue_interned l pool
            rwa [literalToValue_pool, StringPool.internAll_known hknown] at hlit
        have hagrees' := hagrees.updateRow hnr hupd
        refine ⟨rfl, hagrees', ?_⟩
        rintro ⟨i, c, l, hc, hindexed, hl⟩
        obtain ⟨old, hlookup, -, -, rfl⟩ := Table.updateRow_ok hupd
        have hi : i < row.cells.length := by
          rw [(Table.validateRow_eq_none.mp (hagrees.valid rid row hrow)).1]
          exact assigned_lt hl
        exact ⟨i, c, l, _, hc, hindexed, hl, ⟨nr, Finmap.lookup_insert _, (hstores.set i l hl hi).2⟩,
          (valueCmp_totalPreorder pool).refl _⟩

end Step

section Loop
variable {regex : Regex} {t T : Table} {P q : StringPool} {sets : List (Text × Literal)}
  {rid : RowId} {rids : List RowId} {err : Text}

theorem strings_known (hq : q.internAll (setStrings sets) = P) :
    P.internAll (setStrings sets) = P :=
  hq ▸ StringPool.internAll_again (List.prefix_refl _)

theorem unfit_cols (h : T.cols = t.cols) : Unfit T P sets ↔ Unfit t P sets := by
  simp only [Unfit, Table.columnIndex, h, assigned_cols h]

theorem setsKey_cols (h : T.cols = t.cols) : SetsKey T sets ↔ SetsKey t sets := by
  simp only [SetsKey, h, assigned_cols h]

theorem updateOne_plain {row : Row} (hrow : T.getRow rid = some row) :
    updateOne regex {} sets rid ⟨T, q, err⟩ = setRow sets rid row ⟨T, q, err⟩ :=
  updateOne_take hrow rfl

/-- Assignments that concern no key, to rows that take them, can be made to all of the rows. -/
theorem setsLoop_keyless (hfit : ¬Unfit T P sets) (hkey : ¬SetsKey T sets)
    (hagrees : Table.Agrees P T) (hnodup : rids.Nodup) (hstored : ∀ rid ∈ rids, rid ∈ T.rows)
    (hq : q.internAll (setStrings sets) = P) :
    (untilError (updateOne regex {} sets) rids ⟨T, q, err⟩).1 = none := by
  induction rids generalizing T q err with
  | nil => rfl
  | cons rid rids ih =>
    obtain ⟨hnot, hnodup⟩ := List.nodup_cons.mp hnodup
    obtain ⟨hrid, hstored⟩ := List.forall_mem_cons.mp hstored
    obtain ⟨row, hrow⟩ := Finmap.mem_iff.mp hrid
    have hset : (setRow sets rid row ⟨T, q, err⟩).1 = none := by
      by_contra hfail
      rcases (setRow_fails hagrees hq hrow).mp hfail with hunfit | ⟨x, -, i, c, l, v, hc, hindexed, hl, -⟩
      · exact hfit hunfit
      · exact hkey ⟨i, c, l, hc, hindexed, hl⟩
    obtain ⟨hpool, hagrees', -⟩ := setRow_agrees hagrees hq hrow hset
    obtain ⟨hcols, -, hother⟩ := setRow_frame hset
    have hone : updateOne regex {} sets rid ⟨T, q, err⟩ = setRow sets rid row ⟨T, q, err⟩ :=
      updateOne_plain hrow
    rw [untilError_cons_none (by rw [hone, hset]), hone]
    refine ih (mt (unfit_cols hcols).mp hfit) (mt (setsKey_cols hcols).mp hkey) hagrees' hnodup ?_ ?_
    · intro x hx
      obtain ⟨row', hrow'⟩ := Finmap.mem_iff.mp (hstored x hx)
      exact Finmap.mem_of_lookup_eq_some ((hother x fun heq => hnot (heq ▸ hx)).trans hrow')
    · rw [hpool, strings_known hq]

/-- The loop of UPDATE over selected rows fails exactly so. -/
theorem setsLoop_fails (hagrees : Table.Agrees P T) (hnodup : rids.Nodup)
    (hstored : ∀ rid ∈ rids, rid ∈ T.rows) (hq : q.internAll (setStrings sets) = P) :
    (untilError (updateOne regex {} sets) rids ⟨T, q, err⟩).1 ≠ none ↔ SetsFail T P sets rids := by
  cases rids with
  | nil => exact iff_of_false (by simp [untilError]) fun h => h.1 rfl
  | cons rid rids =>
    obtain ⟨hnot, hnodup⟩ := List.nodup_cons.mp hnodup
    obtain ⟨hrid, hstored⟩ := List.forall_mem_cons.mp hstored
    obtain ⟨row, hrow⟩ := Finmap.mem_iff.mp hrid
    -- The first row decides: if it takes the assignments and they give it a key, the second one
    -- clashes with it; if they give it none, the other rows take them too.
    have hone : updateOne regex {} sets rid ⟨T, q, err⟩ = setRow sets rid row ⟨T, q, err⟩ :=
      updateOne_plain hrow
    have hstep := @setRow_fails T P q sets row rid err hagrees hq hrow
    have hnext : SetsFail T P sets (rid :: rids) ↔ Unfit T P sets ∨
        (SetsKey T sets ∧ rids ≠ []) ∨ ∃ x, x ∉ rid :: rids ∧ HoldsKey T P sets x := by
      unfold SetsFail
      rw [and_iff_right (List.cons_ne_nil _ _), List.length_cons, Nat.lt_add_left_iff_pos,
        List.length_pos_iff]
    rw [hnext]
    cases hset : (setRow sets rid row ⟨T, q, err⟩).1 with
    | some e =>
      rw [untilError_cons_some (by rw [hone, hset]), hone]
      refine iff_of_true (by rw [hset]; simp) ?_
      rcases hstep.mp (by rw [hset]; simp) with hunfit | ⟨x, hx, hkey⟩
      · exact .inl hunfit
      · by_cases hrids : rids = []
        · exact .inr (.inr ⟨x, by simp [hrids, hx], hkey⟩)
        · obtain ⟨i, c, l, v, hc, hindexed, hl, -⟩ := hkey
          exact .inr (.inl ⟨⟨i, c, l, hc, hindexed, hl⟩, hrids⟩)
    | none =>
      obtain ⟨hpool, hagrees', hheld⟩ := setRow_agrees hagrees hq hrow hset
      obtain ⟨hcols, -, hother⟩ := setRow_frame hset
      have hclean := mt hstep.mpr (not_not.mpr hset)
      rw [not_or] at hclean
      rw [untilError_cons_none (by rw [hone, hset]), hone, or_iff_right hclean.1]
      have hnone : ¬∃ x, x ∉ rid :: rids ∧ HoldsKey T P sets x := by
        rintro ⟨x, hx, hkey⟩
        exact hclean.2 ⟨x, fun heq => hx (heq ▸ List.mem_cons_self ..), hkey⟩
      rw [or_iff_left hnone]
      have hagain : (setRow sets rid row ⟨T, q, err⟩).2.pool.internAll (setStrings sets) = P := by
        rw [hpool, strings_known hq]
      have hstored' : ∀ x ∈ rids, x ∈ (setRow sets rid row ⟨T, q, err⟩).2.table.rows := by
        intro x hx
        obtain ⟨row', hrow'⟩ := Finmap.mem_iff.mp (hstored x hx)
        exact Finmap.mem_of_lookup_eq_some ((hother x fun heq => hnot (heq ▸ hx)).trans hrow')
      by_cases hkey : SetsKey T sets
      · rw [and_iff_right hkey]
        cases rids with
        | nil => simp [untilError]
        | cons x rids =>
          -- the first row holds the key that the second is to get
          obtain ⟨hx, -⟩ := List.forall_mem_cons.mp hstored'
          obtain ⟨row', hrow'⟩ := Finmap.mem_iff.mp hx
          have hfail := @setRow_fails _ P _ sets row' x
            (setRow sets rid row ⟨T, q, err⟩).2.err hagrees' hagain hrow'
          have hone' : updateOne regex {} sets x (setRow sets rid row ⟨T, q, err⟩).2 =
            setRow sets x row' (setRow sets rid row ⟨T, q, err⟩).2 := updateOne_plain hrow'
          have hne : rid ≠ x := fun heq => hnot (heq ▸ List.mem_cons_self ..)
          obtain ⟨e, he⟩ := Option.ne_none_iff_exists'.mp (hfail.mpr (.inr ⟨rid, hne, hheld hkey⟩))
          refine iff_of_true ?_ (List.cons_ne_nil _ _)
          rw [untilError_cons_some (by rw [hone', he]), hone', he]
          simp
      · refine iff_of_false (not_not.mpr ?_) fun h => hkey h.1
        exact setsLoop_keyless (mt (unfit_cols hcols).mp hclean.1)
          (mt (setsKey_cols hcols).mp hkey) hagrees' hnodup hstored' hagain

theorem setsLoop_atOnce (hagrees : Table.Agrees P T) (hnodup : rids.Nodup)
    (hstored : ∀ rid ∈ rids, rid ∈ T.rows) (hq : q.internAll (setStrings sets) = P)
    (hat : SetsAtOnce T P sets rids)
    (hfail : (untilError (updateOne regex {} sets) rids ⟨T, q, err⟩).1 ≠ none) :
    (untilError (updateOne regex {} sets) rids ⟨T, q, err⟩).2.table = T := by
  have hsets := (setsLoop_fails hagrees hnodup hstored hq).mp hfail
  cases rids with
  | nil => rfl
  | cons rid rids =>
    obtain ⟨row, hrow⟩ := Finmap.mem_iff.mp (hstored rid (List.mem_cons_self ..))
    have hone : updateOne regex {} sets rid ⟨T, q, err⟩ = setRow sets rid row ⟨T, q, err⟩ :=
      updateOne_plain hrow
    cases hset : (setRow sets rid row ⟨T, q, err⟩).1 with
    | some e =>
      rw [untilError_cons_some (by rw [hone, hset]), hone]
      exact setRow_table hset
    | none =>
      have hclean := mt (setRow_fails hagrees hq hrow).mpr (not_not.mpr hset)
      rw [not_or] at hclean
      exfalso
      have hother : ¬∃ x, x ≠ rid ∧ HoldsKey T P sets x := hclean.2
      have hmany : SetsKey T sets ∧ 1 < (rid :: rids).length := by
        rcases hsets.2 with hunfit | hmany | ⟨x, hx, hkey⟩
        · exact absurd hunfit hclean.1
        · exact hmany
        · exact absurd ⟨x, fun heq => hx (heq ▸ List.mem_cons_self ..), hkey⟩ hother
      rcases hat with hlen | hunfit | hkey | ⟨x, hx, hkey⟩
      · exact absurd hmany.2 (Nat.not_lt.mpr hlen)
      · exact hclean.1 hunfit
      · exact hkey hmany.1
      · exact hother ⟨x, fun heq => hx (heq ▸ rfl), hkey⟩

end Loop
end Dbms.Exec
