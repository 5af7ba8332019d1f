import Dbms.Exec.SetsFail

/-! When an INSERT refuses a tuple. -/

open Dbms.Core Dbms.Lib Dbms.Sql

namespace Dbms.Exec

def tupleStrings (tups : List (List Literal)) : List Text :=
  tups.flatMap fun tup => tup.flatMap Literal.strings

section
variable (t : Table) (P : StringPool) (cols : List Text)

/-- The row that a tuple describes: what it gives a column, or else the column's default. -/
def tupleRow (tup : List Literal) : Row :=
  applyDefaults t ⟨(List.range t.cols.length).map fun i =>
    (assigned t (cols.zip tup) i).elim .null fun l => (litToVal l P).1⟩

def Level (row row' : Row) : Prop :=
  ∃ (i : Nat) (c : ColumnDef) (k x : Value), t.cols[i]? = some c ∧ c.indexed = true ∧
    row.cells[i]? = some k ∧ row'.cells[i]? = some x ∧ valueCmp P x k = 0

/-- A tuple that is refused behind `pre`: it does not go with the columns, its row does not fit, or
the row is level with a stored one or with an earlier one. -/
def Refused (pre : List (List Literal)) (tup : List Literal) : Prop :=
  tup.length ≠ cols.length ∨ (∃ c ∈ cols, t.columnIndex c = none) ∨
    ¬Table.Fits t.cols (tupleRow t P cols tup) ∨
    (∃ x, Table.Clashes P t (tupleRow t P cols tup) x) ∨
    ∃ tup' ∈ pre, Level t P (tupleRow t P cols tup) (tupleRow t P cols tup')

/-- If a tuple is refused, the first one is. -/
def TuplesAtOnce (tups : List (List Literal)) : Prop :=
  (∀ pre tup post, tups = pre ++ tup :: post → ¬Refused t P cols pre tup) ∨
    ∃ tup post, tups = tup :: post ∧ Refused t P cols [] tup

end

section Row
variable {t T : Table} {P p pool : StringPool} {cols : List Text} {tup : List Literal} {row : Row}

theorem setStrings_zip (h : tup.length = cols.length) :
    setStrings (cols.zip tup) = tup.flatMap Literal.strings := by
  have hsnd := List.map_snd_zip (Nat.le_of_eq h)
  unfold setStrings
  conv_rhs => rw [← hsnd, List.flatMap_map]

theorem columns_zip (h : tup.length = cols.length) :
    (∃ set ∈ cols.zip tup, t.columnIndex set.1 = none) ↔ ∃ c ∈ cols, t.columnIndex c = none := by
  have hfst := List.map_fst_zip (Nat.le_of_eq h.symm)
  conv_rhs => rw [← hfst]
  simp

theorem tupleRow_cols (h : T.cols = t.cols) : tupleRow T P cols tup = tupleRow t P cols tup := by
  simp only [tupleRow, applyDefaults, h, assigned_cols h]

theorem tupleRow_extends
    (hknown : ∀ s ∈ tup.flatMap Literal.strings, (p.index.lookup s).isSome) (hp : p.Extends P) :
    tupleRow t P cols tup = tupleRow t p cols tup := by
  have hcell : ∀ i, (assigned t (cols.zip tup) i).elim Value.null (fun l => (litToVal l P).1) =
      (assigned t (cols.zip tup) i).elim Value.null fun l => (litToVal l p).1 := by
    intro i
    cases hl : assigned t (cols.zip tup) i with
    | none => rfl
    | some l =>
      obtain ⟨set, hset, heq⟩ := List.exists_of_findSome?_eq_some hl
      have hmem : l ∈ tup := by
        by_cases hcol : t.columnIndex set.1 = some i
        · rw [if_pos hcol] at heq
          exact Option.some.inj heq ▸ (List.of_mem_zip (List.mem_reverse.mp hset)).2
        · rw [if_neg hcol] at heq
          cases heq
      exact litToVal_known (fun s hs => hknown s (List.mem_flatMap.mpr ⟨l, hmem, hs⟩)) hp
  simp only [tupleRow, hcell]

theorem buildRow_iff : buildRow t cols tup pool = (.ok row, p) ↔
    tup.length = cols.length ∧ (¬∃ c ∈ cols, t.columnIndex c = none) ∧
      p = pool.internAll (tup.flatMap Literal.strings) ∧ row = tupleRow t p cols tup := by
  unfold buildRow
  by_cases hlen : tup.length = cols.length
  · rw [if_neg (not_not.mpr hlen), and_iff_right hlen, ← columns_zip hlen, ← setStrings_zip hlen]
    have hfails := @setCells_fails t pool (cols.zip tup) ⟨List.replicate t.cols.length .null⟩
      ("unknown column ".toList ++ ·)
    cases hset : setCells t ("unknown column ".toList ++ ·) (cols.zip tup)
        ⟨List.replicate t.cols.length .null⟩ pool with
    | mk r p₁ =>
      rw [hset] at hfails
      cases r with
      | error e => exact iff_of_false (by simp) fun h => h.1 (hfails.mp ⟨e, rfl⟩)
      | ok row₁ =>
        have hpool := setCells_pool hset
        -- Each column has the last value that the tuple gives it, or is still NULL.
        have hrow : row₁ = ⟨(List.range t.cols.length).map fun i =>
            (assigned t (cols.zip tup) i).elim .null fun l => (litToVal l p₁).1⟩ := by
          obtain ⟨hwidth, hkept, hgets⟩ := setCells_stores hset
          rw [List.length_replicate] at hwidth hgets
          refine congrArg Row.mk (List.ext_getElem? fun i => ?_)
          by_cases hi : i < t.cols.length
          · rw [List.getElem?_map, List.getElem?_range hi]
            cases hl : assigned t (cols.zip tup) i with
            | none =>
              rw [Option.map_some, hl]
              simp [hkept i hl, hi]
            | some l =>
              rw [Option.map_some, hl]
              exact (hgets i l hl hi).2
          · rw [List.getElem?_eq_none (by omega), List.getElem?_eq_none (by simp; omega)]
        have hknown : ¬∃ set ∈ cols.zip tup, t.columnIndex set.1 = none := fun hno => by
          obtain ⟨e, he⟩ := hfails.mpr hno
          cases he
        rw [and_iff_right hknown]
        constructor
        · intro h
          cases h
          exact ⟨hpool, by rw [hrow]; rfl⟩
        · rintro ⟨rfl, rfl⟩
          rw [hpool] at hrow ⊢
          rw [hrow]
          rfl
  · rw [if_pos hlen]
    exact iff_of_false (by simp) fun h => hlen h.1

end Row

section Turn
variable {cs : List ColumnDef} {k : Nat} {P p pool : StringPool} {cols : List Text}
  {tup : List Literal} {row : Row} {s : RowsState} {x : RowId}

theorem clashes_extends {t : Table} (hp : p.Extends P) (hagrees : Table.Agrees p t)
    (hrow : ∀ v ∈ row.cells, v.Interned p) : Table.Clashes P t row x ↔ Table.Clashes p t row x := by
  have hlevel : ∀ {i k v}, row.cells[i]? = some k → Table.CellAt t.rows i v x →
      (valueCmp P v k = 0 ↔ valueCmp p v k = 0) := by
    rintro i k v hk ⟨old, hold, hv⟩
    rw [valueCmp_extends hp (hagrees.interned x old hold v (List.mem_of_getElem? hv))
      (hrow k (List.mem_of_getElem? hk))]
  constructor
  · rintro ⟨i, c, k, v, hc, hindexed, hk, hv, heq⟩
    exact ⟨i, c, k, v, hc, hindexed, hk, hv, (hlevel hk hv).mp heq⟩
  · rintro ⟨i, c, k, v, hc, hindexed, hk, hv, heq⟩
    exact ⟨i, c, k, v, hc, hindexed, hk, hv, (hlevel hk hv).mpr heq⟩

theorem Turned.inv (h : Turned cs k s) (hk : k + 1 < 2 ^ 64) : Table.Agrees s.pool s.table ∧
    s.table.nextRid ≠ 0 ∧ s.table.nextRid ∉ s.table.rows := by
  obtain ⟨n, hn, hreach⟩ := h.reach
  obtain ⟨hagrees, m, hm, hfresh⟩ := hreach.inv (by omega)
  refine ⟨hagrees, ?_, Finmap.lookup_eq_none.mp (hfresh.lookup_nextRid (by omega))⟩
  have hwrap : (m + 1) % 2 ^ 64 ≠ 0 := by omega
  rwa [hfresh.nextRid]

theorem insertTuple_ok_iff (h : Turned cs k s) (hk : k + 1 < 2 ^ 64) :
    (insertTuple cols tup s).1 = none ↔ ∃ row p, buildRow s.table cols tup s.pool = (.ok row, p) ∧
      Table.Fits s.table.cols row ∧ (∀ x, ¬Table.Clashes p s.table row x) ∧
      (insertTuple cols tup s).2.pool = p ∧
      (insertTuple cols tup s).2.table.rows = s.table.rows.insert s.table.nextRid row := by
  obtain ⟨hagrees, hne, -⟩ := h.inv hk
  have hgrows := buildRow_grows tup (fun _ h => h) s.table cols s.pool
  unfold insertTuple
  cases hbuild : buildRow s.table cols tup s.pool with
  | mk r p =>
    rw [hbuild] at hgrows
    cases r with
    | error e => simp
    | ok row =>
      have hiff := (hagrees.extends hgrows.extends).insertRow_iff row
      dsimp only
      rcases hins : s.table.insertRow p row with ⟨e | rid, t'⟩
      · refine iff_of_false (by simp) ?_
        rintro ⟨_, _, heq, hfits, hnew, -⟩
        cases heq
        obtain ⟨_, _, hok⟩ := hiff.mpr ⟨hfits, hnew⟩
        cases hins.symm.trans hok
      · obtain ⟨-, -, rfl, rfl⟩ := Table.insertRow_ok hins
        obtain ⟨hfits, hnew⟩ := hiff.mp ⟨_, _, hins⟩
        exact iff_of_true (if_neg hne) ⟨row, p, rfl, hfits, hnew, rfl, rfl⟩

theorem insertTuple_failed (h : Turned cs k s) (hk : k + 1 < 2 ^ 64)
    (hfail : (insertTuple cols tup s).1 ≠ none) : (insertTuple cols tup s).2.table = s.table := by
  obtain ⟨-, hne, -⟩ := h.inv hk
  unfold insertTuple at hfail ⊢
  cases hbuild : buildRow s.table cols tup s.pool with
  | mk r p =>
    rw [hbuild] at hfail
    cases r with
    | error e => rfl
    | ok row =>
      dsimp only at hfail ⊢
      rcases hins : s.table.insertRow p row with ⟨e | rid, t'⟩
      · exact Table.insertRow_error hins
      · rw [hins] at hfail
        obtain ⟨-, -, rfl, -⟩ := Table.insertRow_ok hins
        exact absurd (if_neg hne) hfail

end Turn

section Loop
variable {t : Table} {k : Nat} {P pool : StringPool} {cols : List Text} {tup : List Literal}
  {pre tups : List (List Literal)} {s : RowsState} {err : Text}

/-- Between two turns: the stored rows are those from before and those of the tuples `pre`, and the
pool knows all strings once those of `tups` are interned. -/
structure Inserting (t : Table) (P : StringPool) (cols : List Text) (pre tups : List (List Literal))
    (s : RowsState) : Prop where
  rows : ∀ x row, s.table.rows.lookup x = some row → t.rows.lookup x = some row ∨
    ∃ tup ∈ pre, row = tupleRow t P cols tup
  known : s.pool.internAll (tupleStrings tups) = P

theorem tupleStrings_cons (tup : List Literal) (tups : List (List Literal)) :
    tupleStrings (tup :: tups) = tup.flatMap Literal.strings ++ tupleStrings tups := rfl

theorem Inserting.turn (h : Inserting t P cols pre (tup :: tups) s) (hturned : Turned t.cols k s)
    (hk : k + 1 < 2 ^ 64) (hno : ¬Refused t P cols pre tup) :
    (insertTuple cols tup s).1 = none ∧
      Inserting t P cols (pre ++ [tup]) tups (insertTuple cols tup s).2 := by
  simp only [Refused, not_or, not_not] at hno
  obtain ⟨hlen, hcols, hfits, hstored, hearlier⟩ := hno
  set p := s.pool.internAll (tup.flatMap Literal.strings) with hp
  have hext : s.pool.Extends p := s.pool.internAll_extends _
  have hknown : p.internAll (tupleStrings tups) = P := by
    rw [hp, ← StringPool.internAll_append, ← tupleStrings_cons, h.known]
  have hP : p.Extends P := hknown ▸ p.internAll_extends _
  have hrow : tupleRow s.table p cols tup = tupleRow t P cols tup := by
    rw [tupleRow_cols hturned.cols]
    exact (tupleRow_extends (fun s hs => StringPool.internAll_lookup hs) hP).symm
  have hcols' : ¬∃ c ∈ cols, s.table.columnIndex c = none := by
    simpa only [Table.columnIndex, hturned.cols] using hcols
  have hbuild : buildRow s.table cols tup s.pool = (.ok (tupleRow t P cols tup), p) :=
    buildRow_iff.mpr ⟨hlen, hcols', rfl, hrow.symm⟩
  have hinterned := buildRow_interned (hturned.cols.symm ▸ hturned.defaults) hbuild
  have hagrees := (hturned.inv hk).1.extends hext
  have hnew : ∀ x, ¬Table.Clashes p s.table (tupleRow t P cols tup) x := by
    rintro x ⟨i, c, key, v, hc, hindexed, hkey, ⟨row, hlookup, hv⟩, heq⟩
    rw [hturned.cols] at hc
    have hlevel : valueCmp P v key = 0 := by
      rw [valueCmp_extends hP (hagrees.interned x row hlookup v (List.mem_of_getElem? hv))
        (hinterned key (List.mem_of_getElem? hkey)), heq]
    -- A stored row is one from before or that of an earlier tuple, and with neither it clashes.
    rcases h.rows x row hlookup with hold | ⟨tup', htup', rfl⟩
    · exact hstored ⟨x, i, c, key, v, hc, hindexed, hkey, ⟨row, hold, hv⟩, hlevel⟩
    · exact hearlier ⟨tup', htup', i, c, key, v, hc, hindexed, hkey, hv, hlevel⟩
  obtain ⟨t', hok, hrows⟩ : ∃ t', insertTuple cols tup s = (none, ⟨t', p, s.err⟩) ∧
      t'.rows = s.table.rows.insert s.table.nextRid (tupleRow t P cols tup) := by
    obtain ⟨rid, t', hins⟩ := (hagrees.insertRow_iff _).mpr ⟨hturned.cols.symm ▸ hfits, hnew⟩
    obtain ⟨-, -, hrid, ht'⟩ := Table.insertRow_ok hins
    refine ⟨t', ?_, by rw [ht', hrid]; rfl⟩
    simp only [insertTuple, hbuild, hins]
    rw [if_neg (hrid ▸ (hturned.inv hk).2.1)]
  rw [hok]
  refine ⟨rfl, fun x row hlookup => ?_, hknown⟩
  dsimp only at hlookup
  rw [hrows] at hlookup
  rcases Table.eq_or_lookup_of_insert hlookup with rfl | hlookup
  · exact .inr ⟨tup, by simp, rfl⟩
  · rcases h.rows x row hlookup with hold | ⟨tup', htup', rfl⟩
    · exact .inl hold
    · exact .inr ⟨tup', List.mem_append_left _ htup', rfl⟩

/-- If none of them is refused, all tuples are inserted. -/
theorem Inserting.loop (h : Inserting t P cols pre tups s) (hturned : Turned t.cols k s)
    (hk : k + tups.length < 2 ^ 64)
    (hno : ∀ mid tup post, tups = mid ++ tup :: post → ¬Refused t P cols (pre ++ mid) tup) :
    (untilError (insertTuple cols) tups s).1 = none := by
  induction tups generalizing pre s k with
  | nil => rfl
  | cons tup tups ih =>
    rw [List.length_cons] at hk
    obtain ⟨hok, hnext⟩ := h.turn hturned (by omega)
      (by simpa using hno [] tup tups rfl)
    rw [untilError_cons_none hok]
    refine ih hnext (insertTuple_turned hturned) (by omega) fun mid tup' post heq => ?_
    have hlater := hno (tup :: mid) tup' post (by rw [heq]; rfl)
    rwa [List.append_assoc]

theorem refused_first (hturned : Turned t.cols k ⟨t, pool, err⟩) (hk : k + 1 < 2 ^ 64)
    (hP : pool.internAll (tupleStrings (tup :: tups)) = P) (hrefused : Refused t P cols [] tup) :
    (insertTuple cols tup ⟨t, pool, err⟩).1 ≠ none := by
  intro hok
  obtain ⟨row, p, hbuild, hfits, hnew, -, -⟩ := (insertTuple_ok_iff hturned hk).mp hok
  have hinterned := buildRow_interned hturned.defaults hbuild
  obtain ⟨hlen, hcols, rfl, rfl⟩ := buildRow_iff.mp hbuild
  have hp : (pool.internAll (tup.flatMap Literal.strings)).Extends P := by
    rw [← hP, tupleStrings_cons, StringPool.internAll_append]
    exact StringPool.internAll_extends _ _
  have hrow : tupleRow t P cols tup =
      tupleRow t (pool.internAll (tup.flatMap Literal.strings)) cols tup :=
    tupleRow_extends (fun s hs => StringPool.internAll_lookup hs) hp
  have hagrees := (hturned.inv hk).1.extends (pool.internAll_extends (tup.flatMap Literal.strings))
  unfold Refused at hrefused
  rw [hrow] at hrefused
  rcases hrefused with hne | hunknown | hunfit | ⟨x, hx⟩ | ⟨tup', htup', -⟩
  · exact hne hlen
  · exact hcols hunknown
  · exact hunfit hfits
  · exact hnew x ((clashes_extends hp hagrees hinterned).mp hx)
  · cases htup'

theorem tuplesLoop_atOnce (hturned : Turned t.cols k ⟨t, pool, err⟩)
    (hk : k + tups.length < 2 ^ 64) (hP : pool.internAll (tupleStrings tups) = P)
    (hat : TuplesAtOnce t P cols tups)
    (hfail : (untilError (insertTuple cols) tups ⟨t, pool, err⟩).1 ≠ none) :
    (untilError (insertTuple cols) tups ⟨t, pool, err⟩).2.table = t := by
  rcases hat with hno | ⟨tup, post, rfl, hrefused⟩
  · have hstart : Inserting t P cols [] tups ⟨t, pool, err⟩ := ⟨fun x row h => .inl h, hP⟩
    exact absurd (hstart.loop hturned hk fun mid tup post heq => hno mid tup post heq) hfail
  · rw [List.length_cons] at hk
    have hfirst := refused_first hturned (by omega) hP hrefused
    obtain ⟨e, he⟩ := Option.ne_none_iff_exists'.mp hfirst
    rw [untilError_cons_some he]
    exact insertTuple_failed hturned (by omega) hfirst

end Loop
end Dbms.Exec
