import Dbms.Exec.RowOrder

/-! The index shortcut of `candidate_rows` leaves out no row that a scan would select. -/

open Dbms.Core Dbms.Lib Dbms.Sql

namespace Dbms.Exec

section Key
variable {t : Table} {pool p : StringPool} {e : Expr} {i : Nat} {key : Value}

theorem indexEq_none (h : e.indexEq t pool = (none, p)) : p = pool := by
  induction e generalizing pool p with
  | leaf l =>
    cases l with
    | between col a b | like col pattern =>
      cases h
      rfl
    | cmp col op rhs =>
      cases rhs with
      | col name => cases op <;> cases h <;> rfl
      | lit l =>
        cases op with
        | eq =>
          simp only [Expr.indexEq] at h
          cases hcol : t.columnIndex col with
          | none =>
            rw [hcol] at h
            cases h
            rfl
          | some ci =>
            rw [hcol] at h
            dsimp only at h
            split at h
            · cases h
            · cases h
              rfl
        | _ =>
          cases h
          rfl
  | paren e ih => exact ih h
  | andOr kind left right ihl ihr =>
    cases kind with
    | or =>
      cases h
      rfl
    | and =>
      simp only [Expr.indexEq] at h
      cases hleft : left.indexEq t pool with
      | mk found pool' =>
        rw [hleft] at h
        cases found with
        | some found => cases h
        | none =>
          obtain rfl := ihl hleft
          exact ihr h

theorem indexEq_some (regex : Regex) (h : e.indexEq t pool = (some (i, key), p)) :
    ∃ l, litToVal l pool = (key, p) ∧ (∀ s ∈ l.strings, s ∈ e.strings) ∧
      ∀ cell lit, e.holds regex cell lit = some true → ∃ col, t.columnIndex col = some i ∧
        ∃ a, cell col = some a ∧ a.cmp (lit l) = 0 := by
  induction e generalizing pool with
  | leaf l =>
    cases l with
    | between col a b | like col pattern => cases h
    | cmp col op rhs =>
      cases rhs with
      | col name => cases op <;> cases h
      | lit l =>
        -- Of all comparisons only `=` with a literal asks an index.
        cases op with
        | eq =>
          simp only [Expr.indexEq] at h
          cases hcol : t.columnIndex col with
          | none =>
            rw [hcol] at h
            cases h
          | some ci =>
            rw [hcol] at h
            dsimp only at h
            split at h
            · cases h
              refine ⟨l, rfl, fun s hs => hs, ?_⟩
              intro cell lit hholds
              obtain ⟨a, ha, htest⟩ := Option.map_eq_some_iff.mp hholds
              exact ⟨col, hcol, a, ha, of_decide_eq_true htest⟩
            · cases h
        | _ => cases h
  | paren e ih => exact ih h
  | andOr kind left right ihl ihr =>
    -- Below an OR nothing is looked for; of an AND the left side comes first.
    cases kind with
    | or => cases h
    | and =>
      have hand : ∀ cell lit, (Expr.andOr .and left right).holds regex cell lit = some true →
          left.holds regex cell lit = some true ∧ right.holds regex cell lit = some true := by
        intro cell lit hholds
        obtain ⟨a, ha, hmap⟩ := Option.bind_eq_some_iff.mp hholds
        obtain ⟨b, hb, hab⟩ := Option.map_eq_some_iff.mp hmap
        obtain ⟨rfl, rfl⟩ := Bool.and_eq_true_iff.mp hab
        exact ⟨ha, hb⟩
      simp only [Expr.indexEq] at h
      cases hleft : left.indexEq t pool with
      | mk found pool' =>
        rw [hleft] at h
        cases found with
        | some found =>
          cases h
          obtain ⟨l, hl, hstrings, hcell⟩ := ihl hleft
          exact ⟨l, hl, fun s hs => List.mem_append_left _ (hstrings s hs),
            fun cell lit hholds => hcell cell lit (hand cell lit hholds).1⟩
        | none =>
          obtain rfl := indexEq_none hleft
          obtain ⟨l, hl, hstrings, hcell⟩ := ihr h
          exact ⟨l, hl, fun s hs => List.mem_append_right _ (hstrings s hs),
            fun cell lit hholds => hcell cell lit (hand cell lit hholds).2⟩

end Key

def Selected (regex : Regex) (w : WhereClause) (t : Table) (pool : StringPool) (rid : RowId) : Prop :=
  ∃ row, t.getRow rid = some row ∧ (evalWhere regex t row w pool []).result = true

def Errorless (regex : Regex) (w : WhereClause) (t : Table) (pool : StringPool) : Prop :=
  ∀ rid row, t.getRow rid = some row → (evalWhere regex t row w pool []).err = []

/-- The rows on which WHERE is true, each once. -/
structure ListsSelected (regex : Regex) (w : WhereClause) (t : Table) (pool : StringPool)
    (rids : List RowId) : Prop where
  nodup : rids.Nodup
  mem : ∀ rid, rid ∈ rids ↔ Selected regex w t pool rid

section Candidates
variable {regex : Regex} {t : Table} {pool p : StringPool} {c : Cond} {n : Nat} {rid : RowId}

/-- The look-up interns one string of the clause at most. -/
theorem indexedRows_pool (t : Table) (c : Cond) (pool : StringPool) :
    (indexedRows t c.clause pool).2 = pool ∨
      ∃ s ∈ c.strings, (indexedRows t c.clause pool).2 = (pool.intern s).2 := by
  cases c with
  | none => exact .inl rfl
  | some e =>
    have heq : (indexedRows t (Cond.clause (some e)) pool).2 = (e.indexEq t pool).2 := by
      have htree := @extractIndexEq_tree t e.clause _ _ _ pool e.clause_childrenBefore
        (e.tree_build []) (e.build_lt [])
      exact congrArg Prod.snd htree
    rw [heq]
    cases h : e.indexEq t pool with
    | mk found p =>
      cases found with
      | none => exact .inl (indexEq_none h)
      | some found =>
        obtain ⟨i, key⟩ := found
        obtain ⟨l, hl, hstrings, -⟩ := indexEq_some (fun _ _ => none) h
        cases l with
        | string s =>
          cases hl
          exact .inr ⟨s, hstrings s (List.mem_singleton_self s), rfl⟩
        | null | int _ =>
          cases hl
          exact .inl rfl

theorem indexedRows_size (hsize : pool.size + c.strings.length ≤ 2 ^ 32) (t : Table) :
    ((indexedRows t c.clause pool).2.internAll c.strings).size ≤ 2 ^ 32 := by
  rcases indexedRows_pool t c pool with h | ⟨s, hs, h⟩
  · rw [h]
    have hle := pool.internAll_size c.strings
    exact (hle.trans (Nat.add_le_add_left List.countP_le_length _)).trans hsize
  · rw [h]
    exact (StringPool.internAll_size_again hs).trans hsize

theorem internAll_size_le (hsize : pool.size + c.strings.length ≤ 2 ^ 32) :
    (pool.internAll c.strings).size ≤ 2 ^ 32 :=
  ((pool.internAll_size c.strings).trans
    (Nat.add_le_add_left List.countP_le_length _)).trans hsize

theorem candidateRows_size (hsize : pool.size + c.strings.length ≤ 2 ^ 32) (o : HashOrder RowId)
    (t : Table) : ((candidateRows o t c.clause pool).2.internAll c.strings).size ≤ 2 ^ 32 := by
  have hle := indexedRows_size hsize t
  by_cases h : (indexedRows t c.clause pool).1 = []
  · rwa [candidateRows_of_not_indexed o h]
  · rwa [candidateRows_of_indexed o h]

theorem reached_eq_self {pool' : StringPool} {ids : List RowId}
    (h : ∀ rid ∈ ids, errs regex t pool pool' c rid = false) :
    reached regex t pool pool' c ids = ids := by
  unfold reached
  split
  · rfl
  · rw [List.takeWhile_eq_self_iff]
    exact fun rid hrid => by simp [h rid hrid]

theorem verdict_eq (hrows : RowsInterned t pool) (hp : pool.Extends p)
    (hsize : (pool.internAll c.strings).size ≤ 2 ^ 32)
    (hsize' : (p.internAll c.strings).size ≤ 2 ^ 32) :
    verdict regex t p (p.internAll c.strings) c = verdict regex t pool (pool.internAll c.strings) c := by
  have hstored : ∀ {q : StringPool}, q.size ≤ 2 ^ 32 → Literal.stored q = id := fun hq =>
    funext fun l => Literal.stored_eq hq l
  funext rid
  unfold verdict
  cases hrow : t.getRow rid with
  | none => rfl
  | some row =>
    rw [Option.map_some, Option.map_some, cells_extends hp (hrows rid row hrow), hstored hsize,
      hstored hsize']

theorem picks_iff (hrows : RowsInterned t pool) :
    picks regex t pool (pool.internAll c.strings) c rid = true ↔
      Selected regex c.clause t pool rid := by
  unfold Selected
  constructor
  · intro h
    cases hrow : t.getRow rid with
    | none =>
      rw [picks_none hrow] at h
      cases h
    | some row =>
      exact ⟨row, rfl, (eval_clean regex hrows (stage_refl pool c) hrow).1.trans h⟩
  · rintro ⟨row, hrow, h⟩
    exact (eval_clean regex hrows (stage_refl pool c) hrow).1.symm.trans h

theorem errs_false (hrows : RowsInterned t pool) (hclean : Errorless regex c.clause t pool) :
    errs regex t pool (pool.internAll c.strings) c rid = false := by
  cases hrow : t.getRow rid with
  | none => exact errs_none hrow
  | some row =>
    exact (eval_clean regex hrows (stage_refl pool c) hrow).2.mp (hclean rid row hrow)

/-- An index lists every row on which the clause is true. -/
theorem mem_indexedRows (h : Table.Reach n pool t) (hn : n ≤ 2 ^ 64)
    (hsize : pool.size + c.strings.length ≤ 2 ^ 32) (hne : (indexedRows t c.clause pool).1 ≠ [])
    (hsel : Selected regex c.clause t pool rid) : rid ∈ (indexedRows t c.clause pool).1 := by
  have hrows : RowsInterned t pool := fun rid row hrow => h.interned hrow
  have hext := indexedRows_extends t c pool
  obtain ⟨root, i, key, ix, hroot, hkey, hcol, heq⟩ := indexedRows_eq hne
  have hans := (((h.inv hn).1.extends hext).lists i ix hcol).answers
  rw [heq, hans.mem_findEqual]
  cases c with
  | none => cases hroot
  | some e =>
    obtain rfl : (e.build []).1 = root := Option.some.inj hroot
    have htree : extractIndexEq t e.clause e.clause.nodes.length (e.build []).1 pool =
        e.indexEq t pool :=
      extractIndexEq_tree e.clause_childrenBefore (e.tree_build []) (e.build_lt [])
    obtain ⟨l, hl, hstrings, hcell⟩ := indexEq_some regex (htree.symm.trans hkey)
    have hpick := (picks_iff hrows).mpr hsel
    have hverdict := @verdict_eq regex _ _ _ (some e) hrows hext (internAll_size_le hsize)
      (indexedRows_size hsize t)
    unfold picks at hpick
    rw [← hverdict, decide_eq_true_eq] at hpick
    obtain ⟨row, hrow, hholds⟩ := Option.map_eq_some_iff.mp hpick
    obtain ⟨col, hi, a, ha, hcmp⟩ := hcell _ _ hholds
    obtain ⟨v, hv, rfl⟩ := Option.map_eq_some_iff.mp ha
    have hget : row.cells[i]? = some v := by
      unfold cellByName at hv
      rwa [hi] at hv
    refine ⟨v, ⟨row, hrow, hget⟩, ?_⟩
    -- the key is the literal of the clause, under the id that the look-up gave it
    have hlit := literalToValue_pool l pool
    have hin := literalToValue_interned l pool
    change (literalToValue l pool) = _ at hl
    rw [hl] at hlit hin
    have hlast := (indexedRows t (Cond.clause (some e)) pool).2.internAll_extends
      (Cond.strings (some e))
    have hkeyed := @content_literal pool _ l (by rw [← hlit]; exact hlast)
    rw [hl, content_extends hlast hin] at hkeyed
    rw [valueCmp_content, hkeyed]
    exact hcmp

theorem candidates_errs (o : HashOrder RowId) (hrows : RowsInterned t pool)
    (hsize : pool.size + c.strings.length ≤ 2 ^ 32) (hclean : Errorless regex c.clause t pool) :
    errs regex t (candidateRows o t c.clause pool).2
      ((candidateRows o t c.clause pool).2.internAll c.strings) c rid = false := by
  unfold errs
  rw [verdict_eq hrows (candidateRows_extends o t c pool) (internAll_size_le hsize)
    (candidateRows_size hsize o t)]
  exact errs_false hrows hclean

theorem mem_selection {pool' : StringPool} {ids : List RowId}
    (h : ∀ rid ∈ ids, errs regex t pool pool' c rid = false) :
    rid ∈ selection regex t pool pool' c ids ↔ rid ∈ ids ∧ picks regex t pool pool' c rid = true := by
  unfold selection
  rw [reached_eq_self h, List.mem_filter]

theorem mem_candidates (o : HashOrder RowId) (h : Table.Reach n pool t) (hn : n ≤ 2 ^ 64)
    (hsize : pool.size + c.strings.length ≤ 2 ^ 32) (hsel : Selected regex c.clause t pool rid) :
    rid ∈ (candidateRows o t c.clause pool).1 := by
  by_cases hne : (indexedRows t c.clause pool).1 = []
  · obtain ⟨row, hrow, -⟩ := hsel
    rw [candidateRows_of_not_indexed o hne]
    exact mem_allRowIds.mpr ⟨row, hrow⟩
  · rw [candidateRows_of_indexed o hne]
    exact mem_indexedRows h hn hsize hne hsel

theorem candidates_lists (o : HashOrder RowId) (h : Table.Reach n pool t) (hn : n ≤ 2 ^ 64)
    (hsize : pool.size + c.strings.length ≤ 2 ^ 32) (hclean : Errorless regex c.clause t pool) :
    ListsSelected regex c.clause t pool
      (selection regex t (candidateRows o t c.clause pool).2
        ((candidateRows o t c.clause pool).2.internAll c.strings) c
        (candidateRows o t c.clause pool).1) := by
  have hrows : RowsInterned t pool := fun rid row hrow => h.interned hrow
  have herrs := fun rid (_ : rid ∈ (candidateRows o t c.clause pool).1) =>
    @candidates_errs regex t pool c rid o hrows hsize hclean
  constructor
  · unfold selection
    rw [reached_eq_self herrs]
    exact (candidateRows_nodup h hn o c).filter _
  · intro rid
    rw [mem_selection herrs, ← picks_iff hrows]
    unfold picks
    rw [verdict_eq hrows (candidateRows_extends o t c pool) (internAll_size_le hsize)
      (candidateRows_size hsize o t)]
    exact ⟨fun hsel => hsel.2,
      fun hsel => ⟨mem_candidates o h hn hsize ((picks_iff hrows).mp hsel), hsel⟩⟩

theorem allRows_lists (o : HashOrder RowId) (hrows : RowsInterned t pool)
    (hclean : Errorless regex c.clause t pool) :
    ListsSelected regex c.clause t pool
      (selection regex t pool (pool.internAll c.strings) c (t.allRowIds o)) := by
  have herrs := fun rid (_ : rid ∈ t.allRowIds o) => @errs_false regex t pool c rid hrows hclean
  constructor
  · unfold selection
    rw [reached_eq_self herrs]
    exact (o.nodup _).filter _
  · intro rid
    rw [mem_selection herrs, picks_iff hrows]
    refine ⟨fun hsel => hsel.2, fun hsel => ⟨?_, hsel⟩⟩
    obtain ⟨row, hrow, -⟩ := hsel
    exact mem_allRowIds.mpr ⟨row, hrow⟩

end Candidates
end Dbms.Exec
