import Dbms.Exec.Scan

/-! The order in which the hash map of a table lists its rows, and the rows that a statement
selects. -/

open Dbms.Core Dbms.Lib Dbms.Sql

namespace Dbms.Exec

def indexedRows (t : Table) (w : WhereClause) (pool : StringPool) : List RowId × StringPool :=
  match w.root with
  | none => ([], pool)
  | some root =>
    let r := extractIndexEq t w w.nodes.length root pool
    ((r.1.bind fun found => (t.indexForColumn found.1).map fun ix =>
      ix.findEqual (valueCmp r.2) found.2).getD [], r.2)

theorem indexedRows_eq {t : Table} {w : WhereClause} {pool : StringPool}
    (h : (indexedRows t w pool).1 ≠ []) : ∃ root i key ix, w.root = some root ∧
      extractIndexEq t w w.nodes.length root pool = (some (i, key), (indexedRows t w pool).2) ∧
      t.indexForColumn i = some ix ∧
      (indexedRows t w pool).1 = ix.findEqual (valueCmp (indexedRows t w pool).2) key := by
  unfold indexedRows at h ⊢
  cases hroot : w.root with
  | none => exact absurd (by rw [hroot]) h
  | some root =>
    rw [hroot] at h
    dsimp only at h ⊢
    cases hr : extractIndexEq t w w.nodes.length root pool with
    | mk found pool' =>
      rw [hr] at h
      cases found with
      | none => exact absurd rfl h
      | some found =>
        cases hix : t.indexForColumn found.1 with
        | none => simp [hix] at h
        | some ix => exact ⟨root, found.1, found.2, ix, rfl, hr, hix, by simp [hix]⟩

theorem candidateRows_of_indexed (o : HashOrder RowId) {t : Table} {w : WhereClause}
    {pool : StringPool} (h : (indexedRows t w pool).1 ≠ []) :
    candidateRows o t w pool = indexedRows t w pool := by
  unfold indexedRows at h ⊢
  unfold candidateRows
  cases hroot : w.root with
  | none => exact absurd (by rw [hroot]) h
  | some root =>
    rw [hroot] at h
    dsimp only at h ⊢
    cases hr : extractIndexEq t w w.nodes.length root pool with
    | mk found pool' =>
      rw [hr] at h
      cases found with
      | none => exact absurd rfl h
      | some found =>
        cases hix : t.indexForColumn found.1 with
        | none => simp [hix] at h
        | some ix =>
          simp only [Option.bind_some, hix, Option.map_some, Option.getD_some] at h ⊢
          rw [if_neg h]

theorem candidateRows_of_not_indexed (o : HashOrder RowId) {t : Table} {w : WhereClause}
    {pool : StringPool} (h : (indexedRows t w pool).1 = []) :
    candidateRows o t w pool = (t.allRowIds o, (indexedRows t w pool).2) := by
  unfold indexedRows at h ⊢
  unfold candidateRows
  cases hroot : w.root with
  | none => rfl
  | some root =>
    rw [hroot] at h
    dsimp only at h ⊢
    cases hr : extractIndexEq t w w.nodes.length root pool with
    | mk found pool' =>
      rw [hr] at h
      cases found with
      | none => rfl
      | some found =>
        cases hix : t.indexForColumn found.1 with
        | none => simp only [hix]
        | some ix =>
          simp only [Option.bind_some, hix, Option.map_some, Option.getD_some] at h ⊢
          rw [if_pos h]

theorem indexEq_extends (t : Table) (e : Expr) (pool : StringPool) :
    pool.Extends (e.indexEq t pool).2 := by
  induction e generalizing pool with
  | leaf l =>
    cases l with
    | between col a b | like col pattern => exact .refl pool
    | cmp col op rhs =>
      cases rhs with
      | col name => cases op <;> exact .refl pool
      | lit l =>
        cases op with
        | eq =>
          have hlit : pool.Extends (litToVal l pool).2 := by
            rw [litToVal, literalToValue_pool]
            exact pool.internAll_extends _
          simp only [Expr.indexEq]
          cases t.columnIndex col with
          | none => exact .refl pool
          | some ci =>
            dsimp only
            split
            · exact hlit
            · exact .refl pool
        | _ => exact .refl pool
  | paren e ih => exact ih pool
  | andOr kind left right ihl ihr =>
    cases kind with
    | or => exact .refl pool
    | and =>
      have hl := ihl pool
      simp only [Expr.indexEq]
      cases h : left.indexEq t pool with
      | mk found pool' =>
        rw [h] at hl
        cases found with
        | some found => exact hl
        | none => exact hl.trans (ihr pool')

theorem indexedRows_extends (t : Table) (c : Cond) (pool : StringPool) :
    pool.Extends (indexedRows t c.clause pool).2 := by
  cases c with
  | none => exact .refl pool
  | some e =>
    have heq : extractIndexEq t e.clause e.clause.nodes.length (e.build []).1 pool =
        e.indexEq t pool :=
      extractIndexEq_tree e.clause_childrenBefore (e.tree_build []) (e.build_lt [])
    show pool.Extends (extractIndexEq t e.clause e.clause.nodes.length (e.build []).1 pool).2
    rw [heq]
    exact indexEq_extends t e pool

theorem candidateRows_extends (o : HashOrder RowId) (t : Table) (c : Cond) (pool : StringPool) :
    pool.Extends (candidateRows o t c.clause pool).2 := by
  have hext := indexedRows_extends t c pool
  by_cases h : (indexedRows t c.clause pool).1 = []
  · rw [candidateRows_of_not_indexed o h]
    exact hext
  · rw [candidateRows_of_indexed o h]
    exact hext

theorem candidateRows_nodup {n : Nat} {t : Table} {pool : StringPool} (h : Table.Reach n pool t)
    (hn : n ≤ 2 ^ 64) (o : HashOrder RowId) (c : Cond) : (candidateRows o t c.clause pool).1.Nodup := by
  by_cases hix : (indexedRows t c.clause pool).1 = []
  · rw [candidateRows_of_not_indexed o hix]
    exact o.nodup _
  · obtain ⟨root, i, key, ix, -, -, hcol, heq⟩ := indexedRows_eq hix
    have hagrees := (h.inv hn).1.extends (indexedRows_extends t c pool)
    have hlen := (hagrees.lists i ix hcol).answers.findEqual_length key
    rw [candidateRows_of_indexed o hix, heq]
    apply List.nodup_iff_count_le_one.mpr
    intro x
    exact List.count_le_length.trans hlen

/-! Scans in two orders. -/

def SameObjects (r r' : Except Text (List Text)) : Prop :=
  (∃ objs objs', r = .ok objs ∧ r' = .ok objs' ∧ objs.Perm objs') ∨
    ∃ err, r = .error err ∧ r' = .error err

section Objects
variable {α : Type} {f : α → Except Text Text} {e : Text} {l l' : List α}

theorem sameObjects_mapM (herr : ∀ a e', f a = .error e' → e' = e) (h : l.Perm l') :
    SameObjects (l.mapM f) (l'.mapM f) := by
  have hok : ∀ {l : List α} {bs}, l.mapM f = .ok bs → bs = l.map fun a => (f a).toOption.getD [] := by
    intro l bs hbs
    have hmap := mapM_ok (f := f) (g := fun a => (f a).toOption.getD []) (l := l) fun a ha => by
      obtain ⟨b, hb⟩ := mapM_ok_mem hbs a ha
      rw [hb]
      rfl
    exact Except.ok.inj (hbs.symm.trans hmap)
  cases hl : l.mapM f with
  | error e₁ =>
    obtain ⟨a, ha, hfa⟩ := mapM_error_mem hl
    obtain ⟨e₂, hl'⟩ := mapM_error_iff.mpr ⟨a, h.mem_iff.mp ha, e₁, hfa⟩
    obtain ⟨a', -, hfa'⟩ := mapM_error_mem hl'
    rw [hl', herr a e₁ hfa, herr a' e₂ hfa']
    exact .inr ⟨e, rfl, rfl⟩
  | ok bs =>
    cases hl' : l'.mapM f with
    | error e₂ =>
      obtain ⟨a', ha', hfa'⟩ := mapM_error_mem hl'
      obtain ⟨b, hb⟩ := mapM_ok_mem hl a' (h.mem_iff.mpr ha')
      cases hfa'.symm.trans hb
    | ok bs' =>
      refine .inl ⟨bs, bs', rfl, rfl, ?_⟩
      rw [hok hl, hok hl']
      exact h.map _

end Objects

def BadItem (t : Table) (it : SelectItem) : Prop :=
  it.col ≠ "*".toList ∧ t.columnIndex it.col = none

theorem itemFields_error {t : Table} {row : Row} {pool : StringPool} {it : SelectItem} {e : Text} :
    itemFields t row pool it = .error e ↔ BadItem t it ∧ e = "unknown column".toList := by
  unfold itemFields BadItem
  by_cases hstar : it.col = "*".toList
  · simp [hstar]
  · rw [if_neg hstar]
    cases t.columnIndex it.col with
    | none =>
      constructor
      · intro h
        exact ⟨⟨hstar, rfl⟩, (Except.error.inj h).symm⟩
      · rintro ⟨-, rfl⟩
        rfl
    | some cix => simp

theorem rowObject_error {t : Table} {row : Row} {pool : StringPool} {items : List SelectItem}
    {e : Text} : rowObject t items row pool = .error e ↔
      (∃ it ∈ items, BadItem t it) ∧ e = "unknown column".toList := by
  unfold rowObject
  cases hm : items.mapM (itemFields t row pool) with
  | error e' =>
    obtain ⟨it, hit, hfail⟩ := mapM_error_mem hm
    obtain ⟨hbad, rfl⟩ := itemFields_error.mp hfail
    constructor
    · intro h
      cases h
      exact ⟨⟨it, hit, hbad⟩, rfl⟩
    · rintro ⟨-, rfl⟩
      rfl
  | ok fields =>
    constructor
    · intro h
      cases h
    · rintro ⟨⟨it, hit, hbad⟩, -⟩
      obtain ⟨b, hb⟩ := mapM_ok_mem hm it hit
      cases hb.symm.trans (itemFields_error.mpr ⟨hbad, rfl⟩)

theorem objectAt_error {t : Table} {items : List SelectItem} {pool : StringPool} {rid : RowId}
    {e : Text} (h : objectAt t items pool rid = .error e) : e = "unknown column".toList := by
  unfold objectAt at h
  cases hrow : t.getRow rid with
  | none =>
    rw [hrow] at h
    cases h
  | some row =>
    rw [hrow] at h
    exact (rowObject_error.mp h).2

section Orders
variable (regex : Regex) (w : WhereClause) (t : Table) (pool : StringPool)

def afterDelete (o : HashOrder RowId) : Table :=
  let cand := candidateRows o t w pool
  let del := matching regex w t cand.1 cand.2 []
  (untilError deleteOne del.1 ⟨t, del.2.2, []⟩).2.table

/-- SELECT, the aggregates and DELETE go over the same rows in both orders. -/
structure SameRows (o o' : HashOrder RowId) : Prop where
  select : ∀ items, SameObjects
    (selectRows regex w t items (candidateRows o t w pool).1 (candidateRows o t w pool).2 []).1
    (selectRows regex w t items (candidateRows o' t w pool).1 (candidateRows o' t w pool).2 []).1
  aggregate : (matching regex w t (t.allRowIds o) pool []).1.Perm
    (matching regex w t (t.allRowIds o') pool []).1
  delete : (afterDelete regex w t pool o).rows = (afterDelete regex w t pool o').rows

/-- No row makes the clause fail, or none makes it true, each row on its own. -/
def Steady : Prop :=
  (∀ rid row, t.getRow rid = some row → (evalWhere regex t row w pool []).err = []) ∨
    ∀ rid row, t.getRow rid = some row → (evalWhere regex t row w pool []).result = false

/-- No WHERE, or a single comparison, in parentheses or not. -/
def Lone (w : WhereClause) : Prop := ∃ c : Cond, w = c.clause ∧ c.lone = true

end Orders

section Orders
variable {regex : Regex} {c : Cond} {t : Table} {pool : StringPool}

theorem mem_allRowIds {o : HashOrder RowId} {rid : RowId} :
    rid ∈ t.allRowIds o ↔ ∃ row, t.getRow rid = some row := by
  show rid ∈ o.toList t.rows.keys ↔ _
  rw [o.mem_toList, Finmap.mem_keys, Finmap.mem_iff]
  rfl

theorem stage_refl (pool : StringPool) (c : Cond) :
    Stage pool (pool.internAll c.strings) c pool := ⟨.refl pool, .refl _⟩

theorem steady_iff (hrows : RowsInterned t pool) (o : HashOrder RowId) :
    Steady regex c.clause t pool ↔
      (∀ rid ∈ t.allRowIds o, errs regex t pool (pool.internAll c.strings) c rid = false) ∨
        ∀ rid ∈ t.allRowIds o, picks regex t pool (pool.internAll c.strings) c rid = false := by
  have heval := fun rid row (hrow : t.getRow rid = some row) =>
    eval_clean regex hrows (stage_refl pool c) hrow
  constructor
  · rintro (h | h)
    · refine .inl fun rid hrid => ?_
      obtain ⟨row, hrow⟩ := mem_allRowIds.mp hrid
      exact (heval rid row hrow).2.mp (h rid row hrow)
    · refine .inr fun rid hrid => ?_
      obtain ⟨row, hrow⟩ := mem_allRowIds.mp hrid
      rw [← (heval rid row hrow).1]
      exact h rid row hrow
  · rintro (h | h)
    · exact .inl fun rid row hrow => (heval rid row hrow).2.mpr (h rid (mem_allRowIds.mpr ⟨row, hrow⟩))
    · exact .inr fun rid row hrow => (heval rid row hrow).1.trans (h rid (mem_allRowIds.mpr ⟨row, hrow⟩))

theorem matching_all_perm (hrows : RowsInterned t pool) (o o' : HashOrder RowId)
    (h : c.lone = true ∨ Steady regex c.clause t pool) :
    (matching regex c.clause t (t.allRowIds o) pool []).1.Perm
      (matching regex c.clause t (t.allRowIds o') pool []).1 := by
  apply matching_perm hrows (stage_refl pool c) (o.perm o' _)
  exact h.imp_right (steady_iff hrows o).mp

/-- An unsteady scan selects nothing behind the row that fails first, and something before it. -/
theorem matching_all_differ (hrows : RowsInterned t pool) (hlone : c.lone = false)
    (h : ¬Steady regex c.clause t pool) : ∃ o o' x, x ∈ t.rows ∧
      (matching regex c.clause t (t.allRowIds o) pool []).1 = [] ∧
      x ∈ (matching regex c.clause t (t.allRowIds o') pool []).1 := by
  rw [steady_iff hrows (.sorted RowId)] at h
  simp only [not_or, not_forall, Bool.not_eq_false] at h
  obtain ⟨⟨r, hr, herr⟩, x, hx, hpick⟩ := h
  have hkey : ∀ {rid}, rid ∈ t.allRowIds (.sorted RowId) → rid ∈ t.rows.keys := fun h => by
    rwa [← (HashOrder.sorted RowId).mem_toList]
  refine ⟨HashOrder.front (.sorted RowId) r, HashOrder.front (.sorted RowId) x, x,
    Finmap.mem_keys.mp (hkey hx), ?_, ?_⟩
  · rw [(matching_clean hrows (stage_refl pool c)).1]
    simp [Table.allRowIds, HashOrder.front_toList _ (hkey hr), selection_of_errs herr hlone]
  · rw [(matching_clean hrows (stage_refl pool c)).1]
    simp [Table.allRowIds, HashOrder.front_toList _ (hkey hx), selection_of_picks hpick]

theorem Cond.clause_injective {c c' : Cond} (h : c.clause = c'.clause) : c = c' := by
  cases c with
  | none =>
    cases c' with
    | none => rfl
    | some e' => cases congrArg WhereClause.root h
  | some e =>
    cases c' with
    | none => cases congrArg WhereClause.root h
    | some e' => exact congrArg some (Expr.clause_injective h)

theorem lone_clause : Lone c.clause ↔ c.lone = true := by
  constructor
  · rintro ⟨c', hc, hlone⟩
    rwa [Cond.clause_injective hc]
  · exact fun h => ⟨c, rfl, h⟩

theorem afterDelete_lookup {o : HashOrder RowId}
    (hix : (indexedRows t c.clause pool).1 = []) (x : RowId) :
    (afterDelete regex c.clause t pool o).rows.lookup x =
      if x ∈ (matching regex c.clause t (t.allRowIds o) (indexedRows t c.clause pool).2 []).1
      then none else t.rows.lookup x := by
  obtain ⟨hsub, hmem⟩ := matching_sublist regex c.clause t (t.allRowIds o)
    (indexedRows t c.clause pool).2 []
  unfold afterDelete
  rw [candidateRows_of_not_indexed o hix]
  exact (deleteLoop (hsub.nodup (o.nodup _)) hmem).2 x

theorem sameRows_of_steady (hrows : RowsInterned t pool)
    (hagg : c.lone = true ∨ Steady regex c.clause t pool)
    (hcand : (indexedRows t c.clause pool).1 = [] →
      c.lone = true ∨ Steady regex c.clause t (indexedRows t c.clause pool).2)
    (o o' : HashOrder RowId) : SameRows regex c.clause t pool o o' := by
  have hext := indexedRows_extends t c pool
  have hsel : ∀ items (o : HashOrder RowId),
      (selectRows regex c.clause t items (candidateRows o t c.clause pool).1
        (candidateRows o t c.clause pool).2 []).1 =
      (matching regex c.clause t (candidateRows o t c.clause pool).1
        (candidateRows o t c.clause pool).2 []).1.mapM (objectAt t items pool) := by
    intro items o
    exact selectRows_eq hrows (candidateRows_extends o t c pool)
  have haggregate := matching_all_perm hrows o o' hagg
  by_cases hix : (indexedRows t c.clause pool).1 = []
  · have hperm := matching_all_perm (hrows.extends hext) o o' (hcand hix)
    refine ⟨fun items => ?_, haggregate, ?_⟩
    · rw [hsel, hsel, candidateRows_of_not_indexed o hix, candidateRows_of_not_indexed o' hix]
      exact sameObjects_mapM (fun _ _ => objectAt_error) hperm
    · apply Finmap.ext_lookup
      intro x
      rw [afterDelete_lookup hix, afterDelete_lookup hix]
      simp only [hperm.mem_iff]
  · refine ⟨fun items => ?_, haggregate, ?_⟩
    · rw [hsel, hsel, candidateRows_of_indexed o hix, candidateRows_of_indexed o' hix]
      exact sameObjects_mapM (fun _ _ => objectAt_error) (.refl _)
    · unfold afterDelete
      rw [candidateRows_of_indexed o hix, candidateRows_of_indexed o' hix]

end Orders

/-! A table of notes, one of them missing, and a clause that fails on the missing one. -/

def noteColumn : ColumnDef := { name := "s".toList, type := .string }

def notePool : StringPool := (StringPool.new.intern "a".toList).2

def notes : Table :=
  let t := Table.new "t".toList [noteColumn]
  ((t.insertRow notePool ⟨[.null]⟩).2.insertRow notePool ⟨[.string 1]⟩).2

theorem notes_reach : Table.Reach 2 notePool notes :=
  .insertRow ⟨[.string 1]⟩ (.insertRow ⟨[.null]⟩ (.new notePool "t".toList [noteColumn])
    (by simp [Value.Interned])) (by decide +kernel)

def literally : Regex := fun pattern s => some (pattern = s)

def likeOrEq : WhereClause :=
  (Expr.andOr .or (.leaf (.like "s".toList "a".toList))
    (.leaf (.cmp "s".toList .eq (.lit (.string "a".toList))))).clause

theorem likeOrEq_parsed : FromParser likeOrEq :=
  ⟨40, "WHERE s LIKE \"a\" OR s = \"a\"".toList, [], by decide, by decide +kernel⟩

end Dbms.Exec
