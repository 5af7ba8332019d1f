import Dbms.Exec.Assigned
import Dbms.Exec.Candidates
import Dbms.Exec.WhereErrors

/-! SELECT, COUNT, UPDATE and DELETE act on exactly the rows on which WHERE is true. -/

open Dbms.Core Dbms.Lib Dbms.Sql Dbms.Auth

namespace Dbms.Exec

/-- The statements on a table act on exactly the rows on which WHERE is true. -/
structure ActsOnSelected (W : World) (tick : Tick) (ex : Executor) (table : Name) (key : Text)
    (db : Database) (t : Table) (w : WhereClause) : Prop where
  candidates : ∀ rid, Selected W.regex w t ex.pool rid →
    rid ∈ (candidateRows tick.rowOrder t w ex.pool).1
  select : ∀ items, isAggregate items = false → (execSelect W tick ex items table w).1.ok = true →
    ∃ rids objs, ListsSelected W.regex w t ex.pool rids ∧
      List.Forall₂ (fun rid obj => objectAt t items ex.pool rid = .ok obj) rids objs ∧
      (execSelect W tick ex items table w).1 = .done (jsonArray objs)
  count : ∃ rids, ListsSelected W.regex w t ex.pool rids ∧
    (∀ it, it.agg = .count → (execSelect W tick ex [it] table w).1 =
      .done (jsonArray [jsonObject [jsonField (aggregateName it) (natText rids.length)]])) ∧
    ∀ items, isAggregate items = true → (execSelect W tick ex items table w).1.ok = true →
      ∃ fields, List.Forall₂ (fun it field => it.agg = .count →
          field = jsonField (aggregateName it) (natText rids.length)) items fields ∧
        (execSelect W tick ex items table w).1 = .done (jsonArray [jsonObject fields])
  delete : (execDelete W tick true ex table w).1.ok = true ∧
    ∃ t', (execDelete W tick true ex table w).2.catalog =
        ex.catalog.setDatabase key (db.setTable table.table t') ∧
      ∀ rid, (Selected W.regex w t ex.pool rid → t'.getRow rid = none) ∧
        (¬Selected W.regex w t ex.pool rid → t'.getRow rid = t.getRow rid)
  update : ∀ sets, (execUpdate W tick true ex table sets w).1.ok = true →
    (execUpdate W tick true ex table sets w).2.pool.size ≤ 2 ^ 32 →
    ∃ t', (execUpdate W tick true ex table sets w).2.catalog =
        ex.catalog.setDatabase key (db.setTable table.table t') ∧
      (∀ rid, ¬Selected W.regex w t ex.pool rid → t'.getRow rid = t.getRow rid) ∧
      ∀ rid row, t.getRow rid = some row → Selected W.regex w t ex.pool rid →
        ∃ row', t'.getRow rid = some row' ∧
          Replaced t sets (execUpdate W tick true ex table sets w).2.pool row row'

section Statements
variable {W : World} {tick : Tick} {ex : Executor} {table : Name} {key : Text} {db : Database}
  {t : Table} {c : Cond} {n : Nat}

theorem execSelect_plain {w : WhereClause} {items : List SelectItem}
    (hres : resolveTable ex.catalog table = .ok (key, db, t)) (hagg : isAggregate items = false) :
    (∀ objs, (selectRows W.regex w t items (candidateRows tick.rowOrder t w ex.pool).1
        (candidateRows tick.rowOrder t w ex.pool).2 []).1 = .ok objs →
      (execSelect W tick ex items table w).1 = .done (jsonArray objs)) ∧
    ∀ e, (selectRows W.regex w t items (candidateRows tick.rowOrder t w ex.pool).1
        (candidateRows tick.rowOrder t w ex.pool).2 []).1 = .error e →
      (execSelect W tick ex items table w).1 = .failed e := by
  have hagg' : ¬(items.any fun it => it.agg ≠ .none) = true := by
    rw [← isAggregate, hagg]
    exact Bool.false_ne_true
  unfold execSelect
  rw [hres]
  dsimp only
  rw [if_neg hagg']
  constructor
  · intro objs hrun
    simp only [hrun]
  · intro e hrun
    simp only [hrun]

theorem select_selected (hres : resolveTable ex.catalog table = .ok (key, db, t))
    (h : Table.Reach n ex.pool t) (hn : n ≤ 2 ^ 64)
    (hsize : ex.pool.size + c.strings.length ≤ 2 ^ 32)
    (hclean : Errorless W.regex c.clause t ex.pool) {items : List SelectItem}
    (hagg : isAggregate items = false)
    (hok : (execSelect W tick ex items table c.clause).1.ok = true) :
    ∃ rids objs, ListsSelected W.regex c.clause t ex.pool rids ∧
      List.Forall₂ (fun rid obj => objectAt t items ex.pool rid = .ok obj) rids objs ∧
      (execSelect W tick ex items table c.clause).1 = .done (jsonArray objs) := by
  have hrows : RowsInterned t ex.pool := fun rid row hrow => h.interned hrow
  have hext := candidateRows_extends tick.rowOrder t c ex.pool
  obtain ⟨hdone, hfail⟩ := @execSelect_plain W tick ex table key db t c.clause items hres hagg
  have hobjs := @selectRows_eq W.regex t ex.pool (candidateRows tick.rowOrder t c.clause ex.pool).2 c
    (candidateRows tick.rowOrder t c.clause ex.pool).1 items [] hrows hext
  rw [(matching_clean (hrows.extends hext) (stage_refl _ c)).1] at hobjs
  cases hrun : (selectRows W.regex c.clause t items
      (candidateRows tick.rowOrder t c.clause ex.pool).1
      (candidateRows tick.rowOrder t c.clause ex.pool).2 []).1 with
  | error e =>
    rw [hfail e hrun] at hok
    cases hok
  | ok objs =>
    rw [hrun] at hobjs
    exact ⟨_, objs, candidates_lists tick.rowOrder h hn hsize hclean, mapM_forall₂ hobjs.symm,
      hdone objs hrun⟩

theorem aggregateObject_count {print : Printing} {rows : List Row} {items : List SelectItem}
    {obj : Text} (h : aggregateObject print t rows items = .ok obj) :
    ∃ fields, List.Forall₂ (fun it field => it.agg = .count →
      field = jsonField (aggregateName it) (natText rows.length)) items fields ∧
      obj = jsonObject fields := by
  unfold aggregateObject at h
  cases hm : items.mapM fun it =>
      (aggregateValue print t rows it).map (jsonField (aggregateName it)) with
  | error e =>
    rw [hm] at h
    cases h
  | ok fields =>
    rw [hm] at h
    cases h
    refine ⟨fields, (mapM_forall₂ hm).imp ?_, rfl⟩
    intro it field hfield hcount
    simp only [aggregateValue, hcount] at hfield
    cases hfield
    rfl

theorem count_selected (hres : resolveTable ex.catalog table = .ok (key, db, t))
    (hrows : RowsInterned t ex.pool) (hclean : Errorless W.regex c.clause t ex.pool) :
    ∃ rids, ListsSelected W.regex c.clause t ex.pool rids ∧
      (∀ it, it.agg = .count → (execSelect W tick ex [it] table c.clause).1 =
        .done (jsonArray [jsonObject [jsonField (aggregateName it) (natText rids.length)]])) ∧
      ∀ items, isAggregate items = true →
        (execSelect W tick ex items table c.clause).1.ok = true →
        ∃ fields, List.Forall₂ (fun it field => it.agg = .count →
            field = jsonField (aggregateName it) (natText rids.length)) items fields ∧
          (execSelect W tick ex items table c.clause).1 = .done (jsonArray [jsonObject fields]) := by
  have hlists := allRows_lists tick.rowOrder hrows hclean
  rw [← (matching_clean hrows (stage_refl ex.pool c)).1] at hlists
  refine ⟨_, hlists, ?_⟩
  -- every selected row is stored
  have hlen : ((matching W.regex c.clause t (t.allRowIds tick.rowOrder) ex.pool []).1.filterMap
      t.getRow).length =
        (matching W.regex c.clause t (t.allRowIds tick.rowOrder) ex.pool []).1.length := by
    rw [List.length_filterMap_eq_countP]
    apply List.countP_eq_length.mpr
    intro rid hrid
    obtain ⟨row, hrow, -⟩ := (hlists.mem rid).mp hrid
    rw [hrow]
    rfl
  have hagg : ∀ items, isAggregate items = true → ∀ r,
      aggregateObject W.print t ((matching W.regex c.clause t (t.allRowIds tick.rowOrder)
        ex.pool []).1.filterMap t.getRow) items = r →
      (∀ obj, r = .ok obj →
        (execSelect W tick ex items table c.clause).1 = .done (jsonArray [obj])) ∧
      ∀ e, r = .error e → (execSelect W tick ex items table c.clause).1 = .failed e := by
    intro items hitems r hr
    have hitems' : (items.any fun it => it.agg ≠ .none) = true := hitems
    unfold execSelect
    rw [hres]
    dsimp only
    rw [if_pos hitems']
    constructor
    · rintro obj rfl
      simp only [hr]
    · rintro e rfl
      simp only [hr]
  constructor
  · intro it hit
    rw [← hlen]
    apply (hagg [it] (by simp [isAggregate, hit]) _ rfl).1
    simp [aggregateObject, aggregateValue, hit, Except.map, List.mapM_cons, bind, Except.bind,
      pure, Except.pure]
  · intro items hitems hok
    obtain ⟨hdone, hfail⟩ := hagg items hitems _ rfl
    cases hobj : aggregateObject W.print t ((matching W.regex c.clause t
        (t.allRowIds tick.rowOrder) ex.pool []).1.filterMap t.getRow) items with
    | error e =>
      rw [hfail e hobj] at hok
      cases hok
    | ok obj =>
      obtain ⟨fields, hfields, rfl⟩ := aggregateObject_count hobj
      rw [hlen] at hfields
      exact ⟨fields, hfields, hdone _ hobj⟩

theorem delete_selected (hres : resolveTable ex.catalog table = .ok (key, db, t))
    (h : Table.Reach n ex.pool t) (hn : n ≤ 2 ^ 64)
    (hsize : ex.pool.size + c.strings.length ≤ 2 ^ 32)
    (hclean : Errorless W.regex c.clause t ex.pool) :
    (execDelete W tick true ex table c.clause).1.ok = true ∧
    ∃ t', (execDelete W tick true ex table c.clause).2.catalog =
        ex.catalog.setDatabase key (db.setTable table.table t') ∧
      ∀ rid, (Selected W.regex c.clause t ex.pool rid → t'.getRow rid = none) ∧
        (¬Selected W.regex c.clause t ex.pool rid → t'.getRow rid = t.getRow rid) := by
  have hrows : RowsInterned t ex.pool := fun rid row hrow => h.interned hrow
  have hrows' := hrows.extends (candidateRows_extends tick.rowOrder t c ex.pool)
  have hlists := candidates_lists tick.rowOrder h hn hsize hclean
  rw [← (matching_clean hrows' (stage_refl _ c)).1] at hlists
  have hmem : ∀ rid ∈ (matching W.regex c.clause t
      (candidateRows tick.rowOrder t c.clause ex.pool).1
      (candidateRows tick.rowOrder t c.clause ex.pool).2 []).1, rid ∈ t.rows := by
    intro rid hrid
    obtain ⟨row, hrow, -⟩ := (hlists.mem rid).mp hrid
    exact Finmap.mem_of_lookup_eq_some hrow
  unfold execDelete ifAllowed
  rw [hres, if_pos rfl]
  dsimp only
  obtain ⟨hdone, hleft⟩ := @deleteLoop _ ⟨t, (matching W.regex c.clause t
    (candidateRows tick.rowOrder t c.clause ex.pool).1
    (candidateRows tick.rowOrder t c.clause ex.pool).2 []).2.2, []⟩ hlists.nodup hmem
  refine ⟨?_, _, rfl, fun rid => ?_⟩
  · unfold withRows
    rw [hdone]
    rfl
  · constructor
    · intro hsel
      exact (hleft rid).trans (if_pos ((hlists.mem rid).mpr hsel))
    · intro hsel
      exact (hleft rid).trans (if_neg fun hrid => hsel ((hlists.mem rid).mp hrid))

theorem update_selected (hres : resolveTable ex.catalog table = .ok (key, db, t))
    (h : Table.Reach n ex.pool t) (hn : n ≤ 2 ^ 64)
    (hsize : ex.pool.size + c.strings.length ≤ 2 ^ 32)
    (hclean : Errorless W.regex c.clause t ex.pool) {sets : List (Text × Literal)}
    (hok : (execUpdate W tick true ex table sets c.clause).1.ok = true)
    (hids : (execUpdate W tick true ex table sets c.clause).2.pool.size ≤ 2 ^ 32) :
    ∃ t', (execUpdate W tick true ex table sets c.clause).2.catalog =
        ex.catalog.setDatabase key (db.setTable table.table t') ∧
      (∀ rid, ¬Selected W.regex c.clause t ex.pool rid → t'.getRow rid = t.getRow rid) ∧
      ∀ rid row, t.getRow rid = some row → Selected W.regex c.clause t ex.pool rid →
        ∃ row', t'.getRow rid = some row' ∧
          Replaced t sets (execUpdate W tick true ex table sets c.clause).2.pool row row' := by
  have hrows : RowsInterned t ex.pool := fun rid row hrow => h.interned hrow
  have hrows' := hrows.extends (candidateRows_extends tick.rowOrder t c ex.pool)
  have hlists := candidates_lists tick.rowOrder h hn hsize hclean
  have herrs := fun rid (_ : rid ∈ (candidateRows tick.rowOrder t c.clause ex.pool).1) =>
    @candidates_errs W.regex t ex.pool c rid tick.rowOrder hrows hsize hclean
  have hwidth : ∀ rid row, t.getRow rid = some row → row.cells.length = t.cols.length := by
    intro rid row hrow
    have hvalid := (h.inv hn).1.valid rid row hrow
    unfold Table.validateRow at hvalid
    split at hvalid
    · cases hvalid
    · rename_i hlen
      exact not_not.mp hlen
  unfold execUpdate ifAllowed at hok hids ⊢
  rw [hres, if_pos rfl] at hok hids ⊢
  dsimp only at hok hids ⊢
  have hnone : (untilError (updateOne W.regex c.clause sets)
      (candidateRows tick.rowOrder t c.clause ex.pool).1
      ⟨t, (candidateRows tick.rowOrder t c.clause ex.pool).2, []⟩).1 = none := by
    by_contra hne
    rw [(withRows_fails _ _).mpr hne] at hok
    cases hok
  obtain ⟨-, hother, hsel⟩ := updateLoop hrows' (fun s hs => StringPool.internAll_lookup hs)
    (candidateRows_nodup h hn tick.rowOrder c) (.start t _ c _) (.inr rfl) herrs hnone
  refine ⟨_, rfl, fun rid hrid => hother rid ?_, fun rid row hrow hrid => ?_⟩
  · exact fun hin => hrid ((hlists.mem rid).mp ((mem_selection herrs).mpr hin))
  · obtain ⟨hin, hpick⟩ := (mem_selection herrs).mp ((hlists.mem rid).mpr hrid)
    obtain ⟨row₀, row', hrow₀, hrow', hstores⟩ := hsel rid hin hpick
    obtain rfl : row₀ = row := Option.some.inj (hrow₀.symm.trans hrow)
    exact ⟨row', hrow', hstores.replaced (hwidth rid row₀ hrow) hids⟩

/-- Every statement on a table acts on exactly the rows on which WHERE is true, whichever access
path it takes, while no row id has been handed out twice and string ids fit into 32 bits. -/
theorem acts_on_selected (h : Table.Reach n ex.pool t) (hn : n ≤ 2 ^ 64)
    (hres : resolveTable ex.catalog table = .ok (key, db, t))
    (hsize : ex.pool.size + c.strings.length ≤ 2 ^ 32)
    (hclean : Errorless W.regex c.clause t ex.pool) :
    ActsOnSelected W tick ex table key db t c.clause where
  candidates _ hsel := mem_candidates tick.rowOrder h hn hsize hsel
  select _ hagg hok := select_selected hres h hn hsize hclean hagg hok
  count := count_selected hres (fun _ _ hrow => h.interned hrow) hclean
  delete := delete_selected hres h hn hsize hclean
  update _ hok hids := update_selected hres h hn hsize hclean hok hids

end Statements

def idIs (v : Int) : Cond := some (.leaf (.cmp "id".toList .eq (.lit (.int v))))

def idOver (v : Int) : Cond := some (.leaf (.cmp "id".toList .gt (.lit (.int v))))

def baseOf (t : Table) : Database := ⟨"d".toList, 0, Finmap.singleton "t".toList t⟩

def serving (pool : StringPool) (t : Table) : Executor :=
  { sampleStart with
    pool := pool
    catalog := ⟨Finmap.singleton "d".toList (baseOf t), "d".toList, 1⟩ }

theorem serving_table (pool : StringPool) (t : Table) :
    resolveTable (serving pool t).catalog ⟨[], "t".toList⟩ = .ok ("d".toList, baseOf t, t) := rfl

theorem fewRows_row {rid : RowId} {row : Row} (h : Table.fewRows.getRow rid = some row) :
    ∃ v, row = ⟨[.int v]⟩ := by
  have hkeys : Table.fewRows.rows.keys = {2, 3} := by decide +kernel
  have hrid : rid ∈ Table.fewRows.rows.keys := Finmap.mem_keys.mpr (Finmap.mem_of_lookup_eq_some h)
  rw [hkeys, Finset.mem_insert, Finset.mem_singleton] at hrid
  rcases hrid with rfl | rfl
  · exact ⟨5, (Option.some.inj (h.symm.trans rfl))⟩
  · exact ⟨9, (Option.some.inj (h.symm.trans rfl))⟩

theorem acts_on_selected_fewRows :
    ActsOnSelected sampleWorld (sampleTick 0 []) (serving .new Table.fewRows) ⟨[], "t".toList⟩
        "d".toList (baseOf Table.fewRows) Table.fewRows (idIs 5).clause ∧
      ActsOnSelected sampleWorld (sampleTick 0 []) (serving .new Table.fewRows) ⟨[], "t".toList⟩
        "d".toList (baseOf Table.fewRows) Table.fewRows (idOver 4).clause := by
  refine ⟨acts_on_selected Table.fewRows_reach (by decide) (serving_table .new Table.fewRows)
      (by decide) fun rid row hrow => ?_,
    acts_on_selected Table.fewRows_reach (by decide) (serving_table .new Table.fewRows)
      (by decide) fun rid row hrow => ?_⟩
  · obtain ⟨v, rfl⟩ := fewRows_row hrow
    rfl
  · obtain ⟨v, rfl⟩ := fewRows_row hrow
    rfl

/-! A full pool. -/

def letters (n : Nat) : List Text := (List.range n).map fun k => List.replicate (k + 1) 'a'

theorem exists_pool (n : Nat) : ∃ pool : StringPool, pool.strings = [] :: letters n := by
  induction n with
  | zero => exact ⟨.new, rfl⟩
  | succ n ih =>
    obtain ⟨pool, hpool⟩ := ih
    have hnew : pool.index.lookup (List.replicate (n + 1) 'a') = none := by
      cases hid : pool.index.lookup (List.replicate (n + 1) 'a') with
      | none => rfl
      | some id =>
        obtain ⟨i, hi, hget, -⟩ := (pool.indexed _ id).mp hid
        obtain ⟨j, rfl⟩ := Nat.exists_eq_succ_of_ne_zero (Nat.ne_of_gt hi)
        rw [hpool] at hget
        obtain ⟨x, hx, heq⟩ := List.mem_map.mp (List.mem_of_getElem? hget)
        have hlen := congrArg List.length heq
        simp only [List.length_replicate] at hlen
        rw [List.mem_range] at hx
        omega
    refine ⟨pool.push _ hnew, ?_⟩
    simp [StringPool.push, hpool, letters, List.range_succ]

theorem intern_new {pool : StringPool} {s : Text} (h : pool.index.lookup s = none) :
    (pool.intern s).2.strings = pool.strings ++ [s] ∧
      (pool.intern s).2.index.lookup s = some (pool.size % 2 ^ 32) ∧
      ∀ s', s' ≠ s → (pool.intern s).2.index.lookup s' = pool.index.lookup s' := by
  unfold StringPool.intern
  split
  · rename_i id hid
    cases h.symm.trans hid
  · exact ⟨rfl, Finmap.lookup_insert _, fun s' hs => Finmap.lookup_insert_of_ne _ hs⟩

theorem lookup_letter {pool : StringPool} {n : Nat} (h : pool.strings = [] :: letters n) {c : Char}
    (hc : c ≠ 'a') : pool.index.lookup [c] = none := by
  cases hid : pool.index.lookup [c] with
  | none => rfl
  | some id =>
    obtain ⟨i, hi, hget, -⟩ := (pool.indexed _ id).mp hid
    obtain ⟨j, rfl⟩ := Nat.exists_eq_succ_of_ne_zero (Nat.ne_of_gt hi)
    rw [h] at hget
    obtain ⟨x, -, heq⟩ := List.mem_map.mp (List.mem_of_getElem? hget)
    have hmem : c ∈ List.replicate (x + 1) 'a' := by
      rw [heq]
      exact List.mem_singleton_self c
    exact absurd (List.eq_of_mem_replicate hmem) hc

theorem size_letters {pool : StringPool} {n : Nat} (h : pool.strings = [] :: letters n) :
    pool.size = n + 1 := by
  simp [StringPool.size, h, letters]

theorem resolve_letters {pool : StringPool} {n : Nat} (h : pool.strings = [] :: letters (n + 1)) :
    pool.resolve 1 = ['a'] := by
  simp [StringPool.resolve, h, letters, List.range_succ_eq_map]

theorem exists_full_pool : ∃ pool : StringPool, pool.size = 2 ^ 32 ∧ pool.resolve 1 = ['a'] ∧
    pool.index.lookup ['p'] = none ∧ pool.index.lookup ['q'] = none := by
  obtain ⟨n, hn⟩ : ∃ n, n + 1 + 1 = 2 ^ 32 := ⟨2 ^ 32 - 2, rfl⟩
  obtain ⟨pool, hpool⟩ := exists_pool (n + 1)
  exact ⟨pool, (size_letters hpool).trans hn, resolve_letters hpool,
    lookup_letter hpool (by decide), lookup_letter hpool (by decide)⟩

/-- In a full pool a new string is taken for the marker, and the next one for the string `a`. -/
theorem stored_full {pool : StringPool} (hsize : pool.size = 2 ^ 32) (ha : pool.resolve 1 = ['a'])
    {s s' : Text} (hs : pool.index.lookup s = none) (hs' : pool.index.lookup s' = none)
    (hne : s' ≠ s) :
    let p := ((pool.intern s).2.intern s').2
    (Literal.string s).stored p = .string [] ∧ (Literal.string s').stored p = .string ['a'] := by
  obtain ⟨hstrings, hid, hother⟩ := intern_new hs
  have hnew' : (pool.intern s).2.index.lookup s' = none := (hother s' hne).trans hs'
  obtain ⟨-, hid', hother'⟩ := intern_new hnew'
  have hext : pool.Extends ((pool.intern s).2.intern s').2 :=
    (pool.intern_extends s).trans (StringPool.intern_extends _ s')
  have hsize₁ : (pool.intern s).2.size = 2 ^ 32 + 1 := by
    rw [StringPool.size, hstrings, List.length_append, ← hsize]
    rfl
  have h0 : pool.resolve 0 = [] := by
    simp [StringPool.resolve, List.getD_eq_getElem?_getD, pool.marker]
  have hs₀ : ((pool.intern s).2.intern s').2.index.lookup s = some 0 := by
    rw [hother' s hne.symm, hid, hsize, Nat.mod_self]
  have hs₁ : ((pool.intern s).2.intern s').2.index.lookup s' = some 1 := by
    rw [hid', hsize₁]
    rfl
  constructor
  · simp only [Literal.stored, hs₀, Option.elim_some]
    rw [hext.resolve (by rw [hsize]; decide), h0]
  · simp only [Literal.stored, hs₁, Option.elim_some]
    rw [hext.resolve (by rw [hsize]; decide), ha]

def keyColumn : ColumnDef := { name := "k".toList, type := .string, notNull := true, indexed := true }

def textColumn : ColumnDef := { name := "s".toList, type := .string }

def oneText (pool : StringPool) : Table :=
  ((Table.new "t".toList [keyColumn, textColumn]).insertRow pool ⟨[.string 1, .string 0]⟩).2

def textsAre : Cond :=
  some (.andOr .and (.leaf (.cmp "s".toList .eq (.lit (.string ['p']))))
    (.leaf (.cmp "k".toList .eq (.lit (.string ['q'])))))

theorem oneText_row {pool : StringPool} {rid : RowId} {row : Row}
    (h : (oneText pool).getRow rid = some row) : rid = 1 ∧ row = ⟨[.string 1, .string 0]⟩ := by
  have hrows : (oneText pool).rows = Finmap.singleton 1 ⟨[.string 1, .string 0]⟩ := rfl
  unfold Table.getRow at h
  rw [hrows] at h
  obtain rfl : rid = 1 := (Finmap.mem_singleton _ _ _).mp (Finmap.mem_of_lookup_eq_some h)
  rw [Finmap.lookup_singleton_eq] at h
  exact ⟨rfl, (Option.some.inj h).symm⟩

theorem oneText_reach {pool : StringPool} (hsize : 1 < pool.size) :
    Table.Reach 1 pool (oneText pool) := by
  refine .insertRow _ (.new pool _ _) ?_
  intro v hv
  simp only [List.mem_cons, List.not_mem_nil, or_false] at hv
  rcases hv with rfl | rfl
  · exact hsize
  · exact Nat.lt_trans Nat.zero_lt_one hsize

theorem textsAre_holds {pool p : StringPool} {regex : Regex} (h0 : p.resolve 0 = [])
    (h1 : p.resolve 1 = ['a']) (lit : Literal → Literal) :
    textsAre.holds regex (cells (oneText pool) ⟨[.string 1, .string 0]⟩ p) lit =
      some (CmpOp.eq.test ((Literal.string []).cmp (lit (.string ['p']))) &&
        CmpOp.eq.test ((Literal.string ['a']).cmp (lit (.string ['q'])))) := by
  have hs : cells (oneText pool) ⟨[.string 1, .string 0]⟩ p "s".toList = some (.string []) := by
    show some (Literal.string (p.resolve 0)) = _
    rw [h0]
  have hk : cells (oneText pool) ⟨[.string 1, .string 0]⟩ p "k".toList = some (.string ['a']) := by
    show some (Literal.string (p.resolve 1)) = _
    rw [h1]
  simp only [textsAre, Cond.holds, Option.elim_some, Expr.holds, Leaf.holds, hs, hk, Option.map_some,
    Option.bind_some, BinBool.combine]

theorem oneText_indexed {pool : StringPool} (hsize : pool.size = 2 ^ 32)
    (ha : pool.resolve 1 = ['a']) (hq : pool.index.lookup ['q'] = none) :
    indexedRows (oneText pool) textsAre.clause pool = ([], (pool.intern ['q']).2) := by
  have hrun : indexedRows (oneText pool) textsAre.clause pool =
      (((BPlusTreeIndex.new 32).insert (valueCmp pool) (.string 1) 1).findEqual
        (valueCmp (pool.intern ['q']).2) (.string (pool.intern ['q']).1),
        (pool.intern ['q']).2) := rfl
  have hleaf := BPlusTreeIndex.oneLeaf_new (t := BPlusTreeIndex.new 32) (valueCmp pool) rfl rfl
    (Value.string 1) 1
  have hext := pool.intern_extends ['q']
  have hid : (pool.intern ['q']).1 = 0 := by
    have hlook := (intern_new hq).2.1
    rw [StringPool.intern_lookup, hsize, Nat.mod_self] at hlook
    exact Option.some.inj hlook
  have h0 : (pool.intern ['q']).2.resolve 0 = [] := by
    simp [StringPool.resolve, List.getD_eq_getElem?_getD, (pool.intern ['q']).2.marker]
  have h1 : (pool.intern ['q']).2.resolve 1 = ['a'] := by
    rw [hext.resolve (by rw [hsize]; decide), ha]
  rw [hrun, hleaf.findEqual, hid]
  simp [BPlusTreeIndex.scanLeaf, valueCmp, Value.kind, h0, h1, cmpBy]

theorem setTable_inj {cat : Catalog} {db : Database} {key tname : Text} {t t' : Table}
    (h : cat.setDatabase key (db.setTable tname t) = cat.setDatabase key (db.setTable tname t')) :
    t = t' := by
  have hlook := congrArg (fun c => (c.dbs.lookup key).bind (·.tables.lookup tname)) h
  simpa [Catalog.setDatabase, Database.setTable, Finmap.lookup_insert] using hlook

theorem oneText_errorless {pool : StringPool} :
    Errorless literally textsAre.clause (oneText pool) pool := by
  intro rid row hrow
  obtain ⟨-, rfl⟩ := oneText_row hrow
  rfl

theorem not_deleted {pool : StringPool} (hsize : pool.size = 2 ^ 32) (ha : pool.resolve 1 = ['a'])
    (hp : pool.index.lookup ['p'] = none) (hq : pool.index.lookup ['q'] = none) {tick : Tick} :
    ¬ActsOnSelected sampleWorld tick (serving pool (oneText pool)) ⟨[], "t".toList⟩ "d".toList
      (baseOf (oneText pool)) (oneText pool) textsAre.clause := by
  intro hacts
  have hrow : (oneText pool).getRow 1 = some ⟨[.string 1, .string 0]⟩ := rfl
  have h0 : pool.resolve 0 = [] := by
    simp [StringPool.resolve, List.getD_eq_getElem?_getD, pool.marker]
  have hreach : Table.Reach 1 pool (oneText pool) := oneText_reach (by rw [hsize]; decide)
  have hrows : RowsInterned (oneText pool) pool := fun rid row h => hreach.interned h
  -- Of the two new strings the first one is taken for the marker. The scan alone would meet `p`
  -- first, and the look-up has interned `q`.
  have hsel : Selected literally textsAre.clause (oneText pool) pool 1 := by
    apply (picks_iff hrows).mp
    obtain ⟨hs, hs'⟩ := stored_full hsize ha hp hq (by decide)
    have hpool : pool.internAll textsAre.strings = ((pool.intern ['p']).2.intern ['q']).2 := rfl
    rw [picks_some hrow, textsAre_holds h0 ha, hpool, hs, hs']
    rfl
  have hnone : (matching literally textsAre.clause (oneText pool)
      ((oneText pool).allRowIds tick.rowOrder) (pool.intern ['q']).2 []).1 = [] := by
    have hext := pool.intern_extends ['q']
    have hall : (pool.intern ['q']).2.internAll textsAre.strings =
        ((pool.intern ['q']).2.intern ['p']).2 := by
      show (((pool.intern ['q']).2.intern ['p']).2.intern ['q']).2 = _
      rw [StringPool.intern_again (StringPool.intern_extends _ _)]
    obtain ⟨hs, hs'⟩ := stored_full hsize ha hq hp (by decide)
    rw [(matching_clean (hrows.extends hext) (stage_refl _ textsAre)).1, hall]
    apply List.filter_eq_nil_iff.mpr
    intro rid _
    cases hrid : (oneText pool).getRow rid with
    | none => simp [picks_none hrid]
    | some row =>
      obtain ⟨rfl, rfl⟩ := oneText_row hrid
      rw [picks_some hrow, textsAre_holds (by rw [hext.resolve (by rw [hsize]; decide), h0])
        (by rw [hext.resolve (by rw [hsize]; decide), ha]), hs, hs']
      decide
  have hcand : candidateRows tick.rowOrder (oneText pool) textsAre.clause pool =
      ((oneText pool).allRowIds tick.rowOrder, (pool.intern ['q']).2) := by
    have hix := oneText_indexed hsize ha hq
    rw [candidateRows_of_not_indexed _ (by rw [hix]), hix]
  obtain ⟨-, t', hcat, hleft⟩ := hacts.delete
  have hkept : (execDelete sampleWorld tick true (serving pool (oneText pool)) ⟨[], "t".toList⟩
      textsAre.clause).2.catalog = (serving pool (oneText pool)).catalog.setDatabase "d".toList
        ((baseOf (oneText pool)).setTable "t".toList (oneText pool)) := by
    unfold execDelete ifAllowed
    rw [serving_table, if_pos rfl]
    show (withRows _ _ _ _ (untilError deleteOne (matching literally textsAre.clause (oneText pool)
      (candidateRows tick.rowOrder (oneText pool) textsAre.clause pool).1
      (candidateRows tick.rowOrder (oneText pool) textsAre.clause pool).2 []).1 _)).2.catalog = _
    rw [hcand, hnone]
    rfl
  obtain rfl := setTable_inj (hkept.symm.trans hcat)
  rw [(hleft 1).1 hsel] at hrow
  cases hrow

/-! A row that is listed twice. -/

section Twice
variable {t : Table} {ix : BPlusTreeIndex Value} {tick : Tick}

structure Twice (t : Table) (ix : BPlusTreeIndex Value) : Prop where
  cols : t.cols = [Table.idColumn]
  rows : t.rows = Finmap.singleton 1 ⟨[.int 1]⟩
  indexes : t.indexes = [some ix]
  leaf : ix.OneLeaf 32 [.int 1, .int 1] [1, 1]

theorem Twice.row (h : Twice t ix) {rid : RowId} {row : Row} (hrow : t.getRow rid = some row) :
    rid = 1 ∧ row = ⟨[.int 1]⟩ := by
  unfold Table.getRow at hrow
  rw [h.rows] at hrow
  obtain rfl : rid = 1 := (Finmap.mem_singleton _ _ _).mp (Finmap.mem_of_lookup_eq_some hrow)
  rw [Finmap.lookup_singleton_eq] at hrow
  exact ⟨rfl, (Option.some.inj hrow).symm⟩

theorem Twice.errorless (h : Twice t ix) : Errorless literally (idIs 1).clause t .new := by
  intro rid row hrow
  obtain ⟨-, rfl⟩ := h.row hrow
  obtain ⟨name, cols, rows, nextRid, indexes⟩ := t
  obtain rfl : cols = [Table.idColumn] := h.cols
  rfl

theorem Twice.candidates (h : Twice t ix) :
    candidateRows tick.rowOrder t (idIs 1).clause .new = ([1, 1], .new) := by
  obtain ⟨name, cols, rows, nextRid, indexes⟩ := t
  obtain rfl : cols = [Table.idColumn] := h.cols
  obtain rfl : indexes = [some ix] := h.indexes
  have hfound : ix.findEqual (valueCmp .new) (.int 1) = [1, 1] :=
    h.leaf.findEqual (valueCmp .new) (.int 1)
  have hindexed : indexedRows ⟨name, [Table.idColumn], rows, nextRid, [some ix]⟩ (idIs 1).clause .new =
      (ix.findEqual (valueCmp .new) (.int 1), .new) := rfl
  rw [hfound] at hindexed
  rw [candidateRows_of_indexed _ (by rw [hindexed]; exact List.cons_ne_nil _ _), hindexed]

theorem Twice.object (h : Twice t ix) :
    objectAt t [{ col := "*".toList }] .new 1 = .ok "\x7b\"id\":1\x7d".toList := by
  obtain ⟨name, cols, rows, nextRid, indexes⟩ := t
  obtain rfl : cols = [Table.idColumn] := h.cols
  obtain rfl : rows = Finmap.singleton 1 ⟨[.int 1]⟩ := h.rows
  rfl

theorem Twice.select (h : Twice t ix) :
    (execSelect sampleWorld tick (serving .new t) [{ col := "*".toList }] ⟨[], "t".toList⟩
      (idIs 1).clause).1 = .done "[\x7b\"id\":1\x7d,\x7b\"id\":1\x7d]".toList := by
  have hcand := @Twice.candidates t ix tick h
  apply (execSelect_plain (serving_table .new t) rfl).1
    ["\x7b\"id\":1\x7d".toList, "\x7b\"id\":1\x7d".toList]
  show (selectRows literally (idIs 1).clause t [{ col := "*".toList }]
    (candidateRows tick.rowOrder t (idIs 1).clause .new).1
    (candidateRows tick.rowOrder t (idIs 1).clause .new).2 []).1 = _
  rw [hcand]
  obtain ⟨name, cols, rows, nextRid, indexes⟩ := t
  obtain rfl : cols = [Table.idColumn] := h.cols
  obtain rfl : rows = Finmap.singleton 1 ⟨[.int 1]⟩ := h.rows
  rfl

theorem Twice.not_acts (h : Twice t ix) : ¬ActsOnSelected sampleWorld tick (serving .new t)
    ⟨[], "t".toList⟩ "d".toList (baseOf t) t (idIs 1).clause := by
  intro hacts
  have hselect := @Twice.select t ix tick h
  obtain ⟨rids, objs, hlists, hobjs, hresult⟩ := hacts.select [{ col := "*".toList }] rfl (by
    rw [hselect]
    rfl)
  have hone : ∀ rid ∈ rids, rid = 1 := by
    intro rid hrid
    obtain ⟨row, hrow, -⟩ := (hlists.mem rid).mp hrid
    exact (h.row hrow).1
  have hjson := congrArg ExecResult.json (hselect.symm.trans hresult)
  cases hobjs with
  | nil => cases hjson
  | @cons rid obj rids objs hobj hrest =>
    obtain rfl := hone rid (List.mem_cons_self ..)
    obtain rfl := Except.ok.inj (h.object.symm.trans hobj)
    cases hrest with
    | nil => cases hjson
    | @cons rid' _ _ _ _ _ =>
      have hsame := hone rid' (by simp)
      exact (List.nodup_cons.mp hlists.nodup).1 (by simp [hsame])

end Twice

/-- Ids that wrap, of rows or of strings, each break it on their own. -/
theorem not_acts_on_selected :
    (¬∀ (W : World) (tick : Tick) (ex : Executor) (table : Name) (key : Text) (db : Database)
      (n : Nat) (t : Table) (c : Cond), Table.Reach n ex.pool t → FromParser c.clause →
        resolveTable ex.catalog table = .ok (key, db, t) →
        ex.pool.size + c.strings.length ≤ 2 ^ 32 → Errorless W.regex c.clause t ex.pool →
        ActsOnSelected W tick ex table key db t c.clause) ∧
    ¬∀ (W : World) (tick : Tick) (ex : Executor) (table : Name) (key : Text) (db : Database)
      (n : Nat) (t : Table) (c : Cond), Table.Reach n ex.pool t → n ≤ 2 ^ 64 →
        FromParser c.clause → resolveTable ex.catalog table = .ok (key, db, t) →
        Errorless W.regex c.clause t ex.pool →
        ActsOnSelected W tick ex table key db t c.clause := by
  constructor
  · intro h
    obtain ⟨n, t, ht, hcols, hrows, ix, hix, hleaf⟩ := Table.exists_twice
    have htwice : Twice t ix := ⟨hcols, hrows, hix, hleaf⟩
    have hparsed : FromParser (idIs 1).clause :=
      ⟨20, "WHERE id = 1".toList, [], by decide, by decide +kernel⟩
    have hsize : StringPool.new.size + (idIs 1).strings.length ≤ 2 ^ 32 := by decide
    have hacts := h sampleWorld (sampleTick 0 []) (serving .new t) ⟨[], "t".toList⟩ _ _ n t (idIs 1)
      ht hparsed (serving_table .new t) hsize htwice.errorless
    exact htwice.not_acts hacts
  · intro h
    obtain ⟨pool, hsize, ha, hp, hq⟩ := exists_full_pool
    have hparsed : FromParser textsAre.clause :=
      ⟨40, "WHERE s = \"p\" AND k = \"q\"".toList, [], by decide, by decide +kernel⟩
    have hreach : Table.Reach 1 pool (oneText pool) := oneText_reach (by rw [hsize]; decide)
    have hacts := h sampleWorld (sampleTick 0 []) (serving pool (oneText pool)) ⟨[], "t".toList⟩ _ _ 1
      (oneText pool) textsAre hreach (by decide) hparsed (serving_table pool _) oneText_errorless
    exact not_deleted hsize ha hp hq hacts

end Dbms.Exec
