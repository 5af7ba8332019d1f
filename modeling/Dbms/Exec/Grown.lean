import Dbms.Core.IndexAgreement
import Dbms.Exec.Trace
import Dbms.Lib.Loop
import Dbms.Sql.Meaning

/-! What the loops over the rows of a table do to the pool and to the table, whatever clause they
work on and wherever they stop. -/

namespace Dbms.Core
variable {pool pool' pool'' : StringPool} {s : Text} {n m : Nat} {t : Table}

def StringPool.Grows (A : Text → Prop) (pool pool' : StringPool) : Prop :=
  ∃ ss, (∀ s ∈ ss, A s) ∧ pool' = pool.internAll ss

namespace StringPool
variable {A B : Text → Prop}

theorem Grows.refl (A : Text → Prop) (pool : StringPool) : Grows A pool pool := ⟨[], nofun, rfl⟩

theorem Grows.trans (h : Grows A pool pool') (h' : Grows A pool' pool'') : Grows A pool pool'' := by
  obtain ⟨ss, hss, rfl⟩ := h
  obtain ⟨ss', hss', rfl⟩ := h'
  exact ⟨ss ++ ss', List.forall_mem_append.mpr ⟨hss, hss'⟩, (internAll_append ..).symm⟩

theorem Grows.mono (h : Grows A pool pool') (hA : ∀ s, A s → B s) : Grows B pool pool' := by
  obtain ⟨ss, hss, rfl⟩ := h
  exact ⟨ss, fun s hs => hA s (hss s hs), rfl⟩

theorem Grows.extends (h : Grows A pool pool') : pool.Extends pool' := by
  obtain ⟨ss, -, rfl⟩ := h
  exact pool.internAll_extends ss

theorem grows_intern (pool : StringPool) (hs : A s) : Grows A pool (pool.intern s).2 :=
  ⟨[s], List.forall_mem_singleton.mpr hs, rfl⟩

theorem mem_intern {s' : Text} (hs : s ∈ (pool.intern s').2.strings) : s ∈ pool.strings ∨ s = s' := by
  unfold intern at hs
  split at hs
  · exact .inl hs
  · exact (List.mem_append.mp hs).imp_right List.mem_singleton.mp

theorem Grows.mem (h : Grows A pool pool') (hs : s ∈ pool'.strings) : s ∈ pool.strings ∨ A s := by
  obtain ⟨ss, hss, rfl⟩ := h
  induction ss generalizing pool with
  | nil => exact .inl hs
  | cons s' ss ih =>
    obtain ⟨hs', hss⟩ := List.forall_mem_cons.mp hss
    rcases ih hss hs with hmem | hA
    · refine (mem_intern hmem).imp_right ?_
      rintro rfl
      exact hs'
    · exact .inr hA

end StringPool

theorem Table.Reach.grows {A : Text → Prop} (h : Table.Reach n pool t)
    (hp : StringPool.Grows A pool pool') : Table.Reach n pool' t := by
  obtain ⟨ss, -, rfl⟩ := hp
  induction ss generalizing pool with
  | nil => exact h
  | cons s ss ih => exact ih (h.intern s)

end Dbms.Core

open Dbms.Core Dbms.Lib Dbms.Sql

namespace Dbms.Exec
variable {regex : Regex} {t : Table} {row : Row} {w : WhereClause} {pool p : StringPool} {err : Text}
  {n : Nat} {rid : RowId} {s : RowsState} {sets : List (Text × Literal)} {cols : List Text}
  {tup : List Literal} {ids : List RowId} {items : List SelectItem} {A : Text → Prop}

/-! The strings of the literals that a statement may intern. -/

def nodeStrings : WhereNode → List Text
  | .cmp _ _ (.lit l) => l.strings
  | .between _ a b => a.strings ++ b.strings
  | _ => []

def whereStrings (w : WhereClause) : List Text := w.nodes.flatMap nodeStrings

def setStrings (sets : List (Text × Literal)) : List Text := sets.flatMap fun set => set.2.strings

def statementStrings : Statement → List Text
  | .createTable _ cols => cols.filterMap ColumnDef.defaultStr
  | .insert _ _ rows => rows.flatMap (List.flatMap Literal.strings)
  | .update _ sets w => whereStrings w ++ setStrings sets
  | .delete _ w | .select _ _ w => whereStrings w
  | _ => []

theorem literalToValue_grows {l : Literal} (h : ∀ s ∈ l.strings, A s) (pool : StringPool) :
    StringPool.Grows A pool (literalToValue l pool).2 := ⟨l.strings, h, literalToValue_pool l pool⟩

theorem litToVal_extends (l : Literal) (pool : StringPool) : pool.Extends (litToVal l pool).2 :=
  (literalToValue_grows (fun _ h => h) pool).extends

theorem mem_whereStrings {node : WhereNode} {s : Text} (h : node ∈ w.nodes) (hs : s ∈ nodeStrings node) :
    s ∈ whereStrings w := List.mem_flatMap.mpr ⟨node, h, hs⟩

section
variable (hw : ∀ s ∈ whereStrings w, A s)
include hw

theorem evalNode_grows (n idx : Nat) (pool : StringPool) (err : Text) :
    StringPool.Grows A pool (evalNode regex t row w n idx pool err).pool := by
  have hnode : ∀ {i node}, w.nodes[i]? = some node → ∀ s ∈ nodeStrings node, A s :=
    fun hi s hs => hw s (mem_whereStrings (List.mem_of_getElem? hi) hs)
  induction n generalizing idx pool err with
  | zero => exact .refl A pool
  | succ n ih =>
    unfold evalNode
    split
    · exact .refl A pool
    · exact ih ..
    · rename_i kind left right hboth
      have hleft := ih left pool err
      dsimp only
      split
      · exact hleft
      · have hright := hleft.trans (ih right _ (evalNode regex t row w n left pool err).err)
        split <;> exact hright
    · rename_i col op rhs hcmp
      unfold evalCmp
      split
      · exact .refl A pool
      · cases rhs with
        | col name =>
          dsimp only
          split <;> exact .refl A pool
        | lit l => exact literalToValue_grows (hnode hcmp) pool
    · rename_i col a b hbetween
      obtain ⟨ha, hb⟩ := List.forall_mem_append.mp (hnode hbetween)
      unfold evalBetween
      split
      · exact .refl A pool
      · exact (literalToValue_grows ha pool).trans (literalToValue_grows hb _)
    · rename_i col pattern hlike
      unfold evalLike
      split
      · split <;> exact .refl A pool
      · exact .refl A pool

theorem evalWhere_grows (regex : Regex) (t : Table) (row : Row) (pool : StringPool)
    (err : Text) : StringPool.Grows A pool (evalWhere regex t row w pool err).pool := by
  unfold evalWhere
  split
  · exact .refl A pool
  · exact evalNode_grows hw ..

theorem extractIndexEq_grows (t : Table) (n idx : Nat) (pool : StringPool) :
    StringPool.Grows A pool (extractIndexEq t w n idx pool).2 := by
  induction n generalizing idx pool with
  | zero => exact .refl A pool
  | succ n ih =>
    unfold extractIndexEq
    split
    · exact ih ..
    · rename_i left right hnode
      have hleft := ih left pool
      cases hl : extractIndexEq t w n left pool with
      | mk found p =>
        rw [hl] at hleft
        cases found with
        | some found => exact hleft
        | none => exact hleft.trans (ih right p)
    · rename_i col lit hnode
      split
      · split
        · exact literalToValue_grows
            (fun s hs => hw s (mem_whereStrings (List.mem_of_getElem? hnode) hs)) pool
        · exact .refl A pool
      · exact .refl A pool
    · exact .refl A pool

theorem candidateRows_grows (o : HashOrder RowId) (t : Table) (pool : StringPool) :
    StringPool.Grows A pool (candidateRows o t w pool).2 := by
  unfold candidateRows
  split
  · exact .refl A pool
  · rename_i root hroot
    have hindex := extractIndexEq_grows hw t w.nodes.length root pool
    cases hx : extractIndexEq t w w.nodes.length root pool with
    | mk found p =>
      rw [hx] at hindex
      cases found with
      | none => exact hindex
      | some found =>
        dsimp only
        split <;> exact hindex

theorem matching_grows (regex : Regex) (t : Table) (ids : List RowId) (pool : StringPool)
    (err : Text) : StringPool.Grows A pool (matching regex w t ids pool err).2.2 := by
  induction ids generalizing pool err with
  | nil => exact .refl A pool
  | cons rid ids ih =>
    unfold matching
    split
    · exact ih pool err
    · rename_i row hrow
      exact (evalWhere_grows hw regex t row pool err).trans (ih _ _)

theorem selectRows_grows (regex : Regex) (t : Table) (items : List SelectItem) (ids : List RowId)
    (pool : StringPool) (err : Text) :
    StringPool.Grows A pool (selectRows regex w t items ids pool err).2 := by
  induction ids generalizing pool err with
  | nil => exact .refl A pool
  | cons rid ids ih =>
    unfold selectRows
    split
    · exact ih pool err
    · rename_i row hrow
      have heval := evalWhere_grows hw regex t row pool err
      dsimp only
      split
      · split
        · exact heval
        · exact heval.trans (ih _ _)
      · exact heval.trans (ih _ _)

end

theorem setCells_grows (sets : List (Text × Literal)) (hsets : ∀ s ∈ setStrings sets, A s)
    (t : Table) (unknown : Text → Text) (row : Row) (pool : StringPool) :
    StringPool.Grows A pool (setCells t unknown sets row pool).2 := by
  induction sets generalizing row pool with
  | nil => exact .refl A pool
  | cons set sets ih =>
    obtain ⟨c, lit⟩ := set
    obtain ⟨hlit, hsets⟩ := List.forall_mem_append.mp hsets
    unfold setCells
    split
    · exact .refl A pool
    · exact (literalToValue_grows hlit pool).trans (ih hsets ..)

theorem internDefaults_grows {cs : List ColumnDef}
    (hcs : ∀ c ∈ cs, ∀ s, c.defaultStr = some s → A s) (pool : StringPool) :
    StringPool.Grows A pool (internDefaults cs pool).2 := by
  induction cs generalizing pool with
  | nil => exact .refl A pool
  | cons c cs ih =>
    obtain ⟨hc, hcs⟩ := List.forall_mem_cons.mp hcs
    unfold internDefaults
    split
    · exact ih hcs pool
    · rename_i s hs
      exact (pool.grows_intern (hc s hs)).trans (ih hcs _)

theorem setCells_interned {unknown : Text → Text} {row' : Row}
    (hrow : ∀ v ∈ row.cells, v.Interned pool)
    (h : setCells t unknown sets row pool = (.ok row', p)) : ∀ v ∈ row'.cells, v.Interned p := by
  induction sets generalizing row pool with
  | nil =>
    cases h
    exact hrow
  | cons set sets ih =>
    obtain ⟨c, lit⟩ := set
    unfold setCells at h
    cases hc : t.columnIndex c with
    | none =>
      rw [hc] at h
      cases h
    | some idx =>
      rw [hc] at h
      apply ih _ h
      intro v hv
      rcases List.mem_or_eq_of_mem_set hv with hold | rfl
      · exact (hrow v hold).extends (litToVal_extends lit pool)
      · exact literalToValue_interned lit pool

def DefaultsInterned (pool : StringPool) (cols : List ColumnDef) : Prop :=
  ∀ c ∈ cols, c.defaultStr = none ∧ ∀ v, c.defaultValue = some v → v.Interned pool

theorem DefaultsInterned.extends {cols : List ColumnDef} (h : DefaultsInterned pool cols)
    (hp : pool.Extends p) : DefaultsInterned p cols :=
  fun c hc => ⟨(h c hc).1, fun v hv => ((h c hc).2 v hv).extends hp⟩

theorem applyDefaults_interned (hcols : DefaultsInterned pool t.cols)
    (hrow : ∀ v ∈ row.cells, v.Interned pool) :
    ∀ v ∈ (applyDefaults t row).cells, v.Interned pool := by
  intro v hv
  obtain ⟨i, hi, rfl⟩ := List.mem_mapIdx.mp hv
  split
  · cases hc : t.cols[i]? with
    | none => exact hrow _ (List.getElem_mem hi)
    | some c =>
      cases hd : c.defaultValue with
      | none => simpa [hd] using hrow _ (List.getElem_mem hi)
      | some d => simpa [hd] using (hcols c (List.mem_of_getElem? hc)).2 d hd
  · exact hrow _ (List.getElem_mem hi)

theorem buildRow_grows (tup : List Literal) (htup : ∀ s ∈ tup.flatMap Literal.strings, A s)
    (t : Table) (cols : List Text) (pool : StringPool) :
    StringPool.Grows A pool (buildRow t cols tup pool).2 := by
  unfold buildRow
  split
  · exact .refl A pool
  · have hzip : ∀ s ∈ setStrings (cols.zip tup), A s := by
      intro s hs
      obtain ⟨set, hset, hs⟩ := List.mem_flatMap.mp hs
      exact htup s (List.mem_flatMap.mpr ⟨set.2, (List.of_mem_zip hset).2, hs⟩)
    have hset := setCells_grows _ hzip t ("unknown column ".toList ++ ·)
      ⟨List.replicate t.cols.length .null⟩ pool
    split <;> rename_i heq <;> rw [heq] at hset <;> exact hset

theorem buildRow_interned {row : Row} (hcols : DefaultsInterned pool t.cols)
    (h : buildRow t cols tup pool = (.ok row, p)) : ∀ v ∈ row.cells, v.Interned p := by
  unfold buildRow at h
  split at h
  · cases h
  · have hset := setCells_grows (cols.zip tup) (fun _ h => h) t ("unknown column ".toList ++ ·)
      ⟨List.replicate t.cols.length .null⟩ pool
    split at h
    · cases h
    · rename_i row₁ p₁ heq
      rw [heq] at hset
      cases h
      apply applyDefaults_interned (hcols.extends hset.extends)
      apply setCells_interned _ heq
      intro v hv
      obtain rfl := List.eq_of_mem_replicate hv
      trivial

/-- What the turns of a loop of mutations keep: the table is made by at most `n` insertions, of the
columns it had. -/
structure Turned (cs : List ColumnDef) (n : Nat) (s : RowsState) : Prop where
  reach : ∃ m ≤ n, Table.Reach m s.pool s.table
  cols : s.table.cols = cs
  defaults : DefaultsInterned s.pool cs

theorem Turned.mono {cs : List ColumnDef} {m : Nat} (h : Turned cs n s) (hm : n ≤ m) :
    Turned cs m s := by
  obtain ⟨k, hk, hreach⟩ := h.reach
  exact ⟨⟨k, hk.trans hm, hreach⟩, h.cols, h.defaults⟩

theorem Turned.grows {cs : List ColumnDef} (h : Turned cs n s) (hp : StringPool.Grows A s.pool p)
    (err : Text) :
    Turned cs n ⟨s.table, p, err⟩ := by
  obtain ⟨m, hm, hreach⟩ := h.reach
  exact ⟨⟨m, hm, hreach.grows hp⟩, h.cols, h.defaults.extends hp.extends⟩

theorem insertTuple_grows (htup : ∀ s ∈ tup.flatMap Literal.strings, A s) (cols : List Text)
    (s : RowsState) : StringPool.Grows A s.pool (insertTuple cols tup s).2.pool := by
  have hgrows := buildRow_grows tup htup s.table cols s.pool
  unfold insertTuple
  split <;> rename_i hb <;> rw [hb] at hgrows
  · exact hgrows
  · split <;> exact hgrows

theorem updateOne_grows (hw : ∀ s ∈ whereStrings w, A s) (hsets : ∀ s ∈ setStrings sets, A s)
    (regex : Regex) (rid : RowId) (s : RowsState) :
    StringPool.Grows A s.pool (updateOne regex w sets rid s).2.pool := by
  unfold updateOne
  split
  · exact .refl _ _
  rename_i rw hrow
  have heval := evalWhere_grows hw regex s.table rw s.pool s.err
  dsimp only
  split
  · have hgrows := heval.trans
      (setCells_grows sets hsets s.table (fun _ => "unknown column".toList) rw _)
    split <;> rename_i hset <;> rw [hset] at hgrows
    · exact hgrows
    · split <;> exact hgrows
  · exact heval

theorem deleteOne_grows (A : Text → Prop) (rid : RowId) (s : RowsState) :
    StringPool.Grows A s.pool (deleteOne rid s).2.pool := by
  unfold deleteOne
  split <;> exact .refl _ _

theorem insertTuple_turned {cs : List ColumnDef} (h : Turned cs n s) :
    Turned cs (n + 1) (insertTuple cols tup s).2 := by
  unfold insertTuple
  have hgrows := buildRow_grows tup (fun _ h => h) s.table cols s.pool
  cases hb : buildRow s.table cols tup s.pool with
  | mk r p =>
    rw [hb] at hgrows
    have hgrown := (h.grows hgrows s.err).mono (Nat.le_succ n)
    cases r with
    | error err => exact hgrown
    | ok row =>
      dsimp only
      rcases hins : s.table.insertRow p row with ⟨err | rid, t'⟩
      · exact Table.insertRow_error hins ▸ hgrown
      · obtain ⟨m, hm, hreach⟩ := (h.grows hgrows s.err).reach
        have hrow := buildRow_interned (h.cols ▸ h.defaults) hb
        have hnew := hreach.insertRow row hrow
        rw [hins] at hnew
        obtain ⟨-, -, -, rfl⟩ := Table.insertRow_ok hins
        exact ⟨⟨m + 1, Nat.succ_le_succ hm, hnew⟩, h.cols, hgrown.defaults⟩

theorem updateOne_turned {cs : List ColumnDef} (h : Turned cs n s) :
    Turned cs n (updateOne regex w sets rid s).2 := by
  unfold updateOne
  cases hrow : s.table.getRow rid with
  | none => exact h
  | some rw =>
    have heval := evalWhere_grows (A := fun _ => True) (w := w) (fun _ _ => trivial) regex s.table rw
      s.pool s.err
    dsimp only
    split
    · have hgrows := heval.trans (setCells_grows sets (fun _ _ => trivial) s.table
        (fun _ => "unknown column".toList) rw _)
      cases hset : setCells s.table (fun _ => "unknown column".toList) sets rw
          (evalWhere regex s.table rw w s.pool s.err).pool with
      | mk r p =>
        rw [hset] at hgrows
        have hgrown := h.grows hgrows (evalWhere regex s.table rw w s.pool s.err).err
        cases r with
        | error err => exact hgrown
        | ok nr =>
          dsimp only
          rcases hupd : s.table.updateRow p rid nr with ⟨err | _, t'⟩
          · exact Table.updateRow_error hupd ▸ hgrown
          · obtain ⟨m, hm, hreach⟩ := hgrown.reach
            obtain ⟨k, -, hbefore⟩ := h.reach
            have hnr := setCells_interned
              (fun v hv => (hbefore.interned hrow v hv).extends heval.extends) hset
            have hnew := hreach.updateRow rid nr hnr
            rw [hupd] at hnew
            obtain ⟨old, -, -, -, rfl⟩ := Table.updateRow_ok hupd
            exact ⟨⟨m, hm, hnew⟩, h.cols, hgrown.defaults⟩
    · exact h.grows heval _

theorem deleteOne_turned {cs : List ColumnDef} (h : Turned cs n s) :
    Turned cs n (deleteOne rid s).2 := by
  unfold deleteOne
  rcases hdel : s.table.deleteRow s.pool rid with ⟨err | _, t'⟩
  · exact Table.deleteRow_error hdel ▸ h
  · obtain ⟨m, hm, hreach⟩ := h.reach
    have hnew := hreach.deleteRow rid
    rw [hdel] at hnew
    obtain ⟨old, -, rfl⟩ := Table.deleteRow_ok hdel
    exact ⟨⟨m, hm, hnew⟩, h.cols, h.defaults⟩

theorem untilError_turned {α : Type} {body : α → RowsState → Option Text × RowsState} {k : Nat}
    {cs : List ColumnDef} (hbody : ∀ x n s, Turned cs n s → Turned cs (n + k) (body x s).2)
    (xs : List α) (h : Turned cs n s) :
    Turned cs (n + k * xs.length) (untilError body xs s).2 := by
  induction xs generalizing n s with
  | nil => exact h
  | cons x xs ih =>
    have hstep := hbody x n s h
    cases hx : (body x s).1 with
    | some err =>
      rw [untilError_cons_some hx]
      exact hstep.mono (by rw [List.length_cons, Nat.mul_succ]; omega)
    | none =>
      rw [untilError_cons_none hx]
      exact (ih hstep).mono (by rw [List.length_cons, Nat.mul_succ]; omega)

end Dbms.Exec
