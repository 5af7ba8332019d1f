import Dbms.Exec.Rows
import Dbms.Sql.Derivation
import Dbms.Sql.Meaning

/-! WHERE clauses from the parser to their value: what `parse_where` accepts, the tree it stores, and
what the functions that walk the clause make of it. -/

open Dbms.Core Dbms.Exec Dbms.Lib

namespace Dbms.Sql

/-- `extract_index_eq` on trees. -/
def Expr.indexEq (t : Table) : Expr → StringPool → Option (Nat × Value) × StringPool
  | .paren e, pool => e.indexEq t pool
  | .andOr .and left right, pool =>
    match left.indexEq t pool with
    | (some found, pool) => (some found, pool)
    | (none, pool) => right.indexEq t pool
  | .leaf (.cmp col .eq (.lit lit)), pool =>
    match t.columnIndex col with
    | some ci =>
      if (t.cols[ci]?).any ColumnDef.indexed then
        (some (ci, (litToVal lit pool).1), (litToVal lit pool).2)
      else (none, pool)
    | none => (none, pool)
  | _, pool => (none, pool)

theorem extractIndexEq_tree {t : Table} {w : WhereClause} {i n : Nat} {e : Expr} {pool : StringPool}
    (hw : ChildrenBefore w.nodes) (h : Tree w.nodes i e) (hi : i < n) :
    extractIndexEq t w n i pool = e.indexEq t pool := by
  induction h generalizing n pool with
  | @leaf i l hl =>
    obtain ⟨n, rfl⟩ : ∃ k, n = k + 1 := ⟨n - 1, by omega⟩
    cases l with
    | cmp col op rhs =>
      cases h : t.columnIndex col <;> cases op <;> cases rhs <;>
        simp [extractIndexEq, hl, Leaf.node, Expr.indexEq, h]
    | between col a b | like col pattern => simp [extractIndexEq, hl, Leaf.node, Expr.indexEq]
  | paren hget _ ih =>
    obtain ⟨n, rfl⟩ : ∃ k, n = k + 1 := ⟨n - 1, by omega⟩
    have hchild := hw _ _ _ hget (List.mem_cons_self ..)
    simp only [extractIndexEq, hget]
    exact ih (by omega)
  | @andOr i left right kind l r hget _ _ ihl ihr =>
    obtain ⟨n, rfl⟩ : ∃ k, n = k + 1 := ⟨n - 1, by omega⟩
    have hleft : left < n := by
      have := hw _ left _ hget (List.mem_cons_self ..)
      omega
    have hright : right < n := by
      have := hw _ right _ hget (List.mem_cons_of_mem _ (List.mem_cons_self ..))
      omega
    cases kind with
    | and =>
      simp only [extractIndexEq, hget, Expr.indexEq, ihl hleft]
      obtain ⟨found, pool'⟩ := l.indexEq t pool
      cases found with
      | none => exact ihr hright
      | some found => rfl
    | or => simp only [extractIndexEq, hget, Expr.indexEq]

/-! The errors of the evaluator. -/

section Errors
variable {regex : Regex} {t : Table} {row : Row} {pool : StringPool} {err : Text}

/-- The branches of `eval_node` for an index outside the clause and for a node of no kind. -/
def Internal (err : Text) : Prop :=
  err = "where: bad node".toList ∨ err = "where: internal".toList

theorem not_internal {err : Text} (h : err.head? ≠ some 'w') : ¬Internal err := by
  rintro (rfl | rfl)
  · exact h rfl
  · exact h rfl

theorem Leaf.not_internal (l : Leaf) (h : ¬Internal err) :
    ¬Internal (l.eval regex t row pool err).err := by
  cases l with
  | cmp col op rhs =>
    show ¬Internal (evalCmp t row col op rhs pool err).err
    unfold evalCmp
    cases cellByName t row col with
    | none => exact Sql.not_internal (by simp)
    | some lv =>
      cases rhs with
      | lit l => exact h
      | col name =>
        cases hname : cellByName t row name with
        | none => simpa [hname] using Sql.not_internal (by simp)
        | some rv => simpa [hname] using h
  | between col a b =>
    show ¬Internal (evalBetween t row col a b pool err).err
    unfold evalBetween
    cases cellByName t row col with
    | none => exact Sql.not_internal (by simp)
    | some cv => exact h
  | like col pattern =>
    show ¬Internal (evalLike regex t row col pattern pool err).err
    unfold evalLike
    cases cellByName t row col with
    | none => exact Sql.not_internal (by simp)
    | some v =>
      cases v with
      | null | int _ => exact Sql.not_internal (by simp)
      | string id =>
        cases hm : regex pattern (pool.resolve id) with
        | none => simpa [hm] using Sql.not_internal (by simp)
        | some b => simpa [hm] using h

theorem Expr.not_internal (e : Expr) (h : ¬Internal err) :
    ¬Internal (e.eval regex t row pool err).err := by
  induction e generalizing pool err with
  | leaf l => exact l.not_internal h
  | paren e ih => exact ih h
  | andOr kind left right ihl ihr =>
    by_cases hl : (left.eval regex t row pool err).err = []
    · have hnil : ¬Internal [] := Sql.not_internal (by simp)
      rw [Expr.eval_right hl]
      dsimp only
      split
      · exact ihr hnil
      · exact ihr hnil
    · rw [Expr.eval_left hl]
      exact ihl h

end Errors

/-- The clause is stored as the tree `e`, and whatever walks it does as on the tree: with any bound on
the depth beyond the root it ends, and it finds no bad node. -/
structure WhereClause.Represents (w : WhereClause) (e : Expr) : Prop where
  childrenBefore : ChildrenBefore w.nodes
  tree : ∃ root, w.root = some root ∧ Tree w.nodes root e ∧ root < w.nodes.length ∧
    (∀ regex t row n pool err, root < n →
      evalNode regex t row w n root pool err = e.eval regex t row pool err) ∧
    ∀ t n pool, root < n → extractIndexEq t w n root pool = e.indexEq t pool
  noBadNode : ∀ regex t row pool err, ¬Internal err →
    ¬Internal (evalWhere regex t row w pool err).err
  value : ∀ regex t row pool, e.Errorless regex t row pool →
    evalWhere regex t row w pool [] =
      ⟨(e.value regex t row pool).1, [], (e.value regex t row pool).2⟩
  holds : ∀ regex t row pool b, (∀ v ∈ row.cells, v.Interned pool) →
    (pool.internAll e.strings).size ≤ 2 ^ 32 → e.holds regex (cells t row pool) id = some b →
    (evalWhere regex t row w pool []).result = b ∧ (evalWhere regex t row w pool []).err = []

theorem Expr.represents (e : Expr) : e.clause.Represents e where
  childrenBefore := e.clause_childrenBefore
  tree := by
    have hbefore := e.clause_childrenBefore
    have htree : Tree e.clause.nodes (e.build []).1 e := e.tree_build []
    refine ⟨_, rfl, htree, e.build_lt [], ?_, ?_⟩
    · intro regex t row n pool err hn
      exact evalNode_tree hbefore htree hn
    · intro t n pool hn
      exact extractIndexEq_tree hbefore htree hn
  noBadNode regex t row pool err h := by
    rw [evalWhere_clause]
    exact e.not_internal h
  value regex t row pool h := by
    rw [evalWhere_clause]
    exact Expr.eval_of_errorless h
  holds regex t row pool b hrow hsize hb := by
    have hshows := @Expr.eval_shows regex t _ _ _ e hrow (.refl (pool.internAll e.strings))
    have hlit : Literal.stored (pool.internAll e.strings) = id := by
      funext l
      exact Literal.stored_eq hsize l
    rw [hlit, hb] at hshows
    rw [evalWhere_clause]
    exact ⟨hshows.result, hshows.kept rfl⟩

section
variable {σ : Type} {S : TokenSource σ} {s : σ}

/-- `parse_where` succeeds on exactly the conditions; it takes the only one there is, and the clause
it returns represents the tree of its derivation. -/
theorem parseWhere_represents {n : Nat} (hans : S.answer = Parser.stollRange)
    (hwhere : Parser.isKw (S.token s) "WHERE" = true) (hn : S.size s < n) :
    ((∃ w s', (Parser.parseWhere n).run S.scan S.answer s = .ok (w, s')) ↔
      ∃ ts e s', Grammar.IsCondition S s ts e s') ∧
    ∀ w s', (Parser.parseWhere n).run S.scan S.answer s = .ok (w, s') →
      ∃ ts e, Grammar.IsCondition S s ts e s' ∧ w.Represents e ∧
        ∀ us e' s'', Grammar.IsCondition S s us e' s'' → us = ts ∧ e' = e ∧ s'' = s' := by
  have hrun := fun w s' => @Grammar.parseWhere_iff σ S s s' hans n w hwhere hn
  constructor
  · constructor
    · rintro ⟨w, s', h⟩
      obtain ⟨ts, e, hcond, -⟩ := (hrun w s').mp h
      exact ⟨ts, e, s', hcond⟩
    · rintro ⟨ts, e, s', hcond⟩
      exact ⟨e.clause, s', (hrun _ _).mpr ⟨ts, e, hcond, rfl⟩⟩
  · intro w s' h
    obtain ⟨ts, e, hcond, rfl⟩ := (hrun w s').mp h
    refine ⟨ts, e, hcond, e.represents, ?_⟩
    intro us e' s'' hcond'
    exact hcond.unique hans hwhere hcond'

end

theorem parseWhere_represents_or : ∃ w e,
    (Parser.parseWhere 21).run Lexer.next Parser.stollRange "WHERE a = 1 OR b = c".toList =
      .ok (w, []) ∧ w.Represents e := by
  have hrun : (Parser.parseWhere 21).run Lexer.next Parser.stollRange "WHERE a = 1 OR b = c".toList =
      .ok ({ nodes := [.cmp ['a'] .eq (.lit (.int 1)), .cmp ['b'] .eq (.col ['c']), .andOr .or 0 1],
             root := some 2 }, []) := by decide
  have hspec := parseWhere_represents (S := textSource Parser.stollRange)
    (s := "WHERE a = 1 OR b = c".toList) (n := 21) rfl (by decide) (by decide)
  obtain ⟨ts, e, -, hw, -⟩ := hspec.2 _ _ hrun
  exact ⟨_, e, hrun, hw⟩

end Dbms.Sql
