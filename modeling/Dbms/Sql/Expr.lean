import Dbms.Sql.Parser
import Dbms.Sql.Where

/-! Boolean expressions as trees, the clauses that hold them, and what the evaluator computes on
such a clause. -/

open Dbms.Core

namespace Dbms.Sql
open Dbms.Sql.Parser (Nodes push)

inductive Leaf where
  | cmp (leftCol : Text) (op : CmpOp) (rhs : Rhs)
  | between (col : Text) (a b : Literal)
  | like (col pattern : Text)
  deriving DecidableEq

def Leaf.node : Leaf → WhereNode
  | .cmp leftCol op rhs => .cmp leftCol op rhs
  | .between col a b => .between col a b
  | .like col pattern => .like col pattern

inductive Expr where
  | leaf (l : Leaf)
  | paren (e : Expr)
  | andOr (kind : BinBool) (left right : Expr)
  deriving DecidableEq

namespace Expr

/-- The index of the root, and the nodes with those of the tree behind them: operands come before
their operator. -/
def build : Expr → Nodes → Nat × Nodes
  | leaf l, w => push w l.node
  | paren e, w => push (e.build w).2 (.paren (e.build w).1)
  | andOr kind left right, w =>
    let l := left.build w
    let r := right.build l.2
    push r.2 (.andOr kind l.1 r.1)

def clause (e : Expr) : WhereClause := { nodes := (e.build []).2, root := some (e.build []).1 }

end Expr

def WhereNode.children : WhereNode → List Nat
  | .andOr _ left right => [left, right]
  | .paren child => [child]
  | _ => []

def ChildrenBefore (nodes : Nodes) : Prop :=
  ∀ (i c : Nat) (node : WhereNode), nodes[i]? = some node → c ∈ node.children → c < i

/-- `e` is the tree that the node `i` is the root of. -/
inductive Tree (nodes : Nodes) : Nat → Expr → Prop where
  | leaf {i : Nat} {l : Leaf} : nodes[i]? = some l.node → Tree nodes i (.leaf l)
  | paren {i child : Nat} {e : Expr} : nodes[i]? = some (.paren child) → Tree nodes child e →
      Tree nodes i (.paren e)
  | andOr {i left right : Nat} {kind : BinBool} {l r : Expr} :
      nodes[i]? = some (.andOr kind left right) → Tree nodes left l → Tree nodes right r →
      Tree nodes i (.andOr kind l r)

section Build
variable {w : Nodes} {e : Expr}

theorem Tree.unique {i : Nat} {e' : Expr} (h : Tree w i e) (h' : Tree w i e') : e = e' := by
  induction h generalizing e' with
  | @leaf i l hi =>
    cases h' with
    | @leaf _ l' hi' =>
      have hnode : l.node = l'.node := Option.some.inj (hi.symm.trans hi')
      cases l <;> cases l' <;> cases hnode <;> rfl
    | paren hi' => cases l <;> cases hi.symm.trans hi'
    | andOr hi' => cases l <;> cases hi.symm.trans hi'
  | paren hi _ ih =>
    cases h' with
    | @leaf _ l' hi' => cases l' <;> cases hi.symm.trans hi'
    | paren hi' he' =>
      cases hi.symm.trans hi'
      rw [ih he']
    | andOr hi' => cases hi.symm.trans hi'
  | andOr hi _ _ ihl ihr =>
    cases h' with
    | @leaf _ l' hi' => cases l' <;> cases hi.symm.trans hi'
    | paren hi' => cases hi.symm.trans hi'
    | andOr hi' hl' hr' =>
      cases hi.symm.trans hi'
      rw [ihl hl', ihr hr']

theorem Tree.append {i : Nat} (h : Tree w i e) (more : Nodes) : Tree (w ++ more) i e := by
  have hget : ∀ {i : Nat} {node : WhereNode}, w[i]? = some node → (w ++ more)[i]? = some node :=
    fun hi => by
      rw [List.getElem?_append_left (List.getElem?_eq_some_iff.mp hi).1]
      exact hi
  induction h with
  | leaf hi => exact .leaf (hget hi)
  | paren hi _ ih => exact .paren (hget hi) ih
  | andOr hi _ _ ihl ihr => exact .andOr (hget hi) ihl ihr

theorem Expr.build_append (e : Expr) (w : Nodes) : ∃ more, (e.build w).2 = w ++ more := by
  induction e generalizing w with
  | leaf l => exact ⟨_, rfl⟩
  | paren e ih =>
    obtain ⟨more, h⟩ := ih w
    refine ⟨more ++ [.paren (e.build w).1], ?_⟩
    show (e.build w).2 ++ _ = _
    rw [h, List.append_assoc]
  | andOr kind l r ihl ihr =>
    obtain ⟨more, hl⟩ := ihl w
    obtain ⟨more', hr⟩ := ihr (l.build w).2
    refine ⟨more ++ more' ++ [.andOr kind (l.build w).1 (r.build (l.build w).2).1], ?_⟩
    show (r.build (l.build w).2).2 ++ _ = _
    rw [hr, hl]
    simp only [List.append_assoc]

/-- The root is the newest node. -/
theorem Expr.build_length (e : Expr) (w : Nodes) : (e.build w).1 + 1 = (e.build w).2.length := by
  cases e <;> simp [Expr.build, push]

theorem Expr.build_lt (e : Expr) (w : Nodes) : (e.build w).1 < (e.build w).2.length :=
  Nat.lt_of_succ_le (e.build_length w).le

theorem push_get (w : Nodes) (node : WhereNode) :
    (push w node).2[(push w node).1]? = some node := List.getElem?_concat_length

theorem Expr.tree_build (e : Expr) (w : Nodes) : Tree (e.build w).2 (e.build w).1 e := by
  induction e generalizing w with
  | leaf l => exact .leaf (push_get _ _)
  | paren e ih => exact .paren (push_get _ _) ((ih w).append _)
  | andOr kind l r ihl ihr =>
    obtain ⟨more, hr⟩ := r.build_append (l.build w).2
    have hleft := (ihl w).append more
    rw [← hr] at hleft
    exact .andOr (push_get _ _) (hleft.append _) ((ihr _).append _)

theorem Expr.clause_injective {e' : Expr} (h : e.clause = e'.clause) : e = e' := by
  have htree : Tree e.clause.nodes (e.build []).1 e := e.tree_build []
  have htree' : Tree e'.clause.nodes (e'.build []).1 e' := e'.tree_build []
  have hroot : (e.build []).1 = (e'.build []).1 := Option.some.inj (congrArg WhereClause.root h)
  rw [h, hroot] at htree
  exact htree.unique htree'

theorem ChildrenBefore.push (h : ChildrenBefore w) {node : WhereNode}
    (hnode : ∀ c ∈ node.children, c < w.length) : ChildrenBefore (push w node).2 := by
  intro i c n hi hc
  show c < i
  rcases Nat.lt_trichotomy i w.length with hlt | rfl | hgt
  · apply h i c n _ hc
    rwa [show w[i]? = (w ++ [node])[i]? from (List.getElem?_append_left hlt).symm]
  · rw [show (Parser.push w node).2[w.length]? = some node from push_get w node] at hi
    cases hi
    exact hnode c hc
  · have hnone : (Parser.push w node).2[i]? = none := by
      apply List.getElem?_eq_none
      simpa [Parser.push] using Nat.succ_le_of_lt hgt
    cases hnone.symm.trans hi

theorem ChildrenBefore.build (h : ChildrenBefore w) (e : Expr) : ChildrenBefore (e.build w).2 := by
  induction e generalizing w with
  | leaf l =>
    apply h.push
    intro c hc
    cases l <;> cases hc
  | paren e ih =>
    apply (ih h).push
    intro c hc
    rw [List.mem_singleton.mp hc]
    exact e.build_lt w
  | andOr kind l r ihl ihr =>
    apply (ihr (ihl h)).push
    intro c hc
    have hr := r.build_lt (l.build w).2
    obtain ⟨more, happ⟩ := r.build_append (l.build w).2
    have hl : (l.build w).1 < (r.build (l.build w).2).2.length := by
      rw [happ, List.length_append]
      exact Nat.lt_add_right _ (l.build_lt w)
    rcases List.mem_cons.mp hc with rfl | hc
    · exact hl
    · rw [List.mem_singleton.mp hc]
      exact hr

theorem Expr.clause_childrenBefore (e : Expr) : ChildrenBefore e.clause.nodes := by
  apply ChildrenBefore.build
  intro i c node hi
  cases hi

end Build

/-! The evaluator on trees. -/

section
variable (regex : Regex) (t : Table) (row : Row)

def Leaf.eval (l : Leaf) (pool : StringPool) (err : Text) : Eval :=
  match l with
  | .cmp col op rhs => evalCmp t row col op rhs pool err
  | .between col a b => evalBetween t row col a b pool err
  | .like col pattern => evalLike regex t row col pattern pool err

/-- `eval_node` without the arena: there is no bad node. -/
def Expr.eval : Expr → StringPool → Text → Eval
  | .leaf l, pool, err => l.eval regex t row pool err
  | .paren e, pool, err => e.eval pool err
  | .andOr kind left right, pool, err =>
    let l := left.eval pool err
    if l.err ≠ [] then { l with result := false }
    else
      let r := right.eval l.pool l.err
      if r.err ≠ [] then { r with result := false }
      else { r with result := kind.combine l.result r.result }

/-- The value of the expression and the pool behind it, from the values of its leaves in the pools
they are reached with. -/
def Expr.value : Expr → StringPool → Bool × StringPool
  | .leaf l, pool => ((l.eval regex t row pool []).result, (l.eval regex t row pool []).pool)
  | .paren e, pool => e.value pool
  | .andOr kind left right, pool =>
    let l := left.value pool
    let r := right.value l.2
    (kind.combine l.1 r.1, r.2)

def Expr.Errorless : Expr → StringPool → Prop
  | .leaf l, pool => (l.eval regex t row pool []).err = []
  | .paren e, pool => e.Errorless pool
  | .andOr _ left right, pool =>
    left.Errorless pool ∧ right.Errorless (left.value regex t row pool).2

end

section Evaluation
variable {regex : Regex} {t : Table} {row : Row} {w : WhereClause} {i n : Nat} {e : Expr}
  {pool : StringPool} {err : Text}

/-- A node evaluates as the tree it is the root of, whatever bound beyond its index is given. -/
theorem evalNode_tree (hw : ChildrenBefore w.nodes) (h : Tree w.nodes i e) (hi : i < n) :
    evalNode regex t row w n i pool err = e.eval regex t row pool err := by
  induction h generalizing n pool err with
  | @leaf i l hl =>
    obtain ⟨n, rfl⟩ : ∃ k, n = k + 1 := ⟨n - 1, by omega⟩
    cases l <;> simp [evalNode, hl, Leaf.node, Expr.eval, Leaf.eval]
  | paren hget _ ih =>
    obtain ⟨n, rfl⟩ : ∃ k, n = k + 1 := ⟨n - 1, by omega⟩
    have hchild := hw _ _ _ hget (List.mem_cons_self ..)
    simp only [evalNode, hget]
    exact ih (by omega)
  | @andOr i left right kind l r hget _ _ ihl ihr =>
    obtain ⟨n, rfl⟩ : ∃ k, n = k + 1 := ⟨n - 1, by omega⟩
    have hleft : left < n := by
      have := hw _ left _ hget (List.mem_cons_self ..)
      omega
    have hright : right < n := by
      have := hw _ right _ hget (List.mem_cons_of_mem _ (List.mem_cons_self ..))
      omega
    simp only [evalNode, hget, Expr.eval, ihl hleft, ihr hright]

theorem evalWhere_clause : evalWhere regex t row e.clause pool err = e.eval regex t row pool err := by
  exact evalNode_tree e.clause_childrenBefore (e.tree_build []) (e.build_lt [])

theorem Expr.eval_of_errorless (h : e.Errorless regex t row pool) :
    e.eval regex t row pool [] =
      ⟨(e.value regex t row pool).1, [], (e.value regex t row pool).2⟩ := by
  induction e generalizing pool with
  | leaf l =>
    have hl : (l.eval regex t row pool []).err = [] := h
    show l.eval regex t row pool [] = ⟨(l.eval regex t row pool []).result, [], _⟩
    cases he : l.eval regex t row pool [] with
    | mk result err pool' =>
      rw [he] at hl
      cases hl
      simp only [Expr.value, he]
  | paren e ih => exact ih h
  | andOr kind l r ihl ihr =>
    obtain ⟨hl, hr⟩ := h
    simp only [Expr.eval, ihl hl, ihr hr]
    rfl

end Evaluation
end Dbms.Sql
