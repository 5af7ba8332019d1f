import Dbms.Sql.Expr

/-! The value of a boolean expression on what the cells of a row hold. The evaluator computes it,
whatever it has to intern on the way. -/

open Dbms.Core

namespace Dbms.Sql

namespace Literal

def rank : Literal → Nat ×ₗ Int ×ₗ Text
  | .null => toLex (0, toLex (0, []))
  | .int v => toLex (1, toLex (v, []))
  | .string s => toLex (2, toLex (0, s))

def cmp (a b : Literal) : Int := cmpBy a.rank b.rank

def strings : Literal → List Text
  | .string s => [s]
  | _ => []

/-- What a literal is taken for: the string that its id stands for. -/
def stored (pool : StringPool) : Literal → Literal
  | .string s => .string ((pool.index.lookup s).elim s pool.resolve)
  | l => l

theorem stored_eq {pool : StringPool} (h : pool.size ≤ 2 ^ 32) (l : Literal) :
    l.stored pool = l := by
  cases l with
  | string s =>
    cases hid : pool.index.lookup s with
    | none => simp [stored, hid]
    | some id => simp [stored, hid, StringPool.resolve_of_lookup h hid]
  | null | int _ => rfl

end Literal

def content (pool : StringPool) : Value → Literal
  | .null => .null
  | .int v => .int v
  | .string id => .string (pool.resolve id)

def cells (t : Table) (row : Row) (pool : StringPool) (name : Text) : Option Literal :=
  (cellByName t row name).map (content pool)

section Denotation
variable (regex : Regex) (cell : Text → Option Literal) (lit : Literal → Literal)

/-- `none` is an error. -/
def Leaf.holds : Leaf → Option Bool
  | .cmp leftCol op (.col name) =>
    (cell leftCol).bind fun a => (cell name).map fun b => op.test (a.cmp b)
  | .cmp leftCol op (.lit l) => (cell leftCol).map fun a => op.test (a.cmp (lit l))
  | .between col a b =>
    (cell col).map fun c => CmpOp.ge.test (c.cmp (lit a)) && CmpOp.le.test (c.cmp (lit b))
  | .like col pattern =>
    match cell col with
    | some (.string s) => regex pattern s
    | _ => none

def Expr.holds : Expr → Option Bool
  | .leaf l => l.holds regex cell lit
  | .paren e => e.holds
  | .andOr kind left right => left.holds.bind fun a => right.holds.map fun b => kind.combine a b

end Denotation

def Leaf.strings : Leaf → List Text
  | .cmp _ _ (.lit l) => l.strings
  | .cmp _ _ (.col _) => []
  | .between _ a b => a.strings ++ b.strings
  | .like _ _ => []

def Expr.strings : Expr → List Text
  | .leaf l => l.strings
  | .paren e => e.strings
  | .andOr _ left right => left.strings ++ right.strings

section Contents
variable {pool pool' : StringPool} {t : Table} {row : Row} {v : Value} {name : Text}

theorem valueCmp_content (pool : StringPool) (a b : Value) :
    valueCmp pool a b = (content pool a).cmp (content pool b) := by
  rw [valueCmp_eq_cmpBy]
  cases a <;> cases b <;> rfl

theorem content_extends (hp : pool.Extends pool') (hv : v.Interned pool) :
    content pool' v = content pool v := by
  cases v with
  | string id => simp only [content, hp.resolve hv]
  | null | int _ => rfl

theorem cellByName_mem (h : cellByName t row name = some v) : v ∈ row.cells := by
  obtain ⟨i, -, hi⟩ := Option.bind_eq_some_iff.mp h
  exact List.mem_of_getElem? hi

theorem cells_extends (hp : pool.Extends pool') (hrow : ∀ v ∈ row.cells, v.Interned pool) :
    cells t row pool' = cells t row pool := by
  funext name
  unfold cells
  cases h : cellByName t row name with
  | none => rfl
  | some v => exact congrArg some (content_extends hp (hrow v (cellByName_mem h)))

theorem literalToValue_pool (l : Literal) (pool : StringPool) :
    (literalToValue l pool).2 = pool.internAll l.strings := by
  cases l <;> rfl

theorem literalToValue_interned (l : Literal) (pool : StringPool) :
    (literalToValue l pool).1.Interned (literalToValue l pool).2 := by
  cases l with
  | string s => exact pool.intern_lt s
  | null | int _ => trivial

theorem stored_extends {l : Literal} (hknown : ∀ s ∈ l.strings, (pool.index.lookup s).isSome)
    (hp : pool.Extends pool') : l.stored pool' = l.stored pool := by
  cases l with
  | string s =>
    obtain ⟨id, hid⟩ := Option.isSome_iff_exists.mp (hknown s (List.mem_singleton_self s))
    simp only [Literal.stored, hid, hp.lookup hid, Option.elim_some,
      hp.resolve (StringPool.lookup_lt hid)]
  | null | int _ => rfl

theorem Leaf.holds_extends {l : Leaf} {regex : Regex} {cell : Text → Option Literal}
    (hknown : ∀ s ∈ l.strings, (pool.index.lookup s).isSome) (hp : pool.Extends pool') :
    l.holds regex cell (Literal.stored pool') = l.holds regex cell (Literal.stored pool) := by
  cases l with
  | cmp col op rhs =>
    cases rhs with
    | col name => rfl
    | lit l => simp only [Leaf.holds, stored_extends (l := l) hknown hp]
  | between col a b =>
    have ha := stored_extends (l := a) (fun s hs => hknown s (List.mem_append_left _ hs)) hp
    have hb := stored_extends (l := b) (fun s hs => hknown s (List.mem_append_right _ hs)) hp
    simp only [Leaf.holds, ha, hb]
  | like col pattern => rfl

theorem Expr.holds_extends {e : Expr} {regex : Regex} {cell : Text → Option Literal}
    (hknown : ∀ s ∈ e.strings, (pool.index.lookup s).isSome) (hp : pool.Extends pool') :
    e.holds regex cell (Literal.stored pool') = e.holds regex cell (Literal.stored pool) := by
  induction e with
  | leaf l => exact Leaf.holds_extends hknown hp
  | paren e ih => exact ih hknown
  | andOr kind left right ihl ihr =>
    have hl := ihl fun s hs => hknown s (List.mem_append_left _ hs)
    have hr := ihr fun s hs => hknown s (List.mem_append_right _ hs)
    simp only [Expr.holds, hl, hr]

theorem content_literal {l : Literal} (hp : (pool.internAll l.strings).Extends pool') :
    content pool' (literalToValue l pool).1 = l.stored pool' := by
  cases l with
  | string s =>
    have hid := StringPool.Extends.lookup hp (pool.intern_lookup s)
    simp [literalToValue, content, Literal.stored, hid]
  | null | int _ => rfl

end Contents

/-- An evaluation that started with the error `err` shows `b`, where `none` is an error. -/
structure Eval.Shows (r : Eval) (b : Option Bool) (err : Text) : Prop where
  result : r.result = b.getD false
  kept : b.isSome → r.err = err
  raised : b = none → r.err ≠ []

section Evaluation
variable {regex : Regex} {t : Table} {row : Row} {pool pool' : StringPool} {err : Text}

theorem Eval.Shows.of_some {b : Bool} {p : StringPool} : (Eval.mk b err p).Shows (some b) err :=
  ⟨rfl, fun _ => rfl, nofun⟩

theorem Eval.Shows.of_none {e : Text} {p : StringPool} (h : e ≠ []) :
    (Eval.mk false e p).Shows none err :=
  ⟨rfl, nofun, fun _ => h⟩

theorem cmpValues_content (op : CmpOp) (a b : Value) :
    cmpValues op a b pool = op.test ((content pool a).cmp (content pool b)) := by
  unfold cmpValues
  rw [valueCmp_content]

theorem evalCmp_shows {col : Text} {op : CmpOp} {rhs : Rhs}
    (hrow : ∀ v ∈ row.cells, v.Interned pool)
    (hp : (pool.internAll (Leaf.cmp col op rhs).strings).Extends pool') :
    (evalCmp t row col op rhs pool err).Shows
      ((Leaf.cmp col op rhs).holds regex (cells t row pool) (Literal.stored pool')) err := by
  unfold evalCmp
  cases hcol : cellByName t row col with
  | none => cases rhs <;> simpa [Leaf.holds, cells, hcol] using Eval.Shows.of_none (by simp)
  | some lv =>
    cases rhs with
    | col name =>
      cases hname : cellByName t row name with
      | none => simpa [Leaf.holds, cells, hcol, hname] using Eval.Shows.of_none (by simp)
      | some rv =>
        simpa [Leaf.holds, cells, hcol, hname, cmpValues_content] using Eval.Shows.of_some
    | lit l =>
      have hext : pool.Extends (literalToValue l pool).2 := by
        rw [literalToValue_pool]
        exact pool.internAll_extends _
      have hlv := content_extends hext (hrow lv (cellByName_mem hcol))
      have hrv : content (literalToValue l pool).2 (literalToValue l pool).1 = l.stored pool' := by
        rw [← content_literal hp]
        apply (content_extends _ (literalToValue_interned l pool)).symm
        rw [literalToValue_pool]
        exact hp
      simpa [Leaf.holds, cells, hcol, cmpValues_content, hlv, hrv] using Eval.Shows.of_some

theorem evalBetween_shows {col : Text} {a b : Literal}
    (hrow : ∀ v ∈ row.cells, v.Interned pool)
    (hp : (pool.internAll (Leaf.between col a b).strings).Extends pool') :
    (evalBetween t row col a b pool err).Shows
      ((Leaf.between col a b).holds regex (cells t row pool) (Literal.stored pool')) err := by
  unfold evalBetween
  cases hcol : cellByName t row col with
  | none => simpa [Leaf.holds, cells, hcol] using Eval.Shows.of_none (by simp)
  | some cv =>
    have hcv := hrow cv (cellByName_mem hcol)
    have ha := literalToValue_interned a pool
    have hb := literalToValue_interned b (literalToValue a pool).2
    have hea : pool.Extends (literalToValue a pool).2 := by
      rw [literalToValue_pool]
      exact pool.internAll_extends _
    have heb : (literalToValue a pool).2.Extends (literalToValue b (literalToValue a pool).2).2 := by
      rw [literalToValue_pool b]
      exact StringPool.internAll_extends _ _
    have hend : (literalToValue b (literalToValue a pool).2).2.Extends pool' := by
      rw [literalToValue_pool b, literalToValue_pool a, ← StringPool.internAll_append]
      exact hp
    have hla : content pool' (literalToValue a pool).1 = a.stored pool' := by
      apply content_literal
      rw [← literalToValue_pool]
      exact heb.trans hend
    have hlb : content pool' (literalToValue b (literalToValue a pool).2).1 = b.stored pool' := by
      apply content_literal
      rw [← literalToValue_pool]
      exact hend
    rw [content_extends hend (ha.extends heb)] at hla
    rw [content_extends hend hb] at hlb
    have hc := content_extends (hea.trans heb) hcv
    simpa [Leaf.holds, cells, hcol, cmpValues_content, hla, hlb, hc] using Eval.Shows.of_some

theorem evalLike_shows {col pattern : Text} (lit : Literal → Literal) :
    (evalLike regex t row col pattern pool err).Shows
      ((Leaf.like col pattern).holds regex (cells t row pool) lit) err := by
  unfold evalLike
  cases hcol : cellByName t row col with
  | none => simpa [Leaf.holds, cells, hcol] using Eval.Shows.of_none (by simp)
  | some v =>
    cases v with
    | string id =>
      cases hmatch : regex pattern (pool.resolve id) with
      | none => simpa [Leaf.holds, cells, hcol, content, hmatch] using Eval.Shows.of_none (by simp)
      | some b => simpa [Leaf.holds, cells, hcol, content, hmatch] using Eval.Shows.of_some
    | null | int _ => simpa [Leaf.holds, cells, hcol, content] using Eval.Shows.of_none (by simp)

theorem Leaf.eval_shows {l : Leaf} (hrow : ∀ v ∈ row.cells, v.Interned pool)
    (hp : (pool.internAll l.strings).Extends pool') :
    (l.eval regex t row pool err).Shows
      (l.holds regex (cells t row pool) (Literal.stored pool')) err := by
  cases l with
  | cmp col op rhs => exact evalCmp_shows hrow hp
  | between col a b => exact evalBetween_shows hrow hp
  | like col pattern => exact evalLike_shows _

/-- An evaluation interns all of `ss`, or it interns nothing and fails. -/
def Eval.Interns (r : Eval) (pool : StringPool) (ss : List Text) : Prop :=
  r.pool = pool.internAll ss ∨ r.pool = pool ∧ r.err ≠ [] ∧ r.result = false

theorem evalCmp_interns (col : Text) (op : CmpOp) (rhs : Rhs) :
    (evalCmp t row col op rhs pool err).Interns pool (Leaf.cmp col op rhs).strings := by
  unfold evalCmp
  cases cellByName t row col with
  | none => exact .inr ⟨rfl, by simp, rfl⟩
  | some lv =>
    cases rhs with
    | lit l => exact .inl (literalToValue_pool l pool)
    | col name =>
      apply Or.inl
      cases h : cellByName t row name <;> simp [h, Leaf.strings, StringPool.internAll]

theorem evalBetween_interns (col : Text) (a b : Literal) :
    (evalBetween t row col a b pool err).Interns pool (Leaf.between col a b).strings := by
  unfold evalBetween
  cases cellByName t row col with
  | none => exact .inr ⟨rfl, by simp, rfl⟩
  | some cv =>
    apply Or.inl
    show (literalToValue b (literalToValue a pool).2).2 = _
    rw [literalToValue_pool b, literalToValue_pool a, ← StringPool.internAll_append]
    rfl

theorem evalLike_interns (col pattern : Text) :
    (evalLike regex t row col pattern pool err).Interns pool (Leaf.like col pattern).strings := by
  unfold evalLike
  apply Or.inl
  cases cellByName t row col with
  | none => rfl
  | some v =>
    cases v with
    | string id =>
      cases h : regex pattern (pool.resolve id) <;> simp [h, Leaf.strings, StringPool.internAll]
    | null | int _ => rfl

variable (regex t row pool err) in
theorem Leaf.eval_interns (l : Leaf) : (l.eval regex t row pool err).Interns pool l.strings := by
  cases l with
  | cmp col op rhs => exact evalCmp_interns col op rhs
  | between col a b => exact evalBetween_interns col a b
  | like col pattern => exact evalLike_interns col pattern

end Evaluation

section Trees
variable {regex : Regex} {t : Table} {row : Row} {pool pool' : StringPool} {err : Text} {e : Expr}
  {kind : BinBool} {left right : Expr}

theorem Expr.eval_left (h : (left.eval regex t row pool err).err ≠ []) :
    (Expr.andOr kind left right).eval regex t row pool err =
      { left.eval regex t row pool err with result := false } := by
  simp only [Expr.eval]
  rw [if_pos h]

theorem Expr.eval_right (h : (left.eval regex t row pool err).err = []) :
    (Expr.andOr kind left right).eval regex t row pool err =
      let r := right.eval regex t row (left.eval regex t row pool err).pool []
      if r.err ≠ [] then { r with result := false }
      else { r with result := kind.combine (left.eval regex t row pool err).result r.result } := by
  simp only [Expr.eval]
  rw [if_neg (not_not_intro h), h]

theorem Expr.eval_pool (h : (e.eval regex t row pool err).err = []) :
    (e.eval regex t row pool err).pool = pool.internAll e.strings := by
  induction e generalizing pool err with
  | leaf l =>
    apply (l.eval_interns regex t row pool err).resolve_right
    exact fun hfail => hfail.2.1 h
  | paren e ih => exact ih h
  | andOr kind left right ihl ihr =>
    by_cases hl : (left.eval regex t row pool err).err = []
    · rw [Expr.eval_right hl] at h ⊢
      dsimp only at h ⊢
      split at h
      · rename_i hr
        exact absurd h hr
      · rename_i hr
        rw [if_neg hr]
        show (right.eval regex t row _ []).pool = _
        rw [ihr (not_not.mp hr), ihl hl, ← StringPool.internAll_append]
        rfl
    · rw [Expr.eval_left hl] at h
      exact absurd h hl

theorem Expr.eval_prefix (e : Expr) : ∃ ss, ss <+: e.strings ∧
    (e.eval regex t row pool err).pool = pool.internAll ss := by
  induction e generalizing pool err with
  | leaf l =>
    rcases l.eval_interns regex t row pool err with h | ⟨h, -⟩
    · exact ⟨_, List.prefix_rfl, h⟩
    · exact ⟨[], List.nil_prefix, h⟩
  | paren e ih => exact ih
  | andOr kind left right ihl ihr =>
    by_cases hl : (left.eval regex t row pool err).err = []
    · obtain ⟨ss, hss, hpool⟩ := @ihr (left.eval regex t row pool err).pool []
      refine ⟨left.strings ++ ss, List.prefix_append_right_inj _ |>.mpr hss, ?_⟩
      rw [Expr.eval_right hl]
      dsimp only
      rw [StringPool.internAll_append, ← Expr.eval_pool hl, ← hpool]
      split <;> rfl
    · obtain ⟨ss, hss, hpool⟩ := @ihl pool err
      refine ⟨ss, hss.trans (List.prefix_append _ _), ?_⟩
      rw [Expr.eval_left hl]
      exact hpool

theorem Expr.eval_shows (hrow : ∀ v ∈ row.cells, v.Interned pool)
    (hp : (pool.internAll e.strings).Extends pool') :
    (e.eval regex t row pool []).Shows
      (e.holds regex (cells t row pool) (Literal.stored pool')) [] := by
  induction e generalizing pool with
  | leaf l => exact l.eval_shows hrow hp
  | paren e ih => exact ih hrow hp
  | andOr kind left right ihl ihr =>
    have happ : pool.internAll (left.strings ++ right.strings) =
        (pool.internAll left.strings).internAll right.strings := StringPool.internAll_append ..
    have hext := (pool.internAll left.strings).internAll_extends right.strings
    have hl := ihl hrow ((happ ▸ hext).trans hp)
    -- The right side is looked at unless the left one failed, whatever the left one says.
    cases hval : left.holds regex (cells t row pool) (Literal.stored pool') with
    | none =>
      have herr := hl.raised hval
      simp only [Expr.holds, hval, Option.bind_none]
      rw [Expr.eval_left herr]
      exact .of_none herr
    | some a =>
      have herr : (left.eval regex t row pool []).err = [] := hl.kept (by rw [hval]; rfl)
      have hpool := Expr.eval_pool herr
      have hgrow := pool.internAll_extends left.strings
      have hr := @ihr (pool.internAll left.strings) (fun v hv => (hrow v hv).extends hgrow) (happ ▸ hp)
      rw [cells_extends hgrow hrow] at hr
      simp only [Expr.holds, hval, Option.bind_some]
      rw [Expr.eval_right herr, hpool]
      dsimp only
      cases hval' : right.holds regex (cells t row pool) (Literal.stored pool') with
      | none =>
        have herr' := hr.raised hval'
        rw [if_pos herr']
        exact .of_none herr'
      | some b =>
        have herr' := hr.kept (by rw [hval']; rfl)
        rw [if_neg (not_not_intro herr'), hl.result, hr.result, hval, hval', herr']
        exact .of_some

/-- An evaluation with the result true has interned all strings. -/
theorem Expr.eval_pool_of_result (h : (e.eval regex t row pool err).result = true) :
    (e.eval regex t row pool err).pool = pool.internAll e.strings := by
  induction e generalizing pool err with
  | leaf l =>
    apply (l.eval_interns regex t row pool err).resolve_right
    exact fun hfail => by cases hfail.2.2.symm.trans h
  | paren e ih => exact ih h
  | andOr kind left right ihl ihr =>
    apply Expr.eval_pool
    by_cases hl : (left.eval regex t row pool err).err = []
    · rw [Expr.eval_right hl] at h ⊢
      dsimp only at h ⊢
      split at h
      · cases h
      · rename_i hr
        rw [if_neg hr]
        exact not_not.mp hr
    · rw [Expr.eval_left hl] at h
      cases h

def Expr.lone : Expr → Bool
  | .leaf _ => true
  | .paren e => e.lone
  | .andOr .. => false

/-- An error from before stays or gives way to another one. It does not change the result of a single
comparison, and it makes the result of everything else false. -/
theorem Expr.eval_stale (hrow : ∀ v ∈ row.cells, v.Interned pool)
    (hp : (pool.internAll e.strings).Extends pool') (herr : err ≠ []) :
    (e.eval regex t row pool err).err ≠ [] ∧
      (e.eval regex t row pool err).result =
        (e.lone && (e.holds regex (cells t row pool) (Literal.stored pool')).getD false) := by
  induction e generalizing pool err with
  | leaf l =>
    have hl : (l.eval regex t row pool err).Shows
        (l.holds regex (cells t row pool) (Literal.stored pool')) err := l.eval_shows hrow hp
    refine ⟨?_, ?_⟩
    · show (l.eval regex t row pool err).err ≠ []
      cases hval : l.holds regex (cells t row pool) (Literal.stored pool') with
      | none => exact hl.raised hval
      | some b =>
        rw [hl.kept (by rw [hval]; rfl)]
        exact herr
    · rw [Expr.lone, Bool.true_and]
      exact hl.result
  | paren e ih => exact ih hrow hp herr
  | andOr kind left right ihl ihr =>
    have hext := (pool.internAll left.strings).internAll_extends right.strings
    have happ : pool.internAll (left.strings ++ right.strings) =
        (pool.internAll left.strings).internAll right.strings := StringPool.internAll_append ..
    obtain ⟨hleft, -⟩ := ihl hrow ((happ ▸ hext).trans hp) herr
    rw [Expr.eval_left hleft]
    exact ⟨hleft, rfl⟩

end Trees

/-- A WHERE clause as the parser builds it: none, or the arena of a tree. -/
abbrev Cond := Option Expr

namespace Cond

def clause (c : Cond) : WhereClause := c.elim {} Expr.clause

def strings (c : Cond) : List Text := c.elim [] Expr.strings

def lone (c : Cond) : Bool := c.elim true Expr.lone

def holds (regex : Regex) (cell : Text → Option Literal) (lit : Literal → Literal) (c : Cond) :
    Option Bool := c.elim (some true) fun e => e.holds regex cell lit

variable {regex : Regex} {t : Table} {row : Row} {pool pool' : StringPool} {err : Text}

variable (regex t err) in
theorem evalWhere_spec (c : Cond) (hrow : ∀ v ∈ row.cells, v.Interned pool)
    (hp : (pool.internAll c.strings).Extends pool') :
    (err = [] → (evalWhere regex t row c.clause pool err).Shows
      (c.holds regex (cells t row pool) (Literal.stored pool')) []) ∧
    (err ≠ [] → (evalWhere regex t row c.clause pool err).err ≠ [] ∧
      (evalWhere regex t row c.clause pool err).result =
        (c.lone && (c.holds regex (cells t row pool) (Literal.stored pool')).getD false)) := by
  cases c with
  | none =>
    refine ⟨?_, fun herr => ⟨herr, rfl⟩⟩
    rintro rfl
    exact .of_some
  | some e =>
    rw [show clause (some e) = e.clause from rfl, evalWhere_clause]
    refine ⟨?_, fun herr => Expr.eval_stale hrow hp herr⟩
    rintro rfl
    exact Expr.eval_shows hrow hp

variable (regex t row pool err) in
theorem evalWhere_prefix (c : Cond) : ∃ ss, ss <+: c.strings ∧
    (evalWhere regex t row c.clause pool err).pool = pool.internAll ss := by
  cases c with
  | none => exact ⟨[], List.nil_prefix, rfl⟩
  | some e =>
    rw [show clause (some e) = e.clause from rfl, evalWhere_clause]
    exact e.eval_prefix

theorem evalWhere_pool_of_result (c : Cond)
    (h : (evalWhere regex t row c.clause pool err).result = true) :
    (evalWhere regex t row c.clause pool err).pool = pool.internAll c.strings := by
  cases c with
  | none => rfl
  | some e =>
    rw [show clause (some e) = e.clause from rfl, evalWhere_clause] at h ⊢
    exact Expr.eval_pool_of_result h

theorem holds_extends {c : Cond} {cell : Text → Option Literal}
    (hknown : ∀ s ∈ c.strings, (pool.index.lookup s).isSome) (hp : pool.Extends pool') :
    c.holds regex cell (Literal.stored pool') = c.holds regex cell (Literal.stored pool) := by
  cases c with
  | none => rfl
  | some e => exact Expr.holds_extends hknown hp

end Cond
end Dbms.Sql
