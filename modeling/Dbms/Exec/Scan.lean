import Dbms.Core.IndexAgreement
import Dbms.Exec.Condition
import Dbms.Exec.RowLoops
import Mathlib.Data.List.TakeWhile

/-! Loops that evaluate a WHERE clause on one row after the other, with one `err` for all of them. -/

open Dbms.Core Dbms.Lib Dbms.Sql

namespace Dbms.Exec

/-- A clause that `parse_where` returns for some text. -/
def FromParser (w : WhereClause) : Prop :=
  ∃ (n : Nat) (src rest : Text), src.length < n ∧
    (Parser.parseWhere n).run Lexer.next Parser.stollRange src = .ok (w, rest)

theorem FromParser.cond {w : WhereClause} (h : FromParser w) : ∃ c : Cond, w = c.clause := by
  obtain ⟨n, src, rest, hn, hrun⟩ := h
  by_cases hwhere : Parser.isKw (Lexer.next src).1 "WHERE" = true
  · obtain ⟨ts, e, -, rfl⟩ :=
      (Grammar.parseWhere_iff (S := textSource Parser.stollRange) rfl hwhere hn).mp hrun
    exact ⟨some e, rfl⟩
  · have hnone : (Parser.parseWhere n).run Lexer.next Parser.stollRange src =
        (if Parser.isKw (Lexer.next src).1 "WHERE" = true then .next (Parser.parseBoolOr n [] >>= fun x =>
          pure { nodes := x.2, root := some x.1 }) else .done {} : Parse WhereClause).run Lexer.next
          Parser.stollRange src := rfl
    rw [hnone, if_neg hwhere] at hrun
    cases hrun
    exact ⟨none, rfl⟩

section Rows
variable (regex : Regex) (t : Table) (pool pool' : StringPool) (c : Cond)

/-- What the clause says of the row `rid`, if there is one; an inner `none` is an error. -/
def verdict (rid : RowId) : Option (Option Bool) :=
  (t.getRow rid).map fun row => c.holds regex (cells t row pool) (Literal.stored pool')

def errs (rid : RowId) : Bool := verdict regex t pool pool' c rid = some none

def picks (rid : RowId) : Bool := verdict regex t pool pool' c rid = some (some true)

/-- The rows whose verdict counts: for anything but a single comparison, those before the first
error. -/
def reached (ids : List RowId) : List RowId :=
  if c.lone then ids else ids.takeWhile fun rid => !errs regex t pool pool' c rid

def selection (ids : List RowId) : List RowId :=
  (reached regex t pool pool' c ids).filter (picks regex t pool pool' c)

structure Stage (p : StringPool) : Prop where
  grown : pool.Extends p
  below : (p.internAll c.strings).Extends pool'

end Rows

section Scan
variable {regex : Regex} {t : Table} {pool pool' p : StringPool} {c : Cond} {rid : RowId}
  {ids : List RowId} {row : Row} {err : Text}

variable (regex t row err) in
theorem Stage.eval (h : Stage pool pool' c p) :
    Stage pool pool' c (evalWhere regex t row c.clause p err).pool := by
  obtain ⟨ss, hss, heq⟩ := c.evalWhere_prefix regex t row p err
  rw [heq]
  refine ⟨h.grown.trans (p.internAll_extends ss), ?_⟩
  rw [StringPool.internAll_again hss]
  exact h.below

theorem errs_none (h : t.getRow rid = none) : errs regex t pool pool' c rid = false := by
  simp [errs, verdict, h]

theorem picks_none (h : t.getRow rid = none) : picks regex t pool pool' c rid = false := by
  simp [picks, verdict, h]

theorem errs_some (h : t.getRow rid = some row) : errs regex t pool pool' c rid =
    decide (c.holds regex (cells t row pool) (Literal.stored pool') = none) := by
  simp [errs, verdict, h]

theorem picks_some (h : t.getRow rid = some row) : picks regex t pool pool' c rid =
    (c.holds regex (cells t row pool) (Literal.stored pool')).getD false := by
  cases hv : c.holds regex (cells t row pool) (Literal.stored pool') with
  | none => simp [picks, verdict, h, hv]
  | some b => cases b <;> simp [picks, verdict, h, hv]

theorem errs_of_picks (h : picks regex t pool pool' c rid = true) :
    errs regex t pool pool' c rid = false := by
  simp only [picks, decide_eq_true_eq] at h
  simp [errs, h]

theorem picks_of_errs (h : errs regex t pool pool' c rid = true) :
    picks regex t pool pool' c rid = false := by
  simp only [errs, decide_eq_true_eq] at h
  simp [picks, h]

theorem selection_of_picks (h : picks regex t pool pool' c rid = true) :
    selection regex t pool pool' c (rid :: ids) = rid :: selection regex t pool pool' c ids := by
  cases hlone : c.lone <;> simp [selection, reached, hlone, h, errs_of_picks h]

theorem selection_of_errs (h : errs regex t pool pool' c rid = true) (hlone : c.lone = false) :
    selection regex t pool pool' c (rid :: ids) = [] := by
  simp [selection, reached, hlone, h]

theorem selection_of_not (h : picks regex t pool pool' c rid = false)
    (hgo : c.lone = true ∨ errs regex t pool pool' c rid = false) :
    selection regex t pool pool' c (rid :: ids) = selection regex t pool pool' c ids := by
  cases hlone : c.lone with
  | true => simp [selection, reached, hlone, h]
  | false =>
    rw [hlone] at hgo
    simp [selection, reached, hlone, h, hgo.resolve_left (by simp)]

theorem row_of_selection (h : rid ∈ selection regex t pool pool' c ids) :
    ∃ row, t.getRow rid = some row := by
  have hpick := (List.mem_filter.mp h).2
  cases hrow : t.getRow rid with
  | none =>
    rw [picks_none hrow] at hpick
    cases hpick
  | some row => exact ⟨row, rfl⟩

variable (regex t pool) in
theorem verdict_extends (hknown : ∀ s ∈ c.strings, (pool'.index.lookup s).isSome)
    (hp : pool'.Extends p) : verdict regex t pool p c = verdict regex t pool pool' c := by
  funext rid
  unfold verdict
  simp only [Cond.holds_extends hknown hp]

def RowsInterned (t : Table) (pool : StringPool) : Prop :=
  ∀ rid row, t.getRow rid = some row → ∀ v ∈ row.cells, v.Interned pool

theorem RowsInterned.extends (h : RowsInterned t pool) (hp : pool.Extends p) : RowsInterned t p :=
  fun rid row hrow v hv => (h rid row hrow v hv).extends hp

variable (hrows : RowsInterned t pool)
include hrows

variable (regex) in
theorem eval_clean (hp : Stage pool pool' c p) (hrow : t.getRow rid = some row) :
    (evalWhere regex t row c.clause p []).result = picks regex t pool pool' c rid ∧
      ((evalWhere regex t row c.clause p []).err = [] ↔ errs regex t pool pool' c rid = false) := by
  have hin := hrows rid row hrow
  have hshows := (c.evalWhere_spec regex t []
    (fun v hv => (hin v hv).extends hp.grown) hp.below).1 rfl
  rw [cells_extends hp.grown hin] at hshows
  refine ⟨hshows.result.trans (picks_some hrow).symm, ?_⟩
  rw [errs_some hrow]
  cases hv : c.holds regex (cells t row pool) (Literal.stored pool') with
  | none => simpa using hshows.raised hv
  | some b => simpa using hshows.kept (by rw [hv]; rfl)

variable (regex) in
/-- One row of a scan behind an error. -/
theorem eval_stale (hp : Stage pool pool' c p) (hrow : t.getRow rid = some row) (herr : err ≠ []) :
    (evalWhere regex t row c.clause p err).result = (c.lone && picks regex t pool pool' c rid) ∧
      (evalWhere regex t row c.clause p err).err ≠ [] := by
  have hin := hrows rid row hrow
  obtain ⟨hkeep, hres⟩ := (c.evalWhere_spec regex t err
    (fun v hv => (hin v hv).extends hp.grown) hp.below).2 herr
  rw [cells_extends hp.grown hin] at hres
  rw [picks_some hrow]
  exact ⟨hres, hkeep⟩

theorem matching_stale (hp : Stage pool pool' c p) (herr : err ≠ []) :
    (matching regex c.clause t ids p err).1 =
        ids.filter (fun rid => c.lone && picks regex t pool pool' c rid) ∧
      (matching regex c.clause t ids p err).2.1 ≠ [] := by
  induction ids generalizing p err with
  | nil => exact ⟨rfl, herr⟩
  | cons rid ids ih =>
    cases hrow : t.getRow rid with
    | none =>
      rw [matching_none hrow, List.filter_cons_of_neg (by simp [picks_none hrow])]
      exact ih hp herr
    | some row =>
      obtain ⟨hres, hkeep⟩ := eval_stale regex hrows hp hrow herr
      obtain ⟨hrest, hend⟩ := ih (hp.eval regex t row err) hkeep
      rw [matching_some hrow]
      refine ⟨?_, hend⟩
      dsimp only
      rw [hrest, hres, List.filter_cons]

theorem matching_clean (hp : Stage pool pool' c p) :
    (matching regex c.clause t ids p []).1 = selection regex t pool pool' c ids ∧
      ((matching regex c.clause t ids p []).2.1 = [] ↔
        ∀ rid ∈ ids, errs regex t pool pool' c rid = false) := by
  induction ids generalizing p with
  | nil => cases h : c.lone <;> simp [matching, selection, reached, h]
  | cons rid ids ih =>
    cases hrow : t.getRow rid with
    | none =>
      rw [matching_none hrow, selection_of_not (picks_none hrow) (.inr (errs_none hrow))]
      obtain ⟨hsel, herr⟩ := ih hp
      exact ⟨hsel, herr.trans (by simp [errs_none hrow])⟩
    | some row =>
      obtain ⟨hres, hclean⟩ := eval_clean regex hrows hp hrow
      have hp' := hp.eval regex t row []
      rw [matching_some hrow]
      dsimp only
      rw [hres]
      cases he : errs regex t pool pool' c rid with
      | false =>
        rw [hclean.mpr he]
        obtain ⟨hsel, herr⟩ := ih hp'
        rw [hsel]
        refine ⟨?_, herr.trans (by simp [he])⟩
        cases hpick : picks regex t pool pool' c rid with
        | true => rw [if_pos rfl, selection_of_picks hpick]
        | false => rw [if_neg Bool.false_ne_true, selection_of_not hpick (.inr he)]
      | true =>
        -- From the first error on it is the scan behind an error.
        have hpick := picks_of_errs he
        have hfail : (evalWhere regex t row c.clause p []).err ≠ [] := fun h => by
          rw [hclean.mp h] at he
          cases he
        obtain ⟨hsel, hend⟩ := @matching_stale regex t pool pool' _ c ids _ hrows hp' hfail
        rw [hsel, hpick, if_neg Bool.false_ne_true]
        refine ⟨?_, fun h => absurd h hend, fun h => ?_⟩
        · cases hlone : c.lone with
          | false => simp [selection_of_errs he hlone]
          | true =>
            rw [selection_of_not hpick (.inl hlone)]
            simp [selection, reached, hlone]
        · have hrid := h rid (List.mem_cons_self ..)
          rw [he] at hrid
          cases hrid

theorem matching_perm (hp : Stage pool pool' c p) {ids' : List RowId} (hperm : ids.Perm ids')
    (hsteady : c.lone = true ∨ (∀ rid ∈ ids, errs regex t pool pool' c rid = false) ∨
      ∀ rid ∈ ids, picks regex t pool pool' c rid = false) :
    (matching regex c.clause t ids p []).1.Perm (matching regex c.clause t ids' p []).1 := by
  rw [(matching_clean hrows hp).1, (matching_clean hrows hp).1]
  unfold selection
  by_cases hlone : c.lone = true
  · simp only [reached, hlone, if_true]
    exact hperm.filter _
  rcases hsteady.resolve_left hlone with hclean | hnone
  · have hall : ∀ {l : List RowId}, (∀ rid ∈ l, errs regex t pool pool' c rid = false) →
        reached regex t pool pool' c l = l := by
      intro l hl
      unfold reached
      rw [if_neg hlone, List.takeWhile_eq_self_iff]
      exact fun rid hrid => by simp [hl rid hrid]
    rw [hall hclean, hall fun rid hrid => hclean rid (hperm.mem_iff.mpr hrid)]
    exact hperm.filter _
  · have hempty : ∀ {l : List RowId}, (∀ rid ∈ l, picks regex t pool pool' c rid = false) →
        (reached regex t pool pool' c l).filter (picks regex t pool pool' c) = [] := by
      intro l hl
      rw [List.filter_eq_nil_iff]
      intro rid hrid
      have hmem : rid ∈ l := by
        unfold reached at hrid
        split at hrid
        · exact hrid
        · exact (List.takeWhile_sublist _).mem hrid
      simp [hl rid hmem]
    rw [hempty hnone, hempty fun rid hrid => hnone rid (hperm.mem_iff.mpr hrid)]

end Scan

/-! Plain SELECT goes over the rows that a scan selects. -/

section Select
variable {regex : Regex} {t : Table} {pool p : StringPool} {c : Cond} {ids : List RowId}
  {items : List SelectItem} {row : Row} {err : Text}

def objectAt (t : Table) (items : List SelectItem) (pool : StringPool) (rid : RowId) :
    Except Text Text :=
  match t.getRow rid with
  | some row => rowObject t items row pool
  | none => .ok []

theorem cellToJson_extends {v : Value} (hp : pool.Extends p) (hv : v.Interned pool) :
    cellToJson v p = cellToJson v pool := by
  cases v with
  | string id => simp only [cellToJson, hp.resolve hv]
  | null | int _ => rfl

theorem cellAt_interned (hrow : ∀ v ∈ row.cells, v.Interned pool) (i : Nat) :
    (cellAt row i).Interned pool := by
  unfold cellAt
  rw [List.getD_eq_getElem?_getD]
  cases h : row.cells[i]? with
  | none => trivial
  | some v => exact hrow v (List.mem_of_getElem? h)

theorem rowObject_extends (hp : pool.Extends p) (hrow : ∀ v ∈ row.cells, v.Interned pool) :
    rowObject t items row p = rowObject t items row pool := by
  have hcell : ∀ i, cellToJson (cellAt row i) p = cellToJson (cellAt row i) pool := fun i =>
    cellToJson_extends hp (cellAt_interned hrow i)
  have hfields : itemFields t row p = itemFields t row pool := by
    funext it
    simp only [itemFields, hcell]
  unfold rowObject
  rw [hfields]

theorem selectRows_eq (hrows : RowsInterned t pool) (hp : pool.Extends p) :
    (selectRows regex c.clause t items ids p err).1 =
      (matching regex c.clause t ids p err).1.mapM (objectAt t items pool) := by
  induction ids generalizing p err with
  | nil => rfl
  | cons rid ids ih =>
    cases hrow : t.getRow rid with
    | none =>
      rw [matching_none hrow]
      simp only [selectRows, hrow]
      exact ih hp
    | some row =>
      have hext : p.Extends (evalWhere regex t row c.clause p err).pool := by
        obtain ⟨ss, -, heq⟩ := c.evalWhere_prefix regex t row p err
        rw [heq]
        exact p.internAll_extends ss
      have hrest := @ih _ (evalWhere regex t row c.clause p err).err (hp.trans hext)
      rw [matching_some hrow]
      simp only [selectRows, hrow]
      cases (evalWhere regex t row c.clause p err).result with
      | false => exact hrest
      | true =>
        have hobj : objectAt t items pool rid =
            rowObject t items row (evalWhere regex t row c.clause p err).pool := by
          rw [rowObject_extends (hp.trans hext) (hrows rid row hrow)]
          simp only [objectAt, hrow]
        simp only [if_true, List.mapM_cons, hobj]
        cases rowObject t items row (evalWhere regex t row c.clause p err).pool with
        | error e => rfl
        | ok obj =>
          dsimp only
          rw [hrest]
          cases List.mapM (objectAt t items pool) _ <;> rfl

end Select
end Dbms.Exec
