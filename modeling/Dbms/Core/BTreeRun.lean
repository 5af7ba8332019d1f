import Dbms.Core.BTreeShape

/-! Runs of the index, with equal keys allowed, and what they should have left in it. -/

open Dbms.Lib

namespace Dbms.Core.BPlusTreeIndex
variable {κ : Type*} {cmp : κ → κ → Int} {dup : Bool} {S : κ → Prop} {t : BPlusTreeIndex κ}
  {es : List (κ × RowId)}

inductive Op (κ : Type*) where
  | insert (key : κ) (row : RowId)
  | erase (key : κ) (row : RowId)
  | clear

/-- The pairs inserted and the pairs erased with the answer `true`, since the last `clear`. -/
structure Ledger (κ : Type*) where
  inserted : List (κ × RowId) := []
  erased : List (κ × RowId) := []

def perform (cmp : κ → κ → Int) (s : BPlusTreeIndex κ × Ledger κ) :
    Op κ → BPlusTreeIndex κ × Ledger κ
  | .insert k row => (s.1.insert cmp k row, { s.2 with inserted := (k, row) :: s.2.inserted })
  | .erase k row =>
    ((s.1.erase cmp k row).1,
      if (s.1.erase cmp k row).2 then { s.2 with erased := (k, row) :: s.2.erased } else s.2)
  | .clear => (s.1.clear, {})

def performAll (cmp : κ → κ → Int) (order : Int) (ops : List (Op κ)) :
    BPlusTreeIndex κ × Ledger κ :=
  ops.foldl (perform cmp) (new order, {})

def SamePair (cmp : κ → κ → Int) (e e' : κ × RowId) : Prop := cmp e.1 e'.1 = 0 ∧ e.2 = e'.2

/-- The pairs `es` are those inserted less one pair for each pair erased. -/
def Settles (cmp : κ → κ → Int) (es : List (κ × RowId)) (l : Ledger κ) : Prop :=
  ∃ gone, (es ++ gone).Perm l.inserted ∧ List.Forall₂ (SamePair cmp) gone l.erased

theorem Settles.insert {l : Ledger κ} {es₁ es₂ : List (κ × RowId)} (h : Settles cmp (es₁ ++ es₂) l)
    (e : κ × RowId) :
    Settles cmp (es₁ ++ e :: es₂) { l with inserted := e :: l.inserted } := by
  obtain ⟨gone, hperm, hgone⟩ := h
  refine ⟨gone, ?_, hgone⟩
  have hmiddle : (es₁ ++ e :: es₂ ++ gone).Perm (e :: (es₁ ++ es₂ ++ gone)) :=
    List.perm_middle.append_right gone
  exact hmiddle.trans (hperm.cons e)

theorem Settles.erase {l : Ledger κ} {k : κ} {row : RowId} {es es' : List (κ × RowId)}
    (h : Settles cmp es l) (hrem : Removed cmp k row es es') :
    Settles cmp es' { l with erased := (k, row) :: l.erased } := by
  obtain ⟨gone, hperm, hgone⟩ := h
  obtain ⟨es₁, e, es₂, rfl, hk, hrow, rfl⟩ := hrem.out
  refine ⟨e :: gone, ?_, .cons ⟨hk, hrow⟩ hgone⟩
  have hmiddle : (es₁ ++ es₂ ++ e :: gone).Perm (e :: (es₁ ++ es₂ ++ gone)) := List.perm_middle
  have hback : (e :: (es₁ ++ es₂ ++ gone)).Perm (es₁ ++ e :: es₂ ++ gone) :=
    (List.perm_middle.append_right gone).symm
  exact (hmiddle.trans hback).trans hperm

theorem Stores.erase_dup (hc : TotalPreorder cmp) (h : Stores cmp dup S t es) (k : κ)
    (row : RowId) :
    t.erase cmp k row = (t, false) ∨
      ∃ t' es', t.erase cmp k row = (t', true) ∧ Removed cmp k row es es' ∧
        Stores cmp dup S t' es' := by
  rcases h with ⟨-, hroot, -, rfl⟩ | ⟨g, r, h, rfl⟩
  · exact .inl (by simp [BPlusTreeIndex.erase, hroot])
  obtain ⟨pre, post, hreach, hleaf, hseg⟩ := findLeaf_split hc h k
  rcases eraseFrom_spec h hseg (h.length_le hseg) k row with ⟨hnone, -⟩ | ⟨t', hsome, hwf, hrem⟩
  · rw [List.head?_cons] at hnone
    exact .inl (by simp only [BPlusTreeIndex.erase, h.root, hnone])
  · rw [List.head?_cons] at hsome
    refine .inr ⟨t', _, ?_, hrem, .inr ⟨g, r, hwf, rfl⟩⟩
    simp only [BPlusTreeIndex.erase, h.root, hsome]

def InStep (cmp : κ → κ → Int) (order : Int) (s : BPlusTreeIndex κ × Ledger κ) : Prop :=
  s.1.order = (max 4 order).toNat ∧
    ∃ es, Stores cmp true (fun _ => True) s.1 es ∧ Settles cmp es s.2

theorem splitStep_order {s s' : BPlusTreeIndex κ × Nat} (h : splitStep s = some s') :
    s'.1.order = s.1.order := by
  obtain ⟨t, cur⟩ := s
  simp only [splitStep] at h
  split at h
  · split at h
    · cases h
    · have hnode : (t.splitNode cur).order = t.order := splitNode_order
      split at h <;> cases h
      · exact hnode
      · exact hnode
  · cases h

theorem insert_order (t : BPlusTreeIndex κ) (k : κ) (row : RowId) :
    (t.insert cmp k row).order = t.order := by
  unfold insert insertValue
  split
  · rfl
  · rename_i r _
    have hstep : ∀ s s' : BPlusTreeIndex κ × Nat, s.1.order = t.order → splitStep s = some s' →
        s'.1.order = t.order := fun s s' hs hstep => (splitStep_order hstep).trans hs
    have hstart : (t.insertLeaf cmp (findLeaf cmp t r k) k row).order = t.order := rfl
    exact iterate_keeps hstep (s := (_, findLeaf cmp t r k)) hstart (t.size + 1)

theorem eraseFrom_order {k : κ} {row : RowId} {n : Nat} {l : Option Nat} {t' : BPlusTreeIndex κ}
    (h : t.eraseFrom cmp k row n l = some t') : t'.order = t.order := by
  induction n generalizing l with
  | zero => cases h
  | succ n ih =>
    cases l with
    | none => cases h
    | some l =>
      cases herase : t.eraseLeaf cmp l k row with
      | none =>
        simp only [eraseFrom, herase] at h
        exact ih h
      | some t₁ =>
        simp only [eraseFrom, herase] at h
        cases h
        simp only [eraseLeaf] at herase
        split at herase <;> cases herase
        rfl

theorem erase_order (t : BPlusTreeIndex κ) (k : κ) (row : RowId) :
    (t.erase cmp k row).1.order = t.order := by
  unfold erase
  split
  · rfl
  · split
    · rename_i hfrom
      exact eraseFrom_order hfrom
    · rfl

theorem InStep.perform (hc : TotalPreorder cmp) {order : Int} {s : BPlusTreeIndex κ × Ledger κ}
    (h : InStep cmp order s) (op : Op κ) : InStep cmp order (perform cmp s op) := by
  obtain ⟨horder, es, hes, hled⟩ := h
  cases op with
  | insert k row =>
    obtain ⟨es₁, es₂, rfl, hins⟩ := hes.insert hc row trivial (.inl rfl)
    exact ⟨(insert_order s.1 k row).trans horder, _, hins, hled.insert (k, row)⟩
  | erase k row =>
    refine ⟨(erase_order s.1 k row).trans horder, ?_⟩
    rcases hes.erase_dup hc k row with heq | ⟨t', es', heq, hrem, hes'⟩
    · simp only [BPlusTreeIndex.perform, heq, Bool.false_eq_true, if_false]
      exact ⟨es, hes, hled⟩
    · simp only [BPlusTreeIndex.perform, heq, if_true]
      exact ⟨es', hes', hled.erase hrem⟩
  | clear => exact ⟨horder, [], hes.clear, [], .nil, .nil⟩

theorem performAll_inStep (hc : TotalPreorder cmp) (order : Int) (ops : List (Op κ)) :
    InStep cmp order (performAll cmp order ops) := by
  have hstart : InStep cmp order ((new order : BPlusTreeIndex κ), {}) :=
    ⟨rfl, [], new_stores order, [], .nil, .nil⟩
  unfold performAll
  generalize (new order, ({} : Ledger κ)) = s at hstart
  induction ops generalizing s with
  | nil => exact hstart
  | cons op ops ih => exact ih _ (hstart.perform hc op)

/-- After any operations the index is a B+ tree of the order asked for, and stores the pairs
inserted less those erased. -/
theorem performAll_isBPlusTree (hc : TotalPreorder cmp) (order : Int) (ops : List (Op κ)) :
    (performAll cmp order ops).1.order = (max 4 order).toNat ∧
      ∃ es, IsBPlusTree cmp (performAll cmp order ops).1 es ∧
        Settles cmp es (performAll cmp order ops).2 := by
  obtain ⟨horder, es, hes, hled⟩ := performAll_inStep hc order ops
  exact ⟨horder, es, hes.isBPlusTree hc, hled⟩

theorem performAll_isBPlusTree_sub :
    let ops := [Op.insert (1 : Int) 5, .insert 1 6, .insert 2 7, .erase 1 6, .insert 1 8, .insert 1 9]
    (performAll (fun a b => a - b) 3 ops).1.order = (max 4 3 : Int).toNat ∧
      ∃ es, IsBPlusTree (fun a b => a - b) (performAll (fun a b => a - b) 3 ops).1 es ∧
        Settles (fun a b => a - b) es (performAll (fun a b => a - b) 3 ops).2 :=
  performAll_isBPlusTree totalPreorder_sub 3 _

end Dbms.Core.BPlusTreeIndex
