import Dbms.Core.BTreeLeaf
import Mathlib.Data.List.Nodup
import Mathlib.Data.List.InsertIdx

/-! One turn of the split loop on a B+ tree in which one node holds a key too many. A leaf and an
internal node are halved alike, up to where the upper half of the keys begins. -/

open Dbms.Lib

namespace Dbms.Core.BPlusTreeIndex
variable {κ : Type*} {cmp : κ → κ → Int} {dup : Bool} {S : κ → Prop} {t t' : BPlusTreeIndex κ}
  {g : Ghost κ} {r cur up : Nat} {sep : κ}

@[simp] theorem setParents_size (cs : List Nat) (p : Nat) : (t.setParents cs p).size = t.size := by
  induction cs generalizing t with
  | nil => rfl
  | cons c cs ih => exact ih

@[simp] theorem setParents_root (cs : List Nat) (p : Nat) : (t.setParents cs p).root = t.root := by
  induction cs generalizing t with
  | nil => rfl
  | cons c cs ih => exact ih

@[simp] theorem setParents_order (cs : List Nat) (p : Nat) :
    (t.setParents cs p).order = t.order := by
  induction cs generalizing t with
  | nil => rfl
  | cons c cs ih => exact ih

@[simp] theorem setParents_heap (cs : List Nat) (p x : Nat) :
    (t.setParents cs p).heap x =
      if x ∈ cs then { t.heap x with parent := some p } else t.heap x := by
  induction cs generalizing t with
  | nil => simp [setParents]
  | cons c cs ih =>
    have hstep : t.setParents (c :: cs) p =
        (t.modify c fun n => { n with parent := some p }).setParents cs p := rfl
    rw [hstep, ih]
    by_cases hx : x = c
    · subst hx
      simp
    · simp [hx]

@[simp] theorem alloc_heap (n : Node κ) (x : Nat) :
    (t.alloc n).heap x = if x = t.size then n else t.heap x := by
  simp [alloc, Function.update_apply]

@[simp] theorem alloc_size (n : Node κ) : (t.alloc n).size = t.size + 1 := rfl

@[simp] theorem alloc_root (n : Node κ) : (t.alloc n).root = t.root := rfl

@[simp] theorem alloc_order (n : Node κ) : (t.alloc n).order = t.order := rfl

def lowerHalf (n : Node κ) (right : Nat) : Node κ :=
  let mid := n.keys.length / 2
  { n with keys := n.keys.take mid,
           rows := if n.leaf then n.rows.take mid else n.rows,
           ch := if n.leaf then n.ch else n.ch.take (mid + 1),
           next := if n.leaf then some right else n.next }

def upperHalf (n : Node κ) : Node κ :=
  let mid := n.keys.length / 2
  { leaf := n.leaf, keys := n.keys.drop (if n.leaf then mid else mid + 1),
    rows := if n.leaf then n.rows.drop mid else [],
    ch := if n.leaf then [] else n.ch.drop (mid + 1),
    next := if n.leaf then n.next else none }

def withHalf (n : Node κ) (cur right : Nat) (key : κ) : Node κ :=
  { n with keys := n.keys.insertIdx (n.ch.idxOf cur) key,
           ch := n.ch.insertIdx (n.ch.idxOf cur + 1) right }

def movedTo (n : Node κ) (cur right x : Nat) : Nat :=
  if x ∈ n.ch.drop (n.keys.length / 2 + 1) then right else cur

def splitNode (t : BPlusTreeIndex κ) (cur : Nat) : BPlusTreeIndex κ :=
  if (t.heap cur).leaf then t.splitLeaf cur else t.splitInternal cur

@[simp] theorem splitNode_size : (t.splitNode cur).size = t.size + 1 := by
  unfold splitNode
  split <;> simp [splitLeaf, splitInternal]

@[simp] theorem splitNode_root : (t.splitNode cur).root = t.root := by
  unfold splitNode
  split <;> simp [splitLeaf, splitInternal]

@[simp] theorem splitNode_order : (t.splitNode cur).order = t.order := by
  unfold splitNode
  split <;> simp [splitLeaf, splitInternal]

theorem splitNode_heap (hcur : cur < t.size)
    (hch : (t.heap cur).leaf = false → ∀ c ∈ (t.heap cur).ch, c < t.size ∧ c ≠ cur) (x : Nat) :
    (t.splitNode cur).heap x =
      if x = cur then lowerHalf (t.heap cur) t.size
      else if x = t.size then upperHalf (t.heap cur)
      else if (t.heap cur).leaf = false ∧ x ∈ (t.heap cur).ch then
        { t.heap x with parent := some (movedTo (t.heap cur) cur t.size x) }
      else t.heap x := by
  have hne : cur ≠ t.size := Nat.ne_of_lt hcur
  cases hleaf : (t.heap cur).leaf with
  | true =>
    by_cases hx : x = cur
    · subst hx
      simp [splitNode, splitLeaf, lowerHalf, hleaf, hne]
    · simp [splitNode, splitLeaf, upperHalf, hleaf, hx]
  | false =>
    have hch := hch hleaf
    have hcut : ∀ y, y ∈ (t.heap cur).ch ↔ y ∈ (t.heap cur).ch.take ((t.heap cur).keys.length / 2 + 1) ∨
        y ∈ (t.heap cur).ch.drop ((t.heap cur).keys.length / 2 + 1) := fun y => by
      rw [← List.mem_append, List.take_append_drop]
    by_cases hx : x = cur
    · subst hx
      have hself : x ∉ (t.heap x).ch := fun h => (hch x h).2 rfl
      rw [hcut, not_or] at hself
      simp [splitNode, splitInternal, lowerHalf, hleaf, hne, hself.1, hself.2]
    · by_cases hxs : x = t.size
      · have hnew : x ∉ (t.heap cur).ch := fun h => Nat.ne_of_lt (hch x h).1 hxs
        rw [hcut, not_or] at hnew
        subst hxs
        simp [splitNode, splitInternal, upperHalf, hleaf, hx, hnew.1, hnew.2]
      · by_cases hr : x ∈ (t.heap cur).ch.drop ((t.heap cur).keys.length / 2 + 1)
        · by_cases hl : x ∈ (t.heap cur).ch.take ((t.heap cur).keys.length / 2 + 1) <;>
            simp [splitNode, splitInternal, hleaf, hx, hxs, hr, hl, List.mem_of_mem_drop hr, movedTo]
        · by_cases hl : x ∈ (t.heap cur).ch.take ((t.heap cur).keys.length / 2 + 1)
          · simp [splitNode, splitInternal, hleaf, hx, hxs, hr, hl, List.mem_of_mem_take hl, movedTo]
          · have hno : x ∉ (t.heap cur).ch := by rw [hcut, not_or]; exact ⟨hl, hr⟩
            simp [splitNode, splitInternal, hleaf, hx, hxs, hr, hl, hno]

/-- The heap `t'` after the node `cur` of `t` was halved at `sep` and the upper half, the new node
`t.size`, was hung into `up`: the old parent, or a new root above an old one. -/
structure Halved (t t' : BPlusTreeIndex κ) (cur up : Nat) (sep : κ) : Prop where
  mid : (t.heap cur).keys[(t.heap cur).keys.length / 2]? = some sep
  order : t'.order = t.order
  lower : t'.heap cur = { lowerHalf (t.heap cur) t.size with parent := some up }
  upper : t'.heap t.size = { upperHalf (t.heap cur) with parent := some up }
  moved : ∀ x < t.size, x ≠ cur → x ≠ up → (t.heap cur).leaf = false → x ∈ (t.heap cur).ch →
    t'.heap x = { t.heap x with parent := some (movedTo (t.heap cur) cur t.size x) }
  other : ∀ x < t.size, x ≠ cur → x ≠ up → ((t.heap cur).leaf = false → x ∉ (t.heap cur).ch) →
    t'.heap x = t.heap x
  hung : ((t.heap cur).parent = some up ∧ t'.size = t.size + 1 ∧ t'.root = t.root ∧
      t'.heap up = withHalf (t.heap up) cur t.size sep) ∨
    ((t.heap cur).parent = none ∧ up = t.size + 1 ∧ t'.size = t.size + 2 ∧ t'.root = some up ∧
      t'.heap up = { leaf := false, keys := [sep], ch := [cur, t.size] })

theorem splitStep_none (h : (t.heap cur).keys.length ≤ t.order) : splitStep (t, cur) = none := by
  simp [splitStep, Nat.not_lt.mpr h]

theorem splitStep_halved (hcur : cur < t.size) (hover : t.order < (t.heap cur).keys.length)
    (hpar : ∀ p, (t.heap cur).parent = some p → p < t.size ∧ p ≠ cur ∧
      ((t.heap cur).leaf = false → p ∉ (t.heap cur).ch))
    (hch : (t.heap cur).leaf = false → ∀ c ∈ (t.heap cur).ch, c < t.size ∧ c ≠ cur) :
    ∃ t' up sep, splitStep (t, cur) = some (t', up) ∧ Halved t t' cur up sep := by
  have hmid : (t.heap cur).keys.length / 2 < (t.heap cur).keys.length := by omega
  have hsep := List.getElem?_eq_getElem hmid
  have hnode : (if (t.heap cur).leaf then t.splitLeaf cur else t.splitInternal cur) =
      t.splitNode cur := rfl
  have hne : cur ≠ t.size := Nat.ne_of_lt hcur
  have hheap := splitNode_heap hcur hch
  cases hp : (t.heap cur).parent with
  | none =>
    refine ⟨_, _, _, by simp only [splitStep, hover, hsep, hnode, hp, if_true]; rfl,
      ⟨hsep, by simp [growRoot], ?_, ?_, ?_, ?_,
        .inr ⟨hp, by simp, by simp [growRoot], by simp [growRoot], ?_⟩⟩⟩
    · have h1 : cur ≠ t.size + 1 := Nat.ne_of_lt (Nat.lt_succ_of_lt hcur)
      simp [growRoot, hheap, hne, h1]
    · simp [growRoot, hheap, hne.symm]
    · intro x hx hxc _ hl hmem
      have h1 : x ≠ t.size + 1 := by omega
      simp [growRoot, hheap, hxc, h1, Nat.ne_of_lt hx, hl, hmem]
    · intro x hx hxc _ hmem
      have h1 : x ≠ t.size + 1 := by omega
      have h2 : ¬((t.heap cur).leaf = false ∧ x ∈ (t.heap cur).ch) := fun h => hmem h.1 h.2
      simp [growRoot, hheap, hxc, h1, Nat.ne_of_lt hx, h2]
    · have h1 : t.size + 1 ≠ cur := (Nat.ne_of_lt (Nat.lt_succ_of_lt hcur)).symm
      simp [growRoot, h1]
  | some p =>
    obtain ⟨hpl, hpc, hpch⟩ := hpar p hp
    have hps : p ≠ t.size := Nat.ne_of_lt hpl
    refine ⟨_, _, _, by simp only [splitStep, hover, hsep, hnode, hp, if_true]; rfl,
      ⟨hsep, by simp [insertSep], ?_, ?_, ?_, ?_,
        .inl ⟨hp, by simp [insertSep], by simp [insertSep], ?_⟩⟩⟩
    · simp [insertSep, hheap, hne, hpc.symm, lowerHalf, hp]
    · simp [insertSep, hheap, hne.symm, hps.symm]
    · intro x hx hxc hxp hl hmem
      simp [insertSep, hheap, hxc, hxp, Nat.ne_of_lt hx, hl, hmem]
    · intro x hx hxc hxp hmem
      have h2 : ¬((t.heap cur).leaf = false ∧ x ∈ (t.heap cur).ch) := fun h => hmem h.1 h.2
      simp [insertSep, hheap, hxc, hxp, Nat.ne_of_lt hx, h2]
    · have h2 : ¬((t.heap cur).leaf = false ∧ p ∈ (t.heap cur).ch) := fun h => hpch h.1 h.2
      simp [insertSep, withHalf, hheap, hpc, hps, h2]

end Dbms.Core.BPlusTreeIndex
