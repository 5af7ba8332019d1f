import Dbms.Lib.Spans
import Dbms.Core.BTree

/-! The representation invariant of the index. The tree is read off the heap by ghost functions:
the level of a node, the interval it answers for, and the leaves below it from left to right. Every
condition is then about one node and its neighbours, and no path through the tree is named. -/

open Dbms.Lib

namespace Dbms.Core.BPlusTreeIndex
variable {κ : Type*}

structure Ghost (κ : Type*) where
  lvl : Nat → Nat
  lo : Nat → Option κ
  hi : Nat → Option κ
  seg : Nat → List Nat

def nodeEntries (t : BPlusTreeIndex κ) (a : Nat) : List (κ × RowId) :=
  (t.heap a).keys.zip (t.heap a).rows

def entriesOf (t : BPlusTreeIndex κ) (l : List Nat) : List (κ × RowId) := l.flatMap t.nodeEntries

def keysOf (t : BPlusTreeIndex κ) (l : List Nat) : List κ := l.flatMap fun a => (t.heap a).keys

def Linked (t : BPlusTreeIndex κ) : List Nat → Prop
  | [] => True
  | a :: l => (t.heap a).next = l.head? ∧ Linked t l

structure ChildOk (t : BPlusTreeIndex κ) (g : Ghost κ) (a c : Nat) (lo hi : Option κ) : Prop where
  lt : c < t.size
  parent : (t.heap c).parent = some a
  lvl : g.lvl a = g.lvl c + 1
  lo : g.lo c = lo
  hi : g.hi c = hi

section
variable (cmp : κ → κ → Int) (dup : Bool) (S : κ → Prop)

structure LeafOk (t : BPlusTreeIndex κ) (g : Ghost κ) (a : Nat) : Prop where
  ch : (t.heap a).ch = []
  rows : (t.heap a).keys.length = (t.heap a).rows.length
  sorted : (t.heap a).keys.Pairwise (Before cmp dup)
  above : ∀ k ∈ (t.heap a).keys, AboveLo cmp (g.lo a) k
  below : ∀ k ∈ (t.heap a).keys, BelowHi cmp dup (g.hi a) k
  seg : g.seg a = [a]

structure BranchOk (t : BPlusTreeIndex κ) (g : Ghost κ) (a : Nat) : Prop where
  rows : (t.heap a).rows = []
  spans : Spans (ChildOk t g a) (g.lo a) (t.heap a).keys (t.heap a).ch (g.hi a)
  nodup : (t.heap a).ch.Nodup
  seg : g.seg a = (t.heap a).ch.flatMap g.seg
  pos : 1 ≤ (t.heap a).keys.length
  min : (t.heap a).parent ≠ none → t.order / 2 ≤ (t.heap a).keys.length

/-- A node in place. Only the node `big` may hold one key too many. -/
structure NodeOk (t : BPlusTreeIndex κ) (g : Ghost κ) (big : Option Nat) (a : Nat) : Prop where
  leaf_iff : (t.heap a).leaf = true ↔ g.lvl a = 0
  ordered : Ordered cmp (g.lo a) (g.hi a)
  bounds : ∀ s, g.lo a = some s ∨ g.hi a = some s → S s
  stored : ∀ k ∈ (t.heap a).keys, S k
  max : (t.heap a).keys.length ≤ t.order + if big = some a then 1 else 0
  segLeaf : ∀ x ∈ g.seg a, x < t.size ∧ (t.heap x).leaf = true
  parent : ∀ p, (t.heap a).parent = some p → p < t.size ∧ a ∈ (t.heap p).ch
  leafOk : (t.heap a).leaf = true → LeafOk cmp dup t g a
  branchOk : (t.heap a).leaf = false → BranchOk t g a

/-- The heap below the root `r` is a B+ tree. -/
structure WellFormed (t : BPlusTreeIndex κ) (g : Ghost κ) (big : Option Nat) (r : Nat) :
    Prop where
  order : 4 ≤ t.order
  root : t.root = some r
  rootLt : r < t.size
  rootOf : ∀ a < t.size, (t.heap a).parent = none ↔ a = r
  rootLo : g.lo r = none
  rootHi : g.hi r = none
  height : g.lvl r < t.size
  node : ∀ a < t.size, NodeOk cmp dup S t g big a
  linked : Linked t (g.seg r)
  nodup : (g.seg r).Nodup

/-- The index stores the pairs `es`, in this order; its keys all satisfy `S`. -/
def Stores (t : BPlusTreeIndex κ) (es : List (κ × RowId)) : Prop :=
  (4 ≤ t.order ∧ t.root = none ∧ t.size = 0 ∧ es = []) ∨
    ∃ g r, WellFormed cmp dup S t g none r ∧ es = t.entriesOf (g.seg r)

end

section
variable {cmp : κ → κ → Int} {dup : Bool} {S : κ → Prop} {t : BPlusTreeIndex κ} {g : Ghost κ}
  {big : Option Nat} {r : Nat}

@[simp] theorem entriesOf_nil : t.entriesOf [] = [] := rfl

@[simp] theorem entriesOf_cons (a : Nat) (l : List Nat) :
    t.entriesOf (a :: l) = t.nodeEntries a ++ t.entriesOf l := List.flatMap_cons

@[simp] theorem entriesOf_append (l l' : List Nat) :
    t.entriesOf (l ++ l') = t.entriesOf l ++ t.entriesOf l' := List.flatMap_append

@[simp] theorem keysOf_append (l l' : List Nat) :
    t.keysOf (l ++ l') = t.keysOf l ++ t.keysOf l' := List.flatMap_append

theorem keysOf_cons (a : Nat) (l : List Nat) :
    t.keysOf (a :: l) = (t.heap a).keys ++ t.keysOf l := List.flatMap_cons

namespace WellFormed

theorem leafOk (h : WellFormed cmp dup S t g big r) {a : Nat} (ha : a < t.size)
    (hl : g.lvl a = 0) : LeafOk cmp dup t g a :=
  (h.node a ha).leafOk ((h.node a ha).leaf_iff.mpr hl)

theorem branchOk (h : WellFormed cmp dup S t g big r) {a : Nat} (ha : a < t.size)
    (hl : g.lvl a ≠ 0) : BranchOk t g a := by
  refine (h.node a ha).branchOk ?_
  by_contra hleaf
  exact hl ((h.node a ha).leaf_iff.mp (by simpa using hleaf))

theorem leafOk_of_mem (h : WellFormed cmp dup S t g big r) {l : Nat} (hl : l ∈ g.seg r) :
    l < t.size ∧ LeafOk cmp dup t g l := by
  obtain ⟨hlt, hleaf⟩ := (h.node r h.rootLt).segLeaf l hl
  exact ⟨hlt, (h.node l hlt).leafOk hleaf⟩

theorem keeps (hc : TotalPreorder cmp) (h : WellFormed cmp dup S t g big r) (n : Nat) :
    ∀ a < t.size, g.lvl a = n →
      Keeps cmp dup (fun a => t.keysOf (g.seg a)) a (g.lo a) (g.hi a) := by
  induction n with
  | zero =>
    intro a ha hl
    have hleaf := h.leafOk ha hl
    have hk : t.keysOf (g.seg a) = (t.heap a).keys := by simp [keysOf, hleaf.seg]
    exact ⟨(h.node a ha).ordered, hk ▸ hleaf.above, hk ▸ hleaf.below, hk ▸ hleaf.sorted⟩
  | succ n ih =>
    intro a ha hl
    have hb := h.branchOk ha (by omega)
    have hs : Spans (Keeps cmp dup fun a => t.keysOf (g.seg a)) (g.lo a) (t.heap a).keys
        (t.heap a).ch (g.hi a) := by
      refine spans_mono hb.spans fun c _ lo hi hok => ?_
      have hkeep := ih c hok.lt (by have := hok.lvl; omega)
      rwa [hok.lo, hok.hi] at hkeep
    have hk : t.keysOf (g.seg a) = (t.heap a).ch.flatMap fun c => t.keysOf (g.seg c) := by
      rw [hb.seg, keysOf, List.flatMap_assoc]
      rfl
    have hrow := spans_keeps hc hs
    exact ⟨hrow.ordered, hk ▸ hrow.above, hk ▸ hrow.below, hk ▸ hrow.sorted⟩

theorem spans (hc : TotalPreorder cmp) (h : WellFormed cmp dup S t g big r) {a : Nat}
    (ha : a < t.size) (hl : g.lvl a ≠ 0) :
    Spans (fun c lo hi => ChildOk t g a c lo hi ∧
      Keeps cmp dup (fun a => t.keysOf (g.seg a)) c lo hi)
      (g.lo a) (t.heap a).keys (t.heap a).ch (g.hi a) := by
  refine spans_mono (h.branchOk ha hl).spans fun c _ lo hi hok => ⟨hok, ?_⟩
  have hkeep := h.keeps hc (g.lvl c) c hok.lt rfl
  rwa [hok.lo, hok.hi] at hkeep

theorem entries_keys (h : WellFormed cmp dup S t g big r) {l : List Nat}
    (hl : ∀ x ∈ l, x ∈ g.seg r) : (t.entriesOf l).map Prod.fst = t.keysOf l := by
  induction l with
  | nil => rfl
  | cons a l ih =>
    have ha := (h.leafOk_of_mem (hl a (by simp))).2
    rw [entriesOf_cons, List.map_append, ih fun x hx => hl x (by simp [hx]), keysOf_cons,
      nodeEntries, List.map_fst_zip ha.rows.le]

end WellFormed
end

end Dbms.Core.BPlusTreeIndex
