import Dbms.Core.BTreeSearch

/-! Changing what one leaf stores: the insertion of a pair into its leaf and the removal of a pair
found on the chain. -/

open Dbms.Lib

namespace Dbms.Core.BPlusTreeIndex
variable {κ : Type*} {cmp : κ → κ → Int} {dup : Bool} {S : κ → Prop} {t : BPlusTreeIndex κ}
  {g : Ghost κ} {big : Option Nat} {r : Nat}

@[simp] theorem modify_heap (t : BPlusTreeIndex κ) (a : Nat) (f : Node κ → Node κ) (x : Nat) :
    (t.modify a f).heap x = if x = a then f (t.heap a) else t.heap x := by
  simp [modify, Function.update_apply]

@[simp] theorem modify_size (t : BPlusTreeIndex κ) (a : Nat) (f : Node κ → Node κ) :
    (t.modify a f).size = t.size := rfl

@[simp] theorem modify_root (t : BPlusTreeIndex κ) (a : Nat) (f : Node κ → Node κ) :
    (t.modify a f).root = t.root := rfl

@[simp] theorem modify_order (t : BPlusTreeIndex κ) (a : Nat) (f : Node κ → Node κ) :
    (t.modify a f).order = t.order := rfl

def setLeaf (t : BPlusTreeIndex κ) (l : Nat) (keys : List κ) (rows : List RowId) :
    BPlusTreeIndex κ :=
  t.modify l fun n => { n with keys := keys, rows := rows }

section SetLeaf
variable {l : Nat} {keys : List κ} {rows : List RowId}

theorem setLeaf_heap_of_ne {x : Nat} (hx : x ≠ l) : (t.setLeaf l keys rows).heap x = t.heap x := by
  simp [setLeaf, hx]

@[simp] theorem setLeaf_heap_self :
    (t.setLeaf l keys rows).heap l = { t.heap l with keys := keys, rows := rows } := by
  simp [setLeaf]

@[simp] theorem setLeaf_size : (t.setLeaf l keys rows).size = t.size := rfl

@[simp] theorem setLeaf_order : (t.setLeaf l keys rows).order = t.order := rfl

theorem setLeaf_fields (t : BPlusTreeIndex κ) (l : Nat) (keys : List κ) (rows : List RowId) (x : Nat) :
    ((t.setLeaf l keys rows).heap x).leaf = (t.heap x).leaf ∧
      ((t.setLeaf l keys rows).heap x).parent = (t.heap x).parent ∧
      ((t.setLeaf l keys rows).heap x).ch = (t.heap x).ch ∧
      ((t.setLeaf l keys rows).heap x).next = (t.heap x).next := by
  by_cases hx : x = l
  · subst hx
    simp
  · simp [setLeaf_heap_of_ne hx]

theorem setLeaf_linked {ls : List Nat} (h : t.Linked ls) : (t.setLeaf l keys rows).Linked ls := by
  induction ls with
  | nil => trivial
  | cons a ls ih => exact ⟨(setLeaf_fields t l keys rows a).2.2.2.trans h.1, ih h.2⟩

theorem setLeaf_entries_of_notMem {ls : List Nat} (h : l ∉ ls) :
    (t.setLeaf l keys rows).entriesOf ls = t.entriesOf ls := by
  induction ls with
  | nil => rfl
  | cons a ls ih =>
    obtain ⟨hne, hmem⟩ := List.ne_and_not_mem_of_not_mem_cons h
    simp only [entriesOf_cons, ih hmem, nodeEntries, setLeaf_heap_of_ne (Ne.symm hne)]

theorem setLeaf_entries {pre post : List Nat} (hnd : (pre ++ l :: post).Nodup) :
    (t.setLeaf l keys rows).entriesOf (pre ++ l :: post) =
      t.entriesOf pre ++ keys.zip rows ++ t.entriesOf post := by
  have hpre : l ∉ pre := fun hm =>
    (List.nodup_append.mp hnd).2.2 l hm l (by simp) rfl
  have hpost : l ∉ post := (List.nodup_cons.mp (List.nodup_append.mp hnd).2.1).1
  simp [setLeaf_entries_of_notMem hpre, setLeaf_entries_of_notMem hpost, nodeEntries]

theorem WellFormed.setLeaf (h : WellFormed cmp dup S t g big r) (hl : l < t.size)
    (hlvl : g.lvl l = 0) (hover : big = none ∨ big = some l) (hrows : keys.length = rows.length)
    (hsorted : keys.Pairwise (Before cmp dup)) (habove : ∀ k ∈ keys, AboveLo cmp (g.lo l) k)
    (hbelow : ∀ k ∈ keys, BelowHi cmp dup (g.hi l) k) (hS : ∀ k ∈ keys, S k)
    (hmax : keys.length ≤ t.order + 1) :
    WellFormed cmp dup S (t.setLeaf l keys rows) g (some l) r := by
  refine { h with
    node := fun a ha => ?_
    rootOf := fun a ha => ?_
    linked := setLeaf_linked h.linked }
  · rw [(setLeaf_fields t l keys rows a).2.1]
    exact h.rootOf a ha
  -- Only the leaf itself changes, and of it neither the parent nor the link.
  have hn := h.node a ha
  obtain ⟨hfl, hfp, hfc, -⟩ := setLeaf_fields t l keys rows a
  refine ⟨by rw [hfl]; exact hn.leaf_iff, hn.ordered, hn.bounds, ?_, ?_, ?_, ?_, fun hleaf => ?_,
    fun hbr => ?_⟩
  · by_cases hal : a = l
    · subst hal
      simpa using hS
    · rw [setLeaf_heap_of_ne hal]
      exact hn.stored
  · by_cases hal : a = l
    · subst hal
      simpa using hmax
    · rw [setLeaf_heap_of_ne hal, if_neg (by simpa using Ne.symm hal)]
      have hmaxa := hn.max
      rwa [if_neg] at hmaxa
      rintro rfl
      rcases hover with hover | hover
      · cases hover
      · exact hal (Option.some.inj hover)
  · intro x hx
    rw [(setLeaf_fields t l keys rows x).1]
    exact hn.segLeaf x hx
  · intro p hp
    rw [(setLeaf_fields t l keys rows p).2.2.1]
    exact hn.parent p (hfp ▸ hp)
  · have hlf := hn.leafOk (hfl ▸ hleaf)
    by_cases hal : a = l
    · subst hal
      refine ⟨hfc.trans hlf.ch, ?_, ?_, ?_, ?_, hlf.seg⟩
      · simpa using hrows
      · simpa using hsorted
      · simpa using habove
      · simpa using hbelow
    · refine ⟨hfc.trans hlf.ch, ?_, ?_, ?_, ?_, hlf.seg⟩ <;> rw [setLeaf_heap_of_ne hal]
      exacts [hlf.rows, hlf.sorted, hlf.above, hlf.below]
  · have hal : a ≠ l := by
      rintro rfl
      rw [hfl, hn.leaf_iff.mpr hlvl] at hbr
      cases hbr
    have hb := hn.branchOk (hfl ▸ hbr)
    have heq : (t.setLeaf l keys rows).heap a = t.heap a := setLeaf_heap_of_ne hal
    refine ⟨heq ▸ hb.rows, ?_, heq ▸ hb.nodup, heq ▸ hb.seg, heq ▸ hb.pos, heq ▸ hb.min⟩
    rw [heq]
    exact spans_mono hb.spans fun c _ lo hi hok =>
      ⟨hok.lt, (setLeaf_fields t l keys rows c).2.1.trans hok.parent, hok.lvl, hok.lo, hok.hi⟩

end SetLeaf

/-! An index that has not been split. -/

structure OneLeaf (t : BPlusTreeIndex κ) (order : Nat) (keys : List κ) (rows : List RowId) :
    Prop where
  order : t.order = order
  root : t.root = some 0
  size : t.size = 1
  leaf : (t.heap 0).leaf = true
  keys : (t.heap 0).keys = keys
  rows : (t.heap 0).rows = rows
  next : (t.heap 0).next = none

section OneLeaf
variable {order : Nat} {keys : List κ} {rows : List RowId} (cmp : κ → κ → Int)

theorem oneLeaf_new (hroot : t.root = none) (hsize : t.size = 0) (k : κ) (row : RowId) :
    OneLeaf (t.insert cmp k row) t.order [k] [row] := by
  unfold insert insertValue
  rw [hroot]
  dsimp only
  rw [hsize]
  constructor <;> simp [alloc, hsize]

theorem OneLeaf.findLeaf (h : OneLeaf t order keys rows) (k : κ) : findLeaf cmp t 0 k = 0 := by
  apply iterate_of_exit
  simp [findLeafStep, h.leaf]

theorem OneLeaf.insert (h : OneLeaf t order keys rows) (hlen : keys.length < order) (k : κ)
    (row : RowId) : OneLeaf (t.insert cmp k row) order
      (keys.insertIdx (keys.findIdx fun x => 0 ≤ cmp x k) k)
      (rows.insertIdx (keys.findIdx fun x => 0 ≤ cmp x k) row) := by
  have hsmall : ((t.insertLeaf cmp 0 k row).heap 0).keys.length ≤ order := by
    simp only [insertLeaf, modify_heap, if_pos, h.keys]
    exact List.length_insertIdx_le_succ.trans hlen
  have hexit : splitStep (t.insertLeaf cmp 0 k row, 0) = none := by
    unfold splitStep
    dsimp only
    rw [if_neg]
    show ¬t.order < _
    rw [h.order]
    omega
  unfold BPlusTreeIndex.insert insertValue
  rw [h.root]
  dsimp only
  rw [h.findLeaf cmp, iterate_of_exit hexit]
  constructor <;> simp [insertLeaf, h.order, h.root, h.size, h.leaf, h.keys, h.rows, h.next]

theorem OneLeaf.erase (h : OneLeaf t order keys rows) {k : κ} {row : RowId} {i : Nat}
    (hi : (keys.zip rows).findIdx? (fun e => cmp e.1 k = 0 ∧ e.2 = row) = some i) :
    OneLeaf (t.erase cmp k row).1 order (keys.eraseIdx i) (rows.eraseIdx i) := by
  unfold BPlusTreeIndex.erase
  rw [h.root]
  dsimp only
  rw [h.findLeaf cmp, h.size, eraseFrom, eraseLeaf]
  rw [h.keys, h.rows, hi]
  constructor <;> simp [h.order, h.root, h.size, h.leaf, h.keys, h.rows, h.next]

theorem OneLeaf.findEqual (h : OneLeaf t order keys rows) (k : κ) : t.findEqual cmp k =
    (scanLeaf (fun x => cmp x k = 0) (fun x => 0 < cmp x k) (keys.zip rows)).1 := by
  unfold BPlusTreeIndex.findEqual
  rw [h.root]
  dsimp only
  rw [h.findLeaf cmp, h.size, scanFrom, h.keys, h.rows, h.next]
  simp [scanFrom]

end OneLeaf
end Dbms.Core.BPlusTreeIndex
