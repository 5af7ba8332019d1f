import Dbms.Core.BTreeSpec

/-! The shape of the index, read from its root without any ghost. -/

open Dbms.Lib

namespace Dbms.Core.BPlusTreeIndex
variable {κ : Type*} {cmp : κ → κ → Int} {dup : Bool} {S : κ → Prop} {t : BPlusTreeIndex κ}
  {g : Ghost κ} {r d a : Nat} {es : List (κ × RowId)}

def LeavesAt (t : BPlusTreeIndex κ) : Nat → Nat → Prop
  | 0, a => (t.heap a).leaf = true
  | d + 1, a => (t.heap a).leaf = false ∧ ∀ c ∈ (t.heap a).ch, t.LeavesAt d c

def leaves (t : BPlusTreeIndex κ) : Nat → Nat → List Nat
  | 0, a => [a]
  | d + 1, a => (t.heap a).ch.flatMap (t.leaves d)

def keysUnder (t : BPlusTreeIndex κ) : Nat → Nat → List κ
  | 0, a => (t.heap a).keys
  | d + 1, a => (t.heap a).keys ++ (t.heap a).ch.flatMap (t.keysUnder d)

inductive Under (t : BPlusTreeIndex κ) (r : Nat) : Nat → Prop where
  | root : Under t r r
  | child {a c : Nat} : Under t r a → (t.heap a).leaf = false → c ∈ (t.heap a).ch → Under t r c

structure Balanced (cmp : κ → κ → Int) (t : BPlusTreeIndex κ) (r d a : Nat) : Prop where
  max : (t.heap a).keys.length ≤ t.order
  rows : (t.heap a).leaf = true → (t.heap a).keys.length = (t.heap a).rows.length
  children : (t.heap a).leaf = false → (t.heap a).ch.length = (t.heap a).keys.length + 1
  pos : (t.heap a).leaf = false → 1 ≤ (t.heap a).keys.length
  min : (t.heap a).leaf = false → a ≠ r → t.order / 2 ≤ (t.heap a).keys.length
  parent : (t.heap a).leaf = false → ∀ c ∈ (t.heap a).ch, (t.heap c).parent = some a
  left : (t.heap a).leaf = false → ∀ (i c : Nat) (s : κ), (t.heap a).ch[i + 1]? = some c →
    (t.heap a).keys[i]? = some s → ∀ k ∈ t.keysUnder d c, cmp s k ≤ 0
  right : (t.heap a).leaf = false → ∀ (i c : Nat) (s : κ), (t.heap a).ch[i]? = some c →
    (t.heap a).keys[i]? = some s → ∀ k ∈ t.keysUnder d c, cmp k s ≤ 0

/-- A B+ tree of height `d` below `r`, with its leaves chained from left to right. -/
structure TreeOf (cmp : κ → κ → Int) (t : BPlusTreeIndex κ) (r d : Nat) : Prop where
  leavesAt : t.LeavesAt d r
  parent : (t.heap r).parent = none
  node : ∀ a, Under t r a → Balanced cmp t r d a
  linked : t.Linked (t.leaves d r)
  nodup : (t.leaves d r).Nodup
  sorted : (t.keysOf (t.leaves d r)).Pairwise fun k k' => cmp k k' ≤ 0

/-- The index is empty, or a tree with the pairs `es` in its leaves. -/
def IsBPlusTree (cmp : κ → κ → Int) (t : BPlusTreeIndex κ) (es : List (κ × RowId)) : Prop :=
  (t.root = none ∧ es = []) ∨
    ∃ r d, t.root = some r ∧ TreeOf cmp t r d ∧ es = t.entriesOf (t.leaves d r)

namespace WellFormed

theorem leavesAt (h : WellFormed cmp dup S t g none r) (ha : a < t.size) (hd : g.lvl a = d) :
    t.LeavesAt d a := by
  induction d generalizing a with
  | zero => exact (h.node a ha).leaf_iff.mpr hd
  | succ d ih =>
    have hb := h.branchOk ha (by omega)
    have hleaf : (t.heap a).leaf = false := by
      by_contra hleaf
      have := (h.node a ha).leaf_iff.mp (by simpa using hleaf)
      omega
    refine ⟨hleaf, fun c hc => ?_⟩
    obtain ⟨lo, hi, hok⟩ := spans_mem hb.spans hc
    exact ih hok.lt (by have := hok.lvl; omega)

theorem leaves_eq (h : WellFormed cmp dup S t g none r) (ha : a < t.size) (hd : g.lvl a = d) :
    t.leaves d a = g.seg a := by
  induction d generalizing a with
  | zero => exact (h.leafOk ha hd).seg.symm
  | succ d ih =>
    have hb := h.branchOk ha (by omega)
    rw [hb.seg]
    refine List.flatMap_congr fun c hc => ?_
    obtain ⟨lo, hi, hok⟩ := spans_mem hb.spans hc
    exact ih hok.lt (by have := hok.lvl; omega)

theorem under_lt (h : WellFormed cmp dup S t g none r) (ha : Under t r a) : a < t.size := by
  induction ha with
  | root => exact h.rootLt
  | child _ hleaf hc ih =>
    obtain ⟨-, lo, hi, hok⟩ := h.child ih hc
    exact hok.lt

theorem keysUnder (hc : TotalPreorder cmp) (h : WellFormed cmp dup S t g none r) (ha : a < t.size)
    (n : Nat) : ∀ k ∈ t.keysUnder n a, AboveLo cmp (g.lo a) k ∧ ∀ s ∈ g.hi a, cmp k s ≤ 0 := by
  have hown : ∀ a < t.size, ∀ k ∈ (t.heap a).keys,
      AboveLo cmp (g.lo a) k ∧ ∀ s ∈ g.hi a, cmp k s ≤ 0 := by
    intro a ha k hk
    by_cases hl : g.lvl a = 0
    · have hleaf := h.leafOk ha hl
      exact ⟨hleaf.above k hk, fun s hs => (hleaf.below k hk s hs).le⟩
    · exact spans_separator hc (spans_mono (h.spans hc ha hl) fun _ _ _ _ hP => hP.2) hk
  induction n generalizing a with
  | zero => exact hown a ha
  | succ n ih =>
    intro k hk
    rcases List.mem_append.mp hk with hk | hk
    · exact hown a ha k hk
    obtain ⟨c, hmem, hk⟩ := List.mem_flatMap.mp hk
    obtain ⟨hleaf, -⟩ := h.child ha hmem
    have hl : g.lvl a ≠ 0 := fun h0 => by simp [(h.node a ha).leaf_iff.mpr h0] at hleaf
    obtain ⟨i, hi⟩ := List.getElem?_of_mem hmem
    obtain ⟨lo, hi', ⟨hok, hkeeps⟩, hleft, hright⟩ := spans_getElem (h.spans hc ha hl) hi
    obtain ⟨habove, hbelow⟩ := ih hok.lt k hk
    rw [hok.lo] at habove
    rw [hok.hi] at hbelow
    have hsep : ∀ s ∈ (t.heap a).keys, AboveLo cmp (g.lo a) s ∧ ∀ u ∈ g.hi a, cmp s u ≤ 0 :=
      hown a ha
    constructor
    · rcases List.mem_cons.mp (List.mem_of_getElem? hleft) with rfl | hlo
      · exact habove
      · obtain ⟨s, hs, rfl⟩ := List.mem_map.mp hlo
        exact (hsep s hs).1.mono hc habove
    · rcases List.mem_append.mp (List.mem_of_getElem? hright) with hhi | hhi
      · obtain ⟨s, hs, rfl⟩ := List.mem_map.mp hhi
        exact fun u hu => hc.trans k s u (hbelow s rfl) ((hsep s hs).2 u hu)
      · obtain rfl : hi' = g.hi a := by simpa using hhi
        exact hbelow

theorem balanced (hc : TotalPreorder cmp) (h : WellFormed cmp dup S t g none r)
    (ha : Under t r a) : Balanced cmp t r d a := by
  have hlt := h.under_lt ha
  have hn := h.node a hlt
  have hchild : ∀ i c : Nat, (t.heap a).leaf = false → (t.heap a).ch[i]? = some c →
      ∃ lo hi, (∀ k ∈ t.keysUnder d c, AboveLo cmp lo k ∧ ∀ s ∈ hi, cmp k s ≤ 0) ∧
        (g.lo a :: (t.heap a).keys.map some)[i]? = some lo ∧
        ((t.heap a).keys.map some ++ [g.hi a])[i]? = some hi := by
    intro i c hleaf hi
    obtain ⟨lo, hi, hok, hleft, hright⟩ := spans_getElem (hn.branchOk hleaf).spans hi
    have hunder := h.keysUnder hc hok.lt d
    rw [hok.lo, hok.hi] at hunder
    exact ⟨lo, hi, hunder, hleft, hright⟩
  refine ⟨by simpa using hn.max, fun hl => (hn.leafOk hl).rows,
    fun hl => spans_length (hn.branchOk hl).spans, fun hl => (hn.branchOk hl).pos, ?_, ?_, ?_, ?_⟩
  · intro hl hne
    refine (hn.branchOk hl).min fun hp => hne ((h.rootOf a hlt).mp hp)
  · intro hl c hmem
    obtain ⟨lo, hi, hok⟩ := spans_mem (hn.branchOk hl).spans hmem
    exact hok.parent
  · intro hl i c s hi hs k hk
    obtain ⟨lo, hi, hunder, hleft, -⟩ := hchild (i + 1) c hl hi
    obtain rfl : some s = lo := by simpa [hs] using hleft
    exact (hunder k hk).1 s rfl
  · intro hl i c s hi hs k hk
    obtain ⟨lo, hi', hunder, -, hright⟩ := hchild i c hl hi
    have hlen : i < ((t.heap a).keys.map some).length := by
      rw [List.length_map]
      exact (List.getElem?_eq_some_iff.mp hs).1
    rw [List.getElem?_append_left hlen] at hright
    obtain rfl : some s = hi' := by simpa [hs] using hright
    exact (hunder k hk).2 s rfl

end WellFormed

theorem Stores.isBPlusTree (hc : TotalPreorder cmp) (h : Stores cmp dup S t es) :
    IsBPlusTree cmp t es := by
  rcases h with ⟨-, hroot, -, rfl⟩ | ⟨g, r, h, rfl⟩
  · exact .inl ⟨hroot, rfl⟩
  have hleaves := h.leaves_eq h.rootLt rfl
  refine .inr ⟨r, g.lvl r, h.root, ⟨h.leavesAt h.rootLt rfl, (h.rootOf r h.rootLt).mpr rfl,
    fun a ha => h.balanced hc ha, ?_, ?_, ?_⟩, by rw [hleaves]⟩
  · rw [hleaves]
    exact h.linked
  · rw [hleaves]
    exact h.nodup
  · rw [hleaves]
    exact (h.keeps hc (g.lvl r) r h.rootLt rfl).sorted.imp Before.le

end Dbms.Core.BPlusTreeIndex
