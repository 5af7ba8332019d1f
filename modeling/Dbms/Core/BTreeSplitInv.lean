import Dbms.Core.BTreeSplit
import Mathlib.Data.Finset.Lattice.Fold
import Mathlib.Data.Finset.Range
import Mathlib.Order.Nat

/-! A turn of the split loop keeps the tree in order and stores the same pairs: the node with a key
too many is now, if any, the one a level up. -/

open Dbms.Lib

namespace Dbms.Core.BPlusTreeIndex
variable {κ : Type*} {cmp : κ → κ → Int} {dup : Bool} {S : κ → Prop} {t t' : BPlusTreeIndex κ}
  {g : Ghost κ} {big : Option Nat} {r cur up : Nat} {sep : κ}

def after (cur right x : Nat) : List Nat := if x = cur then [cur, right] else [x]

theorem flatMap_after_of_notMem {right : Nat} {l : List Nat} (h : cur ∉ l) :
    l.flatMap (after cur right) = l := by
  induction l with
  | nil => rfl
  | cons a l ih =>
    obtain ⟨hne, hmem⟩ := List.ne_and_not_mem_of_not_mem_cons h
    rw [List.flatMap_cons, ih hmem, after, if_neg (Ne.symm hne)]
    rfl

theorem mem_flatMap_after {right x : Nat} {l : List Nat} (h : x ∈ l.flatMap (after cur right)) :
    x ∈ l ∨ cur ∈ l ∧ x = right := by
  obtain ⟨a, ha, hx⟩ := List.mem_flatMap.mp h
  unfold after at hx
  split at hx
  · subst a
    rcases List.mem_cons.mp hx with rfl | hx
    · exact .inl ha
    · exact .inr ⟨ha, by simpa using hx⟩
  · obtain rfl : x = a := by simpa using hx
    exact .inl ha

theorem insertIdx_idxOf {right : Nat} {l : List Nat} (hnd : l.Nodup) (h : cur ∈ l) :
    l.insertIdx (l.idxOf cur + 1) right = l.flatMap (after cur right) := by
  induction l with
  | nil => cases h
  | cons a l ih =>
    obtain ⟨ha, hnd⟩ := List.nodup_cons.mp hnd
    by_cases hac : a = cur
    · subst hac
      simp [after, flatMap_after_of_notMem ha]
    · have hmem : cur ∈ l := by
        rcases List.mem_cons.mp h with heq | hmem
        · exact absurd heq.symm hac
        · exact hmem
      rw [List.idxOf_cons_ne _ hac, List.insertIdx_succ_cons, ih hnd hmem, List.flatMap_cons, after,
        if_neg hac]
      rfl

theorem nodup_flatMap_after {right : Nat} {l : List Nat} (hnd : l.Nodup) (h : right ∉ l) :
    (l.flatMap (after cur right)).Nodup := by
  induction l with
  | nil => simp
  | cons a l ih =>
    obtain ⟨ha, hnd⟩ := List.nodup_cons.mp hnd
    obtain ⟨hra, hrl⟩ := List.ne_and_not_mem_of_not_mem_cons h
    rw [List.flatMap_cons, List.nodup_append]
    refine ⟨?_, ih hnd hrl, ?_⟩
    · unfold after
      split
      · rename_i hac
        suffices cur ≠ right by simpa using this
        rintro rfl
        exact hra hac.symm
      · simp
    · intro x hx y hy hxy
      subst hxy
      have hxa : x = a ∨ x = right ∧ a = cur := by
        unfold after at hx
        split at hx
        · rename_i hac
          subst hac
          simpa using hx
        · exact .inl (by simpa using hx)
      rcases mem_flatMap_after hy with hxl | ⟨hcl, hxr⟩
      · rcases hxa with rfl | ⟨rfl, -⟩
        · exact ha hxl
        · exact hrl hxl
      · rcases hxa with rfl | ⟨-, rfl⟩
        · exact hra hxr.symm
        · exact ha hcl

def splitGhost (t : BPlusTreeIndex κ) (g : Ghost κ) (cur : Nat) (sep : κ) : Ghost κ :=
  let n := t.heap cur
  let mid := n.keys.length / 2
  { lvl := fun x =>
      if x = t.size then g.lvl cur else if x = t.size + 1 then g.lvl cur + 1 else g.lvl x
    lo := fun x => if x = t.size then some sep else if x = t.size + 1 then none else g.lo x
    hi := fun x =>
      if x = cur then some sep else if x = t.size then g.hi cur
      else if x = t.size + 1 then none else g.hi x
    seg := fun x =>
      if x = cur then if n.leaf then [cur] else (n.ch.take (mid + 1)).flatMap g.seg
      else if x = t.size then if n.leaf then [t.size] else (n.ch.drop (mid + 1)).flatMap g.seg
      else if x = t.size + 1 then (g.seg cur).flatMap (after cur t.size)
      else (g.seg x).flatMap (after cur t.size) }

section Ghost
variable {x : Nat}

theorem splitGhost_lvl (hx : x < t.size) : (splitGhost t g cur sep).lvl x = g.lvl x := by
  simp [splitGhost, Nat.ne_of_lt hx, Nat.ne_of_lt (Nat.lt_succ_of_lt hx)]

theorem splitGhost_lo (hx : x < t.size) : (splitGhost t g cur sep).lo x = g.lo x := by
  simp [splitGhost, Nat.ne_of_lt hx, Nat.ne_of_lt (Nat.lt_succ_of_lt hx)]

theorem splitGhost_hi (hx : x < t.size) (hxc : x ≠ cur) :
    (splitGhost t g cur sep).hi x = g.hi x := by
  simp [splitGhost, hxc, Nat.ne_of_lt hx, Nat.ne_of_lt (Nat.lt_succ_of_lt hx)]

theorem splitGhost_seg (hx : x < t.size) (hxc : x ≠ cur) :
    (splitGhost t g cur sep).seg x = (g.seg x).flatMap (after cur t.size) := by
  simp [splitGhost, hxc, Nat.ne_of_lt hx, Nat.ne_of_lt (Nat.lt_succ_of_lt hx)]

end Ghost

namespace WellFormed

theorem child (h : WellFormed cmp dup S t g big r) {a c : Nat} (ha : a < t.size)
    (hc : c ∈ (t.heap a).ch) :
    (t.heap a).leaf = false ∧ ∃ lo hi, ChildOk t g a c lo hi := by
  cases hleaf : (t.heap a).leaf with
  | true =>
    rw [((h.node a ha).leafOk hleaf).ch] at hc
    cases hc
  | false => exact ⟨rfl, spans_mem ((h.node a ha).branchOk hleaf).spans hc⟩

theorem parentOf (h : WellFormed cmp dup S t g big r) {a p : Nat} (ha : a < t.size)
    (hp : (t.heap a).parent = some p) :
    p < t.size ∧ a ∈ (t.heap p).ch ∧ (t.heap p).leaf = false ∧ g.lvl p = g.lvl a + 1 := by
  obtain ⟨hpl, hmem⟩ := (h.node a ha).parent p hp
  obtain ⟨hleaf, lo, hi, hok⟩ := h.child hpl hmem
  exact ⟨hpl, hmem, hleaf, hok.lvl⟩

theorem notMem_seg (h : WellFormed cmp dup S t g big r) {a x : Nat} (ha : a < t.size)
    (hx : (t.heap x).leaf = false) : x ∉ g.seg a := by
  intro hmem
  rw [((h.node a ha).segLeaf x hmem).2] at hx
  cases hx

theorem lvl_le (h : WellFormed cmp dup S t g big r) {a : Nat} (ha : a < t.size) :
    g.lvl a ≤ g.lvl r := by
  have htop : ∃ m, ∀ a < t.size, g.lvl a ≤ m :=
    ⟨(Finset.range t.size).sup g.lvl, fun a ha =>
      Finset.le_sup (f := g.lvl) (Finset.mem_range.mpr ha)⟩
  obtain ⟨m, hm⟩ := htop
  generalize hd : m - g.lvl a = d
  induction d using Nat.strong_induction_on generalizing a with
  | _ d ih =>
    cases hp : (t.heap a).parent with
    | none => rw [(h.rootOf a ha).mp hp]
    | some p =>
      obtain ⟨hpl, -, -, hlvl⟩ := h.parentOf ha hp
      have hpm := hm p hpl
      have hle := ih (m - g.lvl p) (by omega) hpl rfl
      omega

/-- The seam: `cur` and the new node share out what `cur` had. -/
theorem seg_halves (h : WellFormed cmp dup S t g big r)
    (hcur : cur < t.size) (sep : κ) :
    (splitGhost t g cur sep).seg cur ++ (splitGhost t g cur sep).seg t.size =
      (g.seg cur).flatMap (after cur t.size) := by
  have hne : t.size ≠ cur := (Nat.ne_of_lt hcur).symm
  cases hl : (t.heap cur).leaf with
  | true =>
    rw [((h.node cur hcur).leafOk hl).seg]
    simp [splitGhost, hl, hne, after]
  | false =>
    rw [flatMap_after_of_notMem (h.notMem_seg hcur hl), ((h.node cur hcur).branchOk hl).seg]
    simp only [splitGhost, hl, hne, if_true, if_false, Bool.false_eq_true]
    rw [← List.flatMap_append, List.take_append_drop]

theorem splitStep_some (h : WellFormed cmp dup S t g big r) (hcur : cur < t.size)
    (hover : t.order < (t.heap cur).keys.length) :
    ∃ t' up sep, splitStep (t, cur) = some (t', up) ∧ Halved t t' cur up sep := by
  refine splitStep_halved hcur hover (fun p hp => ?_) fun _ c hc => ?_
  · obtain ⟨hpl, hmem, hleaf, hlvl⟩ := h.parentOf hcur hp
    refine ⟨hpl, fun heq => by rw [heq] at hlvl; omega, fun _ hpc => ?_⟩
    obtain ⟨-, lo, hi, hok⟩ := h.child hcur hpc
    have := hok.lvl
    omega
  · obtain ⟨-, lo, hi, hok⟩ := h.child hcur hc
    exact ⟨hok.lt, fun heq => by have := hok.lvl; rw [heq] at this; omega⟩

end WellFormed

/-! What the halved heap still shares with the old one. -/

namespace Halved

theorem up_facts (H : Halved t t' cur up sep) (h : WellFormed cmp dup S t g big r)
    (hcur : cur < t.size) :
    up < t'.size ∧ up ≠ cur ∧ up ≠ t.size ∧ (splitGhost t g cur sep).lvl up = g.lvl cur + 1 ∧
      (t'.heap up).leaf = false ∧ cur ∈ (t'.heap up).ch ∧ t.size ∈ (t'.heap up).ch := by
  rcases H.hung with ⟨hp, hsize, -, hup⟩ | ⟨-, rfl, hsize, -, hup⟩
  · obtain ⟨hpl, hmem, hleaf, hlvl⟩ := h.parentOf hcur hp
    have hnd := ((h.node up hpl).branchOk hleaf).nodup
    refine ⟨by rw [hsize]; exact Nat.lt_succ_of_lt hpl, fun heq => ?_, Nat.ne_of_lt hpl, ?_, ?_, ?_, ?_⟩
    · rw [heq] at hlvl
      omega
    · rw [splitGhost_lvl hpl, hlvl]
    · rw [hup]
      exact hleaf
    · rw [hup, withHalf]
      exact List.subset_insertIdx _ _ _ hmem
    · rw [hup, withHalf, insertIdx_idxOf hnd hmem]
      exact List.mem_flatMap.mpr ⟨cur, hmem, by simp [after]⟩
  · refine ⟨hsize ▸ Nat.lt_succ_self _, (Nat.ne_of_lt (Nat.lt_succ_of_lt hcur)).symm, by simp,
      by simp [splitGhost], ?_, ?_, ?_⟩ <;>
      simp [hup]

theorem size_lt (H : Halved t t' cur up sep) : t.size < t'.size := by
  rcases H.hung with ⟨-, hsize, -⟩ | ⟨-, -, hsize, -⟩ <;> omega

theorem kept (H : Halved t t' cur up sep) {x : Nat} (hx : x < t.size) (hxc : x ≠ cur)
    (hxu : x ≠ up) : ∃ p, t'.heap x = { t.heap x with parent := p } ∧
      (x ∉ (t.heap cur).ch → p = (t.heap x).parent) := by
  by_cases hmem : (t.heap cur).leaf = false ∧ x ∈ (t.heap cur).ch
  · exact ⟨_, H.moved x hx hxc hxu hmem.1 hmem.2, fun h => absurd hmem.2 h⟩
  · exact ⟨_, H.other x hx hxc hxu fun hl hx => hmem ⟨hl, hx⟩, fun _ => rfl⟩

theorem leaf_eq (H : Halved t t' cur up sep) {x : Nat} (hx : x < t.size) :
    (t'.heap x).leaf = (t.heap x).leaf := by
  by_cases hxc : x = cur
  · subst hxc
    rw [H.lower, lowerHalf]
  by_cases hxu : x = up
  · subst hxu
    rcases H.hung with ⟨-, -, -, hup⟩ | ⟨-, hxs, -⟩
    · rw [hup, withHalf]
    · exact absurd hxs (Nat.ne_of_lt (Nat.lt_succ_of_lt hx))
  · obtain ⟨p, hp, -⟩ := H.kept hx hxc hxu
    rw [hp]

theorem upper_leaf (H : Halved t t' cur up sep) : (t'.heap t.size).leaf = (t.heap cur).leaf := by
  rw [H.upper, upperHalf]

theorem leaf_kept (H : Halved t t' cur up sep) (h : WellFormed cmp dup S t g big r)
    (hcur : cur < t.size) {x : Nat} (hx : x < t.size) (hxc : x ≠ cur)
    (hl : (t.heap x).leaf = true) :
    t'.nodeEntries x = t.nodeEntries x ∧ (t'.heap x).next = (t.heap x).next := by
  have hxu : x ≠ up := by
    rintro rfl
    have hleaf := (H.up_facts h hcur).2.2.2.2.1
    rw [H.leaf_eq hx, hl] at hleaf
    cases hleaf
  obtain ⟨p, hp, -⟩ := H.kept hx hxc hxu
  simp [nodeEntries, hp]

theorem leaf_halves (H : Halved t t' cur up sep) (hl : (t.heap cur).leaf = true) :
    t'.nodeEntries cur ++ t'.nodeEntries t.size = t.nodeEntries cur := by
  rw [nodeEntries, nodeEntries, H.lower, H.upper]
  simp only [lowerHalf, upperHalf, hl, if_true]
  rw [List.zip_eq_zipWith, List.zip_eq_zipWith, ← List.take_zipWith, ← List.drop_zipWith,
    List.take_append_drop, ← List.zip_eq_zipWith]
  rfl

theorem entriesOf_after (H : Halved t t' cur up sep) (h : WellFormed cmp dup S t g big r)
    (hcur : cur < t.size) {l : List Nat} (hl : ∀ x ∈ l, x < t.size ∧ (t.heap x).leaf = true) :
    t'.entriesOf (l.flatMap (after cur t.size)) = t.entriesOf l := by
  induction l with
  | nil => rfl
  | cons a l ih =>
    obtain ⟨⟨hlt, hleaf⟩, hrest⟩ := List.forall_mem_cons.mp hl
    rw [List.flatMap_cons, entriesOf_append, ih hrest, entriesOf_cons]
    congr 1
    by_cases hac : a = cur
    · subst hac
      simpa [after] using H.leaf_halves hleaf
    · simpa [after, hac] using (H.leaf_kept h hcur hlt hac hleaf).1

theorem linked_after (H : Halved t t' cur up sep) (h : WellFormed cmp dup S t g big r)
    (hcur : cur < t.size) {l : List Nat} (hl : ∀ x ∈ l, x < t.size ∧ (t.heap x).leaf = true)
    (hlink : t.Linked l) : t'.Linked (l.flatMap (after cur t.size)) := by
  have hhead : ∀ l : List Nat, (l.flatMap (after cur t.size)).head? = l.head? := by
    intro l
    cases l with
    | nil => rfl
    | cons a l =>
      by_cases hac : a = cur <;> simp [after, hac]
  induction l with
  | nil => trivial
  | cons a l ih =>
    obtain ⟨⟨hlt, hleaf⟩, hrest⟩ := List.forall_mem_cons.mp hl
    rw [List.flatMap_cons]
    by_cases hac : a = cur
    · subst hac
      have hlow : (t'.heap a).next = some t.size := by simp [H.lower, lowerHalf, hleaf]
      have hupp : (t'.heap t.size).next = (t.heap a).next := by simp [H.upper, upperHalf, hleaf]
      simp only [after, if_true, List.cons_append, List.nil_append]
      refine ⟨hlow, ?_, ih hrest hlink.2⟩
      rw [hupp, hlink.1, hhead]
    · simp only [after, if_neg hac, List.cons_append, List.nil_append]
      refine ⟨?_, ih hrest hlink.2⟩
      rw [(H.leaf_kept h hcur hlt hac hleaf).2, hlink.1, hhead]

theorem segLeaf_after (H : Halved t t' cur up sep) (h : WellFormed cmp dup S t g big r)
    {a : Nat} (ha : a < t.size) {x : Nat} (hx : x ∈ (g.seg a).flatMap (after cur t.size)) :
    x < t'.size ∧ (t'.heap x).leaf = true := by
  have hold := (h.node a ha).segLeaf
  rcases mem_flatMap_after hx with hx | ⟨hmem, rfl⟩
  · obtain ⟨hlt, hleaf⟩ := hold x hx
    exact ⟨hlt.trans H.size_lt, (H.leaf_eq hlt).trans hleaf⟩
  · exact ⟨H.size_lt, H.upper_leaf.trans (hold cur hmem).2⟩

theorem childOk (H : Halved t t' cur up sep) (h : WellFormed cmp dup S t g big r)
    (hcur : cur < t.size) {a c : Nat} {lo hi : Option κ} (ha : a < t.size) (hac : a ≠ cur)
    (hok : ChildOk t g a c lo hi) (hc : c ≠ cur) :
    ChildOk t' (splitGhost t g cur sep) a c lo hi := by
  refine ⟨hok.lt.trans H.size_lt, ?_, ?_, ?_, ?_⟩
  -- `up` may hang in `a` itself; a child of `cur` does not, as it has `cur` for its parent.
  · by_cases hcu : c = up
    · subst hcu
      rcases H.hung with ⟨-, -, -, hup⟩ | ⟨-, hcs, -⟩
      · rw [hup, withHalf]
        exact hok.parent
      · exact absurd hcs (Nat.ne_of_lt (Nat.lt_succ_of_lt hok.lt))
    · obtain ⟨p, hp, hpold⟩ := H.kept hok.lt hc hcu
      rw [hp]
      refine (hpold fun hmem => ?_).trans hok.parent
      obtain ⟨-, lo', hi', hok'⟩ := h.child hcur hmem
      exact hac (Option.some.inj (hok.parent.symm.trans hok'.parent))
  · rw [splitGhost_lvl ha, splitGhost_lvl hok.lt, hok.lvl]
  · rw [splitGhost_lo hok.lt, hok.lo]
  · rw [splitGhost_hi hok.lt hc, hok.hi]

theorem nodeOk_other (H : Halved t t' cur up sep) (h : WellFormed cmp dup S t g (some cur) r)
    (hcur : cur < t.size) {a : Nat} (ha : a < t.size) (hac : a ≠ cur) (hau : a ≠ up) :
    NodeOk cmp dup S t' (splitGhost t g cur sep) (some up) a := by
  have hn := h.node a ha
  obtain ⟨p, hp, hpold⟩ := H.kept ha hac hau
  refine ⟨?_, ?_, ?_, ?_, ?_, ?_, ?_, fun hleaf => ?_, fun hleaf => ?_⟩
  · rw [H.leaf_eq ha, splitGhost_lvl ha]
    exact hn.leaf_iff
  · rw [splitGhost_lo ha, splitGhost_hi ha hac]
    exact hn.ordered
  · rw [splitGhost_lo ha, splitGhost_hi ha hac]
    exact hn.bounds
  · rw [hp]
    exact hn.stored
  · have hmax := hn.max
    rw [if_neg (by simpa using Ne.symm hac)] at hmax
    rw [hp, H.order, if_neg (by simpa using Ne.symm hau)]
    exact hmax
  · intro x hx
    rw [splitGhost_seg ha hac] at hx
    exact H.segLeaf_after h ha hx
  · intro q hq
    -- A child of `cur` may have gone to the new node; any other keeps its parent, which may be `up`.
    by_cases hmem : a ∈ (t.heap cur).ch
    · obtain ⟨hleaf, -⟩ := h.child hcur hmem
      rw [H.moved a ha hac hau hleaf hmem, Option.some.injEq] at hq
      subst hq
      unfold movedTo
      split
      · rename_i hdrop
        exact ⟨H.size_lt, by rw [H.upper, upperHalf]; simpa [hleaf] using hdrop⟩
      · rename_i hdrop
        refine ⟨hcur.trans H.size_lt, ?_⟩
        rw [H.lower, lowerHalf]
        have hcut := List.take_append_drop ((t.heap cur).keys.length / 2 + 1) (t.heap cur).ch
        rw [← hcut, List.mem_append] at hmem
        simpa [hleaf] using hmem.resolve_right hdrop
    · rw [hp] at hq
      obtain ⟨hql, hqm⟩ := hn.parent q ((hpold hmem).symm.trans hq)
      have hqc : q ≠ cur := by
        rintro rfl
        exact hmem hqm
      refine ⟨hql.trans H.size_lt, ?_⟩
      by_cases hqu : q = up
      · subst hqu
        rcases H.hung with ⟨-, -, -, hup⟩ | ⟨-, hqs, -⟩
        · rw [hup, withHalf]
          exact List.subset_insertIdx _ _ _ hqm
        · exact absurd hqs (Nat.ne_of_lt (Nat.lt_succ_of_lt hql))
      · obtain ⟨p', hp', -⟩ := H.kept hql hqc hqu
        rw [hp']
        exact hqm
  · have hl := hn.leafOk ((H.leaf_eq ha).symm.trans hleaf)
    refine ⟨by rw [hp]; exact hl.ch, by rw [hp]; exact hl.rows, by rw [hp]; exact hl.sorted, ?_, ?_, ?_⟩
    · rw [hp, splitGhost_lo ha]
      exact hl.above
    · rw [hp, splitGhost_hi ha hac]
      exact hl.below
    · rw [splitGhost_seg ha hac, hl.seg]
      simp [after, hac]
  · have hb := hn.branchOk ((H.leaf_eq ha).symm.trans hleaf)
    -- `cur` hangs in `up` alone, so that the children of `a` keep their intervals.
    have hchild : ∀ c ∈ (t.heap a).ch, c < t.size ∧ c ≠ cur := fun c hc => by
      obtain ⟨lo, hi, hok⟩ := spans_mem hb.spans hc
      refine ⟨hok.lt, fun heq => ?_⟩
      subst heq
      rcases H.hung with ⟨hup, -⟩ | ⟨hup, -⟩
      · exact hau (Option.some.inj (hok.parent.symm.trans hup))
      · exact absurd (hok.parent.symm.trans hup) (by simp)
    refine ⟨by rw [hp]; exact hb.rows, ?_, by rw [hp]; exact hb.nodup, ?_, by rw [hp]; exact hb.pos, ?_⟩
    · rw [hp, splitGhost_lo ha, splitGhost_hi ha hac]
      exact spans_mono hb.spans fun c hc lo hi hok => H.childOk h hcur ha hac hok (hchild c hc).2
    · rw [splitGhost_seg ha hac, hb.seg, hp, List.flatMap_assoc]
      exact List.flatMap_congr fun c hc => (splitGhost_seg (hchild c hc).1 (hchild c hc).2).symm
    · rw [H.order]
      intro hpar
      by_cases hmem : a ∈ (t.heap cur).ch
      · obtain ⟨-, lo, hi, hok⟩ := h.child hcur hmem
        rw [hp]
        exact hb.min (by simp [hok.parent])
      · rw [hp] at hpar ⊢
        exact hb.min (hpold hmem ▸ hpar)

theorem sep_bounds (H : Halved t t' cur up sep) (hc : TotalPreorder cmp)
    (h : WellFormed cmp dup S t g big r) (hcur : cur < t.size) :
    S sep ∧ AboveLo cmp (g.lo cur) sep ∧ ∀ s ∈ g.hi cur, cmp sep s ≤ 0 := by
  have hmem : sep ∈ (t.heap cur).keys := List.mem_of_getElem? H.mid
  refine ⟨(h.node cur hcur).stored sep hmem, ?_⟩
  by_cases hl : g.lvl cur = 0
  · have hleaf := h.leafOk hcur hl
    exact ⟨hleaf.above sep hmem, fun s hs => (hleaf.below sep hmem s hs).le⟩
  · exact spans_separator hc (spans_mono (h.spans hc hcur hl) fun _ _ _ _ hP => hP.2) hmem

theorem leafOk_halves (H : Halved t t' cur up sep) (h : WellFormed cmp dup S t g big r)
    (hc : TotalPreorder cmp) (hcur : cur < t.size) (hl : (t.heap cur).leaf = true) :
    LeafOk cmp dup t' (splitGhost t g cur sep) cur ∧
      LeafOk cmp dup t' (splitGhost t g cur sep) t.size := by
  have hleaf := (h.node cur hcur).leafOk hl
  have hne : t.size ≠ cur := (Nat.ne_of_lt hcur).symm
  obtain ⟨hlt, hsep⟩ := List.getElem?_eq_some_iff.mp H.mid
  -- In a leaf the separator goes up as a copy: it is still the first key of the upper half.
  have hcut : (t.heap cur).keys.drop ((t.heap cur).keys.length / 2) =
      sep :: (t.heap cur).keys.drop ((t.heap cur).keys.length / 2 + 1) := by
    rw [List.drop_eq_getElem_cons hlt, hsep]
  have hsorted := hleaf.sorted
  rw [← List.take_append_drop ((t.heap cur).keys.length / 2) (t.heap cur).keys, hcut,
    List.pairwise_append] at hsorted
  obtain ⟨hlow, hup, hcross⟩ := hsorted
  refine ⟨⟨?_, ?_, ?_, ?_, ?_, ?_⟩, ?_, ?_, ?_, ?_, ?_, ?_⟩
  · simp [H.lower, lowerHalf, hl, hleaf.ch]
  · simp [H.lower, lowerHalf, hl, hleaf.rows]
  · simpa [H.lower, lowerHalf] using hlow
  · intro k hk
    rw [splitGhost_lo hcur]
    refine hleaf.above k (List.mem_of_mem_take (i := (t.heap cur).keys.length / 2) ?_)
    simpa [H.lower, lowerHalf] using hk
  · intro k hk s hs
    obtain rfl : sep = s := by simpa [splitGhost] using hs
    refine hcross k ?_ sep (by simp)
    simpa [H.lower, lowerHalf] using hk
  · simp [splitGhost, hl]
  · simp [H.upper, upperHalf, hl]
  · simp [H.upper, upperHalf, hl, hleaf.rows]
  · simpa [H.upper, upperHalf, hl, hcut] using hup
  · intro k hk s hs
    obtain rfl : sep = s := by simpa [splitGhost] using hs
    have hk : k = sep ∨ k ∈ (t.heap cur).keys.drop ((t.heap cur).keys.length / 2 + 1) := by
      simpa [H.upper, upperHalf, hl, hcut] using hk
    rcases hk with rfl | hk
    · exact Int.le_of_eq (hc.refl k)
    · exact ((List.pairwise_cons.mp hup).1 k hk).le
  · intro k hk
    have hhi : (splitGhost t g cur sep).hi t.size = g.hi cur := by simp [splitGhost, hne]
    rw [hhi]
    refine hleaf.below k (List.mem_of_mem_drop (i := (t.heap cur).keys.length / 2) ?_)
    simpa [H.upper, upperHalf, hl] using hk
  · simp [splitGhost, hl, hne]

theorem branchOk_halves (H : Halved t t' cur up sep) (h : WellFormed cmp dup S t g big r)
    (hcur : cur < t.size) (hover : (t.heap cur).keys.length = t.order + 1)
    (hl : (t.heap cur).leaf = false) :
    BranchOk t' (splitGhost t g cur sep) cur ∧ BranchOk t' (splitGhost t g cur sep) t.size := by
  have hb := (h.node cur hcur).branchOk hl
  have horder := h.order
  have hne : t.size ≠ cur := (Nat.ne_of_lt hcur).symm
  obtain ⟨hlow, hupp⟩ := spans_split hb.spans H.mid
  have hcut := List.take_append_drop ((t.heap cur).keys.length / 2 + 1) (t.heap cur).ch
  have hdisj := List.disjoint_of_nodup_append (hcut.symm ▸ hb.nodup)
  obtain ⟨hupt', hupc, -, huplvl, -⟩ := H.up_facts h hcur
  have hchild : ∀ c ∈ (t.heap cur).ch, ∀ lo hi, ChildOk t g cur c lo hi →
      ChildOk t' (splitGhost t g cur sep) (movedTo (t.heap cur) cur t.size c) c lo hi := by
    intro c hmem lo hi hok
    have hcc : c ≠ cur := fun heq => by have := hok.lvl; rw [heq] at this; omega
    have hcu : c ≠ up := by
      rintro rfl
      rw [splitGhost_lvl hok.lt] at huplvl
      have := hok.lvl
      omega
    refine ⟨hok.lt.trans H.size_lt, ?_, ?_, ?_, ?_⟩
    · rw [H.moved c hok.lt hcc hcu hl hmem]
    · rw [splitGhost_lvl hok.lt, ← hok.lvl]
      unfold movedTo
      split
      · simp [splitGhost]
      · exact splitGhost_lvl hcur
    · rw [splitGhost_lo hok.lt, hok.lo]
    · rw [splitGhost_hi hok.lt hcc, hok.hi]
  have hseg : ∀ c ∈ (t.heap cur).ch, g.seg c = (splitGhost t g cur sep).seg c := by
    intro c hmem
    obtain ⟨-, lo, hi, hok⟩ := h.child hcur hmem
    have hcc : c ≠ cur := fun heq => by have := hok.lvl; rw [heq] at this; omega
    rw [splitGhost_seg hok.lt hcc, flatMap_after_of_notMem (h.notMem_seg hok.lt hl)]
  -- Here the middle key itself goes up, and the children on its two sides make two nodes.
  refine ⟨⟨?_, ?_, ?_, ?_, ?_, ?_⟩, ?_, ?_, ?_, ?_, ?_, ?_⟩
  · simp [H.lower, lowerHalf, hl, hb.rows]
  · rw [splitGhost_lo hcur, H.lower]
    simp only [lowerHalf, hl, if_false, Bool.false_eq_true]
    have hhi : (splitGhost t g cur sep).hi cur = some sep := by simp [splitGhost]
    rw [hhi]
    refine spans_mono hlow fun c hmem lo hi hok => ?_
    have hto := hchild c (List.mem_of_mem_take hmem) lo hi hok
    rwa [movedTo, if_neg (hdisj hmem)] at hto
  · simpa [H.lower, lowerHalf, hl] using hb.nodup.sublist (List.take_sublist _ _)
  · have hold : (splitGhost t g cur sep).seg cur =
        ((t.heap cur).ch.take ((t.heap cur).keys.length / 2 + 1)).flatMap g.seg := by
      simp [splitGhost, hl]
    rw [hold, H.lower]
    simp only [lowerHalf, hl, if_false, Bool.false_eq_true]
    exact List.flatMap_congr fun c hmem => hseg c (List.mem_of_mem_take hmem)
  · simp only [H.lower, lowerHalf, List.length_take]
    omega
  · rw [H.order]
    simp only [H.lower, lowerHalf, List.length_take]
    omega
  · simp [H.upper, upperHalf, hl]
  · have hlo : (splitGhost t g cur sep).lo t.size = some sep := by simp [splitGhost]
    have hhi : (splitGhost t g cur sep).hi t.size = g.hi cur := by simp [splitGhost, hne]
    rw [hlo, hhi, H.upper]
    simp only [upperHalf, hl, if_false, Bool.false_eq_true]
    refine spans_mono hupp fun c hmem lo hi hok => ?_
    have hto := hchild c (List.mem_of_mem_drop hmem) lo hi hok
    rwa [movedTo, if_pos hmem] at hto
  · simpa [H.upper, upperHalf, hl] using hb.nodup.sublist (List.drop_sublist _ _)
  · have hold : (splitGhost t g cur sep).seg t.size =
        ((t.heap cur).ch.drop ((t.heap cur).keys.length / 2 + 1)).flatMap g.seg := by
      simp [splitGhost, hl, hne]
    rw [hold, H.upper]
    simp only [upperHalf, hl, if_false, Bool.false_eq_true]
    exact List.flatMap_congr fun c hmem => hseg c (List.mem_of_mem_drop hmem)
  · simp only [H.upper, upperHalf, hl, List.length_drop, if_false, Bool.false_eq_true]
    omega
  · rw [H.order]
    simp only [H.upper, upperHalf, hl, List.length_drop, if_false, Bool.false_eq_true]
    omega

theorem nodeOk_halves (H : Halved t t' cur up sep) (hc : TotalPreorder cmp)
    (h : WellFormed cmp dup S t g big r) (hcur : cur < t.size)
    (hover : (t.heap cur).keys.length = t.order + 1) :
    NodeOk cmp dup S t' (splitGhost t g cur sep) (some up) cur ∧
      NodeOk cmp dup S t' (splitGhost t g cur sep) (some up) t.size := by
  have hn := h.node cur hcur
  have horder := h.order
  have hne : t.size ≠ cur := (Nat.ne_of_lt hcur).symm
  obtain ⟨hupt', hupc, hups, huplvl, -, hmem, hmem'⟩ := H.up_facts h hcur
  obtain ⟨hS, habove, hbelow⟩ := H.sep_bounds hc h hcur
  have hlo : (splitGhost t g cur sep).lo t.size = some sep := by simp [splitGhost]
  have hhi : (splitGhost t g cur sep).hi t.size = g.hi cur := by simp [splitGhost, hne]
  have hhi' : (splitGhost t g cur sep).hi cur = some sep := by simp [splitGhost]
  have hlvl : (splitGhost t g cur sep).lvl t.size = g.lvl cur := by simp [splitGhost]
  have hseg := h.seg_halves hcur sep
  refine ⟨⟨?_, ?_, ?_, ?_, ?_, ?_, ?_, ?_, ?_⟩, ?_, ?_, ?_, ?_, ?_, ?_, ?_, ?_, ?_⟩
  · rw [H.leaf_eq hcur, splitGhost_lvl hcur]
    exact hn.leaf_iff
  · rw [splitGhost_lo hcur, hhi']
    rintro l hl _ ⟨⟩
    exact habove l hl
  · rw [splitGhost_lo hcur, hhi']
    rintro s (hs | hs)
    · exact hn.bounds s (.inl hs)
    · exact Option.some.inj hs ▸ hS
  · intro k hk
    refine hn.stored k (List.mem_of_mem_take (i := (t.heap cur).keys.length / 2) ?_)
    simpa [H.lower, lowerHalf] using hk
  · rw [H.order, H.lower]
    simp only [lowerHalf, List.length_take]
    split <;> omega
  · intro x hx
    exact H.segLeaf_after h hcur (hseg ▸ List.mem_append_left _ hx)
  · intro p hp
    obtain rfl : up = p := by simpa [H.lower] using hp
    exact ⟨hupt', hmem⟩
  · intro hleaf
    exact (H.leafOk_halves h hc hcur (H.leaf_eq hcur ▸ hleaf)).1
  · intro hleaf
    exact (H.branchOk_halves h hcur hover (H.leaf_eq hcur ▸ hleaf)).1
  · rw [H.upper_leaf, hlvl]
    exact hn.leaf_iff
  · rw [hlo, hhi]
    rintro _ ⟨⟩ l hl
    exact hbelow l hl
  · rw [hlo, hhi]
    rintro s (hs | hs)
    · exact Option.some.inj hs ▸ hS
    · exact hn.bounds s (.inr hs)
  · intro k hk
    refine hn.stored k (List.mem_of_mem_drop
      (i := if (t.heap cur).leaf then (t.heap cur).keys.length / 2
        else (t.heap cur).keys.length / 2 + 1) ?_)
    simpa [H.upper, upperHalf] using hk
  · rw [H.order, H.upper, if_neg (by simpa using hups)]
    simp only [upperHalf, List.length_drop]
    split <;> omega
  · intro x hx
    exact H.segLeaf_after h hcur (hseg ▸ List.mem_append_right _ hx)
  · intro p hp
    obtain rfl : up = p := by simpa [H.upper] using hp
    exact ⟨hupt', hmem'⟩
  · intro hleaf
    exact (H.leafOk_halves h hc hcur (H.upper_leaf ▸ hleaf)).2
  · intro hleaf
    exact (H.branchOk_halves h hcur hover (H.upper_leaf ▸ hleaf)).2

/-- What the children of `up` are under the new ghost: the old row with the new half after `cur`. -/
theorem childOk_halves (H : Halved t t' cur up sep) (h : WellFormed cmp dup S t g big r)
    (hcur : cur < t.size) {lo hi : Option κ} (hlo : g.lo cur = lo) (hhi : g.hi cur = hi) :
    ChildOk t' (splitGhost t g cur sep) up cur lo (some sep) ∧
      ChildOk t' (splitGhost t g cur sep) up t.size (some sep) hi := by
  have hne : t.size ≠ cur := (Nat.ne_of_lt hcur).symm
  have huplvl := (H.up_facts h hcur).2.2.2.1
  refine ⟨⟨hcur.trans H.size_lt, by rw [H.lower], ?_, ?_, ?_⟩, H.size_lt, by rw [H.upper], ?_, ?_, ?_⟩
  · rw [huplvl, splitGhost_lvl hcur]
  · rw [splitGhost_lo hcur, hlo]
  · simp [splitGhost]
  · rw [huplvl]
    simp [splitGhost]
  · simp [splitGhost]
  · simpa [splitGhost, hne] using hhi

theorem nodeOk_up (H : Halved t t' cur up sep) (hc : TotalPreorder cmp)
    (h : WellFormed cmp dup S t g (some cur) r) (hcur : cur < t.size)
    (hup : (t.heap cur).parent = some up)
    (hnode : t'.heap up = withHalf (t.heap up) cur t.size sep) :
    NodeOk cmp dup S t' (splitGhost t g cur sep) (some up) up := by
  obtain ⟨hul, hmem, hleaf, hlvl⟩ := h.parentOf hcur hup
  obtain ⟨hupt', hupc, -, huplvl, hleaf', -, -⟩ := H.up_facts h hcur
  have hn := h.node up hul
  have hb := hn.branchOk hleaf
  have hsubset : ∀ k ∈ (t'.heap up).keys, k = sep ∨ k ∈ (t.heap up).keys := fun k hk => by
    rw [hnode, withHalf] at hk
    exact List.eq_or_mem_of_mem_insertIdx hk
  have hnew : t.size ∉ (t.heap up).ch := fun hm => by
    obtain ⟨-, lo, hi, hok⟩ := h.child hul hm
    exact Nat.lt_irrefl _ hok.lt
  have hch : (t'.heap up).ch = (t.heap up).ch.flatMap (after cur t.size) := by
    rw [hnode, withHalf]
    exact insertIdx_idxOf hb.nodup hmem
  -- `withHalf` adds one key, so that the parent may be too full but not empty.
  have hlen : (t'.heap up).keys.length ≤ (t.heap up).keys.length + 1 ∧
      (t.heap up).keys.length ≤ (t'.heap up).keys.length := by
    rw [hnode, withHalf, List.length_insertIdx]
    split <;> omega
  refine ⟨?_, ?_, ?_, ?_, ?_, ?_, ?_, ?_, fun _ => ⟨?_, ?_, ?_, ?_, ?_, ?_⟩⟩
  · rw [H.leaf_eq hul, splitGhost_lvl hul]
    exact hn.leaf_iff
  · rw [splitGhost_lo hul, splitGhost_hi hul hupc]
    exact hn.ordered
  · rw [splitGhost_lo hul, splitGhost_hi hul hupc]
    exact hn.bounds
  · intro k hk
    rcases hsubset k hk with rfl | hk
    · exact (H.sep_bounds hc h hcur).1
    · exact hn.stored k hk
  · have hmax := hn.max
    rw [if_neg (by simpa using hupc.symm)] at hmax
    rw [if_pos rfl, H.order]
    omega
  · intro x hx
    rw [splitGhost_seg hul hupc] at hx
    exact H.segLeaf_after h hul hx
  · intro p hp
    have hp : (t.heap up).parent = some p := by simpa [hnode, withHalf] using hp
    obtain ⟨hpl, hpm, hpleaf, hplvl⟩ := h.parentOf hul hp
    have hpc : p ≠ cur := fun heq => by rw [heq] at hplvl; omega
    have hpu : p ≠ up := fun heq => by rw [heq] at hplvl; omega
    obtain ⟨q, hq, -⟩ := H.kept hpl hpc hpu
    exact ⟨hpl.trans H.size_lt, by rw [hq]; exact hpm⟩
  · intro hl
    rw [hleaf'] at hl
    cases hl
  · rw [hnode, withHalf]
    exact hb.rows
  · rw [splitGhost_lo hul, splitGhost_hi hul hupc, hnode]
    -- `cur` keeps the lower part of its interval, and the new half gets the rest.
    refine spans_insert hb.spans hb.nodup hmem ?_ ?_
    · exact fun c _ hcc lo hi hok => H.childOk h hcur hul hupc hok hcc
    · exact fun lo hi hok => H.childOk_halves h hcur hok.lo hok.hi
  · rw [hch]
    exact nodup_flatMap_after hb.nodup hnew
  · rw [splitGhost_seg hul hupc, hb.seg, hch, List.flatMap_assoc, List.flatMap_assoc]
    refine List.flatMap_congr fun c hmem => ?_
    by_cases hcc : c = cur
    · subst hcc
      simpa [after] using (h.seg_halves hcur sep).symm
    · obtain ⟨-, lo, hi, hok⟩ := h.child hul hmem
      simpa [after, hcc] using (splitGhost_seg hok.lt hcc).symm
  · exact hb.pos.trans hlen.2
  · intro hpar
    rw [H.order]
    refine (hb.min ?_).trans hlen.2
    simpa [hnode, withHalf] using hpar

theorem nodeOk_root (H : Halved t t' cur up sep) (hc : TotalPreorder cmp)
    (h : WellFormed cmp dup S t g big cur) (hup : up = t.size + 1)
    (hnode : t'.heap up = { leaf := false, keys := [sep], ch := [cur, t.size] }) :
    NodeOk cmp dup S t' (splitGhost t g cur sep) (some up) up := by
  have hcur := h.rootLt
  have hne : t.size ≠ cur := (Nat.ne_of_lt hcur).symm
  have hupc : up ≠ cur := (H.up_facts h hcur).2.1
  have hlo : (splitGhost t g cur sep).lo up = none := by simp [splitGhost, hup]
  have hhi : (splitGhost t g cur sep).hi up = none := by
    rw [hup] at hupc
    simp [splitGhost, hup, hupc]
  have hseg : (splitGhost t g cur sep).seg up = (g.seg cur).flatMap (after cur t.size) := by
    rw [hup] at hupc
    simp [splitGhost, hup, hupc]
  have horder := h.order
  refine ⟨?_, ?_, ?_, ?_, ?_, ?_, ?_, ?_, fun _ => ⟨?_, ?_, ?_, ?_, ?_, ?_⟩⟩
  · have hlvl : (splitGhost t g cur sep).lvl up = g.lvl cur + 1 := by simp [splitGhost, hup]
    rw [hlvl, hnode]
    simp
  · rw [hlo]
    rintro _ ⟨⟩
  · rw [hlo, hhi]
    rintro s (hs | hs) <;> cases hs
  · simpa [hnode] using (H.sep_bounds hc h hcur).1
  · rw [H.order, hnode]
    simp only [List.length_singleton, if_true]
    omega
  · intro x hx
    rw [hseg] at hx
    exact H.segLeaf_after h hcur hx
  · simp [hnode]
  · simp [hnode]
  · simp [hnode]
  · rw [hlo, hhi, hnode]
    exact H.childOk_halves h hcur h.rootLo h.rootHi
  · simpa [hnode] using hne.symm
  · rw [hseg, ← h.seg_halves hcur sep, hnode]
    simp
  · simp [hnode]
  · simp [hnode]

end Halved

theorem Halved.parent_none (H : Halved t t' cur up sep) (h : WellFormed cmp dup S t g big r)
    (hcur : cur < t.size) {a : Nat} (ha : a < t.size) (hac : a ≠ cur) (hau : a ≠ up) :
    (t'.heap a).parent = none ↔ (t.heap a).parent = none := by
  by_cases hmem : a ∈ (t.heap cur).ch
  · obtain ⟨hleaf, lo, hi, hok⟩ := h.child hcur hmem
    simp [H.moved a ha hac hau hleaf hmem, hok.parent]
  · obtain ⟨p, hp, hpold⟩ := H.kept ha hac hau
    rw [hp, hpold hmem]

/-- Once the node that got the new half is in place, all nodes are. -/
theorem Halved.nodeOk (H : Halved t t' cur up sep) (hc : TotalPreorder cmp)
    (h : WellFormed cmp dup S t g (some cur) r) (hcur : cur < t.size)
    (hover : (t.heap cur).keys.length = t.order + 1)
    (hup : NodeOk cmp dup S t' (splitGhost t g cur sep) (some up) up) {a : Nat}
    (ha : a = up ∨ a ≤ t.size) : NodeOk cmp dup S t' (splitGhost t g cur sep) (some up) a := by
  obtain ⟨hlow, hupp⟩ := H.nodeOk_halves hc h hcur hover
  by_cases hac : a = cur
  · exact hac ▸ hlow
  by_cases hau : a = up
  · exact hau ▸ hup
  by_cases has : a = t.size
  · exact has ▸ hupp
  · exact H.nodeOk_other h hcur (by omega) hac hau

theorem WellFormed.split_below (H : Halved t t' cur up sep) (hc : TotalPreorder cmp)
    (h : WellFormed cmp dup S t g (some cur) r) (hcur : cur < t.size)
    (hover : (t.heap cur).keys.length = t.order + 1) (hp : (t.heap cur).parent = some up)
    (hsize' : t'.size = t.size + 1) (hroot : t'.root = t.root)
    (hnode : t'.heap up = withHalf (t.heap up) cur t.size sep) :
    WellFormed cmp dup S t' (splitGhost t g cur sep) (some up) r ∧
      (splitGhost t g cur sep).seg r = (g.seg r).flatMap (after cur t.size) ∧
      (splitGhost t g cur sep).lvl r - (splitGhost t g cur sep).lvl up < g.lvl r - g.lvl cur := by
  obtain ⟨hupt', hupc, hups, huplvl, -, -, -⟩ := H.up_facts h hcur
  have hsegs := (h.node r h.rootLt).segLeaf
  have hnew : t.size ∉ g.seg r := fun hm => Nat.lt_irrefl _ (hsegs _ hm).1
  have hsize := H.size_lt
  have hrl := h.rootLt
  have hul := (h.parentOf hcur hp).1
  have hlvl := (h.parentOf hcur hp).2.2.2
  have hrc : r ≠ cur := by
    rintro rfl
    rw [(h.rootOf r hcur).mpr rfl] at hp
    cases hp
  have hseg : (splitGhost t g cur sep).seg r = (g.seg r).flatMap (after cur t.size) :=
    splitGhost_seg hrl hrc
  have hlvlr := h.lvl_le hul
  refine ⟨⟨?_, ?_, hrl.trans hsize, ?_, ?_, ?_, ?_, ?_, ?_, ?_⟩, hseg, ?_⟩
  · rw [H.order]
    exact h.order
  · rw [hroot, h.root]
  · intro a ha
    by_cases hac : a = cur
    · simp [hac, H.lower, hrc.symm]
    by_cases hau : a = up
    · subst hau
      rw [hnode, withHalf]
      exact h.rootOf a hul
    by_cases has : a = t.size
    · simp [has, H.upper, Nat.ne_of_gt hrl]
    · rw [H.parent_none h hcur (by omega) hac hau]
      exact h.rootOf a (by omega)
  · rw [splitGhost_lo hrl, h.rootLo]
  · rw [splitGhost_hi hrl hrc, h.rootHi]
  · rw [splitGhost_lvl hrl]
    exact h.height.trans hsize
  · exact fun a ha => H.nodeOk hc h hcur hover (H.nodeOk_up hc h hcur hp hnode) (.inr (by omega))
  · rw [hseg]
    exact H.linked_after h hcur hsegs h.linked
  · rw [hseg]
    exact nodup_flatMap_after h.nodup hnew
  · rw [splitGhost_lvl hrl, huplvl]
    omega

theorem WellFormed.split_root (H : Halved t t' cur up sep) (hc : TotalPreorder cmp)
    (h : WellFormed cmp dup S t g (some cur) cur) (hcur : cur < t.size)
    (hover : (t.heap cur).keys.length = t.order + 1) (hup : up = t.size + 1)
    (hsize' : t'.size = t.size + 2) (hroot : t'.root = some up)
    (hnode : t'.heap up = { leaf := false, keys := [sep], ch := [cur, t.size] }) :
    WellFormed cmp dup S t' (splitGhost t g cur sep) (some up) up ∧
      (splitGhost t g cur sep).seg up = (g.seg cur).flatMap (after cur t.size) := by
  obtain ⟨hupt', hupc, hups, huplvl, -, -, -⟩ := H.up_facts h hcur
  have hsegs := (h.node cur hcur).segLeaf
  have hnew : t.size ∉ g.seg cur := fun hm => Nat.lt_irrefl _ (hsegs _ hm).1
  have hsize := H.size_lt
  have hheight := h.height
  have hseg : (splitGhost t g cur sep).seg up = (g.seg cur).flatMap (after cur t.size) := by
    rw [hup] at hupc
    simp [splitGhost, hup, hupc]
  refine ⟨⟨?_, hroot, hupt', ?_, ?_, ?_, ?_, ?_, ?_, ?_⟩, hseg⟩
  · rw [H.order]
    exact h.order
  · intro a ha
    by_cases hac : a = cur
    · simp [hac, H.lower, hupc.symm]
    by_cases hau : a = up
    · simp [hau, hnode]
    by_cases has : a = t.size
    · simp [has, H.upper, hups.symm]
    · rw [H.parent_none h hcur (by omega) hac hau, h.rootOf a (by omega)]
      simp [hac, hau]
  · simp [splitGhost, hup]
  · rw [hup] at hupc
    simp [splitGhost, hup, hupc]
  · rw [huplvl, hsize']
    omega
  · exact fun a ha => H.nodeOk hc h hcur hover (H.nodeOk_root hc h hup hnode) (by omega)
  · rw [hseg]
    exact H.linked_after h hcur hsegs h.linked
  · rw [hseg]
    exact nodup_flatMap_after h.nodup hnew

theorem WellFormed.split (H : Halved t t' cur up sep) (hc : TotalPreorder cmp)
    (h : WellFormed cmp dup S t g (some cur) r) (hcur : cur < t.size)
    (hover : (t.heap cur).keys.length = t.order + 1) :
    ∃ g' r', WellFormed cmp dup S t' g' (some up) r' ∧ up < t'.size ∧
      t'.entriesOf (g'.seg r') = t.entriesOf (g.seg r) ∧
      (g'.lvl r' - g'.lvl up < g.lvl r - g.lvl cur ∨ (t'.heap up).keys.length = 1) := by
  obtain ⟨hupt', -⟩ := H.up_facts h hcur
  have hentries := H.entriesOf_after h hcur (h.node r h.rootLt).segLeaf
  rcases H.hung with ⟨hp, hsize, hroot, hnode⟩ | ⟨hp, hup, hsize, hroot, hnode⟩
  · obtain ⟨hwf, hseg, hlvl⟩ := h.split_below H hc hcur hover hp hsize hroot hnode
    exact ⟨_, r, hwf, hupt', by rw [hseg, hentries], .inl hlvl⟩
  · -- Without a parent, the split node was the root; the new root has one key.
    obtain rfl := (h.rootOf cur hcur).mp hp
    obtain ⟨hwf, hseg⟩ := h.split_root H hc hcur hover hup hsize hroot hnode
    exact ⟨_, up, hwf, hupt', by rw [hseg, hentries], .inr (by simp [hnode])⟩

end Dbms.Core.BPlusTreeIndex
