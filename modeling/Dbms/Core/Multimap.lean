import Dbms.Core.BTreeRun

/-! The index as a multimap. Where a split cuts a run of equal keys, the part left of the separator
is out of reach of the scans. -/

open Dbms.Lib

namespace Dbms.Core.BPlusTreeIndex
variable {κ : Type*} {cmp : κ → κ → Int} {dup : Bool} {S : κ → Prop} {t : BPlusTreeIndex κ}
  {g : Ghost κ} {r a c : Nat} {k : κ} {es : List (κ × RowId)}

def leafKeys (t : BPlusTreeIndex κ) : Nat → Nat → List κ
  | 0, a => if (t.heap a).leaf then (t.heap a).keys else []
  | d + 1, a =>
    if (t.heap a).leaf then (t.heap a).keys else (t.heap a).ch.flatMap (t.leafKeys d)

/-- Every key in a leaf lies strictly below the separators on its right: no run of equal keys has
been cut. -/
def Uncut (cmp : κ → κ → Int) (t : BPlusTreeIndex κ) : Prop :=
  ∀ r, t.root = some r → ∀ a, Under t r a → (t.heap a).leaf = false →
    ∀ (i c : Nat) (s : κ), (t.heap a).ch[i]? = some c → (t.heap a).keys[i]? = some s →
      ∀ k ∈ t.leafKeys t.size c, cmp k s < 0

/-- The answers of an index that stores the pairs `es`. -/
structure Multimap (cmp : κ → κ → Int) (t : BPlusTreeIndex κ) (es : List (κ × RowId)) : Prop where
  findEqual : ∀ k, (t.findEqual cmp k).Perm ((es.filter fun e => cmp e.1 k = 0).map Prod.snd)
  range : ∀ low high lowIncl highIncl, (t.range cmp low high lowIncl highIncl).Perm
    ((es.filter fun e => inRange cmp low high lowIncl highIncl e.1).map Prod.snd)
  erase : ∀ k row, (∃ e ∈ es, cmp e.1 k = 0 ∧ e.2 = row) → ∃ t' es',
    t.erase cmp k row = (t', true) ∧ Removed cmp k row es es' ∧ IsBPlusTree cmp t' es'
  eraseNone : ∀ k row, (∀ e ∈ es, ¬(cmp e.1 k = 0 ∧ e.2 = row)) → t.erase cmp k row = (t, false)

namespace WellFormed

theorem leafKeys_eq (h : WellFormed cmp dup S t g none r) {d : Nat} (ha : a < t.size)
    (hd : g.lvl a ≤ d) : t.leafKeys d a = t.keysOf (g.seg a) := by
  induction d generalizing a with
  | zero =>
    have hl : g.lvl a = 0 := by omega
    have hleaf := (h.node a ha).leaf_iff.mpr hl
    simp [leafKeys, hleaf, (h.leafOk ha hl).seg, keysOf]
  | succ d ih =>
    by_cases hl : g.lvl a = 0
    · have hleaf := (h.node a ha).leaf_iff.mpr hl
      simp [leafKeys, hleaf, (h.leafOk ha hl).seg, keysOf]
    · have hb := h.branchOk ha hl
      have hleaf : (t.heap a).leaf ≠ true := fun hleaf => hl ((h.node a ha).leaf_iff.mp hleaf)
      rw [leafKeys, if_neg hleaf, hb.seg, keysOf, List.flatMap_assoc]
      refine List.flatMap_congr fun c hc => ?_
      obtain ⟨lo, hi, hok⟩ := spans_mem hb.spans hc
      exact ih hok.lt (by have := hok.lvl; omega)

theorem lvl_lt_size (h : WellFormed cmp dup S t g none r) (ha : a < t.size) : g.lvl a < t.size :=
  Nat.lt_of_le_of_lt (h.lvl_le ha) h.height

theorem seg_subset (h : WellFormed cmp dup S t g none r) (ha : Under t r a) {l : Nat}
    (hl : l ∈ g.seg a) : l ∈ g.seg r := by
  induction ha with
  | root => exact hl
  | child ha hleaf hc ih =>
    apply ih
    rw [((h.node _ (h.under_lt ha)).branchOk hleaf).seg]
    exact List.mem_flatMap.mpr ⟨_, hc, hl⟩

theorem hi_le (hc : TotalPreorder cmp) (h : WellFormed cmp dup S t g none r) (n : Nat) :
    ∀ a < t.size, g.lvl a = n → ∀ l ∈ g.seg a, ∀ u ∈ g.hi a, ∃ v ∈ g.hi l, cmp v u ≤ 0 := by
  induction n with
  | zero =>
    intro a ha hl l hmem u hu
    rw [(h.leafOk ha hl).seg] at hmem
    obtain rfl := List.mem_singleton.mp hmem
    exact ⟨u, hu, Int.le_of_eq (hc.refl u)⟩
  | succ n ih =>
    intro a ha hl l hmem u hu
    have hspans := h.spans hc ha (by omega)
    rw [(h.branchOk ha (by omega)).seg] at hmem
    obtain ⟨c, hcm, hmem⟩ := List.mem_flatMap.mp hmem
    obtain ⟨i, hi⟩ := List.getElem?_of_mem hcm
    obtain ⟨lo, hi', ⟨hok, -⟩, -, hright⟩ := spans_getElem hspans hi
    have hchild := ih c hok.lt (by have := hok.lvl; omega) l hmem
    rw [hok.hi] at hchild
    rcases List.mem_append.mp (List.mem_of_getElem? hright) with hsep | hlast
    · obtain ⟨s, hs, rfl⟩ := List.mem_map.mp hsep
      obtain ⟨v, hv, hvs⟩ := hchild s rfl
      have hsu := (spans_separator hc (spans_mono hspans fun _ _ _ _ hP => hP.2) hs).2 u hu
      exact ⟨v, hv, hc.trans v s u hvs hsu⟩
    · obtain rfl : hi' = g.hi a := by simpa using hlast
      exact hchild u hu

/-- Without a cut, the keys left of the leaf that is found are strictly below the key. -/
theorem findLeaf_uncut (hc : TotalPreorder cmp) (h : WellFormed cmp dup S t g none r)
    (hcut : Uncut cmp t) (k : κ) :
    ∃ pre post, g.seg r = pre ++ t.findLeaf cmp r k :: post ∧ ∀ x ∈ t.keysOf pre, cmp x k < 0 := by
  obtain ⟨pre, post, hreach, hleaf, -, hpre⟩ :=
    findLeaf_rule hc h k (P := fun a pre => Under t r a ∧ ∀ x ∈ t.keysOf pre, cmp x k < 0)
      ⟨.root, by simp [keysOf]⟩ (by
        rintro a c pre post hreach hleaf hmem ⟨ha, hpre⟩
        refine ⟨.child ha hleaf hmem, fun x hx => ?_⟩
        rcases List.mem_append.mp (keysOf_append (t := t) _ _ ▸ hx) with hx | hx
        · exact hpre x hx
        obtain ⟨l, hl, hx⟩ := List.mem_flatMap.mp hx
        obtain ⟨c', hc', hl⟩ := List.mem_flatMap.mp hl
        obtain ⟨j, hj, rfl⟩ := List.getElem_of_mem hc'
        have hjs : j < (t.heap a).keys.findIdx fun s => 0 < cmp s k := by
          have := hj
          simp only [passed, List.length_take] at this
          omega
        have hjk : j < (t.heap a).keys.length := Nat.lt_of_lt_of_le hjs List.findIdx_le_length
        have hchild : (t.heap a).ch[j]? = some (t.passed cmp k a)[j] := by
          rw [← List.getElem?_eq_getElem hj, passed, List.getElem?_take_of_lt hjs]
        obtain ⟨lo, hi, hok⟩ := spans_mem ((h.node a hreach.lt).branchOk hleaf).spans
          (List.mem_of_getElem? hchild)
        have hunder : x ∈ t.leafKeys t.size (t.passed cmp k a)[j] := by
          rw [h.leafKeys_eq hok.lt (Nat.le_of_lt (h.lvl_lt_size hok.lt))]
          exact List.mem_flatMap.mpr ⟨l, hl, hx⟩
        have hlt := hcut r h.root a ha hleaf j _ _ hchild (List.getElem?_eq_getElem hjk) x hunder
        have hle : cmp ((t.heap a).keys[j]) k ≤ 0 := by
          have := List.not_of_lt_findIdx hjs
          simpa using this
        exact hc.lt_of_lt_of_le hlt hle)
  refine ⟨pre, post, ?_, hpre⟩
  rw [hreach.split, hleaf.seg, List.append_assoc, List.singleton_append]

theorem multimap_of_uncut (hc : TotalPreorder cmp) (h : WellFormed cmp dup S t g none r)
    (hcut : Uncut cmp t) : Multimap cmp t (t.entriesOf (g.seg r)) := by
  refine ⟨fun k => ?_, fun low high lowIncl highIncl => ?_, fun k row hex => ?_, fun k row hno => ?_⟩
  · obtain ⟨pre, post, hseg, hpre⟩ := h.findLeaf_uncut hc hcut k
    have hno : ∀ x ∈ t.keysOf pre, decide (cmp x k = 0) = false := by
      intro x hx
      have := hpre x hx
      simp only [decide_eq_false_iff_not]
      omega
    rw [findEqual_ahead hc h hseg]
    exact .of_eq (congrArg (List.map Prod.snd) (filter_behind h hseg hno).symm)
  · obtain ⟨pre, post, hseg, hpre⟩ := h.findLeaf_uncut hc hcut low
    have hno : ∀ x ∈ t.keysOf pre, inRange cmp low high lowIncl highIncl x = false :=
      fun x hx => inRange_of_lt (hpre x hx)
    rw [range_ahead hc h hseg]
    exact .of_eq (congrArg (List.map Prod.snd) (filter_behind h hseg hno).symm)
  · obtain ⟨pre, post, hseg, hpre⟩ := h.findLeaf_uncut hc hcut k
    rcases eraseFrom_spec h hseg (h.length_le hseg) k row with ⟨-, hall⟩ | ⟨t', hsome, hwf, hrem⟩
    · obtain ⟨e, he, hek, hrow⟩ := hex
      rw [hseg, entriesOf_append] at he
      rcases List.mem_append.mp he with he | he
      · have hkey : e.1 ∈ t.keysOf pre := by
          rw [← h.entries_keys fun x hx => hseg ▸ List.mem_append_left _ hx]
          exact List.mem_map_of_mem he
        have := hpre e.1 hkey
        omega
      · exact absurd ⟨hek, hrow⟩ (hall e he)
    · rw [List.head?_cons] at hsome
      refine ⟨t', _, ?_, hrem, Stores.isBPlusTree hc (.inr ⟨g, r, hwf, rfl⟩)⟩
      simp only [BPlusTreeIndex.erase, h.root, hsome]
  · have hstores : Stores cmp dup S t (t.entriesOf (g.seg r)) := .inr ⟨g, r, h, rfl⟩
    rcases hstores.erase_dup hc k row with heq | ⟨t', es', -, hrem, -⟩
    · exact heq
    · obtain ⟨es₁, e, es₂, heq, hek, hrow, -⟩ := hrem.out
      exact absurd ⟨hek, hrow⟩ (hno e (by rw [heq]; simp))

theorem uncut_of_findEqual (hc : TotalPreorder cmp) (h : WellFormed cmp dup S t g none r)
    (hfind : ∀ k, (t.findEqual cmp k).Perm
      (((t.entriesOf (g.seg r)).filter fun e => cmp e.1 k = 0).map Prod.snd)) : Uncut cmp t := by
  rintro r' hr a ha hleaf i c s hi hs x hx
  obtain rfl : r = r' := Option.some.inj (h.root.symm.trans hr)
  have halt := h.under_lt ha
  obtain ⟨lo, hi', hok, -, hright⟩ := spans_getElem ((h.node a halt).branchOk hleaf).spans hi
  obtain rfl : some s = hi' := by
    have hlen : i < ((t.heap a).keys.map some).length := by
      rw [List.length_map]
      exact (List.getElem?_eq_some_iff.mp hs).1
    rw [List.getElem?_append_left hlen] at hright
    simpa [hs] using hright
  rw [h.leafKeys_eq hok.lt (Nat.le_of_lt (h.lvl_lt_size hok.lt))] at hx
  have hle : cmp x s ≤ 0 := ((h.keeps hc _ c hok.lt rfl).below x hx s hok.hi).le
  by_contra hnlt
  have heq : cmp x s = 0 := by omega
  obtain ⟨l, hl, hxl⟩ := List.mem_flatMap.mp hx
  have hlr : l ∈ g.seg r := h.seg_subset (.child ha hleaf (List.mem_of_getElem? hi)) hl
  obtain ⟨v, hv, hvs⟩ := h.hi_le hc _ c hok.lt rfl l hl s hok.hi
  obtain ⟨pre, post, hreach, -, hseg⟩ := findLeaf_split hc h x
  -- the leaf of `x` lies before the one found
  have hpre : l ∈ pre := by
    rw [hseg] at hlr
    rcases List.mem_append.mp hlr with hlr | hlr
    · exact hlr
    rcases List.mem_cons.mp hlr with rfl | hlr
    · have hxv := hc.lt_of_lt_of_le (hreach.hi v hv) hvs
      omega
    · have hxx := hreach.after hc (List.mem_flatMap.mpr ⟨l, hlr, hxl⟩)
      have := hc.refl x
      omega
  -- Then the query misses it, though it is level with `x`: the numbers of rows differ.
  have hcount := (hfind x).length_eq
  rw [findEqual_ahead hc h hseg, hseg, entriesOf_append, List.filter_append, List.map_append,
    List.length_append] at hcount
  have hnone : (((t.entriesOf pre).filter fun e => cmp e.1 x = 0).map Prod.snd).length = 0 := by
    omega
  rw [List.length_map, List.length_eq_zero_iff, List.filter_eq_nil_iff] at hnone
  have hkey : x ∈ (t.entriesOf pre).map Prod.fst := by
    rw [h.entries_keys fun y hy => hseg ▸ List.mem_append_left _ hy]
    exact List.mem_flatMap.mpr ⟨l, hpre, hxl⟩
  obtain ⟨e, he, rfl⟩ := List.mem_map.mp hkey
  exact hnone e he (by simpa using hc.refl e.1)

end WellFormed

theorem Stores.multimap_iff (hc : TotalPreorder cmp) (h : Stores cmp dup S t es) :
    Multimap cmp t es ↔ Uncut cmp t := by
  rcases h with ⟨-, hroot, -, rfl⟩ | ⟨g, r, h, rfl⟩
  · refine iff_of_true ⟨fun k => ?_, fun low high li hi => ?_, ?_, fun k row _ => ?_⟩ ?_
    · simp [BPlusTreeIndex.findEqual, hroot]
    · simp [BPlusTreeIndex.range, hroot]
    · rintro k row ⟨e, he, -⟩
      cases he
    · simp [BPlusTreeIndex.erase, hroot]
    · rintro r hr
      rw [hroot] at hr
      cases hr
  · exact ⟨fun hm => h.uncut_of_findEqual hc hm.findEqual, fun hcut => h.multimap_of_uncut hc hcut⟩

/-- After any operations the index answers as a multimap exactly if no run of equal keys has been
cut. -/
theorem performAll_multimap (hc : TotalPreorder cmp) (order : Int) (ops : List (Op κ)) :
    ∃ es, IsBPlusTree cmp (performAll cmp order ops).1 es ∧
      Settles cmp es (performAll cmp order ops).2 ∧
      (Multimap cmp (performAll cmp order ops).1 es ↔ Uncut cmp (performAll cmp order ops).1) := by
  obtain ⟨-, es, hes, hled⟩ := performAll_inStep hc order ops
  exact ⟨es, hes.isBPlusTree hc, hled, hes.multimap_iff hc⟩

theorem performAll_multimap_sub :
    let ops := [Op.insert (1 : Int) 5, .insert 2 6, .insert 3 7, .insert 4 8, .insert 5 9]
    ∃ es, IsBPlusTree (fun a b => a - b) (performAll (fun a b => a - b) 4 ops).1 es ∧
      Settles (fun a b => a - b) es (performAll (fun a b => a - b) 4 ops).2 ∧
      (Multimap (fun a b => a - b) (performAll (fun a b => a - b) 4 ops).1 es ↔
        Uncut (fun a b => a - b) (performAll (fun a b => a - b) 4 ops).1) :=
  performAll_multimap totalPreorder_sub 4 _

/-- Of five rows under one key, the two left of the separator are lost. -/
theorem performAll_not_multimap : ¬ ∀ (order : Int) (ops : List (Op Int)),
    ∃ es, IsBPlusTree (fun a b => a - b) (performAll (fun a b => a - b) order ops).1 es ∧
      Settles (fun a b => a - b) es (performAll (fun a b => a - b) order ops).2 ∧
      Multimap (fun a b => a - b) (performAll (fun a b => a - b) order ops).1 es := by
  intro hall
  obtain ⟨es, -, ⟨gone, hperm, hgone⟩, hmap⟩ := hall 4
    [.insert 1 1, .insert 1 2, .insert 1 3, .insert 1 4, .insert 1 5]
  obtain rfl : gone = [] := List.forall₂_nil_right_iff.mp hgone
  rw [List.append_nil] at hperm
  have hfound := (hmap.findEqual 1).length_eq
  rw [List.length_map, (hperm.filter _).length_eq] at hfound
  exact absurd hfound (by decide +kernel)

end Dbms.Core.BPlusTreeIndex
