import Dbms.Core.BTreeSplitInv

/-! The index as the sorted list of the pairs it stores. -/

open Dbms.Lib

namespace Dbms.Core.BPlusTreeIndex
variable {κ : Type*} {cmp : κ → κ → Int} {dup : Bool} {S : κ → Prop} {t : BPlusTreeIndex κ}
  {g : Ghost κ} {r : Nat} {es : List (κ × RowId)}

theorem WellFormed.relax {big : Option Nat} (h : WellFormed cmp dup S t g big r)
    (hmax : ∀ a, big = some a → (t.heap a).keys.length ≤ t.order) :
    WellFormed cmp dup S t g none r := by
  refine { h with node := fun a ha => { h.node a ha with max := ?_ } }
  by_cases ho : big = some a
  · simpa using hmax a ho
  · have hm := (h.node a ha).max
    rw [if_neg ho] at hm
    simpa using hm

/-- The split loop is at the node `s.2`, with at most `n` turns to go, and stores what `t` did. -/
def Climbs (cmp : κ → κ → Int) (dup : Bool) (S : κ → Prop) (t : BPlusTreeIndex κ) (g : Ghost κ)
    (r n : Nat) (s : BPlusTreeIndex κ × Nat) : Prop :=
  ∃ g' r', WellFormed cmp dup S s.1 g' (some s.2) r' ∧ s.2 < s.1.size ∧
    s.1.entriesOf (g'.seg r') = t.entriesOf (g.seg r) ∧
    (g'.lvl r' - g'.lvl s.2 + 1 ≤ n ∨ (s.1.heap s.2).keys.length ≤ s.1.order)

theorem Climbs.step (hc : TotalPreorder cmp) (n : Nat) (s s' : BPlusTreeIndex κ × Nat)
    (h : Climbs cmp dup S t g r n s) (hstep : splitStep s = some s') :
    ∃ m < n, Climbs cmp dup S t g r m s' := by
  obtain ⟨s, cur⟩ := s
  obtain ⟨g', r', h', hcur, hentries, hn⟩ := h
  change WellFormed cmp dup S s g' (some cur) r' at h'
  change cur < s.size at hcur
  change g'.lvl r' - g'.lvl cur + 1 ≤ n ∨ (s.heap cur).keys.length ≤ s.order at hn
  have hfull : s.order < (s.heap cur).keys.length := by
    by_contra hle
    rw [splitStep_none (Nat.le_of_not_lt hle)] at hstep
    cases hstep
  have hmax : (s.heap cur).keys.length ≤ s.order + 1 := by simpa using (h'.node cur hcur).max
  obtain ⟨t', up, sep, hstep', H⟩ := h'.splitStep_some hcur hfull
  obtain rfl := Option.some.inj (hstep'.symm.trans hstep)
  obtain ⟨g'', r'', h'', hup, hentries', hmeasure⟩ := h'.split H hc hcur (by omega)
  have horder : 4 ≤ t'.order := h''.order
  refine ⟨n - 1, by omega, g'', r'', h'', hup, hentries'.trans hentries, ?_⟩
  change g''.lvl r'' - g''.lvl up + 1 ≤ n - 1 ∨ (t'.heap up).keys.length ≤ t'.order
  rcases hmeasure with hm | hm
  · exact .inl (by omega)
  · exact .inr (by omega)

theorem splitLoop_wellFormed (hc : TotalPreorder cmp) (fuel : Nat) {cur : Nat}
    (h : WellFormed cmp dup S t g (some cur) r) (hcur : cur < t.size)
    (hfuel : g.lvl r - g.lvl cur + 1 ≤ fuel) :
    ∃ g' r', let t' := (iterate splitStep fuel (t, cur)).1
      WellFormed cmp dup S t' g' none r' ∧ t'.entriesOf (g'.seg r') = t.entriesOf (g.seg r) := by
  have hstart : Climbs cmp dup S t g r (g.lvl r - g.lvl cur + 1) (t, cur) :=
    ⟨g, r, h, hcur, rfl, .inl (Nat.le_refl _)⟩
  obtain ⟨-, ⟨g', r', h', hcur', hentries, -⟩, hexit⟩ :=
    iterate_rule splitStep (Climbs cmp dup S t g r) (Climbs.step hc) hstart hfuel
  refine ⟨g', r', h'.relax ?_, hentries⟩
  rintro a ⟨⟩
  -- Were the last node too full, there would be another turn.
  by_contra hfull
  obtain ⟨t', up, sep, hstep, -⟩ := h'.splitStep_some hcur' (Nat.lt_of_not_le hfull)
  exact absurd (hstep.symm.trans hexit) (by simp)

theorem Stores.sorted (hc : TotalPreorder cmp) (h : Stores cmp dup S t es) :
    (es.map Prod.fst).Pairwise (Before cmp dup) := by
  rcases h with ⟨-, -, -, rfl⟩ | ⟨g, r, h, rfl⟩
  · simp
  · rw [h.entries_keys fun _ hx => hx]
    exact (h.keeps hc (g.lvl r) r h.rootLt rfl).sorted

theorem Stores.apart (hc : TotalPreorder cmp) (h : Stores cmp false S t es) :
    es.Pairwise fun e e' => cmp e.1 e'.1 ≠ 0 := by
  refine (List.pairwise_map.mp (h.sorted hc)).imp fun hlt => ?_
  have := before_false.mp hlt
  omega

theorem Stores.eq_of_level (hc : TotalPreorder cmp) (h : Stores cmp false S t es)
    {e e' : κ × RowId} (he : e ∈ es) (he' : e' ∈ es) (hk : cmp e.1 e'.1 = 0) : e = e' := by
  have hsymm : Std.Symm fun e e' : κ × RowId => cmp e.1 e'.1 ≠ 0 :=
    ⟨fun _ _ hne heq => hne (hc.eq_comm heq)⟩
  by_contra hne
  exact (h.apart hc).forall he he' hne hk

theorem Stores.nodup (hc : TotalPreorder cmp) (h : Stores cmp false S t es) : es.Nodup := by
  refine (h.apart hc).imp fun {e e'} hne heq => hne ?_
  rw [heq]
  exact hc.refl _

theorem Stores.level_length (hc : TotalPreorder cmp) (h : Stores cmp false S t es) (k : κ) :
    (es.filter fun e => cmp e.1 k = 0).length ≤ 1 := by
  have hapart : (es.filter fun e => cmp e.1 k = 0).Pairwise fun e e' => cmp e.1 e'.1 ≠ 0 :=
    (h.apart hc).sublist List.filter_sublist
  have hlevel : ∀ e ∈ es.filter fun e => cmp e.1 k = 0, cmp e.1 k = 0 := fun e he => by
    simpa using List.of_mem_filter he
  generalize es.filter (fun e => cmp e.1 k = 0) = l at hapart hlevel
  match l with
  | [] | [_] => simp
  | a :: b :: l =>
    have ha := hlevel a (by simp)
    have hb := hc.eq_comm (hlevel b (by simp))
    have hab := (hc.eq_left ha b.1).1.mpr hb
    exact absurd hab ((List.pairwise_cons.mp hapart).1 b (by simp))

theorem new_stores (order : Int) : Stores cmp dup S (new order : BPlusTreeIndex κ) [] :=
  .inl ⟨by simp only [new]; omega, rfl, rfl, rfl⟩

theorem Stores.clear (h : Stores cmp dup S t es) : Stores cmp dup S t.clear [] := by
  refine .inl ⟨?_, rfl, rfl, rfl⟩
  rcases h with ⟨horder, -⟩ | ⟨g, r, h, -⟩
  · exact horder
  · exact h.order

theorem insertIdx_sorted (hc : TotalPreorder cmp) {ks : List κ} {k : κ}
    (h : ks.Pairwise (Before cmp dup)) (hk : dup = true ∨ ∀ x ∈ ks, cmp x k ≠ 0) :
    (ks.insertIdx (ks.findIdx fun x => 0 ≤ cmp x k) k).Pairwise (Before cmp dup) := by
  induction ks with
  | nil => simp
  | cons x ks ih =>
    obtain ⟨hx, hks⟩ := List.pairwise_cons.mp h
    have hk' : dup = true ∨ ∀ x ∈ ks, cmp x k ≠ 0 := hk.imp_right fun hk y hy => hk y (by simp [hy])
    by_cases hxk : 0 ≤ cmp x k
    · have hkx : Before cmp dup k x := by
        have hs := hc.swap k x
        rcases Int.lt_or_eq_of_le hxk with hlt | heq
        · exact .inl (hs.mpr hlt)
        · rcases hk with hd | hk
          · exact .inr ⟨hd, hc.eq_comm heq.symm⟩
          · exact absurd heq.symm (hk x (by simp))
      simp only [List.findIdx_cons, hxk, decide_true, cond_true, List.insertIdx_zero]
      refine List.pairwise_cons.mpr ⟨fun y hy => ?_, h⟩
      rcases List.mem_cons.mp hy with rfl | hy
      · exact hkx
      · exact hkx.trans_le hc (hx y hy).le
    · simp only [List.findIdx_cons, hxk, decide_false, cond_false, List.insertIdx_succ_cons]
      refine List.pairwise_cons.mpr ⟨fun y hy => ?_, ih hks hk'⟩
      rcases List.eq_or_mem_of_mem_insertIdx hy with rfl | hy
      · exact .inl (by omega)
      · exact hx y hy

theorem zip_insertIdx {α β : Type*} {as : List α} {bs : List β} {i : Nat} {a : α} {b : β}
    (hlen : as.length = bs.length) (hi : i ≤ as.length) :
    (as.insertIdx i a).zip (bs.insertIdx i b) =
      (as.zip bs).take i ++ (a, b) :: (as.zip bs).drop i := by
  induction i generalizing as bs with
  | zero => simp
  | succ i ih =>
    match as, bs, hlen with
    | [], [], _ => simp at hi
    | _ :: as, _ :: bs, hlen =>
      simpa using ih (by simpa using hlen) (by simpa using hi)

theorem insert_empty (horder : 4 ≤ t.order) (hroot : t.root = none) (hsize : t.size = 0) {k : κ}
    (row : RowId) (hS : S k) : Stores cmp dup S (t.insert cmp k row) [(k, row)] := by
  have hins : t.insert cmp k row =
      { t.alloc { leaf := true, keys := [k], rows := [row] } with root := some 0 } := by
    simp [insert, insertValue, hroot, hsize]
  have hheap : (t.insert cmp k row).heap 0 = { leaf := true, keys := [k], rows := [row] } := by
    simp [hins, hsize]
  let g : Ghost κ :=
    { lvl := fun _ => 0, lo := fun _ => none, hi := fun _ => none, seg := fun a => [a] }
  have hsz : (t.insert cmp k row).size = 1 := by simp [hins, hsize]
  have hord : (t.insert cmp k row).order = t.order := by simp [hins]
  refine .inr ⟨g, 0, ⟨hord ▸ horder, by rw [hins], by omega, ?_, rfl, rfl, ?_, ?_, ?_, by simp [g]⟩,
    by simp [g, nodeEntries, hheap]⟩
  · intro a ha
    obtain rfl : a = 0 := by omega
    simp [hheap]
  · rw [hsz]
    exact Nat.one_pos
  · intro a ha
    obtain rfl : a = 0 := by omega
    refine ⟨by simp [hheap, g], ?_, by simp [g], by simpa [hheap] using hS, ?_, ?_, by simp [hheap],
      fun _ => ?_, ?_⟩
    · rintro _ ⟨⟩
    · rw [hheap, hord]
      simp only [List.length_singleton]
      omega
    · intro x hx
      obtain rfl : x = 0 := by simpa [g] using hx
      exact ⟨ha, by rw [hheap]⟩
    · refine ⟨by rw [hheap], by simp [hheap], by simp [hheap], ?_, ?_, rfl⟩
      · rintro _ _ _ ⟨⟩
      · rintro _ _ _ ⟨⟩
    · simp [hheap]
  · simp [g, Linked, hheap]

theorem Stores.insert (hc : TotalPreorder cmp) (h : Stores cmp dup S t es) {k : κ} (row : RowId)
    (hS : S k) (hk : dup = true ∨ ∀ e ∈ es, cmp e.1 k ≠ 0) :
    ∃ es₁ es₂, es = es₁ ++ es₂ ∧
      Stores cmp dup S (t.insert cmp k row) (es₁ ++ (k, row) :: es₂) := by
  rcases h with ⟨horder, hroot, hsize, rfl⟩ | ⟨g, r, h, rfl⟩
  · exact ⟨[], [], rfl, insert_empty horder hroot hsize row hS⟩
  obtain ⟨pre, post, hreach, hleaf, hseg⟩ := findLeaf_split hc h k
  set l := t.findLeaf cmp r k with hl
  let n := t.heap l
  let pos := n.keys.findIdx fun x => 0 ≤ cmp x k
  have hpos : pos ≤ n.keys.length := List.findIdx_le_length
  have hset : t.insertLeaf cmp l k row =
      t.setLeaf l (n.keys.insertIdx pos k) (n.rows.insertIdx pos row) := rfl
  have hlen : (n.keys.insertIdx pos k).length = n.keys.length + 1 := by
    rw [List.length_insertIdx, if_pos hpos]
  have hmemK : ∀ x ∈ n.keys.insertIdx pos k, x = k ∨ x ∈ n.keys := fun x hx =>
    List.eq_or_mem_of_mem_insertIdx hx
  have hmem : l ∈ g.seg r := by
    rw [hseg]
    simp
  have hlvl : g.lvl l = 0 :=
    (h.node l hreach.lt).leaf_iff.mp ((h.node r h.rootLt).segLeaf l hmem).2
  have hmax : n.keys.length ≤ t.order := by simpa using (h.node l hreach.lt).max
  have hkeys : dup = true ∨ ∀ x ∈ n.keys, cmp x k ≠ 0 := by
    refine hk.imp_right fun hk x hx => ?_
    have hx' : x ∈ (t.entriesOf (g.seg r)).map Prod.fst := by
      rw [h.entries_keys fun _ hmem => hmem]
      exact List.mem_flatMap.mpr ⟨l, hmem, hx⟩
    obtain ⟨e, he, rfl⟩ := List.mem_map.mp hx'
    exact hk e he
  -- Between the two steps the leaf may hold one key too many; the split loop puts that right.
  have h' : WellFormed cmp dup S (t.insertLeaf cmp l k row) g (some l) r := by
    rw [hset]
    refine h.setLeaf hreach.lt hlvl (.inl rfl) ?_ (insertIdx_sorted hc hleaf.sorted hkeys) ?_ ?_ ?_
      (by omega)
    · rw [hlen, List.length_insertIdx, if_pos (hleaf.rows ▸ hpos), hleaf.rows]
    · intro x hx
      rcases hmemK x hx with rfl | hx
      · exact hreach.lo
      · exact hleaf.above x hx
    · intro x hx
      rcases hmemK x hx with rfl | hx
      · exact fun s hs => .inl (hreach.hi s hs)
      · exact hleaf.below x hx
    · intro x hx
      rcases hmemK x hx with rfl | hx
      · exact hS
      · exact (h.node l hreach.lt).stored x hx
  have hheight := h.height
  obtain ⟨g', r', hwf, hentries⟩ :=
    splitLoop_wellFormed hc (t.size + 1) h' hreach.lt (by omega)
  have hins : t.insert cmp k row =
      (iterate splitStep (t.size + 1) (t.insertLeaf cmp l k row, l)).1 := by
    simp only [BPlusTreeIndex.insert, insertValue, h.root, hl]
  refine ⟨t.entriesOf pre ++ (t.nodeEntries l).take pos,
    (t.nodeEntries l).drop pos ++ t.entriesOf post, ?_, .inr ⟨g', r', hins ▸ hwf, ?_⟩⟩
  · rw [hseg, entriesOf_append, entriesOf_cons, List.append_assoc, ← List.append_assoc (List.take _ _),
      List.take_append_drop]
  · rw [hins, hentries, hset, hseg, setLeaf_entries (hseg ▸ h.nodup),
      zip_insertIdx hleaf.rows hpos]
    simp [nodeEntries]

/-! The scans, on an index whose keys are all different. -/

theorem WellFormed.length_le {big : Option Nat} (h : WellFormed cmp dup S t g big r)
    {pre post : List Nat} (hseg : g.seg r = pre ++ post) : post.length ≤ t.size := by
  have hnd := (List.nodup_append.mp (hseg ▸ h.nodup)).2.1
  have hsub : post ⊆ List.range t.size := fun x hx =>
    List.mem_range.mpr (h.leafOk_of_mem (hseg ▸ List.mem_append_right _ hx)).1
  simpa using (List.subperm_of_subset hnd hsub).length_le

theorem scan_ahead (hc : TotalPreorder cmp) (h : WellFormed cmp dup S t g none r) {k : κ}
    {pre post : List Nat} (hseg : g.seg r = pre ++ t.findLeaf cmp r k :: post)
    {pick stop : κ → Bool} (hstop : ∀ x y, cmp x y ≤ 0 → stop x = true → pick y = false) :
    t.scanFrom pick stop t.size (some (t.findLeaf cmp r k)) =
      ((t.entriesOf (t.findLeaf cmp r k :: post)).filter fun e => pick e.1).map Prod.snd := by
  have hsorted := Stores.sorted hc (.inr ⟨g, r, h, rfl⟩)
  rw [hseg, entriesOf_append, List.map_append, List.pairwise_append] at hsorted
  have hstops : Stops pick stop (t.entriesOf (t.findLeaf cmp r k :: post)) :=
    (List.pairwise_map.mp hsorted.2.1).imp fun hab hs => hstop _ _ hab.le hs
  have hlink : t.Linked (t.findLeaf cmp r k :: post) := (hseg ▸ h.linked).drop
  exact scanFrom_spec hlink (h.length_le hseg) hstops

theorem findEqual_ahead (hc : TotalPreorder cmp) (h : WellFormed cmp dup S t g none r) {k : κ}
    {pre post : List Nat} (hseg : g.seg r = pre ++ t.findLeaf cmp r k :: post) :
    t.findEqual cmp k =
      ((t.entriesOf (t.findLeaf cmp r k :: post)).filter fun e => cmp e.1 k = 0).map Prod.snd := by
  simp only [BPlusTreeIndex.findEqual, h.root]
  refine scan_ahead hc h hseg fun x y hxy hs => ?_
  simp only [decide_eq_true_eq] at hs
  have hky := hc.lt_of_lt_of_le ((hc.swap k x).mpr hs) hxy
  have := (hc.swap k y).mp hky
  simp only [decide_eq_false_iff_not]
  omega

theorem range_ahead (hc : TotalPreorder cmp) (h : WellFormed cmp dup S t g none r) {low high : κ}
    {lowIncl highIncl : Bool} {pre post : List Nat}
    (hseg : g.seg r = pre ++ t.findLeaf cmp r low :: post) :
    t.range cmp low high lowIncl highIncl =
      ((t.entriesOf (t.findLeaf cmp r low :: post)).filter fun e =>
        inRange cmp low high lowIncl highIncl e.1).map Prod.snd := by
  simp only [BPlusTreeIndex.range, h.root]
  refine scan_ahead hc h hseg fun x y hxy hs => ?_
  simp only [decide_eq_true_eq] at hs
  have hhy := hc.lt_of_lt_of_le ((hc.swap high x).mpr hs) hxy
  have := (hc.swap high y).mp hhy
  have h1 : ¬ cmp y high ≤ 0 := by omega
  have h2 : ¬ cmp y high < 0 := by omega
  cases highIncl <;> simp [inRange, h1, h2]

theorem filter_behind (h : WellFormed cmp dup S t g none r) {pre post : List Nat}
    (hseg : g.seg r = pre ++ post) {pick : κ → Bool} (hno : ∀ x ∈ t.keysOf pre, pick x = false) :
    (t.entriesOf (g.seg r)).filter (fun e => pick e.1) =
      (t.entriesOf post).filter fun e => pick e.1 := by
  have hpre : (t.entriesOf pre).filter (fun e => pick e.1) = [] := by
    rw [List.filter_eq_nil_iff]
    intro e he
    have hkey : e.1 ∈ t.keysOf pre := by
      rw [← h.entries_keys fun x hx => hseg ▸ List.mem_append_left _ hx]
      exact List.mem_map_of_mem he
    simp [hno e.1 hkey]
  rw [hseg, entriesOf_append, List.filter_append, hpre, List.nil_append]

theorem inRange_of_lt {low high x : κ} {lowIncl highIncl : Bool} (h : cmp x low < 0) :
    inRange cmp low high lowIncl highIncl x = false := by
  have h1 : ¬ 0 ≤ cmp x low := by omega
  have h2 : ¬ 0 < cmp x low := by omega
  cases lowIncl <;> simp [inRange, h1, h2]

theorem Stores.findEqual (hc : TotalPreorder cmp) (h : Stores cmp false S t es) (k : κ) :
    t.findEqual cmp k = (es.filter fun e => cmp e.1 k = 0).map Prod.snd := by
  rcases h with ⟨-, hroot, -, rfl⟩ | ⟨g, r, h, rfl⟩
  · simp [BPlusTreeIndex.findEqual, hroot]
  obtain ⟨pre, post, hreach, -, hseg⟩ := findLeaf_split hc h k
  have hno : ∀ x ∈ t.keysOf pre, decide (cmp x k = 0) = false := by
    intro x hx
    have := before_false.mp (hreach.before hc hx)
    simp only [decide_eq_false_iff_not]
    omega
  rw [findEqual_ahead hc h hseg]
  exact congrArg (List.map Prod.snd) (filter_behind h hseg hno).symm

theorem Stores.range (hc : TotalPreorder cmp) (h : Stores cmp false S t es) (low high : κ)
    (lowIncl highIncl : Bool) :
    t.range cmp low high lowIncl highIncl =
      (es.filter fun e => inRange cmp low high lowIncl highIncl e.1).map Prod.snd := by
  rcases h with ⟨-, hroot, -, rfl⟩ | ⟨g, r, h, rfl⟩
  · simp [BPlusTreeIndex.range, hroot]
  obtain ⟨pre, post, hreach, -, hseg⟩ := findLeaf_split hc h low
  have hno : ∀ x ∈ t.keysOf pre, inRange cmp low high lowIncl highIncl x = false :=
    fun x hx => inRange_of_lt (before_false.mp (hreach.before hc hx))
  rw [range_ahead hc h hseg]
  exact congrArg (List.map Prod.snd) (filter_behind h hseg hno).symm

/-! Removal. -/

theorem zip_eraseIdx {α β : Type*} {as : List α} {bs : List β} {i : Nat}
    (hlen : as.length = bs.length) :
    (as.eraseIdx i).zip (bs.eraseIdx i) = (as.zip bs).take i ++ (as.zip bs).drop (i + 1) := by
  induction i generalizing as bs with
  | zero => cases as <;> cases bs <;> simp
  | succ i ih =>
    match as, bs, hlen with
    | [], [], _ => simp
    | _ :: as, _ :: bs, hlen => simpa using ih (by simpa using hlen)

/-- The removal of one pair with row `row` under a key level with `k`. -/
structure Removed (cmp : κ → κ → Int) (k : κ) (row : RowId) (es es' : List (κ × RowId)) : Prop where
  out : ∃ es₁ e es₂, es = es₁ ++ e :: es₂ ∧ cmp e.1 k = 0 ∧ e.2 = row ∧ es' = es₁ ++ es₂

theorem Removed.within {k : κ} {row : RowId} {es es' : List (κ × RowId)}
    (h : Removed cmp k row es es') (pre post : List (κ × RowId)) :
    Removed cmp k row (pre ++ es ++ post) (pre ++ es' ++ post) := by
  obtain ⟨es₁, e, es₂, rfl, hk, hrow, rfl⟩ := h.out
  exact ⟨pre ++ es₁, e, es₂ ++ post, by simp, hk, hrow, by simp⟩

theorem eraseLeaf_spec (h : WellFormed cmp dup S t g none r) {pre post : List Nat} {l : Nat}
    (hseg : g.seg r = pre ++ l :: post) (k : κ) (row : RowId) :
    (t.eraseLeaf cmp l k row = none ∧ ∀ e ∈ t.nodeEntries l, ¬(cmp e.1 k = 0 ∧ e.2 = row)) ∨
      ∃ t', t.eraseLeaf cmp l k row = some t' ∧ WellFormed cmp dup S t' g none r ∧
        Removed cmp k row (t.entriesOf (g.seg r)) (t'.entriesOf (g.seg r)) := by
  have hmem : l ∈ g.seg r := by
    rw [hseg]
    simp
  obtain ⟨hlt, hleaf⟩ := h.leafOk_of_mem hmem
  have hlvl : g.lvl l = 0 := (h.node l hlt).leaf_iff.mp ((h.node r h.rootLt).segLeaf l hmem).2
  have hmax : (t.heap l).keys.length ≤ t.order := by simpa using (h.node l hlt).max
  -- Leaves are never merged: one key less keeps every bound but that from above, which gets easier.
  cases hidx : (t.nodeEntries l).findIdx? fun e => cmp e.1 k = 0 ∧ e.2 = row with
  | none =>
    refine .inl ⟨by simp only [eraseLeaf, nodeEntries] at *; simp only [hidx], ?_⟩
    intro e he
    simpa using List.findIdx?_eq_none_iff.mp hidx e he
  | some i =>
    obtain ⟨hi, hp, -⟩ := List.findIdx?_eq_some_iff_getElem.mp hidx
    have hsub : ∀ {α : Type _} {as : List α}, ∀ x ∈ as.eraseIdx i, x ∈ as :=
      fun x hx => List.mem_of_mem_eraseIdx hx
    have hile : i < (t.heap l).keys.length := by
      simp only [nodeEntries, List.length_zip] at hi
      omega
    have hlen : ((t.heap l).keys.eraseIdx i).length = (t.heap l).keys.length - 1 := by
      rw [List.length_eraseIdx, if_pos hile]
    have hwf := h.setLeaf hlt hlvl (.inl rfl)
      (by rw [hlen, List.length_eraseIdx, if_pos (hleaf.rows ▸ hile), hleaf.rows])
      (hleaf.sorted.sublist (List.eraseIdx_sublist _ _)) (fun x hx => hleaf.above x (hsub x hx))
      (fun x hx => hleaf.below x (hsub x hx)) (fun x hx => (h.node l hlt).stored x (hsub x hx))
      (by omega : ((t.heap l).keys.eraseIdx i).length ≤ t.order + 1)
    refine .inr ⟨t.setLeaf l ((t.heap l).keys.eraseIdx i) ((t.heap l).rows.eraseIdx i), ?_,
      hwf.relax ?_, ?_⟩
    · simp only [eraseLeaf, nodeEntries] at *
      simp only [hidx]
      rfl
    · rintro a ⟨⟩
      rw [setLeaf_heap_self]
      change ((t.heap l).keys.eraseIdx i).length ≤ t.order
      omega
    · rw [hseg, setLeaf_entries (hseg ▸ h.nodup), zip_eraseIdx hleaf.rows, entriesOf_append,
        entriesOf_cons, ← List.append_assoc]
      refine Removed.within ⟨(t.nodeEntries l).take i, (t.nodeEntries l)[i],
        (t.nodeEntries l).drop (i + 1), ?_, ?_, ?_, rfl⟩ _ _
      · rw [List.getElem_cons_drop, List.take_append_drop]
      · simpa using (of_decide_eq_true hp).1
      · simpa using (of_decide_eq_true hp).2

theorem eraseFrom_spec (h : WellFormed cmp dup S t g none r) {pre l : List Nat} {n : Nat}
    (hseg : g.seg r = pre ++ l) (hn : l.length ≤ n) (k : κ) (row : RowId) :
    (t.eraseFrom cmp k row n l.head? = none ∧
      ∀ e ∈ t.entriesOf l, ¬(cmp e.1 k = 0 ∧ e.2 = row)) ∨
      ∃ t', t.eraseFrom cmp k row n l.head? = some t' ∧ WellFormed cmp dup S t' g none r ∧
        Removed cmp k row (t.entriesOf (g.seg r)) (t'.entriesOf (g.seg r)) := by
  induction l generalizing pre n with
  | nil => exact .inl ⟨by cases n <;> rfl, by simp⟩
  | cons a l ih =>
    cases n with
    | zero => simp at hn
    | succ n =>
      have hnext : (t.heap a).next = l.head? := ((hseg ▸ h.linked).drop).1
      rcases eraseLeaf_spec h hseg k row with ⟨hnone, hall⟩ | ⟨t', hsome, hwf, hrem⟩
      · have hseg' : g.seg r = (pre ++ [a]) ++ l := by simpa using hseg
        have hrest := ih hseg' (by simpa using hn)
        simp only [List.head?_cons, eraseFrom, hnone, hnext]
        apply hrest.imp_left
        rintro ⟨hnone', hall'⟩
        refine ⟨hnone', fun e he => ?_⟩
        rcases List.mem_append.mp (entriesOf_cons (t := t) a l ▸ he) with he | he
        · exact hall e he
        · exact hall' e he
      · exact .inr ⟨t', by simp only [List.head?_cons, eraseFrom, hsome], hwf, hrem⟩

theorem Stores.erase (hc : TotalPreorder cmp) (h : Stores cmp false S t es) (k : κ) (row : RowId) :
    ((∀ e ∈ es, ¬(cmp e.1 k = 0 ∧ e.2 = row)) ∧ t.erase cmp k row = (t, false)) ∨
      ∃ t' es', t.erase cmp k row = (t', true) ∧ Removed cmp k row es es' ∧
        Stores cmp false S t' es' := by
  rcases h with ⟨-, hroot, -, rfl⟩ | ⟨g, r, h, rfl⟩
  · exact .inl ⟨by simp, by simp [BPlusTreeIndex.erase, hroot]⟩
  obtain ⟨pre, post, hreach, hleaf, hseg⟩ := findLeaf_split hc h k
  rcases eraseFrom_spec h hseg (h.length_le hseg) k row with ⟨hnone, hall⟩ | ⟨t', hsome, hwf, hrem⟩
  · refine .inl ⟨fun e he => ?_, ?_⟩
    · rw [hseg, entriesOf_append] at he
      rcases List.mem_append.mp he with he | he
      · rintro ⟨hek, -⟩
        have hkey : e.1 ∈ t.keysOf pre := by
          rw [← h.entries_keys fun x hx => hseg ▸ List.mem_append_left _ hx]
          exact List.mem_map_of_mem he
        have := before_false.mp (hreach.before hc hkey)
        omega
      · exact hall e he
    · rw [List.head?_cons] at hnone
      simp only [BPlusTreeIndex.erase, h.root, hnone]
  · rw [List.head?_cons] at hsome
    refine .inr ⟨t', _, ?_, hrem, .inr ⟨g, r, hwf, rfl⟩⟩
    simp only [BPlusTreeIndex.erase, h.root, hsome]

theorem before_congr {cmp' : κ → κ → Int} {a b : κ} (heq : cmp a b = cmp' a b)
    (h : Before cmp dup a b) : Before cmp' dup a b := by
  unfold Before at *
  rwa [← heq]

/-- The index depends on the comparator only through the keys it may hold. -/
theorem Stores.congr {cmp' : κ → κ → Int} {S' : κ → Prop} (h : Stores cmp dup S t es)
    (hS : ∀ k, S k → S' k) (heq : ∀ a b, S a → S b → cmp a b = cmp' a b) :
    Stores cmp' dup S' t es := by
  refine h.imp_right fun ⟨g, r, h, hes⟩ => ⟨g, r, { h with node := fun a ha => ?_ }, hes⟩
  have hn := h.node a ha
  refine { hn with
    ordered := fun s hs s' hs' => ?_
    bounds := fun s hs => hS s (hn.bounds s hs)
    stored := fun k hk => hS k (hn.stored k hk)
    leafOk := fun hl => ?_ }
  · rw [← heq s s' (hn.bounds s (.inl hs)) (hn.bounds s' (.inr hs'))]
    exact hn.ordered s hs s' hs'
  · have hleaf := hn.leafOk hl
    refine { hleaf with
      sorted := hleaf.sorted.imp_of_mem fun ha hb hab =>
        before_congr (heq _ _ (hn.stored _ ha) (hn.stored _ hb)) hab
      above := fun k hk s hs => ?_
      below := fun k hk s hs => ?_ }
    · rw [← heq s k (hn.bounds s (.inl hs)) (hn.stored k hk)]
      exact hleaf.above k hk s hs
    · exact before_congr (heq k s (hn.stored k hk) (hn.bounds s (.inr hs))) (hleaf.below k hk s hs)

end Dbms.Core.BPlusTreeIndex
