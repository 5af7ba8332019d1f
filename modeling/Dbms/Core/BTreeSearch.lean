import Dbms.Core.BTreeInv

/-! The descent to a leaf and the scans along the leaf chain. -/

open Dbms.Lib

namespace Dbms.Core.BPlusTreeIndex
variable {κ : Type*} {cmp : κ → κ → Int} {dup : Bool} {S : κ → Prop} {t : BPlusTreeIndex κ}
  {g : Ghost κ} {big : Option Nat} {r : Nat}

/-- The node `a` answers for `k`: its leaves are a run of the chain, the keys before them end below
the interval of `a`, and the keys after them start above it. -/
structure Reaches (cmp : κ → κ → Int) (dup : Bool) (t : BPlusTreeIndex κ) (g : Ghost κ) (r : Nat)
    (k : κ) (a : Nat) (pre post : List Nat) : Prop where
  lt : a < t.size
  lo : AboveLo cmp (g.lo a) k
  hi : ∀ s ∈ g.hi a, cmp k s < 0
  split : g.seg r = pre ++ g.seg a ++ post
  pre : ∀ x ∈ t.keysOf pre, ∃ s, g.lo a = some s ∧ Before cmp dup x s
  post : ∀ x ∈ t.keysOf post, ∃ s, g.hi a = some s ∧ cmp s x ≤ 0

theorem Reaches.root (h : WellFormed cmp dup S t g big r) (k : κ) :
    Reaches cmp dup t g r k r [] [] := by
  refine ⟨h.rootLt, ?_, ?_, by simp, ?_, ?_⟩ <;> simp [h.rootLo, h.rootHi, AboveLo, keysOf]

theorem Reaches.before (hc : TotalPreorder cmp) {k : κ} {a : Nat} {pre post : List Nat}
    (h : Reaches cmp dup t g r k a pre post) {x : κ} (hx : x ∈ t.keysOf pre) :
    Before cmp dup x k := by
  obtain ⟨s, hs, hb⟩ := h.pre x hx
  exact hb.trans_le hc (h.lo s hs)

theorem Reaches.after (hc : TotalPreorder cmp) {k : κ} {a : Nat} {pre post : List Nat}
    (h : Reaches cmp dup t g r k a pre post) {x : κ} (hx : x ∈ t.keysOf post) : cmp k x < 0 := by
  obtain ⟨s, hs, hle⟩ := h.post x hx
  exact hc.lt_of_lt_of_le (h.hi s hs) hle

def passed (cmp : κ → κ → Int) (t : BPlusTreeIndex κ) (k : κ) (a : Nat) : List Nat :=
  (t.heap a).ch.take ((t.heap a).keys.findIdx fun s => 0 < cmp s k)

theorem Reaches.step (hc : TotalPreorder cmp) (h : WellFormed cmp dup S t g big r) {k : κ}
    {a : Nat} {pre post : List Nat} (ha : Reaches cmp dup t g r k a pre post)
    (hl : g.lvl a ≠ 0) :
    ∃ c post', t.findLeafStep cmp k a = some c ∧ c ∈ (t.heap a).ch ∧ g.lvl a = g.lvl c + 1 ∧
      Reaches cmp dup t g r k c (pre ++ (t.passed cmp k a).flatMap g.seg) post' := by
  -- The bounds of the child are bounds of `a` or separators, which lie between them.
  obtain ⟨l, c, cs, lo, hi, hch, hlen, ⟨hok, -⟩, hlo, hhi, hleft, hright, hloOr, hhiOr⟩ :=
    spans_descend hc (fun _ _ _ hP => hP.2) (h.spans hc ha.lt hl) ha.lo ha.hi
  have hleaf : (t.heap a).leaf = false := by
    by_contra hleaf
    exact hl ((h.node a ha.lt).leaf_iff.mp (by simpa using hleaf))
  have hseps : ∀ s ∈ (t.heap a).keys, AboveLo cmp (g.lo a) s ∧ ∀ u ∈ g.hi a, cmp s u ≤ 0 :=
    fun s hs => spans_separator hc (spans_mono (h.spans hc ha.lt hl) fun _ _ _ _ hP => hP.2) hs
  have hpassed : t.passed cmp k a = l := by
    rw [passed, hch, ← hlen]
    exact List.take_left
  rw [hpassed]
  refine ⟨c, cs.flatMap g.seg ++ post, ?_, by simp [hch], hok.lvl, hok.lt, hok.lo ▸ hlo,
    hok.hi ▸ hhi, ?_, ?_, ?_⟩
  · simp [findLeafStep, hleaf, ← hlen, hch]
  · rw [ha.split, (h.branchOk ha.lt hl).seg, hch]
    simp
  · intro x hx
    rw [hok.lo]
    rcases List.mem_append.mp (keysOf_append (t := t) _ _ ▸ hx) with hx | hx
    · obtain ⟨s, hs, hb⟩ := ha.pre x hx
      rcases hloOr with heq | ⟨u, hu, rfl⟩
      · exact ⟨s, heq ▸ hs, hb⟩
      · exact ⟨u, rfl, hb.trans_le hc ((hseps u hu).1 s hs)⟩
    · exact hleft x (by simpa only [keysOf, List.flatMap_assoc] using hx)
  · intro x hx
    rw [hok.hi]
    rcases List.mem_append.mp (keysOf_append (t := t) _ _ ▸ hx) with hx | hx
    · exact hright x (by simpa only [keysOf, List.flatMap_assoc] using hx)
    · obtain ⟨s, hs, hle⟩ := ha.post x hx
      rcases hhiOr with heq | ⟨u, hu, rfl⟩
      · exact ⟨s, heq ▸ hs, hle⟩
      · exact ⟨u, rfl, hc.trans u s x ((hseps u hu).2 s hs) hle⟩

/-- What holds of the root and is handed down at every turn holds of the leaf that is found. -/
theorem findLeaf_rule (hc : TotalPreorder cmp) (h : WellFormed cmp dup S t g big r) (k : κ)
    {P : Nat → List Nat → Prop} (hroot : P r [])
    (hstep : ∀ a c pre post, Reaches cmp dup t g r k a pre post → (t.heap a).leaf = false →
      c ∈ (t.heap a).ch → P a pre → P c (pre ++ (t.passed cmp k a).flatMap g.seg)) :
    ∃ pre post, Reaches cmp dup t g r k (t.findLeaf cmp r k) pre post ∧
      LeafOk cmp dup t g (t.findLeaf cmp r k) ∧ P (t.findLeaf cmp r k) pre := by
  have hbranch : ∀ a < t.size, g.lvl a ≠ 0 → (t.heap a).leaf = false := by
    intro a ha hl
    by_contra hleaf
    exact hl ((h.node a ha).leaf_iff.mp (by simpa using hleaf))
  obtain ⟨n, ⟨pre, post, hreach, hn, hP⟩, hexit⟩ :=
    iterate_rule (t.findLeafStep cmp k)
      (fun n a => ∃ pre post, Reaches cmp dup t g r k a pre post ∧ g.lvl a = n ∧ P a pre)
      (by
        rintro n a c ⟨pre, post, hreach, rfl, hP⟩ hbody
        by_cases hl : g.lvl a = 0
        · have hleaf := (h.node a hreach.lt).leaf_iff.mpr hl
          simp [findLeafStep, hleaf] at hbody
        · obtain ⟨c', post', hturn, hmem, hlvl, hreach'⟩ := hreach.step hc h hl
          obtain rfl := Option.some.inj (hbody.symm.trans hturn)
          exact ⟨g.lvl c, by omega, _, post', hreach', rfl,
            hstep a c pre post hreach (hbranch a hreach.lt hl) hmem hP⟩)
      ⟨[], [], Reaches.root h k, rfl, hroot⟩ (Nat.le_of_lt h.height)
  refine ⟨pre, post, hreach, h.leafOk hreach.lt ?_, hP⟩
  by_contra hl
  obtain ⟨c, -, hturn, -⟩ := hreach.step hc h hl
  exact absurd (hturn.symm.trans hexit) (by simp)

theorem findLeaf_reaches (hc : TotalPreorder cmp) (h : WellFormed cmp dup S t g big r) (k : κ) :
    ∃ pre post, Reaches cmp dup t g r k (t.findLeaf cmp r k) pre post ∧
      LeafOk cmp dup t g (t.findLeaf cmp r k) := by
  obtain ⟨pre, post, hreach, hleaf, -⟩ :=
    findLeaf_rule hc h k (P := fun _ _ => True) trivial fun _ _ _ _ _ _ _ _ => trivial
  exact ⟨pre, post, hreach, hleaf⟩

/-- The leaf found for `k` splits what is stored: smaller keys, the leaf, larger keys. -/
theorem findLeaf_split (hc : TotalPreorder cmp) (h : WellFormed cmp dup S t g big r) (k : κ) :
    ∃ pre post, let l := t.findLeaf cmp r k
      Reaches cmp dup t g r k l pre post ∧ LeafOk cmp dup t g l ∧ g.seg r = pre ++ l :: post := by
  obtain ⟨pre, post, hreach, hleaf⟩ := findLeaf_reaches hc h k
  refine ⟨pre, post, hreach, hleaf, ?_⟩
  rw [hreach.split, hleaf.seg, List.append_assoc, List.singleton_append]

section Scan
variable {pick stop : κ → Bool}

/-- Once a key stops the scan, no later key would have been picked. -/
def Stops (pick stop : κ → Bool) (es : List (κ × RowId)) : Prop :=
  es.Pairwise fun a b => stop a.1 = true → pick b.1 = false

theorem scanLeaf_spec {es : List (κ × RowId)} (h : Stops pick stop es) :
    (scanLeaf pick stop es).1 = (es.filter fun e => pick e.1).map Prod.snd ∧
      ((scanLeaf pick stop es).2 = true ↔ ∃ e ∈ es, stop e.1 = true) := by
  induction es with
  | nil => simp [scanLeaf]
  | cons e es ih =>
    obtain ⟨k, row⟩ := e
    obtain ⟨hhead, htail⟩ := List.pairwise_cons.mp h
    obtain ⟨ih1, ih2⟩ := ih htail
    by_cases hs : stop k = true
    · have hnone : es.filter (fun e => pick e.1) = [] := by
        rw [List.filter_eq_nil_iff]
        intro b hb
        simpa using hhead b hb hs
      cases hp : pick k <;> simp [scanLeaf, hs, hp, hnone]
    · cases hp : pick k <;> simp [scanLeaf, hs, hp, ih1, ih2]

theorem scanFrom_spec {l : List Nat} {n : Nat} (hlink : t.Linked l) (hn : l.length ≤ n)
    (h : Stops pick stop (t.entriesOf l)) :
    t.scanFrom pick stop n l.head? =
      ((t.entriesOf l).filter fun e => pick e.1).map Prod.snd := by
  induction l generalizing n with
  | nil => cases n <;> simp [scanFrom]
  | cons a l ih =>
    cases n with
    | zero => simp at hn
    | succ n =>
      rw [entriesOf_cons] at h ⊢
      obtain ⟨hhead, htail, hcross⟩ := List.pairwise_append.mp h
      obtain ⟨hout, hdone⟩ := scanLeaf_spec hhead
      have hrest := ih hlink.2 (by simpa using hn) htail
      simp only [List.head?_cons, scanFrom, hlink.1, List.filter_append, List.map_append]
      by_cases hd : (scanLeaf pick stop ((t.heap a).keys.zip (t.heap a).rows)).2 = true
      · obtain ⟨e, he, hstop⟩ := hdone.mp hd
        have hnone : (t.entriesOf l).filter (fun e => pick e.1) = [] := by
          rw [List.filter_eq_nil_iff]
          intro b hb
          simpa using hcross e he b hb hstop
        simp only [hd, if_true, hnone, List.map_nil, List.append_nil]
        exact hout
      · rw [if_neg hd, hrest]
        exact congrArg (· ++ _) hout

end Scan

theorem Linked.drop {l l' : List Nat} (h : t.Linked (l ++ l')) : t.Linked l' := by
  induction l with
  | nil => exact h
  | cons a l ih => exact ih h.2

end Dbms.Core.BPlusTreeIndex
