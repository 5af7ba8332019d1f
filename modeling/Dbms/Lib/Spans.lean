import Dbms.Lib.Comparator
import Mathlib.Data.List.Infix
import Mathlib.Data.List.Nodup

/-! Children between separators: the part of a search tree that says which interval of keys each
child of a node answers for. An absent bound is an open end. -/

namespace Dbms.Lib
variable {κ ν : Type*}

/-- The children `cs` share out the interval from `lo` to `hi`, cut at the separators `ks`. -/
def Spans (P : ν → Option κ → Option κ → Prop) : Option κ → List κ → List ν → Option κ → Prop
  | lo, [], [c], hi => P c lo hi
  | lo, k :: ks, c :: cs, hi => P c lo (some k) ∧ Spans P (some k) ks cs hi
  | _, _, _, _ => False

section Shape
variable {P Q : ν → Option κ → Option κ → Prop} {lo hi : Option κ} {ks : List κ} {cs : List ν}

theorem spans_length (h : Spans P lo ks cs hi) : cs.length = ks.length + 1 := by
  induction ks generalizing lo cs with
  | nil =>
    match cs, h with
    | [_], _ => rfl
  | cons k ks ih =>
    match cs, h with
    | _ :: _, h => simpa using ih h.2

theorem spans_mono (h : Spans P lo ks cs hi) (hPQ : ∀ c ∈ cs, ∀ a b, P c a b → Q c a b) :
    Spans Q lo ks cs hi := by
  induction ks generalizing lo cs with
  | nil =>
    match cs, h with
    | [c], h => exact hPQ c (by simp) _ _ h
  | cons k ks ih =>
    match cs, h with
    | c :: cs, h =>
      exact ⟨hPQ c (by simp) _ _ h.1, ih h.2 fun d hd => hPQ d (by simp [hd])⟩

theorem spans_mem (h : Spans P lo ks cs hi) {c : ν} (hc : c ∈ cs) : ∃ a b, P c a b := by
  induction ks generalizing lo cs with
  | nil =>
    match cs, h with
    | [d], h =>
      obtain rfl : c = d := by simpa using hc
      exact ⟨_, _, h⟩
  | cons k ks ih =>
    match cs, h with
    | d :: cs, h =>
      rcases List.mem_cons.mp hc with rfl | hc
      · exact ⟨_, _, h.1⟩
      · exact ih h.2 hc

theorem spans_getElem (h : Spans P lo ks cs hi) {i : Nat} {c : ν} (hc : cs[i]? = some c) :
    ∃ a b, P c a b ∧ (lo :: ks.map some)[i]? = some a ∧ (ks.map some ++ [hi])[i]? = some b := by
  induction ks generalizing lo cs i with
  | nil =>
    match cs, h with
    | [d], h =>
      obtain ⟨rfl, rfl⟩ : i = 0 ∧ d = c := by
        cases i with
        | zero => exact ⟨rfl, by simpa using hc⟩
        | succ i => simp at hc
      exact ⟨lo, hi, h, rfl, rfl⟩
  | cons k ks ih =>
    match cs, h with
    | d :: cs, h =>
      cases i with
      | zero =>
        obtain rfl : d = c := by simpa using hc
        exact ⟨lo, some k, h.1, rfl, rfl⟩
      | succ i =>
        obtain ⟨a, b, hP, hleft, hright⟩ := ih h.2 (by simpa using hc)
        exact ⟨a, b, hP, by simpa using hleft, by simpa using hright⟩

/-- Cutting a node at one of its separators cuts its interval there. -/
theorem spans_split (h : Spans P lo ks cs hi) {m : Nat} {k : κ} (hk : ks[m]? = some k) :
    Spans P lo (ks.take m) (cs.take (m + 1)) (some k) ∧
      Spans P (some k) (ks.drop (m + 1)) (cs.drop (m + 1)) hi := by
  induction m generalizing lo ks cs with
  | zero =>
    match ks, cs, h, hk with
    | _ :: _, _ :: _, h, hk =>
      obtain rfl := Option.some.inj hk
      exact ⟨h.1, h.2⟩
  | succ m ih =>
    match ks, cs, h, hk with
    | _ :: _, _ :: _, h, hk =>
      obtain ⟨hl, hr⟩ := ih h.2 (by simpa using hk)
      exact ⟨⟨h.1, hl⟩, hr⟩

theorem spans_insert [DecidableEq ν] (h : Spans P lo ks cs hi) (hnd : cs.Nodup)
    {left right : ν} {sep : κ} (hl : left ∈ cs)
    (hother : ∀ c ∈ cs, c ≠ left → ∀ a b, P c a b → Q c a b)
    (hcut : ∀ a b, P left a b → Q left a (some sep) ∧ Q right (some sep) b) :
    Spans Q lo (ks.insertIdx (cs.idxOf left) sep) (cs.insertIdx (cs.idxOf left + 1) right) hi := by
  induction ks generalizing lo cs with
  | nil =>
    match cs, h with
    | [c], h =>
      obtain rfl : left = c := by simpa using hl
      simpa [Spans] using hcut _ _ h
  | cons k ks ih =>
    match cs, h with
    | c :: cs, h =>
      obtain ⟨hc, hnd⟩ := List.nodup_cons.mp hnd
      by_cases hcl : c = left
      · subst hcl
        have hrest : Spans Q (some k) ks cs hi := spans_mono h.2 fun d hd =>
          hother d (by simp [hd]) fun heq => hc (heq ▸ hd)
        simpa [Spans] using ⟨(hcut _ _ h.1).1, (hcut _ _ h.1).2, hrest⟩
      · have hmem : left ∈ cs := by
          rcases List.mem_cons.mp hl with heq | hmem
          · exact absurd heq.symm hcl
          · exact hmem
        have hrest := ih h.2 hnd hmem fun d hd => hother d (by simp [hd])
        rw [List.idxOf_cons_ne _ hcl]
        exact ⟨hother c (by simp) hcl _ _ h.1, hrest⟩

end Shape

/-! The keys below the children, when each child keeps to its interval. -/

section Bounds
variable {cmp : κ → κ → Int} {dup : Bool}

def AboveLo (cmp : κ → κ → Int) (lo : Option κ) (k : κ) : Prop := ∀ s ∈ lo, cmp s k ≤ 0

def BelowHi (cmp : κ → κ → Int) (dup : Bool) (hi : Option κ) (k : κ) : Prop :=
  ∀ s ∈ hi, Before cmp dup k s

def Ordered (cmp : κ → κ → Int) (lo hi : Option κ) : Prop := ∀ s ∈ lo, ∀ s' ∈ hi, cmp s s' ≤ 0

/-- A child whose interval is not inverted and whose keys `K c` lie in it, in order. -/
structure Keeps (cmp : κ → κ → Int) (dup : Bool) (K : ν → List κ) (c : ν) (lo hi : Option κ) :
    Prop where
  ordered : Ordered cmp lo hi
  above : ∀ k ∈ K c, AboveLo cmp lo k
  below : ∀ k ∈ K c, BelowHi cmp dup hi k
  sorted : (K c).Pairwise (Before cmp dup)

variable {K : ν → List κ} {lo hi : Option κ} {ks : List κ} {cs : List ν}

theorem AboveLo.mono (hc : TotalPreorder cmp) {s k : κ} (hs : AboveLo cmp lo s)
    (hk : AboveLo cmp (some s) k) : AboveLo cmp lo k :=
  fun l hl => hc.trans l s k (hs l hl) (hk s rfl)

theorem BelowHi.mono (hc : TotalPreorder cmp) {s k : κ} (hs : ∀ l ∈ hi, cmp s l ≤ 0)
    (hk : BelowHi cmp dup (some s) k) : BelowHi cmp dup hi k :=
  fun l hl => (hk s rfl).trans_le hc (hs l hl)

theorem spans_keeps (hc : TotalPreorder cmp) (h : Spans (Keeps cmp dup K) lo ks cs hi) :
    Keeps cmp dup (fun cs : List ν => cs.flatMap K) cs lo hi := by
  induction ks generalizing lo cs with
  | nil =>
    match cs, h with
    | [c], h => exact ⟨h.ordered, by simpa using h.above, by simpa using h.below,
        by simpa using h.sorted⟩
  | cons s ks ih =>
    match cs, h with
    | c :: cs, ⟨hd, htl⟩ =>
      have hr := ih htl
      have hlo : AboveLo cmp lo s := fun l hl => hd.ordered l hl s rfl
      have hhi : ∀ l ∈ hi, cmp s l ≤ 0 := fun l hl => hr.ordered s rfl l hl
      refine ⟨fun l hl l' hl' => hc.trans l s l' (hlo l hl) (hhi l' hl'), ?_, ?_, ?_⟩
      · intro k hk
        rcases List.mem_append.mp (List.flatMap_cons ▸ hk) with hk | hk
        · exact hd.above k hk
        · exact hlo.mono hc (hr.above k hk)
      · intro k hk
        rcases List.mem_append.mp (List.flatMap_cons ▸ hk) with hk | hk
        · exact BelowHi.mono hc hhi (hd.below k hk)
        · exact hr.below k hk
      · simp only [List.flatMap_cons, List.pairwise_append]
        refine ⟨hd.sorted, hr.sorted, fun a ha b hb => ?_⟩
        exact (hd.below a ha s rfl).trans_le hc (hr.above b hb s rfl)

/-- The separators of a row of children lie in its interval. -/
theorem spans_separator (hc : TotalPreorder cmp) (h : Spans (Keeps cmp dup K) lo ks cs hi)
    {s : κ} (hs : s ∈ ks) : AboveLo cmp lo s ∧ ∀ l ∈ hi, cmp s l ≤ 0 := by
  obtain ⟨m, hm⟩ := List.getElem?_of_mem hs
  obtain ⟨hl, hr⟩ := spans_split h hm
  exact ⟨fun l hl' => (spans_keeps hc hl).ordered l hl' s rfl, (spans_keeps hc hr).ordered s rfl⟩

theorem spans_descend {P : ν → Option κ → Option κ → Prop} (hc : TotalPreorder cmp)
    (hP : ∀ c a b, P c a b → Keeps cmp dup K c a b) (h : Spans P lo ks cs hi) {k : κ}
    (hlo : AboveLo cmp lo k) (hhi : ∀ s ∈ hi, cmp k s < 0) :
    ∃ l c r a b, cs = l ++ c :: r ∧ l.length = ks.findIdx (fun s => 0 < cmp s k) ∧ P c a b ∧
      AboveLo cmp a k ∧ (∀ s ∈ b, cmp k s < 0) ∧
      (∀ x ∈ l.flatMap K, ∃ s, a = some s ∧ Before cmp dup x s) ∧
      (∀ x ∈ r.flatMap K, ∃ s, b = some s ∧ cmp s x ≤ 0) ∧
      (a = lo ∨ ∃ s ∈ ks, a = some s) ∧ (b = hi ∨ ∃ s ∈ ks, b = some s) := by
  induction ks generalizing lo cs with
  | nil =>
    match cs, h with
    | [c], h => exact ⟨[], c, [], lo, hi, rfl, rfl, h, hlo, hhi, by simp, by simp, .inl rfl, .inl rfl⟩
  | cons s ks ih =>
    match cs, h with
    | c :: cs, ⟨hd, htl⟩ =>
      have htl' := spans_mono htl fun c _ a b => hP c a b
      -- Either `s` is the first separator above `k` and `c` answers for it, or the search goes on
      -- among the children behind `c`.
      by_cases hsk : 0 < cmp s k
      · refine ⟨[], c, cs, lo, some s, rfl, by simp [List.findIdx_cons, hsk], hd, hlo, ?_, by simp, ?_,
          .inl rfl, .inr ⟨s, by simp, rfl⟩⟩
        · rintro _ ⟨⟩
          exact (hc.swap k s).mpr hsk
        · exact fun x hx => ⟨s, rfl, (spans_keeps hc htl').above x hx s rfl⟩
      · have hle : cmp s k ≤ 0 := by omega
        have hsk' : AboveLo cmp (some s) k := by rintro _ ⟨⟩; exact hle
        obtain ⟨l, d, r, a, b, rfl, hlen, hkeep, ha, hb, hleft, hright, hao, hbo⟩ := ih htl hsk'
        have hsa : ∃ s', a = some s' ∧ cmp s s' ≤ 0 := by
          rcases hao with rfl | ⟨s', hs', rfl⟩
          · exact ⟨s, rfl, Int.le_of_eq (hc.refl s)⟩
          · exact ⟨s', rfl, (spans_separator hc htl' hs').1 s rfl⟩
        obtain ⟨s', rfl, hss'⟩ := hsa
        refine ⟨c :: l, d, r, some s', b, rfl, by simp [List.findIdx_cons, hsk, hlen], hkeep, ha, hb,
          ?_, hright, ?_, ?_⟩
        · intro x hx
          rcases List.mem_append.mp (List.flatMap_cons ▸ hx) with hx | hx
          · exact ⟨s', rfl, ((hP _ _ _ hd).below x hx s rfl).trans_le hc hss'⟩
          · exact hleft x hx
        · rcases hao with hao | ⟨u, hu, hao⟩
          · exact .inr ⟨s, by simp, hao⟩
          · exact .inr ⟨u, by simp [hu], hao⟩
        · rcases hbo with hbo | ⟨u, hu, hbo⟩
          · exact .inl hbo
          · exact .inr ⟨u, by simp [hu], hbo⟩

end Bounds

end Dbms.Lib
