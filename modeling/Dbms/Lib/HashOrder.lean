import Mathlib.Data.Finset.Basic
import Mathlib.Data.List.Sort

/-! Orders that a library leaves open: the order in which a hash container is walked, which lists
each element once, and the order that an unstable sort gives to equal keys. -/

namespace Dbms.Lib

structure HashOrder (α : Type*) where
  toList : Finset α → List α
  nodup : ∀ s, (toList s).Nodup
  mem_toList : ∀ s a, a ∈ toList s ↔ a ∈ s

namespace HashOrder
variable {α : Type*}

def sorted (α : Type*) [LinearOrder α] : HashOrder α where
  toList s := s.val.liftOn (List.insertionSort (· ≤ ·)) fun a b h =>
    List.Perm.eq_of_pairwise' (List.pairwise_insertionSort _ _) (List.pairwise_insertionSort _ _)
      (((List.perm_insertionSort _ a).trans h).trans (List.perm_insertionSort _ b).symm)
  nodup s := by
    obtain ⟨⟨l⟩, hl⟩ := s
    exact (List.perm_insertionSort _ l).nodup_iff.mpr hl
  mem_toList s a := by
    obtain ⟨⟨l⟩, hl⟩ := s
    exact (List.perm_insertionSort _ l).mem_iff

theorem perm (o o' : HashOrder α) (s : Finset α) : (o.toList s).Perm (o'.toList s) :=
  (List.perm_ext_iff_of_nodup (o.nodup s) (o'.nodup s)).mpr fun a => by
    rw [o.mem_toList, o'.mem_toList]

def front [DecidableEq α] (o : HashOrder α) (a : α) : HashOrder α where
  toList s := if a ∈ s then a :: (o.toList s).erase a else o.toList s
  nodup s := by
    split
    · exact List.nodup_cons.mpr ⟨(o.nodup s).not_mem_erase, (o.nodup s).erase a⟩
    · exact o.nodup s
  mem_toList s b := by
    split
    · rename_i ha
      by_cases hb : b = a
      · simp [hb, ha]
      · simp [hb, o.mem_toList, List.mem_erase_of_ne hb]
    · exact o.mem_toList s b

theorem front_toList [DecidableEq α] (o : HashOrder α) {a : α} {s : Finset α} (h : a ∈ s) :
    (o.front a).toList s = a :: (o.toList s).erase a := if_pos h

example : (sorted Nat).toList {5, 1, 3} = [1, 3, 5] := by decide

end HashOrder

structure SortBy {α : Type*} (key : α → Nat) where
  sort : List α → List α
  perm : ∀ l, (sort l).Perm l
  sorted : ∀ l, (sort l).Pairwise fun a b => key a ≤ key b

def SortBy.stable {α : Type*} (key : α → Nat) : SortBy key where
  sort := List.insertionSort fun a b => key a ≤ key b
  perm := List.perm_insertionSort _
  sorted l := by
    have : Std.Total fun a b : α => key a ≤ key b := ⟨fun a b => Nat.le_total _ _⟩
    have : IsTrans α fun a b : α => key a ≤ key b := ⟨fun a b c => Nat.le_trans⟩
    exact List.pairwise_insertionSort _ l

theorem SortBy.sort_head {α : Type*} {key : α → Nat} (S : SortBy key) {x : α} {l : List α}
    (h : ∀ e ∈ l, key x < key e) :
    ∃ l', S.sort (x :: l) = x :: l' ∧ ∀ e ∈ l', key x ≤ key e := by
  cases hsort : S.sort (x :: l) with
  | nil =>
    have hlen := (S.perm (x :: l)).length_eq
    rw [hsort] at hlen
    cases hlen
  | cons a l' =>
    have hsorted := S.sorted (x :: l)
    rw [hsort, List.pairwise_cons] at hsorted
    have hmem : ∀ e, e ∈ a :: l' ↔ e ∈ x :: l := by
      rw [← hsort]
      exact fun e => (S.perm (x :: l)).mem_iff
    have ha : a = x := by
      rcases List.mem_cons.mp ((hmem a).mp List.mem_cons_self) with rfl | ha
      · rfl
      · rcases List.mem_cons.mp ((hmem x).mpr List.mem_cons_self) with rfl | hx
        · rfl
        · exact absurd (hsorted.1 x hx) (Nat.not_le.mpr (h a ha))
    subst ha
    exact ⟨l', rfl, hsorted.1⟩

end Dbms.Lib
